/-!
# Sorting

Lists in ascending order. Elements that the order does not tell apart keep their places.
-/

namespace Versioning

def ascending {α : Type} [Ord α] (xs : List α) : List α :=
  xs.mergeSort fun a b => (compare a b).isLE

theorem ascending_perm {α : Type} [Ord α] (xs : List α) : (ascending xs).Perm xs :=
  List.mergeSort_perm xs _

/-- It is enough that the order is total on the elements of one kind, when all are of that kind. -/
theorem pairwise_ascending_map {α β : Type} [Ord β] {f : α → β}
    (htrans : ∀ a b c, (compare (f a) (f b)).isLE = true → (compare (f b) (f c)).isLE = true →
      (compare (f a) (f c)).isLE = true)
    (htotal : ∀ a b, (compare (f a) (f b)).isLE = true ∨ (compare (f b) (f a)).isLE = true)
    (xs : List α) : (ascending (xs.map f)).Pairwise fun a b => (compare a b).isLE = true := by
  let le (a b : α) : Bool := (compare (f a) (f b)).isLE
  have hsorted : (xs.mergeSort le).Pairwise fun a b => le a b = true :=
    List.pairwise_mergeSort htrans (fun a b => by simpa using htotal a b) xs
  have hmap : (xs.mergeSort le).map f = ascending (xs.map f) :=
    List.map_mergeSort fun _ _ _ _ => rfl
  rw [← hmap]
  exact List.pairwise_map.2 hsorted

end Versioning
