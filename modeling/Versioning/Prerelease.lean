import Versioning.Label
import Versioning.Number

/-!
# Prerelease tags

The part of a version after `-`. A tag has a number and words on both sides of it, each of which
may be missing: `beta.nightly.14.untested` is `beta.nightly`, 14 and `untested`.
-/

namespace Versioning

/-- The parts of a prerelease tag. The words may hold dots. -/
structure Tag where
  before : Option Label
  number : Option Number
  after : Option Label
deriving DecidableEq, Hashable

namespace Tag

def isEmpty (t : Tag) : Bool :=
  t.before.isNone && t.number.isNone && t.after.isNone

def parts (t : Tag) : List String :=
  (t.before.map Label.text).toList ++ (t.number.map Number.text).toList ++
    (t.after.map Label.text).toList

def text (t : Tag) : String :=
  ".".intercalate t.parts

/-- The tag with the next number; a tag without a number gets 0. -/
def next (t : Tag) : Tag :=
  { t with number := some (t.number.elim 0 Number.succ) }

theorem isEmpty_iff {t : Tag} : t.isEmpty = true ↔ t = ⟨none, none, none⟩ := by
  rcases t with ⟨_ | b, _ | n, _ | a⟩ <;> simp [isEmpty]

@[simp] theorem isEmpty_next (t : Tag) : t.next.isEmpty = false := by
  simp [isEmpty, next]

end Tag

/-- The prerelease of a version. A tag without parts is no prerelease, which `tag?` sees to. -/
inductive Prerelease
  | none
  | tag (t : Tag)

namespace Prerelease

instance : Inhabited Prerelease := ⟨none⟩

/-- The tag, unless it is missing or empty. All but the printed structure depends on this alone. -/
def tag? : Prerelease → Option Tag
  | none => .none
  | tag t => if t.isEmpty then .none else some t

def ofParts (before : Option Label) (number : Option Number) (after : Option Label) : Prerelease :=
  if Tag.isEmpty ⟨before, number, after⟩ then none else tag ⟨before, number, after⟩

def isNone (p : Prerelease) : Bool :=
  p.tag?.isNone

def before (p : Prerelease) : Option Label :=
  p.tag?.bind Tag.before

def number (p : Prerelease) : Option Number :=
  p.tag?.bind Tag.number

def after (p : Prerelease) : Option Label :=
  p.tag?.bind Tag.after

def text (p : Prerelease) : String :=
  p.tag?.elim "" Tag.text

/-- The prerelease with the next number; a release stays one. -/
def next (p : Prerelease) : Prerelease :=
  p.tag?.elim none fun t => tag t.next

/-- Two prereleases are the same if they have the same tag. -/
instance : BEq Prerelease := ⟨fun p q => p.tag? == q.tag?⟩

instance : Hashable Prerelease := ⟨fun p => hash p.tag?⟩

@[simp] theorem tag?_none : none.tag? = .none := rfl

theorem tag?_tag {t : Tag} (h : t.isEmpty = false) : (tag t).tag? = some t := by
  simp [tag?, h]

theorem isEmpty_of_tag? {p : Prerelease} {t : Tag} (h : p.tag? = some t) : t.isEmpty = false := by
  cases p with
  | none => contradiction
  | tag u =>
    cases hu : u.isEmpty <;> simp [tag?, hu] at h
    exact h ▸ hu

@[simp] theorem tag?_ofParts (b : Option Label) (n : Option Number) (a : Option Label) :
    (ofParts b n a).tag? = if Tag.isEmpty ⟨b, n, a⟩ then .none else some ⟨b, n, a⟩ := by
  unfold ofParts
  split <;> simp [tag?, *]

@[simp] theorem tag?_next (p : Prerelease) : p.next.tag? = p.tag?.map Tag.next := by
  unfold next
  cases p.tag? <;> simp [tag?_tag]

theorem beq_iff {p q : Prerelease} : (p == q) = true ↔ p.tag? = q.tag? :=
  beq_iff_eq (a := p.tag?)

instance : ReflBEq Prerelease := ⟨fun {_} => beq_iff.2 rfl⟩

instance : LawfulHashable Prerelease :=
  ⟨fun _ _ h => congrArg (hash : Option Tag → UInt64) (beq_iff.1 h)⟩

end Prerelease

end Versioning
