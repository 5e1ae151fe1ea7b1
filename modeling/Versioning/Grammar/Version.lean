import Versioning.Grammar.Piece

/-!
# The grammar of versions

    release := digits ("." slot ("." slot)?)?
    exact   := release ("-" dotted)? ("+" dotted)?      slot := digits
    pattern := release                                  slot := digits | "*" | "x" | "X"

The readers give versions as they are written: pieces of the input whose numbers are not yet
converted. An optional part that does not follow in full is left unread.
-/

namespace Versioning.Grammar

inductive Slot
  | number (digits : Piece)
  | wildcard
deriving DecidableEq

/-- A release with slots of type `σ` after the major. -/
inductive ReleaseText (σ : Type)
  | single (major : Piece)
  | pair (major : Piece) (minor : σ)
  | triple (major : Piece) (minor patch : σ)
deriving DecidableEq

namespace ReleaseText

variable {σ τ : Type}

def major : ReleaseText σ → Piece
  | single m | pair m _ | triple m _ _ => m

def minor? : ReleaseText σ → Option σ
  | single _ => none
  | pair _ n | triple _ n _ => some n

def patch? : ReleaseText σ → Option σ
  | single _ | pair _ _ => none
  | triple _ _ p => some p

def map (f : σ → τ) : ReleaseText σ → ReleaseText τ
  | single m => single m
  | pair m n => pair m (f n)
  | triple m n p => triple m (f n) (f p)

def isTriple : ReleaseText σ → Bool
  | triple _ _ _ => true
  | _ => false

end ReleaseText

abbrev PatternText := ReleaseText Slot

/-- Whether the pattern gives all three numbers, as no pattern should. -/
def isNumberTriple : PatternText → Bool
  | .triple _ (.number _) (.number _) => true
  | _ => false

structure ExactText where
  release : ReleaseText Piece
  prerelease : Option Piece
  build : Option Piece
deriving DecidableEq

inductive VersionText
  | exact (v : ExactText)
  | pattern (w : PatternText)
deriving DecidableEq

/-- Whether a text that fits both forms is an exact version: it has three numbers, or a tag. -/
def ExactText.isExact (v : ExactText) : Bool :=
  v.release.isTriple || v.prerelease.isSome || v.build.isSome

def isWildcardChar (c : Char) : Bool :=
  c == '*' || c == 'x' || c == 'X'

def number? (s : List Char) : Option (Piece × List Char) :=
  (digits? s).map fun p => (p, p.after)

def wildcard? : List Char → Option (List Char)
  | c :: s => if isWildcardChar c then some s else none
  | [] => none

def slot? (s : List Char) : Option (Slot × List Char) :=
  match number? s with
  | some (p, r) => some (.number p, r)
  | none => (wildcard? s).map fun r => (.wildcard, r)

def dotSlot? {σ : Type} (slot? : List Char → Option (σ × List Char)) :
    List Char → Option (σ × List Char)
  | '.' :: s => slot? s
  | _ => none

def release? {σ : Type} (slot? : List Char → Option (σ × List Char)) (s : List Char) :
    Option (ReleaseText σ × List Char) := do
  let (major, r) ← number? s
  match dotSlot? slot? r with
  | none => some (.single major, r)
  | some (minor, r) =>
    match dotSlot? slot? r with
    | none => some (.pair major minor, r)
    | some (patch, r) => some (.triple major minor patch, r)

/-- The mark and then a dotted text, unless they do not follow. -/
def tagged (mark : Char) (s : List Char) : Option Piece × List Char :=
  match s with
  | [] => (none, s)
  | c :: r =>
    if c = mark then
      match dotted? r with
      | some p => (some p, p.after)
      | none => (none, s)
    else (none, s)

def exactText? (s : List Char) : Option (ExactText × List Char) := do
  let (release, r) ← release? number? s
  let (prerelease, r) := tagged '-' r
  let (build, r) := tagged '+' r
  some (⟨release, prerelease, build⟩, r)

def patternText? (s : List Char) : Option (PatternText × List Char) :=
  release? slot? s

/-- Reads an exact version if one fills the text, and otherwise a pattern at its head. -/
def versionText? (s : List Char) : Option (VersionText × List Char) :=
  match exactText? s with
  | some (v, []) => some (if v.isExact then .exact v else .pattern (v.release.map .number), [])
  | _ => (patternText? s).map fun (w, r) => (.pattern w, r)

/-- A version in a range. Only three numbers make it exact, and they alone may carry tags. -/
def boundText? (s : List Char) : Option (VersionText × List Char) :=
  match exactText? s with
  | some (⟨.triple m n p, prerelease, build⟩, r) =>
    some (.exact ⟨.triple m n p, prerelease, build⟩, r)
  | _ => (patternText? s).map fun (w, r) => (.pattern w, r)

/-! ## Progress -/

theorem number?_follows {s r : List Char} {p : Piece} (h : number? s = some (p, r)) :
    Follows r s := by
  obtain ⟨q, hq, he⟩ := Option.map_eq_some_iff.1 h
  cases he
  exact digits?_follows hq

theorem wildcard?_follows {s r : List Char} (h : wildcard? s = some r) : Follows r s := by
  cases s with
  | nil => contradiction
  | cons c s =>
    simp only [wildcard?] at h
    split at h
    · cases h; exact Follows.cons c r
    · contradiction

theorem slot?_follows {s r : List Char} {x : Slot} (h : slot? s = some (x, r)) : Follows r s := by
  unfold slot? at h
  split at h
  · cases h; exact number?_follows ‹_›
  · obtain ⟨q, hq, he⟩ := Option.map_eq_some_iff.1 h
    cases he
    exact wildcard?_follows hq

theorem dotSlot?_follows {σ : Type} {slot? : List Char → Option (σ × List Char)}
    (hs : ∀ {s r x}, slot? s = some (x, r) → Follows r s) {s r : List Char} {x : σ}
    (h : dotSlot? slot? s = some (x, r)) : Follows r s := by
  unfold dotSlot? at h
  split at h
  · exact (hs h).trans (Follows.cons _ _)
  · contradiction

theorem release?_follows {σ : Type} {slot? : List Char → Option (σ × List Char)}
    (hs : ∀ {s r x}, slot? s = some (x, r) → Follows r s) {s r : List Char} {x : ReleaseText σ}
    (h : release? slot? s = some (x, r)) : Follows r s := by
  obtain ⟨⟨m, r₁⟩, hm, h⟩ := Option.bind_eq_some_iff.1 h
  have hm := number?_follows hm
  simp only at h
  split at h
  · cases h; exact hm
  · have hn := (dotSlot?_follows hs ‹_›).trans hm
    split at h
    · cases h; exact hn
    · cases h; exact (dotSlot?_follows hs ‹_›).trans hn

theorem tagged_isSuffix (mark : Char) (s : List Char) : (tagged mark s).2 <:+ s := by
  unfold tagged
  split
  · exact List.suffix_refl _
  · split
    · split
      · exact (dotted?_follows ‹_›).isSuffix.trans (List.suffix_cons _ _)
      · exact List.suffix_refl _
    · exact List.suffix_refl _

theorem exactText?_follows {s r : List Char} {v : ExactText} (h : exactText? s = some (v, r)) :
    Follows r s := by
  obtain ⟨⟨x, r₁⟩, hx, h⟩ := Option.bind_eq_some_iff.1 h
  cases h
  exact Follows.trans_isSuffix ((tagged_isSuffix '+' _).trans (tagged_isSuffix '-' _))
    (release?_follows number?_follows hx)

theorem patternText?_follows {s r : List Char} {w : PatternText}
    (h : patternText? s = some (w, r)) : Follows r s :=
  release?_follows slot?_follows h

theorem boundText?_follows {s r : List Char} {v : VersionText} (h : boundText? s = some (v, r)) :
    Follows r s := by
  unfold boundText? at h
  split at h
  · cases h; exact exactText?_follows ‹_›
  · obtain ⟨⟨w, q⟩, hq, he⟩ := Option.map_eq_some_iff.1 h
    cases he
    exact patternText?_follows hq

end Versioning.Grammar
