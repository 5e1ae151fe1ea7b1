import Versioning.Grammar.Version
import Versioning.Operator

/-!
# The grammar of ranges

    range       := alternative (separator alternative)*
    separator   := ws* "||" ws* | ws+                         ws := space, tab, CR or LF
    alternative := hyphen | caret | tilde | comparison | any | bound
    hyphen      := bound ws+ "-" ws+ bound | pattern ws* "-" ws* bound
    caret       := "^" "="? ws* bound
    tilde       := ("~>" | "~") "="? ws* bound
    comparison  := ("<=" | ">=" | "<" | ">" | "=") ws* bound
    any         := (">=" | "<=" | "=")? wildcard ("." wildcard)*

The first form that fits is taken. The pattern of a hyphen without blanks must not give three
numbers, since `1.2.3-4` is a version with a tag. A separator without an alternative after it is
left unread.
-/

namespace Versioning.Grammar

/-- One alternative of a range, as it is written. -/
inductive AlternativeText
  | hyphen (lower upper : VersionText)
  | caret (version : VersionText)
  | tilde (version : VersionText)
  /-- A caret or tilde with an equals sign, which asks for the version itself. -/
  | pinned (version : VersionText)
  | comparison (operator : Operator) (bound : VersionText)
  | any
  | plain (version : VersionText)
deriving DecidableEq

def isSpace (c : Char) : Bool :=
  c == ' ' || c == '\t' || c == '\r' || c == '\n'

def skipSpaces (s : List Char) : List Char :=
  s.dropWhile isSpace

def spaces? : List Char → Option (List Char)
  | c :: s => if isSpace c then some (skipSpaces s) else none
  | [] => none

def spacedHyphen? (s : List Char) : Option (List Char) :=
  match spaces? s with
  | some ('-' :: r) => spaces? r
  | _ => none

/-- A hyphen, with or without spaces around it. -/
def tightHyphen? (s : List Char) : Option (List Char) :=
  match skipSpaces s with
  | '-' :: r => some (skipSpaces r)
  | _ => none

def spacedInterval? (s : List Char) : Option (AlternativeText × List Char) := do
  let (lower, r) ← boundText? s
  let r ← spacedHyphen? r
  let (upper, r) ← boundText? r
  some (.hyphen lower upper, r)

def tightInterval? (s : List Char) : Option (AlternativeText × List Char) := do
  let (lower, r) ← patternText? s
  if isNumberTriple lower then none else do
  let r ← tightHyphen? r
  let (upper, r) ← boundText? r
  some (.hyphen (.pattern lower) upper, r)

def hyphen? (s : List Char) : Option (AlternativeText × List Char) :=
  (spacedInterval? s).or (tightInterval? s)

/-- What follows a caret or tilde. -/
def marked? (form : VersionText → AlternativeText) :
    List Char → Option (AlternativeText × List Char)
  | '=' :: s => (boundText? (skipSpaces s)).map fun (v, r) => (.pinned v, r)
  | s => (boundText? (skipSpaces s)).map fun (v, r) => (form v, r)

def caret? : List Char → Option (AlternativeText × List Char)
  | '^' :: s => marked? .caret s
  | _ => none

def tilde? : List Char → Option (AlternativeText × List Char)
  | '~' :: '>' :: s => marked? .tilde s
  | '~' :: s => marked? .tilde s
  | _ => none

def operator? : List Char → Option (Operator × List Char)
  | '<' :: '=' :: s => some (.lessOrEqual, s)
  | '>' :: '=' :: s => some (.greaterOrEqual, s)
  | '<' :: s => some (.less, s)
  | '>' :: s => some (.greater, s)
  | '=' :: s => some (.equal, s)
  | _ => none

def comparison? (s : List Char) : Option (AlternativeText × List Char) := do
  let (operator, r) ← operator? s
  let (bound, r) ← boundText? (skipSpaces r)
  some (.comparison operator bound, r)

/-- The text after an operator that allows equality, if there is one. -/
def skipEquality : List Char → List Char
  | '>' :: '=' :: s => s
  | '<' :: '=' :: s => s
  | '=' :: s => s
  | s => s

/-- The text after as many dots with wildcards as follow. -/
def skipWildcards : List Char → List Char
  | '.' :: c :: s => if isWildcardChar c then skipWildcards s else '.' :: c :: s
  | s => s

def any? (s : List Char) : Option (AlternativeText × List Char) :=
  (wildcard? (skipEquality s)).map fun r => (.any, skipWildcards r)

def plain? (s : List Char) : Option (AlternativeText × List Char) :=
  (boundText? s).map fun (v, r) => (.plain v, r)

def alternative? (s : List Char) : Option (AlternativeText × List Char) :=
  (hyphen? s).or <| (caret? s).or <| (tilde? s).or <| (comparison? s).or <| (any? s).or (plain? s)

def separator? (s : List Char) : Option (List Char) :=
  match skipSpaces s with
  | '|' :: '|' :: r => some (skipSpaces r)
  | _ => spaces? s

def nextAlternative? (s : List Char) : Option (AlternativeText × List Char) :=
  (separator? s).bind alternative?

/-! ## Progress -/

theorem skipSpaces_isSuffix (s : List Char) : skipSpaces s <:+ s :=
  List.dropWhile_suffix _

theorem spaces?_follows {s r : List Char} (h : spaces? s = some r) : Follows r s := by
  cases s with
  | nil => contradiction
  | cons c s =>
    simp only [spaces?] at h
    split at h
    · cases h; exact (Follows.cons c s).trans_isSuffix (skipSpaces_isSuffix s)
    · contradiction

theorem spacedHyphen?_follows {s r : List Char} (h : spacedHyphen? s = some r) : Follows r s := by
  unfold spacedHyphen? at h
  split at h
  · exact (spaces?_follows h).trans ((Follows.cons _ _).trans (spaces?_follows ‹_›))
  · contradiction

theorem tightHyphen?_follows {s r : List Char} (h : tightHyphen? s = some r) : Follows r s := by
  unfold tightHyphen? at h
  split at h
  · cases h
    exact Follows.trans_isSuffix (skipSpaces_isSuffix _)
      ((Follows.cons _ _).of_isSuffix (‹skipSpaces s = _› ▸ skipSpaces_isSuffix s))
  · contradiction

theorem hyphen?_follows {s r : List Char} {a : AlternativeText} (h : hyphen? s = some (a, r)) :
    Follows r s := by
  rcases Option.or_eq_some_iff.1 h with h | ⟨_, h⟩
  · obtain ⟨⟨l, r₁⟩, hl, h⟩ := Option.bind_eq_some_iff.1 h
    obtain ⟨r₂, hh, h⟩ := Option.bind_eq_some_iff.1 h
    obtain ⟨⟨u, r₃⟩, hu, h⟩ := Option.bind_eq_some_iff.1 h
    cases h
    exact (boundText?_follows hu).trans ((spacedHyphen?_follows hh).trans (boundText?_follows hl))
  · obtain ⟨⟨l, r₁⟩, hl, h⟩ := Option.bind_eq_some_iff.1 h
    simp only at h
    split at h
    · contradiction
    · obtain ⟨r₂, hh, h⟩ := Option.bind_eq_some_iff.1 h
      obtain ⟨⟨u, r₃⟩, hu, h⟩ := Option.bind_eq_some_iff.1 h
      cases h
      exact (boundText?_follows hu).trans <|
        (tightHyphen?_follows hh).trans (patternText?_follows hl)

theorem marked?_follows {form : VersionText → AlternativeText} {s r : List Char}
    {a : AlternativeText} (h : marked? form s = some (a, r)) : Follows r s := by
  unfold marked? at h
  split at h
  all_goals
    obtain ⟨⟨v, q⟩, hv, he⟩ := Option.map_eq_some_iff.1 h
    cases he
  · exact ((boundText?_follows hv).of_isSuffix (skipSpaces_isSuffix _)).trans (Follows.cons _ _)
  · exact (boundText?_follows hv).of_isSuffix (skipSpaces_isSuffix _)

theorem caret?_follows {s r : List Char} {a : AlternativeText} (h : caret? s = some (a, r)) :
    Follows r s := by
  unfold caret? at h
  split at h
  · exact (marked?_follows h).trans (Follows.cons _ _)
  · contradiction

theorem tilde?_follows {s r : List Char} {a : AlternativeText} (h : tilde? s = some (a, r)) :
    Follows r s := by
  unfold tilde? at h
  split at h
  · exact (marked?_follows h).trans ((Follows.cons _ _).trans (Follows.cons _ _))
  · exact (marked?_follows h).trans (Follows.cons _ _)
  · contradiction

theorem operator?_follows {s r : List Char} {o : Operator} (h : operator? s = some (o, r)) :
    Follows r s := by
  unfold operator? at h
  split at h <;> cases h
  all_goals first | exact (Follows.cons _ _).trans (Follows.cons _ _) | exact Follows.cons _ _

theorem comparison?_follows {s r : List Char} {a : AlternativeText}
    (h : comparison? s = some (a, r)) : Follows r s := by
  obtain ⟨⟨o, r₁⟩, ho, h⟩ := Option.bind_eq_some_iff.1 h
  obtain ⟨⟨b, r₂⟩, hb, h⟩ := Option.bind_eq_some_iff.1 h
  cases h
  exact ((boundText?_follows hb).of_isSuffix (skipSpaces_isSuffix _)).trans (operator?_follows ho)

theorem skipEquality_isSuffix (s : List Char) : skipEquality s <:+ s := by
  unfold skipEquality
  split
  all_goals first
    | exact (List.suffix_cons _ _).trans (List.suffix_cons _ _)
    | exact List.suffix_cons _ _
    | exact List.suffix_refl _

theorem skipWildcards_isSuffix (s : List Char) : skipWildcards s <:+ s := by
  fun_induction skipWildcards s with
  | case1 c s _ ih => exact ih.trans ((List.suffix_cons _ _).trans (List.suffix_cons _ _))
  | case2 => exact List.suffix_refl _
  | case3 => exact List.suffix_refl _

theorem any?_follows {s r : List Char} {a : AlternativeText} (h : any? s = some (a, r)) :
    Follows r s := by
  obtain ⟨q, hq, he⟩ := Option.map_eq_some_iff.1 h
  cases he
  exact ((wildcard?_follows hq).trans_isSuffix (skipWildcards_isSuffix q)).of_isSuffix
    (skipEquality_isSuffix s)

theorem plain?_follows {s r : List Char} {a : AlternativeText} (h : plain? s = some (a, r)) :
    Follows r s := by
  obtain ⟨⟨v, q⟩, hv, he⟩ := Option.map_eq_some_iff.1 h
  cases he
  exact boundText?_follows hv

theorem alternative?_follows {s r : List Char} {a : AlternativeText}
    (h : alternative? s = some (a, r)) : Follows r s := by
  simp only [alternative?, Option.or_eq_some_iff] at h
  rcases h with h | ⟨_, h | ⟨_, h | ⟨_, h | ⟨_, h | ⟨_, h⟩⟩⟩⟩⟩
  · exact hyphen?_follows h
  · exact caret?_follows h
  · exact tilde?_follows h
  · exact comparison?_follows h
  · exact any?_follows h
  · exact plain?_follows h

theorem separator?_follows {s r : List Char} (h : separator? s = some r) : Follows r s := by
  unfold separator? at h
  split at h
  · cases h
    exact Follows.trans_isSuffix (skipSpaces_isSuffix _)
      (((Follows.cons _ _).trans (Follows.cons _ _)).of_isSuffix
        (‹skipSpaces s = _› ▸ skipSpaces_isSuffix s))
  · exact spaces?_follows h

theorem nextAlternative?_follows {s r : List Char} {a : AlternativeText}
    (h : nextAlternative? s = some (a, r)) : Follows r s := by
  obtain ⟨q, hq, h⟩ := Option.bind_eq_some_iff.1 h
  exact (alternative?_follows h).trans (separator?_follows hq)

/-! ## Repetition -/

def moreAlternatives (s : List Char) : List AlternativeText × List Char :=
  match _h : nextAlternative? s with
  | none => ([], s)
  | some (a, r) => (moreAlternatives r).map (a :: ·) id
termination_by s.length
decreasing_by exact (nextAlternative?_follows _h).length_lt

def range? (s : List Char) : Option (List AlternativeText × List Char) :=
  (alternative? s).map fun (a, r) => (moreAlternatives r).map (a :: ·) id

end Versioning.Grammar
