import Versioning.Proofs.Grammar.Version
import Versioning.Proofs.RoundTrip.Tag

/-!
# Versions as texts

The text of a version has the form that is read as the version: the same numbers and the same
build. The tag is read as its text says, which is the tag itself only if its number is the last
numeral in it.
-/

namespace Versioning

open Text (IsDotted isBlank isSegmentChar)

/-! ## The characters of a form -/

namespace Grammar

section

variable {P : Char → Prop} {s r : List Char}

theorem NumberForm.forall_mem (hP : ∀ c, isSegmentChar c = true → P c) {p : Piece}
    (h : NumberForm p s r) (hr : ∀ c ∈ r, P c) : ∀ c ∈ s, P c := by
  cases h with
  | digits _ hd =>
      refine List.forall_mem_append.2 ⟨fun c hc => hP c ?_, hr⟩
      simp [isSegmentChar, Char.isAlphanum, hd c hc]

theorem SlotForm.forall_mem (hP : ∀ c, isSegmentChar c = true → P c)
    (hwild : ∀ c, isWildcardChar c = true → P c) {x : Slot} (h : SlotForm x s r)
    (hr : ∀ c ∈ r, P c) : ∀ c ∈ s, P c := by
  cases h with
  | number h => exact h.forall_mem hP hr
  | wildcard hc => exact List.forall_mem_cons.2 ⟨hwild _ hc, hr⟩

theorem ReleaseForm.forall_mem {σ : Type} {slot : Form σ} (hP : ∀ c, isSegmentChar c = true → P c)
    (hdot : P '.') (hslot : ∀ {x s r}, slot x s r → (∀ c ∈ r, P c) → ∀ c ∈ s, P c)
    {x : ReleaseText σ} (h : ReleaseForm slot x s r) (hr : ∀ c ∈ r, P c) : ∀ c ∈ s, P c := by
  have after {t : List Char} (ht : ∀ c ∈ t, P c) : ∀ c ∈ '.' :: t, P c :=
    List.forall_mem_cons.2 ⟨hdot, ht⟩
  cases h with
  | single hm => exact hm.forall_mem hP hr
  | pair hm hn => exact hm.forall_mem hP (after (hslot hn hr))
  | triple hm hn hp => exact hm.forall_mem hP (after (hslot hn (after (hslot hp hr))))

theorem TaggedForm.forall_mem (hP : ∀ c, isSegmentChar c = true → P c) (hdot : P '.') {mark : Char}
    (hmark : P mark) {x : Option Piece} (h : TaggedForm mark x s r) (hr : ∀ c ∈ r, P c) :
    ∀ c ∈ s, P c := by
  cases h with
  | absent => exact hr
  | present h =>
      cases h with
      | segments h =>
          exact List.forall_mem_cons.2 ⟨hmark, List.forall_mem_append.2 ⟨h.forall_mem hP hdot, hr⟩⟩

/-- An exact version is made of the characters of segments, dots and a plus sign. -/
theorem ExactForm.forall_mem (hP : ∀ c, isSegmentChar c = true → P c) (hdot : P '.')
    (hplus : P '+') {x : ExactText} (h : ExactForm x s r) (hr : ∀ c ∈ r, P c) : ∀ c ∈ s, P c := by
  cases h with
  | intro hx hp hb =>
      have hrest := hp.forall_mem hP hdot (hP '-' (by decide)) (hb.forall_mem hP hdot hplus hr)
      exact hx.forall_mem hP hdot (fun hn => hn.forall_mem hP) hrest

theorem ExactForm.not_isBlank {x : ExactText} (h : ExactForm x s []) :
    ∀ c ∈ s, isBlank c = false :=
  h.forall_mem (fun _ => Text.not_isBlank_of_isSegmentChar) (by decide) (by decide) (by simp)

theorem PatternForm.not_isBlank {w : PatternText} (h : PatternForm w s []) :
    ∀ c ∈ s, isBlank c = false := by
  have hP : ∀ c, isSegmentChar c = true → isBlank c = false := fun _ =>
    Text.not_isBlank_of_isSegmentChar
  have hwild : ∀ c, isWildcardChar c = true → isBlank c = false :=
    forall_isWildcardChar.2 (by decide)
  exact ReleaseForm.forall_mem hP (by decide) (fun hn => hn.forall_mem hP hwild) h (by simp)

theorem BoundForm.not_isBlank {x : VersionText} (h : BoundForm x s []) :
    ∀ c ∈ s, isBlank c = false := by
  cases h with
  | exact h => exact h.not_isBlank
  | pattern h => exact PatternForm.not_isBlank h

end

theorem ReleaseForm.ne_nil {σ : Type} {slot : Form σ} {x : ReleaseText σ} {s r : List Char}
    (h : ReleaseForm slot x s r) : s ≠ [] := by
  have hnumber {p : Piece} {s r : List Char} (h : NumberForm p s r) : s ≠ [] := by
    cases h with
    | digits hne _ => simp [hne]
  cases h with
  | single hm => exact hnumber hm
  | pair hm _ => exact hnumber hm
  | triple hm _ _ => exact hnumber hm

theorem ExactForm.ne_nil {x : ExactText} {s r : List Char} (h : ExactForm x s r) : s ≠ [] := by
  cases h with
  | intro hx _ _ => exact hx.ne_nil

end Grammar

open Grammar

/-! ## Texts that have a form -/

theorem nonempty_of_not_isBlank {s : String} (hblank : ∀ c ∈ s.toList, isBlank c = false)
    (hne : s.toList ≠ []) : nonempty s = .ok s.toList := by
  have htrim := Text.trim_eq_self_of_not_isBlank hblank
  rw [nonempty_of_trim_ne_nil (by rwa [htrim]), htrim]

theorem Grammar.ExactForm.nonempty {s : String} {x : ExactText} (h : ExactForm x s.toList []) :
    Versioning.nonempty s = .ok s.toList :=
  nonempty_of_not_isBlank h.not_isBlank h.ne_nil

theorem Grammar.PatternForm.nonempty {s : String} {w : PatternText}
    (h : PatternForm w s.toList []) : Versioning.nonempty s = .ok s.toList :=
  nonempty_of_not_isBlank (PatternForm.not_isBlank h) (ReleaseForm.ne_nil h)

theorem Exact.parse_of_form {s : String} {x : ExactText} (h : ExactForm x s.toList []) :
    Exact.parse s = x.value s.toList := by
  rw [Exact.parse, h.nonempty]
  change (complete .digit exactText? s.toList >>= fun x => x.value s.toList) = _
  rw [complete_eq_ok.2 (exactText?_complete h .nil)]
  rfl

theorem Pattern.parse_of_form {s : String} {w : PatternText} (h : PatternForm w s.toList []) :
    Pattern.parse s = patternValue s.toList w := by
  rw [Pattern.parse, PatternForm.nonempty h]
  change (complete .digit patternText? s.toList >>= fun w => patternValue s.toList w) = _
  rw [complete_eq_ok.2 (patternText?_complete h EndsExact.nil.release)]
  rfl

/-! ## The form of a text -/

/-- The number as it is written, with `r` after it. -/
def Number.piece (n : Number) (r : List Char) : Piece :=
  ⟨n.text.toList, r⟩

theorem Number.form_piece (n : Number) (r : List Char) :
    NumberForm (n.piece r) (n.text.toList ++ r) r :=
  .digits n.text_ne_nil Number.isDigit_of_mem_text

@[simp] theorem numberAt_piece (input : List Char) (field : Field) (n : Number) (r : List Char) :
    numberAt input field (n.piece r) = .ok n :=
  numberAt_text input field n r

/-- The text of a release has the form of a release of these numbers, before any rest. -/
theorem Release.exists_form (x : Release) (r : List Char) : ∃ y : ReleaseText Piece,
    ReleaseForm NumberForm y (x.text.toList ++ r) r ∧ ∀ input, y.value input = .ok x := by
  cases x with
  | single m =>
      refine ⟨.single (m.piece r), .single (m.form_piece r), fun input => ?_⟩
      simp only [ReleaseText.value, numberAt_piece]
      rfl
  | pair m n =>
      let t := n.text.toList ++ r
      refine ⟨.pair (m.piece ('.' :: t)) (n.piece r), ?_, fun input => ?_⟩
      · have h := ReleaseForm.pair (m.form_piece ('.' :: t)) (n.form_piece r)
        simpa [Release.text, t] using h
      · simp only [ReleaseText.value, numberAt_piece]
        rfl
  | triple m n p =>
      let u := p.text.toList ++ r
      let t := n.text.toList ++ '.' :: u
      refine ⟨.triple (m.piece ('.' :: t)) (n.piece ('.' :: u)) (p.piece r), ?_, fun input => ?_⟩
      · have h := ReleaseForm.triple (m.form_piece ('.' :: t)) (n.form_piece ('.' :: u))
          (p.form_piece r)
        simpa [Release.text, t, u] using h
      · simp only [ReleaseText.value, numberAt_piece]
        rfl

theorem Pattern.exists_form (w : Pattern) (r : List Char) : ∃ y : PatternText,
    PatternForm y (w.text.toList ++ r) r ∧ ∀ input, patternValue input y = .ok w := by
  have star (r : List Char) : SlotForm .wildcard ('*' :: r) r := .wildcard rfl
  cases w with
  | single m =>
      refine ⟨.single (m.piece r), .single (m.form_piece r), fun input => ?_⟩
      simp only [patternValue, ReleaseText.major, ReleaseText.minor?, ReleaseText.patch?,
        numberAt_piece]
      rfl
  | pair m n =>
      let t := n.text.toList ++ r
      refine ⟨.pair (m.piece ('.' :: t)) (.number (n.piece r)), ?_, fun input => ?_⟩
      · have h := ReleaseForm.pair (m.form_piece ('.' :: t)) (SlotForm.number (n.form_piece r))
        simpa [Pattern.text, t] using h
      · simp only [patternValue, ReleaseText.major, ReleaseText.minor?, ReleaseText.patch?,
          Slot.value, numberAt_piece]
        rfl
  | anyMinor m =>
      refine ⟨.pair (m.piece ('.' :: '*' :: r)) .wildcard, ?_, fun input => ?_⟩
      · have h := ReleaseForm.pair (m.form_piece ('.' :: '*' :: r)) (star r)
        simpa [Pattern.text] using h
      · simp only [patternValue, ReleaseText.major, ReleaseText.minor?, ReleaseText.patch?,
          numberAt_piece]
        rfl
  | anyPatch m n =>
      let t := n.text.toList ++ '.' :: '*' :: r
      refine ⟨.triple (m.piece ('.' :: t)) (.number (n.piece ('.' :: '*' :: r))) .wildcard, ?_,
        fun input => ?_⟩
      · have h := ReleaseForm.triple (m.form_piece ('.' :: t))
          (SlotForm.number (n.form_piece ('.' :: '*' :: r))) (star r)
        simpa [Pattern.text, t] using h
      · simp only [patternValue, ReleaseText.major, ReleaseText.minor?, ReleaseText.patch?,
          Slot.value, numberAt_piece]
        rfl
  | anyBoth m =>
      refine ⟨.triple (m.piece ('.' :: '*' :: '.' :: '*' :: r)) .wildcard .wildcard, ?_,
        fun input => ?_⟩
      · have h :=
          ReleaseForm.triple (m.form_piece ('.' :: '*' :: '.' :: '*' :: r)) (star _) (star r)
        simpa [Pattern.text] using h
      · simp only [patternValue, ReleaseText.major, ReleaseText.minor?, ReleaseText.patch?,
          numberAt_piece]
        rfl

/-- A pattern is read back from its text. -/
theorem Pattern.parse_text (w : Pattern) : Pattern.parse w.text = .ok w := by
  obtain ⟨y, hform, hvalue⟩ := w.exists_form []
  rw [List.append_nil] at hform
  rw [parse_of_form hform, hvalue]

/-! ## Tags and builds -/

/-- What the tag adds to the text of a version. -/
def Prerelease.suffix (p : Prerelease) : List Char :=
  p.tag?.elim [] fun t => '-' :: t.text.toList

def Prerelease.piece? (p : Prerelease) (r : List Char) : Option Piece :=
  p.tag?.map fun t => ⟨t.text.toList, r⟩

def Build.suffix (b : Build) : List Char :=
  b.label?.elim [] fun l => '+' :: l.text.toList

def Build.piece? (b : Build) (r : List Char) : Option Piece :=
  b.label?.map fun l => ⟨l.text.toList, r⟩

theorem Exact.toList_text (v : Exact) :
    v.text.toList = v.release.text.toList ++ (v.prerelease.suffix ++ v.build.suffix) := by
  have htag : (if v.prerelease.isNone then "" else "-" ++ v.prerelease.text).toList =
      v.prerelease.suffix := by
    rw [Prerelease.isNone, Prerelease.text, Prerelease.suffix]
    cases v.prerelease.tag? <;> simp
  have hbuild : (if v.build.isNone then "" else "+" ++ v.build.text).toList = v.build.suffix := by
    rw [Build.isNone, Build.text, Build.suffix]
    cases v.build.label? <;> simp
  rw [Exact.text, String.toList_append, String.toList_append, htag, hbuild, List.append_assoc]

theorem Prerelease.form_suffix {p : Prerelease} (h : ∀ t ∈ p.tag?, t.Dotted) (r : List Char) :
    TaggedForm '-' (p.piece? r) (p.suffix ++ r) r := by
  rw [suffix, piece?]
  cases ht : p.tag? with
  | none => exact .absent
  | some t => exact .present (.segments ((h t ht).isDotted_text (isEmpty_of_tag? ht)))

def Build.Dotted (b : Build) : Prop :=
  ∀ l ∈ b.label?, IsDotted l.text.toList

theorem Build.form_suffix {b : Build} (h : b.Dotted) (r : List Char) :
    TaggedForm '+' (b.piece? r) (b.suffix ++ r) r := by
  rw [suffix, piece?]
  cases hl : b.label? with
  | none => exact .absent
  | some l => exact .present (.segments (h l hl))

/-- What the text of the tag is read as. -/
def Prerelease.reread (p : Prerelease) (input after : List Char) : Except Error Prerelease :=
  p.tag?.elim (.ok .none) fun t => ofDotted input ⟨t.text.toList, after⟩

theorem Exact.tag_piece? (y : ReleaseText Piece) (p : Prerelease) (b : Build)
    (input r : List Char) :
    ExactText.tag input ⟨y, p.piece? r, b.piece? []⟩ = p.reread input r := by
  rw [ExactText.tag, Prerelease.reread, Prerelease.piece?]
  cases p.tag? <;> rfl

theorem Exact.metadata_piece? (y : ReleaseText Piece) (p : Prerelease) (b : Build) (r : List Char) :
    ExactText.metadata ⟨y, p.piece? r, b.piece? []⟩ = b := by
  rcases b with ⟨_ | l⟩
  · rfl
  · simp [ExactText.metadata, Build.piece?, Build.ofText]

namespace Exact

/-- The words of the tag and the build are dotted texts. -/
structure Dotted (v : Exact) : Prop where
  tag : ∀ t ∈ v.prerelease.tag?, t.Dotted
  build : v.build.Dotted

/-- With dotted tags the text has the form of a version, whatever is then read of the tag. -/
theorem Dotted.exists_form {v : Exact} (h : v.Dotted) : ∃ y : ReleaseText Piece,
    ExactForm ⟨y, v.prerelease.piece? v.build.suffix, v.build.piece? []⟩ v.text.toList [] ∧
      ∀ input, y.value input = .ok v.release := by
  obtain ⟨y, hy, hvalue⟩ := v.release.exists_form (v.prerelease.suffix ++ v.build.suffix)
  have hbuild := Build.form_suffix h.build []
  rw [List.append_nil] at hbuild
  refine ⟨y, ?_, hvalue⟩
  rw [v.toList_text]
  exact .intro hy (Prerelease.form_suffix h.tag v.build.suffix) hbuild

/-- A version is read from its text as its numbers, its build, and what its tag says. -/
theorem Dotted.parse_text {v : Exact} (h : v.Dotted) : Exact.parse v.text = do
    let prerelease ← v.prerelease.reread v.text.toList v.build.suffix
    return ⟨v.release, prerelease, v.build⟩ := by
  obtain ⟨y, hform, hvalue⟩ := h.exists_form
  rw [Exact.parse_of_form hform, ExactText.value_eq]
  simp only [tag_piece?, metadata_piece?, hvalue]
  rfl

end Exact

/-! ## Canonical versions -/

/-- The tags that texts give. -/
inductive Prerelease.Canonical : Prerelease → Prop
  | none : Canonical .none
  | tag {t : Tag} (hne : t.isEmpty = false) (hd : t.Dotted) (hn : t.NumberIsLast) :
      Canonical (.tag t)

namespace Prerelease

theorem Canonical.dotted {p : Prerelease} (h : p.Canonical) : ∀ t ∈ p.tag?, t.Dotted := by
  cases h with
  | none => simp
  | tag hne hd _ =>
      rw [tag?_tag hne]
      rintro _ ⟨⟩
      exact hd

theorem Canonical.reread {p : Prerelease} (h : p.Canonical) (input after : List Char) :
    p.reread input after = .ok p := by
  cases h with
  | none => rfl
  | tag hne hd hn =>
      rw [Prerelease.reread, tag?_tag hne]
      exact ofDotted_text hd hne hn input after

theorem canonical_ofDotted {s input after : List Char} {p : Prerelease} (hs : IsDotted s)
    (h : ofDotted input ⟨s, after⟩ = .ok p) : p.Canonical := by
  obtain ⟨t, rfl, hne, hd, hn, _⟩ := ofDotted_sound hs h
  exact .tag hne hd hn

theorem canonical_of_reread {p q : Prerelease} {input after : List Char}
    (hd : ∀ t ∈ p.tag?, t.Dotted) (h : p.reread input after = .ok q) : q.Canonical := by
  rw [Prerelease.reread] at h
  cases ht : p.tag? with
  | none =>
      rw [ht] at h
      cases h
      exact .none
  | some t =>
      rw [ht] at h
      exact canonical_ofDotted ((hd t ht).isDotted_text (isEmpty_of_tag? ht)) h

theorem canonical_ofParts {before after : Option Label} {n : Option Number}
    (hd : Tag.Dotted ⟨before, n, after⟩) (hn : Tag.NumberIsLast ⟨before, n, after⟩) :
    (ofParts before n after).Canonical := by
  unfold ofParts
  split
  · exact .none
  · rename_i hne
    exact .tag (by simpa using hne) hd hn

theorem Canonical.numberIsLast {p : Prerelease} (h : p.Canonical) :
    ∀ t ∈ p.tag?, t.NumberIsLast := by
  cases h with
  | none => simp
  | tag hne _ hn =>
      rw [tag?_tag hne]
      rintro _ ⟨⟩
      exact hn

end Prerelease

namespace Exact

structure Canonical (v : Exact) : Prop where
  prerelease : v.prerelease.Canonical
  build : v.build.Dotted

theorem Canonical.dotted {v : Exact} (h : v.Canonical) : v.Dotted :=
  ⟨h.prerelease.dotted, h.build⟩

/-- The text of the version is a writing of the version. -/
theorem Canonical.exists_form {v : Exact} (h : v.Canonical) :
    ∃ x, ExactForm x v.text.toList [] ∧ ∀ input, x.value input = .ok v := by
  obtain ⟨y, hform, hvalue⟩ := h.dotted.exists_form
  refine ⟨_, hform, fun input => ?_⟩
  rw [ExactText.value_eq, tag_piece?, metadata_piece?, h.prerelease.reread, hvalue]
  rfl

/-- A canonical version is read back from its text. -/
theorem Canonical.parse_text {v : Exact} (h : v.Canonical) : Exact.parse v.text = .ok v := by
  obtain ⟨x, hform, hvalue⟩ := h.exists_form
  rw [parse_of_form hform, hvalue]

/-- A version whose text is read as an equal one has its number last. -/
theorem numberIsLast_of_rereads {r : Release} {t : Tag} {build : Build} {w : Exact}
    (hd : t.Dotted) (hbuild : build.Dotted) (hne : t.isEmpty = false)
    (hw : Exact.parse (text ⟨r, .tag t, build⟩) = .ok w) (heq : (w == ⟨r, .tag t, build⟩) = true) :
    t.NumberIsLast := by
  have htag : (Prerelease.tag t).tag? = some t := Prerelease.tag?_tag hne
  have hdotted : ∀ u ∈ (Prerelease.tag t).tag?, u.Dotted := by
    rw [htag]
    rintro _ ⟨⟩
    exact hd
  have hv : Dotted ⟨r, .tag t, build⟩ := ⟨hdotted, hbuild⟩
  rw [hv.parse_text] at hw
  obtain ⟨q, hq, hw⟩ := bind_eq_ok.1 hw
  cases hw
  have hsame : q.tag? = some t := (beq_iff.1 heq).2.1.trans htag
  exact (Prerelease.canonical_of_reread hdotted hq).numberIsLast t hsame

/-- A version that is built of dotted texts is read back from its text as an equal one if and only
if the number of its tag is the last numeral in it. -/
theorem rereads_iff_numberIsLast (major : Number) (minor patch : Option Number)
    (before : Option Label) (n : Option Number) (after : Option Label) (build : Build) (v : Exact)
    (hbefore : ∀ l ∈ before, IsDotted l.text.toList)
    (hafter : ∀ l ∈ after, IsDotted l.text.toList)
    (hbuild : ∀ l ∈ build.label?, IsDotted l.text.toList)
    (hv : Exact.ofParts? major minor patch (.ofParts before n after) build = .ok v) :
    (∃ w, Exact.parse v.text = .ok w ∧ (w == v) = true) ↔
      Tag.NumberIsLast ⟨before, n, after⟩ := by
  have hd : Tag.Dotted ⟨before, n, after⟩ := ⟨hbefore, hafter⟩
  obtain ⟨r, rfl⟩ : ∃ r, v = ⟨r, .ofParts before n after, build⟩ := by
    unfold Exact.ofParts? at hv
    split at hv <;> cases hv
    exact ⟨_, rfl⟩
  constructor
  · rintro ⟨w, hw, heq⟩
    cases hempty : Tag.isEmpty ⟨before, n, after⟩ with
    | true =>
        obtain ⟨rfl, rfl, rfl⟩ := Tag.mk.inj (Tag.isEmpty_iff.1 hempty)
        exact ⟨rfl, by simp [Tag.wordSegments]⟩
    | false =>
        have hparts : Prerelease.ofParts before n after = .tag ⟨before, n, after⟩ := by
          simp [Prerelease.ofParts, hempty]
        rw [hparts] at hw heq
        exact numberIsLast_of_rereads hd hbuild hempty hw heq
  · intro hn
    have hcanonical : Canonical ⟨r, .ofParts before n after, build⟩ :=
      ⟨Prerelease.canonical_ofParts hd hn, hbuild⟩
    exact ⟨_, hcanonical.parse_text, beq_iff.2 ⟨rfl, rfl, rfl⟩⟩

theorem rereads_beta_2_7_untested :
    let before := Label.ofText? "beta.2"
    let after := Label.ofText? "untested"
    let v : Exact := ⟨.triple 1 2 3, .ofParts before (some 7) after, .ofText "0.1"⟩
    Exact.ofParts? 1 (some 2) (some 3) (.ofParts before (some 7) after) (.ofText "0.1") = .ok v ∧
      ∃ w, Exact.parse v.text = .ok w ∧ (w == v) = true := by
  intro before after v
  have hv : Exact.ofParts? 1 (some 2) (some 3) (.ofParts before (some 7) after) (.ofText "0.1") =
      .ok v := rfl
  exact ⟨hv, (rereads_iff_numberIsLast 1 (some 2) (some 3) before (some 7) after _ v (by decide)
    (by decide) (by decide) hv).2 (by decide)⟩

theorem not_rereads_of_dotted : ¬ ∀ (major : Number) (minor patch : Option Number)
    (before : Option Label) (n : Option Number) (after : Option Label) (build : Build) (v : Exact),
    (∀ l ∈ before, IsDotted l.text.toList) → (∀ l ∈ after, IsDotted l.text.toList) →
    (∀ l ∈ build.label?, IsDotted l.text.toList) →
    Exact.ofParts? major minor patch (.ofParts before n after) build = .ok v →
    ∃ w, Exact.parse v.text = .ok w ∧ (w == v) = true := by
  intro h
  let t : Tag := ⟨Label.ofText? "0", some 5, Label.ofText? "1.a"⟩
  obtain ⟨w, hw, heq⟩ := h 1 (some 2) (some 3) t.before t.number t.after .none
    ⟨.triple 1 2 3, .tag t, .none⟩ (by decide) (by decide) (by decide) rfl
  have hn : t.NumberIsLast :=
    numberIsLast_of_rereads ⟨by decide, by decide⟩ (by simp [Build.Dotted, Build.none]) rfl hw heq
  exact absurd hn (by decide)

end Exact

end Versioning
