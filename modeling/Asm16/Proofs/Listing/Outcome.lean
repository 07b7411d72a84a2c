-- SUMMARY: What an assembly comes to: the first line without a mnemonic, else the first line refused, else one encoding a line.
import Asm16.Proofs.Line.Source
import Asm16.Proofs.Listing.Addresses
import Mathlib.Data.List.Induction

/-!
# Outcomes

An assembly ends in one of three ways. A line whose mnemonic is in no catalog entry ends the first
pass, so it is reported before a bad operand of any line. If there is none, a line that cannot be
encoded where it stands ends the second. Otherwise every line with code has its encoding. Each way
is said of the lines alone, and `ofLines_outcome` says that there is no other.
-/

namespace Asm16

variable {catalog : Catalog} {labels : LabelTable} {a : Address} {l : Line}
  {lines before after : List Line} {es : List Encoding} {name : Text}

namespace Line

/-- The line has code, and its mnemonic names no instruction. -/
def IsUnresolvable (catalog : Catalog) (l : Line) : Prop :=
  l.code ≠ [] ∧ ∀ i ∈ catalog.instructions, i.isNamed l.mnemonic = false

instance : Decidable (l.IsUnresolvable catalog) :=
  inferInstanceAs (Decidable (_ ∧ _))

/-- The encoding of a line, less its label, that stands after other lines. -/
def encodeAfter (l : Line) (catalog : Catalog) (labels : LabelTable) (before : List Line) :
    Except Cause Encoding :=
  l.withoutLabel.encode catalog labels (BitVec.ofNat 32 (Layout.size catalog before))

end Line

namespace Listing

/-- The encodings are those of the lines with code, one of each, in order, and each as the line is
encoded where it stands. -/
structure Encodes (catalog : Catalog) (labels : LabelTable) (lines : List Line)
    (es : List Encoding) : Prop where
  length : es.length = (Layout.coded lines).length
  encode : ∀ pre l post, lines = pre ++ l :: post → l.code ≠ [] →
    ∃ e, es[(Layout.coded pre).length]? = some e ∧ l.encodeAfter catalog labels pre = .ok e

/-- The assembly fails at the line with `n` others before it. -/
inductive FailsAt (catalog : Catalog) (lines : List Line) : Nat → Diagnostic → Prop where
  /-- The first line without a known mnemonic is reported as it stands. -/
  | unresolvable {before after : List Line} {l : Line} :
      lines = before ++ l :: after → (∀ x ∈ before, ¬ x.IsUnresolvable catalog) →
      l.IsUnresolvable catalog → FailsAt catalog lines before.length ⟨l, .unresolvable l.mnemonic⟩
  /-- If there is none, the first line that cannot be encoded is reported without its label. -/
  | refused {before after : List Line} {l : Line} {es : List Encoding} {cause : Cause} :
      (∀ x ∈ lines, ¬ x.IsUnresolvable catalog) → lines = before ++ l :: after → l.code ≠ [] →
      Encodes catalog (Layout.table catalog lines 0 .empty) before es →
      l.encodeAfter catalog (Layout.table catalog lines 0 .empty) before = .error cause →
      FailsAt catalog lines before.length ⟨l.withoutLabel, cause⟩

/-- What the assembly of lines comes to. -/
inductive Outcome (catalog : Catalog) (lines : List Line) : Except Diagnostic Listing → Prop where
  /-- Some line is reported, and there is no listing. -/
  | failed {n : Nat} {d : Diagnostic} : FailsAt catalog lines n d → Outcome catalog lines (.error d)
  /-- Every line with code has its encoding. -/
  | assembled {es : List Encoding} :
      (∀ x ∈ lines, ¬ x.IsUnresolvable catalog) →
      Encodes catalog (Layout.table catalog lines 0 .empty) lines es →
      Outcome catalog lines (.ok ⟨Layout.table catalog lines 0 .empty, es⟩)

end Listing

/-! ## The first pass -/

namespace Layout

theorem lookup?_eq_none_iff :
    catalog.lookup? name = none ↔ ∀ i ∈ catalog.instructions, i.isNamed name = false := by
  simp [Catalog.lookup?]

theorem known_iff : Known catalog lines ↔ ∀ l ∈ lines, ¬ l.IsUnresolvable catalog := by
  have hline : ∀ l : Line, ¬ l.IsUnresolvable catalog ↔
      (l.code ≠ [] → (catalog.lookup? l.mnemonic).isSome) := by
    intro l
    rw [Line.IsUnresolvable, ← lookup?_eq_none_iff, ← Option.ne_none_iff_isSome, not_and]
  simp only [hline, Known, coded, List.mem_filter, Bool.not_eq_true', List.isEmpty_eq_false_iff,
    and_imp]

theorem not_known_iff :
    ¬ Known catalog lines ↔ ∃ before l after, lines = before ++ l :: after ∧
      (∀ x ∈ before, ¬ x.IsUnresolvable catalog) ∧ l.IsUnresolvable catalog := by
  constructor
  · intro h
    rw [known_iff] at h
    push Not at h
    obtain ⟨x, hx, hbad⟩ := h
    have hfind : (lines.find? fun l => decide (l.IsUnresolvable catalog)).isSome :=
      List.find?_isSome.2 ⟨x, hx, decide_eq_true hbad⟩
    obtain ⟨l, hl⟩ := Option.isSome_iff_exists.1 hfind
    obtain ⟨hbad, before, after, hlines, hbefore⟩ := List.find?_eq_some_iff_append.1 hl
    exact ⟨before, l, after, hlines, by simpa using hbefore, of_decide_eq_true hbad⟩
  · rintro ⟨before, l, after, rfl, -, hl⟩ h
    exact known_iff.1 h l (by simp) hl

/-- A line without a known mnemonic ends the pass if every line before it has one. -/
theorem ofLines_of_unresolvable (hbefore : ∀ x ∈ before, ¬ x.IsUnresolvable catalog)
    (hl : l.IsUnresolvable catalog) :
    ofLines catalog (before ++ l :: after) = .error ⟨l, .unresolvable l.mnemonic⟩ := by
  obtain ⟨hcode, hname⟩ := hl
  rw [ofLines, scan_append_of_known (known_iff.2 hbefore), scan,
    if_neg (by simpa using hcode), lookup?_eq_none_iff.2 hname]

/-- The address of a name is that of the first line that defines it. -/
theorem get?_table_empty_eq_some_iff :
    (table catalog lines 0 .empty).get? name = some a ↔
      ∃ pre l post, lines = pre ++ l :: post ∧ l.label? = some name ∧
        (∀ x ∈ pre, x.label? ≠ some name) ∧ a = BitVec.ofNat 32 (size catalog pre) := by
  rw [get?_table_empty]
  constructor
  · intro h
    simpa only [Address.zero_add_ofNat] using exists_first_of_addressOf h
  · rintro ⟨pre, l, post, rfl, hl, hfirst, rfl⟩
    rw [addressOf_of_first hfirst hl, Address.zero_add_ofNat]

end Layout

/-! ## The second pass -/

/-- A line is encoded where the encodings of the lines before it end. -/
theorem Line.encodeAfter_eq
    (h : Encoding.Consecutive catalog labels 0 (Layout.kept before) es) :
    l.encodeAfter catalog labels before =
      l.withoutLabel.encode catalog labels (0 + BitVec.ofNat 32 (Encoding.size es)) := by
  rw [encodeAfter, h.size_eq, Address.zero_add_ofNat]

namespace Listing

theorem encodes_nil_iff : Encodes catalog labels [] es ↔ es = [] := by
  constructor
  · intro h
    exact List.eq_nil_of_length_eq_zero h.length
  · rintro rfl
    exact ⟨rfl, by simp⟩

/-- A last line without code has no encoding. -/
theorem Encodes.of_concat_of_no_code (h : Encodes catalog labels (lines ++ [l]) es)
    (hl : l.code = []) : Encodes catalog labels lines es := by
  constructor
  · rw [h.length, Layout.coded_concat_of_no_code hl]
  · rintro pre x post rfl hx
    exact h.encode pre x (post ++ [l]) (by simp) hx

/-- A last line with code has the last encoding. -/
theorem Encodes.of_concat_of_code (h : Encodes catalog labels (lines ++ [l]) es)
    (hl : l.code ≠ []) :
    ∃ fs e, es = fs ++ [e] ∧ Encodes catalog labels lines fs ∧
      l.encodeAfter catalog labels lines = .ok e := by
  have hlength : es.length = (Layout.coded lines).length + 1 := by
    rw [h.length, Layout.coded_concat_of_code hl, List.length_append, List.length_singleton]
  obtain ⟨fs, f, rfl⟩ := (List.eq_nil_or_concat' es).resolve_left (by rintro rfl; cases hlength)
  rw [List.length_append, List.length_singleton, Nat.add_right_cancel_iff] at hlength
  obtain ⟨e, hlast, he⟩ := h.encode lines l [] rfl hl
  rw [← hlength, List.getElem?_concat_length] at hlast
  obtain rfl := Option.some.inj hlast
  refine ⟨fs, f, rfl, ⟨hlength, ?_⟩, he⟩
  rintro pre x post rfl hx
  obtain ⟨e, hget, he⟩ := h.encode pre x (post ++ [l]) (by simp) hx
  refine ⟨e, ?_, he⟩
  rwa [List.getElem?_append_left (hlength ▸ Layout.length_coded_lt hx)] at hget

/-- The encodings of lines stand one after the other. -/
theorem encodes_iff :
    Encodes catalog labels lines es ↔
      Encoding.Consecutive catalog labels 0 (Layout.kept lines) es := by
  constructor
  · intro h
    induction lines using List.reverseRecOn generalizing es with
    | nil =>
      rw [encodes_nil_iff.1 h]
      exact .nil
    | append_singleton lines l ih =>
      by_cases hl : l.code = []
      · rw [Layout.kept_concat_of_no_code hl]
        exact ih (h.of_concat_of_no_code hl)
      · obtain ⟨fs, e, rfl, hfs, he⟩ := h.of_concat_of_code hl
        rw [Layout.kept_concat_of_code hl]
        rw [Line.encodeAfter_eq (ih hfs)] at he
        exact (ih hfs).append (.cons he .nil)
  · intro h
    constructor
    · rw [← Layout.length_kept, ← h.map_line, List.length_map]
    · rintro pre l post rfl hl
      rw [Layout.kept_append_cons_of_code hl] at h
      obtain ⟨es, fs, rfl, hpre, hpost⟩ := h.split
      cases hpost with
      | @cons _ _ _ e fs he hrest =>
        refine ⟨e, ?_, (Line.encodeAfter_eq hpre).trans he⟩
        rw [← Layout.length_kept, ← hpre.map_line, List.length_map]
        simp

/-- Either all lines are encoded, or there is a first line that is not. -/
theorem exists_encodes_or_refused (catalog : Catalog) (labels : LabelTable) (lines : List Line) :
    (∃ es, Encodes catalog labels lines es) ∨
      ∃ before l after es cause, lines = before ++ l :: after ∧ l.code ≠ [] ∧
        Encodes catalog labels before es ∧ l.encodeAfter catalog labels before = .error cause := by
  induction lines using List.reverseRecOn with
  | nil => exact .inl ⟨[], encodes_nil_iff.2 rfl⟩
  | append_singleton lines l ih =>
    obtain ⟨es, hes⟩ | ⟨before, x, after, es, cause, rfl, hx, hes, hcause⟩ := ih
    · by_cases hl : l.code = []
      · left
        refine ⟨es, encodes_iff.2 ?_⟩
        rw [Layout.kept_concat_of_no_code hl]
        exact encodes_iff.1 hes
      · cases he : l.encodeAfter catalog labels lines with
        | error cause => exact .inr ⟨lines, l, [], es, cause, rfl, hl, hes, he⟩
        | ok e =>
          left
          have hlines := encodes_iff.1 hes
          rw [Line.encodeAfter_eq hlines] at he
          refine ⟨es ++ [e], encodes_iff.2 ?_⟩
          rw [Layout.kept_concat_of_code hl]
          exact hlines.append (.cons he .nil)
    · exact .inr ⟨before, x, after ++ [l], es, cause, by simp, hx, hes, hcause⟩

/-! ## The outcome of an assembly -/

theorem FailsAt.ofLines_eq {n : Nat} {d : Diagnostic} (h : FailsAt catalog lines n d) :
    ofLines catalog lines = .error d := by
  cases h with
  | unresolvable hlines hbefore hl =>
    rw [hlines, ofLines, Layout.ofLines_of_unresolvable hbefore hl]
  | @refused before after l es cause hknown hlines hl hes he =>
    have hlayout := Layout.ofLines_eq_ok_iff.2 ⟨Layout.known_iff.2 hknown, rfl⟩
    have hbefore := encodes_iff.1 hes
    rw [Line.encodeAfter_eq hbefore] at he
    rw [ofLines, hlayout]
    dsimp only
    rw [hlines, Layout.kept_append_cons_of_code hl, ← hlines,
      Encoding.ofLines_of_error (Encoding.ofLines_eq_ok_iff.2 hbefore) he]

theorem Outcome.ofLines_eq {r : Except Diagnostic Listing} (h : Outcome catalog lines r) :
    ofLines catalog lines = r := by
  cases h with
  | failed h => exact h.ofLines_eq
  | assembled hknown hes =>
    exact ofLines_eq_ok_iff.2 ⟨Layout.known_iff.2 hknown, rfl, encodes_iff.1 hes⟩

theorem exists_outcome (catalog : Catalog) (lines : List Line) : ∃ r, Outcome catalog lines r := by
  by_cases hknown : ∀ l ∈ lines, ¬ l.IsUnresolvable catalog
  · obtain ⟨es, hes⟩ | ⟨before, l, after, es, cause, hlines, hl, hes, he⟩ :=
      exists_encodes_or_refused catalog (Layout.table catalog lines 0 .empty) lines
    · exact ⟨_, .assembled hknown hes⟩
    · exact ⟨_, .failed (.refused hknown hlines hl hes he)⟩
  · rw [← Layout.known_iff, Layout.not_known_iff] at hknown
    obtain ⟨before, l, after, hlines, hbefore, hl⟩ := hknown
    exact ⟨_, .failed (.unresolvable hlines hbefore hl)⟩

theorem ofLines_eq_iff {r : Except Diagnostic Listing} :
    ofLines catalog lines = r ↔ Outcome catalog lines r := by
  constructor
  · rintro rfl
    obtain ⟨r, hr⟩ := exists_outcome catalog lines
    rwa [hr.ofLines_eq]
  · intro h
    exact h.ofLines_eq

theorem ofLines_eq_error_iff {d : Diagnostic} :
    ofLines catalog lines = .error d ↔ ∃ n, FailsAt catalog lines n d := by
  constructor
  · intro h
    cases ofLines_eq_iff.1 h with
    | failed hfails => exact ⟨_, hfails⟩
  · rintro ⟨n, hfails⟩
    exact hfails.ofLines_eq

/-- The line reported is one of the program, as it stands or without its label. -/
theorem FailsAt.line {n : Nat} {d : Diagnostic} (h : FailsAt catalog lines n d) :
    ∃ l ∈ lines, d.line = l ∨ d.line = l.withoutLabel := by
  cases h with
  | @unresolvable before after l hlines => exact ⟨l, by simp [hlines], .inl rfl⟩
  | @refused before after l es cause _ hlines => exact ⟨l, by simp [hlines], .inr rfl⟩

/-- An assembly comes to just what its outcome says, and the label table of a program has the
address of the first definition of each name. The lines of a source text are its physical lines that
have text when they are cleaned, in order, and an error bears the number of one of them. -/
theorem ofLines_outcome (catalog : Catalog) :
    (∀ lines r, ofLines catalog lines = r ↔ Outcome catalog lines r) ∧
    (∀ lines name a, (Layout.table catalog lines 0 .empty).get? name = some a ↔
      ∃ before l after, lines = before ++ l :: after ∧ l.label? = some name ∧
        (∀ x ∈ before, x.label? ≠ some name) ∧
        a = BitVec.ofNat 32 (Layout.size catalog before)) ∧
    ∀ source,
      (Line.ofSource source).Pairwise (·.number < ·.number) ∧
      (∀ l, l ∈ Line.ofSource source ↔
        ∃ raw, Line.IsPhysical source l.number raw ∧ l.text = Line.clean raw ∧ l.text ≠ []) ∧
      ∀ d, ofSource catalog source = .error d →
        ∃ raw, Line.IsPhysical source d.line.number raw ∧
          (d.line.text = Line.clean raw ∨
            d.line.text = Line.code ⟨d.line.number, Line.clean raw⟩) := by
  refine ⟨fun _ _ => ofLines_eq_iff, fun _ _ _ => Layout.get?_table_empty_eq_some_iff, ?_⟩
  intro source
  refine ⟨Line.pairwise_ofSource source, fun _ => Line.mem_ofSource_iff, ?_⟩
  intro d h
  obtain ⟨n, hfails⟩ := ofLines_eq_error_iff.1 h
  obtain ⟨l, hl, hline⟩ := hfails.line
  obtain ⟨raw, hraw, htext, -⟩ := Line.mem_ofSource_iff.1 hl
  obtain ⟨number, text⟩ := l
  obtain rfl : text = Line.clean raw := htext
  obtain hline | hline := hline
  · rw [hline]
    exact ⟨raw, hraw, .inl rfl⟩
  · rw [hline]
    exact ⟨raw, hraw, .inr rfl⟩

/-- A line that cannot be encoded stands before one without a mnemonic, which is reported with its
label. Alone it is reported itself, without its label. Its number counts the lines dropped before
it. -/
theorem ofLines_outcome_order :
    let refused : Line := ⟨3, "b: LI r1, 99".toList⟩
    let unknown : Line := ⟨4, "a: NOP r1".toList⟩
    let source := "; sums\n\nb: LI r1, 99 ; too large\r\n".toList
    let error := Cause.operand (.outOfRange "99".toList .nibble)
    Outcome Catalog.sample [refused, unknown] (.error ⟨unknown, .unresolvable "NOP".toList⟩) ∧
      Outcome Catalog.sample [refused] (.error ⟨⟨3, "LI r1, 99".toList⟩, error⟩) ∧
      ofSource Catalog.sample source = .error ⟨⟨3, "LI r1, 99".toList⟩, error⟩ ∧
      ∃ raw, Line.IsPhysical source 3 raw ∧
        ("LI r1, 99".toList = Line.clean raw ∨
          "LI r1, 99".toList = Line.code ⟨3, Line.clean raw⟩) := by
  intro refused unknown source error
  have hunknown : ofLines Catalog.sample [refused, unknown] =
      .error ⟨unknown, .unresolvable "NOP".toList⟩ := rfl
  have hrefused : ofLines Catalog.sample [refused] = .error ⟨⟨3, "LI r1, 99".toList⟩, error⟩ := rfl
  have herror : ofSource Catalog.sample source = .error ⟨⟨3, "LI r1, 99".toList⟩, error⟩ := rfl
  obtain ⟨houtcome, -, hsource⟩ := ofLines_outcome Catalog.sample
  obtain ⟨-, -, hnumber⟩ := hsource source
  exact ⟨(houtcome _ _).1 hunknown, (houtcome _ _).1 hrefused, herror, hnumber _ herror⟩

end Listing
end Asm16
