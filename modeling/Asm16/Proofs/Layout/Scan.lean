-- SUMMARY: The first pass without its accumulators: the lines it keeps, the sizes it steps by, and the address of each label.
import Asm16.Program.Layout
import Mathlib.Algebra.Order.Ring.Int
import Mathlib.Data.List.Basic
import Mathlib.Data.List.Forall2

/-!
# The first pass

`Layout.scan` carries an address, a label table and the lines kept so far. What it finds can be said
of the list of lines alone. It keeps the lines with code. It steps by the size of a line, which is
that of the instruction its code begins with. A name gets the address reached at the first line that
defines it. The pass succeeds if every line with code begins with a mnemonic.
-/

namespace Asm16

namespace Line

theorem mnemonic_of_words {l : Line} {name : Text} {operands : List Text}
    (h : l.code.words = name :: operands) : l.mnemonic = name := by
  rw [mnemonic, h, List.headD_cons]

theorem mnemonic_of_wordless {l : Line} (h : l.code.words = []) : l.mnemonic = l.code := by
  rw [mnemonic, h, List.headD_nil]

/-- The cycle count by which the first pass steps over a line, if there is code to step over. -/
def step? (catalog : Catalog) (l : Line) : Option Cycles :=
  if l.code.isEmpty then none else (catalog.lookup? l.mnemonic).map (·.cycles)

/-- The bytes by which the first pass steps over a line. -/
def size (catalog : Catalog) (l : Line) : Nat := (l.step? catalog).elim 0 Cycles.bytes

theorem size_of_no_code {catalog : Catalog} {l : Line} (h : l.code = []) : l.size catalog = 0 := by
  rw [size, step?, if_pos (List.isEmpty_iff.2 h), Option.elim_none]

/-- The first pass takes the same step over both lines. -/
structure StepsAlike (catalog : Catalog) (l k : Line) : Prop where
  code : k.code = [] ↔ l.code = []
  lookup : catalog.lookup? k.mnemonic = catalog.lookup? l.mnemonic

theorem StepsAlike.size {catalog : Catalog} {l k : Line} (h : l.StepsAlike catalog k) :
    k.size catalog = l.size catalog := by
  have hcode : k.code.isEmpty = l.code.isEmpty := by
    rw [Bool.eq_iff_iff, List.isEmpty_iff, List.isEmpty_iff, h.code]
  rw [Line.size, Line.size, step?, step?, hcode, h.lookup]

end Line

namespace Layout

variable {catalog : Catalog} {l : Line} {lines rest : List Line} {here : Address}
  {labels : LabelTable} {done : List Line} {name : Text}

/-- The lines with code. -/
def coded (lines : List Line) : List Line := lines.filter (!·.code.isEmpty)

/-- The lines with code, without their labels. -/
def kept (lines : List Line) : List Line := (coded lines).map Line.withoutLabel

/-- The bytes by which the first pass steps over lines. -/
def size (catalog : Catalog) (lines : List Line) : Nat := (lines.map (Line.size catalog)).sum

/-- Every line with code begins with a mnemonic. -/
def Known (catalog : Catalog) (lines : List Line) : Prop :=
  ∀ l ∈ coded lines, (catalog.lookup? l.mnemonic).isSome

/-- The address of the first line that defines a name, if the lines stand at `here`. -/
def addressOf (catalog : Catalog) (name : Text) : List Line → Address → Option Address
  | [], _ => none
  | l :: rest, here =>
    if l.label? = some name then some here
    else addressOf catalog name rest (here + BitVec.ofNat 32 (l.size catalog))

/-! ## Lines kept and bytes stepped over -/

theorem kept_append (lines rest : List Line) : kept (lines ++ rest) = kept lines ++ kept rest := by
  simp [kept, coded]

theorem coded_cons_of_isEmpty (h : l.code.isEmpty = true) : coded (l :: rest) = coded rest := by
  simp [coded, h]

theorem coded_cons_of_not_isEmpty (h : l.code.isEmpty = false) :
    coded (l :: rest) = l :: coded rest := by
  simp [coded, h]

theorem kept_cons_of_isEmpty (h : l.code.isEmpty = true) : kept (l :: rest) = kept rest := by
  rw [kept, coded_cons_of_isEmpty h, kept]

theorem kept_cons_of_not_isEmpty (h : l.code.isEmpty = false) :
    kept (l :: rest) = l.withoutLabel :: kept rest := by
  rw [kept, coded_cons_of_not_isEmpty h, List.map_cons, kept]

theorem coded_concat_of_no_code (hl : l.code = []) : coded (lines ++ [l]) = coded lines := by
  simp [coded, hl]

theorem coded_concat_of_code (hl : l.code ≠ []) : coded (lines ++ [l]) = coded lines ++ [l] := by
  simp [coded, hl]

theorem kept_concat_of_no_code (hl : l.code = []) : kept (lines ++ [l]) = kept lines := by
  rw [kept, coded_concat_of_no_code hl, kept]

theorem kept_concat_of_code (hl : l.code ≠ []) :
    kept (lines ++ [l]) = kept lines ++ [l.withoutLabel] := by
  rw [kept, coded_concat_of_code hl, List.map_append, kept, List.map_singleton]

theorem kept_append_cons_of_code (hl : l.code ≠ []) :
    kept (lines ++ l :: rest) = kept lines ++ l.withoutLabel :: kept rest := by
  rw [kept_append, kept_cons_of_not_isEmpty (by simpa using hl)]

theorem kept_append_cons_of_no_code (hl : l.code = []) :
    kept (lines ++ l :: rest) = kept (lines ++ rest) := by
  rw [kept_append, kept_append, kept_cons_of_isEmpty (List.isEmpty_iff.2 hl)]

theorem length_coded_lt (hl : l.code ≠ []) :
    (coded lines).length < (coded (lines ++ l :: rest)).length := by
  simp [coded, hl]

theorem length_kept (lines : List Line) : (kept lines).length = (coded lines).length := by
  rw [kept, List.length_map]

theorem exists_of_mem_kept (h : l ∈ kept lines) : ∃ x ∈ lines, x.withoutLabel = l := by
  obtain ⟨x, hx, rfl⟩ := List.mem_map.1 h
  exact ⟨x, List.mem_of_mem_filter hx, rfl⟩

theorem size_cons (catalog : Catalog) (l : Line) (rest : List Line) :
    size catalog (l :: rest) = l.size catalog + size catalog rest := by
  simp [size]

theorem known_append : Known catalog (lines ++ rest) ↔ Known catalog lines ∧ Known catalog rest := by
  simp only [Known, coded, List.filter_append, List.forall_mem_append]

theorem known_cons_iff : Known catalog (l :: lines) ↔
    (l.code ≠ [] → (catalog.lookup? l.mnemonic).isSome) ∧ Known catalog lines := by
  by_cases hc : l.code = []
  · rw [Known, coded_cons_of_isEmpty (List.isEmpty_iff.2 hc), ← Known]
    simp [hc]
  · rw [Known, coded_cons_of_not_isEmpty (List.isEmpty_eq_false_iff.2 hc), List.forall_mem_cons,
      ← Known]
    simp [hc]

theorem known_append_cons_of_no_code (hl : l.code = []) :
    Known catalog (lines ++ l :: rest) ↔ Known catalog (lines ++ rest) := by
  rw [known_append, known_append, known_cons_iff]
  simp [hl]

theorem Known.tail (h : Known catalog (l :: lines)) : Known catalog lines :=
  (known_cons_iff.1 h).2

/-! ## Lines stepped over alike -/

theorem size_of_stepsAlike (h : List.Forall₂ (Line.StepsAlike catalog) lines rest) :
    size catalog rest = size catalog lines := by
  induction h with
  | nil => rfl
  | cons hl _ ih => rw [size_cons, size_cons, ih, hl.size]

theorem known_of_stepsAlike (h : List.Forall₂ (Line.StepsAlike catalog) lines rest)
    (hknown : Known catalog lines) : Known catalog rest := by
  induction h with
  | nil => exact hknown
  | cons hl _ ih =>
    obtain ⟨hfirst, hlines⟩ := known_cons_iff.1 hknown
    refine known_cons_iff.2 ⟨fun hcode => ?_, ih hlines⟩
    rw [hl.lookup]
    exact hfirst (mt hl.code.2 hcode)

/-- What relates the codes of lines relates the lines kept. -/
theorem forall₂_kept {R S : Line → Line → Prop} (h : List.Forall₂ R lines rest)
    (hcode : ∀ l k, R l k → (k.code = [] ↔ l.code = []))
    (hS : ∀ l k, R l k → S l.withoutLabel k.withoutLabel) :
    List.Forall₂ S (kept lines) (kept rest) := by
  have hcoded : List.Forall₂ R (coded lines) (coded rest) := by
    refine List.rel_filter (fun l k hl => ?_) h
    simp only [Bool.not_eq_true', List.isEmpty_eq_false_iff, ne_eq, hcode l k hl]
  rw [kept, kept, List.forall₂_map_left_iff, List.forall₂_map_right_iff]
  exact hcoded.imp hS

/-! ## Addresses of names -/

theorem addressOf_append (catalog : Catalog) (name : Text) (lines rest : List Line)
    (here : Address) :
    addressOf catalog name (lines ++ rest) here =
      (addressOf catalog name lines here).or
        (addressOf catalog name rest (here + BitVec.ofNat 32 (size catalog lines))) := by
  induction lines generalizing here with
  | nil => simp [addressOf, size]
  | cons l lines ih =>
    simp only [List.cons_append, addressOf]
    split
    · rfl
    · rw [ih, size_cons, BitVec.ofNat_add, BitVec.add_assoc]

/-- Lines that stand further on define their names further on. -/
theorem addressOf_add (catalog : Catalog) (name : Text) (lines : List Line)
    (here offset : Address) :
    addressOf catalog name lines (here + offset) =
      (addressOf catalog name lines here).map (· + offset) := by
  induction lines generalizing here with
  | nil => rfl
  | cons l lines ih =>
    simp only [addressOf]
    split
    · rfl
    · rw [← ih]
      congr 1
      ac_rfl

theorem addressOf_eq_none_iff :
    addressOf catalog name lines here = none ↔ ∀ l ∈ lines, l.label? ≠ some name := by
  induction lines generalizing here with
  | nil => simp [addressOf]
  | cons l lines ih =>
    simp only [addressOf, List.forall_mem_cons]
    split
    · rename_i h; simp [h]
    · rename_i h; simp [h, ih]

/-- At the first line that defines a name, the name has the address reached there. -/
theorem addressOf_of_first (hfirst : ∀ x ∈ lines, x.label? ≠ some name)
    (hl : l.label? = some name) :
    addressOf catalog name (lines ++ l :: rest) here =
      some (here + BitVec.ofNat 32 (size catalog lines)) := by
  rw [addressOf_append, addressOf_eq_none_iff.2 hfirst, Option.none_or, addressOf, if_pos hl]

/-- A name that has an address has that of its first line. -/
theorem exists_first_of_addressOf {a : Address} (h : addressOf catalog name lines here = some a) :
    ∃ pre l post, lines = pre ++ l :: post ∧ l.label? = some name ∧
      (∀ x ∈ pre, x.label? ≠ some name) ∧ a = here + BitVec.ofNat 32 (size catalog pre) := by
  induction lines generalizing here with
  | nil => cases h
  | cons l lines ih =>
    rw [addressOf] at h
    split at h
    · rename_i hl
      cases h
      exact ⟨[], l, lines, rfl, hl, by simp, by simp [size]⟩
    · rename_i hl
      obtain ⟨pre, x, post, rfl, hx, hfirst, rfl⟩ := ih h
      refine ⟨l :: pre, x, post, rfl, hx, List.forall_mem_cons.2 ⟨hl, hfirst⟩, ?_⟩
      rw [size_cons, BitVec.ofNat_add, BitVec.add_assoc]

/-! ## The pass -/

/-- The label table after lines that stand at `here`. -/
def table (catalog : Catalog) : List Line → Address → LabelTable → LabelTable
  | [], _, labels => labels
  | l :: rest, here, labels =>
    table catalog rest (here + BitVec.ofNat 32 (l.size catalog)) (l.define labels here)

theorem get?_define (l : Line) (labels : LabelTable) (here : Address) (name : Text) :
    (l.define labels here).get? name =
      (labels.get? name).or (if l.label? = some name then some here else none) := by
  unfold Line.define
  cases hl : l.label? with
  | none => simp
  | some other =>
    dsimp only
    rw [LabelTable.get?_define]
    by_cases h : name = other
    · subst h
      cases labels.get? name <;> simp
    · simp [h, Ne.symm h]

theorem get?_table (catalog : Catalog) (lines : List Line) (here : Address) (labels : LabelTable)
    (name : Text) :
    (table catalog lines here labels).get? name =
      (labels.get? name).or (addressOf catalog name lines here) := by
  induction lines generalizing here labels with
  | nil => simp [table, addressOf]
  | cons l lines ih =>
    rw [table, ih, get?_define, addressOf, Option.or_assoc]
    split <;> simp

theorem table_append (catalog : Catalog) (lines rest : List Line) (here : Address)
    (labels : LabelTable) :
    table catalog (lines ++ rest) here labels =
      table catalog rest (here + BitVec.ofNat 32 (size catalog lines))
        (table catalog lines here labels) := by
  induction lines generalizing here labels with
  | nil => simp [table, size]
  | cons l lines ih =>
    rw [List.cons_append, table, table, ih, size_cons, BitVec.ofNat_add, BitVec.add_assoc]

/-- A line without code is looked at for its label only. -/
theorem table_append_cons_of_no_code (hl : l.code = []) :
    table catalog (lines ++ l :: rest) here labels =
      table catalog rest (here + BitVec.ofNat 32 (size catalog lines))
        (l.define (table catalog lines here labels)
          (here + BitVec.ofNat 32 (size catalog lines))) := by
  rw [table_append, table, Line.size_of_no_code hl, BitVec.add_zero]

/-- Lines that all begin with a mnemonic are passed over, whatever follows them. -/
theorem scan_append_of_known (h : Known catalog lines) (rest : List Line) :
    scan catalog (lines ++ rest) here labels done =
      scan catalog rest (here + BitVec.ofNat 32 (size catalog lines)) (table catalog lines here labels)
        ((kept lines).reverse ++ done) := by
  induction lines generalizing here labels done with
  | nil => simp [table, kept, coded, size]
  | cons l lines ih =>
    have hrest : Known catalog lines := h.tail
    rw [List.cons_append, scan, table, size_cons, BitVec.ofNat_add, ← BitVec.add_assoc]
    cases hc : l.code.isEmpty with
    | true =>
      have hsize : l.size catalog = 0 := Line.size_of_no_code (List.isEmpty_iff.1 hc)
      rw [if_pos rfl, ih hrest, hsize, kept_cons_of_isEmpty hc]
      simp
    | false =>
      obtain ⟨i, hi⟩ := Option.isSome_iff_exists.1 (h l (by simp [coded, hc]))
      have hsize : l.size catalog = i.cycles.bytes := by simp [Line.size, Line.step?, hc, hi]
      rw [if_neg (by simp), hi]
      dsimp only
      rw [ih hrest, hsize, kept_cons_of_not_isEmpty hc, Address.after]
      simp

/-- The pass over lines that all begin with a mnemonic. -/
theorem scan_of_known (h : Known catalog lines) :
    scan catalog lines here labels done =
      .ok ⟨table catalog lines here labels, done.reverse ++ kept lines⟩ := by
  have hscan : scan catalog (lines ++ []) here labels done = _ := scan_append_of_known h []
  rw [List.append_nil] at hscan
  rw [hscan, scan, List.reverse_append, List.reverse_reverse]

theorem known_of_scan {layout : Layout} (h : scan catalog lines here labels done = .ok layout) :
    Known catalog lines := by
  induction lines generalizing here labels done with
  | nil => simp [Known, coded]
  | cons l lines ih =>
    rw [scan] at h
    split at h
    · rename_i hc
      simpa [Known, coded, hc] using ih h
    · rename_i hc
      split at h
      · rename_i i hi
        simpa [Known, coded, hc, hi] using ih h
      · cases h

/-- The pass over a program, said of its lines. -/
theorem ofLines_eq_ok_iff {layout : Layout} :
    ofLines catalog lines = .ok layout ↔
      Known catalog lines ∧ layout = ⟨table catalog lines 0 .empty, kept lines⟩ := by
  constructor
  · intro h
    have hk : Known catalog lines := known_of_scan h
    rw [ofLines, scan_of_known hk] at h
    exact ⟨hk, (Except.ok.inj h).symm⟩
  · rintro ⟨hk, rfl⟩
    exact scan_of_known hk

theorem get?_table_empty (catalog : Catalog) (lines : List Line) (name : Text) :
    (table catalog lines 0 .empty).get? name = addressOf catalog name lines 0 := by
  rw [get?_table]
  rfl

end Layout
end Asm16
