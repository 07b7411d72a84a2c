-- SUMMARY: Encodings one after the other, as a relation, and that the second pass follows it.
import Asm16.Program.Listing
import Asm16.Proofs.Instruction.Reading

/-!
# The second pass

`Encoding.run` carries the encodings so far and the address after them. The relation `Consecutive`
holds between lines and their encodings from an address on: each line is encoded at the address
after the one before it. It splits where the lines split, at the address that the number of words
between the two places gives.
-/

namespace Asm16
namespace Encoding

/-- The encodings of lines, the first at `here` and each other at the address after the one before
it. -/
inductive Consecutive (catalog : Catalog) (labels : LabelTable) :
    Address → List Line → List Encoding → Prop where
  | nil {here} : Consecutive catalog labels here [] []
  | cons {here l lines e es} :
      l.encode catalog labels here = .ok e →
      Consecutive catalog labels e.next lines es →
      Consecutive catalog labels here (l :: lines) (e :: es)

/-- The bytes that encodings take up. -/
def size (es : List Encoding) : Nat := 2 * (es.flatMap words).length

variable {catalog : Catalog} {labels : LabelTable} {here : Address} {l : Line}
  {lines rest : List Line} {e : Encoding} {es fs done : List Encoding}

/-! ## Sizes -/

theorem length_words (e : Encoding) : e.words.length = e.cycles.words := by
  obtain ⟨address, word, second, line⟩ := e
  cases second <;> rfl

theorem size_append (es fs : List Encoding) : size (es ++ fs) = size es + size fs := by
  simp only [size, List.flatMap_append, List.length_append]
  omega

theorem size_cons (e : Encoding) (es : List Encoding) :
    size (e :: es) = e.cycles.bytes + size es := by
  simp only [size, List.flatMap_cons, List.length_append, length_words, Cycles.bytes]
  omega

theorem next_add (e : Encoding) (es : List Encoding) :
    e.next + BitVec.ofNat 32 (size es) = e.address + BitVec.ofNat 32 (size (e :: es)) := by
  rw [next, Address.after, size_cons, BitVec.ofNat_add, BitVec.add_assoc]

/-! ## One line -/

theorem address_of_encode (h : l.encode catalog labels here = .ok e) : e.address = here := by
  obtain ⟨_, _, _, _, _, -, -, -, rfl⟩ := Line.encode_eq_ok_iff.1 h
  rfl

theorem line_of_encode (h : l.encode catalog labels here = .ok e) : e.line = l := by
  obtain ⟨_, _, _, _, _, -, -, -, rfl⟩ := Line.encode_eq_ok_iff.1 h
  rfl

theorem cycles_of_encode (h : l.encode catalog labels here = .ok e) :
    ∃ i operands, l.Invokes catalog i operands ∧ e.cycles = i.cycles := by
  obtain ⟨i, operands, _, _, _, hi, -, hf, rfl⟩ := Line.encode_eq_ok_iff.1 h
  exact ⟨i, operands, hi, Instruction.finish_cycles hf⟩

/-! ## Lists of lines -/

theorem Consecutive.map_line (h : Consecutive catalog labels here lines es) :
    es.map (·.line) = lines := by
  induction h with
  | nil => rfl
  | cons he _ ih => rw [List.map_cons, ih, line_of_encode he]

theorem Consecutive.append (h : Consecutive catalog labels here lines es)
    (k : Consecutive catalog labels (here + BitVec.ofNat 32 (size es)) rest fs) :
    Consecutive catalog labels here (lines ++ rest) (es ++ fs) := by
  induction h with
  | nil => simpa [size] using k
  | cons he _ ih =>
    refine .cons he (ih ?_)
    rw [next_add, address_of_encode he]
    exact k

/-- Where the lines split, the encodings split. -/
theorem Consecutive.split (h : Consecutive catalog labels here (lines ++ rest) es) :
    ∃ es₁ es₂, es = es₁ ++ es₂ ∧ Consecutive catalog labels here lines es₁ ∧
      Consecutive catalog labels (here + BitVec.ofNat 32 (size es₁)) rest es₂ := by
  induction lines generalizing here es with
  | nil => exact ⟨[], es, rfl, .nil, by simpa [size] using h⟩
  | cons l lines ih =>
    cases h with
    | cons he h =>
      obtain ⟨es₁, es₂, rfl, h₁, h₂⟩ := ih h
      rw [next_add, address_of_encode he] at h₂
      exact ⟨_ :: es₁, es₂, rfl, .cons he h₁, h₂⟩

/-- An encoding stands at the address after all the words before it. -/
theorem Consecutive.address (h : Consecutive catalog labels here lines (es ++ e :: fs)) :
    e.address = here + BitVec.ofNat 32 (size es) := by
  induction es generalizing here lines with
  | nil =>
    cases h with
    | cons he _ => simp [address_of_encode he, size]
  | cons f es ih =>
    cases h with
    | cons he h => rw [ih h, next_add, address_of_encode he]

theorem Consecutive.encode_of_mem (h : Consecutive catalog labels here lines es) (he : e ∈ es) :
    e.line.encode catalog labels e.address = .ok e := by
  induction h with
  | nil => cases he
  | cons hf _ ih =>
    rcases List.mem_cons.1 he with rfl | he
    · rw [line_of_encode hf, address_of_encode hf]
      exact hf
    · exact ih he

/-- Each line is encoded like another one under other labels, where the addresses are shifted. Then
the lines together are. -/
theorem Consecutive.transfer {others : LabelTable} {S : Encoding → Encoding → Prop}
    (shift : Address → Address) (h : Consecutive catalog labels here lines es)
    (hlines : List.Forall₂ (fun l k => ∀ a e, l.encode catalog labels a = .ok e →
      ∃ f, k.encode catalog others (shift a) = .ok f ∧ f.next = shift e.next ∧ S e f) lines rest) :
    ∃ fs, Consecutive catalog others (shift here) rest fs ∧ List.Forall₂ S es fs := by
  induction h generalizing rest with
  | nil =>
    cases hlines
    exact ⟨[], .nil, .nil⟩
  | cons he _ ih =>
    cases hlines with
    | cons hl hlines =>
      obtain ⟨f, hf, hnext, hS⟩ := hl _ _ he
      obtain ⟨fs, hfs, hall⟩ := ih hlines
      refine ⟨f :: fs, .cons hf ?_, .cons hS hall⟩
      rw [hnext]
      exact hfs

/-! ## The pass -/

theorem run_of_consecutive (h : Consecutive catalog labels here lines es) :
    run catalog labels (lines ++ rest) here done =
      run catalog labels rest (here + BitVec.ofNat 32 (size es)) (es.reverse ++ done) := by
  induction h generalizing done with
  | nil => simp [size]
  | cons he _ ih =>
    rw [List.cons_append, run, he]
    dsimp only
    rw [ih, next_add, address_of_encode he]
    simp

theorem run_append_of_error {d : Diagnostic} (h : run catalog labels lines here done = .error d) :
    run catalog labels (lines ++ rest) here done = .error d := by
  induction lines generalizing here done with
  | nil => cases h
  | cons l lines ih =>
    rw [List.cons_append, run]
    rw [run] at h
    cases he : l.encode catalog labels here with
    | ok e =>
      rw [he] at h
      exact ih h
    | error cause =>
      rw [he] at h
      exact h

theorem consecutive_of_run (h : run catalog labels lines here done = .ok es) :
    ∃ fs, Consecutive catalog labels here lines fs ∧ es = done.reverse ++ fs := by
  induction lines generalizing here done with
  | nil => exact ⟨[], .nil, by simpa [run] using h.symm⟩
  | cons l lines ih =>
    rw [run] at h
    split at h
    · rename_i e he
      obtain ⟨fs, hfs, rfl⟩ := ih h
      exact ⟨e :: fs, .cons he hfs, by simp⟩
    · cases h

theorem ofLines_eq_ok_iff :
    ofLines catalog labels lines = .ok es ↔ Consecutive catalog labels 0 lines es := by
  constructor
  · intro h
    obtain ⟨fs, hfs, rfl⟩ := consecutive_of_run h
    exact hfs
  · intro h
    have hrun : run catalog labels (lines ++ []) 0 [] =
        run catalog labels [] (0 + BitVec.ofNat 32 (size es)) (es.reverse ++ []) :=
      run_of_consecutive h
    simpa [ofLines, run] using hrun

/-- The pass ends at the first line that is refused. -/
theorem ofLines_of_error {cause : Cause} (h : ofLines catalog labels lines = .ok es)
    (hl : l.encode catalog labels (0 + BitVec.ofNat 32 (size es)) = .error cause) :
    ofLines catalog labels (lines ++ l :: rest) = .error ⟨l, cause⟩ := by
  have hrun : ofLines catalog labels (lines ++ l :: rest) =
      run catalog labels (l :: rest) (0 + BitVec.ofNat 32 (size es)) (es.reverse ++ []) :=
    run_of_consecutive (ofLines_eq_ok_iff.1 h)
  rw [hrun, run, hl]

end Encoding
end Asm16
