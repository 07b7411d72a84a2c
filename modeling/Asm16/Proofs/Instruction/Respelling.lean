-- SUMMARY: An immediate may be written as the hexadecimal literal of its value: the words stay the same.
import Asm16.Proofs.Catalog.Sample
import Asm16.Proofs.Immediate.Format
import Asm16.Proofs.Instruction.Reading
import Asm16.Proofs.Text.Pieces

/-!
# Respelling immediates

The immediate of a line is its second operand or the displacement of it. If another text is put in its
place, the line has the same words but one, which is read as before up to the text of the immediate, as
long as the new text can only be an immediate. The words that are encoded are then those of the value
that the new text resolves to. The hexadecimal literal of a value is such a text.
-/

namespace Asm16

open Operand Immediate

/-- The second line is the first with `new` in the place of `old`, at the start of the third word. -/
def Line.Respells (l k : Line) (old new : Text) : Prop :=
  ∃ pre post : Text, l.text = pre ++ (old ++ post) ∧ k.text = pre ++ (new ++ post) ∧
    pre.EndsApart ∧ pre.words.length = 2

/-- The text can stand for an immediate and for nothing else. -/
structure Operand.IsImmediate (t : Text) : Prop where
  ne_nil : t ≠ []
  separator : ∀ c ∈ t, Text.isSeparator c = false
  parenthesis : '(' ∉ t
  not_register : ∀ n, ¬ SpellsRegister t n

variable {catalog : Catalog} {labels : LabelTable} {here : Address} {l k : Line} {e : Encoding}
  {i : Instruction} {operands : List Text} {fields : Fields} {a b old new u : Text} {n : Nat}

/-! ## Operands -/

namespace Operand

theorem IsImmediate.plain (h : IsImmediate new) : SpellsPlain new := by
  refine ⟨?_, h.not_register⟩
  rintro ⟨x, y, z, rfl⟩
  exact h.parenthesis (by simp)

theorem SpellsDisplaced.respell (h : SpellsDisplaced (old ++ u) old n) (hnew : IsImmediate new) :
    SpellsDisplaced (new ++ u) new n := by
  obtain ⟨r, hb, -, hr⟩ := h
  exact ⟨r, by rw [List.append_cancel_left hb], hnew.parenthesis, hr⟩

end Operand

namespace Instruction

/-- Another immediate at the start of the second operand is read in place of the first. -/
theorem Reads.respell (h : i.Reads [a, b] fields (some old)) (hb : b = old ++ u)
    (hnew : IsImmediate new) : i.Reads [a, new ++ u] fields (some new) := by
  cases h with
  | s hf ha hbase hd =>
    cases hbase with
    | displaced hbase hne =>
      subst hb
      exact .s hf ha (.displaced (hbase.respell hnew) hnew.ne_nil) hd
  | u hf ha ht =>
    have hu : u = [] := by simpa using hb
    rw [hu, List.append_nil]
    exact .u hf ha hnew.plain
  | j hf ha hbase hd =>
    cases hbase with
    | displaced hbase hne =>
      subst hb
      exact .j hf ha (.displaced (hbase.respell hnew) hnew.ne_nil) hd

/-- The words that are emitted hold the value, whatever text it was given by. -/
theorem emit_respell (i : Instruction) (fields : Fields) (old new : Text) (v : Word) :
    i.emit fields (some (new, v)) =
      ((i.emit fields (some (old, v))).1,
        (i.emit fields (some (old, v))).2.map fun second => ⟨second.value, new⟩) := by
  unfold emit
  cases i.cycles <;> rfl

end Instruction

/-! ## Lines -/

namespace Line

/-- The immediate of a line stands in its text, where another can be put. -/
theorem exists_respells (hi : l.Invokes catalog i operands) (ht : i.Takes operands old) (new : Text) :
    ∃ k, l.Respells k old new := by
  obtain ⟨name, hwords, -⟩ := hi
  obtain ⟨a, u, rfl⟩ := ht.exists_append
  have hsplit : l.text.words = [name, a] ++ (old ++ u) :: [] := hwords
  obtain ⟨pre, post, htext, hpre, hvs, -⟩ := Text.exists_append_of_words_eq hsplit
  exact ⟨⟨l.number, pre ++ (new ++ (u ++ post))⟩, pre, u ++ post, by rw [htext, List.append_assoc], rfl,
    hpre, by rw [hvs]; rfl⟩

/-- The third word of a line keeps what stands after the text that is replaced, and the other words
stay. -/
theorem Respells.words {name : Text} (h : l.Respells k old new)
    (hwords : l.text.words = [name, a, old ++ u]) (hold : old ≠ []) (hnew : IsImmediate new) :
    k.text.words = [name, a, new ++ u] := by
  obtain ⟨pre, post, hl, hk, hpre, hlength⟩ := h
  have hsplit : pre.words ++ Text.words (old ++ post) = [name, a] ++ [old ++ u] := by
    rw [← hpre.words_append, ← hl, hwords]
    rfl
  obtain ⟨hfirst, hlast⟩ := List.append_inj hsplit hlength
  have hseparator : ∀ c ∈ old, Text.isSeparator c = false := by
    intro c hc
    have hword : old ++ u ∈ Text.words (old ++ post) := by rw [hlast]; exact List.mem_singleton_self _
    exact Text.not_isSeparator_of_mem_words hword c (List.mem_append_left u hc)
  -- the word goes on after the new text as it went on after the old one
  obtain ⟨v, ws, hrest⟩ := Text.exists_forall_words_append post
  rw [hrest old hold hseparator] at hlast
  obtain ⟨hword, rfl⟩ := List.cons.inj hlast
  rw [hk, hpre.words_append, hfirst, hrest new hnew.ne_nil hnew.separator, List.append_cancel_left hword]
  rfl

/-- The immediate of an encoded line has a value. -/
theorem exists_resolve_of_encode (he : l.encode catalog labels here = .ok e)
    (hi : l.Invokes catalog i operands) (ht : i.Takes operands old) :
    ∃ v, resolve old i.cycles.width ⟨labels, i.addressing, here⟩ = .ok v := by
  obtain ⟨j, others, fields, source, p, hj, hr, hf, -⟩ := encode_eq_ok_iff.1 he
  obtain ⟨rfl, rfl⟩ := hi.unique hj
  obtain rfl := hr.takes_iff.1 ht
  obtain ⟨v, hv, -⟩ := map_eq_ok.1 hf
  exact ⟨v, hv⟩

/-- A line with another immediate of the same value is encoded to the same words. -/
theorem Respells.encode (h : l.Respells k old new) (hi : l.Invokes catalog i operands)
    (ht : i.Takes operands old) (hnew : IsImmediate new)
    (hvalue : resolve new i.cycles.width ⟨labels, i.addressing, here⟩ =
      resolve old i.cycles.width ⟨labels, i.addressing, here⟩)
    (he : l.encode catalog labels here = .ok e) :
    k.encode catalog labels here =
      .ok ⟨e.address, e.word, e.immediate.map fun second => ⟨second.value, new⟩, k⟩ := by
  obtain ⟨j, others, fields, source, p, hj, hr, hf, rfl⟩ := encode_eq_ok_iff.1 he
  obtain ⟨rfl, rfl⟩ := hi.unique hj
  obtain rfl := hr.takes_iff.1 ht
  obtain ⟨v, hv, rfl⟩ := map_eq_ok.1 hf
  obtain ⟨a, u, rfl⟩ := ht.exists_append
  obtain ⟨name, hwords, hlookup⟩ := hi
  have hold : old ≠ [] := by
    refine ht.ne_nil fun b hb => Text.ne_nil_of_mem_words (t := l.text) ?_
    rw [hwords]
    exact List.mem_cons_of_mem name hb
  have hk : k.Invokes catalog i [a, new ++ u] := ⟨name, h.words hwords hold hnew, hlookup⟩
  have hfinish : i.finish fields (some new) ⟨labels, i.addressing, here⟩ =
      .ok (i.emit fields (some (new, v))) := map_eq_ok.2 ⟨v, hvalue.trans hv, rfl⟩
  refine encode_eq_ok_iff.2 ⟨i, _, fields, _, _, hk, hr.respell rfl hnew, hfinish, ?_⟩
  rw [Instruction.emit_respell i fields old new v]

end Line

/-! ## Hexadecimal literals -/

theorem Immediate.isImmediate_shown (w : Width) (v : Word) :
    IsImmediate ('0' :: 'x' :: shown w v) := by
  have hall : (("0123456789ABCDEF".toList.all fun c => !Text.isSeparator c && c != '(')) = true := rfl
  have hdigits : ∀ c ∈ shown w v, Text.isSeparator c = false ∧ c ≠ '(' := by
    intro c hc
    simpa using List.all_eq_true.1 hall c (mem_shown hc)
  refine ⟨List.cons_ne_nil _ _, ?_, ?_, ?_⟩
  · exact List.forall_mem_cons.2 ⟨rfl, List.forall_mem_cons.2 ⟨rfl, fun c hc => (hdigits c hc).1⟩⟩
  · intro hmem
    simp only [List.mem_cons, Char.reduceEq, false_or] at hmem
    exact (hdigits _ hmem).2 rfl
  · rintro n ⟨c, digits, hspell, hc, -⟩
    obtain ⟨rfl, -⟩ := List.cons.inj hspell
    rcases hc with hc | hc <;> cases hc

/-- The digits an immediate is formatted to are those of its width, and the literal they make has the same
value. In an encoded line the immediate may be replaced by the literal: the line is encoded to the same
words. -/
theorem Immediate.format_reads_back :
    (∀ raw w ctx t, format raw w ctx = .ok t →
      t.length = w.digits ∧ (∀ c ∈ t, c ∈ "0123456789ABCDEF".toList) ∧
        (ctx.labels.contains ('0' :: 'x' :: t) = false →
          resolve ('0' :: 'x' :: t) w ctx = resolve raw w ctx)) ∧
    ∀ (l : Line) catalog labels here e i operands raw, l.encode catalog labels here = .ok e →
      l.Invokes catalog i operands → i.Takes operands raw →
        ∃ t, format raw i.cycles.width ⟨labels, i.addressing, here⟩ = .ok t ∧
          (∃ k, l.Respells k raw ('0' :: 'x' :: t)) ∧
          (labels.contains ('0' :: 'x' :: t) = false → ∀ k, l.Respells k raw ('0' :: 'x' :: t) →
            k.encode catalog labels here =
              .ok ⟨e.address, e.word, e.immediate.map (⟨·.value, '0' :: 'x' :: t⟩), k⟩) := by
  constructor
  · intro raw w ctx t h
    obtain ⟨v, hv, rfl⟩ := map_eq_ok.1 h
    refine ⟨length_shown w v, fun c hc => mem_shown hc, fun hlabel => ?_⟩
    rw [resolve_shown hv hlabel, hv]
  · intro l catalog labels here e i operands raw he hi ht
    obtain ⟨v, hv⟩ := Line.exists_resolve_of_encode he hi ht
    refine ⟨shown i.cycles.width v, map_eq_ok.2 ⟨v, hv, rfl⟩, Line.exists_respells hi ht _, ?_⟩
    intro hlabel k hk
    exact hk.encode hi ht (isImmediate_shown _ v) ((resolve_shown hv hlabel).trans hv.symm) he

/-- A branch back to a label, and the same branch by its distance. -/
theorem Immediate.format_reads_back_branch :
    let labels : LabelTable := ⟨[("loop".toList, 2)], by decide⟩
    let l := Line.mk 3 "BR r1, loop(r2)".toList
    let k := Line.mk 3 "BR r1, 0xFFFC(r2)".toList
    l.Respells k "loop".toList "0xFFFC".toList ∧
      l.encode Catalog.sample labels 6 = .ok ⟨6, 0x221C, some ⟨0xFFFC, "loop".toList⟩, l⟩ ∧
      k.encode Catalog.sample labels 6 = .ok ⟨6, 0x221C, some ⟨0xFFFC, "0xFFFC".toList⟩, k⟩ := by
  intro labels l k
  have hk : l.Respells k "loop".toList "0xFFFC".toList := by
    refine ⟨"BR r1, ".toList, "(r2)".toList, rfl, rfl, ?_, rfl⟩
    intro c hc
    cases hc
    rfl
  have hl : l.encode Catalog.sample labels 6 = .ok ⟨6, 0x221C, some ⟨0xFFFC, "loop".toList⟩, l⟩ := rfl
  have hlabel : labels.contains "0xFFFC".toList = false := rfl
  refine ⟨hk, hl, ?_⟩
  let i : Instruction := ⟨"BR".toList, 12, .j 2, .two, some .relative⟩
  have hi : l.Invokes Catalog.sample i ["r1".toList, "loop(r2)".toList] := ⟨"BR".toList, rfl, rfl⟩
  have hr2 : SpellsRegister "r2".toList 2 := ⟨'r', ['2'], rfl, .inl rfl, rfl, rfl⟩
  have ht : i.Takes ["r1".toList, "loop(r2)".toList] "loop".toList :=
    .j rfl ⟨"r2".toList, rfl, by simp, hr2⟩ (List.cons_ne_nil _ _)
  obtain ⟨t, ht', -, hencode⟩ :=
    format_reads_back.2 l Catalog.sample labels 6 _ i _ "loop".toList hl hi ht
  have hshown : shown .word 0xFFFC = "FFFC".toList := by decide
  have hvalue : resolve "loop".toList .word ⟨labels, some .relative, 6⟩ = .ok 0xFFFC := rfl
  have hformat := map_eq_ok.2 ⟨_, hvalue, hshown⟩
  obtain rfl := Except.ok.inj (hformat.symm.trans ht')
  exact hencode hlabel k hk

end Asm16
