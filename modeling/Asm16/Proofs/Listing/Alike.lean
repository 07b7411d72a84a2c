-- SUMMARY: Separators and the case of mnemonics do not matter: programs that differ in nothing else assemble alike.
import Asm16.Proofs.Listing.Mnemonics

/-!
# Alike programs

Two lines are alike if they define the same label and have the same words, where the mnemonics may be
in different case. Nothing else of a line's text is looked at. So programs that are alike line by line
have the same labels and the same encodings, or fail at the same place for the same cause.
-/

namespace Asm16

variable {catalog : Catalog} {labels : LabelTable} {here : Address} {l k : Line}
  {lines others : List Line} {e : Encoding} {es : List Encoding} {n : Nat} {d : Diagnostic}

/-- The lines define the same label or none, and their code is the same text or has the same words,
but for the case of the mnemonic. -/
structure Line.Alike (l k : Line) : Prop where
  label : k.label? = l.label?
  code : k.code = l.code ∨ ∃ name other operands, l.code.words = name :: operands ∧
    k.code.words = other :: operands ∧ Text.sameWord name other = true

/-- The encodings are the same but for the line they come from. -/
structure Encoding.Alike (e f : Encoding) : Prop where
  address : f.address = e.address
  word : f.word = e.word
  immediate : f.immediate = e.immediate

/-- The causes are the same but for the case of a mnemonic that could not be resolved. -/
inductive Cause.Alike : Cause → Cause → Prop where
  | refl (cause) : Alike cause cause
  | unresolvable {name other} :
      Text.sameWord name other = true → Alike (.unresolvable name) (.unresolvable other)

/-! ## Alike lines -/

namespace Line

theorem Alike.code_eq_nil_iff (h : l.Alike k) : k.code = [] ↔ l.code = [] := by
  obtain hcode | ⟨name, other, operands, hl, hk, -⟩ := h.code
  · rw [hcode]
  · have hl' : l.code ≠ [] := fun hnil => by simp [hnil, Text.words, Text.cutAt_nil] at hl
    have hk' : k.code ≠ [] := fun hnil => by simp [hnil, Text.words, Text.cutAt_nil] at hk
    exact iff_of_false hk' hl'

theorem Alike.mnemonic (h : l.Alike k) : Text.sameWord l.mnemonic k.mnemonic = true := by
  obtain hcode | ⟨name, other, operands, hl, hk, hsame⟩ := h.code
  · rw [Line.mnemonic, Line.mnemonic, hcode]
    exact Text.sameWord_refl _
  · rwa [mnemonic_of_words hl, mnemonic_of_words hk]

theorem Alike.steps (h : l.Alike k) : l.StepsAlike catalog k :=
  ⟨h.code_eq_nil_iff, (catalog.lookup?_congr h.mnemonic).symm⟩

theorem Alike.isUnresolvable_iff (h : l.Alike k) :
    k.IsUnresolvable catalog ↔ l.IsUnresolvable catalog := by
  rw [IsUnresolvable, IsUnresolvable, ← Layout.lookup?_eq_none_iff, ← Layout.lookup?_eq_none_iff,
    h.steps.lookup, ne_eq, ne_eq, h.code_eq_nil_iff]

/-- Alike lines are encoded alike, or are refused for the same cause. -/
theorem Alike.encode (h : l.Alike k) (hknown : (catalog.lookup? l.mnemonic).isSome) :
    k.withoutLabel.encode catalog labels here =
      (l.withoutLabel.encode catalog labels here).map fun e => { e with line := k.withoutLabel } := by
  obtain hcode | ⟨name, other, operands, hl, hk, hsame⟩ := h.code
  · exact encode_of_text_eq hcode
  · obtain ⟨i, hi⟩ := Option.isSome_iff_exists.1 hknown
    rw [mnemonic_of_words hl] at hi
    have hinvokes : l.withoutLabel.Invokes catalog i operands := ⟨name, hl, hi⟩
    have hinvokes' : k.withoutLabel.Invokes catalog i operands :=
      ⟨other, hk, (catalog.lookup?_congr hsame).symm.trans hi⟩
    rw [hinvokes.encode, hinvokes'.encode]
    cases i.encode operands labels here <;> rfl

end Line

/-! ## Alike programs -/

/-- Where lines are split, alike lines are split. -/
theorem exists_split_of_forall₂ {α β : Type} {R : α → β → Prop} {before after : List α} {a : α}
    {bs : List β} (h : List.Forall₂ R (before ++ a :: after) bs) :
    ∃ before' b after', bs = before' ++ b :: after' ∧ List.Forall₂ R before before' ∧ R a b ∧
      List.Forall₂ R after after' := by
  induction before generalizing bs with
  | nil =>
    cases h with
    | cons ha h => exact ⟨[], _, _, rfl, .nil, ha, h⟩
  | cons x before ih =>
    cases h with
    | cons hx h =>
      obtain ⟨before', b, after', rfl, hbefore, ha, hafter⟩ := ih h
      exact ⟨_ :: before', b, after', rfl, .cons hx hbefore, ha, hafter⟩

namespace Layout

theorem stepsAlike_of_alike (h : List.Forall₂ Line.Alike lines others) :
    List.Forall₂ (Line.StepsAlike catalog) lines others :=
  h.imp fun _ _ hl => hl.steps

theorem table_of_alike (h : List.Forall₂ Line.Alike lines others) (here : Address)
    (labels : LabelTable) : table catalog others here labels = table catalog lines here labels := by
  induction h generalizing here labels with
  | nil => rfl
  | cons hl _ ih => rw [table, table, ih, hl.steps.size, Line.define, Line.define, hl.label]

theorem forall_not_unresolvable_of_alike (h : List.Forall₂ Line.Alike lines others)
    (hlines : ∀ l ∈ lines, ¬ l.IsUnresolvable catalog) : ∀ k ∈ others, ¬ k.IsUnresolvable catalog :=
  known_iff.1 (known_of_stepsAlike (stepsAlike_of_alike h) (known_iff.2 hlines))

end Layout

namespace Listing

theorem Encodes.of_alike (hes : Encodes catalog labels lines es)
    (h : List.Forall₂ Line.Alike lines others) :
    ∃ fs, Encodes catalog labels others fs ∧ List.Forall₂ Encoding.Alike es fs := by
  have hkept : List.Forall₂ (fun l k => ∀ a e, l.encode catalog labels a = .ok e →
      ∃ f, k.encode catalog labels (id a) = .ok f ∧ f.next = id e.next ∧ e.Alike f)
      (Layout.kept lines) (Layout.kept others) := by
    refine Layout.forall₂_kept h (fun l k hl => hl.code_eq_nil_iff) fun l k hl a e he => ?_
    obtain ⟨i, hi, -⟩ := Line.lookup?_of_encode he
    refine ⟨{ e with line := k.withoutLabel }, ?_, rfl, ⟨rfl, rfl, rfl⟩⟩
    rw [id, hl.encode (Option.isSome_iff_exists.2 ⟨i, hi⟩), he]
    rfl
  obtain ⟨fs, hfs, halike⟩ := (encodes_iff.1 hes).transfer id hkept
  exact ⟨fs, encodes_iff.2 hfs, halike⟩

theorem FailsAt.of_alike (hd : FailsAt catalog lines n d) (h : List.Forall₂ Line.Alike lines others) :
    ∃ d', FailsAt catalog others n d' ∧ d.cause.Alike d'.cause := by
  cases hd with
  | unresolvable hlines hbefore hl =>
    subst hlines
    obtain ⟨before', k, after', hothers, hbefore', hk, -⟩ := exists_split_of_forall₂ h
    rw [hbefore'.length_eq]
    exact ⟨_, .unresolvable hothers (Layout.forall_not_unresolvable_of_alike hbefore' hbefore)
      (hk.isUnresolvable_iff.2 hl), .unresolvable hk.mnemonic⟩
  | @refused before after l es cause hknown hlines hl hes he =>
    have hknown' := Layout.forall_not_unresolvable_of_alike h hknown
    -- both programs are encoded against the same label table
    have htable : Layout.table catalog others 0 .empty = Layout.table catalog lines 0 .empty :=
      Layout.table_of_alike h 0 .empty
    have hmnemonic : (catalog.lookup? l.mnemonic).isSome :=
      Layout.lookup?_of_known (Layout.known_iff.2 hknown) (by simp [hlines]) hl
    rw [hlines] at h
    obtain ⟨before', k, after', hothers, hbefore', hk, -⟩ := exists_split_of_forall₂ h
    obtain ⟨fs, hfs, -⟩ := hes.of_alike hbefore'
    rw [hbefore'.length_eq]
    rw [← htable] at hfs he
    refine ⟨_, .refused hknown' hothers (mt hk.code_eq_nil_iff.1 hl) hfs ?_, .refl cause⟩
    rw [Line.encodeAfter] at he ⊢
    rw [Layout.size_of_stepsAlike (Layout.stepsAlike_of_alike hbefore'), hk.encode hmnemonic, he]
    rfl

/-- Programs that are alike line by line have the same labels and alike encodings, one for one, or
fail at the same line for the same cause, up to the spelling of an unknown mnemonic. -/
theorem ofLines_alike (h : List.Forall₂ Line.Alike lines others) :
    (∃ first second, ofLines catalog lines = .ok first ∧ ofLines catalog others = .ok second ∧
      second.labels = first.labels ∧
      List.Forall₂ Encoding.Alike first.encodings second.encodings) ∨
    ∃ n d d', ofLines catalog lines = .error d ∧ ofLines catalog others = .error d' ∧
      FailsAt catalog lines n d ∧ FailsAt catalog others n d' ∧ d.cause.Alike d'.cause := by
  cases hr : ofLines catalog lines with
  | error d =>
    right
    obtain ⟨n, hd⟩ := ofLines_eq_error_iff.1 hr
    obtain ⟨d', hd', hcause⟩ := hd.of_alike h
    exact ⟨n, d, d', rfl, ofLines_eq_error_iff.2 ⟨n, hd'⟩, hd, hd', hcause⟩
  | ok first =>
    left
    cases ofLines_eq_iff.1 hr with
    | assembled hknown hes =>
      obtain ⟨fs, hfs, halike⟩ := hes.of_alike h
      rw [← Layout.table_of_alike h] at hfs
      exact ⟨_, _, rfl, ofLines_eq_iff.2 (.assembled (Layout.forall_not_unresolvable_of_alike h hknown) hfs),
        Layout.table_of_alike h 0 .empty, halike⟩

/-- Other blanks, more commas and another case make no difference: neither to a program that uses a
label, nor to one that has an unknown mnemonic after a line that could not be encoded. -/
theorem ofLines_alike_separators :
    let lines : List Line := [⟨1, "a: add r1, r2, r3".toList⟩, ⟨2, "LIA r3, a".toList⟩]
    let others : List Line := [⟨5, "a :ADD\tr1 r2,,r3".toList⟩, ⟨7, "Lia\u3000r3 a".toList⟩]
    let failing : List Line := [⟨1, "LI r1, 99".toList⟩, ⟨2, "b: Nop r1, r2".toList⟩]
    let failing' : List Line := [⟨1, "li r1 99".toList⟩, ⟨2, "b:nOP\tr1 r2".toList⟩]
    (∃ first second, ofLines Catalog.sample lines = .ok first ∧
      ofLines Catalog.sample others = .ok second ∧ second.labels = first.labels ∧
      List.Forall₂ Encoding.Alike first.encodings second.encodings) ∧
    ∃ n d d', ofLines Catalog.sample failing = .error d ∧
      ofLines Catalog.sample failing' = .error d' ∧ FailsAt Catalog.sample failing n d ∧
      FailsAt Catalog.sample failing' n d' ∧ d.cause.Alike d'.cause := by
  intro lines others failing failing'
  have hadd : Line.Alike ⟨1, "a: add r1, r2, r3".toList⟩ ⟨5, "a :ADD\tr1 r2,,r3".toList⟩ :=
    ⟨by decide, .inr ⟨"add".toList, "ADD".toList, ["r1".toList, "r2".toList, "r3".toList],
      by decide, by decide, by decide⟩⟩
  have hlia : Line.Alike ⟨2, "LIA r3, a".toList⟩ ⟨7, "Lia\u3000r3 a".toList⟩ :=
    ⟨by decide, .inr ⟨"LIA".toList, "Lia".toList, ["r3".toList, "a".toList],
      by decide, by decide, by decide⟩⟩
  have hli : Line.Alike ⟨1, "LI r1, 99".toList⟩ ⟨1, "li r1 99".toList⟩ :=
    ⟨by decide, .inr ⟨"LI".toList, "li".toList, ["r1".toList, "99".toList],
      by decide, by decide, by decide⟩⟩
  have hnop : Line.Alike ⟨2, "b: Nop r1, r2".toList⟩ ⟨2, "b:nOP\tr1 r2".toList⟩ :=
    ⟨by decide, .inr ⟨"Nop".toList, "nOP".toList, ["r1".toList, "r2".toList],
      by decide, by decide, by decide⟩⟩
  have hok : ofLines Catalog.sample lines = .ok _ := rfl
  have herror : ofLines Catalog.sample failing = .error _ := rfl
  constructor
  · refine (ofLines_alike (.cons hadd (.cons hlia .nil))).resolve_right ?_
    rintro ⟨_, _, _, h, -⟩
    cases hok.symm.trans h
  · refine (ofLines_alike (.cons hli (.cons hnop .nil))).resolve_left ?_
    rintro ⟨_, _, h, -⟩
    cases herror.symm.trans h

end Listing
end Asm16
