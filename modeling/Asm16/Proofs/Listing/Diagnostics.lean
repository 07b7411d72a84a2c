-- SUMMARY: A diagnostic names text that stands in the line it reports, and what it says of it is the case.
import Asm16.Proofs.Catalog.Sample
import Asm16.Proofs.Instruction.Refusal
import Asm16.Proofs.Listing.Outcome

/-!
# What diagnostics name

A diagnostic quotes the text that is to blame: a word of the line, a part of a word, or the whole code of
a line that has no words. Wherever it was made, that text stands in the line that is reported, although the
first pass reports a line with its label and the second without. Only if the operands are the wrong number
does it name the instruction, and then as the catalog spells it.
-/

namespace Asm16

/-- The text that an error quotes. -/
def OperandError.subject : OperandError → Text
  | malformed t _ | outOfRange t _ | noAddressingMode t => t

namespace Cause

/-- The text that a cause quotes. -/
def subject : Cause → Text
  | unknownMnemonic name | unresolvable name => name
  | operand e => e.subject

/-- The operands are the wrong number. -/
def IsCount : Cause → Prop
  | operand (.malformed _ why) => why = .notThreeOperands ∨ why = .notTwoOperands
  | _ => False

end Cause

/-- What a diagnostic of a program says of the line it reports. -/
structure Diagnostic.Names (catalog : Catalog) (lines : List Line) (d : Diagnostic) : Prop where
  /-- The text it quotes stands in the line. -/
  quoted : ¬ d.cause.IsCount → d.cause.subject ≠ [] ∧ d.cause.subject <:+: d.line.text
  /-- If the operands are the wrong number, it names the instruction as the catalog does. -/
  counted : d.cause.IsCount → ∃ name operands i, d.line.text.words = name :: operands ∧
    catalog.lookup? name = some i ∧ operands.length ≠ i.format.arity ∧
    d.cause.subject = i.mnemonic ∧ Text.sameWord i.mnemonic name = true
  /-- A label without an addressing mode is one of the program, and the line's immediate. -/
  label : ∀ t, d.cause = .operand (.noAddressingMode t) → (∃ l ∈ lines, l.label? = some t) ∧
    ∃ i operands, d.line.Invokes catalog i operands ∧ i.addressing = none ∧ i.Takes operands t
  /-- A number out of range is that of a register, or that of an immediate, with the bits it has there. -/
  range : ∀ t w, d.cause = .operand (.outOfRange t w) →
    ∃ i operands, d.line.Invokes catalog i operands ∧ i.Exceeds operands t w.bits

variable {catalog : Catalog} {labels : LabelTable} {here : Address} {l : Line} {lines : List Line}
  {i : Instruction} {operands : List Text} {e : OperandError} {cause : Cause} {t : Text}

/-! ## Operands -/

namespace Instruction

theorem Takes.within (h : i.Takes operands t) : ∃ u ∈ operands, t <:+: u := by
  obtain ⟨a, u, rfl⟩ := h.exists_append
  exact ⟨t ++ u, by simp, (List.prefix_append t u).isInfix⟩

theorem Exceeds.within {bits : Nat} (h : i.Exceeds operands t bits) : ∃ u ∈ operands, t <:+: u := by
  cases h with
  | register hu hplace =>
    refine ⟨_, hu, ?_⟩
    obtain rfl | ⟨d, rfl, -⟩ := hplace
    · exact List.infix_rfl
    · exact ⟨d ++ ['('], [')'], by simp⟩
  | nibble _ _ ht => exact ht.within
  | word _ ht => exact ht.within

theorem Exceeds.ne_nil {bits : Nat} (h : i.Exceeds operands t bits) (hoperands : ∀ u ∈ operands, u ≠ []) :
    t ≠ [] := by
  cases h with
  | register _ _ hn =>
    obtain ⟨digits, rfl | rfl, -⟩ := hn <;> exact List.cons_ne_nil _ _
  | nibble _ _ ht => exact ht.ne_nil hoperands
  | word _ ht => exact ht.ne_nil hoperands

/-- What is blamed is the number of the operands, or text of one of them. -/
theorem Blames.subject (h : i.Blames labels operands e) (hoperands : ∀ u ∈ operands, u ≠ []) :
    operands.length ≠ i.format.arity ∧ e.subject = i.mnemonic ∧ (Cause.operand e).IsCount ∨
      ¬ (Cause.operand e).IsCount ∧ e.subject ≠ [] ∧ ∃ u ∈ operands, e.subject <:+: u := by
  cases h with
  | count hcount =>
    refine .inl ⟨hcount, rfl, ?_⟩
    cases i.format <;> simp [Cause.IsCount, Format.wrongCount]
  | address ht _ hwhy | form ht hwhy =>
    refine .inr ⟨?_, hoperands _ ht, _, ht, List.infix_rfl⟩
    rintro (rfl | rfl) <;> simp at hwhy
  | mode ht _ _ => exact .inr ⟨not_false, ht.ne_nil hoperands, ht.within⟩
  | literal ht _ _ hwhy =>
    refine .inr ⟨?_, ht.ne_nil hoperands, ht.within⟩
    rintro (rfl | rfl) <;> simp at hwhy
  | range h => exact .inr ⟨not_false, h.ne_nil hoperands, h.within⟩

end Instruction

/-! ## Lines -/

/-- The first word of a text, or all of it if it has none, stands in it. -/
theorem Text.headD_words (ht : t ≠ []) : t.words.headD t ≠ [] ∧ t.words.headD t <:+: t := by
  cases hwords : t.words with
  | nil => exact ⟨ht, List.infix_rfl⟩
  | cons name operands =>
    have hname : name ∈ t.words := hwords ▸ List.mem_cons_self
    exact ⟨ne_nil_of_mem_words hname, infix_of_mem_words hname⟩

namespace Line

theorem code_within (l : Line) : l.code <:+: l.text := by
  unfold code
  split
  · rename_i name rest hsplit
    obtain ⟨-, w, u, -, htext, rfl⟩ := splitLabel_eq_some_iff.1 hsplit
    rw [htext]
    exact (Text.infix_trim u).trans ⟨name ++ (w ++ [':']), [], by simp⟩
  · exact List.infix_rfl

/-- A line that is not encoded has no known mnemonic, or its operands are refused. -/
theorem encode_eq_error (h : l.encode catalog labels here = .error cause) :
    cause = .unknownMnemonic (l.text.words.headD l.text) ∨
      ∃ i operands e, l.Invokes catalog i operands ∧ i.encode operands labels here = .error e ∧
        cause = .operand e := by
  unfold Line.encode at h
  split at h
  · rename_i hwords
    rw [hwords]
    exact .inl (Except.error.inj h).symm
  · rename_i name operands hwords
    split at h
    · rw [hwords]
      exact .inl (Except.error.inj h).symm
    · rename_i i hi
      split at h
      · rename_i e he
        exact .inr ⟨i, operands, e, ⟨name, hwords, hi⟩, he, (Except.error.inj h).symm⟩
      · cases h

end Line

/-! ## Diagnostics -/

namespace Diagnostic

/-- A diagnostic that only quotes text of its line. -/
theorem names_of_quoted {d : Diagnostic} (hcount : ¬ d.cause.IsCount) (hoperand : ∀ e, d.cause ≠ .operand e)
    (hsubject : d.cause.subject ≠ [] ∧ d.cause.subject <:+: d.line.text) : d.Names catalog lines where
  quoted _ := hsubject
  counted h := absurd h hcount
  label _ h := absurd h (hoperand _)
  range _ _ h := absurd h (hoperand _)

/-- The operands of a line are blamed at that line. -/
theorem names_of_blames (hlabels : ∀ t, labels.contains t = true → ∃ x ∈ lines, x.label? = some t)
    (hi : l.Invokes catalog i operands) (h : i.Blames labels operands e) :
    Names catalog lines ⟨l, .operand e⟩ := by
  obtain ⟨name, hwords, hlookup⟩ := id hi
  have hoperands : ∀ u ∈ operands, u ∈ l.text.words := by
    intro u hu
    rw [hwords]
    exact List.mem_cons_of_mem _ hu
  have hsubject := h.subject fun u hu => Text.ne_nil_of_mem_words (hoperands u hu)
  refine ⟨fun hcount => ?_, fun hcount => ?_, ?_, ?_⟩
  · obtain ⟨-, -, hcount'⟩ | ⟨-, hne, u, hu, hinside⟩ := hsubject
    · exact absurd hcount' hcount
    · exact ⟨hne, hinside.trans (Text.infix_of_mem_words (hoperands u hu))⟩
  · obtain ⟨harity, hname, -⟩ | ⟨hcount', -⟩ := hsubject
    · exact ⟨name, operands, i, hwords, hlookup, harity, hname, Catalog.isNamed_of_lookup? hlookup⟩
    · exact absurd hcount hcount'
  · intro t ht
    obtain rfl := Cause.operand.inj ht
    cases h with
    | mode htakes hlabel hmode => exact ⟨hlabels t hlabel, i, operands, hi, hmode, htakes⟩
  · intro t w ht
    obtain rfl := Cause.operand.inj ht
    cases h with
    | range hexceeds => exact ⟨i, operands, hi, hexceeds⟩

/-- A line that is not encoded is reported for what it says. -/
theorem names_of_encode (hlabels : ∀ t, labels.contains t = true → ∃ x ∈ lines, x.label? = some t)
    (hl : l.text ≠ []) (h : l.encode catalog labels here = .error cause) :
    Names catalog lines ⟨l, cause⟩ := by
  obtain rfl | ⟨i, operands, e, hi, he, rfl⟩ := Line.encode_eq_error h
  · exact names_of_quoted not_false (by simp) (Text.headD_words hl)
  · exact names_of_blames hlabels hi (Instruction.blames_of_encode he)

end Diagnostic

namespace Listing

/-- A program that does not assemble is refused with a diagnostic that names what is to blame. -/
theorem ofLines_names {d : Diagnostic} (h : ofLines catalog lines = .error d) : d.Names catalog lines := by
  obtain ⟨n, hfails⟩ := ofLines_eq_error_iff.1 h
  cases hfails with
  | @unresolvable before after l _ _ hbad =>
    have hmnemonic := Text.headD_words hbad.1
    exact Diagnostic.names_of_quoted not_false (by simp) ⟨hmnemonic.1, hmnemonic.2.trans l.code_within⟩
  | @refused before after l es cause _ _ hl _ he =>
    refine Diagnostic.names_of_encode (fun t ht => ?_) hl he
    obtain ⟨a, ha⟩ := Option.isSome_iff_exists.1 ht
    obtain ⟨pre, x, post, rfl, hx, -⟩ := Layout.get?_table_empty_eq_some_iff.1 ha
    exact ⟨x, by simp, hx⟩

/-- A label where there is no addressing mode for it, an operand missing after a mnemonic in another case,
and a register out of range in parentheses. -/
theorem ofLines_names_sample :
    let label : Line := ⟨1, "x: LI r1, x".toList⟩
    let count : Line := ⟨1, "y: add r1, r2".toList⟩
    let range : Line := ⟨1, "LD r1, 4(r99)".toList⟩
    Diagnostic.Names Catalog.sample [label]
        ⟨⟨1, "LI r1, x".toList⟩, .operand (.noAddressingMode "x".toList)⟩ ∧
      Diagnostic.Names Catalog.sample [count]
        ⟨⟨1, "add r1, r2".toList⟩, .operand (.malformed "ADD".toList .notThreeOperands)⟩ ∧
      Diagnostic.Names Catalog.sample [range] ⟨range, .operand (.outOfRange "r99".toList .nibble)⟩ := by
  intro label count range
  exact ⟨ofLines_names rfl, ofLines_names rfl, ofLines_names rfl⟩

end Listing
end Asm16
