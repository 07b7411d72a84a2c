-- SUMMARY: Line numbers are only reported: edits of a source text that say nothing change nothing but the number in an error.
import Asm16.Program.Assembly
import Asm16.Proofs.Catalog.Sample
import Asm16.Proofs.Instruction.Reading
import Asm16.Proofs.Line.Edits

/-!
# Renumbered programs

Both passes look at the texts of lines only. The number of a line goes into the encoding or the error
that is made of it, and nowhere else, so renumbering the lines of a program is renumbering its listing
or its error. With the edits of a source text that only renumber its lines, this says that comments,
blank lines, blanks around lines and line ends have no influence on the code.
-/

namespace Asm16

variable {catalog : Catalog} {labels : LabelTable} {here : Address} {σ : Nat → Nat} {l : Line}
  {lines : List Line} {source edited : Text}

/-- The encoding of the line under another number. -/
def Encoding.renumber (σ : Nat → Nat) (e : Encoding) : Encoding :=
  { e with line := e.line.renumber σ }

/-- The diagnostic of the line under another number. -/
def Diagnostic.renumber (σ : Nat → Nat) (d : Diagnostic) : Diagnostic :=
  { d with line := d.line.renumber σ }

/-- The layout of the lines under other numbers. -/
def Layout.renumber (σ : Nat → Nat) (layout : Layout) : Layout :=
  { layout with lines := layout.lines.map (Line.renumber σ) }

/-- The listing of the lines under other numbers. -/
def Listing.renumber (σ : Nat → Nat) (listing : Listing) : Listing :=
  { listing with encodings := listing.encodings.map (Encoding.renumber σ) }

/-- A result for the lines under other numbers. -/
def Diagnostic.renumbered {α : Type} (σ : Nat → Nat) (f : α → α) (r : Except Diagnostic α) :
    Except Diagnostic α :=
  (r.map f).mapError (Diagnostic.renumber σ)

/-! ## Both passes -/

theorem Layout.scan_renumber (done : List Line) :
    scan catalog (lines.map (Line.renumber σ)) here labels (done.map (Line.renumber σ)) =
      Diagnostic.renumbered σ (Layout.renumber σ) (scan catalog lines here labels done) := by
  induction lines generalizing here labels done with
  | nil => simp [scan, Diagnostic.renumbered, Layout.renumber, Except.map, Except.mapError]
  | cons l lines ih =>
    have hdefine : (l.renumber σ).define labels here = l.define labels here := rfl
    have hcode : (l.renumber σ).code = l.code := rfl
    have hmnemonic : (l.renumber σ).mnemonic = l.mnemonic := rfl
    have hdone : (l.renumber σ).withoutLabel :: done.map (Line.renumber σ) =
        (l.withoutLabel :: done).map (Line.renumber σ) := rfl
    rw [List.map_cons, scan, scan, hdefine, hcode, hmnemonic, hdone]
    split
    · exact ih done
    · split
      · exact ih (l.withoutLabel :: done)
      · rfl

theorem Line.encode_renumber (l : Line) :
    (l.renumber σ).encode catalog labels here =
      (l.encode catalog labels here).map (Encoding.renumber σ) := by
  have htext : (l.renumber σ).encode catalog labels here =
      (l.encode catalog labels here).map fun e => { e with line := l.renumber σ } :=
    Line.encode_of_text_eq rfl
  rw [htext]
  cases he : l.encode catalog labels here with
  | error cause => rfl
  | ok e =>
    obtain ⟨_, _, _, _, _, -, -, -, rfl⟩ := Line.encode_eq_ok_iff.1 he
    rfl

theorem Encoding.run_renumber (done : List Encoding) :
    run catalog labels (lines.map (Line.renumber σ)) here (done.map (renumber σ)) =
      Diagnostic.renumbered σ (List.map (renumber σ)) (run catalog labels lines here done) := by
  induction lines generalizing here done with
  | nil => simp [run, Diagnostic.renumbered, Except.map, Except.mapError]
  | cons l lines ih =>
    rw [List.map_cons, run, run, Line.encode_renumber]
    cases l.encode catalog labels here with
    | error cause => rfl
    | ok e =>
      have hdone : e.renumber σ :: done.map (renumber σ) = (e :: done).map (renumber σ) := rfl
      have hnext : (e.renumber σ).next = e.next := rfl
      simp only [Except.map, hdone, hnext]
      exact ih (e :: done)

namespace Listing

/-- Renumbered lines make a renumbered listing or a renumbered error. -/
theorem ofLines_renumber (σ : Nat → Nat) (catalog : Catalog) (lines : List Line) :
    ofLines catalog (lines.map (Line.renumber σ)) =
      Diagnostic.renumbered σ (renumber σ) (ofLines catalog lines) := by
  have hlayout : Layout.ofLines catalog (lines.map (Line.renumber σ)) =
      Diagnostic.renumbered σ (Layout.renumber σ) (Layout.ofLines catalog lines) :=
    Layout.scan_renumber []
  have hencodings : ∀ labels lines, Encoding.ofLines catalog labels (lines.map (Line.renumber σ)) =
      Diagnostic.renumbered σ (List.map (Encoding.renumber σ))
        (Encoding.ofLines catalog labels lines) :=
    fun _ _ => Encoding.run_renumber []
  rw [ofLines, ofLines, hlayout]
  cases Layout.ofLines catalog lines with
  | error d => rfl
  | ok layout =>
    simp only [Diagnostic.renumbered, Except.map, Except.mapError, Layout.renumber, hencodings]
    cases Encoding.ofLines catalog layout.labels layout.lines <;> rfl

/-! ## Renumbered listings -/

theorem words_renumber (listing : Listing) : (listing.renumber σ).words = listing.words := by
  rw [words, renumber, List.flatMap_map]
  rfl

theorem render_renumber (listing : Listing) : (listing.renumber σ).render = listing.render := by
  rw [render, rows, renumber, List.flatMap_map]
  rfl

theorem endAddress?_renumber (listing : Listing) :
    (listing.renumber σ).endAddress? = listing.endAddress? := by
  rw [endAddress?, renumber, List.getLast?_map, endAddress?]
  cases listing.encodings.getLast? <;> rfl

theorem map_address_renumber (listing : Listing) :
    (listing.renumber σ).encodings.map (·.address) = listing.encodings.map (·.address) := by
  rw [renumber, List.map_map]
  rfl

/-! ## Edited source texts -/

/-- The two listings show the same and say the same. -/
structure SameCode (first second : Listing) : Prop where
  labels : second.labels = first.labels
  words : second.words = first.words
  addresses : second.encodings.map (·.address) = first.encodings.map (·.address)
  endAddress : second.endAddress? = first.endAddress?
  render : second.render = first.render

/-- A source text that is edited without saying anything makes the same code, or the same error at
the same physical line under the number that the edits give to it. -/
theorem ofSource_edits (h : Line.Edits source edited σ) (catalog : Catalog) :
    (∀ n raw, Line.IsPhysical source n raw →
      ∃ t, Line.IsPhysical edited (σ n) t ∧ Line.clean t = Line.clean raw) ∧
    ((∃ first second, ofSource catalog source = .ok first ∧ ofSource catalog edited = .ok second ∧
      SameCode first second) ∨
    ∃ d d', ofSource catalog source = .error d ∧ ofSource catalog edited = .error d' ∧
      d'.cause = d.cause ∧ d'.line.text = d.line.text ∧ d'.line.number = σ d.line.number) := by
  refine ⟨fun n raw hraw => h.isPhysical hraw, ?_⟩
  have hedited : ofSource catalog edited =
      Diagnostic.renumbered σ (renumber σ) (ofSource catalog source) := by
    rw [ofSource, h.ofSource, ofLines_renumber, ofSource]
  cases hr : ofSource catalog source with
  | error d =>
    rw [hr] at hedited
    exact .inr ⟨d, d.renumber σ, rfl, hedited, rfl, rfl, rfl⟩
  | ok listing =>
    rw [hr] at hedited
    exact .inl ⟨listing, listing.renumber σ, rfl, hedited, rfl, words_renumber listing,
      map_address_renumber listing, endAddress?_renumber listing, render_renumber listing⟩

/-- A heading, a carriage return and a comment, in a program that is assembled and in one that has a
literal too large for its field. -/
theorem ofSource_edits_commented :
    let line := "a: BR r0, a(r1)".toList
    let edited := fun last : Text =>
      "; sums".toList ++ '\n' :: (line ++ '\r' :: '\n' :: (last ++ "; last".toList))
    (∃ first second, ofSource Catalog.sample (line ++ '\n' :: "LI r1, 9".toList) = .ok first ∧
      ofSource Catalog.sample (edited "LI r1, 9".toList) = .ok second ∧ SameCode first second) ∧
    ∃ d d', ofSource Catalog.sample (line ++ '\n' :: "LI r1, 99".toList) = .error d ∧
      ofSource Catalog.sample (edited "LI r1, 99".toList) = .error d' ∧ d'.cause = d.cause ∧
      d'.line.text = d.line.text ∧ d'.line.number = Line.skip 0 d.line.number := by
  intro line edited
  have hheading : Line.IsBlankLine "; sums".toList :=
    ⟨by decide, [], "; sums".toList, rfl, by simp [Text.IsBlanks], .inr ⟨" sums".toList, rfl⟩⟩
  have hedits : ∀ last : Text, '\n' ∉ last →
      Line.Edits (line ++ '\n' :: last) (edited last) (Line.skip 0) := by
    intro last hlast
    have hinsert : Line.Edit (line ++ '\n' :: last) ("; sums".toList ++ '\n' :: (line ++ '\n' :: last))
        (Line.skip 0) := @Line.Edit.insert [] _ _ (.inl rfl) hheading
    have hreturn := @Line.Edit.carriageReturn ("; sums".toList ++ '\n' :: line) last
    rw [List.append_assoc, List.append_assoc, List.cons_append, List.cons_append] at hreturn
    have hstart : Line.AtLineStart ("; sums".toList ++ '\n' :: (line ++ ['\r', '\n'])) :=
      .inr ⟨"; sums".toList ++ '\n' :: (line ++ ['\r']), by simp⟩
    have hcomment := Line.Edit.dress hstart hlast (.inl rfl)
      (@Line.Dressed.comment last " last".toList (by decide))
    simp only [List.append_nil, List.append_assoc, List.cons_append, List.nil_append] at hcomment
    exact .step (.step (.step .refl hinsert) hreturn) hcomment
  have hok : ofSource Catalog.sample (line ++ '\n' :: "LI r1, 9".toList) = .ok _ := rfl
  have herror : ofSource Catalog.sample (line ++ '\n' :: "LI r1, 99".toList) = .error _ := rfl
  constructor
  · refine (ofSource_edits (hedits "LI r1, 9".toList (by decide)) Catalog.sample).2.resolve_right ?_
    rintro ⟨_, _, h, -⟩
    cases hok.symm.trans h
  · refine (ofSource_edits (hedits "LI r1, 99".toList (by decide)) Catalog.sample).2.resolve_left ?_
    rintro ⟨_, _, h, -⟩
    cases herror.symm.trans h

end Listing
end Asm16
