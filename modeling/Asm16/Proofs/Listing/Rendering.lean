-- SUMMARY: A listing's text has one row for each word, and what it says of the program can be read back.
import Asm16.Proofs.Line.Source
import Asm16.Proofs.Listing.Addresses
import Asm16.Proofs.Text.Digits

/-!
# Rendering

A row of a listing is a word in digits and a comment, which is taken from the source text. The text
of a line begins with no blank, so it is never taken for the comment of a second word, and no comment
has a line feed in it. A listing can therefore be cut into rows again, the rows into instructions,
and the addresses counted anew. `Listing.read` does so. What it does not find is what a listing does
not show: the numbers of the lines, and the labels.
-/

namespace Asm16

variable {catalog : Catalog} {labels : LabelTable} {here : Address} {l : Line}
  {lines : List Line} {i : Instruction} {e : Encoding} {es : List Encoding}
  {source t : Text} {rows : List Text}

/-! ## What an immediate is taken from -/

namespace Instruction

/-- A second word comes from the text of the immediate, or is zero if there is none. -/
theorem source_emit {fields : Fields} {v : Option (Text × Word)} {second : ImmediateWord}
    (h : (i.emit fields v).2 = some second) :
    (v = none ∧ second = .zero) ∨ ∃ t x, v = some (t, x) ∧ second.source = t := by
  unfold emit at h
  cases v with
  | none =>
    cases hc : i.cycles <;> rw [hc] at h
    · cases h
    · exact .inl ⟨rfl, (Option.some.inj h).symm⟩
  | some p =>
    cases hc : i.cycles <;> rw [hc] at h
    · cases h
    · exact .inr ⟨p.1, p.2, rfl, by rw [← Option.some.inj h]⟩

end Instruction

/-- The text of a second word stands in the line, or is the zero that stands for none. -/
theorem Line.source_of_encode {second : ImmediateWord}
    (h : l.encode catalog labels here = .ok e) (hsecond : e.immediate = some second) :
    second.source = ['0'] ∨ second.source <:+: l.text := by
  obtain ⟨i, operands, fields, source, p, ⟨name, hwords, -⟩, hr, hf, rfl⟩ := encode_eq_ok_iff.1 h
  obtain ⟨-, rfl⟩ | ⟨t, v, rfl, -, rfl⟩ := Instruction.finish_eq_ok hf
  · obtain ⟨-, rfl⟩ | ⟨_, _, hnone, -⟩ := Instruction.source_emit hsecond
    · exact .inl rfl
    · cases hnone
  · obtain ⟨hsome, -⟩ | ⟨t, v, hsome, rfl⟩ := Instruction.source_emit hsecond
    · cases hsome
    · cases hsome
      obtain ⟨a, u, rfl⟩ := (hr.takes_iff.2 rfl).exists_append
      have hword : second.source ++ u ∈ l.text.words := by simp [hwords]
      exact .inr ((List.prefix_append _ u).isInfix.trans (Text.infix_of_mem_words hword))

/-! ## Rows -/

namespace Row

/-- The row of a word and a comment. -/
def of (w : Word) (comment : Text) : Text := w.hexadecimal ++ "  //".toList ++ comment

/-- The row shows the word: four digits, a mark and a comment, by which a second word of an
instruction is told from a first. -/
def Shows (row : Text) (w : Word) (second : Bool) : Prop :=
  ∃ digits comment, row = digits ++ "  //".toList ++ comment ∧
    digits.length = 4 ∧ (∀ c ∈ digits, c ∈ "0123456789ABCDEF".toList) ∧
    Numeral.value 16 digits = w.toNat ∧
    '\n' ∉ comment ∧ ("  imm ".toList <+: comment ↔ second = true) ∧
    (second = false → ∃ c rest, comment = c :: rest ∧ Text.isBlank c = false)

/-- The word that a row shows. -/
def word (row : Text) : Word := BitVec.ofNat 16 (Numeral.value 16 (row.take 4))

/-- The comment of a row. -/
def comment (row : Text) : Text := row.drop 8

/-- The text of an immediate, if the row is that of a second word. -/
def source? (row : Text) : Option Text :=
  match comment row with
  | ' ' :: ' ' :: 'i' :: 'm' :: 'm' :: ' ' :: t => some t
  | _ => none

variable {row : Text} {c : Char} {w : Word} {second : Bool}

theorem shows_first (hc : Text.isBlank c = false) (hline : '\n' ∉ c :: t) :
    Shows (of w (c :: t)) w false := by
  refine ⟨_, _, rfl, Word.length_hexadecimal w, fun _ => Word.mem_hexadecimal,
    Word.value_hexadecimal w, hline, ?_, fun _ => ⟨c, t, rfl, hc⟩⟩
  constructor
  · intro hbegin
    have hblank : ' ' = c := (List.cons_prefix_cons.1 hbegin).1
    rw [← hblank] at hc
    cases hc
  · intro hfalse
    cases hfalse

theorem shows_second (hline : '\n' ∉ t) : Shows (of w ("  imm ".toList ++ t)) w true := by
  refine ⟨_, _, rfl, Word.length_hexadecimal w, fun _ => Word.mem_hexadecimal,
    Word.value_hexadecimal w, ?_, ?_, ?_⟩
  · rw [List.mem_append, not_or]
    exact ⟨by decide, hline⟩
  · exact iff_of_true (List.prefix_append _ _) rfl
  · intro hfalse
    cases hfalse

theorem Shows.not_mem (h : Shows row w second) : '\n' ∉ row := by
  obtain ⟨digits, comment, rfl, -, hdigits, -, hline, -⟩ := h
  rw [List.mem_append, List.mem_append, not_or, not_or]
  refine ⟨⟨fun hmem => ?_, by decide⟩, hline⟩
  exact absurd (hdigits _ hmem) (by decide)

theorem not_mem_of_shows {marks : List (Word × Bool)}
    (h : List.Forall₂ (fun p row => Shows row p.1 p.2) marks rows) : ∀ row ∈ rows, '\n' ∉ row := by
  induction h with
  | nil => simp
  | cons hrow _ ih => exact List.forall_mem_cons.2 ⟨hrow.not_mem, ih⟩

theorem word_of (w : Word) (t : Text) : word (of w t) = w := by
  have htake : (of w t).take 4 = w.hexadecimal := by
    rw [of, List.append_assoc, ← Word.length_hexadecimal w, List.take_left]
  rw [word, htake, Word.value_hexadecimal, BitVec.ofNat_toNat, BitVec.setWidth_eq]

theorem comment_of (w : Word) (t : Text) : comment (of w t) = t := by
  have hlength : (w.hexadecimal ++ "  //".toList).length = 8 := by
    rw [List.length_append, Word.length_hexadecimal]
    rfl
  rw [comment, of, ← hlength, List.drop_left]

theorem source?_second (w : Word) (t : Text) : source? (of w ("  imm ".toList ++ t)) = some t := by
  rw [source?, comment_of]
  rfl

theorem source?_first (hc : Text.isBlank c = false) (w : Word) (t : Text) :
    source? (of w (c :: t)) = none := by
  rw [source?, comment_of]
  split
  · rename_i heq
    rw [(List.cons.inj heq).1] at hc
    cases hc
  · rfl

end Row

/-! ## The rows of an encoding -/

namespace Encoding

/-- The words of an encoding, each with whether it is the second. -/
def marked (e : Encoding) : List (Word × Bool) :=
  (e.word, false) :: (e.immediate.map fun second => (second.value, true)).toList

/-- What a listing shows of an encoding: all but the number of its line. -/
def contents (e : Encoding) : Address × Word × Option ImmediateWord × Text :=
  (e.address, e.word, e.immediate, e.line.text)

/-- The texts that a listing takes over keep its form. -/
structure Legible (e : Encoding) : Prop where
  start : ∃ c rest, e.line.text = c :: rest ∧ Text.isBlank c = false
  line : '\n' ∉ e.line.text
  source : ∀ second ∈ e.immediate, '\n' ∉ second.source

theorem map_marked (e : Encoding) : e.marked.map (·.1) = e.words := by
  rw [marked, words]
  cases e.immediate <;> rfl

theorem rows_of_none (h : e.immediate = none) : e.rows = [Row.of e.word e.line.text] := by
  rw [rows, h]
  rfl

theorem rows_of_some {second : ImmediateWord} (h : e.immediate = some second) :
    e.rows = [Row.of e.word e.line.text, Row.of second.value ("  imm ".toList ++ second.source)] := by
  have hmark : "  //  imm ".toList = "  //".toList ++ "  imm ".toList := rfl
  rw [rows, h, hmark]
  simp only [Row.of, List.append_assoc]

theorem Legible.shows (h : e.Legible) :
    List.Forall₂ (fun p row => Row.Shows row p.1 p.2) e.marked e.rows := by
  obtain ⟨c, rest, htext, hc⟩ := h.start
  have hfirst : Row.Shows (Row.of e.word e.line.text) e.word false := by
    have hline := h.line
    rw [htext] at hline ⊢
    exact Row.shows_first hc hline
  cases hi : e.immediate with
  | none =>
    rw [marked, rows_of_none hi, hi]
    exact .cons hfirst .nil
  | some second =>
    rw [marked, rows_of_some hi, hi]
    exact .cons hfirst (.cons (Row.shows_second (h.source second hi)) .nil)

/-- The encodings of a source text are legible. -/
theorem legible_of_mem
    (h : Consecutive catalog labels here (Layout.kept (Line.ofSource source)) es) (he : e ∈ es) :
    e.Legible := by
  have hkept : e.line ∈ Layout.kept (Line.ofSource source) := by
    rw [← h.map_line]
    exact List.mem_map_of_mem he
  obtain ⟨l, hl, hline⟩ := List.mem_map.1 hkept
  obtain ⟨hmem, hcode⟩ := List.mem_filter.1 hl
  have htext : l.code = e.line.text := congrArg Line.text hline
  have htidy : Line.Tidy e.line.text := htext ▸ (Line.tidy_of_mem_ofSource hmem).code
  have hne : e.line.text ≠ [] := by simpa [htext] using hcode
  refine ⟨?_, htidy.line, ?_⟩
  · obtain ⟨c, rest, hcons⟩ := List.exists_cons_of_ne_nil hne
    exact ⟨c, rest, hcons, htidy.start c rest hcons⟩
  · intro second hsecond hmem
    obtain hzero | hpart := Line.source_of_encode (h.encode_of_mem he) hsecond
    · rw [hzero] at hmem
      exact absurd hmem (by decide)
    · exact htidy.line (hpart.subset hmem)

end Encoding

/-! ## Reading a listing -/

namespace Listing

/-- The words of a listing, each with whether it is the second of its instruction. -/
def marked (listing : Listing) : List (Word × Bool) :=
  listing.encodings.flatMap Encoding.marked

/-- Reads rows from an address on: a row and the one after it are one instruction if the second is
that of a second word. -/
def readRows : Address → List Text → List (Address × Word × Option ImmediateWord × Text)
  | _, [] => []
  | here, [row] => [(here, Row.word row, none, Row.comment row)]
  | here, row :: next :: rest =>
    match Row.source? next with
    | some t => (here, Row.word row, some ⟨Row.word next, t⟩, Row.comment row) ::
        readRows (here.after .two) rest
    | none => (here, Row.word row, none, Row.comment row) ::
        readRows (here.after .one) (next :: rest)

/-- Reads the text of a listing. -/
def read (t : Text) : List (Address × Word × Option ImmediateWord × Text) :=
  readRows 0 (Text.cutAt (· == '\n') t).dropLast

theorem readRows_first {row : Text} (h : ∀ next ∈ rows.head?, Row.source? next = none) :
    readRows here (row :: rows) =
      (here, Row.word row, none, Row.comment row) :: readRows (here.after .one) rows := by
  cases rows with
  | nil => rfl
  | cons next rest => rw [readRows, h next rfl]

/-- The rows of legible encodings begin with that of a first word. -/
theorem source?_head (hes : ∀ e ∈ es, e.Legible) :
    ∀ next ∈ (es.flatMap Encoding.rows).head?, Row.source? next = none := by
  intro next hnext
  cases es with
  | nil => cases hnext
  | cons e es =>
    obtain ⟨c, rest, htext, hc⟩ := (hes e List.mem_cons_self).start
    have hfirst : next = Row.of e.word (c :: rest) := by
      rw [← htext]
      cases hi : e.immediate with
      | none =>
        rw [List.flatMap_cons, Encoding.rows_of_none hi] at hnext
        exact (Option.some.inj hnext).symm
      | some second =>
        rw [List.flatMap_cons, Encoding.rows_of_some hi] at hnext
        exact (Option.some.inj hnext).symm
    rw [hfirst, Row.source?_first hc]

/-- Encodings that stand one after the other are read back from their rows. -/
theorem readRows_of_consecutive (h : Encoding.Consecutive catalog labels here lines es)
    (hes : ∀ e ∈ es, e.Legible) :
    readRows here (es.flatMap Encoding.rows) = es.map Encoding.contents := by
  induction h with
  | nil => rfl
  | @cons here l lines e es he hrest ih =>
    have hlegible := (List.forall_mem_cons.1 hes).2
    have haddress : e.address = here := Encoding.address_of_encode he
    rw [List.flatMap_cons, List.map_cons, ← ih hlegible, Encoding.contents, haddress, Encoding.next,
      Encoding.cycles, haddress]
    cases hi : e.immediate with
    | none =>
      rw [Encoding.rows_of_none hi, List.singleton_append, readRows_first (source?_head hlegible),
        Row.word_of, Row.comment_of]
      rfl
    | some second =>
      rw [Encoding.rows_of_some hi, List.cons_append, List.cons_append, List.nil_append, readRows,
        Row.source?_second, Row.word_of, Row.word_of, Row.comment_of]
      rfl

/-- A text that is made of rows is cut into them again. -/
theorem dropLast_cutAt_rows (h : ∀ row ∈ rows, '\n' ∉ row) :
    (Text.cutAt (· == '\n') (rows.flatMap (· ++ ['\n']))).dropLast = rows := by
  have hcut : Text.cutAt (· == '\n') (rows.flatMap (· ++ ['\n'])) = rows ++ [[]] := by
    induction rows with
    | nil => rfl
    | cons row rows ih =>
      obtain ⟨hrow, hrows⟩ := List.forall_mem_cons.1 h
      rw [List.flatMap_cons, List.append_assoc, List.singleton_append,
        Line.cutAt_append_lineFeed, Line.cutAt_of_not_mem hrow, ih hrows]
      rfl
  rw [hcut, List.dropLast_concat]

/-- The text of a listing says what the listing does, but for the numbers of lines and the labels. -/
structure Faithful (listing : Listing) : Prop where
  empty : listing.render = [] ↔ listing.encodings = []
  /-- There is one row for each word, in order, each ended by a line feed. -/
  rows : ∃ rows, listing.render = rows.flatMap (· ++ ['\n']) ∧
    rows.length = listing.words.length ∧ listing.marked.map (·.1) = listing.words ∧
    List.Forall₂ (fun p row => Row.Shows row p.1 p.2) listing.marked rows
  /-- The words are found again with their addresses, and the texts they came from. -/
  read : read listing.render = listing.encodings.map Encoding.contents

variable {listing : Listing}

theorem render_eq_nil_iff : listing.render = [] ↔ listing.encodings = [] := by
  obtain ⟨labels, es⟩ := listing
  cases es with
  | nil => exact ⟨fun _ => rfl, fun _ => rfl⟩
  | cons e es =>
    constructor
    · intro h
      cases hi : e.immediate with
      | none => simp [render, rows, Encoding.rows_of_none hi] at h
      | some second => simp [render, rows, Encoding.rows_of_some hi] at h
    · intro h
      cases h

theorem map_marked (listing : Listing) : listing.marked.map (·.1) = listing.words := by
  rw [marked, words, List.map_flatMap]
  exact List.flatMap_congr fun e _ => e.map_marked

theorem rows_shows (h : ∀ e ∈ listing.encodings, e.Legible) :
    List.Forall₂ (fun p row => Row.Shows row p.1 p.2) listing.marked listing.rows := by
  obtain ⟨labels, es⟩ := listing
  induction es with
  | nil => exact .nil
  | cons e es ih =>
    obtain ⟨he, hes⟩ := List.forall_mem_cons.1 h
    exact List.rel_append he.shows (ih hes)

theorem faithful_of_ofSource (h : ofSource catalog source = .ok listing) : listing.Faithful := by
  obtain ⟨-, -, hes⟩ := ofLines_eq_ok_iff.1 h
  have hlegible : ∀ e ∈ listing.encodings, e.Legible := fun e => Encoding.legible_of_mem hes
  have hrows := rows_shows hlegible
  refine ⟨render_eq_nil_iff, ⟨listing.rows, rfl, ?_, map_marked listing, hrows⟩, ?_⟩
  · rw [← hrows.length_eq, ← map_marked, List.length_map]
  · rw [read, render, dropLast_cutAt_rows (Row.not_mem_of_shows hrows)]
    exact readRows_of_consecutive hes hlegible

/-- A listing shows each word in a row that can be told from the others, and two listings with the
same text have the same words at the same addresses, from the same texts. -/
theorem ofSource_render (h : ofSource catalog source = .ok listing) :
    listing.Faithful ∧ ∀ other text listing', ofSource other text = .ok listing' →
      listing'.render = listing.render →
      listing'.encodings.map Encoding.contents = listing.encodings.map Encoding.contents := by
  have hfaithful := faithful_of_ofSource h
  refine ⟨hfaithful, ?_⟩
  intro other text listing' h' hrender
  rw [← (faithful_of_ofSource h').read, hrender, hfaithful.read]

/-- Comments, blank lines and labels leave no trace in a listing, nor does the order of a catalog. -/
theorem ofSource_render_reordered :
    let first := "x: LIW r1, 7 ; 0007  //  imm 7\n\n  ADD r1,r2,r3\r\n".toList
    let second := "LIW r1, 7\ny:ADD r1,r2,r3".toList
    ∃ listing listing', ofSource Catalog.sample first = .ok listing ∧
      ofSource ⟨Catalog.sample.instructions.reverse⟩ second = .ok listing' ∧
      listing'.render = listing.render ∧ listing.words.length = 3 ∧ listing.Faithful ∧
      listing'.encodings.map Encoding.contents = listing.encodings.map Encoding.contents := by
  intro first second
  obtain ⟨listing, listing', h, h', hrender, hlength⟩ : ∃ listing listing',
      ofSource Catalog.sample first = .ok listing ∧
      ofSource ⟨Catalog.sample.instructions.reverse⟩ second = .ok listing' ∧
      listing'.render = listing.render ∧ listing.words.length = 3 := ⟨_, _, rfl, rfl, rfl, rfl⟩
  obtain ⟨hfaithful, hsame⟩ := ofSource_render h
  exact ⟨listing, listing', h, h', hrender, hlength, hfaithful, hsame _ _ _ h' hrender⟩

end Listing
end Asm16
