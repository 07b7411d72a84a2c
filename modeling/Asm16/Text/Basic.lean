-- SUMMARY: Text as a list of characters: blanks, trimming, and cutting at a class of characters.

/-!
# Text

Everything the assembler reads is text, and its rules speak about single characters: where the
first colon stands, which characters are blank, what is left after the last parenthesis. Text is
therefore the list of its characters, and the operations below are the ones the rules are made of.
A `String` appears only where text leaves the library.
-/

namespace Asm16

/-- The characters of a text in reading order. -/
abbrev Text := List Char

namespace Text

-- ---------------------------------------------------------------------------
-- Blanks
-- ---------------------------------------------------------------------------

/-- The characters with the Unicode property `White_Space`. -/
def isBlank (c : Char) : Bool :=
  let n := c.toNat
  (9 ≤ n && n ≤ 13) || n == 0x20 || n == 0x85 || n == 0xA0 || n == 0x1680 ||
    (0x2000 ≤ n && n ≤ 0x200A) || n == 0x2028 || n == 0x2029 || n == 0x202F ||
    n == 0x205F || n == 0x3000

/-- Drops the blanks a text begins with. -/
def trimStart (t : Text) : Text := t.dropWhile isBlank

/-- Drops the blanks a text ends with. -/
def trimEnd (t : Text) : Text := (t.reverse.dropWhile isBlank).reverse

/-- Drops the blanks at both ends of a text. -/
def trim (t : Text) : Text := trimEnd (trimStart t)

-- ---------------------------------------------------------------------------
-- Cutting
-- ---------------------------------------------------------------------------

/-- Cuts a text at every character of the class `p`. The characters cut at are dropped, and the
pieces between them stay in order, empty ones included. -/
def cutAt (p : Char → Bool) (t : Text) : List Text :=
  go t [] []
where
  /-- `piece` is the piece being read and `done` the finished ones, both in reverse. -/
  go : Text → Text → List Text → List Text
    | [], piece, done => (piece.reverse :: done).reverse
    | c :: rest, piece, done =>
      if p c then go rest [] (piece.reverse :: done) else go rest (c :: piece) done

theorem cutAt_go (p : Char → Bool) (t piece : Text) (done : List Text) :
    cutAt.go p t piece done = done.reverse ++ (cutAt p t).modifyHead (piece.reverse ++ ·) := by
  induction t generalizing piece done with
  | nil => simp [cutAt, cutAt.go]
  | cons c rest ih =>
    unfold cutAt
    simp only [cutAt.go]
    split
    · rw [ih, ih [] [[].reverse]]
      have hid : ∀ l : List Text, l.modifyHead (fun x => x) = l := by intro l; cases l <;> rfl
      simp [hid]
    · rw [ih, ih [c] []]
      simp [List.modifyHead_modifyHead, Function.comp_def]

/-- A text without characters is one empty piece. -/
theorem cutAt_nil (p : Char → Bool) : cutAt p [] = [[]] := rfl

/-- A character to cut at ends an empty piece. -/
theorem cutAt_cons_of_pos {p : Char → Bool} {c : Char} (h : p c = true) (t : Text) :
    cutAt p (c :: t) = [] :: cutAt p t := by
  have hid : (cutAt p t).modifyHead (fun x => x) = cutAt p t := by cases cutAt p t <;> rfl
  rw [cutAt, cutAt.go, if_pos h, cutAt_go]
  simp [hid]

/-- Any other character belongs to the first piece. -/
theorem cutAt_cons_of_neg {p : Char → Bool} {c : Char} (h : p c = false) (t : Text) :
    cutAt p (c :: t) = (cutAt p t).modifyHead (c :: ·) := by
  rw [cutAt, cutAt.go, if_neg (by simp [h]), cutAt_go]
  rfl

/-- Blanks and commas separate the words of a line. -/
def isSeparator (c : Char) : Bool := c == ',' || isBlank c

/-- The words of a line: its longest runs without separators. -/
def words (t : Text) : List Text := (cutAt isSeparator t).filter (!·.isEmpty)

/-- Joins pieces with a text between each two of them. -/
def join (between : Text) (pieces : List Text) : Text :=
  (pieces.intersperse between).flatten

/-- Whether a character occurs in a text. -/
def has (c : Char) (t : Text) : Bool := t.any (· == c)

/-- What stands before the first `c`, or the whole text if there is none. -/
def before (c : Char) (t : Text) : Text := t.takeWhile (· != c)

/-- What stands after the first `c`; nothing if there is none. -/
def after (c : Char) (t : Text) : Text := (t.dropWhile (· != c)).drop 1

end Text
end Asm16
