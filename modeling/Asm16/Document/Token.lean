-- SUMMARY: Tokens of a TOML document, read character by character with an explicit mode.
import Asm16.Text.Numeral

/-!
# Tokens

A document is cut into tokens by a machine that takes one character at a time. Its mode says what
the next character continues: nothing, a bare word, a comment, or a string in one of its states.
Comments leave no token. A line feed after a carriage return is one line feed; a carriage return
anywhere else is refused, as is every other control character but the tab.

Strings are basic, with escapes, or literal, and either kind is written on one line or as a block
between three quotes. A block drops a line feed right after its opening, and it may end in one or
two quotes of its own before the three that close it.
-/

namespace Asm16
namespace Document

/-- A token of a document. -/
inductive Token where
  /-- A space or a tab. -/
  | blank
  | newline
  | equals
  | dot
  | comma
  | openBracket | closeBracket
  | openBrace | closeBrace
  /-- A bare word, which is a key or a number. -/
  | word (t : Text)
  | quoted (t : Text) (block : Bool)
  deriving DecidableEq, Repr

/-- A string being read: its quote, whether it is a block, and its text so far in reverse. -/
structure OpenString where
  quote : Char
  block : Bool
  read : Text
  deriving DecidableEq, Repr

/-- What the next character continues. -/
inductive Mode where
  | between
  | word (read : Text)
  | comment
  /-- One quote or two stand at the opening of a string. -/
  | opening (quote : Char) (two : Bool)
  /-- A block has just been opened. -/
  | fresh (s : OpenString)
  /-- Inside of a string, after `quotes` quotes that may close it. -/
  | inside (s : OpenString) (quotes : Nat)
  | escape (s : OpenString)
  /-- Inside of an escape that gives a code point, with `left` digits to come. -/
  | code (s : OpenString) (left : Nat) (value : Nat)
  /-- After a backslash that joins lines; `met` tells whether the line feed has come. -/
  | joining (s : OpenString) (met : Bool)
  deriving DecidableEq, Repr

/-- The tokens so far, the latest first, and the mode. -/
structure Lexer where
  tokens : List Token
  mode : Mode
  deriving DecidableEq, Repr

/-- The apostrophe, which quotes literal strings. -/
def apostrophe : Char := Char.ofNat 0x27

/-- The characters of a bare word. -/
def isWordChar (c : Char) : Bool := c.isAlphanum || c == '_' || c == '-'

/-- The characters that stand for themselves in comments and, but for the delete character, in
strings. -/
def isPlain (c : Char) : Bool := c == '\t' || 0x20 ≤ c.toNat

namespace OpenString

/-- Adds a character to a string. -/
def push (s : OpenString) (c : Char) : OpenString := { s with read := c :: s.read }

/-- Adds `n` of its quotes to a string. -/
def pushQuotes (s : OpenString) (n : Nat) : OpenString :=
  { s with read := List.replicate n s.quote ++ s.read }

/-- The token of a finished string. -/
def token (s : OpenString) : Token := .quoted s.read.reverse s.block

end OpenString

namespace Lexer

/-- Takes a character that continues nothing. -/
def between (tokens : List Token) (c : Char) : Option Lexer :=
  if c == ' ' || c == '\t' then some ⟨.blank :: tokens, .between⟩
  else if c == '\n' then some ⟨.newline :: tokens, .between⟩
  else if c == '=' then some ⟨.equals :: tokens, .between⟩
  else if c == '.' then some ⟨.dot :: tokens, .between⟩
  else if c == ',' then some ⟨.comma :: tokens, .between⟩
  else if c == '[' then some ⟨.openBracket :: tokens, .between⟩
  else if c == ']' then some ⟨.closeBracket :: tokens, .between⟩
  else if c == '{' then some ⟨.openBrace :: tokens, .between⟩
  else if c == '}' then some ⟨.closeBrace :: tokens, .between⟩
  else if c == '#' then some ⟨tokens, .comment⟩
  else if c == '"' || c == apostrophe then some ⟨tokens, .opening c false⟩
  else if isWordChar c || c == '+' then some ⟨tokens, .word [c]⟩
  else none

/-- Takes a character of a string's text. -/
def content (tokens : List Token) (s : OpenString) (c : Char) : Option Lexer :=
  if c == '\\' && s.quote == '"' then some ⟨tokens, .escape s⟩
  else if c == '\n' then if s.block then some ⟨tokens, .inside (s.push c) 0⟩ else none
  else if isPlain c && c.toNat != 0x7F then some ⟨tokens, .inside (s.push c) 0⟩
  else none

/-- Takes a character inside of a string. -/
def inside (tokens : List Token) (s : OpenString) (quotes : Nat) (c : Char) : Option Lexer :=
  if c == s.quote then
    if !s.block then some ⟨s.token :: tokens, .between⟩
    else if quotes == 4 then some ⟨(s.pushQuotes 2).token :: tokens, .between⟩
    else some ⟨tokens, .inside s (quotes + 1)⟩
  else if 3 ≤ quotes then between ((s.pushQuotes (quotes - 3)).token :: tokens) c
  else content tokens (s.pushQuotes quotes) c

/-- Takes the character after a backslash. -/
def escape (tokens : List Token) (s : OpenString) (c : Char) : Option Lexer :=
  let char (d : Char) : Option Lexer := some ⟨tokens, .inside (s.push d) 0⟩
  if c == '"' || c == '\\' then char c
  else if c == 'b' then char (Char.ofNat 8)
  else if c == 'f' then char (Char.ofNat 12)
  else if c == 'n' then char '\n'
  else if c == 'r' then char '\r'
  else if c == 't' then char '\t'
  else if c == 'u' then some ⟨tokens, .code s 4 0⟩
  else if c == 'U' then some ⟨tokens, .code s 8 0⟩
  else if s.block && (c == ' ' || c == '\t') then some ⟨tokens, .joining s false⟩
  else if s.block && c == '\n' then some ⟨tokens, .joining s true⟩
  else none

/-- Takes a digit of a code point. -/
def code (tokens : List Token) (s : OpenString) (left value : Nat) (c : Char) : Option Lexer :=
  if Numeral.isDigit 16 c then
    let value := value * 16 + Numeral.value 16 [c]
    if 1 < left then some ⟨tokens, .code s (left - 1) value⟩
    else if value.isValidChar then some ⟨tokens, .inside (s.push (Char.ofNat value)) 0⟩
    else none
  else none

/-- Takes one character. -/
def step (l : Lexer) (c : Char) : Option Lexer :=
  match l.mode with
  | .between => between l.tokens c
  | .word read =>
    if isWordChar c then some ⟨l.tokens, .word (c :: read)⟩
    else between (.word read.reverse :: l.tokens) c
  | .comment =>
    if c == '\n' then between l.tokens c
    else if isPlain c then some l
    else none
  | .opening quote two =>
    match two, c == quote with
    | false, true => some ⟨l.tokens, .opening quote true⟩
    | false, false => content l.tokens ⟨quote, false, []⟩ c
    | true, true => some ⟨l.tokens, .fresh ⟨quote, true, []⟩⟩
    | true, false => between (.quoted [] false :: l.tokens) c
  | .fresh s => if c == '\n' then some ⟨l.tokens, .inside s 0⟩ else inside l.tokens s 0 c
  | .inside s quotes => inside l.tokens s quotes c
  | .escape s => escape l.tokens s c
  | .code s left value => code l.tokens s left value c
  | .joining s met =>
    if c == ' ' || c == '\t' then some l
    else if c == '\n' then some ⟨l.tokens, .joining s true⟩
    else if met then inside l.tokens s 0 c
    else none

/-- The tokens of a document that ends here. -/
def finish (l : Lexer) : Option (List Token) :=
  match l.mode with
  | .between => some l.tokens.reverse
  | .comment => some l.tokens.reverse
  | .word read => some (.word read.reverse :: l.tokens).reverse
  | .opening _ true => some (.quoted [] false :: l.tokens).reverse
  | .inside s quotes =>
    if 3 ≤ quotes then some ((s.pushQuotes (quotes - 3)).token :: l.tokens).reverse else none
  | _ => none

end Lexer

/-- Replaces every carriage return and line feed by a line feed. -/
def joinLineEnds : Text → Text
  | '\r' :: '\n' :: rest => '\n' :: joinLineEnds rest
  | c :: rest => c :: joinLineEnds rest
  | [] => []

/-- Drops the byte order mark a document may begin with. -/
def dropMark : Text → Text
  | [] => []
  | c :: rest => if c.toNat = 0xFEFF then rest else c :: rest

/-- The tokens of a document. -/
def tokens (t : Text) : Option (List Token) := do
  let l ← (joinLineEnds (dropMark t)).foldlM Lexer.step ⟨[], .between⟩
  l.finish

end Document
end Asm16
