-- SUMMARY: Why a file cannot be read or written.

/-!
# File errors

The errors of the operating system that concern a path, and two found without it: a path that no
system takes, because there is a null character in it, and a file whose bytes are no text.
-/

namespace Asm16

/-- Why a file cannot be read or written. -/
inductive FileError where
  | notFound | notDirectory | isDirectory | nameTooLong
  | nullInPath | notText
  | other (text : String)
  deriving DecidableEq, Repr

/-- The wording of a file error, with its number where the system gives it one. -/
def FileError.message : FileError → String
  | notFound => "No such file or directory (os error 2)"
  | notDirectory => "Not a directory (os error 20)"
  | isDirectory => "Is a directory (os error 21)"
  | nameTooLong => "File name too long (os error 36)"
  | nullInPath => "file name contained an unexpected NUL byte"
  | notText => "stream did not contain valid UTF-8"
  | other text => text

end Asm16
