-- SUMMARY: The two things the assembler does to files, in any monad.
import Asm16.Files.Error
import Asm16.Text.Basic

/-!
# File access

The assembler reads whole files as text and writes whole files. Commands are written against this
interface, so that one and the same command runs on a disk and on a tree of files that is a value.
-/

namespace Asm16

/-- Reading and writing files in a monad `m`. -/
structure FileAccess (m : Type → Type) where
  /-- The text of the file at a path. -/
  read : Text → m (Except FileError Text)
  /-- Makes a text the content of the file at a path. -/
  write : Text → Text → m (Except FileError Unit)

end Asm16
