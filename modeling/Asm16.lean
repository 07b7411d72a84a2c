import Asm16.Main
import Asm16.Program.Trace
import Asm16.Files.Tree
import Asm16.Proofs.Catalog.Replies
import Asm16.Proofs.Command.Targets
import Asm16.Proofs.Description.Denotation
import Asm16.Proofs.Immediate.Denotation
import Asm16.Proofs.Instruction.Acceptance
import Asm16.Proofs.Instruction.Fields
import Asm16.Proofs.Instruction.Respelling
import Asm16.Proofs.Layout.Sorted
import Asm16.Proofs.Line.Form
import Asm16.Proofs.Listing.Alike
import Asm16.Proofs.Listing.Definitions
import Asm16.Proofs.Listing.Diagnostics
import Asm16.Proofs.Listing.Extension
import Asm16.Proofs.Listing.Mnemonics
import Asm16.Proofs.Listing.Relocation
import Asm16.Proofs.Listing.Renaming
import Asm16.Proofs.Listing.Rendering
import Asm16.Proofs.Listing.Renumbering
import Asm16.Proofs.Listing.Separation
import Asm16.Proofs.Operand.Classification
import Asm16.Proofs.Instruction.Refusal
