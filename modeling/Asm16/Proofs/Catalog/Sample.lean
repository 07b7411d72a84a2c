-- SUMMARY: A small machine with every format, both sizes and both addressing modes.
import Asm16.Catalog.Builder

/-!
# A sample machine

The theorems about programs hold for every catalog. Where one is applied to a program, the program
is written for this one.
-/

namespace Asm16

/-- One instruction for each use of the fields and of the second word. -/
def Catalog.sample : Catalog := ⟨[
  ⟨"ADD".toList, 5, .r, .one, none⟩,
  ⟨"ADDX".toList, 6, .r, .two, none⟩,
  ⟨"LDR".toList, 8, .s 1, .one, none⟩,
  ⟨"LD".toList, 8, .s 2, .two, some .absolute⟩,
  ⟨"LI".toList, 8, .u 3, .one, none⟩,
  ⟨"LIA".toList, 8, .u 4, .one, some .absolute⟩,
  ⟨"LIW".toList, 8, .u 5, .two, some .absolute⟩,
  ⟨"JR".toList, 12, .j 1, .one, none⟩,
  ⟨"BR".toList, 12, .j 2, .two, some .relative⟩]⟩

/-- The steps that build the sample machine. -/
def Script.sample : List Step := [
  .register ⟨"ADD".toList, some 5, none, .one, none⟩,
  .register ⟨"ADDX".toList, some 6, none, .two, none⟩,
  .enter 8,
  .register ⟨"LDR".toList, none, some (.func1, 1), .one, none⟩,
  .register ⟨"LD".toList, none, some (.func1, 2), .two, some .absolute⟩,
  .register ⟨"LI".toList, none, some (.func2, 3), .one, none⟩,
  .register ⟨"LIA".toList, none, some (.func2, 4), .one, some .absolute⟩,
  .register ⟨"LIW".toList, none, some (.func2, 5), .two, some .absolute⟩,
  .leave,
  .enter 12,
  .register ⟨"JR".toList, none, some (.func3, 1), .one, none⟩,
  .register ⟨"BR".toList, none, some (.func3, 2), .two, some .relative⟩,
  .leave]

theorem Script.catalog_sample : Script.catalog Script.sample = .ok Catalog.sample := rfl

end Asm16
