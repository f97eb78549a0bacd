/-
Symbols of an ELF file (`src/spray_elf.c`).

The symbol table is modelled as the list of its entries in file order, each with the
name its `st_name` offset finds in the string table.
-/
import Spray.Magic

namespace Spray

/-- `ELF64_ST_TYPE` of a symbol. -/
inductive SymbolType
  | STT_NOTYPE
  | STT_OBJECT
  | STT_FUNC
  | STT_SECTION
  | STT_FILE
  | other (n : Nat)
  deriving DecidableEq, Repr

structure ElfSym where
  name : String
  stValue : Word
  stSize : Word
  type : SymbolType
  deriving DecidableEq, Repr

inductive ElfType
  | NONE | REL | EXEC | DYN | CORE
  deriving DecidableEq, Repr

structure ElfFile where
  type : ElfType
  symtab : List ElfSym
  deriving DecidableEq, Repr

def seSymbolStartAddr (sym : ElfSym) : DbgAddr := ⟨sym.stValue⟩

/-- The symbol's size is the offset from the start address if the symbol is a function. -/
def seSymbolEndAddr (sym : ElfSym) : DbgAddr := ⟨sym.stValue + sym.stSize⟩

def seSymbolFromName (name : String) (elf : ElfFile) : Option ElfSym :=
  elf.symtab.find? fun sym => sym.name = name

def seSymbolFromAddr (addr : DbgAddr) (elf : ElfFile) : Option ElfSym :=
  elf.symtab.find? fun sym =>
    (seSymbolStartAddr sym).value ≤ addr.value ∧ (seSymbolEndAddr sym).value ≥ addr.value

end Spray
