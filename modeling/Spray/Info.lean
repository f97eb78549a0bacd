/-
Information about the executable that's being debugged (`src/info.c`).

`DebugInfo` joins the ELF symbol table to the answers of the DWARF layer.  A symbol
caches its position and file path in the source; both are functions of the symbol, so
the model computes them each time they are asked for.
-/
import Spray.Elf
import Spray.Dwarf.Types

namespace Spray

/-- The queries `src/info.c` makes of the DWARF layer. -/
structure DwarfInfo where
  sdFilepathFromPc : DbgAddr → Option String
  sdLineEntryFromPc : DbgAddr → LineEntry
  /-- The entries `sd_for_each_line` hands its callback, given function and file name. -/
  sdForEachLine : String → String → List LineEntry
  /-- Where a function's code starts behind its prologue, given its start and end. -/
  sdEffectiveStartAddr : DbgAddr → DbgAddr → Option DbgAddr

structure DebugInfo where
  elf : ElfFile
  dbg : DwarfInfo

structure DebugSymbol where
  elf : ElfSym
  /-- Set if the symbol was created with a specific address. -/
  addr : Option DbgAddr
  deriving DecidableEq, Repr

structure Position where
  line : Nat
  column : Nat
  /-- This position perfectly matches the symbol used to retrieve it. -/
  isExact : Bool
  deriving DecidableEq, Repr

def symByName (name : String) (info : DebugInfo) : Option DebugSymbol :=
  (seSymbolFromName name info.elf).map fun elf => ⟨elf, none⟩

def symByAddr (addr : DbgAddr) (info : DebugInfo) : Option DebugSymbol :=
  (seSymbolFromAddr addr info.elf).map fun elf => ⟨elf, some addr⟩

def symName (sym : DebugSymbol) : String := sym.elf.name

def symStartAddr (sym : DebugSymbol) : DbgAddr := seSymbolStartAddr sym.elf

def symEndAddr (sym : DebugSymbol) : DbgAddr := seSymbolEndAddr sym.elf

def functionStartAddr (func : DebugSymbol) (info : DebugInfo) : Option DbgAddr :=
  if func.elf.type = .STT_FUNC then
    info.dbg.sdEffectiveStartAddr (symStartAddr func) (symEndAddr func)
  else none

def symAddr (sym : DebugSymbol) : DbgAddr :=
  match sym.addr with
  | some addr => addr
  | none => symStartAddr sym

def symFilepath (sym : DebugSymbol) (info : DebugInfo) : Option String :=
  info.dbg.sdFilepathFromPc (symAddr sym)

def symPosition (sym : DebugSymbol) (info : DebugInfo) : Option Position :=
  let lineEntry := info.dbg.sdLineEntryFromPc (symAddr sym)
  if lineEntry.isOk then some ⟨lineEntry.ln, lineEntry.cl, lineEntry.isExact⟩ else none

def addrPosition (addr : DbgAddr) (info : DebugInfo) : Option Position :=
  (symByAddr addr info).bind fun addrSym => symPosition addrSym info

def addrFilepath (addr : DbgAddr) (info : DebugInfo) : Option String :=
  (symByAddr addr info).bind fun addrSym => symFilepath addrSym info

structure RuntimeVariable where
  loc : SdLocation
  declFile : Option String
  declLine : Nat
  type : SdType
  deriving DecidableEq, Repr

def maskBaseTypeValue (baseType : SdBasetype) (value : Word) : Word :=
  let shiftBy := baseType.size.toNat * 8
  let mask : Word := BitVec.allOnes 64
  -- A left-shift by as many bits as the type has is undefined.
  value &&& (if shiftBy < 64 then ~~~(mask <<< shiftBy) else mask)

/-- Cut a value down to the first base type of the variable's type, but leave the bytes of
a pointer alone. -/
def maskVarValue (var : RuntimeVariable) (value : Word) : Word :=
  go var.type
where
  go : SdType → Word
    | [] => value
    | .baseType t :: _ => maskBaseTypeValue t value
    | .modifier .pointer :: _ => value
    | _ :: rest => go rest

end Spray
