/-
The buffer of symbols (`src/info.c`).

A symbol is looked up into a buffer that `realloc` moves, and is used through a pointer into it.
Its position and its file path are looked up once and kept there.  A computation has no result
(`none`) if it follows a pointer that `realloc` has made stale, writes outside of the buffer, or
reads a member that has no meaning.
-/
import Spray.Info
import Spray.Lib.Growable

namespace Spray

/-- `DebugSymbol`, with what is kept of it. -/
structure SymbolEntry where
  /-- The index in the buffer it was allocated by. -/
  bufIdx : Nat
  symbol : DebugSymbol
  position : Option Position
  filepath : Option String
  deriving DecidableEq, Repr

/-- `SYM_ALLOC_SIZE` is the number of symbols there is always more room for. -/
abbrev DebugSymbolBuf := Growable SymbolEntry 16

def initSymbolBuf : DebugSymbolBuf := .empty SymbolEntry 16

abbrev SymM := StateT DebugSymbolBuf Option

namespace SymM

/-- Follow a pointer to a symbol. -/
def follow (sym : GrowableRef) : SymM SymbolEntry := fun buf =>
  (buf.follow sym).map fun entry => (entry, buf)

/-- `alloc_symbol`, with the members its callers set. -/
def allocSymbol (symbol : DebugSymbol) : SymM GrowableRef := fun buf =>
  some (buf.push ⟨buf.entries.length, symbol, none, none⟩)

/-- Write through the pointer that `mut_sym_ptr` makes of a symbol. -/
def writeMutSym (sym : SymbolEntry) (write : SymbolEntry → SymbolEntry) : SymM Unit := fun buf =>
  if sym.bufIdx < buf.entries.length then some ((), buf.modify sym.bufIdx write) else none

variable (info : DebugInfo)

def symByName (name : String) : SymM (Option GrowableRef) :=
  match seSymbolFromName name info.elf with
  | none => return none
  | some elf => return some (← allocSymbol ⟨elf, none⟩)

def symByAddr (addr : DbgAddr) : SymM (Option GrowableRef) :=
  match seSymbolFromAddr addr info.elf with
  | none => return none
  | some elf => return some (← allocSymbol ⟨elf, some addr⟩)

def symName : Option GrowableRef → SymM (Option String)
  | none => return none
  | some sym => return some (Spray.symName (← follow sym).symbol)

def symStartAddr : Option GrowableRef → SymM DbgAddr
  | none => return ⟨0⟩
  | some sym => return Spray.symStartAddr (← follow sym).symbol

def symEndAddr : Option GrowableRef → SymM DbgAddr
  | none => return ⟨0⟩
  | some sym => return Spray.symEndAddr (← follow sym).symbol

def symAddr : Option GrowableRef → SymM DbgAddr
  | none => return ⟨0⟩
  | some sym => return Spray.symAddr (← follow sym).symbol

def usesSpecificAddress : Option GrowableRef → SymM Bool
  | none => return false
  | some sym => return (← follow sym).symbol.addr.isSome

def functionStartAddr : Option GrowableRef → SymM (Option DbgAddr)
  | none => return none
  | some func => return Spray.functionStartAddr (← follow func).symbol info

def symFilepath : Option GrowableRef → SymM (Option String)
  | none => return none
  | some ref => do
    let sym ← follow ref
    match sym.filepath with
    | some filepath => return some filepath
    | none =>
      match info.dbg.sdFilepathFromPc (Spray.symAddr sym.symbol) with
      | none => return none
      | some filepath => do
        writeMutSym sym fun mutSym => { mutSym with filepath := some filepath }
        return some filepath

/-- What is returned is a pointer to the position in the symbol. -/
def symPosition : Option GrowableRef → SymM (Option GrowableRef)
  | none => return none
  | some ref => do
    let sym ← follow ref
    if sym.position.isSome then return some ref
    else
      let lineEntry := info.dbg.sdLineEntryFromPc (Spray.symAddr sym.symbol)
      if !lineEntry.isOk then return none
      else
        writeMutSym sym fun mutSym =>
          { mutSym with position := some ⟨lineEntry.ln, lineEntry.cl, lineEntry.isExact⟩ }
        return some ref

/-- Read a position through the pointer to it. -/
def readPosition : Option GrowableRef → SymM (Option Position)
  | none => return none
  | some ref => do
    match (← follow ref).position with
    | none => failure
    | some position => return some position

end SymM

/-! ### Using symbols -/

/-- How a symbol is found. -/
inductive SymLookup
  | byName (name : String)
  | byAddr (addr : DbgAddr)
  deriving DecidableEq, Repr

/-- What a symbol is asked for. -/
inductive SymUse
  | name | startAddr | endAddr | addr | specific | functionStart | filepath | position
  deriving DecidableEq, Repr

inductive SymAnswer
  | text (text : Option String)
  | addr (addr : DbgAddr)
  | start (addr : Option DbgAddr)
  | bool (bool : Bool)
  | position (position : Option Position)
  deriving DecidableEq, Repr

/-- What a caller has got: an answer, or a pointer it still has to follow. -/
inductive SymHeld
  | answer (answer : SymAnswer)
  | position (position : Option GrowableRef)
  deriving DecidableEq, Repr

section Session

variable (info : DebugInfo)

def SymLookup.find : SymLookup → SymM (Option GrowableRef)
  | .byName name => SymM.symByName info name
  | .byAddr addr => SymM.symByAddr info addr

def SymUse.use (sym : Option GrowableRef) : SymUse → SymM SymHeld
  | .name => return .answer (.text (← SymM.symName sym))
  | .startAddr => return .answer (.addr (← SymM.symStartAddr sym))
  | .endAddr => return .answer (.addr (← SymM.symEndAddr sym))
  | .addr => return .answer (.addr (← SymM.symAddr sym))
  | .specific => return .answer (.bool (← SymM.usesSpecificAddress sym))
  | .functionStart => return .answer (.start (← SymM.functionStartAddr info sym))
  | .filepath => return .answer (.text (← SymM.symFilepath info sym))
  | .position => return .position (← SymM.symPosition info sym)

def SymHeld.read : SymHeld → SymM SymAnswer
  | .answer known => return known
  | .position kept => return .position (← SymM.readPosition kept)

/-- Look a symbol up, ask for this and that, and only then read the positions. -/
def askSymbol (lookup : SymLookup) (uses : List SymUse) : SymM (List SymAnswer) := do
  let sym ← lookup.find info
  let held ← uses.mapM (SymUse.use info sym)
  held.mapM SymHeld.read

/-- One symbol after the other. -/
def askSymbols (asked : List (SymLookup × List SymUse)) : SymM (List (List SymAnswer)) :=
  asked.mapM fun (lookup, uses) => askSymbol info lookup uses

end Session

/-! ### What is meant -/

/-- The symbol itself, without a buffer. -/
def SymLookup.symbol (info : DebugInfo) : SymLookup → Option DebugSymbol
  | .byName name => symByName name info
  | .byAddr addr => symByAddr addr info

/-- The answer of a symbol, or of `NULL`. -/
def SymUse.answer (info : DebugInfo) (sym : Option DebugSymbol) : SymUse → SymAnswer
  | .name => .text (sym.map symName)
  | .startAddr => .addr ((sym.map symStartAddr).getD ⟨0⟩)
  | .endAddr => .addr ((sym.map symEndAddr).getD ⟨0⟩)
  | .addr => .addr ((sym.map symAddr).getD ⟨0⟩)
  | .specific => .bool (sym.any fun sym => sym.addr.isSome)
  | .functionStart => .start (sym.bind fun sym => functionStartAddr sym info)
  | .filepath => .text (sym.bind fun sym => symFilepath sym info)
  | .position => .position (sym.bind fun sym => symPosition sym info)

end Spray
