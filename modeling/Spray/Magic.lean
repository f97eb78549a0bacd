/-
Utilities and magic numbers (`src/magic.h`, `src/magic.c`).

Addresses come in two kinds.  A `DbgAddr` is one stored in the binary, the kind
DWARF and ELF speak of; a `RealAddr` is one in the running process.  They differ by
the load address, and a position independent executable is the only program where
that is not zero.
-/
import Spray.Lib.Memory

namespace Spray

abbrev Byte := BitVec 8

abbrev Word := BitVec 64

/-- `int 3` instruction code. -/
def int3 : Byte := 0xcc

/-- Mask of lowest byte in number. -/
def btmByteMask : Word := 0xff

/-- How many instruction steps `singleStepLine` performs before it gives up. -/
def singleStepSearchLimit : Nat := 128

inductive SprayResult
  | ok
  | err
  deriving DecidableEq, Repr

structure RealAddr where
  value : Word
  deriving DecidableEq, Repr

structure DbgAddr where
  value : Word
  deriving DecidableEq, Repr

/-- Convert a real address to a debug address. -/
def realToDbg (offset real : RealAddr) : DbgAddr := ⟨real.value - offset.value⟩

/-- Convert a debug address to a real address. -/
def dbgToReal (offset : RealAddr) (dwarf : DbgAddr) : RealAddr := ⟨dwarf.value + offset.value⟩

end Spray
