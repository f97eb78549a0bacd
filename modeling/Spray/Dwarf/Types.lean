/-
What the rest of the program is told about the DWARF debug information
(`src/spray_dwarf.h`): entries of the line table, types and locations of variables.
-/
import Spray.Ptrace

namespace Spray

structure LineEntry where
  isOk : Bool := false
  newStatement : Bool := false
  prologueEnd : Bool := false
  /-- The PC used to retrieve the line entry was exactly equal to `addr`. -/
  isExact : Bool := false
  ln : Nat := 0
  cl : Nat := 0
  addr : DbgAddr := ⟨0⟩
  filepath : Option String := none
  deriving DecidableEq, Repr

inductive BaseTypeTag
  | CHAR | SIGNED_CHAR | UNSIGNED_CHAR
  | SHORT | UNSIGNED_SHORT
  | INT | UNSIGNED_INT
  | LONG | UNSIGNED_LONG
  | LONG_LONG | UNSIGNED_LONG_LONG
  | FLOAT | DOUBLE | LONG_DOUBLE
  deriving DecidableEq, Repr

structure SdBasetype where
  tag : BaseTypeTag
  /-- Number of bytes used to represent this base type. -/
  size : BitVec 8
  deriving DecidableEq, Repr

inductive SdTypemod
  | atomic | const | pointer | restrict | volatile
  deriving DecidableEq, Repr

/-- Single node in the representation of a variable's type. -/
inductive SdTypenode
  | baseType (t : SdBasetype)
  | modifier (m : SdTypemod)
  | unspecified
  | typedef
  deriving DecidableEq, Repr

abbrev SdType := List SdTypenode

/-- Where a variable lives while the program runs. -/
inductive SdLocation
  | addr (a : RealAddr)
  | reg (r : X86Reg)
  deriving DecidableEq, Repr

end Spray
