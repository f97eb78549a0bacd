/-
Looking up subprograms by name (`src/spray_dwarf.c`).

A function's PC range and its frame base are both read from a subprogram DIE found by its
name, and the name is that of the ELF symbol at the PC.
-/
import Spray.Dwarf.Die
import Spray.Elf
import Spray.Info

namespace Spray

def callbackFindSubprogLocAttrBySubprogName (subprogName : String) (attrNum : DwAt) :
    SearchCallback Die (Option DwarfAttribute) := fun die _ findings =>
  if sdIsSubprogWithName die subprogName then
    match dwarfAttr die attrNum with
    | .ok attr =>
      match sdInitLocAttr attr with
      | some locAttr => (true, some locAttr)
      | none => (false, findings)
    | _ => (false, findings)
  else (false, findings)

/-- Find a location attribute of a subprogram DIE with the given name. -/
def sdGetSubprogLocAttr (subprogName : String) (attrNum : DwAt) (dbg : DwarfDebug Die) :
    Option DwarfAttribute × DwarfDebug Die :=
  match sdSearchDwarfDbg (callbackFindSubprogLocAttrBySubprogName subprogName attrNum) dbg none with
  | (.ok _, dbg, locAttr) => (locAttr, dbg)
  | (_, dbg, _) => (none, dbg)

/-- Low and high PC of a subprogram, if they are set. -/
abbrev SubprogPcRange := Option (Word × Word)

def callbackFindSubprogPcRangeBySubprogName (fnName : String) :
    SearchCallback Die SubprogPcRange := fun die _ range =>
  if sdIsSubprogWithName die fnName then
    match sdGetHighAndLowPc die with
    | .ok found => (true, some found)
    | _ => (false, range)
  else (false, range)

def sdGetSubprogPcRange (fnName : String) (dbg : DwarfDebug Die) :
    SubprogPcRange × DwarfDebug Die :=
  match sdSearchDwarfDbg (callbackFindSubprogPcRangeBySubprogName fnName) dbg none with
  | (.ok _, dbg, range) => (range, dbg)
  | (_, dbg, _) => (none, dbg)

/-- The PC range `sd_for_each_line` goes through when a line is stepped over at `pc`: that
of the function `sym_by_addr` finds, by its name. -/
def stepOverPcRange (elf : ElfFile) (pc : DbgAddr) (dbg : DwarfDebug Die) : SubprogPcRange :=
  match seSymbolFromAddr pc elf with
  | none => none
  | some func => (sdGetSubprogPcRange func.name dbg).1

/-- The frame base `DW_OP_fbreg` is relative to at `pc` (the first part of
`sd_eval_op_fbreg`). -/
def fbregFrameBase (elf : ElfFile) (pc : DbgAddr) (dbg : DwarfDebug Die) :
    Option DwarfAttribute :=
  match seSymbolFromAddr pc elf with
  | none => none
  | some subprog => (sdGetSubprogLocAttr subprog.name .frameBase dbg).1

end Spray
