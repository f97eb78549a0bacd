/-
Debugging information entries and their attributes (`src/spray_dwarf.c`).

A `Die` holds what libdwarf reads from an entry, one field for each attribute the program
asks for.  A call that asks for an attribute may fail; one that is absent is `noEntry`.
-/
import Spray.Dwarf.Search
import Spray.Dwarf.Types

namespace Spray

inductive DwTag
  | compileUnit
  | subprogram
  | lexicalBlock
  | variable
  | formalParameter
  | baseType
  | pointerType
  | atomicType
  | constType
  | restrictType
  | volatileType
  | rvalueReferenceType
  | referenceType
  | sharedType
  | immutableType
  | packedType
  | typedef
  | other (num : Nat)
  deriving DecidableEq, Repr

/-- The attributes that are asked for by number. -/
inductive DwAt
  | name | compDir | declFile | declLine | type | location | frameBase
  deriving DecidableEq, Repr

/-- `dwarf_get_form_class` of an attribute that may hold a location. -/
inductive FormClass
  | EXPRLOC | LOCLIST | LOCLISTSPTR | BLOCK
  | other
  deriving DecidableEq, Repr

/-- `DW_AT_high_pc` is an address, or an offset of `DW_AT_low_pc`, depending on its form. -/
structure HighPc where
  value : Word
  isAddress : Bool
  deriving DecidableEq, Repr

/-- `DW_AT_type`: the offset of another DIE, and the section it is in. -/
structure TypeRef where
  offset : Nat
  isInfo : Bool
  deriving DecidableEq, Repr

/-- What `dwarf_srclines_b` returns: the kind of the line table, and its lines, each of
which may be unreadable. -/
structure LineContext where
  tableCount : Nat
  lines : Dlv (List (Dlv LineEntry))
  deriving DecidableEq, Repr

structure Die where
  /-- Where the DIE is in the executable.  No two DIEs are at the same place. -/
  offset : Nat
  tag : Dlv DwTag
  name : Dlv String := .noEntry
  compDir : Dlv String := .noEntry
  lowPc : Dlv Word := .noEntry
  highPc : Dlv HighPc := .noEntry
  type : Dlv TypeRef := .noEntry
  byteSize : Dlv Nat := .noEntry
  /-- The attribute, if present, is in a form of a class that libdwarf may fail to tell. -/
  location : Dlv (Dlv FormClass) := .noEntry
  frameBase : Dlv (Dlv FormClass) := .noEntry
  declFile : Dlv Nat := .noEntry
  /-- What becomes of an attempt to read `DW_AT_decl_file` as a text. -/
  declFileText : Dlv String := .noEntry
  declLine : Dlv Nat := .noEntry
  /-- The offset of its unit's own DIE (`dwarf_CU_dieoffset_given_die`). -/
  cuOffset : Dlv Nat := .noEntry
  /-- A unit's source files (`dwarf_srcfiles`) and its line table. -/
  srcfiles : Dlv (List String) := .noEntry
  lineContext : Dlv LineContext := .noEntry
  deriving DecidableEq, Repr

/-- A `Dwarf_Attribute`: it stands for one attribute of one DIE. -/
structure DwarfAttribute where
  die : Nat
  num : DwAt
  formClass : Dlv FormClass
  deriving DecidableEq, Repr

variable {α β : Type}

def Dlv.map (f : α → β) : Dlv α → Dlv β
  | .ok a => .ok (f a)
  | .noEntry => .noEntry
  | .error => .error

def Dlv.isOk : Dlv α → Bool
  | .ok _ => true
  | _ => false

def Dlv.toOption : Dlv α → Option α
  | .ok a => some a
  | _ => none

/-- Not absent: the value may still be unreadable. -/
def Dlv.isPresent : Dlv α → Bool
  | .noEntry => false
  | _ => true

def sdHasTag (die : Die) (tag : DwTag) : Bool :=
  match die.tag with
  | .ok dieTag => dieTag = tag
  | _ => false

def sdHasAt (die : Die) : DwAt → Bool
  | .name => die.name.isPresent
  | .compDir => die.compDir.isPresent
  | .declFile => die.declFile.isPresent
  | .declLine => die.declLine.isPresent
  | .type => die.type.isPresent
  | .location => die.location.isPresent
  | .frameBase => die.frameBase.isPresent

/-- `dwarf_attr`, for the attributes that may hold a location. -/
def dwarfAttr (die : Die) (num : DwAt) : Dlv DwarfAttribute :=
  match num with
  | .location => die.location.map fun cls => ⟨die.offset, .location, cls⟩
  | .frameBase => die.frameBase.map fun cls => ⟨die.offset, .frameBase, cls⟩
  | _ => .noEntry

/-- Addresses from low to high PC. -/
def sdGetHighAndLowPc (die : Die) : Dlv (Word × Word) :=
  match die.lowPc with
  | .ok lowpc =>
    match die.highPc with
    | .ok high => .ok (lowpc, if high.isAddress then high.value else high.value + lowpc)
    | .noEntry => .noEntry
    | .error => .error
  | .noEntry => .noEntry
  | .error => .error

/-- Does `pc` lie between low and high PC of the DIE?  High PC counts. -/
def sdCheckPcInDie (die : Die) (pc : Word) : Dlv Bool :=
  (sdGetHighAndLowPc die).map fun range => range.1 ≤ pc ∧ pc ≤ range.2

def sdIsSubprogWithName (die : Die) (name : String) : Bool :=
  match die.tag with
  | .ok .subprogram =>
    match die.name with
    | .ok fnName => fnName = name
    | _ => false
  | _ => false

/-- `SdLocattr` is a location attribute in a form `dwarf_get_loclist_c` can be used with. -/
def sdInitLocAttr (loc : DwarfAttribute) : Option DwarfAttribute :=
  match loc.formClass with
  | .ok .EXPRLOC | .ok .LOCLIST | .ok .LOCLISTSPTR | .ok .BLOCK => some loc
  | _ => none

theorem sdInitLocAttr_eq {attr loc : DwarfAttribute} (h : sdInitLocAttr attr = some loc) :
    loc = attr := by
  unfold sdInitLocAttr at h
  split at h
  · exact (Option.some.inj h).symm
  · exact (Option.some.inj h).symm
  · exact (Option.some.inj h).symm
  · exact (Option.some.inj h).symm
  · cases h

/-- An attribute tells which DIE it is of. -/
theorem dwarfAttr_die {die : Die} {num : DwAt} {attr : DwarfAttribute}
    (h : dwarfAttr die num = .ok attr) : attr.die = die.offset := by
  have hmap : ∀ (cls : Dlv (Dlv FormClass)),
      cls.map (fun cls => (⟨die.offset, num, cls⟩ : DwarfAttribute)) = .ok attr →
        attr.die = die.offset := by
    intro cls hcls
    cases cls with
    | ok cls => cases hcls; rfl
    | noEntry => cases hcls
    | error => cases hcls
  unfold dwarfAttr at h
  split at h
  · exact hmap _ h
  · exact hmap _ h
  · cases h

end Spray
