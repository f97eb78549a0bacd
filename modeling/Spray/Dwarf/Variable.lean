/-
Finding a variable by its name (`src/spray_dwarf.c`).

The DIEs are searched twice.  The first search only looks inside of subprograms whose
range holds the PC; in the second, which follows if that finds nothing, scope is ignored.
-/
import Spray.Dwarf.Die

namespace Spray

/-! ### Types -/

/-- The base types of C, by their name in DWARF. -/
def baseTypeTag : String → Option BaseTypeTag
  | "char" => some .CHAR
  | "signed char" => some .SIGNED_CHAR
  | "unsigned char" => some .UNSIGNED_CHAR
  | "short" => some .SHORT
  | "unsigned short" => some .UNSIGNED_SHORT
  | "int" => some .INT
  | "unsigned int" => some .UNSIGNED_INT
  | "long" => some .LONG
  | "unsigned long" => some .UNSIGNED_LONG
  | "long long" => some .LONG_LONG
  | "unsigned long long" => some .UNSIGNED_LONG_LONG
  | "float" => some .FLOAT
  | "double" => some .DOUBLE
  | "long double" => some .LONG_DOUBLE
  | _ => none

def sdBuildBaseType (die : Die) : Option SdBasetype :=
  match die.name with
  | .ok typeName =>
    match baseTypeTag typeName with
    | none => none
    | some tag =>
      match die.byteSize with
      | .ok byteSize => if byteSize > 0xff then none else some ⟨tag, BitVec.ofNat 8 byteSize⟩
      | _ => none
  | _ => none

section Libdwarf

-- `dwarf_offdie_b`: the DIE at an offset of `.debug_info`, or of `.debug_types`.
variable (offdie : (offset : Nat) → (isInfo : Bool) → Dlv Die)

/-- The DIE referenced by `DW_AT_type`. -/
def sdTypeDie (die : Die) : Option Die :=
  match die.type with
  | .ok ref => (offdie ref.offset ref.isInfo).toOption
  | _ => none

/-- Add the nodes for the type of `prevDie`.  Nothing comes of it within `fuel` steps if the
references go in circles. -/
def sdBuildType : (fuel : Nat) → (prevDie : Die) → (prevTag : Option DwTag) → SdType →
    Option (Option SdType)
  | 0, _, _, _ => none
  | fuel + 1, prevDie, prevTag, type =>
    if !sdHasAt prevDie .type then
      -- Clang leaves the attribute out in case of `void *`.
      some (if prevTag = some .pointerType then some type else none)
    else
      match sdTypeDie offdie prevDie with
      | none => some none
      | some nextDie =>
        match nextDie.tag with
        | .ok .baseType =>
          some ((sdBuildBaseType nextDie).map fun baseType => type ++ [.baseType baseType])
        | .ok .pointerType =>
          sdBuildType fuel nextDie (some .pointerType) (type ++ [.modifier .pointer])
        | .ok .atomicType =>
          sdBuildType fuel nextDie (some .atomicType) (type ++ [.modifier .atomic])
        | .ok .constType =>
          sdBuildType fuel nextDie (some .constType) (type ++ [.modifier .const])
        | .ok .restrictType =>
          sdBuildType fuel nextDie (some .restrictType) (type ++ [.modifier .restrict])
        | .ok .volatileType =>
          sdBuildType fuel nextDie (some .volatileType) (type ++ [.modifier .volatile])
        | .ok .typedef => sdBuildType fuel nextDie none (type ++ [.typedef])
        | _ => some none

def sdVariableType (fuel : Nat) (die : Die) : Option (Option SdType) :=
  if !sdHasAt die .type then some none else sdBuildType offdie fuel die none []

/-! ### Declaration -/

def sdGetCuOfDie (die : Die) : Option Die :=
  match die.cuOffset with
  | .ok cuOffset =>
    match offdie cuOffset true with
    | .ok cuDie => some cuDie
    | .noEntry => (offdie cuOffset false).toOption
    | .error => none
  | _ => none

def sdGetDieSourceFiles (die : Die) : Option (List String) :=
  (sdGetCuOfDie offdie die).bind fun cuDie => cuDie.srcfiles.toOption

/-- The file `DW_AT_decl_file` is the number of, which counts from 1. -/
def declFileOf (die : Die) : Option String :=
  match die.declFile with
  | .ok num =>
    if num ≠ 0 then (sdGetDieSourceFiles offdie die).bind (·[num - 1]?) else none
  | _ => none

/-- The line `DW_AT_decl_line` gives, as an `unsigned`. -/
def declLineOf (die : Die) : Nat :=
  match die.declLine with
  | .ok line => line % 2 ^ 32
  | _ => 0

/-! ### The search -/

structure SdVarattr where
  loc : DwarfAttribute
  type : SdType
  deriving DecidableEq, Repr

/-- What `sd_runtime_variable` sets when it succeeds. -/
structure FoundVariable where
  attr : SdVarattr
  declFile : Option String
  declLine : Nat
  deriving DecidableEq, Repr

structure VarattrSearchFor where
  pc : DbgAddr
  useScope : Bool
  varName : String

structure VarattrSearchFindings where
  /-- The most recent subprogram holds the PC, and has not been left yet. -/
  inScope : Bool
  /-- The level of that subprogram. -/
  scopeLevel : Nat
  found? : Option FoundVariable
  deriving DecidableEq, Repr

-- What `sd_variable_type` makes of a variable's type.
variable (variableType : Die → Option SdType)

/-- The attributes of a variable or parameter with the given name, if there is a type and a
location for it. -/
def foundVariable (varName : String) (die : Die) : Option FoundVariable :=
  let correctTag := sdHasTag die .variable || sdHasTag die .formalParameter
  let locationAttr := sdHasAt die .location
  if correctTag && locationAttr then
    match die.name with
    | .ok dieVarName =>
      if varName = dieVarName then
        match variableType die with
        | none => none
        | some type =>
          match dwarfAttr die .location with
          | .ok attr =>
            match sdInitLocAttr attr with
            | some loc =>
              some
                { attr := { loc, type }
                  declFile := declFileOf offdie die
                  declLine := declLineOf die }
            | none => none
          | _ => none
      else none
    | _ => none
  else none

def callbackFindRuntimeVariable (searchFor : VarattrSearchFor) :
    SearchCallback Die VarattrSearchFindings := fun die level findings =>
  -- The scope is only active as long as the level is deeper than its subprogram's.
  let findings :=
    if searchFor.useScope && !(level > findings.scopeLevel) then
      { findings with inScope := false }
    else findings
  if searchFor.useScope && sdHasTag die .subprogram then
    match sdCheckPcInDie die searchFor.pc.value with
    | .ok true => (false, { findings with inScope := true, scopeLevel := level })
    | .ok false => (false, { findings with inScope := false })
    | _ => (false, findings)
  else if !searchFor.useScope || findings.inScope then
    match foundVariable offdie variableType searchFor.varName die with
    | some found => (true, { findings with found? := some found })
    | none => (false, findings)
  else (false, findings)

/-- Get the attributes of the variable with the given name, and where it was declared. -/
def sdRuntimeVariable (pc : DbgAddr) (varName : String) (dbg : DwarfDebug Die) :
    Option FoundVariable × DwarfDebug Die :=
  let search := fun useScope =>
    sdSearchDwarfDbg (callbackFindRuntimeVariable offdie variableType { pc, useScope, varName })
  match search true dbg { inScope := false, scopeLevel := 0, found? := none } with
  | (.ok _, dbg, findings) => (findings.found?, dbg)
  | (.error, dbg, _) => (none, dbg)
  | (.noEntry, dbg, findings) =>
    -- Try again, this time ignoring the scope.
    match search false dbg findings with
    | (.ok _, dbg, findings) => (findings.found?, dbg)
    | (_, dbg, _) => (none, dbg)

end Libdwarf

end Spray
