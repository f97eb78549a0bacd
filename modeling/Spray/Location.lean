/-
Locations in the source (`src/debugger.c`).

A location for a breakpoint is the name of a function, an address, or a line in a file.  Which
one it is meant to be depends on the text alone.
-/
import Spray.Format

namespace Spray

/-! ### Texts -/

def isIdentifierStart (c : Char) : Bool :=
  'a' ≤ c && c ≤ 'z' || 'A' ≤ c && c ≤ 'Z' || c = '_'

def isIdentifierPart (c : Char) : Bool := isIdentifierStart c || '0' ≤ c && c ≤ '9'

/-- `^[a-zA-Z_][a-zA-Z_0-9]*$` -/
def isValidIdentifier (ident : String) : Bool :=
  match ident.toList with
  | [] => false
  | c :: rest => isIdentifierStart c && rest.all isIdentifierPart

/-- `^[^:]+:[0-9]+$` -/
def isFileWithLine (fileLine : String) : Bool :=
  let file := fileLine.toList.takeWhile (· ≠ ':')
  match fileLine.toList.dropWhile (· ≠ ':') with
  | [] => false
  | _ :: line => file ≠ [] && line ≠ [] && line.all (Numeral.isDigit 10)

/-- `strtok`: the first token of a string, and what is left behind the delimiter at its end. -/
def strtok (delims str : List Char) : Option (List Char × List Char) :=
  match str.dropWhile (· ∈ delims) with
  | [] => none
  | str => some (str.takeWhile (· ∉ delims), (str.dropWhile (· ∉ delims)).tail)

def UINT_MAX : Int := 2 ^ 32 - 1

def parseLineno (lineStr : String) : Option Nat :=
  let (lineBuf, strEnd) := Numeral.strtol lineStr.toList 10
  if lineStr.toList ≠ [] ∧ strEnd = [] ∧ lineBuf ≤ UINT_MAX then
    some (lineBuf % 2 ^ 32).toNat
  else none

/-! ### Where a breakpoint goes -/

section Locations

-- What `sd_line_entry_at` finds for a file and a line.
variable (info : DebugInfo) (lineEntryAt : String → Nat → LineEntry)

/-- `addr_at`. -/
def addrAtLine (filepath : String) (lineno : Nat) : Option DbgAddr :=
  let line := lineEntryAt filepath lineno
  if line.isOk then some line.addr else none

def parseBreakLocation (location : String) : Option DbgAddr :=
  if isValidIdentifier location then
    (symByName location info).bind fun func => functionStartAddr func info
  else
    match parseBase16 location with
    | some value => some ⟨value⟩
    | none =>
      if isFileWithLine location then
        -- Both tokens are there, since `location` was validated.
        match strtok [':'] location.toList with
        | none => none
        | some (filepath, rest) =>
          match strtok [':'] rest with
          | none => none
          | some (lineStr, _) =>
            match parseLineno (String.ofList lineStr) with
            | none => none
            | some lineno => addrAtLine lineEntryAt (String.ofList filepath) lineno
      else none

end Locations

end Spray
