/-
Number formats (`src/magic.c`) and the numbers a user types in (`src/debugger.c`).

A text is a `String` whose characters are the bytes of the C string.  What `printf` and
`strtol` do is part of the library on numerals.
-/
import Spray.Lib.Numeral
import Spray.Debugger

namespace Spray

inductive FormatFilter
  /-- No filter. -/
  | NONE
  | HEX | BITS | ADDR
  /-- Signed decimal number. -/
  | DEC
  | BYTES
  deriving DecidableEq, Repr

def parseFormat : Option String → FormatFilter
  | some "hex" => .HEX
  | some "bits" => .BITS
  | some "addr" => .ADDR
  | some "dec" => .DEC
  | some "bytes" => .BYTES
  | _ => .NONE

/-- Turn `current` into `dflt` if `current` is `NONE`. -/
def defaultFormat (current dflt : FormatFilter) : FormatFilter :=
  if current = .NONE then dflt else current

/-- The bytes of a value, the highest first. -/
def bytesOf (value : Word) : List Byte := (List.range 8).reverse.map (Memory.byteAt value)

/-- `PRINTF_BITS_INT8`. -/
def printBits (i : Byte) : String :=
  String.ofList ((List.range 8).reverse.map fun k => if i.getLsbD k then '1' else '0')

/-- `PRINTF_BYTES_PATTERN_INT8`. -/
def printByte (i : Byte) : String :=
  String.ofList (List.leftpad 2 '0' (Nat.toDigits 16 i.toNat))

/-- Format the given value based on `filter`. -/
def printFormat (value : Word) : FormatFilter → String
  -- Signed decimal numbers are the default.
  | .NONE | .DEC => String.ofList (Numeral.signed value.toInt)
  | .HEX => String.ofList (Numeral.hex 0 value.toNat)
  | .BITS => " ".intercalate ((bytesOf value).map printBits)
  | .ADDR => String.ofList (Numeral.hex 16 value.toNat)
  | .BYTES => " ".intercalate ((bytesOf value).map printByte)

/-- Append a message to the value printed by `printFormat`. -/
def printFormatWith (value : Word) (filter : FormatFilter) (msg : String) : String :=
  printFormat value filter ++ " " ++ msg

/-! ### Parsing -/

def parseNum (str : String) (base : Nat) : Option Word :=
  let (value, strEnd) := Numeral.strtol str.toList base
  if str.toList ≠ [] ∧ strEnd = [] then some (BitVec.ofInt 64 value) else none

def parseBase16 (str : String) : Option Word := parseNum str 16

def parseBase10 (str : String) : Option Word := parseNum str 10

/-- All filters but `DEREF` are formats. -/
def PrintFilter.ofFormat : FormatFilter → PrintFilter
  | .NONE => .NONE
  | .HEX => .HEX
  | .BITS => .BITS
  | .ADDR => .ADDR
  | .DEC => .DEC
  | .BYTES => .BYTES

def parseFilter : Option String → PrintFilter
  | some "deref" => .DEREF
  | some "*" => .DEREF
  | str => .ofFormat (parseFormat str)

/-- Parse the value `set` is given using the correct base.  By default, that same base is
used to print the confirmation. -/
def parseSetValue (valueStr : String) (filter : PrintFilter) : Option (Word × PrintFilter) :=
  match parseBase10 valueStr with
  | some value => some (value, defaultFilter filter .DEC)
  | none =>
    match parseBase16 valueStr with
    | some value => some (value, defaultFilter filter .HEX)
    | none => none

end Spray
