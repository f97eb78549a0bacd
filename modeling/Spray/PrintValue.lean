/-
Printing the values of variables (`src/info.c`, `src/debugger.c`).

A value is a word that was read from the tracee; the variable's type decides how many of its
bytes are shown and what they are taken for.  Floating point types are shown as the number
the word's bytes make up: the C code converts the integer, it does not reinterpret it.
-/
import Spray.Format

namespace Spray

/-- A natural number with at most `p` significant bits, to the nearest, ties to even. -/
def roundToBits (p n : Nat) : Nat :=
  let drop := n.log2 + 1 - p
  let kept := n >>> drop
  let rest := n % 2 ^ drop
  if drop = 0 then n
  else if 2 ^ drop < 2 * rest ∨ 2 ^ drop = 2 * rest ∧ kept % 2 = 1 then (kept + 1) <<< drop
  else kept <<< drop

/-- `%f` of a number without decimals. -/
def printDouble (n : Nat) : String :=
  String.ofList (Nat.toDigits 10 n ++ '.' :: List.replicate 6 '0')

/-- `'%c'`; a NUL ends the text. -/
def printChar (value : Word) : String :=
  String.ofList (['\'', Char.ofNat (value.setWidth 8).toNat, '\''].takeWhile (· ≠ Char.ofNat 0))

/-- `printf` takes as many bits of the value as `width` says for a signed number. -/
def printSigned (width : Nat) (value : Word) : String :=
  String.ofList (Numeral.signed (value.setWidth width).toInt)

def printUnsigned (width : Nat) (value : Word) : String :=
  String.ofList (Nat.toDigits 10 (value.setWidth width).toNat)

def printBaseType (baseType : SdBasetype) (value : Word) (filter : FormatFilter) : String :=
  let value := maskBaseTypeValue baseType value
  if filter = .NONE then
    match baseType.tag with
    | .CHAR => printChar value
    | .SIGNED_CHAR => printSigned 8 value
    | .UNSIGNED_CHAR => printUnsigned 8 value
    | .SHORT => printSigned 16 value
    | .UNSIGNED_SHORT => printUnsigned 16 value
    | .INT => printSigned 32 value
    | .UNSIGNED_INT => printUnsigned 32 value
    | .LONG => printSigned 64 value
    | .UNSIGNED_LONG => printUnsigned 64 value
    | .LONG_LONG => printSigned 64 value
    | .UNSIGNED_LONG_LONG => printUnsigned 64 value
    | .FLOAT => printDouble (roundToBits 24 value.toNat)
    | .DOUBLE => printDouble (roundToBits 53 value.toNat)
    | .LONG_DOUBLE => printDouble value.toNat
  else printFormat value filter

def printVarValue (var : Option RuntimeVariable) (value : Word) (filter : FormatFilter) :
    String :=
  match var with
  | none => printFormatWith value filter "(no type!)"
  | some var => go var.type
where
  go : SdType → String
    | [] => printFormatWith value filter "(no applicable type!)"
    | .baseType t :: _ => printBaseType t value filter
    | .modifier .pointer :: _ => printFormat value (defaultFormat filter .ADDR)
    -- Continue iterating, until a printable node has been found.
    | _ :: rest => go rest

def printVarDerefValue (var : Option RuntimeVariable) (deref : Word) (filter : FormatFilter) :
    String :=
  match var with
  | none => printFormatWith deref filter "(no type!)"
  | some var => go var.type false
where
  go : SdType → (fromPointer : Bool) → String
    | [], _ => printFormatWith deref filter "(not a pointer!)"
    | .baseType t :: rest, fromPointer =>
      if fromPointer then printBaseType t deref .NONE else go rest false
    | .modifier .pointer :: rest, _ => go rest true
    -- More modifiers between the pointer and the base type are OK.
    | .modifier _ :: rest, fromPointer => go rest fromPointer
    | _ :: rest, _ => go rest false

/-- The variable whose value is printed, if it is one's. -/
def PrintValueInfo.var : PrintValueInfo → Option RuntimeVariable
  | .varRead var => some var
  | .varReadConfirm var => some var
  | _ => none

/-- The text printed for a value. -/
def PrintValueInfo.valueStr (info : PrintValueInfo) (value : Word) (filter : FormatFilter) :
    String :=
  match info.var with
  | some var => printVarValue (some var) value filter
  | none => printFormat value filter

/-- The text printed for the value stored at an address. -/
def PrintValueInfo.derefStr (info : PrintValueInfo) (deref : Word) : String :=
  match info with
  | .varRead var => printVarDerefValue (some var) deref .BYTES
  | _ => printFormat deref .BYTES

/-! ### Nodes of a type -/

/-- Does the node decide how a value is printed? -/
def SdTypenode.isPrintable : SdTypenode → Bool
  | .baseType _ => true
  | .modifier .pointer => true
  | _ => false

def SdTypenode.isModifier : SdTypenode → Bool
  | .modifier _ => true
  | _ => false

theorem printVarValue_go_append {value : Word} {filter : FormatFilter} {pre : SdType}
    (hpre : ∀ node ∈ pre, node.isPrintable = false) (rest : SdType) :
    printVarValue.go value filter (pre ++ rest) = printVarValue.go value filter rest := by
  induction pre with
  | nil => rfl
  | cons node pre ih =>
      have hrest := ih fun n hn => hpre n (List.mem_cons_of_mem _ hn)
      have hnode := hpre node (List.mem_cons_self ..)
      cases node with
      | baseType t => cases hnode
      | modifier m =>
          cases m with
          | pointer => cases hnode
          | _ => exact hrest
      | unspecified => exact hrest
      | typedef => exact hrest

theorem printVarDerefValue_go_append {deref : Word} {filter : FormatFilter} {pre : SdType}
    (hpre : ∀ node ∈ pre, node.isPrintable = false) (rest : SdType) (fromPointer : Bool) :
    printVarDerefValue.go deref filter (pre ++ rest) fromPointer =
      printVarDerefValue.go deref filter rest
        (fromPointer && pre.all SdTypenode.isModifier) := by
  induction pre generalizing fromPointer with
  | nil => rw [List.all_nil, Bool.and_true]; rfl
  | cons node pre ih =>
      have hrest := ih fun n hn => hpre n (List.mem_cons_of_mem _ hn)
      have hnode := hpre node (List.mem_cons_self ..)
      cases node with
      | baseType t => cases hnode
      | modifier m =>
          cases m with
          | pointer => cases hnode
          | _ => exact hrest fromPointer
      | unspecified => exact (hrest false).trans (by simp [SdTypenode.isModifier])
      | typedef => exact (hrest false).trans (by simp [SdTypenode.isModifier])

end Spray
