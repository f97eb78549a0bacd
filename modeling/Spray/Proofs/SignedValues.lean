/-
Variables with a sign.

A value is cut down to the bytes of its type before it is printed.  The conversions without a
filter take as many of these bits as the type has in C for a signed number; the `dec` filter
takes all 64 of them, and sees no sign in what was cut down to less.
-/
import Spray.PrintValue

namespace Spray

open Numeral

/-- How many bits the C type has, if it is a signed integer type. -/
def BaseTypeTag.signedWidth : BaseTypeTag → Option Nat
  | .SIGNED_CHAR => some 8
  | .SHORT => some 16
  | .INT => some 32
  | .LONG | .LONG_LONG => some 64
  | _ => none

/-- The lowest bytes of a word, as a number in two's complement. -/
def signedValue (n : Nat) (w : Word) : Int := (w.setWidth (8 * n)).toInt

/-- Cutting a value down leaves its lowest bytes. -/
theorem maskBaseTypeValue_eq (t : SdBasetype) (value : Word) :
    maskBaseTypeValue t value = (value.setWidth (8 * t.size.toNat)).setWidth 64 := by
  refine BitVec.eq_of_getLsbD_eq fun i hi => ?_
  unfold maskBaseTypeValue
  dsimp only
  rw [BitVec.getLsbD_setWidth, BitVec.getLsbD_setWidth, BitVec.getLsbD_and]
  split
  · rw [BitVec.getLsbD_not, BitVec.getLsbD_shiftLeft, BitVec.getLsbD_allOnes]
    by_cases hlow : i < 8 * t.size.toNat
    · simp [hi, hlow]
      omega
    · simp [hi, hlow]
      omega
  · have hlow : i < 8 * t.size.toNat := by omega
    rw [BitVec.getLsbD_allOnes]
    simp [hi, hlow]

theorem printBaseType_signed {tag : BaseTypeTag} {width : Nat}
    (htag : tag.signedWidth = some width) (size : BitVec 8) (value : Word) :
    printBaseType ⟨tag, size⟩ value .NONE =
      printSigned width (maskBaseTypeValue ⟨tag, size⟩ value) := by
  cases tag with
  | SIGNED_CHAR | SHORT | INT | LONG | LONG_LONG => cases htag; rfl
  | _ => cases htag

/-- A number keeps its value where a C type has room for it. -/
theorem toInt_setWidth_eq_iff {width : Nat}
    (hwidth : width = 8 ∨ width = 16 ∨ width = 32 ∨ width = 64) (value : Word) :
    (value.setWidth width).toInt = value.toInt ↔
      -2 ^ (width - 1) ≤ value.toInt ∧ value.toInt < 2 ^ (width - 1) := by
  have hlt := value.isLt
  simp only [BitVec.toInt_eq_toNat_cond, BitVec.toNat_setWidth]
  generalize value.toNat = n at hlt
  rcases hwidth with rfl | rfl | rfl | rfl
  all_goals omega

/-- Cut down to less than 64 bits, a negative number has lost its sign. -/
theorem toInt_masked_eq_iff {n : Nat} (hn : n = 1 ∨ n = 2 ∨ n = 4 ∨ n = 8) (w : Word) :
    ((w.setWidth (8 * n)).setWidth 64).toInt = signedValue n w ↔ n = 8 ∨ 0 ≤ signedValue n w := by
  have hlt := w.isLt
  unfold signedValue
  simp only [BitVec.toInt_eq_toNat_cond, BitVec.toNat_setWidth]
  generalize w.toNat = value at hlt
  rcases hn with rfl | rfl | rfl | rfl
  all_goals omega

theorem BaseTypeTag.signedWidth_cases {tag : BaseTypeTag} {width : Nat}
    (htag : tag.signedWidth = some width) :
    width = 8 ∨ width = 16 ∨ width = 32 ∨ width = 64 := by
  cases tag with
  | SIGNED_CHAR | SHORT | INT | LONG | LONG_LONG => cases htag; decide
  | _ => cases htag

/-! ### A variable -/

/-- The first node of the type that can be printed is this base type. -/
def FirstPrintable (type : SdType) (t : SdBasetype) : Prop :=
  ∃ pre rest, type = pre ++ .baseType t :: rest ∧ ∀ node ∈ pre, node.isPrintable = false

theorem printVarValue_firstPrintable {var : RuntimeVariable} {t : SdBasetype}
    (h : FirstPrintable var.type t) (value : Word) (filter : FormatFilter) :
    printVarValue (some var) value filter = printBaseType t value filter := by
  obtain ⟨pre, rest, htype, hpre⟩ := h
  show printVarValue.go value filter var.type = _
  rw [htype, printVarValue_go_append hpre]
  rfl

/-- Without a filter and in base 10, the text stands for the lowest bytes of the word. -/
def ShowsSigned (var : RuntimeVariable) (n : Nat) (w : Word) : Prop :=
  Denotes 10 (printVarValue (some var) w .NONE).toList (signedValue n w) ∧
    Denotes 10 (printVarValue (some var) w .DEC).toList (signedValue n w)

/-- **A variable with a sign is shown with its value exactly if it is 8 bytes wide or not
negative, and in the range of its C type.** -/
theorem showsSigned_iff {var : RuntimeVariable} {tag : BaseTypeTag} {width n : Nat}
    (htag : tag.signedWidth = some width) (hn : n = 1 ∨ n = 2 ∨ n = 4 ∨ n = 8)
    (htype : FirstPrintable var.type ⟨tag, BitVec.ofNat 8 n⟩) (w : Word) :
    ShowsSigned var n w ↔ (n = 8 ∨ 0 ≤ signedValue n w) ∧
      -2 ^ (width - 1) ≤ signedValue n w ∧ signedValue n w < 2 ^ (width - 1) := by
  have hmask : maskBaseTypeValue ⟨tag, BitVec.ofNat 8 n⟩ w = (w.setWidth (8 * n)).setWidth 64 := by
    rw [maskBaseTypeValue_eq]
    rcases hn with rfl | rfl | rfl | rfl <;> rfl
  have hdec : printBaseType ⟨tag, BitVec.ofNat 8 n⟩ w .DEC =
      printFormat (maskBaseTypeValue ⟨tag, BitVec.ofNat 8 n⟩ w) .DEC := rfl
  have hroom := toInt_setWidth_eq_iff (BaseTypeTag.signedWidth_cases htag)
    ((w.setWidth (8 * n)).setWidth 64)
  unfold ShowsSigned
  rw [printVarValue_firstPrintable htype, printVarValue_firstPrintable htype,
    printBaseType_signed htag, hdec, hmask, printSigned, printFormat, String.toList_ofList,
    String.toList_ofList, signed_denotes_iff, signed_denotes_iff, ← toInt_masked_eq_iff hn, and_comm]
  refine and_congr_right fun hsame => ?_
  rw [hsame] at hroom
  exact hroom

/-! ### An `int` -/

def intVariable : RuntimeVariable := ⟨.addr ⟨0x1000⟩, none, 1, [.baseType ⟨.INT, 4⟩]⟩

theorem intVariable_firstPrintable :
    FirstPrintable intVariable.type ⟨.INT, BitVec.ofNat 8 4⟩ := ⟨[], [], rfl, by simp⟩

theorem showsSigned_positive : ShowsSigned intVariable 4 0xffffffff00000007 :=
  (showsSigned_iff rfl (.inr (.inr (.inl rfl))) intVariable_firstPrintable
    0xffffffff00000007).mpr (by decide)

/-- An `int` that is -1 is shown as 4294967295 in base 10. -/
theorem showsSigned_fails_negative : ¬ ShowsSigned intVariable 4 0xffffffff := by
  intro h
  have hiff : ShowsSigned intVariable 4 0xffffffff ↔ _ :=
    showsSigned_iff rfl (.inr (.inr (.inl rfl))) intVariable_firstPrintable 0xffffffff
  exact absurd (hiff.mp h).1 (by decide)

end Spray
