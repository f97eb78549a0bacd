/-
Typing in the numbers that are printed.

A value is a word without a sign.  Printed in base 10 it gets one; typed in, it is read by
`strtol` in either base as a number with one, which stops short of the words from 2^63 on.
-/
import Spray.Format

namespace Spray

open Numeral

/-! ### What is accepted, and what is stored -/

/-- The integer is in the range of `strtol`, or differs from the bound it is beyond by a
multiple of 2^64. -/
def LongCongruent (n : Int) : Prop :=
  LONG_MIN ≤ n ∧ n ≤ LONG_MAX ∨ LONG_MAX < n ∧ (2 ^ 64 : Int) ∣ n - LONG_MAX ∨
    n < LONG_MIN ∧ (2 ^ 64 : Int) ∣ n - LONG_MIN

theorem ofInt_clamp_eq_iff (n : Int) :
    BitVec.ofInt 64 (max LONG_MIN (min n LONG_MAX)) = BitVec.ofInt 64 n ↔ LongCongruent n := by
  rw [← BitVec.toNat_inj, BitVec.toNat_ofInt, BitVec.toNat_ofInt]
  unfold LongCongruent LONG_MIN LONG_MAX
  omega

theorem parseNum_eq_some_iff {base : Nat} (hle : base ≤ 16) {str : String} {w : Word} :
    parseNum str base = some w ↔ ∃ n, Denotes base str.toList n ∧
      w = BitVec.ofInt 64 (max LONG_MIN (min n LONG_MAX)) := by
  unfold parseNum
  constructor
  · intro h
    dsimp only at h
    split at h
    · rename_i hread
      obtain ⟨n, hn, hvalue⟩ :=
        (strtol_iff hle (n := (strtol str.toList base).1)).mp ⟨hread.1, Prod.ext rfl hread.2⟩
      exact ⟨n, hn, by rw [← hvalue]; exact (Option.some.inj h).symm⟩
    · cases h
  · rintro ⟨n, hn, rfl⟩
    obtain ⟨hne, hread⟩ := (strtol_iff hle).mpr ⟨n, hn, rfl⟩
    rw [hread]
    exact if_pos ⟨hne, rfl⟩

theorem parseNum_denotes {base : Nat} (hle : base ≤ 16) {str : String} {n : Int}
    (h : Denotes base str.toList n) :
    parseNum str base = some (BitVec.ofInt 64 (max LONG_MIN (min n LONG_MAX))) :=
  (parseNum_eq_some_iff hle).mpr ⟨n, h, rfl⟩

/-- If the token is accepted, it denotes an integer and what is stored is congruent to it. -/
def StoresDenoted (parse : String → Option Word) (base : Nat) (str : String) : Prop :=
  ∀ w, parse str = some w → ∃ n, Denotes base str.toList n ∧ w = BitVec.ofInt 64 n

theorem parseNum_storesDenoted_iff {base : Nat} (hle : base ≤ 16) (str : String) :
    StoresDenoted (parseNum · base) base str ↔
      ∀ n, Denotes base str.toList n → LongCongruent n := by
  constructor
  · intro h n hn
    obtain ⟨n', hn', hstored⟩ := h _ (parseNum_denotes hle hn)
    rw [hn'.unique hle hn] at hstored
    exact (ofInt_clamp_eq_iff n).mp hstored
  · intro h w hw
    obtain ⟨n, hn, rfl⟩ := (parseNum_eq_some_iff hle).mp hw
    exact ⟨n, hn, (ofInt_clamp_eq_iff n).mpr (h n hn)⟩

/-! ### What is printed -/

/-- Given to `set`, the text printed for a value is accepted and yields that value. -/
def TypedBack (v : Word) (format : FormatFilter) : Prop :=
  ∀ filter, (parseSetValue (printFormat v format) filter).map Prod.fst = some v

theorem typedBack_dec (v : Word) : TypedBack v .DEC := by
  intro filter
  have hdenotes : Denotes 10 (printFormat v .DEC).toList v.toInt := by
    rw [printFormat, String.toList_ofList]
    exact signed_denotes v.toInt
  have hrange : LongCongruent v.toInt := by
    have hlt := v.toInt_lt
    have hle := v.le_toInt
    unfold LongCongruent LONG_MIN LONG_MAX
    omega
  have hparse : parseBase10 (printFormat v .DEC) = some v := by
    rw [parseBase10, parseNum_denotes (by decide) hdenotes, (ofInt_clamp_eq_iff _).mpr hrange,
      BitVec.ofInt_toInt]
  rw [parseSetValue, hparse]
  rfl

theorem typedBack_hex_iff {v : Word} {format : FormatFilter} {width : Nat}
    (htext : printFormat v format = String.ofList (hex width v.toNat)) :
    TypedBack v format ↔ v.toNat < 2 ^ 63 := by
  have hbase10 : parseBase10 (printFormat v format) = none := by
    refine Option.eq_none_iff_forall_ne_some.mpr fun w hw => ?_
    obtain ⟨n, hn, -⟩ := (parseNum_eq_some_iff (by decide)).mp hw
    rw [htext, String.toList_ofList] at hn
    exact hex_not_denotes width v.toNat n hn
  have hdenotes : Denotes 16 (printFormat v format).toList v.toNat := by
    rw [htext, String.toList_ofList]
    exact hex_denotes width v.toNat
  have hiff : LongCongruent v.toNat ↔ v.toNat < 2 ^ 63 := by
    have hlt := v.isLt
    unfold LongCongruent LONG_MIN LONG_MAX
    omega
  have hset : ∀ filter, (parseSetValue (printFormat v format) filter).map Prod.fst =
      some (BitVec.ofInt 64 (max LONG_MIN (min (v.toNat : Int) LONG_MAX))) := by
    intro filter
    rw [parseSetValue, hbase10, parseBase16, parseNum_denotes (by decide) hdenotes]
    rfl
  have hself : BitVec.ofInt 64 (v.toNat : Int) = v := by
    rw [BitVec.ofInt_natCast, BitVec.ofNat_toNat, BitVec.setWidth_eq]
  rw [← hiff, ← ofInt_clamp_eq_iff, hself]
  constructor
  · intro h
    exact Option.some.inj ((hset .NONE).symm.trans (h .NONE))
  · intro h filter
    rw [hset, h]

/-- **Numbers can be typed back exactly below 2^63, or in base 10; what is stored for a token
is what it denotes exactly if `strtol` does not cut that down to something else.** -/
theorem typedBack_and_storesDenoted_iff (v : Word) (str : String) :
    (TypedBack v .DEC ∧ (TypedBack v .HEX ↔ v.toNat < 2 ^ 63) ∧
      (TypedBack v .ADDR ↔ v.toNat < 2 ^ 63)) ∧
    (StoresDenoted parseBase10 10 str ↔ ∀ n, Denotes 10 str.toList n → LongCongruent n) ∧
    (StoresDenoted parseBase16 16 str ↔ ∀ n, Denotes 16 str.toList n → LongCongruent n) :=
  ⟨⟨typedBack_dec v, typedBack_hex_iff rfl, typedBack_hex_iff rfl⟩,
    parseNum_storesDenoted_iff (by decide) str, parseNum_storesDenoted_iff (by decide) str⟩

/-- The address of a function of the kernel is not what it is typed back as, or stored as. -/
theorem typedBack_fails_kernel : ¬ TypedBack 0xffffffff81000000 .ADDR ∧
    ¬ StoresDenoted parseBase16 16 (printFormat 0xffffffff81000000 .ADDR) := by
  refine ⟨fun h => absurd ((typedBack_hex_iff rfl).mp h) (by decide), fun h => ?_⟩
  have hdenotes : Denotes 16 (printFormat 0xffffffff81000000 .ADDR).toList 0xffffffff81000000 := by
    rw [printFormat, String.toList_ofList]
    exact hex_denotes 16 0xffffffff81000000
  have hcongruent := (parseNum_storesDenoted_iff (by decide) _).mp h _ hdenotes
  unfold LongCongruent LONG_MIN LONG_MAX at hcongruent
  omega

end Spray
