/-
Bytes of which some are missing.

`mem` holds a byte at some of the `w`-bit addresses, which wrap.  What is stored is read a byte
at a time: numbers with their lowest byte first, and strings up to the zero byte behind them.
A read succeeds exactly if no byte that it looks at is missing.
-/
import Mathlib.Data.BitVec

namespace Spray

namespace Bytes

variable {w : Nat} (mem : BitVec w → Option (BitVec 8))

/-- None of the `len` bytes from `a` on is missing. -/
def Inside (a : BitVec w) (len : Nat) : Prop := ∀ k < len, (mem (a + BitVec.ofNat w k)).isSome

/-- The number in the `len` bytes from `a` on, the lowest byte first. -/
def readLE : Nat → BitVec w → Option Nat
  | 0, _ => some 0
  | len + 1, a => do
      let low ← mem a
      let high ← readLE len (a + 1#w)
      return low.toNat + 256 * high

/-- These bytes are stored from `a` on. -/
def Holds : BitVec w → List (BitVec 8) → Prop
  | _, [] => True
  | a, b :: bs => mem a = some b ∧ Holds (a + 1#w) bs

/-- The string at `a` is `s`. -/
def HoldsString (a : BitVec w) (s : List (BitVec 8)) : Prop := Holds mem a (s ++ [0#8])

/-- There is an end to the string at `a`. -/
def Terminated (a : BitVec w) : Prop := ∃ s, 0#8 ∉ s ∧ HoldsString mem a s

/-- Is the string at `a` the same as `s`?  The bytes are compared up to the first difference. -/
def strEq : BitVec w → List (BitVec 8) → Option Bool
  | a, [] => do
      let b ← mem a
      return b = 0#8
  | a, c :: s => do
      let b ← mem a
      if b = c then strEq (a + 1#w) s else return false

variable {mem} {a : BitVec w} {len : Nat} {s : List (BitVec 8)}

/-! ### Regions -/

theorem inside_zero : Inside mem a 0 := fun _ h => nomatch h

theorem inside_succ_iff : Inside mem a (len + 1) ↔ (mem a).isSome ∧ Inside mem (a + 1#w) len := by
  have hshift (k : Nat) : a + BitVec.ofNat w (k + 1) = a + 1#w + BitVec.ofNat w k := by
    rw [Nat.add_comm k 1, BitVec.ofNat_add, ← BitVec.add_assoc]
  constructor
  · intro h
    refine ⟨?_, fun k hk => ?_⟩
    · have hfirst := h 0 (Nat.succ_pos len)
      rwa [BitVec.add_zero] at hfirst
    · rw [← hshift]
      exact h (k + 1) (Nat.succ_lt_succ hk)
  · rintro ⟨hfirst, hrest⟩ k hk
    cases k with
    | zero => rwa [BitVec.add_zero]
    | succ k =>
        rw [hshift]
        exact hrest k (Nat.lt_of_succ_lt_succ hk)

/-- A part of a region. -/
theorem Inside.part {i n : Nat} (h : Inside mem a len) (hle : i + n ≤ len) :
    Inside mem (a + BitVec.ofNat w i) n := by
  intro k hk
  rw [BitVec.add_assoc, ← BitVec.ofNat_add]
  exact h (i + k) (by omega)

/-- A field of an entry, in a region that holds `n` entries. -/
theorem Inside.entry {size n i off k : Nat} (h : Inside mem a len) (hn : size * n ≤ len)
    (hi : i < n) (hk : off + k ≤ size) :
    Inside mem (a + BitVec.ofNat w (size * i) + BitVec.ofNat w off) k := by
  have hle : size * (i + 1) ≤ size * n := Nat.mul_le_mul_left size hi
  rw [Nat.mul_succ] at hle
  rw [BitVec.add_assoc, ← BitVec.ofNat_add]
  exact h.part (by omega)

/-! ### Numbers -/

theorem isSome_readLE_iff : (readLE mem len a).isSome ↔ Inside mem a len := by
  induction len generalizing a with
  | zero => exact ⟨fun _ => inside_zero, fun _ => rfl⟩
  | succ len ih =>
      rw [inside_succ_iff, ← ih, readLE]
      cases mem a with
      | none => simp
      | some low => cases readLE mem len (a + 1#w) <;> simp

/-! ### Strings -/

theorem terminated_nil (h : mem a = some 0#8) : Terminated mem a := ⟨[], by simp, h, trivial⟩

theorem terminated_cons {c : BitVec 8} (hc : c ≠ 0#8) (h : mem a = some c)
    (hrest : Terminated mem (a + 1#w)) : Terminated mem a := by
  obtain ⟨s, hs, hholds⟩ := hrest
  exact ⟨c :: s, by simp [hs, hc.symm], h, hholds⟩

theorem strEq_eq_some_true_iff : strEq mem a s = some true ↔ HoldsString mem a s := by
  unfold HoldsString
  induction s generalizing a with
  | nil =>
      rw [List.nil_append, Holds, Holds, and_true, strEq]
      cases mem a <;> simp
  | cons c s ih =>
      rw [List.cons_append, Holds, ← ih, strEq]
      cases mem a with
      | none => simp
      | some b => by_cases hb : b = c <;> simp [hb]

/-- A string that has an end is compared as the list of its bytes. -/
theorem HoldsString.strEq_eq {t : List (BitVec 8)} (h : HoldsString mem a t) (ht : 0#8 ∉ t)
    (hs : 0#8 ∉ s) : strEq mem a s = some (decide (t = s)) := by
  unfold HoldsString at h
  induction s generalizing a t with
  | nil =>
      rw [strEq]
      cases t with
      | nil => simp [h.1]
      | cons b t =>
          have hb : b ≠ 0#8 := fun heq => ht (heq ▸ List.mem_cons_self)
          simp [h.1, hb]
  | cons c s ih =>
      rw [strEq]
      cases t with
      | nil =>
          have hc : 0#8 ≠ c := fun heq => hs (heq ▸ List.mem_cons_self)
          simp [h.1, hc]
      | cons b t =>
          have hrest := ih h.2 (fun h => ht (List.mem_cons_of_mem b h))
            (fun h => hs (List.mem_cons_of_mem c h))
          by_cases hb : b = c
          · simp [h.1, hb, hrest]
          · simp [h.1, hb]

theorem Terminated.isSome_strEq (h : Terminated mem a) (hs : 0#8 ∉ s) :
    (strEq mem a s).isSome := by
  obtain ⟨t, ht, hholds⟩ := h
  rw [hholds.strEq_eq ht hs]
  rfl

/-- A string without an end runs into a byte that is missing: no comparison with the bytes
up to there and others behind them comes to an end. -/
theorem exists_strEq_eq_none (h : ¬ Terminated mem a) (hmissing : ∃ b, mem b = none) :
    ∃ front, 0#8 ∉ front ∧ ∀ rest, strEq mem a (front ++ rest) = none := by
  obtain ⟨b, hb⟩ := hmissing
  obtain ⟨k, hk⟩ : ∃ k, mem (a + BitVec.ofNat w k) = none :=
    ⟨(b - a).toNat, by rw [BitVec.ofNat_toNat, BitVec.setWidth_eq, BitVec.add_comm,
      BitVec.sub_add_cancel, hb]⟩
  have hat : ∀ a : BitVec w, mem a = none →
      ∃ front, 0#8 ∉ front ∧ ∀ rest, strEq mem a (front ++ rest) = none := by
    intro a ha
    refine ⟨[], by simp, fun rest => ?_⟩
    cases rest with
    | nil => simp [strEq, ha]
    | cons c rest => simp [strEq, ha]
  induction k generalizing a with
  | zero =>
      rw [BitVec.add_zero] at hk
      exact hat a hk
  | succ k ih =>
      cases ha : mem a with
      | none => exact hat a ha
      | some c =>
          have hc : c ≠ 0#8 := fun heq => h (terminated_nil (heq ▸ ha))
          rw [Nat.add_comm k 1, BitVec.ofNat_add, ← BitVec.add_assoc] at hk
          obtain ⟨front, hfront, hnone⟩ := ih (fun hrest => h (terminated_cons hc ha hrest)) hk
          refine ⟨c :: front, by simp [hfront, hc.symm], fun rest => ?_⟩
          rw [List.cons_append, strEq, ha]
          simp [hnone rest]

end Bytes

end Spray
