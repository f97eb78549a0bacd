/-
Byte-addressed memory read and written a word at a time.

A `Memory w` maps every `w`-bit address to a byte.  A word of `k` bytes is stored
little-endian, and an address that runs past the top of the address space wraps,
so a word can be read or written at any address, aligned or not.

The one fact a program that owns a single byte needs is `writeWord_eq_update`:
writing back a word whose upper bytes are the ones memory already holds changes
the byte at the address and nothing else.
-/
import Mathlib.Data.BitVec
import Mathlib.Logic.Function.Basic

/-- A map from `w`-bit addresses to bytes. -/
abbrev Memory (w : Nat) := BitVec w → BitVec 8

namespace Memory

variable {w k : Nat}

/-- The `k` bytes from `a` on, the one at `a` least significant. -/
def readWord (m : Memory w) (a : BitVec w) : (k : Nat) → BitVec (8 * k)
  | 0 => 0#0
  | k + 1 => (readWord m (a + 1) k ++ m a : BitVec (8 * k + 8))

/-- The `i`th byte of a word, counted from the least significant one. -/
def byteAt {n : Nat} (x : BitVec n) (i : Nat) : BitVec 8 := x.extractLsb' (8 * i) 8

/-- Store the `k` bytes of a word from `a` on. -/
def writeWord (m : Memory w) (a : BitVec w) (x : BitVec (8 * k)) : Memory w := fun b =>
  if (b - a).toNat < k then byteAt x (b - a).toNat else m b

theorem byteAt_readWord (m : Memory w) {i : Nat} :
    ∀ {k : Nat} (a : BitVec w), i < k → byteAt (readWord m a k) i = m (a + BitVec.ofNat w i) := by
  induction i with
  | zero =>
      intro k a hk
      obtain ⟨k, rfl⟩ : ∃ j, k = j + 1 := ⟨k - 1, by omega⟩
      ext j hj
      show ((readWord m (a + 1) k ++ m a : BitVec (8 * k + 8)).extractLsb' (8 * 0) 8)[j] = _
      simp [BitVec.getElem_extractLsb', BitVec.getLsbD_append, hj]
  | succ i ih =>
      intro k a hk
      obtain ⟨k, rfl⟩ : ∃ j, k = j + 1 := ⟨k - 1, by omega⟩
      have hrest := ih (a + 1) (show i < k by omega)
      have haddr : a + 1 + BitVec.ofNat w i = a + BitVec.ofNat w (i + 1) := by
        rw [BitVec.ofNat_add, BitVec.add_assoc, BitVec.add_comm 1 (BitVec.ofNat w i)]
        rfl
      rw [← haddr, ← hrest]
      ext j hj
      show ((readWord m (a + 1) k ++ m a : BitVec (8 * k + 8)).extractLsb' (8 * (i + 1)) 8)[j] = _
      simp only [byteAt, BitVec.getElem_extractLsb', BitVec.getLsbD_append]
      rw [if_neg (by omega)]
      congr 1
      omega

@[simp] theorem writeWord_apply (m : Memory w) (a b : BitVec w) (x : BitVec (8 * k)) :
    writeWord m a x b = if (b - a).toNat < k then byteAt x (b - a).toNat else m b := rfl

/-- The address `b` is the `i`th byte of a word at `a` when it lies `i` bytes behind it. -/
theorem add_sub_toNat (a b : BitVec w) : a + BitVec.ofNat w (b - a).toNat = b := by
  rw [BitVec.ofNat_toNat, BitVec.setWidth_eq, BitVec.add_comm, BitVec.sub_add_cancel]

/-- A byte that lies `i` bytes behind `a` is the `i`th of the word stored there. -/
theorem writeWord_add (m : Memory w) (a : BitVec w) (x : BitVec (8 * k)) {i : Nat} (hi : i < k)
    (hk : k ≤ 2 ^ w) : writeWord m a x (a + BitVec.ofNat w i) = byteAt x i := by
  have hoff : (a + BitVec.ofNat w i - a).toNat = i := by
    rw [BitVec.add_comm, BitVec.add_sub_cancel, BitVec.toNat_ofNat, Nat.mod_eq_of_lt (by omega)]
  rw [writeWord_apply, hoff, if_pos hi]

/-- **A word that repeats what memory holds above its lowest byte changes one byte.** -/
theorem writeWord_eq_update (m : Memory w) (a : BitVec w) (x : BitVec (8 * k)) (hk : 0 < k)
    (hx : ∀ i, 0 < i → i < k → byteAt x i = m (a + BitVec.ofNat w i)) :
    writeWord m a x = Function.update m a (byteAt x 0) := by
  funext b
  rw [writeWord_apply]
  by_cases hba : b = a
  · subst hba
    simp [hk]
  · have hpos : 0 < (b - a).toNat := by
      rcases Nat.eq_zero_or_pos (b - a).toNat with hz | hp
      · exact absurd (by simpa [hz] using (add_sub_toNat a b).symm) hba
      · exact hp
    rw [Function.update_of_ne hba]
    split
    · rename_i hlt
      rw [hx _ hpos hlt, add_sub_toNat]
    · rfl

/-! ### Reading words back -/

/-- A word depends on its own bytes only. -/
theorem readWord_congr {m m' : Memory w} {a : BitVec w}
    (h : ∀ i, i < k → m (a + BitVec.ofNat w i) = m' (a + BitVec.ofNat w i)) :
    readWord m a k = readWord m' a k := by
  induction k generalizing a with
  | zero => rfl
  | succ k ih =>
      have hrest : readWord m (a + 1) k = readWord m' (a + 1) k := by
        refine ih fun i hi => ?_
        have haddr : a + 1 + BitVec.ofNat w i = a + BitVec.ofNat w (i + 1) := by
          rw [BitVec.ofNat_add, BitVec.add_assoc, BitVec.add_comm 1 (BitVec.ofNat w i)]
          rfl
        rw [haddr]
        exact h (i + 1) (by omega)
      have hlow := h 0 (Nat.succ_pos k)
      rw [show a + BitVec.ofNat w 0 = a from BitVec.add_zero a] at hlow
      rw [readWord, readWord, hrest, hlow]

/-- Words are the same when their bytes are. -/
theorem eq_of_byteAt {x y : BitVec (8 * k)} (h : ∀ i, i < k → byteAt x i = byteAt y i) : x = y := by
  ext j hj
  have hbyte := congrArg (·.getLsbD (j % 8)) (h (j / 8) (by omega))
  have hbits : 8 * (j / 8) + j % 8 = j := Nat.div_add_mod j 8
  simpa [byteAt, BitVec.getLsbD_extractLsb', Nat.mod_lt, hbits, hj] using hbyte

theorem readWord_writeWord (m : Memory w) (a : BitVec w) (x : BitVec (8 * k)) (hk : k ≤ 2 ^ w) :
    readWord (writeWord m a x) a k = x := by
  refine eq_of_byteAt fun i hi => ?_
  rw [byteAt_readWord _ _ hi, writeWord_add m a x hi hk]

/-- A word is not changed by a write in front of it. -/
theorem readWord_writeWord_of_le {l : Nat} (m : Memory w) {a b : BitVec w} (x : BitVec (8 * k))
    (hle : a.toNat + k ≤ b.toNat) (hb : b.toNat + l ≤ 2 ^ w) :
    readWord (writeWord m a x) b l = readWord m b l := by
  refine readWord_congr fun i hi => ?_
  rw [writeWord_apply, if_neg]
  have hsum : (b + BitVec.ofNat w i).toNat = b.toNat + i := by
    rw [BitVec.toNat_add, BitVec.toNat_ofNat, Nat.add_mod_mod, Nat.mod_eq_of_lt (by omega)]
  have hwrap : 2 ^ w - a.toNat + (b.toNat + i) = (b.toNat + i - a.toNat) + 2 ^ w := by
    have ha := a.isLt
    omega
  rw [BitVec.toNat_sub, hsum, hwrap, Nat.add_mod_right, Nat.mod_eq_of_lt (by omega)]
  omega

/-- A word is not changed by a write that is apart from it. -/
theorem readWord_writeWord_apart {l : Nat} (m : Memory w) {a b : BitVec w} (x : BitVec (8 * k))
    (hab : k ≤ (b - a).toNat) (hba : l ≤ (a - b).toNat) :
    readWord (writeWord m a x) b l = readWord m b l := by
  have hback : (a - b).toNat = (2 ^ w - (b - a).toNat) % 2 ^ w := by
    rw [← BitVec.toNat_neg, BitVec.neg_sub, BitVec.sub_eq_add_neg a b, BitVec.add_comm]
  have hle : (2 ^ w - (b - a).toNat) % 2 ^ w ≤ 2 ^ w - (b - a).toNat := Nat.mod_le ..
  have hlt : (b - a).toNat < 2 ^ w := (b - a).isLt
  refine readWord_congr fun i hi => ?_
  rw [writeWord_apply, if_neg]
  have hmoved : b + BitVec.ofNat w i - a = b - a + BitVec.ofNat w i := by
    rw [BitVec.sub_eq_add_neg, BitVec.sub_eq_add_neg, BitVec.add_assoc,
      BitVec.add_comm (BitVec.ofNat w i), ← BitVec.add_assoc]
  rw [hmoved, BitVec.toNat_add, BitVec.toNat_ofNat, Nat.add_mod_mod, Nat.mod_eq_of_lt (by omega)]
  omega

end Memory
