/-
Following links from node to node.

`next` leads from a node to the one it is linked to, if it is linked to any.  Among finitely
many nodes this comes to an end exactly if it never comes back to a node.
-/
import Mathlib.Data.Fintype.Card
import Mathlib.Data.Fintype.EquivFin
import Mathlib.Order.Basic

namespace Spray

namespace Links

variable {α : Type} (next : α → Option α)

/-- The node `n` links away, if they lead that far. -/
def follow : Nat → α → Option α
  | 0, a => some a
  | n + 1, a => (next a).bind (follow n)

/-- There is an end to the links from a node. -/
def Ends (a : α) : Prop := ∃ n, follow next n a = none

/-- No node is met twice. -/
def NeverReturns (a : α) : Prop :=
  ∀ i j x, follow next i a = some x → follow next j a = some x → i = j

variable {next}

theorem follow_add (m n : Nat) (a : α) :
    follow next (m + n) a = (follow next m a).bind (follow next n) := by
  induction m generalizing a with
  | zero => rw [Nat.zero_add]; rfl
  | succ m ih =>
      rw [Nat.succ_add]
      cases hnext : next a with
      | none => simp [follow, hnext]
      | some b => simp [follow, hnext, ih b]

theorem follow_none_mono {m n : Nat} (h : m ≤ n) {a : α} (hm : follow next m a = none) :
    follow next n a = none := by
  obtain ⟨k, rfl⟩ := Nat.exists_eq_add_of_le h
  rw [follow_add, hm]
  rfl

/-- A node that is met again is met again and again. -/
theorem follow_mul {i k : Nat} {a x : α} (hi : follow next i a = some x)
    (hk : follow next k x = some x) (n : Nat) : follow next (i + n * k) a = some x := by
  induction n with
  | zero => rw [Nat.zero_mul]; exact hi
  | succ n ih =>
      rw [Nat.succ_mul, ← Nat.add_assoc, follow_add, ih]
      exact hk

theorem neverReturns_of_ends {a : α} (h : Ends next a) : NeverReturns next a := by
  obtain ⟨n, hn⟩ := h
  -- Otherwise the links go on behind any number of them.
  have hlater : ∀ i j x, i < j → follow next i a = some x → follow next j a ≠ some x := by
    intro i j x hij hi hj
    obtain ⟨k, hk, rfl⟩ : ∃ k, 0 < k ∧ j = i + k := ⟨j - i, by omega, by omega⟩
    rw [follow_add, hi] at hj
    have hagain := follow_mul hi hj n
    have hge : n ≤ i + n * k := by
      have := Nat.le_mul_of_pos_right n hk
      omega
    rw [follow_none_mono hge hn] at hagain
    cases hagain
  intro i j x hi hj
  rcases Nat.lt_trichotomy i j with hlt | heq | hgt
  · exact absurd hj (hlater i j x hlt hi)
  · exact heq
  · exact absurd hi (hlater j i x hgt hj)

/-- As many links as there are nodes lead nowhere, unless they lead back. -/
theorem follow_card_of_neverReturns [Fintype α] {a : α} (h : NeverReturns next a) :
    follow next (Fintype.card α) a = none := by
  by_contra hne
  have hsome : ∀ i : Fin (Fintype.card α + 1), ∃ x, follow next i a = some x := by
    intro i
    refine Option.ne_none_iff_exists'.mp fun hnone => hne ?_
    exact follow_none_mono (Nat.le_of_lt_succ i.isLt) hnone
  choose node hnode using hsome
  have hinjective : Function.Injective node := by
    intro i j hij
    exact Fin.ext (h i j (node i) (hnode i) (by rw [hij]; exact hnode j))
  have hcard := Fintype.card_le_of_injective node hinjective
  rw [Fintype.card_fin] at hcard
  omega

theorem ends_of_neverReturns [Fintype α] {a : α} (h : NeverReturns next a) : Ends next a :=
  ⟨Fintype.card α, follow_card_of_neverReturns h⟩

end Links

end Spray
