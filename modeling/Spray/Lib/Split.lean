/-
Splitting a list at the first element of some kind.
-/
import Mathlib.Data.List.TakeWhile

namespace Spray

namespace Split

variable {α : Type} {p : α → Bool} {front rest : List α}

/-- The rest does not go on like the front. -/
def Stops (p : α → Bool) (rest : List α) : Prop := ∀ x ∈ rest.head?, p x = false

theorem takeWhile_append (hfront : ∀ x ∈ front, p x = true) (hrest : Stops p rest) :
    (front ++ rest).takeWhile p = front := by
  rw [List.takeWhile_append_of_pos hfront]
  cases rest with
  | nil => rw [List.takeWhile_nil, List.append_nil]
  | cons x rest =>
      have hx : p x = false := hrest x rfl
      rw [List.takeWhile_cons_of_neg (by simp [hx]), List.append_nil]

theorem dropWhile_append (hfront : ∀ x ∈ front, p x = true) (hrest : Stops p rest) :
    (front ++ rest).dropWhile p = rest := by
  rw [List.dropWhile_append_of_pos hfront]
  cases rest with
  | nil => rfl
  | cons x rest =>
      have hx : p x = false := hrest x rfl
      exact List.dropWhile_cons_of_neg (by simp [hx])

/-- Every list is split that way. -/
theorem exists_split (p : α → Bool) (l : List α) :
    ∃ front rest, l = front ++ rest ∧ (∀ x ∈ front, p x = true) ∧ Stops p rest := by
  refine ⟨l.takeWhile p, l.dropWhile p, List.takeWhile_append_dropWhile.symm,
    fun x hx => List.mem_takeWhile_imp hx, ?_⟩
  intro x hx
  rw [Option.mem_def, List.head?_eq_some_iff] at hx
  obtain ⟨rest, hrest⟩ := hx
  have hne : l.dropWhile p ≠ [] := by rw [hrest]; exact List.cons_ne_nil x rest
  have hhead := List.head_dropWhile_not p hne
  simpa [hrest] using hhead

/-- The front is the longest that there is. -/
theorem length_le (hrest : Stops p rest) {front' rest' : List α}
    (hfront' : ∀ x ∈ front', p x = true) (h : front ++ rest = front' ++ rest') :
    front'.length ≤ front.length := by
  rcases List.append_eq_append_iff.mp h with ⟨v, rfl, hv⟩ | ⟨v, rfl, -⟩
  · cases v with
    | nil => simp
    | cons x v =>
        have hx := hfront' x (by simp)
        rw [hrest x (by rw [hv]; rfl)] at hx
        cases hx
  · simp

theorem stops_cons {x : α} (h : p x = false) : Stops p (x :: rest) := by
  intro y hy
  cases hy
  exact h

/-- The front of a list up to the first delimiter, and what is there from it on. -/
theorem split_at [DecidableEq α] {delim : α} (h : delim ∉ front) :
    (front ++ delim :: rest).takeWhile (· ≠ delim) = front ∧
    (front ++ delim :: rest).dropWhile (· ≠ delim) = delim :: rest := by
  have hpass : ∀ x ∈ front, decide (x ≠ delim) = true := by
    intro x hx
    exact decide_eq_true fun heq => h (heq ▸ hx)
  have hstop : Stops (fun x => decide (x ≠ delim)) (delim :: rest) :=
    stops_cons (decide_eq_false fun hne => hne rfl)
  exact ⟨takeWhile_append hpass hstop, dropWhile_append hpass hstop⟩

end Split

end Spray
