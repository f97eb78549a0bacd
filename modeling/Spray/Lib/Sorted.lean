/-
Lists in the order of a key, and scans that stop at a bound.

In such a list the elements below a bound are in front of all others, so that a scan from
the front selects exactly what a filter does.  Keys are often machine words, which are
ordered as the numbers they stand for.
-/
import Mathlib.Order.Lattice

instance BitVec.linearOrder {w : Nat} : LinearOrder (BitVec w) where
  le_refl := BitVec.le_refl
  le_trans _ _ _ := BitVec.le_trans
  le_antisymm _ _ := BitVec.le_antisymm
  le_total a b := Nat.le_total a.toNat b.toNat
  lt_iff_le_not_ge a b := Nat.lt_iff_le_and_not_ge
  toDecidableLE := inferInstance
  toDecidableLT := inferInstance
  toDecidableEq := inferInstance

namespace List

variable {α β : Type} {p : α → Bool} {l : List α}

theorem drop_length_takeWhile (p : α → Bool) (l : List α) :
    l.drop (l.takeWhile p).length = l.dropWhile p := by
  have h : (l.takeWhile p ++ l.dropWhile p).drop (l.takeWhile p).length = l.dropWhile p :=
    List.drop_left
  rwa [List.takeWhile_append_dropWhile] at h

/-- If `p` holds only of elements in front of all others, a scan up to the first element
it does not hold of finds all it holds of. -/
theorem takeWhile_eq_filter (h : l.Pairwise fun a b => p b = true → p a = true) :
    l.takeWhile p = l.filter p := by
  induction l with
  | nil => rfl
  | cons a rest ih =>
      obtain ⟨hhead, hrest⟩ := List.pairwise_cons.mp h
      by_cases ha : p a = true
      · rw [List.takeWhile_cons_of_pos ha, List.filter_cons_of_pos ha, ih hrest]
      · rw [List.takeWhile_cons_of_neg ha, List.filter_cons_of_neg ha, eq_comm,
          List.filter_eq_nil_iff]
        exact fun b hb hp => ha (hhead b hb hp)

theorem dropWhile_eq_filter_not (h : l.Pairwise fun a b => p b = true → p a = true) :
    l.dropWhile p = l.filter fun a => !p a := by
  induction l with
  | nil => rfl
  | cons a rest ih =>
      obtain ⟨hhead, hrest⟩ := List.pairwise_cons.mp h
      by_cases ha : p a = true
      · rw [List.dropWhile_cons_of_pos ha, List.filter_cons_of_neg (by simp [ha]), ih hrest]
      · rw [List.dropWhile_cons_of_neg ha, eq_comm, List.filter_eq_self]
        intro b hb
        rcases List.mem_cons.mp hb with rfl | hb
        · simp [ha]
        · have : ¬ p b = true := fun hp => ha (hhead b hb hp)
          simp [this]

/-- A first element of a kind is also the first of any narrower kind it is of. -/
theorem find?_of_imp {q : α → Bool} {a : α} (himp : ∀ x ∈ l, q x = true → p x = true)
    (h : l.find? p = some a) (hq : q a = true) : l.find? q = some a := by
  obtain ⟨_, front, back, rfl, hfront⟩ := List.find?_eq_some_iff_append.mp h
  refine List.find?_eq_some_iff_append.mpr ⟨hq, front, back, rfl, fun x hx => ?_⟩
  have hnot := hfront x hx
  have hqp := himp x (List.mem_append_left _ hx)
  cases hqx : q x with
  | false => rfl
  | true =>
      rw [hqp hqx] at hnot
      cases hnot

/-- The elements of the list do not come in the wrong order. -/
def SortedBy [LE β] (key : α → β) (l : List α) : Prop := l.Pairwise (key · ≤ key ·)

namespace SortedBy

variable [LinearOrder β] {key : α → β}

theorem takeWhile_le (h : l.SortedBy key) (b : β) :
    l.takeWhile (key · ≤ b) = l.filter (key · ≤ b) :=
  takeWhile_eq_filter (h.imp fun hle hb => by simp at hb ⊢; exact le_trans hle hb)

/-- Behind the elements below a bound are those that are not. -/
theorem dropWhile_lt (h : l.SortedBy key) (b : β) :
    l.dropWhile (key · < b) = l.filter (b ≤ key ·) := by
  rw [dropWhile_eq_filter_not
    (h.imp fun hle hb => by simp at hb ⊢; exact lt_of_le_of_lt hle hb)]
  congr 1
  funext a
  rcases lt_or_ge (key a) b with hlt | hge
  · simp [hlt]
  · simp [hge]

/-- The first element of a kind is the least of its kind. -/
theorem find?_le (h : l.SortedBy key) {a x : α} (hfind : l.find? p = some a) (hx : x ∈ l)
    (hp : p x = true) : key a ≤ key x := by
  obtain ⟨_, front, back, rfl, hfront⟩ := List.find?_eq_some_iff_append.mp hfind
  rcases List.mem_append.mp hx with hx | hx
  · have hnot := hfront x hx
    rw [hp] at hnot
    cases hnot
  · rcases List.mem_cons.mp hx with rfl | hx
    · exact le_refl _
    · exact (List.pairwise_cons.mp (List.pairwise_append.mp h).2.1).1 x hx

end SortedBy

end List
