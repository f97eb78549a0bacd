/-
Arrays that are moved to grow.

Entries are appended to an array that has room for one chunk of them at first.  Once it is full, it
is moved to where there is room for one chunk more, and a reference to where it has been before
must not be followed any more.  How long a reference lasts is therefore a matter of counting.
-/
import Mathlib

/-- An entry of an array that has been moved so many times. -/
structure GrowableRef where
  moves : Nat
  idx : Nat
  deriving DecidableEq, Repr

/-- An array that is moved only when it is full. -/
structure Growable (α : Type) (chunk : Nat) where
  entries : List α
  moves : Nat
  fits : entries.length ≤ chunk * (moves + 1)
  needed : moves = 0 ∨ chunk * moves < entries.length

namespace Growable

variable {α : Type} {chunk : Nat}

def empty (α : Type) (chunk : Nat) : Growable α chunk :=
  ⟨[], 0, Nat.zero_le _, .inl rfl⟩

/-- Append an entry, and refer to it. -/
def push [NeZero chunk] (arr : Growable α chunk) (entry : α) : GrowableRef × Growable α chunk :=
  if h : chunk * (arr.moves + 1) ≤ arr.entries.length then
    (⟨arr.moves + 1, arr.entries.length⟩,
      { entries := arr.entries ++ [entry]
        moves := arr.moves + 1
        fits := by
          have hpos : 0 < chunk := Nat.pos_of_neZero chunk
          have hfits := arr.fits
          rw [List.length_append, List.length_singleton, Nat.mul_add_one]
          omega
        needed := .inr <| by
          rw [List.length_append, List.length_singleton]
          omega })
  else
    (⟨arr.moves, arr.entries.length⟩,
      { entries := arr.entries ++ [entry]
        moves := arr.moves
        fits := by
          rw [List.length_append, List.length_singleton]
          omega
        needed := by
          rw [List.length_append, List.length_singleton]
          exact arr.needed.imp_right fun h => by omega })

/-- Change one entry where it is. -/
def modify (arr : Growable α chunk) (idx : Nat) (f : α → α) : Growable α chunk :=
  { arr with
    entries := arr.entries.modify idx f
    fits := by rw [List.length_modify]; exact arr.fits
    needed := by rw [List.length_modify]; exact arr.needed }

/-- What a reference refers to, if it may be followed. -/
def follow (arr : Growable α chunk) (ref : GrowableRef) : Option α :=
  if ref.moves = arr.moves then arr.entries[ref.idx]? else none

@[simp] theorem entries_empty : (empty α chunk).entries = [] := rfl

@[simp] theorem entries_modify (arr : Growable α chunk) (idx : Nat) (f : α → α) :
    (arr.modify idx f).entries = arr.entries.modify idx f := rfl

/-- What a change leaves alone of an entry, it leaves alone of the array. -/
theorem map_entries_modify {β : Type} (arr : Growable α chunk) (idx : Nat) {f : α → α} {g : α → β}
    (h : ∀ a, g (f a) = g a) : (arr.modify idx f).entries.map g = arr.entries.map g := by
  refine List.ext_getElem? fun i => ?_
  rw [entries_modify, List.getElem?_map, List.getElem?_map, List.getElem?_modify]
  by_cases hidx : idx = i
  · simp [hidx, Function.comp_def, h]
  · simp [hidx]

theorem follow_modify (arr : Growable α chunk) (idx : Nat) (f : α → α) (ref : GrowableRef) :
    (arr.modify idx f).follow ref =
      (arr.follow ref).map fun entry => if ref.idx = idx then f entry else entry := by
  unfold follow
  show (if ref.moves = arr.moves then (arr.entries.modify idx f)[ref.idx]? else none) = _
  by_cases hmoves : ref.moves = arr.moves
  · rw [if_pos hmoves, if_pos hmoves, List.getElem?_modify]
    by_cases hidx : idx = ref.idx
    · simp [hidx]
    · simp [hidx, Ne.symm hidx]
  · rw [if_neg hmoves, if_neg hmoves, Option.map_none]

theorem entries_of_follow {arr : Growable α chunk} {ref : GrowableRef} {entry : α}
    (h : arr.follow ref = some entry) : arr.entries[ref.idx]? = some entry := by
  unfold follow at h
  by_cases hmoves : ref.moves = arr.moves
  · rwa [if_pos hmoves] at h
  · rw [if_neg hmoves] at h
    cases h

section Push

variable [NeZero chunk]

@[simp] theorem entries_push (arr : Growable α chunk) (entry : α) :
    (arr.push entry).2.entries = arr.entries ++ [entry] := by
  unfold push
  split <;> rfl

@[simp] theorem idx_push (arr : Growable α chunk) (entry : α) :
    (arr.push entry).1.idx = arr.entries.length := by
  unfold push
  split <;> rfl

theorem moves_push (arr : Growable α chunk) (entry : α) :
    (arr.push entry).1.moves = (arr.push entry).2.moves := by
  unfold push
  split <;> rfl

theorem follow_push_self (arr : Growable α chunk) (entry : α) :
    (arr.push entry).2.follow (arr.push entry).1 = some entry := by
  unfold follow
  rw [if_pos (moves_push arr entry), entries_push, idx_push, List.getElem?_concat_length]

/-- How often the array was moved follows from the number of entries. -/
theorem moves_eq (arr : Growable α chunk) : arr.moves = (arr.entries.length - 1) / chunk := by
  have hpos : 0 < chunk := Nat.pos_of_neZero chunk
  have hfits := arr.fits
  refine (Nat.div_eq_of_lt_le ?_ ?_).symm
  · rw [Nat.mul_comm]
    rcases arr.needed with hzero | hneeded
    · simp [hzero]
    · omega
  · rw [Nat.mul_comm]
    have hroom : 0 < chunk * (arr.moves + 1) := Nat.mul_pos hpos (Nat.succ_pos _)
    omega

/-- A reference lasts until the array is moved. -/
theorem follow_isSome_iff {arr later : Growable α chunk} {ref : GrowableRef} {entry : α}
    (h : arr.follow ref = some entry) (hle : arr.entries.length ≤ later.entries.length) :
    (later.follow ref).isSome ↔
      (later.entries.length - 1) / chunk = (arr.entries.length - 1) / chunk := by
  have hmoves : ref.moves = (arr.entries.length - 1) / chunk := by
    rw [← moves_eq]
    by_contra hmoved
    unfold follow at h
    rw [if_neg hmoved] at h
    cases h
  have hlt : ref.idx < later.entries.length :=
    Nat.lt_of_lt_of_le (List.getElem?_eq_some_iff.mp (entries_of_follow h)).1 hle
  unfold follow
  rw [hmoves, moves_eq later, List.getElem?_eq_getElem hlt]
  by_cases hsame : (arr.entries.length - 1) / chunk = (later.entries.length - 1) / chunk
  · simp [hsame]
  · simp [hsame, Ne.symm hsame]

end Push

end Growable
