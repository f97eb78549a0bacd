/-
The PC range of a DIE.

DWARF's ranges do not include their end.  The program's own check does.
-/
import Spray.Dwarf.Die

namespace Spray

variable {die e : Die} {pc : Word}

def Die.pcRange (die : Die) : Option (Word × Word) := (sdGetHighAndLowPc die).toOption

/-- The PC is in the DIE's range; high PC, as DWARF has it, is past the end. -/
def Die.covers (die : Die) (pc : Word) : Bool :=
  match sdGetHighAndLowPc die with
  | .ok range => range.1 ≤ pc ∧ pc < range.2
  | _ => false

/-- The PC is in the DIE's range, or just past its end. -/
def Die.touches (die : Die) (pc : Word) : Bool := sdCheckPcInDie die pc = .ok true

/-- Whether a PC is covered depends on the range only. -/
theorem covers_of_pcRange (h : die.covers pc = true)
    (hrange : e.pcRange = die.pcRange) : e.covers pc = true := by
  unfold Die.pcRange at hrange
  unfold Die.covers at h ⊢
  cases hdie : sdGetHighAndLowPc die with
  | noEntry => rw [hdie] at h; cases h
  | error => rw [hdie] at h; cases h
  | ok range =>
      rw [hdie] at h hrange
      cases he : sdGetHighAndLowPc e with
      | noEntry => rw [he] at hrange; cases hrange
      | error => rw [he] at hrange; cases hrange
      | ok range' =>
          rw [he] at hrange
          rw [Option.some.inj hrange]
          exact h

/-- Offsets tell a DIE from those in front of it. -/
theorem offset_ne_of_before {dies before after : List Die} (horder : dies = before ++ die :: after)
    (hoffsets : (dies.map Die.offset).Nodup) (he : e ∈ before) : e.offset ≠ die.offset := by
  rw [horder, List.map_append, List.map_cons, List.nodup_append] at hoffsets
  exact hoffsets.2.2 _ (List.mem_map_of_mem he) _ List.mem_cons_self

end Spray
