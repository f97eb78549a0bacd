/-
Stepping to another source line.

The loop of the line step compares line numbers.  What it is meant to find is another line
of any file, so both are said of what the debug information tells of each position of the
run.  The two differ at an instruction of another file that has the same line number.
-/
import Spray.Proofs.SingleStep

namespace Spray

open Triple

/-- What the debug information tells of an instruction. -/
structure SourceLine where
  file : Option String
  line : Nat
  isExact : Bool
  deriving DecidableEq, Repr

def sourceOf (info : DebugInfo) (loadAddress pc : RealAddr) : Option SourceLine :=
  let addr := realToDbg loadAddress pc
  (addrPosition addr info).map fun pos => ⟨addrFilepath addr info, pos.line, pos.isExact⟩

/-- What it tells of each position of a run. -/
def Run.source (run : Run) (info : DebugInfo) (loadAddress : RealAddr) (j : Nat) :
    Option SourceLine := (run.pc j).bind fun pc => sourceOf info loadAddress ⟨pc⟩

section Lines

variable (source : Nat → Option SourceLine) (start : SourceLine)

end Lines

/-- Each signal comes after the single step it might disturb. -/
def LateSignals (ws : List (Option Nat)) : Prop := ∀ n, some n ∈ ws → 1 < n

variable {run : Run} {user : RealAddr → Bool} {limit fuel left p : Nat} {env : Env Runner}
  {info : SigInfo} {ws : List (Option Nat)} {d : Debugger Runner} {R : List (Memory 64) → Prop}
  {loadAddress : RealAddr} {start : SourceLine}

theorem LateSignals.head (h : LateSignals ws) {n : Nat} (hn : ws.head?.join = some n) : 1 < n := by
  cases ws with
  | nil => cases hn
  | cons w ws =>
      obtain rfl : w = some n := hn
      exact h n List.mem_cons_self

theorem LateSignals.tail (h : LateSignals ws) : LateSignals ws.tail :=
  fun n hn => h n (List.mem_of_mem_tail hn)

/-! ### The load address -/

/-- The position in the source that the loop has looked up at position `p` of the run. -/
def LookedUp (run : Run) (info : DebugInfo) (loadAddress : RealAddr) (p : Nat) (pos : Position) :
    Prop :=
  ∃ pc, run.pc p = some pc ∧ addrPosition (realToDbg loadAddress ⟨pc⟩) info = some pos

variable {pos : Position} {info' : DebugInfo} {initLine : Nat}

theorem Run.source_eq {a : Word} (h : run.pc p = some a) :
    run.source info' loadAddress p =
      (addrPosition (realToDbg loadAddress ⟨a⟩) info').map fun pos =>
        ⟨addrFilepath (realToDbg loadAddress ⟨a⟩) info', pos.line, pos.isExact⟩ := by
  rw [Run.source, h]
  rfl

theorem LookedUp.pc_ne_none (h : LookedUp run info' loadAddress p pos) : run.pc p ≠ none := by
  obtain ⟨pc, hpc, -⟩ := h
  rw [hpc]
  exact Option.some_ne_none pc

theorem LookedUp.source (h : LookedUp run info' loadAddress p pos) :
    ∃ s, run.source info' loadAddress p = some s ∧ s.line = pos.line ∧ s.isExact = pos.isExact := by
  obtain ⟨pc, hpc, hpos⟩ := h
  refine ⟨⟨addrFilepath (realToDbg loadAddress ⟨pc⟩) info', pos.line, pos.isExact⟩, ?_, rfl, rfl⟩
  rw [Run.source_eq hpc, hpos, Option.map_some]

/-- The loop takes another step. -/
def Position.stays (pos : Position) (initLine : Nat) : Bool :=
  !pos.isExact || pos.line = initLine

end Spray
