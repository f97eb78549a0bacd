/-
A tracee that follows a run laid down in advance, with signals coming in between.

The run says which instruction is executed at each position and what it does to memory
outside of the code.  The tracee follows it unless a trap byte stands in for the next
instruction.  A schedule says after how many instructions, counted from each resumption,
the window is resized: a `SIGWINCH` then stops the tracee before it executes the next one.
-/
import Spray.Breakpoints

namespace Spray

structure Run where
  /-- The program counter at each position, until the process ends. -/
  pc : Nat → Option Word
  /-- What the instruction at a position does to memory. -/
  effect : Nat → Memory 64 → Memory 64
  /-- The registers at each position, other than the program counter. -/
  regs : Nat → Regs := fun _ _ => 0
  code : Word → Prop
  image : Word → Byte
  in_code : ∀ n a, pc n = some a → code a
  keeps_code : ∀ n m a, code a → effect n m a = m a
  /-- The program's own code contains no trap. -/
  no_trap : ∀ n a, pc n = some a → image a ≠ int3

inductive RunnerState
  | stopped (info : SigInfo)
  | stepping
  | continuing
  | exited
  deriving DecidableEq, Repr

structure Runner where
  /-- How many instructions have been executed. -/
  pos : Nat
  /-- The program counter, which the debugger may write. -/
  pc : Word
  mem : Memory 64
  state : RunnerState
  /-- For each resumption to come, after how many instructions a `SIGWINCH` arrives. -/
  winch : List (Option Nat)
  /-- Memory at each `PTRACE_CONT` so far. -/
  conts : List (Memory 64)

def Runner.isStopped (t : Runner) : Bool :=
  match t.state with
  | .stopped _ => true
  | _ => false

def Runner.stop (t : Runner) (sig : Signal) (code : SiCode) : Runner :=
  { t with state := .stopped ⟨sig, code⟩ }

namespace Run

variable (run : Run)

/-- Execute one instruction.  From anywhere but its place in the run, the process crashes. -/
def exec (t : Runner) : Runner :=
  if run.pc t.pos ≠ some t.pc then { t with state := .exited }
  else if t.mem t.pc = int3 then { t with pc := t.pc + 1 }.stop .SIGTRAP .SI_KERNEL
  else
    let next := { t with pos := t.pos + 1, mem := run.effect t.pos t.mem }
    match run.pc (t.pos + 1) with
    | some pc => { next with pc }
    | none => { next with state := .exited }

/-- Wait for a tracee that has been continued, while it executes `limit` instructions; a
`SIGWINCH` arrives after `winch` of them. -/
def runToStop : (limit : Nat) → (winch : Option Nat) → Runner → WaitOutcome × Runner
  | 0, _, t => (.blocked, t)
  | limit + 1, winch, t =>
    if winch = some 0 then (.status (.stopped .SIGWINCH), t.stop .SIGWINCH .SI_KERNEL)
    else
      let next := run.exec t
      match next.state with
      | .stopped _ => (.status (.stopped .SIGTRAP), next)
      | .exited => (.status (.exited 0), next)
      | _ => runToStop limit (winch.map (· - 1)) next

/-- Wait for a tracee that executes a single instruction.  A `SIGWINCH` may arrive before
the instruction, or be reported in place of its completion. -/
def runStep (winch : Option Nat) (t : Runner) : WaitOutcome × Runner :=
  if winch = some 0 then (.status (.stopped .SIGWINCH), t.stop .SIGWINCH .SI_KERNEL)
  else
    let next := run.exec t
    match next.state with
    | .stopped _ => (.status (.stopped .SIGTRAP), next)
    | .exited => (.status (.exited 0), next)
    | _ =>
      if winch = some 1 then (.status (.stopped .SIGWINCH), next.stop .SIGWINCH .SI_KERNEL)
      else (.status (.stopped .SIGTRAP), next.stop .SIGTRAP .TRAP_TRACE)

/-- The tracee under a debugger that waits for `limit` instructions at most. -/
def ptrace (limit : Nat) : Ptrace Runner where
  peekData a t := (if t.isStopped then some (Memory.readWord t.mem a 8) else none, t)
  pokeData a x t :=
    if t.isStopped then (true, { t with mem := Memory.writeWord (k := 8) t.mem a x })
    else (false, t)
  getRegs t := (if t.isStopped then some (Function.update (run.regs t.pos) .rip t.pc) else none, t)
  setRegs regs t := if t.isStopped then (true, { t with pc := regs .rip }) else (false, t)
  cont t :=
    if t.isStopped then (none, { t with state := .continuing, conts := t.conts ++ [t.mem] })
    else (some .ESRCH, t)
  singleStep t := if t.isStopped then (true, { t with state := .stepping }) else (false, t)
  getSigInfo t :=
    match t.state with
    | .stopped info => (some info, t)
    | _ => (none, t)
  waitpid t :=
    let resumed := { t with winch := t.winch.tail }
    match t.state with
    | .stopped _ => (.blocked, t)
    | .stepping => run.runStep t.winch.head?.join resumed
    | .continuing => run.runToStop limit t.winch.head?.join resumed
    | .exited => (.failed, t)

end Run

end Spray
