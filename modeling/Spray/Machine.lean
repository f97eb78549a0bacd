/-
A single-threaded tracee that executes instructions.

`Program` says what its code is and what the processor makes of it: the instruction at
the program counter is decoded from the bytes there, runs on the registers and on memory
other than the code, and leaves the code alone.  `Program.ptrace` is such a tracee under
a debugger.  A trap byte in place of an instruction stops it one byte further on; the log
keeps every state in which an instruction was completed.
-/
import Spray.Ptrace

namespace Spray

/-- Registers, memory, and everything else an instruction can act on. -/
structure Cpu (X : Type) where
  regs : Regs
  mem : Memory 64
  ext : X

variable {X : Type}

def Cpu.pc (c : Cpu X) : Word := c.regs .rip

def Cpu.setPc (c : Cpu X) (pc : Word) : Cpu X := { c with regs := Function.update c.regs .rip pc }

/-- Equal in all but the bytes of the code. -/
structure SameData (code : Word → Prop) (c c' : Cpu X) : Prop where
  regs : c.regs = c'.regs
  ext : c.ext = c'.ext
  mem : ∀ a, ¬ code a → c.mem a = c'.mem a

/-- Both processors complete the instruction alike, or both exit with the same code. -/
def SameOutcome (code : Word → Prop) : Except Nat (Cpu X) → Except Nat (Cpu X) → Prop
  | .ok c, .ok c' => SameData code c c'
  | .error e, .error e' => e = e'
  | _, _ => False

/-- A program, as its executable file has it, and the processor it runs on. -/
structure Program (X : Type) where
  code : Word → Prop
  image : Word → Byte
  /-- Where the instructions of the program start. -/
  boundary : Word → Prop
  len : Word → Nat
  /-- Execute the instruction at the program counter, or exit with a code. -/
  step : Cpu X → Except Nat (Cpu X)
  len_pos : ∀ a, boundary a → 0 < len a
  in_code : ∀ a i, boundary a → i < len a → code (a + BitVec.ofNat 64 i)
  /-- No instruction starts inside of another one. -/
  apart : ∀ a i, boundary a → i < len a → boundary (a + BitVec.ofNat 64 i) → i = 0
  /-- The program's own code contains no trap. -/
  no_trap : ∀ a, boundary a → image a ≠ int3
  /-- An instruction does not write the code. -/
  keeps_code : ∀ c c' a, step c = .ok c' → code a → c'.mem a = c.mem a
  /-- It reads the code only to decode itself. -/
  reads_itself : ∀ c c', boundary c.pc → SameData code c c' →
    (∀ i < len c.pc, c.mem (c.pc + BitVec.ofNat 64 i) = c'.mem (c.pc + BitVec.ofNat 64 i)) →
    SameOutcome code (step c) (step c')
  /-- Running the program's own code leads from instruction to instruction. -/
  flows : ∀ c c', boundary c.pc → (∀ a, code a → c.mem a = image a) → step c = .ok c' →
    boundary c'.pc

/-- The state after `n` instructions, without a debugger. -/
def Program.native (p : Program X) (c : Cpu X) : Nat → Option (Cpu X)
  | 0 => some c
  | n + 1 => (p.native c n).bind fun c => (p.step c).toOption

/-- The codes a stop is reported with: one for an executed trap, one for a completed step. -/
structure StopCodes where
  trap : SiCode
  step : SiCode
  trap_code : trap = .SI_KERNEL ∨ trap = .TRAP_BRKPT
  step_code : step ≠ .SI_KERNEL ∧ step ≠ .TRAP_BRKPT

inductive RunState
  /-- Stopped by a `SIGTRAP` with this code. -/
  | stopped (code : SiCode)
  | stepping
  | continuing
  | exited
  deriving DecidableEq, Repr

structure Machine (X : Type) where
  cpu : Cpu X
  state : RunState
  /-- The states in which instructions were completed, oldest first. -/
  log : List (Cpu X)

/-- Is the tracee in a stop, where requests can be made of it? -/
def Machine.isStopped (m : Machine X) : Bool :=
  match m.state with
  | .stopped _ => true
  | _ => false

namespace Program

variable (p : Program X) (codes : StopCodes)

/-- Execute one instruction of a machine that is not stopped. -/
def exec (m : Machine X) : Machine X :=
  if m.cpu.mem m.cpu.pc = int3 then
    { m with cpu := m.cpu.setPc (m.cpu.pc + 1), state := .stopped codes.trap }
  else
    match p.step m.cpu with
    | .ok c => { m with cpu := c, log := m.log ++ [c] }
    | .error _ => { m with state := .exited }

/-- The exit code of the instruction at the program counter, if it exits. -/
def exitCode (m : Machine X) : Nat :=
  match p.step m.cpu with
  | .ok _ => 0
  | .error code => code

/-- Wait for a machine that has been continued, while it executes `limit` instructions. -/
def runToStop : (limit : Nat) → Machine X → WaitOutcome × Machine X
  | 0, m => (.blocked, m)
  | limit + 1, m =>
    let next := p.exec codes m
    match next.state with
    | .stopped _ => (.status (.stopped .SIGTRAP), next)
    | .exited => (.status (.exited (p.exitCode m)), next)
    | _ => runToStop limit next

/-- Wait for a machine that executes a single instruction. -/
def runStep (m : Machine X) : WaitOutcome × Machine X :=
  let next := p.exec codes m
  match next.state with
  | .stopped _ => (.status (.stopped .SIGTRAP), next)
  | .exited => (.status (.exited (p.exitCode m)), next)
  | _ => (.status (.stopped .SIGTRAP), { next with state := .stopped codes.step })

/-- The machine under a debugger that waits for `limit` instructions at most. -/
def ptrace (limit : Nat) : Ptrace (Machine X) where
  peekData a m := (if m.isStopped then some (Memory.readWord m.cpu.mem a 8) else none, m)
  pokeData a x m :=
    if m.isStopped then
      (true, { m with cpu := { m.cpu with mem := Memory.writeWord (k := 8) m.cpu.mem a x } })
    else (false, m)
  getRegs m := (if m.isStopped then some m.cpu.regs else none, m)
  setRegs regs m :=
    if m.isStopped then (true, { m with cpu := { m.cpu with regs } }) else (false, m)
  cont m := if m.isStopped then (none, { m with state := .continuing }) else (some .ESRCH, m)
  singleStep m := if m.isStopped then (true, { m with state := .stepping }) else (false, m)
  getSigInfo m :=
    match m.state with
    | .stopped code => (some ⟨.SIGTRAP, code⟩, m)
    | _ => (none, m)
  waitpid m :=
    match m.state with
    | .stopped _ => (.blocked, m)
    | .stepping => p.runStep codes m
    | .continuing => p.runToStop codes limit m
    | .exited => (.failed, m)

end Program

end Spray
