/-
A tracee whose requests are put on record.

The requests are passed on as they are.  Beside the tracee there is a record, which is
added to as they are answered.  Two records are kept of an operation.  One is of the
single steps, of the waits with their outcomes, and of the signal information that tells
whether a stop was only a change in window size.  The other is of the addresses which the
tracee was stepped from.
-/
import Spray.Debugger

namespace Spray

/-- What is added to a record of type `S` as a request is answered. -/
structure Recorder (S : Type) where
  getRegs : Option Regs → S → S
  singleStep : S → S
  getSigInfo : Option SigInfo → S → S
  waitpid : WaitOutcome → S → S

/-- A tracee and what is on record of it. -/
structure Noted (W S : Type) where
  tracee : W
  record : S

variable {W S α : Type}

/-- Make a request that is not put on record. -/
def Noted.pass (f : W → α × W) (w : Noted W S) : α × Noted W S :=
  ((f w.tracee).1, { w with tracee := (f w.tracee).2 })

/-- Make a request and put it on record with its answer. -/
def Noted.note (add : α → S → S) (f : W → α × W) (w : Noted W S) : α × Noted W S :=
  ((f w.tracee).1, ⟨(f w.tracee).2, add (f w.tracee).1 w.record⟩)

def Ptrace.noted (recorder : Recorder S) (pt : Ptrace W) : Ptrace (Noted W S) where
  peekData a := Noted.pass (pt.peekData a)
  pokeData a x := Noted.pass (pt.pokeData a x)
  getRegs := Noted.note recorder.getRegs pt.getRegs
  setRegs regs := Noted.pass (pt.setRegs regs)
  cont := Noted.pass pt.cont
  singleStep := Noted.note (fun _ => recorder.singleStep) pt.singleStep
  getSigInfo := Noted.note recorder.getSigInfo pt.getSigInfo
  waitpid := Noted.note recorder.waitpid pt.waitpid

def Env.noted (recorder : Recorder S) (env : Env W) : Env (Noted W S) where
  pt := env.pt.noted recorder
  info := env.info
  printSource := env.printSource
  initVar pc loadAddress name := Noted.pass (env.initVar pc loadAddress name)

/-- A debugger that starts to be recorded. -/
def Debugger.noted (start : S) (d : Debugger W) : Debugger (Noted W S) :=
  { d with tracee := ⟨d.tracee, start⟩ }

/-- A debugger without its record. -/
def Debugger.erase (d : Debugger (Noted W S)) : Debugger W := { d with tracee := d.tracee.tracee }

/-! ### Steps and waits -/

inductive Event
  | stepped
  | waited (outcome : WaitOutcome)
  | told (info : SigInfo)
  deriving DecidableEq, Repr

abbrev Recorded (W : Type) := Noted W (List Event)

def eventRecorder : Recorder (List Event) where
  getRegs _ events := events
  singleStep events := events ++ [.stepped]
  getSigInfo info events := events ++ [.told (info.getD .zero)]
  waitpid outcome events := events ++ [.waited outcome]

abbrev Ptrace.recorded (pt : Ptrace W) : Ptrace (Recorded W) := pt.noted eventRecorder

abbrev Env.recorded (env : Env W) : Env (Recorded W) := env.noted eventRecorder

def Debugger.recorded (d : Debugger W) : Debugger (Recorded W) := d.noted []

def Debugger.events (d : Debugger (Recorded W)) : List Event := d.tracee.record

/-- What is on record once the operation is over. -/
def SteppingOp.trace (env : Env W) (fuel : Nat) (op : SteppingOp) (d : Debugger W) : List Event :=
  (finalState (op.exec env.recorded fuel) d.recorded).events

/-- The tracee has exited, or was killed by a signal. -/
def WaitOutcome.isDeath : WaitOutcome → Bool
  | .status (.exited _) => true
  | .status (.signaled _) => true
  | _ => false

/-- A single step is begun by its request, and completed by any report that is not about a
change in window size. -/
def Event.weight : Event → Int
  | stepped => 1
  | waited (.status (.stopped _)) => 0
  | waited _ => -1
  | told info => if info.signo = .SIGWINCH then 0 else -1

/-- How many single steps have been begun and not been completed. -/
def outstanding (events : List Event) : Int := (events.map Event.weight).sum

/-! ### Where steps start -/

/-- The PC as it was last read, and the ones the tracee was stepped from. -/
structure Steps where
  pc : RealAddr
  stepped : List RealAddr
  deriving DecidableEq, Repr

def Steps.zero : Steps := ⟨⟨0⟩, []⟩

/-- A PC that cannot be read is taken to be 0. -/
def stepRecorder : Recorder Steps where
  getRegs regs steps := { steps with pc := ⟨regs.elim 0 fun regs => regs .rip⟩ }
  singleStep steps := { steps with stepped := steps.stepped ++ [steps.pc] }
  getSigInfo _ steps := steps
  waitpid _ steps := steps

/-- The addresses that the operation steps the tracee from. -/
def SteppingOp.steppedFrom (env : Env W) (fuel : Nat) (op : SteppingOp) (d : Debugger W) :
    List RealAddr :=
  (finalState (op.exec (env.noted stepRecorder) fuel) (d.noted Steps.zero)).tracee.record.stepped

end Spray
