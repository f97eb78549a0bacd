/-
The state a debugger command runs in, and the ways it can end.

`DbgM` is a computation over the debugger's state that returns, or stops with a `Halt`:
it waits for a tracee that never stops, an assertion fails, or it reads a wait status
`waitpid` has not written.  Loops the source does not bound run on fuel and stop with
`outOfFuel` when it is used up.
-/
import Spray.Breakpoints
import Spray.Info

namespace Spray

/-- Filters for printing a value (`PrintFilter`). -/
inductive PrintFilter
  | NONE | HEX | BITS | ADDR | DEC | BYTES
  /-- Interpret the value as an address and print what is stored there. -/
  | DEREF
  deriving DecidableEq, Repr

/-- What was printed, and whether it confirms a write (`PrintValueInfo`). -/
inductive PrintValueInfo
  | memRead
  | memReadConfirm
  | regRead (reg : X86Reg)
  | regReadConfirm (reg : X86Reg)
  | varRead (var : RuntimeVariable)
  | varReadConfirm (var : RuntimeVariable)
  deriving DecidableEq, Repr

structure CallLocation where
  pc : DbgAddr
  framePointer : RealAddr
  lineno : Option Nat
  function : Option String
  deriving DecidableEq, Repr

/-- The messages the debugger prints. -/
inductive Message
  | hitBreakpoint (addr : RealAddr) (filepath : String)
  | sourceLines (filepath : String) (line context : Nat)
  | sourceUnreadable (filepath : String)
  | noSourceInfo (pc : DbgAddr)
  | processDead
  | childExited (code : Nat)
  | childTerminated (sig : Signal)
  | childResumed
  | segmentationFault (reason : SiCode)
  | childStopped (sig : Signal)
  | invalidWaitStatus (status : Int)
  | currentLineUnknown
  | nextLineUnknown
  | currentFunctionUnknown
  | scopeBreakpointsFailed
  | value (value : Word) (filter : PrintFilter) (info : PrintValueInfo)
  | deref (value addr : Word) (info : PrintValueInfo)
  | derefFailed (addr : Word)
  | memoryReadFailed (addr : RealAddr)
  | memoryWriteFailed (addr : RealAddr)
  | memoryConfirmFailed (addr : RealAddr)
  | registerReadFailed (reg : X86Reg)
  | registerWriteFailed (reg : X86Reg)
  | registerConfirmFailed (reg : X86Reg)
  | variableNotFound (name : String)
  | variableReadFailed (name : String)
  | variableWriteFailed (name : String)
  | variableConfirmFailed (name : String)
  | noFramePointer
  | backtrace (frames : List CallLocation)
  | backtraceFailed
  | replErr (msg : String)
  | replWarn (msg : String)
  | replHint (msg : String)
  deriving DecidableEq, Repr

/-- The part of `Debugger` that commands change, and what they have printed so far. -/
structure Debugger (W : Type) extends Store W where
  /-- Set for position independent executables, 0 otherwise. -/
  loadAddress : RealAddr
  output : List Message

/-- Why a command did not return. -/
inductive Halt
  | blocked
  | outOfFuel
  | aborted
  | undefined
  deriving DecidableEq, Repr

abbrev DbgM (W : Type) := EStateM Halt (Debugger W)

/-- What the debugger runs on: the kernel, the executable's debug information, the source
printer, and the evaluation of a variable's location, which reads the tracee. -/
structure Env (W : Type) where
  pt : Ptrace W
  info : DebugInfo
  printSource : String → Nat → Nat → SprayResult
  initVar : DbgAddr → RealAddr → String → W → Option RuntimeVariable × W

variable {W α : Type}

/-- Debugging an executable without symbols, line table or variables. -/
def strippedEnv (pt : Ptrace W) : Env W where
  pt
  info :=
    { elf := ⟨.EXEC, []⟩
      dbg := ⟨fun _ => none, fun _ => {}, fun _ _ => [], fun _ _ => none⟩ }
  printSource _ _ _ := .err
  initVar _ _ _ w := (none, w)

/-- The state a computation ends in, whether it returns or stops. -/
def finalState (x : DbgM W α) (d : Debugger W) : Debugger W :=
  match x d with
  | .ok _ d' => d'
  | .error _ d' => d'

/-- The value a computation returns, if it does. -/
def returned (x : DbgM W α) (d : Debugger W) : Option α :=
  match x d with
  | .ok a _ => some a
  | .error _ _ => none

theorem eq_ok_of_returned {x : DbgM W α} {d : Debugger W} {a : α} (h : returned x d = some a) :
    x d = .ok a (finalState x d) := by
  unfold returned at h
  unfold finalState
  cases hr : x d with
  | ok b d' =>
      rw [hr] at h
      cases h
      rfl
  | error e d' => rw [hr] at h; cases h

/-- Make a request of the tracee. -/
def request (f : W → α × W) : DbgM W α := fun d =>
  .ok (f d.tracee).1 { d with tracee := (f d.tracee).2 }

/-- Use the breakpoints. -/
def onStore (f : Store W → α × Store W) : DbgM W α := fun d =>
  .ok (f d.toStore).1 { d with toStore := (f d.toStore).2 }

def say (msg : Message) : DbgM W Unit := fun d => .ok () { d with output := d.output ++ [msg] }

/-- `waitpid`, read as a wait status. -/
def awaitStatus (pt : Ptrace W) : DbgM W WaitStatus := fun d =>
  match pt.waitpid d.tracee with
  | (.status st, w) => .ok st { d with tracee := w }
  | (.failed, w) => .error .undefined { d with tracee := w }
  | (.blocked, w) => .error .blocked { d with tracee := w }

end Spray
