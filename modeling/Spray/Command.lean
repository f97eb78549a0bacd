/-
The commands of the prompt (`src/debugger.c`).

A `Command` is one that has been parsed: its locations are addresses, registers or
variable names, and its addresses are the ones `handle_debug_command_tokens` passes on.
-/
import Spray.Backtrace
import Spray.Debugger

namespace Spray

variable {W : Type} (env : Env W)

inductive Command
  | continue_
  | break_ (addr : RealAddr)
  | delete (addr : RealAddr)
  | printMemory (addr : RealAddr) (filter : PrintFilter)
  | printRegister (reg : X86Reg) (filter : PrintFilter)
  | printVariable (varName : String) (filter : PrintFilter)
  | setMemory (addr : RealAddr) (word : Word) (filter : PrintFilter)
  | setRegister (reg : X86Reg) (word : Word) (filter : PrintFilter)
  | setVariable (varName : String) (value : Word) (filter : PrintFilter)
  | inst
  | leave
  | step
  | next
  | backtrace
  deriving DecidableEq, Repr

def execBacktrace (fuel : Nat) : DbgM W Unit := do
  match ← initBacktrace env fuel (← getDbgPc env) with
  | none => say .backtraceFailed
  | some frames => say (.backtrace frames)

/-- Execute a command, with `fuel` for every wait in it. -/
def Command.exec (fuel : Nat) : Command → DbgM W Unit
  | continue_ => execContinue env fuel
  | break_ addr => execBreak env addr
  | delete addr => execDelete env addr
  | printMemory addr filter => execPrintMemory env addr filter
  | printRegister reg filter => execPrintRegister env reg filter
  | printVariable varName filter => execPrintVariable env varName filter
  | setMemory addr word filter => execSetMemory env addr word filter
  | setRegister reg word filter => execSetRegister env reg word filter
  | setVariable varName value filter => execSetVariable env varName value filter
  | inst => execInst env fuel
  | leave => execLeave env fuel
  | step => execStep env fuel
  | next => execNext env fuel
  | backtrace => execBacktrace env fuel

/-- Whether the last of `break a` and `delete a` is a `break`, if it `was` one so far. -/
def Command.breaks (a : RealAddr) (was : Bool) : Command → Bool
  | break_ addr => decide (a = addr) || was
  | delete addr => !decide (a = addr) && was
  | _ => was

def isBroken (commands : List Command) (a : RealAddr) : Bool :=
  commands.foldl (Command.breaks a) false

/-- Bring the tracee to the start of `main`.  Returns whether the prompt is reached. -/
def startDebugger (fuel : Nat) : DbgM W Bool := do
  match symByName "main" env.info with
  | none => return false
  | some main => do
    match functionStartAddr main env.info with
    | none => do
      printCurrentSource env
      return true
    | some startMain => do
      let addr := dbgToReal (← get).loadAddress startMain
      let _ ← onStore (enableBreakpoint env.pt addr)
      match ← continueExecution env (waitForSignal env fuel) with
      | .err => return false
      | .ok => do
        match ← waitForSignal env fuel with
        | .err => return false
        | .ok => do
          let _ ← onStore (disableBreakpoint env.pt addr)
          printCurrentSource env
          return true

end Spray
