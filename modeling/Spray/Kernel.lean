/-
A kernel that may answer anything.

The state of the tracee is the list of the requests that have been made, each with what came of
it, and what comes of the next one is any function of that list.  Whatever a process does under
a debugger, and whichever requests fail, is such a function.
-/
import Spray.Prompt

namespace Spray

inductive Request
  | peekData (addr : Word) (read : Option Word)
  | pokeData (addr write : Word) (done : Bool)
  | getRegs (read : Option Regs)
  | setRegs (write : Regs) (done : Bool)
  | cont (errno : Option Errno)
  | singleStep (done : Bool)
  | getSigInfo (info : Option SigInfo)
  | waitpid (outcome : WaitOutcome)

/-- The oldest request comes first. -/
abbrev Requests := List Request

/-- What comes of a request after those that have been made. -/
structure Kernel where
  peekData : (addr : Word) → Requests → Option Word
  pokeData : (addr write : Word) → Requests → Bool
  getRegs : Requests → Option Regs
  setRegs : (write : Regs) → Requests → Bool
  cont : Requests → Option Errno
  singleStep : Requests → Bool
  getSigInfo : Requests → Option SigInfo
  waitpid : Requests → WaitOutcome

/-- Answer a request, and remember it. -/
def Requests.answer {α : Type} (request : α → Request) (comes : Requests → α)
    (requests : Requests) : α × Requests :=
  (comes requests, requests ++ [request (comes requests)])

def Kernel.ptrace (kernel : Kernel) : Ptrace Requests where
  peekData addr := Requests.answer (.peekData addr) (kernel.peekData addr)
  pokeData addr write := Requests.answer (.pokeData addr write) (kernel.pokeData addr write)
  getRegs := Requests.answer .getRegs kernel.getRegs
  setRegs write := Requests.answer (.setRegs write) (kernel.setRegs write)
  cont := Requests.answer .cont kernel.cont
  singleStep := Requests.answer .singleStep kernel.singleStep
  getSigInfo := Requests.answer .getSigInfo kernel.getSigInfo
  waitpid := Requests.answer .waitpid kernel.waitpid

/-- The debugger before its first request. -/
def Debugger.unasked (loadAddress : RealAddr) : Debugger Requests where
  breakpoints := initBreakpoints
  tracee := []
  loadAddress
  output := []

/-- The requests made for the lines that are typed. -/
def requestsOf (env : Env Requests) (lineEntryAt : String → Nat → LineEntry) (fuel : Nat)
    (loadAddress : RealAddr) (lines : List String) : Requests :=
  (finalState (runPrompt env lineEntryAt fuel lines) (.unasked loadAddress)).tracee

end Spray
