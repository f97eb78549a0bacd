/-
Backtraces by frame pointer (`src/backtrace.c`).

A naive approach: it follows the chain of saved frame pointers until one is 0.  Nothing
bounds that chain, so the loop runs on fuel.
-/
import Spray.Monad

namespace Spray

variable {W : Type} (env : Env W)

/-- `push %rbp; mov %rsp,%rbp`, the first byte least significant. -/
def storeFramePointerCode : Word := 0xe5894855

def initCallFrame (pc : DbgAddr) (framePointer : RealAddr) : CallLocation :=
  let funcSym := symByAddr pc env.info
  { pc, framePointer
    lineno := (funcSym.bind (symPosition · env.info)).map (·.line)
    function := funcSym.map symName }

/-- Does the function that contains the PC start by storing the frame pointer? -/
def storesFramePointer (pc : DbgAddr) : DbgM W Bool := do
  match symByAddr pc env.info with
  | none => return false
  | some func => do
    let funcStartAddr := dbgToReal (← get).loadAddress (symStartAddr func)
    match ← request (ptReadMemory env.pt funcStartAddr) with
    | none => return false
    | some instBytes => return instBytes &&& 0xffffffff = storeFramePointerCode

/-- Collect the frames from `framePointer` outwards on top of those found so far. -/
def initBacktraceLoop : (fuel : Nat) → RealAddr → List CallLocation →
    DbgM W (Option (List CallLocation))
  | 0, _, _ => throw .outOfFuel
  | fuel + 1, framePointer, frames => do
    if framePointer.value = 0 then return some frames
    else
      -- The return address must be read before the frame pointer is updated.
      match ← request (ptReadMemory env.pt ⟨framePointer.value + 8⟩) with
      | none => return none
      | some pc => do
        match ← request (ptReadMemory env.pt framePointer) with
        | none => return none
        | some callerFramePointer =>
          initBacktraceLoop fuel ⟨callerFramePointer⟩
            (initCallFrame env ⟨pc⟩ ⟨callerFramePointer⟩ :: frames)

def initBacktrace (fuel : Nat) (pc : DbgAddr) : DbgM W (Option (List CallLocation)) := do
  match ← request (getRegisterValue env.pt .rbp) with
  | none => return none
  | some framePointer => do
    if !(← storesFramePointer env pc) then
      say .noFramePointer
    initBacktraceLoop env fuel ⟨framePointer⟩ [initCallFrame env pc ⟨framePointer⟩]

end Spray
