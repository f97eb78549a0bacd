/-
The debugger (`src/debugger.c`): stepping, breakpoint logic and the commands.

`continue_execution`, `single_step_breakpoint` and `wait_for_signal` call each other.
The first two are written over the `wait` they end up in, and `waitForSignal` closes the
cycle; each `SIGWINCH` it swallows uses up one unit of its fuel.
-/
import Spray.Monad

namespace Spray

variable {W : Type} (env : Env W)

/-! ### PC and address utilities -/

/-- Get the program counter. -/
def getPc : DbgM W RealAddr := do
  match ← request (getRegisterValue env.pt .rip) with
  | some store => return ⟨store⟩
  | none => return ⟨0⟩

/-- Get the program counter without the offset added to it in a position independent
executable. -/
def getDbgPc : DbgM W DbgAddr := do
  let realPc ← getPc env
  return realToDbg (← get).loadAddress realPc

/-- Set the program counter. -/
def setPc (pc : RealAddr) : DbgM W Unit := do
  let _ ← request (setRegisterValue env.pt .rip pc.value)

def isUserBreakpoint : DbgM W Bool := do
  let pc ← getPc env
  return lookupBreakpoint (← get).breakpoints pc

def printCurrentSource : DbgM W Unit := do
  let pc ← getDbgPc env
  let sym := symByAddr pc env.info
  match sym.bind (symPosition · env.info), sym.bind (symFilepath · env.info) with
  | some pos, some filepath => do
    if ← isUserBreakpoint env then
      say (.hitBreakpoint (← getPc env) filepath)
    match env.printSource filepath pos.line 3 with
    | .ok => say (.sourceLines filepath pos.line 3)
    | .err => say (.sourceUnreadable filepath)
  | _, _ => say (.noSourceInfo pc)

/-! ### Stepping and breakpoint logic -/

/-- Execute the instruction at the breakpoint's location and stop the tracee again. -/
def singleStepBreakpoint (wait : DbgM W SprayResult) : DbgM W SprayResult := do
  let pcAddress ← getPc env
  if lookupBreakpoint (← get).breakpoints pcAddress then
    let _ ← onStore (disableBreakpoint env.pt pcAddress)
    let _ ← request (ptSingleStep env.pt)
    let res ← wait
    let _ ← onStore (enableBreakpoint env.pt pcAddress)
    return res
  else return .ok

/-- Continue execution of the child process.  If the PC is currently hung up on a
breakpoint then that breakpoint is stepped over. -/
def continueExecution (wait : DbgM W SprayResult) : DbgM W SprayResult := do
  let _ ← singleStepBreakpoint env wait
  match ← request (ptContinueExecution env.pt) with
  | some .ESRCH => do
    say .processDead
    return .err
  | _ => return .ok

def handleSigtrap (siginfo : SigInfo) : DbgM W Unit := do
  -- Did the tracee hit a breakpoint?
  if siginfo.code = .SI_KERNEL ∨ siginfo.code = .TRAP_BRKPT then
    let pc ← getPc env
    setPc env ⟨pc.value - 1⟩

def waitForSignal : Nat → DbgM W SprayResult
  | 0 => throw .outOfFuel
  | fuel + 1 => do
    match ← awaitStatus env.pt with
    | .exited code => do
      say (.childExited code)
      return .err
    | .signaled sig => do
      say (.childTerminated sig)
      return .err
    | .continued => do
      say .childResumed
      return .ok
    | .stopped sig => do
      let siginfo := (← request (ptGetSignalInfo env.pt)).getD .zero
      match siginfo.signo with
      | .SIGSEGV => do
        say (.segmentationFault siginfo.code)
        return .ok
      | .SIGTRAP => do
        handleSigtrap env siginfo
        return .ok
      -- Ignore changes in window size by telling the tracee to continue.
      | .SIGWINCH => do
        let _ ← continueExecution env (waitForSignal fuel)
        waitForSignal fuel
      | .other _ => do
        say (.childStopped sig)
        return .ok
    | .invalid status => do
      say (.invalidWaitStatus status)
      return .err

def singleStepInstruction (fuel : Nat) : DbgM W SprayResult := do
  let pc ← getPc env
  if lookupBreakpoint (← get).breakpoints pc then
    let _ ← singleStepBreakpoint env (waitForSignal env fuel)
    return .ok
  else
    let _ ← request (ptSingleStep env.pt)
    waitForSignal env fuel

/-- Set a breakpoint on the current return address.  Returns that address, and whether
the breakpoint must be removed again after use. -/
def setReturnAddressBreakpoint : DbgM W (Bool × RealAddr) := do
  match ← request (getRegisterValue env.pt .rbp) with
  | none => throw .aborted
  | some framePointer => do
    -- The return address is stored 8 bytes after the start of the stack frame.
    let read ← request (ptReadMemory env.pt ⟨framePointer + 8⟩)
    let returnAddress : RealAddr := ⟨read.getD 0⟩
    if lookupBreakpoint (← get).breakpoints returnAddress then
      return (false, returnAddress)
    else
      let _ ← onStore (enableBreakpoint env.pt returnAddress)
      return (true, returnAddress)

/-- Take a breakpoint that was set for the time of one command out again. -/
def removeInternalBreakpoint (remove : Bool) (addr : RealAddr) : DbgM W Unit := do
  if remove then
    let _ ← onStore (disableBreakpoint env.pt addr)

/-- Step outside of the current function. -/
def stepOut (fuel : Nat) : DbgM W SprayResult := do
  let (removeInternal, returnAddress) ← setReturnAddressBreakpoint env
  let _ ← continueExecution env (waitForSignal env fuel)
  let res ← waitForSignal env fuel
  removeInternalBreakpoint env removeInternal returnAddress
  return res

/-- The loop of `singleStepLine`, which may still step `left` instructions. -/
def singleStepLineLoop (fuel initLine : Nat) : (left : Nat) → Position → DbgM W SprayResult
  -- The limit is checked before the position the last step led to.
  | 0, _ => do
    say .nextLineUnknown
    return .err
  | left + 1, pos => do
    if !pos.isExact || pos.line = initLine then
      match ← singleStepInstruction env fuel with
      | .err => return .err
      | .ok => do
        match addrPosition (← getDbgPc env) env.info with
        | none => do
          say .nextLineUnknown
          return .err
        | some pos => singleStepLineLoop fuel initLine left pos
    else return .ok

/-- Single step instructions until the line number has changed. -/
def singleStepLine (fuel : Nat) : DbgM W SprayResult := do
  match addrPosition (← getDbgPc env) env.info with
  | none => do
    say .currentLineUnknown
    return .err
  | some pos => singleStepLineLoop env fuel pos.line singleStepSearchLimit pos

/-- Set a breakpoint on a line that does not have one and remember to delete it. -/
def callbackSetDwarfLineBreakpoint (loadAddress : RealAddr) (skipLine : Nat)
    (toDel : List RealAddr) (line : LineEntry) : DbgM W (List RealAddr) := do
  let realLineAddr : RealAddr := ⟨line.addr.value - loadAddress.value⟩
  if skipLine ≠ line.ln ∧ !lookupBreakpoint (← get).breakpoints realLineAddr then
    let _ ← onStore (enableBreakpoint env.pt realLineAddr)
    return toDel ++ [realLineAddr]
  else return toDel

/-- Set breakpoints on each line of the function except for the line `func` refers to.
Returns the addresses of the breakpoints that were set, or nothing on error. -/
def setStepOverBreakpoints (func : DebugSymbol) : DbgM W (Option (List RealAddr)) := do
  match symPosition func env.info, symFilepath func env.info with
  | some pos, some filepath => do
    let loadAddress := (← get).loadAddress
    let lines := env.info.dbg.sdForEachLine (symName func) filepath
    some <$> lines.foldlM (callbackSetDwarfLineBreakpoint env loadAddress pos.line) []
  | _, _ => return none

/-- Step to the next line.  Don't step into functions. -/
def stepOver (fuel : Nat) : DbgM W SprayResult := do
  match symByAddr (← getDbgPc env) env.info with
  | none => do
    say .currentFunctionUnknown
    return .err
  | some func => do
    match ← setStepOverBreakpoints env func with
    | none => do
      say .scopeBreakpointsFailed
      return .err
    | some toDel => do
      let (removeInternal, returnAddress) ← setReturnAddressBreakpoint env
      let _ ← continueExecution env (waitForSignal env fuel)
      let execRes ← waitForSignal env fuel
      toDel.forM fun addr => do
        let _ ← onStore (disableBreakpoint env.pt addr)
      removeInternalBreakpoint env removeInternal returnAddress
      return execRes

/-- The operations that run the tracee. -/
inductive SteppingOp
  | continueAndWait
  | singleStepInstruction
  | singleStepLine
  | stepOut
  | stepOver
  deriving DecidableEq, Repr

def SteppingOp.exec (fuel : Nat) : SteppingOp → DbgM W SprayResult
  | continueAndWait => do
    let _ ← continueExecution env (waitForSignal env fuel)
    waitForSignal env fuel
  | singleStepInstruction => Spray.singleStepInstruction env fuel
  | singleStepLine => Spray.singleStepLine env fuel
  | stepOut => Spray.stepOut env fuel
  | stepOver => Spray.stepOver env fuel

/-! ### Printing of command output -/

/-- Print the given value based on the filter. -/
def printFiltered (value : Word) (filter : PrintFilter) (info : PrintValueInfo) :
    DbgM W Unit := do
  match filter with
  | .DEREF => do
    let addr := match info with
      | .varRead var => maskVarValue var value
      | _ => value
    match ← request (ptReadMemory env.pt ⟨addr⟩) with
    | some deref => say (.deref deref addr info)
    | none => say (.derefFailed addr)
  | filter => say (.value value filter info)

def defaultFilter (current dflt : PrintFilter) : PrintFilter :=
  if current = .NONE then dflt else current

/-! ### Command execution -/

def execPrintMemory (addr : RealAddr) (filter : PrintFilter) : DbgM W Unit := do
  match ← request (ptReadMemory env.pt addr) with
  | some read => printFiltered env read (defaultFilter filter .BYTES) .memRead
  | none => say (.memoryReadFailed addr)

def execSetMemory (addr : RealAddr) (word : Word) (filter : PrintFilter) : DbgM W Unit := do
  match ← request (ptWriteMemory env.pt addr word) with
  | .err => say (.memoryWriteFailed addr)
  | .ok => do
    -- Print a readout of the write's result.
    match ← request (ptReadMemory env.pt addr) with
    | some stored => printFiltered env stored (defaultFilter filter .BYTES) .memReadConfirm
    | none => say (.memoryConfirmFailed addr)

def execPrintRegister (reg : X86Reg) (filter : PrintFilter) : DbgM W Unit := do
  match ← request (getRegisterValue env.pt reg) with
  | some regWord => printFiltered env regWord (defaultFilter filter .BYTES) (.regRead reg)
  | none => say (.registerReadFailed reg)

def execSetRegister (reg : X86Reg) (word : Word) (filter : PrintFilter) : DbgM W Unit := do
  -- A failed write is reported, but its readout is printed all the same.
  match ← request (setRegisterValue env.pt reg word) with
  | .err => say (.registerWriteFailed reg)
  | .ok => pure ()
  match ← request (getRegisterValue env.pt reg) with
  | some written => printFiltered env written (defaultFilter filter .BYTES) (.regReadConfirm reg)
  | none => say (.registerConfirmFailed reg)

/-- Look up a variable at the current PC (`init_var`). -/
def initVar (varName : String) : DbgM W (Option RuntimeVariable) := do
  let pc ← getDbgPc env
  request (env.initVar pc (← get).loadAddress varName)

/-- Read the word at a variable's location. -/
def readLocation : SdLocation → DbgM W (Option Word)
  | .addr addr => request (ptReadMemory env.pt addr)
  | .reg reg => request (getRegisterValue env.pt reg)

/-- Write the word at a variable's location. -/
def writeLocation (value : Word) : SdLocation → DbgM W SprayResult
  | .addr addr => request (ptWriteMemory env.pt addr value)
  | .reg reg => request (setRegisterValue env.pt reg value)

def execPrintVariable (varName : String) (filter : PrintFilter) : DbgM W Unit := do
  match ← initVar env varName with
  | none => say (.variableNotFound varName)
  | some var => do
    match ← readLocation env var.loc with
    | none => say (.variableReadFailed varName)
    | some value => printFiltered env value filter (.varRead var)

def execSetVariable (varName : String) (value : Word) (filter : PrintFilter) :
    DbgM W Unit := do
  match ← initVar env varName with
  | none => say (.variableNotFound varName)
  | some var => do
    match ← writeLocation env value var.loc with
    | .err => say (.variableWriteFailed varName)
    | .ok => do
      match ← readLocation env var.loc with
      | none => say (.variableConfirmFailed varName)
      -- The value read back is not the one that is printed.
      | some _ => printFiltered env value filter (.varReadConfirm var)

def execBreak (addr : RealAddr) : DbgM W Unit := do
  let _ ← onStore (enableBreakpoint env.pt addr)

def execDelete (addr : RealAddr) : DbgM W Unit := do
  let _ ← onStore (disableBreakpoint env.pt addr)

/-- Continue the tracee and wait until it receives the next signal. -/
def execContinue (fuel : Nat) : DbgM W Unit := do
  if (← continueExecution env (waitForSignal env fuel)) = .ok then
    if (← waitForSignal env fuel) = .ok then
      printCurrentSource env

def execInst (fuel : Nat) : DbgM W Unit := do
  if (← singleStepInstruction env fuel) = .ok then printCurrentSource env

def execLeave (fuel : Nat) : DbgM W Unit := do
  if (← stepOut env fuel) = .ok then printCurrentSource env

def execStep (fuel : Nat) : DbgM W Unit := do
  if (← singleStepLine env fuel) = .ok then printCurrentSource env

def execNext (fuel : Nat) : DbgM W Unit := do
  if (← stepOver env fuel) = .ok then printCurrentSource env

end Spray
