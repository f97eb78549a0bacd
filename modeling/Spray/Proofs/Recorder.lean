/-
Recording changes nothing.

Whatever is put on record, every function does on a recorded tracee what it does on the
tracee itself.  And only the requests that are put on record add to it.
-/
import Spray.Lib.Trace
import Spray.Recorder

namespace Spray

open Triple

variable {W S α : Type} {recorder : Recorder S} {env : Env W} {fuel : Nat}

/-! ### Requests -/

/-- A request has the same answer, and leaves the tracee the same, whatever it adds to the
record. -/
theorem request_agrees {f' : Noted W S → α × Noted W S} {f : W → α × W}
    (h : ∀ w, f w.tracee = ((f' w).1, (f' w).2.tracee)) :
    Agrees Debugger.erase (request f') (request f) := by
  intro d
  unfold request Debugger.erase
  rw [h d.tracee]

/-- A register is read off the registers, which are put on record. -/
theorem getRegisterValue_noted (pt : Ptrace W) (reg : X86Reg) (w : Noted W S) :
    getRegisterValue (pt.noted recorder) reg w = ((getRegisterValue pt reg w.tracee).1,
      ⟨(getRegisterValue pt reg w.tracee).2,
        recorder.getRegs (pt.getRegs w.tracee).1 w.record⟩) := by
  have hread : ptReadRegisters (pt.noted recorder) w = ((pt.getRegs w.tracee).1,
      ⟨(pt.getRegs w.tracee).2, recorder.getRegs (pt.getRegs w.tracee).1 w.record⟩) := rfl
  unfold getRegisterValue
  rw [hread, ptReadRegisters]
  cases pt.getRegs w.tracee with
  | mk regs w' =>
      cases regs with
      | none => rfl
      | some regs => rfl

/-- A register is written among the others, which are read and put on record first. -/
theorem setRegisterValue_noted (pt : Ptrace W) (reg : X86Reg) (write : Word) (w : Noted W S) :
    setRegisterValue (pt.noted recorder) reg write w = ((setRegisterValue pt reg write w.tracee).1,
      ⟨(setRegisterValue pt reg write w.tracee).2,
        recorder.getRegs (pt.getRegs w.tracee).1 w.record⟩) := by
  have hread : ptReadRegisters (pt.noted recorder) w = ((pt.getRegs w.tracee).1,
      ⟨(pt.getRegs w.tracee).2, recorder.getRegs (pt.getRegs w.tracee).1 w.record⟩) := rfl
  unfold setRegisterValue
  rw [hread, ptReadRegisters]
  cases pt.getRegs w.tracee with
  | mk regs w' =>
      cases regs with
      | none => rfl
      | some regs => rfl

/-! ### Breakpoints -/

/-- The breakpoints and the tracee, without its record. -/
def Store.erase (s : Store (Noted W S)) : Store W := ⟨s.breakpoints, s.tracee.tracee⟩

/-- What is done to breakpoints is not put on record. -/
def Store.pass {β : Type} (f : Store W → β × Store W) (s : Store (Noted W S)) :
    β × Store (Noted W S) :=
  ((f s.erase).1, ⟨(f s.erase).2.breakpoints, { s.tracee with tracee := (f s.erase).2.tracee }⟩)

theorem ptReadMemory_noted (pt : Ptrace W) (addr : RealAddr) :
    ptReadMemory (pt.noted recorder) addr = Noted.pass (ptReadMemory pt addr) := rfl

theorem ptWriteMemory_noted (pt : Ptrace W) (addr : RealAddr) (write : Word) :
    ptWriteMemory (pt.noted recorder) addr write = Noted.pass (ptWriteMemory pt addr write) := rfl

/-- A breakpoint is enabled as if nothing were recorded. -/
theorem enableBreakpoint_noted (pt : Ptrace W) (addr : RealAddr) :
    enableBreakpoint (pt.noted recorder) addr = Store.pass (enableBreakpoint pt addr) := by
  funext s
  unfold enableBreakpoint Store.pass Store.erase
  dsimp only
  cases getOrCreateBreakpoint s.breakpoints addr with
  | mk toEnable b =>
      cases hen : toEnable.isEnabled with
      | true => simp
      | false =>
          simp only [Bool.not_false, if_true, ptReadMemory_noted, ptWriteMemory_noted,
            Noted.pass]
          cases ptReadMemory pt toEnable.addr s.tracee.tracee with
          | mk word w =>
              cases word with
              | none => rfl
              | some word =>
                  dsimp only
                  generalize ptWriteMemory pt toEnable.addr
                    ((word &&& ~~~btmByteMask) ||| int3.setWidth 64) w = r
                  obtain ⟨_ | _, w'⟩ := r
                  · rfl
                  · rfl

/-- A breakpoint is disabled as if nothing were recorded. -/
theorem disableBreakpoint_noted (pt : Ptrace W) (addr : RealAddr) :
    disableBreakpoint (pt.noted recorder) addr = Store.pass (disableBreakpoint pt addr) := by
  funext s
  unfold disableBreakpoint Store.pass Store.erase
  dsimp only
  cases getBreakpoint s.breakpoints addr with
  | none => rfl
  | some toDisable =>
      cases hen : toDisable.isEnabled with
      | false => simp [hen]
      | true =>
          simp only [hen, if_true, ptReadMemory_noted, ptWriteMemory_noted, Noted.pass]
          cases ptReadMemory pt toDisable.addr s.tracee.tracee with
          | mk word w =>
              cases word with
              | none => rfl
              | some word =>
                  dsimp only
                  generalize ptWriteMemory pt toDisable.addr
                    ((word &&& ~~~btmByteMask) ||| toDisable.origData.setWidth 64) w = r
                  obtain ⟨_ | _, w'⟩ := r
                  · rfl
                  · rfl

theorem onStore_pass_agrees {β : Type} (f : Store W → β × Store W) :
    Agrees Debugger.erase (onStore (Store.pass f) : DbgM (Noted W S) β) (onStore f) := fun _ => rfl

theorem enable_agrees (pt : Ptrace W) (addr : RealAddr) :
    Agrees Debugger.erase (onStore (enableBreakpoint (pt.noted recorder) addr))
      (onStore (enableBreakpoint pt addr)) := by
  rw [enableBreakpoint_noted]
  exact onStore_pass_agrees _

theorem disable_agrees (pt : Ptrace W) (addr : RealAddr) :
    Agrees Debugger.erase (onStore (disableBreakpoint (pt.noted recorder) addr))
      (onStore (disableBreakpoint pt addr)) := by
  rw [disableBreakpoint_noted]
  exact onStore_pass_agrees _

/-! ### Each function -/

theorem say_agrees (msg : Message) :
    Agrees Debugger.erase (say msg : DbgM (Noted W S) Unit) (say msg) := fun _ => rfl

theorem getRegister_agrees (reg : X86Reg) :
    Agrees Debugger.erase (request (getRegisterValue (env.noted recorder).pt reg))
      (request (getRegisterValue env.pt reg)) := by
  refine request_agrees fun w => ?_
  have hread : getRegisterValue (env.noted recorder).pt reg w = _ :=
    getRegisterValue_noted env.pt reg w
  exact Prod.ext (congrArg Prod.fst hread).symm
    (congrArg (fun r => r.2.tracee) hread).symm

theorem getPc_agrees : Agrees Debugger.erase (getPc (env.noted recorder)) (getPc env) := by
  refine (getRegister_agrees .rip).bind fun store => ?_
  cases store with
  | none => exact Agrees.pure _
  | some store => exact Agrees.pure _

theorem getDbgPc_agrees : Agrees Debugger.erase (getDbgPc (env.noted recorder)) (getDbgPc env) :=
  getPc_agrees.bind fun _ => Agrees.get_bind fun _ => Agrees.pure _

theorem setPc_agrees (pc : RealAddr) :
    Agrees Debugger.erase (setPc (env.noted recorder) pc) (setPc env pc) := by
  refine (request_agrees fun w => ?_).bind fun _ => Agrees.pure _
  have hwrite : setRegisterValue (env.noted recorder).pt .rip pc.value w = _ :=
    setRegisterValue_noted env.pt .rip pc.value w
  exact Prod.ext (congrArg Prod.fst hwrite).symm
    (congrArg (fun r => r.2.tracee) hwrite).symm

theorem singleStep_agrees :
    Agrees Debugger.erase (request (ptSingleStep (env.noted recorder).pt))
      (request (ptSingleStep env.pt)) := fun _ => rfl

theorem getSignalInfo_agrees :
    Agrees Debugger.erase (request (ptGetSignalInfo (env.noted recorder).pt))
      (request (ptGetSignalInfo env.pt)) := fun _ => rfl

theorem cont_agrees :
    Agrees Debugger.erase (request (ptContinueExecution (env.noted recorder).pt))
      (request (ptContinueExecution env.pt)) := fun _ => rfl

/-- A wait that does not return, or leaves the status unwritten, stops both runs. -/
theorem awaitStatus_agrees :
    Agrees Debugger.erase (awaitStatus (env.noted recorder).pt) (awaitStatus env.pt) := by
  intro d
  have hwait : (env.noted recorder).pt.waitpid d.tracee = ((env.pt.waitpid d.tracee.tracee).1,
      ⟨(env.pt.waitpid d.tracee.tracee).2,
        recorder.waitpid (env.pt.waitpid d.tracee.tracee).1 d.tracee.record⟩) := rfl
  unfold awaitStatus Debugger.erase
  rw [hwait]
  dsimp only
  cases env.pt.waitpid d.tracee.tracee with
  | mk outcome w =>
      cases outcome with
      | status st => rfl
      | failed => rfl
      | blocked => rfl

section Wait

variable {wait' : DbgM (Noted W S) SprayResult} {wait : DbgM W SprayResult}
  (hwait : Agrees Debugger.erase wait' wait)
include hwait

/-- What is stepped over is what is enabled, which recording does not change. -/
theorem singleStepBreakpoint_agrees :
    Agrees Debugger.erase (singleStepBreakpoint (env.noted recorder) wait')
      (singleStepBreakpoint env wait) := by
  refine getPc_agrees.bind fun pc => Agrees.get_bind fun d => Agrees.ite ?_ (Agrees.pure _)
  refine (disable_agrees env.pt pc).bind fun _ => singleStep_agrees.bind fun _ => ?_
  exact hwait.bind fun _ => (enable_agrees env.pt pc).bind fun _ => Agrees.pure _

theorem continueExecution_agrees :
    Agrees Debugger.erase (continueExecution (env.noted recorder) wait')
      (continueExecution env wait) := by
  refine (singleStepBreakpoint_agrees hwait).bind fun _ => cont_agrees.bind fun errno => ?_
  rcases errno with _ | _ | _
  · exact Agrees.pure _
  · exact (say_agrees _).bind fun _ => Agrees.pure _
  · exact Agrees.pure _

end Wait

theorem handleSigtrap_agrees (siginfo : SigInfo) :
    Agrees Debugger.erase (handleSigtrap (env.noted recorder) siginfo)
      (handleSigtrap env siginfo) :=
  Agrees.ite (getPc_agrees.bind fun _ => setPc_agrees _) (Agrees.pure _)

/-- The functions that a wait goes through call it again, so all of them agree by induction on
the signals that are swallowed. -/
theorem waitForSignal_agrees (fuel : Nat) :
    Agrees Debugger.erase (waitForSignal (env.noted recorder) fuel) (waitForSignal env fuel) := by
  induction fuel with
  | zero => exact Agrees.throw _
  | succ fuel ih =>
      refine awaitStatus_agrees.bind fun status => ?_
      cases status with
      | exited code => exact (say_agrees _).bind fun _ => Agrees.pure _
      | signaled sig => exact (say_agrees _).bind fun _ => Agrees.pure _
      | continued => exact (say_agrees _).bind fun _ => Agrees.pure _
      | invalid status => exact (say_agrees _).bind fun _ => Agrees.pure _
      | stopped sig =>
          refine getSignalInfo_agrees.bind fun info => ?_
          generalize info.getD .zero = siginfo
          obtain ⟨signo, code⟩ := siginfo
          cases signo with
          | SIGSEGV => exact (say_agrees _).bind fun _ => Agrees.pure _
          | SIGTRAP => exact (handleSigtrap_agrees _).bind fun _ => Agrees.pure _
          | SIGWINCH => exact (continueExecution_agrees ih).bind fun _ => ih
          | other signo => exact (say_agrees _).bind fun _ => Agrees.pure _

theorem singleStepInstruction_agrees (fuel : Nat) :
    Agrees Debugger.erase (singleStepInstruction (env.noted recorder) fuel)
      (singleStepInstruction env fuel) := by
  refine getPc_agrees.bind fun pc => Agrees.get_bind fun d => Agrees.ite ?_ ?_
  · exact (singleStepBreakpoint_agrees (waitForSignal_agrees fuel)).bind fun _ => Agrees.pure _
  · exact singleStep_agrees.bind fun _ => waitForSignal_agrees fuel

/-- The return address is the one that is on the stack of the tracee itself. -/
theorem setReturnAddressBreakpoint_agrees :
    Agrees Debugger.erase (setReturnAddressBreakpoint (env.noted recorder))
      (setReturnAddressBreakpoint env) := by
  refine (getRegister_agrees .rbp).bind fun framePointer => ?_
  cases framePointer with
  | none => exact Agrees.throw _
  | some framePointer =>
      refine (request_agrees fun _ => rfl).bind fun read => Agrees.get_bind fun d => ?_
      refine Agrees.ite (Agrees.pure _) ?_
      exact (enable_agrees env.pt _).bind fun _ => Agrees.pure _

theorem removeInternalBreakpoint_agrees (remove : Bool) (addr : RealAddr) :
    Agrees Debugger.erase (removeInternalBreakpoint (env.noted recorder) remove addr)
      (removeInternalBreakpoint env remove addr) :=
  Agrees.ite ((disable_agrees env.pt addr).bind fun _ => Agrees.pure _) (Agrees.pure _)

theorem stepOut_agrees (fuel : Nat) :
    Agrees Debugger.erase (stepOut (env.noted recorder) fuel) (stepOut env fuel) := by
  refine setReturnAddressBreakpoint_agrees.bind fun r => ?_
  refine (continueExecution_agrees (waitForSignal_agrees fuel)).bind fun _ => ?_
  refine (waitForSignal_agrees fuel).bind fun res => ?_
  exact (removeInternalBreakpoint_agrees _ _).bind fun _ => Agrees.pure _

/-- The lines come from the debug information, which is the same. -/
theorem singleStepLineLoop_agrees (fuel initLine : Nat) :
    ∀ (left : Nat) (pos : Position),
      Agrees Debugger.erase (singleStepLineLoop (env.noted recorder) fuel initLine left pos)
        (singleStepLineLoop env fuel initLine left pos) := by
  intro left
  induction left with
  | zero => exact fun _ => (say_agrees _).bind fun _ => Agrees.pure _
  | succ left ih =>
      intro pos
      refine Agrees.ite ?_ (Agrees.pure _)
      refine (singleStepInstruction_agrees fuel).bind fun res => ?_
      cases res with
      | err => exact Agrees.pure _
      | ok =>
          refine getDbgPc_agrees.bind fun pc => ?_
          have hinfo : (env.noted recorder).info = env.info := rfl
          rw [hinfo]
          cases addrPosition pc env.info with
          | none => exact (say_agrees _).bind fun _ => Agrees.pure _
          | some pos => exact ih pos

theorem singleStepLine_agrees (fuel : Nat) :
    Agrees Debugger.erase (singleStepLine (env.noted recorder) fuel) (singleStepLine env fuel) := by
  refine getDbgPc_agrees.bind fun pc => ?_
  have hinfo : (env.noted recorder).info = env.info := rfl
  rw [hinfo]
  cases addrPosition pc env.info with
  | none => exact (say_agrees _).bind fun _ => Agrees.pure _
  | some pos => exact singleStepLineLoop_agrees fuel pos.line _ pos

/-- The same breakpoints are set, since the enabled set is not part of the record. -/
theorem setStepOverBreakpoints_agrees (func : DebugSymbol) :
    Agrees Debugger.erase (setStepOverBreakpoints (env.noted recorder) func)
      (setStepOverBreakpoints env func) := by
  have hinfo : (env.noted recorder).info = env.info := rfl
  unfold setStepOverBreakpoints
  rw [hinfo]
  cases symPosition func env.info with
  | none => exact Agrees.pure _
  | some pos =>
      cases symFilepath func env.info with
      | none => exact Agrees.pure _
      | some filepath =>
          refine Agrees.get_bind fun d => (Agrees.foldlM (fun toDel line => ?_) _ _).map _
          refine Agrees.get_bind fun d' => Agrees.ite ?_ (Agrees.pure _)
          exact (enable_agrees env.pt _).bind fun _ => Agrees.pure _

theorem stepOver_agrees (fuel : Nat) :
    Agrees Debugger.erase (stepOver (env.noted recorder) fuel) (stepOver env fuel) := by
  refine getDbgPc_agrees.bind fun pc => ?_
  have hinfo : (env.noted recorder).info = env.info := rfl
  rw [hinfo]
  cases symByAddr pc env.info with
  | none => exact (say_agrees _).bind fun _ => Agrees.pure _
  | some func =>
      refine (setStepOverBreakpoints_agrees func).bind fun r => ?_
      cases r with
      | none => exact (say_agrees _).bind fun _ => Agrees.pure _
      | some toDel =>
          refine setReturnAddressBreakpoint_agrees.bind fun r => ?_
          refine (continueExecution_agrees (waitForSignal_agrees fuel)).bind fun _ => ?_
          refine (waitForSignal_agrees fuel).bind fun res => ?_
          refine (Agrees.forM (fun addr => ?_) toDel).bind fun _ => ?_
          · exact (disable_agrees env.pt addr).bind fun _ => Agrees.pure _
          · exact (removeInternalBreakpoint_agrees _ _).bind fun _ => Agrees.pure _

/-- **A recorded operation is the operation.** -/
theorem exec_agrees (op : SteppingOp) (fuel : Nat) :
    Agrees Debugger.erase (op.exec (env.noted recorder) fuel) (op.exec env fuel) := by
  cases op with
  | continueAndWait =>
      exact (continueExecution_agrees (waitForSignal_agrees fuel)).bind fun _ =>
        waitForSignal_agrees fuel
  | singleStepInstruction => exact singleStepInstruction_agrees fuel
  | singleStepLine => exact singleStepLine_agrees fuel
  | stepOut => exact stepOut_agrees fuel
  | stepOver => exact stepOver_agrees fuel

/-- It returns the same value, if it returns one. -/
theorem returned_noted (env : Env W) (op : SteppingOp) (fuel : Nat) (d : Debugger W) (start : S) :
    returned (op.exec (env.noted recorder) fuel) (d.noted start) =
      returned (op.exec env fuel) d := by
  have hagrees : Agrees Debugger.erase (op.exec (env.noted recorder) fuel) (op.exec env fuel) :=
    exec_agrees op fuel
  have hrun : op.exec env fuel d = _ := hagrees (d.noted start)
  unfold returned
  rw [hrun]
  cases op.exec (env.noted recorder) fuel (d.noted start) with
  | ok res d' => rfl
  | error e d' => rfl

/-! ### What is no event -/

/-- A request that is passed on leaves the events alone. -/
theorem request_pass_silent (f : W → α × W) :
    Silent Debugger.events (request (Noted.pass f)) := fun _ => ⟨_, _, rfl, rfl⟩

/-- So do the reads and writes of memory that enable and disable breakpoints. -/
theorem onStore_pass_silent {β : Type} (f : Store W → β × Store W) :
    Silent Debugger.events (onStore (Store.pass f)) := fun _ => ⟨_, _, rfl, rfl⟩

theorem say_silent (msg : Message) :
    Silent Debugger.events (say msg : DbgM (Recorded W) Unit) := fun _ => ⟨_, _, rfl, rfl⟩

theorem enable_silent (addr : RealAddr) :
    Silent Debugger.events (onStore (enableBreakpoint env.recorded.pt addr)) := by
  have hpass : enableBreakpoint env.recorded.pt addr = Store.pass (enableBreakpoint env.pt addr) :=
    enableBreakpoint_noted env.pt addr
  rw [hpass]
  exact onStore_pass_silent _

theorem disable_silent (addr : RealAddr) :
    Silent Debugger.events (onStore (disableBreakpoint env.recorded.pt addr)) := by
  have hpass : disableBreakpoint env.recorded.pt addr =
      Store.pass (disableBreakpoint env.pt addr) := disableBreakpoint_noted env.pt addr
  rw [hpass]
  exact onStore_pass_silent _

/-- Reading the registers is not an event. -/
theorem getRegister_silent (reg : X86Reg) :
    Silent Debugger.events (request (getRegisterValue env.recorded.pt reg)) := by
  refine fun d => ⟨_, _, rfl, ?_⟩
  have hread : getRegisterValue env.recorded.pt reg d.tracee = _ :=
    getRegisterValue_noted env.pt reg d.tracee
  exact congrArg (fun r => r.2.record) hread

theorem getPc_silent : Silent Debugger.events (getPc env.recorded) := by
  refine (getRegister_silent .rip).bind fun store => ?_
  cases store with
  | none => exact Silent.pure _
  | some store => exact Silent.pure _

theorem getDbgPc_silent : Silent Debugger.events (getDbgPc env.recorded) :=
  getPc_silent.bind fun _ => Silent.get_bind fun _ => Silent.pure _

/-- Nor is writing them, when the PC is moved back onto a trap. -/
theorem handleSigtrap_silent (siginfo : SigInfo) :
    Silent Debugger.events (handleSigtrap env.recorded siginfo) := by
  refine Silent.ite (getPc_silent.bind fun pc => ?_) (Silent.pure _)
  refine Silent.bind (fun d => ⟨_, _, rfl, ?_⟩) fun _ => Silent.pure _
  have hwrite : setRegisterValue env.recorded.pt .rip (pc.value - 1) d.tracee = _ :=
    setRegisterValue_noted env.pt .rip (pc.value - 1) d.tracee
  exact congrArg (fun r => r.2.record) hwrite

/-- Continuing is not an event either: only single steps are counted. -/
theorem cont_silent :
    Silent Debugger.events (request (ptContinueExecution env.recorded.pt)) :=
  fun _ => ⟨_, _, rfl, rfl⟩

theorem removeInternalBreakpoint_silent (remove : Bool) (addr : RealAddr) :
    Silent Debugger.events (removeInternalBreakpoint env.recorded remove addr) :=
  Silent.ite ((disable_silent addr).bind fun _ => Silent.pure _) (Silent.pure _)

/-- Setting the breakpoints of a whole function is as silent as setting one. -/
theorem setStepOverBreakpoints_silent (func : DebugSymbol) :
    Silent Debugger.events (setStepOverBreakpoints env.recorded func) := by
  unfold setStepOverBreakpoints
  split
  · refine Silent.get_bind fun d => (Silent.foldlM (fun toDel line => ?_) _ _).map _
    refine Silent.get_bind fun d' => Silent.ite ?_ (Silent.pure _)
    exact (enable_silent _).bind fun _ => Silent.pure _
  · exact Silent.pure _

/-- It aborts if the frame pointer cannot be read. -/
theorem setReturnAddressBreakpoint_appends (d : Debugger (Recorded W)) :
    Appends Debugger.events (setReturnAddressBreakpoint env.recorded) d
      fun _ new => new = [] := by
  refine (getRegister_silent .rbp).bind_appends fun framePointer d' _ => ?_
  cases framePointer with
  | none => exact Appends.throw rfl
  | some framePointer =>
      refine (((request_pass_silent _).bind fun read =>
        Silent.get_bind fun d => ?_).appends d').conseq fun _ _ h => h.2
      exact Silent.ite (Silent.pure _) ((enable_silent _).bind fun _ => Silent.pure _)

end Spray
