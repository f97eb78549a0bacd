/-
What every command keeps.

A command makes its requests of the tracee, uses the breakpoints and prints; besides that it
waits.  Requests are made while the tracee is stopped, and a wait follows where it has been
resumed.  What is kept in this order is kept by each command, and so by a whole session; and
what is kept whatever the order is a special case of that.
-/
import Spray.Proofs.Invariant

namespace Spray

open Triple

variable {W : Type}

/-- A command that the user gives in order to set what is there. -/
inductive Command.Sets : Command → SdLocation → Word → Prop
  | memory (addr : RealAddr) (word : Word) (filter : PrintFilter) :
      Sets (.setMemory addr word filter) (.addr addr) word
  | register (reg : X86Reg) (word : Word) (filter : PrintFilter) :
      Sets (.setRegister reg word filter) (.reg reg) word
  /-- Where the variable is, is found out when the command is executed. -/
  | variable (varName : String) (value : Word) (filter : PrintFilter) (loc : SdLocation) :
      Sets (.setVariable varName value filter) loc value

/-- The tracee was stopped by a trap that it executed. -/
def SigInfo.IsTrap (info : SigInfo) : Prop :=
  info.signo = .SIGTRAP ∧ (info.code = .SI_KERNEL ∨ info.code = .TRAP_BRKPT)

/-- `Ready` is kept while the tracee is stopped, and `Running` holds from where it is resumed to
the end of the wait for it.  `Trapped` holds where the debugger has just been told of a trap.
Nothing is set but what is in `sets`. -/
structure Discipline (env : Env W) (sets : SdLocation → Word → Prop)
    (Ready Running Trapped : Debugger W → Prop) (H : Halt → Debugger W → Prop) : Prop where
  getRegister : ∀ reg, Holds Ready (request (getRegisterValue env.pt reg))
    (fun read d => Ready d ∧ (read = none → H .aborted d)) H
  readMemory : ∀ addr, Holds Ready (request (ptReadMemory env.pt addr)) (fun _ => Ready) H
  set : ∀ loc value, sets loc value →
    Holds Ready (writeLocation env value loc) (fun _ => Ready) H
  findVariable : ∀ pc loadAddress varName,
    Holds Ready (request (env.initVar pc loadAddress varName)) (fun _ => Ready) H
  singleStep : Holds Ready (request (ptSingleStep env.pt)) (fun _ => Running) H
  -- A process that does not exist is not waited for, or it is.
  cont : Holds Ready (request (ptContinueExecution env.pt))
    (fun errno d => Running d ∧ (errno = some .ESRCH → Ready d)) H
  getSigInfo : Holds Ready (request (ptGetSignalInfo env.pt))
    (fun info d => Ready d ∧ ((info.getD .zero).IsTrap → Trapped d)) H
  rewind : Holds Trapped (getPc env >>= fun pc => setPc env ⟨pc.value - 1⟩) (fun _ => Ready) H
  await : Holds Running (awaitStatus env.pt) (fun _ => Ready) H
  enable : ∀ addr, Holds Ready (onStore (enableBreakpoint env.pt addr)) (fun _ => Ready) H
  disable : ∀ addr, Holds Ready (onStore (disableBreakpoint env.pt addr)) (fun _ => Ready) H
  say : ∀ msg, Holds Ready (say msg) (fun _ => Ready) H
  sayRunning : ∀ msg, Holds Running (Spray.say msg) (fun _ => Running) H
  outOfFuel : ∀ d, Ready d ∨ Running d → H .outOfFuel d

variable {env : Env W} {sets : SdLocation → Word → Prop}
  {Ready Running Trapped : Debugger W → Prop} {H : Halt → Debugger W → Prop}

namespace Discipline

variable (rules : Discipline env sets Ready Running Trapped H)

include rules

/-- What is done with a register that has been read, or could not be. -/
theorem getRegister_bind {β : Type} {Q : β → Debugger W → Prop} {reg : X86Reg}
    {k : Option Word → DbgM W β} (hnone : Holds (fun d => Ready d ∧ H .aborted d) (k none) Q H)
    (hsome : ∀ word, Holds Ready (k (some word)) Q H) :
    Holds Ready (request (getRegisterValue env.pt reg) >>= k) Q H := by
  refine Holds.bind (rules.getRegister reg) fun read => ?_
  cases read with
  | none => exact hnone.pre fun d h => ⟨h.1, h.2 rfl⟩
  | some word => exact (hsome word).pre fun d h => h.1

theorem readMemory_bind {β : Type} {Q : β → Debugger W → Prop} {addr : RealAddr}
    {k : Option Word → DbgM W β} (hnone : Holds Ready (k none) Q H)
    (hsome : ∀ word, Holds Ready (k (some word)) Q H) :
    Holds Ready (request (ptReadMemory env.pt addr) >>= k) Q H := by
  refine Holds.bind (rules.readMemory addr) fun read => ?_
  cases read with
  | none => exact hnone
  | some word => exact hsome word

theorem getPc :
    Holds Ready (getPc env) (fun _ => Ready) H :=
  rules.getRegister_bind (Holds.pure fun _ h => h.1) fun _ => Holds.pure fun _ => id

theorem getDbgPc :
    Holds Ready (getDbgPc env) (fun _ => Ready) H :=
  Holds.bind rules.getPc fun _ => Holds.get_bind fun _ _ => Holds.pure fun _ => id

theorem isUserBreakpoint :
    Holds Ready (isUserBreakpoint env) (fun _ => Ready) H :=
  Holds.bind rules.getPc fun _ => Holds.get_bind fun _ _ => Holds.pure fun _ => id

/-! ### Waiting -/

theorem singleStepBreakpoint {wait : DbgM W SprayResult}
    (hwait : Holds Running wait (fun _ => Ready) H) :
    Holds Ready (singleStepBreakpoint env wait) (fun _ => Ready) H := by
  refine Holds.bind rules.getPc fun pc => Holds.get_bind fun d _ => Holds.ite (fun _ => ?_) ?_
  · refine Holds.bind (rules.disable pc) fun _ => Holds.bind rules.singleStep fun _ => ?_
    refine Holds.bind hwait fun res => Holds.bind (rules.enable pc) fun _ => ?_
    exact Holds.pure fun _ => id
  · exact fun _ => Holds.pure fun _ => id

/-- It is only a tracee that has been resumed that has to be waited for. -/
theorem continueExecution {wait : DbgM W SprayResult}
    (hwait : Holds Running wait (fun _ => Ready) H) :
    Holds Ready (continueExecution env wait)
      (fun res d => Running d ∧ (res = .err → Ready d)) H := by
  refine Holds.bind (rules.singleStepBreakpoint hwait) fun _ => ?_
  refine Holds.bind rules.cont fun errno => ?_
  have hok : ∀ errno : Option Errno, Holds
      (fun d => Running d ∧ (errno = some .ESRCH → Ready d))
      (pure .ok : DbgM W SprayResult) (fun res d => Running d ∧ (res = .err → Ready d)) H :=
    fun _ => Holds.pure fun d h => ⟨h.1, fun h => nomatch h⟩
  rcases errno with _ | _ | _
  · exact hok _
  · refine Holds.bind (Q := fun _ d => Running d ∧ Ready d) ?_ fun _ => Holds.pure fun d h => ?_
    · exact ((rules.sayRunning _).and (rules.say _)).conseq (fun d h => ⟨h.1, h.2 rfl⟩)
        (fun _ _ => id) fun _ _ h => h.1
    · exact ⟨h.1, fun _ => h.2⟩
  · exact hok _

theorem handleSigtrap {siginfo : SigInfo} (hsig : siginfo.signo = .SIGTRAP) :
    Holds (fun d => Ready d ∧ (siginfo.IsTrap → Trapped d)) (handleSigtrap env siginfo)
      (fun _ => Ready) H := by
  unfold Spray.handleSigtrap
  split
  · next htrap => exact rules.rewind.pre fun d h => h.2 ⟨hsig, htrap⟩
  · exact Holds.pure fun _ h => h.1

/-- A wait starts where the tracee has been resumed, and ends where it is stopped. -/
theorem waitForSignal (fuel : Nat) :
    Holds Running (waitForSignal env fuel) (fun _ => Ready) H := by
  induction fuel with
  | zero => exact Holds.throw fun d h => rules.outOfFuel d (.inr h)
  | succ fuel ih =>
      refine Holds.bind rules.await fun status => ?_
      cases status with
      | exited code => exact Holds.bind (rules.say _) fun _ => Holds.pure fun _ => id
      | signaled sig => exact Holds.bind (rules.say _) fun _ => Holds.pure fun _ => id
      | continued => exact Holds.bind (rules.say _) fun _ => Holds.pure fun _ => id
      | invalid status => exact Holds.bind (rules.say _) fun _ => Holds.pure fun _ => id
      | stopped sig =>
          refine Holds.bind rules.getSigInfo fun info => ?_
          dsimp only
          split
          · exact (Holds.bind (rules.say _) fun _ => Holds.pure fun _ => id).pre fun _ h => h.1
          · next hsig => exact Holds.bind (rules.handleSigtrap hsig) fun _ => Holds.pure fun _ => id
          · exact (Holds.bind (rules.continueExecution ih) fun _ => ih.pre fun d h => h.1).pre
              fun _ h => h.1
          · exact (Holds.bind (rules.say _) fun _ => Holds.pure fun _ => id).pre fun _ h => h.1

/-- The tracee is continued, and waited for whatever comes of that. -/
theorem continueAndWait_bind {α : Type}
    {Q : α → Debugger W → Prop} (fuel : Nat) {k : SprayResult → DbgM W α}
    (h : ∀ res, Holds Ready (k res) Q H) :
    Holds Ready (do
      let _ ← Spray.continueExecution env (Spray.waitForSignal env fuel)
      let res ← Spray.waitForSignal env fuel
      k res) Q H := by
  refine Holds.bind (rules.continueExecution (rules.waitForSignal fuel)) fun _ => ?_
  exact Holds.bind ((rules.waitForSignal fuel).pre fun d h => h.1) h

/-! ### Running the tracee -/

theorem singleStepInstruction (fuel : Nat) :
    Holds Ready (singleStepInstruction env fuel) (fun _ => Ready) H := by
  have hwait := rules.waitForSignal fuel
  refine Holds.bind rules.getPc fun pc => Holds.get_bind fun d _ => Holds.ite (fun _ => ?_) ?_
  · exact Holds.bind (rules.singleStepBreakpoint hwait) fun _ => Holds.pure fun _ => id
  · exact fun _ => Holds.bind rules.singleStep fun _ => hwait

theorem setReturnAddressBreakpoint :
    Holds Ready (setReturnAddressBreakpoint env) (fun _ => Ready) H := by
  refine rules.getRegister_bind (Holds.throw fun d h => h.2) fun framePointer => ?_
  refine Holds.bind (rules.readMemory _) fun read => Holds.get_bind fun d _ => ?_
  refine Holds.ite (fun _ => Holds.pure fun _ => id) fun _ => ?_
  exact Holds.bind (rules.enable _) fun _ => Holds.pure fun _ => id

theorem removeInternalBreakpoint (remove : Bool)
    (addr : RealAddr) : Holds Ready (removeInternalBreakpoint env remove addr) (fun _ => Ready) H :=
  Holds.ite (fun _ => Holds.bind (rules.disable addr) fun _ => Holds.pure fun _ => id)
    fun _ => Holds.pure fun _ => id

theorem stepOut (fuel : Nat) :
    Holds Ready (stepOut env fuel) (fun _ => Ready) H := by
  refine Holds.bind rules.setReturnAddressBreakpoint fun internal => ?_
  refine rules.continueAndWait_bind fuel fun res => ?_
  exact Holds.bind (rules.removeInternalBreakpoint _ _) fun _ => Holds.pure fun _ => id

theorem singleStepLineLoop (fuel initLine left : Nat) :
    ∀ pos, Holds Ready (singleStepLineLoop env fuel initLine left pos) (fun _ => Ready) H := by
  induction left with
  | zero => exact fun pos => Holds.bind (rules.say _) fun _ => Holds.pure fun _ => id
  | succ left ih =>
      intro pos
      refine Holds.ite (fun _ => ?_) fun _ => Holds.pure fun _ => id
      refine Holds.bind (rules.singleStepInstruction fuel) fun res => ?_
      cases res with
      | err => exact Holds.pure fun _ => id
      | ok =>
          refine Holds.bind rules.getDbgPc fun pc => ?_
          split
          · exact Holds.bind (rules.say _) fun _ => Holds.pure fun _ => id
          · exact ih _

theorem singleStepLine (fuel : Nat) :
    Holds Ready (singleStepLine env fuel) (fun _ => Ready) H := by
  refine Holds.bind rules.getDbgPc fun pc => ?_
  split
  · exact Holds.bind (rules.say _) fun _ => Holds.pure fun _ => id
  · exact rules.singleStepLineLoop _ _ _ _

theorem setStepOverBreakpoints (func : DebugSymbol) :
    Holds Ready (setStepOverBreakpoints env func) (fun _ => Ready) H := by
  unfold Spray.setStepOverBreakpoints
  split
  · refine Holds.get_bind fun d _ => Holds.map ?_
    refine Holds.foldlM (I := fun _ => Ready) (fun toDel line => ?_) _ []
    refine Holds.get_bind fun d _ => ?_
    split
    · exact Holds.bind (rules.enable _) fun _ => Holds.pure fun _ => id
    · exact Holds.pure fun _ => id
  · exact Holds.pure fun _ => id

theorem stepOver (fuel : Nat) :
    Holds Ready (stepOver env fuel) (fun _ => Ready) H := by
  refine Holds.bind rules.getDbgPc fun pc => ?_
  split
  · exact Holds.bind (rules.say _) fun _ => Holds.pure fun _ => id
  · rename_i func _
    refine Holds.bind (rules.setStepOverBreakpoints func) fun toDel => ?_
    cases toDel with
    | none => exact Holds.bind (rules.say _) fun _ => Holds.pure fun _ => id
    | some toDel =>
        refine Holds.bind rules.setReturnAddressBreakpoint fun internal => ?_
        refine rules.continueAndWait_bind fuel fun res => ?_
        refine Holds.bind (Holds.forM (I := fun _ => Ready) (fun addr rest => ?_) toDel) fun _ => ?_
        · exact Holds.bind (rules.disable addr) fun _ => Holds.pure fun _ => id
        · exact Holds.bind (rules.removeInternalBreakpoint _ _) fun _ => Holds.pure fun _ => id

/-! ### Printing -/

theorem printCurrentSource :
    Holds Ready (printCurrentSource env) (fun _ => Ready) H := by
  refine Holds.bind rules.getDbgPc fun pc => ?_
  dsimp only
  split
  · refine Holds.bind rules.isUserBreakpoint fun hit => Holds.ite (fun _ => ?_) fun _ => ?_
    · refine Holds.bind rules.getPc fun _ => Holds.bind (rules.say _) fun _ => ?_
      split
      · exact rules.say _
      · exact rules.say _
    · split
      · exact rules.say _
      · exact rules.say _
  · exact rules.say _

theorem printFiltered (value : Word) (filter : PrintFilter) (info : PrintValueInfo) :
    Holds Ready (printFiltered env value filter info) (fun _ => Ready) H := by
  unfold Spray.printFiltered
  split
  · exact rules.readMemory_bind (rules.say _) fun _ => rules.say _
  · exact rules.say _

theorem execPrintMemory (addr : RealAddr)
    (filter : PrintFilter) : Holds Ready (execPrintMemory env addr filter) (fun _ => Ready) H :=
  rules.readMemory_bind (rules.say _) fun _ => rules.printFiltered _ _ _

theorem execPrintRegister (reg : X86Reg)
    (filter : PrintFilter) : Holds Ready (execPrintRegister env reg filter) (fun _ => Ready) H :=
  rules.getRegister_bind ((rules.say _).pre fun _ h => h.1) fun _ => rules.printFiltered _ _ _

/-! ### Setting -/

theorem readLocation_bind {β : Type} {Q : β → Debugger W → Prop} {loc : SdLocation}
    {k : Option Word → DbgM W β} (hnone : Holds Ready (k none) Q H)
    (hsome : ∀ word, Holds Ready (k (some word)) Q H) :
    Holds Ready (readLocation env loc >>= k) Q H := by
  cases loc with
  | addr addr => exact rules.readMemory_bind hnone hsome
  | reg reg => exact rules.getRegister_bind (hnone.pre fun d h => h.1) hsome

theorem execSetMemory {addr : RealAddr} {word : Word} (hset : sets (.addr addr) word)
    (filter : PrintFilter) :
    Holds Ready (execSetMemory env addr word filter) (fun _ => Ready) H := by
  refine Holds.bind (rules.set (.addr addr) word hset) fun res => ?_
  cases res with
  | ok => exact rules.readMemory_bind (rules.say _) fun _ => rules.printFiltered _ _ _
  | err => exact rules.say _

theorem execSetRegister {reg : X86Reg} {word : Word} (hset : sets (.reg reg) word)
    (filter : PrintFilter) :
    Holds Ready (execSetRegister env reg word filter) (fun _ => Ready) H := by
  refine Holds.bind (rules.set (.reg reg) word hset) fun res => ?_
  -- Whether the write fails or not, its readout follows.
  cases res with
  | ok =>
      exact rules.getRegister_bind ((rules.say _).pre fun _ h => h.1) fun _ =>
        rules.printFiltered _ _ _
  | err =>
      refine Holds.bind (rules.say _) fun _ => ?_
      exact rules.getRegister_bind ((rules.say _).pre fun _ h => h.1) fun _ =>
        rules.printFiltered _ _ _

theorem initVar (varName : String) :
    Holds Ready (initVar env varName) (fun _ => Ready) H :=
  Holds.bind rules.getDbgPc fun _ => Holds.get_bind fun _ _ => rules.findVariable _ _ _

theorem execPrintVariable (varName : String) (filter : PrintFilter) :
    Holds Ready (execPrintVariable env varName filter) (fun _ => Ready) H := by
  refine Holds.bind (rules.initVar varName) fun var => ?_
  cases var with
  | none => exact rules.say _
  | some var => exact rules.readLocation_bind (rules.say _) fun _ => rules.printFiltered _ _ _

theorem execSetVariable {value : Word} (varName : String) (hset : ∀ loc, sets loc value)
    (filter : PrintFilter) :
    Holds Ready (execSetVariable env varName value filter) (fun _ => Ready) H := by
  refine Holds.bind (rules.initVar varName) fun var => ?_
  cases var with
  | none => exact rules.say _
  | some var =>
      refine Holds.bind (rules.set var.loc value (hset var.loc)) fun res => ?_
      cases res with
      | err => exact rules.say _
      | ok => exact rules.readLocation_bind (rules.say _) fun _ => rules.printFiltered _ _ _

/-! ### Backtraces -/

theorem initBacktraceLoop (fuel : Nat) : ∀ framePointer frames,
    Holds Ready (initBacktraceLoop env fuel framePointer frames) (fun _ => Ready) H := by
  induction fuel with
  | zero => exact fun _ _ => Holds.throw fun d h => rules.outOfFuel d (.inl h)
  | succ fuel ih =>
      intro framePointer frames
      unfold Spray.initBacktraceLoop
      split
      · exact Holds.pure fun _ => id
      · refine rules.readMemory_bind (Holds.pure fun _ => id) fun pc => ?_
        exact rules.readMemory_bind (Holds.pure fun _ => id) fun caller => ih _ _

theorem storesFramePointer (pc : DbgAddr) :
    Holds Ready (storesFramePointer env pc) (fun _ => Ready) H := by
  unfold Spray.storesFramePointer
  split
  · exact Holds.pure fun _ => id
  · refine Holds.get_bind fun _ _ => rules.readMemory_bind (Holds.pure fun _ => id) ?_
    exact fun _ => Holds.pure fun _ => id

theorem initBacktrace (fuel : Nat) (pc : DbgAddr) :
    Holds Ready (initBacktrace env fuel pc) (fun _ => Ready) H := by
  refine rules.getRegister_bind (Holds.pure fun _ h => h.1) fun framePointer => ?_
  refine Holds.bind (rules.storesFramePointer pc) fun stores => ?_
  cases stores with
  | true => exact rules.initBacktraceLoop fuel _ _
  | false => exact Holds.bind (rules.say _) fun _ => rules.initBacktraceLoop fuel _ _

theorem execBacktrace (fuel : Nat) :
    Holds Ready (execBacktrace env fuel) (fun _ => Ready) H := by
  refine Holds.bind rules.getDbgPc fun pc => ?_
  refine Holds.bind (rules.initBacktrace fuel pc) fun frames => ?_
  cases frames with
  | none => exact rules.say _
  | some frames => exact rules.say _

/-! ### Commands -/

/-- The source is printed after a step that succeeds. -/
theorem showAfter {P : Debugger W → Prop} {x : DbgM W SprayResult}
    (h : Holds P x (fun _ => Ready) H) :
    Holds P (do if (← x) = .ok then Spray.printCurrentSource env) (fun _ => Ready) H := by
  refine Holds.bind h fun res => ?_
  split
  · exact rules.printCurrentSource
  · exact Holds.pure fun _ => id

theorem execContinue (fuel : Nat) : Holds Ready (execContinue env fuel) (fun _ => Ready) H := by
  have hwait := rules.waitForSignal fuel
  refine Holds.bind (rules.continueExecution hwait) fun res => ?_
  cases res with
  | ok => exact rules.showAfter (hwait.pre fun d h => h.1)
  | err => exact Holds.pure fun d h => h.2 rfl

/-- **What every request keeps where it is made, every command keeps.** -/
theorem exec (fuel : Nat) (command : Command)
    (hsets : ∀ loc value, command.Sets loc value → sets loc value) :
    Holds Ready (command.exec env fuel) (fun _ => Ready) H := by
  cases command with
  | continue_ => exact rules.execContinue fuel
  | break_ addr => exact Holds.bind (rules.enable addr) fun _ => Holds.pure fun _ => id
  | delete addr => exact Holds.bind (rules.disable addr) fun _ => Holds.pure fun _ => id
  | printMemory addr filter => exact rules.execPrintMemory addr filter
  | printRegister reg filter => exact rules.execPrintRegister reg filter
  | printVariable varName filter => exact rules.execPrintVariable varName filter
  | setMemory addr word filter => exact rules.execSetMemory (hsets _ _ (.memory ..)) filter
  | setRegister reg word filter => exact rules.execSetRegister (hsets _ _ (.register ..)) filter
  | setVariable varName value filter =>
      exact rules.execSetVariable varName (fun _ => hsets _ _ (.variable ..)) filter
  | inst => exact rules.showAfter (rules.singleStepInstruction fuel)
  | leave => exact rules.showAfter (rules.stepOut fuel)
  | step => exact rules.showAfter (rules.singleStepLine fuel)
  | next => exact rules.showAfter (rules.stepOver fuel)
  | backtrace => exact rules.execBacktrace fuel

theorem startDebugger (fuel : Nat) :
    Holds Ready (startDebugger env fuel) (fun _ => Ready) H := by
  have hwait := rules.waitForSignal fuel
  unfold Spray.startDebugger
  cases symByName "main" env.info with
  | none => exact Holds.pure fun _ => id
  | some main =>
      dsimp only
      cases functionStartAddr main env.info with
      | none => exact Holds.bind rules.printCurrentSource fun _ => Holds.pure fun _ => id
      | some startMain =>
          refine Holds.get_bind fun d _ => Holds.bind (rules.enable _) fun _ =>
            Holds.bind (rules.continueExecution hwait) fun res => ?_
          cases res with
          | err => exact Holds.pure fun d h => h.2 rfl
          | ok =>
              refine Holds.bind (hwait.pre fun d h => h.1) fun res => ?_
              cases res with
              | err => exact Holds.pure fun _ => id
              | ok =>
                  exact Holds.bind (rules.disable _) fun _ =>
                    Holds.bind rules.printCurrentSource fun _ => Holds.pure fun _ => id

end Discipline

/-! ### Whatever the order -/

/-- `I` is kept by each request a command can make, whatever it is for. -/
structure CommandInvariant (env : Env W) (I : Debugger W → Prop) (H : Halt → Debugger W → Prop) :
    Prop extends StepInvariant env I H where
  writeMemory : ∀ addr word,
    Holds I (request (ptWriteMemory env.pt addr word)) (fun _ => I) H
  findVariable : ∀ pc loadAddress varName,
    Holds I (request (env.initVar pc loadAddress varName)) (fun _ => I) H

theorem CommandInvariant.discipline {I : Debugger W → Prop} (inv : CommandInvariant env I H) :
    Discipline env (fun _ _ => True) I I I H where
  getRegister reg := (inv.getRegister reg).conseq (fun _ => id)
    (fun _ d h => ⟨h, fun _ => inv.halt _ d h⟩) fun _ _ => id
  readMemory := inv.readMemory
  set loc value _ := by
    cases loc with
    | addr addr => exact inv.writeMemory addr value
    | reg reg => exact inv.setRegister reg value
  findVariable := inv.findVariable
  singleStep := inv.singleStep
  cont := inv.cont.conseq (fun _ => id) (fun _ _ h => ⟨h, fun _ => h⟩) fun _ _ => id
  getSigInfo := inv.getSigInfo.conseq (fun _ => id) (fun _ _ h => ⟨h, fun _ => h⟩) fun _ _ => id
  rewind := Holds.bind (inv.invariant 0).getPc fun _ =>
    Holds.bind (inv.setRegister .rip _) fun _ => Holds.pure fun _ => id
  await := inv.await
  enable := inv.enable
  disable := inv.disable
  say := inv.say
  sayRunning := inv.say
  outOfFuel d h := inv.halt _ d (h.elim id id)

/-- **What every request keeps, every command keeps.** -/
theorem CommandInvariant.exec {I : Debugger W → Prop} (inv : CommandInvariant env I H)
    (fuel : Nat) (command : Command) : Holds I (command.exec env fuel) (fun _ => I) H :=
  inv.discipline.exec fuel command fun _ _ _ => trivial

end Spray
