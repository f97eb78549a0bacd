/-
The user's breakpoints at the prompt.

Of all the commands only `break` and `delete` change which breakpoints are enabled; the
others either step, which puts the set back, or do not use the breakpoints at all.
-/
import Spray.Proofs.Stepping

namespace Spray

open Triple

variable {W : Type} {env : Env W}

/-! ### Commands that do not use the breakpoints -/

/-- However it ends, the breakpoints are what they were. -/
abbrev KeepsBreakpoints {α : Type} (x : DbgM W α) : Prop := Keeps (·.breakpoints) x

theorem request_keeps {α : Type} (f : W → α × W) : KeepsBreakpoints (request f) :=
  fun _ _ hd => hd

theorem say_keeps (msg : Message) : KeepsBreakpoints (W := W) (say msg) :=
  fun _ _ hd => hd

theorem getPc_keeps : KeepsBreakpoints (getPc env) := by
  refine Keeps.bind (request_keeps _) ?_
  rintro (_ | _)
  · exact Keeps.pure _
  · exact Keeps.pure _

theorem getDbgPc_keeps : KeepsBreakpoints (getDbgPc env) :=
  Keeps.bind getPc_keeps fun _ => Keeps.get_bind fun _ => Keeps.pure _

theorem isUserBreakpoint_keeps : KeepsBreakpoints (isUserBreakpoint env) :=
  Keeps.bind getPc_keeps fun _ => Keeps.get_bind fun _ => Keeps.pure _

theorem printCurrentSource_keeps : KeepsBreakpoints (printCurrentSource env) := by
  refine Keeps.bind getDbgPc_keeps fun pc => ?_
  dsimp only
  split
  · refine Keeps.bind isUserBreakpoint_keeps fun hit => Keeps.ite ?_ ?_
    · refine Keeps.bind getPc_keeps fun _ => Keeps.bind (say_keeps _) fun _ => ?_
      split
      · exact say_keeps _
      · exact say_keeps _
    · split
      · exact say_keeps _
      · exact say_keeps _
  · exact say_keeps _

theorem printFiltered_keeps (value : Word) (filter : PrintFilter) (info : PrintValueInfo) :
    KeepsBreakpoints (printFiltered env value filter info) := by
  unfold printFiltered
  split
  · refine Keeps.bind (request_keeps _) ?_
    rintro (_ | _)
    · exact say_keeps _
    · exact say_keeps _
  · exact say_keeps _

/-- A request that may yield a value, and what is done with it. -/
theorem request_bind_keeps {α β : Type} {f : W → Option α × W} {k : Option α → DbgM W β}
    (hnone : KeepsBreakpoints (k none)) (hsome : ∀ a, KeepsBreakpoints (k (some a))) :
    KeepsBreakpoints (request f >>= k) := by
  refine Keeps.bind (request_keeps f) ?_
  rintro (_ | a)
  · exact hnone
  · exact hsome a

theorem execPrintMemory_keeps (addr : RealAddr) (filter : PrintFilter) :
    KeepsBreakpoints (execPrintMemory env addr filter) :=
  request_bind_keeps (say_keeps _) fun _ => printFiltered_keeps _ _ _

theorem execPrintRegister_keeps (reg : X86Reg) (filter : PrintFilter) :
    KeepsBreakpoints (execPrintRegister env reg filter) :=
  request_bind_keeps (say_keeps _) fun _ => printFiltered_keeps _ _ _

theorem execSetMemory_keeps (addr : RealAddr) (word : Word) (filter : PrintFilter) :
    KeepsBreakpoints (execSetMemory env addr word filter) := by
  refine Keeps.bind (request_keeps _) ?_
  rintro (_ | _)
  · exact request_bind_keeps (say_keeps _) fun _ => printFiltered_keeps _ _ _
  · exact say_keeps _

theorem execSetRegister_keeps (reg : X86Reg) (word : Word) (filter : PrintFilter) :
    KeepsBreakpoints (execSetRegister env reg word filter) := by
  refine Keeps.bind (request_keeps _) ?_
  rintro (_ | _)
  · exact request_bind_keeps (say_keeps _) fun _ => printFiltered_keeps _ _ _
  · exact Keeps.bind (say_keeps _) fun _ =>
      request_bind_keeps (say_keeps _) fun _ => printFiltered_keeps _ _ _

theorem readLocation_keeps (loc : SdLocation) : KeepsBreakpoints (readLocation env loc) := by
  cases loc with
  | addr a => exact request_keeps _
  | reg r => exact request_keeps _

theorem writeLocation_keeps (value : Word) (loc : SdLocation) :
    KeepsBreakpoints (writeLocation env value loc) := by
  cases loc with
  | addr a => exact request_keeps _
  | reg r => exact request_keeps _

theorem initVar_keeps (varName : String) : KeepsBreakpoints (initVar env varName) :=
  Keeps.bind getDbgPc_keeps fun _ => Keeps.get_bind fun _ => request_keeps _

theorem execPrintVariable_keeps (varName : String) (filter : PrintFilter) :
    KeepsBreakpoints (execPrintVariable env varName filter) := by
  refine Keeps.bind (initVar_keeps varName) ?_
  rintro (_ | var)
  · exact say_keeps _
  · refine Keeps.bind (readLocation_keeps var.loc) ?_
    rintro (_ | value)
    · exact say_keeps _
    · exact printFiltered_keeps _ _ _

theorem execSetVariable_keeps (varName : String) (value : Word) (filter : PrintFilter) :
    KeepsBreakpoints (execSetVariable env varName value filter) := by
  refine Keeps.bind (initVar_keeps varName) ?_
  rintro (_ | var)
  · exact say_keeps _
  · refine Keeps.bind (writeLocation_keeps value var.loc) ?_
    rintro (_ | _)
    · refine Keeps.bind (readLocation_keeps var.loc) ?_
      rintro (_ | _)
      · exact say_keeps _
      · exact printFiltered_keeps _ _ _
    · exact say_keeps _

theorem initBacktraceLoop_keeps (fuel : Nat) :
    ∀ framePointer frames, KeepsBreakpoints (initBacktraceLoop env fuel framePointer frames) := by
  induction fuel with
  | zero => exact fun _ _ => Keeps.throw _
  | succ fuel ih =>
      intro framePointer frames
      refine Keeps.ite (Keeps.pure _) (request_bind_keeps (Keeps.pure _) fun pc => ?_)
      exact request_bind_keeps (Keeps.pure _) fun callerFramePointer => ih _ _

theorem storesFramePointer_keeps (pc : DbgAddr) : KeepsBreakpoints (storesFramePointer env pc) := by
  unfold storesFramePointer
  split
  · exact Keeps.pure _
  · exact Keeps.get_bind fun _ => request_bind_keeps (Keeps.pure _) fun _ => Keeps.pure _

theorem initBacktrace_keeps (fuel : Nat) (pc : DbgAddr) :
    KeepsBreakpoints (initBacktrace env fuel pc) := by
  refine request_bind_keeps (Keeps.pure _) fun framePointer => ?_
  refine Keeps.bind (storesFramePointer_keeps pc) fun stores => Keeps.ite ?_ ?_
  · exact Keeps.bind (say_keeps _) fun _ => initBacktraceLoop_keeps fuel _ _
  · exact initBacktraceLoop_keeps fuel _ _

theorem execBacktrace_keeps (fuel : Nat) : KeepsBreakpoints (execBacktrace env fuel) := by
  refine Keeps.bind getDbgPc_keeps fun pc => Keeps.bind (initBacktrace_keeps fuel pc) ?_
  rintro (_ | frames)
  · exact say_keeps _
  · exact say_keeps _

/-! ### Whole sessions -/

variable {mem : W → Memory 64} {enabled : RealAddr → Bool}

/-- The breakpoints in `enabled` are, and no others. -/
def Enabled (enabled : RealAddr → Bool) (d : Debugger W) : Prop :=
  ∀ a, lookupBreakpoint d.breakpoints a = enabled a

theorem enabled_of_keeps {α : Type} {x : DbgM W α} (h : KeepsBreakpoints x) :
    Spec (Enabled enabled) x fun _ => Enabled enabled :=
  (h.holds fun b => ∀ a, lookupBreakpoint b a = enabled a).conseq (fun _ => id) (fun _ _ => id)
    fun _ _ _ => trivial

theorem awaitStatus_keeps : KeepsBreakpoints (awaitStatus env.pt) := by
  intro b d hd
  unfold awaitStatus
  generalize env.pt.waitpid d.tracee = out
  obtain ⟨_ | _ | _, w⟩ := out
  · exact hd
  · exact hd
  · exact hd

theorem enabled_enable (served : MemoryServed env.pt mem) (addr : RealAddr) :
    Spec (Enabled enabled) (onStore (enableBreakpoint env.pt addr))
      fun _ => Enabled (Function.update enabled addr true) := by
  intro d hd a
  refine ((enableBreakpoint_lookup served.toMemoryLaws addr d.toStore a).trans
    (if_pos (enableBreakpoint_ok served addr d.toStore))).trans ?_
  by_cases ha : a = addr
  · simp [ha]
  · simp [ha, hd a]

theorem enabled_disable (served : MemoryServed env.pt mem) (addr : RealAddr) :
    Spec (Enabled enabled) (onStore (disableBreakpoint env.pt addr))
      fun _ => Enabled (Function.update enabled addr false) := by
  intro d hd a
  refine ((disableBreakpoint_lookup served.toMemoryLaws addr d.toStore a).trans
    (if_pos (disableBreakpoint_ok served addr d.toStore))).trans ?_
  by_cases ha : a = addr
  · simp [ha]
  · simp [ha, hd a]

/-- The enabled set goes with itself, whoever put the breakpoints in. -/
theorem enabled_follows (served : MemoryServed env.pt mem) :
    FollowsSet env (fun _ => false) Enabled fun _ => Enabled where
  lookup hd := hd
  of_reads := id
  say msg _ := enabled_of_keeps (say_keeps msg)
  getPc _ := enabled_of_keeps getPc_keeps
  getRegister _ _ := enabled_of_keeps (request_keeps _)
  setRegister _ _ _ := enabled_of_keeps (request_keeps _)
  readMemory _ _ := enabled_of_keeps (request_keeps _)
  cont _ := enabled_of_keeps (request_keeps _)
  getSignalInfo _ := enabled_of_keeps (request_keeps _)
  awaitStatus _ := enabled_of_keeps awaitStatus_keeps
  enable addr _ := enabled_enable served addr
  disable addr _ _ := enabled_disable served addr
  step _ _ _ := enabled_of_keeps (request_keeps _)
  stepOff pc _ _ := Holds.bind (enabled_disable served pc) fun _ =>
    enabled_of_keeps (request_keeps _)

/-- A stepping command prints the source when it succeeds. -/
theorem enabled_of_steps {x : DbgM W SprayResult}
    (h : Spec (Enabled enabled) x fun _ => Enabled enabled) :
    Spec (Enabled enabled) (do if (← x) = .ok then printCurrentSource env)
      fun _ => Enabled enabled := by
  refine Holds.bind h fun res => ?_
  split
  · exact enabled_of_keeps printCurrentSource_keeps
  · exact Holds.pure fun _ => id

theorem execContinue_enabled (served : MemoryServed env.pt mem) (fuel : Nat) :
    Spec (Enabled enabled) (execContinue env fuel) fun _ => Enabled enabled := by
  have follows := enabled_follows served
  have hwait : WaitsUnder Enabled (waitForSignal env fuel) := follows.waitForSignal fuel
  refine Holds.bind (follows.continueExecution hwait enabled) fun res => ?_
  split
  · exact enabled_of_steps (hwait enabled)
  · exact Holds.pure fun _ => id

/-- **A command changes the enabled set as its `break` or `delete` says.** -/
theorem Command.exec_enabled (served : MemoryServed env.pt mem) (fuel : Nat) (c : Command) :
    Spec (Enabled enabled) (c.exec env fuel)
      fun _ => Enabled fun a => c.breaks a (enabled a) := by
  have follows := enabled_follows served
  have hown : HasOwn (fun _ => false) enabled := fun _ _ => rfl
  cases c with
  | continue_ => exact execContinue_enabled served fuel
  | break_ addr =>
      refine Holds.bind (enabled_enable served addr) fun _ => Holds.pure fun s hs => ?_
      refine cast (congrArg (Enabled · s) (funext fun a => ?_)) hs
      by_cases ha : a = addr <;> simp [Command.breaks, ha]
  | delete addr =>
      refine Holds.bind (enabled_disable served addr) fun _ => Holds.pure fun s hs => ?_
      refine cast (congrArg (Enabled · s) (funext fun a => ?_)) hs
      by_cases ha : a = addr <;> simp [Command.breaks, ha]
  | printMemory addr filter => exact enabled_of_keeps (execPrintMemory_keeps addr filter)
  | printRegister reg filter => exact enabled_of_keeps (execPrintRegister_keeps reg filter)
  | printVariable name filter => exact enabled_of_keeps (execPrintVariable_keeps name filter)
  | setMemory addr word filter => exact enabled_of_keeps (execSetMemory_keeps addr word filter)
  | setRegister reg word filter => exact enabled_of_keeps (execSetRegister_keeps reg word filter)
  | setVariable name value filter =>
      exact enabled_of_keeps (execSetVariable_keeps name value filter)
  | inst => exact enabled_of_steps (follows.singleStepInstruction fuel enabled)
  | leave => exact enabled_of_steps (follows.stepOut hown fuel)
  | step => exact enabled_of_steps (follows.singleStepLine fuel enabled)
  | next => exact enabled_of_steps (follows.stepOver hown fuel)
  | backtrace => exact enabled_of_keeps (execBacktrace_keeps fuel)

/-- The prompt is reached with the enabled set the debugger was started with. -/
theorem startDebugger_enabled (served : MemoryServed env.pt mem) (fuel : Nat)
    (hnone : ∀ a, enabled a = false) :
    Spec (Enabled enabled) (startDebugger env fuel)
      fun reached d => reached = true → Enabled enabled d := by
  have follows := enabled_follows served
  have hwait : WaitsUnder Enabled (waitForSignal env fuel) := follows.waitForSignal fuel
  unfold startDebugger
  split
  · exact Holds.pure fun _ _ h => absurd h (by decide)
  · split
    · exact Holds.bind (enabled_of_keeps printCurrentSource_keeps) fun _ =>
        Holds.pure fun _ hs _ => hs
    · refine Holds.get_bind fun d _ => Holds.bind (enabled_enable served _) fun _ => ?_
      refine Holds.bind (follows.continueExecution hwait _) ?_
      rintro (_ | _)
      · refine Holds.bind (hwait _) ?_
        rintro (_ | _)
        · refine Holds.bind (enabled_disable served _) fun _ => ?_
          refine Holds.bind (enabled_of_keeps printCurrentSource_keeps) fun _ =>
            Holds.pure fun s hs _ => ?_
          rwa [Function.update_idem, ← hnone _, Function.update_eq_self] at hs
        · exact Holds.pure fun _ _ h => absurd h (by decide)
      · exact Holds.pure fun _ _ h => absurd h (by decide)

/-- The enabled set follows the commands given at the prompt. -/
theorem commands_enabled (served : MemoryServed env.pt mem) (fuel : Nat)
    (commands : List Command) :
    ∀ enabled, Spec (Enabled enabled) (commands.forM (Command.exec env fuel))
      fun _ => Enabled fun a => commands.foldl (Command.breaks a) (enabled a) := by
  induction commands with
  | nil => exact fun _ => Holds.pure fun _ => id
  | cons c rest ih =>
      exact fun enabled => Holds.bind (c.exec_enabled served fuel) fun _ => ih _

end Spray
