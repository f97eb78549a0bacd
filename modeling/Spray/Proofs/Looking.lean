/-
Commands that only look.

`print` and `backtrace` read words and registers, and nothing else is asked of the tracee.  So
what they show is what they would show of a picture of it: of the words and registers that could
be read when it was taken.  And whatever is looked at, nothing changes.
-/
import Spray.Lib.Trace
import Spray.Proofs.Backtrace
import Spray.Proofs.Lookups
import Spray.Proofs.Reading
import Spray.Proofs.Variables

namespace Spray

open Triple

variable {W V : Type} {R : W → V → Prop} {env : Env W} {env' : Env V}

/-- The command shows something. -/
inductive Command.Looks : Command → Prop
  | printMemory (addr : RealAddr) (filter : PrintFilter) : Looks (.printMemory addr filter)
  | printRegister (reg : X86Reg) (filter : PrintFilter) : Looks (.printRegister reg filter)
  | printVariable (varName : String) (filter : PrintFilter) : Looks (.printVariable varName filter)
  | backtrace : Looks .backtrace

/-- The same program runs here and there, and tracees that `R` relates read the same. -/
structure ReadsAlike (R : W → V → Prop) (env : Env W) (env' : Env V) : Prop where
  info : env'.info = env.info
  registers : SameRegisters R env.pt env'.pt
  memory : ∀ addr w v, R w v → SameAnswer R (env.pt.peekData addr w) (env'.pt.peekData addr v)
  lookups : ∀ pc loadAddress varName w v, R w v → SameAnswer R
    (env.initVar pc loadAddress varName w) (env'.initVar pc loadAddress varName v)

/-- One debugger has shown what the other one has shown since `before`, and the breakpoints and
the load address are those of `before` still. -/
structure ShowsAlike (R : W → V → Prop) (before d : Debugger W) (d' : Debugger V) : Prop where
  tracee : R d.tracee d'.tracee
  output : d.output = before.output ++ d'.output
  breakpoints : d.breakpoints = before.breakpoints
  loadAddress_left : d.loadAddress = before.loadAddress
  loadAddress_right : d'.loadAddress = before.loadAddress

variable {before : Debugger W}

theorem request_lockstep {α : Type} {f : W → α × W} {g : V → α × V}
    (h : ∀ w v, R w v → SameAnswer R (f w) (g v)) :
    Lockstep (ShowsAlike R before) (request f) (request g) :=
  fun _ _ hd => ⟨(h _ _ hd.tracee).1, { hd with tracee := (h _ _ hd.tracee).2 }⟩

theorem say_lockstep (msg : Message) :
    Lockstep (ShowsAlike R before) (say msg) (say msg) :=
  fun d d' hd => ⟨rfl, { hd with
    output := by
      show d.output ++ [msg] = before.output ++ (d'.output ++ [msg])
      rw [hd.output, List.append_assoc] }⟩

theorem Reading.exec_lockstep {reading : Reading} {run : Command → DbgM W Unit}
    {run' : Command → DbgM V Unit}
    (h : ∀ command ∈ reading.command, Lockstep (ShowsAlike R before) (run command) (run' command)) :
    Lockstep (ShowsAlike R before) (reading.exec run) (reading.exec run') := by
  obtain ⟨msgs, command⟩ := reading
  refine (Lockstep.forM fun msg _ => say_lockstep msg).bind fun _ => ?_
  cases command with
  | none => exact .pure _
  | some command => exact h command rfl

namespace ReadsAlike

variable (alike : ReadsAlike R env env')

include alike

/-! ### Reading -/

theorem getRegister (reg : X86Reg) : Lockstep (ShowsAlike R before)
    (request (getRegisterValue env.pt reg)) (request (getRegisterValue env'.pt reg)) :=
  request_lockstep fun _ _ h => alike.registers.getRegister h reg

theorem readMemory (addr : RealAddr) : Lockstep (ShowsAlike R before)
    (request (ptReadMemory env.pt addr)) (request (ptReadMemory env'.pt addr)) :=
  request_lockstep fun w v h => alike.memory addr.value w v h

theorem getPc : Lockstep (ShowsAlike R before) (getPc env) (getPc env') := by
  refine (alike.getRegister .rip).bind fun read => ?_
  cases read with
  | none => exact .pure _
  | some store => exact .pure _

theorem getDbgPc :
    Lockstep (ShowsAlike R before) (getDbgPc env) (getDbgPc env') := by
  refine alike.getPc.bind fun pc => .get_bind fun d d' h => ?_
  rw [h.loadAddress_left, h.loadAddress_right]
  exact .pure _

/-! ### Printing -/

theorem printFiltered (value : Word) (filter : PrintFilter) (info : PrintValueInfo) :
    Lockstep (ShowsAlike R before) (printFiltered env value filter info)
      (printFiltered env' value filter info) := by
  cases filter with
  | DEREF =>
      refine (alike.readMemory _).bind fun deref => ?_
      cases deref with
      | none => exact say_lockstep _
      | some deref => exact say_lockstep _
  | _ => exact say_lockstep _

theorem execPrintMemory (addr : RealAddr) (filter : PrintFilter) :
    Lockstep (ShowsAlike R before) (execPrintMemory env addr filter)
      (execPrintMemory env' addr filter) := by
  refine (alike.readMemory addr).bind fun read => ?_
  cases read with
  | none => exact say_lockstep _
  | some read => exact alike.printFiltered _ _ _

theorem execPrintRegister (reg : X86Reg) (filter : PrintFilter) :
    Lockstep (ShowsAlike R before) (execPrintRegister env reg filter)
      (execPrintRegister env' reg filter) := by
  refine (alike.getRegister reg).bind fun read => ?_
  cases read with
  | none => exact say_lockstep _
  | some read => exact alike.printFiltered _ _ _

theorem initVar (varName : String) : Lockstep (ShowsAlike R before)
    (initVar env varName) (initVar env' varName) := by
  refine alike.getDbgPc.bind fun pc => .get_bind fun d d' h => ?_
  rw [h.loadAddress_left, h.loadAddress_right]
  exact request_lockstep fun w v hw => alike.lookups pc before.loadAddress varName w v hw

theorem readLocation (loc : SdLocation) : Lockstep (ShowsAlike R before)
    (readLocation env loc) (readLocation env' loc) := by
  cases loc with
  | addr addr => exact alike.readMemory addr
  | reg reg => exact alike.getRegister reg

theorem execPrintVariable (varName : String) (filter : PrintFilter) :
    Lockstep (ShowsAlike R before) (execPrintVariable env varName filter)
      (execPrintVariable env' varName filter) := by
  refine (alike.initVar varName).bind fun var => ?_
  cases var with
  | none => exact say_lockstep _
  | some var =>
      refine (alike.readLocation var.loc).bind fun value => ?_
      cases value with
      | none => exact say_lockstep _
      | some value => exact alike.printFiltered _ _ _

/-! ### Backtraces -/

theorem storesFramePointer (pc : DbgAddr) : Lockstep (ShowsAlike R before)
    (storesFramePointer env pc) (storesFramePointer env' pc) := by
  unfold Spray.storesFramePointer
  rw [alike.info]
  cases symByAddr pc env.info with
  | none => exact .pure _
  | some func =>
      refine .get_bind fun d d' h => ?_
      rw [h.loadAddress_left, h.loadAddress_right]
      refine (alike.readMemory _).bind fun instBytes => ?_
      cases instBytes with
      | none => exact .pure _
      | some instBytes => exact .pure _

theorem initCallFrame (pc : DbgAddr) (framePointer : RealAddr) :
    initCallFrame env' pc framePointer = initCallFrame env pc framePointer := by
  unfold Spray.initCallFrame
  rw [alike.info]

theorem initBacktraceLoop (fuel : Nat) : ∀ framePointer frames,
    Lockstep (ShowsAlike R before)
      (initBacktraceLoop env fuel framePointer frames)
      (initBacktraceLoop env' fuel framePointer frames) := by
  induction fuel with
  | zero => exact fun _ _ => .throw _
  | succ fuel ih =>
      intro framePointer frames
      unfold Spray.initBacktraceLoop
      split
      · exact .pure _
      · refine (alike.readMemory _).bind fun pc => ?_
        cases pc with
        | none => exact .pure _
        | some pc =>
            refine (alike.readMemory _).bind fun caller => ?_
            cases caller with
            | none => exact .pure _
            | some caller =>
                dsimp only
                rw [alike.initCallFrame]
                exact ih _ _

theorem initBacktrace (fuel : Nat) (pc : DbgAddr) :
    Lockstep (ShowsAlike R before) (initBacktrace env fuel pc)
      (initBacktrace env' fuel pc) := by
  refine (alike.getRegister .rbp).bind fun framePointer => ?_
  cases framePointer with
  | none => exact .pure _
  | some framePointer =>
      refine (alike.storesFramePointer pc).bind fun stores => ?_
      rw [alike.initCallFrame]
      cases stores with
      | true => exact alike.initBacktraceLoop fuel _ _
      | false => exact (say_lockstep _).bind fun _ => alike.initBacktraceLoop fuel _ _

theorem execBacktrace (fuel : Nat) : Lockstep (ShowsAlike R before)
    (execBacktrace env fuel) (execBacktrace env' fuel) := by
  refine alike.getDbgPc.bind fun pc => (alike.initBacktrace fuel pc).bind fun frames => ?_
  cases frames with
  | none => exact say_lockstep _
  | some frames => exact say_lockstep _

/-! ### Commands -/

theorem exec (fuel : Nat) {command : Command} (h : command.Looks) :
    Lockstep (ShowsAlike R before) (command.exec env fuel)
      (command.exec env' fuel) := by
  cases h with
  | printMemory addr filter => exact alike.execPrintMemory addr filter
  | printRegister reg filter => exact alike.execPrintRegister reg filter
  | printVariable varName filter => exact alike.execPrintVariable varName filter
  | backtrace => exact alike.execBacktrace fuel

end ReadsAlike

/-! ### Pictures -/

section Pictures

variable (l : Lookups) (read : Word → Option Word) (regs : Option Regs)

/-- The debugger has nothing but a picture, and has not shown anything. -/
def Debugger.atPicture (loadAddress : RealAddr) : Debugger Unit :=
  ⟨⟨initBreakpoints, ()⟩, loadAddress, []⟩

/-- What a line comes to in front of the picture. -/
def look (env : Env W) (fuel : Nat) (loadAddress : RealAddr) (reading : Reading) :
    EStateM.Result Halt (Debugger Unit) Unit :=
  reading.exec (Command.exec (env.on l (stillPtrace read regs)) fuel) (.atPicture loadAddress)

/-- What is shown of the picture line by line, until one of the lines does not return. -/
def looks (env : Env W) (fuel : Nat) (loadAddress : RealAddr) :
    List Reading → List Message × Option Halt
  | [] => ([], none)
  | reading :: rest =>
    match look l read regs env fuel loadAddress reading with
    | .ok _ d => (d.output ++ (looks env fuel loadAddress rest).1,
        (looks env fuel loadAddress rest).2)
    | .error e d => (d.output, some e)

/-- Return, or do not return for that reason. -/
def Debugger.stoppedBy (d : Debugger W) : Option Halt → EStateM.Result Halt (Debugger W) Unit
  | none => .ok () d
  | some e => .error e d

end Pictures

variable {still : W → Prop} {read : Word → Option Word} {regs : Option Regs} {l : Lookups}
  {lineEntryAt : String → Nat → LineEntry} {fuel : Nat}

theorem picture_readsAlike (hstill : StandsStill env.pt still read regs)
    (hlookup : env.LooksUp l) :
    ReadsAlike (fun w () => still w) env (env.on l (stillPtrace read regs)) := by
  have hregs : SameRegisters (fun w () => still w) env.pt (stillPtrace read regs) :=
    fun w _ h => ⟨hstill.get_val w h, hstill.get_still w h⟩
  exact ⟨rfl, hregs, fun addr w _ h => ⟨hstill.peek_val addr w h, hstill.peek_still addr w h⟩,
    fun pc loadAddress varName _ _ h => hlookup.same hregs pc loadAddress varName h⟩

/-- `d` has been looked at, and has shown `msgs`. -/
structure Shown (still : W → Prop) (before : Debugger W) (msgs : List Message)
    (d : Debugger W) : Prop where
  tracee : still d.tracee
  output : d.output = before.output ++ msgs
  breakpoints : d.breakpoints = before.breakpoints
  loadAddress : d.loadAddress = before.loadAddress

/-- One line shows what it shows of the picture. -/
theorem reading_looks (hstill : StandsStill env.pt still read regs) (hlookup : env.LooksUp l)
    {reading : Reading} (hlooks : ∀ command ∈ reading.command, command.Looks) {d : Debugger W}
    (hd : still d.tracee) :
    (∃ seen d', look l read regs env fuel d.loadAddress reading = .ok () seen ∧
      reading.exec (Command.exec env fuel) d = .ok () d' ∧ Shown still d seen.output d') ∨
    ∃ e seen d', look l read regs env fuel d.loadAddress reading = .error e seen ∧
      reading.exec (Command.exec env fuel) d = .error e d' ∧ Shown still d seen.output d' := by
  have hstart : ShowsAlike (fun w () => still w) d d (.atPicture d.loadAddress) :=
    ⟨hd, (List.append_nil _).symm, rfl, rfl, rfl⟩
  have hend : Lockstep (ShowsAlike (fun w () => still w) d) (reading.exec (Command.exec env fuel))
      (reading.exec (Command.exec (env.on l (stillPtrace read regs)) fuel)) :=
    Reading.exec_lockstep fun command hcommand =>
      (picture_readsAlike hstill hlookup).exec fuel (hlooks command hcommand)
  rcases hend.ends hstart with ⟨_, d', seen, hrun, hlook, h⟩ | ⟨e, d', seen, hrun, hlook, h⟩
  · exact .inl ⟨seen, d', hlook, hrun, h.tracee, h.output, h.breakpoints, h.loadAddress_left⟩
  · exact .inr ⟨e, seen, d', hlook, hrun, h.tracee, h.output, h.breakpoints, h.loadAddress_left⟩

theorem readings_look (hstill : StandsStill env.pt still read regs) (hlookup : env.LooksUp l)
    (readings : List Reading) : ∀ d : Debugger W, still d.tracee →
      (∀ reading ∈ readings, ∀ command ∈ reading.command, command.Looks) →
      ∃ d', readings.forM (Reading.exec (Command.exec env fuel)) d =
          d'.stoppedBy (looks l read regs env fuel d.loadAddress readings).2 ∧
        Shown still d (looks l read regs env fuel d.loadAddress readings).1 d' := by
  induction readings with
  | nil => exact fun d hd _ => ⟨d, rfl, hd, (List.append_nil _).symm, rfl, rfl⟩
  | cons reading rest ih =>
      intro d hd hlooks
      have hfirst : ∀ command ∈ reading.command, command.Looks :=
        hlooks reading List.mem_cons_self
      have hend : (∃ seen d', look l read regs env fuel d.loadAddress reading =
          .ok () seen ∧ _) ∨ _ :=
        reading_looks hstill hlookup hfirst hd
      rcases hend with ⟨seen, d', hlook, hrun, hshown⟩ | ⟨e, seen, d', hlook, hrun, hshown⟩
      · obtain ⟨d'', hrest, hend⟩ := ih d' hshown.tracee
          fun other hother => hlooks other (List.mem_cons_of_mem _ hother)
        rw [hshown.loadAddress] at hrest hend
        refine ⟨d'', ?_, hend.tracee, ?_, hend.breakpoints.trans hshown.breakpoints,
          hend.loadAddress.trans hshown.loadAddress⟩
        · rw [looks, hlook]
          exact (bind_run hrun).trans hrest
        · rw [hend.output, hshown.output, looks, hlook, List.append_assoc]
      · refine ⟨d', ?_, ?_⟩
        · rw [looks, hlook]
          exact bind_error hrun
        · rw [looks, hlook]
          exact hshown

/-- A tracee that counts how often it is read. -/
def countedPtrace : Ptrace Nat where
  peekData a n := (stackWord a, n + 1)
  pokeData _ _ n := (false, n)
  getRegs n := (some (Function.update stackRegs .rip 0x1004), n + 1)
  setRegs _ n := (false, n)
  cont n := (some .ESRCH, n)
  singleStep n := (false, n)
  getSigInfo n := (none, n)
  waitpid n := (.blocked, n)

theorem countedPtrace_standsStill : StandsStill countedPtrace (fun _ => True) stackWord
    (some (Function.update stackRegs .rip 0x1004)) :=
  ⟨fun _ _ _ => rfl, fun _ _ _ => trivial, fun _ _ => rfl, fun _ _ => trivial⟩

/-- Variables of this program are on the stack. -/
def countedLookups : Lookups where
  dbg := .ofTrees shadowing []
  getLoclist := constLoclist [⟨DW_OP_addr, 0x7fffffffe008⟩]
  offdie := intOffdie
  variableType := typeWithin intOffdie 1
  top := .addr ⟨0⟩
  fuel := 1

theorem countedLookups_isSome (ctx : SdLocEvalCtx W) (varName : String) (w : W) :
    (countedLookups.initVar ctx varName w).isSome := by
  unfold Lookups.initVar initVarWithin
  cases (sdRuntimeVariable countedLookups.offdie countedLookups.variableType ctx.pc varName
      countedLookups.dbg).1 with
  | none => rfl
  | some found => rfl

def countedEnv : Env Nat :=
  { strippedEnv countedPtrace with
    initVar := fun pc loadAddress varName n =>
      (countedLookups.initVar ⟨countedPtrace, pc, ⟨.EXEC, []⟩, loadAddress⟩ varName n).getD
        (none, n) }

theorem countedEnv_looksUp : countedEnv.LooksUp countedLookups := by
  show ((strippedEnv countedPtrace).on countedLookups countedPtrace).LooksUp countedLookups
  exact Env.on_looksUp countedLookups_isSome

def lookingLines : List String := ["p x", "a", "p %rip", "p 10 | deref", ""]

theorem lookingLines_look : ∀ reading ∈ readLines countedEnv.info (fun _ _ => {}) ⟨0⟩ none
    lookingLines, ∀ command ∈ reading.command, command.Looks := by
  have hread : (readLines countedEnv.info (fun _ _ => {}) ⟨0⟩ none lookingLines).map
      (·.command) = [some (.printVariable "x" .NONE), some .backtrace,
        some (.printRegister .rip .NONE), some (.printMemory ⟨0x10⟩ .DEREF),
        some (.printMemory ⟨0x10⟩ .DEREF)] := by decide +kernel
  intro reading hmem command hcommand
  have hlisted : some command ∈ (readLines countedEnv.info (fun _ _ => {}) ⟨0⟩ none
      lookingLines).map (·.command) := Option.mem_def.mp hcommand ▸ List.mem_map_of_mem hmem
  simp only [hread, List.mem_cons, Option.some.injEq, List.not_mem_nil, or_false] at hlisted
  rcases hlisted with rfl | rfl | rfl | rfl | rfl
  · exact .printVariable "x" .NONE
  · exact .backtrace
  · exact .printRegister .rip .NONE
  · exact .printMemory ⟨0x10⟩ .DEREF
  · exact .printMemory ⟨0x10⟩ .DEREF

variable {history : Option String} {lines : List String} {d : Debugger W}

/-- **Looking changes nothing, and shows the picture.**  As long as nothing but `print` and
`backtrace` is typed, each line shows what it shows of a picture of the tracee on its own,
whatever has been looked at before.  The breakpoints stay, and the tracee stands still. -/
theorem promptLoop_looks (hstill : StandsStill env.pt still read regs) (hlookup : env.LooksUp l)
    (hlooks : ∀ reading ∈ readLines env.info lineEntryAt d.loadAddress history lines,
      ∀ command ∈ reading.command, command.Looks) (hd : still d.tracee) :
    ∃ d', promptLoop env.info lineEntryAt (Command.exec env fuel) history lines d =
        d'.stoppedBy (looks l read regs env fuel d.loadAddress
          (readLines env.info lineEntryAt d.loadAddress history lines)).2 ∧
      Shown still d (looks l read regs env fuel d.loadAddress
        (readLines env.info lineEntryAt d.loadAddress history lines)).1 d' := by
  rw [promptLoop_eq_readings]
  exact readings_look hstill hlookup _ d hd hlooks

theorem promptLoop_looks_counted :
    ∃ d', promptLoop countedEnv.info (fun _ _ => {}) (Command.exec countedEnv 9) none lookingLines
        ⟨⟨initBreakpoints, 0⟩, ⟨0⟩, []⟩ =
        d'.stoppedBy (looks countedLookups stackWord (some (Function.update stackRegs .rip 0x1004))
          countedEnv 9 ⟨0⟩ (readLines countedEnv.info (fun _ _ => {}) ⟨0⟩ none lookingLines)).2 ∧
      Shown (fun _ => True) ⟨⟨initBreakpoints, 0⟩, ⟨0⟩, []⟩
        (looks countedLookups stackWord (some (Function.update stackRegs .rip 0x1004)) countedEnv 9
          ⟨0⟩ (readLines countedEnv.info (fun _ _ => {}) ⟨0⟩ none lookingLines)).1 d' :=
  promptLoop_looks countedPtrace_standsStill countedEnv_looksUp lookingLines_look trivial

end Spray
