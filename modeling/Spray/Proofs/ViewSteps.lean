/-
The stepping operations, as the user sees them.

Each operation puts traps in and takes them out again around one wait.  All that is left of
it in the view is the program running on; and if the program exits on the way, that is what
the debugger has printed, whatever else it goes on to do.
-/
import Spray.Proofs.StepOverBreakpoints
import Spray.Proofs.Stepping
import Spray.Proofs.Waits

namespace Spray

open Triple

variable {X : Type} {s : Debuggee X} {codes : StopCodes} {limit fuel : Nat} {st : RunState}
  {code : SiCode} {v : View X} {d : Debugger (Machine X)} {out : List Message}

/-! ### A program that has exited -/

theorem Exited.of_same {d' : Debugger (Machine X)} (h : Exited out d)
    (hstate : d'.tracee.state = d.tracee.state) (houtput : d'.output = d.output) :
    Exited out d' := ⟨hstate.trans h.exited, houtput ▸ h.output⟩

theorem Exited.isStopped (h : Exited out d) : d.tracee.isStopped = false := by
  unfold Machine.isStopped
  rw [h.exited]

theorem Exited.request {α : Type} {f : Machine X → α × Machine X}
    (hsame : ∀ m : Machine X, m.isStopped = false → (f m).2 = m) :
    Holds (Exited out) (request f) (fun _ => Exited out) (fun _ => Exited out) := by
  intro d h
  exact h.of_same (congrArg Machine.state (hsame d.tracee h.isStopped)) rfl

theorem getRegisterValue_exited {p : Program X} (reg : X86Reg) (m : Machine X)
    (h : m.isStopped = false) : (getRegisterValue (p.ptrace codes limit) reg m).2 = m := by
  unfold getRegisterValue ptReadRegisters
  simp [Program.ptrace, h]

theorem setRegisterValue_exited {p : Program X} (reg : X86Reg) (word : Word) (m : Machine X)
    (h : m.isStopped = false) : (setRegisterValue (p.ptrace codes limit) reg word m).2 = m := by
  unfold setRegisterValue ptReadRegisters
  simp [Program.ptrace, h]

theorem ptWriteMemory_exited {p : Program X} (addr : RealAddr) (word : Word) (m : Machine X)
    (h : m.isStopped = false) : (ptWriteMemory (p.ptrace codes limit) addr word m).2 = m := by
  unfold ptWriteMemory
  simp [Program.ptrace, h]

theorem ptSingleStep_exited {p : Program X} (m : Machine X) (h : m.isStopped = false) :
    (ptSingleStep (p.ptrace codes limit) m).2 = m := by
  unfold ptSingleStep
  simp [Program.ptrace, h]

theorem ptContinueExecution_exited {p : Program X} (m : Machine X) (h : m.isStopped = false) :
    ptContinueExecution (p.ptrace codes limit) m = (some .ESRCH, m) := by
  unfold ptContinueExecution
  simp [Program.ptrace, h]

theorem awaitStatus_exited (h : Exited out d) :
    awaitStatus (s.env codes limit).pt d = .error .undefined d := by
  show awaitStatus (s.program.ptrace codes limit) d = _
  unfold awaitStatus
  simp [Program.ptrace, h.exited]

/-- **Once the program has exited, no command brings it back or takes back what has been
printed.** -/
theorem exited_invariant (s : Debuggee X) (codes : StopCodes) (limit : Nat)
    (out : List Message) :
    CommandInvariant (s.env codes limit) (Exited out) (fun _ => Exited out) where
  getRegister reg := Exited.request (getRegisterValue_exited reg)
  setRegister reg word := Exited.request (setRegisterValue_exited reg word)
  readMemory addr := Exited.request fun _ _ => rfl
  writeMemory addr word := Exited.request (ptWriteMemory_exited addr word)
  singleStep := Exited.request ptSingleStep_exited
  cont := Exited.request fun m h => congrArg Prod.snd (ptContinueExecution_exited m h)
  getSigInfo := by
    refine Exited.request fun m h => ?_
    show (ptGetSignalInfo (s.program.ptrace codes limit) m).2 = m
    unfold ptGetSignalInfo
    cases hs : m.state with
    | stopped code => simp [Program.ptrace, hs]
    | _ => simp [Program.ptrace, hs]
  await := by
    intro d h
    rw [awaitStatus_exited h]
    exact h
  enable addr := by
    intro d h
    have hframe : (enableBreakpoint (s.program.ptrace codes limit) addr d.toStore).2.tracee.frame =
        d.tracee.frame := enableBreakpoint_frame peek_frame poke_frame addr d.toStore
    exact h.of_same (congrArg (·.2.2.1) hframe) rfl
  disable addr := by
    intro d h
    have hframe : (disableBreakpoint (s.program.ptrace codes limit) addr d.toStore).2.tracee.frame =
        d.tracee.frame := disableBreakpoint_frame peek_frame poke_frame addr d.toStore
    exact h.of_same (congrArg (·.2.2.1) hframe) rfl
  say msg := fun d h => ⟨h.exited, h.output.trans (List.prefix_append _ _)⟩
  findVariable pc loadAddress varName := Exited.request fun _ _ => rfl
  halt _ _ := id

/-! ### Stepping off a breakpoint -/

/-- The user's breakpoints are what they were. -/
theorem View.restored {during after : RealAddr → Bool} (h : after = v.enabled) (c : Cpu X) :
    ((v.withEnabled during).withCpu c).withEnabled after = v.withCpu c :=
  congrArg (v.withCpu c).withEnabled h

/-- A wait for a tracee that is gone does not return. -/
theorem waitForSignal_gone {Q : SprayResult → Debugger (Machine X) → Prop} (fuel : Nat) :
    Holds (Exited out) (waitForSignal (s.env codes limit) fuel) Q (fun _ => Exited out) := by
  cases fuel with
  | zero => exact Holds.throw fun _ => id
  | succ fuel =>
      intro d h
      rw [waitForSignal, bind_error (awaitStatus_exited h)]
      exact h

theorem singleStepBreakpoint_off (h : Shadows s (.stopped code) v d)
    (hoff : v.enabled v.pc = false) (wait : DbgM (Machine X) SprayResult) :
    singleStepBreakpoint (s.env codes limit) wait d = .ok .ok d := by
  unfold singleStepBreakpoint
  rw [bind_run h.getPc, bind_run (get_run d), h.enabled, hoff]
  rfl

theorem Shadows.singleStep (h : Shadows s (.stopped code) v d) (codes : StopCodes) (limit : Nat) :
    ∃ d', request (ptSingleStep (s.env codes limit).pt) d = .ok .ok d' ∧
      Shadows s .stepping v d' := by
  refine ⟨{ d with tracee := { d.tracee with state := .stepping } }, ?_, h.withState _⟩
  show request (ptSingleStep (s.program.ptrace codes limit)) d = _
  unfold request ptSingleStep
  simp [Program.ptrace, h.isStopped, SprayResult.ofBool]

theorem Shadows.cont (h : Shadows s (.stopped code) v d) (codes : StopCodes) (limit : Nat) :
    ∃ d', request (ptContinueExecution (s.env codes limit).pt) d = .ok none d' ∧
      Shadows s .continuing v d' := by
  refine ⟨{ d with tracee := { d.tracee with state := .continuing } }, ?_, h.withState _⟩
  show request (ptContinueExecution (s.program.ptrace codes limit)) d = _
  unfold request ptContinueExecution
  simp [Program.ptrace, h.isStopped]

/-- The breakpoint is out of the way for one instruction, and put back. -/
theorem singleStepBreakpoint_on (hon : v.enabled v.pc = true) (fuel : Nat) :
    Holds (Stands s v)
      (singleStepBreakpoint (s.env codes limit) (waitForSignal (s.env codes limit) fuel))
      (fun _ => Came s v (some (s.program.step v.cpu)) .ok) (fun _ _ => fuel = 0) := by
  rintro d ⟨code, h⟩
  obtain ⟨d₁, hdisable, h₁⟩ := h.disable codes limit v.pc
  obtain ⟨d₂, hstep, h₂⟩ := h₁.singleStep codes limit
  have hoff : Function.update v.enabled v.pc false v.pc = false := Function.update_self ..
  have hback : Function.update (Function.update v.enabled v.pc false) v.pc true = v.enabled := by
    rw [Function.update_idem, ← hon, Function.update_eq_self]
  unfold singleStepBreakpoint
  rw [bind_run h.getPc, bind_run (get_run d), h.enabled, hon, if_pos rfl, bind_run hdisable,
    bind_run hstep]
  refine Holds.bind (waitForSignal_stepping (v := v.withEnabled (Function.update v.enabled v.pc
    false)) hoff fuel) (fun res => ?_) d₂ h₂
  cases hnext : s.program.step (v.withEnabled (Function.update v.enabled v.pc false)).cpu with
  | ok c =>
      rintro d₃ ⟨-, code', h₃⟩
      obtain ⟨d₄, henable, h₄⟩ := h₃.enable codes limit (show s.program.boundary v.pc.value from
        h.boundary)
      rw [bind_run henable, show s.program.step v.cpu = .ok c from hnext]
      exact ⟨rfl, code', View.restored hback c ▸ h₄⟩
  | error e =>
      rw [show s.program.step v.cpu = .error e from hnext]
      exact fun d₃ h₃ => (exited_invariant s codes limit _).enable v.pc d₃ h₃

/-! ### Continuing -/

/-- The tracee is on its way from off the breakpoint it may have been on, or has exited. -/
inductive Continued (s : Debuggee X) (v : View X) (d : Debugger (Machine X)) :
    SprayResult → Prop
  | running {c : Cpu X} (off : Off s.program v.enabled v.cpu c)
      (h : Shadows s .continuing (v.withCpu c) d) : Continued s v d .ok
  | exited {e : Nat} (hstep : s.program.step v.cpu = .error e)
      (h : Exited (v.output ++ [.childExited e]) d) : Continued s v d .err

theorem cont_exited (h : Exited out d) :
    request (ptContinueExecution (s.env codes limit).pt) d = .ok (some .ESRCH) d := by
  show request (ptContinueExecution (s.program.ptrace codes limit)) d = _
  unfold request
  rw [ptContinueExecution_exited _ h.isStopped]

theorem continueExecution_continued (fuel : Nat) :
    Holds (Stands s v)
      (continueExecution (s.env codes limit) (waitForSignal (s.env codes limit) fuel))
      (fun res d => Continued s v d res) (fun _ _ => fuel = 0) := by
  cases hon : v.enabled v.pc with
  | false =>
      rintro d ⟨code, h⟩
      obtain ⟨d', hcont, h'⟩ := h.cont codes limit
      unfold continueExecution
      rw [bind_run (singleStepBreakpoint_off h hon _), bind_run hcont]
      exact .running (.plain hon) h'
  | true =>
      refine Holds.bind (singleStepBreakpoint_on hon fuel) fun _ => ?_
      cases hstep : s.program.step v.cpu with
      | ok c =>
          rintro d ⟨-, code, h⟩
          obtain ⟨d', hcont, h'⟩ := h.cont codes limit
          rw [bind_run hcont]
          exact .running (.stepped hstep) h'
      | error e =>
          intro d h
          rw [bind_run (cont_exited h)]
          refine .exited hstep ⟨h.exited, ?_⟩
          exact h.output.trans (List.prefix_append _ _)

/-- Where the program gets to from off the breakpoint is where it is resumed to. -/
theorem Came.resume {c : Cpu X} (off : Off s.program v.enabled v.cpu c) {res : SprayResult}
    (h : Came s (v.withCpu c) (s.program.runUntil v.enabled limit c) res d) :
    Came s v (s.program.resume v.enabled limit v.cpu) res d := by
  cases hrun : s.program.runUntil v.enabled limit c with
  | none => rw [hrun] at h; exact h.elim
  | some r =>
      rw [hrun] at h
      rw [off.resume hrun]
      cases r with
      | ok c' => exact h
      | error e => exact h

/-- The debugger has run out of time before the program got anywhere, or has lost it. -/
def GaveUp (limit fuel : Nat) (o : Nat → Option (Except Nat (Cpu X))) (out : List Message)
    (d : Debugger (Machine X)) : Prop :=
  (∀ n, n < limit → n < fuel → o n = none) ∨
    ∃ e, o limit = some (.error e) ∧ Exited (out ++ [.childExited e]) d

/-- The wait after that ends where the program is resumed to. -/
theorem Continued.wait (fuel : Nat) (res : SprayResult) :
    Holds (fun d => Continued s v d res) (waitForSignal (s.env codes limit) fuel)
      (Came s v (s.program.resume v.enabled limit v.cpu))
      (fun _ => GaveUp limit fuel (s.program.resume v.enabled · v.cpu) v.output) := by
  intro d h
  cases h with
  | @running c off h =>
      refine (waitForSignal_continuing fuel).conseq (fun _ => id) (fun res d h => h.resume off)
        (fun _ d h => .inl fun n hn hfuel => ?_) d h
      rcases h with hzero | hnone
      · exact absurd hfuel (hzero ▸ Nat.not_lt_zero n)
      · exact off.resume_none hnone hn
  | @exited e hstep h =>
      refine (waitForSignal_gone fuel).conseq (fun _ => id) (fun _ _ => id)
        (fun _ d h => .inr ⟨e, ?_, h⟩) d h
      unfold Program.resume
      rw [hstep]

/-- **Continuing and waiting leads to where the program is resumed to.** -/
theorem continueAndWait_came (fuel : Nat) :
    Holds (Stands s v)
      (do
        let _ ← continueExecution (s.env codes limit) (waitForSignal (s.env codes limit) fuel)
        waitForSignal (s.env codes limit) fuel)
      (Came s v (s.program.resume v.enabled limit v.cpu))
      (fun _ => GaveUp limit fuel (s.program.resume v.enabled · v.cpu) v.output) := by
  refine Holds.bind ((continueExecution_continued fuel).conseq (fun _ => id) (fun _ _ => id) ?_)
    (Continued.wait fuel)
  exact fun _ _ hzero => .inl fun n _ hn => absurd hn (hzero ▸ Nat.not_lt_zero n)

/-! ### Single steps -/

/-- One instruction is executed, on a breakpoint or off one. -/
theorem singleStepInstruction_came (fuel : Nat) :
    Holds (Stands s v) (singleStepInstruction (s.env codes limit) fuel)
      (Came s v (some (s.program.step v.cpu))) (fun _ _ => fuel = 0) := by
  rintro d ⟨code, h⟩
  unfold singleStepInstruction
  rw [bind_run h.getPc, bind_run (get_run d), h.enabled]
  cases hon : v.enabled v.pc with
  | true =>
      rw [if_pos rfl]
      refine Holds.bind (singleStepBreakpoint_on hon fuel) (fun _ => ?_) d ⟨code, h⟩
      exact Holds.pure fun _ => id
  | false =>
      rw [if_neg Bool.false_ne_true]
      obtain ⟨d', hstep, h'⟩ := h.singleStep codes limit
      rw [bind_run hstep]
      exact waitForSignal_stepping hon fuel d' h'

/-! ### Stepping out -/

/-- The return address has its breakpoint; it is to be removed if the user has none there. -/
theorem setReturnAddressBreakpoint_shadows (h : Shadows s (.stopped code) v d)
    (may : s.MayReturn v) (codes : StopCodes) (limit : Nat) :
    ∃ d', setReturnAddressBreakpoint (s.env codes limit) d =
      .ok (!v.enabled v.returnAddress, v.returnAddress) d' ∧
      Shadows s (.stopped code)
        (v.withEnabled (Function.update v.enabled v.returnAddress true)) d' := by
  have hread : request (ptReadMemory (s.env codes limit).pt ⟨v.cpu.regs .rbp + 8⟩) d =
      .ok (some v.returnAddress.value) d := h.readMemory (h.untrapped may.1)
  unfold setReturnAddressBreakpoint
  rw [bind_run (h.getRegister .rbp)]
  dsimp only
  rw [bind_run hread, bind_run (get_run d)]
  have hlookup : lookupBreakpoint d.breakpoints v.returnAddress = v.enabled v.returnAddress :=
    h.enabled _
  cases hon : v.enabled v.returnAddress with
  | true =>
      refine ⟨d, congrFun (if_pos (hlookup.trans hon)) d, ?_⟩
      rw [← hon, Function.update_eq_self]
      exact h
  | false =>
      obtain ⟨d', henable, h'⟩ := h.enable codes limit may.2
      have hoff : ¬ lookupBreakpoint d.breakpoints v.returnAddress = true := by
        rw [hlookup, hon]
        exact Bool.false_ne_true
      exact ⟨d', (congrFun (if_neg hoff) d).trans (bind_run henable), h'⟩

/-- Taking a breakpoint out changes nothing about where the program has got to. -/
theorem disable_came {w : View X} {o : Option (Except Nat (Cpu X))} (res : SprayResult)
    (addr : RealAddr) :
    Holds (Came s w o res) (onStore (disableBreakpoint (s.env codes limit).pt addr))
      (fun _ => Came s (w.withEnabled (Function.update w.enabled addr false)) o res)
      (fun _ _ => False) := by
  intro d h
  cases o with
  | none => exact h.elim
  | some r =>
      cases r with
      | ok c =>
          obtain ⟨hres, code, h⟩ := h
          obtain ⟨d', hdisable, h'⟩ := h.disable codes limit addr
          rw [hdisable]
          exact ⟨hres, code, h'⟩
      | error e => exact (exited_invariant s codes limit _).disable addr d h

/-- With the breakpoint for the step gone, the user's are left. -/
theorem removeInternalBreakpoint_came {o : Option (Except Nat (Cpu X))} {remove : Bool}
    {addr : RealAddr} (res : SprayResult) (hoff : remove = true → v.enabled addr = false) :
    Holds
      (Came s (v.withEnabled (if remove then Function.update v.enabled addr true else v.enabled))
        o res)
      (removeInternalBreakpoint (s.env codes limit) remove addr)
      (fun _ => Came s v o res) (fun _ _ => False) := by
  refine Holds.ite (fun hremove => ?_) fun hremove => Holds.pure fun d h => ?_
  · refine Holds.bind (disable_came res addr) fun _ => Holds.pure fun d h => ?_
    have hback : Function.update (if remove then Function.update v.enabled addr true else v.enabled)
        addr false = v.enabled := by
      rw [if_pos hremove, Function.update_idem, ← hoff hremove, Function.update_eq_self]
    exact (congrArg (Came s · o res d) (congrArg v.withEnabled hback)).mp h
  · rw [hremove, if_neg Bool.false_ne_true] at h
    exact h

/-- **Stepping out leads to where the program is resumed to, with a breakpoint on its return
address.** -/
theorem stepOut_came (may : s.MayReturn v) (fuel : Nat) :
    Holds (Stands s v) (stepOut (s.env codes limit) fuel)
      (Came s v (s.program.resume (Function.update v.enabled v.returnAddress true) limit v.cpu))
      (fun _ => GaveUp limit fuel
        (s.program.resume (Function.update v.enabled v.returnAddress true) · v.cpu)
        v.output) := by
  rintro d ⟨code, h⟩
  obtain ⟨d₁, hset, h₁⟩ := setReturnAddressBreakpoint_shadows h may codes limit
  unfold stepOut
  rw [bind_run hset]
  refine Holds.assoc (Holds.bind (continueAndWait_came fuel) fun res => ?_) d₁ ⟨code, h₁⟩
  have hset : Function.update v.enabled v.returnAddress true =
      if !v.enabled v.returnAddress then Function.update v.enabled v.returnAddress true
      else v.enabled := by
    cases hon : v.enabled v.returnAddress with
    | false => rfl
    | true => exact Function.update_eq_self_iff.mpr hon.symm
  have hoff : (!v.enabled v.returnAddress) = true → v.enabled v.returnAddress = false :=
    Bool.not_eq_true' _ |>.mp
  refine Holds.bind ((removeInternalBreakpoint_came res hoff).conseq (fun d h => ?_)
    (fun _ _ => id) fun _ _ => False.elim) fun _ => Holds.pure fun _ => id
  rw [← hset]
  exact h

/-! ### Stepping over -/

/-- The lines so far have their breakpoints, if they begin where instructions do. -/
structure Marked (s : Debuggee X) (v : View X) (skipLine : Nat) (lines : List LineEntry)
    (toDel : List RealAddr) (d : Debugger (Machine X)) : Prop where
  stands : Stands s (v.withEnabled (withAll v.enabled toDel)) d
  fresh : ∀ a ∈ toDel, v.enabled a = false
  marks : ∀ a, withAll v.enabled toDel a = (v.enabled a ||
    lines.any fun line => line.ln ≠ skipLine && lineAddr v.loadAddress line = a)

theorem withAll_append (enabled : RealAddr → Bool) (toDel : List RealAddr) (addr : RealAddr) :
    withAll enabled (toDel ++ [addr]) = Function.update (withAll enabled toDel) addr true := by
  funext a
  by_cases ha : a = addr
  · simp [withAll, ha]
  · simp [withAll, ha]

theorem callbackSetDwarfLineBreakpoint_marked {skipLine : Nat} {lines : List LineEntry}
    {toDel : List RealAddr} (line : LineEntry)
    (hline : line.ln ≠ skipLine → s.program.boundary (lineAddr v.loadAddress line).value) :
    Holds (Marked s v skipLine lines toDel)
      (callbackSetDwarfLineBreakpoint (s.env codes limit) v.loadAddress skipLine toDel line)
      (Marked s v skipLine (lines ++ [line])) (fun _ _ => False) := by
  rintro d ⟨⟨code, h⟩, hfresh, hmarks⟩
  have hlast : ∀ a, (lines ++ [line]).any (fun line =>
      line.ln ≠ skipLine && lineAddr v.loadAddress line = a) =
      ((lines.any fun line => line.ln ≠ skipLine && lineAddr v.loadAddress line = a) ||
        (line.ln ≠ skipLine && lineAddr v.loadAddress line = a)) := by
    intro a
    rw [List.any_append, List.any_cons, List.any_nil, Bool.or_false]
  rw [callbackSetDwarfLineBreakpoint_run, h.enabled]
  by_cases hset : skipLine ≠ line.ln ∧
      !(v.withEnabled (withAll v.enabled toDel)).enabled (lineAddr v.loadAddress line)
  · rw [if_pos hset]
    obtain ⟨hne, hoff⟩ := hset
    have hoff' : withAll v.enabled toDel (lineAddr v.loadAddress line) = false := by
      simpa [View.withEnabled] using hoff
    obtain ⟨d', henable, h'⟩ := h.enable codes limit (hline (Ne.symm hne))
    have hstate : d' = { d with toStore := (enableBreakpoint (s.env codes limit).pt
        (lineAddr v.loadAddress line) d.toStore).2 } :=
      ((EStateM.Result.ok.inj henable).2).symm
    subst hstate
    have hadd := withAll_append v.enabled toDel (lineAddr v.loadAddress line)
    refine ⟨⟨code, ?_⟩, fun a ha => ?_, fun a => ?_⟩
    · have hput := congrArg v.withEnabled hadd
      exact hput ▸ h'
    · rcases List.mem_append.mp ha with ha | ha
      · exact hfresh a ha
      · rw [List.mem_singleton.mp ha]
        exact (Bool.or_eq_false_iff.mp hoff').1
    · rw [hadd, hlast]
      by_cases ha : a = lineAddr v.loadAddress line
      · simp [ha, Ne.symm hne]
      · rw [Function.update_of_ne ha, hmarks]
        simp [Ne.symm ha]
  · rw [if_neg hset]
    refine ⟨⟨code, h⟩, hfresh, fun a => ?_⟩
    rw [hlast, hmarks]
    by_cases ha : lineAddr v.loadAddress line = a
    · by_cases hne : skipLine = line.ln
      · simp [hne]
      · have hon : withAll v.enabled toDel a = true := by
          rw [← ha]
          simpa [hne, View.withEnabled] using hset
        rw [hmarks] at hon
        rw [← Bool.or_assoc, hon, Bool.true_or]
    · simp [ha]

/-- Without an offset, a line begins where the executable has it. -/
theorem lineAddr_unrelocated {loadAddress : RealAddr} (h : loadAddress.value = 0)
    (line : LineEntry) : lineAddr loadAddress line = dbgToReal loadAddress line.addr := by
  unfold lineAddr dbgToReal
  rw [h]
  exact congrArg RealAddr.mk ((BitVec.sub_zero _).trans (BitVec.add_zero _).symm)

variable {func : DebugSymbol} {others : RealAddr → Bool}

/-- The other lines of the function have their breakpoints, and which they are is known. -/
theorem setStepOverBreakpoints_marked (hothers : s.otherLines v func = some others)
    (hload : v.loadAddress.value = 0)
    (hstarts : ∀ a, others a = true → s.program.boundary a.value) :
    Holds (Stands s v) (setStepOverBreakpoints (s.env codes limit) func)
      (fun r d => ∃ toDel, r = some toDel ∧ (∀ a ∈ toDel, v.enabled a = false) ∧
        (∀ a, withAll v.enabled toDel a = (v.enabled a || others a)) ∧
        Stands s (v.withEnabled (withAll v.enabled toDel)) d) (fun _ _ => False) := by
  unfold Debuggee.otherLines at hothers
  cases hpos : symPosition func s.info with
  | none => rw [hpos] at hothers; cases hothers
  | some pos =>
      cases hpath : symFilepath func s.info with
      | none => rw [hpos, hpath] at hothers; cases hothers
      | some filepath =>
          rw [hpos, hpath] at hothers
          cases hothers
          set lines := s.info.dbg.sdForEachLine (symName func) filepath
          have hline : ∀ line ∈ lines, line.ln ≠ pos.line →
              s.program.boundary (lineAddr v.loadAddress line).value := by
            intro line hmem hne
            refine hstarts _ (List.any_eq_true.mpr ⟨line, hmem, ?_⟩)
            rw [lineAddr_unrelocated hload]
            simp [hne]
          have hfold : Holds (Marked s v pos.line [] [])
              (lines.foldlM (callbackSetDwarfLineBreakpoint (s.env codes limit) v.loadAddress
                pos.line) []) (Marked s v pos.line ([] ++ lines)) (fun _ _ => False) :=
            Holds.foldlM_mem (I := Marked s v pos.line) lines (fun before toDel line hmem =>
              callbackSetDwarfLineBreakpoint_marked line (hline line hmem)) [] []
          rintro d ⟨code, h⟩
          have hstart : Marked s v pos.line [] [] d := by
            refine ⟨⟨code, ?_⟩, fun _ hmem => absurd hmem List.not_mem_nil, fun a => ?_⟩
            · rw [withAll_nil]
              exact h
            · rw [withAll_nil, List.any_nil, Bool.or_false]
          unfold setStepOverBreakpoints
          rw [show symPosition func (s.env codes limit).info = some pos from hpos,
            show symFilepath func (s.env codes limit).info = some filepath from hpath]
          dsimp only
          rw [bind_run (get_run d), h.loadAddress]
          refine (hfold.conseq (fun _ => id) (fun toDel d hd => ?_) (fun _ _ => id)).map d hstart
          refine ⟨toDel, rfl, hd.fresh, fun a => ?_, hd.stands⟩
          rw [hd.marks, List.nil_append]
          simp only [lineAddr_unrelocated hload]

/-- What comes out again is what was put in. -/
theorem disableAll_came {w : View X} {o : Option (Except Nat (Cpu X))} (res : SprayResult)
    (toDel : List RealAddr) :
    Holds (Came s w o res)
      (toDel.forM fun addr => do let _ ← onStore (disableBreakpoint (s.env codes limit).pt addr))
      (fun _ => Came s (w.withEnabled fun a => w.enabled a && decide (a ∉ toDel)) o res)
      (fun _ _ => False) := by
  refine (Holds.forM (I := fun rest d => ∃ gone, Came s (w.withEnabled fun a =>
    w.enabled a && decide (a ∉ gone)) o res d ∧ gone ++ rest = toDel)
    (fun addr rest => ?_) toDel).conseq ?_ ?_ fun _ _ => id
  · refine Holds.exists fun gone => Holds.assume fun hsplit => ?_
    refine Holds.bind (disable_came res addr) fun _ => Holds.pure fun d h => ?_
    refine ⟨gone ++ [addr], ?_, by rw [List.append_assoc]; exact hsplit⟩
    have hleft : Function.update (fun a => w.enabled a && decide (a ∉ gone)) addr false =
        fun a => w.enabled a && decide (a ∉ gone ++ [addr]) := by
      funext a
      by_cases ha : a = addr
      · simp [ha]
      · simp [ha]
    exact (congrArg (Came s · o res d) (congrArg w.withEnabled hleft)).mp h
  · intro d h
    refine ⟨[], ?_, rfl⟩
    simp only [List.not_mem_nil, not_false_eq_true, decide_true, Bool.and_true]
    exact h
  · rintro _ d ⟨gone, h, hsplit⟩
    rw [List.append_nil] at hsplit
    exact hsplit ▸ h

/-- What is left of the breakpoints for the step is the one on the return address, unless it
had one before. -/
theorem stepOverStops_left {toDel : List RealAddr}
    (hstops : Function.update (withAll v.enabled toDel) v.returnAddress true =
      v.stepOverStops others) (hfresh : ∀ a ∈ toDel, v.enabled a = false) :
    (fun a => v.stepOverStops others a && decide (a ∉ toDel)) =
      if !withAll v.enabled toDel v.returnAddress then
        Function.update v.enabled v.returnAddress true
      else v.enabled := by
  funext a
  have hfresh := hfresh a
  rw [← hstops]
  cases hon : withAll v.enabled toDel v.returnAddress with
  | false =>
      have hout := (Bool.or_eq_false_iff.mp hon).2
      by_cases ha : a = v.returnAddress
      · rw [ha]
        simpa using hout
      · by_cases hmem : a ∈ toDel
        · simp [ha, hmem, hfresh hmem]
        · simp [ha, hmem, withAll]
  | true =>
      rw [Function.update_eq_self_iff.mpr hon.symm]
      by_cases hmem : a ∈ toDel
      · simp [hmem, hfresh hmem]
      · simp [hmem, withAll]

/-- **Stepping over leads to where the program is resumed to, with a breakpoint on each other
line and on the return address.** -/
theorem stepOver_came (hfunc : symByAddr v.dbgPc s.info = some func)
    (hothers : s.otherLines v func = some others) (may : s.MayStepOver v)
    (mayReturn : s.MayReturn v) (fuel : Nat) :
    Holds (Stands s v) (stepOver (s.env codes limit) fuel)
      (Came s v (s.program.resume (v.stepOverStops others) limit v.cpu))
      (fun _ => GaveUp limit fuel (s.program.resume (v.stepOverStops others) · v.cpu)
        v.output) := by
  obtain ⟨hload, hstarts⟩ := may func others hfunc hothers
  rintro d ⟨code, h⟩
  unfold stepOver
  rw [bind_run h.getDbgPc, show symByAddr v.dbgPc (s.env codes limit).info = some func from hfunc]
  dsimp only
  refine Holds.bind ((setStepOverBreakpoints_marked hothers hload hstarts).conseq (fun _ => id)
    (fun _ _ => id) fun _ _ => False.elim) (fun r => ?_) d ⟨code, h⟩
  refine Holds.exists fun toDel => ?_
  rintro d₁ ⟨rfl, hfresh, hmarks, code₁, h₁⟩
  obtain ⟨d₂, hset, h₂⟩ := setReturnAddressBreakpoint_shadows h₁
    (show s.MayReturn (v.withEnabled (withAll v.enabled toDel)) from mayReturn) codes limit
  have hstops : Function.update (withAll v.enabled toDel) v.returnAddress true =
      v.stepOverStops others := by
    unfold View.stepOverStops
    rw [← funext hmarks]
  have hstopped : Stands s (v.withEnabled (v.stepOverStops others)) d₂ := by
    rw [← hstops]
    exact ⟨code₁, h₂⟩
  dsimp only
  rw [bind_run hset]
  refine Holds.assoc (Holds.bind (continueAndWait_came fuel) fun res => ?_) d₂ hstopped
  refine Holds.bind ((disableAll_came res toDel).conseq (fun _ => id) (fun _ _ => id)
    fun _ _ => False.elim) fun _ => ?_
  have hleft := stepOverStops_left hstops hfresh
  have hoff : (!withAll v.enabled toDel v.returnAddress) = true →
      v.enabled v.returnAddress = false := by
    intro hnew
    exact (Bool.or_eq_false_iff.mp (Bool.not_eq_true' _ |>.mp hnew)).1
  refine Holds.bind ((removeInternalBreakpoint_came res hoff).conseq (fun d h => ?_)
    (fun _ _ => id) fun _ _ => False.elim) fun _ => Holds.pure fun _ => id
  rw [← hleft]
  exact h

end Spray
