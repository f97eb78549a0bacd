/-
Whether the death of the tracee is reported.

Stepping out and over, a death gets to the caller unless it is found by a wait that steps
off a breakpoint.  Stepping an instruction or a line, that depends on whether the
instruction itself has a breakpoint.
-/
import Spray.Proofs.Death
import Spray.Run

namespace Spray

open Triple

variable {W α : Type} {env : Env W} {fuel : Nat} {n : Int} {r : Option SprayResult}
  {events : List Event}

/-! ### The operations -/

/-- Continuing and waiting, with what is tidied up after. -/
theorem continueThen_appends (env : Env W) {z : SprayResult → DbgM (Recorded W) Unit}
    (hz : ∀ res, Silent Debugger.events (z res)) (fuel : Nat) (d : Debugger (Recorded W)) :
    Appends Debugger.events (do
        let _ ← continueExecution env.recorded (waitForSignal env.recorded fuel)
        let res ← waitForSignal env.recorded fuel
        z res
        return res) d (Reported 0) :=
  Appends.assoc (Appends.bind_silent
    ((continueAndWait_appends (waitForSignal_appends fuel) d).conseq fun _ _ h => h.1) hz)

theorem stepOut_appends (fuel : Nat) (d : Debugger (Recorded W)) :
    Appends Debugger.events (stepOut env.recorded fuel) d (Reported 0) := by
  refine (setReturnAddressBreakpoint_appends d).bind (fun _ h => h ▸ .survived .nil) ?_
  rintro ⟨removeInternal, returnAddress⟩ d old _ rfl
  exact continueThen_appends env (fun _ => removeInternalBreakpoint_silent _ _) fuel d

theorem stepOver_appends (fuel : Nat) (d : Debugger (Recorded W)) :
    Appends Debugger.events (stepOver env.recorded fuel) d (Reported 0) := by
  have hfail : ∀ (msg : Message) (d : Debugger (Recorded W)), Appends Debugger.events (do
      say msg
      return .err : DbgM (Recorded W) SprayResult) d (Reported 0) := fun msg _ =>
    (say_silent msg).bind_appends fun _ _ _ => Appends.pure (.survived .nil)
  refine getDbgPc_silent.bind_appends fun pc d _ => ?_
  cases symByAddr pc env.recorded.info with
  | none => exact hfail _ d
  | some func =>
      refine (setStepOverBreakpoints_silent func).bind_appends fun r d _ => ?_
      cases r with
      | none => exact hfail _ d
      | some toDel =>
          refine (setReturnAddressBreakpoint_appends d).bind (fun _ h => h ▸ .survived .nil) ?_
          rintro ⟨removeInternal, returnAddress⟩ d old _ rfl
          have htidy : ∀ _ : SprayResult, Silent Debugger.events (do
              toDel.forM fun addr => do
                let _ ← onStore (disableBreakpoint env.recorded.pt addr)
              removeInternalBreakpoint env.recorded removeInternal returnAddress) := by
            intro _
            refine (Silent.forM (fun addr => ?_) toDel).bind fun _ => ?_
            · exact (disable_silent addr).bind fun _ => Silent.pure _
            · exact removeInternalBreakpoint_silent _ _
          have hall := continueThen_appends env htidy fuel d
          simp only [bind_assoc] at hall
          exact hall

/-! ### Reading the program counter -/

/-- What the program counter reads as. -/
def pcOf (env : Env W) (d : Debugger W) : RealAddr :=
  ⟨(getRegisterValue env.pt .rip d.tracee).1.getD 0⟩

/-- The instruction at the program counter has a breakpoint. -/
def onBreakpoint (env : Env W) (d : Debugger W) : Bool :=
  lookupBreakpoint d.breakpoints (pcOf env d)

/-- The position of the program counter in the source. -/
def positionOf (env : Env W) (d : Debugger W) : Option Position :=
  addrPosition (realToDbg d.loadAddress (pcOf env d)) env.info

/-- Reading the registers does not change the tracee. -/
def ReadsOnly (pt : Ptrace W) : Prop := ∀ w, (pt.getRegs w).2 = w

theorem ReadsOnly.recorded {pt : Ptrace W} (h : ReadsOnly pt) : ReadsOnly pt.recorded := by
  intro w
  show Noted.mk (pt.getRegs w.tracee).2 w.record = w
  rw [h]

theorem getPc_run (hreads : ReadsOnly env.pt) (d : Debugger W) :
    getPc env d = .ok (pcOf env d) d := by
  have hregs := hreads d.tracee
  unfold getPc pcOf getRegisterValue ptReadRegisters request
  show EStateM.bind _ _ d = _
  unfold EStateM.bind
  dsimp only
  cases hr : env.pt.getRegs d.tracee with
  | mk regs w =>
      rw [hr] at hregs
      obtain rfl : w = d.tracee := hregs
      cases regs with
      | none => rfl
      | some regs => rfl

theorem getDbgPc_run (hreads : ReadsOnly env.pt) (d : Debugger W) :
    getDbgPc env d = .ok (realToDbg d.loadAddress (pcOf env d)) d := by
  unfold getDbgPc
  rw [bind_run (getPc_run hreads d)]
  rfl

/-! ### One instruction -/

/-- What an instruction step puts on record.  On a breakpoint, its result is not used. -/
def InstructionEvents (on : Bool) (fuel : Nat) (r : Option SprayResult) (events : List Event) :
    Prop :=
  ∃ r', StepEvents fuel r' events ∧ r = if on then r'.map fun _ => .ok else r'

theorem singleStepInstruction_appends (hreads : ReadsOnly env.pt) (fuel : Nat)
    (d : Debugger (Recorded W)) :
    Appends Debugger.events (singleStepInstruction env.recorded fuel) d
      (InstructionEvents (onBreakpoint env.recorded d) fuel) := by
  have hreads' : ReadsOnly env.recorded.pt := hreads.recorded
  have hpc := getPc_run hreads' d
  have hnone : d.events = d.events ++ [] := (List.append_nil _).symm
  refine Appends.bind_ok hpc hnone (Appends.get_bind (Appends.ite (fun hon => ?_) fun hoff => ?_))
  · have hstep : Appends Debugger.events (singleStepBreakpoint env.recorded
        (waitForSignal env.recorded fuel)) d (StepEvents fuel) := by
      refine Appends.bind_ok hpc hnone (Appends.get_bind (Appends.ite (fun _ => ?_) fun hoff => ?_))
      · exact stepOff_appends (waitForSignal_appends fuel) _ d
      · exact absurd hon hoff
    have hpass : onBreakpoint env.recorded d = true := hon
    rw [hpass]
    refine hstep.bind (fun new h => ⟨none, h, rfl⟩) fun res d old _ h => Appends.pure ?_
    rw [List.append_nil]
    exact ⟨some res, h, rfl⟩
  · have hpass : onBreakpoint env.recorded d = false := Bool.eq_false_iff.mpr hoff
    rw [hpass]
    refine Appends.bind_ok rfl rfl ((waitForSignal_appends fuel _).conseq fun r rest h => ?_)
    exact ⟨r, ⟨rest, rfl, h⟩, rfl⟩

/-- An operation that returns no error has reported no death. -/
theorem DeathReported.survived (h : DeathReported r events) (hr : r ≠ some .err) :
    Survived events := by
  intro o ho
  obtain ⟨before, after, rfl⟩ := List.append_of_mem ho
  rw [← Bool.not_eq_true]
  intro hdead
  exact hr (h before o after rfl hdead).1

/-- An error would be reported right. -/
theorem Reported.err (h : Reported n r events) : Reported n (some .err) events := by
  cases h with
  | survived alive => exact .survived alive
  | heeded alive level dead => exact .heeded alive level dead
  | lost level dead more => exact .lost level dead more

/-- On a breakpoint there must be no death at all. -/
theorem InstructionEvents.deathReported_iff {on : Bool} (h : InstructionEvents on fuel r events) :
    DeathReported r events ↔ if on then Survived events else DiesAt 1 events := by
  obtain ⟨r', h, rfl⟩ := h
  cases on with
  | false => exact h.reported.deathReported_iff
  | true =>
      refine ⟨fun hreported => hreported.survived ?_, Survived.deathReported⟩
      cases r' with
      | none => exact nofun
      | some res => exact nofun

/-! ### A line -/

/-- What a part of the run adds to the record. -/
def newEvents (x : DbgM (Recorded W) α) (d : Debugger (Recorded W)) : List Event :=
  (finalState x d).events.drop d.events.length

theorem events_iff {x : DbgM (Recorded W) α} {d : Debugger (Recorded W)}
    {Q : Option α → List Event → Prop} :
    Appends Debugger.events x d Q ↔
      ∃ new, (finalState x d).events = d.events ++ new ∧ Q (returned x d) new := by
  rw [appends_iff]
  unfold finalState returned lastState value
  cases x d with
  | ok a d' => rfl
  | error e d' => rfl

theorem newEvents_eq {x : DbgM (Recorded W) α} {d : Debugger (Recorded W)}
    {Q : Option α → List Event → Prop} (h : Appends Debugger.events x d Q) :
    Appends Debugger.events x d fun r new => Q r new ∧ returned x d = r ∧ newEvents x d = new := by
  obtain ⟨new, hevents, hq⟩ := events_iff.mp h
  refine events_iff.mpr ⟨new, hevents, hq, rfl, ?_⟩
  rw [newEvents, hevents, List.drop_left]

/-- What a step of one instruction adds to the record. -/
def stepEvents (env : Env W) (fuel : Nat) (d : Debugger (Recorded W)) : List Event :=
  newEvents (singleStepInstruction env.recorded fuel) d

/-- After the step the line step has to give up: there are no steps left, or the position
is not known. -/
def GivesUp (env : Env W) (fuel left : Nat) (d : Debugger (Recorded W)) : Prop :=
  left = 0 ∨ positionOf env.recorded (finalState (singleStepInstruction env.recorded fuel) d) = none

/-- A death in this step is reported.  If there is a breakpoint the step's result is not
used, and it takes the line step to give up. -/
def StepHeeds (env : Env W) (fuel left : Nat) (d : Debugger (Recorded W)) : Prop :=
  if onBreakpoint env.recorded d then
    Survived (stepEvents env fuel d) ∨ DiesAt 1 (stepEvents env fuel d) ∧ GivesUp env fuel left d
  else DiesAt 1 (stepEvents env fuel d)

/-- In each step of the loop, a death is reported. -/
def LineHeeds (env : Env W) (fuel initLine : Nat) :
    (left : Nat) → Position → Debugger (Recorded W) → Prop
  | 0, _, _ => True
  | left + 1, pos, d =>
    (!pos.isExact || pos.line = initLine) = true →
      StepHeeds env fuel left d ∧
        ∀ d' pos', singleStepInstruction env.recorded fuel d = .ok .ok d' →
          positionOf env.recorded d' = some pos' → LineHeeds env fuel initLine left pos' d'

/-- What the loop adds to the record.  With no steps left that is nothing. -/
def LoopEvents (fuel : Nat) : (left : Nat) → Option SprayResult → List Event → Prop
  | 0, r, events => r = some .err ∧ events = []
  | _ + 1, r, events => r = some .ok ∨ (fuel ≠ 0 → ∃ o, .waited o ∈ events)

/-- The loop is over at once, or it waits. -/
theorem singleStepLineLoop_waits (hreads : ReadsOnly env.pt) (fuel initLine : Nat) :
    ∀ (left : Nat) (pos : Position) (d : Debugger (Recorded W)),
      Appends Debugger.events (singleStepLineLoop env.recorded fuel initLine left pos) d
        (LoopEvents fuel left) := by
  intro left
  induction left with
  | zero =>
      intro pos d
      exact (say_silent _).bind_appends fun _ d _ => Appends.pure ⟨rfl, rfl⟩
  | succ left ih =>
      intro pos d
      refine Appends.ite (fun _ => ?_) fun _ => Appends.pure (.inl rfl)
      refine (singleStepInstruction_appends hreads fuel d).bind ?_ ?_
      · rintro new ⟨r', h, -⟩
        exact .inr h.waits
      rintro res d old _ ⟨r', h, -⟩
      have hmore : ∀ (r : Option SprayResult) (new : List Event),
          r = some .ok ∨ (fuel ≠ 0 → ∃ o, .waited o ∈ old ++ new) := by
        refine fun r new => .inr fun hfuel => ?_
        obtain ⟨o, ho⟩ := h.waits hfuel
        exact ⟨o, List.mem_append_left _ ho⟩
      cases res with
      | err => exact Appends.pure (hmore _ _)
      | ok =>
          refine getDbgPc_silent.bind_appends fun pc d _ => ?_
          cases addrPosition pc env.recorded.info with
          | none => exact (say_silent _).bind_appends fun _ d _ => Appends.pure (hmore _ _)
          | some pos => exact (ih pos d).conseq fun r new _ => hmore r new

/-- A step that returns has waited. -/
theorem InstructionEvents.fuel_ne_zero {on : Bool} {res : SprayResult}
    (h : InstructionEvents on fuel (some res) events) : fuel ≠ 0 := by
  obtain ⟨r', h, hr⟩ := h
  intro hfuel
  rw [h.halts hfuel] at hr
  cases on with
  | false => cases hr
  | true => cases hr

theorem not_deathReported_of_waits {after : List Event} {o : WaitOutcome} (h : ¬ Survived events)
    (ho : .waited o ∈ after) : ¬ DeathReported r (events ++ after) := by
  intro hreported
  refine h fun o' ho' => ?_
  rw [← Bool.not_eq_true]
  intro hdead
  obtain ⟨before, rest, rfl⟩ := List.append_of_mem ho'
  have hlast := (hreported before o' (rest ++ after) (by simp) hdead).2 o
  exact hlast (List.mem_append_right _ ho)

section Step

variable {left : Nat} {d : Debugger (Recorded W)}
  (h : InstructionEvents (onBreakpoint env.recorded d) fuel r events)
  (hnew : stepEvents env fuel d = events)
include h hnew

/-- The line step ends with the instruction step. -/
theorem stepHeeds_iff_of_ne_ok (hr : r ≠ some .ok) :
    DeathReported r events ↔ StepHeeds env fuel left d := by
  rw [h.deathReported_iff]
  unfold StepHeeds
  rw [hnew]
  cases hon : onBreakpoint env.recorded d with
  | false => rfl
  | true =>
      rw [hon] at h
      obtain ⟨r', h, rfl⟩ := h
      have hnone : r' = none := by
        cases r' with
        | none => rfl
        | some res => exact absurd rfl hr
      subst hnone
      refine ⟨.inl, fun hheeds => hheeds.elim id fun hdies => ?_⟩
      exact (h.reported.deathReported_iff.mpr hdies.1).survived nofun

/-- The line step gives up after the instruction step. -/
theorem stepHeeds_iff_of_givesUp (hup : GivesUp env fuel left d) :
    DeathReported (some .err) events ↔ StepHeeds env fuel left d := by
  obtain ⟨r', h, -⟩ := h
  rw [h.reported.err.deathReported_iff]
  unfold StepHeeds
  rw [hnew]
  cases onBreakpoint env.recorded d with
  | false => rfl
  | true =>
      refine ⟨fun hdies => .inr ⟨hdies, hup⟩, fun hheeds => ?_⟩
      exact hheeds.elim Survived.diesAt fun hdies => hdies.1

/-- The line step goes on after the instruction step. -/
theorem stepHeeds_iff_of_goesOn (hr : r = some .ok) (hon : ¬ GivesUp env fuel left d) :
    StepHeeds env fuel left d ↔ Survived events := by
  have hiff := h.deathReported_iff
  unfold StepHeeds
  rw [hnew]
  cases hbreak : onBreakpoint env.recorded d with
  | false =>
      rw [hbreak] at hiff
      refine ⟨fun hdies => (hiff.mpr hdies).survived ?_, Survived.diesAt⟩
      rw [hr]
      exact nofun
  | true => exact ⟨fun hheeds => hheeds.elim id fun hdies => absurd hdies.2 hon, .inl⟩

omit h in
/-- Nothing is to be reported of a step that was survived. -/
theorem stepHeeds_of_survived (alive : Survived events) : StepHeeds env fuel left d := by
  unfold StepHeeds
  rw [hnew]
  split
  · exact .inl alive
  · exact alive.diesAt

/-- The loop goes on after the instruction step. -/
theorem deathReported_goesOn {r' : Option SprayResult} {new : List Event} {Rest : Prop}
    (hr : r = some .ok)
    (hpos : positionOf env.recorded
      (finalState (singleStepInstruction env.recorded fuel) d) ≠ none)
    (hrest : DeathReported r' new ↔ Rest) (hwaits : LoopEvents fuel left r' new) :
    DeathReported r' (events ++ new) ↔ StepHeeds env fuel left d ∧ Rest := by
  by_cases alive : Survived events
  · rw [deathReported_append alive, hrest]
    exact ⟨fun hheeds => ⟨stepHeeds_of_survived hnew alive, hheeds⟩, fun hall => hall.2⟩
  cases left with
  | zero =>
      obtain ⟨rfl, rfl⟩ := hwaits
      rw [List.append_nil, stepHeeds_iff_of_givesUp h hnew (.inl rfl)]
      exact (and_iff_left (hrest.mp Survived.nil.deathReported)).symm
  | succ left =>
      -- The loop goes on after the death, to return or to wait again.
      have hon : ¬ GivesUp env fuel (left + 1) d := by
        rintro (hzero | hnone)
        · cases hzero
        · exact hpos hnone
      rw [stepHeeds_iff_of_goesOn h hnew hr hon]
      refine ⟨fun hreported => ?_, fun hall => absurd hall.1 alive⟩
      rcases hwaits with rfl | hwaits
      · have hall := hreported.survived nofun
        exact absurd (fun o ho => hall o (List.mem_append_left _ ho)) alive
      · subst hr
        obtain ⟨o, ho⟩ := hwaits h.fuel_ne_zero
        exact absurd hreported (not_deathReported_of_waits alive ho)

end Step

/-- The loop goes on from where the step has led. -/
theorem lineHeeds_succ {initLine left : Nat} {pos : Position} {d d₁ : Debugger (Recorded W)}
    (hstep : (!pos.isExact || pos.line = initLine) = true)
    (hr : singleStepInstruction env.recorded fuel d = .ok .ok d₁) :
    LineHeeds env fuel initLine (left + 1) pos d ↔ StepHeeds env fuel left d ∧
      ∀ pos', positionOf env.recorded d₁ = some pos' →
        LineHeeds env fuel initLine left pos' d₁ := by
  constructor
  · intro hheeds
    exact ⟨(hheeds hstep).1, fun pos' hpos' => (hheeds hstep).2 d₁ pos' hr hpos'⟩
  · intro hheeds _
    refine ⟨hheeds.1, fun d' pos' hr' hpos' => ?_⟩
    obtain ⟨-, rfl⟩ := EStateM.Result.ok.inj (hr.symm.trans hr')
    exact hheeds.2 pos' hpos'

/-- **The loop reports a death exactly if each of its steps does.** -/
theorem singleStepLineLoop_appends (hreads : ReadsOnly env.pt) (fuel initLine : Nat) :
    ∀ (left : Nat) (pos : Position) (d : Debugger (Recorded W)),
      Appends Debugger.events (singleStepLineLoop env.recorded fuel initLine left pos) d
        fun r events => DeathReported r events ↔ LineHeeds env fuel initLine left pos d := by
  have hreads' : ReadsOnly env.recorded.pt := hreads.recorded
  intro left
  induction left with
  | zero =>
      intro pos d
      exact (say_silent _).bind_appends fun _ d _ => Appends.pure
        ⟨fun _ => trivial, fun _ => Survived.nil.deathReported⟩
  | succ left ih =>
      intro pos d
      refine Appends.ite (fun hstep => ?_) fun hover => Appends.pure
        ⟨fun _ hstep => absurd hstep hover, fun _ => Survived.nil.deathReported⟩
      refine (newEvents_eq (singleStepInstruction_appends hreads fuel d)).bind ?_ ?_
      · rintro new ⟨h, hreturned, hnew⟩
        rw [stepHeeds_iff_of_ne_ok h hnew nofun]
        refine ⟨fun hheeds _ => ⟨hheeds, fun d' pos' hr _ => ?_⟩, fun hheeds => (hheeds hstep).1⟩
        rw [returned, hr] at hreturned
        cases hreturned
      rintro res d₁ old hr ⟨h, -, hnew⟩
      cases res with
      | err =>
          refine Appends.pure ?_
          rw [List.append_nil, stepHeeds_iff_of_ne_ok h hnew nofun]
          refine ⟨fun hheeds _ => ⟨hheeds, fun d' pos' hr' _ => ?_⟩, fun hheeds => (hheeds hstep).1⟩
          cases hr.symm.trans hr'
      | ok =>
          have hfinal : finalState (singleStepInstruction env.recorded fuel) d = d₁ := by
            rw [finalState, hr]
          refine Appends.bind_ok (getDbgPc_run hreads' d₁) (List.append_nil _).symm ?_
          rw [lineHeeds_succ hstep hr]
          cases hpos : positionOf env.recorded d₁ with
          | none =>
              have haddr : addrPosition (realToDbg d₁.loadAddress (pcOf env.recorded d₁))
                  env.recorded.info = none := hpos
              rw [haddr]
              have hup : GivesUp env fuel left d := .inr (by rw [hfinal]; exact hpos)
              refine (say_silent _).bind_appends fun _ d _ => Appends.pure ?_
              rw [List.append_nil, List.append_nil, stepHeeds_iff_of_givesUp h hnew hup]
              exact ⟨fun hstep => ⟨hstep, fun pos' hpos' => nomatch hpos'⟩, fun hall => hall.1⟩
          | some pos' =>
              have haddr : addrPosition (realToDbg d₁.loadAddress (pcOf env.recorded d₁))
                  env.recorded.info = some pos' := hpos
              rw [haddr]
              have hloop := (ih pos' d₁).and
                (singleStepLineLoop_waits hreads fuel initLine left pos' d₁)
              refine hloop.conseq fun r new ⟨hrest, hwaits⟩ => ?_
              rw [List.nil_append]
              have hon : positionOf env.recorded
                  (finalState (singleStepInstruction env.recorded fuel) d) ≠ none := by
                rw [hfinal, hpos]
                exact Option.some_ne_none pos'
              refine deathReported_goesOn h hnew rfl hon hrest hwaits |>.trans ?_
              refine and_congr_right fun _ =>
                ⟨fun hheeds pos'' hpos'' => ?_, fun hall => hall pos' rfl⟩
              cases hpos''
              exact hheeds

/-! ### All operations -/

theorem pcOf_recorded (env : Env W) (d : Debugger W) :
    pcOf env.recorded d.recorded = pcOf env d := by
  have hread : getRegisterValue env.recorded.pt .rip d.recorded.tracee = _ :=
    getRegisterValue_noted env.pt .rip d.recorded.tracee
  unfold pcOf
  rw [hread]
  rfl

theorem singleStepLine_appends (hreads : ReadsOnly env.pt) (fuel : Nat) (d : Debugger W) :
    Appends Debugger.events (singleStepLine env.recorded fuel) d.recorded fun r events =>
      DeathReported r events ↔ ∀ pos, positionOf env d = some pos →
        LineHeeds env fuel pos.line singleStepSearchLimit pos d.recorded := by
  have hreads' : ReadsOnly env.recorded.pt := hreads.recorded
  have hpos : positionOf env.recorded d.recorded = positionOf env d := by
    unfold positionOf
    rw [pcOf_recorded]
    rfl
  refine Appends.bind_ok (getDbgPc_run hreads' _) (List.append_nil _).symm ?_
  have haddr : addrPosition (realToDbg d.recorded.loadAddress (pcOf env.recorded d.recorded))
      env.recorded.info = positionOf env d := hpos
  rw [haddr]
  cases positionOf env d with
  | none =>
      refine (say_silent _).bind_appends fun _ d _ => Appends.pure ?_
      refine ⟨fun _ pos hpos => ?_, fun _ => Survived.nil.deathReported⟩
      cases hpos
  | some pos =>
      refine (singleStepLineLoop_appends hreads fuel pos.line _ pos _).conseq fun r new h => ?_
      rw [List.nil_append, h]
      refine ⟨fun hheeds pos' hpos' => ?_, fun hall => hall pos rfl⟩
      cases hpos'
      exact hheeds

/-- When a death that a wait finds is reported.  Stepping out and over, it must not be found
while a breakpoint is stepped off, which is another single step.  Stepping an instruction,
there must not be a breakpoint on it. -/
def Heeds (env : Env W) (fuel : Nat) (op : SteppingOp) (d : Debugger W) : Prop :=
  match op with
  | .singleStepInstruction =>
    if onBreakpoint env d then Survived (op.trace env fuel d) else DiesAt 1 (op.trace env fuel d)
  | .singleStepLine =>
    ∀ pos, positionOf env d = some pos →
      LineHeeds env fuel pos.line singleStepSearchLimit pos d.recorded
  | _ => DiesAt 0 (op.trace env fuel d)

/-- The record starts out empty. -/
theorem trace_of_appends {x : DbgM (Recorded W) α} {d : Debugger W}
    {Q : Option α → List Event → Prop}
    (h : Appends Debugger.events x d.recorded Q) :
    Q (returned x d.recorded) (finalState x d.recorded).events := by
  obtain ⟨new, hevents, hq⟩ := events_iff.mp h
  rw [hevents]
  exact hq

/-- **If a wait finds the tracee dead, the operation returns an error and does not wait
again, exactly if no death is found by a wait whose result is not used.** -/
theorem deathReported_iff_heeds (hreads : ReadsOnly env.pt) (op : SteppingOp) (fuel : Nat)
    (d : Debugger W) :
    DeathReported (returned (op.exec env fuel) d) (op.trace env fuel d) ↔ Heeds env fuel op d := by
  rw [← returned_noted env op fuel d []]
  have hcont : Appends Debugger.events (op.exec env.recorded fuel) d.recorded (Reported 0) →
      (DeathReported (returned (op.exec env.recorded fuel) d.recorded) (op.trace env fuel d) ↔
        DiesAt 0 (op.trace env fuel d)) := fun h => (trace_of_appends h).deathReported_iff
  cases op with
  | continueAndWait =>
      exact hcont ((continueAndWait_appends (waitForSignal_appends fuel) _).conseq fun _ _ h => h.1)
  | stepOut => exact hcont (stepOut_appends fuel _)
  | stepOver => exact hcont (stepOver_appends fuel _)
  | singleStepInstruction =>
      have h := trace_of_appends (singleStepInstruction_appends hreads fuel d.recorded)
      have hon : onBreakpoint env.recorded d.recorded = onBreakpoint env d :=
        congrArg (lookupBreakpoint d.breakpoints) (pcOf_recorded env d)
      rw [hon] at h
      exact h.deathReported_iff
  | singleStepLine => exact trace_of_appends (singleStepLine_appends hreads fuel d)

/-! ### The last instruction -/

/-- A process of one instruction. -/
def exitRun : Run where
  pc n := if n = 0 then some 0x1000 else none
  effect _ m := m
  code a := a = 0x1000
  image _ := 0x90
  in_code n a h := by
    split at h
    · exact (Option.some.inj h).symm
    · cases h
  keeps_code _ _ _ _ := rfl
  no_trap _ _ _ := by decide

def exitEnv : Env Runner := strippedEnv (exitRun.ptrace 8)

/-- Stopped on it. -/
def exitStart : Debugger Runner where
  breakpoints := initBreakpoints
  tracee := ⟨0, 0x1000, fun _ => 0x90, .stopped ⟨.SIGTRAP, .TRAP_TRACE⟩, [], []⟩
  loadAddress := ⟨0⟩
  output := []

/-- The exit is reported. -/
theorem deathReported_exit :
    DeathReported (returned (SteppingOp.singleStepInstruction.exec exitEnv 8) exitStart)
      (SteppingOp.singleStepInstruction.trace exitEnv 8 exitStart) := by
  refine (deathReported_iff_heeds (fun _ => rfl) .singleStepInstruction 8 exitStart).mpr ?_
  have htrace : SteppingOp.singleStepInstruction.trace exitEnv 8 exitStart =
      [.stepped] ++ [.waited (.status (.exited 0))] := by decide +kernel
  have hoff : onBreakpoint exitEnv exitStart = false := by decide +kernel
  unfold Heeds
  rw [hoff, htrace]
  intro before o after heq hdead
  rw [(heeded_split survived_stepped hdead heq).1]
  rfl

/-- With a breakpoint on it, the exit is found while the breakpoint is stepped off.  The
instruction step returns no error, and stepping out waits again. -/
theorem deathReported_fails_onBreakpoint :
    let broken := finalState (onStore (enableBreakpoint exitEnv.pt ⟨0x1000⟩)) exitStart
    ¬ DeathReported (returned (SteppingOp.singleStepInstruction.exec exitEnv 8) broken)
        (SteppingOp.singleStepInstruction.trace exitEnv 8 broken) ∧
      ¬ DeathReported (returned (SteppingOp.stepOut.exec exitEnv 8) broken)
        (SteppingOp.stepOut.trace exitEnv 8 broken) := by
  intro broken
  constructor
  · intro h
    have hreturned : returned (SteppingOp.singleStepInstruction.exec exitEnv 8) broken =
        some .ok := by decide +kernel
    have htrace : SteppingOp.singleStepInstruction.trace exitEnv 8 broken =
        [.stepped] ++ .waited (.status (.exited 0)) :: [] := by decide +kernel
    cases hreturned.symm.trans (h _ _ _ htrace rfl).1
  · intro h
    have htrace : SteppingOp.stepOut.trace exitEnv 8 broken =
        [.stepped] ++ .waited (.status (.exited 0)) :: [.waited .failed] := by decide +kernel
    exact (h _ _ _ htrace rfl).2 .failed List.mem_cons_self

end Spray
