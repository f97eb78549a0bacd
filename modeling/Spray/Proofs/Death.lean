/-
The death of the tracee.

A wait that finds the tracee dead reports an error.  Whether the error gets to the caller
depends on who waits: the waits made to step off a breakpoint report to callers that go on
regardless.  On record, these are the waits made while one more single step is outstanding.
-/
import Spray.Proofs.Recorder

namespace Spray

open Triple

/-! ### A death on record -/

/-- No wait has found the tracee dead. -/
def Survived (events : List Event) : Prop := ∀ o, .waited o ∈ events → o.isDeath = false

/-- It has been found dead only while `n` single steps were outstanding. -/
def DiesAt (n : Int) (events : List Event) : Prop :=
  ∀ before o after, events = before ++ .waited o :: after → o.isDeath = true →
    outstanding before = n

/-- If it has been found dead an error is returned, and there are no waits after. -/
def DeathReported (r : Option SprayResult) (events : List Event) : Prop :=
  ∀ before o after, events = before ++ .waited o :: after → o.isDeath = true →
    r = some .err ∧ ∀ o', .waited o' ∉ after

/-- What there can be on record: no death, one that is reported, or one at a deeper level
that is not and after which the tracee is waited for again. -/
inductive Reported (n : Int) : Option SprayResult → List Event → Prop
  | survived {r events} (alive : Survived events) : Reported n r events
  | heeded {before o} (alive : Survived before) (level : outstanding before = n)
      (dead : o.isDeath = true) : Reported n (some .err) (before ++ [.waited o])
  | lost {r before o after o'} (level : n < outstanding before) (dead : o.isDeath = true)
      (more : .waited o' ∈ after) : Reported n r (before ++ .waited o :: after)

variable {n : Int} {r : Option SprayResult} {events before after : List Event} {o : WaitOutcome}

theorem outstanding_append (before after : List Event) :
    outstanding (before ++ after) = outstanding before + outstanding after := by
  unfold outstanding
  rw [List.map_append, List.sum_append]

theorem Survived.nil : Survived [] := fun _ h => absurd h List.not_mem_nil

theorem Survived.append (h : Survived before) (h' : Survived after) :
    Survived (before ++ after) := by
  intro o ho
  rcases List.mem_append.mp ho with hmem | hmem
  · exact h o hmem
  · exact h' o hmem

theorem not_survived (hdead : o.isDeath = true) :
    ¬ Survived (before ++ .waited o :: after) := by
  intro h
  have halive := h o (List.mem_append_right _ List.mem_cons_self)
  rw [hdead] at halive
  cases halive

/-- A death comes after everything that was survived. -/
theorem Survived.split (h : Survived before) {events before' after : List Event}
    (hdead : o.isDeath = true) (heq : before ++ events = before' ++ .waited o :: after) :
    ∃ between, before' = before ++ between ∧ events = between ++ .waited o :: after := by
  rcases List.append_eq_append_iff.mp heq with ⟨between, hbefore, hevents⟩ | ⟨rest, hbefore, hrest⟩
  · exact ⟨between, hbefore, hevents⟩
  · cases rest with
    | nil =>
        rw [List.append_nil] at hbefore
        exact ⟨[], by rw [hbefore, List.append_nil], hrest.symm⟩
    | cons e rest =>
        obtain ⟨rfl, -⟩ := List.cons.inj hrest
        exact absurd h (hbefore ▸ not_survived hdead)

theorem deathReported_append (h : Survived before) :
    DeathReported r (before ++ events) ↔ DeathReported r events := by
  constructor
  · intro hreported between o after heq hdead
    refine hreported (before ++ between) o after ?_ hdead
    rw [heq, List.append_assoc]
  · intro hreported before' o after heq hdead
    obtain ⟨between, -, hevents⟩ := h.split hdead heq
    exact hreported between o after hevents hdead

theorem Survived.deathReported (h : Survived events) : DeathReported r events := by
  intro before o after heq hdead
  exact absurd (heq ▸ h) (not_survived hdead)

theorem Survived.diesAt (h : Survived events) : DiesAt n events := by
  intro before o after heq hdead
  exact absurd (heq ▸ h) (not_survived hdead)

/-- Where a death is reported is where it ends. -/
theorem heeded_split (h : Survived before) {before' : List Event} {o' : WaitOutcome}
    (hdead : o'.isDeath = true) (heq : before ++ [.waited o] = before' ++ .waited o' :: after) :
    before' = before ∧ after = [] := by
  obtain ⟨between, hbefore, hevents⟩ := h.split hdead heq
  cases between with
  | nil =>
      rw [List.append_nil] at hbefore
      exact ⟨hbefore, (List.cons.inj hevents).2.symm⟩
  | cons e between =>
      have hnil := (List.cons.inj hevents).2
      exact absurd hnil.symm (List.append_ne_nil_of_right_ne_nil _ (List.cons_ne_nil _ _))

/-- Whether a death is reported depends on its level only. -/
theorem Reported.deathReported_iff (h : Reported n r events) :
    DeathReported r events ↔ DiesAt n events := by
  cases h with
  | survived alive => exact ⟨fun _ => alive.diesAt, fun _ => alive.deathReported⟩
  | heeded alive level dead =>
      constructor
      · intro _ before' o' after heq hdead
        rw [(heeded_split alive hdead heq).1]
        exact level
      · intro _ before' o' after heq hdead
        refine ⟨rfl, fun o'' hmem => ?_⟩
        rw [(heeded_split alive hdead heq).2] at hmem
        exact List.not_mem_nil hmem
  | lost level dead more =>
      constructor
      · intro hreported
        exact absurd more ((hreported _ _ _ rfl dead).2 _)
      · intro hlevel
        have hn := hlevel _ _ _ rfl dead
        omega

/-- What was survived before moves the level. -/
theorem Reported.append (h : Reported n r events) {m : Int} (alive : Survived before)
    (hm : outstanding before + n = m) : Reported m r (before ++ events) := by
  cases h with
  | survived alive' => exact .survived (alive.append alive')
  | @heeded before' o alive' level dead =>
      rw [← List.append_assoc]
      refine .heeded (alive.append alive') ?_ dead
      rw [outstanding_append]
      omega
  | @lost _ before' o after o' level dead more =>
      rw [← List.append_assoc]
      refine .lost ?_ dead more
      rw [outstanding_append]
      omega

/-- A death is lost if it was one level deeper, and there is another wait. -/
theorem Reported.dropped {r' : Option SprayResult} (h : Reported (n + 1) r' events)
    (hdied : ¬ Survived events) (hmore : .waited o ∈ after) : Reported n r (events ++ after) := by
  cases h with
  | survived alive => exact absurd alive hdied
  | @heeded before o' alive level dead =>
      rw [List.append_assoc]
      exact .lost (by omega) dead hmore
  | @lost _ before o' rest o'' level dead more =>
      rw [List.append_assoc]
      exact .lost (by omega) dead (List.mem_append_left _ more)

/-- An operation that stopped early has reported no death. -/
theorem Reported.of_succ (h : Reported (n + 1) none events) : Reported n none events := by
  cases h with
  | survived alive => exact .survived alive
  | lost level dead more => exact .lost (by omega) dead more

/-! ### What a wait puts on record -/

/-- A wait completes one single step, if it returns and there was no death. -/
structure WaitEvents (fuel : Nat) (r : Option SprayResult) (events : List Event) : Prop where
  reported : Reported 0 r events
  completes : r ≠ none → Survived events → outstanding events = -1
  halts : fuel = 0 → r = none
  waits : fuel ≠ 0 → ∃ o, .waited o ∈ events

/-- A single step and a wait for it. -/
def StepEvents (fuel : Nat) (r : Option SprayResult) (events : List Event) : Prop :=
  ∃ rest, events = .stepped :: rest ∧ WaitEvents fuel r rest

variable {W α : Type} {env : Env W} {fuel : Nat} {d : Debugger (Recorded W)}

theorem stepped_append (events : List Event) : .stepped :: events = [.stepped] ++ events := rfl

theorem survived_stepped : Survived [.stepped] := by
  intro o h
  cases List.mem_singleton.mp h

theorem StepEvents.reported (h : StepEvents fuel r events) : Reported 1 r events := by
  obtain ⟨rest, rfl, h⟩ := h
  exact h.reported.append survived_stepped rfl

/-- A step that has been waited for is completed, unless there was a death. -/
theorem StepEvents.completes (h : StepEvents fuel r events) (hr : r ≠ none)
    (alive : Survived events) :
    outstanding events = 0 := by
  obtain ⟨rest, rfl, h⟩ := h
  have hrest : Survived rest := fun o ho => alive o (List.mem_cons_of_mem _ ho)
  rw [stepped_append, outstanding_append, h.completes hr hrest]
  rfl

theorem StepEvents.halts (h : StepEvents fuel r events) (hfuel : fuel = 0) : r = none := by
  obtain ⟨rest, rfl, h⟩ := h
  exact h.halts hfuel

theorem StepEvents.waits (h : StepEvents fuel r events) (hfuel : fuel ≠ 0) :
    ∃ o, .waited o ∈ events := by
  obtain ⟨rest, rfl, h⟩ := h
  obtain ⟨o, ho⟩ := h.waits hfuel
  exact ⟨o, List.mem_cons_of_mem _ ho⟩

section Wait

variable {wait : DbgM (Recorded W) SprayResult}
  (hwait : ∀ d, Appends Debugger.events wait d (WaitEvents fuel))
include hwait

/-- The step and the wait for it, between taking the breakpoint out and putting it back. -/
theorem stepOff_appends (pc : RealAddr) (d : Debugger (Recorded W)) :
    Appends Debugger.events (do
        let _ ← onStore (disableBreakpoint env.recorded.pt pc)
        let _ ← request (ptSingleStep env.recorded.pt)
        let res ← wait
        let _ ← onStore (enableBreakpoint env.recorded.pt pc)
        return res) d (StepEvents fuel) := by
  refine (disable_silent pc).bind_appends fun _ d _ => ?_
  refine Appends.bind_ok rfl rfl ?_
  exact Appends.bind_silent ((hwait _).conseq fun r rest h => ⟨rest, rfl, h⟩) fun _ =>
    enable_silent pc

theorem singleStepBreakpoint_appends (d : Debugger (Recorded W)) :
    Appends Debugger.events (singleStepBreakpoint env.recorded wait) d
      fun r events => (r = some .ok ∧ events = []) ∨ StepEvents fuel r events := by
  refine getPc_silent.bind_appends fun pc d _ => Appends.get_bind (Appends.ite (fun _ => ?_) ?_)
  · exact (stepOff_appends hwait pc d).conseq fun _ _ h => .inr h
  · intro _
    exact Appends.pure (.inl ⟨rfl, rfl⟩)

/-- The result of the step is not used. -/
theorem continueExecution_appends (d : Debugger (Recorded W)) :
    Appends Debugger.events (continueExecution env.recorded wait) d
      fun r events => (r ≠ none ∧ events = []) ∨
        ∃ r', StepEvents fuel r' events ∧ (r' = none ↔ r = none) := by
  refine (singleStepBreakpoint_appends hwait d).bind ?_ ?_
  · rintro new (⟨hr, -⟩ | h)
    · cases hr
    · exact .inr ⟨none, h, Iff.rfl⟩
  intro res d old _ h
  refine (Silent.appends (cont_silent.bind fun errno => ?_) d).conseq fun r new hr => ?_
  · rcases errno with _ | _ | _
    · exact Silent.pure _
    · exact (say_silent _).bind fun _ => Silent.pure _
    · exact Silent.pure _
  · rw [hr.2, List.append_nil]
    rcases h with ⟨-, rfl⟩ | h
    · exact .inl ⟨hr.1, rfl⟩
    · exact .inr ⟨some res, h, by simp [hr.1]⟩

/-- Continuing and waiting completes a single step less than was begun. -/
theorem continueAndWait_appends (d : Debugger (Recorded W)) :
    Appends Debugger.events (do
        let _ ← continueExecution env.recorded wait
        wait) d
      fun r events => Reported 0 r events ∧
        (r ≠ none → Survived events → outstanding events = -1) := by
  refine (continueExecution_appends hwait d).bind ?_ ?_
  · rintro new (⟨hr, -⟩ | ⟨r', h, hr'⟩)
    · exact absurd rfl hr
    · rw [hr'.mpr rfl] at h
      exact ⟨h.reported.of_succ, fun hr => absurd rfl hr⟩
  · intro _ d old _ hold
    refine (hwait d).conseq fun r new hnew => ?_
    rcases hold with ⟨-, rfl⟩ | ⟨r', h, hr'⟩
    · exact ⟨hnew.reported, hnew.completes⟩
    have hr : r' ≠ none := fun hr => Option.some_ne_none _ (hr'.mp hr)
    by_cases alive : Survived old
    · have hzero := h.completes hr alive
      refine ⟨hnew.reported.append alive (by rw [hzero]; rfl), fun hret hall => ?_⟩
      have hlast : Survived new := fun o ho => hall o (List.mem_append_right _ ho)
      rw [outstanding_append, hzero, hnew.completes hret hlast]
      rfl
    · -- The result of the step has been dropped.
      obtain ⟨o, ho⟩ := hnew.waits fun hz => hr (h.halts hz)
      refine ⟨h.reported.dropped alive ho, fun _ hall => ?_⟩
      exact absurd (fun o ho => hall o (List.mem_append_left _ ho)) alive

end Wait

theorem awaitStatus_appends (d : Debugger (Recorded W)) :
    Appends Debugger.events (awaitStatus env.recorded.pt) d fun r events =>
      ∃ o, events = [.waited o] ∧ match r with
        | some status => o = .status status
        | none => o.isDeath = false := by
  have hwait : env.recorded.pt.waitpid d.tracee = ((env.pt.waitpid d.tracee.tracee).1,
      ⟨(env.pt.waitpid d.tracee.tracee).2,
        d.tracee.record ++ [.waited (env.pt.waitpid d.tracee.tracee).1]⟩) := rfl
  unfold Appends awaitStatus
  rw [hwait]
  cases env.pt.waitpid d.tracee.tracee with
  | mk outcome w =>
      cases outcome with
      | status status => exact ⟨_, rfl, _, rfl, rfl⟩
      | failed => exact ⟨_, rfl, _, rfl, rfl⟩
      | blocked => exact ⟨_, rfl, _, rfl, rfl⟩

theorem getSignalInfo_appends (d : Debugger (Recorded W)) :
    Appends Debugger.events (request (ptGetSignalInfo env.recorded.pt)) d fun r events =>
      r ≠ none ∧ ∀ info, r = some info → events = [.told (info.getD .zero)] := by
  refine ⟨_, rfl, Option.some_ne_none _, fun info hinfo => ?_⟩
  obtain rfl := Option.some.inj hinfo
  rfl

/-- A wait that is over after one report. -/
theorem WaitEvents.single (hfuel : fuel ≠ 0)
    (hlast : r ≠ none → Survived (.waited o :: events) → outstanding (.waited o :: events) = -1)
    (hreported : Reported 0 r (.waited o :: events)) : WaitEvents fuel r (.waited o :: events) where
  reported := hreported
  completes := hlast
  halts hz := absurd hz hfuel
  waits _ := ⟨o, List.mem_cons_self⟩

theorem waited_of_death (hfuel : fuel ≠ 0) (hdead : o.isDeath = true) :
    WaitEvents fuel (some .err) [.waited o] := by
  refine .single hfuel (fun _ _ => ?_) (.heeded .nil rfl hdead)
  rcases o with (_ | _ | _ | _ | _) | _ | _
  all_goals first | rfl | cases hdead

theorem survived_waited (halive : o.isDeath = false) : Survived [.waited o] := by
  intro o' ho'
  cases List.mem_singleton.mp ho'
  exact halive

theorem survived_told (sig : Signal) (info : SigInfo) :
    Survived [.waited (.status (.stopped sig)), .told info] := by
  intro o ho
  rcases List.mem_cons.mp ho with ho | ho
  · cases ho
    rfl
  · cases List.mem_singleton.mp ho

theorem waitForSignal_appends (fuel : Nat) :
    ∀ d, Appends Debugger.events (waitForSignal env.recorded fuel) d (WaitEvents fuel) := by
  induction fuel with
  | zero =>
      intro d
      refine Appends.throw ⟨.survived .nil, fun hr => absurd rfl hr, fun _ => rfl, ?_⟩
      exact fun hfuel => absurd rfl hfuel
  | succ fuel ih =>
      intro d
      have hfuel : fuel + 1 ≠ 0 := Nat.succ_ne_zero fuel
      refine (awaitStatus_appends d).bind ?_ ?_
      · rintro new ⟨o, rfl, halive⟩
        exact .single hfuel (fun hr => absurd rfl hr) (.survived (survived_waited halive))
      rintro status d old _ ⟨o, rfl, rfl⟩
      cases status with
      | exited code =>
          exact (say_silent _).bind_appends fun _ d _ => Appends.pure (waited_of_death hfuel rfl)
      | signaled sig =>
          exact (say_silent _).bind_appends fun _ d _ => Appends.pure (waited_of_death hfuel rfl)
      | continued =>
          exact (say_silent _).bind_appends fun _ d _ => Appends.pure
            (.single hfuel (fun _ _ => rfl) (.survived (survived_waited rfl)))
      | invalid status =>
          exact (say_silent _).bind_appends fun _ d _ => Appends.pure
            (.single hfuel (fun _ _ => rfl) (.survived (survived_waited rfl)))
      | stopped sig =>
          refine (getSignalInfo_appends d).bind (fun _ h => absurd rfl h.1) ?_
          rintro info d old _ ⟨-, hinfo⟩
          obtain rfl := hinfo info rfl
          dsimp only
          generalize info.getD .zero = siginfo
          have htold : ∀ r, siginfo.signo ≠ .SIGWINCH → WaitEvents (fuel + 1) r
              [.waited (.status (.stopped sig)), .told siginfo] := by
            intro r hsigno
            refine .single hfuel (fun _ _ => ?_) (.survived (survived_told sig siginfo))
            simp [outstanding, Event.weight, hsigno]
          obtain ⟨signo, code⟩ := siginfo
          cases signo with
          | SIGSEGV =>
              exact (say_silent _).bind_appends fun _ d _ => Appends.pure (htold _ nofun)
          | SIGTRAP =>
              exact (handleSigtrap_silent _).bind_appends fun _ d _ => Appends.pure (htold _ nofun)
          | other signo =>
              exact (say_silent _).bind_appends fun _ d _ => Appends.pure (htold _ nofun)
          | SIGWINCH =>
              -- No step has been completed, and the tracee is continued and waited for.
              have hzero : outstanding [.waited (.status (.stopped sig)),
                  .told ⟨.SIGWINCH, code⟩] = 0 := rfl
              refine (continueAndWait_appends ih d).conseq fun r new h => ?_
              refine .single hfuel (fun hr hall => ?_) (h.1.append (survived_told sig _) hzero)
              have alive : Survived new := fun o ho =>
                hall o (List.mem_append_right [_, _] ho)
              exact (outstanding_append [_, _] new).trans (by rw [hzero, h.2 hr alive]; rfl)

end Spray
