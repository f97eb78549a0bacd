/-
Breakpoints that are passed over.

After a resumption the tracee should stop at the first position of its run that has a
breakpoint.  A `SIGWINCH` spoils this in two ways.  While the breakpoint under the PC is
taken out for a single step, the tracee is told to continue without it.  And where the
signal stops the tracee on a breakpoint it has not reported yet, that one is stepped over
like one it has.  Whether the schedule has such a signal is `Undisturbed`.
-/
import Spray.Proofs.Resume

namespace Spray

open Triple

namespace Run

variable (run : Run) (enabled : RealAddr → Bool)

/-- After position `p`, the first breakpoint of the run is at position `q`. -/
def FirstHit (p q : Nat) : Prop :=
  p < q ∧ run.hits enabled q = true ∧ run.Clear enabled (p + 1) q

/-- The run ends at position `e`, without a breakpoint after position `p`. -/
def EndsFirst (p e : Nat) : Prop :=
  p < e ∧ run.pc e = none ∧ run.Clear enabled (p + 1) e

/-- No signal stops the tracee on a breakpoint, when it is continued from position `q`. -/
def Quiet : List (Option Nat) → Nat → Prop
  | some k :: ws, q => run.Clear enabled q (q + k) → run.pc (q + k) ≠ none →
      run.hits enabled (q + k) = false ∧ Quiet ws (q + k)
  | none :: _, _ => True
  | [], _ => True

/-- No signal comes while a breakpoint is stepped off, or on a breakpoint not yet reported. -/
def Undisturbed (p : Nat) (ws : List (Option Nat)) : Prop :=
  if run.hits enabled p then
    ws.head?.join ≠ some 0 ∧
      (run.pc (p + 1) ≠ none → ws.head?.join ≠ some 1 ∧ run.Quiet enabled ws.tail (p + 1))
  else run.Quiet enabled ws p

/-- The tracee is stopped at position `q` of its run. -/
def StoppedOn (q : Nat) (d : Debugger Runner) : Prop :=
  d.tracee.isStopped = true ∧ d.tracee.pos = q ∧ run.pc q = some d.tracee.pc

end Run

/-- The debugger on a tracee that follows `run`. -/
def Env.onRun (env : Env Runner) (run : Run) (limit : Nat) : Env Runner :=
  { env with pt := run.ptrace limit }

/-- The tracee is stopped, and waits to be resumed. -/
structure Ready (run : Run) (enabled : RealAddr → Bool) (d : Debugger Runner) : Prop where
  follows : Follows run enabled d.toStore
  stopped : d.tracee.isStopped = true
  fresh : d.tracee.conts = []

/-- Every breakpoint has been in memory at each `PTRACE_CONT`. -/
def AllInPlace (run : Run) (enabled : RealAddr → Bool) (conts : List (Memory 64)) : Prop :=
  ∀ m ∈ conts, InPlace run enabled m

variable {run : Run} {enabled : RealAddr → Bool} {limit fuel : Nat} {env : Env Runner}
  {info : SigInfo} {pos : Nat} {ws : List (Option Nat)} {d : Debugger Runner}

theorem At.stoppedOn {R : List (Memory 64) → Prop} (h : At run R enabled (.stopped info) pos ws d) :
    run.StoppedOn pos d := by
  refine ⟨Runner.isStopped_of h.state, h.pos, ?_⟩
  rw [← h.pos]
  exact h.follows.place

theorem Run.Clear.append {p q r : Nat} (h : run.Clear enabled p q) (h' : run.Clear enabled q r) :
    run.Clear enabled p r := by
  intro j hlo hhi
  rcases Nat.lt_or_ge j q with hlt | hge
  · exact h j hlo hlt
  · exact h' j hge hhi

/-- There is one first breakpoint at most. -/
theorem Run.FirstHit.unique {p q q' : Nat} (h : run.FirstHit enabled p q)
    (h' : run.FirstHit enabled p q') : q = q' := by
  have key : ∀ {a b}, run.FirstHit enabled p a → run.FirstHit enabled p b → ¬ a < b := by
    intro a b ha hb hlt
    exact Run.ne_of_hits (hb.2.2 a ha.1 hlt) ha.2.1 rfl
  have hle := key h h'
  have hge := key h' h
  omega

theorem Run.FirstHit.not_ends {p q e : Nat} (h : run.FirstHit enabled p q)
    (h' : run.EndsFirst enabled p e) : False := by
  obtain ⟨hpq, hq, hclear⟩ := h
  obtain ⟨hpe, he, hclear'⟩ := h'
  rcases Nat.lt_trichotomy q e with hlt | heq | hgt
  · exact Run.ne_of_hits (hclear' q hpq hlt) hq rfl
  · rw [heq, Run.hits, he] at hq
    cases hq
  · exact Run.pc_of_plain (hclear e hpe hgt) he

/-! ### Waiting undisturbed -/

/-- Long enough to get from position `q` to the next breakpoint, or the end. -/
def Enough (run : Run) (enabled : RealAddr → Bool) (limit fuel : Nat) (ws : List (Option Nat))
    (q : Nat) : Prop :=
  ws.length < fuel ∧ ∃ j, q ≤ j ∧ j < q + limit ∧ run.plain enabled j = false

/-- The tracee, continued from position `q`, has stopped on a breakpoint or ended. -/
def Reports (run : Run) (enabled : RealAddr → Bool) (q : Nat) (res : SprayResult)
    (d : Debugger Runner) : Prop :=
  AllInPlace run enabled d.tracee.conts ∧
    ((∃ j, q ≤ j ∧ run.hits enabled j = true ∧ run.Clear enabled q j ∧ res = .ok ∧
        run.StoppedOn j d) ∨
      (∃ e, q ≤ e ∧ run.pc e = none ∧ run.Clear enabled q e ∧ d.tracee.state = .exited))

theorem Reports.from {q n : Nat} {res : SprayResult} (hclear : run.Clear enabled q (q + n))
    (h : Reports run enabled (q + n) res d) : Reports run enabled q res d := by
  obtain ⟨hconts, ⟨j, hj, hhits, hclear', hres, hstop⟩ | ⟨e, he, hend, hclear', hexit⟩⟩ := h
  · exact ⟨hconts, Or.inl ⟨j, by omega, hhits, hclear.append hclear', hres, hstop⟩⟩
  · exact ⟨hconts, Or.inr ⟨e, by omega, hend, hclear.append hclear', hexit⟩⟩

theorem Enough.from {q n k : Nat} {ws : List (Option Nat)}
    (hclear : run.Clear enabled q (q + n))
    (h : Enough run enabled limit (fuel + 1) (some k :: ws) q) :
    Enough run enabled limit fuel ws (q + n) := by
  obtain ⟨hfuel, j, hlo, hhi, hj⟩ := h
  rw [List.length_cons] at hfuel
  refine ⟨by omega, j, ?_, by omega, hj⟩
  by_contra hlt
  rw [hclear j hlo (by omega)] at hj
  cases hj

theorem AllInPlace.cont (h : At run (AllInPlace run enabled) enabled (.stopped info) pos ws d) :
    AllInPlace run enabled (d.tracee.conts ++ [d.tracee.mem]) := by
  intro m hm
  rcases List.mem_append.mp hm with hold | hnew
  · exact h.conts m hold
  · rw [List.mem_singleton.mp hnew]
    exact h.follows.inPlace

/-- Whenever a signal interrupts the wait, there is no breakpoint to be stepped over. -/
theorem waitForSignal_quiet (hpt : env.pt = run.ptrace limit) :
    ∀ fuel ws pos, run.Quiet enabled ws pos →
      Holds (At run (AllInPlace run enabled) enabled .continuing pos ws) (waitForSignal env fuel)
        (Reports run enabled pos)
        (fun _ d => AllInPlace run enabled d.tracee.conts ∧ ¬ Enough run enabled limit fuel ws pos) := by
  intro fuel
  induction fuel with
  | zero =>
      intro ws pos _
      exact Holds.throw fun d h => ⟨h.conts, fun henough => Nat.not_lt_zero _ henough.1⟩
  | succ fuel ih =>
      intro ws pos hquiet
      apply At.wait_continuing hpt
      · intro hclear _ d hconts
        refine ⟨hconts, ?_⟩
        intro ⟨_, j, hlo, hhi, hj⟩
        rw [hclear j hlo hhi] at hj
        cases hj
      · intro n hclear hat hpc
        obtain ⟨w, ws', rfl⟩ : ∃ w ws', ws = w :: ws' := by
          cases ws with
          | nil => cases hat
          | cons w ws' => exact ⟨w, ws', rfl⟩
        obtain rfl : w = some n := hat
        obtain ⟨hhits, hquiet'⟩ := hquiet hclear hpc
        apply Holds.bind (At.continueExecution_plain hpt _ _ hhits fun d h => AllInPlace.cont h)
        intro _
        apply (ih ws' (pos + n) hquiet').conseq (fun _ => id)
        · intro res d h
          exact h.from hclear
        · intro e d h
          exact ⟨h.1, fun henough => h.2 (henough.from hclear)⟩
      · intro n hclear _ hhits d h
        exact ⟨h.conts, Or.inl ⟨pos + n, by omega, hhits, hclear, rfl, h.stoppedOn⟩⟩
      · intro n hclear _ hlast d hexit _ hconts
        exact ⟨hconts, Or.inr ⟨pos + n + 1, by omega, hlast, hclear, hexit⟩⟩

/-! ### The whole operation, undisturbed -/

/-- What continuing and waiting comes to, when it returns. -/
def Arrives (run : Run) (enabled : RealAddr → Bool) (p : Nat) (res : SprayResult)
    (d : Debugger Runner) : Prop :=
  AllInPlace run enabled d.tracee.conts ∧
    ((∃ q, run.FirstHit enabled p q ∧ res = .ok ∧ run.StoppedOn q d) ∨
      (∃ e, run.EndsFirst enabled p e ∧ d.tracee.state = .exited))

/-- What it comes to otherwise. -/
def FallsShort (run : Run) (enabled : RealAddr → Bool) (limit fuel : Nat)
    (ws : List (Option Nat)) (p : Nat) (d : Debugger Runner) : Prop :=
  AllInPlace run enabled d.tracee.conts ∧
    ((∃ e, run.EndsFirst enabled p e ∧ d.tracee.state = .exited) ∨
      ¬ (ws.length < fuel ∧ ∃ j, p < j ∧ j < p + limit ∧ run.plain enabled j = false))

theorem Reports.arrives {p : Nat} {res : SprayResult} (h : Reports run enabled (p + 1) res d) :
    Arrives run enabled p res d := by
  obtain ⟨hconts, ⟨q, hq, hhits, hclear, hres, hstop⟩ | ⟨e, he, hend, hclear, hexit⟩⟩ := h
  · exact ⟨hconts, Or.inl ⟨q, ⟨hq, hhits, hclear⟩, hres, hstop⟩⟩
  · exact ⟨hconts, Or.inr ⟨e, ⟨he, hend, hclear⟩, hexit⟩⟩

/-- From a position without a breakpoint, the first report is a later one. -/
theorem Reports.after {p : Nat} {res : SprayResult} (hplain : run.plain enabled p = true)
    (h : Reports run enabled p res d) : Reports run enabled (p + 1) res d := by
  obtain ⟨hconts, ⟨q, hq, hhits, hclear, hres, hstop⟩ | ⟨e, he, hend, hclear, hexit⟩⟩ := h
  · refine ⟨hconts, Or.inl ⟨q, ?_, hhits, fun j hlo hhi => hclear j (by omega) hhi, hres, hstop⟩⟩
    exact Nat.lt_of_le_of_ne hq (Run.ne_of_hits hplain hhits)
  · refine ⟨hconts, Or.inr ⟨e, ?_, hend, fun j hlo hhi => hclear j (by omega) hhi, hexit⟩⟩
    rcases Nat.eq_or_lt_of_le he with heq | hlt
    · exact absurd (heq ▸ hend) (Run.pc_of_plain hplain)
    · exact hlt

theorem cont_of_exited (hpt : env.pt = run.ptrace limit) (h : d.tracee.state = .exited) :
    request (ptContinueExecution env.pt) d = .ok (some .ESRCH) d := by
  have hreq : ptContinueExecution env.pt d.tracee = (some .ESRCH, d.tracee) := by
    unfold ptContinueExecution
    rw [hpt]
    simp [Run.ptrace, Runner.isStopped, h]
  unfold request
  rw [hreq]

theorem wait_of_exited {P : Debugger Runner → Prop} {H : Halt → Debugger Runner → Prop}
    (hpt : env.pt = run.ptrace limit) (hexit : ∀ d, P d → d.tracee.state = .exited)
    (Q : SprayResult → Debugger Runner → Prop) (hhalt : ∀ e d, P d → H e d) (fuel : Nat) :
    Holds P (waitForSignal env fuel) Q H := by
  cases fuel with
  | zero => exact Holds.throw (hhalt _)
  | succ fuel =>
      refine Holds.bind (Q := fun _ _ => False) (fun d h => ?_) fun _ _ => False.elim
      have hwait : env.pt.waitpid d.tracee = (.failed, d.tracee) := by
        rw [hpt]
        simp [Run.ptrace, hexit d h]
      unfold awaitStatus
      rw [hwait]
      exact hhalt _ d h

/-- The tracee has exited. -/
def Gone (run : Run) (enabled : RealAddr → Bool) (d : Debugger Runner) : Prop :=
  d.tracee.state = .exited ∧ AllInPlace run enabled d.tracee.conts

theorem Gone.enable (hpt : env.pt = run.ptrace limit) (H : Halt → Debugger Runner → Prop)
    (addr : RealAddr) :
    Holds (Gone run enabled) (onStore (enableBreakpoint env.pt addr))
      (fun _ => Gone run enabled) H := by
  intro d h
  have hsame := enableBreakpoint_rest hpt addr d.toStore
  have hstate : (enableBreakpoint env.pt addr d.toStore).2.tracee.state = d.tracee.state :=
    congrArg (·.2.2.1) hsame
  have hconts : (enableBreakpoint env.pt addr d.toStore).2.tracee.conts = d.tracee.conts :=
    congrArg (·.2.2.2.2) hsame
  refine ⟨hstate.trans h.1, ?_⟩
  show AllInPlace run enabled (enableBreakpoint env.pt addr d.toStore).2.tracee.conts
  rw [hconts]
  exact h.2

/-- Nothing is continued any more. -/
theorem Gone.cont (hpt : env.pt = run.ptrace limit) (H : Halt → Debugger Runner → Prop) :
    Holds (Gone run enabled) (request (ptContinueExecution env.pt))
      (fun r d => r = some .ESRCH ∧ Gone run enabled d) H := by
  intro d h
  rw [cont_of_exited hpt h.1]
  exact ⟨rfl, h⟩

/-- After the step off a breakpoint: one position further on, or at the end. -/
def SteppedOff (run : Run) (enabled user : RealAddr → Bool) (p : Nat) (ws : List (Option Nat))
    (d : Debugger Runner) : Prop :=
  (run.pc (p + 1) ≠ none ∧
    ∃ info, At run (AllInPlace run user) enabled (.stopped info) (p + 1) ws d) ∨
  (run.pc (p + 1) = none ∧ Gone run user d)

/-- With no signal in between, the step is over before anything else happens. -/
theorem singleStepBreakpoint_undisturbed (hpt : env.pt = run.ptrace limit)
    (H : Halt → Debugger Runner → Prop) {p : Nat} (hhits : run.hits enabled p = true)
    (hbefore : ws.head?.join ≠ some 0) (hafter : run.pc (p + 1) ≠ none → ws.head?.join ≠ some 1) :
    Holds (At run (AllInPlace run enabled) enabled (.stopped info) p ws)
      (singleStepBreakpoint env (waitForSignal env (fuel + 1)))
      (fun _ => SteppedOff run enabled enabled p ws.tail) H := by
  obtain ⟨a, ha, hon⟩ := Run.exists_of_hits hhits
  apply At.singleStepBreakpoint_hits hpt ha hhits
    (S := fun _ => SteppedOff run (Function.update enabled ⟨a⟩ false) enabled p ws.tail)
  · apply At.wait_stepping hpt
    · rw [Run.plain_iff ha, Function.update_self]
      rfl
    · intro n hat hn hpc
      have hcases : n = 0 ∨ n = 1 := by omega
      rcases hcases with rfl | rfl
      · exact absurd hat hbefore
      · exact absurd hat (hafter hpc)
    · intro _ hpc d h
      exact Or.inl ⟨hpc, _, h⟩
    · intro _ hlast d hexit _ hconts
      exact Or.inr ⟨hlast, hexit, hconts⟩
  · intro res d h
    rcases h with ⟨hpc, info', h⟩ | ⟨hlast, h⟩
    · have hback := At.enable hpt H ⟨a⟩ d h
      rw [Function.update_idem, show true = enabled ⟨a⟩ from hon.symm,
        Function.update_eq_self] at hback
      exact Or.inl ⟨hpc, info', hback⟩
    · exact Or.inr ⟨hlast, Gone.enable hpt H ⟨a⟩ d h⟩

/-- The tracee is continued from where the step has left it. -/
theorem continueExecution_undisturbed (hpt : env.pt = run.ptrace limit)
    (H : Halt → Debugger Runner → Prop) {p : Nat} (hhits : run.hits enabled p = true)
    (hbefore : ws.head?.join ≠ some 0) (hafter : run.pc (p + 1) ≠ none → ws.head?.join ≠ some 1) :
    Holds (At run (AllInPlace run enabled) enabled (.stopped info) p ws)
      (continueExecution env (waitForSignal env (fuel + 1)))
      (fun _ d => (run.pc (p + 1) ≠ none ∧
          At run (AllInPlace run enabled) enabled .continuing (p + 1) ws.tail d) ∨
        (run.pc (p + 1) = none ∧ Gone run enabled d)) H := by
  apply Holds.bind (singleStepBreakpoint_undisturbed hpt H hhits hbefore hafter)
  intro _ d hd
  rcases hd with ⟨hne, info', hd⟩ | ⟨hlast, hd⟩
  · refine Holds.bind (At.cont hpt H fun d h => AllInPlace.cont h) (fun errno => ?_) d hd
    cases errno with
    | none => exact Holds.pure fun _ h => Or.inl ⟨hne, h.2⟩
    | some e => exact fun d h => absurd h.1 (Option.some_ne_none e)
  · refine Holds.bind (Gone.cont hpt H) (fun errno d h => ?_) d hd
    obtain ⟨rfl, hgone⟩ := h
    exact Or.inr ⟨hlast, hgone⟩

theorem continueAndWait_undisturbed (hpt : env.pt = run.ptrace limit) {p : Nat}
    (hpc : run.pc p ≠ none) (h : run.Undisturbed enabled p ws) :
    Holds (At run (AllInPlace run enabled) enabled (.stopped info) p ws)
      (SteppingOp.exec env fuel .continueAndWait) (Arrives run enabled p)
      (fun _ => FallsShort run enabled limit fuel ws p) := by
  unfold Run.Undisturbed at h
  cases hhits : run.hits enabled p with
  | false =>
      rw [hhits, if_neg Bool.false_ne_true] at h
      apply Holds.bind (At.continueExecution_plain hpt _ _ hhits fun d h => AllInPlace.cont h)
      intro _
      apply (waitForSignal_quiet hpt fuel ws p h).conseq (fun _ => id)
      · intro res d hd
        exact (hd.after (Run.plain_of_not_hits hpc hhits)).arrives
      · intro e d hd
        refine ⟨hd.1, Or.inr fun hlong => hd.2 ?_⟩
        obtain ⟨hfuel, j, hlo, hhi, hj⟩ := hlong
        exact ⟨hfuel, j, by omega, hhi, hj⟩
  | true =>
      rw [hhits, if_pos rfl] at h
      obtain ⟨hbefore, hrest⟩ := h
      cases fuel with
      | zero =>
          obtain ⟨a, ha, -⟩ := Run.exists_of_hits hhits
          refine Holds.bind (Q := fun _ _ => False) ?_ fun _ _ => False.elim
          refine Holds.bind (Q := fun _ _ => False) ?_ fun _ _ => False.elim
          apply At.singleStepBreakpoint_hits hpt ha hhits (S := fun _ _ => False)
          · exact Holds.throw fun d h => ⟨h.conts, Or.inr fun hlong => Nat.not_lt_zero _ hlong.1⟩
          · exact fun _ _ => False.elim
      | succ fuel =>
          apply Holds.bind
            (continueExecution_undisturbed hpt _ hhits hbefore fun hne => (hrest hne).1)
          intro _ d hd
          rcases hd with ⟨hne, hd⟩ | ⟨hlast, hd⟩
          · have hquiet := waitForSignal_quiet hpt (fuel + 1) ws.tail (p + 1) (hrest hne).2
            refine hquiet.conseq (fun _ => id) (fun res d h => h.arrives) (fun e d h => ?_) d hd
            refine ⟨h.1, Or.inr fun hlong => h.2 ?_⟩
            obtain ⟨hfuel, j, hlo, hhi, hj⟩ := hlong
            refine ⟨?_, j, hlo, by omega, hj⟩
            rw [List.length_tail]
            omega
          · refine wait_of_exited hpt (fun _ h => h.1) _ (fun e d h => ?_) _ d hd
            exact ⟨h.2, Or.inl ⟨p + 1, ⟨Nat.lt_succ_self p, hlast, fun j hlo hhi => by omega⟩, h.1⟩⟩

/-- It has not been continued before. -/
theorem Ready.at_fresh (h : Ready run enabled d) :
    ∃ info, At run (· = []) enabled (.stopped info) d.tracee.pos d.tracee.winch d := by
  have hstop := h.stopped
  unfold Runner.isStopped at hstop
  cases hst : d.tracee.state with
  | stopped info => exact ⟨info, h.follows, hst, rfl, rfl, h.fresh⟩
  | stepping => rw [hst] at hstop; cases hstop
  | continuing => rw [hst] at hstop; cases hstop
  | exited => rw [hst] at hstop; cases hstop

theorem At.allInPlace {enabled' : RealAddr → Bool} {st : RunnerState}
    (h : At run (· = []) enabled st pos ws d) :
    At run (AllInPlace run enabled') enabled st pos ws d := by
  refine ⟨h.follows, h.state, h.pos, h.winch, ?_⟩
  rw [h.conts]
  exact fun m hm => absurd hm List.not_mem_nil

theorem Ready.at (h : Ready run enabled d) :
    ∃ info, At run (AllInPlace run enabled) enabled (.stopped info) d.tracee.pos d.tracee.winch d :=
  h.at_fresh.imp fun _ => At.allInPlace

theorem Ready.pc_ne_none (h : Ready run enabled d) : run.pc d.tracee.pos ≠ none := by
  rw [h.follows.place]
  exact Option.some_ne_none _

end Spray
