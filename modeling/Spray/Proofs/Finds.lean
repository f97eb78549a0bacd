/-
Where the debugger finds a tracee again.

A wait goes on until the tracee is stopped by something else than a `SIGWINCH`, or is gone.
Each signal is left with a full continue, off a breakpoint if the tracee is on one.  `Finds`
says this of positions on the run.  A wait that returns has found the tracee there, and it
does return, if there is time enough.
-/
import Spray.Proofs.Undisturbed

namespace Spray

open Triple

/-- What a wait comes to. -/
inductive Landing
  /-- The tracee is stopped at a position, with the signals to come after it. -/
  | stopped (pos : Nat) (ws : List (Option Nat))
  /-- It has got to a position, and is gone. -/
  | gone (pos : Nat)

namespace Landing

def pos : Landing → Nat
  | .stopped pos _ => pos
  | .gone pos => pos

def result : Landing → SprayResult
  | .stopped .. => .ok
  | .gone _ => .err

end Landing

inductive Arrival
  /-- There is a `SIGWINCH`. -/
  | resized
  /-- A breakpoint is hit, or a step is completed. -/
  | stopped
  | ended

namespace Run

variable (run : Run)

/-- The process does not end before position `q`. -/
def Through (p q : Nat) : Prop := ∀ j, p ≤ j → j < q → run.pc j ≠ none

/-- The breakpoints of `user` that are in place while the instruction at position `p` is
executed. -/
def meanwhile (user : RealAddr → Bool) (p : Nat) : RealAddr → Bool :=
  fun a => user a && run.pc p ≠ some a.value

/-- Let go at position `q`, the tracee gets to position `e`.  If there is a signal, it comes
after `w` instructions. -/
inductive Arrives (enabled : RealAddr → Bool) (q : Nat) (w : Option Nat) :
    RunnerState → Arrival → (e : Nat) → Prop
  | resized {n : Nat} (hat : w = some n) (hclear : run.Clear enabled q (q + n))
      (hpc : run.pc (q + n) ≠ none) : Arrives enabled q w .continuing .resized (q + n)
  | trapped {n : Nat} (hearly : ∀ k, w = some k → n < k) (hclear : run.Clear enabled q (q + n))
      (hhits : run.hits enabled (q + n) = true) : Arrives enabled q w .continuing .stopped (q + n)
  | ended {n : Nat} (hearly : ∀ k, w = some k → n < k) (hclear : run.Clear enabled q (q + n + 1))
      (hend : run.pc (q + n + 1) = none) : Arrives enabled q w .continuing .ended (q + n + 1)
  | stepResized {n : Nat} (hat : w = some n) (hle : n ≤ 1) (hpc : run.pc (q + n) ≠ none) :
      Arrives enabled q w .stepping .resized (q + n)
  | stepped (hlate : ∀ k, w = some k → 1 < k) (hpc : run.pc (q + 1) ≠ none) :
      Arrives enabled q w .stepping .stopped (q + 1)
  | stepEnded (hlate : w ≠ some 0) (hend : run.pc (q + 1) = none) :
      Arrives enabled q w .stepping .ended (q + 1)

/-- A tracee in this state at position `q`, with the signals `ws` to come, is found again. -/
inductive Finds :
    (enabled : RealAddr → Bool) → RunnerState → (q : Nat) → List (Option Nat) → Landing → Prop
  | stopped {enabled : RealAddr → Bool} {st : RunnerState} {q e : Nat} {ws : List (Option Nat)}
      (arrives : run.Arrives enabled q ws.head?.join st .stopped e) :
      Finds enabled st q ws (.stopped e ws.tail)
  | gone {enabled : RealAddr → Bool} {st : RunnerState} {q e : Nat} {ws : List (Option Nat)}
      (arrives : run.Arrives enabled q ws.head?.join st .ended e) : Finds enabled st q ws (.gone e)
  | resized {enabled : RealAddr → Bool} {st : RunnerState} {q e : Nat} {ws : List (Option Nat)}
      {f : Landing} (arrives : run.Arrives enabled q ws.head?.join st .resized e)
      (finds : Finds enabled (.stopped ⟨.SIGWINCH, .SI_KERNEL⟩) e ws.tail f) :
      Finds enabled st q ws f
  | plain {enabled : RealAddr → Bool} {info : SigInfo} {q : Nat} {ws : List (Option Nat)}
      {f : Landing} (hhits : run.hits enabled q = false)
      (finds : Finds enabled .continuing q ws f) : Finds enabled (.stopped info) q ws f
  /-- The breakpoint is stepped off first, and is back before the tracee is continued. -/
  | off {enabled : RealAddr → Bool} {info : SigInfo} {q j : Nat} {ws ws' : List (Option Nat)}
      {f : Landing} (hhits : run.hits enabled q = true)
      (steps : Finds (run.meanwhile enabled q) .stepping q ws (.stopped j ws'))
      (finds : Finds enabled .continuing j ws' f) : Finds enabled (.stopped info) q ws f

end Run

variable {run : Run} {enabled user : RealAddr → Bool} {limit fuel p q e : Nat} {env : Env Runner}
  {info : SigInfo} {ws : List (Option Nat)} {d : Debugger Runner} {st : RunnerState}
  {w : Option Nat} {a : Arrival} {f : Landing}

theorem Run.Through.append {p q r : Nat} (h : run.Through p q) (h' : run.Through q r) :
    run.Through p r := by
  intro j hlo hhi
  rcases Nat.lt_or_ge j q with hlt | hge
  · exact h j hlo hlt
  · exact h' j hge hhi

theorem Run.Clear.through (h : run.Clear enabled p q) : run.Through p q :=
  fun j hlo hhi => Run.pc_of_plain (h j hlo hhi)

theorem Run.through_one (h : run.pc p ≠ none) : run.Through p (p + 1) := by
  intro j hlo hhi
  obtain rfl : j = p := by omega
  exact h

/-! ### The breakpoints meanwhile -/

theorem Run.meanwhile_eq {a : Word} (ha : run.pc p = some a) :
    run.meanwhile user p = Function.update user ⟨a⟩ false := by
  funext b
  unfold Run.meanwhile
  by_cases hb : b = ⟨a⟩
  · simp [hb, ha]
  · have hne : a ≠ b.value := by
      rintro rfl
      exact hb rfl
    simp [hb, ha, hne]

/-- The instruction itself is not a breakpoint meanwhile. -/
theorem Run.meanwhile_plain (h : run.pc p ≠ none) :
    run.plain (run.meanwhile user p) p = true := by
  obtain ⟨a, ha⟩ := Option.ne_none_iff_exists'.mp h
  rw [Run.plain_iff ha, Run.meanwhile_eq ha, Function.update_self]
  rfl

theorem Run.pc_of_hits (h : run.hits enabled q = true) : run.pc q ≠ none := by
  obtain ⟨a, ha, -⟩ := Run.exists_of_hits h
  rw [ha]
  exact Option.some_ne_none a

theorem Run.not_plain_of_end (h : run.pc q = none) : run.plain enabled q = false := by
  rw [Run.plain, h, Option.any_none]

/-- What the tracee meets there is decided by the position. -/
theorem Run.Arrives.kind (h : run.Arrives enabled q w st a e) :
    a = if run.pc e = none then .ended else if w = some (e - q) then .resized else .stopped := by
  cases h with
  | resized hat _ hpc => rw [if_neg hpc, Nat.add_sub_cancel_left, if_pos hat]
  | trapped hearly _ hhits =>
      rw [if_neg (Run.pc_of_hits hhits), Nat.add_sub_cancel_left,
        if_neg fun hat => Nat.lt_irrefl _ (hearly _ hat)]
  | ended _ _ hend => rw [if_pos hend]
  | stepResized hat _ hpc => rw [if_neg hpc, Nat.add_sub_cancel_left, if_pos hat]
  | stepped hlate hpc =>
      rw [if_neg hpc, Nat.add_sub_cancel_left, if_neg fun hat => Nat.lt_irrefl _ (hlate _ hat)]
  | stepEnded _ hend => rw [if_pos hend]

theorem Run.Arrives.step_eq (h : run.Arrives enabled q w .stepping a e) :
    e = if w = some 0 then q else q + 1 := by
  cases h with
  | stepResized hat hle _ =>
      rcases Nat.le_one_iff_eq_zero_or_eq_one.mp hle with rfl | rfl
      · rw [if_pos hat, Nat.add_zero]
      · rw [if_neg]
        rw [hat]
        nofun
  | stepped hlate _ => rw [if_neg fun hat => Nat.not_lt_zero 1 (hlate 0 hat)]
  | stepEnded hlate _ => rw [if_neg hlate]

/-- Continued, the tracee executes the instructions on its way, before any signal. -/
theorem Run.Arrives.reach (h : run.Arrives enabled q w .continuing a e) :
    ∃ n, e = q + n ∧ run.Clear enabled q (q + n) ∧ ∀ k, w = some k → n ≤ k := by
  cases h with
  | resized hat hclear _ =>
      exact ⟨_, rfl, hclear, fun k hk => Nat.le_of_eq (Option.some.inj (hat.symm.trans hk))⟩
  | trapped hearly hclear _ => exact ⟨_, rfl, hclear, fun k hk => Nat.le_of_lt (hearly k hk)⟩
  | ended hearly hclear _ => exact ⟨_, rfl, hclear, hearly⟩

/-- It does not get further than to the signal, or to a position that is not plain. -/
theorem Run.Arrives.le {n : Nat} (h : run.Arrives enabled q w .continuing a e)
    (hclear : run.Clear enabled q (q + n)) (hearly : ∀ k, w = some k → n ≤ k) : q + n ≤ e := by
  have hfirst : run.plain enabled e = false → q ≤ e → q + n ≤ e := by
    intro hoff hle
    refine Nat.le_of_not_lt fun hlt => ?_
    rw [hclear e hle hlt] at hoff
    cases hoff
  cases h with
  | resized hat _ _ => exact Nat.add_le_add_left (hearly _ hat) q
  | trapped _ _ hhits => exact hfirst (Run.not_plain_of_hits hhits) (by omega)
  | ended _ _ hend => exact hfirst (Run.not_plain_of_end hend) (by omega)

/-- The tracee does not get to two different positions. -/
theorem Run.Arrives.unique {a' : Arrival} {e' : Nat} (h : run.Arrives enabled q w st a e)
    (h' : run.Arrives enabled q w st a' e') : a = a' ∧ e = e' := by
  have hle : ∀ {a a' e e'}, run.Arrives enabled q w .continuing a e →
      run.Arrives enabled q w .continuing a' e' → e' ≤ e := by
    intro a a' e e' h h'
    obtain ⟨n, rfl, hclear, hearly⟩ := h'.reach
    exact h.le hclear hearly
  have hsame : e = e' := by
    cases st with
    | stopped info => cases h
    | exited => cases h
    | stepping => rw [h.step_eq, h'.step_eq]
    | continuing => exact Nat.le_antisymm (hle h' h) (hle h h')
  subst hsame
  exact ⟨h.kind.trans h'.kind.symm, rfl⟩

/-- A tracee that is found again has not ended before. -/
theorem Run.Arrives.place (h : run.Arrives enabled q w .continuing a e) : run.pc q ≠ none := by
  have hclear : ∀ {n}, run.Clear enabled q (q + n) → n ≠ 0 → run.pc q ≠ none := fun h hn =>
    Run.pc_of_plain (h q (Nat.le_refl q) (by omega))
  cases h with
  | @resized n _ hc hpc =>
      rcases n.eq_zero_or_pos with rfl | hpos
      · exact hpc
      · exact hclear hc (by omega)
  | @trapped n _ hc hhits =>
      rcases n.eq_zero_or_pos with rfl | hpos
      · exact Run.pc_of_hits hhits
      · exact hclear hc (by omega)
  | ended _ hc _ => exact hclear hc (Nat.succ_ne_zero _)

/-- On a breakpoint, or gone with an instruction that has none. -/
def Run.Lands (run : Run) (enabled : RealAddr → Bool) (q : Nat) : Landing → Prop
  | .stopped j _ => q ≤ j ∧ run.Through q j ∧ run.hits enabled j = true
  | .gone j => ∃ n, j = n + 1 ∧ q ≤ n ∧ run.Through q n ∧ run.plain enabled n = true ∧
      run.pc (n + 1) = none

theorem Run.Lands.from {q' : Nat} (hle : q ≤ q') (hthrough : run.Through q q')
    (h : run.Lands enabled q' f) : run.Lands enabled q f := by
  cases f with
  | stopped j ws =>
      obtain ⟨hj, hto, hhits⟩ := h
      exact ⟨Nat.le_trans hle hj, hthrough.append hto, hhits⟩
  | gone j =>
      obtain ⟨n, hj, hn, hto, hplain, hend⟩ := h
      exact ⟨n, hj, Nat.le_trans hle hn, hthrough.append hto, hplain, hend⟩

theorem Run.Lands.through (h : run.Lands enabled q f) : q ≤ f.pos ∧ run.Through q f.pos := by
  cases f with
  | stopped j ws => exact ⟨h.1, h.2.1⟩
  | gone j =>
      obtain ⟨n, rfl, hn, hto, hplain, -⟩ := h
      exact ⟨Nat.le_succ_of_le hn, hto.append (Run.through_one (Run.pc_of_plain hplain))⟩

/-- **A continued tracee is found on a breakpoint, or gone.**  After a step it is only further. -/
theorem Run.Finds.lands (h : run.Finds enabled st q ws f) :
    (st = .stepping → run.pc q ≠ none → q ≤ f.pos ∧ run.Through q f.pos) ∧
      (st ≠ .stepping → run.Lands enabled q f) := by
  induction h with
  | stopped harrives =>
      cases harrives with
      | trapped _ hclear hhits => exact ⟨nofun, fun _ => ⟨by omega, hclear.through, hhits⟩⟩
      | stepped => exact ⟨fun _ hpc => ⟨Nat.le_succ _, Run.through_one hpc⟩, fun h => absurd rfl h⟩
  | gone harrives =>
      cases harrives with
      | @ended n _ hclear hend =>
          refine ⟨nofun, fun _ => ⟨_, rfl, by omega, fun j hlo hhi => ?_,
            hclear _ (by omega) (by omega), hend⟩⟩
          exact hclear.through j hlo (by omega)
      | stepEnded =>
          exact ⟨fun _ hpc => ⟨Nat.le_succ _, Run.through_one hpc⟩, fun h => absurd rfl h⟩
  | @resized _ _ q _ _ f harrives _ ih =>
      have hlands := ih.2 nofun
      cases harrives with
      | resized _ hclear _ => exact ⟨nofun, fun _ => hlands.from (by omega) hclear.through⟩
      | @stepResized n _ hle _ =>
          refine ⟨fun _ hpc => ?_, fun h => absurd rfl h⟩
          have hfrom : run.Lands _ q f := hlands.from (by omega) fun j hlo hhi =>
            Run.through_one hpc j hlo (by omega)
          exact hfrom.through
  | plain _ _ ih => exact ⟨nofun, fun _ => ih.2 nofun⟩
  | off hhits _ _ ihStep ih =>
      obtain ⟨hle, hthrough⟩ := ihStep.1 rfl (Run.pc_of_hits hhits)
      exact ⟨nofun, fun _ => (ih.2 nofun).from hle hthrough⟩

/-! ### Waiting -/

/-- A tracee that is let go, and does not step on a breakpoint. -/
def Run.LetGo (run : Run) (enabled : RealAddr → Bool) (q : Nat) (st : RunnerState) : Prop :=
  st = .continuing ∨ st = .stepping ∧ run.plain enabled q = true

/-- **What a wait returns, wherever the tracee gets to.** -/
theorem At.wait_arrives (hpt : env.pt = run.ptrace limit) {R : List (Memory 64) → Prop}
    {Q : SprayResult → Debugger Runner → Prop} {H : Halt → Debugger Runner → Prop}
    (hgo : run.LetGo enabled q st)
    (hblocked : st = .continuing → run.Clear enabled q (q + limit) →
      (∀ k, ws.head?.join = some k → limit ≤ k) → ∀ d, R d.tracee.conts → H .blocked d)
    (hresized : ∀ e, run.Arrives enabled q ws.head?.join st .resized e →
      Holds (At run R enabled (.stopped ⟨.SIGWINCH, .SI_KERNEL⟩) e ws.tail)
        (do
          let _ ← continueExecution env (waitForSignal env fuel)
          waitForSignal env fuel) Q H)
    (hstopped : ∀ e, run.Arrives enabled q ws.head?.join st .stopped e → ∀ info d,
      At run R enabled (.stopped info) e ws.tail d → Q .ok d)
    (hended : ∀ e, run.Arrives enabled q ws.head?.join st .ended e → ∀ d : Debugger Runner,
      d.tracee.state = .exited → d.tracee.pos = e → Q .err d) :
    Holds (At run R enabled st q ws) (waitForSignal env (fuel + 1)) Q H := by
  rcases hgo with rfl | ⟨rfl, hplain⟩
  · apply At.wait_continuing hpt
    · exact hblocked rfl
    · exact fun n hclear hat hpc => hresized _ (.resized hat hclear hpc)
    · exact fun n hclear hearly hhits => hstopped _ (.trapped hearly hclear hhits) _
    · exact fun n hclear hearly hend d hexit hpos _ =>
        hended _ (.ended hearly hclear hend) d hexit hpos
  · apply At.wait_stepping hpt hplain
    · exact fun n hat hle hpc => hresized _ (.stepResized hat hle hpc)
    · exact fun hlate hpc => hstopped _ (.stepped hlate hpc) _
    · exact fun hlate hend d hexit hpos _ => hended _ (.stepEnded hlate hend) d hexit hpos

/-- The debugger is where it has found the tracee. -/
def Landing.At (run : Run) (enabled : RealAddr → Bool) :
    Landing → SprayResult → Debugger Runner → Prop
  | .stopped pos ws, res, d => res = .ok ∧
      ∃ info, Spray.At run (fun _ => True) enabled (.stopped info) pos ws d
  | .gone pos, res, d => res = .err ∧ d.tracee.state = .exited ∧ d.tracee.pos = pos

/-- What the debugger does until it has found a tracee in this state. -/
def seek (env : Env Runner) (fuel : Nat) : RunnerState → DbgM Runner SprayResult
  | .stopped _ => do
    let _ ← continueExecution env (waitForSignal env fuel)
    waitForSignal env fuel
  | _ => waitForSignal env fuel

theorem Run.LetGo.seek_eq (h : run.LetGo enabled q st) (env : Env Runner) (fuel : Nat) :
    seek env fuel st = waitForSignal env fuel := by
  rcases h with rfl | ⟨rfl, -⟩
  · rfl
  · rfl

/-- A stop off the breakpoints is left by continuing. -/
theorem At.seek_plain (hpt : env.pt = run.ptrace limit)
    {Q : SprayResult → Debugger Runner → Prop} {H : Halt → Debugger Runner → Prop}
    (hhits : run.hits enabled q = false)
    (hwait : Holds (At run (fun _ => True) enabled .continuing q ws) (waitForSignal env fuel) Q H) :
    Holds (At run (fun _ => True) enabled (.stopped info) q ws) (seek env fuel (.stopped info))
      Q H :=
  Holds.bind (At.continueExecution_plain (T := fun _ => True) hpt H _ hhits fun _ _ => trivial)
    fun _ => hwait

/-- With the breakpoint back after a step off it, the tracee is where the step has led, or
gone. -/
def LedOff (run : Run) (enabled : RealAddr → Bool) (F : Landing → Prop)
    (st : RunnerState → Prop) (d : Debugger Runner) : Prop :=
  (∃ j ws st', F (.stopped j ws) ∧ st st' ∧ At run (fun _ => True) enabled st' j ws d) ∨
    (∃ j, F (.gone j)) ∧ d.tracee.state = .exited

section Off

variable {F : Landing → Prop} {H : Halt → Debugger Runner → Prop}

theorem At.singleStepBreakpoint_leads (hpt : env.pt = run.ptrace limit)
    (hhits : run.hits enabled q = true)
    (hstep : Holds (At run (fun _ => True) (run.meanwhile enabled q) .stepping q ws)
      (waitForSignal env fuel)
      (fun res d => ∃ f, F f ∧ f.At run (run.meanwhile enabled q) res d) H) :
    Holds (At run (fun _ => True) enabled (.stopped info) q ws)
      (singleStepBreakpoint env (waitForSignal env fuel))
      (fun _ => LedOff run enabled F fun st => ∃ info, st = .stopped info) H := by
  obtain ⟨a, ha, hon⟩ := Run.exists_of_hits hhits
  rw [Run.meanwhile_eq ha] at hstep
  apply At.singleStepBreakpoint_hits hpt ha hhits hstep
  rintro res d ⟨_ | j, hF, hfound⟩
  · obtain ⟨-, info, hat⟩ := hfound
    have hback := At.enable hpt (fun _ _ => True) ⟨a⟩ d hat
    rw [Function.update_idem, ← hon, Function.update_eq_self] at hback
    exact .inl ⟨_, _, _, hF, ⟨info, rfl⟩, hback⟩
  · have hsame := enableBreakpoint_rest hpt ⟨a⟩ d.toStore
    exact .inr ⟨⟨j, hF⟩, (congrArg (·.2.2.1) hsame).trans hfound.2.1⟩

theorem At.continueExecution_leads (hpt : env.pt = run.ptrace limit)
    (hhits : run.hits enabled q = true)
    (hstep : Holds (At run (fun _ => True) (run.meanwhile enabled q) .stepping q ws)
      (waitForSignal env fuel)
      (fun res d => ∃ f, F f ∧ f.At run (run.meanwhile enabled q) res d) H) :
    Holds (At run (fun _ => True) enabled (.stopped info) q ws)
      (continueExecution env (waitForSignal env fuel))
      (fun _ => LedOff run enabled F (· = .continuing)) H := by
  refine Holds.bind (At.singleStepBreakpoint_leads hpt hhits hstep) fun _ => ?_
  rintro d (⟨j, ws', _, hF, ⟨info, rfl⟩, hat⟩ | ⟨hF, hexit⟩)
  · refine Holds.bind (At.cont (T := fun _ => True) hpt _ fun _ _ => trivial)
      (fun errno => ?_) d hat
    cases errno with
    | none => exact Holds.pure fun _ h => .inl ⟨j, ws', _, hF, rfl, h.2⟩
    | some e => exact fun d h => absurd h.1 (Option.some_ne_none e)
  · rw [bind_run (cont_of_exited hpt hexit)]
    exact .inr ⟨hF, hexit⟩

/-- A stop on a breakpoint is left from wherever a step off it has led. -/
theorem At.seek_off (hpt : env.pt = run.ptrace limit)
    {Q : SprayResult → Debugger Runner → Prop} (hhits : run.hits enabled q = true)
    (hstep : Holds (At run (fun _ => True) (run.meanwhile enabled q) .stepping q ws)
      (waitForSignal env fuel)
      (fun res d => ∃ f, F f ∧ f.At run (run.meanwhile enabled q) res d) H)
    (hwait : ∀ j ws', F (.stopped j ws') →
      Holds (At run (fun _ => True) enabled .continuing j ws') (waitForSignal env fuel) Q H)
    (hgone : ∀ j, F (.gone j) → ∀ e d, H e d) :
    Holds (At run (fun _ => True) enabled (.stopped info) q ws) (seek env fuel (.stopped info))
      Q H := by
  refine Holds.bind (At.continueExecution_leads hpt hhits hstep) fun _ => ?_
  rintro d (⟨j, ws', _, hF, rfl, hat⟩ | ⟨⟨j, hF⟩, hexit⟩)
  · exact hwait j ws' hF d hat
  · exact wait_of_exited hpt (fun _ => id) _ (fun e d _ => hgone j hF e d) fuel d hexit

end Off

/-- Whatever a wait with this fuel returns, it has found the tracee. -/
def WaitsFind (env : Env Runner) (run : Run) (fuel : Nat) : Prop :=
  ∀ enabled st q ws, run.LetGo enabled q st → Holds (At run (fun _ => True) enabled st q ws)
    (waitForSignal env fuel)
    (fun res d => ∃ f, run.Finds enabled st q ws f ∧ f.At run enabled res d) fun _ _ => True

theorem WaitsFind.seek (hpt : env.pt = run.ptrace limit) (hwaits : WaitsFind env run fuel) :
    Holds (At run (fun _ => True) enabled (.stopped info) q ws) (seek env fuel (.stopped info))
      (fun res d => ∃ f, run.Finds enabled (.stopped info) q ws f ∧ f.At run enabled res d)
      fun _ _ => True := by
  cases hhits : run.hits enabled q with
  | false =>
      refine At.seek_plain hpt hhits ((hwaits _ _ _ _ (.inl rfl)).conseq (fun _ => id) ?_
        fun _ _ => id)
      rintro res d ⟨f, hf, hat⟩
      exact ⟨f, .plain hhits hf, hat⟩
  | true =>
      have hpc := Run.pc_of_hits hhits
      refine At.seek_off hpt hhits
        (hwaits _ .stepping _ _ (.inr ⟨rfl, Run.meanwhile_plain hpc⟩)) (fun j ws' hsteps => ?_)
        fun _ _ _ _ => trivial
      refine (hwaits _ _ _ _ (.inl rfl)).conseq (fun _ => id) ?_ fun _ _ => id
      rintro res d ⟨f, hf, hat⟩
      exact ⟨f, .off hhits hsteps hf, hat⟩

/-- A stopped tracee that is found again has not ended. -/
theorem Run.Finds.place (h : run.Finds enabled (.stopped info) q ws f) : run.pc q ≠ none := by
  cases h with
  | stopped harrives => cases harrives
  | gone harrives => cases harrives
  | resized harrives _ => cases harrives
  | off hhits _ _ => exact Run.pc_of_hits hhits
  | plain _ hf =>
      cases hf with
      | stopped harrives => exact harrives.place
      | gone harrives => exact harrives.place
      | resized harrives _ => exact harrives.place

/-! ### Enough time -/

theorem Run.Arrives.letGo (h : run.Arrives enabled q w st a e)
    (hplain : st = .stepping → run.plain enabled q = true) : run.LetGo enabled q st := by
  cases h with
  | resized | trapped | ended => exact .inl rfl
  | stepResized | stepped | stepEnded => exact .inr ⟨rfl, hplain rfl⟩

/-- What a wait returns where the tracee gets to, if it is long enough. -/
theorem At.wait_at (hpt : env.pt = run.ptrace limit)
    {Q : SprayResult → Debugger Runner → Prop} (hgo : run.LetGo enabled q st)
    (h : run.Arrives enabled q ws.head?.join st a e) (hlimit : e < limit)
    (hresized : a = .resized →
      Holds (At run (fun _ => True) enabled (.stopped ⟨.SIGWINCH, .SI_KERNEL⟩) e ws.tail)
        (seek env fuel (.stopped ⟨.SIGWINCH, .SI_KERNEL⟩)) Q fun _ _ => False)
    (hstopped : a = .stopped → ∀ info d,
      At run (fun _ => True) enabled (.stopped info) e ws.tail d → Q .ok d)
    (hended : a = .ended → ∀ d : Debugger Runner,
      d.tracee.state = .exited → d.tracee.pos = e → Q .err d) :
    Holds (At run (fun _ => True) enabled st q ws) (waitForSignal env (fuel + 1)) Q
      fun _ _ => False := by
  apply At.wait_arrives hpt hgo
  · rintro rfl hclear hearly
    have := h.le hclear hearly
    omega
  · intro e' h'
    obtain ⟨rfl, rfl⟩ := h.unique h'
    exact hresized rfl
  · intro e' h'
    obtain ⟨rfl, rfl⟩ := h.unique h'
    exact hstopped rfl
  · intro e' h'
    obtain ⟨rfl, rfl⟩ := h.unique h'
    exact hended rfl

/-- **A tracee that is found is found, if it is waited for long enough.** -/
theorem Run.Finds.found (h : run.Finds enabled st q ws f)
    (hplain : st = .stepping → run.plain enabled q = true) : ∃ n, ∀ limit fuel, n ≤ limit →
      n ≤ fuel → ∀ env : Env Runner, env.pt = run.ptrace limit →
        Holds (At run (fun _ => True) enabled st q ws) (seek env fuel st)
          (fun res d => f.At run enabled res d) fun _ _ => False := by
  induction h with
  | @stopped _ _ _ e _ harrives =>
      refine ⟨e + 1, fun limit fuel hlimit hfuel env hpt => ?_⟩
      obtain ⟨fuel, rfl⟩ := Nat.exists_eq_add_of_le' (Nat.le_trans (Nat.le_add_left 1 e) hfuel)
      rw [(harrives.letGo hplain).seek_eq]
      exact At.wait_at hpt (harrives.letGo hplain) harrives hlimit nofun
        (fun _ info d hat => ⟨rfl, info, hat⟩) nofun
  | @gone _ _ _ e _ harrives =>
      refine ⟨e + 1, fun limit fuel hlimit hfuel env hpt => ?_⟩
      obtain ⟨fuel, rfl⟩ := Nat.exists_eq_add_of_le' (Nat.le_trans (Nat.le_add_left 1 e) hfuel)
      rw [(harrives.letGo hplain).seek_eq]
      exact At.wait_at hpt (harrives.letGo hplain) harrives hlimit nofun nofun
        fun _ d hexit hpos => ⟨rfl, hexit, hpos⟩
  | @resized _ _ _ e _ _ harrives _ ih =>
      obtain ⟨n, hn⟩ := ih nofun
      refine ⟨e + 1 + n, fun limit fuel hlimit hfuel env hpt => ?_⟩
      obtain ⟨fuel, rfl⟩ := Nat.exists_eq_add_of_le' (show 1 ≤ fuel by omega)
      rw [(harrives.letGo hplain).seek_eq]
      exact At.wait_at hpt (harrives.letGo hplain) harrives (by omega)
        (fun _ => hn limit fuel (by omega) (by omega) env hpt) nofun nofun
  | @plain _ _ _ _ _ hhits _ ih =>
      obtain ⟨n, hn⟩ := ih nofun
      exact ⟨n, fun limit fuel hlimit hfuel env hpt =>
        At.seek_plain hpt hhits (hn limit fuel hlimit hfuel env hpt)⟩
  | @off _ _ q j _ ws' _ hhits _ _ ihStep ih =>
      obtain ⟨m, hm⟩ := ihStep fun _ => Run.meanwhile_plain (Run.pc_of_hits hhits)
      obtain ⟨n, hn⟩ := ih nofun
      refine ⟨m + n, fun limit fuel hlimit hfuel env hpt => ?_⟩
      refine At.seek_off (F := (· = .stopped j ws')) hpt hhits
        ((hm limit fuel (by omega) (by omega) env hpt).conseq (fun _ => id)
          (fun res d hat => ⟨_, rfl, hat⟩) fun _ _ => id) ?_ nofun
      intro i ws hsame
      obtain ⟨rfl, rfl⟩ := Landing.stopped.inj hsame
      exact hn limit fuel (by omega) (by omega) env hpt

end Spray
