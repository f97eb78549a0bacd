/-
Resuming a tracee that follows a run.

`At` says where on its run the tracee is, whether it is stopped, and which breakpoints are
in memory meanwhile.  Each rule below is one step of the debugger: stepping off a
breakpoint, continuing, and what a wait returns.
-/
import Spray.Proofs.Invariant
import Spray.Proofs.Run

namespace Spray

open Triple

/-- The tracee is at `pos` on its run, under the traps of `enabled`; `R` holds of memory
at each `PTRACE_CONT` so far. -/
structure At (run : Run) (R : List (Memory 64) → Prop) (enabled : RealAddr → Bool)
    (st : RunnerState) (pos : Nat) (ws : List (Option Nat)) (d : Debugger Runner) : Prop where
  follows : Follows run enabled d.toStore
  state : d.tracee.state = st
  pos : d.tracee.pos = pos
  winch : d.tracee.winch = ws
  conts : R d.tracee.conts

variable {run : Run} {R : List (Memory 64) → Prop} {enabled : RealAddr → Bool} {limit : Nat}
  {env : Env Runner} {info : SigInfo} {pos : Nat} {ws : List (Option Nat)} {d : Debugger Runner}

theorem Runner.isStopped_of {t : Runner} (h : t.state = .stopped info) : t.isStopped = true := by
  unfold Runner.isStopped
  rw [h]

theorem run_memoryLaws : MemoryLaws (run.ptrace limit) Runner.mem where
  peek_mem _ _ := rfl
  peek_val a w x h := by
    cases hw : w.isStopped with
    | true =>
        simp only [Run.ptrace, hw, if_true, Option.some.injEq] at h
        exact h.symm
    | false => simp [Run.ptrace, hw] at h
  poke_ok a x w h := by
    cases hw : w.isStopped with
    | true => simp [Run.ptrace, hw]
    | false => simp [Run.ptrace, hw] at h
  poke_err a x w h := by
    cases hw : w.isStopped with
    | true => simp [Run.ptrace, hw] at h
    | false => simp [Run.ptrace, hw]

theorem run_answers {t : Runner} (h : t.isStopped = true) : Answers (run.ptrace limit) t where
  peek_some a := by simp [Run.ptrace, h]
  poke_true a b x := by simp [Run.ptrace, h]

theorem getPc_of_stopped (hpt : env.pt = run.ptrace limit) (h : d.tracee.state = .stopped info) :
    getPc env d = .ok ⟨d.tracee.pc⟩ d := by
  have hreg : request (getRegisterValue env.pt .rip) d = .ok (some d.tracee.pc) d := by
    unfold request getRegisterValue ptReadRegisters
    rw [hpt]
    simp [Run.ptrace, Runner.isStopped_of h]
  unfold getPc
  rw [bind_run hreg]
  rfl

theorem setPc_of_stopped (hpt : env.pt = run.ptrace limit) (h : d.tracee.state = .stopped info)
    (pc : RealAddr) :
    setPc env pc d = .ok () { d with tracee := { d.tracee with pc := pc.value } } := by
  have hreg : request (setRegisterValue env.pt .rip pc.value) d = .ok .ok
      { d with tracee := { d.tracee with pc := pc.value } } := by
    unfold request setRegisterValue ptReadRegisters ptWriteRegisters
    rw [hpt]
    simp [Run.ptrace, Runner.isStopped_of h, SprayResult.ofBool]
  unfold setPc
  rw [bind_run hreg]
  rfl

theorem At.getPc (hpt : env.pt = run.ptrace limit) (H : Halt → Debugger Runner → Prop) :
    Holds (At run R enabled (.stopped info) pos ws) (getPc env)
      (fun pc d => At run R enabled (.stopped info) pos ws d ∧ run.pc pos = some pc.value) H := by
  intro d h
  rw [getPc_of_stopped hpt h.state]
  exact ⟨h, h.pos ▸ h.follows.place⟩

theorem At.lookup (h : At run R enabled (.stopped info) pos ws d) {a : Word}
    (ha : run.pc pos = some a) : lookupBreakpoint d.breakpoints ⟨a⟩ = run.hits enabled pos := by
  rw [h.follows.standing, Run.hits_iff ha]

/-- All of the tracee but its memory. -/
def Runner.rest (t : Runner) : Nat × Word × RunnerState × List (Option Nat) × List (Memory 64) :=
  (t.pos, t.pc, t.state, t.winch, t.conts)

theorem run_poke_rest (a x : Word) (t : Runner) :
    (((run.ptrace limit).pokeData a x t).2).rest = t.rest := by
  cases ht : t.isStopped with
  | true => simp [Run.ptrace, ht, Runner.rest]
  | false => simp [Run.ptrace, ht]

theorem enableBreakpoint_rest (hpt : env.pt = run.ptrace limit) (addr : RealAddr)
    (s : Store Runner) : (enableBreakpoint env.pt addr s).2.tracee.rest = s.tracee.rest := by
  rw [hpt]
  exact enableBreakpoint_frame (fun _ _ => rfl) run_poke_rest addr s

theorem disableBreakpoint_rest (hpt : env.pt = run.ptrace limit) (addr : RealAddr)
    (s : Store Runner) : (disableBreakpoint env.pt addr s).2.tracee.rest = s.tracee.rest := by
  rw [hpt]
  exact disableBreakpoint_frame (fun _ _ => rfl) run_poke_rest addr s

/-- Peeks and pokes change nothing but memory. -/
theorem At.ofStore {enabled' : RealAddr → Bool} {s : Store Runner}
    (h : At run R enabled (.stopped info) pos ws d)
    (hoverlay : Overlay Runner.mem (fun a => run.code a.value) (fun a => run.image a.value) s)
    (hstanding : ∀ a, lookupBreakpoint s.breakpoints a = enabled' a)
    (hsame : s.tracee.rest = d.tracee.rest) :
    At run R enabled' (.stopped info) pos ws { d with toStore := s } := by
  have hpos : s.tracee.pos = d.tracee.pos := congrArg (·.1) hsame
  have hpc : s.tracee.pc = d.tracee.pc := congrArg (·.2.1) hsame
  have hstate : s.tracee.state = d.tracee.state := congrArg (·.2.2.1) hsame
  have hwinch : s.tracee.winch = d.tracee.winch := congrArg (·.2.2.2.1) hsame
  have hconts : s.tracee.conts = d.tracee.conts := congrArg (·.2.2.2.2) hsame
  refine ⟨⟨hoverlay, hstanding, ?_⟩, hstate.trans h.state, hpos.trans h.pos,
    hwinch.trans h.winch, ?_⟩
  · show run.pc s.tracee.pos = some s.tracee.pc
    rw [hpos, hpc]
    exact h.follows.place
  · show R s.tracee.conts
    rw [hconts]
    exact h.conts

theorem At.disable (hpt : env.pt = run.ptrace limit) (H : Halt → Debugger Runner → Prop)
    (addr : RealAddr) :
    Holds (At run R enabled (.stopped info) pos ws)
      (onStore (disableBreakpoint env.pt addr))
      (fun _ => At run R (Function.update enabled addr false) (.stopped info) pos ws) H := by
  intro d h
  have hsame := disableBreakpoint_rest hpt addr d.toStore
  rw [hpt] at hsame ⊢
  have hstop : Answers (run.ptrace limit) d.tracee := run_answers (Runner.isStopped_of h.state)
  refine h.ofStore (h.follows.overlay.disable run_memoryLaws addr) (fun a => ?_) hsame
  rw [disableBreakpoint_lookup run_memoryLaws, disableBreakpoint_answered addr hstop, if_pos rfl,
    h.follows.standing]
  by_cases ha : a = addr
  · simp [ha]
  · simp [ha]

theorem At.enable (hpt : env.pt = run.ptrace limit) (H : Halt → Debugger Runner → Prop)
    (addr : RealAddr) :
    Holds (At run R enabled (.stopped info) pos ws)
      (onStore (enableBreakpoint env.pt addr))
      (fun _ => At run R (Function.update enabled addr true) (.stopped info) pos ws) H := by
  intro d h
  have hsame := enableBreakpoint_rest hpt addr d.toStore
  rw [hpt] at hsame ⊢
  have hstop : Answers (run.ptrace limit) d.tracee := run_answers (Runner.isStopped_of h.state)
  refine h.ofStore (h.follows.overlay.enable run_memoryLaws addr) (fun a => ?_) hsame
  rw [enableBreakpoint_lookup run_memoryLaws, enableBreakpoint_answered addr hstop, if_pos rfl,
    h.follows.standing]
  by_cases ha : a = addr
  · simp [ha]
  · simp [ha]

theorem At.singleStep (hpt : env.pt = run.ptrace limit) (H : Halt → Debugger Runner → Prop) :
    Holds (At run R enabled (.stopped info) pos ws) (request (ptSingleStep env.pt))
      (fun _ => At run R enabled .stepping pos ws) H := by
  intro d h
  have hreq : ptSingleStep env.pt d.tracee = (.ok, { d.tracee with state := .stepping }) := by
    unfold ptSingleStep
    rw [hpt]
    simp [Run.ptrace, Runner.isStopped_of h.state, SprayResult.ofBool]
  unfold request
  rw [hreq]
  exact ⟨h.follows.congr rfl rfl rfl, rfl, h.pos, h.winch, h.conts⟩

/-- Memory is on record each time the tracee is continued. -/
theorem At.cont (hpt : env.pt = run.ptrace limit) (H : Halt → Debugger Runner → Prop)
    {T : List (Memory 64) → Prop}
    (hR : ∀ d, At run R enabled (.stopped info) pos ws d → T (d.tracee.conts ++ [d.tracee.mem])) :
    Holds (At run R enabled (.stopped info) pos ws) (request (ptContinueExecution env.pt))
      (fun r d => r = none ∧ At run T enabled .continuing pos ws d) H := by
  intro d h
  have hreq : ptContinueExecution env.pt d.tracee = (none,
      { d.tracee with state := .continuing, conts := d.tracee.conts ++ [d.tracee.mem] }) := by
    unfold ptContinueExecution
    rw [hpt]
    simp [Run.ptrace, Runner.isStopped_of h.state]
  unfold request
  rw [hreq]
  exact ⟨rfl, h.follows.congr rfl rfl rfl, rfl, h.pos, h.winch, hR d h⟩

/-! ### Stepping off a breakpoint -/

/-- Away from the breakpoints there is nothing to step off. -/
theorem At.singleStepBreakpoint_plain (hpt : env.pt = run.ptrace limit)
    (H : Halt → Debugger Runner → Prop) (wait : DbgM Runner SprayResult)
    (hhits : run.hits enabled pos = false) :
    Holds (At run R enabled (.stopped info) pos ws) (singleStepBreakpoint env wait)
      (fun _ => At run R enabled (.stopped info) pos ws) H := by
  apply Holds.bind (At.getPc hpt H)
  intro pc
  apply Holds.assume
  intro hpc
  apply Holds.get_bind
  intro d h
  apply Holds.ite
  · intro hon
    rw [h.lookup hpc, hhits] at hon
    cases hon
  · intro _
    exact Holds.pure fun _ => id

/-- On a breakpoint the wait starts with it taken out. -/
theorem At.singleStepBreakpoint_hits (hpt : env.pt = run.ptrace limit)
    {H : Halt → Debugger Runner → Prop} {Q : Debugger Runner → Prop}
    {S : SprayResult → Debugger Runner → Prop} {wait : DbgM Runner SprayResult}
    {a : Word} (ha : run.pc pos = some a) (hhits : run.hits enabled pos = true)
    (hwait : Holds (At run R (Function.update enabled ⟨a⟩ false) .stepping pos ws) wait S H)
    (hback : ∀ res, Holds (S res) (onStore (enableBreakpoint env.pt ⟨a⟩)) (fun _ => Q) H) :
    Holds (At run R enabled (.stopped info) pos ws) (singleStepBreakpoint env wait)
      (fun _ => Q) H := by
  apply Holds.bind (At.getPc hpt H)
  intro pc
  apply Holds.assume
  intro hpc
  obtain rfl : a = pc.value := Option.some.inj (ha.symm.trans hpc)
  apply Holds.get_bind
  intro d h
  apply Holds.ite
  · intro _
    apply Holds.bind (At.disable hpt H pc)
    intro _
    apply Holds.bind (At.singleStep hpt H)
    intro _
    apply Holds.bind hwait
    intro res
    exact Holds.bind (hback res) fun _ => Holds.pure fun _ => id
  · intro hoff
    rw [h.lookup hpc, hhits] at hoff
    cases hoff

theorem At.continueExecution_plain (hpt : env.pt = run.ptrace limit)
    (H : Halt → Debugger Runner → Prop) (wait : DbgM Runner SprayResult)
    (hhits : run.hits enabled pos = false) {T : List (Memory 64) → Prop}
    (hR : ∀ d, At run R enabled (.stopped info) pos ws d → T (d.tracee.conts ++ [d.tracee.mem])) :
    Holds (At run R enabled (.stopped info) pos ws) (continueExecution env wait)
      (fun _ => At run T enabled .continuing pos ws) H := by
  apply Holds.bind (At.singleStepBreakpoint_plain hpt H wait hhits)
  intro _
  apply Holds.bind (At.cont hpt H hR)
  intro errno
  cases errno with
  | none => exact Holds.pure fun _ h => h.2
  | some e => exact fun d h => absurd h.1 (Option.some_ne_none e)

/-! ### Waiting -/

variable {fuel : Nat} {d₁ : Debugger Runner}

theorem awaitStatus_run {st : WaitStatus} {u : Runner}
    (h : env.pt.waitpid d.tracee = (.status st, u)) :
    awaitStatus env.pt d = .ok st { d with tracee := u } := by
  unfold awaitStatus
  rw [h]

theorem waitForSignal_exited {code : Nat} (h : awaitStatus env.pt d = .ok (.exited code) d₁) :
    waitForSignal env (fuel + 1) d =
      .ok .err { d₁ with output := d₁.output ++ [.childExited code] } := by
  rw [waitForSignal, bind_run h]
  rfl

theorem getSigInfo_of_stopped (hpt : env.pt = run.ptrace limit)
    (h : d.tracee.state = .stopped info) :
    request (ptGetSignalInfo env.pt) d = .ok (some info) d := by
  unfold request ptGetSignalInfo
  rw [hpt]
  simp [Run.ptrace, h]

/-- The tracee is told to continue whenever its window has been resized. -/
theorem waitForSignal_resized (hpt : env.pt = run.ptrace limit) {sig : Signal} {code : SiCode}
    (h : awaitStatus env.pt d = .ok (.stopped sig) d₁)
    (hs : d₁.tracee.state = .stopped ⟨.SIGWINCH, code⟩) :
    waitForSignal env (fuel + 1) d =
      (do
        let _ ← continueExecution env (waitForSignal env fuel)
        waitForSignal env fuel) d₁ := by
  rw [waitForSignal, bind_run h]
  dsimp only
  rw [bind_run (getSigInfo_of_stopped hpt hs)]
  rfl

/-- After a trap the program counter goes back onto the breakpoint. -/
theorem waitForSignal_trapped (hpt : env.pt = run.ptrace limit) {sig : Signal}
    (h : awaitStatus env.pt d = .ok (.stopped sig) d₁)
    (hs : d₁.tracee.state = .stopped ⟨.SIGTRAP, .SI_KERNEL⟩) :
    waitForSignal env (fuel + 1) d =
      .ok .ok { d₁ with tracee := { d₁.tracee with pc := d₁.tracee.pc - 1 } } := by
  have hback : handleSigtrap env ⟨.SIGTRAP, .SI_KERNEL⟩ d₁ =
      .ok () { d₁ with tracee := { d₁.tracee with pc := d₁.tracee.pc - 1 } } := by
    unfold handleSigtrap
    rw [if_pos (Or.inl rfl), bind_run (getPc_of_stopped hpt hs), setPc_of_stopped hpt hs]
  rw [waitForSignal, bind_run h]
  dsimp only
  rw [bind_run (getSigInfo_of_stopped hpt hs)]
  dsimp only [Option.getD_some]
  rw [bind_run hback]
  rfl

theorem waitForSignal_stepped (hpt : env.pt = run.ptrace limit) {sig : Signal}
    (h : awaitStatus env.pt d = .ok (.stopped sig) d₁)
    (hs : d₁.tracee.state = .stopped ⟨.SIGTRAP, .TRAP_TRACE⟩) :
    waitForSignal env (fuel + 1) d = .ok .ok d₁ := by
  have hnothing : handleSigtrap env ⟨.SIGTRAP, .TRAP_TRACE⟩ d₁ = .ok () d₁ := by
    unfold handleSigtrap
    rw [if_neg (by decide)]
    rfl
  rw [waitForSignal, bind_run h]
  dsimp only
  rw [bind_run (getSigInfo_of_stopped hpt hs)]
  dsimp only [Option.getD_some]
  rw [bind_run hnothing]
  rfl

/-- The tracee, one resumption further in its schedule. -/
def Runner.scheduled (t : Runner) : Runner := { t with winch := t.winch.tail }

theorem waitpid_of_continuing {t : Runner} (h : t.state = .continuing) :
    (run.ptrace limit).waitpid t = run.runToStop limit t.winch.head?.join t.scheduled := by
  obtain ⟨pos, pc, mem, st, winch, conts⟩ := t
  obtain rfl : st = .continuing := h
  rfl

theorem waitpid_of_stepping {t : Runner} (h : t.state = .stepping) :
    (run.ptrace limit).waitpid t = run.runStep t.winch.head?.join t.scheduled := by
  obtain ⟨pos, pc, mem, st, winch, conts⟩ := t
  obtain rfl : st = .stepping := h
  rfl

theorem At.scheduled {st : RunnerState} (h : At run R enabled st pos ws d) :
    Follows run enabled ⟨d.breakpoints, d.tracee.scheduled⟩ :=
  Follows.congr h.follows rfl rfl rfl

/-- A tracee that has gone on from `d` is stopped there. -/
theorem At.gone {st : RunnerState} {n : Nat} {u : Runner} (h : At run R enabled st pos ws d)
    (goes : Goes run enabled d.breakpoints d.tracee.scheduled n u) (signo : Signal)
    (code : SiCode) :
    At run R enabled (.stopped ⟨signo, code⟩) (pos + n) ws.tail
      { d with tracee := u.stop signo code } where
  follows := goes.follows.congr rfl rfl rfl
  state := rfl
  pos := by
    show u.pos = pos + n
    rw [goes.pos, ← h.pos]
    rfl
  winch := by
    show u.winch = ws.tail
    rw [goes.winch, ← h.winch]
    rfl
  conts := by
    show R u.conts
    rw [goes.conts]
    exact h.conts

/-- Where the tracee has gone, it has not ended. -/
theorem At.place {st : RunnerState} {n : Nat} {u : Runner} (h : At run R enabled st pos ws d)
    (goes : Goes run enabled d.breakpoints d.tracee.scheduled n u) : run.pc (pos + n) ≠ none := by
  have hgone := h.gone goes .SIGTRAP .SI_KERNEL
  rw [← hgone.pos, hgone.follows.place]
  exact Option.some_ne_none _

theorem At.clear {st : RunnerState} {n : Nat} {u : Runner} (h : At run R enabled st pos ws d)
    (goes : Goes run enabled d.breakpoints d.tracee.scheduled n u) :
    run.Clear enabled pos (pos + n) := by
  have hclear := goes.clear
  rw [show d.tracee.scheduled.pos = pos from h.pos] at hclear
  exact hclear

/-- **What a wait returns once the tracee has been continued.** -/
theorem At.wait_continuing (hpt : env.pt = run.ptrace limit)
    {Q : SprayResult → Debugger Runner → Prop} {H : Halt → Debugger Runner → Prop}
    (hblocked : run.Clear enabled pos (pos + limit) →
      (∀ k, ws.head?.join = some k → limit ≤ k) → ∀ d, R d.tracee.conts → H .blocked d)
    (hresized : ∀ n, run.Clear enabled pos (pos + n) → ws.head?.join = some n →
      run.pc (pos + n) ≠ none →
      Holds (At run R enabled (.stopped ⟨.SIGWINCH, .SI_KERNEL⟩) (pos + n) ws.tail)
        (do
          let _ ← continueExecution env (waitForSignal env fuel)
          waitForSignal env fuel) Q H)
    (htrapped : ∀ n, run.Clear enabled pos (pos + n) → (∀ k, ws.head?.join = some k → n < k) →
      run.hits enabled (pos + n) = true → ∀ d,
      At run R enabled (.stopped ⟨.SIGTRAP, .SI_KERNEL⟩) (pos + n) ws.tail d → Q .ok d)
    (hended : ∀ n, run.Clear enabled pos (pos + n + 1) →
      (∀ k, ws.head?.join = some k → n < k) → run.pc (pos + n + 1) = none → ∀ d,
      d.tracee.state = .exited → d.tracee.pos = pos + n + 1 → R d.tracee.conts → Q .err d) :
    Holds (At run R enabled .continuing pos ws) (waitForSignal env (fuel + 1)) Q H := by
  intro d h
  have hwaited := runToStop_waited limit ws.head?.join h.scheduled h.state
  have hwait : env.pt.waitpid d.tracee =
      run.runToStop limit ws.head?.join d.tracee.scheduled := by
    rw [hpt, waitpid_of_continuing h.state, h.winch]
  generalize run.runToStop limit ws.head?.join d.tracee.scheduled = out at hwaited hwait
  cases hwaited with
  | @blocked u goes early =>
      have hrun : waitForSignal env (fuel + 1) d = .error .blocked { d with tracee := u } := by
        rw [waitForSignal]
        show EStateM.bind _ _ _ = _
        unfold EStateM.bind awaitStatus
        rw [hwait]
      rw [hrun]
      exact hblocked (h.clear goes) early _ (h.gone goes .SIGTRAP .SI_KERNEL).conts
  | @resized u n goes hat =>
      have hstop : awaitStatus env.pt d = .ok (.stopped .SIGWINCH)
          { d with tracee := u.stop .SIGWINCH .SI_KERNEL } := awaitStatus_run hwait
      have hgone := h.gone goes .SIGWINCH .SI_KERNEL
      rw [waitForSignal_resized hpt hstop hgone.state]
      exact hresized n (h.clear goes) hat (h.place goes) _ hgone
  | @trapped u n goes early hits =>
      have hstop : awaitStatus env.pt d = .ok (.stopped .SIGTRAP)
          { d with tracee := { u with pc := u.pc + 1 }.stop .SIGTRAP .SI_KERNEL } :=
        awaitStatus_run hwait
      have hgone := h.gone goes .SIGTRAP .SI_KERNEL
      rw [waitForSignal_trapped hpt hstop rfl]
      refine htrapped n (h.clear goes) early (hgone.pos ▸ hits) _ ?_
      have hpc : u.pc + 1 - 1 = u.pc := by simp
      simpa only [Runner.stop, hpc] using hgone
  | @ended u v n goes early plain last conts hv state =>
      have hexit : awaitStatus env.pt d = .ok (.exited 0) { d with tracee := v } :=
        awaitStatus_run hwait
      have hpos := (h.gone goes .SIGTRAP .SI_KERNEL).pos
      have hu : u.pos = pos + n := hpos
      rw [waitForSignal_exited hexit]
      refine hended n (fun j hlo hhi => ?_) early (hu ▸ last) _ state (hu ▸ hv) ?_
      · rcases Nat.lt_or_ge j (pos + n) with hlt | hge
        · exact h.clear goes j hlo hlt
        · have hj : j = u.pos := by omega
          rw [hj]
          exact plain
      · show R v.conts
        rw [conts]
        exact h.conts

/-- **What a wait returns after a single step.** -/
theorem At.wait_stepping (hpt : env.pt = run.ptrace limit)
    {Q : SprayResult → Debugger Runner → Prop} {H : Halt → Debugger Runner → Prop}
    (hplain : run.plain enabled pos = true)
    (hresized : ∀ n, ws.head?.join = some n → n ≤ 1 → run.pc (pos + n) ≠ none →
      Holds (At run R enabled (.stopped ⟨.SIGWINCH, .SI_KERNEL⟩) (pos + n) ws.tail)
        (do
          let _ ← continueExecution env (waitForSignal env fuel)
          waitForSignal env fuel) Q H)
    (hstepped : (∀ k, ws.head?.join = some k → 1 < k) → run.pc (pos + 1) ≠ none → ∀ d,
      At run R enabled (.stopped ⟨.SIGTRAP, .TRAP_TRACE⟩) (pos + 1) ws.tail d → Q .ok d)
    (hended : ws.head?.join ≠ some 0 → run.pc (pos + 1) = none → ∀ d,
      d.tracee.state = .exited → d.tracee.pos = pos + 1 → R d.tracee.conts → Q .err d) :
    Holds (At run R enabled .stepping pos ws) (waitForSignal env (fuel + 1)) Q H := by
  intro d h
  have hplain' : run.plain enabled d.tracee.scheduled.pos = true := by
    rw [show d.tracee.scheduled.pos = pos from h.pos]
    exact hplain
  have hstepped' := runStep_stepped ws.head?.join h.scheduled h.state hplain'
  have hwait : env.pt.waitpid d.tracee = run.runStep ws.head?.join d.tracee.scheduled := by
    rw [hpt, waitpid_of_stepping h.state, h.winch]
  generalize run.runStep ws.head?.join d.tracee.scheduled = out at hstepped' hwait
  cases hstepped' with
  | before hat =>
      have hstop : awaitStatus env.pt d = .ok (.stopped .SIGWINCH)
          { d with tracee := d.tracee.scheduled.stop .SIGWINCH .SI_KERNEL } := awaitStatus_run hwait
      have goes := Goes.refl h.scheduled
      rw [waitForSignal_resized hpt hstop rfl]
      exact hresized 0 hat (by decide) (h.place goes) _ (h.gone goes .SIGWINCH .SI_KERNEL)
  | @after u goes hat =>
      have hstop : awaitStatus env.pt d = .ok (.stopped .SIGWINCH)
          { d with tracee := u.stop .SIGWINCH .SI_KERNEL } := awaitStatus_run hwait
      rw [waitForSignal_resized hpt hstop rfl]
      exact hresized 1 hat (Nat.le_refl 1) (h.place goes) _ (h.gone goes .SIGWINCH .SI_KERNEL)
  | @completed u goes late =>
      have hstop : awaitStatus env.pt d = .ok (.stopped .SIGTRAP)
          { d with tracee := u.stop .SIGTRAP .TRAP_TRACE } := awaitStatus_run hwait
      rw [waitForSignal_stepped hpt hstop rfl]
      exact hstepped late (h.place goes) _ (h.gone goes .SIGTRAP .TRAP_TRACE)
  | @ended v late last conts hpos state =>
      have hexit : awaitStatus env.pt d = .ok (.exited 0) { d with tracee := v } :=
        awaitStatus_run hwait
      rw [show d.tracee.scheduled.pos = pos from h.pos] at last hpos
      rw [waitForSignal_exited hexit]
      refine hended late last _ state hpos ?_
      show R v.conts
      rw [conts]
      exact h.conts

end Spray
