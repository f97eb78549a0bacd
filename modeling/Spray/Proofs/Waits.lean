/-
Waiting for a tracee under traps.

A wait ends where the program by itself would be: at the first breakpoint on its way if it
was continued, and one instruction on if it was stepped.  Stepping off a breakpoint and
continuing are then the two halves of running on.
-/
import Spray.Proofs.Shadow

namespace Spray

open Triple

variable {X : Type} {s : Debuggee X} {codes : StopCodes} {limit fuel : Nat} {st : RunState}
  {code : SiCode} {v : View X} {d : Debugger (Machine X)}

/-! ### Running on -/

section Limits

variable {p : Program X} {stops : RealAddr → Bool}

theorem Program.runUntil_succ {c : Cpu X} {r : Except Nat (Cpu X)}
    (h : p.runUntil stops limit c = some r) : p.runUntil stops (limit + 1) c = some r := by
  induction limit generalizing c with
  | zero => cases h
  | succ limit ih =>
      unfold Program.runUntil at h ⊢
      by_cases hstop : stops ⟨c.pc⟩ = true
      · rw [if_pos hstop] at h ⊢
        exact h
      · rw [if_neg hstop] at h ⊢
        cases hstep : p.step c with
        | error code => rw [hstep] at h; exact h
        | ok next =>
            rw [hstep] at h
            exact ih h

/-- More time changes nothing. -/
theorem Program.runUntil_mono {n m : Nat} {c : Cpu X} {r : Except Nat (Cpu X)} (hle : n ≤ m)
    (h : p.runUntil stops n c = some r) : p.runUntil stops m c = some r := by
  induction hle with
  | refl => exact h
  | step _ ih => exact Program.runUntil_succ ih

theorem Program.resume_mono {n m : Nat} {c : Cpu X} {r : Except Nat (Cpu X)} (hle : n ≤ m)
    (h : p.resume stops n c = some r) : p.resume stops m c = some r := by
  unfold Program.resume at h ⊢
  cases hstep : p.step c with
  | error code => rw [hstep] at h; exact h
  | ok next =>
      rw [hstep] at h
      exact Program.runUntil_mono hle h

/-- The program is off the breakpoint it may have been on. -/
inductive Off (p : Program X) (stops : RealAddr → Bool) (c : Cpu X) : Cpu X → Prop
  | plain (hoff : stops ⟨c.pc⟩ = false) : Off p stops c c
  | stepped {next : Cpu X} (hstep : p.step c = .ok next) : Off p stops c next

/-- From there it runs on as it does when it is resumed. -/
theorem Off.resume {c next : Cpu X} (off : Off p stops c next) {r : Except Nat (Cpu X)}
    (h : p.runUntil stops limit next = some r) : p.resume stops limit c = some r := by
  cases off with
  | stepped hstep =>
      unfold Program.resume
      rw [hstep]
      exact h
  | plain hoff =>
      cases limit with
      | zero => cases h
      | succ limit =>
          unfold Program.runUntil at h
          rw [hoff, if_neg Bool.false_ne_true] at h
          unfold Program.resume
          cases hstep : p.step c with
          | error code => rw [hstep] at h; exact h
          | ok next =>
              rw [hstep] at h
              exact Program.runUntil_succ h

theorem Off.resume_none {c next : Cpu X} (off : Off p stops c next)
    (h : p.runUntil stops limit next = none) {n : Nat} (hn : n < limit) :
    p.resume stops n c = none := by
  rw [Option.eq_none_iff_forall_ne_some]
  intro r hr
  unfold Program.resume at hr
  cases off with
  | stepped hstep =>
      rw [hstep] at hr
      rw [Program.runUntil_mono (Nat.le_of_lt hn) hr] at h
      cases h
  | plain hoff =>
      have hlong : p.runUntil stops (n + 1) c = some r := by
        unfold Program.runUntil
        rw [hoff, if_neg Bool.false_ne_true]
        exact hr
      rw [Program.runUntil_mono hn hlong] at h
      cases h

end Limits

/-! ### What a wait ends in -/

/-- What the wait for a continued tracee ends in, given where the program by itself gets to. -/
inductive WaitedFor (s : Debuggee X) (codes : StopCodes) (v : View X) (d : Debugger (Machine X)) :
    Option (Except Nat (Cpu X)) → WaitOutcome × Machine X → Prop
  | blocked {m : Machine X} : WaitedFor s codes v d none (.blocked, m)
  | stopped {c : Cpu X} {m : Machine X}
      (h : Shadows s .continuing (v.withCpu c) { d with tracee := m }) :
      WaitedFor s codes v d (some (.ok c)) (.status (.stopped .SIGTRAP), m.trapped codes)
  | exited {e : Nat} {m : Machine X} (hexit : m.state = .exited) :
      WaitedFor s codes v d (some (.error e)) (.status (.exited e), m)

/-- A wait may be taken up where the program has got to. -/
theorem WaitedFor.from {c : Cpu X} {m : Machine X} {o : Option (Except Nat (Cpu X))}
    {out : WaitOutcome × Machine X}
    (h : WaitedFor s codes (v.withCpu c) { d with tracee := m } o out) :
    WaitedFor s codes v d o out := by
  cases h with
  | blocked => exact .blocked
  | stopped h => exact .stopped h
  | exited hexit => exact .exited hexit

theorem runToStop_waitedFor (codes : StopCodes) (limit : Nat) :
    ∀ {v : View X} {d : Debugger (Machine X)}, Shadows s .continuing v d →
      WaitedFor s codes v d (s.program.runUntil v.enabled limit v.cpu)
        (s.program.runToStop codes limit d.tracee) := by
  induction limit with
  | zero => exact fun _ => .blocked
  | succ limit ih =>
      intro v d h
      unfold Program.runUntil Program.runToStop
      cases hon : v.enabled ⟨v.cpu.pc⟩ with
      | true =>
          rw [if_pos rfl, h.exec_trap codes hon]
          exact .stopped h
      | false =>
          rw [if_neg Bool.false_ne_true]
          cases hstep : s.program.step v.cpu with
          | error e =>
              obtain ⟨hexec, hcode⟩ := h.exec_error codes hon hstep
              rw [hexec, hcode]
              exact .exited rfl
          | ok c =>
              obtain ⟨hstate, hnext⟩ := h.exec_ok codes hon hstep
              have hrun := ih hnext
              rw [h.state] at hstate
              simp only [hstate]
              exact hrun.from

/-- The debugger has come to where the program by itself gets to. -/
def Came (s : Debuggee X) (v : View X) : Option (Except Nat (Cpu X)) → SprayResult →
    Debugger (Machine X) → Prop
  | none, _, _ => False
  | some (.ok c), res, d => res = .ok ∧ Stands s (v.withCpu c) d
  | some (.error e), _, d => Exited (v.output ++ [.childExited e]) d

theorem getSigInfo_stopped {d : Debugger (Machine X)} (hs : d.tracee.state = .stopped code) :
    request (ptGetSignalInfo (s.env codes limit).pt) d = .ok (some ⟨.SIGTRAP, code⟩) d := by
  show request (ptGetSignalInfo (s.program.ptrace codes limit)) d = _
  unfold request ptGetSignalInfo
  simp [Program.ptrace, hs]

/-- After a trap the program counter goes back onto the breakpoint. -/
theorem waitForSignal_trap {d d₁ : Debugger (Machine X)} {sig : Signal}
    (h : awaitStatus (s.env codes limit).pt d = .ok (.stopped sig) d₁)
    (hs : d₁.tracee.state = .stopped codes.trap) :
    waitForSignal (s.env codes limit) (fuel + 1) d = .ok .ok { d₁ with
      tracee := { d₁.tracee with cpu := d₁.tracee.cpu.setPc (d₁.tracee.cpu.pc - 1) } } := by
  have hback : handleSigtrap (s.env codes limit) ⟨.SIGTRAP, codes.trap⟩ d₁ = .ok () { d₁ with
      tracee := { d₁.tracee with cpu := d₁.tracee.cpu.setPc (d₁.tracee.cpu.pc - 1) } } := by
    unfold handleSigtrap
    rw [if_pos codes.trap_code, bind_run (getPc_stopped rfl hs), setPc_stopped rfl hs]
  rw [waitForSignal, bind_run h]
  dsimp only
  rw [bind_run (getSigInfo_stopped hs)]
  dsimp only [Option.getD_some]
  rw [bind_run hback]
  rfl

theorem waitForSignal_step {d d₁ : Debugger (Machine X)} {sig : Signal}
    (h : awaitStatus (s.env codes limit).pt d = .ok (.stopped sig) d₁)
    (hs : d₁.tracee.state = .stopped codes.step) :
    waitForSignal (s.env codes limit) (fuel + 1) d = .ok .ok d₁ := by
  have hstay : handleSigtrap (s.env codes limit) ⟨.SIGTRAP, codes.step⟩ d₁ = .ok () d₁ := by
    unfold handleSigtrap
    rw [if_neg (not_or.mpr codes.step_code)]
    rfl
  rw [waitForSignal, bind_run h]
  dsimp only
  rw [bind_run (getSigInfo_stopped hs)]
  dsimp only [Option.getD_some]
  rw [bind_run hstay]
  rfl

theorem waitForSignal_exit {d d₁ : Debugger (Machine X)} {e : Nat}
    (h : awaitStatus (s.env codes limit).pt d = .ok (.exited e) d₁) :
    waitForSignal (s.env codes limit) (fuel + 1) d =
      .ok .err { d₁ with output := d₁.output ++ [.childExited e] } := by
  rw [waitForSignal, bind_run h]
  rfl

theorem awaitStatus_eq {d : Debugger (Machine X)} {status : WaitStatus} {m : Machine X}
    (h : (s.program.ptrace codes limit).waitpid d.tracee = (.status status, m)) :
    awaitStatus (s.env codes limit).pt d = .ok status { d with tracee := m } := by
  show awaitStatus (s.program.ptrace codes limit) d = _
  unfold awaitStatus
  rw [h]

/-- **A tracee that has been continued is waited for until the program by itself would be at a
breakpoint.** -/
theorem waitForSignal_continuing (fuel : Nat) :
    Holds (Shadows s .continuing v) (waitForSignal (s.env codes limit) fuel)
      (Came s v (s.program.runUntil v.enabled limit v.cpu))
      (fun _ _ => fuel = 0 ∨ s.program.runUntil v.enabled limit v.cpu = none) := by
  cases fuel with
  | zero => exact Holds.throw fun _ _ => .inl rfl
  | succ fuel =>
      intro d h
      have hwaited := runToStop_waitedFor codes limit h
      have hwait : (s.program.ptrace codes limit).waitpid d.tracee =
          s.program.runToStop codes limit d.tracee := by
        simp [Program.ptrace, h.state]
      generalize s.program.runToStop codes limit d.tracee = out at hwaited hwait
      generalize s.program.runUntil v.enabled limit v.cpu = o at hwaited
      cases hwaited with
      | @blocked m =>
          have hhalt : awaitStatus (s.env codes limit).pt d =
              .error .blocked { d with tracee := m } := by
            show awaitStatus (s.program.ptrace codes limit) d = _
            unfold awaitStatus
            rw [hwait]
          rw [waitForSignal, bind_error hhalt]
          exact .inr rfl
      | @stopped c m h' =>
          rw [waitForSignal_trap (awaitStatus_eq hwait) rfl]
          exact ⟨rfl, _, h'.rewound codes⟩
      | @exited e m hexit =>
          rw [waitForSignal_exit (awaitStatus_eq hwait)]
          refine ⟨hexit, ?_⟩
          rw [← h.output]

/-- A tracee that has been stepped is waited for until the instruction is completed. -/
theorem waitForSignal_stepping (hoff : v.enabled v.pc = false) (fuel : Nat) :
    Holds (Shadows s .stepping v) (waitForSignal (s.env codes limit) fuel)
      (Came s v (some (s.program.step v.cpu))) (fun _ _ => fuel = 0) := by
  cases fuel with
  | zero => exact Holds.throw fun _ _ => rfl
  | succ fuel =>
      intro d h
      have hwait : (s.program.ptrace codes limit).waitpid d.tracee =
          s.program.runStep codes d.tracee := by
        simp [Program.ptrace, h.state]
      unfold Program.runStep at hwait
      cases hstep : s.program.step v.cpu with
      | error e =>
          obtain ⟨hexec, hcode⟩ := h.exec_error codes hoff hstep
          rw [hexec, hcode] at hwait
          rw [waitForSignal_exit (awaitStatus_eq hwait)]
          refine ⟨rfl, ?_⟩
          rw [← h.output]
      | ok c =>
          obtain ⟨hstate, hnext⟩ := h.exec_ok codes hoff hstep
          rw [h.state] at hstate
          simp only [hstate] at hwait
          rw [waitForSignal_step (awaitStatus_eq hwait) rfl]
          exact ⟨rfl, _, hnext.withState _⟩

end Spray
