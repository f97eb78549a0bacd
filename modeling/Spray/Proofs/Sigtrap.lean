/-
Whose traps the program counter is moved back for.

A trap byte leaves the program counter behind itself, so the debugger moves it back by one
when it finds the tracee stopped by one of its own.  `handleSigtrap` goes by the code the stop
is reported with, which a trap of the program's own and a step over a `syscall` share; the
breakpoints are not asked.
-/
import Spray.Lib.Triple
import Spray.Debugger

namespace Spray

variable {W : Type} {env : Env W} {regs : W → Regs}

/-! ### The program counter -/

theorem getRegisterValue_served (served : RegistersServed env.pt regs) (reg : X86Reg) (w : W) :
    getRegisterValue env.pt reg w = (some (regs w reg), (env.pt.getRegs w).2) := by
  have hsome := served.get_some w
  unfold getRegisterValue ptReadRegisters
  generalize env.pt.getRegs w = out at hsome
  obtain ⟨rs, w'⟩ := out
  cases hsome
  rfl

theorem getPc_served (served : RegistersServed env.pt regs) (d : Debugger W) :
    ∃ w, getPc env d = .ok ⟨regs d.tracee .rip⟩ { d with tracee := w } ∧
      regs w = regs d.tracee := by
  refine ⟨(env.pt.getRegs d.tracee).2, ?_, served.get_regs _⟩
  have hread : request (getRegisterValue env.pt .rip) d =
      .ok (some (regs d.tracee .rip)) { d with tracee := (env.pt.getRegs d.tracee).2 } := by
    unfold request
    rw [getRegisterValue_served served]
  exact Triple.bind_run hread

theorem setPc_served (served : RegistersServed env.pt regs) (pc : RealAddr) (d : Debugger W) :
    ∃ w, setPc env pc d = .ok () { d with tracee := w } ∧ regs w .rip = pc.value := by
  refine ⟨(setRegisterValue env.pt .rip pc.value d.tracee).2, rfl, ?_⟩
  have hsome := served.get_some d.tracee
  unfold setRegisterValue ptReadRegisters ptWriteRegisters
  cases hr : env.pt.getRegs d.tracee with
  | mk rs w =>
      rw [hr] at hsome
      cases hsome
      exact (congrFun (served.set_regs _ _) _).trans (Function.update_self ..)

/-- The codes a stop at a breakpoint can be reported with. -/
def SiCode.isTrap (code : SiCode) : Prop := code = .SI_KERNEL ∨ code = .TRAP_BRKPT

/-- Only the code decides where the program counter is afterwards. -/
theorem handleSigtrap_served (served : RegistersServed env.pt regs) (info : SigInfo)
    (d : Debugger W) :
    ∃ w, handleSigtrap env info d = .ok () { d with tracee := w } ∧
      (info.code.isTrap → regs w .rip = regs d.tracee .rip - 1) ∧
      (¬ info.code.isTrap → regs w .rip = regs d.tracee .rip) := by
  unfold handleSigtrap
  by_cases htrap : info.code.isTrap
  · obtain ⟨w, hget, hsame⟩ := getPc_served served d
    obtain ⟨w', hset, hpc⟩ := setPc_served served ⟨regs d.tracee .rip - 1⟩
      { d with tracee := w }
    refine ⟨w', ?_, fun _ => hpc, fun h => absurd htrap h⟩
    rw [if_pos (show _ ∨ _ from htrap)]
    exact (Triple.bind_run hget).trans hset
  · rw [if_neg (show ¬ (_ ∨ _) from htrap)]
    exact ⟨d.tracee, rfl, fun h => absurd h htrap, fun _ => rfl⟩

/-! ### A stop -/

/-- The next wait finds the tracee at `pc`, in a `SIGTRAP` stop reported with this code. -/
structure TrapStop (env : Env W) (regs : W → Regs) (d : Debugger W) (code : SiCode) (pc : Word) :
    Prop where
  wait : (env.pt.waitpid d.tracee).1 = .status (.stopped .SIGTRAP)
  info : (env.pt.getSigInfo (env.pt.waitpid d.tracee).2).1 = some ⟨.SIGTRAP, code⟩
  rip : regs (env.pt.waitpid d.tracee).2 .rip = pc

/-- If the program counter is changed, it is moved back by one, onto a breakpoint. -/
def RewindsOwnTrap (b : Breakpoints) (pc pc' : Word) : Prop :=
  pc' ≠ pc → lookupBreakpoint b ⟨pc - 1⟩ = true ∧ pc' = pc - 1

theorem waitForSignal_trapStop (served : RegistersServed env.pt regs) {d : Debugger W}
    {code : SiCode} {pc : Word} (stop : TrapStop env regs d code pc) (fuel : Nat) :
    ∃ w, waitForSignal env (fuel + 1) d = .ok .ok { d with tracee := w } ∧
      (code.isTrap → regs w .rip = pc - 1) ∧ (¬ code.isTrap → regs w .rip = pc) := by
  obtain ⟨hwait, hinfo, hrip⟩ := stop
  have hstatus : awaitStatus env.pt d =
      .ok (.stopped .SIGTRAP) { d with tracee := (env.pt.waitpid d.tracee).2 } := by
    unfold awaitStatus
    cases hr : env.pt.waitpid d.tracee with
    | mk out w =>
        rw [hr] at hwait
        cases hwait
        rfl
  generalize (env.pt.waitpid d.tracee).2 = w at *
  have hread : request (ptGetSignalInfo env.pt) { d with tracee := w } =
      .ok (some ⟨.SIGTRAP, code⟩) { d with tracee := (env.pt.getSigInfo w).2 } := by
    rw [← hinfo]
    rfl
  obtain ⟨w', hhandle, hpc⟩ := handleSigtrap_served served ⟨.SIGTRAP, code⟩
    { d with tracee := (env.pt.getSigInfo w).2 }
  rw [show regs (env.pt.getSigInfo w).2 .rip = pc from
    (congrFun (served.info_regs w) _).trans hrip] at hpc
  refine ⟨w', ?_, hpc⟩
  unfold waitForSignal
  refine (Triple.bind_run hstatus).trans ((Triple.bind_run hread).trans ?_)
  exact Triple.bind_run hhandle

/-- **The program counter is moved back for the debugger's own traps only, exactly if a stop
reported like one of them is one of them.** -/
theorem waitForSignal_rewindsOwnTrap_iff (served : RegistersServed env.pt regs) {d : Debugger W}
    {code : SiCode} {pc : Word} (stop : TrapStop env regs d code pc) (fuel : Nat) :
    RewindsOwnTrap d.breakpoints pc
        (regs (finalState (waitForSignal env (fuel + 1)) d).tracee .rip) ↔
      (code = .SI_KERNEL ∨ code = .TRAP_BRKPT → lookupBreakpoint d.breakpoints ⟨pc - 1⟩ = true) := by
  obtain ⟨w, hrun, htrap, hother⟩ := waitForSignal_trapStop served stop fuel
  have hfinal : (finalState (waitForSignal env (fuel + 1)) d).tracee = w := by
    unfold finalState
    rw [hrun]
  rw [hfinal]
  by_cases hcode : code.isTrap
  · have hmoved : pc - 1 ≠ pc := by bv_omega
    rw [htrap hcode]
    exact ⟨fun h _ => (h hmoved).1, fun h _ => ⟨h hcode, rfl⟩⟩
  · rw [hother hcode]
    exact ⟨fun _ h => absurd h hcode, fun _ h => absurd rfl h⟩

/-! ### A step over a `syscall` -/

/-- A tracee in a `SIGTRAP` stop, of which only the registers are known. -/
def trappedPtrace (code : SiCode) : Ptrace Regs where
  peekData _ rs := (none, rs)
  pokeData _ _ rs := (false, rs)
  getRegs rs := (some rs, rs)
  setRegs rs _ := (true, rs)
  cont rs := (none, rs)
  singleStep rs := (true, rs)
  getSigInfo rs := (some ⟨.SIGTRAP, code⟩, rs)
  waitpid rs := (.status (.stopped .SIGTRAP), rs)

theorem trappedPtrace_served (code : SiCode) : RegistersServed (trappedPtrace code) id :=
  ⟨fun _ => rfl, fun _ => rfl, fun _ _ => rfl, fun _ => rfl⟩

/-- Behind the `syscall` at 0x1000, without breakpoints. -/
def syscallDebugger : Debugger Regs where
  breakpoints := initBreakpoints
  tracee := fun _ => 0x1002
  loadAddress := ⟨0⟩
  output := []

theorem syscallDebugger_trapStop (code : SiCode) :
    TrapStop (strippedEnv (trappedPtrace code)) id syscallDebugger code 0x1002 :=
  ⟨rfl, rfl, rfl⟩

/-- A step reported as `TRAP_TRACE` leaves the program counter alone. -/
theorem waitForSignal_rewindsOwnTrap_step :
    RewindsOwnTrap initBreakpoints 0x1002
      ((finalState (waitForSignal (strippedEnv (trappedPtrace .TRAP_TRACE)) 1)
        syscallDebugger).tracee .rip) :=
  (waitForSignal_rewindsOwnTrap_iff (trappedPtrace_served .TRAP_TRACE)
    (syscallDebugger_trapStop .TRAP_TRACE) 0).mpr fun h => nomatch h

/-- After a step over a `syscall`, it is moved into the middle of the instruction. -/
theorem waitForSignal_rewinds_syscall :
    ¬ RewindsOwnTrap initBreakpoints 0x1002
      ((finalState (waitForSignal (strippedEnv (trappedPtrace .TRAP_BRKPT)) 1)
        syscallDebugger).tracee .rip) := by
  have hrip : (finalState (waitForSignal (strippedEnv (trappedPtrace .TRAP_BRKPT)) 1)
      syscallDebugger).tracee .rip = 0x1001 := by
    obtain ⟨w, hrun, htrap, -⟩ := waitForSignal_trapStop (trappedPtrace_served .TRAP_BRKPT)
      (syscallDebugger_trapStop .TRAP_BRKPT) 0
    unfold finalState
    rw [hrun]
    exact htrap (.inr rfl)
  rw [hrip]
  intro h
  exact absurd (h (by decide)).1 (by decide)

end Spray
