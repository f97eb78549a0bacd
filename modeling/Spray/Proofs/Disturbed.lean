/-
A signal at the wrong moment.

What has gone wrong stays wrong: a breakpoint the tracee is past is behind it, and memory
it was continued with remains on record (`Violated`).  So it is enough to follow the
debugger up to the first signal that `Undisturbed` rules out.
-/
import Spray.Proofs.Undisturbed

namespace Spray

open Triple

variable {run : Run} {enabled : RealAddr → Bool} {limit fuel : Nat} {env : Env Runner}
  {info : SigInfo} {pos : Nat} {ws : List (Option Nat)} {d : Debugger Runner}

/-! ### What cannot be undone -/

/-- The tracee has not gone backwards, and what has been continued remains so. -/
structure Later (t t' : Runner) : Prop where
  pos : t.pos ≤ t'.pos
  conts : t.conts <+: t'.conts

theorem Later.refl (t : Runner) : Later t t := ⟨Nat.le_refl _, List.prefix_rfl⟩

theorem Later.trans {t u v : Runner} (h : Later t u) (h' : Later u v) : Later t v :=
  ⟨Nat.le_trans h.pos h'.pos, h.conts.trans h'.conts⟩

/-- Changes of anything else do not matter. -/
theorem Later.of_eq {t t' : Runner} (hpos : t'.pos = t.pos) (hconts : t'.conts = t.conts) :
    Later t t' := ⟨Nat.le_of_eq hpos.symm, hconts ▸ List.prefix_rfl⟩

theorem exec_later (run : Run) (t : Runner) : Later t (run.exec t) := by
  unfold Run.exec
  split
  · exact Later.of_eq rfl rfl
  · split
    · exact Later.of_eq rfl rfl
    · dsimp only
      split
      · exact ⟨Nat.le_succ _, List.prefix_rfl⟩
      · exact ⟨Nat.le_succ _, List.prefix_rfl⟩

theorem runStep_later (winch : Option Nat) (t : Runner) : Later t (run.runStep winch t).2 := by
  have hexec := exec_later run t
  unfold Run.runStep
  split
  · exact Later.of_eq rfl rfl
  · dsimp only
    split
    · exact hexec
    · exact hexec
    · split
      · exact hexec.trans (Later.of_eq rfl rfl)
      · exact hexec.trans (Later.of_eq rfl rfl)

theorem runToStop_later (limit : Nat) :
    ∀ winch t, Later t (run.runToStop limit winch t).2 := by
  induction limit with
  | zero => exact fun _ t => Later.refl t
  | succ limit ih =>
      intro winch t
      have hexec := exec_later run t
      unfold Run.runToStop
      split
      · exact Later.of_eq rfl rfl
      · dsimp only
        split
        · exact hexec
        · exact hexec
        · exact hexec.trans (ih _ _)

theorem waitpid_later (run : Run) (limit : Nat) (t : Runner) :
    Later t ((run.ptrace limit).waitpid t).2 := by
  have hsched : Later t t.scheduled := Later.of_eq rfl rfl
  cases hst : t.state with
  | stopped info => simp only [Run.ptrace, hst]; exact Later.refl t
  | exited => simp only [Run.ptrace, hst]; exact Later.refl t
  | stepping =>
      rw [waitpid_of_stepping hst]
      exact hsched.trans (runStep_later _ _)
  | continuing =>
      rw [waitpid_of_continuing hst]
      exact hsched.trans (runToStop_later _ _ _)

/-- What is true of a tracee remains true of it. -/
def Lasting (V : Runner → Prop) : Prop := ∀ t t', Later t t' → V t → V t'

theorem Lasting.request {V : Runner → Prop} (hV : Lasting V) {α : Type} {f : Runner → α × Runner}
    (hf : ∀ t, Later t (f t).2) :
    Holds (fun d => V d.tracee) (Spray.request f) (fun _ d => V d.tracee) (fun _ d => V d.tracee) :=
  fun d h => hV _ _ (hf d.tracee) h

theorem setRegister_later (reg : X86Reg) (write : Word) (t : Runner) :
    Later t (setRegisterValue (run.ptrace limit) reg write t).2 := by
  unfold setRegisterValue ptReadRegisters ptWriteRegisters
  cases ht : t.isStopped with
  | true => simp only [Run.ptrace, ht, if_true]; exact Later.of_eq rfl rfl
  | false => simp only [Run.ptrace, ht]; exact Later.refl t

/-- What lasts as the tracee goes on is kept by everything the debugger does. -/
theorem Lasting.steps {V : Runner → Prop} (hV : Lasting V) (hpt : env.pt = run.ptrace limit) :
    StepInvariant env (fun d => V d.tracee) (fun _ d => V d.tracee) where
  getRegister reg := by
    refine hV.request fun t => ?_
    unfold getRegisterValue ptReadRegisters
    rw [hpt]
    cases ht : t.isStopped with
    | true => simp only [Run.ptrace, ht]; exact Later.refl t
    | false => simp only [Run.ptrace, ht]; exact Later.refl t
  setRegister reg write := by
    rw [hpt]
    exact hV.request (setRegister_later reg write)
  readMemory addr := by
    rw [hpt]
    exact hV.request Later.refl
  singleStep := by
    refine hV.request fun t => ?_
    unfold ptSingleStep
    rw [hpt]
    cases ht : t.isStopped with
    | true => simp only [Run.ptrace, ht]; exact Later.of_eq rfl rfl
    | false => simp only [Run.ptrace, ht]; exact Later.refl t
  cont := by
    refine hV.request fun t => ?_
    unfold ptContinueExecution
    rw [hpt]
    cases ht : t.isStopped with
    | true => simp only [Run.ptrace, ht]; exact ⟨Nat.le_refl _, List.prefix_append _ _⟩
    | false => simp only [Run.ptrace, ht]; exact Later.refl t
  getSigInfo := by
    refine hV.request fun t => ?_
    unfold ptGetSignalInfo
    rw [hpt]
    cases ht : t.state with
    | stopped info => simp only [Run.ptrace, ht]; exact Later.refl t
    | stepping => simp only [Run.ptrace, ht]; exact Later.refl t
    | continuing => simp only [Run.ptrace, ht]; exact Later.refl t
    | exited => simp only [Run.ptrace, ht]; exact Later.refl t
  await := by
    intro d h
    have hlater := hV _ _ (waitpid_later run limit d.tracee) h
    unfold awaitStatus
    rw [hpt]
    generalize (run.ptrace limit).waitpid d.tracee = out at *
    obtain ⟨_ | _ | _, t⟩ := out
    · exact hlater
    · exact hlater
    · exact hlater
  enable addr := by
    intro d h
    have hsame := enableBreakpoint_rest hpt addr d.toStore
    exact hV _ _ (Later.of_eq (congrArg (·.1) hsame) (congrArg (·.2.2.2.2) hsame)) h
  disable addr := by
    intro d h
    have hsame := disableBreakpoint_rest hpt addr d.toStore
    exact hV _ _ (Later.of_eq (congrArg (·.1) hsame) (congrArg (·.2.2.2.2) hsame)) h
  say msg := fun _ h => h
  halt _ _ := id

/-! ### Continuing at the wrong moment -/

end Spray
