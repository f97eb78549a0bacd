/-
Invariants of the operations that run the tracee.

The operations use the tracee and the breakpoints in a handful of ways only.  What each
of these keeps, and a wait keeps, every operation keeps.
-/
import Spray.Lib.Triple
import Spray.Command

namespace Spray

open Triple

variable {W : Type}

/-- `I` is kept by each of the steps an operation is made of; `H` is what is left of it
when one halts. -/
structure Invariant (env : Env W) (fuel : Nat) (I : Debugger W → Prop)
    (H : Halt → Debugger W → Prop) : Prop where
  getRegister : ∀ reg, Holds I (request (getRegisterValue env.pt reg)) (fun _ => I) H
  readMemory : ∀ addr, Holds I (request (ptReadMemory env.pt addr)) (fun _ => I) H
  singleStep : Holds I (request (ptSingleStep env.pt)) (fun _ => I) H
  cont : Holds I (request (ptContinueExecution env.pt)) (fun _ => I) H
  enable : ∀ addr, Holds I (onStore (enableBreakpoint env.pt addr)) (fun _ => I) H
  disable : ∀ addr, Holds I (onStore (disableBreakpoint env.pt addr)) (fun _ => I) H
  say : ∀ msg, Holds I (say msg) (fun _ => I) H
  wait : Holds I (waitForSignal env fuel) (fun _ => I) H
  halt : ∀ e d, I d → H e d

variable {env : Env W} {fuel : Nat} {I : Debugger W → Prop} {H : Halt → Debugger W → Prop}

namespace Invariant

theorem getPc (inv : Invariant env fuel I H) : Holds I (getPc env) (fun _ => I) H := by
  apply Holds.bind (inv.getRegister .rip)
  intro pc
  cases pc with
  | none => exact Holds.pure fun _ => id
  | some store => exact Holds.pure fun _ => id

theorem getDbgPc (inv : Invariant env fuel I H) : Holds I (getDbgPc env) (fun _ => I) H := by
  apply Holds.bind inv.getPc
  intro pc
  exact Holds.get_bind fun _ _ => Holds.pure fun _ => id

theorem singleStepBreakpoint (inv : Invariant env fuel I H) :
    Holds I (singleStepBreakpoint env (waitForSignal env fuel)) (fun _ => I) H := by
  apply Holds.bind inv.getPc
  intro pc
  apply Holds.get_bind
  intro d _
  apply Holds.ite
  · intro _
    apply Holds.bind (inv.disable pc)
    intro _
    apply Holds.bind inv.singleStep
    intro _
    apply Holds.bind inv.wait
    intro res
    exact Holds.bind (inv.enable pc) fun _ => Holds.pure fun _ => id
  · intro _
    exact Holds.pure fun _ => id

theorem continueExecution (inv : Invariant env fuel I H) :
    Holds I (continueExecution env (waitForSignal env fuel)) (fun _ => I) H := by
  apply Holds.bind inv.singleStepBreakpoint
  intro _
  apply Holds.bind inv.cont
  intro errno
  rcases errno with _ | _ | _
  · exact Holds.pure fun _ => id
  · exact Holds.bind (inv.say _) fun _ => Holds.pure fun _ => id
  · exact Holds.pure fun _ => id

theorem singleStepInstruction (inv : Invariant env fuel I H) :
    Holds I (singleStepInstruction env fuel) (fun _ => I) H := by
  apply Holds.bind inv.getPc
  intro pc
  apply Holds.get_bind
  intro d _
  apply Holds.ite
  · intro _
    exact Holds.bind inv.singleStepBreakpoint fun _ => Holds.pure fun _ => id
  · intro _
    exact Holds.bind inv.singleStep fun _ => inv.wait

theorem setReturnAddressBreakpoint (inv : Invariant env fuel I H) :
    Holds I (setReturnAddressBreakpoint env) (fun _ => I) H := by
  apply Holds.bind (inv.getRegister .rbp)
  intro framePointer
  cases framePointer with
  | none => exact Holds.throw (inv.halt _)
  | some framePointer =>
      apply Holds.bind (inv.readMemory _)
      intro read
      apply Holds.get_bind
      intro d _
      apply Holds.ite
      · intro _
        exact Holds.pure fun _ => id
      · intro _
        exact Holds.bind (inv.enable _) fun _ => Holds.pure fun _ => id

theorem removeInternalBreakpoint (inv : Invariant env fuel I H) (remove : Bool)
    (addr : RealAddr) :
    Holds I (removeInternalBreakpoint env remove addr) (fun _ => I) H := by
  apply Holds.ite
  · intro _
    exact Holds.bind (inv.disable addr) fun _ => Holds.pure fun _ => id
  · intro _
    exact Holds.pure fun _ => id

theorem stepOut (inv : Invariant env fuel I H) : Holds I (stepOut env fuel) (fun _ => I) H := by
  apply Holds.bind inv.setReturnAddressBreakpoint
  intro r
  apply Holds.bind inv.continueExecution
  intro _
  apply Holds.bind inv.wait
  intro res
  exact Holds.bind (inv.removeInternalBreakpoint _ _) fun _ => Holds.pure fun _ => id

theorem singleStepLineLoop (inv : Invariant env fuel I H) (initLine left : Nat) :
    ∀ pos, Holds I (singleStepLineLoop env fuel initLine left pos) (fun _ => I) H := by
  induction left with
  | zero =>
      intro pos
      exact Holds.bind (inv.say _) fun _ => Holds.pure fun _ => id
  | succ left ih =>
      intro pos
      apply Holds.ite
      · intro _
        apply Holds.bind inv.singleStepInstruction
        intro res
        cases res with
        | ok =>
            apply Holds.bind inv.getDbgPc
            intro pc
            split
            · exact Holds.bind (inv.say _) fun _ => Holds.pure fun _ => id
            · exact ih _
        | err => exact Holds.pure fun _ => id
      · intro _
        exact Holds.pure fun _ => id

theorem singleStepLine (inv : Invariant env fuel I H) :
    Holds I (singleStepLine env fuel) (fun _ => I) H := by
  apply Holds.bind inv.getDbgPc
  intro pc
  split
  · exact Holds.bind (inv.say _) fun _ => Holds.pure fun _ => id
  · exact inv.singleStepLineLoop _ _ _

theorem setStepOverBreakpoints (inv : Invariant env fuel I H) (func : DebugSymbol) :
    Holds I (setStepOverBreakpoints env func) (fun _ => I) H := by
  unfold Spray.setStepOverBreakpoints
  split
  · apply Holds.get_bind
    intro d _
    apply Holds.map
    refine Holds.foldlM (I := fun _ => I) (fun toDel line => ?_) _ []
    apply Holds.get_bind
    intro d _
    split
    · exact Holds.bind (inv.enable _) fun _ => Holds.pure fun _ => id
    · exact Holds.pure fun _ => id
  · exact Holds.pure fun _ => id

theorem stepOver (inv : Invariant env fuel I H) : Holds I (stepOver env fuel) (fun _ => I) H := by
  apply Holds.bind inv.getDbgPc
  intro pc
  split
  · exact Holds.bind (inv.say _) fun _ => Holds.pure fun _ => id
  · rename_i func _
    apply Holds.bind (inv.setStepOverBreakpoints func)
    intro toDel
    cases toDel with
    | none => exact Holds.bind (inv.say _) fun _ => Holds.pure fun _ => id
    | some toDel =>
        apply Holds.bind inv.setReturnAddressBreakpoint
        intro r
        apply Holds.bind inv.continueExecution
        intro _
        apply Holds.bind inv.wait
        intro res
        refine Holds.bind (Holds.forM (I := fun _ => I) (fun addr rest => ?_) toDel) fun _ => ?_
        · exact Holds.bind (inv.disable addr) fun _ => Holds.pure fun _ => id
        · exact Holds.bind (inv.removeInternalBreakpoint _ _) fun _ => Holds.pure fun _ => id

/-- **What the steps of an operation keep, the operation keeps.** -/
theorem exec (inv : Invariant env fuel I H) (op : SteppingOp) :
    Holds I (op.exec env fuel) (fun _ => I) H := by
  cases op with
  | continueAndWait => exact Holds.bind inv.continueExecution fun _ => inv.wait
  | singleStepInstruction => exact inv.singleStepInstruction
  | singleStepLine => exact inv.singleStepLine
  | stepOut => exact inv.stepOut
  | stepOver => exact inv.stepOver

end Invariant

/-- `I` is kept by each request, and by each change of the breakpoints. -/
structure StepInvariant (env : Env W) (I : Debugger W → Prop) (H : Halt → Debugger W → Prop) :
    Prop where
  getRegister : ∀ reg, Holds I (request (getRegisterValue env.pt reg)) (fun _ => I) H
  setRegister : ∀ reg write, Holds I (request (setRegisterValue env.pt reg write)) (fun _ => I) H
  readMemory : ∀ addr, Holds I (request (ptReadMemory env.pt addr)) (fun _ => I) H
  singleStep : Holds I (request (ptSingleStep env.pt)) (fun _ => I) H
  cont : Holds I (request (ptContinueExecution env.pt)) (fun _ => I) H
  getSigInfo : Holds I (request (ptGetSignalInfo env.pt)) (fun _ => I) H
  await : Holds I (awaitStatus env.pt) (fun _ => I) H
  enable : ∀ addr, Holds I (onStore (enableBreakpoint env.pt addr)) (fun _ => I) H
  disable : ∀ addr, Holds I (onStore (disableBreakpoint env.pt addr)) (fun _ => I) H
  say : ∀ msg, Holds I (say msg) (fun _ => I) H
  halt : ∀ e d, I d → H e d

namespace StepInvariant

/-- All that is left to show of an invariant is that a wait keeps it. -/
theorem invariant_of_wait (inv : StepInvariant env I H)
    (hwait : Holds I (waitForSignal env fuel) (fun _ => I) H) : Invariant env fuel I H where
  getRegister := inv.getRegister
  readMemory := inv.readMemory
  singleStep := inv.singleStep
  cont := inv.cont
  enable := inv.enable
  disable := inv.disable
  say := inv.say
  wait := hwait
  halt := inv.halt

theorem handleSigtrap (inv : StepInvariant env I H) (siginfo : SigInfo) :
    Holds I (handleSigtrap env siginfo) (fun _ => I) H := by
  unfold Spray.handleSigtrap
  split
  · apply Holds.bind (Q := fun _ => I)
    · apply Holds.bind (inv.getRegister .rip)
      intro pc
      cases pc with
      | none => exact Holds.pure fun _ => id
      | some store => exact Holds.pure fun _ => id
    · intro pc
      exact Holds.bind (inv.setRegister .rip _) fun _ => Holds.pure fun _ => id
  · exact Holds.pure fun _ => id

/-- **What the requests keep, a wait keeps, however often it continues.** -/
theorem waitForSignal (inv : StepInvariant env I H) (fuel : Nat) :
    Holds I (waitForSignal env fuel) (fun _ => I) H := by
  induction fuel with
  | zero => exact Holds.throw (inv.halt _)
  | succ fuel ih =>
      apply Holds.bind inv.await
      intro status
      cases status with
      | exited code => exact Holds.bind (inv.say _) fun _ => Holds.pure fun _ => id
      | signaled sig => exact Holds.bind (inv.say _) fun _ => Holds.pure fun _ => id
      | continued => exact Holds.bind (inv.say _) fun _ => Holds.pure fun _ => id
      | invalid status => exact Holds.bind (inv.say _) fun _ => Holds.pure fun _ => id
      | stopped sig =>
          apply Holds.bind inv.getSigInfo
          intro info
          dsimp only
          split
          · exact Holds.bind (inv.say _) fun _ => Holds.pure fun _ => id
          · exact Holds.bind (inv.handleSigtrap _) fun _ => Holds.pure fun _ => id
          · exact Holds.bind (inv.invariant_of_wait ih).continueExecution fun _ => ih
          · exact Holds.bind (inv.say _) fun _ => Holds.pure fun _ => id

theorem invariant (inv : StepInvariant env I H) (fuel : Nat) : Invariant env fuel I H :=
  inv.invariant_of_wait (inv.waitForSignal fuel)

end StepInvariant

end Spray
