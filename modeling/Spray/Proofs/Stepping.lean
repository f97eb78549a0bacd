/-
Stepping and the user's breakpoints.

Every stepping command takes breakpoints out and puts transient ones in while it runs,
and waits, which may step and continue again.  `FollowsSet` is what a description of the state
of affairs in between has to be like: it goes with the set of breakpoints that are enabled,
and the parts that commands are made of change it as they change the set.  Then the
commands, which put the set back, keep it.
-/
import Spray.Lib.Triple
import Spray.Command
import Spray.Proofs.Breakpoints

namespace Spray

variable {W : Type}

/-- Halting is always allowed: nothing is said of a command that does not return. -/
abbrev Spec {α : Type} (P : Debugger W → Prop) (x : DbgM W α) (Q : α → Debugger W → Prop) : Prop :=
  Triple.Holds P x Q fun _ _ => True

/-- `holds enabled` describes the debugger while the breakpoints in `enabled` are, and
`reads pc enabled` does so when the PC has just been read as `pc`.  The breakpoints of the
`user` are only ever taken out to step off them. -/
structure FollowsSet (env : Env W) (user : RealAddr → Bool)
    (holds : (RealAddr → Bool) → Debugger W → Prop)
    (reads : RealAddr → (RealAddr → Bool) → Debugger W → Prop) : Prop where
  lookup : ∀ {enabled d}, holds enabled d → ∀ a, lookupBreakpoint d.breakpoints a = enabled a
  of_reads : ∀ {pc enabled d}, reads pc enabled d → holds enabled d
  say : ∀ msg enabled, Spec (holds enabled) (say msg) fun _ => holds enabled
  getPc : ∀ enabled, Spec (holds enabled) (getPc env) fun pc => reads pc enabled
  getRegister : ∀ reg enabled, Spec (holds enabled) (request (getRegisterValue env.pt reg))
    fun _ => holds enabled
  setRegister : ∀ reg write enabled, Spec (holds enabled)
    (request (setRegisterValue env.pt reg write)) fun _ => holds enabled
  readMemory : ∀ addr enabled, Spec (holds enabled) (request (ptReadMemory env.pt addr))
    fun _ => holds enabled
  cont : ∀ enabled, Spec (holds enabled) (request (ptContinueExecution env.pt))
    fun _ => holds enabled
  getSignalInfo : ∀ enabled, Spec (holds enabled) (request (ptGetSignalInfo env.pt))
    fun _ => holds enabled
  awaitStatus : ∀ enabled, Spec (holds enabled) (awaitStatus env.pt) fun _ => holds enabled
  enable : ∀ addr enabled, Spec (holds enabled) (onStore (enableBreakpoint env.pt addr))
    fun _ => holds (Function.update enabled addr true)
  disable : ∀ addr enabled, user addr = false →
    Spec (holds enabled) (onStore (disableBreakpoint env.pt addr))
      fun _ => holds (Function.update enabled addr false)
  /-- A step from where there is no breakpoint. -/
  step : ∀ pc enabled, enabled pc = false →
    Spec (reads pc enabled) (request (ptSingleStep env.pt)) fun _ => holds enabled
  /-- A step off a breakpoint, which is taken out. -/
  stepOff : ∀ pc enabled, enabled pc = true →
    Spec (reads pc enabled) (onStore (disableBreakpoint env.pt pc) >>= fun _ =>
      request (ptSingleStep env.pt)) fun _ => holds (Function.update enabled pc false)

variable {env : Env W} {user enabled : RealAddr → Bool}
  {holds : (RealAddr → Bool) → Debugger W → Prop}
  {reads : RealAddr → (RealAddr → Bool) → Debugger W → Prop}

open Triple

theorem FollowsSet.getDbgPc (follows : FollowsSet env user holds reads) :
    Spec (holds enabled) (getDbgPc env) fun _ => holds enabled :=
  Holds.bind (follows.getPc enabled) fun _ => Holds.get_bind fun _ _ =>
    Holds.pure fun _ => follows.of_reads

theorem FollowsSet.setPc (follows : FollowsSet env user holds reads) (pc : RealAddr) :
    Spec (holds enabled) (setPc env pc) fun _ => holds enabled :=
  Holds.bind (follows.setRegister .rip pc.value enabled) fun _ => Holds.pure fun _ => id

/-! ### Stepping over a breakpoint, and waiting -/

/-- A wait leaves the enabled set alone, whichever set that is. -/
def WaitsUnder (holds : (RealAddr → Bool) → Debugger W → Prop) (wait : DbgM W SprayResult) :
    Prop := ∀ enabled, Spec (holds enabled) wait fun _ => holds enabled

/-- The breakpoint under the PC is taken out for one instruction and put back. -/
theorem FollowsSet.singleStepBreakpoint (follows : FollowsSet env user holds reads)
    {wait : DbgM W SprayResult} (hwait : WaitsUnder holds wait) :
    WaitsUnder holds (singleStepBreakpoint env wait) := by
  intro enabled
  refine Holds.bind (follows.getPc enabled) fun pc => Holds.get_bind fun d hd => ?_
  refine Holds.ite (fun hon => ?_) fun _ => Holds.pure fun _ => follows.of_reads
  rw [follows.lookup (follows.of_reads hd)] at hon
  refine Holds.assoc (Holds.bind (follows.stepOff pc enabled hon) fun _ => ?_)
  refine Holds.bind (hwait _) fun res => ?_
  refine Holds.bind (follows.enable pc _) fun _ => Holds.pure fun s hs => ?_
  have hput : Function.update (Function.update enabled pc false) pc true = enabled := by
    rw [Function.update_idem, ← hon, Function.update_eq_self]
  rwa [hput] at hs

theorem FollowsSet.continueExecution (follows : FollowsSet env user holds reads)
    {wait : DbgM W SprayResult} (hwait : WaitsUnder holds wait) :
    WaitsUnder holds (continueExecution env wait) := by
  intro enabled
  refine Holds.bind (follows.singleStepBreakpoint hwait enabled) fun _ => ?_
  refine Holds.bind (follows.cont enabled) ?_
  rintro (_ | _ | _)
  · exact Holds.pure fun _ => id
  · exact Holds.bind (follows.say _ enabled) fun _ => Holds.pure fun _ => id
  · exact Holds.pure fun _ => id

theorem FollowsSet.handleSigtrap (follows : FollowsSet env user holds reads) (siginfo : SigInfo) :
    Spec (holds enabled) (handleSigtrap env siginfo) fun _ => holds enabled := by
  unfold Spray.handleSigtrap
  split
  · refine Holds.bind (follows.getPc enabled) fun pc => ?_
    exact (follows.setPc _).pre fun _ => follows.of_reads
  · exact Holds.pure fun _ => id

/-- **However many signals are swallowed, a wait leaves the enabled set alone.** -/
theorem FollowsSet.waitForSignal (follows : FollowsSet env user holds reads) (fuel : Nat) :
    WaitsUnder holds (waitForSignal env fuel) := by
  induction fuel with
  | zero => exact fun _ _ _ => trivial
  | succ fuel ih =>
      intro enabled
      refine Holds.bind (follows.awaitStatus _) ?_
      rintro (code | sig | _ | sig | status)
      · exact Holds.bind (follows.say _ _) fun _ => Holds.pure fun _ => id
      · exact Holds.bind (follows.say _ _) fun _ => Holds.pure fun _ => id
      · exact Holds.bind (follows.say _ _) fun _ => Holds.pure fun _ => id
      · refine Holds.bind (follows.getSignalInfo enabled) fun info => ?_
        dsimp only
        split
        · exact Holds.bind (follows.say _ _) fun _ => Holds.pure fun _ => id
        · exact Holds.bind (follows.handleSigtrap _) fun _ => Holds.pure fun _ => id
        · exact Holds.bind (follows.continueExecution ih enabled) fun _ => ih enabled
        · exact Holds.bind (follows.say _ _) fun _ => Holds.pure fun _ => id
      · exact Holds.bind (follows.say _ _) fun _ => Holds.pure fun _ => id

/-! ### The stepping commands -/

theorem FollowsSet.singleStepInstruction (follows : FollowsSet env user holds reads) (fuel : Nat) :
    WaitsUnder holds (singleStepInstruction env fuel) := by
  intro enabled
  refine Holds.bind (follows.getPc enabled) fun pc => Holds.get_bind fun d hd => ?_
  refine Holds.ite (fun _ => ?_) fun hoff => ?_
  · have hstep := follows.singleStepBreakpoint (follows.waitForSignal fuel) enabled
    exact Holds.bind (hstep.pre fun _ => follows.of_reads) fun _ => Holds.pure fun _ => id
  · rw [follows.lookup (follows.of_reads hd)] at hoff
    exact Holds.bind (follows.step pc enabled hoff) fun _ => follows.waitForSignal fuel enabled

theorem FollowsSet.singleStepLineLoop (follows : FollowsSet env user holds reads)
    (fuel initLine left : Nat) :
    ∀ pos, WaitsUnder holds (singleStepLineLoop env fuel initLine left pos) := by
  induction left with
  | zero => exact fun _ _ => Holds.bind (follows.say _ _) fun _ => Holds.pure fun _ => id
  | succ left ih =>
      intro pos enabled
      refine Holds.ite (fun _ => ?_) fun _ => Holds.pure fun _ => id
      refine Holds.bind (follows.singleStepInstruction fuel enabled) ?_
      rintro (_ | _)
      · refine Holds.bind follows.getDbgPc fun pc => ?_
        split
        · exact Holds.bind (follows.say _ _) fun _ => Holds.pure fun _ => id
        · exact ih _ enabled
      · exact Holds.pure fun _ => id

theorem FollowsSet.singleStepLine (follows : FollowsSet env user holds reads) (fuel : Nat) :
    WaitsUnder holds (singleStepLine env fuel) := by
  intro enabled
  refine Holds.bind follows.getDbgPc fun pc => ?_
  split
  · exact Holds.bind (follows.say _ _) fun _ => Holds.pure fun _ => id
  · exact follows.singleStepLineLoop fuel _ _ _ enabled

/-- The breakpoint on the return address is reported for removal when it was not enabled. -/
theorem FollowsSet.setReturnAddressBreakpoint (follows : FollowsSet env user holds reads) :
    Spec (holds enabled) (setReturnAddressBreakpoint env) fun r d =>
      holds (if r.1 then Function.update enabled r.2 true else enabled) d ∧
        (r.1 = true → enabled r.2 = false) := by
  refine Holds.bind (follows.getRegister .rbp enabled) ?_
  rintro (_ | framePointer)
  · exact Holds.throw fun _ _ => trivial
  · refine Holds.bind (follows.readMemory _ enabled) fun read => Holds.get_bind fun d hd => ?_
    refine Holds.ite (fun hon => ?_) fun hoff => ?_
    · exact Holds.pure fun s hs => ⟨hs, nofun⟩
    · refine Holds.bind (follows.enable _ enabled) fun _ => Holds.pure fun s hs => ⟨hs, fun _ => ?_⟩
      rw [← follows.lookup hd, hoff]

/-- The breakpoints that are not enabled are not the user's. -/
def HasOwn (user enabled : RealAddr → Bool) : Prop := ∀ a, enabled a = false → user a = false

/-- Taking a breakpoint out that was put in leaves the set it was put into. -/
theorem FollowsSet.removeInternalBreakpoint (follows : FollowsSet env user holds reads)
    {remove : Bool} {addr : RealAddr} (hown : HasOwn user enabled)
    (h : remove = true → enabled addr = false) :
    Spec (holds (if remove then Function.update enabled addr true else enabled))
      (removeInternalBreakpoint env remove addr) fun _ => holds enabled := by
  refine Holds.ite (fun hr => ?_) fun hr => Holds.pure fun s hs => by simpa [hr] using hs
  refine Holds.bind (follows.disable addr _ (hown addr (h hr))) fun _ => Holds.pure fun s hs => ?_
  have hout : Function.update (if remove = true then Function.update enabled addr true else enabled)
      addr false = enabled := by
    rw [if_pos hr, Function.update_idem, ← h hr, Function.update_eq_self]
  rwa [hout] at hs

theorem FollowsSet.stepOut (follows : FollowsSet env user holds reads) (hown : HasOwn user enabled)
    (fuel : Nat) : Spec (holds enabled) (stepOut env fuel) fun _ => holds enabled := by
  refine Holds.bind follows.setReturnAddressBreakpoint ?_
  rintro ⟨remove, addr⟩
  refine Holds.assume fun hoff => ?_
  refine Holds.bind (follows.continueExecution (follows.waitForSignal fuel) _) fun _ => ?_
  refine Holds.bind (follows.waitForSignal fuel _) fun res => ?_
  exact Holds.bind (follows.removeInternalBreakpoint hown hoff) fun _ => Holds.pure fun _ => id

/-! ### Step-over breakpoints -/

/-- The enabled set with a list of addresses added. -/
def withAll (enabled : RealAddr → Bool) (addrs : List RealAddr) : RealAddr → Bool :=
  fun a => enabled a || decide (a ∈ addrs)

@[simp] theorem withAll_nil : withAll enabled [] = enabled := by
  funext a
  simp [withAll]

/-- The addresses to delete are the ones that were added to the enabled set. -/
theorem FollowsSet.setStepOverBreakpoints (follows : FollowsSet env user holds reads)
    (func : DebugSymbol) :
    Spec (holds enabled) (setStepOverBreakpoints env func) fun r d =>
      holds (withAll enabled (r.getD [])) d ∧ ∀ a ∈ r.getD [], enabled a = false := by
  unfold Spray.setStepOverBreakpoints
  split
  · rename_i pos filepath _ _
    refine Holds.get_bind fun d₀ _ => Holds.map ?_
    refine (Holds.foldlM (I := fun toDel d => holds (withAll enabled toDel) d ∧
      ∀ a ∈ toDel, enabled a = false) (fun toDel line => ?_) _ []).pre fun s hs => ?_
    · refine Holds.assume fun hfresh => Holds.get_bind fun d hd => ?_
      set addr : RealAddr := ⟨line.addr.value - d₀.loadAddress.value⟩ with haddr
      split
      · rename_i hset
        have hoff : withAll enabled toDel addr = false := by
          simpa [follows.lookup hd] using hset.2
        refine Holds.bind (follows.enable addr _) fun _ => Holds.pure fun s hs => ⟨?_, ?_⟩
        · refine cast (congrArg (holds · s) (funext fun a => ?_)) hs
          simp only [withAll, List.mem_append, List.mem_singleton, Function.update_apply]
          split <;> simp_all
        · intro a ha
          rcases List.mem_append.mp ha with ha | ha
          · exact hfresh a ha
          · rw [List.mem_singleton.mp ha]
            exact (Bool.or_eq_false_iff.mp hoff).1
      · exact Holds.pure fun s hs => ⟨hs, hfresh⟩
    · exact ⟨by simpa using hs, by simp⟩
  · exact Holds.pure fun s hs => ⟨by simpa using hs, by simp⟩

/-- Deleting a list of breakpoints takes them out of the enabled set. -/
theorem FollowsSet.disableAll (follows : FollowsSet env user holds reads) {toDel : List RealAddr}
    (hown : ∀ a ∈ toDel, user a = false) :
    Spec (holds enabled)
      (toDel.forM fun addr => do let _ ← onStore (disableBreakpoint env.pt addr))
      fun _ => holds fun a => enabled a && decide (a ∉ toDel) := by
  refine (Holds.forM (I := fun rest d => ∃ gone,
    holds (fun a => enabled a && decide (a ∉ gone)) d ∧ gone ++ rest = toDel)
    (fun addr rest => ?_) toDel).conseq ?_ ?_ fun _ _ => id
  · refine Holds.exists fun gone => Holds.assume fun hsplit => ?_
    have haddr : user addr = false := hown addr (hsplit ▸ by simp)
    refine Holds.bind (follows.disable addr _ haddr) fun _ => Holds.pure fun s hs => ?_
    refine ⟨gone ++ [addr], ?_, by rw [List.append_assoc]; exact hsplit⟩
    refine cast (congrArg (holds · s) (funext fun a => ?_)) hs
    simp only [List.mem_append, List.mem_singleton, Function.update_apply]
    split <;> simp_all
  · exact fun d hd => ⟨[], by simpa using hd, rfl⟩
  · rintro _ d ⟨gone, hd, hsplit⟩
    rw [List.append_nil] at hsplit
    exact hsplit ▸ hd

theorem FollowsSet.stepOver (follows : FollowsSet env user holds reads) (hown : HasOwn user enabled)
    (fuel : Nat) : Spec (holds enabled) (stepOver env fuel) fun _ => holds enabled := by
  refine Holds.bind follows.getDbgPc fun pc => ?_
  split
  · exact Holds.bind (follows.say _ _) fun _ => Holds.pure fun _ => id
  · rename_i func _
    refine Holds.bind (follows.setStepOverBreakpoints func) fun r => ?_
    refine Holds.assume fun hfresh => ?_
    split
    · exact Holds.bind (follows.say _ _) fun _ => Holds.pure fun s hs => by simpa using hs
    · rename_i toDel
      refine Holds.bind follows.setReturnAddressBreakpoint ?_
      rintro ⟨remove, addr⟩
      refine Holds.assume fun hoff => ?_
      refine Holds.bind (follows.continueExecution (follows.waitForSignal fuel) _) fun _ => ?_
      refine Holds.bind (follows.waitForSignal fuel _) fun res => ?_
      refine Holds.bind (follows.disableAll fun a ha => hown a (hfresh a ha)) fun _ => ?_
      -- What is left of the set is what the return address added to it.
      have hleft : (fun a => (if remove = true then Function.update (withAll enabled toDel) addr true
            else withAll enabled toDel) a && decide (a ∉ toDel)) =
          if remove = true then Function.update enabled addr true else enabled := by
        funext a
        have hfresh := hfresh a
        cases remove with
        | false => by_cases ha : a ∈ toDel <;> simp_all [withAll]
        | true =>
            have hoff := hoff rfl
            by_cases ha : a ∈ toDel <;> by_cases hb : a = addr <;> simp_all [withAll]
      have hnew : remove = true → enabled addr = false := fun hr =>
        (Bool.or_eq_false_iff.mp (hoff hr)).1
      refine Holds.bind ((follows.removeInternalBreakpoint hown hnew).pre fun s hs => ?_)
        fun _ => Holds.pure fun _ => id
      rwa [← hleft]

/-- **Every operation keeps what goes with the enabled set.** -/
theorem FollowsSet.exec (follows : FollowsSet env user holds reads) (hown : HasOwn user enabled)
    (fuel : Nat) (op : SteppingOp) :
    Spec (holds enabled) (op.exec env fuel) fun _ => holds enabled := by
  cases op with
  | continueAndWait =>
      have hwait : WaitsUnder holds (Spray.waitForSignal env fuel) := follows.waitForSignal fuel
      exact Holds.bind (follows.continueExecution hwait enabled) fun _ => hwait enabled
  | singleStepInstruction => exact follows.singleStepInstruction fuel enabled
  | singleStepLine => exact follows.singleStepLine fuel enabled
  | stepOut => exact follows.stepOut hown fuel
  | stepOver => exact follows.stepOver hown fuel

end Spray
