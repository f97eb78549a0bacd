/-
Backtraces of any stack.

The loop follows the saved frame pointers and reads a return address beside each.  It takes
that address, which is one in the running process, for one in the binary; and it ends only
if the frame pointers do.
-/
import Mathlib.Data.FinEnum
import Spray.Lib.Links
import Spray.Lib.Triple
import Spray.Backtrace

namespace Spray

variable {W : Type} {env : Env W} {still : W → Prop} {read : Word → Option Word}
  {regs : Option Regs}

/-! ### One frame -/

/-- The frame pointer that is saved where this one points to, next to a return address. -/
def callerOf (read : Word → Option Word) (framePointer : Word) : Option Word :=
  if framePointer = 0 then none
  else (read (framePointer + 8)).bind fun _ => read framePointer

/-- Words are read off a tracee that stands still, and it stays as it is. -/
theorem request_ptReadMemory (hstill : StandsStill env.pt still read regs) (addr : RealAddr)
    {d : Debugger W} (hd : still d.tracee) : ∃ d' : Debugger W, still d'.tracee ∧
      request (ptReadMemory env.pt addr) d = .ok (read addr.value) d' := by
  refine ⟨{ d with tracee := (ptReadMemory env.pt addr d.tracee).2 },
    hstill.peek_still _ _ hd, ?_⟩
  show EStateM.Result.ok (env.pt.peekData addr.value d.tracee).1 _ = _
  rw [hstill.peek_val _ _ hd]

theorem request_getRegisterValue (hstill : StandsStill env.pt still read regs) (reg : X86Reg)
    {d : Debugger W} (hd : still d.tracee) : ∃ w, still w ∧
      request (getRegisterValue env.pt reg) d = .ok (regs.map (· reg)) { d with tracee := w } := by
  have hval := hstill.get_val _ hd
  refine ⟨(env.pt.getRegs d.tracee).2, hstill.get_still _ hd, ?_⟩
  unfold request getRegisterValue ptReadRegisters
  cases hget : env.pt.getRegs d.tracee with
  | mk got w =>
      rw [hget] at hval
      subst hval
      cases got <;> rfl

theorem initBacktraceLoop_zero (fuel : Nat) (frames : List CallLocation) :
    initBacktraceLoop env (fuel + 1) ⟨0⟩ frames = pure (some frames) := by
  rw [initBacktraceLoop, if_pos rfl]

/-- Where a frame pointer leads nowhere, there is no backtrace. -/
theorem initBacktraceLoop_unreadable (hstill : StandsStill env.pt still read regs) (fuel : Nat)
    {framePointer : Word} (hne : framePointer ≠ 0) (hcaller : callerOf read framePointer = none)
    (frames : List CallLocation) {d : Debugger W} (hd : still d.tracee) :
    ∃ d', initBacktraceLoop env (fuel + 1) ⟨framePointer⟩ frames d = .ok none d' := by
  unfold callerOf at hcaller
  rw [if_neg hne] at hcaller
  rw [initBacktraceLoop, if_neg hne]
  obtain ⟨d₁, hd₁, hret⟩ := request_ptReadMemory hstill ⟨framePointer + 8⟩ hd
  rw [Triple.bind_run hret]
  dsimp only
  cases hreturn : read (framePointer + 8) with
  | none => exact ⟨d₁, rfl⟩
  | some ret =>
      rw [hreturn, Option.bind_some] at hcaller
      obtain ⟨d₂, -, hfp⟩ := request_ptReadMemory hstill ⟨framePointer⟩ hd₁
      dsimp only
      rw [Triple.bind_run hfp]
      dsimp only
      rw [hcaller]
      exact ⟨d₂, rfl⟩

/-- The frame of the caller is the one at the return address that was read. -/
theorem initBacktraceLoop_step (hstill : StandsStill env.pt still read regs) (fuel : Nat)
    {framePointer ret caller : Word} (hne : framePointer ≠ 0)
    (hret : read (framePointer + 8) = some ret) (hcaller : read framePointer = some caller)
    (frames : List CallLocation) {d : Debugger W} (hd : still d.tracee) :
    ∃ d', still d'.tracee ∧ initBacktraceLoop env (fuel + 1) ⟨framePointer⟩ frames d =
      initBacktraceLoop env fuel ⟨caller⟩ (initCallFrame env ⟨ret⟩ ⟨caller⟩ :: frames) d' := by
  rw [initBacktraceLoop, if_neg hne]
  obtain ⟨d₁, hd₁, hret'⟩ := request_ptReadMemory hstill ⟨framePointer + 8⟩ hd
  obtain ⟨d₂, hd₂, hcaller'⟩ := request_ptReadMemory hstill ⟨framePointer⟩ hd₁
  rw [Triple.bind_run hret']
  dsimp only
  rw [hret]
  dsimp only
  rw [Triple.bind_run hcaller']
  dsimp only
  rw [hcaller]
  exact ⟨d₂, hd₂, rfl⟩

/-! ### The frame the backtrace starts at -/

theorem storesFramePointer_returns (hstill : StandsStill env.pt still read regs) (pc : DbgAddr)
    {d : Debugger W} (hd : still d.tracee) :
    ∃ stores d', still d'.tracee ∧ storesFramePointer env pc d = .ok stores d' := by
  unfold storesFramePointer
  cases symByAddr pc env.info with
  | none => exact ⟨false, d, hd, rfl⟩
  | some func =>
      obtain ⟨d', hd', hread⟩ := request_ptReadMemory hstill
        (dbgToReal d.loadAddress (symStartAddr func)) hd
      dsimp only
      rw [Triple.bind_run (rfl : (MonadState.get : DbgM W _) d = .ok d d),
        Triple.bind_run hread]
      cases read (dbgToReal d.loadAddress (symStartAddr func)).value with
      | none => exact ⟨false, d', hd', rfl⟩
      | some instBytes => exact ⟨_, d', hd', rfl⟩

theorem initBacktrace_of_regs (hstill : StandsStill env.pt still read regs) {rs : Regs}
    (hregs : regs = some rs) (fuel : Nat) (pc : DbgAddr) {d : Debugger W} (hd : still d.tracee) :
    ∃ d', still d'.tracee ∧ initBacktrace env fuel pc d =
      initBacktraceLoop env fuel ⟨rs .rbp⟩ [initCallFrame env pc ⟨rs .rbp⟩] d' := by
  obtain ⟨w, hw, hrbp⟩ := request_getRegisterValue hstill .rbp hd
  obtain ⟨stores, d₂, hd₂, hstores⟩ :=
    storesFramePointer_returns hstill pc (d := { d with tracee := w }) hw
  unfold initBacktrace
  rw [Triple.bind_run hrbp, hregs, Option.map_some]
  dsimp only
  rw [Triple.bind_run hstores]
  cases stores with
  | true => exact ⟨d₂, hd₂, rfl⟩
  | false => exact ⟨{ d₂ with output := d₂.output ++ [.noFramePointer] }, hd₂, rfl⟩

theorem initBacktrace_of_no_regs (hstill : StandsStill env.pt still read regs)
    (hregs : regs = none) (fuel : Nat) (pc : DbgAddr) {d : Debugger W} (hd : still d.tracee) :
    ∃ d', initBacktrace env fuel pc d = .ok none d' := by
  obtain ⟨w, -, hrbp⟩ := request_getRegisterValue hstill .rbp hd
  unfold initBacktrace
  rw [Triple.bind_run hrbp, hregs, Option.map_none]
  exact ⟨{ d with tracee := w }, rfl⟩

/-! ### Call chains -/

/-- Frames that are linked by their frame pointers, as the return addresses and the frame
pointers of the callers, up to one that is 0. -/
def FrameChain (read : Word → Option Word) : Word → List (Word × Word) → Prop
  | framePointer, [] => framePointer = 0
  | framePointer, (ret, caller) :: links =>
    framePointer ≠ 0 ∧ read (framePointer + 8) = some ret ∧ read framePointer = some caller ∧
      FrameChain read caller links

/-- The frames the loop adds, outermost first. -/
theorem initBacktraceLoop_of_chain (hstill : StandsStill env.pt still read regs)
    {links : List (Word × Word)} {framePointer : Word} (h : FrameChain read framePointer links)
    {fuel : Nat} (hfuel : links.length < fuel) (frames : List CallLocation) {d : Debugger W}
    (hd : still d.tracee) :
    ∃ d', initBacktraceLoop env fuel ⟨framePointer⟩ frames d =
      .ok (some ((links.map fun link => initCallFrame env ⟨link.1⟩ ⟨link.2⟩).reverse ++ frames))
        d' := by
  induction links generalizing framePointer fuel frames d with
  | nil =>
      obtain ⟨fuel, rfl⟩ := Nat.exists_eq_succ_of_ne_zero (Nat.ne_of_gt hfuel)
      cases h
      exact ⟨d, congrFun (initBacktraceLoop_zero fuel frames) d⟩
  | cons link links ih =>
      obtain ⟨hne, hret, hcaller, hrest⟩ := h
      obtain ⟨fuel, rfl⟩ := Nat.exists_eq_succ_of_ne_zero (Nat.ne_zero_of_lt hfuel)
      obtain ⟨d', hd', hstep⟩ := initBacktraceLoop_step hstill fuel hne hret hcaller frames hd
      obtain ⟨d'', hloop⟩ := ih hrest (Nat.lt_of_succ_lt_succ hfuel)
        (initCallFrame env ⟨link.1⟩ ⟨link.2⟩ :: frames) hd'
      refine ⟨d'', hstep.trans (hloop.trans ?_)⟩
      simp

/-- What is listed of a frame. -/
def CallLocation.listed (frame : CallLocation) : DbgAddr × Option String × Option Nat :=
  (frame.pc, frame.function, frame.lineno)

/-- What should be listed of a frame at a PC: the function and the line that contain it. -/
def listedAt (info : DebugInfo) (pc : DbgAddr) : DbgAddr × Option String × Option Nat :=
  (pc, (symByAddr pc info).map symName,
    ((symByAddr pc info).bind (symPosition · info)).map (·.line))

/-- From the innermost frame to the outermost, the PC and the return addresses are listed as
addresses in the binary. -/
def ListsCallChain (env : Env W) (fuel : Nat) (d : Debugger W) (pc : DbgAddr)
    (returns : List Word) : Prop :=
  ∃ frames, returned (initBacktrace env fuel pc) d = some (some frames) ∧
    frames.reverse.map CallLocation.listed =
      (pc :: returns.map fun ret => realToDbg d.loadAddress ⟨ret⟩).map (listedAt env.info)

theorem initBacktrace_of_chain (hstill : StandsStill env.pt still read regs) {rs : Regs}
    (hregs : regs = some rs) {links : List (Word × Word)} (h : FrameChain read (rs .rbp) links)
    {fuel : Nat} (hfuel : links.length < fuel) {d : Debugger W} (hd : still d.tracee)
    (pc : DbgAddr) :
    ∃ frames, returned (initBacktrace env fuel pc) d = some (some frames) ∧
      frames.reverse.map CallLocation.listed =
        (pc :: links.map fun link => ⟨link.1⟩).map (listedAt env.info) := by
  obtain ⟨d₁, hd₁, hstart⟩ := initBacktrace_of_regs hstill hregs fuel pc hd
  obtain ⟨d₂, hloop⟩ := initBacktraceLoop_of_chain hstill h hfuel
    [initCallFrame env pc ⟨rs .rbp⟩] hd₁
  refine ⟨_, by unfold returned; rw [hstart, hloop], ?_⟩
  rw [List.reverse_append, List.reverse_reverse, List.map_append, List.map_map, List.map_cons,
    List.map_map]
  rfl

theorem listedAt_injective (info : DebugInfo) : Function.Injective (listedAt info) :=
  fun _ _ h => congrArg Prod.fst h

/-- The debug address of an address is the same number only if there is no offset. -/
theorem realToDbg_eq_iff (offset : RealAddr) (real : Word) :
    (⟨real⟩ : DbgAddr) = realToDbg offset ⟨real⟩ ↔ offset.value = 0 := by
  unfold realToDbg
  rw [DbgAddr.mk.injEq]
  constructor
  · intro h
    bv_omega
  · intro h
    rw [h]
    exact (BitVec.sub_zero real).symm

/-- **A call chain is listed right exactly if the tracee is loaded at address 0 or there is
no caller.** -/
theorem listsCallChain_iff (hstill : StandsStill env.pt still read regs) {rs : Regs}
    (hregs : regs = some rs) {links : List (Word × Word)} (h : FrameChain read (rs .rbp) links)
    {fuel : Nat} (hfuel : links.length < fuel) {d : Debugger W} (hd : still d.tracee)
    (pc : DbgAddr) :
    ListsCallChain env fuel d pc (links.map Prod.fst) ↔ d.loadAddress.value = 0 ∨ links = [] := by
  obtain ⟨frames, hframes, hlisted⟩ := initBacktrace_of_chain hstill hregs h hfuel hd pc
  have hiff : ListsCallChain env fuel d pc (links.map Prod.fst) ↔
      ∀ link ∈ links, (⟨link.1⟩ : DbgAddr) = realToDbg d.loadAddress ⟨link.1⟩ := by
    unfold ListsCallChain
    rw [hframes, ← List.map_inj_left, List.map_map]
    constructor
    · rintro ⟨frames', hsame, hlist⟩
      cases hsame
      have hpcs := List.map_injective_iff.mpr (listedAt_injective env.info)
        (hlisted.symm.trans hlist)
      exact (List.cons.inj hpcs).2
    · intro hpcs
      refine ⟨frames, rfl, ?_⟩
      rw [hlisted, hpcs]
      rfl
  rw [hiff]
  constructor
  · intro hall
    cases links with
    | nil => exact .inr rfl
    | cons link links =>
        exact .inl ((realToDbg_eq_iff _ _).mp (hall link List.mem_cons_self))
  · rintro (hzero | rfl) link hlink
    · exact (realToDbg_eq_iff _ _).mpr hzero
    · cases hlink

/-- The stack of a function at `0x555555555139`, called from `0x555555555160`. -/
def stackWord (addr : Word) : Option Word :=
  if addr = 0x7fffffffe000 then some 0
  else if addr = 0x7fffffffe008 then some 0x555555555160
  else none

def stackRegs : Regs := fun reg => if reg = .rbp then 0x7fffffffe000 else 0

def stackEnv : Env Unit := strippedEnv (stillPtrace stackWord (some stackRegs))

def stackDebugger (loadAddress : RealAddr) : Debugger Unit := ⟨⟨initBreakpoints, ()⟩, loadAddress, []⟩

theorem stackWord_chain : FrameChain stackWord (stackRegs .rbp) [(0x555555555160, 0)] :=
  ⟨by decide, by decide, by decide, rfl⟩

theorem listsCallChain_unrelocated :
    ListsCallChain stackEnv 2 (stackDebugger ⟨0⟩) ⟨0x555555555139⟩ [0x555555555160] :=
  (listsCallChain_iff (stillPtrace_standsStill stackWord (some stackRegs)) rfl stackWord_chain
    (by decide) trivial ⟨0x555555555139⟩).mpr (.inl rfl)

/-- The caller of a function in a position independent executable is listed outside of it. -/
theorem listsCallChain_fails_pie :
    ¬ ListsCallChain stackEnv 2 (stackDebugger ⟨0x555555554000⟩) ⟨0x1139⟩ [0x555555555160] := by
  rintro ⟨frames, hframes, hlist⟩
  have hrun : returned (initBacktrace stackEnv 2 ⟨0x1139⟩) (stackDebugger ⟨0x555555554000⟩) =
      some (some [⟨⟨0x555555555160⟩, ⟨0⟩, none, none⟩,
        ⟨⟨0x1139⟩, ⟨0x7fffffffe000⟩, none, none⟩]) := by decide +kernel
  rw [hrun] at hframes
  cases hframes
  exact absurd hlist (by decide)

/-! ### Any stack -/

/-- The backtrace ends, with frames or without. -/
def BacktraceEnds (env : Env W) (d : Debugger W) (pc : DbgAddr) : Prop :=
  ∃ fuel frames, returned (initBacktrace env fuel pc) d = some frames

theorem returned_congr {α : Type} {x y : DbgM W α} {d d' : Debugger W} (h : x d = y d') :
    returned x d = returned y d' := by
  unfold returned
  rw [h]

theorem callerOf_eq_some {framePointer caller : Word}
    (h : callerOf read framePointer = some caller) : framePointer ≠ 0 ∧
      (∃ ret, read (framePointer + 8) = some ret) ∧ read framePointer = some caller := by
  unfold callerOf at h
  split at h
  · cases h
  · rename_i hne
    obtain ⟨ret, hret, hcaller⟩ := Option.bind_eq_some_iff.mp h
    exact ⟨hne, ⟨ret, hret⟩, hcaller⟩

/-- The fuel of the loop is the number of links it can follow. -/
theorem initBacktraceLoop_returns_iff (hstill : StandsStill env.pt still read regs) (fuel : Nat)
    (framePointer : Word) (frames : List CallLocation) {d : Debugger W} (hd : still d.tracee) :
    (∃ res, returned (initBacktraceLoop env fuel ⟨framePointer⟩ frames) d = some res) ↔
      Links.follow (callerOf read) fuel framePointer = none := by
  induction fuel generalizing framePointer frames d with
  | zero =>
      constructor
      · rintro ⟨res, hres⟩
        cases hres
      · intro h
        cases h
  | succ fuel ih =>
      rw [Links.follow]
      cases hcaller : callerOf read framePointer with
      | none =>
          refine ⟨fun _ => rfl, fun _ => ?_⟩
          by_cases hzero : framePointer = 0
          · rw [hzero, initBacktraceLoop_zero]
            exact ⟨some frames, rfl⟩
          · obtain ⟨d', hnone⟩ :=
              initBacktraceLoop_unreadable hstill fuel hzero hcaller frames hd
            exact ⟨none, by unfold returned; rw [hnone]⟩
      | some caller =>
          obtain ⟨hne, ⟨ret, hret⟩, hread⟩ := callerOf_eq_some hcaller
          obtain ⟨d', hd', hstep⟩ := initBacktraceLoop_step hstill fuel hne hret hread frames hd
          rw [returned_congr hstep, Option.bind_some]
          exact ih caller _ hd'

theorem initBacktrace_returns_iff (hstill : StandsStill env.pt still read regs) (fuel : Nat)
    {d : Debugger W} (hd : still d.tracee) (pc : DbgAddr) :
    (∃ res, returned (initBacktrace env fuel pc) d = some res) ↔
      ∀ rs, regs = some rs → Links.follow (callerOf read) fuel (rs .rbp) = none := by
  cases hregs : regs with
  | none =>
      obtain ⟨d', hnone⟩ := initBacktrace_of_no_regs hstill hregs fuel pc hd
      constructor
      · intro _ rs hrs
        cases hrs
      · intro _
        exact ⟨none, by unfold returned; rw [hnone]⟩
  | some rs =>
      obtain ⟨d', hd', hstart⟩ := initBacktrace_of_regs hstill hregs fuel pc hd
      rw [returned_congr hstart, initBacktraceLoop_returns_iff hstill _ _ _ hd']
      constructor
      · rintro hend _ ⟨⟩
        exact hend
      · intro hend
        exact hend rs rfl

/-- **A backtrace ends exactly if the saved frame pointers, as far as they can be followed,
never lead back to one that was met before.** -/
theorem backtraceEnds_iff (hstill : StandsStill env.pt still read regs) {d : Debugger W}
    (hd : still d.tracee) (pc : DbgAddr) :
    BacktraceEnds env d pc ↔
      ∀ rs, regs = some rs → Links.NeverReturns (callerOf read) (rs .rbp) := by
  unfold BacktraceEnds
  constructor
  · rintro ⟨fuel, hreturns⟩ rs hrs
    exact Links.neverReturns_of_ends
      ⟨fuel, (initBacktrace_returns_iff hstill fuel hd pc).mp hreturns rs hrs⟩
  · intro hnever
    refine ⟨Fintype.card Word, (initBacktrace_returns_iff hstill _ hd pc).mpr fun rs hrs => ?_⟩
    exact Links.follow_card_of_neverReturns (hnever rs hrs)

theorem backtraceEnds_stack : BacktraceEnds stackEnv (stackDebugger ⟨0⟩) ⟨0x555555555139⟩ :=
  (backtraceEnds_iff (stillPtrace_standsStill stackWord (some stackRegs)) trivial
    ⟨0x555555555139⟩).mpr fun rs hrs => by
      cases hrs
      exact Links.neverReturns_of_ends ⟨3, by decide⟩

/-- A frame pointer that points to itself is followed for good. -/
theorem backtraceEnds_fails_loop : ¬ BacktraceEnds
    (strippedEnv (stillPtrace (fun _ => some 0x7fffffffe000) (some stackRegs)))
    (stackDebugger ⟨0⟩) ⟨0x555555555139⟩ := by
  rintro ⟨fuel, hreturns⟩
  have hend := (initBacktrace_returns_iff (stillPtrace_standsStill _ _) fuel trivial _).mp
    hreturns stackRegs rfl
  have hloop : ∀ n, Links.follow (callerOf fun _ => some 0x7fffffffe000) n 0x7fffffffe000 =
      some 0x7fffffffe000 := by
    intro n
    induction n with
    | zero => rfl
    | succ n ih => exact ih
  exact nomatch (hloop fuel).symm.trans hend

end Spray
