/-
Stepping out of a function.

The return address is read through the frame pointer, which is the current function's only
while its frame is set up.  And a breakpoint at a return address stops any activation that
gets there.  What the step comes to is again the first breakpoint on the way.
-/
import Spray.Lib.Frames
import Spray.Proofs.SingleStep
import Spray.Proofs.StepOver
import Mathlib.Data.List.GetD

namespace Spray

open Triple Frames

/-! ### A tracee that keeps a frame pointer -/

/-- Memory at each position of a run. -/
def Run.memAt (run : Run) (initial : Memory 64) : Nat → Memory 64
  | 0 => initial
  | n + 1 => run.effect n (run.memAt initial n)

def Run.frameState (run : Run) (initial : Memory 64) (stack : Nat → List Activation)
    (stage : Nat → Stage) (n : Nat) : FrameState where
  pc := (run.pc n).getD 0
  rsp := run.regs n .rsp
  rbp := run.regs n .rbp
  mem := run.memAt initial n
  stack := stack n
  stage := stage n

/-- A run of code that keeps a frame pointer. -/
structure FrameRun extends Run where
  initial : Memory 64
  /-- The activations at each position. -/
  stack : Nat → List Activation
  stage : Nat → Stage
  /-- It begins outside of any function. -/
  begins : stack 0 = []
  ends : ∀ n, pc n = none → pc (n + 1) = none
  steps : ∀ n, pc (n + 1) ≠ none → FrameStep (toRun.frameState initial stack stage n)
    (toRun.frameState initial stack stage (n + 1))
  /-- Return addresses are not stored in the code. -/
  data : ∀ n, ∀ a ∈ stack n, ∀ i, i < 8 → ¬ code (a.slot + BitVec.ofNat 64 i)

namespace FrameRun

variable (F : FrameRun)

def state (n : Nat) : FrameState := F.frameState F.initial F.stack F.stage n

/-- The tracee's memory is what the run has made of it, under the traps. -/
def SameData (d : Debugger Runner) : Prop :=
  ∀ a, ¬ F.code a → d.tracee.mem a = F.memAt F.initial d.tracee.pos a

/-- The return address that is found through the frame pointer: the current activation's
while its frame is set up, and else its caller's. -/
def frameReturn (d : Debugger Runner) : Word :=
  match F.stage d.tracee.pos, F.stack d.tracee.pos with
  | .setUp, a :: _ => a.ret
  | _, _ :: b :: _ => b.ret
  | _, _ => Memory.readWord d.tracee.mem (F.regs d.tracee.pos .rbp + 8) 8

/-- Before it returns, and before it gets to a breakpoint of the user, the activation at
position `p` is at the address, or one it has called is. -/
def HitsEarly (user : RealAddr → Bool) (addr : Word) (p : Nat) : Prop :=
  ∃ j, p < j ∧ OnStack F.state p j ∧ F.pc j = some addr ∧
    ∀ i, p < i → i ≤ j → F.hits user i = false

/-- The activation at position `p` returns, and to no breakpoint of the user. -/
def ReturnsFreely (user : RealAddr → Bool) (p : Nat) : Prop :=
  ∃ q, Returns F.state p q ∧ F.pc (q + 1) ≠ none ∧
    ∀ i, p < i → i ≤ q + 1 → F.hits user i = false

/-- The breakpoints while the step goes on. -/
def during (user : RealAddr → Bool) (d : Debugger Runner) : RealAddr → Bool :=
  Function.update user ⟨F.frameReturn d⟩ true

end FrameRun

/-- If the current activation, `a`, returns before there is a breakpoint of the user, that is
where the tracee stops; and it stops nowhere else but on one of these. -/
structure StepsOut (env : Env Runner) (F : FrameRun) (user : RealAddr → Bool) (a : Activation)
    (d : Debugger Runner) : Prop where
  stops : ∀ q, Returns F.state d.tracee.pos q → F.pc (q + 1) ≠ none →
    (∀ i, d.tracee.pos < i → i < q + 1 → F.hits user i = false) →
    ∃ n, ∀ limit fuel, n ≤ limit → n ≤ fuel →
      ∃ d', stepOut (env.onRun F.toRun limit) fuel d = .ok .ok d' ∧ F.StoppedOn (q + 1) d' ∧
        d'.tracee.pc = a.ret
  only : ∀ limit fuel res d' j, stepOut (env.onRun F.toRun limit) fuel d = .ok res d' →
    F.StoppedOn j d' → F.hits user j = true ∨ ∃ q, j = q + 1 ∧ Returns F.state d.tracee.pos q

variable {F : FrameRun} {run : Run} {user : RealAddr → Bool} {env : Env Runner} {limit : Nat}
  {d : Debugger Runner} {a : Activation} {rest : List Activation}

theorem FrameRun.pc_ne_none {i j : Nat} (h : F.pc j ≠ none) (hle : i ≤ j) : F.pc i ≠ none := by
  induction j, hle using Nat.le_induction with
  | base => exact h
  | succ j hle ih => exact ih fun hc => h (F.ends j hc)

theorem FrameRun.step {n : Nat} (h : F.pc (n + 1) ≠ none) :
    FrameStep (F.state n) (F.state (n + 1)) := F.steps n h

/-- **At every position of the run the frames are in order.** -/
theorem FrameRun.framed {n : Nat} (h : F.pc n ≠ none) : Framed (F.state n) := by
  induction n with
  | zero => exact framed_of_empty F.begins
  | succ n ih => exact (ih (F.pc_ne_none h (Nat.le_succ n))).step (F.step h)

theorem FrameRun.pc_of_returns {p q : Nat} (h : Returns F.state p q) (hpc : F.pc (q + 1) ≠ none)
    (hstack : F.stack p = a :: rest) : F.pc (q + 1) = some a.ret := by
  have hret := h.pc (F.framed (F.pc_ne_none hpc (Nat.le_succ q))) (F.step hpc) hstack
  obtain ⟨b, hb⟩ := Option.ne_none_iff_exists'.mp hpc
  have hstate : (F.state (q + 1)).pc = b := by
    show (F.pc (q + 1)).getD 0 = b
    rw [hb]
    rfl
  rw [hb, ← hstate, hret]

/-! ### The breakpoint for the step -/

/-- A return address is the same in the memory the debugger reads. -/
theorem FrameRun.SameData.word_eq (h : F.SameData d) {b : Activation}
    (hb : b ∈ F.stack d.tracee.pos) :
    Memory.readWord d.tracee.mem b.slot 8 = word (F.state d.tracee.pos).mem b.slot :=
  Memory.readWord_congr fun i hi => h _ (F.data _ b hb i hi)

theorem FrameRun.frameReturn_eq (h : Ready F.toRun user d) (hdata : F.SameData d) :
    Memory.readWord d.tracee.mem (F.regs d.tracee.pos .rbp + 8) 8 = F.frameReturn d := by
  have hframed := F.framed h.pc_ne_none
  unfold FrameRun.frameReturn
  split
  · rename_i a rest hstage hstack
    obtain ⟨hslot, hret⟩ := hframed.return_of_setUp hstack hstage
    have ha : a ∈ F.stack d.tracee.pos := hstack ▸ List.mem_cons_self
    rw [show F.regs d.tracee.pos .rbp + 8 = a.slot from hslot, hdata.word_eq ha]
    rw [hslot] at hret
    exact hret
  · rename_i a b rest hstack hstage
    obtain ⟨hslot, hret⟩ := hframed.return_of_not_setUp hstack hstage
    have hb : b ∈ F.stack d.tracee.pos := hstack ▸ List.mem_cons_of_mem _ List.mem_cons_self
    rw [show F.regs d.tracee.pos .rbp + 8 = b.slot from hslot, hdata.word_eq hb]
    rw [hslot] at hret
    exact hret
  · rfl

theorem FrameRun.hits_during (j : Nat) :
    F.hits (F.during user d) j = true ↔
      F.hits user j = true ∨ F.pc j = some (F.frameReturn d) := by
  unfold Run.hits FrameRun.during
  cases F.pc j with
  | none => simp
  | some b =>
      by_cases hb : b = F.frameReturn d
      · simp [hb]
      · simp [hb]

theorem FrameRun.hits_during_eq_false {j : Nat} :
    F.hits (F.during user d) j = false ↔
      F.hits user j = false ∧ F.pc j ≠ some (F.frameReturn d) := by
  rw [← Bool.not_eq_true, F.hits_during, not_or, Bool.not_eq_true]

/-- **The step out ends at the first breakpoint on the way.** -/
theorem stepOut_outcome (hpt : env.pt = F.ptrace limit) (h : Ready F.toRun user d)
    (hdata : F.SameData d)
    (hquiet : F.Undisturbed (F.during user d) d.tracee.pos d.tracee.winch) (fuel : Nat) :
    Holds (· = d) (stepOut env fuel) (Outcome F.toRun (F.during user d) d.tracee.pos)
      (fun _ => FallsShort F.toRun (F.during user d) limit fuel d.tracee.winch d.tracee.pos) := by
  obtain ⟨info, hstart⟩ := h.at_fresh
  have hset := setReturnAddressBreakpoint_at hpt
    (fun _ => FallsShort F.toRun (F.during user d) limit fuel d.tracee.winch d.tracee.pos) hstart
  rw [F.frameReturn_eq h hdata] at hset
  refine Holds.bind hset fun r => ?_
  refine Holds.assoc (Holds.bind
    (continueAndWait_outcome hpt h.pc_ne_none hquiet fuel) fun res => ?_)
  exact Holds.bind (Outcome.remove hpt _ res r.1 r.2) fun _ => Holds.pure fun _ => id

/-! ### Where that is -/

/-- While it is live, the activation has not just returned. -/
theorem FrameRun.not_returns_of_onStack {p q j : Nat} (hstack : F.stack p = a :: rest)
    (hlive : OnStack F.state p j) (hreturns : Returns F.state p q) (hle : q + 1 ≤ j) : False := by
  obtain ⟨hpq, -, hnext⟩ := hreturns
  refine (hlive.mono hle).not_returned hpq hstack (hnext.trans ?_)
  show (F.stack p).tail = rest
  rw [hstack, List.tail_cons]

/-- A breakpoint that is hit early is where the step out stops. -/
theorem StepsOut.not_hitsEarly (h : Ready F.toRun user d) (hdata : F.SameData d)
    (hquiet : F.Undisturbed (F.during user d) d.tracee.pos d.tracee.winch)
    (hstack : F.stack d.tracee.pos = a :: rest) (hsteps : StepsOut env F user a d) :
    ¬ F.HitsEarly user (F.frameReturn d) d.tracee.pos := by
  rintro ⟨j, hlt, hlive, hpc, hclear⟩
  have hhits : F.hits (F.during user d) j = true := (F.hits_during j).mpr (.inr hpc)
  have hne : F.pc j ≠ none := by
    rw [hpc]
    exact Option.some_ne_none _
  obtain ⟨q, hq⟩ := Run.firstHit_of_hits hlt hhits fun i hlo hhi =>
    F.pc_ne_none hne (Nat.le_of_lt hhi)
  have hqj : q ≤ j := by
    by_contra hgt
    exact Run.ne_of_hits (hq.2.2 j hlt (by omega)) hhits rfl
  have hpt : (env.onRun F.toRun (q + 1)).pt = F.ptrace (q + 1) := rfl
  obtain ⟨d', hr, hstop⟩ := Outcome.stops
    (stepOut_outcome hpt h hdata hquiet (d.tracee.winch.length + 1)) hq (Nat.le_refl _)
    (Nat.lt_succ_self _)
  rcases hsteps.only _ _ _ d' q hr hstop with huser | ⟨r, rfl, hreturns⟩
  · exact absurd ((hclear q hq.1 hqj).symm.trans huser) (by decide)
  · exact F.not_returns_of_onStack hstack hlive hreturns hqj

/-- The activation returns to the address the breakpoint has been set at. -/
theorem StepsOut.frameReturn_eq (h : Ready F.toRun user d) (hdata : F.SameData d)
    (hquiet : F.Undisturbed (F.during user d) d.tracee.pos d.tracee.winch)
    (hstack : F.stack d.tracee.pos = a :: rest) (hsteps : StepsOut env F user a d)
    (hfreely : F.ReturnsFreely user d.tracee.pos) :
    F.frameReturn d = a.ret := by
  obtain ⟨q, hreturns, hpc, hclear⟩ := hfreely
  obtain ⟨n, hn⟩ := hsteps.stops q hreturns hpc fun i hlo hhi => hclear i hlo (by omega)
  obtain ⟨d', hr, hstop, -⟩ := hn n n (Nat.le_refl n) (Nat.le_refl n)
  have hpt : (env.onRun F.toRun n).pt = F.ptrace n := rfl
  have hop := (stepOut_outcome hpt h hdata hquiet n).of_ok rfl hr
  obtain ⟨hlt, hhits, -⟩ := Outcome.firstHit hop hstop
  rcases (F.hits_during (q + 1)).mp hhits with huser | haddr
  · exact absurd ((hclear (q + 1) hlt (Nat.le_refl _)).symm.trans huser) (by decide)
  · exact Option.some.inj (haddr.symm.trans (F.pc_of_returns hreturns hpc hstack))

/-- The first breakpoint on the way is where the activation returns. -/
theorem FrameRun.firstHit_of_returns
    (hstack : F.stack d.tracee.pos = a :: rest)
    (hearly : ¬ F.HitsEarly user (F.frameReturn d) d.tracee.pos)
    (hfreely : F.ReturnsFreely user d.tracee.pos → F.frameReturn d = a.ret) {q : Nat}
    (hreturns : Returns F.state d.tracee.pos q) (hpc : F.pc (q + 1) ≠ none)
    (hclear : ∀ i, d.tracee.pos < i → i < q + 1 → F.hits user i = false) :
    F.FirstHit (F.during user d) d.tracee.pos (q + 1) := by
  refine ⟨Nat.lt_succ_of_le hreturns.1, (F.hits_during _).mpr ?_, fun i hlo hhi => ?_⟩
  · cases huser : F.hits user (q + 1) with
    | true => exact .inl rfl
    | false =>
        refine .inr ((F.pc_of_returns hreturns hpc hstack).trans (congrArg some ?_))
        refine (hfreely ⟨q, hreturns, hpc, fun i hlo hhi => ?_⟩).symm
        rcases Nat.eq_or_lt_of_le hhi with rfl | hlt
        · exact huser
        · exact hclear i hlo hlt
  · refine Run.plain_of_not_hits (F.pc_ne_none hpc (by omega)) ?_
    refine F.hits_during_eq_false.mpr ⟨hclear i hlo hhi, fun haddr => hearly ?_⟩
    exact ⟨i, hlo, hreturns.2.1.mono (by omega), haddr, fun k hk hki => hclear k hk (by omega)⟩

/-- The first breakpoint on the way is one of the user's, or where the activation returns. -/
theorem FrameRun.returns_of_firstHit
    (hstack : F.stack d.tracee.pos = a :: rest)
    (hearly : ¬ F.HitsEarly user (F.frameReturn d) d.tracee.pos)
    (hfreely : F.ReturnsFreely user d.tracee.pos → F.frameReturn d = a.ret) {j : Nat}
    (hj : F.FirstHit (F.during user d) d.tracee.pos j) (hstop : F.pc j ≠ none) :
    F.hits user j = true ∨ ∃ q, j = q + 1 ∧ Returns F.state d.tracee.pos q := by
  obtain ⟨hlt, hhits, hplain⟩ := hj
  have hoff : ∀ i, d.tracee.pos < i → i < j →
      F.hits user i = false ∧ F.pc i ≠ some (F.frameReturn d) := fun i hlo hhi =>
    F.hits_during_eq_false.mp (Run.not_hits_of_plain (hplain i hlo hhi))
  cases huser : F.hits user j with
  | true => exact .inl rfl
  | false =>
      have hclear : ∀ i, d.tracee.pos < i → i ≤ j → F.hits user i = false := by
        intro i hlo hhi
        rcases Nat.eq_or_lt_of_le hhi with rfl | hlt
        · exact huser
        · exact (hoff i hlo hlt).1
      have hpc : F.pc j = some (F.frameReturn d) := by
        rcases (F.hits_during j).mp hhits with hon | haddr
        · exact absurd (huser.symm.trans hon) (by decide)
        · exact haddr
      have hle : d.tracee.pos ≤ j := Nat.le_of_lt hlt
      have hsteps : ∀ i, d.tracee.pos ≤ i → i < j → FrameStep (F.state i) (F.state (i + 1)) :=
        fun i _ hi => F.step (F.pc_ne_none hstop hi)
      rcases onStack_or_returns hstack hle hsteps with hlive | ⟨q, hq, hreturns⟩
      · exact absurd ⟨j, hlt, hlive, hpc, hclear⟩ hearly
      · have hnext := F.pc_ne_none hstop (Nat.succ_le_of_lt hq)
        have haddr := hfreely ⟨q, hreturns, hnext, fun i hlo hhi => hclear i hlo (by omega)⟩
        have hret := F.pc_of_returns hreturns hnext hstack
        -- It would have stopped where the activation returned.
        rcases Nat.eq_or_lt_of_le (Nat.succ_le_of_lt hq) with rfl | hgt
        · exact .inr ⟨q, rfl, hreturns⟩
        · have hpq := hreturns.1
          exact absurd (haddr ▸ hret) (hoff (q + 1) (by omega) hgt).2

/-- **Stepping out gets to where the current activation returns exactly if the breakpoint that
is set for it is at that address, and is not hit by the activation or one it calls before.
The breakpoint is at the caller's return address unless the frame is set up.** -/
theorem stepsOut_iff (env : Env Runner) (h : Ready F.toRun user d) (hdata : F.SameData d)
    (hquiet : F.Undisturbed (F.during user d) d.tracee.pos d.tracee.winch)
    (hstack : F.stack d.tracee.pos = a :: rest) :
    StepsOut env F user a d ↔
      ¬ F.HitsEarly user (F.frameReturn d) d.tracee.pos ∧
        (F.ReturnsFreely user d.tracee.pos → F.frameReturn d = a.ret) := by
  constructor
  · intro hsteps
    exact ⟨hsteps.not_hitsEarly h hdata hquiet hstack, hsteps.frameReturn_eq h hdata hquiet hstack⟩
  · rintro ⟨hearly, hfreely⟩
    refine ⟨fun q hreturns hpc hclear => ?_, fun limit fuel res d' j hr hstop => ?_⟩
    · have hq := F.firstHit_of_returns hstack hearly hfreely hreturns hpc hclear
      refine ⟨d.tracee.winch.length + q + 2, fun limit fuel hlimit hfuel => ?_⟩
      have hpt : (env.onRun F.toRun limit).pt = F.ptrace limit := rfl
      have hop := stepOut_outcome hpt h hdata hquiet fuel
      obtain ⟨d', hr, hstop⟩ := Outcome.stops hop hq (by omega) (by omega)
      refine ⟨d', hr, hstop, Option.some.inj (hstop.2.2.symm.trans ?_)⟩
      exact F.pc_of_returns hreturns hpc hstack
    · have hpt : (env.onRun F.toRun limit).pt = F.ptrace limit := rfl
      have hop := (stepOut_outcome hpt h hdata hquiet fuel).of_ok rfl hr
      refine F.returns_of_firstHit hstack hearly hfreely (Outcome.firstHit hop hstop) ?_
      rw [hstop.2.2]
      exact Option.some_ne_none _

/-! ### One function calls another -/

/-- A function at `0x1000`, called from `0x2000`, calls one at `0x1100` that does nothing. -/
def nestPcs : List Word :=
  [0x2000, 0x1000, 0x1001, 0x1004, 0x1100, 0x1101, 0x1104, 0x1105, 0x1009, 0x100a, 0x2005]

/-- The stack pointer and the frame pointer. -/
def nestRegs : List (Word × Word) :=
  [(0x8000, 0), (0x7ff8, 0), (0x7ff0, 0), (0x7ff0, 0x7ff0), (0x7fe8, 0x7ff0), (0x7fe0, 0x7ff0),
    (0x7fe0, 0x7fe0), (0x7fe8, 0x7ff0), (0x7ff0, 0x7ff0), (0x7ff8, 0), (0x8000, 0)]

/-- Where on the stack an instruction stores a word, and which. -/
def nestStore : Nat → Option (Word × Word)
  | 0 => some (0x7ff8, 0x2005)
  | 1 => some (0x7ff0, 0)
  | 3 => some (0x7fe8, 0x1009)
  | 4 => some (0x7fe0, 0x7ff0)
  | _ => none

theorem nestStore_above {n : Nat} {x y : Word} (h : nestStore n = some (x, y)) :
    0x7fe0 ≤ x ∧ x < 0x8000 := by
  unfold nestStore at h
  split at h
  · cases h; decide
  · cases h; decide
  · cases h; decide
  · cases h; decide
  · cases h

def nestRun : Run where
  pc n := nestPcs[n]?
  effect n m := ((nestStore n).map fun (a, x) => store m a x).getD m
  regs n := Function.update (fun _ => (nestRegs.getD n 0).1) .rbp (nestRegs.getD n 0).2
  code a := 0x1000 ≤ a ∧ a < 0x3000
  image _ := nop
  in_code n a h := by
    have hall : nestPcs.all (fun a => 0x1000 ≤ a ∧ a < 0x3000) = true := by decide
    exact of_decide_eq_true (List.all_eq_true.mp hall a (List.mem_of_getElem? h))
  keeps_code n m a ha := by
    cases hst : nestStore n with
    | none => rfl
    | some xy =>
        obtain ⟨x, y⟩ := xy
        obtain ⟨hlo, hhi⟩ := nestStore_above hst
        show store m x y a = m a
        unfold store
        rw [Memory.writeWord_apply, if_neg (by bv_omega)]
  no_trap _ _ _ := by decide

def nestCaller : Activation := ⟨0x7ff8, 0x2005, 0⟩

def nestCallee : Activation := ⟨0x7fe8, 0x1009, 0x7ff0⟩

def nestStacks : List (List Activation) :=
  [[], [nestCaller], [nestCaller], [nestCaller], [nestCallee, nestCaller],
    [nestCallee, nestCaller], [nestCallee, nestCaller], [nestCallee, nestCaller], [nestCaller],
    [nestCaller], []]

def nestStages : List Stage :=
  [.setUp, .entered, .pushed, .setUp, .entered, .pushed, .setUp, .popped, .setUp, .popped, .setUp]

def nestMemory : Memory 64 := fun a => if 0x1000 ≤ a ∧ a < 0x3000 then nop else 0

def nestState : Nat → FrameState :=
  nestRun.frameState nestMemory (nestStacks.getD · []) (nestStages.getD · .setUp)

theorem nestRun_steps {n : Nat} (h : nestRun.pc (n + 1) ≠ none) :
    FrameStep (nestState n) (nestState (n + 1)) := by
  have hcaller : word (nestState 8).mem (nestState 8).rbp = 0 := by decide +kernel
  have hcallee : word (nestState 6).mem (nestState 6).rbp = 0x7ff0 := by decide +kernel
  have hreturn : word (nestState 7).mem (nestState 7).rsp = 0x1009 := by decide +kernel
  have hleave : word (nestState 9).mem (nestState 9).rsp = 0x2005 := by decide +kernel
  match n with
  | 0 => exact .call 0x1000 0x2005 rfl (by decide)
  | 1 => exact .pushRbp 0x1001 rfl
  | 2 => exact .movRbp 0x1004 rfl
  | 3 => exact .call 0x1100 0x1009 rfl (by decide)
  | 4 => exact .pushRbp 0x1101 rfl
  | 5 => exact .movRbp 0x1104 rfl
  | 6 =>
      have hstep := FrameStep.popRbp (s := nestState 6) 0x1105 rfl (by nofun)
      rw [hcallee] at hstep
      exact hstep
  | 7 =>
      have hstep := FrameStep.ret (s := nestState 7) (a := nestCallee) rfl rfl
      rw [hreturn] at hstep
      exact hstep
  | 8 =>
      have hstep := FrameStep.popRbp (s := nestState 8) 0x100a rfl (by nofun)
      rw [hcaller] at hstep
      exact hstep
  | 9 =>
      have hstep := FrameStep.ret (s := nestState 9) (a := nestCaller) rfl rfl
      rw [hleave] at hstep
      exact hstep
  | n + 10 =>
      refine absurd ?_ h
      exact List.getElem?_eq_none (by simp [nestPcs])

def nestFrames : FrameRun where
  toRun := nestRun
  initial := nestMemory
  stack := (nestStacks.getD · [])
  stage := (nestStages.getD · .setUp)
  begins := rfl
  ends n h := by
    have hle := List.getElem?_eq_none_iff.mp h
    exact List.getElem?_eq_none (by omega)
  steps n h := nestRun_steps h
  data n a ha i hi := by
    have hall : ∀ stack ∈ nestStacks, ∀ a ∈ stack, ∀ i, i < 8 →
        ¬ (0x1000 ≤ a.slot + BitVec.ofNat 64 i ∧ a.slot + BitVec.ofNat 64 i < 0x3000) := by
      decide +kernel
    by_cases hn : n < nestStacks.length
    · rw [List.getD_eq_getElem _ _ hn] at ha
      exact hall _ (List.getElem_mem hn) a ha i hi
    · rw [List.getD_eq_default _ _ (Nat.le_of_not_lt hn)] at ha
      cases ha

/-- Stopped at position `p`. -/
def nestStopped (p : Nat) (pc : Word) : Debugger Runner where
  breakpoints := initBreakpoints
  tracee := ⟨p, pc, nestRun.memAt nestMemory p, .stopped ⟨.SIGTRAP, .TRAP_TRACE⟩, [], []⟩
  loadAddress := ⟨0⟩
  output := []

def nestEnv : Env Runner := strippedEnv (nestRun.ptrace 0)

/-- A run does not change its code. -/
theorem Run.memAt_code {initial : Memory 64} {b : Word} (hcode : run.code b) (n : Nat) :
    run.memAt initial n b = initial b := by
  induction n with
  | zero => rfl
  | succ n ih => exact (run.keeps_code n _ b hcode).trans ih

theorem nestStopped_ready {p : Nat} {pc : Word} (h : nestRun.pc p = some pc) :
    Ready nestFrames.toRun (fun _ => false) (nestStopped p pc) where
  follows :=
    { overlay := ⟨fun b hb => (Run.memAt_code hb p).trans (if_pos hb), fun _ _ _ h => by cases h⟩
      standing := fun _ => rfl
      place := h }
  stopped := rfl
  fresh := rfl

/-- In the called function's body, it is the called function that is left. -/
theorem stepsOut_body :
    StepsOut nestEnv nestFrames (fun _ => false) nestCallee (nestStopped 6 0x1104) := by
  have hstack : nestFrames.stack 6 = [nestCallee, nestCaller] := rfl
  refine (stepsOut_iff nestEnv (nestStopped_ready rfl) (fun _ _ => rfl) Run.undisturbed_nil
    hstack).mpr ⟨?_, fun _ => rfl⟩
  rintro ⟨j, hlt, hlive, hpc, -⟩
  -- The address is where the call returns to, and is executed there only.
  rcases Nat.lt_or_ge j 8 with hj | hj
  · obtain rfl : j = 7 := Nat.le_antisymm (Nat.le_of_lt_succ hj) hlt
    exact absurd hpc (by decide)
  · have hsuffix := hlive 8 (by decide) hj
    exact absurd hsuffix.length_le (by decide)

/-- Before its first instruction, it is the caller that is left as well. -/
theorem stepsOut_fails_entry :
    Ready nestFrames.toRun (fun _ => false) (nestStopped 4 0x1100) ∧
      nestFrames.SameData (nestStopped 4 0x1100) ∧
      nestFrames.stack 4 = [nestCallee, nestCaller] ∧
      ¬ StepsOut nestEnv nestFrames (fun _ => false) nestCallee (nestStopped 4 0x1100) := by
  refine ⟨nestStopped_ready rfl, fun _ _ => rfl, rfl, fun h => ?_⟩
  have hrun : returned (stepOut (nestEnv.onRun nestRun 16) 16) (nestStopped 4 0x1100) =
        some .ok ∧
      (finalState (stepOut (nestEnv.onRun nestRun 16) 16)
        (nestStopped 4 0x1100)).tracee.isStopped = true ∧
      (finalState (stepOut (nestEnv.onRun nestRun 16) 16) (nestStopped 4 0x1100)).tracee.pos = 10 ∧
      nestRun.pc 10 = some (finalState (stepOut (nestEnv.onRun nestRun 16) 16)
        (nestStopped 4 0x1100)).tracee.pc := by
    decide +kernel
  obtain ⟨hreturned, hstop⟩ := hrun
  rcases h.only 16 16 .ok _ 10 (eq_ok_of_returned hreturned) hstop with huser | ⟨q, hq, hreturns⟩
  · exact absurd huser (by decide)
  · obtain rfl : q = 9 := by omega
    have hstack : ([] : List Activation) = [nestCaller] := hreturns.2.2
    cases hstack

end Spray
