/-
Stepping over calls.

The breakpoints a line is stepped over with say at which addresses to stop, and not in
which frame.  A function that calls itself gets to them again, deeper than where the step
began.  Up to the first breakpoint the tracee is only continued, so all there is to show is
which breakpoints are enabled meanwhile.
-/
import Spray.Proofs.StepOverBreakpoints
import Spray.Proofs.Undisturbed

namespace Spray

open Triple

/-! ### Which breakpoints are set -/

/-- Where breakpoints are set for the other lines of a function. -/
def otherLines (loadAddress : RealAddr) (skipLine : Nat) (lines : List LineEntry) :
    RealAddr → Bool := fun a =>
  lines.any fun line => line.ln ≠ skipLine && lineAddr loadAddress line = a

/-- What the user has set, and what has been set for the step. -/
def both (user others : RealAddr → Bool) : RealAddr → Bool := fun a => user a || others a

/-- Memory, with a trap for each breakpoint the user has not set. -/
def withTraps (user enabled : RealAddr → Bool) (m : Memory 64) : Memory 64 := fun a =>
  if enabled ⟨a⟩ && !user ⟨a⟩ then int3 else m a

/-- The return address of the current frame, read when the other lines have their
breakpoints. -/
def returnAddress (run : Run) (user others : RealAddr → Bool) (t : Runner) : RealAddr :=
  ⟨Memory.readWord (withTraps user (both user others) t.mem) (run.regs t.pos .rbp + 8) 8⟩

/-- Where breakpoints are set to step over a line. -/
def transient (run : Run) (user others : RealAddr → Bool) (t : Runner) : RealAddr → Bool :=
  fun a => others a || a = returnAddress run user others t

variable {run : Run} {user others enabled : RealAddr → Bool} {env : Env Runner} {limit fuel p : Nat}
  {info : SigInfo} {m : Memory 64} {d : Debugger Runner} {loadAddress : RealAddr}
  {skipLine : Nat} {lines : List LineEntry} {line : LineEntry}

theorem otherLines_snoc (a : RealAddr) :
    otherLines loadAddress skipLine (lines ++ [line]) a =
      (otherLines loadAddress skipLine lines a ||
        (line.ln ≠ skipLine && lineAddr loadAddress line = a)) := by
  simp [otherLines]

/-- Some of the breakpoints for a step have been set, while the tracee is stopped. -/
structure Marking (run : Run) (user : RealAddr → Bool) (m : Memory 64) (info : SigInfo) (p : Nat)
    (enabled : RealAddr → Bool) (d : Debugger Runner) : Prop where
  stopped : At run (· = []) enabled (.stopped info) p [] d
  mem : d.tracee.mem = withTraps user enabled m
  keeps : ∀ a, user a = true → enabled a = true

/-- None have been set yet. -/
theorem Ready.marking (h : Ready run user d) (hwinch : d.tracee.winch = []) :
    ∃ info, Marking run user d.tracee.mem info d.tracee.pos user d := by
  obtain ⟨info, hat⟩ := h.at_fresh
  rw [hwinch] at hat
  refine ⟨info, hat, ?_, fun _ => id⟩
  funext a
  simp [withTraps]

/-- A new breakpoint is a trap in memory, and nothing else there changes. -/
theorem At.enable_mem {R : List (Memory 64) → Prop} {ws : List (Option Nat)}
    (hpt : env.pt = run.ptrace limit) (h : At run R enabled (.stopped info) p ws d)
    {addr : RealAddr} (hoff : enabled addr = false) :
    (enableBreakpoint env.pt addr d.toStore).2.tracee.mem =
      Function.update d.tracee.mem addr.value int3 := by
  have hanswers : Answers env.pt d.tracee := hpt ▸ run_answers (Runner.isStopped_of h.state)
  have hlaws : MemoryLaws env.pt Runner.mem := hpt ▸ run_memoryLaws
  rcases enableBreakpoint_cases hlaws addr d.toStore with
    ⟨_, hsaved, _⟩ | ⟨_, _, hpatched⟩ | ⟨herr, _⟩
  · have hon := lookupBreakpoint_of_saved hsaved
    rw [h.follows.standing, hoff] at hon
    cases hon
  · exact hpatched.mem
  · rw [enableBreakpoint_answered addr hanswers] at herr
    cases herr

/-- A breakpoint that was not set before is set. -/
theorem Marking.enable (hpt : env.pt = run.ptrace limit) {addr : RealAddr}
    (h : Marking run user m info p enabled d) (hoff : enabled addr = false) :
    Marking run user m info p (Function.update enabled addr true)
      { d with toStore := (enableBreakpoint env.pt addr d.toStore).2 } := by
  have huser : user addr = false := by
    rw [← Bool.not_eq_true]
    intro hon
    rw [h.keeps addr hon] at hoff
    cases hoff
  refine ⟨At.enable hpt (fun _ _ => False) addr d h.stopped,
    (At.enable_mem hpt h.stopped hoff).trans ?_, fun a ha => ?_⟩
  · rw [h.mem]
    funext a
    unfold withTraps
    by_cases ha : a = addr.value
    · simp [ha, huser]
    · have hne : (⟨a⟩ : RealAddr) ≠ addr := by
        rintro rfl
        exact ha rfl
      simp [ha, hne]
  · by_cases haddr : a = addr
    · simp [haddr]
    · simp [haddr, h.keeps a ha]

theorem both_snoc_set (hne : line.ln ≠ skipLine) :
    both user (otherLines loadAddress skipLine (lines ++ [line])) =
      Function.update (both user (otherLines loadAddress skipLine lines))
        (lineAddr loadAddress line) true := by
  funext a
  unfold both
  rw [otherLines_snoc]
  by_cases ha : a = lineAddr loadAddress line
  · simp [ha, hne]
  · simp [ha, Ne.symm ha]

theorem both_snoc_skip (h : line.ln = skipLine ∨
      both user (otherLines loadAddress skipLine lines) (lineAddr loadAddress line) = true) :
    both user (otherLines loadAddress skipLine (lines ++ [line])) =
      both user (otherLines loadAddress skipLine lines) := by
  funext a
  unfold both at h ⊢
  rw [otherLines_snoc]
  by_cases ha : a = lineAddr loadAddress line
  · rcases h with hln | hon
    · simp [hln]
    · rw [ha, ← Bool.or_assoc, hon, Bool.true_or]
  · simp [Ne.symm ha]

theorem callbackSetDwarfLineBreakpoint_marking (hpt : env.pt = run.ptrace limit)
    (H : Halt → Debugger Runner → Prop) (toDel : List RealAddr) (line : LineEntry) :
    Holds (Marking run user m info p (both user (otherLines loadAddress skipLine lines)))
      (callbackSetDwarfLineBreakpoint env loadAddress skipLine toDel line)
      (fun _ => Marking run user m info p
        (both user (otherLines loadAddress skipLine (lines ++ [line])))) H := by
  intro d h
  rw [callbackSetDwarfLineBreakpoint_run]
  have hstanding := h.stopped.follows.standing (lineAddr loadAddress line)
  by_cases hset : skipLine ≠ line.ln ∧ !lookupBreakpoint d.breakpoints (lineAddr loadAddress line)
  · rw [if_pos hset, both_snoc_set (Ne.symm hset.1)]
    refine h.enable hpt ?_
    rw [← hstanding]
    simpa using hset.2
  · rw [if_neg hset, both_snoc_skip]
    · exact h
    · rw [← hstanding]
      by_cases hln : line.ln = skipLine
      · exact .inl hln
      · refine .inr ?_
        simpa [Ne.symm hln] using hset

variable {func : DebugSymbol} {pos : Position} {filepath : String}

theorem both_none (loadAddress : RealAddr) (skipLine : Nat) :
    both user (otherLines loadAddress skipLine []) = user := by
  funext a
  exact Bool.or_false (user a)

/-- The other lines of the function have their breakpoints. -/
theorem setStepOverBreakpoints_marking (hpt : env.pt = run.ptrace limit)
    (H : Halt → Debugger Runner → Prop) (h : Marking run user m info p user d)
    (hpos : symPosition func env.info = some pos)
    (hpath : symFilepath func env.info = some filepath) :
    Holds (· = d) (setStepOverBreakpoints env func)
      (fun r s => ∃ toDel, r = some toDel ∧ Marking run user m info p (both user (otherLines
        d.loadAddress pos.line (env.info.dbg.sdForEachLine (symName func) filepath))) s) H := by
  unfold setStepOverBreakpoints
  rw [hpos, hpath]
  rintro d rfl
  have hfold := Holds.foldlM_append
    (I := fun lines _ => Marking run user m info p
      (both user (otherLines d.loadAddress pos.line lines)))
    (fun lines toDel line => callbackSetDwarfLineBreakpoint_marking hpt H toDel line)
    (env.info.dbg.sdForEachLine (symName func) filepath) [] []
  rw [both_none, List.nil_append] at hfold
  exact (hfold.conseq (fun _ => id) (fun toDel s hs => ⟨toDel, rfl, hs⟩) (fun _ _ => id)).map d h

theorem both_transient {t : Runner} {a : RealAddr} (ha : returnAddress run user others t = a) :
    both user (transient run user others t) = Function.update (both user others) a true := by
  funext b
  unfold both transient
  rw [ha]
  by_cases hb : b = a
  · simp [hb]
  · simp [hb]

theorem getRegisterValue_of_stopped (hpt : env.pt = run.ptrace limit)
    (h : d.tracee.state = .stopped info) {reg : X86Reg} (hreg : reg ≠ .rip) :
    request (getRegisterValue env.pt reg) d = .ok (some (run.regs d.tracee.pos reg)) d := by
  unfold request getRegisterValue ptReadRegisters
  rw [hpt]
  simp [Run.ptrace, Runner.isStopped_of h, hreg]

theorem readMemory_of_stopped (hpt : env.pt = run.ptrace limit)
    (h : d.tracee.state = .stopped info) (addr : RealAddr) :
    request (ptReadMemory env.pt addr) d =
      .ok (some (Memory.readWord d.tracee.mem addr.value 8)) d := by
  unfold request ptReadMemory
  rw [hpt]
  simp [Run.ptrace, Runner.isStopped_of h]

theorem At.enableUnlessSet {R : List (Memory 64) → Prop} {ws : List (Option Nat)}
    (hpt : env.pt = run.ptrace limit) (H : Halt → Debugger Runner → Prop) (addr : RealAddr) :
    Holds (At run R enabled (.stopped info) p ws)
      (do
        if lookupBreakpoint (← get).breakpoints addr then return (false, addr)
        else
          let _ ← onStore (enableBreakpoint env.pt addr)
          return (true, addr))
      (fun _ => At run R (Function.update enabled addr true) (.stopped info) p ws) H := by
  apply Holds.get_bind
  intro d h
  apply Holds.ite
  · intro hon
    rw [h.follows.standing] at hon
    rw [← hon, Function.update_eq_self]
    exact Holds.pure fun _ => id
  · intro _
    exact Holds.bind (At.enable hpt H addr) fun _ => Holds.pure fun _ => id

/-- The word above the one the frame pointer points to gets a breakpoint. -/
theorem setReturnAddressBreakpoint_at {R : List (Memory 64) → Prop} {ws : List (Option Nat)}
    (hpt : env.pt = run.ptrace limit) (H : Halt → Debugger Runner → Prop)
    (h : At run R enabled (.stopped info) p ws d) :
    Holds (· = d) (setReturnAddressBreakpoint env)
      (fun _ => At run R
        (Function.update enabled
          ⟨Memory.readWord d.tracee.mem (run.regs d.tracee.pos .rbp + 8) 8⟩ true)
        (.stopped info) p ws) H := by
  rintro s rfl
  unfold setReturnAddressBreakpoint
  rw [bind_run (getRegisterValue_of_stopped hpt h.state (by decide))]
  dsimp only
  rw [bind_run (readMemory_of_stopped hpt h.state _)]
  exact At.enableUnlessSet hpt H _ s h

/-- The return address has its breakpoint. -/
theorem setReturnAddressBreakpoint_marking (hpt : env.pt = run.ptrace limit)
    (H : Halt → Debugger Runner → Prop) {t : Runner} :
    Holds (Marking run user t.mem info t.pos (both user others)) (setReturnAddressBreakpoint env)
      (fun _ => At run (· = []) (both user (transient run user others t)) (.stopped info) t.pos [])
      H := by
  intro d h
  have haddr : returnAddress run user others t =
      ⟨Memory.readWord d.tracee.mem (run.regs d.tracee.pos .rbp + 8) 8⟩ := by
    rw [h.mem, h.stopped.pos]
    rfl
  rw [both_transient haddr]
  exact setReturnAddressBreakpoint_at hpt H h.stopped d rfl

/-! ### Up to the first breakpoint -/

/-- The tracee has been continued from position `p` until it stopped or ended. -/
def Outcome (run : Run) (enabled : RealAddr → Bool) (p : Nat) (res : SprayResult)
    (d : Debugger Runner) : Prop :=
  (∃ q, run.FirstHit enabled p q ∧ res = .ok ∧ run.StoppedOn q d) ∨
    (∃ e, run.EndsFirst enabled p e ∧ d.tracee.state = .exited)

/-- Where it stopped does not depend on memory. -/
theorem Outcome.congr {res : SprayResult} {d' : Debugger Runner}
    (h : Outcome run enabled p res d) (hrest : d'.tracee.rest = d.tracee.rest) :
    Outcome run enabled p res d' := by
  have hpos : d'.tracee.pos = d.tracee.pos := congrArg (·.1) hrest
  have hpc : d'.tracee.pc = d.tracee.pc := congrArg (·.2.1) hrest
  have hstate : d'.tracee.state = d.tracee.state := congrArg (·.2.2.1) hrest
  have hstopped : d'.tracee.isStopped = d.tracee.isStopped := by
    unfold Runner.isStopped
    rw [hstate]
  rcases h with ⟨q, hq, hres, hstop⟩ | ⟨e, he, hexit⟩
  · refine .inl ⟨q, hq, hres, hstopped ▸ hstop.1, hpos ▸ hstop.2.1, ?_⟩
    rw [hpc]
    exact hstop.2.2
  · exact .inr ⟨e, he, hstate.trans hexit⟩

theorem Outcome.disable (hpt : env.pt = run.ptrace limit) (H : Halt → Debugger Runner → Prop)
    (res : SprayResult) (addr : RealAddr) :
    Holds (Outcome run enabled p res) (onStore (disableBreakpoint env.pt addr))
      (fun _ => Outcome run enabled p res) H := by
  intro d h
  exact h.congr (disableBreakpoint_rest hpt addr d.toStore)

theorem Outcome.remove (hpt : env.pt = run.ptrace limit) (H : Halt → Debugger Runner → Prop)
    (res : SprayResult) (remove : Bool) (addr : RealAddr) :
    Holds (Outcome run enabled p res) (removeInternalBreakpoint env remove addr)
      (fun _ => Outcome run enabled p res) H :=
  Holds.ite (fun _ => Holds.bind (Outcome.disable hpt H res addr) fun _ => Holds.pure fun _ => id)
    fun _ => Holds.pure fun _ => id

/-- Where breakpoints are set to step over the current line of `func`. -/
def stepOverBreakpoints (env : Env Runner) (run : Run) (user : RealAddr → Bool)
    (func : DebugSymbol) (skipLine : Nat) (filepath : String) (d : Debugger Runner) :
    RealAddr → Bool :=
  transient run user (otherLines d.loadAddress skipLine
    (env.info.dbg.sdForEachLine (symName func) filepath)) d.tracee

theorem Run.undisturbed_nil : run.Undisturbed enabled p [] := by
  unfold Run.Undisturbed
  split
  · exact ⟨by simp, fun _ => ⟨by simp, trivial⟩⟩
  · trivial

theorem continueAndWait_outcome {ws : List (Option Nat)} (hpt : env.pt = run.ptrace limit)
    (hplace : run.pc p ≠ none) (hquiet : run.Undisturbed enabled p ws) (fuel : Nat) :
    Holds (At run (· = []) enabled (.stopped info) p ws)
      (SteppingOp.exec env fuel .continueAndWait) (Outcome run enabled p)
      (fun _ => FallsShort run enabled limit fuel ws p) := by
  have hrun : Holds (At run (AllInPlace run enabled) enabled (.stopped info) p ws)
      (SteppingOp.exec env fuel .continueAndWait) (Arrives run enabled p)
      (fun _ => FallsShort run enabled limit fuel ws p) :=
    continueAndWait_undisturbed hpt hplace hquiet
  exact hrun.conseq (fun _ => At.allInPlace) (fun _ _ h => h.2) fun _ _ => id

/-- **A step over a line ends at the first breakpoint on the way.** -/
theorem stepOver_outcome (hpt : env.pt = run.ptrace limit) (h : Ready run user d)
    (hwinch : d.tracee.winch = [])
    (hfunc : symByAddr (realToDbg d.loadAddress ⟨d.tracee.pc⟩) env.info = some func)
    (hpos : symPosition func env.info = some pos)
    (hpath : symFilepath func env.info = some filepath) (fuel : Nat) :
    Holds (· = d) (stepOver env fuel)
      (Outcome run (both user (stepOverBreakpoints env run user func pos.line filepath d))
        d.tracee.pos)
      (fun _ => FallsShort run
        (both user (stepOverBreakpoints env run user func pos.line filepath d)) limit fuel []
        d.tracee.pos) := by
  obtain ⟨info, hmarking⟩ := h.marking hwinch
  apply Holds.bind (Q := fun pc s => s = d ∧ pc = realToDbg d.loadAddress ⟨d.tracee.pc⟩)
  · rintro s rfl
    unfold getDbgPc
    rw [bind_run (getPc_of_stopped hpt hmarking.stopped.state)]
    exact ⟨rfl, rfl⟩
  intro pc
  apply Holds.assume
  rintro rfl
  rw [hfunc]
  set enabled := both user (stepOverBreakpoints env run user func pos.line filepath d)
  refine Holds.bind (setStepOverBreakpoints_marking hpt _ hmarking hpos hpath) fun r =>
    Holds.exists fun toDel => ?_
  rintro s ⟨rfl, hs⟩
  revert s
  refine Holds.bind (setReturnAddressBreakpoint_marking hpt _) fun r => ?_
  -- Continuing and waiting come first, and then the breakpoints are taken out.
  refine Holds.assoc (Holds.bind (continueAndWait_outcome hpt h.pc_ne_none Run.undisturbed_nil fuel)
    fun res => ?_)
  refine Holds.bind (Holds.forM (I := fun _ => Outcome run enabled d.tracee.pos res)
    (fun addr rest => ?_) toDel) fun _ => ?_
  · exact Holds.bind (Outcome.disable hpt _ res addr) fun _ => Holds.pure fun _ => id
  · exact Holds.bind (Outcome.remove hpt _ res r.1 r.2) fun _ => Holds.pure fun _ => id

/-! ### How deep that is -/

/-- It stops at the first breakpoint, which is one of the user's or no deeper than the start. -/
structure StaysOut (env : Env Runner) (run : Run) (depth : Nat → Nat)
    (user transients : RealAddr → Bool) (d : Debugger Runner) : Prop where
  stops : ∀ q, run.FirstHit (both user transients) d.tracee.pos q →
    ∃ n, ∀ limit fuel, n ≤ limit → n ≤ fuel →
      ∃ d', stepOver (env.onRun run limit) fuel d = .ok .ok d' ∧ run.StoppedOn q d'
  shallow : ∀ limit fuel res d' q, stepOver (env.onRun run limit) fuel d = .ok res d' →
    run.StoppedOn q d' → run.hits user q = true ∨ depth q ≤ depth d.tracee.pos

/-- The run gets to the address of a breakpoint for the step, deeper than at position `p`,
and to no breakpoint before. -/
def Run.Reenters (run : Run) (depth : Nat → Nat) (user transients : RealAddr → Bool) (p : Nat) :
    Prop :=
  ∃ q, p < q ∧ depth p < depth q ∧ run.hits transients q = true ∧ run.hits user q = false ∧
    run.Clear (both user transients) (p + 1) q

variable {depth : Nat → Nat}

theorem hits_both (q : Nat) :
    run.hits (both user others) q = (run.hits user q || run.hits others q) := by
  unfold Run.hits
  cases run.pc q with
  | none => rfl
  | some a => rfl

/-- There is enough time to get to the first breakpoint. -/
theorem not_fallsShort {ws : List (Option Nat)} {q : Nat} (h : run.FirstHit enabled p q)
    (hlimit : q + 1 ≤ limit) (hfuel : ws.length < fuel) :
    ¬ FallsShort run enabled limit fuel ws p d := by
  rintro ⟨_, ⟨e, he, _⟩ | hshort⟩
  · exact h.not_ends he
  · exact hshort ⟨hfuel, q, h.1, by omega, Run.not_plain_of_hits h.2.1⟩

theorem Outcome.firstHit {q : Nat} {res : SprayResult} (h : Outcome run enabled p res d)
    (hstop : run.StoppedOn q d) : run.FirstHit enabled p q := by
  rcases h with ⟨q', hq', -, hstop'⟩ | ⟨e, -, hexit⟩
  · obtain rfl : q' = q := hstop'.2.1.symm.trans hstop.2.1
    exact hq'
  · have hstopped := hstop.1
    unfold Runner.isStopped at hstopped
    rw [hexit] at hstopped
    cases hstopped

/-- With enough time, what a step over a line comes to is the first breakpoint. -/
theorem Outcome.stops {ws : List (Option Nat)} {q fuel : Nat} {step : DbgM Runner SprayResult}
    (h : Holds (· = d) step (Outcome run enabled p)
      (fun _ => FallsShort run enabled limit fuel ws p))
    (hq : run.FirstHit enabled p q) (hlimit : q + 1 ≤ limit) (hfuel : ws.length < fuel) :
    ∃ d', step d = .ok .ok d' ∧ run.StoppedOn q d' := by
  rcases h.ends rfl with ⟨res, d', hr, ⟨q', hq', rfl, hstop⟩ | ⟨e, he, _⟩⟩ | ⟨e, d', hr, hshort⟩
  · exact ⟨d', hr, hq.unique hq' ▸ hstop⟩
  · exact (hq.not_ends he).elim
  · exact (not_fallsShort hq hlimit hfuel hshort).elim

/-- **A step over a line does not go deeper, other than to a user's breakpoint, exactly if the
run does not get to the address of one of its breakpoints deeper than the start first.** -/
theorem staysOut_iff_not_reenters (depth : Nat → Nat) (h : Ready run user d)
    (hwinch : d.tracee.winch = [])
    (hfunc : symByAddr (realToDbg d.loadAddress ⟨d.tracee.pc⟩) env.info = some func)
    (hpos : symPosition func env.info = some pos)
    (hpath : symFilepath func env.info = some filepath) :
    let transients := stepOverBreakpoints env run user func pos.line filepath d
    StaysOut env run depth user transients d ↔
      ¬ run.Reenters depth user transients d.tracee.pos := by
  intro transients
  have houtcome : ∀ limit fuel, Holds (· = d) (stepOver (env.onRun run limit) fuel)
      (Outcome run (both user transients) d.tracee.pos)
      (fun _ => FallsShort run (both user transients) limit fuel [] d.tracee.pos) := by
    intro limit fuel
    have hpt : (env.onRun run limit).pt = run.ptrace limit := rfl
    exact stepOver_outcome hpt h hwinch hfunc hpos hpath fuel
  have hstops : ∀ q, run.FirstHit (both user transients) d.tracee.pos q →
      ∃ n, ∀ limit fuel, n ≤ limit → n ≤ fuel →
        ∃ d', stepOver (env.onRun run limit) fuel d = .ok .ok d' ∧ run.StoppedOn q d' := by
    intro q hq
    refine ⟨q + 1, fun limit fuel hlimit hfuel => ?_⟩
    exact Outcome.stops (houtcome limit fuel) hq hlimit (Nat.lt_of_lt_of_le q.succ_pos hfuel)
  constructor
  · rintro hstays ⟨q, hlt, hdeep, htransient, huser, hclear⟩
    have hfirst : run.FirstHit (both user transients) d.tracee.pos q := by
      refine ⟨hlt, ?_, hclear⟩
      rw [hits_both, htransient, Bool.or_true]
    obtain ⟨n, hn⟩ := hstays.stops q hfirst
    obtain ⟨d', hr, hstop⟩ := hn n n (Nat.le_refl n) (Nat.le_refl n)
    rcases hstays.shallow n n .ok d' q hr hstop with hon | hle
    · rw [huser] at hon
      cases hon
    · omega
  · intro hnot
    refine ⟨hstops, fun limit fuel res d' q hr hstop => ?_⟩
    have hrun := (houtcome limit fuel).of_ok rfl hr
    obtain ⟨hlt, hhit, hclear⟩ := Outcome.firstHit hrun hstop
    cases huser : run.hits user q with
    | true => exact .inl rfl
    | false =>
        rw [hits_both, huser, Bool.false_or] at hhit
        exact .inr (Nat.le_of_not_lt fun hdeep => hnot ⟨q, hlt, hdeep, hhit, huser, hclear⟩)

/-! ### A function that calls itself -/

/-- A function at `0x1000` makes a call in its line 3 and returns from its line 4, to
`0x2000`.  It either calls itself or one at `0x3000`. -/
def callPcs (recursive : Bool) : List Word :=
  let callee : Word := if recursive then 0x1000 else 0x3000
  [0x1000, callee, callee + 8, 0x1008, 0x2000]

def callDepth (n : Nat) : Nat := [1, 2, 2, 1].getD n 0

def callRun (recursive : Bool) : Run where
  pc n := (callPcs recursive)[n]?
  effect _ m := m
  regs _ := Function.update (fun _ => 0) .rbp 0x7ff00
  code a := 0x1000 ≤ a ∧ a < 0x4000
  image _ := 0x90
  in_code n a h := by
    have hall : (callPcs recursive).all (fun a => 0x1000 ≤ a ∧ a < 0x4000) = true := by
      cases recursive with
      | true => decide
      | false => decide
    exact of_decide_eq_true (List.all_eq_true.mp hall a (List.mem_of_getElem? h))
  keeps_code _ _ _ _ := rfl
  no_trap _ _ _ := by decide

/-- The return address is on the stack. -/
def callMemory : Memory 64 := fun a =>
  if a = 0x7ff09 then 0x20 else if 0x1000 ≤ a ∧ a < 0x4000 then 0x90 else 0

/-- Stopped at the call. -/
def callStart : Debugger Runner where
  breakpoints := initBreakpoints
  tracee := ⟨0, 0x1000, callMemory, .stopped ⟨.SIGTRAP, .TRAP_TRACE⟩, [], []⟩
  loadAddress := ⟨0⟩
  output := []

def callEnv : Env Runner :=
  { strippedEnv ((callRun true).ptrace 0) with info := twoLineEnv.info }

def callTransients (recursive : Bool) : RealAddr → Bool :=
  stepOverBreakpoints callEnv (callRun recursive) (fun _ => false) twoLineFunc 3 "/src/a.c" callStart

theorem callStart_ready (recursive : Bool) :
    Ready (callRun recursive) (fun _ => false) callStart where
  follows :=
    { overlay := by
        refine ⟨fun a ha => ?_, fun _ _ _ h => by cases h⟩
        have hcode : 0x1000 ≤ a.value ∧ a.value < 0x4000 := ha
        have hne : a.value ≠ 0x7ff09 := by
          intro h
          rw [h] at hcode
          exact absurd hcode (by decide)
        exact (if_neg hne).trans (if_pos hcode)
      standing := fun _ => rfl
      place := by
        cases recursive with
        | true => rfl
        | false => rfl }
  stopped := rfl
  fresh := rfl

theorem callFunc : symByAddr (realToDbg ⟨0⟩ ⟨0x1000⟩) callEnv.info = some twoLineFunc := rfl

/-- A call to another function is stepped over. -/
theorem staysOut_call :
    StaysOut callEnv (callRun false) callDepth (fun _ => false) (callTransients false) callStart := by
  have hpos : symPosition twoLineFunc callEnv.info = some ⟨3, 0, true⟩ := rfl
  have hpath : symFilepath twoLineFunc callEnv.info = some "/src/a.c" := rfl
  refine (staysOut_iff_not_reenters callDepth (callStart_ready false) rfl callFunc hpos hpath).mpr
    ?_
  rintro ⟨q, hlt, hdeep, htransient, -⟩
  have hcases : q = 1 ∨ q = 2 := by
    rcases q with _ | _ | _ | _ | q
    · exact absurd hlt (by decide)
    · exact .inl rfl
    · exact .inr rfl
    · exact absurd hdeep (by decide)
    · have hout : callDepth (q + 4) = 0 := by
        unfold callDepth
        simp
      rw [hout] at hdeep
      exact absurd hdeep (Nat.not_lt_zero _)
  have hoff : (callRun false).hits (callTransients false) 1 = false ∧
      (callRun false).hits (callTransients false) 2 = false := by decide +kernel
  rcases hcases with rfl | rfl
  · exact absurd (hoff.1.symm.trans htransient) Bool.false_ne_true
  · exact absurd (hoff.2.symm.trans htransient) Bool.false_ne_true

/-- A call to itself stops in the line after the call, but of the call that was made. -/
theorem staysOut_fails_recursive :
    Ready (callRun true) (fun _ => false) callStart ∧
      ¬ StaysOut callEnv (callRun true) callDepth (fun _ => false) (callTransients true)
        callStart := by
  refine ⟨callStart_ready true, fun h => ?_⟩
  have hrun : returned (stepOver (callEnv.onRun (callRun true) 8) 8) callStart = some .ok ∧
      (finalState (stepOver (callEnv.onRun (callRun true) 8) 8) callStart).tracee.isStopped = true ∧
      (finalState (stepOver (callEnv.onRun (callRun true) 8) 8) callStart).tracee.pos = 2 ∧
      (callRun true).pc 2 =
        some (finalState (stepOver (callEnv.onRun (callRun true) 8) 8) callStart).tracee.pc := by
    decide +kernel
  obtain ⟨hreturned, hstop⟩ := hrun
  rcases h.shallow 8 8 .ok _ 2 (eq_ok_of_returned hreturned) hstop with huser | hle
  · exact absurd huser (by decide)
  · exact absurd hle (by decide)

end Spray
