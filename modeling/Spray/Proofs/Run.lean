/-
What a tracee that follows a run does while it is waited for.

`Follows` relates a debugger to the run its tracee is on: the tracee is at its place in
the run, and its code is the program's under the traps of the enabled breakpoints.  A
position is `plain` when an instruction is executed there, and `hits` when a breakpoint
stands in its place.
-/
import Spray.Debugger
import Spray.Lib.Triple
import Spray.Proofs.Breakpoints
import Spray.Run

namespace Spray

open Triple

namespace Run

variable (run : Run) (enabled : RealAddr → Bool)

/-- There is an enabled breakpoint at this position. -/
def hits (j : Nat) : Bool := (run.pc j).any fun a => enabled ⟨a⟩

/-- There is an instruction at this position, and no breakpoint. -/
def plain (j : Nat) : Bool := (run.pc j).any fun a => !enabled ⟨a⟩

/-- From position `p` on, no breakpoint is met before position `q`. -/
def Clear (p q : Nat) : Prop := ∀ j, p ≤ j → j < q → run.plain enabled j = true

end Run

variable {run : Run} {enabled : RealAddr → Bool}

theorem Run.hits_iff {j : Nat} {a : Word} (h : run.pc j = some a) :
    run.hits enabled j = enabled ⟨a⟩ := by
  rw [Run.hits, h, Option.any_some]

theorem Run.plain_iff {j : Nat} {a : Word} (h : run.pc j = some a) :
    run.plain enabled j = !enabled ⟨a⟩ := by
  rw [Run.plain, h, Option.any_some]

theorem Run.plain_of_not_hits {j : Nat} (h : run.pc j ≠ none) (hh : run.hits enabled j = false) :
    run.plain enabled j = true := by
  obtain ⟨a, ha⟩ := Option.ne_none_iff_exists'.mp h
  rw [Run.hits_iff ha] at hh
  rw [Run.plain_iff ha, hh]
  rfl

theorem Run.pc_of_plain {j : Nat} (h : run.plain enabled j = true) : run.pc j ≠ none := by
  intro hc
  rw [Run.plain, hc, Option.any_none] at h
  exact Bool.false_ne_true h

theorem Run.not_hits_of_plain {j : Nat} (h : run.plain enabled j = true) :
    run.hits enabled j = false := by
  obtain ⟨a, ha⟩ := Option.ne_none_iff_exists'.mp (Run.pc_of_plain h)
  rw [Run.hits_iff ha]
  rw [Run.plain_iff ha] at h
  simpa using h

theorem Run.not_plain_of_hits {j : Nat} (h : run.hits enabled j = true) :
    run.plain enabled j = false := by
  rw [← Bool.not_eq_true]
  intro hplain
  exact Bool.false_ne_true ((Run.not_hits_of_plain hplain).symm.trans h)

/-- A breakpoint does not stand where an instruction is executed. -/
theorem Run.ne_of_hits {i j : Nat} (hi : run.plain enabled i = true)
    (hj : run.hits enabled j = true) : i ≠ j := by
  rintro rfl
  exact Bool.false_ne_true ((Run.not_hits_of_plain hi).symm.trans hj)

theorem Run.exists_of_hits {j : Nat} (h : run.hits enabled j = true) :
    ∃ a, run.pc j = some a ∧ enabled ⟨a⟩ = true := (Option.any_eq_true ..).mp h

/-- The tracee is on its run, under the traps of the enabled breakpoints. -/
structure Follows (run : Run) (enabled : RealAddr → Bool) (s : Store Runner) : Prop where
  overlay : Overlay Runner.mem (fun a => run.code a.value) (fun a => run.image a.value) s
  standing : ∀ a, lookupBreakpoint s.breakpoints a = enabled a
  place : run.pc s.tracee.pos = some s.tracee.pc

/-- A trap stands in for the next instruction exactly where a breakpoint is enabled. -/
theorem Follows.trap_iff {s : Store Runner} (f : Follows run enabled s) :
    s.tracee.mem s.tracee.pc = int3 ↔ run.hits enabled s.tracee.pos = true := by
  have hbyte := f.overlay.byte ⟨s.tracee.pc⟩ (run.in_code _ _ f.place)
  rw [f.standing] at hbyte
  rw [Run.hits_iff f.place]
  cases hon : enabled ⟨s.tracee.pc⟩ with
  | true =>
      rw [hon, if_pos rfl] at hbyte
      simpa using hbyte
  | false =>
      rw [hon, if_neg (by decide)] at hbyte
      have hne := run.no_trap _ _ f.place
      constructor
      · intro hc
        exact absurd (hbyte.symm.trans hc) hne
      · intro hc
        exact absurd hc (by decide)

/-- Every enabled breakpoint of the program's code is in place. -/
def InPlace (run : Run) (enabled : RealAddr → Bool) (m : Memory 64) : Prop :=
  ∀ a : RealAddr, run.code a.value → enabled a = true → m a.value = int3

theorem Follows.inPlace {s : Store Runner} (f : Follows run enabled s) :
    InPlace run enabled s.tracee.mem := by
  intro a hcode ha
  have hbyte := f.overlay.byte a hcode
  rw [f.standing, ha, if_pos rfl] at hbyte
  exact hbyte

/-- What is not part of `Follows` may change. -/
theorem Follows.congr {b : Breakpoints} {t t' : Runner} (f : Follows run enabled ⟨b, t⟩)
    (hmem : t'.mem = t.mem) (hpos : t'.pos = t.pos) (hpc : t'.pc = t.pc) :
    Follows run enabled ⟨b, t'⟩ where
  overlay := ⟨fun a ha => by rw [hmem]; exact f.overlay.byte a ha, f.overlay.orig⟩
  standing := f.standing
  place := by rw [hpos, hpc]; exact f.place

/-! ### Executing instructions -/

theorem exec_hits {b : Breakpoints} {t : Runner} (f : Follows run enabled ⟨b, t⟩)
    (h : run.hits enabled t.pos = true) :
    run.exec t = { t with pc := t.pc + 1 }.stop .SIGTRAP .SI_KERNEL := by
  have htrap : t.mem t.pc = int3 := f.trap_iff.mpr h
  unfold Run.exec
  rw [if_neg (not_not.mpr f.place), if_pos htrap]

theorem exec_plain {b : Breakpoints} {t : Runner} (f : Follows run enabled ⟨b, t⟩)
    (h : run.plain enabled t.pos = true) :
    run.exec t = match run.pc (t.pos + 1) with
      | some pc => { t with pos := t.pos + 1, mem := run.effect t.pos t.mem, pc }
      | none => { t with pos := t.pos + 1, mem := run.effect t.pos t.mem, state := .exited } := by
  have htrap : ¬ t.mem t.pc = int3 := by
    intro hc
    exact Run.ne_of_hits h (f.trap_iff.mp hc) rfl
  unfold Run.exec
  refine (if_neg (not_not.mpr f.place)).trans ((if_neg htrap).trans ?_)
  cases run.pc (t.pos + 1) with
  | none => rfl
  | some pc => rfl

/-- The tracee has executed `n` instructions without meeting a breakpoint. -/
structure Goes (run : Run) (enabled : RealAddr → Bool) (b : Breakpoints) (t : Runner) (n : Nat)
    (t' : Runner) : Prop where
  pos : t'.pos = t.pos + n
  state : t'.state = t.state
  winch : t'.winch = t.winch
  conts : t'.conts = t.conts
  clear : run.Clear enabled t.pos (t.pos + n)
  follows : Follows run enabled ⟨b, t'⟩

theorem Goes.refl {b : Breakpoints} {t : Runner} (f : Follows run enabled ⟨b, t⟩) :
    Goes run enabled b t 0 t :=
  ⟨rfl, rfl, rfl, rfl, fun j h h' => by omega, f⟩

theorem Goes.trans {b : Breakpoints} {t u v : Runner} {m n : Nat}
    (h : Goes run enabled b t m u) (h' : Goes run enabled b u n v) :
    Goes run enabled b t (m + n) v := by
  refine ⟨?_, h'.state.trans h.state, h'.winch.trans h.winch, h'.conts.trans h.conts, ?_,
    h'.follows⟩
  · have hu := h.pos
    have hv := h'.pos
    omega
  · intro j hlo hhi
    rcases Nat.lt_or_ge j (t.pos + m) with hlt | hge
    · exact h.clear j hlo hlt
    · have hu := h.pos
      exact h'.clear j (by omega) (by omega)

/-- One instruction further. -/
theorem exec_goes {b : Breakpoints} {t : Runner} {pc : Word} (f : Follows run enabled ⟨b, t⟩)
    (h : run.plain enabled t.pos = true) (hpc : run.pc (t.pos + 1) = some pc) :
    Goes run enabled b t 1 (run.exec t) := by
  have hexec := exec_plain f h
  rw [hpc] at hexec
  rw [hexec]
  refine ⟨rfl, rfl, rfl, rfl, fun j hlo hhi => ?_,
    ⟨⟨fun a ha => ?_, f.overlay.orig⟩, f.standing, hpc⟩⟩
  · have hj : j = t.pos := by omega
    rw [hj]
    exact h
  · exact (run.keeps_code t.pos t.mem a.value ha).trans (f.overlay.byte a ha)

/-! ### Waiting -/

/-- What a wait for a continued tracee finds. -/
inductive Waited (run : Run) (enabled : RealAddr → Bool) (b : Breakpoints) (limit : Nat)
    (winch : Option Nat) (t : Runner) : WaitOutcome × Runner → Prop
  | blocked {u : Runner} (goes : Goes run enabled b t limit u)
      (early : ∀ k, winch = some k → limit ≤ k) : Waited run enabled b limit winch t (.blocked, u)
  | resized {u : Runner} {n : Nat} (goes : Goes run enabled b t n u) (at_ : winch = some n) :
      Waited run enabled b limit winch t
        (.status (.stopped .SIGWINCH), u.stop .SIGWINCH .SI_KERNEL)
  | trapped {u : Runner} {n : Nat} (goes : Goes run enabled b t n u)
      (early : ∀ k, winch = some k → n < k) (hits : run.hits enabled u.pos = true) :
      Waited run enabled b limit winch t
        (.status (.stopped .SIGTRAP), { u with pc := u.pc + 1 }.stop .SIGTRAP .SI_KERNEL)
  | ended {u v : Runner} {n : Nat} (goes : Goes run enabled b t n u)
      (early : ∀ k, winch = some k → n < k) (plain : run.plain enabled u.pos = true)
      (last : run.pc (u.pos + 1) = none) (conts : v.conts = t.conts) (pos : v.pos = u.pos + 1)
      (state : v.state = .exited) : Waited run enabled b limit winch t (.status (.exited 0), v)

/-- What is found after one instruction is found from before it. -/
theorem Waited.step {b : Breakpoints} {limit : Nat} {winch : Option Nat} {t u : Runner}
    {r : WaitOutcome × Runner} (goes : Goes run enabled b t 1 u) (h : winch ≠ some 0)
    (w : Waited run enabled b limit (winch.map (· - 1)) u r) :
    Waited run enabled b (limit + 1) winch t r := by
  have early : ∀ n, (∀ k, winch.map (· - 1) = some k → n ≤ k) →
      ∀ k, winch = some k → 1 + n ≤ k := by
    intro n hn k hk
    have hle := hn (k - 1) (by rw [hk]; rfl)
    have hpos : k ≠ 0 := by
      intro hc
      exact h (hc ▸ hk)
    omega
  cases w with
  | blocked goes' hearly =>
      have hcomm := Nat.add_comm limit 1
      exact .blocked (hcomm ▸ goes.trans goes') (hcomm ▸ early limit hearly)
  | @resized v n goes' hat =>
      obtain ⟨k, hk, hkn⟩ := Option.map_eq_some_iff.mp hat
      refine .resized (goes.trans goes') ?_
      have hpos : k ≠ 0 := by
        intro hc
        exact h (hc ▸ hk)
      rw [hk, ← hkn]
      congr 1
      omega
  | @trapped v n goes' hearly hhits =>
      refine .trapped (goes.trans goes') (fun k hk => ?_) hhits
      have hle := early (n + 1) hearly k hk
      omega
  | @ended v x n goes' hearly hplain hlast hconts hpos hstate =>
      refine .ended (goes.trans goes') (fun k hk => ?_) hplain hlast (hconts.trans goes.conts) hpos
        hstate
      have hle := early (n + 1) hearly k hk
      omega

/-- **A wait lets the tracee go up to the first of: a breakpoint, a signal, its end.** -/
theorem runToStop_waited (limit : Nat) (winch : Option Nat) {b : Breakpoints} {t : Runner}
    (f : Follows run enabled ⟨b, t⟩) (hst : t.state = .continuing) :
    Waited run enabled b limit winch t (run.runToStop limit winch t) := by
  induction limit generalizing winch t with
  | zero => exact .blocked (Goes.refl f) fun k _ => Nat.zero_le k
  | succ limit ih =>
      unfold Run.runToStop
      by_cases hwinch : winch = some 0
      · rw [if_pos hwinch]
        exact .resized (Goes.refl f) hwinch
      rw [if_neg hwinch]
      have early : ∀ k, winch = some k → 0 < k := by
        intro k hk
        rcases Nat.eq_zero_or_pos k with hz | hpos
        · exact absurd (hz ▸ hk) hwinch
        · exact hpos
      cases hhits : run.hits enabled t.pos with
      | true =>
          rw [exec_hits f hhits]
          exact .trapped (Goes.refl f) early hhits
      | false =>
          have hplain := Run.plain_of_not_hits (by rw [f.place]; exact Option.some_ne_none _) hhits
          cases hnext : run.pc (t.pos + 1) with
          | none =>
              have hexec := exec_plain f hplain
              rw [hnext] at hexec
              rw [hexec]
              exact .ended (Goes.refl f) early hplain hnext rfl rfl rfl
          | some pc =>
              have hgoes := exec_goes f hplain hnext
              have hstate := hgoes.state.trans hst
              dsimp only
              rw [hstate]
              exact (ih (winch.map (· - 1)) hgoes.follows hstate).step hgoes hwinch

/-- What a wait for a single step finds. -/
inductive Stepped (run : Run) (enabled : RealAddr → Bool) (b : Breakpoints)
    (winch : Option Nat) (t : Runner) : WaitOutcome × Runner → Prop
  | before (at_ : winch = some 0) : Stepped run enabled b winch t
      (.status (.stopped .SIGWINCH), t.stop .SIGWINCH .SI_KERNEL)
  | after {u : Runner} (goes : Goes run enabled b t 1 u) (at_ : winch = some 1) :
      Stepped run enabled b winch t (.status (.stopped .SIGWINCH), u.stop .SIGWINCH .SI_KERNEL)
  | completed {u : Runner} (goes : Goes run enabled b t 1 u) (late : ∀ k, winch = some k → 1 < k) :
      Stepped run enabled b winch t (.status (.stopped .SIGTRAP), u.stop .SIGTRAP .TRAP_TRACE)
  | ended {v : Runner} (late : winch ≠ some 0) (last : run.pc (t.pos + 1) = none)
      (conts : v.conts = t.conts) (pos : v.pos = t.pos + 1) (state : v.state = .exited) :
      Stepped run enabled b winch t (.status (.exited 0), v)

theorem runStep_stepped (winch : Option Nat) {b : Breakpoints} {t : Runner}
    (f : Follows run enabled ⟨b, t⟩) (hst : t.state = .stepping)
    (h : run.plain enabled t.pos = true) :
    Stepped run enabled b winch t (run.runStep winch t) := by
  unfold Run.runStep
  by_cases hbefore : winch = some 0
  · rw [if_pos hbefore]
    exact .before hbefore
  rw [if_neg hbefore]
  cases hnext : run.pc (t.pos + 1) with
  | none =>
      have hexec := exec_plain f h
      rw [hnext] at hexec
      rw [hexec]
      exact .ended hbefore hnext rfl rfl rfl
  | some pc =>
      have hgoes := exec_goes f h hnext
      have hstate := hgoes.state.trans hst
      dsimp only
      rw [hstate]
      by_cases hafter : winch = some 1
      · rw [if_pos hafter]
        exact .after hgoes hafter
      · rw [if_neg hafter]
        refine .completed hgoes fun k hk => ?_
        have hzero : k ≠ 0 := by
          intro hc
          exact hbefore (hc ▸ hk)
        have hone : k ≠ 1 := by
          intro hc
          exact hafter (hc ▸ hk)
        omega

end Spray
