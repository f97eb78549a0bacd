/-
The breakpoint store over whole runs.

A run is any sequence of enable and disable calls, at any addresses, in which any
`ptrace` request may fail.  `Overlay` over the memory the run started from is the
invariant it keeps; the enabled set is then whatever the calls that succeeded say,
the last one at each address deciding.
-/
import Spray.Proofs.Breakpoints

namespace Spray

inductive BreakpointCall
  | enable (addr : RealAddr)
  | disable (addr : RealAddr)
  deriving DecidableEq

def BreakpointCall.addr : BreakpointCall → RealAddr
  | enable a => a
  | disable a => a

variable {W : Type}

def BreakpointCall.exec (pt : Ptrace W) : BreakpointCall → Store W → SprayResult × Store W
  | enable a => enableBreakpoint pt a
  | disable a => disableBreakpoint pt a

/-- Make the calls one after another, keeping what each one returned. -/
def runCalls (pt : Ptrace W) :
    List BreakpointCall → Store W → List (BreakpointCall × SprayResult) × Store W
  | [], s => ([], s)
  | c :: rest, s =>
    let (res, s') := c.exec pt s
    let (trace, final) := runCalls pt rest s'
    ((c, res) :: trace, final)

/-- The last call at `a` that returned `SP_OK`. -/
def lastOk (a : RealAddr) (trace : List (BreakpointCall × SprayResult)) : Option BreakpointCall :=
  ((trace.filter fun e => e.2 = .ok ∧ e.1.addr = a).getLast?).map (·.1)

theorem runCalls_append (pt : Ptrace W) (cs ds : List BreakpointCall) (s : Store W) :
    runCalls pt (cs ++ ds) s =
      ((runCalls pt cs s).1 ++ (runCalls pt ds (runCalls pt cs s).2).1,
        (runCalls pt ds (runCalls pt cs s).2).2) := by
  induction cs generalizing s with
  | nil => rfl
  | cons c rest ih => simp [runCalls, ih]

theorem lastOk_snoc (a : RealAddr) (trace : List (BreakpointCall × SprayResult))
    (c : BreakpointCall) (res : SprayResult) :
    lastOk a (trace ++ [(c, res)]) =
      if res = .ok ∧ c.addr = a then some c else lastOk a trace := by
  unfold lastOk
  by_cases h : res = .ok ∧ c.addr = a
  · simp [h]
  · have hd : decide (res = .ok ∧ c.addr = a) = false := decide_eq_false h
    rw [if_neg h, List.filter_append]
    simp only [List.filter_cons, List.filter_nil]
    rw [hd]
    simp

variable {pt : Ptrace W} {mem : W → Memory 64}

/-- What one call does to the enabled set. -/
theorem BreakpointCall.exec_lookup (laws : MemoryLaws pt mem) (c : BreakpointCall) (s : Store W)
    (b : RealAddr) :
    lookupBreakpoint (c.exec pt s).2.breakpoints b =
      if (c.exec pt s).1 = .ok ∧ c.addr = b then decide (c = .enable b)
      else lookupBreakpoint s.breakpoints b := by
  cases c with
  | enable a =>
      simp only [exec, enableBreakpoint_lookup laws, addr, BreakpointCall.enable.injEq]
      by_cases hr : (enableBreakpoint pt a s).1 = .ok <;> by_cases hb : b = a <;>
        simp [hr, hb, eq_comm]
  | disable a =>
      simp only [exec, disableBreakpoint_lookup laws, addr]
      by_cases hr : (disableBreakpoint pt a s).1 = .ok <;> by_cases hb : b = a <;>
        simp [hr, hb, eq_comm]

theorem BreakpointCall.exec_overlay (laws : MemoryLaws pt mem) {code : RealAddr → Prop}
    {image : RealAddr → Byte} (c : BreakpointCall) {s : Store W}
    (ov : Overlay mem code image s) : Overlay mem code image (c.exec pt s).2 := by
  cases c with
  | enable a => exact ov.enable laws a
  | disable a => exact ov.disable laws a

/-- A call that fails leaves memory and the enabled set as they were. -/
theorem BreakpointCall.exec_err (laws : MemoryLaws pt mem) (c : BreakpointCall) (s : Store W)
    (h : (c.exec pt s).1 = .err) : SameStore mem s (c.exec pt s).2 := by
  cases c with
  | enable a =>
      rcases enableBreakpoint_cases laws a s with ⟨hr, -, -⟩ | ⟨hr, -, -⟩ | ⟨-, -, hsame⟩
      · exact absurd (hr.symm.trans h) (by decide)
      · exact absurd (hr.symm.trans h) (by decide)
      · exact hsame
  | disable a =>
      rcases disableBreakpoint_cases laws a s with ⟨hr, -, -⟩ | ⟨_, hr, -, -⟩ | ⟨-, -, hsame⟩
      · exact absurd (hr.symm.trans h) (by decide)
      · exact absurd (hr.symm.trans h) (by decide)
      · exact hsame

/-- A call whose requests succeed does not fail. -/
theorem BreakpointCall.exec_ok (c : BreakpointCall) {s : Store W}
    (h : AnswersAt pt c.addr.value s.tracee) : (c.exec pt s).1 = .ok := by
  cases c with
  | enable a => exact enableBreakpoint_answeredAt h
  | disable a => exact disableBreakpoint_answeredAt h

/-! ### Whole runs -/

theorem runCalls_overlay (laws : MemoryLaws pt mem) {code : RealAddr → Prop}
    {image : RealAddr → Byte} (cs : List BreakpointCall) :
    ∀ {s : Store W}, Overlay mem code image s → Overlay mem code image (runCalls pt cs s).2 := by
  induction cs with
  | nil => intro s ov; exact ov
  | cons c rest ih => intro s ov; exact ih (c.exec_overlay laws ov)

/-- The enabled set is decided by the last successful call at each address. -/
theorem runCalls_lookup (laws : MemoryLaws pt mem) (w : W) (cs : List BreakpointCall)
    (a : RealAddr) :
    lookupBreakpoint (runCalls pt cs ⟨initBreakpoints, w⟩).2.breakpoints a = true ↔
      lastOk a (runCalls pt cs ⟨initBreakpoints, w⟩).1 = some (.enable a) := by
  induction cs using List.reverseRecOn with
  | nil => simp [runCalls, lastOk, lookupBreakpoint_eq, savedByte_initBreakpoints]
  | append_singleton cs c ih =>
      rw [runCalls_append]
      simp only [runCalls]
      rw [lastOk_snoc, c.exec_lookup laws]
      split
      · simp
      · exact ih

/-- Disabling addresses one after another, successfully, leaves none of them enabled. -/
theorem runCalls_disable (laws : MemoryLaws pt mem) (as : List RealAddr) :
    ∀ {s : Store W},
      (∀ e ∈ (runCalls pt (as.map .disable) s).1, e.2 = .ok) →
      ∀ b, lookupBreakpoint (runCalls pt (as.map .disable) s).2.breakpoints b = true →
        lookupBreakpoint s.breakpoints b = true ∧ b ∉ as := by
  induction as with
  | nil => intro s _ b hb; exact ⟨hb, by simp⟩
  | cons a rest ih =>
      intro s hok b hb
      have hfirst : ((BreakpointCall.disable a).exec pt s).1 = .ok := hok _ (List.mem_cons_self ..)
      have hlater := ih (s := ((BreakpointCall.disable a).exec pt s).2)
        (fun e he => hok e (List.mem_cons_of_mem _ he)) b hb
      rw [BreakpointCall.exec_lookup laws] at hlater
      obtain ⟨hin, hrest⟩ := hlater
      by_cases hab : a = b
      · rw [if_pos ⟨hfirst, hab⟩] at hin
        exact absurd hin (by simp)
      · rw [if_neg (fun hc => hab hc.2)] at hin
        exact ⟨hin, by simp [Ne.symm hab, hrest]⟩

theorem Overlay.init (w : W) :
    Overlay mem (fun _ => True) (fun a => mem w a.value) ⟨initBreakpoints, w⟩ where
  byte a _ := by simp [lookupBreakpoint_eq, savedByte_initBreakpoints]
  orig a v _ hv := by simp [savedByte_initBreakpoints] at hv

/-- With no breakpoint enabled, memory is the image. -/
theorem Overlay.mem_eq {w : W} {s : Store W}
    (ov : Overlay mem (fun _ => True) (fun a => mem w a.value) s)
    (h : ∀ a, lookupBreakpoint s.breakpoints a = false) : mem s.tracee = mem w := by
  funext b
  have := ov.byte ⟨b⟩ trivial
  rwa [h, if_neg (by decide)] at this

/--
**The breakpoint store's invariant.**  Whatever calls are made and whichever requests
fail, the enabled addresses are those whose last successful call was an enable, memory
is the original one with a trap over each of them, and the saved bytes are the
original ones.  A failed call changes nothing, a call whose requests succeed does not fail,
and once every enabled address has been disabled memory is what it was at the start.
-/
theorem breakpointStore_invariant (laws : MemoryLaws pt mem) (w : W) (cs : List BreakpointCall) :
    let run := runCalls pt cs ⟨initBreakpoints, w⟩
    let s := run.2
    (∀ a, lookupBreakpoint s.breakpoints a = true ↔ lastOk a run.1 = some (.enable a)) ∧
    (∀ a, mem s.tracee a.value =
      if lookupBreakpoint s.breakpoints a then int3 else mem w a.value) ∧
    (∀ a bp, getBreakpoint s.breakpoints a = some bp → bp.isEnabled = true →
      bp.origData = mem w a.value) ∧
    (∀ c : BreakpointCall, (c.exec pt s).1 = .err →
      mem (c.exec pt s).2.tracee = mem s.tracee ∧
      ∀ a, lookupBreakpoint (c.exec pt s).2.breakpoints a = lookupBreakpoint s.breakpoints a) ∧
    (∀ c : BreakpointCall, AnswersAt pt c.addr.value s.tracee → (c.exec pt s).1 = .ok) ∧
    (∀ as : List RealAddr, (∀ a, lookupBreakpoint s.breakpoints a = true → a ∈ as) →
      (∀ e ∈ (runCalls pt (as.map .disable) s).1, e.2 = .ok) →
      mem (runCalls pt (as.map .disable) s).2.tracee = mem w) := by
  intro run s
  have ov : Overlay mem (fun _ => True) (fun a => mem w a.value) s :=
    runCalls_overlay laws cs (Overlay.init w)
  refine ⟨runCalls_lookup laws w cs, fun a => ov.byte a trivial, ?_, ?_, ?_, ?_⟩
  · intro a bp hbp hen
    exact ov.orig a bp.origData trivial (by
      have hmap : s.breakpoints.map a = some bp := hbp
      simp [savedByte, hmap, hen])
  · intro c hc
    have hsame := c.exec_err laws s hc
    exact ⟨hsame.mem, hsame.lookup⟩
  · exact fun c hc => c.exec_ok hc
  · intro as hall hok
    refine (runCalls_overlay laws (as.map .disable) ov).mem_eq fun a => ?_
    by_contra hc
    obtain ⟨hin, hout⟩ := runCalls_disable laws as hok a (by simpa using hc)
    exact hout (hall a hin)

/-! ### A process whose requests fail at will -/

/-- Memory, and for each request to come whether it succeeds; once the list is used up
they all do. -/
structure FaultyTracee where
  mem : Memory 64
  faults : List Bool

/-- Whether the next request succeeds. -/
def FaultyTracee.up (w : FaultyTracee) : Bool := w.faults.headD true

def FaultyTracee.next (w : FaultyTracee) : FaultyTracee := { w with faults := w.faults.tail }

def faultyPtrace : Ptrace FaultyTracee where
  peekData a w := (if w.up then some (Memory.readWord w.mem a 8) else none, w.next)
  pokeData a x w :=
    if w.up then (true, { w.next with mem := Memory.writeWord (k := 8) w.mem a x })
    else (false, w.next)
  getRegs w := (if w.up then some (fun _ => 0) else none, w.next)
  setRegs _ w := (w.up, w.next)
  cont w := (if w.up then none else some .ESRCH, w.next)
  singleStep w := (w.up, w.next)
  getSigInfo w := (if w.up then some .zero else none, w.next)
  waitpid w := (.blocked, w)

theorem faultyPtrace_laws : MemoryLaws faultyPtrace FaultyTracee.mem where
  peek_mem _ _ := rfl
  peek_val a w x h := by
    by_cases hup : w.up = true
    · simp only [faultyPtrace, hup, if_true, Option.some.injEq] at h
      exact h.symm
    · simp [faultyPtrace, hup] at h
  poke_ok a x w h := by
    by_cases hup : w.up = true
    · simp [faultyPtrace, hup]
    · simp [faultyPtrace, hup] at h
  poke_err a x w h := by
    by_cases hup : w.up = true
    · simp [faultyPtrace, hup] at h
    · simp [faultyPtrace, hup, FaultyTracee.next]

/-- Two overlapping breakpoints; the write that should have disabled the first fails, and
the trap stays in place. -/
theorem breakpointStore_invariant_overlapping :
    (runCalls faultyPtrace [.enable ⟨0x1000⟩, .enable ⟨0x1003⟩, .disable ⟨0x1000⟩]
      ⟨initBreakpoints, ⟨fun _ => 0x90, [true, true, true, true, true, false]⟩⟩).2.tracee.mem
        0x1000 = int3 := by
  rw [(breakpointStore_invariant faultyPtrace_laws ⟨fun _ => 0x90, [true, true, true, true, true, false]⟩
    [.enable ⟨0x1000⟩, .enable ⟨0x1003⟩, .disable ⟨0x1000⟩]).2.1 ⟨0x1000⟩]
  decide

end Spray
