/-
Stepping leaves the user's breakpoints as they were.

The enabled set always survives.  The code's bytes survive an operation if and only if the
breakpoints that it steps off have their traps in memory: such a breakpoint is taken out
and put back, and what is put back is a trap, whatever was there before.
-/
import Spray.Proofs.Recorder
import Spray.Proofs.Repl

namespace Spray

open Triple

variable {W : Type}

/-- The bytes of the program's code are the same. -/
def SameCode (mem : W → Memory 64) (code : RealAddr → Prop) (w w' : W) : Prop :=
  ∀ a, code a → mem w' a.value = mem w a.value

/-- A tracee whose memory can be read and written, and which does not write its own code
while it runs. -/
structure CodeLaws (pt : Ptrace W) (mem : W → Memory 64) (code : RealAddr → Prop) : Prop extends
    MemoryServed pt mem where
  getRegs : ∀ w, SameCode mem code w (pt.getRegs w).2
  setRegs : ∀ regs w, SameCode mem code w (pt.setRegs regs w).2
  cont : ∀ w, SameCode mem code w (pt.cont w).2
  singleStep : ∀ w, SameCode mem code w (pt.singleStep w).2
  getSigInfo : ∀ w, SameCode mem code w (pt.getSigInfo w).2
  waitpid : ∀ w, SameCode mem code w (pt.waitpid w).2

/-- The same breakpoints are enabled, and the code has the same bytes. -/
structure KeepsBreakpointsAndCode (mem : W → Memory 64) (code : RealAddr → Prop)
    (d d' : Debugger W) : Prop where
  enabled : ∀ a, lookupBreakpoint d'.breakpoints a = lookupBreakpoint d.breakpoints a
  code : SameCode mem code d.tracee d'.tracee

/-- Every breakpoint in the code that the operation steps off has its trap in memory. -/
def StepsOffTraps (env : Env W) (mem : W → Memory 64) (code : RealAddr → Prop) (fuel : Nat)
    (op : SteppingOp) (d : Debugger W) : Prop :=
  ∀ a ∈ op.steppedFrom env fuel d, code a → lookupBreakpoint d.breakpoints a = true →
    mem d.tracee a.value = int3

/-! ### While an operation runs -/

variable {pt : Ptrace W} {mem : W → Memory 64} {code : RealAddr → Prop} {b : Breakpoints}
  {m : Memory 64} {steps steps' : List RealAddr} {enabled : RealAddr → Bool} {s s' : Store W}

/-- The breakpoints in `enabled` are, and the tracee has been stepped from `steps`, since the
breakpoints were `b` and memory was `m`.  An address in the code that a breakpoint was enabled
at has a trap now if it has been stepped off, and else the byte it had.  Under the traps nothing
has changed. -/
structure SteppedUnder (mem : W → Memory 64) (code : RealAddr → Prop) (b : Breakpoints)
    (m : Memory 64) (steps : List RealAddr) (enabled : RealAddr → Bool) (s : Store W) : Prop where
  lookup : ∀ a, lookupBreakpoint s.breakpoints a = enabled a
  image : ∀ a, code a → unpatched mem s a.value = (savedByte b a).getD (m a.value)
  standing : ∀ a, code a → lookupBreakpoint b a = true → enabled a = true →
    mem s.tracee a.value = if a ∈ steps then int3 else m a.value
  away : ∀ a, lookupBreakpoint b a = true → enabled a = false → a ∈ steps

theorem SteppedUnder.start (mem : W → Memory 64) (code : RealAddr → Prop) (s : Store W) :
    SteppedUnder mem code s.breakpoints (mem s.tracee) [] (lookupBreakpoint s.breakpoints) s where
  lookup _ := rfl
  image _ _ := rfl
  standing _ _ _ _ := rfl
  away a hon hoff := absurd (hon.symm.trans hoff) (by decide)

theorem SteppedUnder.ofSameCode (h : SteppedUnder mem code b m steps enabled s) {w : W}
    (hcode : SameCode mem code s.tracee w) :
    SteppedUnder mem code b m steps enabled { s with tracee := w } where
  lookup := h.lookup
  image a ha := by
    rw [← h.image a ha, unpatched, unpatched, hcode a ha]
  standing a ha hon hen := (hcode a ha).trans (h.standing a ha hon hen)
  away := h.away

theorem SteppedUnder.ofSameStore (h : SteppedUnder mem code b m steps enabled s)
    (hsame : SameStore mem s s') : SteppedUnder mem code b m steps enabled s' where
  lookup a := (hsame.lookup a).trans (h.lookup a)
  image a ha := by rw [hsame.unpatched, h.image a ha]
  standing a ha hon hen := by rw [hsame.mem, h.standing a ha hon hen]
  away := h.away

/-- What is put in is a trap, and the breakpoints of the start are only put in again after they
have been stepped off. -/
theorem SteppedUnder.enable (h : SteppedUnder mem code b m steps enabled s)
    (served : MemoryServed pt mem) (addr : RealAddr) :
    SteppedUnder mem code b m steps (Function.update enabled addr true)
      (enableBreakpoint pt addr s).2 := by
  rcases enableBreakpoint_cases served.toMemoryLaws addr s with
    ⟨-, hs, hsame⟩ | ⟨-, hs, hput⟩ | ⟨herr, -, -⟩
  · have hon : enabled addr = true := by rw [← h.lookup, lookupBreakpoint_of_saved hs]
    rw [← hon, Function.update_eq_self]
    exact h.ofSameStore hsame
  · have hoff : enabled addr = false := by rw [← h.lookup, lookupBreakpoint_of_none hs]
    refine ⟨fun a => ?_, fun a ha => ?_, fun a ha hon hen => ?_, fun a hon hen => ?_⟩
    · rw [hput.lookup, h.lookup]
      by_cases hb : a = addr <;> simp [hb]
    · rw [hput.unpatched hs, h.image a ha]
    · rw [hput.mem]
      by_cases hb : a = addr
      · rw [hb, Function.update_self, if_pos (h.away addr (hb ▸ hon) hoff)]
      · rw [Function.update_of_ne hb] at hen
        rw [Function.update_of_ne (RealAddr.value_ne hb), h.standing a ha hon hen]
    · by_cases hb : a = addr
      · rw [hb, Function.update_self] at hen
        cases hen
      · rw [Function.update_of_ne hb] at hen
        exact h.away a hon hen
  · exact absurd (herr.symm.trans (enableBreakpoint_ok served addr s)) (by decide)

/-- A breakpoint of the start is only taken out as it is stepped off. -/
theorem SteppedUnder.disable (h : SteppedUnder mem code b m steps enabled s)
    (served : MemoryServed pt mem) {addr : RealAddr}
    (hsteps : ∀ a, a ≠ addr → (a ∈ steps' ↔ a ∈ steps))
    (haddr : lookupBreakpoint b addr = true → addr ∈ steps') :
    SteppedUnder mem code b m steps' (Function.update enabled addr false)
      (disableBreakpoint pt addr s).2 := by
  have hlookup := disableBreakpoint_lookup served.toMemoryLaws addr s
  rw [disableBreakpoint_ok served addr s] at hlookup
  have hbyte : ∀ a, a ≠ addr → mem (disableBreakpoint pt addr s).2.tracee a.value =
      mem s.tracee a.value := by
    intro a hb
    rcases disableBreakpoint_cases served.toMemoryLaws addr s with
      ⟨-, -, hsame⟩ | ⟨orig, -, -, hput⟩ | ⟨-, -, hsame⟩
    · rw [hsame.mem]
    · rw [hput.mem, Function.update_of_ne (RealAddr.value_ne hb)]
    · rw [hsame.mem]
  refine ⟨fun a => ?_, fun a ha => ?_, fun a ha hon hen => ?_, fun a hon hen => ?_⟩
  · rw [hlookup, if_pos rfl, h.lookup]
    by_cases hb : a = addr <;> simp [hb]
  · rw [disableBreakpoint_unpatched served.toMemoryLaws, h.image a ha]
  · by_cases hb : a = addr
    · rw [hb, Function.update_self] at hen
      cases hen
    · rw [Function.update_of_ne hb] at hen
      rw [hbyte a hb, h.standing a ha hon hen]
      exact if_congr (hsteps a hb).symm rfl rfl
  · by_cases hb : a = addr
    · rw [hb]
      exact haddr (hb ▸ hon)
    · rw [Function.update_of_ne hb] at hen
      exact (hsteps a hb).mpr (h.away a hon hen)

/-- A step from where there is no breakpoint. -/
theorem SteppedUnder.step (h : SteppedUnder mem code b m steps enabled s) {pc : RealAddr}
    (hoff : enabled pc = false) : SteppedUnder mem code b m (steps ++ [pc]) enabled s where
  lookup := h.lookup
  image := h.image
  standing a ha hon hen := by
    have hne : a ≠ pc := fun hc => absurd (hen.symm.trans (hc ▸ hoff)) (by decide)
    simpa [hne] using h.standing a ha hon hen
  away a hon hen := List.mem_append_left _ (h.away a hon hen)

/-! ### On record -/

variable {env : Env W}

/-- What is known of a recorded debugger. -/
def RecordedUnder (mem : W → Memory 64) (code : RealAddr → Prop) (b : Breakpoints)
    (m : Memory 64) (enabled : RealAddr → Bool) (d : Debugger (Noted W Steps)) : Prop :=
  SteppedUnder (fun w => mem w.tracee) code b m d.tracee.record.stepped enabled d.toStore

theorem MemoryServed.noted {S : Type} (served : MemoryServed pt mem) (recorder : Recorder S) :
    MemoryServed (pt.noted recorder) fun w => mem w.tracee where
  peek_mem a w := served.peek_mem a w.tracee
  peek_val a w := served.peek_val a w.tracee
  poke_ok a x w := served.poke_ok a x w.tracee
  poke_err a x w := served.poke_err a x w.tracee
  peek_some a w := served.peek_some a w.tracee
  poke_true a x w := served.poke_true a x w.tracee

theorem enable_record {S : Type} (recorder : Recorder S) (addr : RealAddr)
    (s : Store (Noted W S)) :
    (enableBreakpoint (pt.noted recorder) addr s).2.tracee.record = s.tracee.record :=
  enableBreakpoint_frame (fun _ _ => rfl) (fun _ _ _ => rfl) addr s

theorem disable_record {S : Type} (recorder : Recorder S) (addr : RealAddr)
    (s : Store (Noted W S)) :
    (disableBreakpoint (pt.noted recorder) addr s).2.tracee.record = s.tracee.record :=
  disableBreakpoint_frame (fun _ _ => rfl) (fun _ _ _ => rfl) addr s

theorem CodeLaws.getRegisterValue (laws : CodeLaws pt mem code) (reg : X86Reg) (w : W) :
    SameCode mem code w (getRegisterValue pt reg w).2 := by
  have h := laws.getRegs w
  unfold Spray.getRegisterValue ptReadRegisters
  generalize pt.getRegs w = out at *
  obtain ⟨_ | _, w'⟩ := out
  · exact h
  · exact h

theorem CodeLaws.setRegisterValue (laws : CodeLaws pt mem code) (reg : X86Reg) (write : Word)
    (w : W) : SameCode mem code w (setRegisterValue pt reg write w).2 := by
  have h := laws.getRegs w
  unfold Spray.setRegisterValue ptReadRegisters ptWriteRegisters
  generalize pt.getRegs w = out at *
  obtain ⟨_ | regs, w'⟩ := out
  · exact h
  · exact fun a ha => (laws.setRegs _ w' a ha).trans (h a ha)

/-- A request that is no single step and leaves the code alone. -/
theorem RecordedUnder.request {α : Type} {f : Noted W Steps → α × Noted W Steps}
    (hcode : ∀ w, SameCode mem code w.tracee (f w).2.tracee)
    (hsteps : ∀ w, (f w).2.record.stepped = w.record.stepped) :
    Spec (RecordedUnder mem code b m enabled) (request f)
      fun _ => RecordedUnder mem code b m enabled := by
  intro d hd
  show SteppedUnder _ code b m (f d.tracee).2.record.stepped enabled _
  rw [hsteps]
  exact SteppedUnder.ofSameCode hd (hcode d.tracee)

theorem RecordedUnder.getRegister (laws : CodeLaws env.pt mem code) (reg : X86Reg) :
    Spec (RecordedUnder mem code b m enabled)
      (Spray.request (getRegisterValue (env.noted stepRecorder).pt reg))
      fun _ => RecordedUnder mem code b m enabled := by
  have hread : ∀ w, getRegisterValue (env.noted stepRecorder).pt reg w = _ :=
    getRegisterValue_noted env.pt reg
  refine RecordedUnder.request (fun w => ?_) fun w => ?_
  · rw [hread]
    exact laws.getRegisterValue reg w.tracee
  · rw [hread]
    rfl

theorem RecordedUnder.setRegister (laws : CodeLaws env.pt mem code) (reg : X86Reg) (write : Word) :
    Spec (RecordedUnder mem code b m enabled)
      (Spray.request (setRegisterValue (env.noted stepRecorder).pt reg write))
      fun _ => RecordedUnder mem code b m enabled := by
  have hwrite : ∀ w, setRegisterValue (env.noted stepRecorder).pt reg write w = _ :=
    setRegisterValue_noted env.pt reg write
  refine RecordedUnder.request (fun w => ?_) fun w => ?_
  · rw [hwrite]
    exact laws.setRegisterValue reg write w.tracee
  · rw [hwrite]
    rfl

/-- The PC that is read is put on record. -/
theorem RecordedUnder.getPc (laws : CodeLaws env.pt mem code) :
    Spec (RecordedUnder mem code b m enabled) (getPc (env.noted stepRecorder)) fun pc d =>
      RecordedUnder mem code b m enabled d ∧ d.tracee.record.pc = pc := by
  have hread : Spec (RecordedUnder mem code b m enabled)
      (Spray.request (getRegisterValue (env.noted stepRecorder).pt .rip)) fun store d =>
        RecordedUnder mem code b m enabled d ∧ d.tracee.record.pc = ⟨store.getD 0⟩ := by
    intro d hd
    refine ⟨RecordedUnder.getRegister laws .rip d hd, ?_⟩
    have hrip : getRegisterValue (env.noted stepRecorder).pt .rip d.tracee = _ :=
      getRegisterValue_noted env.pt .rip d.tracee
    rw [hrip]
    unfold getRegisterValue ptReadRegisters
    generalize env.pt.getRegs d.tracee.tracee = out
    obtain ⟨_ | regs, w⟩ := out
    · rfl
    · rfl
  refine Holds.bind hread ?_
  rintro (_ | store)
  · exact Holds.pure fun _ => id
  · exact Holds.pure fun _ => id

theorem RecordedUnder.awaitStatus (laws : CodeLaws env.pt mem code) :
    Spec (RecordedUnder mem code b m enabled) (awaitStatus (env.noted stepRecorder).pt)
      fun _ => RecordedUnder mem code b m enabled := by
  intro d hd
  have hw := laws.waitpid d.tracee.tracee
  have hwait : (env.noted stepRecorder).pt.waitpid d.tracee =
    ((env.pt.waitpid d.tracee.tracee).1,
      ⟨(env.pt.waitpid d.tracee.tracee).2, d.tracee.record⟩) := rfl
  unfold Spray.awaitStatus
  rw [hwait]
  generalize env.pt.waitpid d.tracee.tracee = out at *
  obtain ⟨_ | _ | _, w⟩ := out
  · exact SteppedUnder.ofSameCode hd hw
  · trivial
  · trivial

theorem RecordedUnder.enable (laws : CodeLaws env.pt mem code) (addr : RealAddr) :
    Spec (RecordedUnder mem code b m enabled)
      (onStore (enableBreakpoint (env.noted stepRecorder).pt addr))
      fun _ => RecordedUnder mem code b m (Function.update enabled addr true) := by
  intro d hd
  have hsame : (enableBreakpoint (env.noted stepRecorder).pt addr d.toStore).2.tracee.record =
    d.tracee.record := enable_record stepRecorder addr d.toStore
  show SteppedUnder _ code b m (Steps.stepped (Noted.record _)) _ _
  rw [hsame]
  exact SteppedUnder.enable hd (laws.toMemoryServed.noted stepRecorder) addr

theorem RecordedUnder.disable (laws : CodeLaws env.pt mem code) {addr : RealAddr}
    (huser : lookupBreakpoint b addr = false) :
    Spec (RecordedUnder mem code b m enabled)
      (onStore (disableBreakpoint (env.noted stepRecorder).pt addr))
      fun _ => RecordedUnder mem code b m (Function.update enabled addr false) := by
  intro d hd
  have hsame : (disableBreakpoint (env.noted stepRecorder).pt addr d.toStore).2.tracee.record =
    d.tracee.record := disable_record stepRecorder addr d.toStore
  show SteppedUnder _ code b m (Steps.stepped (Noted.record _)) _ _
  rw [hsame]
  refine SteppedUnder.disable hd (laws.toMemoryServed.noted stepRecorder) (fun _ _ => Iff.rfl) ?_
  exact fun hon => absurd (hon.symm.trans huser) (by decide)

/-- A step is put on record with the PC that was read last. -/
theorem RecordedUnder.step (laws : CodeLaws env.pt mem code) {pc : RealAddr}
    (hoff : enabled pc = false) :
    Spec (fun d => RecordedUnder mem code b m enabled d ∧ d.tracee.record.pc = pc)
      (Spray.request (ptSingleStep (env.noted stepRecorder).pt))
      fun _ => RecordedUnder mem code b m enabled := by
  rintro d ⟨hd, rfl⟩
  exact (SteppedUnder.step hd hoff).ofSameCode (laws.singleStep d.tracee.tracee)

/-- Stepping off a breakpoint, it is taken out before the step is put on record. -/
theorem RecordedUnder.stepOff (laws : CodeLaws env.pt mem code) (pc : RealAddr) :
    Spec (fun d => RecordedUnder mem code b m enabled d ∧ d.tracee.record.pc = pc)
      (onStore (disableBreakpoint (env.noted stepRecorder).pt pc) >>= fun _ =>
        Spray.request (ptSingleStep (env.noted stepRecorder).pt))
      fun _ => RecordedUnder mem code b m (Function.update enabled pc false) := by
  rintro d ⟨hd, rfl⟩
  set pc := d.tracee.record.pc
  set s := (disableBreakpoint (env.noted stepRecorder).pt pc d.toStore).2 with hs
  have hout : SteppedUnder (fun w => mem w.tracee) code b m (d.tracee.record.stepped ++ [pc])
      (Function.update enabled pc false) s := by
    refine SteppedUnder.disable hd (laws.toMemoryServed.noted stepRecorder) (fun a ha => ?_) ?_
    · simp [ha]
    · exact fun _ => List.mem_append_right _ List.mem_cons_self
  have hrecord : s.tracee.record = d.tracee.record := disable_record stepRecorder pc d.toStore
  have hstep : ((env.noted stepRecorder).pt.singleStep s.tracee).2.record.stepped =
      d.tracee.record.stepped ++ [pc] := by
    show s.tracee.record.stepped ++ [s.tracee.record.pc] = _
    rw [hrecord]
  rw [← hstep] at hout
  exact hout.ofSameCode (laws.singleStep s.tracee.tracee)

/-- What is known goes with the enabled set, and the PC that has just been read is on record. -/
theorem recorded_follows (laws : CodeLaws env.pt mem code) :
    FollowsSet (env.noted stepRecorder) (lookupBreakpoint b) (RecordedUnder mem code b m)
      fun pc enabled d => RecordedUnder mem code b m enabled d ∧ d.tracee.record.pc = pc where
  lookup hd := hd.lookup
  of_reads hd := hd.1
  say _ _ _ hd := hd
  getPc _ := RecordedUnder.getPc laws
  getRegister reg _ := RecordedUnder.getRegister laws reg
  setRegister reg write _ := RecordedUnder.setRegister laws reg write
  readMemory addr _ := RecordedUnder.request
    (fun w a _ => congrFun (laws.peek_mem addr.value w.tracee) a.value) fun _ => rfl
  cont _ := RecordedUnder.request (fun w => laws.cont w.tracee) fun _ => rfl
  getSignalInfo _ := RecordedUnder.request (fun w => laws.getSigInfo w.tracee) fun _ => rfl
  awaitStatus _ := RecordedUnder.awaitStatus laws
  enable addr _ := RecordedUnder.enable laws addr
  disable _ _ huser := RecordedUnder.disable laws huser
  step _ _ hoff := RecordedUnder.step laws hoff
  stepOff pc _ _ := RecordedUnder.stepOff laws pc

/-- **What an operation leaves**, now that it is not recorded. -/
theorem SteppingOp.exec_leaves (laws : CodeLaws env.pt mem code) {op : SteppingOp} {fuel : Nat}
    {d d' : Debugger W} {res : SprayResult} (hrun : op.exec env fuel d = .ok res d') :
    SteppedUnder mem code d.breakpoints (mem d.tracee) (op.steppedFrom env fuel d)
      (lookupBreakpoint d.breakpoints) d'.toStore := by
  have hagrees : Agrees Debugger.erase (op.exec (env.noted stepRecorder) fuel) (op.exec env fuel) :=
    exec_agrees op fuel
  obtain ⟨d'', hrecorded, rfl⟩ := hagrees.of_ok (r := d.noted Steps.zero) hrun
  have hstart : RecordedUnder mem code d.breakpoints (mem d.tracee)
      (lookupBreakpoint d.breakpoints) (d.noted Steps.zero) :=
    SteppedUnder.start (fun w : Noted W Steps => mem w.tracee) code (d.noted Steps.zero).toStore
  have hown : HasOwn (lookupBreakpoint d.breakpoints) (lookupBreakpoint d.breakpoints) :=
    fun _ => id
  have hafter := ((recorded_follows laws).exec hown fuel op).of_ok hstart hrecorded
  have hsteps : op.steppedFrom env fuel d = d''.tracee.record.stepped := by
    unfold SteppingOp.steppedFrom finalState
    rw [hrecorded]
  rw [hsteps]
  exact ⟨hafter.lookup, hafter.image, hafter.standing, hafter.away⟩

/-- Where no breakpoint was enabled the byte is the one there was. -/
theorem SteppedUnder.byte_eq {d d' : Debugger W} (h : SteppedUnder mem code d.breakpoints
    (mem d.tracee) steps (lookupBreakpoint d.breakpoints) d'.toStore) {a : RealAddr} (ha : code a) :
    mem d'.tracee a.value = if lookupBreakpoint d.breakpoints a = true ∧ a ∈ steps then int3
      else mem d.tracee a.value := by
  cases hon : lookupBreakpoint d.breakpoints a with
  | true => simpa [hon] using h.standing a ha hon hon
  | false =>
      have hbefore : savedByte d.breakpoints a = none := by
        simpa [lookupBreakpoint_eq] using hon
      have hafter : savedByte d'.breakpoints ⟨a.value⟩ = none := by
        simpa [lookupBreakpoint_eq] using (h.lookup a).trans hon
      have himage := h.image a ha
      rw [unpatched, hbefore, hafter] at himage
      simpa using himage

/--
**When stepping leaves the user's breakpoints exactly as they were.**  Every operation that
ends keeps the enabled set, and the code's bytes if and only if the breakpoints in the code
that it steps off have their traps in memory when it starts, whatever the tracee does.  At the
prompt, traps in place or not, the enabled breakpoints are those of the user's last commands.
-/
theorem steppingKeeps_iff_stepsOffTraps (env : Env W) (mem : W → Memory 64) :
    (∀ code, CodeLaws env.pt mem code →
      ∀ (op : SteppingOp) (fuel : Nat) (d d' : Debugger W) (res : SprayResult),
        op.exec env fuel d = .ok res d' →
        (∀ a, lookupBreakpoint d'.breakpoints a = lookupBreakpoint d.breakpoints a) ∧
        (KeepsBreakpointsAndCode mem code d d' ↔ StepsOffTraps env mem code fuel op d)) ∧
    (MemoryServed env.pt mem →
      ∀ (d d₁ d₂ : Debugger W) (fuel : Nat) (commands : List Command),
        d.breakpoints = initBreakpoints → startDebugger env fuel d = .ok true d₁ →
        commands.forM (Command.exec env fuel) d₁ = .ok () d₂ →
        ∀ a, lookupBreakpoint d₂.breakpoints a = isBroken commands a) := by
  refine ⟨fun code laws op fuel d d' res hrun => ?_, ?_⟩
  · have hleft := op.exec_leaves laws hrun
    refine ⟨hleft.lookup, fun h a hstep ha hon => ?_, fun htraps => ⟨hleft.lookup, fun a ha => ?_⟩⟩
    · have hbyte := (hleft.byte_eq ha).symm.trans (h.code a ha)
      rw [if_pos ⟨hon, hstep⟩] at hbyte
      exact hbyte.symm
    · rw [hleft.byte_eq ha]
      split
      · rename_i hstep
        exact (htraps a hstep.2 ha hstep.1).symm
      · rfl
  · intro served d d₁ d₂ fuel commands hinit hstart hrun a
    have hempty : Enabled (fun _ => false) d := fun a => by rw [hinit]; rfl
    have hprompt := (startDebugger_enabled served fuel (fun _ => rfl)).of_ok hempty hstart
    exact (commands_enabled served fuel commands _).of_ok (hprompt rfl) hrun a

/-! ### A process that stands still

It reports every step as completed and never moves.
-/

structure StandingTracee where
  mem : Memory 64
  pc : Word

def standingPtrace : Ptrace StandingTracee where
  peekData a w := (some (Memory.readWord w.mem a 8), w)
  pokeData a x w := (true, { w with mem := Memory.writeWord (k := 8) w.mem a x })
  getRegs w := (some (Function.update (fun _ => 0) .rip w.pc), w)
  setRegs regs w := (true, { w with pc := regs .rip })
  cont w := (none, w)
  singleStep w := (true, w)
  getSigInfo w := (some ⟨.SIGTRAP, .TRAP_TRACE⟩, w)
  waitpid w := (.status (.stopped .SIGTRAP), w)

theorem standingPtrace_laws (code : RealAddr → Prop) :
    CodeLaws standingPtrace StandingTracee.mem code where
  peek_mem _ _ := rfl
  peek_val _ _ _ h := (Option.some.inj h).symm
  poke_ok _ _ _ _ := rfl
  poke_err _ _ _ h := absurd h (by simp [standingPtrace])
  peek_some _ _ := by simp [standingPtrace]
  poke_true _ _ _ := rfl
  getRegs _ _ _ := rfl
  setRegs _ _ _ _ := rfl
  cont _ _ _ := rfl
  singleStep _ _ _ := rfl
  getSigInfo _ _ _ := rfl
  waitpid _ _ _ := rfl

/-- An enabled breakpoint at 0x1000 whose trap a `set` has overwritten, and the PC. -/
def overwrittenDebugger (pc : Word) : Debugger StandingTracee :=
  finalState (do
    execBreak (strippedEnv standingPtrace) ⟨0x1000⟩
    execSetMemory (strippedEnv standingPtrace) ⟨0x1000⟩ 0x90 .NONE)
    ⟨⟨initBreakpoints, ⟨fun _ => 0x90, pc⟩⟩, ⟨0⟩, []⟩

/-- An instruction is stepped there. -/
def overwrittenStep (pc : Word) : Debugger StandingTracee :=
  finalState (SteppingOp.singleStepInstruction.exec (strippedEnv standingPtrace) 1)
    (overwrittenDebugger pc)

/-- Stepping an instruction from 0x1000 turns the byte the user wrote there back into a trap. -/
theorem steppingKeeps_fails_overwritten :
    CodeLaws (strippedEnv standingPtrace).pt StandingTracee.mem (fun _ => True) ∧
    SteppingOp.singleStepInstruction.exec (strippedEnv standingPtrace) 1
      (overwrittenDebugger 0x1000) = .ok .ok (overwrittenStep 0x1000) ∧
    ¬ KeepsBreakpointsAndCode StandingTracee.mem (fun _ => True) (overwrittenDebugger 0x1000)
      (overwrittenStep 0x1000) := by
  refine ⟨standingPtrace_laws _, eq_ok_of_returned (by decide +kernel), fun h => ?_⟩
  exact absurd (h.code ⟨0x1000⟩ trivial) (by decide +kernel)

/-- An executable of which only the symbol of `main` is known. -/
def mainEnv : Env StandingTracee :=
  { strippedEnv standingPtrace with
    info :=
      { elf := ⟨.EXEC, [⟨"main", 0x1000, 16, .STT_FUNC⟩]⟩
        dbg := ⟨fun _ => none, fun _ => {}, fun _ _ => [], fun _ _ => none⟩ } }

def mainDebugger : Debugger StandingTracee :=
  ⟨⟨initBreakpoints, ⟨fun _ => 0x90, 0x1000⟩⟩, ⟨0⟩, []⟩

def promptDebugger : Debugger StandingTracee := finalState (startDebugger mainEnv 1) mainDebugger

/-- A session that breaks at the PC, steps over the breakpoint, and deletes another one. -/
def sampleSession : List Command :=
  [.break_ ⟨0x1000⟩, .break_ ⟨0x1001⟩, .inst, .delete ⟨0x1001⟩]

/-- With the PC elsewhere, the overwritten breakpoint is not stepped off. -/
theorem steppingKeeps_session :
    KeepsBreakpointsAndCode StandingTracee.mem (fun _ => True) (overwrittenDebugger 0x2000)
      (overwrittenStep 0x2000) ∧
    ∀ a, lookupBreakpoint
        (finalState (sampleSession.forM (Command.exec mainEnv 1)) promptDebugger).breakpoints a =
      isBroken sampleSession a := by
  constructor
  · have hrun : SteppingOp.singleStepInstruction.exec (strippedEnv standingPtrace) 1
        (overwrittenDebugger 0x2000) = .ok .ok (overwrittenStep 0x2000) :=
      eq_ok_of_returned (by decide +kernel)
    refine ((steppingKeeps_iff_stepsOffTraps _ _).1 (fun _ => True) (standingPtrace_laws _)
      _ _ _ _ _ hrun).2.mpr fun a hstep _ hon => ?_
    have hsteps : SteppingOp.singleStepInstruction.steppedFrom (strippedEnv standingPtrace) 1
        (overwrittenDebugger 0x2000) = [⟨0x2000⟩] := by decide +kernel
    rw [hsteps] at hstep
    rw [List.mem_singleton.mp hstep] at hon
    exact absurd hon (by decide +kernel)
  · exact (steppingKeeps_iff_stepsOffTraps mainEnv StandingTracee.mem).2
      (standingPtrace_laws fun _ => False).toMemoryServed mainDebugger promptDebugger _ 1
      sampleSession rfl (eq_ok_of_returned (by decide +kernel))
      (eq_ok_of_returned (by decide +kernel))

end Spray
