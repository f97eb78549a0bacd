/-
A tracee under traps, and the view of it without.

`Shadows` relates the debugger and its tracee to a view: the two processors agree but for the
traps, and the traps are the breakpoints of the view.  Each request and each wait is said
once in terms of it.  A wait that ends does so where the program by itself would be.
-/
import Spray.Ideal
import Spray.Proofs.Commands
import Spray.Proofs.Transparency

namespace Spray

open Triple

variable {X : Type}

/-! ### The relation -/

/-- The tracee is the program of the view, under a trap for each of its breakpoints. -/
structure Shadows (s : Debuggee X) (st : RunState) (v : View X) (d : Debugger (Machine X)) :
    Prop where
  overlay : Overlay Machine.mem (fun a => s.program.code a.value)
    (fun a => s.program.image a.value) d.toStore
  enabled : ∀ a, lookupBreakpoint d.breakpoints a = v.enabled a
  state : d.tracee.state = st
  data : SameData s.program.code d.tracee.cpu v.cpu
  /-- In the view, memory has the program's own code. -/
  own : ∀ a, s.program.code a → v.cpu.mem a = s.program.image a
  boundary : s.program.boundary v.cpu.pc
  /-- Breakpoints are where instructions start. -/
  apart : ∀ a, v.enabled a = true → s.program.boundary a.value
  loadAddress : d.loadAddress = v.loadAddress
  output : d.output = v.output

/-- The tracee is stopped. -/
def Stands (s : Debuggee X) (v : View X) (d : Debugger (Machine X)) : Prop :=
  ∃ code, Shadows s (.stopped code) v d

theorem get_run {W : Type} (d : Debugger W) : (MonadState.get : DbgM W _) d = .ok d d := rfl

theorem machine_answers {p : Program X} {codes : StopCodes} {limit : Nat} {m : Machine X}
    (h : m.isStopped = true) : Answers (p.ptrace codes limit) m where
  peek_some a := by simp [Program.ptrace, h]
  poke_true a b x := by simp [Program.ptrace, h]

/-- The program has exited, and all of this has been printed. -/
structure Exited (out : List Message) (d : Debugger (Machine X)) : Prop where
  exited : d.tracee.state = .exited
  output : out <+: d.output

variable {s : Debuggee X} {codes : StopCodes} {limit fuel : Nat} {st : RunState}
  {code : SiCode} {v : View X} {d : Debugger (Machine X)}

namespace Shadows

theorem regs (h : Shadows s st v d) : d.tracee.cpu.regs = v.cpu.regs := h.data.regs

theorem pc (h : Shadows s st v d) : d.tracee.cpu.pc = v.cpu.pc := h.data.pc

/-- Away from the breakpoints memory is the program's own. -/
theorem byte (h : Shadows s st v d) {a : Word} (ha : v.enabled ⟨a⟩ = false) :
    d.tracee.cpu.mem a = v.cpu.mem a := by
  by_cases hcode : s.program.code a
  · have hbyte := h.overlay.byte ⟨a⟩ hcode
    rw [h.enabled, ha, if_neg Bool.false_ne_true] at hbyte
    exact hbyte.trans (h.own a hcode).symm
  · exact h.data.mem a hcode

theorem word (h : Shadows s st v d) {addr : RealAddr} (ha : v.Untrapped addr) :
    Memory.readWord d.tracee.cpu.mem addr.value 8 = v.readMemory addr :=
  Memory.readWord_congr fun i hi => h.byte (ha i hi)

/-- Data has no breakpoint. -/
theorem untrapped (h : Shadows s st v d) {addr : RealAddr} (ha : s.IsData addr) :
    v.Untrapped addr := by
  intro i hi
  rw [← Bool.not_eq_true]
  intro hon
  exact ha i hi (boundary_code (h.apart _ hon))

theorem printed (h : Shadows s st v d) (msgs : List Message) :
    Shadows s st (v.printed msgs) { d with output := d.output ++ msgs } where
  overlay := h.overlay
  enabled := h.enabled
  state := h.state
  data := h.data
  own := h.own
  boundary := h.boundary
  apart := h.apart
  loadAddress := h.loadAddress
  output := congrArg (· ++ msgs) h.output

/-- Only whether the tracee is stopped, stepping or continuing differs. -/
theorem withState (h : Shadows s st v d) (st' : RunState) :
    Shadows s st' v { d with tracee := { d.tracee with state := st' } } where
  overlay := ⟨h.overlay.byte, h.overlay.orig⟩
  enabled := h.enabled
  state := rfl
  data := h.data
  own := h.own
  boundary := h.boundary
  apart := h.apart
  loadAddress := h.loadAddress
  output := h.output

/-! ### Requests of a stopped tracee -/

theorem isStopped (h : Shadows s (.stopped code) v d) : d.tracee.isStopped = true := by
  unfold Machine.isStopped
  rw [h.state]

theorem getRegister (h : Shadows s (.stopped code) v d) (reg : X86Reg) :
    request (getRegisterValue (s.env codes limit).pt reg) d = .ok (some (v.cpu.regs reg)) d := by
  have hget : getRegisterValue (s.program.ptrace codes limit) reg d.tracee =
      (some (v.cpu.regs reg), d.tracee) := by
    unfold getRegisterValue ptReadRegisters
    simp [Program.ptrace, h.isStopped, h.regs]
  show request (getRegisterValue (s.program.ptrace codes limit) reg) d = _
  unfold request
  rw [hget]

theorem getPc (h : Shadows s (.stopped code) v d) :
    getPc (s.env codes limit) d = .ok v.pc d := by
  unfold Spray.getPc
  rw [bind_run (h.getRegister .rip)]
  rfl

theorem getDbgPc (h : Shadows s (.stopped code) v d) :
    getDbgPc (s.env codes limit) d = .ok v.dbgPc d := by
  unfold Spray.getDbgPc
  rw [bind_run h.getPc]
  show EStateM.Result.ok (realToDbg d.loadAddress v.pc) d = _
  rw [h.loadAddress]
  rfl

theorem readMemory (h : Shadows s (.stopped code) v d) {addr : RealAddr}
    (ha : v.Untrapped addr) :
    request (ptReadMemory (s.env codes limit).pt addr) d = .ok (some (v.readMemory addr)) d := by
  have hread : ptReadMemory (s.program.ptrace codes limit) addr d.tracee =
      (some (v.readMemory addr), d.tracee) := by
    unfold ptReadMemory
    simp [Program.ptrace, h.isStopped, h.word ha]
  show request (ptReadMemory (s.program.ptrace codes limit) addr) d = _
  unfold request
  rw [hread]

theorem isUserBreakpoint (h : Shadows s (.stopped code) v d) :
    isUserBreakpoint (s.env codes limit) d = .ok (v.enabled v.pc) d := by
  unfold Spray.isUserBreakpoint
  rw [bind_run h.getPc]
  show EStateM.Result.ok (lookupBreakpoint d.breakpoints v.pc) d = _
  rw [h.enabled]

/-- Registers may be set, if the program counter stays on an instruction. -/
theorem setRegister (h : Shadows s (.stopped code) v d) (codes : StopCodes) (limit : Nat)
    {reg : X86Reg} {word : Word} (hpc : reg = .rip → s.program.boundary word) :
    ∃ d', request (setRegisterValue (s.env codes limit).pt reg word) d = .ok .ok d' ∧
      Shadows s (.stopped code) (v.setRegister reg word) d' := by
  have hset : setRegisterValue (s.program.ptrace codes limit) reg word d.tracee =
      (.ok, { d.tracee with cpu := { d.tracee.cpu with
        regs := Function.update d.tracee.cpu.regs reg word } }) := by
    unfold setRegisterValue ptReadRegisters ptWriteRegisters
    simp [Program.ptrace, h.isStopped, SprayResult.ofBool]
  refine ⟨{ d with tracee := { d.tracee with cpu := { d.tracee.cpu with
    regs := Function.update d.tracee.cpu.regs reg word } } }, ?_, ?_⟩
  · show request (setRegisterValue (s.program.ptrace codes limit) reg word) d = _
    unfold request
    rw [hset]
  · refine ⟨⟨h.overlay.byte, h.overlay.orig⟩, h.enabled, h.state, ⟨?_, h.data.ext, h.data.mem⟩,
      h.own, ?_, h.apart, h.loadAddress, h.output⟩
    · exact congrArg (Function.update · reg word) h.regs
    · show s.program.boundary (Function.update v.cpu.regs reg word .rip)
      by_cases hreg : reg = .rip
      · rw [← hreg, Function.update_self]
        exact hpc hreg
      · rw [Function.update_of_ne (Ne.symm hreg)]
        exact h.boundary

/-- Data may be written. -/
theorem writeMemory (h : Shadows s (.stopped code) v d) (codes : StopCodes) (limit : Nat)
    {addr : RealAddr} (word : Word) (hdata : s.IsData addr) :
    ∃ d', request (ptWriteMemory (s.env codes limit).pt addr word) d = .ok .ok d' ∧
      Shadows s (.stopped code) (v.writeMemory addr word) d' := by
  have hset : ptWriteMemory (s.program.ptrace codes limit) addr word d.tracee =
      (.ok, { d.tracee with cpu := { d.tracee.cpu with
        mem := Memory.writeWord (k := 8) d.tracee.cpu.mem addr.value word } }) := by
    unfold ptWriteMemory
    simp [Program.ptrace, h.isStopped, SprayResult.ofBool]
  have hcode : ∀ (m : Memory 64) (a : Word), s.program.code a →
      Memory.writeWord (k := 8) m addr.value word a = m a := by
    intro m a ha
    rw [Memory.writeWord_apply, if_neg]
    intro hlt
    refine hdata _ hlt ?_
    rwa [Memory.add_sub_toNat]
  refine ⟨{ d with tracee := { d.tracee with cpu := { d.tracee.cpu with
    mem := Memory.writeWord (k := 8) d.tracee.cpu.mem addr.value word } } }, ?_, ?_⟩
  · show request (ptWriteMemory (s.program.ptrace codes limit) addr word) d = _
    unfold request
    rw [hset]
  · refine ⟨⟨fun a ha => ?_, h.overlay.orig⟩, h.enabled, h.state, ⟨h.regs, h.data.ext, ?_⟩, ?_,
      h.boundary, h.apart, h.loadAddress, h.output⟩
    · exact (hcode _ _ ha).trans (h.overlay.byte a ha)
    · intro a ha
      show Memory.writeWord _ _ _ a = Memory.writeWord _ _ _ a
      rw [Memory.writeWord_apply, Memory.writeWord_apply, h.data.mem a ha]
    · exact fun a ha => (hcode _ _ ha).trans (h.own a ha)

/-- Breakpoints come and go as their addresses say. -/
theorem ofStore (h : Shadows s (.stopped code) v d) {t : Store (Machine X)}
    {enabled : RealAddr → Bool}
    (hoverlay : Overlay Machine.mem (fun a => s.program.code a.value)
      (fun a => s.program.image a.value) t)
    (henabled : ∀ a, lookupBreakpoint t.breakpoints a = enabled a)
    (hframe : t.tracee.frame = d.tracee.frame)
    (hdata : ∀ a, ¬ s.program.code a → t.tracee.mem a = d.tracee.mem a)
    (hapart : ∀ a, enabled a = true → s.program.boundary a.value) :
    Shadows s (.stopped code) (v.withEnabled enabled) { d with toStore := t } := by
  obtain ⟨hregs, hext, hstate, -⟩ :
      t.tracee.cpu.regs = d.tracee.cpu.regs ∧ t.tracee.cpu.ext = d.tracee.cpu.ext ∧
        t.tracee.state = d.tracee.state ∧ t.tracee.log = d.tracee.log := by
    simpa [Machine.frame] using hframe
  exact ⟨hoverlay, henabled, hstate.trans h.state, ⟨hregs.trans h.regs, hext.trans h.data.ext,
    fun a ha => (hdata a ha).trans (h.data.mem a ha)⟩, h.own, h.boundary, hapart, h.loadAddress,
    h.output⟩

theorem enable (h : Shadows s (.stopped code) v d) (codes : StopCodes) (limit : Nat)
    {addr : RealAddr} (haddr : s.program.boundary addr.value) :
    ∃ d', onStore (enableBreakpoint (s.env codes limit).pt addr) d = .ok .ok d' ∧
      Shadows s (.stopped code) (v.withEnabled (Function.update v.enabled addr true)) d' := by
  have laws : MemoryLaws (s.program.ptrace codes limit) Machine.mem := machine_laws
  have hok : (enableBreakpoint (s.program.ptrace codes limit) addr d.toStore).1 = .ok :=
    enableBreakpoint_answered addr (machine_answers h.isStopped)
  refine ⟨{ d with toStore :=
      (enableBreakpoint (s.program.ptrace codes limit) addr d.toStore).2 },
    congrArg (EStateM.Result.ok · _) hok,
    h.ofStore (h.overlay.enable laws addr) (fun a => ?_)
      (enableBreakpoint_frame peek_frame poke_frame addr d.toStore) (fun a ha => ?_)
      fun a ha => ?_⟩
  · rw [enableBreakpoint_lookup laws, hok, if_pos rfl, h.enabled]
    by_cases heq : a = addr
    · simp [heq]
    · simp [heq]
  · have hne : a ≠ addr.value := fun heq => ha (heq ▸ boundary_code haddr)
    rcases enableBreakpoint_cases laws addr d.toStore with
      ⟨-, -, hsame⟩ | ⟨-, -, hpatched⟩ | ⟨-, -, hsame⟩
    · exact congrFun hsame.mem a
    · exact (congrFun hpatched.mem a).trans (Function.update_of_ne hne _ _)
    · exact congrFun hsame.mem a
  · by_cases heq : a = addr
    · exact heq ▸ haddr
    · rw [Function.update_of_ne heq] at ha
      exact h.apart a ha

theorem disable (h : Shadows s (.stopped code) v d) (codes : StopCodes) (limit : Nat)
    (addr : RealAddr) :
    ∃ d', onStore (disableBreakpoint (s.env codes limit).pt addr) d = .ok .ok d' ∧
      Shadows s (.stopped code) (v.withEnabled (Function.update v.enabled addr false)) d' := by
  have laws : MemoryLaws (s.program.ptrace codes limit) Machine.mem := machine_laws
  have hok : (disableBreakpoint (s.program.ptrace codes limit) addr d.toStore).1 = .ok :=
    disableBreakpoint_answered addr (machine_answers h.isStopped)
  refine ⟨{ d with toStore :=
      (disableBreakpoint (s.program.ptrace codes limit) addr d.toStore).2 },
    congrArg (EStateM.Result.ok · _) hok,
    h.ofStore (h.overlay.disable laws addr) (fun a => ?_)
      (disableBreakpoint_frame peek_frame poke_frame addr d.toStore) (fun a ha => ?_)
      fun a ha => ?_⟩
  · rw [disableBreakpoint_lookup laws, hok, if_pos rfl, h.enabled]
    by_cases heq : a = addr
    · simp [heq]
    · simp [heq]
  · rcases disableBreakpoint_cases laws addr d.toStore with
      ⟨-, -, hsame⟩ | ⟨orig, -, hsaved, hrestored⟩ | ⟨-, -, hsame⟩
    · exact congrFun hsame.mem a
    · have hon := lookupBreakpoint_of_saved (by rw [hsaved]; exact Option.some_ne_none orig)
      rw [h.enabled] at hon
      have hne : a ≠ addr.value := fun heq => ha (heq ▸ boundary_code (h.apart addr hon))
      exact (congrFun hrestored.mem a).trans (Function.update_of_ne hne _ _)
    · exact congrFun hsame.mem a
  · by_cases heq : a = addr
    · rw [heq, Function.update_self] at ha
      cases ha
    · rw [Function.update_of_ne heq] at ha
      exact h.apart a ha

/-! ### Executing instructions -/

/-- Where the view has a breakpoint the tracee has a trap. -/
theorem trapped (h : Shadows s st v d) (hon : v.enabled v.pc = true) :
    d.tracee.cpu.mem d.tracee.cpu.pc = int3 := by
  have hbyte := h.overlay.byte v.pc (boundary_code h.boundary)
  rw [h.enabled, hon, if_pos rfl] at hbyte
  rw [h.pc]
  exact hbyte

/-- Elsewhere it has the instruction itself. -/
theorem instruction (h : Shadows s st v d) (hoff : v.enabled v.pc = false) {i : Nat}
    (hi : i < s.program.len d.tracee.cpu.pc) :
    d.tracee.cpu.mem (d.tracee.cpu.pc + BitVec.ofNat 64 i) =
      v.cpu.mem (d.tracee.cpu.pc + BitVec.ofNat 64 i) := by
  refine h.byte ?_
  rw [h.pc] at hi ⊢
  rw [← Bool.not_eq_true]
  intro hon
  obtain rfl := s.program.apart v.cpu.pc i h.boundary hi (h.apart _ hon)
  rw [show v.cpu.pc + BitVec.ofNat 64 0 = v.cpu.pc from BitVec.add_zero _] at hon
  exact Bool.false_ne_true (hoff.symm.trans hon)

theorem not_trapped (h : Shadows s st v d) (hoff : v.enabled v.pc = false) :
    d.tracee.cpu.mem d.tracee.cpu.pc ≠ int3 := by
  rw [h.pc, h.byte hoff, h.own _ (boundary_code h.boundary)]
  exact s.program.no_trap _ h.boundary

/-- Both processors complete the instruction alike. -/
theorem sameOutcome (h : Shadows s st v d) (hoff : v.enabled v.pc = false) :
    SameOutcome s.program.code (s.program.step d.tracee.cpu) (s.program.step v.cpu) :=
  s.program.reads_itself _ _ (h.pc.symm ▸ h.boundary) h.data fun _ => h.instruction hoff

theorem step_error (h : Shadows s st v d) (hoff : v.enabled v.pc = false) {e : Nat}
    (hstep : s.program.step v.cpu = .error e) : s.program.step d.tracee.cpu = .error e := by
  have hsame := h.sameOutcome hoff
  rw [hstep] at hsame
  cases hreal : s.program.step d.tracee.cpu with
  | ok c => rw [hreal] at hsame; exact hsame.elim
  | error e' => rw [hreal] at hsame; exact congrArg Except.error hsame

/-- An instruction leads from a view to the next one. -/
theorem step_ok (h : Shadows s st v d) (hoff : v.enabled v.pc = false) {c : Cpu X}
    (hstep : s.program.step v.cpu = .ok c) : ∃ c', s.program.step d.tracee.cpu = .ok c' ∧
      ∀ log, Shadows s st (v.withCpu c) { d with tracee := ⟨c', d.tracee.state, log⟩ } := by
  have hsame := h.sameOutcome hoff
  rw [hstep] at hsame
  cases hreal : s.program.step d.tracee.cpu with
  | error e => rw [hreal] at hsame; exact hsame.elim
  | ok c' =>
      rw [hreal] at hsame
      refine ⟨c', rfl, fun log => ⟨⟨fun a ha => ?_, h.overlay.orig⟩, h.enabled, h.state, hsame,
        fun a ha => ?_, ?_, h.apart, h.loadAddress, h.output⟩⟩
      · rw [← h.overlay.byte a ha]
        exact s.program.keeps_code _ _ _ hreal ha
      · rw [← h.own a ha]
        exact s.program.keeps_code _ _ _ hstep ha
      · exact s.program.flows _ _ h.boundary h.own hstep

end Shadows

/-- A tracee that has met a trap is one byte behind it. -/
def Machine.trapped (m : Machine X) (codes : StopCodes) : Machine X :=
  { m with cpu := m.cpu.setPc (m.cpu.pc + 1), state := .stopped codes.trap }

namespace Shadows

theorem exec_trap (h : Shadows s st v d) (codes : StopCodes) (hon : v.enabled v.pc = true) :
    s.program.exec codes d.tracee = d.tracee.trapped codes := by
  unfold Program.exec
  rw [if_pos (h.trapped hon)]
  rfl

theorem exec_error (h : Shadows s st v d) (codes : StopCodes) (hoff : v.enabled v.pc = false)
    {e : Nat} (hstep : s.program.step v.cpu = .error e) :
    s.program.exec codes d.tracee = { d.tracee with state := .exited } ∧
      s.program.exitCode d.tracee = e := by
  have hreal := h.step_error hoff hstep
  unfold Program.exec Program.exitCode
  rw [if_neg (h.not_trapped hoff), hreal]
  exact ⟨rfl, rfl⟩

theorem exec_ok (h : Shadows s st v d) (codes : StopCodes) (hoff : v.enabled v.pc = false)
    {c : Cpu X} (hstep : s.program.step v.cpu = .ok c) :
    (s.program.exec codes d.tracee).state = d.tracee.state ∧
      Shadows s st (v.withCpu c) { d with tracee := s.program.exec codes d.tracee } := by
  obtain ⟨c', hreal, hnext⟩ := h.step_ok hoff hstep
  unfold Program.exec
  rw [if_neg (h.not_trapped hoff), hreal]
  exact ⟨rfl, hnext _⟩

/-- With its program counter back on the breakpoint, the tracee is where the view is. -/
theorem rewound (h : Shadows s st v d) (codes : StopCodes) :
    Shadows s (.stopped codes.trap) v
      { d with tracee := { d.tracee.trapped codes with
        cpu := (d.tracee.trapped codes).cpu.setPc ((d.tracee.trapped codes).cpu.pc - 1) } } := by
  have hback := Machine.rewound_setPc d.tracee (.stopped codes.trap)
  unfold Machine.rewound at hback
  unfold Machine.trapped
  rw [hback]
  exact h.withState _

end Shadows

end Spray
