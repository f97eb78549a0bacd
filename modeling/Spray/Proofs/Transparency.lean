/-
A program runs under the debugger as it does on its own.

`Live` relates the patched machine to the native one: as many instructions have been
completed as the log is long, and the two processors agree on everything but the code's
bytes, of which the native one has the program's own.  While breakpoints are on
instruction boundaries only, an instruction either meets a trap in its place and is not
executed at all, or finds all of its bytes unpatched.
-/
import Spray.Machine
import Spray.Proofs.Breakpoints
import Spray.Proofs.Invariant

namespace Spray

open Triple

variable {X : Type}

def Machine.mem (m : Machine X) : Memory 64 := m.cpu.mem

/-- Only instruction boundaries have ever been given a breakpoint. -/
def OnBoundaries (p : Program X) (b : Breakpoints) : Prop :=
  ∀ a, getBreakpoint b a ≠ none → p.boundary a.value

/-- The logged states are the first ones of the native run, up to the code's bytes. -/
def IsNativePrefix (p : Program X) (c : Cpu X) (log : List (Cpu X)) : Prop :=
  ∀ k s, log[k]? = some s → ∃ n, p.native c (k + 1) = some n ∧ SameData p.code s n

/-- The machine is where the native run is after as many instructions. -/
structure Live (p : Program X) (c : Cpu X) (s : Store (Machine X)) : Prop where
  overlay : Overlay Machine.mem (fun a => p.code a.value) (fun a => p.image a.value) s
  native : ∃ n, p.native c s.tracee.log.length = some n ∧ SameData p.code s.tracee.cpu n
  boundary : p.boundary s.tracee.cpu.pc

/-! ### One instruction -/

variable {p : Program X} {c : Cpu X}

theorem SameData.pc {c c' : Cpu X} (h : SameData p.code c c') : c.pc = c'.pc := by
  unfold Cpu.pc
  rw [h.regs]

/-- The native run keeps the program's own code. -/
theorem native_code (hc : ∀ a, p.code a → c.mem a = p.image a) (n : Nat) :
    ∀ s, p.native c n = some s → ∀ a, p.code a → s.mem a = p.image a := by
  induction n with
  | zero =>
      intro s hs a ha
      obtain rfl := Option.some.inj hs
      exact hc a ha
  | succ n ih =>
      intro s hs a ha
      obtain ⟨t, ht, hstep⟩ := Option.bind_eq_some_iff.mp hs
      cases hr : p.step t with
      | error e => rw [hr] at hstep; cases hstep
      | ok t' =>
          rw [hr] at hstep
          obtain rfl := Option.some.inj hstep
          rw [p.keeps_code t t' a hr ha]
          exact ih t ht a ha

/-- Where the instruction itself is not a trap, none of its bytes is patched. -/
theorem unpatched_instruction {b : Breakpoints} {m : Machine X} (hb : OnBoundaries p b)
    (live : Live p c ⟨b, m⟩) (htrap : m.cpu.mem m.cpu.pc ≠ int3) {i : Nat}
    (hi : i < p.len m.cpu.pc) :
    m.cpu.mem (m.cpu.pc + BitVec.ofNat 64 i) = p.image (m.cpu.pc + BitVec.ofNat 64 i) := by
  have hcode := p.in_code m.cpu.pc i live.boundary hi
  have hbyte := live.overlay.byte ⟨m.cpu.pc + BitVec.ofNat 64 i⟩ hcode
  cases hon : lookupBreakpoint b ⟨m.cpu.pc + BitVec.ofNat 64 i⟩ with
  | false =>
      rw [hon, if_neg (by decide)] at hbyte
      exact hbyte
  | true =>
      have hstart := hb _ (known_of_lookup hon)
      have hzero := p.apart m.cpu.pc i live.boundary hi hstart
      subst hzero
      rw [hon, if_pos rfl] at hbyte
      exact absurd (by simpa [Machine.mem] using hbyte) htrap

/-- One more state of the native run. -/
theorem IsNativePrefix.snoc {log : List (Cpu X)} {s n : Cpu X} (hlog : IsNativePrefix p c log)
    (hn : p.native c (log.length + 1) = some n) (hsame : SameData p.code s n) :
    IsNativePrefix p c (log ++ [s]) := by
  intro k t hk
  rcases Nat.lt_or_ge k log.length with hlt | hge
  · rw [List.getElem?_append_left hlt] at hk
    exact hlog k t hk
  · rw [List.getElem?_append_right hge] at hk
    obtain ⟨hlt, -⟩ := List.getElem?_eq_some_iff.mp hk
    have hkeq : k = log.length := by
      rw [List.length_singleton] at hlt
      omega
    subst hkeq
    rw [Nat.sub_self, List.getElem?_cons_zero, Option.some.injEq] at hk
    exact ⟨n, hn, hk ▸ hsame⟩

/-- Executing an instruction traps in its place, exits, or completes it as the native
machine does. -/
theorem exec_live (codes : StopCodes) (hc : ∀ a, p.code a → c.mem a = p.image a)
    {b : Breakpoints} {m : Machine X} (hb : OnBoundaries p b) (live : Live p c ⟨b, m⟩)
    (hlog : IsNativePrefix p c m.log) :
    IsNativePrefix p c (p.exec codes m).log ∧
      ((p.exec codes m).state = .exited ∨
        p.exec codes m =
          { m with cpu := m.cpu.setPc (m.cpu.pc + 1), state := .stopped codes.trap } ∨
        ((p.exec codes m).state = m.state ∧ Live p c ⟨b, p.exec codes m⟩)) := by
  unfold Program.exec
  by_cases htrap : m.cpu.mem m.cpu.pc = int3
  · rw [if_pos htrap]
    exact ⟨hlog, Or.inr (Or.inl rfl)⟩
  rw [if_neg htrap]
  obtain ⟨n, hn, hsame⟩ := live.native
  have hncode := native_code hc _ n hn
  have hread := p.reads_itself m.cpu n live.boundary hsame (fun i hi => by
    rw [unpatched_instruction hb live htrap hi]
    exact (hncode _ (p.in_code m.cpu.pc i live.boundary hi)).symm)
  cases hs : p.step m.cpu with
  | error e => exact ⟨hlog, Or.inl rfl⟩
  | ok s =>
      cases hns : p.step n with
      | error e => rw [hs, hns] at hread; exact hread.elim
      | ok n' =>
          rw [hs, hns] at hread
          have hnext : p.native c (m.log.length + 1) = some n' := by
            rw [Program.native, hn, Option.bind_some, hns]
            rfl
          have hpc : p.boundary s.pc := by
            have hnpc : p.boundary n.pc := hsame.pc ▸ live.boundary
            rw [SameData.pc hread]
            exact p.flows n n' hnpc hncode hns
          refine ⟨hlog.snoc hnext hread, Or.inr (Or.inr ⟨rfl, ⟨?_, live.overlay.orig⟩, ?_, hpc⟩)⟩
          · intro a ha
            rw [← live.overlay.byte a ha]
            exact p.keeps_code m.cpu s a.value hs ha
          · refine ⟨n', ?_, hread⟩
            rw [List.length_append]
            exact hnext

/-! ### Waiting -/

/-- A machine that has trapped, with its program counter back on the breakpoint. -/
def Machine.rewound (m : Machine X) : Machine X := { m with cpu := m.cpu.setPc (m.cpu.pc - 1) }

/-- The log so far is native, whatever state the tracee is in. -/
def Logged (p : Program X) (c : Cpu X) (d : Debugger (Machine X)) : Prop :=
  OnBoundaries p d.breakpoints → IsNativePrefix p c d.tracee.log

/-- Between operations: the tracee is where the native run is, or has exited. -/
def Tracks (p : Program X) (c : Cpu X) (d : Debugger (Machine X)) : Prop :=
  OnBoundaries p d.breakpoints → IsNativePrefix p c d.tracee.log ∧
    (d.tracee.state ≠ .exited → Live p c d.toStore)

/-- Right after a stop: the tracee is where the native run is, or one byte further on. -/
def StoppedWith (p : Program X) (c : Cpu X) (codes : StopCodes) (code : SiCode)
    (d : Debugger (Machine X)) : Prop :=
  d.tracee.state = .stopped code ∧ (OnBoundaries p d.breakpoints →
    IsNativePrefix p c d.tracee.log ∧
      (code = codes.step ∧ Live p c d.toStore ∨
        code = codes.trap ∧ Live p c ⟨d.breakpoints, d.tracee.rewound⟩))

theorem Tracks.logged {d : Debugger (Machine X)} (h : Tracks p c d) : Logged p c d :=
  fun hb => (h hb).1

theorem Machine.rewound_setPc (m : Machine X) (s : RunState) :
    Machine.rewound { m with cpu := m.cpu.setPc (m.cpu.pc + 1), state := s } =
      { m with state := s } := by
  unfold Machine.rewound Cpu.setPc Cpu.pc
  simp

/-- A running machine is not changed by its run state alone. -/
theorem Live.withState {b : Breakpoints} {m : Machine X} (live : Live p c ⟨b, m⟩) (s : RunState) :
    Live p c ⟨b, { m with state := s }⟩ :=
  ⟨⟨live.overlay.byte, live.overlay.orig⟩, live.native, live.boundary⟩

/-- How a wait that stops at an instruction relates to the native run. -/
def WaitEnds (p : Program X) (c : Cpu X) (codes : StopCodes) (b : Breakpoints) :
    WaitOutcome × Machine X → Prop
  | (.status (.stopped _), m) => ∃ code, m.state = .stopped code ∧ (OnBoundaries p b →
      IsNativePrefix p c m.log ∧ (code = codes.step ∧ Live p c ⟨b, m⟩ ∨
        code = codes.trap ∧ Live p c ⟨b, m.rewound⟩))
  | (.status _, m) => OnBoundaries p b → IsNativePrefix p c m.log ∧
      (m.state ≠ .exited → Live p c ⟨b, m⟩)
  | (_, m) => OnBoundaries p b → IsNativePrefix p c m.log

/-- The tracee has been resumed. -/
def Machine.isRunning (m : Machine X) : Prop := m.state = .stepping ∨ m.state = .continuing

/-- An instruction that stops has met a trap. -/
theorem exec_stopped (codes : StopCodes) (hc : ∀ a, p.code a → c.mem a = p.image a)
    {b : Breakpoints} {m : Machine X} (hm : m.isRunning) {code : SiCode}
    (hs : (p.exec codes m).state = .stopped code)
    (h : OnBoundaries p b → IsNativePrefix p c m.log ∧ Live p c ⟨b, m⟩) :
    WaitEnds p c codes b (.status (.stopped .SIGTRAP), p.exec codes m) := by
  refine ⟨code, hs, fun hb => ?_⟩
  obtain ⟨hlog, live⟩ := h hb
  obtain ⟨hlog', hend⟩ := exec_live codes hc hb live hlog
  refine ⟨hlog', Or.inr ?_⟩
  rcases hend with hexit | htrap | ⟨hsame, -⟩
  · rw [hs] at hexit
    cases hexit
  · rw [htrap] at hs ⊢
    obtain rfl := RunState.stopped.inj hs
    rw [Machine.rewound_setPc]
    exact ⟨rfl, live.withState _⟩
  · rw [hs] at hsame
    rcases hm with hm | hm
    · rw [hm] at hsame; cases hsame
    · rw [hm] at hsame; cases hsame

/-- An instruction that does not stop has been completed. -/
theorem exec_running (codes : StopCodes) (hc : ∀ a, p.code a → c.mem a = p.image a)
    {b : Breakpoints} {m : Machine X} (hr : (p.exec codes m).isRunning)
    (h : OnBoundaries p b → IsNativePrefix p c m.log ∧ Live p c ⟨b, m⟩) :
    OnBoundaries p b → IsNativePrefix p c (p.exec codes m).log ∧ Live p c ⟨b, p.exec codes m⟩ := by
  intro hb
  obtain ⟨hlog, live⟩ := h hb
  obtain ⟨hlog', hend⟩ := exec_live codes hc hb live hlog
  rcases hend with hexit | htrap | ⟨-, live'⟩
  · rcases hr with hr | hr
    · rw [hr] at hexit; cases hexit
    · rw [hr] at hexit; cases hexit
  · rw [htrap] at hr
    rcases hr with hr | hr
    · cases hr
    · cases hr
  · exact ⟨hlog', live'⟩

theorem exec_exited (codes : StopCodes) (hc : ∀ a, p.code a → c.mem a = p.image a)
    {b : Breakpoints} {m : Machine X} {code : Nat} (hs : (p.exec codes m).state = .exited)
    (h : OnBoundaries p b → IsNativePrefix p c m.log ∧ Live p c ⟨b, m⟩) :
    WaitEnds p c codes b (.status (.exited code), p.exec codes m) := by
  intro hb
  obtain ⟨hlog, live⟩ := h hb
  exact ⟨(exec_live codes hc hb live hlog).1, fun hne => absurd hs hne⟩

theorem runStep_ends (codes : StopCodes) (hc : ∀ a, p.code a → c.mem a = p.image a)
    {b : Breakpoints} {m : Machine X} (hm : m.isRunning)
    (h : OnBoundaries p b → IsNativePrefix p c m.log ∧ Live p c ⟨b, m⟩) :
    WaitEnds p c codes b (p.runStep codes m) := by
  have hcompleted : (p.exec codes m).isRunning → WaitEnds p c codes b
      (.status (.stopped .SIGTRAP), { p.exec codes m with state := .stopped codes.step }) := by
    intro hr
    refine ⟨codes.step, rfl, fun hb => ?_⟩
    obtain ⟨hlog, live⟩ := exec_running codes hc hr h hb
    exact ⟨hlog, Or.inl ⟨rfl, live.withState _⟩⟩
  unfold Program.runStep
  cases hs : (p.exec codes m).state with
  | stopped code =>
      simp only [hs]
      exact exec_stopped codes hc hm hs h
  | exited =>
      simp only [hs]
      exact exec_exited codes hc hs h
  | stepping =>
      simp only [hs]
      exact hcompleted (Or.inl hs)
  | continuing =>
      simp only [hs]
      exact hcompleted (Or.inr hs)

theorem runToStop_ends (codes : StopCodes) (hc : ∀ a, p.code a → c.mem a = p.image a)
    {b : Breakpoints} (limit : Nat) :
    ∀ m : Machine X, m.isRunning →
      (OnBoundaries p b → IsNativePrefix p c m.log ∧ Live p c ⟨b, m⟩) →
      WaitEnds p c codes b (p.runToStop codes limit m) := by
  induction limit with
  | zero => exact fun m _ h hb => (h hb).1
  | succ limit ih =>
      intro m hm h
      have hnext : (p.exec codes m).isRunning →
          WaitEnds p c codes b (p.runToStop codes limit (p.exec codes m)) :=
        fun hr => ih _ hr (exec_running codes hc hr h)
      unfold Program.runToStop
      cases hs : (p.exec codes m).state with
      | stopped code =>
          simp only [hs]
          exact exec_stopped codes hc hm hs h
      | exited =>
          simp only [hs]
          exact exec_exited codes hc hs h
      | stepping =>
          simp only [hs]
          exact hnext (Or.inl hs)
      | continuing =>
          simp only [hs]
          exact hnext (Or.inr hs)

/-! ### The debugger's steps -/

variable {codes : StopCodes} {limit : Nat} {env : Env (Machine X)}

/-- What halts has only been logging. -/
abbrev Halted (p : Program X) (c : Cpu X) : Halt → Debugger (Machine X) → Prop :=
  fun _ => Logged p c

theorem waitpid_ends (hc : ∀ a, p.code a → c.mem a = p.image a) {d : Debugger (Machine X)}
    (h : Tracks p c d) :
    WaitEnds p c codes d.breakpoints ((p.ptrace codes limit).waitpid d.tracee) := by
  have hlive : d.tracee.isRunning → OnBoundaries p d.breakpoints →
      IsNativePrefix p c d.tracee.log ∧ Live p c ⟨d.breakpoints, d.tracee⟩ := by
    intro hr hb
    refine ⟨(h hb).1, (h hb).2 ?_⟩
    rcases hr with hr | hr
    · rw [hr]; exact nofun
    · rw [hr]; exact nofun
  unfold Program.ptrace
  cases hs : d.tracee.state with
  | stopped code =>
      simp only [hs]
      exact h.logged
  | stepping =>
      simp only [hs]
      exact runStep_ends codes hc (Or.inl hs) (hlive (Or.inl hs))
  | continuing =>
      simp only [hs]
      exact runToStop_ends codes hc limit d.tracee (Or.inr hs) (hlive (Or.inr hs))
  | exited =>
      simp only [hs]
      exact h.logged

/-- A wait ends in a stop where the native run is, or one byte further on. -/
theorem awaitStatus_tracks (hpt : env.pt = p.ptrace codes limit)
    (hc : ∀ a, p.code a → c.mem a = p.image a) :
    Holds (Tracks p c) (awaitStatus env.pt)
      (fun st d => match st with
        | .stopped _ => ∃ code, StoppedWith p c codes code d
        | _ => Tracks p c d) (Halted p c) := by
  intro d hd
  have hends : WaitEnds p c codes d.breakpoints ((p.ptrace codes limit).waitpid d.tracee) :=
    waitpid_ends hc hd
  unfold awaitStatus
  rw [hpt]
  generalize (p.ptrace codes limit).waitpid d.tracee = out at *
  obtain ⟨st | _ | _, m⟩ := out
  · cases st with
    | stopped sig => exact hends
    | exited code => exact hends
    | signaled sig => exact hends
    | continued => exact hends
    | invalid status => exact hends
  · exact hends
  · exact hends

theorem getPc_stopped (hpt : env.pt = p.ptrace codes limit) {d : Debugger (Machine X)}
    {code : SiCode} (hs : d.tracee.state = .stopped code) :
    getPc env d = .ok ⟨d.tracee.cpu.pc⟩ d := by
  have hstop : d.tracee.isStopped = true := by unfold Machine.isStopped; rw [hs]
  have hreg : request (getRegisterValue env.pt .rip) d = .ok (some d.tracee.cpu.pc) d := by
    unfold request getRegisterValue ptReadRegisters
    rw [hpt]
    simp [Program.ptrace, hstop, Cpu.pc]
  unfold getPc
  rw [bind_run hreg]
  rfl

theorem setPc_stopped (hpt : env.pt = p.ptrace codes limit) {d : Debugger (Machine X)}
    {code : SiCode} (hs : d.tracee.state = .stopped code) (pc : RealAddr) :
    setPc env pc d = .ok ()
      { d with tracee := { d.tracee with cpu := d.tracee.cpu.setPc pc.value } } := by
  have hstop : d.tracee.isStopped = true := by unfold Machine.isStopped; rw [hs]
  have hreg : request (setRegisterValue env.pt .rip pc.value) d = .ok .ok
      { d with tracee := { d.tracee with cpu := d.tracee.cpu.setPc pc.value } } := by
    unfold request setRegisterValue ptReadRegisters ptWriteRegisters
    rw [hpt]
    simp [Program.ptrace, hstop, Cpu.setPc, SprayResult.ofBool]
  unfold setPc
  rw [bind_run hreg]
  rfl

/-- After a trap the program counter goes back to the breakpoint; after a step it stays. -/
theorem handleSigtrap_tracks (hpt : env.pt = p.ptrace codes limit) (code : SiCode) :
    Holds (StoppedWith p c codes code) (handleSigtrap env ⟨.SIGTRAP, code⟩)
      (fun _ => Tracks p c) (Halted p c) := by
  intro d ⟨hs, hd⟩
  unfold handleSigtrap
  by_cases htrap : code = .SI_KERNEL ∨ code = .TRAP_BRKPT
  · rw [if_pos htrap, bind_run (getPc_stopped hpt hs), setPc_stopped hpt hs]
    intro hb
    obtain ⟨hlog, hlive⟩ := hd hb
    rcases hlive with ⟨rfl, -⟩ | ⟨-, live⟩
    · rcases htrap with h | h
      · exact absurd h codes.step_code.1
      · exact absurd h codes.step_code.2
    · exact ⟨hlog, fun _ => live⟩
  · rw [if_neg htrap]
    intro hb
    obtain ⟨hlog, hlive⟩ := hd hb
    rcases hlive with ⟨-, live⟩ | ⟨rfl, -⟩
    · exact ⟨hlog, fun _ => live⟩
    · exact absurd codes.trap_code htrap

theorem say_tracks (msg : Message) :
    Holds (Tracks p c) (say msg) (fun _ => Tracks p c) (Halted p c) := fun _ hd => hd

theorem waitForSignal_tracks (hpt : env.pt = p.ptrace codes limit)
    (hc : ∀ a, p.code a → c.mem a = p.image a) (fuel : Nat) :
    Holds (Tracks p c) (waitForSignal env fuel) (fun _ => Tracks p c) (Halted p c) := by
  cases fuel with
  | zero => exact Holds.throw fun _ => Tracks.logged
  | succ fuel =>
      apply Holds.bind (awaitStatus_tracks hpt hc)
      intro st
      cases st with
      | exited code => exact Holds.bind (say_tracks _) fun _ => Holds.pure fun _ => id
      | signaled sig => exact Holds.bind (say_tracks _) fun _ => Holds.pure fun _ => id
      | continued => exact Holds.bind (say_tracks _) fun _ => Holds.pure fun _ => id
      | invalid status => exact Holds.bind (say_tracks _) fun _ => Holds.pure fun _ => id
      | stopped sig =>
          apply Holds.exists
          intro code
          -- The machine reports no signal but `SIGTRAP`.
          apply Holds.bind (Q := fun info d => info = some ⟨.SIGTRAP, code⟩ ∧
            StoppedWith p c codes code d)
          · intro d hd
            have hinfo : (ptGetSignalInfo env.pt d.tracee) = (some ⟨.SIGTRAP, code⟩, d.tracee) := by
              unfold ptGetSignalInfo
              rw [hpt]
              simp [Program.ptrace, hd.1]
            refine ⟨congrArg Prod.fst hinfo, ?_⟩
            rw [hinfo]
            exact hd
          · intro info d ⟨hinfo, hd⟩
            subst hinfo
            have hend : Holds (StoppedWith p c codes code)
                (do handleSigtrap env ⟨.SIGTRAP, code⟩; return SprayResult.ok)
                (fun _ => Tracks p c) (Halted p c) :=
              Holds.bind (handleSigtrap_tracks hpt code) fun _ => Holds.pure fun _ => id
            exact hend d hd

theorem machine_laws : MemoryLaws (p.ptrace codes limit) Machine.mem where
  peek_mem _ _ := rfl
  peek_val a m x h := by
    by_cases hs : m.isStopped = true
    · simp only [Program.ptrace, hs, if_true, Option.some.injEq] at h
      exact h.symm
    · simp [Program.ptrace, hs] at h
  poke_ok a x m h := by
    by_cases hs : m.isStopped = true
    · simp [Program.ptrace, hs, Machine.mem]
    · simp [Program.ptrace, hs] at h
  poke_err a x m h := by
    by_cases hs : m.isStopped = true
    · simp [Program.ptrace, hs] at h
    · simp [Program.ptrace, hs]

/-- Everything of a machine that peeks and pokes do not touch. -/
def Machine.frame (m : Machine X) : Regs × X × RunState × List (Cpu X) :=
  (m.cpu.regs, m.cpu.ext, m.state, m.log)

theorem peek_frame (a : Word) (m : Machine X) :
    ((p.ptrace codes limit).peekData a m).2.frame = m.frame := rfl

theorem poke_frame (a x : Word) (m : Machine X) :
    ((p.ptrace codes limit).pokeData a x m).2.frame = m.frame := by
  by_cases hs : m.isStopped = true
  · simp [Program.ptrace, hs, Machine.frame]
  · simp [Program.ptrace, hs]

/-- Changing code bytes under the same image leaves the machine where it was. -/
theorem Tracks.patch {d d' : Debugger (Machine X)} (h : Tracks p c d)
    (hframe : d'.tracee.frame = d.tracee.frame)
    (hguard : OnBoundaries p d'.breakpoints → OnBoundaries p d.breakpoints)
    (hov : Overlay Machine.mem (fun a => p.code a.value) (fun a => p.image a.value) d.toStore →
      Overlay Machine.mem (fun a => p.code a.value) (fun a => p.image a.value) d'.toStore)
    (hdata : OnBoundaries p d'.breakpoints → ∀ a, ¬ p.code a →
      d'.tracee.mem a = d.tracee.mem a) : Tracks p c d' := by
  obtain ⟨hregs, hext, hstate, hlog⟩ :
      d'.tracee.cpu.regs = d.tracee.cpu.regs ∧ d'.tracee.cpu.ext = d.tracee.cpu.ext ∧
        d'.tracee.state = d.tracee.state ∧ d'.tracee.log = d.tracee.log := by
    simpa [Machine.frame] using hframe
  intro hb
  obtain ⟨hstart, hlive⟩ := h (hguard hb)
  refine ⟨hlog ▸ hstart, fun hne => ?_⟩
  have live := hlive (hstate ▸ hne)
  obtain ⟨n, hn, hsame⟩ := live.native
  refine ⟨hov live.overlay, ⟨n, ?_, ?_⟩, ?_⟩
  · rw [hlog]
    exact hn
  · exact ⟨hregs.trans hsame.regs, hext.trans hsame.ext,
      fun a ha => (hdata hb a ha).trans (hsame.mem a ha)⟩
  · have hpc : d'.tracee.cpu.pc = d.tracee.cpu.pc := congrFun hregs .rip
    rw [hpc]
    exact live.boundary

theorem boundary_code {a : Word} (h : p.boundary a) : p.code a := by
  simpa using p.in_code a 0 h (p.len_pos a h)

theorem enableBreakpoint_tracks (hpt : env.pt = p.ptrace codes limit) (addr : RealAddr) :
    Holds (Tracks p c) (onStore (enableBreakpoint env.pt addr)) (fun _ => Tracks p c)
      (Halted p c) := by
  intro d hd
  rw [hpt]
  refine hd.patch (enableBreakpoint_frame peek_frame poke_frame addr d.toStore)
    (fun hb a ha => hb a (enableBreakpoint_known addr ha))
    (fun ov => ov.enable machine_laws addr) fun hb a ha => ?_
  have hcode := boundary_code (hb addr (enableBreakpoint_creates addr d.toStore))
  have hne : a ≠ addr.value := fun h => ha (h ▸ hcode)
  have laws : MemoryLaws (p.ptrace codes limit) Machine.mem := machine_laws
  rcases enableBreakpoint_cases laws addr d.toStore with ⟨-, -, h⟩ | ⟨-, -, h⟩ | ⟨-, -, h⟩
  · exact congrFun h.mem a
  · exact (congrFun h.mem a).trans (Function.update_of_ne hne _ _)
  · exact congrFun h.mem a

theorem disableBreakpoint_tracks (hpt : env.pt = p.ptrace codes limit) (addr : RealAddr) :
    Holds (Tracks p c) (onStore (disableBreakpoint env.pt addr)) (fun _ => Tracks p c)
      (Halted p c) := by
  intro d hd
  rw [hpt]
  refine hd.patch (disableBreakpoint_frame peek_frame poke_frame addr d.toStore)
    (fun hb a ha => hb a (disableBreakpoint_known addr ha))
    (fun ov => ov.disable machine_laws addr) fun hb a ha => ?_
  have laws : MemoryLaws (p.ptrace codes limit) Machine.mem := machine_laws
  rcases disableBreakpoint_cases laws addr d.toStore with ⟨-, -, h⟩ | ⟨orig, -, hs, h⟩ | ⟨-, -, h⟩
  · exact congrFun h.mem a
  · have hon := lookupBreakpoint_of_saved (by rw [hs]; exact Option.some_ne_none orig)
    have hcode := boundary_code (hb addr (disableBreakpoint_known addr (known_of_lookup hon)))
    have hne : a ≠ addr.value := fun h => ha (h ▸ hcode)
    exact (congrFun h.mem a).trans (Function.update_of_ne hne _ _)
  · exact congrFun h.mem a

/-- Only whether the tracee is stopped, stepping or continuing differs. -/
theorem Tracks.resume {d : Debugger (Machine X)} (h : Tracks p c d) (s : RunState)
    (hs : d.tracee.isStopped = true) :
    Tracks p c { d with tracee := { d.tracee with state := s } } := by
  intro hb
  refine ⟨(h hb).1, fun _ => ((h hb).2 ?_).withState s⟩
  intro hexit
  rw [Machine.isStopped, hexit] at hs
  exact absurd hs (by decide)

theorem tracks_invariant (hpt : env.pt = p.ptrace codes limit)
    (hc : ∀ a, p.code a → c.mem a = p.image a) (fuel : Nat) :
    Invariant env fuel (Tracks p c) (Halted p c) where
  getRegister reg := by
    intro d hd
    have hsame : (getRegisterValue env.pt reg d.tracee).2 = d.tracee := by
      unfold getRegisterValue ptReadRegisters
      rw [hpt]
      cases hs : d.tracee.isStopped with
      | true => simp [Program.ptrace, hs]
      | false => simp [Program.ptrace, hs]
    show Tracks p c { d with tracee := (getRegisterValue env.pt reg d.tracee).2 }
    rw [hsame]
    exact hd
  readMemory addr := by
    intro d hd
    rw [hpt]
    exact hd
  singleStep := by
    intro d hd
    cases hs : d.tracee.isStopped with
    | true => simpa [request, ptSingleStep, hpt, Program.ptrace, hs] using hd.resume .stepping hs
    | false => simpa [request, ptSingleStep, hpt, Program.ptrace, hs] using hd
  cont := by
    intro d hd
    cases hs : d.tracee.isStopped with
    | true =>
        simpa [request, ptContinueExecution, hpt, Program.ptrace, hs] using hd.resume .continuing hs
    | false => simpa [request, ptContinueExecution, hpt, Program.ptrace, hs] using hd
  enable := enableBreakpoint_tracks hpt
  disable := disableBreakpoint_tracks hpt
  say := say_tracks
  wait := waitForSignal_tracks hpt hc fuel
  halt _ _ := Tracks.logged

/-! ### Whole sessions -/

/-- What a user can have the debugger do to the tracee. -/
inductive DebugOp
  | enable (addr : RealAddr)
  | disable (addr : RealAddr)
  | stepping (op : SteppingOp)
  deriving DecidableEq, Repr

def DebugOp.exec (env : Env (Machine X)) (fuel : Nat) : DebugOp → DbgM (Machine X) SprayResult
  | enable addr => onStore (enableBreakpoint env.pt addr)
  | disable addr => onStore (disableBreakpoint env.pt addr)
  | stepping op => op.exec env fuel

/-- One operation after another, until one of them halts. -/
def runOps (env : Env (Machine X)) (fuel : Nat) (ops : List DebugOp) : DbgM (Machine X) Unit :=
  ops.forM fun op => do
    let _ ← op.exec env fuel

/-- A debugger that has just been attached to a stopped tracee. -/
def attach (c : Cpu X) (loadAddress : RealAddr) : Debugger (Machine X) where
  breakpoints := initBreakpoints
  tracee := ⟨c, .stopped (.other 0), []⟩
  loadAddress
  output := []

theorem attach_tracks (hc : ∀ a, p.code a → c.mem a = p.image a) (hb : p.boundary c.pc)
    (loadAddress : RealAddr) : Tracks p c (attach c loadAddress) := by
  intro _
  have hempty : IsNativePrefix p c [] := fun k s hk => absurd hk (by simp)
  have hsame : SameData p.code c c := ⟨rfl, rfl, fun _ _ => rfl⟩
  refine ⟨hempty, fun _ => ⟨⟨fun a ha => ?_, fun a v _ hv => ?_⟩, ⟨c, rfl, hsame⟩, hb⟩⟩
  · have hoff : lookupBreakpoint initBreakpoints a = false := rfl
    show c.mem a.value = if lookupBreakpoint initBreakpoints a then int3 else p.image a.value
    rw [hoff]
    exact hc a.value ha
  · exact absurd hv (by simp [attach, savedByte_initBreakpoints])

theorem runOps_tracks (hpt : env.pt = p.ptrace codes limit)
    (hc : ∀ a, p.code a → c.mem a = p.image a) (fuel : Nat) (ops : List DebugOp) :
    Holds (Tracks p c) (runOps env fuel ops) (fun _ => Tracks p c) (Halted p c) := by
  have inv := tracks_invariant hpt hc fuel
  refine Holds.forM (I := fun _ => Tracks p c) (fun op rest => ?_) ops
  cases op with
  | enable addr => exact Holds.bind (inv.enable addr) fun _ => Holds.pure fun _ => id
  | disable addr => exact Holds.bind (inv.disable addr) fun _ => Holds.pure fun _ => id
  | stepping op => exact Holds.bind (inv.exec op) fun _ => Holds.pure fun _ => id

/--
**Debugging is transparent.**  Whatever the user has the debugger do, and however long the
tracee is waited for: if breakpoints have only been set on instruction boundaries, the
states in which instructions were completed are a prefix of the program's native run.
-/
theorem debugging_transparent (p : Program X) (codes : StopCodes) (limit fuel : Nat)
    (env : Env (Machine X)) (hpt : env.pt = p.ptrace codes limit) (c : Cpu X)
    (hc : ∀ a, p.code a → c.mem a = p.image a) (hb : p.boundary c.pc) (loadAddress : RealAddr)
    (ops : List DebugOp) :
    let d := finalState (runOps env fuel ops) (attach c loadAddress)
    OnBoundaries p d.breakpoints → IsNativePrefix p c d.tracee.log := by
  intro d
  have hrun := runOps_tracks hpt hc fuel ops _ (attach_tracks hc hb loadAddress)
  unfold d finalState
  generalize runOps env fuel ops (attach c loadAddress) = r at *
  cases r with
  | ok _ d' => exact Tracks.logged hrun
  | error _ d' => exact hrun

/-! ### A process that does nothing -/

/-- All of memory is `nop`s. -/
def nopProgram : Program Unit where
  code _ := True
  image _ := 0x90
  boundary _ := True
  len _ := 1
  step c := .ok (c.setPc (c.pc + 1))
  len_pos _ _ := Nat.one_pos
  in_code _ _ _ _ := trivial
  apart _ i _ hi _ := by omega
  no_trap _ _ := by decide
  keeps_code c c' a hs _ := by cases hs; rfl
  reads_itself c c' _ h _ := by
    have hpc : c.pc = c'.pc := congrFun h.regs .rip
    exact ⟨by simp only [Cpu.setPc, h.regs, hpc], h.ext, fun a ha => absurd trivial ha⟩
  flows _ _ _ _ _ := trivial

def nopCpu : Cpu Unit where
  regs := Function.update (fun _ => 0) .rip 0x1000
  mem _ := 0x90
  ext := ()

/-- What the processor of a personal computer reports. -/
def kernelCodes : StopCodes := ⟨.SI_KERNEL, .TRAP_TRACE, Or.inl rfl, by decide, by decide⟩

/-- Run to a breakpoint three instructions on, and step off it. -/
def nopSession : List DebugOp :=
  [.enable ⟨0x1003⟩, .stepping .continueAndWait, .stepping .singleStepInstruction]

def nopDebugged : Debugger (Machine Unit) :=
  finalState (runOps (strippedEnv (nopProgram.ptrace kernelCodes 8)) 1 nopSession)
    (attach nopCpu ⟨0⟩)

theorem debugging_transparent_nops : IsNativePrefix nopProgram nopCpu nopDebugged.tracee.log := by
  have hrun := debugging_transparent nopProgram kernelCodes 8 1
    (strippedEnv (nopProgram.ptrace kernelCodes 8)) rfl nopCpu (fun _ _ => rfl) trivial ⟨0⟩
    nopSession
  unfold nopDebugged
  exact hrun fun _ _ => trivial

example : nopDebugged.tracee.log.map Cpu.pc = [0x1001, 0x1002, 0x1003, 0x1004] := by
  decide +kernel

end Spray
