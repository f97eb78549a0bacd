/-
What is asked of the kernel, and in which order.

A debugger may make requests of a tracee that is stopped, and has to wait for one that it has
resumed.  And what it writes should be what the user told it to: beside that it is a trap in the
place of a byte that it has just read, a byte that it had read there before, and the program
counter, one back from where a trap left it.  This holds whatever the kernel answers.
-/
import Spray.Kernel
import Spray.Lib.Trace
import Spray.Proofs.Breakpoints
import Spray.Proofs.Lookups
import Spray.Proofs.Reading

namespace Spray

open Log (EachAfter)
open Triple

/-! ### The order -/

def Request.isWait : Request → Bool
  | .waitpid _ => true
  | _ => false

/-- The tracee is told to go on. -/
def Request.isResume : Request → Bool
  | .cont _ => true
  | .singleStep _ => true
  | _ => false

/-- The tracee may be running after the request.  It is not if there is no such process. -/
def Request.mayRun : Request → Bool
  | .cont errno => errno ≠ some .ESRCH
  | .singleStep _ => true
  | _ => false

/-- What is in turn after these requests: a wait directly after the tracee was told to go on, and
anything else as long as it is not running. -/
def InTurn (before : Requests) (request : Request) : Prop :=
  if request.isWait then ∃ last, before.getLast? = some last ∧ last.isResume = true
  else ∀ last, before.getLast? = some last → last.mayRun = false

/-! ### What is written -/

/-- The words have the same bytes, apart from the lowest one of `write`. -/
structure Patches (word : Word) (byte : Byte) (write : Word) : Prop where
  lowest : Memory.byteAt write 0 = byte
  others : ∀ i, 0 < i → i < 8 → Memory.byteAt write i = Memory.byteAt word i

/-- A trap has been put in the place of this byte.  Since then nothing was written to the address
but what is in `sets`. -/
def Put (sets : SdLocation → Word → Prop) (requests : Requests) (addr : Word) (byte : Byte) :
    Prop :=
  ∃ before word write after,
    requests = before ++ .peekData addr (some word) :: .pokeData addr write true :: after ∧
    byte = Memory.byteAt word 0 ∧ Patches word int3 write ∧
    ∀ write, .pokeData addr write true ∈ after → sets (.addr ⟨addr⟩) write

/-- There is a reason to make the request after these ones. -/
inductive Founded (sets : SdLocation → Word → Prop) (before : Requests) : Request → Prop
  /-- The user sets memory. -/
  | memory {addr write : Word} {done : Bool} (h : sets (.addr ⟨addr⟩) write) :
      Founded sets before (.pokeData addr write done)
  /-- A trap is written over the lowest byte of the word that has just been read. -/
  | trap {addr word write : Word} {done : Bool}
      (hread : before.getLast? = some (.peekData addr (some word)))
      (hpatch : Patches word int3 write) : Founded sets before (.pokeData addr write done)
  /-- The byte is put back that the trap is in the place of. -/
  | restore {addr word write : Word} {byte : Byte} {done : Bool}
      (hread : before.getLast? = some (.peekData addr (some word)))
      (hput : Put sets before addr byte) (hpatch : Patches word byte write) :
      Founded sets before (.pokeData addr write done)
  /-- The user sets a register, and the others stay what they have just been read as. -/
  | register {reg : X86Reg} {value : Word} {regs : Regs} {done : Bool}
      (h : sets (.reg reg) value) (hread : before.getLast? = some (.getRegs (some regs))) :
      Founded sets before (.setRegs (Function.update regs reg value) done)
  /-- The program counter is moved back by one after the stop was reported to be a trap.  It is
  taken to be 0 if it cannot be read. -/
  | rewind {front : Requests} {info : SigInfo} {read : Option Regs} {regs : Regs} {done : Bool}
      (h : before = front ++ [.getSigInfo (some info), .getRegs read, .getRegs (some regs)])
      (htrap : info.IsTrap) :
      Founded sets before
        (.setRegs (Function.update regs .rip ((read.elim 0 fun regs => regs .rip) - 1)) done)
  | peekData {addr : Word} {read : Option Word} : Founded sets before (.peekData addr read)
  | getRegs {read : Option Regs} : Founded sets before (.getRegs read)
  | cont {errno : Option Errno} : Founded sets before (.cont errno)
  | singleStep {done : Bool} : Founded sets before (.singleStep done)
  | getSigInfo {info : Option SigInfo} : Founded sets before (.getSigInfo info)
  | waitpid {outcome : WaitOutcome} : Founded sets before (.waitpid outcome)

/-- What was asked last tells why the debugger does not go on. -/
def Explains : Halt → Requests → Prop
  | .blocked, requests => requests.getLast? = some (.waitpid .blocked)
  | .undefined, requests => requests.getLast? = some (.waitpid .failed)
  | .aborted, requests => requests.getLast? = some (.getRegs none)
  -- There are more stops or frames than the model goes through.
  | .outOfFuel, _ => True

/-- What the user says, and when that is possible. -/
def typed (info : DebugInfo) (lineEntryAt : String → Nat → LineEntry) (loadAddress : RealAddr)
    (lines : List String) (loc : SdLocation) (value : Word) : Prop :=
  ∃ reading ∈ readLines info lineEntryAt loadAddress none lines,
    ∃ command ∈ reading.command, command.Sets loc value

/-! ### The requests so far -/

variable {sets : SdLocation → Word → Prop} {requests : Requests} {addr : Word} {byte : Byte}

/-- A byte stays the one that was replaced, until it is put back. -/
theorem Put.concat (h : Put sets requests addr byte) (request : Request)
    (hrequest : ∀ write, request = .pokeData addr write true → sets (.addr ⟨addr⟩) write) :
    Put sets (requests ++ [request]) addr byte := by
  obtain ⟨before, word, write, after, rfl, hbyte, hpatch, hafter⟩ := h
  refine ⟨before, word, write, after ++ [request], by simp, hbyte, hpatch, fun write' hmem => ?_⟩
  rcases List.mem_append.mp hmem with hmem | hmem
  · exact hafter write' hmem
  · exact hrequest write' (List.mem_singleton.mp hmem).symm

/-- Every request so far has been in turn, with a reason, and every byte that is saved is one
that a trap is in the place of. -/
structure Sound (sets : SdLocation → Word → Prop) (s : Store Requests) : Prop where
  inTurn : EachAfter InTurn s.tracee
  founded : EachAfter (Founded sets) s.tracee
  saved : ∀ addr byte, savedByte s.breakpoints addr = some byte →
    Put sets s.tracee addr.value byte

/-- The last request does not leave the tracee running. -/
def AtRest (requests : Requests) : Prop :=
  ∀ last, requests.getLast? = some last → last.mayRun = false

theorem AtRest.concat {request : Request} (h : request.mayRun = false) :
    AtRest (requests ++ [request]) := by
  intro last hlast
  rw [List.getLast?_concat, Option.some.injEq] at hlast
  rw [← hlast]
  exact h

theorem Sound.concat {s : Store Requests} (h : Sound sets s) {request : Request}
    (hturn : InTurn s.tracee request) (hfounded : Founded sets s.tracee request)
    (hput : ∀ addr byte, savedByte s.breakpoints addr = some byte → ∀ write,
      request = .pokeData addr.value write true → sets (.addr addr) write) :
    Sound sets ⟨s.breakpoints, s.tracee ++ [request]⟩ :=
  ⟨h.inTurn.concat hturn, h.founded.concat hfounded, fun addr byte hsaved =>
    (h.saved addr byte hsaved).concat request (hput addr byte hsaved)⟩

/-! ### While the tracee is stopped, and while it runs -/

variable {kernel : Kernel} {env : Env Requests} {d : Debugger Requests}

/-- Requests can be made. -/
structure MayAsk (sets : SdLocation → Word → Prop) (d : Debugger Requests) : Prop where
  sound : Sound sets d.toStore
  atRest : AtRest d.tracee

/-- The tracee has been told to go on, and nothing else has been asked for since. -/
structure MustWait (sets : SdLocation → Word → Prop) (d : Debugger Requests) : Prop where
  sound : Sound sets d.toStore
  last : ∃ last, d.tracee.getLast? = some last ∧ last.isResume = true

/-- The debugger has just been told of a trap. -/
structure ToldOfTrap (sets : SdLocation → Word → Prop) (d : Debugger Requests) : Prop
    extends MayAsk sets d where
  told : ∃ front info, d.tracee = front ++ [.getSigInfo (some info)] ∧ info.IsTrap

/-- The debugger does not go on. -/
structure HaltedAfter (sets : SdLocation → Word → Prop) (e : Halt) (d : Debugger Requests) :
    Prop where
  inTurn : EachAfter InTurn d.tracee
  founded : EachAfter (Founded sets) d.tracee
  explains : Explains e d.tracee

def Debugger.asked (d : Debugger Requests) (request : Request) : Debugger Requests :=
  { d with tracee := d.tracee ++ [request] }

theorem MayAsk.concat (h : MayAsk sets d) {request : Request} (hwait : request.isWait = false)
    (hfounded : Founded sets d.tracee request)
    (hput : ∀ addr byte, savedByte d.breakpoints addr = some byte → ∀ write,
      request = .pokeData addr.value write true → sets (.addr addr) write) :
    Sound sets (d.asked request).toStore := by
  refine h.sound.concat ?_ hfounded hput
  unfold InTurn
  rw [hwait, if_neg Bool.false_ne_true]
  exact h.atRest

/-- Something is asked for that changes nothing. -/
theorem MayAsk.asked (h : MayAsk sets d) (request : Request) (hwait : request.isWait = false)
    (hrun : request.mayRun = false) (hfounded : Founded sets d.tracee request)
    (hpoke : ∀ addr write, request = .pokeData addr write true → sets (.addr ⟨addr⟩) write) :
    MayAsk sets (d.asked request) :=
  ⟨h.concat hwait hfounded fun addr _ _ write heq => hpoke addr.value write heq, .concat hrun⟩

theorem MayAsk.peekData (h : MayAsk sets d) (addr : Word) (read : Option Word) :
    MayAsk sets (d.asked (.peekData addr read)) :=
  h.asked _ rfl rfl .peekData fun _ _ heq => nomatch heq

theorem MayAsk.getRegs (h : MayAsk sets d) (read : Option Regs) :
    MayAsk sets (d.asked (.getRegs read)) := h.asked _ rfl rfl .getRegs fun _ _ heq => nomatch heq

theorem MayAsk.getSigInfo (h : MayAsk sets d) (info : Option SigInfo) :
    MayAsk sets (d.asked (.getSigInfo info)) :=
  h.asked _ rfl rfl .getSigInfo fun _ _ heq => nomatch heq

/-- The tracee is told to go on. -/
theorem MayAsk.resume (h : MayAsk sets d) (request : Request) (hresume : request.isResume = true) :
    MustWait sets (d.asked request) := by
  have hask : Sound sets (d.asked request).toStore := by
    cases request with
    | cont errno => exact h.concat rfl .cont fun _ _ _ _ heq => nomatch heq
    | singleStep done => exact h.concat rfl .singleStep fun _ _ _ _ heq => nomatch heq
    | _ => cases hresume
  exact ⟨hask, request, List.getLast?_concat, hresume⟩

theorem MustWait.waitpid (h : MustWait sets d) (outcome : WaitOutcome) :
    MayAsk sets (d.asked (.waitpid outcome)) := by
  have hsound : Sound sets (d.asked (.waitpid outcome)).toStore :=
    h.sound.concat h.last .waitpid fun _ _ _ _ heq => nomatch heq
  exact ⟨hsound, .concat rfl⟩

theorem MayAsk.stopped (h : MayAsk sets d) {e : Halt} (hexplains : Explains e d.tracee) :
    HaltedAfter sets e d := ⟨h.sound.inTurn, h.sound.founded, hexplains⟩

/-! ### Requests -/

theorem getRegisterValue_asks (reg : X86Reg) (requests : Requests) :
    getRegisterValue kernel.ptrace reg requests = ((kernel.getRegs requests).map (· reg),
      requests ++ [.getRegs (kernel.getRegs requests)]) := by
  have hread : ptReadRegisters kernel.ptrace requests =
      (kernel.getRegs requests, requests ++ [.getRegs (kernel.getRegs requests)]) := rfl
  unfold getRegisterValue
  rw [hread]
  cases kernel.getRegs requests with
  | none => rfl
  | some regs => rfl

theorem getRegister_asks (hpt : env.pt = kernel.ptrace) (reg : X86Reg) (d : Debugger Requests) :
    request (getRegisterValue env.pt reg) d = .ok ((kernel.getRegs d.tracee).map (· reg))
      (d.asked (.getRegs (kernel.getRegs d.tracee))) := by
  unfold request
  rw [hpt, getRegisterValue_asks]
  rfl

theorem getPc_asks (hpt : env.pt = kernel.ptrace) (d : Debugger Requests) :
    getPc env d = .ok ⟨(kernel.getRegs d.tracee).elim 0 fun regs => regs .rip⟩
      (d.asked (.getRegs (kernel.getRegs d.tracee))) := by
  unfold getPc
  rw [bind_run (getRegister_asks hpt .rip d)]
  cases kernel.getRegs d.tracee with
  | none => rfl
  | some regs => rfl

/-- A register is set beside the others as they are read first. -/
theorem setRegister_asks (hpt : env.pt = kernel.ptrace) (reg : X86Reg) (write : Word)
    (d : Debugger Requests) :
    (∃ res, request (setRegisterValue env.pt reg write) d = .ok res (d.asked (.getRegs none))) ∨
    ∃ regs done res, request (setRegisterValue env.pt reg write) d = .ok res
      ((d.asked (.getRegs (some regs))).asked
        (.setRegs (Function.update regs reg write) done)) := by
  unfold request
  rw [hpt]
  have hread : ptReadRegisters kernel.ptrace d.tracee =
      (kernel.getRegs d.tracee, d.tracee ++ [.getRegs (kernel.getRegs d.tracee)]) := rfl
  unfold setRegisterValue
  rw [hread]
  cases kernel.getRegs d.tracee with
  | none => exact .inl ⟨.err, rfl⟩
  | some regs => exact .inr ⟨regs, _, _, rfl⟩

theorem awaitStatus_asks (hpt : env.pt = kernel.ptrace) (d : Debugger Requests) :
    (∃ st, awaitStatus env.pt d = .ok st (d.asked (.waitpid (.status st)))) ∨
    awaitStatus env.pt d = .error .undefined (d.asked (.waitpid .failed)) ∨
    awaitStatus env.pt d = .error .blocked (d.asked (.waitpid .blocked)) := by
  have hwait : kernel.ptrace.waitpid d.tracee =
      (kernel.waitpid d.tracee, d.tracee ++ [.waitpid (kernel.waitpid d.tracee)]) := rfl
  unfold awaitStatus
  rw [hpt, hwait]
  cases kernel.waitpid d.tracee with
  | status st => exact .inl ⟨st, rfl⟩
  | failed => exact .inr (.inl rfl)
  | blocked => exact .inr (.inr rfl)

/-! ### Breakpoints -/

/-- What comes of writing a byte to the address of a breakpoint, given what is saved if that is
done. -/
inductive Changed (addr : RealAddr) (byte : Byte) (saves : Byte → Option Byte)
    (s s' : Store Requests) : Prop
  | same (hsaved : savedByte s'.breakpoints = savedByte s.breakpoints)
      (h : s'.tracee = s.tracee)
  | unread (hsaved : savedByte s'.breakpoints = savedByte s.breakpoints)
      (h : s'.tracee = s.tracee ++ [.peekData addr.value none])
  | refused {word write : Word} (hpatch : Patches word byte write)
      (hsaved : savedByte s'.breakpoints = savedByte s.breakpoints)
      (h : s'.tracee = s.tracee ++ [.peekData addr.value (some word)] ++
        [.pokeData addr.value write false])
  | done {word write : Word} (hpatch : Patches word byte write)
      (hsaved : savedByte s'.breakpoints =
        Function.update (savedByte s.breakpoints) addr (saves (Memory.byteAt word 0)))
      (h : s'.tracee = s.tracee ++ [.peekData addr.value (some word)] ++
        [.pokeData addr.value write true])

theorem patches_replace (word : Word) (byte : Byte) :
    Patches word byte ((word &&& ~~~btmByteMask) ||| byte.setWidth 64) :=
  ⟨byteAt_replace_zero word byte, fun _ hpos hi => byteAt_replace_pos word byte hpos hi⟩

theorem enableBreakpoint_changed (addr : RealAddr) (s : Store Requests) :
    Changed addr int3 some s (enableBreakpoint kernel.ptrace addr s).2 := by
  obtain ⟨haddr, hsaved, -⟩ := getOrCreate_spec s.breakpoints addr
  unfold enableBreakpoint
  generalize getOrCreateBreakpoint s.breakpoints addr = created at *
  obtain ⟨bp, b⟩ := created
  dsimp only at haddr hsaved ⊢
  cases bp.isEnabled with
  | true => exact .same hsaved rfl
  | false =>
      have hread : ptReadMemory kernel.ptrace bp.addr s.tracee =
        (kernel.peekData bp.addr.value s.tracee, s.tracee ++
          [.peekData bp.addr.value (kernel.peekData bp.addr.value s.tracee)]) := rfl
      rw [Bool.not_false, if_pos rfl, hread, haddr]
      cases kernel.peekData addr.value s.tracee with
      | none => exact .unread hsaved rfl
      | some word =>
          dsimp only
          generalize hwrite : ptWriteMemory kernel.ptrace addr
            ((word &&& ~~~btmByteMask) ||| int3.setWidth 64) _ = written
          unfold ptWriteMemory Kernel.ptrace Requests.answer at hwrite
          dsimp only at hwrite
          cases hdone : kernel.pokeData addr.value
              ((word &&& ~~~btmByteMask) ||| int3.setWidth 64)
              (s.tracee ++ [.peekData addr.value (some word)]) with
          | false =>
              rw [hdone] at hwrite
              rw [← hwrite]
              exact .refused (patches_replace word int3) hsaved rfl
          | true =>
              rw [hdone] at hwrite
              rw [← hwrite]
              refine .done (patches_replace word int3) ?_ rfl
              show savedByte (hashmapSet b _) = _
              rw [savedByte_hashmapSet, hsaved, setWidth_and_mask]
              rfl

theorem disableBreakpoint_changed (kernel : Kernel) (addr : RealAddr) (s : Store Requests) :
    (disableBreakpoint kernel.ptrace addr s).2 = s ∨
    ∃ byte, savedByte s.breakpoints addr = some byte ∧
      Changed addr byte (fun _ => none) s (disableBreakpoint kernel.ptrace addr s).2 := by
  unfold disableBreakpoint getBreakpoint
  cases hmap : s.breakpoints.map addr with
  | none => exact .inl rfl
  | some bp =>
      dsimp only
      cases hen : bp.isEnabled with
      | false => exact .inl rfl
      | true =>
          have haddr := s.breakpoints.keyed hmap
          have hread : ptReadMemory kernel.ptrace bp.addr s.tracee =
            (kernel.peekData bp.addr.value s.tracee, s.tracee ++
              [.peekData bp.addr.value (kernel.peekData bp.addr.value s.tracee)]) := rfl
          refine .inr ⟨bp.origData, by simp [savedByte, hmap, hen], ?_⟩
          rw [if_pos rfl, hread, haddr]
          cases kernel.peekData addr.value s.tracee with
          | none => exact .unread rfl rfl
          | some word =>
              dsimp only
              generalize hwrite : ptWriteMemory kernel.ptrace addr
                ((word &&& ~~~btmByteMask) ||| bp.origData.setWidth 64) _ = written
              unfold ptWriteMemory Kernel.ptrace Requests.answer at hwrite
              dsimp only at hwrite
              cases hdone : kernel.pokeData addr.value
                  ((word &&& ~~~btmByteMask) ||| bp.origData.setWidth 64)
                  (s.tracee ++ [.peekData addr.value (some word)]) with
              | false =>
                  rw [hdone] at hwrite
                  rw [← hwrite]
                  exact .refused (patches_replace word _) rfl rfl
              | true =>
                  rw [hdone] at hwrite
                  rw [← hwrite]
                  exact .done (patches_replace word _) (savedByte_hashmapSet ..) rfl

/-- A trap is put in the place of a byte, or a byte in the place of its trap. -/
theorem MayAsk.changed (h : MayAsk sets d) {addr : RealAddr} {byte : Byte}
    {saves : Byte → Option Byte} {s' : Store Requests}
    (hchanged : Changed addr byte saves d.toStore s')
    (hwhy : byte = int3 ∧ saves = some ∨
      Put sets d.tracee addr.value byte ∧ saves = fun _ => none) :
    MayAsk sets { d with toStore := s' } := by
  -- What is saved at other addresses, the write does not concern.
  have hother : ∀ {read : Option Word} {write : Word} {done : Bool} {a : RealAddr} {b : Byte},
      a ≠ addr ∨ done = false → savedByte d.breakpoints a = some b →
      Put sets (d.tracee ++ [.peekData addr.value read] ++ [.pokeData addr.value write done])
        a.value b := by
    intro read write done a b hne hsaved
    have hput := (h.sound.saved a b hsaved).concat (.peekData addr.value read)
      fun _ heq => nomatch heq
    refine hput.concat _ fun write' heq => ?_
    obtain ⟨a⟩ := a
    obtain ⟨addr⟩ := addr
    cases heq
    exact absurd hne (by simp)
  have hfounded : ∀ {word write : Word} {done : Bool}, Patches word byte write →
      Founded sets (d.tracee ++ [.peekData addr.value (some word)])
        (.pokeData addr.value write done) := by
    intro word write done hpatch
    rcases hwhy with ⟨rfl, -⟩ | ⟨hput, -⟩
    · exact .trap List.getLast?_concat hpatch
    · exact .restore List.getLast?_concat (hput.concat _ fun _ heq => nomatch heq) hpatch
  have hpeek := fun read => h.peekData addr.value read
  have hpoke : ∀ (word write : Word) (done : Bool), Patches word byte write →
      EachAfter InTurn (d.tracee ++ [.peekData addr.value (some word)] ++
        [.pokeData addr.value write done]) ∧
      EachAfter (Founded sets) (d.tracee ++ [.peekData addr.value (some word)] ++
        [.pokeData addr.value write done]) :=
    fun word write done hpatch => ⟨(hpeek (some word)).sound.inTurn.concat
      (hpeek (some word)).atRest, (hpeek (some word)).sound.founded.concat (hfounded hpatch)⟩
  cases hchanged with
  | same hsaved htracee =>
      exact ⟨⟨htracee ▸ h.sound.inTurn, htracee ▸ h.sound.founded,
        fun a b hb => htracee ▸ h.sound.saved a b (hsaved ▸ hb)⟩, htracee ▸ h.atRest⟩
  | unread hsaved htracee =>
      exact ⟨⟨htracee ▸ (hpeek none).sound.inTurn, htracee ▸ (hpeek none).sound.founded,
        fun a b hb => htracee ▸ (hpeek none).sound.saved a b (hsaved ▸ hb)⟩,
        htracee ▸ (hpeek none).atRest⟩
  | refused hpatch hsaved htracee =>
      obtain ⟨hturn, hfound⟩ := hpoke _ _ false hpatch
      exact ⟨⟨htracee ▸ hturn, htracee ▸ hfound,
        fun a b hb => htracee ▸ hother (.inr rfl) (hsaved ▸ hb)⟩, htracee ▸ .concat rfl⟩
  | @done word write hpatch hsaved htracee =>
      obtain ⟨hturn, hfound⟩ := hpoke _ _ true hpatch
      refine ⟨⟨htracee ▸ hturn, htracee ▸ hfound, fun a b hb => ?_⟩, htracee ▸ .concat rfl⟩
      rw [htracee]
      rw [show savedByte s'.breakpoints = _ from hsaved] at hb
      by_cases ha : a = addr
      · rw [ha, Function.update_self] at hb
        rcases hwhy with ⟨rfl, rfl⟩ | ⟨-, rfl⟩
        · refine ⟨d.tracee, word, write, [], ?_, (Option.some.inj hb).symm, hpatch, ?_⟩
          · rw [ha, List.append_assoc]
            rfl
          · exact fun _ hmem => absurd hmem List.not_mem_nil
        · cases hb
      · rw [Function.update_of_ne ha] at hb
        exact hother (.inl ha) hb

/-! ### The debugger -/

/-- To find out where a variable is, registers are read and nothing else is asked for. -/
def AsksForRegisters (env : Env Requests) : Prop :=
  ∀ pc loadAddress varName requests, ∃ reads : List (Option Regs),
    (env.initVar pc loadAddress varName requests).2 = requests ++ reads.map Request.getRegs

/-- That is how variables are looked up. -/
theorem asksForRegisters_of_looksUp {l : Lookups} (hpt : env.pt = kernel.ptrace)
    (hlookup : env.LooksUp l) : AsksForRegisters env := by
  intro pc loadAddress varName requests
  have kept : KeptByReads env.pt fun requests requests' =>
      ∃ reads : List (Option Regs), requests' = requests ++ reads.map Request.getRegs := by
    refine ⟨fun w => ⟨[], by rw [List.map_nil, List.append_nil]⟩, ?_, fun w => ?_⟩
    · rintro w w' w'' ⟨reads, rfl⟩ ⟨reads', rfl⟩
      exact ⟨reads ++ reads', by rw [List.map_append, List.append_assoc]⟩
    · rw [hpt]
      exact ⟨[kernel.getRegs w], rfl⟩
  exact Lookups.initVar_kept kept (hlookup pc loadAddress varName requests)

theorem MayAsk.reads (h : MayAsk sets d) (reads : List (Option Regs)) :
    MayAsk sets { d with tracee := d.tracee ++ reads.map Request.getRegs } := by
  induction reads generalizing d with
  | nil =>
      rw [List.map_nil, List.append_nil]
      exact h
  | cons read reads ih =>
      have hrest := ih (h.getRegs read)
      rw [List.map_cons, List.append_cons]
      exact hrest

theorem MayAsk.register (h : MayAsk sets d) {reg : X86Reg} {value : Word} {regs : Regs}
    {done : Bool}
    (hfounded : Founded sets (d.asked (.getRegs (some regs))).tracee
      (.setRegs (Function.update regs reg value) done)) :
    MayAsk sets ((d.asked (.getRegs (some regs))).asked
      (.setRegs (Function.update regs reg value) done)) :=
  (h.getRegs (some regs)).asked _ rfl rfl hfounded fun _ _ heq => nomatch heq

/-- **Whatever the kernel answers, the debugger asks in turn and with a reason.** -/
theorem requests_discipline (hpt : env.pt = kernel.ptrace) (hasks : AsksForRegisters env)
    (sets : SdLocation → Word → Prop) :
    Discipline env sets (MayAsk sets) (MustWait sets) (ToldOfTrap sets) (HaltedAfter sets) where
  getRegister reg := by
    intro d h
    rw [getRegister_asks hpt]
    refine ⟨h.getRegs _, fun hnone => (h.getRegs _).stopped ?_⟩
    rw [Option.map_eq_none_iff.mp hnone]
    exact List.getLast?_concat
  readMemory addr := by
    intro d h
    show MayAsk sets _
    rw [hpt]
    exact h.peekData addr.value _
  set loc value hset := by
    intro d h
    cases loc with
    | addr addr =>
        show MayAsk sets _
        rw [hpt]
        refine h.asked (.pokeData addr.value value _) rfl rfl (.memory hset) ?_
        intro a write heq
        injection heq with ha hwrite
        rw [← ha, ← hwrite]
        exact hset
    | reg reg =>
        rcases setRegister_asks hpt reg value d with ⟨res, hrun⟩ | ⟨regs, done, res, hrun⟩
        · rw [show writeLocation env value (.reg reg) d = _ from hrun]
          exact h.getRegs none
        · rw [show writeLocation env value (.reg reg) d = _ from hrun]
          exact h.register (.register hset List.getLast?_concat)
  findVariable pc loadAddress varName := by
    intro d h
    obtain ⟨reads, hreads⟩ := hasks pc loadAddress varName d.tracee
    show MayAsk sets { d with tracee := (env.initVar pc loadAddress varName d.tracee).2 }
    rw [hreads]
    exact h.reads reads
  singleStep := by
    intro d h
    show MustWait sets _
    rw [hpt]
    exact h.resume (.singleStep _) rfl
  cont := by
    intro d h
    show MustWait sets _ ∧ _
    rw [hpt]
    refine ⟨h.resume (.cont _) rfl, fun hgone => ?_⟩
    have hnone : kernel.cont d.tracee = some .ESRCH := hgone
    refine h.asked (.cont (kernel.cont d.tracee)) rfl ?_ .cont fun _ _ heq => nomatch heq
    rw [hnone]
    rfl
  getSigInfo := by
    intro d h
    show MayAsk sets _ ∧ _
    rw [hpt]
    refine ⟨h.getSigInfo _, fun htrap => ⟨h.getSigInfo _, ?_⟩⟩
    have hinfo : ((kernel.getSigInfo d.tracee).getD .zero).IsTrap := htrap
    show ∃ front info, d.tracee ++ [.getSigInfo (kernel.getSigInfo d.tracee)] = _ ∧ _
    cases hknown : kernel.getSigInfo d.tracee with
    | none =>
        rw [hknown] at hinfo
        exact nomatch hinfo.1
    | some info =>
        rw [hknown] at hinfo
        exact ⟨d.tracee, info, rfl, hinfo⟩
  rewind := by
    intro d h
    obtain ⟨front, info, hfront, htrap⟩ := h.told
    rw [bind_run (getPc_asks hpt d)]
    generalize kernel.getRegs d.tracee = read
    have hask := h.toMayAsk.getRegs read
    unfold setPc
    rcases setRegister_asks hpt .rip ((read.elim 0 fun regs => regs .rip) - 1)
        (d.asked (.getRegs read)) with ⟨res, hrun⟩ | ⟨regs, done, res, hrun⟩
    · rw [bind_run hrun]
      exact hask.getRegs none
    · rw [bind_run hrun]
      have hbefore : ((d.asked (.getRegs read)).asked (.getRegs (some regs))).tracee =
          front ++ [.getSigInfo (some info), .getRegs read, .getRegs (some regs)] := by
        show d.tracee ++ [_] ++ [_] = _
        rw [hfront, List.append_assoc, List.append_assoc]
        rfl
      exact hask.register (.rewind hbefore htrap)
  await := by
    intro d h
    rcases awaitStatus_asks hpt d with ⟨st, hrun⟩ | hrun | hrun
    · rw [hrun]
      exact h.waitpid (.status st)
    · rw [hrun]
      exact (h.waitpid .failed).stopped List.getLast?_concat
    · rw [hrun]
      exact (h.waitpid .blocked).stopped List.getLast?_concat
  enable addr := by
    intro d h
    show MayAsk sets _
    rw [hpt]
    exact h.changed (enableBreakpoint_changed addr d.toStore) (.inl ⟨rfl, rfl⟩)
  disable addr := by
    intro d h
    show MayAsk sets _
    rw [hpt]
    rcases disableBreakpoint_changed kernel addr d.toStore with hsame | ⟨byte, hb, hc⟩
    · rw [hsame]
      exact h
    · exact h.changed hc (.inr ⟨h.sound.saved addr byte hb, rfl⟩)
  say msg := fun d h => ⟨h.sound, h.atRest⟩
  sayRunning msg := fun d h => ⟨h.sound, h.last⟩
  outOfFuel d h := by
    rcases h with h | h
    · exact h.stopped trivial
    · exact ⟨h.sound.inTurn, h.sound.founded, trivial⟩

/-! ### A session -/

theorem mayAsk_unasked (sets : SdLocation → Word → Prop) (loadAddress : RealAddr) :
    MayAsk sets (.unasked loadAddress) where
  sound := ⟨.nil, .nil, fun _ _ h => nomatch h⟩
  atRest _ h := nomatch h

variable {l : Lookups} {lineEntryAt : String → Nat → LineEntry} {fuel : Nat}
  {loadAddress : RealAddr} {lines : List String}

theorem runPrompt_mayAsk (hpt : env.pt = kernel.ptrace) (hlookup : env.LooksUp l) :
    (∃ d, runPrompt env lineEntryAt fuel lines (.unasked loadAddress) = .ok () d ∧
      MayAsk (typed env.info lineEntryAt loadAddress lines) d) ∨
    ∃ e d, runPrompt env lineEntryAt fuel lines (.unasked loadAddress) = .error e d ∧
      HaltedAfter (typed env.info lineEntryAt loadAddress lines) e d := by
  have rules := requests_discipline hpt (asksForRegisters_of_looksUp hpt hlookup)
    (typed env.info lineEntryAt loadAddress lines)
  have hsession := rules.runPrompt lineEntryAt fuel loadAddress
    fun reading hreading command hcommand loc value hsets =>
      ⟨reading, hreading, command, hcommand, hsets⟩
  rcases hsession.ends ⟨mayAsk_unasked _ loadAddress, rfl⟩ with ⟨_, d, hrun, h⟩ | ⟨e, d, hrun, h⟩
  · exact .inl ⟨d, hrun, h⟩
  · exact .inr ⟨e, d, hrun, h⟩

/-- What holds of the requests however the session ends. -/
theorem requestsOf_sound (hpt : env.pt = kernel.ptrace) (hlookup : env.LooksUp l) :
    EachAfter InTurn (requestsOf env lineEntryAt fuel loadAddress lines) ∧
    EachAfter (Founded (typed env.info lineEntryAt loadAddress lines))
      (requestsOf env lineEntryAt fuel loadAddress lines) := by
  unfold requestsOf finalState
  rcases runPrompt_mayAsk hpt hlookup with ⟨d, hrun, h⟩ | ⟨e, d, hrun, h⟩
  · rw [hrun]
    exact ⟨h.sound.inTurn, h.sound.founded⟩
  · rw [hrun]
    exact ⟨h.inTurn, h.founded⟩

/-- A kernel that grants everything, with a tracee that always stands at a trap. -/
def willingKernel : Kernel where
  peekData _ _ := some 0
  pokeData _ _ _ := true
  getRegs _ := some fun _ => 1
  setRegs _ _ := true
  cont _ := none
  singleStep _ := true
  getSigInfo _ := some ⟨.SIGTRAP, .SI_KERNEL⟩
  waitpid _ := .status (.stopped .SIGTRAP)

/-- A program with nothing but `main`. -/
def willingEnv : Env Requests :=
  { strippedEnv willingKernel.ptrace with
    info :=
      { elf := ⟨.EXEC, [⟨"main", 0, 16, .STT_FUNC⟩]⟩
        dbg := ⟨fun _ => some "a.c", fun _ => { isOk := true }, fun _ _ => [],
          fun start _ => some start⟩ } }

/-- Breakpoints, steps, and a register that is set. -/
def willingLines : List String := ["b 8", "c", "", "t %rax 7", "l"]

theorem willingEnv_pt : willingEnv.pt = willingKernel.ptrace := rfl

theorem willingEnv_looksUp : willingEnv.LooksUp .none :=
  fun _ _ varName w => Lookups.none_initVar _ varName w

example : (requestsOf willingEnv (fun _ _ => {}) 9 ⟨0⟩ willingLines).length = 51 := by
  decide +kernel

/-- **The debugger talks to a tracee that is stopped.**  Whatever is typed and whatever the kernel
answers, a wait comes directly after the tracee was told to go on, and no other request does. -/
theorem requestsOf_inTurn (hpt : env.pt = kernel.ptrace) (hlookup : env.LooksUp l) :
    EachAfter InTurn (requestsOf env lineEntryAt fuel loadAddress lines) :=
  (requestsOf_sound hpt hlookup).1

theorem requestsOf_inTurn_willing :
    EachAfter InTurn (requestsOf willingEnv (fun _ _ => {}) 9 ⟨0⟩ willingLines) :=
  requestsOf_inTurn willingEnv_pt willingEnv_looksUp

/-- **The debugger writes nothing of its own.**  Whatever is typed and whatever the kernel answers,
a word that is written to memory is one that the user sets, or the word that has just been read
there with a trap for its lowest byte, or with the byte that the last trap at this address was
put in the place of.  A register that is written is one that the user sets, or the program
counter after a trap. -/
theorem requestsOf_founded (hpt : env.pt = kernel.ptrace) (hlookup : env.LooksUp l) :
    EachAfter (Founded (typed env.info lineEntryAt loadAddress lines))
      (requestsOf env lineEntryAt fuel loadAddress lines) :=
  (requestsOf_sound hpt hlookup).2

theorem requestsOf_founded_willing :
    EachAfter (Founded (typed willingEnv.info (fun _ _ => {}) ⟨0⟩ willingLines))
      (requestsOf willingEnv (fun _ _ => {}) 9 ⟨0⟩ willingLines) :=
  requestsOf_founded willingEnv_pt willingEnv_looksUp

/-- **The debugger does not stop without a reason.**  If it returns, the tracee is not left
running, and of every enabled breakpoint the byte is known that its trap is in the place of.  If
it does not, it is a wait that did not end or that failed, or the registers could not be read. -/
theorem runPrompt_ends (hpt : env.pt = kernel.ptrace) (hlookup : env.LooksUp l) :
    (∃ d, runPrompt env lineEntryAt fuel lines (.unasked loadAddress) = .ok () d ∧
      AtRest d.tracee ∧ ∀ addr, lookupBreakpoint d.breakpoints addr = true →
        ∃ byte, savedByte d.breakpoints addr = some byte ∧
          Put (typed env.info lineEntryAt loadAddress lines) d.tracee addr.value byte) ∨
    ∃ e d, runPrompt env lineEntryAt fuel lines (.unasked loadAddress) = .error e d ∧
      Explains e d.tracee := by
  rcases runPrompt_mayAsk hpt hlookup with ⟨d, hrun, h⟩ | ⟨e, d, hrun, h⟩
  · refine .inl ⟨d, hrun, h.atRest, fun addr henabled => ?_⟩
    rw [lookupBreakpoint_eq] at henabled
    obtain ⟨byte, hbyte⟩ := Option.isSome_iff_exists.mp henabled
    exact ⟨byte, hbyte, h.sound.saved addr byte hbyte⟩
  · exact .inr ⟨e, d, hrun, h.explains⟩

theorem runPrompt_ends_willing :
    (∃ d, runPrompt willingEnv (fun _ _ => {}) 9 willingLines (.unasked ⟨0⟩) = .ok () d ∧
      AtRest d.tracee ∧ ∀ addr, lookupBreakpoint d.breakpoints addr = true →
        ∃ byte, savedByte d.breakpoints addr = some byte ∧
          Put (typed willingEnv.info (fun _ _ => {}) ⟨0⟩ willingLines) d.tracee addr.value byte) ∨
    ∃ e d, runPrompt willingEnv (fun _ _ => {}) 9 willingLines (.unasked ⟨0⟩) = .error e d ∧
      Explains e d.tracee :=
  runPrompt_ends willingEnv_pt willingEnv_looksUp

end Spray
