/-
The `ptrace` API, wrapped up for use in the rest of the program (`src/ptrace.c`).

`Ptrace W` is what the kernel offers a debugger whose tracee is in a state of type
`W`: the `ptrace` requests and `waitpid`.  Everything above it is written for any
such interface, so a tracee that is a machine, a recorded run, or a process whose
requests fail at will are all instances of one signature.
-/
import Spray.Magic

namespace Spray

/-- `x86_reg`, laid out the way `user_regs_struct` is. -/
inductive X86Reg
  | r15 | r14 | r13 | r12
  | rbp | rbx | r11 | r10 | r9 | r8
  | rax | rcx | rdx | rsi | rdi
  | orig_rax | rip | cs | eflags
  | rsp | ss | fs_base | gs_base
  | ds | es | fs | gs
  deriving DecidableEq, Repr

/-- `struct user_regs_struct`, indexed by register. -/
abbrev Regs := X86Reg → Word

inductive Signal
  | SIGSEGV
  | SIGTRAP
  | SIGWINCH
  | other (signo : Nat)
  deriving DecidableEq, Repr

/-- `si_code` of a `SIGTRAP`; the other signals number theirs independently. -/
inductive SiCode
  | SI_KERNEL
  | TRAP_BRKPT
  | TRAP_TRACE
  | other (code : Int)
  deriving DecidableEq, Repr

/-- The fields of `siginfo_t` the debugger reads. -/
structure SigInfo where
  signo : Signal
  code : SiCode
  deriving DecidableEq, Repr

/-- `siginfo_t siginfo = { 0 }`. -/
def SigInfo.zero : SigInfo := ⟨.other 0, .other 0⟩

/-- A wait status, as the `WIF*` macros take it apart. -/
inductive WaitStatus
  | exited (code : Nat)
  | signaled (sig : Signal)
  | continued
  | stopped (sig : Signal)
  | invalid (status : Int)
  deriving DecidableEq, Repr

/-- What a call to `waitpid` does: it reports a status, it fails and leaves the status
unwritten (`ECHILD`), or it does not return. -/
inductive WaitOutcome
  | status (s : WaitStatus)
  | failed
  | blocked
  deriving DecidableEq, Repr

inductive Errno
  | ESRCH
  | other (n : Nat)
  deriving DecidableEq, Repr

/-- The requests a debugger makes of its tracee.  A request may fail, and may change
the tracee's state whether it fails or not; what each one does is up to the laws a
theorem asks of it. -/
structure Ptrace (W : Type) where
  peekData : Word → W → Option Word × W
  pokeData : Word → Word → W → Bool × W
  getRegs : W → Option Regs × W
  setRegs : Regs → W → Bool × W
  /-- `none` when the request succeeds. -/
  cont : W → Option Errno × W
  singleStep : W → Bool × W
  getSigInfo : W → Option SigInfo × W
  waitpid : W → WaitOutcome × W

variable {W : Type}

/-- A request's outcome, as the wrappers report it. -/
def SprayResult.ofBool (b : Bool) : SprayResult := if b then .ok else .err

def ptReadMemory (pt : Ptrace W) (addr : RealAddr) (w : W) : Option Word × W :=
  pt.peekData addr.value w

def ptWriteMemory (pt : Ptrace W) (addr : RealAddr) (write : Word) (w : W) : SprayResult × W :=
  let (res, w) := pt.pokeData addr.value write w
  (.ofBool res, w)

def ptReadRegisters (pt : Ptrace W) (w : W) : Option Regs × W := pt.getRegs w

def ptWriteRegisters (pt : Ptrace W) (regs : Regs) (w : W) : SprayResult × W :=
  let (res, w) := pt.setRegs regs w
  (.ofBool res, w)

def ptContinueExecution (pt : Ptrace W) (w : W) : Option Errno × W := pt.cont w

def ptSingleStep (pt : Ptrace W) (w : W) : SprayResult × W :=
  let (res, w) := pt.singleStep w
  (.ofBool res, w)

def ptGetSignalInfo (pt : Ptrace W) (w : W) : Option SigInfo × W := pt.getSigInfo w

/-- Read one register (`get_register_value`). -/
def getRegisterValue (pt : Ptrace W) (reg : X86Reg) (w : W) : Option Word × W :=
  match ptReadRegisters pt w with
  | (none, w) => (none, w)
  | (some regs, w) => (some (regs reg), w)

/-- Write one register, leaving the others as they are (`set_register_value`). -/
def setRegisterValue (pt : Ptrace W) (reg : X86Reg) (write : Word) (w : W) : SprayResult × W :=
  match ptReadRegisters pt w with
  | (none, w) => (.err, w)
  | (some regs, w) => ptWriteRegisters pt (Function.update regs reg write) w

/-- **What `ptrace` does to memory.**  Every peek and poke either succeeds, reading or
writing the word at that address, or fails; a failed one leaves memory alone. -/
structure MemoryLaws (pt : Ptrace W) (mem : W → Memory 64) : Prop where
  peek_mem : ∀ a w, mem (pt.peekData a w).2 = mem w
  peek_val : ∀ a w x, (pt.peekData a w).1 = some x → x = Memory.readWord (mem w) a 8
  poke_ok : ∀ a x w, (pt.pokeData a x w).1 = true →
    mem (pt.pokeData a x w).2 = Memory.writeWord (k := 8) (mem w) a x
  poke_err : ∀ a x w, (pt.pokeData a x w).1 = false → mem (pt.pokeData a x w).2 = mem w

/-- A tracee whose memory can be read and written at every address. -/
structure MemoryServed (pt : Ptrace W) (mem : W → Memory 64) : Prop extends
    MemoryLaws pt mem where
  peek_some : ∀ a w, (pt.peekData a w).1 ≠ none
  poke_true : ∀ a x w, (pt.pokeData a x w).1 = true

/-- A stopped tracee whose registers can be read and written. -/
structure RegistersServed (pt : Ptrace W) (regs : W → Regs) : Prop where
  get_some : ∀ w, (pt.getRegs w).1 = some (regs w)
  get_regs : ∀ w, regs (pt.getRegs w).2 = regs w
  set_regs : ∀ rs w, regs (pt.setRegs rs w).2 = rs
  info_regs : ∀ w, regs (pt.getSigInfo w).2 = regs w

/-- A stopped tracee that is only looked at.  Each word of its memory can be read or not, and
so can its registers, however often that is tried. -/
structure StandsStill (pt : Ptrace W) (still : W → Prop) (read : Word → Option Word)
    (regs : Option Regs) : Prop where
  peek_val : ∀ a w, still w → (pt.peekData a w).1 = read a
  peek_still : ∀ a w, still w → still (pt.peekData a w).2
  get_val : ∀ w, still w → (pt.getRegs w).1 = regs
  get_still : ∀ w, still w → still (pt.getRegs w).2

/-- A tracee of which nothing can be had but these words and registers. -/
def stillPtrace (read : Word → Option Word) (regs : Option Regs) : Ptrace Unit where
  peekData a w := (read a, w)
  pokeData _ _ w := (false, w)
  getRegs w := (regs, w)
  setRegs _ w := (false, w)
  cont w := (some .ESRCH, w)
  singleStep w := (false, w)
  getSigInfo w := (none, w)
  waitpid w := (.blocked, w)

theorem stillPtrace_standsStill (read : Word → Option Word) (regs : Option Regs) :
    StandsStill (stillPtrace read regs) (fun _ => True) read regs :=
  ⟨fun _ _ _ => rfl, fun _ _ _ => trivial, fun _ _ => rfl, fun _ _ => trivial⟩

end Spray
