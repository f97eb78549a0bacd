/-
What a user is to see of a program.

The debugger writes traps into the program it runs.  Here are its commands without any: the
program executes its own instructions in its own memory, and a breakpoint is an address to
stop at.  Nothing is said of requests, of signals, or of how a breakpoint is taken out of the
way and put back.  How long the program may run, and how long a chain of frames may be, is
limited by a number; there is no result if it is too small.
-/
import Spray.Machine
import Spray.Prompt

namespace Spray

variable {X : Type}

/-! ### Running on -/

namespace Program

variable (p : Program X) (stops : RealAddr → Bool)

/-- Execute instructions until the program is at one of the addresses, or exits. -/
def runUntil : (limit : Nat) → Cpu X → Option (Except Nat (Cpu X))
  | 0, _ => none
  | limit + 1, c =>
    if stops ⟨c.pc⟩ then some (.ok c)
    else
      match p.step c with
      | .error code => some (.error code)
      | .ok next => runUntil limit next

/-- Leave the address the program is at, and run on. -/
def resume (limit : Nat) (c : Cpu X) : Option (Except Nat (Cpu X)) :=
  match p.step c with
  | .error code => some (.error code)
  | .ok next => p.runUntil stops limit next

end Program

/-! ### Views -/

/-- A program, and what is known of its source. -/
structure Debuggee (X : Type) where
  program : Program X
  info : DebugInfo
  lineEntryAt : String → Nat → LineEntry
  printSource : String → Nat → Nat → SprayResult
  /-- Where a variable is, given the PC, the load address, its name, and the registers if
  they can be read. -/
  variableAt : DbgAddr → RealAddr → String → Option Regs → Option RuntimeVariable

/-- The debugger at work on it. -/
def Debuggee.env (s : Debuggee X) (codes : StopCodes) (limit : Nat) : Env (Machine X) where
  pt := s.program.ptrace codes limit
  info := s.info
  printSource := s.printSource
  initVar pc loadAddress name m :=
    let (regs, m) := (s.program.ptrace codes limit).getRegs m
    (s.variableAt pc loadAddress name regs, m)

/-- The pointer a value is taken for. -/
def PrintValueInfo.pointer (info : PrintValueInfo) (value : Word) : Word :=
  match info with
  | .varRead var => maskVarValue var value
  | _ => value

/-- The program as the user sees it. -/
structure View (X : Type) where
  /-- Memory is the program's own. -/
  cpu : Cpu X
  /-- The user's breakpoints. -/
  enabled : RealAddr → Bool
  loadAddress : RealAddr
  output : List Message

namespace View

variable (v : View X)

def pc : RealAddr := ⟨v.cpu.pc⟩

def dbgPc : DbgAddr := realToDbg v.loadAddress v.pc

def readMemory (addr : RealAddr) : Word := Memory.readWord v.cpu.mem addr.value 8

def writeMemory (addr : RealAddr) (word : Word) : View X :=
  { v with cpu := { v.cpu with mem := Memory.writeWord (k := 8) v.cpu.mem addr.value word } }

def setRegister (reg : X86Reg) (word : Word) : View X :=
  { v with cpu := { v.cpu with regs := Function.update v.cpu.regs reg word } }

def readLocation : SdLocation → Word
  | .addr addr => v.readMemory addr
  | .reg reg => v.cpu.regs reg

def writeLocation (value : Word) : SdLocation → View X
  | .addr addr => v.writeMemory addr value
  | .reg reg => v.setRegister reg value

def withCpu (cpu : Cpu X) : View X := { v with cpu }

def withEnabled (enabled : RealAddr → Bool) : View X := { v with enabled }

def printed (msgs : List Message) : View X := { v with output := v.output ++ msgs }

/-- Where the program has got to, or all that has been printed when it has exited. -/
def reached : Except Nat (Cpu X) → Except (List Message) (View X)
  | .ok cpu => .ok (v.withCpu cpu)
  | .error code => .error (v.output ++ [.childExited code])

/-- The program when the debugger has just been attached. -/
def attach (cpu : Cpu X) (loadAddress : RealAddr) : View X where
  cpu
  enabled _ := false
  loadAddress
  output := []

/-- What is printed of a value. -/
def filtered (value : Word) (filter : PrintFilter) (info : PrintValueInfo) : Message :=
  match filter with
  | .DEREF => .deref (v.readMemory ⟨info.pointer value⟩) (info.pointer value) info
  | filter => .value value filter info

/-- The return address is stored 8 bytes after the start of the stack frame. -/
def returnSlot : RealAddr := ⟨v.cpu.regs .rbp + 8⟩

def returnAddress : RealAddr := ⟨v.readMemory v.returnSlot⟩

/-- The addresses a step over a line ends at, given where the other lines begin. -/
def stepOverStops (others : RealAddr → Bool) : RealAddr → Bool :=
  Function.update (fun a => v.enabled a || others a) v.returnAddress true

/-- The frame pointer of the frame so many calls out. -/
def caller : Nat → Word
  | 0 => v.cpu.regs .rbp
  | n + 1 => v.readMemory ⟨caller n⟩

/-- No byte of the word has a breakpoint. -/
def Untrapped (addr : RealAddr) : Prop :=
  ∀ i < 8, v.enabled ⟨addr.value + BitVec.ofNat 64 i⟩ = false

end View

/-! ### Commands -/

namespace Debuggee

variable (s : Debuggee X)

/-- What is printed of the source where the program is. -/
def sourceMessages (v : View X) : List Message :=
  let sym := symByAddr v.dbgPc s.info
  match sym.bind (symPosition · s.info), sym.bind (symFilepath · s.info) with
  | some pos, some filepath =>
    (if v.enabled v.pc then [.hitBreakpoint v.pc filepath] else []) ++
      [match s.printSource filepath pos.line 3 with
        | .ok => .sourceLines filepath pos.line 3
        | .err => .sourceUnreadable filepath]
  | _, _ => [.noSourceInfo v.dbgPc]

def shown (v : View X) : View X := v.printed (s.sourceMessages v)

/-- Run on to one of the addresses and show what is there. -/
def resumed (limit : Nat) (stops : RealAddr → Bool) (v : View X) :
    Option (Except (List Message) (View X)) :=
  (s.program.resume stops limit v.cpu).map fun r => (v.reached r).map s.shown

/-- Execute one instruction. -/
def stepped (v : View X) : Except (List Message) (View X) := v.reached (s.program.step v.cpu)

/-- Execute instructions until one begins another line. -/
def stepLineLoop (initLine : Nat) : (left : Nat) → Position → View X →
    Except (List Message) (View X)
  | 0, _, v => .ok (v.printed [.nextLineUnknown])
  | left + 1, pos, v =>
    if !pos.isExact || pos.line = initLine then
      match s.stepped v with
      | .error out => .error out
      | .ok v =>
        match addrPosition v.dbgPc s.info with
        | none => .ok (v.printed [.nextLineUnknown])
        | some pos => stepLineLoop initLine left pos v
    else .ok (s.shown v)

def stepLine (v : View X) : Except (List Message) (View X) :=
  match addrPosition v.dbgPc s.info with
  | none => .ok (v.printed [.currentLineUnknown])
  | some pos => s.stepLineLoop pos.line singleStepSearchLimit pos v

/-- Where the lines of a function begin, other than the one it begins with. -/
def otherLines (v : View X) (func : DebugSymbol) : Option (RealAddr → Bool) :=
  match symPosition func s.info, symFilepath func s.info with
  | some pos, some filepath => some fun a =>
    (s.info.dbg.sdForEachLine (symName func) filepath).any fun line =>
      line.ln ≠ pos.line && dbgToReal v.loadAddress line.addr = a
  | _, _ => none

def stepOver (limit : Nat) (v : View X) : Option (Except (List Message) (View X)) :=
  match symByAddr v.dbgPc s.info with
  | none => some (.ok (v.printed [.currentFunctionUnknown]))
  | some func =>
    match s.otherLines v func with
    | none => some (.ok (v.printed [.scopeBreakpointsFailed]))
    | some others => s.resumed limit (v.stepOverStops others) v

def callLocation (pc : DbgAddr) (framePointer : RealAddr) : CallLocation :=
  let func := symByAddr pc s.info
  { pc, framePointer
    lineno := (func.bind (symPosition · s.info)).map (·.line)
    function := func.map symName }

/-- The frames from `framePointer` outwards, on top of those found so far. -/
def callers (v : View X) : (limit : Nat) → (framePointer : Word) → List CallLocation →
    Option (List CallLocation)
  | 0, _, _ => none
  | limit + 1, framePointer, frames =>
    if framePointer = 0 then some frames
    else
      let pc := realToDbg v.loadAddress ⟨v.readMemory ⟨framePointer + 8⟩⟩
      let caller := v.readMemory ⟨framePointer⟩
      callers v limit caller (s.callLocation pc ⟨caller⟩ :: frames)

/-- Where the function begins that the program is in. -/
def funcStart (v : View X) : Option RealAddr :=
  (symByAddr v.dbgPc s.info).map fun func => dbgToReal v.loadAddress (symStartAddr func)

def storesFramePointer (v : View X) : Bool :=
  (s.funcStart v).any fun addr => v.readMemory addr &&& 0xffffffff = storeFramePointerCode

def backtrace (limit : Nat) (v : View X) : Option (Except (List Message) (View X)) :=
  let framePointer := v.cpu.regs .rbp
  (s.callers v limit framePointer [s.callLocation v.dbgPc ⟨framePointer⟩]).map fun frames =>
    .ok (v.printed ((if s.storesFramePointer v then [] else [.noFramePointer]) ++
      [.backtrace frames]))

def findVariable (v : View X) (varName : String) : Option RuntimeVariable :=
  s.variableAt v.dbgPc v.loadAddress varName (some v.cpu.regs)

def printVariable (v : View X) (varName : String) (filter : PrintFilter) : View X :=
  match s.findVariable v varName with
  | none => v.printed [.variableNotFound varName]
  | some var => v.printed [v.filtered (v.readLocation var.loc) filter (.varRead var)]

def setVariable (v : View X) (varName : String) (value : Word) (filter : PrintFilter) : View X :=
  match s.findVariable v varName with
  | none => v.printed [.variableNotFound varName]
  | some var =>
    let v := v.writeLocation value var.loc
    v.printed [v.filtered value filter (.varReadConfirm var)]

/-- What a command comes to: another view, or all that has been printed when the program
exits. -/
def exec (limit : Nat) (v : View X) : Command → Option (Except (List Message) (View X))
  | .continue_ => s.resumed limit v.enabled v
  | .break_ addr => some (.ok (v.withEnabled (Function.update v.enabled addr true)))
  | .delete addr => some (.ok (v.withEnabled (Function.update v.enabled addr false)))
  | .printMemory addr filter => some (.ok (v.printed
      [v.filtered (v.readMemory addr) (defaultFilter filter .BYTES) .memRead]))
  | .printRegister reg filter => some (.ok (v.printed
      [v.filtered (v.cpu.regs reg) (defaultFilter filter .BYTES) (.regRead reg)]))
  | .printVariable varName filter => some (.ok (s.printVariable v varName filter))
  | .setMemory addr word filter =>
    let v := v.writeMemory addr word
    some (.ok (v.printed [v.filtered word (defaultFilter filter .BYTES) .memReadConfirm]))
  | .setRegister reg word filter =>
    let v := v.setRegister reg word
    some (.ok (v.printed [v.filtered word (defaultFilter filter .BYTES) (.regReadConfirm reg)]))
  | .setVariable varName value filter => some (.ok (s.setVariable v varName value filter))
  | .inst => some ((s.stepped v).map s.shown)
  | .leave => s.resumed limit (Function.update v.enabled v.returnAddress true) v
  | .step => some (s.stepLine v)
  | .next => s.stepOver limit v
  | .backtrace => s.backtrace limit v

/-- Run to where `main` starts. -/
def start (limit : Nat) (main : DebugSymbol) (v : View X) :
    Option (Except (List Message) (View X)) :=
  match functionStartAddr main s.info with
  | none => some (.ok (s.shown v))
  | some startMain =>
    s.resumed limit (Function.update v.enabled (dbgToReal v.loadAddress startMain) true) v

end Debuggee

/-! ### Lines

A line is read apart from the program: all that is known of that is where it is loaded.
-/

/-- What a line comes to: messages are printed, and then there may be a command. -/
structure Reading where
  msgs : List Message
  command : Option Command
  deriving DecidableEq, Repr

/-- Remember a command instead of executing it. -/
def remember (command : Command) : DbgM (Option Command) Unit :=
  modify fun d => { d with tracee := some command }

section Lines

variable (info : DebugInfo) (lineEntryAt : String → Nat → LineEntry) (loadAddress : RealAddr)

def promptReading (tokens : List String) : Reading :=
  let d := finalState (handleDebugCommandTokens info lineEntryAt remember tokens)
    ⟨⟨initBreakpoints, none⟩, loadAddress, []⟩
  ⟨d.output, d.tracee⟩

/-- An empty line stands for the last one that was not. -/
def recalled (history : Option String) (line : String) : Option String :=
  if getCommandTokens line = [] then history else some line

def readLine : Option String → Reading
  | none => ⟨[.replErr "No command to repeat"], none⟩
  | some line => promptReading info lineEntryAt loadAddress (getCommandTokens line)

def readLines : (history : Option String) → List String → List Reading
  | _, [] => []
  | history, line :: lines =>
    readLine info lineEntryAt loadAddress (recalled history line) ::
      readLines (recalled history line) lines

end Lines

namespace Debuggee

variable (s : Debuggee X)

def enter (limit : Nat) (v : View X) (reading : Reading) :
    Option (Except (List Message) (View X)) :=
  match reading.command with
  | none => some (.ok (v.printed reading.msgs))
  | some command => s.exec limit (v.printed reading.msgs) command

/-- One line after the other, until the program exits. -/
def session (limit : Nat) (v : View X) : List Reading → Option (Except (List Message) (View X))
  | [] => some (.ok v)
  | reading :: readings =>
    match s.enter limit v reading with
    | some (.ok v) => session limit v readings
    | other => other

/-- Start, and do what the lines typed at the prompt come to. -/
def run (limit : Nat) (main : DebugSymbol) (v : View X) (lines : List String) :
    Option (Except (List Message) (View X)) :=
  match s.start limit main v with
  | some (.ok v) => s.session limit v (readLines s.info s.lineEntryAt v.loadAddress none lines)
  | other => other

end Debuggee

/-! ### What may be asked

A trap is there to be seen by whoever reads the byte it stands in for, and code is not to be
written.  So the user keeps away from both, and has breakpoints where instructions start.
-/

namespace View

variable (v : View X)

/-- A value is only dereferenced if it points to a word without traps. -/
def MayFilter (value : Word) (filter : PrintFilter) : Prop :=
  filter = .DEREF → v.Untrapped ⟨value⟩

def MayRead : SdLocation → Prop
  | .addr addr => v.Untrapped addr
  | .reg _ => True

end View

namespace Debuggee

variable (s : Debuggee X)

/-- No byte of the word is code. -/
def IsData (addr : RealAddr) : Prop :=
  ∀ i < 8, ¬ s.program.code (addr.value + BitVec.ofNat 64 i)

/-- The program counter stays on an instruction. -/
def MayWrite (value : Word) : SdLocation → Prop
  | .addr addr => s.IsData addr
  | .reg reg => reg = .rip → s.program.boundary value

/-- The frames are found by words without traps, and their addresses are those in the
executable file. -/
def MayTrace (v : View X) : Prop :=
  v.loadAddress.value = 0 ∧ (∀ addr, s.funcStart v = some addr → v.Untrapped addr) ∧
    ∀ n, (∀ k ≤ n, v.caller k ≠ 0) →
      v.Untrapped ⟨v.caller n⟩ ∧ v.Untrapped ⟨v.caller n + 8⟩

/-- The breakpoints for the step are where instructions start. -/
def MayStepOver (v : View X) : Prop :=
  ∀ func others, symByAddr v.dbgPc s.info = some func → s.otherLines v func = some others →
    v.loadAddress.value = 0 ∧ (∀ a, others a = true → s.program.boundary a.value)

def MayReturn (v : View X) : Prop :=
  s.IsData v.returnSlot ∧ s.program.boundary v.returnAddress.value

def May (v : View X) : Command → Prop
  | .continue_ | .inst | .step | .delete _ => True
  | .break_ addr => s.program.boundary addr.value
  | .printMemory addr filter => v.Untrapped addr ∧ v.MayFilter (v.readMemory addr) filter
  | .printRegister reg filter => v.MayFilter (v.cpu.regs reg) filter
  | .printVariable varName filter => ∀ var, s.findVariable v varName = some var →
    v.MayRead var.loc ∧ v.MayFilter (maskVarValue var (v.readLocation var.loc)) filter
  | .setMemory addr word filter => s.IsData addr ∧ v.MayFilter word filter
  | .setRegister reg word filter => s.MayWrite word (.reg reg) ∧ v.MayFilter word filter
  | .setVariable varName value filter => ∀ var, s.findVariable v varName = some var →
    s.MayWrite value var.loc ∧ v.MayFilter value filter
  | .leave => s.MayReturn v
  | .next => s.MayStepOver v ∧ s.MayReturn v
  | .backtrace => s.MayTrace v

/-- Each command is one that may be given where the lines before it have led. -/
def MaySession (v : View X) : List Reading → Prop
  | [] => True
  | reading :: readings =>
    (∀ command, reading.command = some command → s.May (v.printed reading.msgs) command) ∧
      ∀ limit next, s.enter limit v reading = some (.ok next) → MaySession next readings

/-- So is `main`, and there is no breakpoint on it yet. -/
structure MayRun (main : DebugSymbol) (v : View X) (lines : List String) : Prop where
  start : ∀ startMain, functionStartAddr main s.info = some startMain →
    s.program.boundary (dbgToReal v.loadAddress startMain).value ∧
      v.enabled (dbgToReal v.loadAddress startMain) = false
  session : ∀ limit next, s.start limit main v = some (.ok next) →
    s.MaySession next (readLines s.info s.lineEntryAt next.loadAddress none lines)

end Debuggee

end Spray
