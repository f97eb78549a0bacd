/-
Commands that set what they name.

As long as nothing is run, a tracee is words of memory and registers, and each `set` is an update of
these.  Whatever else a tracee may be, it makes no difference at the prompt.
-/
import Spray.Proofs.Looking

namespace Spray

open Triple

variable {W V : Type} {R : W → V → Prop} {env : Env W} {env' : Env V}

/-- The command shows something or sets something. -/
inductive Command.Edits : Command → Prop
  | looks {command : Command} (h : command.Looks) : Edits command
  | setMemory (addr : RealAddr) (word : Word) (filter : PrintFilter) :
      Edits (.setMemory addr word filter)
  | setRegister (reg : X86Reg) (word : Word) (filter : PrintFilter) :
      Edits (.setRegister reg word filter)
  | setVariable (varName : String) (value : Word) (filter : PrintFilter) :
      Edits (.setVariable varName value filter)

/-- Tracees that `R` relates can be written alike, too. -/
structure EditsAlike (R : W → V → Prop) (env : Env W) (env' : Env V) : Prop extends
    ReadsAlike R env env' where
  poke : ∀ addr word w v, R w v →
    SameAnswer R (env.pt.pokeData addr word w) (env'.pt.pokeData addr word v)
  setRegs : ∀ regs w v, R w v → SameAnswer R (env.pt.setRegs regs w) (env'.pt.setRegs regs v)

/-- What a write of a register ends with. -/
def confirmRegister (env : Env W) (reg : X86Reg) (filter : PrintFilter) : DbgM W Unit := do
  match ← request (getRegisterValue env.pt reg) with
  | some written =>
    printFiltered env written (defaultFilter filter .BYTES) (.regReadConfirm reg)
  | none => say (.registerConfirmFailed reg)

namespace EditsAlike

variable (alike : EditsAlike R env env') {before : Debugger W}

include alike

theorem writeMemory (addr : RealAddr) (word : Word) : Lockstep (ShowsAlike R before)
    (request (ptWriteMemory env.pt addr word)) (request (ptWriteMemory env'.pt addr word)) :=
  request_lockstep fun w v h =>
    ⟨congrArg SprayResult.ofBool (alike.poke addr.value word w v h).1,
      (alike.poke addr.value word w v h).2⟩

theorem setRegister (reg : X86Reg) (word : Word) : Lockstep (ShowsAlike R before)
    (request (setRegisterValue env.pt reg word)) (request (setRegisterValue env'.pt reg word)) := by
  refine request_lockstep fun w v h => ?_
  have hregs := alike.registers w v h
  unfold setRegisterValue ptReadRegisters
  generalize env.pt.getRegs w = read at hregs
  generalize env'.pt.getRegs v = read' at hregs
  obtain ⟨regs, w'⟩ := read
  obtain ⟨regs', v'⟩ := read'
  obtain ⟨rfl, hafter⟩ := hregs
  cases regs with
  | none => exact ⟨rfl, hafter⟩
  | some regs =>
      have hset := alike.setRegs (Function.update regs reg word) w' v' hafter
      exact ⟨congrArg SprayResult.ofBool hset.1, hset.2⟩

theorem writeLocation (value : Word) (loc : SdLocation) : Lockstep (ShowsAlike R before)
    (writeLocation env value loc) (writeLocation env' value loc) := by
  cases loc with
  | addr addr => exact alike.writeMemory addr value
  | reg reg => exact alike.setRegister reg value

theorem execSetMemory (addr : RealAddr) (word : Word) (filter : PrintFilter) :
    Lockstep (ShowsAlike R before) (execSetMemory env addr word filter)
      (execSetMemory env' addr word filter) := by
  refine (alike.writeMemory addr word).bind fun res => ?_
  cases res with
  | err => exact say_lockstep _
  | ok =>
      refine (alike.readMemory addr).bind fun stored => ?_
      cases stored with
      | none => exact say_lockstep _
      | some stored => exact alike.printFiltered _ _ _

theorem confirmRegister (reg : X86Reg) (filter : PrintFilter) : Lockstep (ShowsAlike R before)
    (confirmRegister env reg filter) (confirmRegister env' reg filter) := by
  refine (alike.getRegister reg).bind fun written => ?_
  cases written with
  | none => exact say_lockstep _
  | some written => exact alike.printFiltered _ _ _

theorem execSetRegister (reg : X86Reg) (word : Word) (filter : PrintFilter) :
    Lockstep (ShowsAlike R before) (execSetRegister env reg word filter)
      (execSetRegister env' reg word filter) := by
  refine (alike.setRegister reg word).bind fun res => ?_
  cases res with
  | err => exact (say_lockstep _).bind fun _ => alike.confirmRegister reg filter
  | ok => exact alike.confirmRegister reg filter

theorem execSetVariable (varName : String) (value : Word) (filter : PrintFilter) :
    Lockstep (ShowsAlike R before) (execSetVariable env varName value filter)
      (execSetVariable env' varName value filter) := by
  refine (alike.initVar varName).bind fun var => ?_
  cases var with
  | none => exact say_lockstep _
  | some var =>
      refine (alike.writeLocation value var.loc).bind fun res => ?_
      cases res with
      | err => exact say_lockstep _
      | ok =>
          refine (alike.readLocation var.loc).bind fun stored => ?_
          cases stored with
          | none => exact say_lockstep _
          | some stored => exact alike.printFiltered _ _ _

theorem exec (fuel : Nat) {command : Command} (h : command.Edits) :
    Lockstep (ShowsAlike R before) (command.exec env fuel) (command.exec env' fuel) := by
  cases h with
  | looks h => exact alike.toReadsAlike.exec fuel h
  | setMemory addr word filter => exact alike.execSetMemory addr word filter
  | setRegister reg word filter => exact alike.execSetRegister reg word filter
  | setVariable varName value filter => exact alike.execSetVariable varName value filter

end EditsAlike

/-! ### Memory and registers -/

/-- What there is to set. -/
structure Contents where
  mem : Memory 64
  regs : Regs

-- The addresses at which there is a word that can be read and written.
variable (mapped : Word → Bool)

namespace Contents

def peek (c : Contents) (addr : Word) : Option Word :=
  if mapped addr then some (Memory.readWord c.mem addr 8) else none

def poke (c : Contents) (addr word : Word) : Contents :=
  if mapped addr then { c with mem := Memory.writeWord (k := 8) c.mem addr word } else c

/-- A tracee that is nothing else. -/
def ptrace : Ptrace Contents where
  peekData addr c := (c.peek mapped addr, c)
  pokeData addr word c := (mapped addr, c.poke mapped addr word)
  getRegs c := (some c.regs, c)
  setRegs regs c := (true, { c with regs })
  cont c := (some .ESRCH, c)
  singleStep c := (false, c)
  getSigInfo c := (none, c)
  waitpid c := (.blocked, c)

def read (c : Contents) : SdLocation → Option Word
  | .addr addr => c.peek mapped addr.value
  | .reg reg => some (c.regs reg)

def write (c : Contents) (word : Word) : SdLocation → Contents
  | .addr addr => c.poke mapped addr.value word
  | .reg reg => { c with regs := Function.update c.regs reg word }

/-- Can the location be read and written? -/
def has : SdLocation → Bool
  | .addr addr => mapped addr.value
  | .reg _ => true

variable {mapped}

theorem read_write (c : Contents) (word : Word) {loc : SdLocation} (h : has mapped loc = true) :
    (c.write mapped word loc).read mapped loc = some word := by
  cases loc with
  | addr addr =>
      have hmapped : mapped addr.value = true := h
      show (c.poke mapped addr.value word).peek mapped addr.value = some word
      unfold peek poke
      rw [if_pos hmapped, if_pos hmapped]
      have hword : Memory.readWord (Memory.writeWord (k := 8) c.mem addr.value word) addr.value 8 =
          word := Memory.readWord_writeWord (k := 8) _ _ _ (by decide)
      exact congrArg some hword
  | reg reg => exact congrArg some (Function.update_self ..)

end Contents

variable (l : Lookups)

/-- The variable that has this name, where the program stands. -/
def Contents.lookUp (info : DebugInfo) (loadAddress : RealAddr) (varName : String)
    (c : Contents) : Option RuntimeVariable :=
  ((l.initVar ⟨Contents.ptrace mapped, realToDbg loadAddress ⟨c.regs .rip⟩, info.elf,
    loadAddress⟩ varName c).map (·.1)).join

/-- What a command makes of memory and registers. -/
def Command.edit (info : DebugInfo) (loadAddress : RealAddr) (c : Contents) : Command → Contents
  | .setMemory addr word _ => c.write mapped word (.addr addr)
  | .setRegister reg word _ => c.write mapped word (.reg reg)
  | .setVariable varName value _ =>
    match c.lookUp mapped l info loadAddress varName with
    | some var => c.write mapped value var.loc
    | none => c
  | _ => c

/-- One command after the other. -/
def edited (info : DebugInfo) (loadAddress : RealAddr) (readings : List Reading) (c : Contents) :
    Contents :=
  readings.foldl
    (fun c reading => reading.command.elim c (Command.edit mapped l info loadAddress c)) c

/-! ### What is edited -/

section Semantics

variable {mapped : Word → Bool} {l : Lookups} {c c' : Contents} {loadAddress : RealAddr}
  {fuel : Nat}

/-- The debugger is in front of these contents. -/
def Holding (c : Contents) (loadAddress : RealAddr) (d : Debugger Contents) : Prop :=
  d.tracee = c ∧ d.loadAddress = loadAddress

variable {H : Halt → Debugger Contents → Prop}

theorem request_holding {α : Type} {f : Contents → α × Contents} {a : α} (h : f c = (a, c')) :
    Holds (Holding c loadAddress) (request f)
      (fun b d => Holding c' loadAddress d ∧ b = a) H := by
  rintro d ⟨rfl, hd⟩
  show Holding c' loadAddress { d with tracee := (f d.tracee).2 } ∧ (f d.tracee).1 = a
  rw [h]
  exact ⟨⟨rfl, hd⟩, rfl⟩

theorem say_holding (msg : Message) :
    Holds (Holding c loadAddress) (say msg) (fun _ => Holding c loadAddress) H := fun _ h => h

/-- Looking a variable up leaves everything as it is. -/
theorem contents_initVar (env : Env W) (pc : DbgAddr) (varName : String) :
    (env.on l (Contents.ptrace mapped)).initVar pc loadAddress varName c =
      (((l.initVar ⟨Contents.ptrace mapped, pc, env.info.elf, loadAddress⟩ varName c).map
        (·.1)).join, c) := by
  show (l.initVar _ varName c).getD (none, c) = _
  cases hrun : l.initVar ⟨Contents.ptrace mapped, pc, env.info.elf, loadAddress⟩ varName c with
  | none => rfl
  | some found =>
      obtain ⟨var, c'⟩ := found
      have kept : KeptByReads (Contents.ptrace mapped) Eq :=
        ⟨fun _ => rfl, fun _ _ _ => Eq.trans, fun _ => rfl⟩
      have hsame : c = c' := Lookups.initVar_kept kept hrun
      rw [hsame]
      rfl

theorem contents_readsAlike (env : Env W) (c : Contents) :
    ReadsAlike (fun x y => x = c ∧ y = c) (env.on l (Contents.ptrace mapped))
      (env.on l (Contents.ptrace mapped)) := by
  refine ⟨rfl, ?_, ?_, ?_⟩
  · rintro _ _ ⟨rfl, rfl⟩
    exact ⟨rfl, rfl, rfl⟩
  · rintro addr _ _ ⟨rfl, rfl⟩
    exact ⟨rfl, rfl, rfl⟩
  · rintro pc loadAddress varName _ _ ⟨rfl, rfl⟩
    rw [contents_initVar]
    exact ⟨rfl, rfl, rfl⟩

theorem holds_of_lockstep {α : Type} {x : DbgM Contents α}
    (h : ∀ before, Lockstep (ShowsAlike (fun x y => x = c ∧ y = c) before) x x) :
    Holds (Holding c loadAddress) x (fun _ => Holding c loadAddress)
      (fun _ => Holding c loadAddress) := by
  rintro d ⟨hd, hload⟩
  have hend := h { d with output := [] } d d
    ⟨⟨hd, hd⟩, (List.nil_append _).symm, rfl, rfl, rfl⟩
  cases hrun : x d with
  | ok a d' =>
      rw [hrun] at hend
      exact ⟨hend.2.tracee.1, hend.2.loadAddress_left.trans hload⟩
  | error e d' =>
      rw [hrun] at hend
      exact ⟨hend.2.tracee.1, hend.2.loadAddress_left.trans hload⟩

variable {env : Env W}

theorem readMemory_holding (addr : RealAddr) : Holds (Holding c loadAddress)
    (request (ptReadMemory (env.on l (Contents.ptrace mapped)).pt addr))
      (fun read d => Holding c loadAddress d ∧ read = c.peek mapped addr.value) H :=
  request_holding rfl

theorem getRegister_holding (reg : X86Reg) : Holds (Holding c loadAddress)
    (request (getRegisterValue (env.on l (Contents.ptrace mapped)).pt reg))
      (fun read d => Holding c loadAddress d ∧ read = some (c.regs reg)) H :=
  request_holding rfl

theorem readLocation_holding (loc : SdLocation) : Holds (Holding c loadAddress)
    (readLocation (env.on l (Contents.ptrace mapped)) loc)
      (fun read d => Holding c loadAddress d ∧ read = c.read mapped loc) H := by
  cases loc with
  | addr addr => exact readMemory_holding addr
  | reg reg => exact getRegister_holding reg

/-- A write succeeds exactly if the location is there. -/
theorem writeLocation_holding (value : Word) (loc : SdLocation) : Holds (Holding c loadAddress)
    (writeLocation (env.on l (Contents.ptrace mapped)) value loc)
      (fun res d => Holding (c.write mapped value loc) loadAddress d ∧
        res = .ofBool (Contents.has mapped loc)) H := by
  cases loc with
  | addr addr => exact request_holding rfl
  | reg reg => exact request_holding rfl

theorem printFiltered_holding (value : Word) (filter : PrintFilter) (info : PrintValueInfo) :
    Holds (Holding c loadAddress)
      (printFiltered (env.on l (Contents.ptrace mapped)) value filter info)
      (fun _ => Holding c loadAddress) H := by
  cases filter with
  | DEREF =>
      refine (readMemory_holding _).bind fun deref => Holds.assume fun _ => ?_
      cases deref with
      | none => exact say_holding _
      | some deref => exact say_holding _
  | _ => exact say_holding _

theorem initVar_holding (varName : String) : Holds (Holding c loadAddress)
    (initVar (env.on l (Contents.ptrace mapped)) varName)
      (fun var d => Holding c loadAddress d ∧
        var = c.lookUp mapped l env.info loadAddress varName) H := by
  have hpc : Holds (Holding c loadAddress) (getDbgPc (env.on l (Contents.ptrace mapped)))
      (fun pc d => Holding c loadAddress d ∧ pc = realToDbg loadAddress ⟨c.regs .rip⟩) H := by
    rintro d ⟨rfl, rfl⟩
    exact ⟨⟨rfl, rfl⟩, rfl⟩
  refine hpc.bind fun pc => Holds.assume ?_
  rintro rfl
  refine Holds.get_bind fun d hd => ?_
  rw [hd.2]
  exact request_holding (contents_initVar env _ varName)

theorem confirmRegister_holding (reg : X86Reg) (filter : PrintFilter) :
    Holds (Holding c loadAddress) (confirmRegister (env.on l (Contents.ptrace mapped)) reg filter)
      (fun _ => Holding c loadAddress) H := by
  refine (getRegister_holding reg).bind fun written => Holds.assume fun _ => ?_
  cases written with
  | none => exact say_holding _
  | some written => exact printFiltered_holding _ _ _

theorem edit_looks {command : Command} {info : DebugInfo} (h : command.Looks) :
    command.edit mapped l info loadAddress c = c := by
  cases h <;> rfl

theorem exec_prints {command : Command} (h : command.Looks) (hprints : command ≠ .backtrace) :
    Holds (Holding c loadAddress) (command.exec (env.on l (Contents.ptrace mapped)) fuel)
      (fun _ => Holding c loadAddress) H := by
  cases h with
  | printMemory addr filter =>
      refine (readMemory_holding addr).bind fun read => Holds.assume fun _ => ?_
      cases read with
      | none => exact say_holding _
      | some read => exact printFiltered_holding _ _ _
  | printRegister reg filter =>
      refine (getRegister_holding reg).bind fun read => Holds.assume fun _ => ?_
      cases read with
      | none => exact say_holding _
      | some read => exact printFiltered_holding _ _ _
  | printVariable varName filter =>
      refine (initVar_holding varName).bind fun var => Holds.assume fun _ => ?_
      cases var with
      | none => exact say_holding _
      | some var =>
          refine (readLocation_holding var.loc).bind fun value => Holds.assume fun _ => ?_
          cases value with
          | none => exact say_holding _
          | some value => exact printFiltered_holding _ _ _
  | backtrace => exact absurd rfl hprints

/-- **What a command edits.**  Only a backtrace may not come to an end. -/
theorem exec_edits {command : Command} (h : command.Edits)
    (hH : command = .backtrace → ∀ e d, Holding c loadAddress d → H e d) :
    Holds (Holding c loadAddress) (command.exec (env.on l (Contents.ptrace mapped)) fuel)
      (fun _ => Holding (command.edit mapped l env.info loadAddress c) loadAddress) H := by
  cases h with
  | looks h =>
      rw [edit_looks h]
      by_cases hcommand : command = .backtrace
      · have hholds : Holds (Holding c loadAddress)
            (command.exec (env.on l (Contents.ptrace mapped)) fuel) _ _ :=
          holds_of_lockstep fun _ => (contents_readsAlike env c).exec fuel h
        exact hholds.conseq (fun _ hd => hd) (fun _ _ hd => hd) (hH hcommand)
      · exact exec_prints h hcommand
  | setMemory addr word filter =>
      refine (writeLocation_holding word (.addr addr)).bind fun res => Holds.assume fun hres => ?_
      cases res with
      | err => exact say_holding _
      | ok =>
          refine (readMemory_holding addr).bind fun stored => Holds.assume fun _ => ?_
          cases stored with
          | none => exact say_holding _
          | some stored => exact printFiltered_holding _ _ _
  | setRegister reg word filter =>
      refine (writeLocation_holding word (.reg reg)).bind fun res => Holds.assume fun hres => ?_
      cases res with
      | err => cases hres
      | ok => exact confirmRegister_holding reg filter
  | setVariable varName value filter =>
      refine (initVar_holding varName).bind fun var => Holds.assume fun hvar => ?_
      unfold Command.edit
      dsimp only
      rw [← hvar]
      cases var with
      | none => exact say_holding _
      | some var =>
          refine (writeLocation_holding value var.loc).bind fun res => Holds.assume fun _ => ?_
          cases res with
          | err => exact say_holding _
          | ok =>
              refine (readLocation_holding var.loc).bind fun stored => Holds.assume fun _ => ?_
              cases stored with
              | none => exact say_holding _
              | some stored => exact printFiltered_holding _ _ _

theorem reading_edits {reading : Reading} (h : ∀ command ∈ reading.command, command.Edits)
    (hH : reading.command = some .backtrace → ∀ e d, Holding c loadAddress d → H e d) :
    Holds (Holding c loadAddress)
      (reading.exec (Command.exec (env.on l (Contents.ptrace mapped)) fuel))
      (fun _ => Holding (edited mapped l env.info loadAddress [reading] c) loadAddress) H := by
  obtain ⟨msgs, command⟩ := reading
  refine (Holds.forM (I := fun _ => Holding c loadAddress) (fun msg _ => say_holding msg)
    msgs).bind fun _ => ?_
  cases command with
  | none => exact Holds.pure fun _ hd => hd
  | some command =>
      exact exec_edits (h command rfl) fun hcommand => hH (congrArg some hcommand)

/-- All of the lines are read, or those before a backtrace that does not come to an end. -/
inductive ReadUpTo (readings : List Reading) : Nat → Option Halt → Prop
  | all : ReadUpTo readings readings.length none
  | backtrace {n : Nat} {reading : Reading} (e : Halt) (hreading : readings[n]? = some reading)
      (hcommand : reading.command = some .backtrace) : ReadUpTo readings n (some e)

theorem ReadUpTo.cons {readings : List Reading} {n : Nat} {halt : Option Halt}
    (h : ReadUpTo readings n halt) (reading : Reading) :
    ReadUpTo (reading :: readings) (n + 1) halt := by
  cases h with
  | all => exact .all
  | backtrace e hreading hcommand => exact .backtrace e hreading hcommand

theorem ReadUpTo.returns {readings : List Reading} {n : Nat} {halt : Option Halt}
    (h : ReadUpTo readings n halt)
    (hreturns : ∀ reading ∈ readings, reading.command ≠ some .backtrace) :
    halt = none ∧ readings.take n = readings := by
  cases h with
  | all => exact ⟨rfl, List.take_length⟩
  | backtrace e hreading hcommand =>
      exact absurd hcommand (hreturns _ (List.mem_of_getElem? hreading))

/-- The lines edit what they edit one after the other. -/
theorem readings_edit (readings : List Reading) : ∀ {c : Contents} {d : Debugger Contents},
    (∀ reading ∈ readings, ∀ command ∈ reading.command, command.Edits) →
    Holding c loadAddress d → ∃ (n : Nat) (halt : Option Halt) (d' : Debugger Contents),
      readings.forM (Reading.exec (Command.exec (env.on l (Contents.ptrace mapped)) fuel)) d =
        d'.stoppedBy halt ∧
      d'.tracee = edited mapped l env.info loadAddress (readings.take n) c ∧
      ReadUpTo readings n halt := by
  induction readings with
  | nil => exact fun {c d} _ hd => ⟨0, none, d, rfl, hd.1, .all⟩
  | cons reading rest ih =>
      intro c d hedits hd
      have hedit : Holds (Holding c loadAddress)
          (reading.exec (Command.exec (env.on l (Contents.ptrace mapped)) fuel)) _
          (fun _ d => Holding c loadAddress d ∧ reading.command = some .backtrace) :=
        reading_edits (hedits reading List.mem_cons_self) fun hcommand _ _ hd => ⟨hd, hcommand⟩
      have hfirst := hedit d hd
      cases hrun : reading.exec (Command.exec (env.on l (Contents.ptrace mapped)) fuel) d with
      | error e d' =>
          rw [hrun] at hfirst
          exact ⟨0, some e, d', bind_error hrun, hfirst.1.1, .backtrace e rfl hfirst.2⟩
      | ok a d' =>
          rw [hrun] at hfirst
          obtain ⟨n, halt, d'', hrest, htracee, hread⟩ := ih
            (fun other hother => hedits other (List.mem_cons_of_mem _ hother)) hfirst
          exact ⟨n + 1, halt, d'', (bind_run hrun).trans hrest, htracee, hread.cons reading⟩

end Semantics

/-! ### At the prompt -/

/-- What is asked of the tracee is answered from memory and registers. -/
structure Serves (mapped : Word → Bool) (R : W → Contents → Prop) (pt : Ptrace W) : Prop where
  getRegs : SameRegisters R pt (Contents.ptrace mapped)
  peek : ∀ addr w c, R w c →
    SameAnswer R (pt.peekData addr w) ((Contents.ptrace mapped).peekData addr c)
  poke : ∀ addr word w c, R w c →
    SameAnswer R (pt.pokeData addr word w) ((Contents.ptrace mapped).pokeData addr word c)
  setRegs : ∀ regs w c, R w c →
    SameAnswer R (pt.setRegs regs w) ((Contents.ptrace mapped).setRegs regs c)

variable {mapped : Word → Bool} {l : Lookups} {R : W → Contents → Prop}
  {lineEntryAt : String → Nat → LineEntry} {fuel : Nat} {history : Option String}
  {lines : List String} {d : Debugger W} {c : Contents}

theorem Serves.editsAlike (hserves : Serves mapped R env.pt) (hlookup : env.LooksUp l) :
    EditsAlike R env (env.on l (Contents.ptrace mapped)) where
  info := rfl
  registers := hserves.getRegs
  memory := hserves.peek
  lookups pc loadAddress varName _ _ h := hlookup.same hserves.getRegs pc loadAddress varName h
  poke := hserves.poke
  setRegs := hserves.setRegs

/-- The debugger has nothing but memory and registers, and has not shown anything. -/
def Debugger.atContents (c : Contents) (loadAddress : RealAddr) : Debugger Contents :=
  ⟨⟨initBreakpoints, c⟩, loadAddress, []⟩

theorem stoppedBy_inj {d d' : Debugger W} {halt halt' : Option Halt}
    (h : d.stoppedBy halt = d'.stoppedBy halt') : d = d' ∧ halt = halt' := by
  unfold Debugger.stoppedBy at h
  cases halt with
  | none =>
      cases halt' with
      | none => cases h; exact ⟨rfl, rfl⟩
      | some e => cases h
  | some e =>
      cases halt' with
      | none => cases h
      | some e' => cases h; exact ⟨rfl, rfl⟩

theorem stoppedBy_of_lockstep {before : Debugger W} {x : DbgM W Unit} {y : DbgM Contents Unit}
    (h : Lockstep (ShowsAlike R before) x y) {d : Debugger W} {seen : Debugger Contents}
    (hd : ShowsAlike R before d seen) :
    ∃ (d' : Debugger W) (seen' : Debugger Contents) (halt : Option Halt),
      x d = d'.stoppedBy halt ∧ y seen = seen'.stoppedBy halt ∧ ShowsAlike R before d' seen' := by
  rcases h.ends hd with ⟨_, d', seen', hx, hy, h⟩ | ⟨e, d', seen', hx, hy, h⟩
  · exact ⟨d', seen', none, hx, hy, h⟩
  · exact ⟨d', seen', some e, hx, hy, h⟩

/-- Lines that edit do the same in front of memory and registers alone. -/
theorem readings_alike (hserves : Serves mapped R env.pt) (hlookup : env.LooksUp l)
    {readings : List Reading}
    (hedits : ∀ reading ∈ readings, ∀ command ∈ reading.command, command.Edits)
    (hd : R d.tracee c) :
    ∃ (d' : Debugger W) (seen : Debugger Contents) (halt : Option Halt) (n : Nat),
      readings.forM (Reading.exec (Command.exec env fuel)) d = d'.stoppedBy halt ∧
      readings.forM (Reading.exec (Command.exec (env.on l (Contents.ptrace mapped)) fuel))
        (.atContents c d.loadAddress) = seen.stoppedBy halt ∧
      ShowsAlike R d d' seen ∧
      seen.tracee = edited mapped l env.info d.loadAddress (readings.take n) c ∧
      ReadUpTo readings n halt := by
  have hstart : ShowsAlike R d d (.atContents c d.loadAddress) :=
    ⟨hd, (List.append_nil _).symm, rfl, rfl, rfl⟩
  have halike : Lockstep (ShowsAlike R d)
      (readings.forM (Reading.exec (Command.exec env fuel)))
      (readings.forM (Reading.exec (Command.exec (env.on l (Contents.ptrace mapped)) fuel))) :=
    Lockstep.forM fun reading hmem => Reading.exec_lockstep fun command hcommand =>
      (hserves.editsAlike hlookup).exec fuel (hedits reading hmem command hcommand)
  have hheld : Holding c d.loadAddress (.atContents c d.loadAddress) := ⟨rfl, rfl⟩
  obtain ⟨d', seen, halt, hleft, hright, h⟩ := stoppedBy_of_lockstep halike hstart
  obtain ⟨n, halt', seen', hrun, htracee, hread⟩ := readings_edit readings hedits hheld
  obtain ⟨rfl, rfl⟩ := stoppedBy_inj (hright.symm.trans hrun)
  exact ⟨d', seen, halt, n, hleft, hright, h, htracee, hread⟩

/-- **A session that runs nothing is an update of memory and registers.**  As long as nothing but
`print`, `backtrace` and `set` is typed, the debugger shows what it shows in front of memory and
registers alone, and leaves what the commands make of these, one after the other.  Only at a
backtrace it may not return. -/
theorem promptLoop_edits (hserves : Serves mapped R env.pt) (hlookup : env.LooksUp l)
    (hedits : ∀ reading ∈ readLines env.info lineEntryAt d.loadAddress history lines,
      ∀ command ∈ reading.command, command.Edits) (hd : R d.tracee c) :
    ∃ (d' : Debugger W) (seen : Debugger Contents) (halt : Option Halt) (n : Nat),
      promptLoop env.info lineEntryAt (Command.exec env fuel) history lines d =
        d'.stoppedBy halt ∧
      promptLoop env.info lineEntryAt (Command.exec (env.on l (Contents.ptrace mapped)) fuel)
        history lines (.atContents c d.loadAddress) = seen.stoppedBy halt ∧
      ShowsAlike R d d' seen ∧
      seen.tracee = edited mapped l env.info d.loadAddress
        ((readLines env.info lineEntryAt d.loadAddress history lines).take n) c ∧
      ReadUpTo (readLines env.info lineEntryAt d.loadAddress history lines) n halt := by
  have hsame : promptLoop env.info lineEntryAt
      (Command.exec (env.on l (Contents.ptrace mapped)) fuel) history lines
      (.atContents c d.loadAddress) =
        (readLines env.info lineEntryAt d.loadAddress history lines).forM
          (Reading.exec (Command.exec (env.on l (Contents.ptrace mapped)) fuel))
          (.atContents c d.loadAddress) :=
    promptLoop_eq_readings (env.on l (Contents.ptrace mapped)) fuel lines history _
  rw [promptLoop_eq_readings, hsame]
  exact readings_alike hserves hlookup hedits hd

/-- Memory and registers that count how often they are read and written. -/
def countedContents (mapped : Word → Bool) : Ptrace (Contents × Nat) where
  peekData addr w := (w.1.peek mapped addr, w.1, w.2 + 1)
  pokeData addr word w := (mapped addr, w.1.poke mapped addr word, w.2 + 1)
  getRegs w := (some w.1.regs, w.1, w.2 + 1)
  setRegs regs w := (true, { w.1 with regs }, w.2 + 1)
  cont w := (some .ESRCH, w)
  singleStep w := (false, w)
  getSigInfo w := (none, w)
  waitpid w := (.blocked, w)

theorem countedContents_serves (mapped : Word → Bool) :
    Serves mapped (fun w c => w.1 = c) (countedContents mapped) where
  getRegs := by
    rintro w _ rfl
    exact ⟨rfl, rfl⟩
  peek := by
    rintro addr w _ rfl
    exact ⟨rfl, rfl⟩
  poke := by
    rintro addr word w _ rfl
    exact ⟨rfl, rfl⟩
  setRegs := by
    rintro regs w _ rfl
    exact ⟨rfl, rfl⟩

/-- Nothing is mapped below the first page. -/
def pageMapped (addr : Word) : Bool := decide (0x1000 ≤ addr)

def editedEnv : Env (Contents × Nat) :=
  (strippedEnv (countedContents pageMapped)).on countedLookups (countedContents pageMapped)

theorem editedEnv_looksUp : editedEnv.LooksUp countedLookups :=
  Env.on_looksUp countedLookups_isSome

/-- In front of the block with a variable of its own. -/
def standing : Contents := ⟨fun _ => 0, Function.update (fun _ => 0) .rip 0x1004⟩

def editingLines : List String := ["t x 7", "p x", "t %rax ff", "a", "p %rax", "t 10 1"]

theorem editingLines_edit : ∀ reading ∈ readLines editedEnv.info (fun _ _ => {}) ⟨0⟩ none
    editingLines, ∀ command ∈ reading.command, command.Edits := by
  have hread : (readLines editedEnv.info (fun _ _ => {}) ⟨0⟩ none editingLines).map
      (·.command) = [some (.setVariable "x" 7 .DEC), some (.printVariable "x" .NONE),
        some (.setRegister .rax 0xff .HEX), some .backtrace, some (.printRegister .rax .NONE),
        some (.setMemory ⟨0x10⟩ 1 .DEC)] := by decide +kernel
  intro reading hmem command hcommand
  have hlisted : some command ∈ (readLines editedEnv.info (fun _ _ => {}) ⟨0⟩ none
      editingLines).map (·.command) := Option.mem_def.mp hcommand ▸ List.mem_map_of_mem hmem
  simp only [hread, List.mem_cons, Option.some.injEq, List.not_mem_nil, or_false] at hlisted
  rcases hlisted with rfl | rfl | rfl | rfl | rfl | rfl
  · exact .setVariable "x" 7 .DEC
  · exact .looks (.printVariable "x" .NONE)
  · exact .setRegister .rax 0xff .HEX
  · exact .looks .backtrace
  · exact .looks (.printRegister .rax .NONE)
  · exact .setMemory ⟨0x10⟩ 1 .DEC

theorem promptLoop_edits_counted :
    ∃ (d' : Debugger (Contents × Nat)) (seen : Debugger Contents) (halt : Option Halt) (n : Nat),
      promptLoop editedEnv.info (fun _ _ => {}) (Command.exec editedEnv 9) none editingLines
        ⟨⟨initBreakpoints, standing, 0⟩, ⟨0⟩, []⟩ = d'.stoppedBy halt ∧
      promptLoop editedEnv.info (fun _ _ => {})
        (Command.exec (editedEnv.on countedLookups (Contents.ptrace pageMapped)) 9) none
        editingLines (.atContents standing ⟨0⟩) = seen.stoppedBy halt ∧
      ShowsAlike (fun w c => w.1 = c) ⟨⟨initBreakpoints, standing, 0⟩, ⟨0⟩, []⟩ d' seen ∧
      seen.tracee = edited pageMapped countedLookups editedEnv.info ⟨0⟩
        ((readLines editedEnv.info (fun _ _ => {}) ⟨0⟩ none editingLines).take n) standing ∧
      ReadUpTo (readLines editedEnv.info (fun _ _ => {}) ⟨0⟩ none editingLines) n halt :=
  promptLoop_edits (countedContents_serves pageMapped) editedEnv_looksUp editingLines_edit rfl

end Spray
