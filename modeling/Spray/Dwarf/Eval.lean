/-
Evaluating locations (`src/spray_dwarf.c`).

A location list has an expression for each range of PCs, and an expression is evaluated on
a stack.  `DW_OP_fbreg` is relative to the frame base, which is described by a location
list itself; so the evaluation of a list may go back to itself.  Nothing comes of it within
`fuel` rounds if that goes on for too long.
-/
import Spray.Dwarf.Subprog
import Spray.Dwarf.Variable
import Spray.Ptrace

namespace Spray

/-! ### Location lists -/

/-- A single operation in a DWARF expression, with the operand that is evaluated. -/
structure SdOperation where
  opcode : BitVec 8
  operand1 : Word := 0
  deriving DecidableEq, Repr

abbrev SdLocdesc := List SdOperation

structure SdLocRange where
  meaningful : Bool
  /-- Inclusive lower bound. -/
  lowpc : DbgAddr
  /-- Exclusive upper bound. -/
  highpc : DbgAddr
  deriving DecidableEq, Repr

/-- Each expression with the range in which it is active. -/
abbrev SdLoclist := List (SdLocdesc × SdLocRange)

/-- What `dwarf_get_locdesc_entry_d` returns, and each operation of the entry as
`dwarf_get_location_op_value_c` reads it. -/
structure LocdescEntry where
  debugAddrMissing : Bool
  lowPc : Word
  highPc : Word
  ops : List (Dlv SdOperation)

def sdInitLocRange (debugAddrMissing : Bool) (lowpc highpc : Word) : SdLocRange :=
  if debugAddrMissing || (lowpc = 0 && highpc = 0) then
    { meaningful := false, lowpc := ⟨0⟩, highpc := ⟨0⟩ }
  else { meaningful := true, lowpc := ⟨lowpc⟩, highpc := ⟨highpc⟩ }

/-- Is the description associated with this range active for the given PC?  Meaningless
ranges never are. -/
def isActiveRange (range : SdLocRange) (pc : DbgAddr) : Bool :=
  range.meaningful && range.lowpc.value ≤ pc.value && pc.value < range.highpc.value

def sdInitLocExpression (entry : LocdescEntry) : Option SdLocdesc := entry.ops.mapM Dlv.toOption

/-- `getLoclist` is `dwarf_get_loclist_c`. -/
def sdInitLoclist (getLoclist : DwarfAttribute → Dlv (List (Dlv LocdescEntry)))
    (locAttr : DwarfAttribute) : Option SdLoclist :=
  (getLoclist locAttr).toOption.bind fun entries => entries.mapM fun entry => do
    let entry ← entry.toOption
    let expr ← sdInitLocExpression entry
    return (expr, sdInitLocRange entry.debugAddrMissing entry.lowPc entry.highPc)

/-! ### Registers -/

/-- Each x86 register with its number in DWARF (`reg_descriptors`). -/
def dwarfRegDescriptors : List (X86Reg × Int) :=
  [(.r15, 15), (.r14, 14), (.r13, 13), (.r12, 12), (.rbp, 6), (.rbx, 3), (.r11, 11),
    (.r10, 10), (.r9, 9), (.r8, 8), (.rax, 0), (.rcx, 2), (.rdx, 1), (.rsi, 4), (.rdi, 5),
    (.orig_rax, -1), (.rip, -1), (.cs, 51), (.eflags, 49), (.rsp, 7), (.ss, 52),
    (.fs_base, 58), (.gs_base, 59), (.ds, 53), (.es, 50), (.fs, 54), (.gs, 55)]

def dwarfRegnumToX86Reg (dwarfRegnum : BitVec 8) : Option X86Reg :=
  (dwarfRegDescriptors.find? fun descriptor =>
    descriptor.2 = (dwarfRegnum.toNat : Int)).map Prod.fst

/-! ### The evaluation stack -/

/-- The top-most element comes first. -/
abbrev LocEvalStack := List SdLocation

/-- `popInto` stays untouched if the stack is empty. -/
def popEvalStack : LocEvalStack → (popInto : SdLocation) → SprayResult × SdLocation
  | top :: _, _ => (.ok, top)
  | [], popInto => (.err, popInto)

/-! ### Evaluation -/

/-- Contextual information used to evaluate certain operations.  The tracee is `pt`. -/
structure SdLocEvalCtx (W : Type) where
  pt : Ptrace W
  pc : DbgAddr
  elf : ElfFile
  loadAddress : RealAddr

def DW_OP_addr : BitVec 8 := 0x03
def DW_OP_reg0 : BitVec 8 := 0x50
def DW_OP_reg31 : BitVec 8 := 0x6f
def DW_OP_fbreg : BitVec 8 := 0x91

section Evaluation

variable {W : Type} (dbg : DwarfDebug Die)
  (getLoclist : DwarfAttribute → Dlv (List (Dlv LocdescEntry))) (ctx : SdLocEvalCtx W)

/-- A function that evaluates an operation. -/
abbrev SdEvalOp (W : Type) :=
  SdOperation → LocEvalStack → W → Option (SprayResult × LocEvalStack × W)

/-- A function that evaluates something to a location, which `location` is set to. -/
abbrev EvalLocation (α W : Type) :=
  α → (location : SdLocation) → W → Option (SprayResult × SdLocation × W)

/-- The location list of the frame base that `DW_OP_fbreg` is relative to. -/
def frameBaseList : Option SdLoclist :=
  (fbregFrameBase ctx.elf ctx.pc dbg).bind (sdInitLoclist getLoclist)

-- How `DW_OP_fbreg` evaluates the frame base.
variable (evalLoclist : EvalLocation SdLoclist W)

def sdEvalOpFbreg : SdEvalOp W := fun self stack w =>
  match frameBaseList dbg getLoclist ctx with
  | none => some (.err, stack, w)
  | some loclist =>
    match evalLoclist loclist (.addr ⟨0⟩) w with
    | none => none
    | some (.ok, .reg reg, w) =>
      match getRegisterValue ctx.pt reg w with
      | (some baseAddr, w) => some (.ok, .addr ⟨baseAddr + self.operand1⟩ :: stack, w)
      | (none, w) => some (.err, stack, w)
    | some (_, _, w) => some (.err, stack, w)

def sdEvalOpRegn : SdEvalOp W := fun self stack w =>
  match dwarfRegnumToX86Reg (self.opcode - DW_OP_reg0) with
  | some reg => some (.ok, .reg reg :: stack, w)
  | none => some (.err, stack, w)

def sdEvalOpAddr : SdEvalOp W := fun self stack w =>
  some (.ok, .addr (dbgToReal ctx.loadAddress ⟨self.operand1⟩) :: stack, w)

def sdGetEvalHandler (opcode : BitVec 8) : Option (SdEvalOp W) :=
  if DW_OP_reg0 ≤ opcode ∧ opcode ≤ DW_OP_reg31 then some sdEvalOpRegn
  else if opcode = DW_OP_fbreg then some (sdEvalOpFbreg dbg getLoclist ctx evalLoclist)
  else if opcode = DW_OP_addr then some (sdEvalOpAddr ctx)
  else none

def sdEvalLocop : SdEvalOp W := fun op stack w =>
  match sdGetEvalHandler dbg getLoclist ctx evalLoclist op.opcode with
  | none => some (.err, stack, w)
  | some evalHandler => evalHandler op stack w

/-- Evaluate one operation after the other, until one of them fails. -/
def evalLocops : SdLocdesc → LocEvalStack → W → Option (SprayResult × LocEvalStack × W)
  | [], stack, w => some (.ok, stack, w)
  | op :: ops, stack, w =>
    match sdEvalLocop dbg getLoclist ctx evalLoclist op stack w with
    | some (.ok, stack, w) => evalLocops ops stack w
    | other => other

-- What happens to be in the variable that the top of the stack is popped into.
variable (top : SdLocation)

/-- The result of popping the stack is not looked at. -/
def sdEvalLocexpr : EvalLocation SdLocdesc W := fun locexpr location w =>
  match evalLocops dbg getLoclist ctx evalLoclist locexpr [] w with
  | none => none
  | some (.err, _, w) => some (.err, location, w)
  | some (.ok, stack, w) => some (.ok, (popEvalStack stack top).2, w)

end Evaluation

section Rounds

variable {W : Type} (dbg : DwarfDebug Die)
  (getLoclist : DwarfAttribute → Dlv (List (Dlv LocdescEntry))) (ctx : SdLocEvalCtx W)
  (top : SdLocation)

/-- Evaluate the first expression whose range is active, or else the first one without a
range. -/
def sdEvalLoclist : (fuel : Nat) → EvalLocation SdLoclist W
  | 0 => fun _ _ _ => none
  | fuel + 1 => fun loclist location w =>
    let evalLocexpr := sdEvalLocexpr dbg getLoclist ctx (sdEvalLoclist fuel) top
    match loclist.find? fun entry => isActiveRange entry.2 ctx.pc with
    | some (expr, _) => evalLocexpr expr location w
    | none =>
      match loclist.find? fun entry => !entry.2.meaningful with
      | some (expr, _) => evalLocexpr expr location w
      | none => some (.ok, .addr ⟨0⟩, w)

def sdEvalLocexprWithin (fuel : Nat) : EvalLocation SdLocdesc W :=
  sdEvalLocexpr dbg getLoclist ctx (sdEvalLoclist dbg getLoclist ctx top fuel) top

end Rounds

section Variables

variable {W : Type} (dbg : DwarfDebug Die)
  (getLoclist : DwarfAttribute → Dlv (List (Dlv LocdescEntry)))
  (offdie : (offset : Nat) → (isInfo : Bool) → Dlv Die) (variableType : Die → Option SdType)

/-- `init_var` (`src/info.c`), with its arguments apart from the name in `ctx`. -/
def initVarWithin (ctx : SdLocEvalCtx W) (top : SdLocation) (fuel : Nat) (varName : String)
    (w : W) : Option (Option RuntimeVariable × W) :=
  match (sdRuntimeVariable offdie variableType ctx.pc varName dbg).1 with
  | none => some (none, w)
  | some found =>
    match sdInitLoclist getLoclist found.attr.loc with
    | none => some (none, w)
    | some loclist =>
      match sdEvalLoclist dbg getLoclist ctx top fuel loclist (.addr ⟨0⟩) w with
      | none => none
      | some (.err, _, w) => some (none, w)
      | some (.ok, loc, w) =>
        some (some
          { loc, declFile := found.declFile, declLine := found.declLine,
            type := found.attr.type }, w)

end Variables

end Spray
