/-
What a variable is looked up with.

Evaluating a location asks the tracee for registers, and for nothing else.  So two tracees whose
registers read the same have their variables in the same places.  And no decision depends on what a
register holds: whatever that is, the same variables are found, the ones in registers in the same
registers.
-/
import Mathlib.Data.Option.Defs
import Spray.Monad
import Spray.Proofs.Eval

namespace Spray

variable {W V : Type} {pt : Ptrace W} {pt' : Ptrace V} {R : W → V → Prop} {Val : Word → Word → Prop}

/-- Values that are related stay so when they are moved by the same distance. -/
structure Movable (Val : Word → Word → Prop) : Prop where
  refl : ∀ value, Val value value
  add : ∀ value value' offset, Val value value' → Val (value + offset) (value' + offset)

/-- Tracees that `R` relates have registers that `Val` relates, and are related after these were
read. -/
def RegistersAlike (Val : Word → Word → Prop) (R : W → V → Prop) (pt : Ptrace W) (pt' : Ptrace V) :
    Prop :=
  ∀ w v, R w v → Option.Rel (fun regs regs' => ∀ reg, Val (regs reg) (regs' reg))
    (pt.getRegs w).1 (pt'.getRegs v).1 ∧ R (pt.getRegs w).2 (pt'.getRegs v).2

theorem RegistersAlike.getRegister (alike : RegistersAlike Val R pt pt') {w : W} {v : V}
    (h : R w v) (reg : X86Reg) :
    Option.Rel Val (getRegisterValue pt reg w).1 (getRegisterValue pt' reg v).1 ∧
      R (getRegisterValue pt reg w).2 (getRegisterValue pt' reg v).2 := by
  have hregs := alike w v h
  unfold getRegisterValue ptReadRegisters
  generalize pt.getRegs w = read at hregs
  generalize pt'.getRegs v = read' at hregs
  obtain ⟨regs, w'⟩ := read
  obtain ⟨regs', v'⟩ := read'
  obtain ⟨hread, hafter⟩ := hregs
  cases hread with
  | none => exact ⟨.none, hafter⟩
  | some hread => exact ⟨.some (hread reg), hafter⟩

/-! ### Evaluation -/

/-- The context of an evaluation on another tracee. -/
def SdLocEvalCtx.on (ctx : SdLocEvalCtx W) (pt' : Ptrace V) : SdLocEvalCtx V :=
  ⟨pt', ctx.pc, ctx.elf, ctx.loadAddress⟩

/-- The same register, or related addresses. -/
inductive LocationAlike (Val : Word → Word → Prop) : SdLocation → SdLocation → Prop
  | addr {addr addr' : RealAddr} (h : Val addr.value addr'.value) :
      LocationAlike Val (.addr addr) (.addr addr')
  | reg (reg : X86Reg) : LocationAlike Val (.reg reg) (.reg reg)

theorem LocationAlike.refl (hval : Movable Val) (loc : SdLocation) : LocationAlike Val loc loc := by
  cases loc with
  | addr addr => exact .addr (hval.refl addr.value)
  | reg reg => exact .reg reg

/-- Neither comes to an end, or both succeed or fail alike, with locations that are alike. -/
def EvalAlike {α : Type} (Val : Word → Word → Prop) (R : W → V → Prop) (eval : EvalLocation α W)
    (eval' : EvalLocation α V) : Prop :=
  ∀ a location w v, R w v → Option.Rel
    (fun x y => x.1 = y.1 ∧ LocationAlike Val x.2.1 y.2.1 ∧ R x.2.2 y.2.2)
    (eval a location w) (eval' a location v)

section Evaluation

variable {dbg : DwarfDebug Die} {getLoclist : DwarfAttribute → Dlv (List (Dlv LocdescEntry))}
  {ctx : SdLocEvalCtx W} {top : SdLocation} {evalLoclist : EvalLocation SdLoclist W}
  {evalLoclist' : EvalLocation SdLoclist V} {w : W} {v : V}

theorem frameBaseValue_alike (alike : RegistersAlike Val R ctx.pt pt')
    (heval : EvalAlike Val R evalLoclist evalLoclist') (h : R w v) :
    Option.Rel (fun x y => Option.Rel Val x.1 y.1 ∧ R x.2 y.2)
      (frameBaseValue dbg getLoclist ctx evalLoclist w)
      (frameBaseValue dbg getLoclist (ctx.on pt') evalLoclist' v) := by
  have hlist : frameBaseList dbg getLoclist (ctx.on pt') = frameBaseList dbg getLoclist ctx := rfl
  unfold frameBaseValue
  rw [hlist]
  cases frameBaseList dbg getLoclist ctx with
  | none => exact .some ⟨.none, h⟩
  | some loclist =>
      dsimp only
      have hbase := heval loclist (.addr ⟨0⟩) w v h
      generalize evalLoclist loclist (.addr ⟨0⟩) w = found at hbase
      generalize evalLoclist' loclist (.addr ⟨0⟩) v = found' at hbase
      cases hbase with
      | none => exact .none
      | @some x y hxy =>
          obtain ⟨res, location, w'⟩ := x
          obtain ⟨res', location', v'⟩ := y
          obtain ⟨rfl, hlocation, hafter⟩ := hxy
          cases res with
          | ok =>
              cases hlocation with
              | addr => exact .some ⟨.none, hafter⟩
              | reg reg => exact .some (alike.getRegister hafter reg)
          | err =>
              cases hlocation with
              | addr => exact .some ⟨.none, hafter⟩
              | reg reg => exact .some ⟨.none, hafter⟩

theorem pushedBy_alike (hval : Movable Val) (alike : RegistersAlike Val R ctx.pt pt')
    (heval : EvalAlike Val R evalLoclist evalLoclist') (op : SdOperation) (h : R w v) :
    Option.Rel (fun x y => Option.Rel (LocationAlike Val) x.1 y.1 ∧ R x.2 y.2)
      (pushedBy dbg getLoclist ctx evalLoclist op w)
      (pushedBy dbg getLoclist (ctx.on pt') evalLoclist' op v) := by
  unfold pushedBy
  split
  · have hbase : Option.Rel _ (frameBaseValue dbg getLoclist ctx evalLoclist w) _ :=
      frameBaseValue_alike alike heval h
    generalize frameBaseValue dbg getLoclist ctx evalLoclist w = base at hbase
    generalize frameBaseValue dbg getLoclist (ctx.on pt') evalLoclist' v = base' at hbase
    cases hbase with
    | none => exact .none
    | @some x y hxy =>
        obtain ⟨value, w'⟩ := x
        obtain ⟨value', v'⟩ := y
        obtain ⟨hvalue, hafter⟩ := hxy
        cases hvalue with
        | none => exact .some ⟨.none, hafter⟩
        | some hvalue => exact .some ⟨.some (.addr (hval.add _ _ op.operand1 hvalue)), hafter⟩
  · have halone : pushedAlone (ctx.on pt') op = pushedAlone ctx op := rfl
    rw [halone]
    cases pushedAlone ctx op with
    | none => exact .some ⟨.none, h⟩
    | some loc => exact .some ⟨.some (.refl hval loc), h⟩

theorem evalLocops_alike (hval : Movable Val) (alike : RegistersAlike Val R ctx.pt pt')
    (heval : EvalAlike Val R evalLoclist evalLoclist') (ops : SdLocdesc) :
    ∀ (stack stack' : LocEvalStack) (w : W) (v : V),
      List.Forall₂ (LocationAlike Val) stack stack' → R w v → Option.Rel
        (fun x y => x.1 = y.1 ∧ List.Forall₂ (LocationAlike Val) x.2.1 y.2.1 ∧ R x.2.2 y.2.2)
        (evalLocops dbg getLoclist ctx evalLoclist ops stack w)
        (evalLocops dbg getLoclist (ctx.on pt') evalLoclist' ops stack' v) := by
  induction ops with
  | nil => exact fun stack stack' w v hstack h => .some ⟨rfl, hstack, h⟩
  | cons op ops ih =>
      intro stack stack' w v hstack h
      rw [evalLocops, evalLocops, sdEvalLocop_eq, sdEvalLocop_eq]
      have hop : Option.Rel _ (pushedBy dbg getLoclist ctx evalLoclist op w) _ :=
        pushedBy_alike hval alike heval op h
      generalize pushedBy dbg getLoclist ctx evalLoclist op w = pushed at hop
      generalize pushedBy dbg getLoclist (ctx.on pt') evalLoclist' op v = pushed' at hop
      cases hop with
      | none => exact .none
      | @some x y hxy =>
          obtain ⟨loc, w'⟩ := x
          obtain ⟨loc', v'⟩ := y
          obtain ⟨hloc, hafter⟩ := hxy
          cases hloc with
          | none => exact .some ⟨rfl, hstack, hafter⟩
          | some hloc => exact ih _ _ w' v' (.cons hloc hstack) hafter

theorem sdEvalLocexpr_alike (hval : Movable Val) (alike : RegistersAlike Val R ctx.pt pt')
    (heval : EvalAlike Val R evalLoclist evalLoclist') :
    EvalAlike Val R (sdEvalLocexpr dbg getLoclist ctx evalLoclist top)
      (sdEvalLocexpr dbg getLoclist (ctx.on pt') evalLoclist' top) := by
  intro expr location w v h
  have hops : Option.Rel _ (evalLocops dbg getLoclist ctx evalLoclist expr [] w) _ :=
    evalLocops_alike hval alike heval expr [] [] w v .nil h
  unfold sdEvalLocexpr
  generalize evalLocops dbg getLoclist ctx evalLoclist expr [] w = evaluated at hops
  generalize evalLocops dbg getLoclist (ctx.on pt') evalLoclist' expr [] v = evaluated' at hops
  cases hops with
  | none => exact .none
  | @some x y hxy =>
      obtain ⟨res, stack, w'⟩ := x
      obtain ⟨res', stack', v'⟩ := y
      obtain ⟨rfl, hstack, hafter⟩ := hxy
      cases res with
      | ok =>
          cases hstack with
          | nil => exact .some ⟨rfl, .refl hval top, hafter⟩
          | cons htop _ => exact .some ⟨rfl, htop, hafter⟩
      | err => exact .some ⟨rfl, .refl hval location, hafter⟩

/-- The evaluation of a list may go back to itself any number of times. -/
theorem sdEvalLoclist_alike (hval : Movable Val) (alike : RegistersAlike Val R ctx.pt pt')
    (fuel : Nat) : EvalAlike Val R (sdEvalLoclist dbg getLoclist ctx top fuel)
      (sdEvalLoclist dbg getLoclist (ctx.on pt') top fuel) := by
  induction fuel with
  | zero => exact fun _ _ _ _ _ => .none
  | succ fuel ih =>
      intro loclist location w v h
      rw [sdEvalLoclist_succ, sdEvalLoclist_succ]
      have hpc : (ctx.on pt').pc = ctx.pc := rfl
      rw [hpc]
      cases activeExpr ctx.pc loclist with
      | none => exact .some ⟨rfl, .refl hval _, h⟩
      | some expr => exact sdEvalLocexpr_alike hval alike ih expr location w v h

end Evaluation

/-! ### Variables -/

/-- What the file has of its variables, and how far their locations are evaluated. -/
structure Lookups where
  dbg : DwarfDebug Die
  getLoclist : DwarfAttribute → Dlv (List (Dlv LocdescEntry))
  offdie : (offset : Nat) → (isInfo : Bool) → Dlv Die
  variableType : Die → Option SdType
  top : SdLocation
  fuel : Nat

/-- There are no variables. -/
def Lookups.none : Lookups :=
  ⟨.ofTrees [] [], fun _ => .noEntry, fun _ _ => .noEntry, fun _ => Option.none, .addr ⟨0⟩, 0⟩

variable (l : Lookups)

def Lookups.initVar (ctx : SdLocEvalCtx W) (varName : String) (w : W) :
    Option (Option RuntimeVariable × W) :=
  initVarWithin l.dbg l.getLoclist l.offdie l.variableType ctx l.top l.fuel varName w

/-- That is how variables are looked up here. -/
def Env.LooksUp (env : Env W) : Prop :=
  ∀ pc loadAddress varName w, l.initVar ⟨env.pt, pc, env.info.elf, loadAddress⟩ varName w =
    some (env.initVar pc loadAddress varName w)

theorem Lookups.none_initVar (ctx : SdLocEvalCtx W) (varName : String) (w : W) :
    Lookups.none.initVar ctx varName w = some (Option.none, w) := by
  have hfind : (sdRuntimeVariable Lookups.none.offdie Lookups.none.variableType ctx.pc varName
      Lookups.none.dbg).1 = Option.none := by
    show (sdRuntimeVariable _ _ _ _ (.ofTrees [] [])).1 = _
    rw [sdRuntimeVariable_eq]
    rfl
  unfold Lookups.initVar initVarWithin
  rw [hfind]

variable {l}

/-- The same variable, in places that are alike. -/
structure VariableAlike (Val : Word → Word → Prop) (var var' : RuntimeVariable) : Prop where
  loc : LocationAlike Val var.loc var'.loc
  declFile : var'.declFile = var.declFile
  declLine : var'.declLine = var.declLine
  type : var'.type = var.type

/-- **Which variable is found, depends on nothing that is in the tracee.** -/
theorem Lookups.initVar_alike (hval : Movable Val) {ctx : SdLocEvalCtx W}
    (alike : RegistersAlike Val R ctx.pt pt') (varName : String) {w : W} {v : V} (h : R w v) :
    Option.Rel (fun x y => Option.Rel (VariableAlike Val) x.1 y.1 ∧ R x.2 y.2)
      (l.initVar ctx varName w) (l.initVar (ctx.on pt') varName v) := by
  have hfind : sdRuntimeVariable l.offdie l.variableType (ctx.on pt').pc varName l.dbg =
      sdRuntimeVariable l.offdie l.variableType ctx.pc varName l.dbg := rfl
  unfold Lookups.initVar initVarWithin
  rw [hfind]
  cases (sdRuntimeVariable l.offdie l.variableType ctx.pc varName l.dbg).1 with
  | none => exact .some ⟨.none, h⟩
  | some found =>
      dsimp only
      cases sdInitLoclist l.getLoclist found.attr.loc with
      | none => exact .some ⟨.none, h⟩
      | some loclist =>
          dsimp only
          have heval : Option.Rel _
              (sdEvalLoclist l.dbg l.getLoclist ctx l.top l.fuel loclist (.addr ⟨0⟩) w) _ :=
            sdEvalLoclist_alike hval alike l.fuel loclist (.addr ⟨0⟩) w v h
          generalize sdEvalLoclist l.dbg l.getLoclist ctx l.top l.fuel loclist (.addr ⟨0⟩) w =
            located at heval
          generalize sdEvalLoclist l.dbg l.getLoclist (ctx.on pt') l.top l.fuel loclist
            (.addr ⟨0⟩) v = located' at heval
          cases heval with
          | none => exact .none
          | @some x y hxy =>
              obtain ⟨res, loc, w'⟩ := x
              obtain ⟨res', loc', v'⟩ := y
              obtain ⟨rfl, hloc, hafter⟩ := hxy
              cases res with
              | ok => exact .some ⟨.some ⟨hloc, rfl, rfl, rfl⟩, hafter⟩
              | err => exact .some ⟨.none, hafter⟩

/-! ### The same registers -/

/-- Tracees that `R` relates have the same registers, and are related after these were read. -/
def SameRegisters (R : W → V → Prop) (pt : Ptrace W) (pt' : Ptrace V) : Prop :=
  ∀ w v, R w v → (pt.getRegs w).1 = (pt'.getRegs v).1 ∧ R (pt.getRegs w).2 (pt'.getRegs v).2

/-- The answers are the same, and the tracees are related. -/
def SameAnswer {α : Type} (R : W → V → Prop) (a : α × W) (b : α × V) : Prop :=
  a.1 = b.1 ∧ R a.2 b.2

/-- Neither comes to an end, or both come to the same one. -/
def SameEnd {α : Type} (R : W → V → Prop) : Option (α × W) → Option (α × V) → Prop :=
  Option.Rel (SameAnswer R)

theorem SameEnd.joined {α : Type} {x : Option (Option α × W)} {y : Option (Option α × V)}
    (h : SameEnd R x y) : (x.map (·.1)).join = (y.map (·.1)).join := by
  cases h with
  | none => rfl
  | some h => exact h.1

theorem movable_eq : Movable (Eq : Word → Word → Prop) :=
  ⟨fun _ => rfl, fun _ _ offset h => congrArg (· + offset) h⟩

theorem SameRegisters.alike (same : SameRegisters R pt pt') : RegistersAlike Eq R pt pt' := by
  intro w v h
  obtain ⟨hread, hafter⟩ := same w v h
  rw [hread]
  refine ⟨?_, hafter⟩
  cases (pt'.getRegs v).1 with
  | none => exact .none
  | some regs => exact .some fun _ => rfl

theorem eq_of_rel {α : Type} {r : α → α → Prop} (hr : ∀ a b, r a b → a = b) {x y : Option α}
    (h : Option.Rel r x y) : x = y := by
  cases h with
  | none => rfl
  | some h => exact congrArg some (hr _ _ h)

theorem SameRegisters.getRegister (same : SameRegisters R pt pt') {w : W} {v : V} (h : R w v)
    (reg : X86Reg) : SameAnswer R (getRegisterValue pt reg w) (getRegisterValue pt' reg v) := by
  obtain ⟨hread, hafter⟩ := same.alike.getRegister h reg
  exact ⟨eq_of_rel (fun _ _ h => h) hread, hafter⟩

theorem VariableAlike.eq {var var' : RuntimeVariable} (h : VariableAlike Eq var var') :
    var = var' := by
  obtain ⟨loc, declFile, declLine, type⟩ := var
  obtain ⟨loc', declFile', declLine', type'⟩ := var'
  obtain ⟨hloc, rfl, rfl, rfl⟩ := h
  have hsame : loc = loc' := by
    cases hloc with
    | @addr addr addr' haddr => exact congrArg (fun value => SdLocation.addr ⟨value⟩) haddr
    | reg reg => rfl
  rw [hsame]

theorem VariableAlike.eq_of_reg {Val : Word → Word → Prop} {var var' : RuntimeVariable}
    {reg : X86Reg} (h : VariableAlike Val var var') (hloc : var.loc = .reg reg) : var' = var := by
  obtain ⟨loc, declFile, declLine, type⟩ := var
  obtain ⟨loc', declFile', declLine', type'⟩ := var'
  obtain ⟨hsame, rfl, rfl, rfl⟩ := h
  obtain rfl : loc = .reg reg := hloc
  cases hsame with
  | reg => rfl

/-- **Where a variable is, depends on nothing but registers.** -/
theorem Lookups.initVar_same {ctx : SdLocEvalCtx W} (same : SameRegisters R ctx.pt pt')
    (varName : String) {w : W} {v : V} (h : R w v) :
    SameEnd R (l.initVar ctx varName w) (l.initVar (ctx.on pt') varName v) := by
  have halike : Option.Rel _ (l.initVar ctx varName w) (l.initVar (ctx.on pt') varName v) :=
    Lookups.initVar_alike movable_eq same.alike varName h
  generalize l.initVar ctx varName w = found at halike ⊢
  generalize l.initVar (ctx.on pt') varName v = found' at halike ⊢
  cases halike with
  | none => exact .none
  | some hxy => exact .some ⟨eq_of_rel (fun _ _ => VariableAlike.eq) hxy.1, hxy.2⟩

variable (l) in
/-- The same program, with another tracee. -/
def Env.on (env : Env W) (pt' : Ptrace V) : Env V where
  pt := pt'
  info := env.info
  printSource := env.printSource
  initVar pc loadAddress varName v :=
    (l.initVar ⟨pt', pc, env.info.elf, loadAddress⟩ varName v).getD (none, v)

theorem Env.on_looksUp {env : Env W}
    (h : ∀ (ctx : SdLocEvalCtx V) (varName : String) (v : V), (l.initVar ctx varName v).isSome) :
    (env.on l pt').LooksUp l := by
  intro pc loadAddress varName v
  obtain ⟨found, hfound⟩ := Option.isSome_iff_exists.mp
    (h ⟨pt', pc, env.info.elf, loadAddress⟩ varName v)
  show _ = some ((l.initVar ⟨pt', pc, env.info.elf, loadAddress⟩ varName v).getD (none, v))
  rw [hfound]
  exact hfound

theorem Env.LooksUp.same {env : Env W} (hlookup : env.LooksUp l)
    (same : SameRegisters R env.pt pt') (pc : DbgAddr) (loadAddress : RealAddr) (varName : String)
    {w : W} {v : V} (h : R w v) : SameAnswer R (env.initVar pc loadAddress varName w)
      ((env.on l pt').initVar pc loadAddress varName v) := by
  have hsame : SameEnd R (l.initVar ⟨env.pt, pc, env.info.elf, loadAddress⟩ varName w)
      (l.initVar ⟨pt', pc, env.info.elf, loadAddress⟩ varName v) :=
    Lookups.initVar_same same varName h
  show SameAnswer R _ ((l.initVar ⟨pt', pc, env.info.elf, loadAddress⟩ varName v).getD (none, v))
  rw [hlookup] at hsame
  generalize l.initVar ⟨pt', pc, env.info.elf, loadAddress⟩ varName v = found at hsame ⊢
  cases hsame with
  | some hanswer => exact hanswer

/-- `R` relates a tracee to itself after any number of reads of its registers. -/
structure KeptByReads (pt : Ptrace W) (R : W → W → Prop) : Prop where
  refl : ∀ w, R w w
  trans : ∀ w w' w'', R w w' → R w' w'' → R w w''
  getRegs : ∀ w, R w (pt.getRegs w).2

/-- **Nothing but registers is read to look a variable up.** -/
theorem Lookups.initVar_kept {ctx : SdLocEvalCtx W} {R : W → W → Prop}
    (kept : KeptByReads ctx.pt R) {varName : String} {var : Option RuntimeVariable} {w w' : W}
    (h : l.initVar ctx varName w = some (var, w')) : R w w' := by
  -- The tracee beside itself, all that has happened to which is that registers were read.
  have same : SameRegisters (fun u v => u = v ∧ R w u) ctx.pt ctx.pt := by
    rintro u _ ⟨rfl, hu⟩
    exact ⟨rfl, rfl, kept.trans _ _ _ hu (kept.getRegs u)⟩
  have hend : SameEnd (fun u v => u = v ∧ R w u) (l.initVar ctx varName w)
      (l.initVar ctx varName w) := Lookups.initVar_same same varName ⟨rfl, kept.refl w⟩
  rw [h] at hend
  cases hend with
  | some hsame => exact hsame.2.2

end Spray
