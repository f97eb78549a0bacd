/-
Evaluating locations: what an expression gives, and when evaluation ends.

An operation either fails or pushes one location, so that the stack is empty in the end
only if there was no operation at all.  In that case what is popped off of it is anything
(an optimized-out variable has such an expression).  As the frame base is looked up by the
PC, it is the same in each round, and evaluation goes on forever as soon as the frame base
is relative to itself.
-/
import Spray.Dwarf.Eval
import Spray.Proofs.Scoping
import Spray.Proofs.Subprog

namespace Spray

variable {W : Type} {dbg : DwarfDebug Die}
  {getLoclist : DwarfAttribute → Dlv (List (Dlv LocdescEntry))} {ctx : SdLocEvalCtx W}
  {evalLoclist : EvalLocation SdLoclist W} {top : SdLocation}

/-! ### Operations -/

def isFbreg (op : SdOperation) : Bool := op.opcode = DW_OP_fbreg

/-- What an operation pushes that does not depend on the frame base. -/
def pushedAlone (ctx : SdLocEvalCtx W) (op : SdOperation) : Option SdLocation :=
  if DW_OP_reg0 ≤ op.opcode ∧ op.opcode ≤ DW_OP_reg31 then
    (dwarfRegnumToX86Reg (op.opcode - DW_OP_reg0)).map .reg
  else if op.opcode = DW_OP_addr then
    some (.addr (dbgToReal ctx.loadAddress ⟨op.operand1⟩))
  else none

/-- The frame base's location, and the value of the register that it has to be. -/
def frameBaseValue (dbg : DwarfDebug Die)
    (getLoclist : DwarfAttribute → Dlv (List (Dlv LocdescEntry))) (ctx : SdLocEvalCtx W)
    (evalLoclist : EvalLocation SdLoclist W) (w : W) : Option (Option Word × W) :=
  match frameBaseList dbg getLoclist ctx with
  | none => some (none, w)
  | some loclist =>
    match evalLoclist loclist (.addr ⟨0⟩) w with
    | none => none
    | some (.ok, .reg reg, w) => some (getRegisterValue ctx.pt reg w)
    | some (_, _, w) => some (none, w)

/-- What an operation pushes, if it does not fail. -/
def pushedBy (dbg : DwarfDebug Die)
    (getLoclist : DwarfAttribute → Dlv (List (Dlv LocdescEntry))) (ctx : SdLocEvalCtx W)
    (evalLoclist : EvalLocation SdLoclist W) (op : SdOperation) (w : W) :
    Option (Option SdLocation × W) :=
  if isFbreg op then
    (frameBaseValue dbg getLoclist ctx evalLoclist w).map fun (baseAddr, w) =>
      (baseAddr.map fun baseAddr => .addr ⟨baseAddr + op.operand1⟩, w)
  else some (pushedAlone ctx op, w)

/-- The stack after an operation. -/
def onStack (stack : LocEvalStack) : Option SdLocation × W → SprayResult × LocEvalStack × W
  | (some loc, w) => (.ok, loc :: stack, w)
  | (none, w) => (.err, stack, w)

/-- An operation pushes one location, or fails, whatever the stack is. -/
theorem sdEvalLocop_eq (op : SdOperation) (stack : LocEvalStack) (w : W) :
    sdEvalLocop dbg getLoclist ctx evalLoclist op stack w =
      (pushedBy dbg getLoclist ctx evalLoclist op w).map (onStack stack) := by
  unfold sdEvalLocop sdGetEvalHandler pushedBy
  by_cases hfbreg : op.opcode = DW_OP_fbreg
  · have hself : isFbreg op = true := decide_eq_true hfbreg
    rw [if_pos hself, hfbreg]
    show sdEvalOpFbreg dbg getLoclist ctx evalLoclist op stack w = _
    unfold sdEvalOpFbreg frameBaseValue
    cases frameBaseList dbg getLoclist ctx with
    | none => rfl
    | some loclist =>
        dsimp only
        rcases evalLoclist loclist (.addr ⟨0⟩) w with _ | ⟨_ | _, _ | reg, w'⟩ <;> try rfl
        dsimp only
        rcases getRegisterValue ctx.pt reg w' with ⟨_ | baseAddr, w''⟩ <;> rfl
  · have hother : ¬ isFbreg op = true := by
      rw [isFbreg, decide_eq_true_eq]
      exact hfbreg
    rw [if_neg hfbreg, if_neg hother]
    unfold pushedAlone
    by_cases hreg : DW_OP_reg0 ≤ op.opcode ∧ op.opcode ≤ DW_OP_reg31
    · rw [if_pos hreg, if_pos hreg]
      dsimp only
      unfold sdEvalOpRegn
      cases dwarfRegnumToX86Reg (op.opcode - DW_OP_reg0) with
      | some reg => rfl
      | none => rfl
    · rw [if_neg hreg, if_neg hreg]
      by_cases haddr : op.opcode = DW_OP_addr
      · rw [if_pos haddr, if_pos haddr]
        rfl
      · rw [if_neg haddr, if_neg haddr]
        rfl

/-! ### Expressions -/

/-- Every operation, one after the other, pushes a location. -/
inductive EvaluatesAll (dbg : DwarfDebug Die)
    (getLoclist : DwarfAttribute → Dlv (List (Dlv LocdescEntry))) (ctx : SdLocEvalCtx W)
    (evalLoclist : EvalLocation SdLoclist W) :
    SdLocdesc → W → List SdLocation → W → Prop
  | nil (w : W) : EvaluatesAll dbg getLoclist ctx evalLoclist [] w [] w
  | cons {op : SdOperation} {ops : SdLocdesc} {loc : SdLocation} {locs : List SdLocation}
      {w w₁ w₂ : W} (head : pushedBy dbg getLoclist ctx evalLoclist op w = some (some loc, w₁))
      (tail : EvaluatesAll dbg getLoclist ctx evalLoclist ops w₁ locs w₂) :
      EvaluatesAll dbg getLoclist ctx evalLoclist (op :: ops) w (loc :: locs) w₂

theorem EvaluatesAll.length {ops : SdLocdesc} {w w' : W} {locs : List SdLocation}
    (h : EvaluatesAll dbg getLoclist ctx evalLoclist ops w locs w') :
    locs.length = ops.length := by
  induction h with
  | nil w => rfl
  | cons head tail ih => rw [List.length_cons, List.length_cons, ih]

theorem EvaluatesAll.ne_nil {ops : SdLocdesc} {w w' : W} {locs : List SdLocation}
    (h : EvaluatesAll dbg getLoclist ctx evalLoclist ops w locs w') (hops : ops ≠ []) :
    locs ≠ [] := by
  rw [← List.length_pos_iff, h.length, List.length_pos_iff]
  exact hops

/-- The expression of a location list that is evaluated at a PC. -/
def activeExpr (pc : DbgAddr) (loclist : SdLoclist) : Option SdLocdesc :=
  ((loclist.find? fun entry => isActiveRange entry.2 pc).or
    (loclist.find? fun entry => !entry.2.meaningful)).map Prod.fst

theorem sdEvalLoclist_succ (fuel : Nat) (loclist : SdLoclist) (location : SdLocation) (w : W) :
    sdEvalLoclist dbg getLoclist ctx top (fuel + 1) loclist location w =
      match activeExpr ctx.pc loclist with
      | some expr => sdEvalLocexprWithin dbg getLoclist ctx top fuel expr location w
      | none => some (.ok, .addr ⟨0⟩, w) := by
  rw [sdEvalLoclist, activeExpr]
  dsimp only
  cases loclist.find? fun entry => isActiveRange entry.2 ctx.pc with
  | some entry => rfl
  | none =>
      cases loclist.find? fun entry => !entry.2.meaningful with
      | some entry => rfl
      | none => rfl

/-- The expression that describes the frame base at the PC. -/
def frameBaseExpr (dbg : DwarfDebug Die)
    (getLoclist : DwarfAttribute → Dlv (List (Dlv LocdescEntry))) (ctx : SdLocEvalCtx W) :
    Option SdLocdesc :=
  (frameBaseList dbg getLoclist ctx).bind (activeExpr ctx.pc)

theorem frameBaseList_of_expr {base : SdLocdesc}
    (h : frameBaseExpr dbg getLoclist ctx = some base) :
    ∃ loclist, frameBaseList dbg getLoclist ctx = some loclist ∧
      activeExpr ctx.pc loclist = some base := Option.bind_eq_some_iff.mp h

/-! ### Evaluation ends -/

/-- Evaluation gets to an operation that is relative to the frame base. -/
def reachesFbreg (ctx : SdLocEvalCtx W) : SdLocdesc → Bool
  | [] => false
  | op :: ops => isFbreg op || ((pushedAlone ctx op).isSome && reachesFbreg ctx ops)

theorem pushedBy_fbreg {op : SdOperation} (h : isFbreg op = true) (w : W) :
    pushedBy dbg getLoclist ctx evalLoclist op w =
      (frameBaseValue dbg getLoclist ctx evalLoclist w).map fun (baseAddr, w) =>
        (baseAddr.map fun baseAddr => .addr ⟨baseAddr + op.operand1⟩, w) := by
  rw [pushedBy, if_pos h]

theorem pushedBy_alone {op : SdOperation} (h : isFbreg op = false) (w : W) :
    pushedBy dbg getLoclist ctx evalLoclist op w = some (pushedAlone ctx op, w) := by
  rw [pushedBy, if_neg (by rw [h]; exact Bool.false_ne_true)]

/-- The frame base is of no importance as long as nothing is relative to it. -/
theorem evalLocops_of_not_reachesFbreg {ops : SdLocdesc} (evalLoclist' : EvalLocation SdLoclist W) :
    ∀ {stack : LocEvalStack} {w : W}, reachesFbreg ctx ops = false →
      evalLocops dbg getLoclist ctx evalLoclist ops stack w =
        evalLocops dbg getLoclist ctx evalLoclist' ops stack w := by
  induction ops with
  | nil =>
      intro stack w h
      rfl
  | cons op ops ih =>
      intro stack w h
      rw [reachesFbreg, Bool.or_eq_false_iff] at h
      rw [evalLocops, evalLocops, sdEvalLocop_eq, sdEvalLocop_eq, pushedBy_alone h.1,
        pushedBy_alone h.1]
      cases hpush : pushedAlone ctx op with
      | none => rfl
      | some loc =>
          rw [hpush, Option.isSome_some, Bool.true_and] at h
          exact ih h.2

/-- Evaluation ends if that of the frame base does. -/
theorem evalLocops_isSome (h : ∀ w, (frameBaseValue dbg getLoclist ctx evalLoclist w).isSome)
    (ops : SdLocdesc) : ∀ (stack : LocEvalStack) (w : W),
      (evalLocops dbg getLoclist ctx evalLoclist ops stack w).isSome := by
  induction ops with
  | nil =>
      intro stack w
      rfl
  | cons op ops ih =>
      intro stack w
      rw [evalLocops, sdEvalLocop_eq]
      obtain ⟨⟨loc, w'⟩, hpush⟩ :
          ∃ pushed, pushedBy dbg getLoclist ctx evalLoclist op w = some pushed := by
        cases hop : isFbreg op with
        | false => exact ⟨_, pushedBy_alone hop w⟩
        | true =>
            obtain ⟨base, hbase⟩ := Option.isSome_iff_exists.mp (h w)
            rw [pushedBy_fbreg hop, hbase]
            exact ⟨_, rfl⟩
      rw [hpush]
      cases loc with
      | none => rfl
      | some loc => exact ih (loc :: stack) w'

theorem evalLocops_isSome_of_not_reachesFbreg {ops : SdLocdesc} (h : reachesFbreg ctx ops = false)
    (stack : LocEvalStack) (w : W) :
    (evalLocops dbg getLoclist ctx evalLoclist ops stack w).isSome := by
  rw [evalLocops_of_not_reachesFbreg (fun _ location w => some (.err, location, w)) h]
  refine evalLocops_isSome (fun w => ?_) ops stack w
  unfold frameBaseValue
  cases frameBaseList dbg getLoclist ctx with
  | none => rfl
  | some loclist => rfl

/-- It does not if that of the frame base does not, and the frame base is used. -/
theorem evalLocops_eq_none (h : ∀ w, frameBaseValue dbg getLoclist ctx evalLoclist w = none)
    (ops : SdLocdesc) : ∀ {stack : LocEvalStack} {w : W}, reachesFbreg ctx ops = true →
      evalLocops dbg getLoclist ctx evalLoclist ops stack w = none := by
  induction ops with
  | nil =>
      intro stack w hreach
      cases hreach
  | cons op ops ih =>
      intro stack w hreach
      rw [evalLocops, sdEvalLocop_eq]
      cases hop : isFbreg op with
      | true =>
          rw [pushedBy_fbreg hop, h]
          rfl
      | false =>
          rw [reachesFbreg, hop, Bool.false_or, Bool.and_eq_true] at hreach
          obtain ⟨loc, hloc⟩ := Option.isSome_iff_exists.mp hreach.1
          rw [pushedBy_alone hop, hloc]
          exact ih hreach.2

theorem isSome_sdEvalLocexpr {ops : SdLocdesc} {location : SdLocation} {w : W} :
    (sdEvalLocexpr dbg getLoclist ctx evalLoclist top ops location w).isSome =
      (evalLocops dbg getLoclist ctx evalLoclist ops [] w).isSome := by
  unfold sdEvalLocexpr
  rcases evalLocops dbg getLoclist ctx evalLoclist ops [] w with _ | ⟨_ | _, stack, w'⟩ <;> rfl

/-- The frame base is relative to itself, and needed. -/
def Circular (dbg : DwarfDebug Die)
    (getLoclist : DwarfAttribute → Dlv (List (Dlv LocdescEntry))) (ctx : SdLocEvalCtx W)
    (ops : SdLocdesc) : Prop :=
  reachesFbreg ctx ops = true ∧
    ∃ base, frameBaseExpr dbg getLoclist ctx = some base ∧ reachesFbreg ctx base = true

theorem frameBaseValue_isSome
    (h : ∀ loclist, frameBaseList dbg getLoclist ctx = some loclist →
      ∀ w, (evalLoclist loclist (.addr ⟨0⟩) w).isSome) (w : W) :
    (frameBaseValue dbg getLoclist ctx evalLoclist w).isSome := by
  unfold frameBaseValue
  cases hlist : frameBaseList dbg getLoclist ctx with
  | none => rfl
  | some loclist =>
      obtain ⟨result, hresult⟩ := Option.isSome_iff_exists.mp (h loclist hlist w)
      dsimp only
      rw [hresult]
      rcases result with ⟨_ | _, _ | reg, w'⟩ <;> rfl

/-- The frame base takes one round if it is not relative to itself. -/
theorem sdEvalLoclist_frameBase
    (h : ∀ base, frameBaseExpr dbg getLoclist ctx = some base → reachesFbreg ctx base = false)
    (fuel : Nat) (loclist : SdLoclist) (hlist : frameBaseList dbg getLoclist ctx = some loclist)
    (w : W) :
    (sdEvalLoclist dbg getLoclist ctx top (fuel + 1) loclist (.addr ⟨0⟩) w).isSome := by
  rw [sdEvalLoclist_succ]
  cases hactive : activeExpr ctx.pc loclist with
  | none => rfl
  | some base =>
      have hbase := h base (by rw [frameBaseExpr, hlist, Option.bind_some, hactive])
      dsimp only [sdEvalLocexprWithin]
      rw [isSome_sdEvalLocexpr]
      exact evalLocops_isSome_of_not_reachesFbreg hbase [] w

theorem sdEvalLocexprWithin_circular (hcirc : ∃ base,
      frameBaseExpr dbg getLoclist ctx = some base ∧ reachesFbreg ctx base = true)
    (fuel : Nat) : ∀ {ops : SdLocdesc} (location : SdLocation) (w : W),
      reachesFbreg ctx ops = true →
      sdEvalLocexprWithin dbg getLoclist ctx top fuel ops location w = none := by
  obtain ⟨base, hbase, hreach⟩ := hcirc
  obtain ⟨loclist, hlist, hactive⟩ := frameBaseList_of_expr hbase
  have hround : ∀ {fuel} {ops : SdLocdesc} {location : SdLocation} {w : W},
      (∀ w, sdEvalLoclist dbg getLoclist ctx top fuel loclist (.addr ⟨0⟩) w = none) →
      reachesFbreg ctx ops = true →
      sdEvalLocexprWithin dbg getLoclist ctx top fuel ops location w = none := by
    intro fuel ops location w hnone hops
    have hvalue : ∀ w, frameBaseValue dbg getLoclist ctx
        (sdEvalLoclist dbg getLoclist ctx top fuel) w = none := by
      intro w
      rw [frameBaseValue, hlist]
      dsimp only
      rw [hnone]
    rw [sdEvalLocexprWithin, sdEvalLocexpr, evalLocops_eq_none hvalue ops hops]
  induction fuel with
  | zero => exact fun location w hops => hround (fun _ => rfl) hops
  | succ fuel ih =>
      intro ops location w hops
      refine hround (fun w => ?_) hops
      rw [sdEvalLoclist_succ, hactive]
      exact ih _ w hreach

theorem sdEvalLocexprWithin_isSome {ops : SdLocdesc} (h : ¬ Circular dbg getLoclist ctx ops)
    (fuel : Nat) (location : SdLocation) (w : W) :
    (sdEvalLocexprWithin dbg getLoclist ctx top (fuel + 1) ops location w).isSome := by
  rw [sdEvalLocexprWithin, isSome_sdEvalLocexpr]
  cases hreach : reachesFbreg ctx ops with
  | false => exact evalLocops_isSome_of_not_reachesFbreg hreach [] w
  | true =>
      refine evalLocops_isSome (frameBaseValue_isSome (sdEvalLoclist_frameBase ?_ fuel)) ops [] w
      intro base hbase
      rw [← Bool.not_eq_true]
      exact fun hself => h ⟨hreach, base, hbase, hself⟩

/-- Evaluation comes to an end, with one result or the other: of the expression, and of a
location list that has it at the PC. -/
structure EvalEnds (dbg : DwarfDebug Die)
    (getLoclist : DwarfAttribute → Dlv (List (Dlv LocdescEntry))) (ctx : SdLocEvalCtx W)
    (top : SdLocation) (ops : SdLocdesc) (w : W) : Prop where
  locexpr : ∀ location, ∃ fuel res location' w',
    sdEvalLocexprWithin dbg getLoclist ctx top fuel ops location w = some (res, location', w')
  loclist : ∀ loclist, activeExpr ctx.pc loclist = some ops → ∀ location,
    ∃ fuel res location' w',
      sdEvalLoclist dbg getLoclist ctx top fuel loclist location w = some (res, location', w')

/-- **Evaluation ends exactly if the frame base is not relative to itself, or nothing is
relative to it.** -/
theorem evalEnds_iff (dbg : DwarfDebug Die)
    (getLoclist : DwarfAttribute → Dlv (List (Dlv LocdescEntry))) (ctx : SdLocEvalCtx W)
    (top : SdLocation) (ops : SdLocdesc) (w : W) :
    EvalEnds dbg getLoclist ctx top ops w ↔ ¬ Circular dbg getLoclist ctx ops := by
  constructor
  · rintro ⟨hends, -⟩ ⟨hreach, hbase⟩
    obtain ⟨fuel, res, location', w', hrun⟩ := hends (.addr ⟨0⟩)
    rw [sdEvalLocexprWithin_circular hbase fuel _ _ hreach] at hrun
    cases hrun
  · intro h
    have hends : ∀ location, ∃ fuel res location' w',
        sdEvalLocexprWithin dbg getLoclist ctx top fuel ops location w =
          some (res, location', w') := by
      intro location
      have hsome : (sdEvalLocexprWithin dbg getLoclist ctx top 1 ops location w).isSome :=
        sdEvalLocexprWithin_isSome h 0 location w
      obtain ⟨⟨res, location', w'⟩, hrun⟩ := Option.isSome_iff_exists.mp hsome
      exact ⟨1, res, location', w', hrun⟩
    refine ⟨hends, fun loclist hactive location => ?_⟩
    obtain ⟨fuel, res, location', w', hrun⟩ := hends location
    refine ⟨fuel + 1, res, location', w', ?_⟩
    rw [sdEvalLoclist_succ, hactive]
    exact hrun

/-- A function with a frame base. -/
def frameBaseDie : Die where
  offset := 1
  tag := .ok .subprogram
  name := .ok "main"
  frameBase := .ok (.ok .EXPRLOC)

def frameBaseUnits : List (RoseTree Die) :=
  [{ root := { offset := 0, tag := .ok .compileUnit }
     children := .cons frameBaseDie .nil .nil }]

/-- The PC is in that function. -/
def frameBaseCtx : SdLocEvalCtx Unit where
  pt := stillPtrace (fun _ => some 0) (some fun _ => 0)
  pc := ⟨0x1004⟩
  elf := { type := .EXEC, symtab := [⟨"main", 0x1000, 0x10, .STT_FUNC⟩] }
  loadAddress := ⟨0⟩

/-- Every attribute is the same expression. -/
def constLoclist (ops : SdLocdesc) (_ : DwarfAttribute) : Dlv (List (Dlv LocdescEntry)) :=
  .ok [.ok ⟨false, 0, 0, ops.map .ok⟩]

theorem frameBaseExpr_fbreg :
    frameBaseExpr (.ofTrees frameBaseUnits []) (constLoclist [⟨DW_OP_fbreg, 0⟩]) frameBaseCtx =
      some [⟨DW_OP_fbreg, 0⟩] := by
  have hsym : seSymbolFromAddr ⟨0x1004⟩ frameBaseCtx.elf =
      some ⟨"main", 0x1000, 0x10, .STT_FUNC⟩ := by decide
  have hbase : (documentOrder frameBaseUnits []).findSome?
      (ofSubprog "main" Die.usableFrameBase) = some ⟨1, .frameBase, .ok .EXPRLOC⟩ := by decide
  unfold frameBaseExpr frameBaseList fbregFrameBase
  rw [show frameBaseCtx.pc = ⟨0x1004⟩ from rfl, hsym]
  dsimp only
  rw [sdGetSubprogLocAttr_eq, hbase]
  rfl

/-- A frame base that is relative to the frame base. -/
theorem not_evalEnds_circular :
    ¬ EvalEnds (.ofTrees frameBaseUnits []) (constLoclist [⟨DW_OP_fbreg, 0⟩]) frameBaseCtx
      (.addr ⟨0⟩) [⟨DW_OP_fbreg, 0⟩] () := by
  rintro ⟨hends, -⟩
  obtain ⟨fuel, res, location', w', hrun⟩ := hends (.addr ⟨0⟩)
  rw [sdEvalLocexprWithin_circular ⟨_, frameBaseExpr_fbreg, rfl⟩ fuel _ _ rfl] at hrun
  cases hrun

/-! ### What is evaluated is computed -/

end Spray
