/-
Variables and their scopes.

Walking the DIEs in document order, the search keeps one bit and one level: whether the
last subprogram that came by holds the PC, and how deep it is.  The two are enough to tell
whether a DIE is below that subprogram (`Fits`), so the first search finds the first
variable of the name there.  C's rule asks for the innermost scope at the PC instead, which
is a different variable where blocks shadow each other.
-/
import Spray.Dwarf.Variable
import Spray.Proofs.Ranges
import Spray.Proofs.Search

namespace Spray

variable {offdie : Nat → Bool → Dlv Die} {variableType : Die → Option SdType} {pc : DbgAddr}
  {varName : String}

/-! ### The scope that is followed -/

/-- A subprogram with a PC range. -/
def isFunction (die : Die) : Bool := sdHasTag die .subprogram && die.pcRange.isSome

/-- The last function in front of a DIE is around it, and holds the PC by the program's own
measure. -/
def inFunction (pc : DbgAddr) (before : List (Die × List Die)) (above : List Die) : Bool :=
  match (before.filter fun p => isFunction p.1).getLast? with
  | some function =>
    function.1.touches pc.value && (function.1 :: function.2).isSuffixOf above
  | none => false

/-- The scope is active at a level. -/
def VarattrSearchFindings.activeAt (s : VarattrSearchFindings) (level : Nat) : Bool :=
  s.inScope && level > s.scopeLevel

/-- The scope is active where it should be, around the DIEs that are next. -/
def Fits (pc : DbgAddr) (before : List (Die × List Die)) (above : List Die)
    (s : VarattrSearchFindings) : Prop :=
  ∀ outer, outer <:+ above → s.activeAt outer.length = inFunction pc before outer

theorem inFunction_root (before : List (Die × List Die)) : inFunction pc before [] = false := by
  unfold inFunction
  split
  · rename_i function hlast
    have hnone : (function.1 :: function.2).isSuffixOf [] = false := by
      rw [Bool.eq_false_iff]
      intro h
      exact List.cons_ne_nil _ _ (List.suffix_nil.mp (List.isSuffixOf_iff_suffix.mp h))
    rw [hnone, Bool.and_false]
  · rfl

theorem Fits.root (before : List (Die × List Die)) (s : VarattrSearchFindings) :
    Fits pc before [] s := by
  intro outer houter
  obtain rfl := List.suffix_nil.mp houter
  rw [inFunction_root]
  simp [VarattrSearchFindings.activeAt]

theorem Fits.up {before : List (Die × List Die)} {die : Die} {above : List Die}
    {s : VarattrSearchFindings} (h : Fits pc before (die :: above) s) : Fits pc before above s :=
  fun outer houter => h outer (houter.trans (List.suffix_cons die above))

/-- Behind a function, what is around it is not in a function any more. -/
theorem inFunction_function {before : List (Die × List Die)} {die : Die} {above outer : List Die}
    (h : isFunction die = true) (houter : outer <:+ die :: above) :
    inFunction pc (before ++ [(die, above)]) outer =
      (die.touches pc.value && decide (above.length < outer.length)) := by
  have hlast : ((before ++ [(die, above)]).filter fun p => isFunction p.1).getLast? =
      some (die, above) := by
    simp [h]
  rw [inFunction, hlast]
  dsimp only
  congr 1
  rw [Bool.eq_iff_iff, decide_eq_true_iff, List.isSuffixOf_iff_suffix]
  constructor
  · intro hsuffix
    exact hsuffix.length_le
  · intro hdeeper
    rcases List.suffix_cons_iff.mp houter with rfl | houter
    · exact List.suffix_rfl
    · have hle := houter.length_le
      omega

/-- Other DIEs change nothing. -/
theorem inFunction_other {before : List (Die × List Die)} {die : Die} {above outer : List Die}
    (h : isFunction die = false) :
    inFunction pc (before ++ [(die, above)]) outer = inFunction pc before outer := by
  have hfilter : (before ++ [(die, above)]).filter (fun p => isFunction p.1) =
      before.filter fun p => isFunction p.1 := by
    simp [h]
  unfold inFunction
  rw [hfilter]

/-- What is right below a DIE that is no function is where the DIE is. -/
theorem inFunction_below {before : List (Die × List Die)} {die : Die} {above : List Die}
    (h : isFunction die = false) :
    inFunction pc before (die :: above) = inFunction pc before above := by
  unfold inFunction
  split
  · rename_i function hlast
    congr 1
    rw [Bool.eq_iff_iff, List.isSuffixOf_iff_suffix, List.isSuffixOf_iff_suffix]
    constructor
    · intro hsuffix
      rcases List.suffix_cons_iff.mp hsuffix with heq | hsuffix
      · have hfunction := (List.mem_filter.mp (List.mem_of_getLast? hlast)).2
        obtain ⟨rfl, _⟩ := List.cons.inj heq
        rw [h] at hfunction
        exact absurd hfunction Bool.false_ne_true
      · exact hsuffix
    · intro hsuffix
      exact hsuffix.trans (List.suffix_cons die above)
  · rfl

/-! ### One DIE -/

/-- The findings as they are when a DIE of a level is looked at. -/
def VarattrSearchFindings.leave (s : VarattrSearchFindings) (level : Nat) :
    VarattrSearchFindings := if !(level > s.scopeLevel) then { s with inScope := false } else s

theorem leave_inScope (s : VarattrSearchFindings) (level : Nat) :
    (s.leave level).inScope = s.activeAt level := by
  unfold VarattrSearchFindings.leave VarattrSearchFindings.activeAt
  by_cases h : level > s.scopeLevel
  · simp [h]
  · simp [h]

theorem leave_activeAt (s : VarattrSearchFindings) {l level : Nat} (h : l ≤ level) :
    (s.leave level).activeAt l = s.activeAt l := by
  unfold VarattrSearchFindings.leave VarattrSearchFindings.activeAt
  by_cases hlevel : level > s.scopeLevel
  · simp [hlevel]
  · have hl : ¬ l > s.scopeLevel := by omega
    simp [hlevel, hl]

theorem leave_activeAt_below (s : VarattrSearchFindings) (level : Nat) :
    (s.leave level).activeAt (level + 1) = s.activeAt level := by
  unfold VarattrSearchFindings.leave VarattrSearchFindings.activeAt
  by_cases hlevel : level > s.scopeLevel
  · have hbelow : level + 1 > s.scopeLevel := by omega
    simp [hlevel, hbelow]
  · simp [hlevel]

/-- A DIE that is no function keeps the scope as it is. -/
theorem Fits.leave {before : List (Die × List Die)} {die : Die} {above : List Die}
    {s : VarattrSearchFindings} (hfits : Fits pc before above s) (h : isFunction die = false) :
    Fits pc (before ++ [(die, above)]) (die :: above) (s.leave above.length) := by
  intro outer houter
  rw [inFunction_other h]
  rcases List.suffix_cons_iff.mp houter with rfl | houter
  · rw [List.length_cons, leave_activeAt_below, inFunction_below h]
    exact hfits above List.suffix_rfl
  · rw [leave_activeAt s houter.length_le]
    exact hfits outer houter

/-- What the search makes of a function. -/
theorem Fits.function {before : List (Die × List Die)} {die : Die} {above : List Die}
    (s : VarattrSearchFindings) (h : isFunction die = true)
    (hscope : s.inScope = die.touches pc.value)
    (hlevel : s.inScope = true → s.scopeLevel = above.length) :
    Fits pc (before ++ [(die, above)]) (die :: above) s := by
  intro outer houter
  rw [inFunction_function h houter, VarattrSearchFindings.activeAt, ← hscope]
  cases hin : s.inScope with
  | false => rw [Bool.false_and, Bool.false_and]
  | true => rw [hlevel hin]

/-- The variable a DIE gives, if it is in a function at the PC. -/
def scopedVariable (offdie : Nat → Bool → Dlv Die) (variableType : Die → Option SdType)
    (pc : DbgAddr) (varName : String) (p : List (Die × List Die) × Die × List Die) :
    Option FoundVariable :=
  if inFunction pc p.1 p.2.2 then foundVariable offdie variableType varName p.2.1 else none

/-- The search that follows the scope. -/
def scopedSearch (offdie : Nat → Bool → Dlv Die) (variableType : Die → Option SdType)
    (pc : DbgAddr) (varName : String) : Die × List Die → VarattrSearchFindings →
    Bool × VarattrSearchFindings :=
  visitDie (callbackFindRuntimeVariable offdie variableType ⟨pc, true, varName⟩)

theorem foundVariable_subprogram {die : Die} (h : sdHasTag die .subprogram = true) :
    foundVariable offdie variableType varName die = none := by
  have hother : ∀ tag, tag ≠ .subprogram → sdHasTag die tag = false := by
    intro tag hne
    unfold sdHasTag at h ⊢
    split at h
    · rename_i dieTag htag
      obtain rfl := of_decide_eq_true h
      exact decide_eq_false hne.symm
    · cases h
  unfold foundVariable
  rw [hother _ (by decide), hother _ (by decide)]
  rfl

variable (offdie variableType varName) in
theorem scopedSearch_subprogram_eq {die : Die} (h : sdHasTag die .subprogram = true)
    (above : List Die) (s : VarattrSearchFindings) :
    scopedSearch offdie variableType pc varName (die, above) s =
      (match sdCheckPcInDie die pc.value with
        | .ok true => (false, { s.leave above.length with inScope := true,
                                                          scopeLevel := above.length })
        | .ok false => (false, { s.leave above.length with inScope := false })
        | _ => (false, s.leave above.length)) := by
  unfold scopedSearch visitDie callbackFindRuntimeVariable
  simp only [Bool.true_and, h, if_true]
  rfl

variable (offdie variableType varName) in
theorem scopedSearch_other_eq {die : Die} (h : sdHasTag die .subprogram = false)
    (above : List Die) (s : VarattrSearchFindings) :
    scopedSearch offdie variableType pc varName (die, above) s =
      (if (s.leave above.length).inScope then
        match foundVariable offdie variableType varName die with
        | some found => (true, { s.leave above.length with found? := some found })
        | none => (false, s.leave above.length)
      else (false, s.leave above.length)) := by
  unfold scopedSearch visitDie callbackFindRuntimeVariable
  simp only [Bool.true_and, h, Bool.false_eq_true, if_false, Bool.not_true, Bool.false_or]
  rfl

/-- Whether a function is at the PC can be told, and of other DIEs it cannot. -/
theorem sdCheckPcInDie_function {die : Die} (h : isFunction die = true) (pc : Word) :
    sdCheckPcInDie die pc = .ok (die.touches pc) := by
  unfold isFunction Die.pcRange at h
  cases hread : sdGetHighAndLowPc die with
  | ok range => simp [Die.touches, sdCheckPcInDie, hread, Dlv.map]
  | noEntry => simp [hread, Dlv.toOption] at h
  | error => simp [hread, Dlv.toOption] at h

theorem sdCheckPcInDie_not_function {die : Die} (htag : sdHasTag die .subprogram = true)
    (h : isFunction die = false) (pc : Word) (b : Bool) : sdCheckPcInDie die pc ≠ .ok b := by
  unfold isFunction Die.pcRange at h
  cases hread : sdGetHighAndLowPc die with
  | ok range => simp [htag, hread, Dlv.toOption] at h
  | noEntry => simp [sdCheckPcInDie, hread, Dlv.map]
  | error => simp [sdCheckPcInDie, hread, Dlv.map]

variable (offdie variableType varName) in
/-- A subprogram gives nothing. -/
theorem scopedSearch_subprogram {before : List (Die × List Die)} {die : Die} {above : List Die}
    {s : VarattrSearchFindings} (hfits : Fits pc before above s)
    (h : sdHasTag die .subprogram = true) :
    ∃ t, scopedSearch offdie variableType pc varName (die, above) s = (false, t) ∧
      Fits pc (before ++ [(die, above)]) (die :: above) t := by
  rw [scopedSearch_subprogram_eq offdie variableType varName h]
  cases hfunction : isFunction die with
  | true =>
      rw [sdCheckPcInDie_function hfunction]
      cases htouches : die.touches pc.value with
      | true => exact ⟨_, rfl, .function _ hfunction htouches.symm fun _ => rfl⟩
      | false =>
          exact ⟨_, rfl, .function _ hfunction htouches.symm fun hc => absurd hc Bool.false_ne_true⟩
  | false =>
      have hnot := sdCheckPcInDie_not_function h hfunction pc.value
      split
      · rename_i hcheck
        exact absurd hcheck (hnot true)
      · rename_i hcheck
        exact absurd hcheck (hnot false)
      · exact ⟨_, rfl, hfits.leave hfunction⟩

variable (offdie variableType varName) in
/-- Any other DIE is looked at if it is in a function at the PC. -/
theorem scopedSearch_other {before : List (Die × List Die)} {die : Die} {above : List Die}
    {s : VarattrSearchFindings} (hfits : Fits pc before above s)
    (h : sdHasTag die .subprogram = false) :
    scopedSearch offdie variableType pc varName (die, above) s =
      match scopedVariable offdie variableType pc varName (before, die, above) with
      | some found => (true, { s.leave above.length with found? := some found })
      | none => (false, s.leave above.length) := by
  have hscope : (s.leave above.length).inScope = inFunction pc before above := by
    rw [leave_inScope, hfits above List.suffix_rfl]
  rw [scopedSearch_other_eq offdie variableType varName h, hscope, scopedVariable]
  cases inFunction pc before above with
  | false => rfl
  | true => rfl

/-- What has become of a search that follows the scope, once it has been through some DIEs. -/
def Scoped (pc : DbgAddr) (found? : Option FoundVariable) (before : List (Die × List Die))
    (above : List Die) : Bool × VarattrSearchFindings → Prop :=
  Searched VarattrSearchFindings.found? found? (Fits pc before above)

theorem scopedSearch_step {before : List (Die × List Die)} {die : Die} {above : List Die}
    {s : VarattrSearchFindings} (hfits : Fits pc before above s) :
    Scoped pc (scopedVariable offdie variableType pc varName (before, die, above))
      (before ++ [(die, above)]) (die :: above)
      (visitUntil (scopedSearch offdie variableType pc varName) [(die, above)] s) := by
  cases h : sdHasTag die .subprogram with
  | true =>
      obtain ⟨t, hrun, ht⟩ := scopedSearch_subprogram offdie variableType varName hfits h
      have hnone : scopedVariable offdie variableType pc varName (before, die, above) = none := by
        rw [scopedVariable, foundVariable_subprogram h, ite_self]
      rw [visitUntil_cons_false hrun, hnone]
      exact ⟨rfl, ht⟩
  | false =>
      have hrun := scopedSearch_other offdie variableType varName hfits h
      have hfunction : isFunction die = false := by
        rw [isFunction, h, Bool.false_and]
      cases hfound : scopedVariable offdie variableType pc varName (before, die, above) with
      | some found =>
          rw [hfound] at hrun
          rw [visitUntil_cons_true hrun]
          exact ⟨rfl, rfl⟩
      | none =>
          rw [hfound] at hrun
          rw [visitUntil_cons_false hrun]
          exact ⟨rfl, hfits.leave hfunction⟩

/-! ### All DIEs -/

theorem scopedSearch_forest (f : Forest Die) {before : List (Die × List Die)} {above : List Die}
    {s : VarattrSearchFindings} (hfits : Fits pc before above s) :
    Scoped pc
      ((withBefore before (f.preorder above)).findSome?
        (scopedVariable offdie variableType pc varName))
      (before ++ f.preorder above) above
      (visitUntil (scopedSearch offdie variableType pc varName) (f.preorder above) s) := by
  induction f generalizing before above s with
  | nil =>
      rw [Forest.preorder, List.append_nil]
      exact ⟨rfl, hfits⟩
  | cons die children rest ihc ihr =>
      have hsplit : (Forest.cons die children rest).preorder above =
          [(die, above)] ++ (children.preorder (die :: above) ++ rest.preorder above) := rfl
      rw [hsplit, withBefore_append, withBefore_append, List.findSome?_append,
        List.findSome?_append, ← List.append_assoc, ← List.append_assoc]
      rw [show (withBefore before [(die, above)]).findSome?
          (scopedVariable offdie variableType pc varName) =
          scopedVariable offdie variableType pc varName (before, die, above) from
        List.findSome?_singleton]
      exact (scopedSearch_step hfits).append fun t ht => (ihc ht).append fun u hu => ihr hu.up

variable (offdie variableType pc varName) in
theorem scopedSearch_trees (ts : List (RoseTree Die)) (before : List (Die × List Die))
    (s : VarattrSearchFindings) :
    Scoped pc
      ((withBefore before (RoseTree.preorder ts)).findSome?
        (scopedVariable offdie variableType pc varName))
      (before ++ RoseTree.preorder ts) []
      (visitUntil (scopedSearch offdie variableType pc varName) (RoseTree.preorder ts) s) := by
  induction ts generalizing before s with
  | nil => exact ⟨rfl, .root _ _⟩
  | cons t ts ih =>
      have hsplit : RoseTree.preorder (t :: ts) =
          t.forest.preorder [] ++ RoseTree.preorder ts := rfl
      rw [hsplit, withBefore_append, List.findSome?_append, ← List.append_assoc]
      exact (scopedSearch_forest t.forest (.root before s)).append fun u _ => ih _ u

variable (offdie variableType pc varName) in
/-- The search that ignores the scope ends at the first variable of the name. -/
theorem unscopedSearch (dies : List (Die × List Die)) (s : VarattrSearchFindings) :
    Searched VarattrSearchFindings.found?
      (dies.findSome? fun p => foundVariable offdie variableType varName p.1) (fun _ => True)
      (visitUntil (visitDie (callbackFindRuntimeVariable offdie variableType ⟨pc, false, varName⟩))
        dies s) := by
  induction dies with
  | nil => exact ⟨rfl, trivial⟩
  | cons p dies ih =>
      have hvisit : visitDie (callbackFindRuntimeVariable offdie variableType ⟨pc, false, varName⟩)
          p s =
          match foundVariable offdie variableType varName p.1 with
          | some found => (true, { s with found? := some found })
          | none => (false, s) := rfl
      rw [List.findSome?_cons]
      cases hfound : foundVariable offdie variableType varName p.1 with
      | some found =>
          rw [hfound] at hvisit
          rw [visitUntil_cons_true hvisit]
          exact ⟨rfl, rfl⟩
      | none =>
          rw [hfound] at hvisit
          rw [visitUntil_cons_false hvisit]
          exact ih

/-- **The lookup finds the first variable of the name in a function at the PC, or else the
first of the name anywhere.** -/
theorem sdRuntimeVariable_eq (info types : List (RoseTree Die)) :
    sdRuntimeVariable offdie variableType pc varName (.ofTrees info types) =
      (((withBefore [] (RoseTree.preorder (info ++ types))).findSome?
          (scopedVariable offdie variableType pc varName)).or
        ((RoseTree.preorder (info ++ types)).findSome? fun p =>
          foundVariable offdie variableType varName p.1), .ofTrees info types) := by
  have hscoped := scopedSearch_trees offdie variableType pc varName (info ++ types) []
    ⟨false, 0, none⟩
  unfold sdRuntimeVariable
  dsimp only
  rw [sdSearchDwarfDbg_eq, ← scopedSearch]
  generalize (withBefore [] (RoseTree.preorder (info ++ types))).findSome?
    (scopedVariable offdie variableType pc varName) = first? at hscoped ⊢
  cases hrun : visitUntil (scopedSearch offdie variableType pc varName)
      (RoseTree.preorder (info ++ types)) ⟨false, 0, none⟩ with
  | mk accepted s =>
      rw [hrun] at hscoped
      cases first? with
      | some found =>
          obtain ⟨rfl, hfound⟩ := hscoped
          dsimp only [Dlv.ofFound]
          rw [if_pos rfl]
          exact congrArg (·, DwarfDebug.ofTrees info types) hfound
      | none =>
          obtain ⟨rfl, _⟩ := hscoped
          have hall := unscopedSearch offdie variableType pc varName
            (RoseTree.preorder (info ++ types)) s
          dsimp only [Dlv.ofFound]
          rw [if_neg Bool.false_ne_true]
          dsimp only
          rw [sdSearchDwarfDbg_eq, Option.none_or]
          generalize ((RoseTree.preorder (info ++ types)).findSome? fun p =>
            foundVariable offdie variableType varName p.1) = any? at hall ⊢
          cases hrun : visitUntil (visitDie (callbackFindRuntimeVariable offdie variableType
              ⟨pc, false, varName⟩)) (RoseTree.preorder (info ++ types)) s with
          | mk accepted t =>
              rw [hrun] at hall
              cases any? with
              | some found =>
                  obtain ⟨rfl, hfound⟩ := hall
                  dsimp only [Dlv.ofFound]
                  rw [if_pos rfl]
                  exact congrArg (·, DwarfDebug.ofTrees info types) hfound
              | none =>
                  obtain ⟨rfl, _⟩ := hall
                  rfl

/-! ### Functions that are not nested -/

/-- No function is inside of another subprogram. -/
def NoNestedFunction (ts : List (RoseTree Die)) : Prop :=
  ∀ p ∈ RoseTree.preorder ts, isFunction p.1 = true → ∀ a ∈ p.2, sdHasTag a .subprogram = false

/-- One of these DIEs is a subprogram at the PC, by the program's own measure. -/
def insideFunction (pc : DbgAddr) (above : List Die) : Bool :=
  above.any fun a => sdHasTag a .subprogram && a.touches pc.value

/-- The scope is active exactly inside of the functions at the PC. -/
def TracksScope (pc : DbgAddr) (above : List Die) (s : VarattrSearchFindings) : Prop :=
  ∀ outer, outer <:+ above → s.activeAt outer.length = insideFunction pc outer

theorem insideFunction_false {above : List Die} (h : ∀ a ∈ above, sdHasTag a .subprogram = false) :
    insideFunction pc above = false := by
  rw [insideFunction, List.any_eq_false]
  intro a ha
  simp [h a ha]

/-- Only a function can be at the PC. -/
theorem insideFunction_cons {die : Die} {above : List Die} (h : isFunction die = false) :
    insideFunction pc (die :: above) = insideFunction pc above := by
  rw [insideFunction, List.any_cons]
  cases htag : sdHasTag die .subprogram with
  | false => rfl
  | true =>
      have hnot : die.touches pc.value = false :=
        decide_eq_false (sdCheckPcInDie_not_function htag h pc.value true)
      rw [hnot]
      rfl

theorem TracksScope.root (s : VarattrSearchFindings) : TracksScope pc [] s := by
  intro outer houter
  obtain rfl := List.suffix_nil.mp houter
  simp [VarattrSearchFindings.activeAt, insideFunction]

theorem TracksScope.up {die : Die} {above : List Die} {s : VarattrSearchFindings}
    (h : TracksScope pc (die :: above) s) : TracksScope pc above s :=
  fun outer houter => h outer (houter.trans (List.suffix_cons die above))

theorem TracksScope.leave {die : Die} {above : List Die} {s : VarattrSearchFindings}
    (htracks : TracksScope pc above s) (h : isFunction die = false) :
    TracksScope pc (die :: above) (s.leave above.length) := by
  intro outer houter
  rcases List.suffix_cons_iff.mp houter with rfl | houter
  · rw [List.length_cons, leave_activeAt_below, insideFunction_cons h]
    exact htracks above List.suffix_rfl
  · rw [leave_activeAt s houter.length_le]
    exact htracks outer houter

theorem TracksScope.function {die : Die} {above : List Die} (s : VarattrSearchFindings)
    (h : sdHasTag die .subprogram = true) (habove : ∀ a ∈ above, sdHasTag a .subprogram = false)
    (hscope : s.inScope = die.touches pc.value)
    (hlevel : s.inScope = true → s.scopeLevel = above.length) :
    TracksScope pc (die :: above) s := by
  intro outer houter
  rw [VarattrSearchFindings.activeAt]
  rcases List.suffix_cons_iff.mp houter with rfl | houter
  · rw [insideFunction, List.any_cons, h, Bool.true_and, ← hscope,
      show above.any _ = false from insideFunction_false habove, Bool.or_false]
    cases hin : s.inScope with
    | false => rfl
    | true => simp [hlevel hin]
  · rw [insideFunction_false fun a ha => habove a (houter.subset ha)]
    cases hin : s.inScope with
    | false => rfl
    | true =>
        have hle := houter.length_le
        simp [hlevel hin, hle]

/-- What one DIE does to the scope. -/
theorem TracksScope.step {die : Die} {above : List Die}
    (habove : isFunction die = true → ∀ a ∈ above, sdHasTag a .subprogram = false) :
    Forest.VisitKeeps (scopedSearch offdie variableType pc varName) (TracksScope pc)
      (die, above) := by
  intro s t htracks hvisit
  cases htag : sdHasTag die .subprogram with
  | true =>
      rw [scopedSearch_subprogram_eq offdie variableType varName htag] at hvisit
      cases hfunction : isFunction die with
      | true =>
          rw [sdCheckPcInDie_function hfunction] at hvisit
          cases htouches : die.touches pc.value with
          | true =>
              rw [htouches] at hvisit
              cases hvisit
              exact .function _ htag (habove hfunction) htouches.symm fun _ => rfl
          | false =>
              rw [htouches] at hvisit
              cases hvisit
              exact .function _ htag (habove hfunction) htouches.symm nofun
      | false =>
          have hnot := sdCheckPcInDie_not_function htag hfunction pc.value
          split at hvisit
          · rename_i hcheck
            exact absurd hcheck (hnot true)
          · rename_i hcheck
            exact absurd hcheck (hnot false)
          · cases hvisit
            exact htracks.leave hfunction
  | false =>
      have hfunction : isFunction die = false := by
        rw [isFunction, htag, Bool.false_and]
      rw [scopedSearch_other_eq offdie variableType varName htag] at hvisit
      split at hvisit
      · split at hvisit
        · cases hvisit
        · cases hvisit
          exact htracks.leave hfunction
      · cases hvisit
        exact htracks.leave hfunction

theorem scopedSearch_inScope {die : Die} (h : sdHasTag die .subprogram = false)
    (above : List Die) (s : VarattrSearchFindings) :
    (scopedSearch offdie variableType pc varName (die, above) s).2.inScope =
      s.activeAt above.length := by
  rw [scopedSearch_other_eq offdie variableType varName h, ← leave_inScope]
  cases hin : (s.leave above.length).inScope with
  | false => exact hin
  | true =>
      rw [if_pos rfl]
      cases foundVariable offdie variableType varName die with
      | some found => exact hin
      | none => exact hin

/-- **Where functions are not nested, a DIE that the search comes to is in scope exactly if a
DIE above it is a subprogram at the PC.** -/
theorem inScope_iff_inside {ts : List (RoseTree Die)} (hnested : NoNestedFunction ts)
    {before after : List (Die × List Die)} {die : Die} {above : List Die}
    (hsplit : RoseTree.preorder ts = before ++ (die, above) :: after)
    {t : VarattrSearchFindings}
    (hpassed : Passed (visitDie
      (callbackFindRuntimeVariable offdie variableType ⟨pc, true, varName⟩)) before
      { inScope := false, scopeLevel := 0, found? := none } t)
    (hdie : sdHasTag die .subprogram = false) :
    (callbackFindRuntimeVariable offdie variableType ⟨pc, true, varName⟩ die
        above.length t).2.inScope = true ↔
      ∃ a ∈ above, sdHasTag a .subprogram = true ∧ sdCheckPcInDie a pc.value = .ok true := by
  have htracks : TracksScope pc above t :=
    RoseTree.walk TracksScope.up ts (fun p hp => TracksScope.step (hnested p hp)) (.root _) hsplit
      hpassed
  have hscope : (callbackFindRuntimeVariable offdie variableType ⟨pc, true, varName⟩ die
      above.length t).2.inScope = t.activeAt above.length := scopedSearch_inScope hdie above t
  rw [hscope, htracks above List.suffix_rfl, insideFunction, List.any_eq_true]
  simp [Die.touches]

/-- A function with a variable, and one behind them both. -/
def functionDie : Die where
  offset := 1
  tag := .ok .subprogram
  lowPc := .ok 0x1000
  highPc := .ok ⟨0x10, false⟩

def functionUnits : List (RoseTree Die) :=
  [{ root := { offset := 0, tag := .ok .compileUnit }
     children := .cons functionDie (.cons { offset := 2, tag := .ok .variable } .nil .nil)
       (.cons { offset := 3, tag := .ok .variable } .nil .nil) }]

/-- The first variable is in scope there. -/
theorem inScope_functionUnits :
    (callbackFindRuntimeVariable (fun _ _ => .noEntry) (fun _ => none) ⟨⟨0x1004⟩, true, "x"⟩
      { offset := 2, tag := .ok .variable } 2
      { inScope := true, scopeLevel := 1, found? := none }).2.inScope = true ↔
    ∃ a ∈ [functionDie, { offset := 0, tag := .ok .compileUnit }],
      sdHasTag a .subprogram = true ∧ sdCheckPcInDie a 0x1004 = .ok true := by
  have hnested : NoNestedFunction functionUnits := by
    unfold NoNestedFunction
    decide
  have hsplit : RoseTree.preorder functionUnits =
      [({ offset := 0, tag := .ok .compileUnit }, []),
        (functionDie, [{ offset := 0, tag := .ok .compileUnit }])] ++
      ({ offset := 2, tag := .ok .variable },
        [functionDie, { offset := 0, tag := .ok .compileUnit }]) ::
      [({ offset := 3, tag := .ok .variable }, [{ offset := 0, tag := .ok .compileUnit }])] := rfl
  exact inScope_iff_inside hnested hsplit (.cons rfl (.cons rfl (.nil _))) rfl

end Spray
