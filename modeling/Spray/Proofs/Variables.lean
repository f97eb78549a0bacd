/-
Looking up a variable by its name.

C's rule is about ranges: a variable is in scope where its block, the blocks around it and
its function hold the PC, and the innermost one hides the others.  The lookup goes by
document order.
-/
import Spray.Proofs.Scoping

namespace Spray

/-! ### The rule -/

/-- A variable or parameter of the given name. -/
def Die.isNamed (die : Die) (varName : String) : Bool :=
  (sdHasTag die .variable || sdHasTag die .formalParameter) && die.name = .ok varName

def isScope (die : Die) : Bool := sdHasTag die .subprogram || sdHasTag die .lexicalBlock

/-- All blocks around a DIE, up to its function, hold the PC, and so does the function. -/
def inScope (pc : Word) : List Die → Bool
  | [] => false
  | die :: above =>
    if sdHasTag die .subprogram then die.covers pc
    else if sdHasTag die .lexicalBlock then die.covers pc && inScope pc above
    else inScope pc above

/-- No block or function is around a DIE. -/
def fileScope (above : List Die) : Bool := above.all fun die => !isScope die

/-- The scope a DIE is in, with what is around that. -/
def scopeOf (above : List Die) : List Die := above.dropWhile fun die => !isScope die

/-- One DIE's scope is inside of another's. -/
def Inside (inner outer : List Die) : Prop :=
  scopeOf outer <:+ scopeOf inner ∧ scopeOf outer ≠ scopeOf inner

instance (inner outer : List Die) : Decidable (Inside inner outer) :=
  inferInstanceAs (Decidable (_ ∧ _))

/-- A variable in scope that none in an inner scope hides. -/
def Innermost (pc : DbgAddr) (varName : String) (dies : List (Die × List Die))
    (p : Die × List Die) : Prop :=
  inScope pc.value p.2 = true ∧ ∀ q ∈ dies, q.1.isNamed varName = true →
    inScope pc.value q.2 = true → ¬ Inside q.2 p.2

/-- A variable at file scope that none in scope hides. -/
def Global (pc : DbgAddr) (varName : String) (dies : List (Die × List Die))
    (p : Die × List Die) : Prop :=
  fileScope p.2 = true ∧ ∀ q ∈ dies, q.1.isNamed varName = true → inScope pc.value q.2 = false

def Closest (pc : DbgAddr) (varName : String) (dies : List (Die × List Die))
    (p : Die × List Die) : Prop :=
  p.1.isNamed varName = true ∧ (Innermost pc varName dies p ∨ Global pc varName dies p)

/-- What is found for a name is what the closest variable gives.  Nothing is found if there
is neither one in scope nor one at file scope. -/
def FollowsScoping (give : Die → Option FoundVariable) (pc : DbgAddr) (varName : String)
    (dies : List (Die × List Die)) : Option FoundVariable → Prop
  | some found => ∃ p ∈ dies, Closest pc varName dies p ∧ give p.1 = some found
  | none => ∀ p ∈ dies, p.1.isNamed varName = true →
      inScope pc.value p.2 = false ∧ fileScope p.2 = false

instance (pc : DbgAddr) (varName : String) (dies : List (Die × List Die)) (p : Die × List Die) :
    Decidable (Closest pc varName dies p) :=
  inferInstanceAs (Decidable (_ ∧ ((_ ∧ ∀ q ∈ dies, _ → _ → ¬ _) ∨ (_ ∧ ∀ q ∈ dies, _ → _))))

instance (give : Die → Option FoundVariable) (pc : DbgAddr) (varName : String)
    (dies : List (Die × List Die)) (found? : Option FoundVariable) :
    Decidable (FollowsScoping give pc varName dies found?) :=
  match found? with
  | some found =>
    inferInstanceAs (Decidable (∃ p ∈ dies, Closest pc varName dies p ∧ give p.1 = some found))
  | none => inferInstanceAs (Decidable (∀ p ∈ dies, _ → _ ∧ _))

/-! ### The order -/

/-- The first variable of the name in a function at the PC. -/
def firstLocal (pc : DbgAddr) (varName : String) (dies : List (Die × List Die)) :
    Option (Die × List Die) :=
  ((withBefore [] dies).find? fun p => p.2.1.isNamed varName && inFunction pc p.1 p.2.2).map
    Prod.snd

/-- The first variable of the name. -/
def firstNamed (varName : String) (dies : List (Die × List Die)) : Option (Die × List Die) :=
  dies.find? fun p => p.1.isNamed varName

/-- Document order goes along with the scopes: the first variable of the name in a function
at the PC is innermost; where there is none, the first of the name is closest. -/
def ClosestFirst (pc : DbgAddr) (varName : String) (dies : List (Die × List Die)) : Prop :=
  match firstLocal pc varName dies with
  | some p => Innermost pc varName dies p
  | none => ∀ p, firstNamed varName dies = some p → Closest pc varName dies p

/-- All variables of the name have a type and a location there is a representation for. -/
structure Representable (offdie : Nat → Bool → Dlv Die) (fuel : Nat) (varName : String)
    (dies : List (Die × List Die)) : Prop where
  typed : ∀ p ∈ dies, p.1.isNamed varName = true →
    ∃ type, sdVariableType offdie fuel p.1 = some (some type)
  located : ∀ p ∈ dies, p.1.isNamed varName = true →
    ∃ attr loc, dwarfAttr p.1 .location = .ok attr ∧ sdInitLocAttr attr = some loc
  offsets : ∀ p ∈ dies, ∀ q ∈ dies, p.1.isNamed varName = true → q.1.isNamed varName = true →
    p.1.offset = q.1.offset → p = q

/-- There is a representation for the type and the location of a variable. -/
structure Die.IsRepresentable (offdie : Nat → Bool → Dlv Die) (fuel : Nat) (die : Die) :
    Prop where
  typed : ∃ type, sdVariableType offdie fuel die = some (some type)
  located : ∃ attr loc, dwarfAttr die .location = .ok attr ∧ sdInitLocAttr attr = some loc

/-- The type of a variable, if it is built within `fuel` steps. -/
def typeWithin (offdie : Nat → Bool → Dlv Die) (fuel : Nat) (die : Die) : Option SdType :=
  (sdVariableType offdie fuel die).join

/-- What the DIE of a variable gives. -/
abbrev variableOf (offdie : Nat → Bool → Dlv Die) (fuel : Nat) (varName : String) :
    Die → Option FoundVariable := foundVariable offdie (typeWithin offdie fuel) varName

variable {offdie : Nat → Bool → Dlv Die} {fuel : Nat} {pc : DbgAddr} {varName : String}
  {dies : List (Die × List Die)} {p : Die × List Die}

/-! ### What is found -/

/-- All that has to be there for a DIE to give a variable. -/
theorem of_variableOf {die : Die} {found : FoundVariable}
    (h : variableOf offdie fuel varName die = some found) :
    die.isNamed varName = true ∧ typeWithin offdie fuel die = some found.attr.type ∧
      dwarfAttr die .location = .ok found.attr.loc ∧
      sdInitLocAttr found.attr.loc = some found.attr.loc := by
  unfold variableOf foundVariable at h
  dsimp only at h
  split at h
  · rename_i htag
    split at h
    · rename_i name hname
      split at h
      · rename_i heq
        split at h
        · cases h
        · rename_i type htype
          split at h
          · rename_i attr hattr
            split at h
            · rename_i loc hloc
              obtain rfl := Option.some.inj h
              obtain rfl := sdInitLocAttr_eq hloc
              refine ⟨?_, htype, hattr, hloc⟩
              rw [Die.isNamed, hname, heq, (Bool.and_eq_true_iff.mp htag).1]
              simp
            · cases h
          · cases h
      · cases h
    · cases h
  · cases h

theorem named_of_variableOf {die : Die} {found : FoundVariable}
    (h : variableOf offdie fuel varName die = some found) :
    die.isNamed varName = true ∧ found.attr.loc.die = die.offset :=
  ⟨(of_variableOf h).1, dwarfAttr_die (of_variableOf h).2.2.1⟩

theorem sdHasAt_of_dwarfAttr {die : Die} {attr : DwarfAttribute}
    (h : dwarfAttr die .location = .ok attr) : sdHasAt die .location = true := by
  unfold dwarfAttr at h
  unfold sdHasAt
  cases hlocation : die.location with
  | noEntry => rw [hlocation] at h; cases h
  | _ => rfl

/-- A DIE gives a variable exactly if it is one of the name and can be represented. -/
theorem variableOf_isSome_iff {die : Die} : (variableOf offdie fuel varName die).isSome = true ↔
    die.isNamed varName = true ∧ die.IsRepresentable offdie fuel := by
  constructor
  · intro h
    obtain ⟨found, hfound⟩ := Option.isSome_iff_exists.mp h
    obtain ⟨hnamed, htype, hattr, hloc⟩ := of_variableOf hfound
    exact ⟨hnamed, ⟨_, Option.join_eq_some_iff.mp htype⟩, _, _, hattr, hloc⟩
  · rintro ⟨hnamed, ⟨type, htype⟩, attr, loc, hattr, hloc⟩
    obtain ⟨htag, hname⟩ := Bool.and_eq_true_iff.mp hnamed
    have hjoin : typeWithin offdie fuel die = some type := by
      rw [typeWithin, htype]
      rfl
    unfold variableOf foundVariable
    simp only [htag, sdHasAt_of_dwarfAttr hattr, of_decide_eq_true hname, hjoin, hattr, hloc,
      Bool.and_true, if_true]
    rfl

theorem variableOf_isSome (h : Representable offdie fuel varName dies) (hp : p ∈ dies) :
    (variableOf offdie fuel varName p.1).isSome = p.1.isNamed varName := by
  rw [Bool.eq_iff_iff, variableOf_isSome_iff]
  exact ⟨fun hgive => hgive.1, fun hnamed => ⟨hnamed, h.typed p hp hnamed, h.located p hp hnamed⟩⟩

/-- The variable of the name that comes first, by the rule of the program. -/
def chosen (pc : DbgAddr) (varName : String) (dies : List (Die × List Die)) :
    Option (Die × List Die) := (firstLocal pc varName dies).or (firstNamed varName dies)

theorem of_find_local {q : List (Die × List Die) × Die × List Die}
    (h : (withBefore [] dies).find?
      (fun p => p.2.1.isNamed varName && inFunction pc p.1 p.2.2) = some q) :
    q.2 ∈ dies ∧ q.2.1.isNamed varName = true ∧ inFunction pc q.1 q.2.2 = true := by
  have hkind := List.find?_some h
  exact ⟨mem_of_mem_withBefore (List.mem_of_find?_eq_some h), Bool.and_eq_true_iff.mp hkind⟩

theorem scopedVariable_first (h : Representable offdie fuel varName dies) :
    (withBefore [] dies).findSome? (scopedVariable offdie (typeWithin offdie fuel) pc varName) =
      (firstLocal pc varName dies).bind fun p => variableOf offdie fuel varName p.1 := by
  have hkind : ∀ p ∈ withBefore [] dies,
      (scopedVariable offdie (typeWithin offdie fuel) pc varName p).isSome =
        (p.2.1.isNamed varName && inFunction pc p.1 p.2.2) := by
    intro p hp
    rw [← variableOf_isSome h (mem_of_mem_withBefore hp), scopedVariable]
    cases inFunction pc p.1 p.2.2 with
    | true => rw [Bool.and_true]; rfl
    | false => rw [Bool.and_false]; rfl
  rw [findSome?_eq_bind_find? hkind, firstLocal]
  cases hfind : (withBefore [] dies).find? fun p =>
      p.2.1.isNamed varName && inFunction pc p.1 p.2.2 with
  | none => rfl
  | some p => exact if_pos (of_find_local hfind).2.2

theorem sdRuntimeVariable_chosen {info types : List (RoseTree Die)}
    (h : Representable offdie fuel varName (RoseTree.preorder (info ++ types))) :
    (sdRuntimeVariable offdie (typeWithin offdie fuel) pc varName (.ofTrees info types)).1 =
      (chosen pc varName (RoseTree.preorder (info ++ types))).bind
        fun p => variableOf offdie fuel varName p.1 := by
  have hnamed := findSome?_eq_bind_find? fun p hp => variableOf_isSome h hp
  rw [sdRuntimeVariable_eq, scopedVariable_first h, hnamed, ← firstNamed, chosen]
  cases hlocal : firstLocal pc varName (RoseTree.preorder (info ++ types)) with
  | none => rfl
  | some p =>
      have hsome : (variableOf offdie fuel varName p.1).isSome = true := by
        obtain ⟨q, hq, rfl⟩ := Option.map_eq_some_iff.mp hlocal
        rw [variableOf_isSome h (of_find_local hq).1]
        exact (of_find_local hq).2.1
      obtain ⟨found, hfound⟩ := Option.isSome_iff_exists.mp hsome
      rw [Option.bind_some, Option.some_or, Option.bind_some, hfound, Option.some_or]

/-! ### The closest one -/

theorem chosen_named (h : chosen pc varName dies = some p) :
    p ∈ dies ∧ p.1.isNamed varName = true := by
  unfold chosen at h
  cases hlocal : firstLocal pc varName dies with
  | some q =>
      rw [hlocal, Option.some_or] at h
      obtain rfl := Option.some.inj h
      obtain ⟨r, hr, rfl⟩ := Option.map_eq_some_iff.mp hlocal
      exact ⟨(of_find_local hr).1, (of_find_local hr).2.1⟩
  | none =>
      rw [hlocal, Option.none_or] at h
      have hnamed := List.find?_some h
      exact ⟨List.mem_of_find?_eq_some h, hnamed⟩

theorem not_named_of_chosen_none (h : chosen pc varName dies = none) :
    ∀ p ∈ dies, p.1.isNamed varName = false := by
  intro p hp
  have hnone := (Option.or_eq_none_iff.mp h).2
  exact Bool.eq_false_iff.mpr (List.find?_eq_none.mp hnone p hp)

theorem not_fileScope_of_inFunction {before : List (Die × List Die)} {above : List Die}
    (h : inFunction pc before above = true) : fileScope above = false := by
  unfold inFunction at h
  split at h
  · rename_i function hlast
    obtain ⟨_, hsuffix⟩ := Bool.and_eq_true_iff.mp h
    have hmem := (List.isSuffixOf_iff_suffix.mp hsuffix).subset List.mem_cons_self
    have hfunction := (List.mem_filter.mp (List.mem_of_getLast? hlast)).2
    have hscope : isScope function.1 = true := by
      rw [isScope, (Bool.and_eq_true_iff.mp hfunction).1, Bool.true_or]
    rw [fileScope, List.all_eq_false]
    refine ⟨function.1, hmem, ?_⟩
    rw [hscope]
    exact Bool.false_ne_true
  · cases h

theorem closestFirst_iff_chosen :
    ClosestFirst pc varName dies ↔
      ∀ p, chosen pc varName dies = some p → Closest pc varName dies p := by
  unfold ClosestFirst chosen
  cases hlocal : firstLocal pc varName dies with
  | none => rfl
  | some p =>
      obtain ⟨q, hq, rfl⟩ := Option.map_eq_some_iff.mp hlocal
      obtain ⟨_, hnamed, hfunction⟩ := of_find_local hq
      dsimp only
      rw [Option.some_or]
      constructor
      · intro hinner p hp
        obtain rfl := Option.some.inj hp
        exact ⟨hnamed, Or.inl hinner⟩
      · intro hall
        rcases (hall q.2 rfl).2 with hinner | hglobal
        · exact hinner
        · have hlocalScope := not_fileScope_of_inFunction hfunction
          rw [hglobal.1] at hlocalScope
          cases hlocalScope

instance : Decidable (ClosestFirst pc varName dies) :=
  decidable_of_iff (∀ p ∈ chosen pc varName dies, Closest pc varName dies p)
    closestFirst_iff_chosen.symm

/-- **The variable found is the closest one, by C's rule, exactly if document order goes
along with the scopes.** -/
theorem followsScoping_iff_closestFirst {info types : List (RoseTree Die)}
    (h : Representable offdie fuel varName (RoseTree.preorder (info ++ types))) :
    FollowsScoping (variableOf offdie fuel varName) pc varName (RoseTree.preorder (info ++ types))
        (sdRuntimeVariable offdie (typeWithin offdie fuel) pc varName (.ofTrees info types)).1 ↔
      ClosestFirst pc varName (RoseTree.preorder (info ++ types)) := by
  rw [sdRuntimeVariable_chosen h, closestFirst_iff_chosen]
  cases hchosen : chosen pc varName (RoseTree.preorder (info ++ types)) with
  | none =>
      constructor
      · intro _ p hp
        cases hp
      · intro _ p hp hnamed
        rw [not_named_of_chosen_none hchosen p hp] at hnamed
        cases hnamed
  | some p =>
      obtain ⟨hp, hnamed⟩ := chosen_named hchosen
      obtain ⟨found, hfound⟩ := Option.isSome_iff_exists.mp
        ((variableOf_isSome h hp).trans hnamed)
      rw [Option.bind_some, hfound]
      constructor
      · intro ⟨q, hq, hclosest, hgive⟩ r hr
        obtain rfl := Option.some.inj hr
        have hsame : q.1.offset = p.1.offset :=
          (named_of_variableOf hgive).2.symm.trans (named_of_variableOf hfound).2
        rw [← h.offsets q hq p hp hclosest.1 hnamed hsame]
        exact hclosest
      · intro hall
        exact ⟨p, hp, hall p rfl, hfound⟩

/-! ### A block that shadows a variable of its function -/

def intDie : Die where
  offset := 5
  tag := .ok .baseType
  name := .ok "int"
  byteSize := .ok 4

/-- `int x`, with a location relative to the frame base. -/
def xDie (offset : Nat) : Die :=
  { offset, tag := .ok .variable, name := .ok "x", type := .ok ⟨5, true⟩,
    location := .ok (.ok .EXPRLOC) }

/-- DIEs that hold some range. -/
def rangeDie (offset : Nat) (tag : DwTag) (lowPc length : Word) : Die :=
  { offset, tag := .ok tag, lowPc := .ok lowPc, highPc := .ok ⟨length, false⟩ }

/-- A function with a variable `x`, and a block in it with a variable `x` of its own. -/
def shadowing : List (RoseTree Die) :=
  [{ root := rangeDie 0 .compileUnit 0x1000 0x40
     children := .cons (rangeDie 1 .subprogram 0x1000 0x40)
       (.cons (xDie 2) .nil
         (.cons (rangeDie 3 .lexicalBlock 0x1010 0x10) (.cons (xDie 4) .nil .nil) .nil))
       (.cons intDie .nil .nil) }]

def intOffdie (offset : Nat) (_ : Bool) : Dlv Die := if offset = 5 then .ok intDie else .noEntry

theorem shadowing_representable :
    Representable intOffdie 1 "x" (RoseTree.preorder (shadowing ++ [])) where
  typed := by
    have htyped : ∀ p ∈ RoseTree.preorder (shadowing ++ []), p.1.isNamed "x" = true →
        (sdVariableType intOffdie 1 p.1).join.isSome = true := by decide
    intro p hp hnamed
    obtain ⟨type, htype⟩ := Option.isSome_iff_exists.mp (htyped p hp hnamed)
    exact ⟨type, Option.join_eq_some_iff.mp htype⟩
  located := by
    intro p hp hnamed
    have hlocated : ∀ p ∈ RoseTree.preorder (shadowing ++ []), p.1.isNamed "x" = true →
        p.1.location = .ok (.ok .EXPRLOC) := by decide
    refine ⟨⟨p.1.offset, .location, .ok .EXPRLOC⟩, _, ?_, rfl⟩
    rw [dwarfAttr, hlocated p hp hnamed]
    rfl
  offsets := by decide

/-- In front of the block, the function's variable is found, as it should be. -/
theorem followsScoping_before_block :
    FollowsScoping (variableOf intOffdie 1 "x") ⟨0x1004⟩ "x" (RoseTree.preorder (shadowing ++ []))
      (sdRuntimeVariable intOffdie (typeWithin intOffdie 1) ⟨0x1004⟩ "x"
        (.ofTrees shadowing [])).1 :=
  (followsScoping_iff_closestFirst shadowing_representable).mpr (by decide)

/-- In the block as well, although the block's own variable hides it there. -/
theorem followsScoping_fails_in_block :
    Representable intOffdie 1 "x" (RoseTree.preorder (shadowing ++ [])) ∧
      ¬ FollowsScoping (variableOf intOffdie 1 "x") ⟨0x1014⟩ "x"
        (RoseTree.preorder (shadowing ++ []))
        (sdRuntimeVariable intOffdie (typeWithin intOffdie 1) ⟨0x1014⟩ "x"
          (.ofTrees shadowing [])).1 := by
  refine ⟨shadowing_representable, ?_⟩
  rw [sdRuntimeVariable_chosen shadowing_representable]
  decide

end Spray
