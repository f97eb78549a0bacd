/-
Types of any length.

A C type is a chain of entries: modifiers and typedefs, and at the end a base type or,
for `void`, nothing.  The buffer a type is built in holds the chain's nodes whatever its
length.  What decides is how the chain ends, and for `void` what is right above.  References that
lead back to where they have been before are followed for ever.
-/
import Mathlib.Data.FinEnum
import Mathlib.Data.Fintype.Prod
import Spray.Dwarf.TypeBuffer
import Spray.Lib.Links

namespace Spray

variable {offdie : Nat → Bool → Dlv Die}

/-! ### The buffer -/

/-- What is built in a buffer is what is built as a list. -/
def BuiltAs (out : Option (SprayResult × TypeBuffer)) : Option (Option SdType) → Prop
  | none => out = none
  | some none => ∃ type, out = some (.err, type)
  | some (some nodes) => ∃ type, out = some (.ok, type) ∧ type.Holds nodes

theorem sdBuildTypeBuffer_builtAs (fuel : Nat) : ∀ (prevDie : Die) (prevTag : Option DwTag)
    (type : TypeBuffer) (nodes : SdType), type.Holds nodes →
      BuiltAs (sdBuildTypeBuffer offdie fuel prevDie prevTag type)
        (sdBuildType offdie fuel prevDie prevTag nodes) := by
  induction fuel with
  | zero => exact fun _ _ _ _ _ => rfl
  | succ fuel ih =>
      intro prevDie prevTag type nodes hholds
      unfold sdBuildTypeBuffer sdBuildType
      cases hat : sdHasAt prevDie .type with
      | false =>
          by_cases hpointer : prevTag = some .pointerType
          · simp only [hpointer, if_true, Bool.not_false]
            exact ⟨type, rfl, hholds⟩
          · simp only [hpointer, if_false, if_true, Bool.not_false]
            exact ⟨type, rfl⟩
      | true =>
          simp only [Bool.not_true, Bool.false_eq_true, if_false]
          cases sdTypeDie offdie prevDie with
          | none => exact ⟨_, rfl⟩
          | some nextDie =>
              dsimp only
              cases nextDie.tag with
              | ok tag =>
                  cases tag with
                  | baseType =>
                      dsimp only
                      cases sdBuildBaseType nextDie with
                      | none => exact ⟨_, rfl⟩
                      | some baseType => exact ⟨_, rfl, hholds.push _⟩
                  | pointerType | atomicType | constType | restrictType | volatileType | typedef =>
                      exact ih _ _ _ _ (hholds.push _)
                  | _ => exact ⟨_, rfl⟩
              | _ => exact ⟨_, rfl⟩

/-! ### Chains -/

/-- `DW_AT_type` of one entry refers to another. -/
def RefersTo (offdie : Nat → Bool → Dlv Die) (die next : Die) : Prop :=
  ∃ ref, die.type = .ok ref ∧ offdie ref.offset ref.isInfo = .ok next

/-- The node for an entry that refers to a further type. -/
def linkNode : DwTag → Option SdTypenode
  | .pointerType => some (.modifier .pointer)
  | .atomicType => some (.modifier .atomic)
  | .constType => some (.modifier .const)
  | .restrictType => some (.modifier .restrict)
  | .volatileType => some (.modifier .volatile)
  | .typedef => some .typedef
  | _ => none

/-- The entries from a DIE's `DW_AT_type` on, as the nodes they stand for. -/
inductive TypeChain (offdie : Nat → Bool → Dlv Die) : Die → SdType → Prop
  /-- `void`. -/
  | void {die : Die} (absent : die.type = .noEntry) : TypeChain offdie die []
  /-- A base type of a supported name and size. -/
  | base {die next : Die} {name : String} {tag : BaseTypeTag} {size : Nat}
      (refers : RefersTo offdie die next) (isBase : next.tag = .ok .baseType)
      (named : next.name = .ok name) (supported : baseTypeTag name = some tag)
      (sized : next.byteSize = .ok size) (small : size ≤ 0xff) :
      TypeChain offdie die [.baseType ⟨tag, BitVec.ofNat 8 size⟩]
  | link {die next : Die} {tag : DwTag} {node : SdTypenode} {nodes : SdType}
      (refers : RefersTo offdie die next) (isLink : next.tag = .ok tag)
      (recorded : linkNode tag = some node) (rest : TypeChain offdie next nodes) :
      TypeChain offdie die (node :: nodes)

/-- A chain may end with this node as the last one: a base type, or a pointer to `void`. -/
def endsType : Option SdTypenode → Bool
  | some (.baseType _) => true
  | some (.modifier .pointer) => true
  | _ => false

theorem sdHasAt_of_refersTo {die next : Die} (h : RefersTo offdie die next) :
    sdHasAt die .type = true := by
  obtain ⟨ref, href, -⟩ := h
  rw [sdHasAt, href]
  rfl

theorem sdTypeDie_of_refersTo {die next : Die} (h : RefersTo offdie die next) :
    sdTypeDie offdie die = some next := by
  obtain ⟨ref, href, hnext⟩ := h
  rw [sdTypeDie, href]
  dsimp only
  rw [hnext]
  rfl

theorem sdBuildBaseType_supported {die : Die} {name : String} {tag : BaseTypeTag} {size : Nat}
    (named : die.name = .ok name) (supported : baseTypeTag name = some tag)
    (sized : die.byteSize = .ok size) (small : size ≤ 0xff) :
    sdBuildBaseType die = some ⟨tag, BitVec.ofNat 8 size⟩ := by
  rw [sdBuildBaseType, named]
  dsimp only
  rw [supported, sized]
  exact if_neg (by omega)

/-- The tag that is passed along below an entry. -/
def passedTag : DwTag → Option DwTag
  | .typedef => none
  | tag => some tag

theorem endsType_link {tag : DwTag} {node : SdTypenode} (recorded : linkNode tag = some node) :
    endsType (some node) = decide (passedTag tag = some .pointerType) := by
  cases tag with
  | pointerType | atomicType | constType | restrictType | volatileType | typedef =>
      cases recorded
      rfl
  | _ => cases recorded

/-- One entry adds its node. -/
theorem sdBuildType_link {die next : Die} {tag : DwTag} {node : SdTypenode}
    (refers : RefersTo offdie die next) (isLink : next.tag = .ok tag)
    (recorded : linkNode tag = some node) (fuel : Nat) (prevTag : Option DwTag) (type : SdType) :
    sdBuildType offdie (fuel + 1) die prevTag type =
      sdBuildType offdie fuel next (passedTag tag) (type ++ [node]) := by
  rw [sdBuildType, sdHasAt_of_refersTo refers, sdTypeDie_of_refersTo refers]
  cases tag with
  | pointerType | atomicType | constType | restrictType | volatileType | typedef =>
      cases recorded
      simp only [isLink]
      rfl
  | _ => cases recorded

/-- The last node decides, or what is in front of the chain if it has none. -/
theorem sdBuildType_chain {die : Die} {nodes : SdType} (chain : TypeChain offdie die nodes) :
    ∀ {fuel : Nat} {prevTag : Option DwTag} {prev : Option SdTypenode} (type : SdType),
      nodes.length < fuel → endsType prev = decide (prevTag = some .pointerType) →
      sdBuildType offdie fuel die prevTag type =
        some (if endsType (nodes.getLast?.or prev) then some (type ++ nodes) else none) := by
  induction chain with
  | void absent =>
      intro fuel prevTag prev type hfuel hprev
      obtain ⟨fuel, rfl⟩ := Nat.exists_eq_add_one_of_ne_zero (Nat.ne_zero_of_lt hfuel)
      have hat : ∀ die : Die, die.type = .noEntry → sdHasAt die .type = false := by
        intro die h
        rw [sdHasAt, h]
        rfl
      rw [sdBuildType, hat _ absent, List.append_nil]
      simp [hprev]
  | base refers isBase named supported sized small =>
      intro fuel prevTag prev type hfuel hprev
      obtain ⟨fuel, rfl⟩ := Nat.exists_eq_add_one_of_ne_zero (Nat.ne_zero_of_lt hfuel)
      rw [sdBuildType, sdHasAt_of_refersTo refers, sdTypeDie_of_refersTo refers]
      simp only [isBase, sdBuildBaseType_supported named supported sized small]
      rfl
  | link refers isLink recorded rest ih =>
      intro fuel prevTag prev type hfuel hprev
      obtain ⟨fuel, rfl⟩ := Nat.exists_eq_add_one_of_ne_zero (Nat.ne_zero_of_lt hfuel)
      rename_i node nodes
      have hlast : (node :: nodes).getLast?.or prev = nodes.getLast?.or (some node) := by
        rw [List.getLast?_cons]
        cases nodes.getLast? with
        | none => rfl
        | some last => rfl
      rw [sdBuildType_link refers isLink recorded,
        ih _ (by simpa using hfuel) (endsType_link recorded), hlast, List.append_assoc]
      rfl

/-! ### A variable's type -/

/-- The type of a variable is recorded: with enough time, exactly the chain's nodes are in use,
in order. -/
def RecordsChain (offdie : Nat → Bool → Dlv Die) (die : Die) (nodes : SdType) : Prop :=
  ∃ n, ∀ fuel ≥ n, ∃ type, sdVariableTypeBuffer offdie fuel die = some (.ok, some type) ∧
    type.Holds nodes

theorem sdVariableTypeBuffer_chain {die : Die} {nodes : SdType}
    (chain : TypeChain offdie die nodes) {fuel : Nat} (hfuel : nodes.length < fuel) :
    if endsType nodes.getLast? then
      ∃ type, sdVariableTypeBuffer offdie fuel die = some (.ok, some type) ∧ type.Holds nodes
    else ∃ type, sdVariableTypeBuffer offdie fuel die = some (.err, type) := by
  have hbuilt : BuiltAs (sdBuildTypeBuffer offdie fuel die none allocType) _ :=
    sdBuildTypeBuffer_builtAs fuel die none _ [] holds_allocType
  rw [sdBuildType_chain chain [] hfuel (show endsType none = _ from rfl), Option.or_none] at hbuilt
  unfold sdVariableTypeBuffer
  cases hat : sdHasAt die .type with
  | false =>
      cases chain with
      | void absent => exact ⟨none, rfl⟩
      | base refers =>
          rw [sdHasAt_of_refersTo refers] at hat
          cases hat
      | link refers =>
          rw [sdHasAt_of_refersTo refers] at hat
          cases hat
  | true =>
      cases hends : endsType nodes.getLast? with
      | true =>
          rw [hends] at hbuilt
          obtain ⟨type, hrun, hholds⟩ := hbuilt
          exact ⟨type, by rw [hrun]; rfl, hholds⟩
      | false =>
          rw [hends] at hbuilt
          obtain ⟨type, hrun⟩ := hbuilt
          exact ⟨some type, by rw [hrun]; rfl⟩

/-- **A chain is recorded exactly if it ends in a base type, or right below a pointer.** -/
theorem recordsChain_iff {die : Die} {nodes : SdType} (chain : TypeChain offdie die nodes) :
    RecordsChain offdie die nodes ↔
      (∃ t, nodes.getLast? = some (.baseType t)) ∨
        nodes.getLast? = some (.modifier .pointer) := by
  have hends : endsType nodes.getLast? = true ↔ (∃ t, nodes.getLast? = some (.baseType t)) ∨
      nodes.getLast? = some (.modifier .pointer) := by
    cases nodes.getLast? with
    | none => simp [endsType]
    | some node =>
        cases node with
        | modifier m => cases m <;> simp [endsType]
        | _ => simp [endsType]
  rw [← hends]
  constructor
  · intro ⟨n, hn⟩
    have hlt : nodes.length < max n (nodes.length + 1) := by omega
    obtain ⟨type, hrun, -⟩ := hn _ (Nat.le_max_left ..)
    have hchain := sdVariableTypeBuffer_chain chain hlt
    by_contra hnot
    rw [if_neg hnot, hrun] at hchain
    obtain ⟨_, hchain⟩ := hchain
    cases hchain
  · intro h
    refine ⟨nodes.length + 1, fun fuel hfuel => ?_⟩
    have hchain := sdVariableTypeBuffer_chain chain (Nat.lt_of_succ_le hfuel)
    rwa [if_pos h] at hchain

/-! ### Pointers to constants -/

/-- Entries of a program: `const int *`, and `const void *`. -/
def constOffdie (offset : Nat) (_ : Bool) : Dlv Die :=
  if offset = 1 then .ok { offset := 1, tag := .ok .pointerType, type := .ok ⟨2, true⟩ }
  else if offset = 2 then .ok { offset := 2, tag := .ok .constType, type := .ok ⟨3, true⟩ }
  else if offset = 3 then
    .ok { offset := 3, tag := .ok .baseType, name := .ok "int", byteSize := .ok 4 }
  else if offset = 4 then .ok { offset := 4, tag := .ok .pointerType, type := .ok ⟨5, true⟩ }
  else if offset = 5 then .ok { offset := 5, tag := .ok .constType }
  else .noEntry

def pointerDie (type : Nat) : Die :=
  { offset := 0, tag := .ok .variable, name := .ok "p", type := .ok ⟨type, true⟩ }

theorem recordsChain_int : RecordsChain constOffdie (pointerDie 1)
    [.modifier .pointer, .modifier .const, .baseType ⟨.INT, 4⟩] :=
  (recordsChain_iff (.link ⟨_, rfl, rfl⟩ rfl rfl (.link ⟨_, rfl, rfl⟩ rfl rfl
    (.base ⟨_, rfl, rfl⟩ rfl rfl rfl rfl (by decide))))).mpr (.inl ⟨_, rfl⟩)

/-- The chain for `const void *` ends below a pointer, but not right below it. -/
theorem recordsChain_fails_void :
    TypeChain constOffdie (pointerDie 4) [.modifier .pointer, .modifier .const] ∧
      ¬ RecordsChain constOffdie (pointerDie 4) [.modifier .pointer, .modifier .const] := by
  have chain : TypeChain constOffdie (pointerDie 4) [.modifier .pointer, .modifier .const] :=
    .link ⟨_, rfl, rfl⟩ rfl rfl (.link ⟨_, rfl, rfl⟩ rfl rfl (.void rfl))
  refine ⟨chain, fun h => ?_⟩
  rcases (recordsChain_iff chain).mp h with ⟨t, ht⟩ | hlast
  · cases ht
  · cases hlast

/-! ### Chains that do not end -/

/-- An offset of 64 bits in `.debug_info`, or in `.debug_types`. -/
abbrev DieRef := Word × Bool

/-- What is at an offset of 64 bits. -/
def offdieAt (dies : DieRef → Dlv Die) (offset : Nat) (isInfo : Bool) : Dlv Die :=
  dies (BitVec.ofNat 64 offset, isInfo)

/-- Where the entry is that a DIE's type refers to. -/
def typeRef (die : Die) : Option DieRef :=
  match die.type with
  | .ok ref => some (BitVec.ofNat 64 ref.offset, ref.isInfo)
  | _ => none

/-- An entry for a type that refers to a further type. -/
def followedDie (dies : DieRef → Dlv Die) (ref : DieRef) : Option Die :=
  match dies ref with
  | .ok die =>
    match die.tag with
    | .ok tag => if (linkNode tag).isSome then some die else none
    | _ => none
  | _ => none

/-- From one reference to the next. -/
def nextRef (dies : DieRef → Dlv Die) (ref : DieRef) : Option DieRef :=
  (followedDie dies ref).bind typeRef

/-- Building a type comes to an end, with one result or the other. -/
def BuildEnds (dies : DieRef → Dlv Die) (prevDie : Die) (prevTag : Option DwTag)
    (type : TypeBuffer) : Prop :=
  ∃ fuel res type', sdBuildTypeBuffer (offdieAt dies) fuel prevDie prevTag type =
    some (res, type')

variable {dies : DieRef → Dlv Die}

theorem followedDie_eq_some {ref : DieRef} {next : Die} (h : followedDie dies ref = some next) :
    dies ref = .ok next ∧ ∃ tag node, next.tag = .ok tag ∧ linkNode tag = some node := by
  unfold followedDie at h
  split at h
  · rename_i die hdie
    split at h
    · rename_i tag htag
      split at h
      · rename_i hnode
        obtain ⟨node, hnode⟩ := Option.isSome_iff_exists.mp hnode
        obtain rfl := Option.some.inj h
        exact ⟨hdie, tag, node, htag, hnode⟩
      · cases h
    · cases h
  · cases h

/-- An entry that is followed is left for the next. -/
theorem sdBuildTypeBuffer_followed {die next : Die} {ref : DieRef} (href : typeRef die = some ref)
    (hnext : followedDie dies ref = some next) (fuel : Nat) (prevTag : Option DwTag)
    (type : TypeBuffer) : ∃ prevTag' type',
      sdBuildTypeBuffer (offdieAt dies) (fuel + 1) die prevTag type =
        sdBuildTypeBuffer (offdieAt dies) fuel next prevTag' type' := by
  obtain ⟨hdie, tag, node, htag, hnode⟩ := followedDie_eq_some hnext
  have hrefers : RefersTo (offdieAt dies) die next := by
    unfold typeRef at href
    split at href
    · rename_i typeRef htype
      obtain rfl := Option.some.inj href
      exact ⟨typeRef, htype, hdie⟩
    · cases href
  rw [sdBuildTypeBuffer, sdHasAt_of_refersTo hrefers, sdTypeDie_of_refersTo hrefers]
  cases tag with
  | pointerType | atomicType | constType | restrictType | volatileType | typedef =>
      simp only [htag]
      exact ⟨_, _, rfl⟩
  | _ => cases hnode

/-- At any other there is a result. -/
theorem sdBuildTypeBuffer_last {die : Die} (h : (typeRef die).bind (followedDie dies) = none)
    (fuel : Nat) (prevTag : Option DwTag) (type : TypeBuffer) : ∃ res type',
      sdBuildTypeBuffer (offdieAt dies) (fuel + 1) die prevTag type = some (res, type') := by
  have hread : ∀ next, sdTypeDie (offdieAt dies) die = some next →
      ∃ ref, typeRef die = some ref ∧ dies ref = .ok next := by
    intro next hnext
    unfold sdTypeDie at hnext
    split at hnext
    · rename_i ref htype
      refine ⟨(BitVec.ofNat 64 ref.offset, ref.isInfo), by rw [typeRef, htype], ?_⟩
      unfold Dlv.toOption at hnext
      split at hnext
      · rename_i hdie
        rw [← Option.some.inj hnext]
        exact hdie
      · cases hnext
    · cases hnext
  unfold sdBuildTypeBuffer
  cases sdHasAt die .type with
  | false => exact ⟨_, _, rfl⟩
  | true =>
      simp only [Bool.not_true, Bool.false_eq_true, if_false]
      cases hnext : sdTypeDie (offdieAt dies) die with
      | none => exact ⟨_, _, rfl⟩
      | some next =>
          obtain ⟨ref, href, hdie⟩ := hread next hnext
          rw [href, Option.bind_some, followedDie, hdie] at h
          dsimp only at h ⊢
          cases htag : next.tag with
          | ok tag =>
              rw [htag] at h
              cases tag with
              | baseType =>
                  dsimp only
                  cases sdBuildBaseType next with
                  | none => exact ⟨_, _, rfl⟩
                  | some baseType => exact ⟨_, _, rfl⟩
              | pointerType | atomicType | constType | restrictType | volatileType | typedef =>
                  cases h
              | _ => exact ⟨_, _, rfl⟩
          | _ => exact ⟨_, _, rfl⟩

/-- As many steps as there are references are enough. -/
theorem sdBuildTypeBuffer_of_follow (n : Nat) : ∀ {die : Die} {fuel : Nat}
    {prevTag : Option DwTag} {type : TypeBuffer},
      (typeRef die).bind (Links.follow (nextRef dies) n) = none → n < fuel →
      ∃ res type', sdBuildTypeBuffer (offdieAt dies) fuel die prevTag type =
        some (res, type') := by
  induction n with
  | zero =>
      intro die fuel prevTag type hend hfuel
      obtain ⟨fuel, rfl⟩ := Nat.exists_eq_add_one_of_ne_zero (Nat.ne_zero_of_lt hfuel)
      refine sdBuildTypeBuffer_last ?_ fuel prevTag type
      cases href : typeRef die with
      | none => rfl
      | some ref =>
          rw [href] at hend
          cases hend
  | succ n ih =>
      intro die fuel prevTag type hend hfuel
      obtain ⟨fuel, rfl⟩ := Nat.exists_eq_add_one_of_ne_zero (Nat.ne_zero_of_lt hfuel)
      cases hfollowed : (typeRef die).bind (followedDie dies) with
      | none => exact sdBuildTypeBuffer_last hfollowed fuel prevTag type
      | some next =>
          obtain ⟨ref, href, hnext⟩ := Option.bind_eq_some_iff.mp hfollowed
          obtain ⟨prevTag', type', hstep⟩ :=
            sdBuildTypeBuffer_followed href hnext fuel prevTag type
          rw [href, Option.bind_some, Links.follow, nextRef, hnext, Option.bind_some] at hend
          rw [hstep]
          exact ih hend (Nat.lt_of_succ_lt_succ hfuel)

/-- A result takes as many steps as there are references to follow. -/
theorem follow_of_sdBuildTypeBuffer (fuel : Nat) : ∀ {die : Die} {prevTag : Option DwTag}
    {type type' : TypeBuffer} {res : SprayResult},
      sdBuildTypeBuffer (offdieAt dies) fuel die prevTag type = some (res, type') →
      (typeRef die).bind (Links.follow (nextRef dies) fuel) = none := by
  induction fuel with
  | zero =>
      intro die prevTag type type' res hrun
      cases hrun
  | succ fuel ih =>
      intro die prevTag type type' res hrun
      cases href : typeRef die with
      | none => rfl
      | some ref =>
          rw [Option.bind_some, Links.follow, nextRef]
          cases hnext : followedDie dies ref with
          | none => rfl
          | some next =>
              obtain ⟨prevTag', type'', hstep⟩ :=
                sdBuildTypeBuffer_followed href hnext fuel prevTag type
              rw [hstep] at hrun
              rw [Option.bind_some]
              exact ih hrun

/-- **Building a type ends exactly if the references that are followed never come back to an
offset.** -/
theorem buildEnds_iff (prevDie : Die) (prevTag : Option DwTag) (type : TypeBuffer) :
    BuildEnds dies prevDie prevTag type ↔
      ∀ ref, typeRef prevDie = some ref → Links.NeverReturns (nextRef dies) ref := by
  constructor
  · rintro ⟨fuel, res, type', hrun⟩ ref href
    have hend := follow_of_sdBuildTypeBuffer fuel hrun
    rw [href] at hend
    exact Links.neverReturns_of_ends ⟨fuel, hend⟩
  · intro hnever
    obtain ⟨n, hend⟩ : ∃ n, (typeRef prevDie).bind (Links.follow (nextRef dies) n) = none := by
      cases href : typeRef prevDie with
      | none => exact ⟨0, rfl⟩
      | some ref => exact Links.ends_of_neverReturns (hnever ref href)
    exact ⟨n + 1, sdBuildTypeBuffer_of_follow n hend (Nat.lt_succ_self n)⟩

/-- A type that is defined as itself. -/
def circularDies (ref : DieRef) : Dlv Die :=
  if ref = (1, true) then .ok { offset := 1, tag := .ok .typedef, type := .ok ⟨1, true⟩ }
  else .noEntry

theorem not_buildEnds_circular : ¬ BuildEnds circularDies (pointerDie 1) none allocType := by
  rintro ⟨fuel, res, type', hrun⟩
  have hend := follow_of_sdBuildTypeBuffer fuel hrun
  have hloop : ∀ n, Links.follow (nextRef circularDies) n (1, true) = some (1, true) := by
    intro n
    induction n with
    | zero => rfl
    | succ n ih => exact ih
  exact nomatch (hloop fuel).symm.trans hend

end Spray
