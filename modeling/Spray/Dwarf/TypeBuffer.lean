/-
The buffer a type is built in (`src/spray_dwarf.c`).

`sdBuildType` adds to a list.  The C code allocates a node in a buffer, which it makes larger
when it is about to be full, and fills that node in once it knows what it is for.  A buffer
`Holds` the list of its nodes in use.
-/
import Spray.Dwarf.Variable

namespace Spray

/-- How many nodes a buffer starts with, and grows by. -/
def typeAlloc : Nat := 32

/-- `struct SdType`.  A node that has not been written yet is `none`. -/
structure TypeBuffer where
  nodes : List (Option SdTypenode)
  /-- First `nNodes` nodes in use. -/
  nNodes : Nat
  /-- Maximum number of nodes. -/
  nAlloc : Nat
  sized : nodes.length = nAlloc
  /-- There is always a node left. -/
  room : nNodes < nAlloc

def allocType : TypeBuffer where
  nodes := List.replicate typeAlloc none
  nNodes := 0
  nAlloc := typeAlloc
  sized := List.length_replicate
  room := by decide

/-- Allocate a new node in `type`, increasing the buffer size if required. -/
def allocNode (type : TypeBuffer) : TypeBuffer × Nat :=
  if h : type.nNodes + 1 ≥ type.nAlloc then
    ({ nodes := type.nodes ++ List.replicate typeAlloc none
       nNodes := type.nNodes + 1
       nAlloc := type.nAlloc + typeAlloc
       sized := by rw [List.length_append, List.length_replicate, type.sized]
       room := by have := type.room; unfold typeAlloc; omega }, type.nNodes)
  else ({ type with nNodes := type.nNodes + 1, room := by omega }, type.nNodes)

/-- Write to an allocated node. -/
def TypeBuffer.setNode (type : TypeBuffer) (node : Nat) (value : SdTypenode) : TypeBuffer :=
  { type with
    nodes := type.nodes.set node (some value)
    sized := by rw [List.length_set, type.sized] }

section Libdwarf

variable (offdie : (offset : Nat) → (isInfo : Bool) → Dlv Die)

/-- `sd_build_type`.  On error, `type` may still have changed. -/
def sdBuildTypeBuffer : (fuel : Nat) → (prevDie : Die) → (prevTag : Option DwTag) → TypeBuffer →
    Option (SprayResult × TypeBuffer)
  | 0, _, _, _ => none
  | fuel + 1, prevDie, prevTag, type =>
    if !sdHasAt prevDie .type then
      some (if prevTag = some .pointerType then .ok else .err, type)
    else
      let (type, node) := allocNode type
      match sdTypeDie offdie prevDie with
      | none => some (.err, type)
      | some nextDie =>
        match nextDie.tag with
        | .ok .baseType =>
          match sdBuildBaseType nextDie with
          | some baseType => some (.ok, type.setNode node (.baseType baseType))
          | none => some (.err, type)
        | .ok .pointerType =>
          sdBuildTypeBuffer fuel nextDie (some .pointerType)
            (type.setNode node (.modifier .pointer))
        | .ok .atomicType =>
          sdBuildTypeBuffer fuel nextDie (some .atomicType) (type.setNode node (.modifier .atomic))
        | .ok .constType =>
          sdBuildTypeBuffer fuel nextDie (some .constType) (type.setNode node (.modifier .const))
        | .ok .restrictType =>
          sdBuildTypeBuffer fuel nextDie (some .restrictType)
            (type.setNode node (.modifier .restrict))
        | .ok .volatileType =>
          sdBuildTypeBuffer fuel nextDie (some .volatileType)
            (type.setNode node (.modifier .volatile))
        | .ok .typedef => sdBuildTypeBuffer fuel nextDie none (type.setNode node .typedef)
        | _ => some (.err, type)

/-- `sd_variable_type`.  Without an attribute, no buffer is allocated. -/
def sdVariableTypeBuffer (fuel : Nat) (die : Die) : Option (SprayResult × Option TypeBuffer) :=
  if !sdHasAt die .type then some (.err, none)
  else (sdBuildTypeBuffer offdie fuel die none allocType).map fun (res, type) => (res, some type)

/-! ### What a buffer holds -/

/-- The nodes in use have been written, and are these. -/
def TypeBuffer.Holds (type : TypeBuffer) (nodes : SdType) : Prop :=
  type.nodes.take type.nNodes = nodes.map some

theorem holds_allocType : allocType.Holds [] := rfl

/-- Allocating a node and writing to it adds it to the list, whether the buffer grows or not. -/
theorem TypeBuffer.Holds.push {type : TypeBuffer} {nodes : SdType} (h : type.Holds nodes)
    (value : SdTypenode) :
    ((allocNode type).1.setNode (allocNode type).2 value).Holds (nodes ++ [value]) := by
  have hroom := type.room
  have hsized := type.sized
  have hset : ∀ cells : List (Option SdTypenode), type.nNodes < cells.length →
      cells.take type.nNodes = nodes.map some →
      (cells.set type.nNodes (some value)).take (type.nNodes + 1) =
        (nodes ++ [value]).map some := by
    intro cells hlt hcells
    rw [List.take_add_one, List.take_set_of_le (Nat.le_refl _), hcells,
      List.getElem?_set_self hlt, List.map_append]
    rfl
  unfold TypeBuffer.Holds allocNode at *
  split
  · refine hset _ ?_ ?_
    · rw [List.length_append]
      omega
    · rw [List.take_append_of_le_length (by omega)]
      exact h
  · exact hset type.nodes (by omega) h

end Libdwarf

end Spray
