/-
Searching the DIEs of an executable (`src/spray_dwarf.c`).

libdwarf hands out DIEs one at a time: the compilation unit's own from the cursor over the
unit headers, then the first child and the next sibling of a DIE one has.  `Nav` is what
such a call finds, and everything that can be reached from there.  The search is written
for DIEs of any type.
-/
import Spray.Lib.Forest
import Spray.Magic

namespace Spray

/-- The result of a libdwarf call, `DW_DLV_*`, with what it stores when it succeeds. -/
inductive Dlv (α : Type)
  | ok (a : α)
  | noEntry
  | error
  deriving DecidableEq, Repr

/-- What a call that navigates to a DIE finds. -/
inductive Nav (D : Type)
  | noEntry
  | error
  | ok (die : D) (child sibling : Nav D)

/-- What there is where a unit header is expected. -/
inductive CompUnit (D : Type)
  | corrupt
  /-- A unit, and what `dwarf_siblingof_b` finds for it when it is given no DIE. -/
  | header (cuDie : Nav D)

/-- `Dwarf_Debug`: the units of both sections, and how many of them the cursor still has
to go through. -/
structure DwarfDebug (D : Type) where
  info : List (CompUnit D)
  types : List (CompUnit D)
  infoLeft : List (CompUnit D)
  typesLeft : List (CompUnit D)

variable {D σ : Type}

/-- `dwarf_next_cu_header_d`, and the CU DIE of the unit it goes on to.  After the last unit
the cursor is back at the first. -/
def dwarfNextCuHeader (isInfo : Bool) (dbg : DwarfDebug D) : Dlv (Nav D) × DwarfDebug D :=
  if isInfo then
    match dbg.infoLeft with
    | [] => (.noEntry, { dbg with infoLeft := dbg.info })
    | .corrupt :: _ => (.error, dbg)
    | .header cuDie :: rest => (.ok cuDie, { dbg with infoLeft := rest })
  else
    match dbg.typesLeft with
    | [] => (.noEntry, { dbg with typesLeft := dbg.types })
    | .corrupt :: _ => (.error, dbg)
    | .header cuDie :: rest => (.ok cuDie, { dbg with typesLeft := rest })

/-- A callback is given the DIE, its level in the DIE tree and its findings so far.  It
returns true to end the search. -/
abbrev SearchCallback (D σ : Type) := D → (level : Nat) → σ → Bool × σ

/-- Search a DIE, its children, and then its siblings in the same way. -/
def sdSearchDwarfDie (callback : SearchCallback D σ) (level : Nat) : Nav D → σ → Dlv Unit × σ
  -- The level is empty.
  | .noEntry, s => (.noEntry, s)
  | .error, s => (.error, s)
  | .ok die child sibling, s =>
    match callback die level s with
    | (true, s) => (.ok (), s)
    | (false, s) =>
      match sdSearchDwarfDie callback (level + 1) child s with
      | (.ok _, s) => (.ok (), s)
      | (.error, s) => (.error, s)
      | (.noEntry, s) => sdSearchDwarfDie callback level sibling s

/-- How many unit headers are left in the section that is being read. -/
def DwarfDebug.left (isInfo : Bool) (dbg : DwarfDebug D) : Nat :=
  if isInfo then dbg.infoLeft.length else dbg.typesLeft.length

theorem left_of_header {isInfo : Bool} {dbg dbg' : DwarfDebug D} {cuDie : Nav D}
    (h : dwarfNextCuHeader isInfo dbg = (.ok cuDie, dbg')) :
    dbg'.left isInfo < dbg.left isInfo := by
  unfold dwarfNextCuHeader at h
  unfold DwarfDebug.left
  cases isInfo with
  | true =>
      simp only [if_true] at h ⊢
      split at h
      · cases h
      · cases h
      · rename_i heq
        cases h
        rw [heq]
        exact Nat.lt_succ_self _
  | false =>
      simp only [Bool.false_eq_true, if_false] at h ⊢
      split at h
      · cases h
      · cases h
      · rename_i heq
        cases h
        rw [heq]
        exact Nat.lt_succ_self _

/-- What the loop of `sdSearchDwarfDbg` does with a unit: return a result code, or go on
to the next header, with the search finished or not. -/
def searchUnit (callback : SearchCallback D σ) (searchFinished : Bool) (cuDie : Nav D) (s : σ) :
    Except (Dlv Unit) Bool × σ :=
  -- All headers must be gone through, so that the next search starts at the first.
  if searchFinished then (.ok true, s)
  else
    match cuDie with
    | .error => (.error .error, s)
    | .noEntry => (.error .noEntry, s)
    | .ok die child sibling =>
      match sdSearchDwarfDie callback 0 (.ok die child sibling) s with
      | (.error, s) => (.error .error, s)
      | (.ok _, s) => (.ok true, s)
      | (.noEntry, s) => (.ok false, s)

/-- The loop of `sdSearchDwarfDbg` over the unit headers. -/
def searchUnits (callback : SearchCallback D σ) (isInfo searchFinished : Bool)
    (dbg : DwarfDebug D) (s : σ) : Dlv Unit × DwarfDebug D × σ :=
  match _h : dwarfNextCuHeader isInfo dbg with
  | (.error, dbg') => (.error, dbg', s)
  | (.noEntry, dbg') =>
    if _hinfo : isInfo = true then
      -- Nothing left in `.debug_info`.  Continue with `.debug_types`.
      searchUnits callback false searchFinished dbg' s
    else (if searchFinished then .ok () else .noEntry, dbg', s)
  | (.ok cuDie, dbg') =>
    match searchUnit callback searchFinished cuDie s with
    | (.error code, s) => (code, dbg', s)
    | (.ok searchFinished, s) => searchUnits callback isInfo searchFinished dbg' s
termination_by (isInfo.toNat, dbg.left isInfo)
decreasing_by
  · subst _hinfo
    exact Prod.Lex.left _ _ (by decide)
  · exact Prod.Lex.right _ (left_of_header _h)

/-- Call `callback` for each DIE, until it returns true. -/
def sdSearchDwarfDbg (callback : SearchCallback D σ) (dbg : DwarfDebug D) (findings : σ) :
    Dlv Unit × DwarfDebug D × σ := searchUnits callback true false dbg findings

end Spray
