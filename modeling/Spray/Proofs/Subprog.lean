/-
Looking up the function at a PC by its name.

From the PC the program goes to the first ELF symbol whose range holds it, end included,
from there to the symbol's name, and from the name to the first subprogram DIE that has
what is asked for.  That is the DIE the PC is in exactly if the symbol has its name and no
other of the same name comes first.
-/
import Spray.Dwarf.Subprog
import Spray.Proofs.Ranges
import Spray.Proofs.Search

namespace Spray

/-- The DIE's frame base, in a form that can be evaluated. -/
def Die.usableFrameBase (die : Die) : Option DwarfAttribute :=
  (dwarfAttr die .frameBase).toOption.bind sdInitLocAttr

/-- What a subprogram of the given name gives. -/
def ofSubprog {β : Type} (name : String) (give : Die → Option β) (die : Die) : Option β :=
  if sdIsSubprogWithName die name then give die else none

variable {info types : List (RoseTree Die)} {elf : ElfFile} {pc : DbgAddr}

theorem callbackFindSubprogPcRange_eq (fnName : String) :
    callbackFindSubprogPcRangeBySubprogName fnName = pickDie (ofSubprog fnName Die.pcRange) := by
  funext die level found
  unfold callbackFindSubprogPcRangeBySubprogName pickDie pickFirst ofSubprog Die.pcRange
  cases sdIsSubprogWithName die fnName with
  | false => rfl
  | true =>
      cases sdGetHighAndLowPc die with
      | ok range => rfl
      | noEntry => rfl
      | error => rfl

theorem callbackFindSubprogLocAttr_eq (subprogName : String) :
    callbackFindSubprogLocAttrBySubprogName subprogName .frameBase =
      pickDie (ofSubprog subprogName Die.usableFrameBase) := by
  funext die level found
  unfold callbackFindSubprogLocAttrBySubprogName pickDie pickFirst ofSubprog Die.usableFrameBase
  cases sdIsSubprogWithName die subprogName with
  | false => rfl
  | true =>
      cases dwarfAttr die .frameBase with
      | noEntry => rfl
      | error => rfl
      | ok attr =>
          simp only [if_true, Dlv.toOption, Option.bind_some]
          cases sdInitLocAttr attr with
          | none => rfl
          | some locAttr => rfl

theorem sdGetSubprogPcRange_eq (fnName : String) :
    sdGetSubprogPcRange fnName (.ofTrees info types) =
      ((documentOrder info types).findSome? (ofSubprog fnName Die.pcRange),
        .ofTrees info types) := by
  unfold sdGetSubprogPcRange
  rw [callbackFindSubprogPcRange_eq, sdSearchDwarfDbg_pickDie]
  cases (documentOrder info types).findSome? (ofSubprog fnName Die.pcRange) with
  | none => rfl
  | some range => rfl

theorem sdGetSubprogLocAttr_eq (subprogName : String) :
    sdGetSubprogLocAttr subprogName .frameBase (.ofTrees info types) =
      ((documentOrder info types).findSome? (ofSubprog subprogName Die.usableFrameBase),
        .ofTrees info types) := by
  unfold sdGetSubprogLocAttr
  rw [callbackFindSubprogLocAttr_eq, sdSearchDwarfDbg_pickDie]
  cases (documentOrder info types).findSome? (ofSubprog subprogName Die.usableFrameBase) with
  | none => rfl
  | some attr => rfl

theorem usableFrameBase_die {die : Die} {attr : DwarfAttribute}
    (h : die.usableFrameBase = some attr) : attr.die = die.offset := by
  unfold Die.usableFrameBase at h
  obtain ⟨base, hread, hinit⟩ := Option.bind_eq_some_iff.mp h
  rw [sdInitLocAttr_eq hinit]
  cases hbase : dwarfAttr die .frameBase with
  | ok base' =>
      rw [hbase] at hread
      obtain rfl := Option.some.inj hread
      exact dwarfAttr_die hbase
  | noEntry => rw [hbase] at hread; cases hread
  | error => rw [hbase] at hread; cases hread

/-! ### The containing subprogram -/

/-- `die` is the one subprogram whose range holds the PC, between the other DIEs. -/
structure SoleSubprog (info types : List (RoseTree Die)) (pc : DbgAddr) (before : List Die)
    (die : Die) (after : List Die) : Prop where
  order : documentOrder info types = before ++ die :: after
  subprog : sdHasTag die .subprogram = true
  covers : die.covers pc.value = true
  sole : ∀ e ∈ documentOrder info types, sdHasTag e .subprogram = true →
    e.covers pc.value = true → e = die
  offsets : ((documentOrder info types).map Die.offset).Nodup

/-- Both the PC range to step over and the frame base are those of `die`. -/
def Supplies (info types : List (RoseTree Die)) (elf : ElfFile) (pc : DbgAddr) (die : Die) : Prop :=
  stepOverPcRange elf pc (.ofTrees info types) = die.pcRange ∧
    fbregFrameBase elf pc (.ofTrees info types) = die.usableFrameBase

/-- The symbol at the PC has the name of `die`, and no other subprogram of that name gets
ahead of it. -/
def FoundByName (elf : ElfFile) (pc : DbgAddr) (before : List Die) (die : Die)
    (after : List Die) : Prop :=
  ∃ sym, seSymbolFromAddr pc elf = some sym ∧ sdIsSubprogWithName die sym.name = true ∧
    (∀ e ∈ before, sdIsSubprogWithName e sym.name = true →
      e.pcRange = none ∧ e.usableFrameBase = none) ∧
    (die.usableFrameBase = none → ∀ e ∈ after, sdIsSubprogWithName e sym.name = true →
      e.usableFrameBase = none)

variable {before after : List Die} {die : Die}

theorem subprog_of_name {e : Die} {name : String} (h : sdIsSubprogWithName e name = true) :
    sdHasTag e .subprogram = true := by
  unfold sdIsSubprogWithName at h
  unfold sdHasTag
  split at h
  · rename_i htag
    rw [htag]
    exact decide_eq_true rfl
  · cases h

theorem ofSubprog_some {β : Type} {name : String} {give : Die → Option β} {e : Die} {b : β}
    (h : ofSubprog name give e = some b) :
    sdIsSubprogWithName e name = true ∧ give e = some b := by
  unfold ofSubprog at h
  split at h
  · rename_i hname
    exact ⟨hname, h⟩
  · cases h

theorem ofSubprog_none {β : Type} {name : String} {give : Die → Option β} {e : Die} :
    ofSubprog name give e = none ↔ (sdIsSubprogWithName e name = true → give e = none) := by
  unfold ofSubprog
  cases sdIsSubprogWithName e name with
  | false => exact ⟨fun _ h => absurd h Bool.false_ne_true, fun _ => rfl⟩
  | true => exact ⟨fun h _ => h, fun h => h rfl⟩

theorem SoleSubprog.offset_ne (h : SoleSubprog info types pc before die after) {e : Die}
    (he : e ∈ before) : e.offset ≠ die.offset := offset_ne_of_before h.order h.offsets he

theorem SoleSubprog.pcRange (h : SoleSubprog info types pc before die after) :
    ∃ range, die.pcRange = some range := by
  have hcovers := h.covers
  unfold Die.covers at hcovers
  unfold Die.pcRange
  cases hread : sdGetHighAndLowPc die with
  | ok range => exact ⟨range, rfl⟩
  | noEntry => rw [hread] at hcovers; cases hcovers
  | error => rw [hread] at hcovers; cases hcovers

/-- No other subprogram has the same range. -/
theorem SoleSubprog.eq_of_range (h : SoleSubprog info types pc before die after) {e : Die}
    {name : String} (he : e ∈ documentOrder info types)
    (hname : sdIsSubprogWithName e name = true) (hsame : e.pcRange = die.pcRange) : e = die :=
  h.sole e he (subprog_of_name hname) (covers_of_pcRange h.covers hsame)

theorem SoleSubprog.range_unique (h : SoleSubprog info types pc before die after)
    {name : String} {range : Word × Word} (hrange : die.pcRange = some range) :
    ∀ e ∈ before, ofSubprog name Die.pcRange e ≠ some range := by
  intro e he hsome
  obtain ⟨hname, hsame⟩ := ofSubprog_some hsome
  have hmem : e ∈ documentOrder info types := by
    rw [h.order]
    exact List.mem_append_left _ he
  exact h.offset_ne he (by rw [h.eq_of_range hmem hname (hsame.trans hrange.symm)])

theorem SoleSubprog.frameBase_unique (h : SoleSubprog info types pc before die after)
    {name : String} {attr : DwarfAttribute} (hattr : die.usableFrameBase = some attr) :
    ∀ e ∈ before, ofSubprog name Die.usableFrameBase e ≠ some attr := by
  intro e he hsome
  have hsame := usableFrameBase_die (ofSubprog_some hsome).2
  rw [usableFrameBase_die hattr] at hsame
  exact h.offset_ne he hsame.symm

/-- The range is that of `die` if the name is, and nothing ahead of it has a range. -/
theorem SoleSubprog.range_supplied (h : SoleSubprog info types pc before die after)
    (name : String) :
    (documentOrder info types).findSome? (ofSubprog name Die.pcRange) = die.pcRange ↔
      sdIsSubprogWithName die name = true ∧
        ∀ e ∈ before, sdIsSubprogWithName e name = true → e.pcRange = none := by
  obtain ⟨range, hrange⟩ := h.pcRange
  rw [hrange]
  constructor
  · intro hfound
    have hname : sdIsSubprogWithName die name = true := by
      obtain ⟨e, he, hsome⟩ := List.exists_of_findSome?_eq_some hfound
      obtain ⟨hname, hsame⟩ := ofSubprog_some hsome
      rw [← h.eq_of_range he hname (hsame.trans hrange.symm)]
      exact hname
    have hgive : ofSubprog name Die.pcRange die = some range := by
      rw [ofSubprog, if_pos hname, hrange]
    rw [h.order, findSome?_eq_iff_of_unique hgive (h.range_unique hrange)] at hfound
    exact ⟨hname, fun e he => ofSubprog_none.mp (hfound e he)⟩
  · intro ⟨hname, hfirst⟩
    have hgive : ofSubprog name Die.pcRange die = some range := by
      rw [ofSubprog, if_pos hname, hrange]
    rw [h.order, findSome?_eq_iff_of_unique hgive (h.range_unique hrange)]
    exact fun e he => ofSubprog_none.mpr (hfirst e he)

/-- So is the frame base, where there is one; otherwise nothing of that name has one. -/
theorem SoleSubprog.frameBase_supplied (h : SoleSubprog info types pc before die after)
    {name : String} (hname : sdIsSubprogWithName die name = true) :
    (documentOrder info types).findSome? (ofSubprog name Die.usableFrameBase) =
        die.usableFrameBase ↔
      (∀ e ∈ before, sdIsSubprogWithName e name = true → e.usableFrameBase = none) ∧
        (die.usableFrameBase = none →
          ∀ e ∈ after, sdIsSubprogWithName e name = true → e.usableFrameBase = none) := by
  cases hattr : die.usableFrameBase with
  | some attr =>
      have hgive : ofSubprog name Die.usableFrameBase die = some attr := by
        rw [ofSubprog, if_pos hname, hattr]
      rw [h.order, findSome?_eq_iff_of_unique hgive (h.frameBase_unique hattr)]
      constructor
      · intro hall
        exact ⟨fun e he => ofSubprog_none.mp (hall e he),
          fun hc => absurd hc (Option.some_ne_none attr)⟩
      · intro hall e he
        exact ofSubprog_none.mpr (hall.1 e he)
  | none =>
      rw [List.findSome?_eq_none_iff, h.order]
      constructor
      · intro hall
        refine ⟨fun e he => ?_, fun _ e he => ?_⟩
        · exact ofSubprog_none.mp (hall e (List.mem_append_left _ he))
        · exact ofSubprog_none.mp (hall e (List.mem_append_right _ (List.mem_cons_of_mem _ he)))
      · intro ⟨hbefore, hafter⟩ e he
        rcases List.mem_append.mp he with he | he
        · exact ofSubprog_none.mpr (hbefore e he)
        · rcases List.mem_cons.mp he with rfl | he
          · exact ofSubprog_none.mpr fun _ => hattr
          · exact ofSubprog_none.mpr (hafter rfl e he)

/-- **The function found by name is the one at the PC exactly if the symbol at the PC has
its name and no other subprogram of that name gets ahead of it.** -/
theorem supplies_iff_foundByName (h : SoleSubprog info types pc before die after)
    (elf : ElfFile) : Supplies info types elf pc die ↔ FoundByName elf pc before die after := by
  obtain ⟨range, hrange⟩ := h.pcRange
  unfold Supplies FoundByName stepOverPcRange fbregFrameBase
  cases hsym : seSymbolFromAddr pc elf with
  | none =>
      rw [hrange]
      constructor
      · intro ⟨hc, _⟩
        cases hc
      · intro ⟨sym, hc, _⟩
        cases hc
  | some sym =>
      dsimp only
      rw [sdGetSubprogPcRange_eq, sdGetSubprogLocAttr_eq, h.range_supplied]
      constructor
      · intro ⟨⟨hname, hranges⟩, hbase⟩
        rw [h.frameBase_supplied hname] at hbase
        exact ⟨sym, rfl, hname, fun e he hn => ⟨hranges e he hn, hbase.1 e he hn⟩, hbase.2⟩
      · intro ⟨sym', hsame, hname, hbefore, hafter⟩
        obtain rfl := Option.some.inj hsame
        refine ⟨⟨hname, fun e he hn => (hbefore e he hn).1⟩, ?_⟩
        exact (h.frameBase_supplied hname).mpr ⟨fun e he hn => (hbefore e he hn).2, hafter⟩

/-! ### Two units with a static function of the same name -/

/-- A function `helper`, with its locals relative to a register. -/
def helperDie (offset : Nat) (lowPc : Word) : Die :=
  { offset, tag := .ok .subprogram, name := .ok "helper", lowPc := .ok lowPc,
    highPc := .ok ⟨0x10, false⟩, frameBase := .ok (.ok .EXPRLOC) }

/-- A unit that consists of one function. -/
def helperUnit (offset : Nat) (lowPc : Word) : RoseTree Die where
  root := { offset, tag := .ok .compileUnit, lowPc := .ok lowPc, highPc := .ok ⟨0x10, false⟩ }
  children := .cons (helperDie (offset + 1) lowPc) .nil .nil

def helperUnits : List (RoseTree Die) := [helperUnit 0 0x1000, helperUnit 2 0x2000]

def helperElf : ElfFile where
  type := .EXEC
  symtab := [⟨"helper", 0x1000, 0x10, .STT_FUNC⟩, ⟨"helper", 0x2000, 0x10, .STT_FUNC⟩]

theorem helper_first : SoleSubprog helperUnits [] ⟨0x1004⟩ [(helperUnit 0 0x1000).root]
    (helperDie 1 0x1000) [(helperUnit 2 0x2000).root, helperDie 3 0x2000] where
  order := rfl
  subprog := rfl
  covers := by decide
  sole := by decide
  offsets := by decide

theorem helper_second : SoleSubprog helperUnits [] ⟨0x2004⟩
    [(helperUnit 0 0x1000).root, helperDie 1 0x1000, (helperUnit 2 0x2000).root]
    (helperDie 3 0x2000) [] where
  order := rfl
  subprog := rfl
  covers := by decide
  sole := by decide
  offsets := by decide

/-- The first of the two functions is found. -/
theorem supplies_helper_first :
    Supplies helperUnits [] helperElf ⟨0x1004⟩ (helperDie 1 0x1000) :=
  (supplies_iff_foundByName helper_first helperElf).mpr
    ⟨⟨"helper", 0x1000, 0x10, .STT_FUNC⟩, by decide, by decide, by decide, by decide⟩

/-- In the second one, stepping over a line goes through the range of the first. -/
theorem supplies_fails_helper_second :
    SoleSubprog helperUnits [] ⟨0x2004⟩
      [(helperUnit 0 0x1000).root, helperDie 1 0x1000, (helperUnit 2 0x2000).root]
      (helperDie 3 0x2000) [] ∧
    ¬ Supplies helperUnits [] helperElf ⟨0x2004⟩ (helperDie 3 0x2000) := by
  refine ⟨helper_second, fun h => ?_⟩
  have hrange := h.1
  unfold stepOverPcRange at hrange
  have hsym : seSymbolFromAddr ⟨0x2004⟩ helperElf =
      some ⟨"helper", 0x2000, 0x10, .STT_FUNC⟩ := by decide
  rw [hsym] at hrange
  dsimp only at hrange
  rw [sdGetSubprogPcRange_eq] at hrange
  exact absurd hrange (by decide)

end Spray
