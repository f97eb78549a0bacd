/-
Whose line table a PC is looked up in.

The path comes from the first DIE whose range holds the PC, end included, and the table
from the first unit that path leads to.
-/
import Spray.Dwarf.Lines
import Spray.Proofs.Ranges
import Spray.Proofs.Search

namespace Spray

variable {realpath : String → Realpath} {info types : List (RoseTree Die)} {pc : DbgAddr}

/-- Looking for the first path is looking for that of the second. -/
def Leads (realpath : String → Realpath) (filepath dieFilepath : String) : Prop :=
  match realpath filepath with
  | .path full => baseAndDirname dieFilepath = baseAndDirname full
  | .enoent => basename filepath = (baseAndDirname dieFilepath).1
  | .failed => baseAndDirname dieFilepath = (".", ".")

theorem sdIsDieFromFile_iff {die : Die} {filepath : String} :
    sdIsDieFromFile realpath die filepath = true ↔
      ∃ dieFilepath, sdGetFilepath die = some dieFilepath ∧
        Leads realpath filepath dieFilepath := by
  unfold sdIsDieFromFile
  cases hdie : sdGetFilepath die with
  | none =>
      constructor
      · intro h
        cases h
      · intro ⟨_, h, _⟩
        cases h
  | some dieFilepath =>
      have hsome : (∃ q, some dieFilepath = some q ∧ Leads realpath filepath q) ↔
          Leads realpath filepath dieFilepath := by
        constructor
        · intro ⟨q, hq, h⟩
          rw [Option.some.inj hq]
          exact h
        · exact fun h => ⟨dieFilepath, rfl, h⟩
      rw [hsome]
      unfold Leads
      cases realpath filepath with
      | path full => simp [Prod.ext_iff]
      | enoent => simp
      | failed => simp [Prod.ext_iff]

/-! ### The two searches -/

theorem callbackFindFilepathByPc_eq (pc : Word) :
    callbackFindFilepathByPc pc = stopAtDie (Die.touches · pc) sdGetFilepath := by
  funext die level filepath
  unfold callbackFindFilepathByPc stopAtDie stopAt Die.touches
  split
  · rename_i h
    exact (if_pos (decide_eq_true h)).symm
  · rename_i h
    exact (if_neg fun hc => h (of_decide_eq_true hc)).symm

theorem sdFilepathFromPc_eq :
    sdFilepathFromPc pc (.ofTrees info types) =
      (((documentOrder info types).find? (Die.touches · pc.value)).bind sdGetFilepath,
        .ofTrees info types) := by
  unfold sdFilepathFromPc
  rw [callbackFindFilepathByPc_eq, sdSearchDwarfDbg_stopAtDie]
  cases (documentOrder info types).find? (Die.touches · pc.value) with
  | none => rfl
  | some die => rfl

/-- The table of a unit from the given file. -/
def tableFromFile (realpath : String → Realpath) (filepath : String) (die : Die) :
    Option LineTable :=
  if sdHasTag die .compileUnit && sdIsDieFromFile realpath die filepath then srclines die
  else none

theorem callbackGetSrclines_eq (filepath : String) :
    callbackGetSrclines realpath filepath = pickDie (tableFromFile realpath filepath) := by
  funext die level lineTable
  unfold callbackGetSrclines pickDie pickFirst tableFromFile
  cases sdHasTag die .compileUnit with
  | false => rfl
  | true =>
      cases sdIsDieFromFile realpath die filepath with
      | false => rfl
      | true =>
          simp only [Bool.not_true, Bool.false_eq_true, if_false, Bool.and_self, if_true]
          cases srclines die with
          | none => rfl
          | some found => rfl

theorem sdGetLineTable_eq (filepath : String) :
    sdGetLineTable realpath filepath (.ofTrees info types) =
      ((documentOrder info types).findSome? (tableFromFile realpath filepath),
        .ofTrees info types) := by
  unfold sdGetLineTable
  rw [callbackGetSrclines_eq, sdSearchDwarfDbg_pickDie]
  cases (documentOrder info types).findSome? (tableFromFile realpath filepath) with
  | none => rfl
  | some table => rfl

/-! ### The owner of the table -/

theorem srclines_lineContext {die : Die} {table : LineTable} (h : srclines die = some table) :
    table.lineContext = die.offset := by
  unfold srclines at h
  split at h
  · cases h
  · split at h
    · obtain ⟨lines, -, rfl⟩ := Option.map_eq_some_iff.mp h
      rfl
    · cases h

/-- `unit` is the one unit whose range holds the PC, among units with paths and tables of
lines. -/
structure SoleUnit (info types : List (RoseTree Die)) (pc : DbgAddr) (before : List Die)
    (unit : Die) (after : List Die) : Prop where
  order : documentOrder info types = before ++ unit :: after
  isUnit : sdHasTag unit .compileUnit = true
  covers : unit.covers pc.value = true
  sole : ∀ e ∈ documentOrder info types, sdHasTag e .compileUnit = true →
    e.covers pc.value = true → e = unit
  filepath : ∀ e ∈ documentOrder info types, sdHasTag e .compileUnit = true →
    ∃ dirName fileName, e.compDir = .ok dirName ∧ e.name = .ok fileName
  table : ∀ e ∈ documentOrder info types, sdHasTag e .compileUnit = true →
    ∃ table, srclines e = some table
  offsets : ((documentOrder info types).map Die.offset).Nodup

/-- The table the PC is looked up in is that of `unit`. -/
def LooksUpIn (realpath : String → Realpath) (info types : List (RoseTree Die)) (pc : DbgAddr)
    (unit : Die) : Prop :=
  ∃ table, (lineTableOfPc realpath pc (.ofTrees info types)).1 = some table ∧
    table.lineContext = unit.offset

/-- The first DIE that the PC is in, or just past, has a path that leads to `unit` and to
no unit ahead of it. -/
def FoundByPath (realpath : String → Realpath) (info types : List (RoseTree Die)) (pc : DbgAddr)
    (before : List Die) (unit : Die) : Prop :=
  ∃ die filepath unitFilepath,
    (documentOrder info types).find? (Die.touches · pc.value) = some die ∧
    sdGetFilepath die = some filepath ∧ sdGetFilepath unit = some unitFilepath ∧
    Leads realpath filepath unitFilepath ∧
    ∀ e ∈ before, sdHasTag e .compileUnit = true →
      ∀ other, sdGetFilepath e = some other → ¬ Leads realpath filepath other

theorem tableFromFile_some {filepath : String} {die : Die} {table : LineTable}
    (h : tableFromFile realpath filepath die = some table) :
    sdIsDieFromFile realpath die filepath = true ∧ table.lineContext = die.offset := by
  unfold tableFromFile at h
  split at h
  · rename_i hkind
    exact ⟨(Bool.and_eq_true_iff.mp hkind).2, srclines_lineContext h⟩
  · cases h

/-- A unit that has a table gives it for the paths that lead to the unit. -/
theorem tableFromFile_none {filepath : String} {die : Die} {table : LineTable}
    (hunit : sdHasTag die .compileUnit = true) (htable : srclines die = some table) :
    tableFromFile realpath filepath die = none ↔ sdIsDieFromFile realpath die filepath = false := by
  unfold tableFromFile
  rw [hunit, Bool.true_and, htable]
  cases sdIsDieFromFile realpath die filepath with
  | false => exact ⟨fun _ => rfl, fun _ => rfl⟩
  | true => exact ⟨nofun, nofun⟩

variable {before after : List Die} {unit : Die}

theorem SoleUnit.mem (h : SoleUnit info types pc before unit after) :
    unit ∈ documentOrder info types := by
  rw [h.order]
  exact List.mem_append_right _ List.mem_cons_self

theorem SoleUnit.mem_before (h : SoleUnit info types pc before unit after) {e : Die}
    (he : e ∈ before) : e ∈ documentOrder info types := by
  rw [h.order]
  exact List.mem_append_left _ he

theorem SoleUnit.offset_ne (h : SoleUnit info types pc before unit after) {e : Die}
    (he : e ∈ before) : e.offset ≠ unit.offset := offset_ne_of_before h.order h.offsets he

theorem SoleUnit.eq_of_offset (h : SoleUnit info types pc before unit after) {e : Die}
    (he : e ∈ documentOrder info types) (hoffset : e.offset = unit.offset) : e = unit :=
  List.inj_on_of_nodup_map h.offsets he h.mem hoffset

/-- A path leads to the table of `unit` if it leads to `unit` before any other. -/
theorem SoleUnit.table_iff (h : SoleUnit info types pc before unit after) (filepath : String) :
    (∃ table, (documentOrder info types).findSome? (tableFromFile realpath filepath) = some table ∧
        table.lineContext = unit.offset) ↔
      sdIsDieFromFile realpath unit filepath = true ∧
        ∀ e ∈ before, sdHasTag e .compileUnit = true →
          sdIsDieFromFile realpath e filepath = false := by
  obtain ⟨own, hown⟩ := h.table unit h.mem h.isUnit
  -- Only the unit itself has its table.
  have hunique : ∀ e' ∈ before, ∀ table, tableFromFile realpath filepath e' = some table →
      table.lineContext ≠ unit.offset := fun e' he' table hsome hcontext =>
    h.offset_ne he' ((tableFromFile_some hsome).2.symm.trans hcontext)
  constructor
  · intro ⟨table, hfound, hcontext⟩
    obtain ⟨e, he, hsome⟩ := List.exists_of_findSome?_eq_some hfound
    obtain ⟨hfrom, hoffset⟩ := tableFromFile_some hsome
    obtain rfl := h.eq_of_offset he (hoffset.symm.trans hcontext)
    rw [h.order, findSome?_eq_iff_of_unique hsome] at hfound
    · refine ⟨hfrom, fun e' he' hunit => ?_⟩
      obtain ⟨table', htable'⟩ := h.table e' (h.mem_before he') hunit
      exact (tableFromFile_none hunit htable').mp (hfound e' he')
    · exact fun e' he' hsame => hunique e' he' table hsame hcontext
  · intro ⟨hfrom, hfirst⟩
    have hown' : tableFromFile realpath filepath unit = some own := by
      unfold tableFromFile
      rw [h.isUnit, hfrom, Bool.and_self, if_pos rfl, hown]
    refine ⟨own, ?_, srclines_lineContext hown⟩
    rw [h.order, findSome?_eq_iff_of_unique hown']
    · intro e he
      cases hunit : sdHasTag e .compileUnit with
      | false =>
          unfold tableFromFile
          rw [hunit]
          rfl
      | true =>
          obtain ⟨table', htable'⟩ := h.table e (h.mem_before he) hunit
          exact (tableFromFile_none hunit htable').mpr (hfirst e he hunit)
    · exact fun e he hsame => hunique e he own hsame (srclines_lineContext hown)

/-- **A PC is looked up in its own unit's table exactly if the path of the first DIE it
touches leads to that unit before any other.** -/
theorem looksUpIn_iff_foundByPath (realpath : String → Realpath)
    (h : SoleUnit info types pc before unit after) :
    LooksUpIn realpath info types pc unit ↔ FoundByPath realpath info types pc before unit := by
  unfold LooksUpIn FoundByPath lineTableOfPc
  rw [sdFilepathFromPc_eq]
  cases hdie : (documentOrder info types).find? (Die.touches · pc.value) with
  | none =>
      constructor
      · intro ⟨_, hc, _⟩
        cases hc
      · intro ⟨_, _, _, hc, _⟩
        cases hc
  | some die =>
      rw [Option.bind_some]
      cases hpath : sdGetFilepath die with
      | none =>
          constructor
          · intro ⟨_, hc, _⟩
            cases hc
          · intro ⟨_, _, _, hsame, hc, _⟩
            rw [← Option.some.inj hsame, hpath] at hc
            cases hc
      | some filepath =>
          dsimp only
          rw [sdGetLineTable_eq, h.table_iff filepath, sdIsDieFromFile_iff]
          constructor
          · intro ⟨⟨unitFilepath, hunit, hleads⟩, hfirst⟩
            refine ⟨die, filepath, unitFilepath, rfl, hpath, hunit, hleads, ?_⟩
            intro e he heunit other hother hbad
            have hfrom := sdIsDieFromFile_iff.mpr ⟨other, hother, hbad⟩
            rw [hfirst e he heunit] at hfrom
            cases hfrom
          · intro ⟨die', filepath', unitFilepath, hsame, hpath', hunit, hleads, hfirst⟩
            obtain rfl := Option.some.inj hsame
            obtain rfl : filepath = filepath' := Option.some.inj (hpath.symm.trans hpath')
            refine ⟨⟨unitFilepath, hunit, hleads⟩, fun e he heunit => ?_⟩
            cases hfrom : sdIsDieFromFile realpath e filepath with
            | false => rfl
            | true =>
                obtain ⟨other, hother, hbad⟩ := sdIsDieFromFile_iff.mp hfrom
                exact absurd hbad (hfirst e he heunit other hother)

/-! ### Two units that touch -/

/-- A unit of a file in `/src`, with a line table. -/
def srcUnit (offset : Nat) (name : String) (lowPc : Word) : RoseTree Die where
  root :=
    { offset, tag := .ok .compileUnit, name := .ok name, compDir := .ok "/src",
      lowPc := .ok lowPc, highPc := .ok ⟨0x1000, false⟩, lineContext := .ok ⟨1, .ok []⟩ }
  children := .nil

def srcUnits : List (RoseTree Die) := [srcUnit 0 "a.c" 0x1000, srcUnit 1 "b.c" 0x2000]

/-- Both paths are canonical. -/
theorem srcUnits_first : SoleUnit srcUnits [] ⟨0x1800⟩ [] (srcUnit 0 "a.c" 0x1000).root
    [(srcUnit 1 "b.c" 0x2000).root] where
  order := rfl
  isUnit := rfl
  covers := by decide
  sole := by decide
  filepath e he _ := by
    rcases List.mem_pair.mp he with rfl | rfl
    · exact ⟨"/src", "a.c", rfl, rfl⟩
    · exact ⟨"/src", "b.c", rfl, rfl⟩
  table e he _ := by
    rcases List.mem_pair.mp he with rfl | rfl
    · exact ⟨⟨[], 0⟩, by decide⟩
    · exact ⟨⟨[], 1⟩, by decide⟩
  offsets := by decide

theorem srcUnits_second : SoleUnit srcUnits [] ⟨0x2000⟩ [(srcUnit 0 "a.c" 0x1000).root]
    (srcUnit 1 "b.c" 0x2000).root [] where
  order := rfl
  isUnit := rfl
  covers := by decide
  sole := by decide
  filepath := srcUnits_first.filepath
  table := srcUnits_first.table
  offsets := by decide

/-- Inside the first unit its own table is used. -/
theorem looksUpIn_inside :
    LooksUpIn .path srcUnits [] ⟨0x1800⟩ (srcUnit 0 "a.c" 0x1000).root :=
  (looksUpIn_iff_foundByPath .path srcUnits_first).mpr
    ⟨(srcUnit 0 "a.c" 0x1000).root, "/src/a.c", "/src/a.c", by decide, by decide, by decide, rfl,
      fun e he => absurd he List.not_mem_nil⟩

/-- The first address of the second unit is looked up in the table of the first. -/
theorem looksUpIn_fails_touching :
    SoleUnit srcUnits [] ⟨0x2000⟩ [(srcUnit 0 "a.c" 0x1000).root]
      (srcUnit 1 "b.c" 0x2000).root [] ∧
    ¬ LooksUpIn .path srcUnits [] ⟨0x2000⟩ (srcUnit 1 "b.c" 0x2000).root := by
  refine ⟨srcUnits_second, ?_⟩
  intro ⟨table, hfound, hcontext⟩
  have hpath : (sdFilepathFromPc ⟨0x2000⟩ (.ofTrees srcUnits [])).1 = some "/src/a.c" := by
    rw [sdFilepathFromPc_eq]
    decide
  have htable : (lineTableOfPc .path ⟨0x2000⟩ (.ofTrees srcUnits [])).1 = some ⟨[], 0⟩ := by
    unfold lineTableOfPc
    rw [sdFilepathFromPc_eq] at hpath ⊢
    dsimp only at hpath ⊢
    rw [hpath]
    dsimp only
    rw [sdGetLineTable_eq]
    decide +kernel
  rw [htable] at hfound
  rw [← Option.some.inj hfound] at hcontext
  exact absurd hcontext (by decide)

end Spray
