/-
Which entry of a line table is found for a PC, and which for a line number.

Both lookups go through the table and stop at the first entry that is not too small.  The
table is in the order of addresses, so for a PC that is the first entry at or behind it: the
PC's own line only if the line starts there.  Line numbers are in no order, and the first
that is large enough may be larger than others further on.
-/
import Spray.Lib.Sorted
import Spray.Proofs.Lines

namespace Spray

variable {realpath : String → Realpath} {lines : List LineEntry} {table : LineTable}

/-! ### The entry for a line number -/

theorem lineIndexOfLine_find (lineno : Nat) (front lines : List LineEntry) :
    (lineIndexOfLine lineno front.length lines).map ((front ++ lines)[·]?) =
      (lines.find? (lineno ≤ ·.ln)).map some := by
  induction lines generalizing front with
  | nil => rfl
  | cons line rest ih =>
      unfold lineIndexOfLine
      by_cases hlt : line.ln < lineno
      · have hnext := ih (front ++ [line])
        rw [List.length_append, List.length_singleton, List.append_assoc] at hnext
        rw [if_pos hlt, List.find?_cons_of_neg (by simp [hlt])]
        exact hnext
      · rw [if_neg hlt, List.find?_cons_of_pos (by simpa using hlt)]
        simp

/-- The entry at the index that is found is the first with a number that is large enough. -/
theorem getLineTableIndexOfLine_find (table : LineTable) (lineno : Nat) :
    (getLineTableIndexOfLine table lineno).map (table.lines[·]?) =
      (table.lines.find? (lineno ≤ ·.ln)).map some :=
  lineIndexOfLine_find lineno [] table.lines

/-- What is found for a line number: an entry of that line if there is one, else one of the
next line there is, else none. -/
structure LandsOnLine (lines : List LineEntry) (lineno : Nat) (found : Option LineEntry) :
    Prop where
  hit : (∃ line ∈ lines, line.ln = lineno) →
    ∃ line ∈ lines, found = some line ∧ line.ln = lineno
  next : (∀ line ∈ lines, line.ln ≠ lineno) → (∃ line ∈ lines, lineno < line.ln) →
    ∃ line ∈ lines, found = some line ∧ lineno < line.ln ∧
      ∀ other ∈ lines, lineno < other.ln → line.ln ≤ other.ln
  miss : (∀ line ∈ lines, line.ln < lineno) → found = none

/-- The line is the requested one, or the closest to it among those behind it. -/
def ClosestLine (lines : List LineEntry) (lineno : Nat) (line : LineEntry) : Prop :=
  lineno ≤ line.ln ∧ ∀ other ∈ lines, lineno ≤ other.ln → line.ln ≤ other.ln

/-- Landing on a line is to find a closest entry, where there is any. -/
theorem landsOnLine_iff {lineno : Nat} {found : Option LineEntry} :
    LandsOnLine lines lineno found ↔
      ((∃ line ∈ lines, lineno ≤ line.ln) →
        ∃ line ∈ lines, found = some line ∧ ClosestLine lines lineno line) ∧
      ((∀ line ∈ lines, line.ln < lineno) → found = none) := by
  constructor
  · intro h
    refine ⟨?_, h.miss⟩
    intro ⟨line, hmem, hle⟩
    by_cases hsame : ∃ line ∈ lines, line.ln = lineno
    · obtain ⟨line, hmem, hfound, rfl⟩ := h.hit hsame
      exact ⟨line, hmem, hfound, le_rfl, fun other _ hle => hle⟩
    · have hne : ∀ line ∈ lines, line.ln ≠ lineno := fun e he hln => hsame ⟨e, he, hln⟩
      have hlt : ∀ e ∈ lines, lineno ≤ e.ln → lineno < e.ln :=
        fun e he hle => Nat.lt_of_le_of_ne hle (Ne.symm (hne e he))
      obtain ⟨e, he, hfound, habove, hleast⟩ := h.next hne ⟨line, hmem, hlt line hmem hle⟩
      exact ⟨e, he, hfound, Nat.le_of_lt habove,
        fun other ho hle => hleast other ho (hlt other ho hle)⟩
  · intro ⟨hsome, hnone⟩
    refine ⟨?_, ?_, hnone⟩
    · intro ⟨own, hown, hln⟩
      obtain ⟨line, hmem, hfound, hle, hleast⟩ := hsome ⟨own, hown, Nat.le_of_eq hln.symm⟩
      have := hleast own hown (Nat.le_of_eq hln.symm)
      exact ⟨line, hmem, hfound, by omega⟩
    · intro hne ⟨other, hother, hlt⟩
      obtain ⟨line, hmem, hfound, hle, hleast⟩ := hsome ⟨other, hother, Nat.le_of_lt hlt⟩
      exact ⟨line, hmem, hfound, Nat.lt_of_le_of_ne hle (Ne.symm (hne line hmem)),
        fun o ho hlt => hleast o ho (Nat.le_of_lt hlt)⟩

/-- No entry behind the line comes before one of the closest. -/
def ClosestLineFirst (lines : List LineEntry) (lineno : Nat) : Prop :=
  ∀ before line after, lines = before ++ line :: after → lineno ≤ line.ln →
    ∃ first ∈ before ++ [line], ClosestLine lines lineno first

theorem find?_landsOnLine (lineno : Nat) :
    LandsOnLine lines lineno (lines.find? (lineno ≤ ·.ln)) ↔ ClosestLineFirst lines lineno := by
  rw [landsOnLine_iff]
  cases hfind : lines.find? (lineno ≤ ·.ln) with
  | none =>
      have hnone : ∀ line ∈ lines, line.ln < lineno := by
        simpa using List.find?_eq_none.mp hfind
      constructor
      · intro _ before line after hsplit hle
        have := hnone line (by simp [hsplit])
        omega
      · intro _
        refine ⟨?_, fun _ => rfl⟩
        intro ⟨line, hmem, hle⟩
        have := hnone line hmem
        omega
  | some found =>
      obtain ⟨hfound, front, back, hsplit, hfront⟩ := List.find?_eq_some_iff_append.mp hfind
      have hle : lineno ≤ found.ln := by simpa using hfound
      have hlt : ∀ line ∈ front, line.ln < lineno := by simpa using hfront
      have hmem : found ∈ lines := by simp [hsplit]
      constructor
      · intro ⟨hsome, _⟩ before line after hsplit' hle'
        obtain ⟨closest, _, hsame, hclosest⟩ := hsome ⟨found, hmem, hle⟩
        rw [← Option.some.inj hsame] at hclosest
        -- The scan has stopped by the time it has seen `line`.
        have hstops : ((before ++ [line]).find? (lineno ≤ ·.ln)).isSome := by
          simp [hle']
        obtain ⟨stop, hstop⟩ := Option.isSome_iff_exists.mp hstops
        rw [hsplit', List.append_cons, List.find?_append, hstop, Option.some_or] at hfind
        rw [← Option.some.inj hfind] at hclosest
        exact ⟨stop, List.mem_of_find?_eq_some hstop, hclosest⟩
      · intro hfirst
        obtain ⟨first, hmem', hclosest⟩ := hfirst front found back hsplit hle
        refine ⟨fun _ => ⟨found, hmem, rfl, ?_⟩, ?_⟩
        · rcases List.mem_append.mp hmem' with hin | hin
          · have := hlt first hin
            exact absurd hclosest.1 (by omega)
          · rwa [← List.mem_singleton.mp hin]
        · intro hnone
          have := hnone found hmem
          omega

/-- `found` is what the three lookups find for a line of a file, and it is right. -/
structure FindsLine (realpath : String → Realpath) (filepath : String) (lineno : Nat)
    (dbg : DwarfDebug Die) (table : LineTable) (found : Option LineEntry) : Prop where
  lands : LandsOnLine table.lines lineno found
  index : (getLineTableIndexOfLine table lineno).map (table.lines[·]?) = found.map some
  entry : (sdLineEntryAt realpath filepath lineno dbg).1 = found.getD {}
  addr : (addrAt realpath filepath lineno dbg).1 = found.map (·.addr)

variable {filepath : String} {dbg dbg' : DwarfDebug Die}

theorem sdLineEntryAt_eq (lineno : Nat)
    (htable : sdGetLineTable realpath filepath dbg = (some table, dbg')) :
    sdLineEntryAt realpath filepath lineno dbg =
      ((table.lines.find? (lineno ≤ ·.ln)).getD {}, dbg') := by
  have hindex := getLineTableIndexOfLine_find table lineno
  unfold sdLineEntryAt
  rw [htable]
  dsimp only
  cases hi : getLineTableIndexOfLine table lineno with
  | none =>
      rw [hi] at hindex
      rw [Option.map_eq_none_iff.mp hindex.symm]
      rfl
  | some i =>
      rw [hi, Option.map_some, eq_comm, Option.map_eq_some_iff] at hindex
      obtain ⟨line, hline, hat⟩ := hindex
      rw [hline, Option.bind_some, ← hat]
      rfl

theorem addrAt_eq (lineno : Nat)
    (htable : sdGetLineTable realpath filepath dbg = (some table, dbg'))
    (hok : ∀ line ∈ table.lines, line.isOk = true) :
    addrAt realpath filepath lineno dbg =
      ((table.lines.find? (lineno ≤ ·.ln)).map (·.addr), dbg') := by
  unfold addrAt
  rw [sdLineEntryAt_eq lineno htable]
  dsimp only
  cases hfind : table.lines.find? (lineno ≤ ·.ln) with
  | none => rfl
  | some line =>
      have hline := hok line (List.mem_of_find?_eq_some hfind)
      simp [hline]

/-- **A line of a file is found exactly if no entry of a line behind it comes before one of
the closest.** -/
theorem findsLine_iff_closestLineFirst (lineno : Nat)
    (htable : sdGetLineTable realpath filepath dbg = (some table, dbg'))
    (hok : ∀ line ∈ table.lines, line.isOk = true) :
    (∃ found, FindsLine realpath filepath lineno dbg table found) ↔
      ClosestLineFirst table.lines lineno := by
  rw [← find?_landsOnLine]
  constructor
  · intro ⟨found, h⟩
    have hfound := (getLineTableIndexOfLine_find table lineno).symm.trans h.index
    rw [Option.map_injective (Option.some_injective _) hfound]
    exact h.lands
  · intro hlands
    refine ⟨_, hlands, getLineTableIndexOfLine_find table lineno, ?_, ?_⟩
    · rw [sdLineEntryAt_eq lineno htable]
    · rw [addrAt_eq lineno htable hok]

/-! ### The entry for a PC -/

/-- The entries are in the order of their addresses. -/
def ByAddress (lines : List LineEntry) : Prop := lines.SortedBy (·.addr.value)

/-- The entries at or behind an address. -/
def entriesFrom (pc : DbgAddr) (lines : List LineEntry) : List LineEntry :=
  lines.filter (pc.value ≤ ·.addr.value)

/-- How many entries have an address. -/
def countAt (pc : DbgAddr) (lines : List LineEntry) : Nat := lines.countP (·.addr.value = pc.value)

/-- How many entries are below an address. -/
def countBelow (pc : DbgAddr) (lines : List LineEntry) : Nat :=
  (lines.takeWhile (·.addr.value < pc.value)).length

variable {pc : DbgAddr}

theorem countAt_pos : 0 < countAt pc lines ↔ ∃ line ∈ lines, line.addr.value = pc.value := by
  simp [countAt, List.countP_pos_iff]

theorem countAt_cons (line : LineEntry) :
    countAt pc (line :: lines) = countAt pc lines + if line.addr.value = pc.value then 1 else 0 := by
  simp [countAt, List.countP_cons]

/-- No entry has an address that all are behind. -/
theorem countAt_eq_zero (h : ∀ line ∈ lines, pc.value < line.addr.value) :
    countAt pc lines = 0 := by
  rw [countAt, List.countP_eq_zero]
  intro line hmem
  simpa using (ne_of_lt (h line hmem)).symm

/-- A PC is in some line, by the lookup, if no two lines start there and not all are below. -/
theorem lineIndexOfPc_iff (hsorted : ByAddress lines) (i j : Nat) :
    lineIndexOfPc pc i lines = some j ↔
      j = i + countBelow pc lines ∧ (∃ line ∈ lines, pc.value ≤ line.addr.value) ∧
        countAt pc lines ≤ 1 := by
  induction lines generalizing i with
  | nil => simp [lineIndexOfPc]
  | cons line rest ih =>
      obtain ⟨hhead, hrest⟩ := List.pairwise_cons.mp hsorted
      unfold lineIndexOfPc
      by_cases hlt : line.addr.value < pc.value
      · have hbelow : countBelow pc (line :: rest) = 1 + countBelow pc rest := by
          simp [countBelow, hlt, Nat.add_comm]
        rw [if_pos hlt, ih hrest, hbelow, countAt_cons, if_neg (ne_of_lt hlt), Nat.add_assoc]
        simp [not_le_of_gt hlt]
      · have hle : pc.value ≤ line.addr.value := not_lt.mp hlt
        have hbelow : countBelow pc (line :: rest) = 0 := by simp [countBelow, hlt]
        have hbehind : ∃ e ∈ line :: rest, pc.value ≤ e.addr.value :=
          ⟨line, List.mem_cons_self, hle⟩
        have hfirst : countAt pc rest = 0 →
            (some i = some j ↔ j = i + 0 ∧ (∃ e ∈ line :: rest, pc.value ≤ e.addr.value) ∧
              countAt pc rest + (if line.addr.value = pc.value then 1 else 0) ≤ 1) := by
          intro hzero
          rw [hzero]
          constructor
          · intro h
            exact ⟨(Option.some.inj h).symm, hbehind, by split <;> omega⟩
          · intro ⟨h, _⟩
            rw [h, Nat.add_zero]
        rw [if_neg hlt, hbelow, countAt_cons]
        cases rest with
        | nil => exact hfirst rfl
        | cons next rest =>
            dsimp only
            by_cases hnext : pc.value < next.addr.value
            · rw [if_pos hnext]
              refine hfirst (countAt_eq_zero fun e he => ?_)
              rcases List.mem_cons.mp he with rfl | he
              · exact hnext
              · exact lt_of_lt_of_le hnext ((List.pairwise_cons.mp hrest).1 e he)
            · -- Both entries are at the PC.
              have hbetween : line.addr.value ≤ next.addr.value := hhead next List.mem_cons_self
              have hline := le_antisymm (hbetween.trans (not_lt.mp hnext)) hle
              have hsame := le_antisymm (not_lt.mp hnext) (hle.trans hbetween)
              rw [if_neg hnext, countAt_cons, if_pos hline, if_pos hsame]
              constructor
              · intro h
                cases h
              · intro ⟨_, _, htwo⟩
                omega

/-- What is left of the table from the index on are the entries from the PC on. -/
theorem drop_countBelow (hsorted : ByAddress lines) (pc : DbgAddr) :
    lines.drop (countBelow pc lines) = entriesFrom pc lines :=
  (List.drop_length_takeWhile _ lines).trans (hsorted.dropWhile_lt pc.value)

theorem getLineTableIndexOfPc_iff (hsorted : ByAddress table.lines) {i : Nat} :
    getLineTableIndexOfPc table pc = some i ↔
      i = countBelow pc table.lines ∧ (∃ line ∈ table.lines, pc.value ≤ line.addr.value) ∧
        countAt pc table.lines ≤ 1 := by
  have h : lineIndexOfPc pc 0 table.lines = some i ↔ _ := lineIndexOfPc_iff hsorted 0 i
  rwa [Nat.zero_add] at h

/-- The line holds the PC: its address is the greatest that is not above the PC. -/
structure HoldsPc (lines : List LineEntry) (pc : DbgAddr) (line : LineEntry) : Prop where
  mem : line ∈ lines
  le : line.addr.value ≤ pc.value
  closest : ∀ other ∈ lines, other.addr.value ≤ pc.value → other.addr.value ≤ line.addr.value

/-- The two lookups of a PC find a line that holds it. -/
structure FindsPc (realpath : String → Realpath) (pc : DbgAddr) (dbg : DwarfDebug Die)
    (table : LineTable) : Prop where
  entry : ∃ line, HoldsPc table.lines pc line ∧ (sdLineEntryFromPc realpath pc dbg).1 =
    { line with isOk := true, isExact := decide (line.addr = pc) }
  index : ∃ i line, getLineTableIndexOfPc table pc = some i ∧ table.lines[i]? = some line ∧
    HoldsPc table.lines pc line

theorem getElem?_countBelow (hsorted : ByAddress lines) (pc : DbgAddr) :
    lines[countBelow pc lines]? = (entriesFrom pc lines).head? := by
  rw [← drop_countBelow hsorted, List.head?_drop]

/-- If a line starts at the PC, so does the first from the PC on. -/
theorem entriesFrom_head (hsorted : ByAddress lines) (h : 0 < countAt pc lines) :
    ∃ first rest, entriesFrom pc lines = first :: rest ∧ first ∈ lines ∧
      first.addr.value = pc.value := by
  obtain ⟨line, hmem, hat⟩ := countAt_pos.mp h
  have hin : line ∈ entriesFrom pc lines :=
    List.mem_filter.mpr ⟨hmem, decide_eq_true (le_of_eq hat.symm)⟩
  cases hfrom : entriesFrom pc lines with
  | nil =>
      rw [hfrom] at hin
      cases hin
  | cons first rest =>
      have hfirst : first ∈ entriesFrom pc lines := hfrom ▸ List.mem_cons_self
      obtain ⟨hmem', hle⟩ := List.mem_filter.mp hfirst
      have hord : ByAddress (first :: rest) := hfrom ▸ hsorted.filter _
      refine ⟨first, rest, rfl, hmem', le_antisymm ?_ (of_decide_eq_true hle)⟩
      rw [hfrom] at hin
      rcases List.mem_cons.mp hin with rfl | hin
      · exact le_of_eq hat
      · exact le_of_le_of_eq ((List.pairwise_cons.mp hord).1 line hin) hat

/-- A line that starts at the PC holds it. -/
theorem HoldsPc.of_addr {line : LineEntry} (hmem : line ∈ lines)
    (hat : line.addr.value = pc.value) : HoldsPc lines pc line :=
  ⟨hmem, le_of_eq hat, fun _ _ hle => le_of_le_of_eq hle hat.symm⟩

/-- **The lookups find the line of a PC exactly if one line starts at the PC, and only one.** -/
theorem findsPc_iff_countAt (hsorted : ByAddress table.lines)
    (htable : lineTableOfPc realpath pc dbg = (some table, dbg'))
    (hok : ∀ line ∈ table.lines, line.isOk = true) :
    FindsPc realpath pc dbg table ↔ countAt pc table.lines = 1 := by
  constructor
  · intro ⟨_, i, line, hindex, hline, hholds⟩
    obtain ⟨rfl, _, hone⟩ := (getLineTableIndexOfPc_iff hsorted).mp hindex
    rw [getElem?_countBelow hsorted] at hline
    have hle := (List.mem_filter.mp (List.mem_of_head? hline)).2
    have hat := le_antisymm hholds.le (of_decide_eq_true hle)
    have hpos := countAt_pos.mpr ⟨line, hholds.mem, hat⟩
    omega
  · intro hone
    have hpos : 0 < countAt pc table.lines := by omega
    constructor
    · obtain ⟨line, hmem, hat⟩ := countAt_pos.mp hpos
      have hsome : (table.lines.find? (·.addr.value = pc.value)).isSome := by
        rw [List.find?_isSome]
        exact ⟨line, hmem, decide_eq_true hat⟩
      obtain ⟨found, hfound⟩ := Option.isSome_iff_exists.mp hsome
      have hfoundat : found.addr.value = pc.value := by simpa using List.find?_some hfound
      have hmemfound := List.mem_of_find?_eq_some hfound
      have haddr : found.addr = pc := congrArg DbgAddr.mk hfoundat
      refine ⟨found, .of_addr hmemfound hfoundat, ?_⟩
      unfold sdLineEntryFromPc
      rw [htable]
      simp [hfound, haddr, hok found hmemfound]
    · obtain ⟨first, rest, hfrom, hmem, hat⟩ := entriesFrom_head hsorted hpos
      refine ⟨countBelow pc table.lines, first, ?_, ?_, .of_addr hmem hat⟩
      · exact (getLineTableIndexOfPc_iff hsorted).mpr
          ⟨rfl, ⟨first, hmem, le_of_eq hat.symm⟩, le_of_eq hone⟩
      · rw [getElem?_countBelow hsorted, hfrom]
        rfl

/-! ### A file with a function -/

/-- A function from 0x1000 on. -/
def functionOf (highPc : Word) : Die :=
  { offset := 1, tag := .ok .subprogram, name := .ok "f", lowPc := .ok 0x1000
    highPc := .ok ⟨highPc, true⟩ }

/-- The unit of a file at [0x1000, 0x2000) with that function, and the given lines. -/
def unitOf (lines : List LineEntry) (highPc : Word) : RoseTree Die where
  root :=
    { offset := 0, tag := .ok .compileUnit, name := .ok "a.c", compDir := .ok "/src"
      lowPc := .ok 0x1000, highPc := .ok ⟨0x1000, false⟩, srcfiles := .ok ["/src/a.c"]
      lineContext := .ok ⟨1, .ok (lines.map .ok)⟩ }
  children := .cons (functionOf highPc) .nil .nil

theorem unitOf_order (lines : List LineEntry) (highPc : Word) :
    documentOrder [unitOf lines highPc] [] = [(unitOf lines highPc).root, functionOf highPc] := rfl

theorem mapM_toOption_ok (lines : List LineEntry) :
    (lines.map Dlv.ok).mapM Dlv.toOption = some lines := by
  induction lines with
  | nil => rfl
  | cons line rest ih => simp [Dlv.toOption, ih]

theorem unitOf_table (lines : List LineEntry) (highPc : Word) :
    sdGetLineTable .path "/src/a.c" (.ofTrees [unitOf lines highPc] []) =
      (some ⟨lines, 0⟩, .ofTrees [unitOf lines highPc] []) := by
  have hfile : sdIsDieFromFile .path (unitOf lines highPc).root "/src/a.c" = true :=
    sdIsDieFromFile_iff.mpr ⟨"/src/a.c", rfl, rfl⟩
  have hlines : srclines (unitOf lines highPc).root = some ⟨lines, 0⟩ := by
    show ((lines.map Dlv.ok).mapM Dlv.toOption).map _ = _
    rw [mapM_toOption_ok]
    rfl
  have htable : tableFromFile .path "/src/a.c" (unitOf lines highPc).root = some ⟨lines, 0⟩ := by
    unfold tableFromFile
    rw [hfile, hlines]
    rfl
  rw [sdGetLineTable_eq, unitOf_order, List.findSome?_cons, htable]

theorem unitOf_tableOfPc (lines : List LineEntry) (highPc : Word)
    (h : (unitOf lines highPc).root.touches pc.value = true) :
    lineTableOfPc .path pc (.ofTrees [unitOf lines highPc] []) =
      (some ⟨lines, 0⟩, .ofTrees [unitOf lines highPc] []) := by
  have hpath : sdGetFilepath (unitOf lines highPc).root = some "/src/a.c" := rfl
  have hfind : [(unitOf lines highPc).root, functionOf highPc].find? (Die.touches · pc.value) =
      some (unitOf lines highPc).root := by
    simp [h]
  unfold lineTableOfPc
  rw [sdFilepathFromPc_eq, unitOf_order, hfind, Option.bind_some, hpath]
  exact unitOf_table lines highPc

/-- The line of a loop comes again behind the line of its body. -/
def loopLines : List LineEntry :=
  [⟨true, true, false, false, 3, 0, ⟨0x1000⟩, none⟩,
    ⟨true, true, true, false, 7, 0, ⟨0x1004⟩, none⟩,
    ⟨true, true, false, false, 5, 0, ⟨0x1008⟩, none⟩]

theorem loopLines_byAddress : ByAddress loopLines := by
  unfold ByAddress List.SortedBy
  decide

/-- Line 3 comes before those behind it. -/
theorem findsLine_first :
    ∃ found, FindsLine .path "/src/a.c" 3 (.ofTrees [unitOf loopLines 0x1010] [])
      ⟨loopLines, 0⟩ found := by
  refine (findsLine_iff_closestLineFirst 3 (unitOf_table loopLines 0x1010) (by decide)).mpr ?_
  intro before line after hsplit _
  refine ⟨loopLines.head (by decide), ?_, by decide, by decide⟩
  cases before with
  | nil =>
      obtain ⟨rfl, _⟩ := List.cons.inj hsplit
      exact List.mem_singleton_self _
  | cons first rest =>
      obtain ⟨rfl, _⟩ := List.cons.inj hsplit
      exact List.mem_cons_self

/-- Line 5 is in the table, and line 7 is found. -/
theorem findsLine_fails_loop :
    ¬ ∃ found, FindsLine .path "/src/a.c" 5 (.ofTrees [unitOf loopLines 0x1010] [])
      ⟨loopLines, 0⟩ found := by
  intro ⟨found, h⟩
  obtain ⟨line, _, rfl, hln⟩ := h.lands.hit (by decide)
  have hindex := h.index
  rw [getLineTableIndexOfLine_find] at hindex
  have hfound : loopLines.find? (5 ≤ ·.ln) = some line :=
    Option.map_injective (Option.some_injective _) hindex
  have hseven : (loopLines.find? (5 ≤ ·.ln)).map (·.ln) = some 7 := by decide
  rw [hfound] at hseven
  have hln' : line.ln = 7 := Option.some.inj hseven
  omega

/-- The PC is where a line starts. -/
theorem findsPc_start :
    FindsPc .path ⟨0x1004⟩ (.ofTrees [unitOf loopLines 0x1010] []) ⟨loopLines, 0⟩ :=
  (findsPc_iff_countAt loopLines_byAddress (unitOf_tableOfPc loopLines 0x1010 rfl) (by decide)).mpr
    (by decide)

/-- The PC is in the middle of a line. -/
theorem findsPc_fails_inside :
    ByAddress loopLines ∧
      ¬ FindsPc .path ⟨0x1006⟩ (.ofTrees [unitOf loopLines 0x1010] []) ⟨loopLines, 0⟩ := by
  refine ⟨loopLines_byAddress, ?_⟩
  intro ⟨_, i, line, hindex, hline, hholds⟩
  have htwo : getLineTableIndexOfPc ⟨loopLines, 0⟩ ⟨0x1006⟩ = some 2 := by decide
  obtain rfl := Option.some.inj (htwo.symm.trans hindex)
  have haddr : (loopLines[2]?).map (·.addr) = some ⟨0x1008⟩ := by decide
  rw [hline] at haddr
  have hline' : line.addr = ⟨0x1008⟩ := Option.some.inj haddr
  have hle := hholds.le
  rw [hline'] at hle
  exact absurd hle (by decide)

end Spray
