/-
The lines of a function, and where its code starts behind the prologue.

Both start from the entry at the function's first address, which is not found if there are
several, and both count the function's end, which DWARF does not, as inside.  The start
behind the prologue is taken from the first file with any line at or behind the function.
-/
import Spray.Proofs.LineIndex
import Spray.Proofs.Subprog

namespace Spray

variable {realpath : String → Realpath} {lines : List LineEntry} {table : LineTable}
  {fnName filepath : String} {dbg dbg₁ dbg₂ : DwarfDebug Die} {lowpc highpc : Word}

/-! ### Each line of a function -/

/-- The lines of a function that its callback is called with. -/
def visitedLines (lowpc highpc : Word) (lines : List LineEntry) : List LineEntry :=
  ((entriesFrom ⟨lowpc⟩ lines).takeWhile (·.addr.value ≤ highpc)).filter (·.newStatement)

/-- The new statements of a function at [`lowpc`, `highpc`). -/
def functionLines (lowpc highpc : Word) (lines : List LineEntry) : List LineEntry :=
  lines.filter fun line =>
    line.newStatement && lowpc ≤ line.addr.value && line.addr.value < highpc

theorem runOnLines_ok {σ : Type} {callback : LineEntry → σ → SprayResult × σ}
    (hok : ∀ line data, (callback line data).1 = .ok) (lines : List LineEntry) (data : σ) :
    runOnLines callback highpc lines data =
      (.ok, ((lines.takeWhile (·.addr.value ≤ highpc)).filter (·.newStatement)).foldl
        (fun data line => (callback line data).2) data) := by
  induction lines generalizing data with
  | nil => rfl
  | cons line rest ih =>
      unfold runOnLines
      by_cases hin : line.addr.value ≤ highpc
      · rw [if_pos hin, List.takeWhile_cons_of_pos (by simpa using hin)]
        by_cases hnew : line.newStatement = true
        · have hline : callback line data = (.ok, (callback line data).2) :=
            Prod.ext (hok line data) rfl
          rw [if_pos hnew, hline, List.filter_cons_of_pos hnew]
          exact ih _
        · rw [if_neg hnew, List.filter_cons_of_neg hnew]
          exact ih data
      · rw [if_neg hin, List.takeWhile_cons_of_neg (by simpa using hin)]
        rfl

/-- A callback that does not fail is called with the entries of `sdForEachLine`. -/
theorem sdForEachLineWith_entries {σ : Type} {callback : LineEntry → σ → SprayResult × σ}
    (hok : ∀ line data, (callback line data).1 = .ok) (initData : σ) :
    (sdForEachLineWith realpath fnName filepath callback initData dbg).1.2 =
      (sdForEachLine realpath fnName filepath dbg).1.foldl
        (fun data line => (callback line data).2) initData := by
  unfold sdForEachLineWith sdForEachLine
  rcases sdGetSubprogPcRange fnName dbg with ⟨_ | ⟨lowpc, highpc⟩, dbg₁⟩
  · rfl
  · dsimp only
    rcases sdGetLineTable realpath filepath dbg₁ with ⟨_ | table, dbg₂⟩
    · rfl
    · dsimp only
      cases getLineTableIndexOfPc table ⟨lowpc⟩ with
      | none => rfl
      | some i =>
          dsimp only
          rw [runOnLines_ok hok]

theorem mem_visitedLines (hsorted : ByAddress lines) {line : LineEntry} :
    line ∈ visitedLines lowpc highpc lines ↔
      line ∈ lines ∧ line.newStatement = true ∧ lowpc ≤ line.addr.value ∧
        line.addr.value ≤ highpc := by
  have hfrom : ByAddress (entriesFrom ⟨lowpc⟩ lines) := hsorted.filter _
  rw [visitedLines, hfrom.takeWhile_le highpc]
  simp [entriesFrom]
  grind

/-- Inside of the function, what is visited is right. -/
theorem visitedLines_eq (hsorted : ByAddress lines)
    (hend : ∀ line ∈ lines, line.newStatement = true → line.addr.value = highpc → highpc < lowpc) :
    visitedLines lowpc highpc lines = functionLines lowpc highpc lines := by
  have hfrom : ByAddress (entriesFrom ⟨lowpc⟩ lines) := hsorted.filter _
  rw [visitedLines, hfrom.takeWhile_le highpc, entriesFrom, List.filter_filter, List.filter_filter]
  refine List.filter_congr fun line hmem => ?_
  have hline := hend line hmem
  rw [Bool.eq_iff_iff]
  simp only [Bool.and_eq_true, decide_eq_true_eq]
  constructor
  · rintro ⟨⟨hnew, hle⟩, hlow⟩
    refine ⟨⟨hnew, hlow⟩, lt_of_le_of_ne hle fun hat => ?_⟩
    exact absurd (hline hnew hat) (not_lt_of_ge (hlow.trans hle))
  · rintro ⟨⟨hnew, hlow⟩, hlt⟩
    exact ⟨⟨hnew, le_of_lt hlt⟩, hlow⟩

/-- A callback that does not fail is called with the function's lines, in order. -/
def VisitsFunction (realpath : String → Realpath) (fnName filepath : String)
    (dbg : DwarfDebug Die) (lowpc highpc : Word) (lines : List LineEntry) : Prop :=
  ∀ (σ : Type) (callback : LineEntry → σ → SprayResult × σ) (initData : σ),
    (∀ line data, (callback line data).1 = .ok) →
    (sdForEachLineWith realpath fnName filepath callback initData dbg).1 =
      (.ok, (functionLines lowpc highpc lines).foldl
        (fun data line => (callback line data).2) initData)

/-- The lines are visited if the first can be told. -/
theorem sdForEachLineWith_eq {σ : Type} (callback : LineEntry → σ → SprayResult × σ) (initData : σ)
    (hrange : sdGetSubprogPcRange fnName dbg = (some (lowpc, highpc), dbg₁))
    (htable : sdGetLineTable realpath filepath dbg₁ = (some table, dbg₂))
    (hsorted : ByAddress table.lines) (hlow : 0 < countAt ⟨lowpc⟩ table.lines) :
    sdForEachLineWith realpath fnName filepath callback initData dbg =
      (if countAt ⟨lowpc⟩ table.lines = 1 then
          runOnLines callback highpc (entriesFrom ⟨lowpc⟩ table.lines) initData
        else (.err, initData), dbg₂) := by
  obtain ⟨line, hmem, hat⟩ := countAt_pos.mp hlow
  have hbehind : ∃ line ∈ table.lines, (⟨lowpc⟩ : DbgAddr).value ≤ line.addr.value :=
    ⟨line, hmem, le_of_eq hat.symm⟩
  unfold sdForEachLineWith
  rw [hrange]
  dsimp only
  rw [htable]
  dsimp only
  by_cases hone : countAt ⟨lowpc⟩ table.lines = 1
  · have hindex := (getLineTableIndexOfPc_iff hsorted).mpr ⟨rfl, hbehind, le_of_eq hone⟩
    rw [hindex, if_pos hone]
    dsimp only
    rw [drop_countBelow hsorted]
  · have hindex : getLineTableIndexOfPc table ⟨lowpc⟩ = none := by
      rw [Option.eq_none_iff_forall_ne_some]
      intro i hi
      have := ((getLineTableIndexOfPc_iff hsorted).mp hi).2.2
      omega
    rw [hindex, if_neg hone]

theorem foldl_snoc (lines front : List LineEntry) :
    lines.foldl (fun data line => data ++ [line]) front = front ++ lines := by
  induction lines generalizing front with
  | nil => simp
  | cons line rest ih => simp [ih]

/-- The entries are those that a callback sees which writes down its calls. -/
theorem sdForEachLine_eq (hrange : sdGetSubprogPcRange fnName dbg = (some (lowpc, highpc), dbg₁))
    (htable : sdGetLineTable realpath filepath dbg₁ = (some table, dbg₂))
    (hsorted : ByAddress table.lines) (hone : countAt ⟨lowpc⟩ table.lines = 1) :
    (sdForEachLine realpath fnName filepath dbg).1 = visitedLines lowpc highpc table.lines := by
  let writesDown : LineEntry → List LineEntry → SprayResult × List LineEntry :=
    fun line data => (.ok, data ++ [line])
  have hpos : 0 < countAt ⟨lowpc⟩ table.lines := hone ▸ Nat.one_pos
  have hseen : (sdForEachLineWith realpath fnName filepath writesDown [] dbg).1.2 = _ :=
    sdForEachLineWith_entries (fun _ _ => rfl) []
  rw [sdForEachLineWith_eq _ _ hrange htable hsorted hpos, if_pos hone,
    runOnLines_ok fun _ _ => rfl] at hseen
  dsimp only [writesDown] at hseen
  rw [foldl_snoc, foldl_snoc] at hseen
  exact hseen.symm

/-- **Exactly the lines of a function are visited, once each, if and only if one entry is at
its first address and no new statement at its end.** -/
theorem visitsFunction_iff
    (hrange : sdGetSubprogPcRange fnName dbg = (some (lowpc, highpc), dbg₁))
    (htable : sdGetLineTable realpath filepath dbg₁ = (some table, dbg₂))
    (hsorted : ByAddress table.lines) (hlow : ∃ line ∈ table.lines, line.addr.value = lowpc) :
    VisitsFunction realpath fnName filepath dbg lowpc highpc table.lines ↔
      countAt ⟨lowpc⟩ table.lines = 1 ∧
        ∀ line ∈ table.lines, line.newStatement = true → line.addr.value = highpc →
          highpc < lowpc := by
  have hpos : 0 < countAt ⟨lowpc⟩ table.lines := countAt_pos.mpr hlow
  constructor
  · intro h
    -- What a callback sees that writes down its calls.
    have hseen := h _ (fun line data => (.ok, data ++ [line])) [] (fun _ _ => rfl)
    rw [sdForEachLineWith_eq _ _ hrange htable hsorted hpos] at hseen
    by_cases hone : countAt ⟨lowpc⟩ table.lines = 1
    · refine ⟨hone, ?_⟩
      rw [if_pos hone, runOnLines_ok fun _ _ => rfl] at hseen
      have hsame : visitedLines lowpc highpc table.lines =
          functionLines lowpc highpc table.lines := by
        have hfold := (Prod.ext_iff.mp hseen).2
        dsimp only at hfold
        rw [foldl_snoc, foldl_snoc] at hfold
        exact hfold
      intro line hmem hnew hat
      by_contra hge
      have hvisited : line ∈ visitedLines lowpc highpc table.lines :=
        (mem_visitedLines hsorted).mpr
          ⟨hmem, hnew, le_of_le_of_eq (not_lt.mp hge) hat.symm, le_of_eq hat⟩
      rw [hsame, functionLines, List.mem_filter] at hvisited
      have hlt : line.addr.value < highpc :=
        of_decide_eq_true (Bool.and_eq_true_iff.mp hvisited.2).2
      exact absurd hat (ne_of_lt hlt)
    · rw [if_neg hone] at hseen
      cases (Prod.ext_iff.mp hseen).1
  · intro ⟨hone, hend⟩ σ callback initData hok
    rw [sdForEachLineWith_eq _ _ hrange htable hsorted hpos, if_pos hone, runOnLines_ok hok]
    dsimp only
    rw [← visitedLines_eq hsorted hend]
    rfl

/-! ### The start behind the prologue -/

/-- The tables the file paths lead to, one after the other. -/
def lineTables (realpath : String → Realpath) :
    List String → DwarfDebug Die → List (Option LineTable)
  | [], _ => []
  | filepath :: rest, dbg =>
    match sdGetLineTable realpath filepath dbg with
    | (table, dbg) => table :: lineTables realpath rest dbg

variable {start functionEnd : DbgAddr} {own : LineTable}

/-- A line of the table is taken for that of the function's start. -/
def Accepts (table : LineTable) (start : DbgAddr) : Prop :=
  (∃ line ∈ table.lines, start.value ≤ line.addr.value) ∧ countAt start table.lines ≤ 1

/-- Where the function starts behind its prologue, by this table. -/
def startByTable (start functionEnd : DbgAddr) (table : LineTable) : Option DbgAddr :=
  (getLineTableIndexOfPc table start).bind fun i =>
    prologueEndOrNext functionEnd (table.lines.drop i)

theorem prologueEndOrNext_isSome {lines : List LineEntry} (h : lines ≠ []) :
    ∃ addr, prologueEndOrNext functionEnd lines = some addr := by
  unfold prologueEndOrNext
  cases (lines.takeWhile (·.addr.value ≤ functionEnd.value)).find? (·.prologueEnd) with
  | some line => exact ⟨line.addr, rfl⟩
  | none =>
      match lines, h with
      | [firstLine], _ => exact ⟨firstLine.addr, rfl⟩
      | _ :: next :: _, _ => exact ⟨next.addr, rfl⟩

theorem startByTable_eq (hsorted : ByAddress table.lines) (h : Accepts table start) :
    startByTable start functionEnd table =
      prologueEndOrNext functionEnd (entriesFrom start table.lines) := by
  have hindex := (getLineTableIndexOfPc_iff hsorted).mpr ⟨rfl, h.1, h.2⟩
  rw [startByTable, hindex, Option.bind_some, drop_countBelow hsorted]

theorem startByTable_isSome (hsorted : ByAddress table.lines) :
    (∃ addr, startByTable start functionEnd table = some addr) ↔ Accepts table start := by
  constructor
  · intro ⟨addr, haddr⟩
    obtain ⟨i, hindex, _⟩ := Option.bind_eq_some_iff.mp haddr
    exact ((getLineTableIndexOfPc_iff hsorted).mp hindex).2
  · intro h
    rw [startByTable_eq hsorted h]
    obtain ⟨line, hmem, hle⟩ := h.1
    exact prologueEndOrNext_isSome
      (List.ne_nil_of_mem (List.mem_filter.mpr ⟨hmem, decide_eq_true hle⟩))

/-- The first table that has a start for the function gives it. -/
theorem effectiveStartAddr_eq (filepaths : List String)
    (hsorted : ∀ table, some table ∈ lineTables realpath filepaths dbg → ByAddress table.lines) :
    (effectiveStartAddr realpath start functionEnd filepaths dbg).1 =
      (lineTables realpath filepaths dbg).findSome? (·.bind (startByTable start functionEnd)) := by
  induction filepaths generalizing dbg with
  | nil => rfl
  | cons filepath rest ih =>
      unfold lineTables at hsorted
      unfold effectiveStartAddr lineTables
      revert hsorted
      rcases sdGetLineTable realpath filepath dbg with ⟨_ | table, dbg₁⟩
      · intro hsorted
        exact ih fun table hmem => hsorted table (List.mem_cons_of_mem _ hmem)
      · intro hsorted
        have htable := hsorted table List.mem_cons_self
        dsimp only
        rw [List.findSome?_cons, Option.bind_some]
        cases hindex : getLineTableIndexOfPc table start with
        | none =>
            have hnone : startByTable start functionEnd table = none := by
              rw [startByTable, hindex, Option.bind_none]
            rw [hnone]
            exact ih fun table hmem => hsorted table (List.mem_cons_of_mem _ hmem)
        | some i =>
            have haccepts := ((getLineTableIndexOfPc_iff htable).mp hindex).2
            obtain ⟨addr, haddr⟩ := (startByTable_isSome htable).mpr haccepts
            rw [haddr]
            rw [startByTable, hindex, Option.bind_some] at haddr
            exact haddr

/-- The first line of a function that ends its prologue. -/
def firstPrologueEnd (start functionEnd : DbgAddr) (lines : List LineEntry) : Option LineEntry :=
  lines.find? fun line =>
    line.prologueEnd && start.value ≤ line.addr.value && line.addr.value < functionEnd.value

/-- The first that does, if the function's end is taken for a part of it. -/
def firstPrologueEndTo (start functionEnd : DbgAddr) (lines : List LineEntry) : Option LineEntry :=
  lines.find? fun line =>
    line.prologueEnd && start.value ≤ line.addr.value && line.addr.value ≤ functionEnd.value

/-- The address is in the function, at its first prologue end if there is one. -/
structure StartsInside (lines : List LineEntry) (start functionEnd addr : DbgAddr) : Prop where
  le : start.value ≤ addr.value
  lt : addr.value < functionEnd.value
  prologueEnd : ∀ line, firstPrologueEnd start functionEnd lines = some line → addr = line.addr

/-- The function has a prologue end.  Or there is none just behind it either, and it has a
second address, unless it is the last in the table. -/
def OwnFits (start functionEnd : DbgAddr) (lines : List LineEntry) : Prop :=
  (∃ line ∈ lines, line.prologueEnd = true ∧ start.value ≤ line.addr.value ∧
      line.addr.value < functionEnd.value) ∨
    (∀ line ∈ lines, line.addr.value = functionEnd.value → line.prologueEnd = false) ∧
      ((∃ line ∈ lines, start.value < line.addr.value) →
        ∃ line ∈ lines, start.value < line.addr.value ∧ line.addr.value < functionEnd.value)

/-- A line is below the function's end, and at its first prologue end if there is one. -/
def Coincides (own : List LineEntry) (start functionEnd : DbgAddr) (line : LineEntry) : Prop :=
  line.addr.value < functionEnd.value ∧
    ∀ e, firstPrologueEnd start functionEnd own = some e → line.addr = e.addr

/-- The first prologue end from the function's start to its end, else the second line from
the start on, else the only one, happens to be right for the function of another table. -/
def ForeignFits (own : List LineEntry) (start functionEnd : DbgAddr) (lines : List LineEntry) :
    Prop :=
  match firstPrologueEndTo start functionEnd lines, entriesFrom start lines with
  | some line, _ => Coincides own start functionEnd line
  | none, _ :: next :: _ => Coincides own start functionEnd next
  | none, [line] => Coincides own start functionEnd line
  | none, [] => True

theorem firstPrologueEndTo_spec {line : LineEntry}
    (h : firstPrologueEndTo start functionEnd lines = some line) :
    (line.prologueEnd = true ∧ start.value ≤ line.addr.value) ∧
      line.addr.value ≤ functionEnd.value := by
  simpa using List.find?_some h

theorem scan_eq (hsorted : ByAddress lines) :
    ((entriesFrom start lines).takeWhile (·.addr.value ≤ functionEnd.value)).find?
        (·.prologueEnd) = firstPrologueEndTo start functionEnd lines := by
  have hfrom : ByAddress (entriesFrom start lines) := hsorted.filter _
  rw [hfrom.takeWhile_le functionEnd.value, entriesFrom, List.find?_filter, List.find?_filter,
    firstPrologueEndTo]
  congr 1
  funext line
  rw [Bool.eq_iff_iff]
  simp only [Bool.and_eq_true, decide_eq_true_eq]
  tauto

theorem mem_entriesFrom {line : LineEntry} :
    line ∈ entriesFrom start lines ↔ line ∈ lines ∧ start.value ≤ line.addr.value := by
  simp [entriesFrom]

theorem startsInside_iff_coincides {own : List LineEntry} {addr : DbgAddr} {line : LineEntry}
    (haddr : line.addr = addr) (hle : start.value ≤ line.addr.value) :
    StartsInside own start functionEnd addr ↔ Coincides own start functionEnd line := by
  subst haddr
  exact ⟨fun h => ⟨h.lt, h.prologueEnd⟩, fun h => ⟨hle, h.1, h.2⟩⟩

theorem startsInside_foreign {addr : DbgAddr} {own : List LineEntry} (hsorted : ByAddress lines)
    (haddr : prologueEndOrNext functionEnd (entriesFrom start lines) = some addr) :
    StartsInside own start functionEnd addr ↔ ForeignFits own start functionEnd lines := by
  unfold prologueEndOrNext at haddr
  rw [scan_eq hsorted] at haddr
  unfold ForeignFits
  cases hscan : firstPrologueEndTo start functionEnd lines with
  | some line =>
      rw [hscan] at haddr
      have hin := firstPrologueEndTo_spec hscan
      exact startsInside_iff_coincides (Option.some.inj haddr) hin.1.2
  | none =>
      rw [hscan] at haddr
      have hle : ∀ line ∈ entriesFrom start lines, start.value ≤ line.addr.value :=
        fun line hmem => (mem_entriesFrom.mp hmem).2
      revert haddr hle
      cases entriesFrom start lines with
      | nil =>
          intro haddr _
          cases haddr
      | cons first rest =>
          cases rest with
          | nil =>
              intro haddr hle
              exact startsInside_iff_coincides (Option.some.inj haddr)
                (hle first List.mem_cons_self)
          | cons next rest =>
              intro haddr hle
              exact startsInside_iff_coincides (Option.some.inj haddr)
                (hle next (List.mem_cons_of_mem _ List.mem_cons_self))

/-- A prologue end inside of the function comes first. -/
theorem ownFits_of_inside {line : LineEntry}
    (hscan : firstPrologueEndTo start functionEnd lines = some line)
    (hlt : line.addr.value < functionEnd.value) :
    firstPrologueEnd start functionEnd lines = some line ∧ OwnFits start functionEnd lines := by
  have hin := firstPrologueEndTo_spec hscan
  refine ⟨List.find?_of_imp ?_ hscan (by simp [hin, hlt]),
    .inl ⟨line, List.mem_of_find?_eq_some hscan, hin.1.1, hin.1.2, hlt⟩⟩
  intro x _ hx
  simp only [Bool.and_eq_true, decide_eq_true_eq] at hx ⊢
  exact ⟨hx.1, le_of_lt hx.2⟩

/-- One just behind the function comes first only if there is none inside. -/
theorem not_ownFits_of_outside (hsorted : ByAddress lines) {line : LineEntry}
    (hscan : firstPrologueEndTo start functionEnd lines = some line)
    (hge : ¬ line.addr.value < functionEnd.value) : ¬ OwnFits start functionEnd lines := by
  have hin := firstPrologueEndTo_spec hscan
  rintro (⟨x, hx, hend, hle, hlt⟩ | ⟨hnone, _⟩)
  · have hfirst := hsorted.find?_le hscan hx (by simp [hend, hle, le_of_lt hlt])
    exact hge (lt_of_le_of_lt hfirst hlt)
  · have hat := le_antisymm hin.2 (not_lt.mp hge)
    have := hnone line (List.mem_of_find?_eq_some hscan) hat
    rw [hin.1.1] at this
    cases this

/-- If only one line is at the start, the others from there on are behind it. -/
theorem entriesFrom_single (hsorted : ByAddress lines) (hone : countAt start lines = 1) :
    ∃ first rest, entriesFrom start lines = first :: rest ∧ first.addr.value = start.value ∧
      ∀ line, line ∈ rest ↔ line ∈ lines ∧ start.value < line.addr.value := by
  have hpos : 0 < countAt start lines := by omega
  obtain ⟨first, rest, hfrom, _, hat⟩ := entriesFrom_head hsorted hpos
  have hsub : countAt start (first :: rest) ≤ countAt start lines := by
    rw [← hfrom]
    exact List.filter_sublist.countP_le
  rw [countAt_cons, if_pos hat, hone] at hsub
  have hrest : ∀ line ∈ rest, line.addr.value ≠ start.value := by
    intro line hline hsame
    have := countAt_pos.mpr ⟨line, hline, hsame⟩
    omega
  refine ⟨first, rest, hfrom, hat, fun line => ?_⟩
  constructor
  · intro hline
    have hin : line ∈ entriesFrom start lines := hfrom ▸ List.mem_cons_of_mem _ hline
    obtain ⟨hmem, hle⟩ := mem_entriesFrom.mp hin
    exact ⟨hmem, lt_of_le_of_ne hle (hrest line hline).symm⟩
  · intro ⟨hmem, hlt⟩
    have hin := mem_entriesFrom.mpr ⟨hmem, le_of_lt hlt⟩
    rw [hfrom] at hin
    rcases List.mem_cons.mp hin with rfl | hin
    · exact absurd hat (ne_of_gt hlt)
    · exact hin

/-- Without a prologue end up to the function's end, the second address decides. -/
theorem ownFits_iff_second (hlt : start.value < functionEnd.value)
    (hnone : firstPrologueEndTo start functionEnd lines = none) :
    OwnFits start functionEnd lines ↔
      ((∃ line ∈ lines, start.value < line.addr.value) →
        ∃ line ∈ lines, start.value < line.addr.value ∧ line.addr.value < functionEnd.value) := by
  have hend : ∀ line ∈ lines, line.prologueEnd = true → start.value ≤ line.addr.value →
      ¬ line.addr.value ≤ functionEnd.value := by
    simpa [firstPrologueEndTo] using hnone
  constructor
  · rintro (⟨line, hmem, hline, hle, hin⟩ | ⟨_, h⟩)
    · exact absurd (le_of_lt hin) (hend line hmem hline hle)
    · exact h
  · intro h
    refine .inr ⟨fun line hmem hat => ?_, h⟩
    rw [← Bool.not_eq_true]
    exact fun hline => hend line hmem hline (hat ▸ le_of_lt hlt) (le_of_eq hat)

theorem coincides_iff_lt (hnone : firstPrologueEndTo start functionEnd lines = none)
    (line : LineEntry) :
    Coincides lines start functionEnd line ↔ line.addr.value < functionEnd.value := by
  have hfirst : firstPrologueEnd start functionEnd lines = none := by
    rw [firstPrologueEndTo, List.find?_eq_none] at hnone
    rw [firstPrologueEnd, List.find?_eq_none]
    intro e hmem he
    simp only [Bool.and_eq_true, decide_eq_true_eq] at he
    exact hnone e hmem (by simp [he.1, le_of_lt he.2])
  simp [Coincides, hfirst]

/-- The function's own table leads to an address inside if it fits. -/
theorem startsInside_own {addr : DbgAddr} (hsorted : ByAddress lines)
    (hone : countAt start lines = 1) (hlt : start.value < functionEnd.value)
    (haddr : prologueEndOrNext functionEnd (entriesFrom start lines) = some addr) :
    StartsInside lines start functionEnd addr ↔ OwnFits start functionEnd lines := by
  unfold prologueEndOrNext at haddr
  rw [scan_eq hsorted] at haddr
  cases hscan : firstPrologueEndTo start functionEnd lines with
  | some line =>
      rw [hscan] at haddr
      have hin := firstPrologueEndTo_spec hscan
      rw [startsInside_iff_coincides (Option.some.inj haddr) hin.1.2]
      by_cases hinside : line.addr.value < functionEnd.value
      · obtain ⟨hfirst, hfits⟩ := ownFits_of_inside hscan hinside
        refine ⟨fun _ => hfits, fun _ => ⟨hinside, fun e he => ?_⟩⟩
        rw [hfirst] at he
        rw [Option.some.inj he]
      · exact ⟨fun h => absurd h.1 hinside,
          fun h => absurd h (not_ownFits_of_outside hsorted hscan hinside)⟩
  | none =>
      rw [hscan] at haddr
      obtain ⟨first, rest, hfrom, hat, hrest⟩ := entriesFrom_single hsorted hone
      rw [hfrom] at haddr
      rw [ownFits_iff_second hlt hscan]
      cases rest with
      | nil =>
          rw [startsInside_iff_coincides (Option.some.inj haddr) (le_of_eq hat.symm),
            coincides_iff_lt hscan, hat]
          refine ⟨fun _ ⟨line, hmem, hbehind⟩ => ?_, fun _ => hlt⟩
          exact absurd ((hrest line).mpr ⟨hmem, hbehind⟩) List.not_mem_nil
      | cons next rest =>
          have hnext := (hrest next).mp List.mem_cons_self
          rw [startsInside_iff_coincides (Option.some.inj haddr) (le_of_lt hnext.2),
            coincides_iff_lt hscan]
          constructor
          · intro hin _
            exact ⟨next, hnext.1, hnext.2, hin⟩
          · intro h
            obtain ⟨line, hmem, hbehind, hin⟩ := h ⟨next, hnext⟩
            have hord : ByAddress (first :: next :: rest) := hfrom ▸ hsorted.filter _
            rcases List.mem_cons.mp ((hrest line).mpr ⟨hmem, hbehind⟩) with rfl | hline
            · exact hin
            · exact lt_of_le_of_lt
                ((List.pairwise_cons.mp (List.pairwise_cons.mp hord).2).1 line hline) hin

/-- The first table with a line that is taken for that of the function's start fits. -/
def FirstFits (own : LineTable) (tables : List (Option LineTable)) (start functionEnd : DbgAddr) :
    Prop :=
  ∀ before table after, tables = before ++ some table :: after → Accepts table start →
    (∀ other, some other ∈ before → ¬ Accepts other start) →
    (table = own → OwnFits start functionEnd own.lines) ∧
      (table ≠ own → ForeignFits own.lines start functionEnd table.lines)

variable {filepaths : List String}

theorem startsInside_byTable {addr : DbgAddr} (hsorted : ByAddress table.lines)
    (hlt : start.value < functionEnd.value)
    (hown : ∃ line ∈ own.lines, line.addr.value = start.value)
    (haddr : startByTable start functionEnd table = some addr) :
    StartsInside own.lines start functionEnd addr ↔
      (table = own → OwnFits start functionEnd own.lines) ∧
        (table ≠ own → ForeignFits own.lines start functionEnd table.lines) := by
  have haccepts := (startByTable_isSome hsorted).mp ⟨addr, haddr⟩
  rw [startByTable_eq hsorted haccepts] at haddr
  by_cases hsame : table = own
  · subst hsame
    have hpos := countAt_pos.mpr hown
    have hone : countAt start table.lines = 1 := le_antisymm haccepts.2 hpos
    rw [startsInside_own hsorted hone hlt haddr]
    simp
  · rw [startsInside_foreign hsorted haddr]
    simp [hsame]

/-- The start behind the prologue, if one is found, is inside of the function. -/
def EffectiveStartInside (realpath : String → Realpath) (start functionEnd : DbgAddr)
    (dbg : DwarfDebug Die) (own : LineTable) : Prop :=
  ∀ addr, (sdEffectiveStartAddr realpath start functionEnd dbg).1 = some (some addr) →
    StartsInside own.lines start functionEnd addr

/-- **A function starts inside of its range exactly if the first table that has a line for
it fits.** -/
theorem effectiveStartInside_iff_firstFits
    (hpaths : sdGetFilepaths dbg = (some filepaths, dbg₁))
    (hsorted : ∀ table, some table ∈ lineTables realpath filepaths dbg₁ → ByAddress table.lines)
    (hlt : start.value < functionEnd.value)
    (hown : ∃ line ∈ own.lines, line.addr.value = start.value) :
    EffectiveStartInside realpath start functionEnd dbg own ↔
      FirstFits own (lineTables realpath filepaths dbg₁) start functionEnd := by
  have hstart : (sdEffectiveStartAddr realpath start functionEnd dbg).1 =
      some ((lineTables realpath filepaths dbg₁).findSome?
        (·.bind (startByTable start functionEnd))) := by
    unfold sdEffectiveStartAddr
    rw [hpaths]
    exact congrArg some (effectiveStartAddr_eq filepaths hsorted)
  unfold EffectiveStartInside
  simp only [hstart, Option.some.injEq]
  constructor
  · intro h before table after hsplit haccepts hfirst
    have hmem : some table ∈ lineTables realpath filepaths dbg₁ := by simp [hsplit]
    obtain ⟨addr, haddr⟩ := (startByTable_isSome (hsorted table hmem)).mpr haccepts
    refine (startsInside_byTable (hsorted table hmem) hlt hown haddr).mp (h addr ?_)
    refine List.findSome?_eq_some_iff.mpr ⟨before, some table, after, hsplit, haddr, ?_⟩
    intro other hother
    cases other with
    | none => rfl
    | some other =>
        have hin : some other ∈ lineTables realpath filepaths dbg₁ := by simp [hsplit, hother]
        rw [Option.bind_some, Option.eq_none_iff_forall_ne_some]
        exact fun a ha =>
          hfirst other hother ((startByTable_isSome (hsorted other hin)).mp ⟨a, ha⟩)
  · intro h addr hfound
    obtain ⟨before, found, after, hsplit, haddr, hnone⟩ := List.findSome?_eq_some_iff.mp hfound
    obtain ⟨table, rfl, haddr⟩ := Option.bind_eq_some_iff.mp haddr
    have hmem : some table ∈ lineTables realpath filepaths dbg₁ := by simp [hsplit]
    refine (startsInside_byTable (hsorted table hmem) hlt hown haddr).mpr
      (h before table after hsplit
        ((startByTable_isSome (hsorted table hmem)).mp ⟨addr, haddr⟩) ?_)
    intro other hother haccepts
    have hin : some other ∈ lineTables realpath filepaths dbg₁ := by simp [hsplit, hother]
    obtain ⟨a, ha⟩ := (startByTable_isSome (hsorted other hin)).mpr haccepts
    have := hnone (some other) hother
    rw [Option.bind_some, ha] at this
    cases this

/-- A unit's own source files. -/
def unitFiles (die : Die) : List String :=
  if sdHasTag die .compileUnit then (die.srcfiles.toOption).getD [] else []

/-- The file paths are those of all units, in order. -/
theorem sdGetFilepaths_eq (info types : List (RoseTree Die)) :
    sdGetFilepaths (.ofTrees info types) =
      (some ((documentOrder info types).flatMap unitFiles), .ofTrees info types) := by
  have hvisit : ∀ (dies : List (Die × List Die)) (found : List String),
      visitUntil (visitDie callbackGetFilepaths) dies found =
        (false, found ++ (dies.map Prod.fst).flatMap unitFiles) := by
    intro dies
    induction dies with
    | nil => intro found; simp [visitUntil]
    | cons p rest ih =>
        intro found
        have hone : visitDie callbackGetFilepaths p found = (false, found ++ unitFiles p.1) := by
          unfold visitDie callbackGetFilepaths unitFiles
          cases sdHasTag p.1 .compileUnit with
          | false => simp
          | true =>
              cases p.1.srcfiles with
              | ok files => rfl
              | noEntry => simp [Dlv.toOption]
              | error => simp [Dlv.toOption]
        rw [visitUntil_cons_false hone, ih, List.append_assoc]
        rfl
  unfold sdGetFilepaths
  rw [sdSearchDwarfDbg_eq, hvisit]
  rfl

/-! ### A function, and the next one -/

theorem unitOf_range (lines : List LineEntry) (highPc : Word) :
    sdGetSubprogPcRange "f" (.ofTrees [unitOf lines highPc] []) =
      (some (0x1000, highPc), .ofTrees [unitOf lines highPc] []) := by
  rw [sdGetSubprogPcRange_eq, unitOf_order]
  rfl

/-- The function goes on behind the last line. -/
theorem visitsFunction_last :
    VisitsFunction .path "f" "/src/a.c" (.ofTrees [unitOf loopLines 0x1010] []) 0x1000 0x1010
      loopLines :=
  (visitsFunction_iff (unitOf_range loopLines 0x1010) (unitOf_table loopLines 0x1010)
    loopLines_byAddress (by decide)).mpr ⟨by decide, by decide⟩

/-- The last line is the first of the next function. -/
theorem visitsFunction_fails_adjacent :
    ByAddress loopLines ∧ (∃ line ∈ loopLines, line.addr.value = 0x1000) ∧
      ¬ VisitsFunction .path "f" "/src/a.c" (.ofTrees [unitOf loopLines 0x1008] []) 0x1000 0x1008
        loopLines := by
  refine ⟨loopLines_byAddress, by decide, ?_⟩
  intro h
  have hseen := h _ (fun _ calls => (.ok, calls + 1)) 0 (fun _ _ => rfl)
  rw [sdForEachLineWith_eq _ _ (unitOf_range loopLines 0x1008) (unitOf_table loopLines 0x1008)
    loopLines_byAddress (by decide)] at hseen
  exact absurd hseen (by decide)

theorem unitOf_filepaths (lines : List LineEntry) (highPc : Word) :
    sdGetFilepaths (.ofTrees [unitOf lines highPc] []) =
      (some ["/src/a.c"], .ofTrees [unitOf lines highPc] []) := by
  rw [sdGetFilepaths_eq, unitOf_order]
  rfl

theorem unitOf_tables (lines : List LineEntry) (highPc : Word) :
    lineTables .path ["/src/a.c"] (.ofTrees [unitOf lines highPc] []) = [some ⟨lines, 0⟩] := by
  unfold lineTables
  rw [unitOf_table]
  rfl

theorem unitOf_sorted (highPc : Word) (table : LineTable)
    (hmem : some table ∈ lineTables .path ["/src/a.c"] (.ofTrees [unitOf loopLines highPc] [])) :
    ByAddress table.lines := by
  rw [unitOf_tables, List.mem_singleton] at hmem
  rw [Option.some.inj hmem]
  exact loopLines_byAddress

/-- The function's prologue ends at its second address. -/
theorem effectiveStartInside_prologueEnd :
    EffectiveStartInside .path ⟨0x1000⟩ ⟨0x1008⟩ (.ofTrees [unitOf loopLines 0x1008] [])
      ⟨loopLines, 0⟩ := by
  have hfits : FirstFits ⟨loopLines, 0⟩
      (lineTables .path ["/src/a.c"] (.ofTrees [unitOf loopLines 0x1008] [])) ⟨0x1000⟩ ⟨0x1008⟩ := by
    intro before table after hsplit _ _
    have hmem : some table ∈
        lineTables .path ["/src/a.c"] (.ofTrees [unitOf loopLines 0x1008] []) := by
      rw [hsplit]
      exact List.mem_append_right _ List.mem_cons_self
    rw [unitOf_tables, List.mem_singleton] at hmem
    exact ⟨fun _ => .inl (by decide), fun hne => absurd (Option.some.inj hmem) hne⟩
  exact (effectiveStartInside_iff_firstFits (unitOf_filepaths loopLines 0x1008)
    (unitOf_sorted 0x1008) (by decide) (by decide)).mpr hfits

/-- The function has one line, and the one behind it is the next function's. -/
theorem effectiveStartInside_fails_adjacent :
    ByAddress loopLines ∧ (∃ line ∈ loopLines, line.addr.value = 0x1000) ∧
      ¬ EffectiveStartInside .path ⟨0x1000⟩ ⟨0x1004⟩ (.ofTrees [unitOf loopLines 0x1004] [])
        ⟨loopLines, 0⟩ := by
  refine ⟨loopLines_byAddress, by decide, ?_⟩
  intro h
  have hfound : (sdEffectiveStartAddr .path ⟨0x1000⟩ ⟨0x1004⟩
      (.ofTrees [unitOf loopLines 0x1004] [])).1 = some (some ⟨0x1004⟩) := by
    unfold sdEffectiveStartAddr
    rw [unitOf_filepaths]
    dsimp only
    unfold effectiveStartAddr
    rw [unitOf_table]
    decide
  exact absurd (h _ hfound).lt (by decide)

end Spray
