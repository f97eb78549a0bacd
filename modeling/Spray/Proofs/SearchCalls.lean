/-
Searches one after the other.

The cursor over the unit headers outlives a search, which has to take it through all of them
to have it back at the first.  A search that is cut short, by a call to libdwarf that fails or
finds nothing in a unit, leaves it behind that unit, and there the next search begins.
-/
import Spray.Proofs.Search

namespace Spray

variable {D σ : Type}

/-! ### What a walk comes by -/

/-- The DIEs to visit from here on, with their levels; a call that fails in place of one. -/
def Nav.steps (level : Nat) : Nav D → List (Option (D × Nat))
  | .noEntry => []
  | .error => [none]
  | .ok die child sibling => some (die, level) :: (child.steps (level + 1) ++ sibling.steps level)

/-- The same for a unit, which must have a DIE of its own. -/
def CompUnit.steps : CompUnit D → List (Option (D × Nat))
  | .corrupt => []
  | .header .noEntry => [none]
  | .header cuDie => cuDie.steps 0

def visitAt (callback : SearchCallback D σ) : D × Nat → σ → Bool × σ := fun p => callback p.1 p.2

/-- The search of a DIE has come to the end that the visit has. -/
def EndsAs : Option (Bool × σ) → Dlv Unit × σ → Prop
  | none, out => out.1 = .error
  | some (found, t), out => out = (.ofFound found, t)

theorem sdSearchDwarfDie_steps (callback : SearchCallback D σ) (nav : Nav D) : ∀ level s,
    EndsAs (visitSome (visitAt callback) (nav.steps level) s)
      (sdSearchDwarfDie callback level nav s) := by
  induction nav with
  | noEntry => exact fun _ _ => rfl
  | error => exact fun _ _ => rfl
  | ok die child sibling ihc ihs =>
      intro level s
      rw [Nav.steps, visitSome, sdSearchDwarfDie]
      cases hcall : callback die level s with
      | mk found s' =>
          have hvisit : visitAt callback (die, level) s = (found, s') := hcall
          rw [hvisit]
          cases found with
          | true => rfl
          | false =>
              have hchild := ihc (level + 1) s'
              dsimp only
              rw [visitSome_append]
              cases hvisit : visitSome (visitAt callback) (child.steps (level + 1)) s' with
              | none =>
                  rw [hvisit] at hchild
                  cases hrun : sdSearchDwarfDie callback (level + 1) child s' with
                  | mk code t =>
                      rw [hrun] at hchild
                      obtain rfl : code = .error := hchild
                      rfl
              | some r =>
                  rw [hvisit] at hchild
                  obtain ⟨found, t⟩ := r
                  rw [show sdSearchDwarfDie callback (level + 1) child s' = _ from hchild]
                  cases found with
                  | true => rfl
                  | false => exact ihs level t

/-- A unit's part of a search. -/
theorem searchUnit_steps (callback : SearchCallback D σ) (cuDie : Nav D) (s : σ) :
    match visitSome (visitAt callback) (CompUnit.header cuDie).steps s with
    | none => ∃ code t, searchUnit callback false cuDie s = (.error code, t)
    | some (found, t) => searchUnit callback false cuDie s = (.ok found, t) := by
  cases cuDie with
  | noEntry => exact ⟨.noEntry, s, rfl⟩
  | error => exact ⟨.error, s, rfl⟩
  | ok die child sibling =>
      have hdie := sdSearchDwarfDie_steps callback (.ok die child sibling) 0 s
      rw [show (CompUnit.header (.ok die child sibling)).steps = Nav.steps 0 _ from rfl]
      unfold searchUnit
      rw [if_neg Bool.false_ne_true]
      dsimp only
      cases hrun : sdSearchDwarfDie callback 0 (.ok die child sibling) s with
      | mk code t =>
          rw [hrun] at hdie
          cases hvisit : visitSome (visitAt callback) ((Nav.ok die child sibling).steps 0) s with
          | none =>
              rw [hvisit] at hdie
              obtain rfl : code = .error := hdie
              exact ⟨.error, t, rfl⟩
          | some r =>
              rw [hvisit] at hdie
              obtain ⟨found, u⟩ := r
              obtain ⟨rfl, rfl⟩ := Prod.mk.inj (show (code, t) = (.ofFound found, u) from hdie)
              cases found with
              | true => rfl
              | false => rfl

/-! ### A section -/

/-- What becomes of a search in a section: nothing if it is cut short. -/
def sectionOutcome (callback : SearchCallback D σ) :
    List (CompUnit D) → Bool × σ → Option (Bool × σ)
  | [], r => some r
  | .corrupt :: _, _ => none
  | .header cuDie :: units, r =>
    (if r.1 then some r else visitSome (visitAt callback) (CompUnit.header cuDie).steps r.2).bind
      (sectionOutcome callback units)

/-- The headers of a section can be read, or not even the first one. -/
def Readable (units : List (CompUnit D)) : Prop :=
  units.head? = some .corrupt ∨ .corrupt ∉ units

/-- All steps of a section; none if its first header cannot be read. -/
def sectionSteps : List (CompUnit D) → List (Option (D × Nat))
  | .corrupt :: _ => []
  | units => units.flatMap CompUnit.steps

theorem sectionSteps_eq {units : List (CompUnit D)} (h : units.head? ≠ some .corrupt) :
    sectionSteps units = units.flatMap CompUnit.steps := by
  unfold sectionSteps
  split
  · exact absurd rfl h
  · rfl

theorem sectionOutcome_corrupt (callback : SearchCallback D σ) {units : List (CompUnit D)}
    (h : .corrupt ∈ units) (r : Bool × σ) : sectionOutcome callback units r = none := by
  induction units generalizing r with
  | nil => cases h
  | cons unit units ih =>
      cases unit with
      | corrupt => rfl
      | header cuDie =>
          have hrest : .corrupt ∈ units := by simpa using h
          rw [sectionOutcome, Option.bind_eq_none_iff]
          exact fun q _ => ih hrest q

/-- Where all headers can be read, the search is the visit of all units' steps. -/
theorem sectionOutcome_readable (callback : SearchCallback D σ) {units : List (CompUnit D)}
    (h : .corrupt ∉ units) (r : Bool × σ) :
    sectionOutcome callback units r =
      if r.1 then some r else visitSome (visitAt callback) (units.flatMap CompUnit.steps) r.2 := by
  induction units generalizing r with
  | nil =>
      obtain ⟨found, s⟩ := r
      cases found with
      | true => rfl
      | false => rfl
  | cons unit units ih =>
      cases unit with
      | corrupt => exact absurd List.mem_cons_self h
      | header cuDie =>
          have hrest : .corrupt ∉ units := fun hmem => h (List.mem_cons_of_mem _ hmem)
          rw [sectionOutcome, funext (ih hrest), List.flatMap_cons, visitSome_append]
          obtain ⟨found, s⟩ := r
          cases found with
          | true => rfl
          | false => rfl

/-- Where a search that is cut short leaves a section: at the first header, if that is the one
that cannot be read, or further on. -/
def StoppedIn (units rest : List (CompUnit D)) : Prop :=
  units.head? = some .corrupt ∧ rest = units ∨
    units.head? ≠ some .corrupt ∧ rest.length < units.length

theorem StoppedIn.length_le {units rest : List (CompUnit D)} (h : StoppedIn units rest) :
    rest.length ≤ units.length := by
  rcases h with ⟨-, rfl⟩ | ⟨-, h⟩
  · exact Nat.le_refl _
  · exact Nat.le_of_lt h

/-- The cursor of a section, moved. -/
def DwarfDebug.setLeft (isInfo : Bool) (left : List (CompUnit D)) (dbg : DwarfDebug D) :
    DwarfDebug D :=
  if isInfo then { dbg with infoLeft := left } else { dbg with typesLeft := left }

/-- The loop over the units has come to the end of a section, or to where it is cut short. -/
def SectionEnds (callback : SearchCallback D σ) (isInfo : Bool) (dbg : DwarfDebug D)
    (units : List (CompUnit D)) (out : Dlv Unit × DwarfDebug D × σ) : Option (Bool × σ) → Prop
  | some r => out = searchUnits callback isInfo r.1 (dbg.setLeft isInfo []) r.2
  | none => ∃ code rest s, out = (code, dbg.setLeft isInfo rest, s) ∧ StoppedIn units rest

theorem searchUnits_section (callback : SearchCallback D σ) (isInfo : Bool) (dbg : DwarfDebug D)
    (units : List (CompUnit D)) : ∀ r, SectionEnds callback isInfo dbg units
      (searchUnits callback isInfo r.1 (dbg.setLeft isInfo units) r.2)
      (sectionOutcome callback units r) := by
  induction units with
  | nil => exact fun _ => rfl
  | cons unit units ih =>
      intro r
      cases unit with
      | corrupt =>
          refine ⟨.error, .corrupt :: units, r.2, ?_, .inl ⟨rfl, rfl⟩⟩
          rw [searchUnits]
          cases isInfo with
          | true => rfl
          | false => rfl
      | header cuDie =>
          have hnext : dwarfNextCuHeader isInfo (dbg.setLeft isInfo (.header cuDie :: units)) =
              (.ok cuDie, dbg.setLeft isInfo units) := by
            cases isInfo with
            | true => rfl
            | false => rfl
          have hfurther : ∀ rest, rest.length ≤ units.length →
              StoppedIn (.header cuDie :: units) rest :=
            fun rest hle => .inr ⟨by simp, Nat.lt_succ_of_le hle⟩
          -- The units behind this one, with what has been found so far.
          have hbehind : ∀ r, SectionEnds callback isInfo dbg (.header cuDie :: units)
              (searchUnits callback isInfo r.1 (dbg.setLeft isInfo units) r.2)
              (sectionOutcome callback units r) := by
            intro r
            have hr := ih r
            cases houtcome : sectionOutcome callback units r with
            | some q =>
                rw [houtcome] at hr
                exact hr
            | none =>
                rw [houtcome] at hr
                obtain ⟨code, rest, s, hrun, hstopped⟩ := hr
                exact ⟨code, rest, s, hrun, hfurther rest hstopped.length_le⟩
          obtain ⟨found, s⟩ := r
          rw [searchUnits_next callback hnext]
          cases found with
          | true => exact hbehind (true, s)
          | false =>
              have hunit := searchUnit_steps callback cuDie s
              rw [sectionOutcome, if_neg Bool.false_ne_true]
              dsimp only
              cases hvisit : visitSome (visitAt callback) (CompUnit.header cuDie).steps s with
              | none =>
                  rw [hvisit] at hunit
                  obtain ⟨code, t, hrun⟩ := hunit
                  rw [hrun]
                  exact ⟨code, units, t, rfl, hfurther units (Nat.le_refl _)⟩
              | some q =>
                  obtain ⟨found, t⟩ := q
                  rw [hvisit] at hunit
                  rw [show searchUnit callback false cuDie s = _ from hunit]
                  exact hbehind (found, t)

/-! ### One search -/

/-- An executable, the cursor at the first unit of both sections. -/
def DwarfDebug.fresh (info types : List (CompUnit D)) : DwarfDebug D := ⟨info, types, info, types⟩

/-- A search is not cut short behind a first header: all unit headers can be read, and each
call for a DIE succeeds, unless a DIE in front of it is accepted. -/
def Completes (callback : SearchCallback D σ) (s : σ) (info types : List (CompUnit D)) : Prop :=
  info.head? = some .corrupt ∨ .corrupt ∉ info ∧ Readable types ∧
    ¬ CutShort (visitAt callback) (info.flatMap CompUnit.steps ++ sectionSteps types) s

variable {info types : List (CompUnit D)}

/-- A section that is left behind its first header is not at the first any more. -/
theorem SectionEnds.not_fresh {callback : SearchCallback D σ} {isInfo : Bool}
    {out : Dlv Unit × DwarfDebug D × σ}
    (h : SectionEnds callback isInfo (.fresh info types) (if isInfo then info else types) out none)
    (hhead : (if isInfo then info else types).head? ≠ some .corrupt) :
    out.2.1 ≠ .fresh info types := by
  obtain ⟨code, rest, s, rfl, ⟨hcorrupt, -⟩ | ⟨-, hlt⟩⟩ := h
  · exact absurd hcorrupt hhead
  · intro hsame
    cases isInfo with
    | true =>
        have hrest : rest = info := congrArg DwarfDebug.infoLeft hsame
        rw [hrest] at hlt
        exact Nat.lt_irrefl _ hlt
    | false =>
        have hrest : rest = types := congrArg DwarfDebug.typesLeft hsame
        rw [hrest] at hlt
        exact Nat.lt_irrefl _ hlt

theorem searchUnits_types_fresh_iff (callback : SearchCallback D σ) (r : Bool × σ) :
    (searchUnits callback false r.1 (.fresh info types) r.2).2.1 = .fresh info types ↔
      types.head? = some .corrupt ∨ .corrupt ∉ types ∧
        sectionOutcome callback types r ≠ none := by
  have hends := searchUnits_section callback false (.fresh info types) types r
  by_cases hhead : types.head? = some .corrupt
  · obtain ⟨units, rfl⟩ := List.head?_eq_some_iff.mp hhead
    refine iff_of_true ?_ (.inl hhead)
    rw [searchUnits]
    rfl
  · rw [or_iff_right hhead]
    cases houtcome : sectionOutcome callback types r with
    | none =>
        rw [houtcome] at hends
        exact iff_of_false (hends.not_fresh hhead) fun h => h.2 rfl
    | some q =>
        rw [houtcome] at hends
        refine iff_of_true ?_ ⟨?_, Option.some_ne_none q⟩
        · rw [show searchUnits callback false r.1 (.fresh info types) r.2 = _ from hends, searchUnits]
          rfl
        · intro hcorrupt
          rw [sectionOutcome_corrupt callback hcorrupt] at houtcome
          cases houtcome

theorem sdSearchDwarfDbg_fresh_iff (callback : SearchCallback D σ) (s : σ) :
    (sdSearchDwarfDbg callback (.fresh info types) s).2.1 = .fresh info types ↔
      Completes callback s info types := by
  have hends := searchUnits_section callback true (.fresh info types) info (false, s)
  unfold Completes
  by_cases hhead : info.head? = some .corrupt
  · obtain ⟨units, rfl⟩ := List.head?_eq_some_iff.mp hhead
    refine iff_of_true ?_ (.inl hhead)
    rw [sdSearchDwarfDbg, searchUnits]
    rfl
  · rw [or_iff_right hhead]
    by_cases hcorrupt : .corrupt ∈ info
    · rw [sectionOutcome_corrupt callback hcorrupt] at hends
      exact iff_of_false (hends.not_fresh hhead) fun h => h.1 hcorrupt
    · have hinfo := sectionOutcome_readable callback hcorrupt (false, s)
      rw [if_neg Bool.false_ne_true] at hinfo
      rw [← visitSome_eq_none_iff, visitSome_append, ← hinfo]
      cases houtcome : sectionOutcome callback info (false, s) with
      | none =>
          rw [houtcome] at hends
          exact iff_of_false (hends.not_fresh hhead) fun h => h.2.2 rfl
      | some r =>
          rw [houtcome] at hends
          have hrun : sdSearchDwarfDbg callback (.fresh info types) s =
              searchUnits callback false r.1 (.fresh info types) r.2 := by
            refine Eq.trans hends ?_
            rw [searchUnits]
            rfl
          rw [hrun, searchUnits_types_fresh_iff, Option.bind_some, and_iff_right hcorrupt]
          by_cases htypes : types.head? = some .corrupt
          · obtain ⟨units, rfl⟩ := List.head?_eq_some_iff.mp htypes
            refine iff_of_true (.inl htypes) ⟨.inl htypes, ?_⟩
            split
            · exact Option.some_ne_none r
            · exact Option.some_ne_none _
          · rw [Readable, or_iff_right htypes, or_iff_right htypes, sectionSteps_eq htypes]
            exact and_congr_right fun hreadable => by rw [sectionOutcome_readable callback hreadable]

/-! ### Searches -/

/-- A call of `sd_search_dwarf_dbg`: its callback, and the findings it begins with. -/
structure SearchCall (D : Type) : Type 1 where
  Findings : Type
  callback : SearchCallback D Findings
  findings : Findings

def SearchCall.run (call : SearchCall D) (dbg : DwarfDebug D) :
    Dlv Unit × DwarfDebug D × call.Findings :=
  sdSearchDwarfDbg call.callback dbg call.findings

/-- What a call returns, and what it has found. -/
def SearchCall.result (call : SearchCall D) (dbg : DwarfDebug D) : Dlv Unit × call.Findings :=
  ((call.run dbg).1, (call.run dbg).2.2)

/-- The cursor after some calls. -/
def afterCalls (dbg : DwarfDebug D) (calls : List (SearchCall D)) : DwarfDebug D :=
  calls.foldl (fun dbg call => (call.run dbg).2.1) dbg

/-- Each call begins at the first unit, and has the result of a first call. -/
def Independent (info types : List (CompUnit D)) (calls : List (SearchCall D)) : Prop :=
  ∀ before call after, calls = before ++ call :: after →
    afterCalls (.fresh info types) before = .fresh info types ∧
      call.result (afterCalls (.fresh info types) before) = call.result (.fresh info types)

theorem run_fresh_iff (call : SearchCall D) :
    (call.run (.fresh info types)).2.1 = .fresh info types ↔
      Completes call.callback call.findings info types :=
  sdSearchDwarfDbg_fresh_iff call.callback call.findings

theorem afterCalls_concat (dbg : DwarfDebug D) (calls : List (SearchCall D)) (call : SearchCall D) :
    afterCalls dbg (calls ++ [call]) = (call.run (afterCalls dbg calls)).2.1 := by
  rw [afterCalls, List.foldl_append]
  rfl

/-- Searches that are not cut short leave the cursor at the first unit, one after the other. -/
theorem afterCalls_fresh {calls : List (SearchCall D)}
    (h : ∀ call ∈ calls, Completes call.callback call.findings info types) :
    afterCalls (.fresh info types) calls = .fresh info types := by
  induction calls with
  | nil => rfl
  | cons call calls ih =>
      have hfirst := (run_fresh_iff call).mpr (h call List.mem_cons_self)
      rw [afterCalls, List.foldl_cons, hfirst]
      exact ih fun c hc => h c (List.mem_cons_of_mem _ hc)

/-- **The searches do not depend on each other exactly if none but the last is cut short.** -/
theorem independent_iff (info types : List (CompUnit D)) (calls : List (SearchCall D)) :
    Independent info types calls ↔
      ∀ call ∈ calls.dropLast, Completes call.callback call.findings info types := by
  constructor
  · intro h call hcall
    have hne : calls ≠ [] := by
      rintro rfl
      cases hcall
    obtain ⟨before, mid, hsplit⟩ := List.append_of_mem hcall
    have hcalls : calls = before ++ call :: (mid ++ [calls.getLast hne]) := by
      rw [← List.cons_append, ← List.append_assoc, ← hsplit, List.dropLast_append_getLast]
    obtain ⟨next, after, hnext⟩ : ∃ next after, mid ++ [calls.getLast hne] = next :: after :=
      List.exists_cons_of_ne_nil (by simp)
    rw [hnext] at hcalls
    have hbefore := (h before call (next :: after) hcalls).1
    have hafter := (h (before ++ [call]) next after (by rw [hcalls]; simp)).1
    rw [afterCalls_concat, hbefore] at hafter
    exact (run_fresh_iff call).mp hafter
  · rintro h before call after rfl
    have hfresh : afterCalls (.fresh info types) before = .fresh info types := by
      refine afterCalls_fresh fun c hc => h c ?_
      rw [List.dropLast_append_cons]
      exact List.mem_append_left _ hc
    exact ⟨hfresh, by rw [hfresh]⟩

/-! ### An error in the first unit -/

/-- The child of the first unit's DIE cannot be read; the second unit is sound. -/
def brokenInfo : List (CompUnit Nat) :=
  [.header (.ok 1 .error .noEntry), .header (.ok 2 .noEntry .noEntry)]

/-- A search for one DIE. -/
def lookFor (n : Nat) : SearchCall Nat := ⟨Unit, fun die _ _ => (die = n, ()), ()⟩

/-- After a search for the second unit's DIE, which fails, the first one's is not found. -/
theorem independent_fails_broken : ¬ Independent brokenInfo [] [lookFor 2, lookFor 1] := by
  intro h
  have hcompletes := (independent_iff _ _ _).mp h (lookFor 2) (by simp)
  rcases hcompletes with hhead | ⟨-, -, hcut⟩
  · cases hhead
  · exact hcut ⟨[(1, 0)], _, (), rfl, .cons rfl (.nil ())⟩

end Spray
