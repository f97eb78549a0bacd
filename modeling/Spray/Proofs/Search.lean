/-
The search is a complete preorder search.

Where libdwarf describes finite trees and no call fails, the search is the visit of a
list: the DIEs of all units in document order.  The level a DIE is visited with is the
number of DIEs above it.
-/
import Spray.Dwarf.Search

namespace Spray

variable {D σ : Type}

/-- What there is to navigate to in a forest. -/
def Nav.ofForest : Forest D → Nav D
  | .nil => .noEntry
  | .cons die children rest => .ok die (ofForest children) (ofForest rest)

/-- The units of a section. -/
def CompUnit.ofTrees (ts : List (RoseTree D)) : List (CompUnit D) :=
  ts.map fun t => .header (Nav.ofForest t.forest)

/-- An executable with these trees of DIEs in its two sections, the cursor at the first unit. -/
def DwarfDebug.ofTrees (info types : List (RoseTree D)) : DwarfDebug D where
  info := CompUnit.ofTrees info
  types := CompUnit.ofTrees types
  infoLeft := CompUnit.ofTrees info
  typesLeft := CompUnit.ofTrees types

/-- What the search does with one DIE, given the DIEs above it. -/
def visitDie (callback : SearchCallback D σ) : D × List D → σ → Bool × σ :=
  fun p => callback p.1 p.2.length

/-- The result code of a search. -/
def Dlv.ofFound (found : Bool) : Dlv Unit := if found then .ok () else .noEntry

/-! ### One unit -/

theorem searchDie_preorder (callback : SearchCallback D σ) (f : Forest D) :
    ∀ above s, sdSearchDwarfDie callback above.length (Nav.ofForest f) s =
      ((.ofFound (visitUntil (visitDie callback) (f.preorder above) s).1,
        (visitUntil (visitDie callback) (f.preorder above) s).2)) := by
  induction f with
  | nil => exact fun _ _ => rfl
  | cons die children rest ihc ihr =>
      intro above s
      unfold Nav.ofForest sdSearchDwarfDie Forest.preorder
      cases hv : callback die above.length s with
      | mk found s' =>
          have hvisit : visitDie callback (die, above) s = (found, s') := hv
          cases found with
          | true => rw [visitUntil_cons_true hvisit]; rfl
          | false =>
              rw [visitUntil_cons_false hvisit, visitUntil_append]
              dsimp only
              have hchildren := ihc (die :: above) s'
              rw [List.length_cons] at hchildren
              rw [hchildren]
              cases visitUntil (visitDie callback) (children.preorder (die :: above)) s' with
              | mk found t =>
                  cases found with
                  | true => rfl
                  | false => exact ihr above t

/-- The visit goes on only until something has been found. -/
def visitUnlessFound (callback : SearchCallback D σ) (as : List (D × List D)) (s : Bool × σ) :
    Bool × σ := if s.1 then s else visitUntil (visitDie callback) as s.2

theorem searchUnit_preorder (callback : SearchCallback D σ) (t : RoseTree D) (finished : Bool)
    (s : σ) :
    searchUnit callback finished (Nav.ofForest t.forest) s =
      let r := visitUnlessFound callback (t.forest.preorder []) (finished, s)
      (.ok r.1, r.2) := by
  cases finished with
  | true => rfl
  | false =>
      have hdie := searchDie_preorder callback t.forest [] s
      unfold RoseTree.forest Nav.ofForest at hdie ⊢
      unfold searchUnit
      rw [if_neg Bool.false_ne_true]
      dsimp only
      rw [List.length_nil] at hdie
      rw [hdie]
      unfold visitUnlessFound
      rw [if_neg Bool.false_ne_true]
      cases visitUntil (visitDie callback) (Forest.preorder [] (.cons t.root t.children .nil)) s with
      | mk found s' =>
          cases found with
          | true => rfl
          | false => rfl

/-! ### All units -/

theorem visitUnlessFound_append (callback : SearchCallback D σ) (as bs : List (D × List D))
    (s : Bool × σ) :
    visitUnlessFound callback (as ++ bs) s =
      visitUnlessFound callback bs (visitUnlessFound callback as s) := by
  obtain ⟨found, s⟩ := s
  cases found with
  | true => rfl
  | false =>
      unfold visitUnlessFound
      rw [if_neg Bool.false_ne_true, if_neg Bool.false_ne_true]
      dsimp only
      rw [visitUntil_append]
      cases visitUntil (visitDie callback) as s with
      | mk found s' =>
          cases found with
          | true => rfl
          | false => rfl

/-- One unit header further. -/
theorem searchUnits_next (callback : SearchCallback D σ) {isInfo : Bool}
    {dbg dbg' : DwarfDebug D} {cuDie : Nav D}
    (h : dwarfNextCuHeader isInfo dbg = (.ok cuDie, dbg')) (finished : Bool) (s : σ) :
    searchUnits callback isInfo finished dbg s =
      match searchUnit callback finished cuDie s with
      | (.error code, s) => (code, dbg', s)
      | (.ok finished, s) => searchUnits callback isInfo finished dbg' s := by
  rw [searchUnits]
  split
  · rename_i heq
    rw [h] at heq
    cases heq
  · rename_i heq
    rw [h] at heq
    cases heq
  · rename_i heq
    rw [h] at heq
    cases heq
    rfl

theorem searchUnits_header (callback : SearchCallback D σ) {isInfo : Bool}
    {dbg dbg' : DwarfDebug D} {t : RoseTree D}
    (h : dwarfNextCuHeader isInfo dbg = (.ok (Nav.ofForest t.forest), dbg')) (finished : Bool)
    (s : σ) :
    searchUnits callback isInfo finished dbg s =
      let r := visitUnlessFound callback (t.forest.preorder []) (finished, s)
      searchUnits callback isInfo r.1 dbg' r.2 := by
  rw [searchUnits_next callback h, searchUnit_preorder]

theorem searchUnits_types (callback : SearchCallback D σ) (info types : List (CompUnit D))
    (left : List (CompUnit D)) (ts : List (RoseTree D)) :
    ∀ finished s,
      searchUnits callback false finished ⟨info, types, left, CompUnit.ofTrees ts⟩ s =
        let r := visitUnlessFound callback (RoseTree.preorder ts) (finished, s)
        (.ofFound r.1, ⟨info, types, left, types⟩, r.2) := by
  induction ts with
  | nil =>
      intro finished s
      rw [searchUnits]
      cases finished with
      | true => rfl
      | false => rfl
  | cons t ts ih =>
      intro finished s
      refine (searchUnits_header (t := t) callback rfl finished s).trans ?_
      dsimp only
      rw [← CompUnit.ofTrees, ih]
      have hsplit : RoseTree.preorder (t :: ts) = t.forest.preorder [] ++ RoseTree.preorder ts := rfl
      rw [hsplit, visitUnlessFound_append]

theorem searchUnits_info (callback : SearchCallback D σ) (info types : List (CompUnit D))
    (ts us : List (RoseTree D)) :
    ∀ finished s,
      searchUnits callback true finished
          ⟨info, types, CompUnit.ofTrees ts, CompUnit.ofTrees us⟩ s =
        let r := visitUnlessFound callback (RoseTree.preorder (ts ++ us)) (finished, s)
        (.ofFound r.1, ⟨info, types, info, types⟩, r.2) := by
  induction ts with
  | nil =>
      intro finished s
      rw [searchUnits]
      exact searchUnits_types callback info types info us finished s
  | cons t ts ih =>
      intro finished s
      refine (searchUnits_header (t := t) callback rfl finished s).trans ?_
      dsimp only
      rw [← CompUnit.ofTrees, ih]
      have hsplit : RoseTree.preorder (t :: ts ++ us) =
          t.forest.preorder [] ++ RoseTree.preorder (ts ++ us) := rfl
      rw [hsplit, visitUnlessFound_append]

/-- **The search is the visit of all DIEs, and leaves the cursor at the first unit.** -/
theorem sdSearchDwarfDbg_eq (callback : SearchCallback D σ) (info types : List (RoseTree D)) (s : σ) :
    sdSearchDwarfDbg callback (.ofTrees info types) s =
      let r := visitUntil (visitDie callback) (RoseTree.preorder (info ++ types)) s
      (.ofFound r.1, .ofTrees info types, r.2) :=
  searchUnits_info callback (CompUnit.ofTrees info) (CompUnit.ofTrees types) info types false s

/-! ### Searches without a state -/

/-- The DIEs of all units, in document order. -/
def documentOrder (info types : List (RoseTree D)) : List D :=
  (RoseTree.preorder (info ++ types)).map Prod.fst

variable {β : Type}

/-- A search for the first DIE that has something to give. -/
def pickDie (pick : D → Option β) : SearchCallback D (Option β) := fun die _ => pickFirst pick die

/-- **Such a search finds what the first DIE in document order gives that gives anything.** -/
theorem sdSearchDwarfDbg_pickDie (pick : D → Option β) (info types : List (RoseTree D)) :
    sdSearchDwarfDbg (pickDie pick) (.ofTrees info types) none =
      (.ofFound ((documentOrder info types).findSome? pick).isSome, .ofTrees info types,
        (documentOrder info types).findSome? pick) := by
  have hvisit : visitDie (pickDie pick) = pickFirst fun p : D × List D => pick p.1 := rfl
  have hlist : (documentOrder info types).findSome? pick =
      (RoseTree.preorder (info ++ types)).findSome? fun p => pick p.1 := by
    rw [documentOrder, List.findSome?_map]
    rfl
  rw [sdSearchDwarfDbg_eq, hvisit, visitUntil_pickFirst, hlist]

/-- A search for the first DIE of a kind. -/
def stopAtDie (kind : D → Bool) (report : D → β) : SearchCallback D β :=
  fun die _ => stopAt kind report die

theorem sdSearchDwarfDbg_stopAtDie (kind : D → Bool) (report : D → β) (last : β)
    (info types : List (RoseTree D)) :
    sdSearchDwarfDbg (stopAtDie kind report) (.ofTrees info types) last =
      match (documentOrder info types).find? kind with
      | some die => (.ok (), .ofTrees info types, report die)
      | none => (.noEntry, .ofTrees info types, last) := by
  have hvisit : visitDie (stopAtDie kind report) =
      stopAt (fun p : D × List D => kind p.1) fun p => report p.1 := rfl
  have hlist : (documentOrder info types).find? kind =
      ((RoseTree.preorder (info ++ types)).find? fun p => kind p.1).map Prod.fst := by
    rw [documentOrder, List.find?_map]
    rfl
  rw [sdSearchDwarfDbg_eq, hvisit, visitUntil_stopAt, hlist]
  cases (RoseTree.preorder (info ++ types)).find? fun p => kind p.1 with
  | none => rfl
  | some p => rfl

/-! ### The calls of the callback -/

/-- A callback that keeps a record of what it is called with. -/
def recorded (callback : SearchCallback D σ) : SearchCallback D (σ × List (D × Nat)) :=
  fun die level s =>
    ((callback die level s.1).1, (callback die level s.1).2, s.2 ++ [(die, level)])

/-- The calls for some DIEs: each with its depth. -/
def callsFor (dies : List (D × List D)) : List (D × Nat) := dies.map fun p => (p.1, p.2.length)

theorem visitUntil_recorded {callback : SearchCallback D σ} {before a : List (D × List D)}
    {s t : σ} (h : Passed (visitDie callback) before s t) (calls : List (D × Nat)) :
    visitUntil (visitDie (recorded callback)) (before ++ a) (s, calls) =
      visitUntil (visitDie (recorded callback)) a (t, calls ++ callsFor before) := by
  induction h generalizing calls with
  | nil s => rw [List.nil_append, callsFor, List.map_nil, List.append_nil]
  | @cons p ps s t u first rest ih =>
      have hfirst : visitDie (recorded callback) p (s, calls) =
          (false, t, calls ++ [(p.1, p.2.length)]) := by
        have hresult : callback p.1 p.2.length s = (false, t) := first
        unfold visitDie recorded
        rw [hresult]
      rw [List.cons_append, visitUntil_cons_false hfirst, ih, List.append_assoc]
      rfl

/-- **The search calls its callback for the DIEs in document order, once each and with its
depth, up to the first one that is accepted.**  It succeeds exactly if there is one, and
both ways it leaves the cursor at the first unit. -/
theorem search_preorder (callback : SearchCallback D σ) (info types : List (RoseTree D)) (s : σ) :
    (∃ before die after t u,
      RoseTree.preorder (info ++ types) = before ++ die :: after ∧
      Passed (visitDie callback) before s t ∧ visitDie callback die t = (true, u) ∧
      sdSearchDwarfDbg callback (.ofTrees info types) s = (.ok (), .ofTrees info types, u) ∧
      sdSearchDwarfDbg (recorded callback) (.ofTrees info types) (s, []) =
        (.ok (), .ofTrees info types, u, callsFor (before ++ [die]))) ∨
    (∃ t, Passed (visitDie callback) (RoseTree.preorder (info ++ types)) s t ∧
      sdSearchDwarfDbg callback (.ofTrees info types) s = (.noEntry, .ofTrees info types, t) ∧
      sdSearchDwarfDbg (recorded callback) (.ofTrees info types) (s, []) =
        (.noEntry, .ofTrees info types, t, callsFor (RoseTree.preorder (info ++ types)))) := by
  have hsearch := sdSearchDwarfDbg_eq callback info types s
  have hrecord := sdSearchDwarfDbg_eq (recorded callback) info types (s, [])
  rcases visitUntil_cases (visitDie callback) (RoseTree.preorder (info ++ types)) s with
    ⟨before, die, after, t, u, hdies, hpassed, hdie, hrun⟩ | ⟨t, hpassed, hrun⟩
  · refine Or.inl ⟨before, die, after, t, u, hdies, hpassed, hdie, ?_, ?_⟩
    · rw [hsearch, hrun]
      rfl
    · have hhit : visitDie (recorded callback) die (t, [] ++ callsFor before) =
          (true, u, callsFor (before ++ [die])) := by
        have hresult : callback die.1 die.2.length t = (true, u) := hdie
        unfold visitDie recorded callsFor
        rw [hresult, List.nil_append, List.map_append]
        rfl
      rw [hrecord, hdies, visitUntil_recorded hpassed, visitUntil_cons_true hhit]
      rfl
  · refine Or.inr ⟨t, hpassed, ?_, ?_⟩
    · rw [hsearch, hrun]
      rfl
    · have hall := visitUntil_recorded (a := []) hpassed []
      rw [List.append_nil] at hall
      rw [hrecord, hall, List.nil_append]
      rfl

end Spray
