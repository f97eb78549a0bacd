/-
Ordered forests, and searches that visit things one after the other.

A forest is empty, or a tree and the trees after it: a value with its children, and its
siblings.  `preorder` lists the values of a forest in document order, each with the values
above it.  `visitUntil` is a search by a visitor with a state of its own: it goes through a
list up to the first element the visitor accepts.
-/
import Mathlib.Init

inductive Forest (α : Type) where
  | nil
  | cons (val : α) (children : Forest α) (rest : Forest α)
  deriving DecidableEq, Repr

namespace Forest

variable {α β σ : Type}

/-- The values of a forest in document order, each with those above it, innermost first.
`above` is what is above the forest as a whole. -/
def preorder (above : List α) : Forest α → List (α × List α)
  | nil => []
  | cons val children rest =>
    (val, above) :: (preorder (val :: above) children ++ preorder above rest)

end Forest

/-- A tree: a value and its children. -/
structure RoseTree (α : Type) where
  root : α
  children : Forest α
  deriving DecidableEq, Repr

namespace RoseTree

variable {α : Type}

/-- The forest of one tree. -/
def forest (t : RoseTree α) : Forest α := .cons t.root t.children .nil

/-- The values of some trees in document order, each with those above it. -/
def preorder (ts : List (RoseTree α)) : List (α × List α) :=
  ts.flatMap fun t => t.forest.preorder []

end RoseTree

/-! ### Visiting a list -/

/-- Visit the elements of a list in order, up to the first one that is accepted. -/
def visitUntil {α σ : Type} (visit : α → σ → Bool × σ) : List α → σ → Bool × σ
  | [], s => (false, s)
  | a :: as, s =>
    match visit a s with
    | (true, s) => (true, s)
    | (false, s) => visitUntil visit as s

section VisitUntil

variable {α σ : Type} {visit : α → σ → Bool × σ}

theorem visitUntil_cons_true {a : α} {as : List α} {s s' : σ} (h : visit a s = (true, s')) :
    visitUntil visit (a :: as) s = (true, s') := by
  rw [visitUntil, h]

theorem visitUntil_cons_false {a : α} {as : List α} {s s' : σ} (h : visit a s = (false, s')) :
    visitUntil visit (a :: as) s = visitUntil visit as s' := by
  rw [visitUntil, h]

/-- After a list that has been searched in vain, the search goes on with the next. -/
theorem visitUntil_append (as bs : List α) (s : σ) :
    visitUntil visit (as ++ bs) s =
      match visitUntil visit as s with
      | (true, s) => (true, s)
      | (false, s) => visitUntil visit bs s := by
  induction as generalizing s with
  | nil => rfl
  | cons a as ih =>
      cases hv : visit a s with
      | mk found s' =>
          cases found with
          | true => rw [List.cons_append, visitUntil_cons_true hv, visitUntil_cons_true hv]
          | false => rw [List.cons_append, visitUntil_cons_false hv, visitUntil_cons_false hv, ih]

/-- The elements of `as` have been visited one by one, none of them accepted, and that has
taken the visitor from the first state to the second. -/
inductive Passed (visit : α → σ → Bool × σ) : List α → σ → σ → Prop
  | nil (s : σ) : Passed visit [] s s
  | cons {a : α} {as : List α} {s t u : σ} (first : visit a s = (false, t))
      (rest : Passed visit as t u) : Passed visit (a :: as) s u

theorem Passed.split {as bs : List α} {s u : σ} (h : Passed visit (as ++ bs) s u) :
    ∃ t, Passed visit as s t ∧ Passed visit bs t u := by
  induction as generalizing s with
  | nil => exact ⟨s, .nil s, h⟩
  | cons a as ih =>
      cases h with
      | cons first rest =>
          obtain ⟨t, hfront, hback⟩ := ih rest
          exact ⟨t, .cons first hfront, hback⟩

/-- A search passes elements up to one it accepts, or all of them. -/
theorem visitUntil_cases (visit : α → σ → Bool × σ) (as : List α) (s : σ) :
    (∃ before a after t u, as = before ++ a :: after ∧ Passed visit before s t ∧
        visit a t = (true, u) ∧ visitUntil visit as s = (true, u)) ∨
      ∃ t, Passed visit as s t ∧ visitUntil visit as s = (false, t) := by
  induction as generalizing s with
  | nil => exact Or.inr ⟨s, .nil s, rfl⟩
  | cons a as ih =>
      cases hv : visit a s with
      | mk found t =>
          cases found with
          | true =>
              exact Or.inl ⟨[], a, as, s, t, rfl, .nil s, hv, visitUntil_cons_true hv⟩
          | false =>
              rcases ih t with
                ⟨before, b, after, t', u, rfl, hpassed, hb, hrun⟩ | ⟨t', hpassed, hrun⟩
              · exact Or.inl ⟨a :: before, b, after, t', u, rfl, .cons hv hpassed, hb,
                  (visitUntil_cons_false hv).trans hrun⟩
              · exact Or.inr ⟨t', .cons hv hpassed, (visitUntil_cons_false hv).trans hrun⟩

end VisitUntil

/-! ### What holds on a walk -/

section Walk

variable {α σ : Type} {visit : α × List α → σ → Bool × σ} {I : List α → σ → Prop}

/-- What is above the value that is next. -/
def Forest.around (above : List α) : List (α × List α) → List α
  | [] => above
  | p :: _ => p.2

/-- A visit to a value keeps `I`, for what is below the value. -/
def Forest.VisitKeeps (visit : α × List α → σ → Bool × σ) (I : List α → σ → Prop)
    (p : α × List α) : Prop :=
  ∀ s t, I p.2 s → visit p s = (false, t) → I (p.1 :: p.2) t

/-- An invariant that is kept by each visit, and when a subtree is left, holds all along. -/
theorem Forest.walk (up : ∀ {a above s}, I (a :: above) s → I above s) (f : Forest α) :
    ∀ {above : List α} {s t : σ} {before after : List (α × List α)},
      (∀ p ∈ f.preorder above, Forest.VisitKeeps visit I p) → I above s →
      f.preorder above = before ++ after → Passed visit before s t →
      I (Forest.around above after) t := by
  induction f with
  | nil =>
      intro above s t before after _ hs hsplit hpassed
      obtain ⟨rfl, rfl⟩ := List.append_eq_nil_iff.mp hsplit.symm
      cases hpassed
      exact hs
  | cons a children rest ihc ihr =>
      intro above s t before after hkeeps hs hsplit hpassed
      rw [Forest.preorder] at hsplit hkeeps
      cases hpassed with
      | nil =>
          rw [List.nil_append] at hsplit
          rw [← hsplit]
          exact hs
      | @cons p before s t₁ t first passed =>
          rw [List.cons_append, List.cons.injEq] at hsplit
          obtain ⟨rfl, hsplit⟩ := hsplit
          have ht₁ : I (a :: above) t₁ := hkeeps _ List.mem_cons_self s t₁ hs first
          have hchildren : ∀ p ∈ children.preorder (a :: above), Forest.VisitKeeps visit I p :=
            fun p hp => hkeeps p (List.mem_cons_of_mem _ (List.mem_append_left _ hp))
          have hrest : ∀ p ∈ rest.preorder above, Forest.VisitKeeps visit I p := fun p hp =>
            hkeeps p (List.mem_cons_of_mem _ (List.mem_append_right _ hp))
          rcases List.append_eq_append_iff.mp hsplit with ⟨front, rfl, htail⟩ | ⟨back, hhead, rfl⟩
          · -- The children have been passed.
            obtain ⟨t₂, hfront, hback⟩ := passed.split
            have ht₂ := ihc hchildren ht₁ (List.append_nil _).symm hfront
            exact ihr hrest (up ht₂) htail hback
          · -- The walk is among the children, or right behind them.
            have ht := ihc hchildren ht₁ hhead passed
            cases back with
            | cons q back => exact ht
            | nil =>
                cases rest with
                | nil => exact up ht
                | cons b children' rest' => exact up ht

/-- The same for some trees, one after the other. -/
theorem RoseTree.walk (up : ∀ {a above s}, I (a :: above) s → I above s)
    (ts : List (RoseTree α)) : ∀ {s t : σ} {before after : List (α × List α)},
      (∀ p ∈ RoseTree.preorder ts, Forest.VisitKeeps visit I p) → I [] s →
      RoseTree.preorder ts = before ++ after → Passed visit before s t →
        I (Forest.around [] after) t := by
  induction ts with
  | nil =>
      intro s t before after _ hs hsplit hpassed
      obtain ⟨rfl, rfl⟩ := List.append_eq_nil_iff.mp hsplit.symm
      cases hpassed
      exact hs
  | cons tree ts ih =>
      intro s t before after hkeeps hs hsplit hpassed
      rw [RoseTree.preorder, List.flatMap_cons] at hsplit hkeeps
      have htree : ∀ p ∈ tree.forest.preorder [], Forest.VisitKeeps visit I p := fun p hp =>
        hkeeps p (List.mem_append_left _ hp)
      have hrest : ∀ p ∈ RoseTree.preorder ts, Forest.VisitKeeps visit I p := fun p hp =>
        hkeeps p (List.mem_append_right _ hp)
      rcases List.append_eq_append_iff.mp hsplit with ⟨front, rfl, htail⟩ | ⟨back, hhead, rfl⟩
      · obtain ⟨t₁, hfront, hback⟩ := hpassed.split
        have ht₁ := tree.forest.walk up htree hs (List.append_nil _).symm hfront
        exact ih hrest ht₁ htail hback
      · have ht := tree.forest.walk up htree hs hhead hpassed
        cases back with
        | cons q back => exact ht
        | nil =>
            cases ts with
            | nil => exact ht
            | cons tree' ts => exact ht

end Walk

/-! ### Visits that are cut short -/

/-- Visit a list some of whose elements are missing.  Nothing comes of it where one is, unless
an element in front of it is accepted. -/
def visitSome {α σ : Type} (visit : α → σ → Bool × σ) : List (Option α) → σ → Option (Bool × σ)
  | [], s => some (false, s)
  | none :: _, _ => none
  | some a :: as, s =>
    match visit a s with
    | (true, s) => some (true, s)
    | (false, s) => visitSome visit as s

/-- An element is missing behind elements none of which is accepted. -/
def CutShort {α σ : Type} (visit : α → σ → Bool × σ) (as : List (Option α)) (s : σ) : Prop :=
  ∃ before after t, as = before.map some ++ none :: after ∧ Passed visit before s t

section VisitSome

variable {α σ : Type} {visit : α → σ → Bool × σ}

theorem visitSome_append (as bs : List (Option α)) (s : σ) :
    visitSome visit (as ++ bs) s =
      (visitSome visit as s).bind fun r => if r.1 then some r else visitSome visit bs r.2 := by
  induction as generalizing s with
  | nil => rfl
  | cons a as ih =>
      cases a with
      | none => rfl
      | some a =>
          rw [List.cons_append, visitSome, visitSome]
          cases visit a s with
          | mk found s' =>
              cases found with
              | true => rfl
              | false => exact ih s'

theorem visitSome_eq_none_iff (as : List (Option α)) (s : σ) :
    visitSome visit as s = none ↔ CutShort visit as s := by
  induction as generalizing s with
  | nil =>
      constructor
      · intro h
        cases h
      · rintro ⟨before, after, t, h, -⟩
        cases before <;> cases h
  | cons a as ih =>
      cases a with
      | none => exact ⟨fun _ => ⟨[], as, s, rfl, .nil s⟩, fun _ => rfl⟩
      | some a =>
          rw [visitSome]
          constructor
          · intro h
            cases hv : visit a s with
            | mk found s' =>
                rw [hv] at h
                cases found with
                | true => cases h
                | false =>
                    obtain ⟨before, after, t, rfl, hpassed⟩ := (ih s').mp h
                    exact ⟨a :: before, after, t, rfl, .cons hv hpassed⟩
          · rintro ⟨before, after, t, h, hpassed⟩
            cases hpassed with
            | nil => cases h
            | cons first rest =>
                cases h
                rw [first]
                exact (ih _).mpr ⟨_, after, t, rfl, rest⟩

end VisitSome

/-- A search that has ended with this result, or without one in a state of a kind. -/
def Searched {σ β : Type} (result : σ → Option β) (found? : Option β) (P : σ → Prop)
    (r : Bool × σ) : Prop :=
  match found? with
  | some b => r.1 = true ∧ result r.2 = some b
  | none => r.1 = false ∧ P r.2

/-- One search after the other: the second is needed if the first was in vain. -/
theorem Searched.append {α σ β : Type} {visit : α → σ → Bool × σ} {result : σ → Option β}
    {x y : Option β} {P Q : σ → Prop} {as bs : List α} {s : σ}
    (hfirst : Searched result x P (visitUntil visit as s))
    (hsecond : ∀ t, P t → Searched result y Q (visitUntil visit bs t)) :
    Searched result (x.or y) Q (visitUntil visit (as ++ bs) s) := by
  rw [visitUntil_append]
  cases hrun : visitUntil visit as s with
  | mk accepted t =>
      rw [hrun] at hfirst
      cases x with
      | some b =>
          obtain ⟨rfl, hresult⟩ := hfirst
          exact ⟨rfl, hresult⟩
      | none =>
          obtain ⟨rfl, hkept⟩ := hfirst
          exact hsecond t hkept

/-- The elements of a list, each with those in front of it. -/
def withBefore {α : Type} (front : List α) : List α → List (List α × α)
  | [] => []
  | a :: as => (front, a) :: withBefore (front ++ [a]) as

theorem withBefore_append {α : Type} (front as bs : List α) :
    withBefore front (as ++ bs) = withBefore front as ++ withBefore (front ++ as) bs := by
  induction as generalizing front with
  | nil => rw [List.append_nil]; rfl
  | cons a as ih =>
      rw [List.cons_append, withBefore, ih, List.append_assoc]
      rfl

theorem mem_of_mem_withBefore {α : Type} {front as : List α} {p : List α × α}
    (h : p ∈ withBefore front as) : p.2 ∈ as := by
  induction as generalizing front with
  | nil => exact absurd h List.not_mem_nil
  | cons a as ih =>
      rcases List.mem_cons.mp h with rfl | h
      · exact List.mem_cons_self
      · exact List.mem_cons_of_mem a (ih h)

/-! ### The first result -/

/-- The first result is that of the first element that has one. -/
theorem findSome?_eq_bind_find? {α β : Type} {pick : α → Option β} {kind : α → Bool}
    {as : List α} (h : ∀ a ∈ as, (pick a).isSome = kind a) :
    as.findSome? pick = (as.find? kind).bind pick := by
  induction as with
  | nil => rfl
  | cons a as ih =>
      have ha := h a List.mem_cons_self
      rw [List.findSome?_cons, List.find?_cons, ih fun b hb => h b (List.mem_cons_of_mem a hb),
        ← ha]
      cases hpick : pick a with
      | none => rfl
      | some b => exact hpick.symm

/-- A search without a state: it ends at the first element `pick` makes something of. -/
def pickFirst {α β : Type} (pick : α → Option β) (a : α) (found : Option β) : Bool × Option β :=
  match pick a with
  | some b => (true, some b)
  | none => (false, found)

theorem visitUntil_pickFirst {α β : Type} (pick : α → Option β) (as : List α) :
    visitUntil (pickFirst pick) as none = ((as.findSome? pick).isSome, as.findSome? pick) := by
  induction as with
  | nil => rfl
  | cons a as ih =>
      cases ha : pick a with
      | none =>
          have hvisit : pickFirst pick a none = (false, none) := by rw [pickFirst, ha]
          rw [visitUntil_cons_false hvisit, ih, List.findSome?_cons, ha]
      | some b =>
          have hvisit : pickFirst pick a none = (true, some b) := by rw [pickFirst, ha]
          rw [visitUntil_cons_true hvisit, List.findSome?_cons, ha]
          rfl

/-- A search that ends at the first element of a kind, and reports on it. -/
def stopAt {α β : Type} (kind : α → Bool) (report : α → β) (a : α) (last : β) : Bool × β :=
  if kind a then (true, report a) else (false, last)

theorem visitUntil_stopAt {α β : Type} (kind : α → Bool) (report : α → β) (as : List α)
    (last : β) :
    visitUntil (stopAt kind report) as last =
      match as.find? kind with
      | some a => (true, report a)
      | none => (false, last) := by
  induction as with
  | nil => rfl
  | cons a as ih =>
      cases ha : kind a with
      | true =>
          have hvisit : stopAt kind report a last = (true, report a) := by
            rw [stopAt, if_pos ha]
          rw [visitUntil_cons_true hvisit, List.find?_cons_of_pos ha]
      | false =>
          have hneg : ¬ kind a = true := by
            rw [ha]
            exact Bool.false_ne_true
          have hvisit : stopAt kind report a last = (false, last) := by
            rw [stopAt, if_neg hneg]
          rw [visitUntil_cons_false hvisit, ih, List.find?_cons_of_neg hneg]

/-- A result that only one element gives is the first exactly if nothing before that
element gives one. -/
theorem findSome?_eq_iff_of_unique {α β : Type} {pick : α → Option β} {before after : List α}
    {a : α} {b : β} (ha : pick a = some b) (hunique : ∀ c ∈ before, pick c ≠ some b) :
    (before ++ a :: after).findSome? pick = some b ↔ ∀ c ∈ before, pick c = none := by
  rw [List.findSome?_append, List.findSome?_cons, ha]
  cases hbefore : before.findSome? pick with
  | none =>
      rw [List.findSome?_eq_none_iff] at hbefore
      exact ⟨fun _ => hbefore, fun _ => rfl⟩
  | some c =>
      obtain ⟨d, hd, hdc⟩ := List.exists_of_findSome?_eq_some hbefore
      constructor
      · intro h
        obtain rfl := Option.some.inj h
        exact absurd hdc (hunique d hd)
      · intro h
        rw [h d hd] at hdc
        cases hdc
