/-
Walks along the edges of a graph.

`edge a b` is an edge from one node to another.  All walks from a node come to an end if none
of the nodes they lead to is on a cycle, where only finitely many nodes have edges at all.
-/
import Mathlib.Data.Fintype.Card
import Mathlib.Data.Set.Finite.Basic
import Mathlib.Logic.Relation

namespace Spray

namespace Graph

variable {α : Type} (edge : α → α → Prop)

/-- There is a walk from one node to another. -/
abbrev Reaches : α → α → Prop := Relation.ReflTransGen edge

/-- There is a walk from a node back to it. -/
def OnCycle (a : α) : Prop := Relation.TransGen edge a a

/-- All walks from a node come to an end. -/
def Ends (a : α) : Prop := Acc (fun b a => edge a b) a

variable {edge}

theorem Ends.next {a b : α} (h : Ends edge a) (hedge : edge a b) : Ends edge b := h.inv hedge

theorem Ends.reaches {a b : α} (h : Ends edge a) (hreach : Reaches edge a b) : Ends edge b := by
  induction hreach with
  | refl => exact h
  | tail _ hedge ih => exact ih.next hedge

theorem Ends.not_onCycle {a : α} (h : Ends edge a) : ¬ OnCycle edge a := by
  induction h with
  | intro a _ ih =>
      intro hcycle
      obtain ⟨b, hab, hba⟩ := Relation.TransGen.head'_iff.mp hcycle
      -- The next node is on the same cycle.
      exact ih b hab (Relation.TransGen.tail' hba hab)

/-- A node that all walks to have led on to nodes whose walks end. -/
theorem ends_of_next {a : α} (h : ∀ b, edge a b → Ends edge b) : Ends edge a := Acc.intro a h

theorem ends_of_not_onCycle (hfinite : {a | ∃ b, edge a b}.Finite) {a : α}
    (h : ∀ b, Reaches edge a b → ¬ OnCycle edge b) : Ends edge a := by
  -- Among the nodes on the way that have edges, the later ones are below.
  let Node := {b // Reaches edge a b ∧ ∃ c, edge b c}
  have hnodes : Finite Node := Set.Finite.subset hfinite fun b hb => hb.2
  let later : Node → Node → Prop := fun b c => Relation.TransGen edge c.1 b.1
  have htrans : IsTrans Node later := ⟨fun _ _ _ hbc hcd => hcd.trans hbc⟩
  have hirrefl : Std.Irrefl later := ⟨fun b hb => h b.1 b.2.1 hb⟩
  have hends : ∀ b : Node, Ends edge b.1 := by
    intro b
    induction (Finite.wellFounded_of_trans_of_irrefl later).apply b with
    | intro b _ ih =>
        refine ends_of_next fun c hbc => ?_
        by_cases hc : ∃ d, edge c d
        · exact ih ⟨c, b.2.1.tail hbc, hc⟩ (.single hbc)
        · exact ends_of_next fun d hd => absurd ⟨d, hd⟩ hc
  by_cases ha : ∃ b, edge a b
  · exact hends ⟨a, .refl, ha⟩
  · exact ends_of_next fun b hb => absurd ⟨b, hb⟩ ha

end Graph

end Spray
