/-
Executing one instruction.

A step of one instruction is resumed as a full continue when a `SIGWINCH` stops the tracee
before or after the instruction.  What comes of that depends on the signals after it, which
`Finds` follows.  Without them, the tracee is found where the next breakpoint is.
-/
import Spray.Proofs.Finds
import Spray.Proofs.PassedOver

namespace Spray

open Triple

namespace Run

variable (run : Run) (user : RealAddr → Bool)

/-- A continue from behind the instruction at position `p` would be taken for a success: it
gets to a breakpoint, or to the end when the result of the step is not used.  The end goes
unnoticed in a step off a breakpoint; then the debugger waits for a process that is gone. -/
def Overruns (p : Nat) : Prop :=
  run.pc (p + 1) ≠ none ∧
    ((∃ q, run.FirstHit (run.meanwhile user p) (p + 1) q) ∨
      run.hits user p = true ∧ ∃ e, run.EndsFirst (run.meanwhile user p) (p + 1) e ∧
        (run.hits (run.meanwhile user p) (p + 1) = true → p + 2 < e))

end Run

variable {run : Run} {enabled user : RealAddr → Bool} {limit fuel p q : Nat} {env : Env Runner}
  {info : SigInfo} {ws : List (Option Nat)} {d : Debugger Runner} {R : List (Memory 64) → Prop}

/-! ### The instruction step -/

/-- There is a first breakpoint or there is none. -/
theorem Run.firstHit_of_hits {q : Nat} (hlt : p < q) (hhits : run.hits enabled q = true)
    (hthrough : run.Through (p + 1) q) : ∃ q, run.FirstHit enabled p q := by
  have hex : ∃ q, p < q ∧ run.hits enabled q = true := ⟨q, hlt, hhits⟩
  obtain ⟨hlt', hhits'⟩ := Nat.find_spec hex
  refine ⟨Nat.find hex, hlt', hhits', fun j hlo hhi => ?_⟩
  have hle : Nat.find hex ≤ q := Nat.find_min' hex ⟨hlt, hhits⟩
  refine Run.plain_of_not_hits (hthrough j hlo (by omega)) ?_
  rw [← Bool.not_eq_true]
  exact fun hon => Nat.find_min hex hhi ⟨by omega, hon⟩

/-- The position a continue gets to. -/
theorem Run.Overruns.exists (h : run.Overruns user p) :
    ∃ e, p + 1 < e ∧ run.Clear (run.meanwhile user p) (p + 2) e ∧
      run.plain (run.meanwhile user p) e = false ∧
      (run.hits user p = true ∨ run.hits (run.meanwhile user p) e = true) ∧
      (run.hits (run.meanwhile user p) (p + 1) = true → run.pc (p + 2) ≠ none) := by
  rcases h with ⟨-, ⟨e, hlt, hhits, hclear⟩ | ⟨hon, e, ⟨hlt, hend, hclear⟩, hlast⟩⟩
  · refine ⟨e, hlt, hclear, Run.not_plain_of_hits hhits, .inr hhits, fun _ => ?_⟩
    rcases Nat.eq_or_lt_of_le (show p + 2 ≤ e by omega) with rfl | hgt
    · obtain ⟨a, ha, -⟩ := Run.exists_of_hits hhits
      rw [ha]
      exact Option.some_ne_none a
    · exact Run.pc_of_plain (hclear (p + 2) (by omega) hgt)
  · refine ⟨e, hlt, hclear, ?_, .inl hon, fun hnext => ?_⟩
    · rw [Run.plain, hend, Option.any_none]
    · exact Run.pc_of_plain (hclear (p + 2) (by omega) (hlast hnext))

/-- Without more signals, the tracee is found at the next breakpoint or at the end. -/
theorem Run.finds_unsignalled {e : Nat} (hle : q ≤ e) (hclear : run.Clear enabled q e)
    (hfirst : run.plain enabled e = false) (hend : run.pc q ≠ none) :
    ∃ f, run.Finds enabled .continuing q [] f ∧ f.pos = e ∧
      (run.hits enabled e = true → f.result = .ok) := by
  obtain ⟨n, rfl⟩ := Nat.exists_eq_add_of_le hle
  cases hhits : run.hits enabled (q + n) with
  | true => exact ⟨_, .stopped (.trapped nofun hclear hhits), rfl, fun _ => rfl⟩
  | false =>
      have hgone : run.pc (q + n) = none := by
        by_contra hpc
        rw [Run.plain_of_not_hits hpc hhits] at hfirst
        cases hfirst
      cases n with
      | zero => exact absurd hgone hend
      | succ n => exact ⟨_, .gone (.ended nofun hclear hgone), rfl, nofun⟩

/-- A signal just behind the instruction is enough. -/
theorem Run.Overruns.finds (h : run.Overruns user p) :
    ∃ f, run.Finds (run.meanwhile user p) (.stopped ⟨.SIGWINCH, .SI_KERNEL⟩) (p + 1) [] f ∧
      (if run.hits user p then .ok else f.result) = SprayResult.ok ∧ f.pos ≠ p + 1 := by
  obtain ⟨e, hlt, hclear, hfirst, hres, hsecond⟩ := h.exists
  have hpos : ∀ {f : Landing}, f.pos = e → f.pos ≠ p + 1 := by
    rintro f rfl
    omega
  have hsuccess : ∀ {f : Landing}, (run.hits (run.meanwhile user p) e = true → f.result = .ok) →
      (if run.hits user p then .ok else f.result) = SprayResult.ok := by
    intro f hf
    split
    · rfl
    · exact hf (hres.resolve_left ‹_›)
  cases hhits : run.hits (run.meanwhile user p) (p + 1) with
  | true =>
      obtain ⟨f, hf, hfpos, hfres⟩ := Run.finds_unsignalled hlt hclear hfirst (hsecond hhits)
      exact ⟨f, .off hhits (.stopped (.stepped nofun (hsecond hhits))) hf, hsuccess hfres,
        hpos hfpos⟩
  | false =>
      have hclear' : run.Clear (run.meanwhile user p) (p + 1) e := by
        intro j hlo hhi
        rcases Nat.eq_or_lt_of_le hlo with rfl | hgt
        · exact Run.plain_of_not_hits h.1 hhits
        · exact hclear j hgt hhi
      obtain ⟨f, hf, hfpos, hfres⟩ := Run.finds_unsignalled (by omega) hclear' hfirst h.1
      exact ⟨f, .plain hhits hf, hsuccess hfres, hpos hfpos⟩

end Spray
