/-
Programs that keep a log.

Part of the state is a list that only grows.  A `Silent` program returns and leaves it
alone.  Of any other, `Appends` says what it adds, and how that goes with the value it
returns, or with its stopping early.
-/
import Spray.Lib.Triple

namespace Triple

variable {ε σ τ α β : Type} {log : σ → List τ}

/-- From every state `x` returns, with the log as it was. -/
def Silent (log : σ → List τ) (x : EStateM ε σ α) : Prop :=
  ∀ s, ∃ a s', x s = .ok a s' ∧ log s' = log s

/-- Started in `s`, `x` adds to the log what `Q` relates to the value it returns, if any. -/
def Appends (log : σ → List τ) (x : EStateM ε σ α) (s : σ) (Q : Option α → List τ → Prop) :
    Prop :=
  match x s with
  | .ok a s' => ∃ new, log s' = log s ++ new ∧ Q (some a) new
  | .error _ s' => ∃ new, log s' = log s ++ new ∧ Q none new

/-! ### Silent programs -/

theorem Silent.pure (a : α) : Silent log (Pure.pure a : EStateM ε σ α) := fun s => ⟨a, s, rfl, rfl⟩

theorem Silent.bind {x : EStateM ε σ α} {f : α → EStateM ε σ β} (hx : Silent log x)
    (hf : ∀ a, Silent log (f a)) : Silent log (x >>= f) := by
  intro s
  obtain ⟨a, s', hr, hlog⟩ := hx s
  obtain ⟨b, s'', hr', hlog'⟩ := hf a s'
  exact ⟨b, s'', (bind_run hr).trans hr', hlog'.trans hlog⟩

theorem Silent.map {x : EStateM ε σ α} (hx : Silent log x) (f : α → β) : Silent log (f <$> x) := by
  intro s
  obtain ⟨a, s', hr, hlog⟩ := hx s
  refine ⟨f a, s', ?_, hlog⟩
  show EStateM.map f x s = _
  rw [EStateM.map, hr]

theorem Silent.get_bind {f : σ → EStateM ε σ α} (h : ∀ s, Silent log (f s)) :
    Silent log (MonadState.get >>= f) := fun s => h s s

theorem Silent.ite {c : Prop} [Decidable c] {x y : EStateM ε σ α} (hx : Silent log x)
    (hy : Silent log y) : Silent log (if c then x else y) := by
  split
  · exact hx
  · exact hy

theorem Silent.forM {ι : Type} {f : ι → EStateM ε σ PUnit} (h : ∀ i, Silent log (f i))
    (xs : List ι) : Silent log (xs.forM f) := by
  induction xs with
  | nil => exact Silent.pure _
  | cons i rest ih => exact (h i).bind fun _ => ih

theorem Silent.foldlM {ι : Type} {f : β → ι → EStateM ε σ β} (h : ∀ b i, Silent log (f b i))
    (xs : List ι) : ∀ b, Silent log (xs.foldlM f b) := by
  induction xs with
  | nil => exact fun b => Silent.pure b
  | cons i rest ih => exact fun b => (h b i).bind ih

/-! ### Programs that add to the log -/

variable {s : σ} {Q Q' : Option α → List τ → Prop} {R : Option β → List τ → Prop}

/-- The value a program returns, if it does. -/
def value : EStateM.Result ε σ α → Option α
  | .ok a _ => some a
  | .error _ _ => none

/-- The state it ends in, whether it returns or stops early. -/
def lastState : EStateM.Result ε σ α → σ
  | .ok _ s => s
  | .error _ s => s

theorem appends_iff {x : EStateM ε σ α} :
    Appends log x s Q ↔
      ∃ new, log (lastState (x s)) = log s ++ new ∧ Q (value (x s)) new := by
  unfold Appends
  cases x s with
  | ok a s' => rfl
  | error e s' => rfl

theorem Appends.conseq {x : EStateM ε σ α} (h : Appends log x s Q)
    (hQ : ∀ r new, Q r new → Q' r new) : Appends log x s Q' := by
  obtain ⟨new, hlog, hq⟩ := appends_iff.mp h
  exact appends_iff.mpr ⟨new, hlog, hQ _ _ hq⟩

/-- Both of what is known of an addition is true of the same. -/
theorem Appends.and {x : EStateM ε σ α} (h : Appends log x s Q) (h' : Appends log x s Q') :
    Appends log x s fun r new => Q r new ∧ Q' r new := by
  obtain ⟨new, hlog, hq⟩ := appends_iff.mp h
  obtain ⟨new', hlog', hq'⟩ := appends_iff.mp h'
  obtain rfl := List.append_cancel_left (hlog.symm.trans hlog')
  exact appends_iff.mpr ⟨new, hlog, hq, hq'⟩

theorem Appends.pure {a : α} (h : Q (some a) []) :
    Appends log (Pure.pure a : EStateM ε σ α) s Q := ⟨[], (List.append_nil _).symm, h⟩

theorem Appends.throw {e : ε} (h : Q none []) :
    Appends log (MonadExcept.throw e : EStateM ε σ α) s Q := ⟨[], (List.append_nil _).symm, h⟩

theorem Silent.appends {x : EStateM ε σ α} (h : Silent log x) (s : σ) :
    Appends log x s fun r new => r ≠ none ∧ new = [] := by
  obtain ⟨a, s', hr, hlog⟩ := h s
  unfold Appends
  rw [hr]
  exact ⟨[], hlog.trans (List.append_nil _).symm, Option.some_ne_none a, rfl⟩

/-- What has been added first comes before the rest. -/
theorem Appends.bind_ok {x : EStateM ε σ α} {f : α → EStateM ε σ β} {a : α} {s' : σ}
    {old : List τ} (hr : x s = .ok a s') (hold : log s' = log s ++ old)
    (h : Appends log (f a) s' fun r new => R r (old ++ new)) : Appends log (x >>= f) s R := by
  have hrun : (x >>= f) s = f a s' := bind_run hr
  obtain ⟨new, hlog, hR⟩ := appends_iff.mp h
  rw [appends_iff, hrun]
  exact ⟨old ++ new, by rw [hlog, hold, List.append_assoc], hR⟩

/-- A silent program comes first. -/
theorem Silent.bind_appends {x : EStateM ε σ α} {f : α → EStateM ε σ β} (hx : Silent log x)
    (hf : ∀ a s', x s = .ok a s' → Appends log (f a) s' R) : Appends log (x >>= f) s R := by
  obtain ⟨a, s', hr, hlog⟩ := hx s
  exact .bind_ok hr (hlog.trans (List.append_nil _).symm) (hf a s' hr)

theorem Appends.bind {x : EStateM ε σ α} {f : α → EStateM ε σ β} (hx : Appends log x s Q)
    (hstop : ∀ new, Q none new → R none new)
    (hf : ∀ a s' old, x s = .ok a s' → Q (some a) old →
      Appends log (f a) s' fun r new => R r (old ++ new)) :
    Appends log (x >>= f) s R := by
  unfold Appends at hx
  cases hr : x s with
  | ok a s' =>
      rw [hr] at hx
      obtain ⟨old, hold, hq⟩ := hx
      exact .bind_ok hr hold (hf a s' old hr hq)
  | error e s' =>
      rw [hr] at hx
      obtain ⟨new, hnew, hq⟩ := hx
      have hrun : (x >>= f) s = .error e s' := by
        show EStateM.bind x f s = _
        rw [EStateM.bind, hr]
      unfold Appends
      rw [hrun]
      exact ⟨new, hnew, hstop new hq⟩

/-- A silent program comes last, and returns what was returned before. -/
theorem Appends.bind_silent {x : EStateM ε σ α} {z : α → EStateM ε σ β} (hx : Appends log x s Q)
    (hz : ∀ a, Silent log (z a)) :
    Appends log (x >>= fun a => z a >>= fun _ => Pure.pure a) s Q := by
  refine hx.bind (fun _ => id) fun a s' old _ hq => ?_
  refine (hz a).bind_appends fun _ _ _ => Appends.pure ?_
  rw [List.append_nil]
  exact hq

/-- Programs that follow each other can be grouped in either way. -/
theorem Appends.assoc {γ : Type} {T : Option γ → List τ → Prop} {x : EStateM ε σ α}
    {f : α → EStateM ε σ β} {g : β → EStateM ε σ γ} (h : Appends log ((x >>= f) >>= g) s T) :
    Appends log (x >>= fun a => f a >>= g) s T := by
  rw [bind_assoc] at h
  exact h

theorem Appends.get_bind {f : σ → EStateM ε σ α} (h : Appends log (f s) s Q) :
    Appends log (MonadState.get >>= f) s Q := h

theorem Appends.ite {c : Prop} [Decidable c] {x y : EStateM ε σ α}
    (hx : c → Appends log x s Q) (hy : ¬ c → Appends log y s Q) :
    Appends log (if c then x else y) s Q := by
  split
  · rename_i hc
    exact hx hc
  · rename_i hc
    exact hy hc

/-! ### Programs that do not look at the log -/

variable {ρ : Type} {π : ρ → σ}

/-- Where `π` forgets part of the state, `y` does what `x` does with the rest. -/
def Agrees (π : ρ → σ) (y : EStateM ε ρ α) (x : EStateM ε σ α) : Prop :=
  ∀ s, x (π s) = match y s with
    | .ok a s' => .ok a (π s')
    | .error e s' => .error e (π s')

/-- A value that `x` returns is returned by `y`, in a state of which `π` makes that of `x`. -/
theorem Agrees.of_ok {y : EStateM ε ρ α} {x : EStateM ε σ α} (h : Agrees π y x) {r : ρ} {a : α}
    {s : σ} (hrun : x (π r) = .ok a s) : ∃ r', y r = .ok a r' ∧ π r' = s := by
  have hr := h r
  rw [hrun] at hr
  cases hy : y r with
  | ok b r' =>
      rw [hy] at hr
      cases hr
      exact ⟨r', rfl, rfl⟩
  | error e r' => rw [hy] at hr; cases hr

theorem Agrees.pure (a : α) : Agrees π (Pure.pure a : EStateM ε ρ α) (Pure.pure a) := fun _ => rfl

theorem Agrees.throw (e : ε) :
    Agrees π (MonadExcept.throw e : EStateM ε ρ α) (MonadExcept.throw e) := fun _ => rfl

theorem Agrees.bind {y : EStateM ε ρ α} {x : EStateM ε σ α} {g : α → EStateM ε ρ β}
    {f : α → EStateM ε σ β} (hx : Agrees π y x) (hf : ∀ a, Agrees π (g a) (f a)) :
    Agrees π (y >>= g) (x >>= f) := by
  intro s
  have hs := hx s
  show EStateM.bind x f (π s) = match EStateM.bind y g s with
    | .ok b s' => .ok b (π s')
    | .error e s' => .error e (π s')
  unfold EStateM.bind
  rw [hs]
  cases y s with
  | ok a s' => exact hf a s'
  | error e s' => rfl

theorem Agrees.map {y : EStateM ε ρ α} {x : EStateM ε σ α} (hx : Agrees π y x) (f : α → β) :
    Agrees π (f <$> y) (f <$> x) := by
  intro s
  have hs := hx s
  show EStateM.map f x (π s) = match EStateM.map f y s with
    | .ok b s' => .ok b (π s')
    | .error e s' => .error e (π s')
  unfold EStateM.map
  rw [hs]
  cases y s with
  | ok a s' => rfl
  | error e s' => rfl

theorem Agrees.get_bind {g : ρ → EStateM ε ρ α} {f : σ → EStateM ε σ α}
    (h : ∀ s, Agrees π (g s) (f (π s))) :
    Agrees π (MonadState.get >>= g) (MonadState.get >>= f) := fun s => h s s

theorem Agrees.ite {c : Prop} [Decidable c] {y y' : EStateM ε ρ α} {x x' : EStateM ε σ α}
    (h : Agrees π y x) (h' : Agrees π y' x') :
    Agrees π (if c then y else y') (if c then x else x') := by
  split
  · exact h
  · exact h'

theorem Agrees.forM {ι : Type} {g : ι → EStateM ε ρ PUnit} {f : ι → EStateM ε σ PUnit}
    (h : ∀ i, Agrees π (g i) (f i)) (xs : List ι) : Agrees π (xs.forM g) (xs.forM f) := by
  induction xs with
  | nil => exact Agrees.pure _
  | cons i rest ih => exact (h i).bind fun _ => ih

theorem Agrees.foldlM {ι : Type} {g : β → ι → EStateM ε ρ β} {f : β → ι → EStateM ε σ β}
    (h : ∀ b i, Agrees π (g b i) (f b i)) (xs : List ι) :
    ∀ b, Agrees π (xs.foldlM g b) (xs.foldlM f b) := by
  induction xs with
  | nil => exact fun b => Agrees.pure b
  | cons i rest ih => exact fun b => (h b i).bind ih

/-! ### Programs side by side -/

/-- Started in related states, both programs return the same value or stop with the same
exception, in related states again. -/
def Lockstep (R : σ → ρ → Prop) (x : EStateM ε σ α) (y : EStateM ε ρ α) : Prop :=
  ∀ s r, R s r → match x s, y r with
    | .ok a s', .ok b r' => a = b ∧ R s' r'
    | .error e s', .error e' r' => e = e' ∧ R s' r'
    | _, _ => False

variable {R : σ → ρ → Prop}

theorem Lockstep.ends {x : EStateM ε σ α} {y : EStateM ε ρ α} (h : Lockstep R x y) {s : σ} {r : ρ}
    (hs : R s r) : (∃ a s' r', x s = .ok a s' ∧ y r = .ok a r' ∧ R s' r') ∨
      ∃ e s' r', x s = .error e s' ∧ y r = .error e r' ∧ R s' r' := by
  have hend := h s r hs
  cases hx : x s with
  | ok a s' =>
      cases hy : y r with
      | ok b r' =>
          rw [hx, hy] at hend
          obtain ⟨rfl, hs'⟩ := hend
          exact .inl ⟨a, s', r', rfl, rfl, hs'⟩
      | error e r' => rw [hx, hy] at hend; exact hend.elim
  | error e s' =>
      cases hy : y r with
      | ok b r' => rw [hx, hy] at hend; exact hend.elim
      | error e' r' =>
          rw [hx, hy] at hend
          obtain ⟨rfl, hs'⟩ := hend
          exact .inr ⟨e, s', r', rfl, rfl, hs'⟩

theorem Lockstep.pure (a : α) :
    Lockstep R (Pure.pure a : EStateM ε σ α) (Pure.pure a : EStateM ε ρ α) :=
  fun _ _ h => ⟨rfl, h⟩

theorem Lockstep.throw (e : ε) : Lockstep R (MonadExcept.throw e : EStateM ε σ α)
    (MonadExcept.throw e : EStateM ε ρ α) := fun _ _ h => ⟨rfl, h⟩

theorem Lockstep.bind {x : EStateM ε σ α} {y : EStateM ε ρ α} {f : α → EStateM ε σ β}
    {g : α → EStateM ε ρ β} (h : Lockstep R x y) (hnext : ∀ a, Lockstep R (f a) (g a)) :
    Lockstep R (x >>= f) (y >>= g) := by
  intro s r hs
  rcases h.ends hs with ⟨a, s', r', hx, hy, hs'⟩ | ⟨e, s', r', hx, hy, hs'⟩
  · rw [bind_run hx, bind_run hy]
    exact hnext a s' r' hs'
  · rw [bind_error hx, bind_error hy]
    exact ⟨rfl, hs'⟩

theorem Lockstep.get_bind {f : σ → EStateM ε σ α} {g : ρ → EStateM ε ρ α}
    (h : ∀ s r, R s r → Lockstep R (f s) (g r)) :
    Lockstep R (MonadState.get >>= f) (MonadState.get >>= g) := fun s r hs => h s r hs s r hs

theorem Lockstep.forM {ι : Type} {f : ι → EStateM ε σ PUnit} {g : ι → EStateM ε ρ PUnit}
    {xs : List ι} (h : ∀ i ∈ xs, Lockstep R (f i) (g i)) : Lockstep R (xs.forM f) (xs.forM g) := by
  induction xs with
  | nil => exact .pure _
  | cons i rest ih =>
      refine (h i List.mem_cons_self).bind fun _ => ?_
      exact ih fun j hj => h j (List.mem_cons_of_mem _ hj)

end Triple

/-! ### Entries that may be made where they are -/

namespace Log

variable {τ : Type} {may : List τ → τ → Prop} {log : List τ}

/-- Each entry may come after those in front of it. -/
def EachAfter (may : List τ → τ → Prop) (log : List τ) : Prop :=
  ∀ before entry after, log = before ++ entry :: after → may before entry

theorem EachAfter.nil : EachAfter may [] := by
  intro before entry after h
  exact absurd (congrArg List.length h) (by simp)

theorem EachAfter.concat (h : EachAfter may log) {last : τ} (hlast : may log last) :
    EachAfter may (log ++ [last]) := by
  intro before entry after heq
  rcases List.eq_nil_or_concat after with rfl | ⟨front, end_, rfl⟩
  · obtain ⟨rfl, hentry⟩ := List.append_inj' heq rfl
    rw [← List.head_eq_of_cons_eq hentry]
    exact hlast
  · rw [List.concat_eq_append, ← List.cons_append, ← List.append_assoc] at heq
    exact h before entry front (List.append_inj' heq rfl).1

end Log
