/-
Pre- and postconditions for stateful programs that may stop early.

`Holds P x Q H` says of a program `x` over a state `σ`: from a state that satisfies `P`
it either returns a value and a state related by `Q`, or stops with an exception and a
state related by `H`.  The rules follow the ways such programs are put together.
-/
import Mathlib.Init

namespace Triple

variable {ε σ α β : Type}

/-- Started where `P` holds, `x` ends where `Q` holds of its value or `H` of its exception. -/
def Holds (P : σ → Prop) (x : EStateM ε σ α) (Q : α → σ → Prop) (H : ε → σ → Prop) : Prop :=
  ∀ s, P s → match x s with
    | .ok a s' => Q a s'
    | .error e s' => H e s'

variable {P P' : σ → Prop} {Q Q' : α → σ → Prop} {R : β → σ → Prop} {H H' : ε → σ → Prop}

theorem Holds.conseq {x : EStateM ε σ α} (h : Holds P x Q H) (hP : ∀ s, P' s → P s)
    (hQ : ∀ a s, Q a s → Q' a s) (hH : ∀ e s, H e s → H' e s) : Holds P' x Q' H' := by
  intro s hs
  have hx := h s (hP s hs)
  cases hr : x s with
  | ok a s' => rw [hr] at hx; exact hQ a s' hx
  | error e s' => rw [hr] at hx; exact hH e s' hx

theorem Holds.pre {x : EStateM ε σ α} (h : Holds P x Q H) (hP : ∀ s, P' s → P s) :
    Holds P' x Q H := h.conseq hP (fun _ _ => id) (fun _ _ => id)

theorem Holds.pure {a : α} (h : ∀ s, P s → Q a s) : Holds P (Pure.pure a : EStateM ε σ α) Q H := h

theorem Holds.throw {e : ε} (h : ∀ s, P s → H e s) :
    Holds P (MonadExcept.throw e : EStateM ε σ α) Q H := h

/-- A fact that does not speak of the state can be taken out of the precondition. -/
theorem Holds.assume {φ : Prop} {x : EStateM ε σ α} (h : φ → Holds P x Q H) :
    Holds (fun s => P s ∧ φ) x Q H := fun s hs => h hs.2 s hs.1

theorem Holds.exists {ι : Type} {P : ι → σ → Prop} {x : EStateM ε σ α}
    (h : ∀ i, Holds (P i) x Q H) : Holds (fun s => ∃ i, P i s) x Q H :=
  fun s ⟨i, hs⟩ => h i s hs

theorem Holds.bind {x : EStateM ε σ α} {f : α → EStateM ε σ β} (hx : Holds P x Q H)
    (hf : ∀ a, Holds (Q a) (f a) R H) : Holds P (x >>= f) R H := by
  intro s hs
  have h := hx s hs
  show match EStateM.bind x f s with
    | .ok b s' => R b s'
    | .error e s' => H e s'
  unfold EStateM.bind
  cases hr : x s with
  | ok a s' => rw [hr] at h; exact hf a s' h
  | error e s' => rw [hr] at h; exact h

theorem Holds.and {x : EStateM ε σ α} (h : Holds P x Q H) (h' : Holds P' x Q' H') :
    Holds (fun s => P s ∧ P' s) x (fun a s => Q a s ∧ Q' a s) (fun e s => H e s ∧ H' e s) := by
  intro s hs
  have hx := h s hs.1
  have hx' := h' s hs.2
  cases hr : x s with
  | ok a s' => rw [hr] at hx hx'; exact ⟨hx, hx'⟩
  | error e s' => rw [hr] at hx hx'; exact ⟨hx, hx'⟩

/-- Programs that follow each other can be grouped in either way. -/
theorem Holds.assoc {γ : Type} {R : γ → σ → Prop} {x : EStateM ε σ α} {f : α → EStateM ε σ β}
    {g : β → EStateM ε σ γ} (h : Holds P ((x >>= f) >>= g) R H) :
    Holds P (x >>= fun a => f a >>= g) R H := by
  rw [bind_assoc] at h
  exact h

theorem Holds.map {x : EStateM ε σ α} {f : α → β} (h : Holds P x (fun a => R (f a)) H) :
    Holds P (f <$> x) R H := by
  intro s hs
  have hx := h s hs
  show match EStateM.map f x s with
    | .ok b s' => R b s'
    | .error e s' => H e s'
  unfold EStateM.map
  cases hr : x s with
  | ok a s' => rw [hr] at hx; exact hx
  | error e s' => rw [hr] at hx; exact hx

/-- What follows a read of the state starts where `P` holds of what was read. -/
theorem Holds.get_bind {f : σ → EStateM ε σ α} (h : ∀ s, P s → Holds P (f s) Q H) :
    Holds P (MonadState.get >>= f) Q H := fun s hs => h s hs s hs

theorem Holds.ite {c : Bool} {x y : EStateM ε σ α} (hx : c = true → Holds P x Q H)
    (hy : c = false → Holds P y Q H) : Holds P (if c then x else y) Q H := by
  cases c with
  | true => exact hx rfl
  | false => exact hy rfl

/-- A loop keeps what its body keeps. -/
theorem Holds.forM {ι : Type} {f : ι → EStateM ε σ PUnit} {I : List ι → σ → Prop}
    (h : ∀ i rest, Holds (I (i :: rest)) (f i) (fun _ => I rest) H) (xs : List ι) :
    Holds (I xs) (xs.forM f) (fun _ => I []) H := by
  induction xs with
  | nil => exact Holds.pure fun _ => id
  | cons i rest ih => exact Holds.bind (h i rest) fun _ => ih

/-- A fold keeps what its body keeps of the state and the value it builds. -/
theorem Holds.foldlM {ι : Type} {f : β → ι → EStateM ε σ β} {I : β → σ → Prop}
    (h : ∀ b i, Holds (I b) (f b i) I H) (xs : List ι) :
    ∀ b, Holds (I b) (xs.foldlM f b) I H := by
  induction xs with
  | nil => exact fun b => Holds.pure fun _ => id
  | cons i rest ih => exact fun b => Holds.bind (h b i) ih

/-- A fold whose body adds the element it is given to what holds of those in front of it. -/
theorem Holds.foldlM_append {ι : Type} {f : β → ι → EStateM ε σ β} {I : List ι → β → σ → Prop}
    (h : ∀ before b i, Holds (I before b) (f b i) (I (before ++ [i])) H) (xs : List ι) :
    ∀ before b, Holds (I before b) (xs.foldlM f b) (I (before ++ xs)) H := by
  induction xs with
  | nil =>
      intro before b s hs
      rw [List.append_nil]
      exact hs
  | cons i rest ih =>
      intro before b
      rw [List.append_cons before i rest]
      exact Holds.bind (h before b i) (ih _)

/-- The elements a body is given are those of the list. -/
theorem Holds.foldlM_mem {ι : Type} {f : β → ι → EStateM ε σ β} {I : List ι → β → σ → Prop}
    (xs : List ι) (h : ∀ before b, ∀ i ∈ xs, Holds (I before b) (f b i) (I (before ++ [i])) H) :
    ∀ before b, Holds (I before b) (xs.foldlM f b) (I (before ++ xs)) H := by
  induction xs with
  | nil =>
      intro before b s hs
      rw [List.append_nil]
      exact hs
  | cons i rest ih =>
      intro before b
      rw [List.append_cons before i rest]
      refine Holds.bind (h before b i List.mem_cons_self) (ih (fun before b j hj => ?_) _)
      exact h before b j (List.mem_cons_of_mem i hj)

/-! ### Running a program -/

theorem bind_run {x : EStateM ε σ α} {f : α → EStateM ε σ β} {s s' : σ} {a : α}
    (h : x s = .ok a s') : (x >>= f) s = f a s' := by
  show EStateM.bind x f s = f a s'
  rw [EStateM.bind, h]

theorem bind_error {x : EStateM ε σ α} {f : α → EStateM ε σ β} {s s' : σ} {e : ε}
    (h : x s = .error e s') : (x >>= f) s = .error e s' := by
  show EStateM.bind x f s = .error e s'
  rw [EStateM.bind, h]

theorem bind_congr_run {x y : EStateM ε σ α} {f : α → EStateM ε σ β} {s : σ} (h : x s = y s) :
    (x >>= f) s = (y >>= f) s := by
  show EStateM.bind x f s = EStateM.bind y f s
  rw [EStateM.bind, EStateM.bind, h]

theorem Holds.of_ok {x : EStateM ε σ α} (h : Holds P x Q H) {s s' : σ} {a : α} (hs : P s)
    (hr : x s = .ok a s') : Q a s' := by
  have hx := h s hs
  rw [hr] at hx
  exact hx

/-- Where it is started, a program either returns or stops. -/
theorem Holds.ends {x : EStateM ε σ α} (h : Holds P x Q H) {s : σ} (hs : P s) :
    (∃ a s', x s = .ok a s' ∧ Q a s') ∨ ∃ e s', x s = .error e s' ∧ H e s' := by
  have hx := h s hs
  cases hr : x s with
  | ok a s' => rw [hr] at hx; exact .inl ⟨a, s', rfl, hx⟩
  | error e s' => rw [hr] at hx; exact .inr ⟨e, s', rfl, hx⟩

theorem Holds.returns {x : EStateM ε σ α} (h : Holds P x Q fun _ _ => False) {s : σ} (hs : P s) :
    ∃ a s', x s = .ok a s' ∧ Q a s' :=
  (h.ends hs).resolve_right fun ⟨_, _, _, hfalse⟩ => hfalse

/-! ### Parts of the state a program does not touch -/

/-- However `x` ends, `π` of the state is what it was. -/
def Keeps {γ : Type} (π : σ → γ) (x : EStateM ε σ α) : Prop :=
  ∀ c, Holds (fun s => π s = c) x (fun _ s => π s = c) (fun _ s => π s = c)

variable {γ : Type} {π : σ → γ}

theorem Keeps.pure (a : α) : Keeps π (Pure.pure a : EStateM ε σ α) :=
  fun _ => Holds.pure fun _ => id

theorem Keeps.throw (e : ε) : Keeps π (MonadExcept.throw e : EStateM ε σ α) :=
  fun _ => Holds.throw fun _ => id

theorem Keeps.bind {x : EStateM ε σ α} {f : α → EStateM ε σ β} (hx : Keeps π x)
    (hf : ∀ a, Keeps π (f a)) : Keeps π (x >>= f) := fun c => Holds.bind (hx c) fun a => hf a c

theorem Keeps.get_bind {f : σ → EStateM ε σ α} (h : ∀ s, Keeps π (f s)) :
    Keeps π (MonadState.get >>= f) := fun c => Holds.get_bind fun s _ => h s c

theorem Keeps.ite {c : Prop} [Decidable c] {x y : EStateM ε σ α} (hx : Keeps π x)
    (hy : Keeps π y) : Keeps π (if c then x else y) := by
  split
  · exact hx
  · exact hy

/-- What is kept may be used to carry any property of it through. -/
theorem Keeps.holds {x : EStateM ε σ α} (h : Keeps π x) (I : γ → Prop) :
    Holds (fun s => I (π s)) x (fun _ s => I (π s)) (fun _ s => I (π s)) := by
  intro s hs
  have hsame := h (π s) s rfl
  cases hr : x s with
  | ok a s' =>
      rw [hr] at hsame
      exact (congrArg I hsame).mpr hs
  | error e s' =>
      rw [hr] at hsame
      exact (congrArg I hsame).mpr hs

end Triple
