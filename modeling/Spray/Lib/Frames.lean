/-
Calls in code that keeps a frame pointer.

Each function begins with `push rbp` and `mov rbp, rsp` and ends with `pop rbp`, or `leave`,
and `ret`.  In between it leaves `rbp` alone, and on the stack it writes below its frame
only.  `FrameStep` is what one instruction of such code does, with the activations there
are; `Framed` is what holds of their frames as a result, at each instruction.
-/
import Spray.Lib.Memory
import Mathlib.Data.List.Infix

namespace Frames

/-- The word of memory at an address. -/
def word (m : Memory 64) (a : BitVec 64) : BitVec 64 := Memory.readWord m a 8

/-- Memory, with a word stored. -/
def store (m : Memory 64) (a x : BitVec 64) : Memory 64 := Memory.writeWord (k := 8) m a x

theorem word_store (m : Memory 64) (a x : BitVec 64) : word (store m a x) a = x :=
  Memory.readWord_writeWord (k := 8) m a x (by decide)

theorem word_store_of_le (m : Memory 64) {a b : BitVec 64} (x : BitVec 64)
    (hle : a.toNat + 8 ≤ b.toNat) (hb : b.toNat + 8 ≤ 2 ^ 64) :
    word (store m a x) b = word m b :=
  Memory.readWord_writeWord_of_le (k := 8) m x hle hb

/-- A call that has not returned. -/
structure Activation where
  /-- Where on the stack its return address is. -/
  slot : BitVec 64
  ret : BitVec 64
  /-- The frame pointer of its caller. -/
  callerRbp : BitVec 64
  deriving DecidableEq, Repr

/-- How much of its frame the innermost activation has set up. -/
inductive Stage
  /-- Before `push rbp`. -/
  | entered
  /-- Before `mov rbp, rsp`. -/
  | pushed
  | setUp
  /-- Before `ret`. -/
  | popped
  deriving DecidableEq, Repr

structure FrameState where
  pc : BitVec 64
  rsp : BitVec 64
  rbp : BitVec 64
  mem : Memory 64
  /-- The activations, innermost first. -/
  stack : List Activation
  stage : Stage

/-- What one instruction does. -/
inductive FrameStep : FrameState → FrameState → Prop
  | call {s : FrameState} (target ret : BitVec 64) (hstage : s.stage = .setUp)
      (hroom : 16 ≤ s.rsp.toNat) :
      FrameStep s
        { pc := target, rsp := s.rsp - 8, rbp := s.rbp
          mem := store s.mem (s.rsp - 8) ret
          stack := ⟨s.rsp - 8, ret, s.rbp⟩ :: s.stack, stage := .entered }
  | pushRbp {s : FrameState} (next : BitVec 64) (hstage : s.stage = .entered) :
      FrameStep s
        { s with pc := next, rsp := s.rsp - 8
                 mem := store s.mem (s.rsp - 8) s.rbp, stage := .pushed }
  | movRbp {s : FrameState} (next : BitVec 64) (hstage : s.stage = .pushed) :
      FrameStep s { s with pc := next, rbp := s.rsp, stage := .setUp }
  /-- Any other instruction of a function. -/
  | body {s : FrameState} {a : Activation} {rest : List Activation} (next rsp : BitVec 64)
      (mem : Memory 64) (hstage : s.stage = .setUp) (hstack : s.stack = a :: rest)
      (hrsp : rsp.toNat + 8 ≤ a.slot.toNat)
      (hkeeps : ∀ b ∈ s.stack, word mem b.slot = word s.mem b.slot ∧
        word mem (b.slot - 8) = word s.mem (b.slot - 8)) :
      FrameStep s { s with pc := next, rsp, mem }
  /-- Also `leave`. -/
  | popRbp {s : FrameState} (next : BitVec 64) (hstage : s.stage = .setUp)
      (hstack : s.stack ≠ []) :
      FrameStep s
        { s with pc := next, rsp := s.rbp + 8, rbp := word s.mem s.rbp, stage := .popped }
  | ret {s : FrameState} {a : Activation} {rest : List Activation} (hstage : s.stage = .popped)
      (hstack : s.stack = a :: rest) :
      FrameStep s
        { s with pc := word s.mem s.rsp, rsp := s.rsp + 8, stack := rest, stage := .setUp }
  /-- Other code runs before the first call and after its return. -/
  | outside {s s' : FrameState} (hstack : s.stack = []) (hstack' : s'.stack = [])
      (hstage' : s'.stage = .setUp) : FrameStep s s'

/-- The activations that have saved their caller's frame pointer. -/
def FrameState.saved (s : FrameState) : List Activation :=
  if s.stage = .entered then s.stack.tail else s.stack

/-- The stack pointer and the frame pointer, in the innermost activation. -/
def FrameState.AtStage (s : FrameState) (a : Activation) : Prop :=
  match s.stage with
  | .entered => s.rsp = a.slot ∧ s.rbp = a.callerRbp
  | .pushed => s.rsp = a.slot - 8 ∧ s.rbp = a.callerRbp
  | .setUp => s.rsp.toNat + 8 ≤ a.slot.toNat ∧ s.rbp = a.slot - 8
  | .popped => s.rsp = a.slot ∧ s.rbp = a.callerRbp

/-- The frames on the stack are in order. -/
structure Framed (s : FrameState) : Prop where
  returns : ∀ a ∈ s.stack, word s.mem a.slot = a.ret
  saves : ∀ a ∈ s.saved, word s.mem (a.slot - 8) = a.callerRbp
  linked : s.stack.IsChain fun a b => a.callerRbp = b.slot - 8
  ordered : s.stack.Pairwise fun a b => a.slot.toNat + 16 ≤ b.slot.toNat
  room : ∀ a ∈ s.stack, 8 ≤ a.slot.toNat ∧ a.slot.toNat + 8 ≤ 2 ^ 64
  top : ∀ a rest, s.stack = a :: rest → s.AtStage a

variable {s s' : FrameState} {a b : Activation} {rest : List Activation}

theorem framed_of_empty (h : s.stack = []) : Framed s where
  returns a ha := by rw [h] at ha; cases ha
  saves a ha := by
    unfold FrameState.saved at ha
    rw [h] at ha
    split at ha
    · cases ha
    · cases ha
  linked := by rw [h]; exact .nil
  ordered := by rw [h]; exact .nil
  room a ha := by rw [h] at ha; cases ha
  top a rest ha := by rw [h] at ha; cases ha

theorem Framed.at_entered (h : Framed s) (hstack : s.stack = a :: rest)
    (hstage : s.stage = .entered) : s.rsp = a.slot ∧ s.rbp = a.callerRbp := by
  have htop := h.top a rest hstack
  rwa [FrameState.AtStage, hstage] at htop

theorem Framed.at_pushed (h : Framed s) (hstack : s.stack = a :: rest)
    (hstage : s.stage = .pushed) : s.rsp = a.slot - 8 ∧ s.rbp = a.callerRbp := by
  have htop := h.top a rest hstack
  rwa [FrameState.AtStage, hstage] at htop

theorem Framed.at_setUp (h : Framed s) (hstack : s.stack = a :: rest)
    (hstage : s.stage = .setUp) :
    s.rsp.toNat + 8 ≤ a.slot.toNat ∧ s.rbp = a.slot - 8 := by
  have htop := h.top a rest hstack
  rwa [FrameState.AtStage, hstage] at htop

theorem Framed.at_popped (h : Framed s) (hstack : s.stack = a :: rest)
    (hstage : s.stage = .popped) : s.rsp = a.slot ∧ s.rbp = a.callerRbp := by
  have htop := h.top a rest hstack
  rwa [FrameState.AtStage, hstage] at htop

/-- The frame pointer leads to the return address of the activation whose frame it is. -/
theorem Framed.return_of_setUp (h : Framed s) (hstack : s.stack = a :: rest)
    (hstage : s.stage = .setUp) : s.rbp + 8 = a.slot ∧ word s.mem (s.rbp + 8) = a.ret := by
  have hslot : s.rbp + 8 = a.slot := by
    rw [(h.at_setUp hstack hstage).2, BitVec.sub_add_cancel]
  refine ⟨hslot, ?_⟩
  rw [hslot]
  exact h.returns a (hstack ▸ List.mem_cons_self)

/-- Before that and after it, it is the caller's. -/
theorem Framed.return_of_not_setUp (h : Framed s) (hstack : s.stack = a :: b :: rest)
    (hstage : s.stage ≠ .setUp) : s.rbp + 8 = b.slot ∧ word s.mem (s.rbp + 8) = b.ret := by
  have hrbp : s.rbp = a.callerRbp := by
    cases hst : s.stage with
    | entered => exact (h.at_entered hstack hst).2
    | pushed => exact (h.at_pushed hstack hst).2
    | setUp => exact absurd hst hstage
    | popped => exact (h.at_popped hstack hst).2
  have hlinked : a.callerRbp = b.slot - 8 := by
    have hchain := h.linked
    rw [hstack] at hchain
    exact List.isChain_cons_cons.mp hchain |>.1
  have hslot : s.rbp + 8 = b.slot := by rw [hrbp, hlinked, BitVec.sub_add_cancel]
  refine ⟨hslot, ?_⟩
  rw [hslot]
  exact h.returns b (hstack ▸ List.mem_cons_of_mem _ List.mem_cons_self)

/-! ### What an instruction does to the frames -/

theorem saved_of_ne (h : s.stage ≠ .entered) : s.saved = s.stack := if_neg h

theorem Framed.top_lt (h : Framed s) (hstack : s.stack = a :: rest) (hb : b ∈ rest) :
    a.slot.toNat + 16 ≤ b.slot.toNat := by
  have hordered := h.ordered
  rw [hstack] at hordered
  exact List.rel_of_pairwise_cons hordered hb

theorem Framed.top_le (h : Framed s) (hstack : s.stack = a :: rest) (hb : b ∈ s.stack) :
    a.slot.toNat ≤ b.slot.toNat := by
  rw [hstack] at hb
  rcases List.mem_cons.mp hb with rfl | hrest
  · exact Nat.le_refl _
  · have hlt := h.top_lt hstack hrest
    omega

theorem toNat_sub_eight {x : BitVec 64} (h : 8 ≤ x.toNat) : (x - 8).toNat = x.toNat - 8 := by
  have hlt := x.isLt
  have height : (8 : BitVec 64).toNat = 8 := rfl
  rw [BitVec.toNat_sub, height]
  omega

/-- Once a frame is set up, what is below its stack pointer is free. -/
theorem Framed.above (h : Framed s) (hstage : s.stage = .setUp) (hb : b ∈ s.stack) :
    s.rsp.toNat + 8 ≤ b.slot.toNat := by
  cases hstack : s.stack with
  | nil => rw [hstack] at hb; cases hb
  | cons a rest =>
      have htop := h.at_setUp hstack hstage
      have hle := h.top_le hstack hb
      omega

theorem Framed.call (h : Framed s) (target ret : BitVec 64) (hstage : s.stage = .setUp)
    (hroom : 16 ≤ s.rsp.toNat) :
    Framed
      { pc := target, rsp := s.rsp - 8, rbp := s.rbp
        mem := store s.mem (s.rsp - 8) ret
        stack := ⟨s.rsp - 8, ret, s.rbp⟩ :: s.stack, stage := .entered } := by
  have hrsp : (s.rsp - 8).toNat = s.rsp.toNat - 8 := toNat_sub_eight (by omega)
  have hlt := s.rsp.isLt
  have hkeeps : ∀ x : BitVec 64, s.rsp.toNat ≤ x.toNat → x.toNat + 8 ≤ 2 ^ 64 →
      word (store s.mem (s.rsp - 8) ret) x = word s.mem x :=
    fun x hx hwrap => word_store_of_le s.mem ret (by omega) hwrap
  refine ⟨?_, ?_, ?_, ?_, ?_, ?_⟩
  · intro b hb
    rcases List.mem_cons.mp hb with rfl | hb
    · exact word_store s.mem (s.rsp - 8) ret
    · have habove := h.above hstage hb
      exact (hkeeps b.slot (by omega) (h.room b hb).2).trans (h.returns b hb)
  · intro b hb
    have habove := h.above hstage hb
    have hsub := toNat_sub_eight (h.room b hb).1
    have hsaved : b ∈ s.saved := by
      rw [saved_of_ne (by rw [hstage]; decide)]
      exact hb
    have hroom := (h.room b hb).2
    exact (hkeeps (b.slot - 8) (by omega) (by omega)).trans (h.saves b hsaved)
  · cases hstack : s.stack with
    | nil => exact .singleton _
    | cons a rest => exact .cons_cons (h.at_setUp hstack hstage).2 (hstack ▸ h.linked)
  · refine List.pairwise_cons.mpr ⟨fun b hb => ?_, h.ordered⟩
    have habove := h.above hstage hb
    show (s.rsp - 8).toNat + 16 ≤ b.slot.toNat
    omega
  · intro b hb
    rcases List.mem_cons.mp hb with rfl | hb
    · show 8 ≤ (s.rsp - 8).toNat ∧ (s.rsp - 8).toNat + 8 ≤ 2 ^ 64
      omega
    · exact h.room b hb
  · rintro b rest hcons
    obtain ⟨rfl, -⟩ := List.cons.inj hcons
    exact ⟨rfl, rfl⟩

theorem Framed.pushRbp (h : Framed s) (next : BitVec 64) (hstage : s.stage = .entered) :
    Framed
      { s with pc := next, rsp := s.rsp - 8, mem := store s.mem (s.rsp - 8) s.rbp
               stage := .pushed } := by
  by_cases hnil : s.stack = []
  · exact framed_of_empty hnil
  obtain ⟨a, rest, hstack⟩ := List.exists_cons_of_ne_nil hnil
  have htop := h.at_entered hstack hstage
  have ha : a ∈ s.stack := hstack ▸ List.mem_cons_self
  have hroom := (h.room a ha).1
  have hrsp : (s.rsp - 8).toNat = a.slot.toNat - 8 := by
    rw [htop.1]
    exact toNat_sub_eight hroom
  have hkeeps : ∀ x : BitVec 64, a.slot.toNat ≤ x.toNat → x.toNat + 8 ≤ 2 ^ 64 →
      word (store s.mem (s.rsp - 8) s.rbp) x = word s.mem x :=
    fun x hx hwrap => word_store_of_le s.mem s.rbp (by omega) hwrap
  refine ⟨fun b hb => ?_, fun b hb => ?_, h.linked, h.ordered, h.room, fun b rest' hb => ?_⟩
  · exact (hkeeps b.slot (h.top_le hstack hb) (h.room b hb).2).trans (h.returns b hb)
  · have hb' : b ∈ s.stack := hb
    show word (store s.mem (s.rsp - 8) s.rbp) (b.slot - 8) = b.callerRbp
    rw [hstack] at hb'
    rcases List.mem_cons.mp hb' with rfl | hrest
    · rw [htop.1, htop.2, word_store]
    · have hsaved : b ∈ s.saved := by
        unfold FrameState.saved
        rw [hstage, if_pos rfl, hstack]
        exact hrest
      have hlt := h.top_lt hstack hrest
      have hsub := toNat_sub_eight (h.room b hb).1
      have hwrap := (h.room b hb).2
      exact (hkeeps (b.slot - 8) (by omega) (by omega)).trans (h.saves b hsaved)
  · obtain ⟨rfl, -⟩ := List.cons.inj (hstack.symm.trans hb)
    exact ⟨by rw [htop.1], htop.2⟩

theorem Framed.movRbp (h : Framed s) (next : BitVec 64) (hstage : s.stage = .pushed) :
    Framed { s with pc := next, rbp := s.rsp, stage := .setUp } where
  returns := h.returns
  saves b hb := h.saves b (by rw [saved_of_ne (by rw [hstage]; decide)]; exact hb)
  linked := h.linked
  ordered := h.ordered
  room := h.room
  top a rest hstack := by
    have htop := h.at_pushed hstack hstage
    have hroom := (h.room a (hstack ▸ List.mem_cons_self)).1
    have hsub := toNat_sub_eight hroom
    refine ⟨?_, htop.1⟩
    show s.rsp.toNat + 8 ≤ a.slot.toNat
    rw [htop.1]
    omega

theorem Framed.body (h : Framed s) (next rsp : BitVec 64) (mem : Memory 64)
    (hstage : s.stage = .setUp) (hstack : s.stack = a :: rest)
    (hrsp : rsp.toNat + 8 ≤ a.slot.toNat)
    (hkeeps : ∀ b ∈ s.stack, word mem b.slot = word s.mem b.slot ∧
      word mem (b.slot - 8) = word s.mem (b.slot - 8)) :
    Framed { s with pc := next, rsp, mem } where
  returns b hb := (hkeeps b hb).1.trans (h.returns b hb)
  saves b hb := by
    have hb' : b ∈ s.saved := hb
    have hmem := hb'
    rw [saved_of_ne (by rw [hstage]; decide)] at hmem
    exact (hkeeps b hmem).2.trans (h.saves b hb')
  linked := h.linked
  ordered := h.ordered
  room := h.room
  top b rest' hb := by
    obtain ⟨rfl, -⟩ := List.cons.inj (hstack.symm.trans hb)
    unfold FrameState.AtStage
    dsimp only
    rw [hstage]
    exact ⟨hrsp, (h.at_setUp hstack hstage).2⟩

theorem Framed.popRbp (h : Framed s) (next : BitVec 64) (hstage : s.stage = .setUp) :
    Framed
      { s with pc := next, rsp := s.rbp + 8, rbp := word s.mem s.rbp
               stage := .popped } where
  returns := h.returns
  saves b hb := h.saves b (by rw [saved_of_ne (by rw [hstage]; decide)]; exact hb)
  linked := h.linked
  ordered := h.ordered
  room := h.room
  top a rest hstack := by
    have htop := h.at_setUp hstack hstage
    have ha : a ∈ s.saved := by
      rw [saved_of_ne (by rw [hstage]; decide), show s.stack = a :: rest from hstack]
      exact List.mem_cons_self
    refine ⟨?_, ?_⟩
    · show s.rbp + 8 = a.slot
      rw [htop.2, BitVec.sub_add_cancel]
    · show word s.mem s.rbp = a.callerRbp
      rw [htop.2]
      exact h.saves a ha

theorem Framed.ret (h : Framed s) (hstage : s.stage = .popped) (hstack : s.stack = a :: rest) :
    Framed
      { s with pc := word s.mem s.rsp, rsp := s.rsp + 8, stack := rest
               stage := .setUp } := by
  have htop := h.at_popped hstack hstage
  have hlinked := h.linked
  have hordered := h.ordered
  have hsaved := saved_of_ne (s := s) (by rw [hstage]; decide)
  have hrest : ∀ b ∈ rest, b ∈ s.stack := fun b hb => hstack ▸ List.mem_cons_of_mem a hb
  rw [hstack] at hlinked hordered
  refine ⟨fun b hb => h.returns b (hrest b hb), fun b hb => ?_, ?_, hordered.of_cons,
    fun b hb => h.room b (hrest b hb), ?_⟩
  · exact h.saves b (hsaved ▸ hrest b hb)
  · exact hlinked.of_cons
  · rintro b rest' rfl
    have hlt := h.top_lt hstack List.mem_cons_self
    have hroom := (h.room b (hrest b List.mem_cons_self)).2
    obtain ⟨hcaller, -⟩ := List.isChain_cons_cons.mp hlinked
    refine ⟨?_, htop.2.trans hcaller⟩
    show (s.rsp + 8).toNat + 8 ≤ b.slot.toNat
    have height : (8 : BitVec 64).toNat = 8 := rfl
    rw [htop.1, BitVec.toNat_add, height, Nat.mod_eq_of_lt (by omega)]
    omega

/-- **The frames stay in order.** -/
theorem Framed.step (h : Framed s) (hstep : FrameStep s s') : Framed s' := by
  cases hstep with
  | call target ret hstage hroom => exact h.call target ret hstage hroom
  | pushRbp next hstage => exact h.pushRbp next hstage
  | movRbp next hstage => exact h.movRbp next hstage
  | body next rsp mem hstage hstack hrsp hkeeps =>
      exact h.body next rsp mem hstage hstack hrsp hkeeps
  | popRbp next hstage _ => exact h.popRbp next hstage
  | ret hstage hstack => exact h.ret hstage hstack
  | outside _ hstack' _ => exact framed_of_empty hstack'

/-! ### Activations along a run -/

theorem FrameStep.suffix (hstep : FrameStep s s') (h : (a :: rest) <:+ s.stack) :
    (a :: rest) <:+ s'.stack ∨ (s.stack = a :: rest ∧ s'.stack = rest) := by
  cases hstep with
  | call target ret _ _ => exact .inl (h.trans (List.suffix_cons _ _))
  | pushRbp => exact .inl h
  | movRbp => exact .inl h
  | body => exact .inl h
  | popRbp => exact .inl h
  | ret _ hstack =>
      rw [hstack] at h ⊢
      rcases List.suffix_cons_iff.mp h with heq | htail
      · obtain ⟨rfl, rfl⟩ := List.cons.inj heq
        exact .inr ⟨rfl, rfl⟩
      · exact .inl htail
  | outside hstack =>
      rw [hstack] at h
      exact absurd (List.suffix_nil.mp h) (List.cons_ne_nil a rest)

/-- An activation returns to its return address. -/
theorem Framed.returns_to (h : Framed s) (hstep : FrameStep s s') (hstack : s.stack = a :: rest)
    (hstack' : s'.stack = rest) : s'.pc = a.ret := by
  have hne : s'.stack ≠ s.stack := by
    rw [hstack, hstack']
    exact (List.cons_ne_self a rest).symm
  cases hstep with
  | call target ret _ _ =>
      have hlength := congrArg List.length hstack'
      rw [hstack] at hlength
      simp only [List.length_cons] at hlength
      omega
  | pushRbp => exact absurd rfl hne
  | movRbp => exact absurd rfl hne
  | body => exact absurd rfl hne
  | popRbp => exact absurd rfl hne
  | ret hstage hcons =>
      show word s.mem s.rsp = a.ret
      rw [(h.at_popped hstack hstage).1]
      exact h.returns a (hstack ▸ List.mem_cons_self)
  | outside hnil =>
      rw [hstack] at hnil
      cases hnil

variable {σ : Nat → FrameState} {p q : Nat}

/-- Up to position `q` the innermost activation of position `p` has not returned. -/
def OnStack (σ : Nat → FrameState) (p q : Nat) : Prop :=
  ∀ i, p ≤ i → i ≤ q → (σ p).stack <:+ (σ i).stack

/-- At position `q` it has just returned, and all it called. -/
def Returns (σ : Nat → FrameState) (p q : Nat) : Prop :=
  p ≤ q ∧ OnStack σ p q ∧ (σ (q + 1)).stack = (σ p).stack.tail

theorem OnStack.mono (h : OnStack σ p q) {q' : Nat} (hle : q' ≤ q) : OnStack σ p q' :=
  fun i hlo hhi => h i hlo (Nat.le_trans hhi hle)

theorem OnStack.refl (σ : Nat → FrameState) (p : Nat) : OnStack σ p p := by
  intro i hlo hhi
  obtain rfl : i = p := Nat.le_antisymm hhi hlo
  exact List.suffix_rfl

theorem OnStack.succ (h : OnStack σ p q) (hnext : (σ p).stack <:+ (σ (q + 1)).stack) :
    OnStack σ p (q + 1) := by
  intro i hlo hhi
  rcases Nat.eq_or_lt_of_le hhi with rfl | hlt
  · exact hnext
  · exact h i hlo (by omega)

theorem OnStack.not_returned (h : OnStack σ p (q + 1)) (hle : p ≤ q)
    (hstack : (σ p).stack = a :: rest) : (σ (q + 1)).stack ≠ rest := by
  intro heq
  have hsuffix := (h (q + 1) (by omega) (Nat.le_refl _)).length_le
  rw [heq, hstack, List.length_cons] at hsuffix
  omega

/-- **While a run goes on, an activation is live until it returns.** -/
theorem onStack_or_returns (hstack : (σ p).stack = a :: rest) (hle : p ≤ q)
    (hsteps : ∀ i, p ≤ i → i < q → FrameStep (σ i) (σ (i + 1))) :
    OnStack σ p q ∨ ∃ r, r < q ∧ Returns σ p r := by
  induction q, hle using Nat.le_induction with
  | base => exact .inl (.refl σ p)
  | succ q hle ih =>
      rcases ih fun i hlo hhi => hsteps i hlo (by omega) with hlive | ⟨r, hr, hreturns⟩
      · have hsuffix := hlive q hle (Nat.le_refl q)
        rw [hstack] at hsuffix
        rcases (hsteps q hle (Nat.lt_succ_self q)).suffix hsuffix with hnext | ⟨-, hnext⟩
        · exact .inl (hlive.succ (by rw [hstack]; exact hnext))
        · refine .inr ⟨q, Nat.lt_succ_self q, hle, hlive, ?_⟩
          rw [hstack, hnext, List.tail_cons]
      · exact .inr ⟨r, by omega, hreturns⟩

theorem Returns.pc (h : Returns σ p q) (hframed : Framed (σ q))
    (hstep : FrameStep (σ q) (σ (q + 1))) (hstack : (σ p).stack = a :: rest) :
    (σ (q + 1)).pc = a.ret := by
  obtain ⟨hle, hlive, hnext⟩ := h
  have hsuffix := hlive q hle (Nat.le_refl q)
  rw [hstack] at hsuffix hnext
  rcases hstep.suffix hsuffix with hlonger | ⟨hq, -⟩
  · have hlength := hlonger.length_le
    rw [hnext, List.tail_cons, List.length_cons] at hlength
    omega
  · exact hframed.returns_to hstep hq hnext

end Frames
