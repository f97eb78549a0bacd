/-
What enabling and disabling breakpoints does to the tracee's memory.

Both functions rewrite a whole word to change one byte, and the words of
neighbouring breakpoints overlap.  `enableBreakpoint_cases` and
`disableBreakpoint_cases` say once what a call can do: it changes the byte at its own
address and the entry for it, or nothing at all.
-/
import Spray.Breakpoints

namespace Spray

/-! ### Replacing the lowest byte of a word -/

theorem btmByteMask_getLsbD (i : Nat) : btmByteMask.getLsbD i = decide (i < 8) := by
  show (BitVec.ofNat 64 (2 ^ 8 - 1)).getLsbD i = decide (i < 8)
  rw [BitVec.getLsbD_ofNat, Nat.testBit_two_pow_sub_one]
  by_cases h : i < 8
  · simp [h, show i < 64 by omega]
  · simp [h]

theorem setWidth_and_mask (x : Word) : (x &&& btmByteMask).setWidth 8 = Memory.byteAt x 0 := by
  ext j hj
  simp [Memory.byteAt, BitVec.getElem_setWidth, btmByteMask_getLsbD, hj]

theorem byteAt_replace_zero (x : Word) (v : Byte) :
    Memory.byteAt ((x &&& ~~~btmByteMask) ||| v.setWidth 64) 0 = v := by
  ext j hj
  simp [Memory.byteAt, btmByteMask_getLsbD, hj, show j < 64 by omega]

theorem byteAt_replace_pos (x : Word) (v : Byte) {i : Nat} (hpos : 0 < i) (hi : i < 8) :
    Memory.byteAt ((x &&& ~~~btmByteMask) ||| v.setWidth 64) i = Memory.byteAt x i := by
  ext j hj
  have h64 : 8 * i + j < 64 := by omega
  have h8 : ¬ 8 * i + j < 8 := by omega
  simp only [Memory.byteAt, BitVec.getElem_extractLsb', BitVec.getLsbD_or, BitVec.getLsbD_and,
    BitVec.getLsbD_not, BitVec.getLsbD_setWidth, btmByteMask_getLsbD,
    BitVec.getLsbD_of_ge v _ (Nat.le_of_not_lt h8)]
  simp [h64, h8]

/-- Writing a word back with its lowest byte replaced changes that byte only. -/
theorem writeWord_replace (m : Memory 64) (a : Word) (v : Byte) :
    Memory.writeWord (k := 8) m a
      ((Memory.readWord m a 8 &&& ~~~btmByteMask) ||| v.setWidth 64) = Function.update m a v := by
  rw [Memory.writeWord_eq_update m a _ (by omega), byteAt_replace_zero]
  intro i hpos hi
  rw [byteAt_replace_pos _ v hpos hi, Memory.byteAt_readWord m a hi]

/-! ### The byte an enabled breakpoint stands in for -/

/-- The original byte saved at `a`, if the breakpoint there is enabled. -/
def savedByte (b : Breakpoints) (a : RealAddr) : Option Byte :=
  match b.map a with
  | some bp => if bp.isEnabled then some bp.origData else none
  | none => none

theorem lookupBreakpoint_eq (b : Breakpoints) (a : RealAddr) :
    lookupBreakpoint b a = (savedByte b a).isSome := by
  unfold lookupBreakpoint savedByte getBreakpoint
  cases b.map a with
  | none => rfl
  | some bp => cases h : bp.isEnabled <;> simp [h]

theorem savedByte_hashmapSet (b : Breakpoints) (entry : Breakpoint) :
    savedByte (hashmapSet b entry) = Function.update (savedByte b) entry.addr
      (if entry.isEnabled then some entry.origData else none) := by
  funext a
  by_cases ha : a = entry.addr
  · simp [savedByte, hashmapSet, ha]
  · simp [savedByte, hashmapSet, ha]

theorem savedByte_initBreakpoints : savedByte initBreakpoints = fun _ => none := rfl

/-- Creating an entry that is not enabled goes unnoticed. -/
theorem getOrCreate_spec (b : Breakpoints) (addr : RealAddr) :
    (getOrCreateBreakpoint b addr).1.addr = addr ∧
    savedByte (getOrCreateBreakpoint b addr).2 = savedByte b ∧
    (getOrCreateBreakpoint b addr).1.isEnabled = (savedByte b addr).isSome := by
  unfold getOrCreateBreakpoint getBreakpoint
  cases h : b.map addr with
  | none =>
      refine ⟨rfl, ?_, by simp [savedByte, h]⟩
      rw [savedByte_hashmapSet]
      exact Function.update_eq_self_iff.mpr (by simp [savedByte, h])
  | some bp =>
      refine ⟨b.keyed h, rfl, ?_⟩
      cases hen : bp.isEnabled <;> simp [savedByte, h, hen]

/-! ### What a call can do -/

variable {W : Type} {pt : Ptrace W} {mem : W → Memory 64}

/-- Neither the saved bytes nor memory differ. -/
structure SameStore (mem : W → Memory 64) (s s' : Store W) : Prop where
  saved : savedByte s'.breakpoints = savedByte s.breakpoints
  mem : mem s'.tracee = mem s.tracee

/-- A trap is written over the byte at `addr`, which is saved. -/
structure Patched (mem : W → Memory 64) (addr : RealAddr) (s s' : Store W) : Prop where
  saved : savedByte s'.breakpoints =
    Function.update (savedByte s.breakpoints) addr (some (mem s.tracee addr.value))
  mem : mem s'.tracee = Function.update (mem s.tracee) addr.value int3

/-- The saved byte is written back to `addr`. -/
structure Restored (mem : W → Memory 64) (addr : RealAddr) (orig : Byte) (s s' : Store W) :
    Prop where
  saved : savedByte s'.breakpoints = Function.update (savedByte s.breakpoints) addr none
  mem : mem s'.tracee = Function.update (mem s.tracee) addr.value orig

theorem enableBreakpoint_cases (laws : MemoryLaws pt mem) (addr : RealAddr) (s : Store W) :
    ((enableBreakpoint pt addr s).1 = .ok ∧ savedByte s.breakpoints addr ≠ none ∧
      SameStore mem s (enableBreakpoint pt addr s).2) ∨
    ((enableBreakpoint pt addr s).1 = .ok ∧ savedByte s.breakpoints addr = none ∧
      Patched mem addr s (enableBreakpoint pt addr s).2) ∨
    ((enableBreakpoint pt addr s).1 = .err ∧ savedByte s.breakpoints addr = none ∧
      SameStore mem s (enableBreakpoint pt addr s).2) := by
  obtain ⟨haddr, hsaved, hen⟩ := getOrCreate_spec s.breakpoints addr
  unfold enableBreakpoint
  generalize getOrCreateBreakpoint s.breakpoints addr = gc at *
  obtain ⟨bp, b⟩ := gc
  simp only at haddr hsaved hen ⊢
  cases hs : savedByte s.breakpoints addr with
  | some v =>
      refine Or.inl ?_
      simp only [hen, hs, Option.isSome_some, Bool.not_true, Bool.false_eq_true, if_false]
      exact ⟨trivial, by simp, hsaved, rfl⟩
  | none =>
      refine Or.inr ?_
      simp only [hen, hs, Option.isSome_none, Bool.not_false, if_true, ptReadMemory, haddr]
      have hpm := laws.peek_mem addr.value s.tracee
      have hpv := laws.peek_val addr.value s.tracee
      generalize pt.peekData addr.value s.tracee = pk at *
      obtain ⟨_ | x, w⟩ := pk
      · exact Or.inr ⟨rfl, trivial, hsaved, hpm⟩
      · simp only at hpm hpv ⊢
        obtain rfl := hpv x rfl
        set y := (Memory.readWord (mem s.tracee) addr.value 8 &&& ~~~btmByteMask) |||
          int3.setWidth 64 with hy
        have hok := laws.poke_ok addr.value y w
        have herr := laws.poke_err addr.value y w
        unfold ptWriteMemory
        generalize pt.pokeData addr.value y w = pk at *
        obtain ⟨_ | _, w'⟩ := pk
        · exact Or.inr ⟨rfl, trivial, hsaved, (herr rfl).trans hpm⟩
        · refine Or.inl ⟨rfl, trivial, ?_, ?_⟩
          · show savedByte (hashmapSet b _) = _
            rw [savedByte_hashmapSet, hsaved]
            simp only [if_true]
            rw [setWidth_and_mask, Memory.byteAt_readWord _ _ (show 0 < 8 by omega)]
            simp
          · show mem w' = _
            rw [hok rfl, hpm, hy, writeWord_replace]

theorem disableBreakpoint_cases (laws : MemoryLaws pt mem) (addr : RealAddr) (s : Store W) :
    ((disableBreakpoint pt addr s).1 = .ok ∧ savedByte s.breakpoints addr = none ∧
      SameStore mem s (disableBreakpoint pt addr s).2) ∨
    (∃ orig, (disableBreakpoint pt addr s).1 = .ok ∧ savedByte s.breakpoints addr = some orig ∧
      Restored mem addr orig s (disableBreakpoint pt addr s).2) ∨
    ((disableBreakpoint pt addr s).1 = .err ∧ savedByte s.breakpoints addr ≠ none ∧
      SameStore mem s (disableBreakpoint pt addr s).2) := by
  unfold disableBreakpoint getBreakpoint
  cases hb : s.breakpoints.map addr with
  | none => exact Or.inl ⟨rfl, by simp [savedByte, hb], rfl, rfl⟩
  | some bp =>
      have haddr : bp.addr = addr := s.breakpoints.keyed hb
      cases hen : bp.isEnabled with
      | false =>
          exact Or.inl ⟨by simp [hen], by simp [savedByte, hb, hen], by simp [hen], by simp [hen]⟩
      | true =>
          have hs : savedByte s.breakpoints addr = some bp.origData := by simp [savedByte, hb, hen]
          refine Or.inr ?_
          simp only [hen, if_true, ptReadMemory, haddr]
          have hpm := laws.peek_mem addr.value s.tracee
          have hpv := laws.peek_val addr.value s.tracee
          generalize pt.peekData addr.value s.tracee = pk at *
          obtain ⟨_ | x, w⟩ := pk
          · exact Or.inr ⟨rfl, by simp [hs], rfl, hpm⟩
          · simp only at hpm hpv ⊢
            obtain rfl := hpv x rfl
            set y := (Memory.readWord (mem s.tracee) addr.value 8 &&& ~~~btmByteMask) |||
              bp.origData.setWidth 64 with hy
            have hok := laws.poke_ok addr.value y w
            have herr := laws.poke_err addr.value y w
            unfold ptWriteMemory
            generalize pt.pokeData addr.value y w = pk at *
            obtain ⟨_ | _, w'⟩ := pk
            · exact Or.inr ⟨rfl, by simp [hs], rfl, (herr rfl).trans hpm⟩
            · refine Or.inl ⟨bp.origData, rfl, hs, ?_, ?_⟩
              · show savedByte (hashmapSet s.breakpoints _) = _
                rw [savedByte_hashmapSet]
                rfl
              · show mem w' = _
                rw [hok rfl, hpm, hy, writeWord_replace]

/-! ### The enabled set -/

theorem SameStore.lookup {s s' : Store W} (h : SameStore mem s s') (b : RealAddr) :
    lookupBreakpoint s'.breakpoints b = lookupBreakpoint s.breakpoints b := by
  rw [lookupBreakpoint_eq, lookupBreakpoint_eq, h.saved]

theorem Patched.lookup {addr : RealAddr} {s s' : Store W} (h : Patched mem addr s s')
    (b : RealAddr) :
    lookupBreakpoint s'.breakpoints b = (decide (b = addr) || lookupBreakpoint s.breakpoints b) := by
  rw [lookupBreakpoint_eq, lookupBreakpoint_eq, h.saved]
  by_cases hb : b = addr
  · simp [hb]
  · simp [hb]

theorem Restored.lookup {addr : RealAddr} {orig : Byte} {s s' : Store W}
    (h : Restored mem addr orig s s') (b : RealAddr) :
    lookupBreakpoint s'.breakpoints b = (!decide (b = addr) && lookupBreakpoint s.breakpoints b) := by
  rw [lookupBreakpoint_eq, lookupBreakpoint_eq, h.saved]
  by_cases hb : b = addr
  · simp [hb]
  · simp [hb]

theorem lookupBreakpoint_of_saved {b : Breakpoints} {a : RealAddr} (h : savedByte b a ≠ none) :
    lookupBreakpoint b a = true := by
  rw [lookupBreakpoint_eq]
  exact Option.isSome_iff_ne_none.mpr h

theorem lookupBreakpoint_of_none {b : Breakpoints} {a : RealAddr} (h : savedByte b a = none) :
    lookupBreakpoint b a = false := by
  rw [lookupBreakpoint_eq, h]
  rfl

/-- A successful call adds its address to the enabled set, a failed one adds nothing. -/
theorem enableBreakpoint_lookup (laws : MemoryLaws pt mem) (addr : RealAddr) (s : Store W)
    (b : RealAddr) :
    lookupBreakpoint (enableBreakpoint pt addr s).2.breakpoints b =
      if (enableBreakpoint pt addr s).1 = .ok then
        decide (b = addr) || lookupBreakpoint s.breakpoints b
      else lookupBreakpoint s.breakpoints b := by
  rcases enableBreakpoint_cases laws addr s with ⟨hr, hs, h⟩ | ⟨hr, hs, h⟩ | ⟨hr, hs, h⟩
  · rw [h.lookup, hr, if_pos rfl]
    by_cases hb : b = addr
    · simp [hb, lookupBreakpoint_of_saved hs]
    · simp [hb]
  · rw [h.lookup, hr, if_pos rfl]
  · rw [h.lookup, hr, if_neg (by decide)]

/-- A successful call takes its address out of the enabled set, a failed one nothing. -/
theorem disableBreakpoint_lookup (laws : MemoryLaws pt mem) (addr : RealAddr) (s : Store W)
    (b : RealAddr) :
    lookupBreakpoint (disableBreakpoint pt addr s).2.breakpoints b =
      if (disableBreakpoint pt addr s).1 = .ok then
        !decide (b = addr) && lookupBreakpoint s.breakpoints b
      else lookupBreakpoint s.breakpoints b := by
  rcases disableBreakpoint_cases laws addr s with ⟨hr, hs, h⟩ | ⟨orig, hr, hs, h⟩ | ⟨hr, hs, h⟩
  · rw [h.lookup, hr, if_pos rfl]
    by_cases hb : b = addr
    · simp [hb, lookupBreakpoint_of_none hs]
    · simp [hb]
  · rw [h.lookup, hr, if_pos rfl]
  · rw [h.lookup, hr, if_neg (by decide)]

/-- The tracee's memory can be read and written as things stand. -/
structure Answers (pt : Ptrace W) (w : W) : Prop where
  peek_some : ∀ a, (pt.peekData a w).1 ≠ none
  poke_true : ∀ a b x, (pt.pokeData b x (pt.peekData a w).2).1 = true

theorem MemoryServed.answers (served : MemoryServed pt mem) (w : W) : Answers pt w :=
  ⟨fun a => served.peek_some a w, fun _ b x => served.poke_true b x _⟩

/-- It can be so at an address. -/
structure AnswersAt (pt : Ptrace W) (a : Word) (w : W) : Prop where
  peek_some : (pt.peekData a w).1 ≠ none
  poke_true : ∀ x, (pt.pokeData a x (pt.peekData a w).2).1 = true

theorem Answers.at {w : W} (h : Answers pt w) (a : Word) : AnswersAt pt a w :=
  ⟨h.peek_some a, h.poke_true a a⟩

/-- With its requests successful, a call always does what it is asked to. -/
theorem enableBreakpoint_answeredAt {addr : RealAddr} {s : Store W}
    (h : AnswersAt pt addr.value s.tracee) : (enableBreakpoint pt addr s).1 = .ok := by
  obtain ⟨haddr, -, -⟩ := getOrCreate_spec s.breakpoints addr
  unfold enableBreakpoint
  generalize getOrCreateBreakpoint s.breakpoints addr = gc at *
  obtain ⟨bp, b⟩ := gc
  dsimp only at haddr ⊢
  cases hen : bp.isEnabled with
  | true => simp
  | false =>
      simp only [Bool.not_false, if_true, ptReadMemory, haddr]
      have hpeek := h.peek_some
      have hpoke := h.poke_true
      generalize pt.peekData addr.value s.tracee = pk at *
      obtain ⟨_ | x, w⟩ := pk
      · exact absurd rfl hpeek
      · simp [ptWriteMemory, hpoke, SprayResult.ofBool]

theorem disableBreakpoint_answeredAt {addr : RealAddr} {s : Store W}
    (h : AnswersAt pt addr.value s.tracee) : (disableBreakpoint pt addr s).1 = .ok := by
  unfold disableBreakpoint
  cases hget : getBreakpoint s.breakpoints addr with
  | none => rfl
  | some bp =>
      have haddr : bp.addr = addr := s.breakpoints.keyed hget
      cases hen : bp.isEnabled with
      | false => simp [hen]
      | true =>
          simp only [hen, if_true, ptReadMemory, haddr]
          have hpeek := h.peek_some
          have hpoke := h.poke_true
          generalize pt.peekData addr.value s.tracee = pk at *
          obtain ⟨_ | x, w⟩ := pk
          · exact absurd rfl hpeek
          · simp [ptWriteMemory, hpoke, SprayResult.ofBool]

theorem enableBreakpoint_answered (addr : RealAddr) {s : Store W} (h : Answers pt s.tracee) :
    (enableBreakpoint pt addr s).1 = .ok := enableBreakpoint_answeredAt (h.at addr.value)

theorem disableBreakpoint_answered (addr : RealAddr) {s : Store W} (h : Answers pt s.tracee) :
    (disableBreakpoint pt addr s).1 = .ok := disableBreakpoint_answeredAt (h.at addr.value)

theorem enableBreakpoint_ok (served : MemoryServed pt mem) (addr : RealAddr) (s : Store W) :
    (enableBreakpoint pt addr s).1 = .ok := enableBreakpoint_answered addr (served.answers _)

theorem disableBreakpoint_ok (served : MemoryServed pt mem) (addr : RealAddr) (s : Store W) :
    (disableBreakpoint pt addr s).1 = .ok := disableBreakpoint_answered addr (served.answers _)

/-! ### What is left alone, and what is never removed -/

section Frame

variable {γ : Type} {π : W → γ}

/-- Whatever peeks and pokes leave alone, enabling a breakpoint does. -/
theorem enableBreakpoint_frame (hpeek : ∀ a w, π (pt.peekData a w).2 = π w)
    (hpoke : ∀ a x w, π (pt.pokeData a x w).2 = π w) (addr : RealAddr) (s : Store W) :
    π (enableBreakpoint pt addr s).2.tracee = π s.tracee := by
  unfold enableBreakpoint
  generalize getOrCreateBreakpoint s.breakpoints addr = gc
  obtain ⟨bp, b⟩ := gc
  cases hen : bp.isEnabled with
  | true => simp [hen]
  | false =>
      simp only [hen, Bool.not_false, if_true, ptReadMemory]
      have hread := hpeek bp.addr.value s.tracee
      generalize pt.peekData bp.addr.value s.tracee = pk at *
      obtain ⟨_ | x, w⟩ := pk
      · exact hread
      · dsimp only at hread ⊢
        set y := (x &&& ~~~btmByteMask) ||| int3.setWidth 64
        have hwrite := hpoke bp.addr.value y w
        unfold ptWriteMemory
        generalize pt.pokeData bp.addr.value y w = pk at *
        obtain ⟨_ | _, w'⟩ := pk
        · exact hwrite.trans hread
        · exact hwrite.trans hread

theorem disableBreakpoint_frame (hpeek : ∀ a w, π (pt.peekData a w).2 = π w)
    (hpoke : ∀ a x w, π (pt.pokeData a x w).2 = π w) (addr : RealAddr) (s : Store W) :
    π (disableBreakpoint pt addr s).2.tracee = π s.tracee := by
  unfold disableBreakpoint
  cases getBreakpoint s.breakpoints addr with
  | none => rfl
  | some bp =>
      cases hen : bp.isEnabled with
      | false => simp [hen]
      | true =>
          simp only [hen, if_true, ptReadMemory]
          have hread := hpeek bp.addr.value s.tracee
          generalize pt.peekData bp.addr.value s.tracee = pk at *
          obtain ⟨_ | x, w⟩ := pk
          · exact hread
          · dsimp only at hread ⊢
            set y := (x &&& ~~~btmByteMask) ||| bp.origData.setWidth 64
            have hwrite := hpoke bp.addr.value y w
            unfold ptWriteMemory
            generalize pt.pokeData bp.addr.value y w = pk at *
            obtain ⟨_ | _, w'⟩ := pk
            · exact hwrite.trans hread
            · exact hwrite.trans hread

end Frame

theorem hashmapSet_known {b : Breakpoints} {a : RealAddr} (entry : Breakpoint)
    (h : getBreakpoint b a ≠ none) : getBreakpoint (hashmapSet b entry) a ≠ none := by
  show Function.update b.map entry.addr (some entry) a ≠ none
  by_cases ha : a = entry.addr
  · rw [ha, Function.update_self]
    exact Option.some_ne_none entry
  · rw [Function.update_of_ne ha]
    exact h

theorem enableBreakpoint_keeps_entries {a : RealAddr} (addr : RealAddr) {s : Store W}
    (h : getBreakpoint (getOrCreateBreakpoint s.breakpoints addr).2 a ≠ none) :
    getBreakpoint (enableBreakpoint pt addr s).2.breakpoints a ≠ none := by
  unfold enableBreakpoint
  generalize getOrCreateBreakpoint s.breakpoints addr = gc at *
  obtain ⟨bp, b⟩ := gc
  dsimp only at h ⊢
  split
  · split
    · exact h
    · split
      · exact h
      · exact hashmapSet_known _ h
  · exact h

/-- Entries are never removed. -/
theorem enableBreakpoint_known {a : RealAddr} (addr : RealAddr) {s : Store W}
    (h : getBreakpoint s.breakpoints a ≠ none) :
    getBreakpoint (enableBreakpoint pt addr s).2.breakpoints a ≠ none := by
  apply enableBreakpoint_keeps_entries
  unfold getOrCreateBreakpoint
  cases getBreakpoint s.breakpoints addr with
  | none => exact hashmapSet_known _ h
  | some bp => exact h

theorem disableBreakpoint_known {a : RealAddr} (addr : RealAddr) {s : Store W}
    (h : getBreakpoint s.breakpoints a ≠ none) :
    getBreakpoint (disableBreakpoint pt addr s).2.breakpoints a ≠ none := by
  unfold disableBreakpoint
  split
  · exact h
  · split
    · split
      · exact h
      · dsimp only
        split
        · exact h
        · exact hashmapSet_known _ h
    · exact h

/-- Whether it succeeds or not, enabling a breakpoint leaves an entry for it. -/
theorem enableBreakpoint_creates (addr : RealAddr) (s : Store W) :
    getBreakpoint (enableBreakpoint pt addr s).2.breakpoints addr ≠ none := by
  apply enableBreakpoint_keeps_entries
  unfold getOrCreateBreakpoint
  cases h : getBreakpoint s.breakpoints addr with
  | none => simp [getBreakpoint, hashmapSet]
  | some bp => simp [h]

theorem known_of_lookup {b : Breakpoints} {a : RealAddr} (h : lookupBreakpoint b a = true) :
    getBreakpoint b a ≠ none := by
  intro hc
  rw [lookupBreakpoint, hc] at h
  exact absurd h (by decide)

/-! ### Memory without the traps

What memory would be once every breakpoint is deleted.  No call changes it.
-/

def unpatched (mem : W → Memory 64) (s : Store W) : Memory 64 := fun a =>
  (savedByte s.breakpoints ⟨a⟩).getD (mem s.tracee a)

theorem SameStore.unpatched {s s' : Store W} (h : SameStore mem s s') :
    unpatched mem s' = unpatched mem s := by
  funext a
  rw [Spray.unpatched, Spray.unpatched, h.saved, h.mem]

/-- A byte is swapped with the one that is saved for it. -/
theorem unpatched_of_swap {addr : RealAddr} {saved : Option Byte} {x : Byte} {s s' : Store W}
    (hsaved : savedByte s'.breakpoints = Function.update (savedByte s.breakpoints) addr saved)
    (hmem : mem s'.tracee = Function.update (mem s.tracee) addr.value x)
    (hswap : saved.getD x = (savedByte s.breakpoints addr).getD (mem s.tracee addr.value)) :
    unpatched mem s' = unpatched mem s := by
  funext a
  rw [unpatched, unpatched, hsaved, hmem]
  by_cases ha : a = addr.value
  · subst ha
    rw [Function.update_self, Function.update_self]
    exact hswap
  · have hne : (⟨a⟩ : RealAddr) ≠ addr := fun hc => ha (congrArg RealAddr.value hc)
    rw [Function.update_of_ne hne, Function.update_of_ne ha]

theorem Patched.unpatched {addr : RealAddr} {s s' : Store W}
    (hs : savedByte s.breakpoints addr = none) (h : Patched mem addr s s') :
    unpatched mem s' = unpatched mem s := unpatched_of_swap h.saved h.mem (by rw [hs]; rfl)

theorem Restored.unpatched {addr : RealAddr} {orig : Byte} {s s' : Store W}
    (hs : savedByte s.breakpoints addr = some orig) (h : Restored mem addr orig s s') :
    unpatched mem s' = unpatched mem s := unpatched_of_swap h.saved h.mem (by rw [hs]; rfl)

theorem enableBreakpoint_unpatched (laws : MemoryLaws pt mem) (addr : RealAddr) (s : Store W) :
    unpatched mem (enableBreakpoint pt addr s).2 = unpatched mem s := by
  rcases enableBreakpoint_cases laws addr s with ⟨-, -, h⟩ | ⟨-, hs, h⟩ | ⟨-, -, h⟩
  · exact h.unpatched
  · exact h.unpatched hs
  · exact h.unpatched

theorem disableBreakpoint_unpatched (laws : MemoryLaws pt mem) (addr : RealAddr) (s : Store W) :
    unpatched mem (disableBreakpoint pt addr s).2 = unpatched mem s := by
  rcases disableBreakpoint_cases laws addr s with ⟨-, -, h⟩ | ⟨orig, -, hs, h⟩ | ⟨-, -, h⟩
  · exact h.unpatched
  · exact h.unpatched hs
  · exact h.unpatched

/-- With no breakpoint enabled, memory is what is left. -/
theorem unpatched_of_none {s : Store W} (h : ∀ a, lookupBreakpoint s.breakpoints a = false) :
    unpatched mem s = mem s.tracee := by
  funext a
  have hs : savedByte s.breakpoints ⟨a⟩ = none := by
    simpa [lookupBreakpoint_eq] using h ⟨a⟩
  rw [unpatched, hs]
  rfl

/-! ### Memory as an image under traps

`image` is what the program's code would be without a debugger.  On the addresses
`code` holds of, memory shows it except where a breakpoint is enabled, and there the
saved byte is the image's.
-/

structure Overlay (mem : W → Memory 64) (code : RealAddr → Prop) (image : RealAddr → Byte)
    (s : Store W) : Prop where
  byte : ∀ a, code a →
    mem s.tracee a.value = if lookupBreakpoint s.breakpoints a then int3 else image a
  orig : ∀ a v, code a → savedByte s.breakpoints a = some v → v = image a

variable {code : RealAddr → Prop} {image : RealAddr → Byte}

theorem Overlay.same {s s' : Store W} (ov : Overlay mem code image s) (h : SameStore mem s s') :
    Overlay mem code image s' where
  byte a ha := by rw [h.mem, h.lookup, ov.byte a ha]
  orig a v ha hv := ov.orig a v ha (by rw [← h.saved]; exact hv)

theorem RealAddr.value_ne {a b : RealAddr} (h : a ≠ b) : a.value ≠ b.value := by
  intro hc
  cases a
  cases b
  exact h (congrArg RealAddr.mk hc)

theorem Overlay.patched {addr : RealAddr} {s s' : Store W} (ov : Overlay mem code image s)
    (hs : savedByte s.breakpoints addr = none) (h : Patched mem addr s s') :
    Overlay mem code image s' where
  byte a ha := by
    rw [h.mem, h.lookup]
    by_cases hb : a = addr
    · simp [hb]
    · rw [Function.update_of_ne (RealAddr.value_ne hb), ov.byte a ha]
      simp [hb]
  orig a v ha hv := by
    rw [h.saved] at hv
    by_cases hb : a = addr
    · rw [hb, Function.update_self, Option.some.injEq] at hv
      rw [← hv, ← hb, ov.byte a ha, hb, lookupBreakpoint_of_none hs]
      rfl
    · rw [Function.update_of_ne hb] at hv
      exact ov.orig a v ha hv

theorem Overlay.restored {addr : RealAddr} {orig : Byte} {s s' : Store W}
    (ov : Overlay mem code image s) (hs : savedByte s.breakpoints addr = some orig)
    (h : Restored mem addr orig s s') : Overlay mem code image s' where
  byte a ha := by
    rw [h.mem, h.lookup]
    by_cases hb : a = addr
    · subst hb
      simp [ov.orig a orig ha hs]
    · rw [Function.update_of_ne (RealAddr.value_ne hb), ov.byte a ha]
      simp [hb]
  orig a v ha hv := by
    rw [h.saved] at hv
    by_cases hb : a = addr
    · simp [hb] at hv
    · rw [Function.update_of_ne hb] at hv
      exact ov.orig a v ha hv

/-- Enabling a breakpoint keeps the image, whatever `ptrace` does. -/
theorem Overlay.enable (laws : MemoryLaws pt mem) {s : Store W} (ov : Overlay mem code image s)
    (addr : RealAddr) : Overlay mem code image (enableBreakpoint pt addr s).2 := by
  rcases enableBreakpoint_cases laws addr s with ⟨-, -, h⟩ | ⟨-, hs, h⟩ | ⟨-, -, h⟩
  · exact ov.same h
  · exact ov.patched hs h
  · exact ov.same h

/-- Disabling a breakpoint keeps the image, whatever `ptrace` does. -/
theorem Overlay.disable (laws : MemoryLaws pt mem) {s : Store W} (ov : Overlay mem code image s)
    (addr : RealAddr) : Overlay mem code image (disableBreakpoint pt addr s).2 := by
  rcases disableBreakpoint_cases laws addr s with ⟨-, -, h⟩ | ⟨orig, -, hs, h⟩ | ⟨-, -, h⟩
  · exact ov.same h
  · exact ov.restored hs h
  · exact ov.same h

end Spray
