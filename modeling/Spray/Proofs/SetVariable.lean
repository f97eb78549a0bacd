/-
Setting a variable in memory.

`set` on a variable writes the whole word at its address, of which only as many bytes belong
to the variable as its base type has.  `maskVarValue` cuts a value down to just those when it
is printed; the write does not.
-/
import Spray.Proofs.SetMemory

namespace Spray

/-- How many bytes the variable's value has: those of the first base type of its type, unless
it is a pointer or has none. -/
def RuntimeVariable.byteSize (var : RuntimeVariable) : Nat :=
  go var.type
where
  go : SdType → Nat
    | [] => 8
    | .baseType t :: _ => t.size.toNat
    | .modifier .pointer :: _ => 8
    | _ :: rest => go rest

/-! ### What is written -/

variable {W : Type} {env : Env W} {mem : W → Memory 64}

/-- Of all bytes, the `n` at `addr` have been written, and hold the lowest of the value. -/
structure WritesOnly (addr : Word) (n : Nat) (value : Word) (m m' : Memory 64) : Prop where
  frame : ∀ b, ¬ (b - addr).toNat < n → m' b = m b
  written : ∀ i < n, m' (addr + BitVec.ofNat 64 i) = Memory.byteAt value i

/-- What a word is written over decides how much of it is noticed. -/
theorem writeWord_writesOnly_iff (m : Memory 64) (addr value : Word) {n : Nat} (hn : n ≤ 8) :
    WritesOnly addr n value m (Memory.writeWord (k := 8) m addr value) ↔
      ∀ i, n ≤ i → i < 8 → m (addr + BitVec.ofNat 64 i) = Memory.byteAt value i := by
  constructor
  · intro h i hge hlt
    have hoff : (addr + BitVec.ofNat 64 i - addr).toNat = i := by
      rw [BitVec.add_comm, BitVec.add_sub_cancel, BitVec.toNat_ofNat, Nat.mod_eq_of_lt (by omega)]
    rw [← h.frame _ (by omega), Memory.writeWord_add m addr value hlt (by decide)]
  · intro h
    constructor
    · intro b hb
      rw [Memory.writeWord_apply]
      by_cases hlt : (b - addr).toNat < 8
      · rw [if_pos hlt, ← h _ (not_lt.mp hb) hlt, Memory.add_sub_toNat]
      · rw [if_neg hlt]
    · intro i hi
      exact Memory.writeWord_add (k := 8) m addr value (by omega) (by decide)

/-- Looking a variable up reads the tracee and leaves its memory alone. -/
structure LookupReads (env : Env W) (mem : W → Memory 64) : Prop where
  getRegs : ∀ w, mem (env.pt.getRegs w).2 = mem w
  initVar : ∀ pc loadAddress varName w, mem (env.initVar pc loadAddress varName w).2 = mem w

theorem initVar_memory (reads : LookupReads env mem) (varName : String) :
    Triple.Keeps (fun d : Debugger W => mem d.tracee) (initVar env varName) := by
  have hreg : ∀ reg, Triple.Keeps (fun d : Debugger W => mem d.tracee)
      (request (getRegisterValue env.pt reg)) := by
    intro reg m d hd
    show mem (getRegisterValue env.pt reg d.tracee).2 = m
    have hregs := reads.getRegs d.tracee
    unfold getRegisterValue ptReadRegisters
    cases hr : env.pt.getRegs d.tracee with
    | mk regs w =>
        rw [hr] at hregs
        cases regs with
        | none => exact hregs.trans hd
        | some regs => exact hregs.trans hd
  have hpc : Triple.Keeps (fun d : Debugger W => mem d.tracee) (getPc env) := by
    refine (hreg .rip).bind fun pc => ?_
    cases pc with
    | none => exact .pure _
    | some store => exact .pure _
  refine Triple.Keeps.bind (hpc.bind fun pc => .get_bind fun _ => .pure _) fun pc => ?_
  refine .get_bind fun d m d' hd => ?_
  exact (reads.initVar _ _ _ _).trans hd

section Locations

variable (served : MemoryServed env.pt mem) {b : Breakpoints} {m : Memory 64}
include served

theorem writeLocation_memory (value : Word) (addr : RealAddr) :
    Triple.Holds (fun d => d.breakpoints = b ∧ mem d.tracee = m)
      (writeLocation env value (.addr addr))
      (fun res d => res = .ok ∧ d.breakpoints = b ∧
        mem d.tracee = Memory.writeWord (k := 8) m addr.value value) (fun _ _ => False) := by
  rintro d ⟨hb, rfl⟩
  have hpoke := served.poke_true addr.value value d.tracee
  refine ⟨?_, hb, served.poke_ok _ _ _ hpoke⟩
  show SprayResult.ofBool (env.pt.pokeData addr.value value d.tracee).1 = .ok
  rw [hpoke]
  rfl

theorem readLocation_memory (addr : RealAddr) :
    Triple.Holds (fun d => d.breakpoints = b ∧ mem d.tracee = m) (readLocation env (.addr addr))
      (fun _ d => d.breakpoints = b ∧ mem d.tracee = m) (fun _ _ => False) :=
  fun _ ⟨hb, hm⟩ => ⟨hb, (served.peek_mem _ _).trans hm⟩

end Locations

/-- The word at the variable's address becomes the value. -/
theorem execSetVariable_memory (served : MemoryServed env.pt mem) (reads : LookupReads env mem)
    {varName : String} {d : Debugger W} {var : RuntimeVariable} {addr : RealAddr}
    (hvar : returned (initVar env varName) d = some (some var)) (hloc : var.loc = .addr addr)
    (value : Word) (filter : PrintFilter) :
    mem (finalState (execSetVariable env varName value filter) d).tracee =
      Memory.writeWord (k := 8) (mem d.tracee) addr.value value := by
  have hfound := eq_ok_of_returned hvar
  have hsame := initVar_memory reads varName (mem d.tracee) d rfl
  rw [hfound] at hsame
  replace hsame : mem (finalState (initVar env varName) d).tracee = mem d.tracee := hsame
  generalize finalState (initVar env varName) d = d₁ at hfound hsame
  have hspec : Triple.Holds (· = d) (execSetVariable env varName value filter)
      (fun _ d' => d'.breakpoints = d₁.breakpoints ∧
        mem d'.tracee = Memory.writeWord (k := 8) (mem d.tracee) addr.value value)
      (fun _ _ => False) := by
    refine Triple.Holds.bind (Q := fun r d' => (d'.breakpoints = d₁.breakpoints ∧
      mem d'.tracee = mem d.tracee) ∧ r = some var) ?_ fun r => Triple.Holds.assume ?_
    · rintro _ rfl
      rw [hfound]
      exact ⟨⟨rfl, hsame⟩, rfl⟩
    rintro rfl
    dsimp only
    rw [hloc]
    refine Triple.Holds.bind (writeLocation_memory served value addr) fun res => ?_
    cases res with
    | err =>
        rintro d' ⟨h, _⟩
        cases h
    | ok =>
        refine Triple.Holds.pre ?_ fun d' hd => hd.2
        refine Triple.Holds.bind (readLocation_memory served addr) fun stored => ?_
        cases stored with
        | none => exact fun d' hd => hd
        | some stored => exact printFiltered_spec served.toMemoryLaws value _ _ _ _
  exact (finalState_of_holds hspec rfl).choose_spec.2

/-- **Setting a variable writes the variable only, exactly if the bytes behind it are already
those of the value.** -/
theorem execSetVariable_writesOnly_iff (served : MemoryServed env.pt mem)
    (reads : LookupReads env mem) {varName : String} {d : Debugger W} {var : RuntimeVariable}
    {addr : RealAddr} (hvar : returned (initVar env varName) d = some (some var))
    (hloc : var.loc = .addr addr) (hsize : var.byteSize ≤ 8) (value : Word)
    (filter : PrintFilter) :
    WritesOnly addr.value var.byteSize value (mem d.tracee)
        (mem (finalState (execSetVariable env varName value filter) d).tracee) ↔
      ∀ i, var.byteSize ≤ i → i < 8 →
        mem d.tracee (addr.value + BitVec.ofNat 64 i) = Memory.byteAt value i := by
  rw [execSetVariable_memory served reads hvar hloc]
  exact writeWord_writesOnly_iff _ _ _ hsize

/-! ### A character -/

/-- The only variable is a `char` at 0x1000. -/
def charEnv : Env (Memory 64) where
  pt := memoryPtrace
  info := (strippedEnv memoryPtrace).info
  printSource _ _ _ := .err
  initVar _ _ _ m := (some ⟨.addr ⟨0x1000⟩, none, 1, [.baseType ⟨.CHAR, 1⟩]⟩, m)

theorem charEnv_reads : LookupReads charEnv id := ⟨fun _ => rfl, fun _ _ _ _ => rfl⟩

theorem charEnv_served : MemoryServed charEnv.pt id := memoryPtrace_served

/-- A value whose other bytes are those of the memory behind the variable. -/
theorem execSetVariable_writesOnly_repeated :
    WritesOnly 0x1000 1 0x9090909090909042 (fun _ => 0x90)
      (finalState (execSetVariable charEnv "c" 0x9090909090909042 .NONE) nopDebugger).tracee := by
  refine (execSetVariable_writesOnly_iff charEnv_served charEnv_reads (d := nopDebugger) rfl rfl
    (by decide) 0x9090909090909042 .NONE).mpr ?_
  intro i hge hlt
  have hbytes : ∀ i < 8, 1 ≤ i → Memory.byteAt (0x9090909090909042 : Word) i = 0x90 := by decide
  exact (hbytes i hlt hge).symm

/-- The byte behind the variable is overwritten. -/
theorem execSetVariable_fails_neighbour :
    ¬ WritesOnly 0x1000 1 42 (fun _ => 0x90)
      (finalState (execSetVariable charEnv "c" 42 .NONE) nopDebugger).tracee := by
  intro h
  have hkept := h.frame 0x1001 (by decide)
  have hwritten : (finalState (execSetVariable charEnv "c" 42 .NONE) nopDebugger).tracee 0x1001 =
      0 := by
    have hvar : returned (initVar charEnv "c") nopDebugger = some (some _) := rfl
    have hmem := execSetVariable_memory charEnv_served charEnv_reads hvar rfl 42 .NONE
    exact (congrFun hmem 0x1001).trans (by decide)
  rw [hwritten] at hkept
  exact absurd hkept (by decide)

end Spray
