/-
Writing the tracee's memory while breakpoints are set.

`set` writes a word where the user asks for it, over any traps that are there, and the
saved bytes do not follow.  The write is lost exactly where it covers an enabled
breakpoint and is not a trap written over a trap.
-/
import Spray.Lib.Triple
import Spray.Command
import Spray.Proofs.Breakpoints

namespace Spray

/-- The commands that write the tracee's memory. -/
inductive Edit
  | break_ (addr : RealAddr)
  | delete (addr : RealAddr)
  | set (addr : RealAddr) (word : Word) (filter : PrintFilter)
  deriving DecidableEq

variable {W : Type}

def Edit.toCommand : Edit → Command
  | break_ addr => .break_ addr
  | delete addr => .delete addr
  | set addr word filter => .setMemory addr word filter

/-- None of these commands waits for the tracee. -/
def Edit.exec (env : Env W) (e : Edit) : DbgM W Unit := e.toCommand.exec env 0

/-- Give the commands one after another. -/
def runEdits (env : Env W) (es : List Edit) (d : Debugger W) : Debugger W :=
  es.foldl (fun d e => finalState (e.exec env) d) d

def Edit.writes (m : Memory 64) : Edit → Memory 64
  | set addr word _ => Memory.writeWord (k := 8) m addr.value word
  | _ => m

/-- Memory as the user means it to be: the original one under the words written to it. -/
def userMemory (m : Memory 64) (es : List Edit) : Memory 64 := es.foldl Edit.writes m

/-- Enabled breakpoints have their trap in memory. -/
def Trapped (mem : W → Memory 64) (s : Store W) : Prop :=
  ∀ a, lookupBreakpoint s.breakpoints a = true → mem s.tracee a.value = int3

/-- No write has been lost: every trap is in place, and memory is what the user means it
to be once all breakpoints have been deleted. -/
structure WritesKept (env : Env W) (mem : W → Memory 64) (user : Memory 64) (d : Debugger W) :
    Prop where
  trapped : Trapped mem d.toStore
  deleted : ∀ as : List RealAddr, (∀ a, lookupBreakpoint d.breakpoints a = true → a ∈ as) →
    mem (runEdits env (as.map .delete) d).tracee = user

/-- A `set` on an enabled breakpoint writes a trap over a trap. -/
def WritesTrapOverTrap (m : Memory 64) (es : List Edit) (addr : RealAddr) (word : Word) : Prop :=
  ∀ i < 8, isBroken (es.map Edit.toCommand) ⟨addr.value + BitVec.ofNat 64 i⟩ = true →
    Memory.byteAt word i = int3 ∧ userMemory m es (addr.value + BitVec.ofNat 64 i) = int3

variable {env : Env W} {mem : W → Memory 64}

/-! ### One command -/

theorem printFiltered_spec (laws : MemoryLaws env.pt mem) (value : Word) (filter : PrintFilter)
    (info : PrintValueInfo) (b : Breakpoints) (m : Memory 64) :
    Triple.Holds (fun d : Debugger W => d.breakpoints = b ∧ mem d.tracee = m)
      (printFiltered env value filter info)
      (fun _ d => d.breakpoints = b ∧ mem d.tracee = m) (fun _ _ => False) := by
  unfold printFiltered
  split
  · refine Triple.Holds.bind (Q := fun _ d => d.breakpoints = b ∧ mem d.tracee = m) ?_ ?_
    · intro d hd
      exact ⟨hd.1, (laws.peek_mem _ _).trans hd.2⟩
    · rintro (_ | _) <;> exact fun d hd => hd
  · exact fun d hd => hd

/-- A write changes the word it is asked to, and no breakpoint. -/
theorem execSetMemory_spec (served : MemoryServed env.pt mem) (addr : RealAddr) (word : Word)
    (filter : PrintFilter) (b : Breakpoints) (m : Memory 64) :
    Triple.Holds (fun d : Debugger W => d.breakpoints = b ∧ mem d.tracee = m)
      (execSetMemory env addr word filter)
      (fun _ d => d.breakpoints = b ∧
        mem d.tracee = Memory.writeWord (k := 8) m addr.value word) (fun _ _ => False) := by
  unfold execSetMemory
  refine Triple.Holds.bind (Q := fun res d => res = .ok ∧ d.breakpoints = b ∧
    mem d.tracee = Memory.writeWord (k := 8) m addr.value word) ?_ ?_
  · intro d hd
    have hpoke := served.poke_true addr.value word d.tracee
    refine ⟨?_, hd.1, ?_⟩
    · show SprayResult.ofBool (env.pt.pokeData addr.value word d.tracee).1 = .ok
      rw [hpoke]
      rfl
    · exact (served.poke_ok _ _ _ hpoke).trans (by rw [hd.2])
  · rintro (_ | _)
    · refine Triple.Holds.bind (Q := fun _ d => d.breakpoints = b ∧
        mem d.tracee = Memory.writeWord (k := 8) m addr.value word) ?_ ?_
      · intro d hd
        exact ⟨hd.2.1, (served.peek_mem _ _).trans hd.2.2⟩
      · rintro (_ | stored)
        · exact fun d hd => hd
        · exact printFiltered_spec served.toMemoryLaws stored _ _ b _
    · intro d hd
      exact absurd hd.1 (by decide)

/-- A specification without a halt is one of the state a computation ends in. -/
theorem finalState_of_holds {α : Type} {P : Debugger W → Prop} {x : DbgM W α}
    {Q : α → Debugger W → Prop} (h : Triple.Holds P x Q fun _ _ => False) {d : Debugger W}
    (hd : P d) : ∃ a, Q a (finalState x d) := by
  obtain ⟨a, d', hr, hq⟩ := h.returns hd
  unfold finalState
  rw [hr]
  exact ⟨a, hq⟩

theorem finalState_execSetMemory (served : MemoryServed env.pt mem) (addr : RealAddr)
    (word : Word) (filter : PrintFilter) (d : Debugger W) :
    (finalState (execSetMemory env addr word filter) d).breakpoints = d.breakpoints ∧
    mem (finalState (execSetMemory env addr word filter) d).tracee =
      Memory.writeWord (k := 8) (mem d.tracee) addr.value word := by
  obtain ⟨-, h⟩ := finalState_of_holds
    (execSetMemory_spec served addr word filter d.breakpoints (mem d.tracee)) ⟨rfl, rfl⟩
  exact h

theorem Edit.exec_lookup (served : MemoryServed env.pt mem) (e : Edit) (d : Debugger W)
    (a : RealAddr) :
    lookupBreakpoint (finalState (e.exec env) d).breakpoints a =
      e.toCommand.breaks a (lookupBreakpoint d.breakpoints a) := by
  cases e with
  | break_ addr =>
      exact (enableBreakpoint_lookup served.toMemoryLaws addr d.toStore a).trans
        (if_pos (enableBreakpoint_ok served addr d.toStore))
  | delete addr =>
      exact (disableBreakpoint_lookup served.toMemoryLaws addr d.toStore a).trans
        (if_pos (disableBreakpoint_ok served addr d.toStore))
  | set addr word filter =>
      show lookupBreakpoint (finalState (execSetMemory env addr word filter) d).breakpoints a = _
      rw [(finalState_execSetMemory served addr word filter d).1]
      rfl

/-- Under a `set` the saved bytes of enabled breakpoints stay what they were. -/
theorem Edit.exec_unpatched (served : MemoryServed env.pt mem) (e : Edit) (d : Debugger W)
    (a : Word) :
    unpatched mem (finalState (e.exec env) d).toStore a =
      if lookupBreakpoint d.breakpoints ⟨a⟩ then unpatched mem d.toStore a
      else e.writes (unpatched mem d.toStore) a := by
  cases e with
  | break_ addr =>
      refine (congrFun (enableBreakpoint_unpatched served.toMemoryLaws addr d.toStore) a).trans ?_
      simp [writes]
  | delete addr =>
      refine (congrFun (disableBreakpoint_unpatched served.toMemoryLaws addr d.toStore) a).trans ?_
      simp [writes]
  | set addr word filter =>
      obtain ⟨hb, hm⟩ := finalState_execSetMemory served addr word filter d
      show unpatched mem (finalState (execSetMemory env addr word filter) d).toStore a = _
      unfold unpatched
      rw [hb, hm]
      cases hs : savedByte d.breakpoints ⟨a⟩ with
      | some v => simp [lookupBreakpoint_eq, hs]
      | none => simp [lookupBreakpoint_eq, hs, writes]

/-! ### Traps -/

theorem Patched.trapped {addr : RealAddr} {s s' : Store W} (t : Trapped mem s)
    (h : Patched mem addr s s') : Trapped mem s' := by
  intro a ha
  rw [h.lookup] at ha
  rw [h.mem]
  by_cases hb : a = addr
  · simp [hb]
  · rw [Function.update_of_ne (RealAddr.value_ne hb)]
    exact t a (by simpa [hb] using ha)

theorem Restored.trapped {addr : RealAddr} {orig : Byte} {s s' : Store W} (t : Trapped mem s)
    (h : Restored mem addr orig s s') : Trapped mem s' := by
  intro a ha
  rw [h.lookup] at ha
  have hb : a ≠ addr := by
    rintro rfl
    simp at ha
  rw [h.mem, Function.update_of_ne (RealAddr.value_ne hb)]
  exact t a (by simpa [hb] using ha)

theorem SameStore.trapped {s s' : Store W} (t : Trapped mem s) (h : SameStore mem s s') :
    Trapped mem s' := fun a ha => by
  rw [h.mem]
  exact t a (by rwa [h.lookup] at ha)

theorem enableBreakpoint_trapped (laws : MemoryLaws env.pt mem) (addr : RealAddr) {s : Store W}
    (t : Trapped mem s) : Trapped mem (enableBreakpoint env.pt addr s).2 := by
  rcases enableBreakpoint_cases laws addr s with ⟨-, -, h⟩ | ⟨-, -, h⟩ | ⟨-, -, h⟩
  · exact h.trapped t
  · exact h.trapped t
  · exact h.trapped t

theorem disableBreakpoint_trapped (laws : MemoryLaws env.pt mem) (addr : RealAddr) {s : Store W}
    (t : Trapped mem s) : Trapped mem (disableBreakpoint env.pt addr s).2 := by
  rcases disableBreakpoint_cases laws addr s with ⟨-, -, h⟩ | ⟨_, -, -, h⟩ | ⟨-, -, h⟩
  · exact h.trapped t
  · exact h.trapped t
  · exact h.trapped t

/-- A `set` on enabled breakpoints leaves their traps in place if it writes traps there. -/
theorem trapped_set_iff (served : MemoryServed env.pt mem) (addr : RealAddr) (word : Word)
    (filter : PrintFilter) {d : Debugger W} (t : Trapped mem d.toStore) :
    Trapped mem (finalState (execSetMemory env addr word filter) d).toStore ↔
      ∀ i < 8, lookupBreakpoint d.breakpoints ⟨addr.value + BitVec.ofNat 64 i⟩ = true →
        Memory.byteAt word i = int3 := by
  obtain ⟨hb, hm⟩ := finalState_execSetMemory served addr word filter d
  unfold Trapped
  rw [hb, hm]
  constructor
  · intro h i hi hlook
    rw [← Memory.writeWord_add (mem d.tracee) addr.value word hi (by decide)]
    exact h _ hlook
  · intro h a ha
    rw [Memory.writeWord_apply]
    split
    · rename_i hlt
      exact h _ hlt (by rwa [Memory.add_sub_toNat])
    · exact t a ha

/-! ### Whole runs -/

theorem runEdits_snoc (es : List Edit) (e : Edit) (d : Debugger W) :
    runEdits env (es ++ [e]) d = finalState (e.exec env) (runEdits env es d) := by
  simp [runEdits]

theorem isBroken_snoc (commands : List Command) (c : Command) (a : RealAddr) :
    isBroken (commands ++ [c]) a = c.breaks a (isBroken commands a) := by
  simp [isBroken]

theorem userMemory_snoc (m : Memory 64) (es : List Edit) (e : Edit) :
    userMemory m (es ++ [e]) = e.writes (userMemory m es) := by
  simp [userMemory]

theorem runEdits_lookup (served : MemoryServed env.pt mem) (es : List Edit) (a : RealAddr) :
    ∀ d : Debugger W, lookupBreakpoint (runEdits env es d).breakpoints a =
      (es.map Edit.toCommand).foldl (Command.breaks a) (lookupBreakpoint d.breakpoints a) := by
  induction es with
  | nil => intro d; rfl
  | cons e rest ih =>
      intro d
      rw [List.map_cons, List.foldl_cons, ← e.exec_lookup served d a]
      exact ih _

/-- The enabled breakpoints are those the user's commands leave set. -/
theorem runEdits_isBroken (served : MemoryServed env.pt mem) (es : List Edit) (a : RealAddr)
    {d : Debugger W} (hd : d.breakpoints = initBreakpoints) :
    lookupBreakpoint (runEdits env es d).breakpoints a = isBroken (es.map Edit.toCommand) a := by
  rw [runEdits_lookup served, hd]
  rfl

theorem foldl_breaks_delete (a : RealAddr) (as : List RealAddr) :
    ∀ was, (as.map Command.delete).foldl (Command.breaks a) was = (was && decide (a ∉ as)) := by
  induction as with
  | nil => simp
  | cons b rest ih =>
      intro was
      rw [List.map_cons, List.foldl_cons, ih]
      by_cases hab : a = b
      · simp [Command.breaks, hab]
      · simp [Command.breaks, hab]

theorem runEdits_delete_unpatched (served : MemoryServed env.pt mem) (as : List RealAddr) :
    ∀ d : Debugger W, unpatched mem (runEdits env (as.map .delete) d).toStore =
      unpatched mem d.toStore := by
  induction as with
  | nil => intro d; rfl
  | cons a rest ih =>
      intro d
      exact (ih _).trans (disableBreakpoint_unpatched served.toMemoryLaws a d.toStore)

/-- A breakpoint that is set was set by a command. -/
theorem mem_of_isBroken {a : RealAddr} {commands : List Command}
    (h : isBroken commands a = true) : Command.break_ a ∈ commands := by
  induction commands using List.reverseRecOn with
  | nil => simp [isBroken] at h
  | append_singleton commands c ih =>
      rw [isBroken_snoc] at h
      cases c with
      | break_ addr =>
          by_cases hab : a = addr
          · simp [hab]
          · simp only [Command.breaks, hab, decide_false, Bool.false_or] at h
            simp [ih h]
      | delete addr =>
          simp only [Command.breaks, Bool.and_eq_true] at h
          simp [ih h.2]
      | _ => simp [ih h]

/-- The addresses given to `break`. -/
def brokenAddrs (commands : List Command) : List RealAddr :=
  commands.filterMap fun c => match c with
    | .break_ addr => some addr
    | _ => none

/-- In a state reached from an empty store, no write has been lost when the traps are in
place and memory without them is the user's. -/
theorem writesKept_iff (served : MemoryServed env.pt mem) (es : List Edit) {d : Debugger W}
    (hd : d.breakpoints = initBreakpoints) (user : Memory 64) :
    WritesKept env mem user (runEdits env es d) ↔
      Trapped mem (runEdits env es d).toStore ∧
        unpatched mem (runEdits env es d).toStore = user := by
  have hnone : ∀ as : List RealAddr,
      (∀ a, lookupBreakpoint (runEdits env es d).breakpoints a = true → a ∈ as) →
      mem (runEdits env (as.map .delete) (runEdits env es d)).tracee =
        unpatched mem (runEdits env es d).toStore := by
    intro as has
    rw [← runEdits_delete_unpatched served as]
    refine (unpatched_of_none fun a => ?_).symm
    rw [runEdits_lookup served, List.map_map,
      show Edit.toCommand ∘ Edit.delete = Command.delete from rfl,
      foldl_breaks_delete]
    cases hlook : lookupBreakpoint (runEdits env es d).breakpoints a with
    | false => rfl
    | true => simp [has a hlook]
  have hcover : ∀ a, lookupBreakpoint (runEdits env es d).breakpoints a = true →
      a ∈ brokenAddrs (es.map Edit.toCommand) := by
    intro a ha
    rw [runEdits_isBroken served es a hd] at ha
    exact List.mem_filterMap.mpr ⟨_, mem_of_isBroken ha, rfl⟩
  constructor
  · intro h
    exact ⟨h.trapped, (hnone _ hcover).symm.trans (h.deleted _ hcover)⟩
  · rintro ⟨ht, hu⟩
    exact ⟨ht, fun as has => (hnone as has).trans hu⟩

theorem writesKept_of_trapOverTrap (served : MemoryServed env.pt mem) {d : Debugger W}
    (hd : d.breakpoints = initBreakpoints) (es : List Edit)
    (h : ∀ pre addr word filter, pre ++ [.set addr word filter] <+: es →
      WritesTrapOverTrap (mem d.tracee) pre addr word) :
    Trapped mem (runEdits env es d).toStore ∧
      unpatched mem (runEdits env es d).toStore = userMemory (mem d.tracee) es := by
  induction es using List.reverseRecOn with
  | nil =>
      have hnone : ∀ a, lookupBreakpoint d.breakpoints a = false := by
        intro a
        rw [hd]
        rfl
      refine ⟨fun a ha => ?_, unpatched_of_none hnone⟩
      exact absurd ha (by rw [show (runEdits env [] d) = d from rfl, hnone]; decide)
  | append_singleton es e ih =>
      obtain ⟨ht, hu⟩ := ih fun pre addr word filter hpre =>
        h pre addr word filter (hpre.trans (List.prefix_append _ _))
      rw [runEdits_snoc, userMemory_snoc]
      cases e with
      | break_ addr =>
          exact ⟨enableBreakpoint_trapped served.toMemoryLaws addr ht,
            (enableBreakpoint_unpatched served.toMemoryLaws addr _).trans hu⟩
      | delete addr =>
          exact ⟨disableBreakpoint_trapped served.toMemoryLaws addr ht,
            (disableBreakpoint_unpatched served.toMemoryLaws addr _).trans hu⟩
      | set addr word filter =>
          have hset := h es addr word filter (List.prefix_refl _)
          refine ⟨(trapped_set_iff served addr word filter ht).mpr ?_, ?_⟩
          · intro i hi hlook
            rw [runEdits_isBroken served es _ hd] at hlook
            exact (hset i hi hlook).1
          · funext a
            rw [Edit.exec_unpatched served, hu, runEdits_isBroken served es _ hd]
            split
            · -- A trap was written over the trap that is meant to be here.
              rename_i hbroken
              simp only [Edit.writes, Memory.writeWord_apply]
              split
              · rename_i hlt
                have := hset _ hlt (by rwa [Memory.add_sub_toNat])
                rw [Memory.add_sub_toNat] at this
                rw [this.1, this.2]
              · rfl
            · rfl

/--
**When a write survives breakpoint patching.**  In every state of a run all traps are in
place, and deleting them leaves the memory the user wrote, if and only if no `set` covers
an enabled breakpoint other than to write a trap over a trap.
-/
theorem writesKept_iff_trapOverTrap (served : MemoryServed env.pt mem) {d : Debugger W}
    (hd : d.breakpoints = initBreakpoints) (es : List Edit) :
    (∀ pre, pre <+: es →
      WritesKept env mem (userMemory (mem d.tracee) pre) (runEdits env pre d)) ↔
    ∀ pre addr word filter, pre ++ [.set addr word filter] <+: es →
      WritesTrapOverTrap (mem d.tracee) pre addr word := by
  constructor
  · intro h pre addr word filter hpre i hi hbroken
    obtain ⟨ht, hu⟩ := (writesKept_iff served pre hd _).mp
      (h pre ((List.prefix_append _ _).trans hpre))
    obtain ⟨ht', hu'⟩ := (writesKept_iff served _ hd _).mp (h _ hpre)
    have hlook := runEdits_isBroken served pre ⟨addr.value + BitVec.ofNat 64 i⟩ hd
    rw [hbroken] at hlook
    rw [runEdits_snoc] at ht' hu'
    have hbyte := (trapped_set_iff served addr word filter ht).mp ht' i hi hlook
    refine ⟨hbyte, ?_⟩
    -- The saved byte did not follow the write, and both are what the user means.
    have hafter := congrFun hu' (addr.value + BitVec.ofNat 64 i)
    rw [Edit.exec_unpatched served, hlook, if_pos rfl, hu, userMemory_snoc] at hafter
    rw [hafter, ← hbyte]
    exact Memory.writeWord_add _ _ _ hi (by decide)
  · intro h pre hpre
    exact (writesKept_iff served pre hd _).mpr (writesKept_of_trapOverTrap served hd pre
      fun q addr word filter hq => h q addr word filter (hq.trans hpre))

/-! ### A process that is nothing but memory -/

def memoryPtrace : Ptrace (Memory 64) where
  peekData a m := (some (Memory.readWord m a 8), m)
  pokeData a x m := (true, Memory.writeWord (k := 8) m a x)
  getRegs m := (some (fun _ => 0), m)
  setRegs _ m := (true, m)
  cont m := (none, m)
  singleStep m := (true, m)
  getSigInfo m := (some .zero, m)
  waitpid m := (.blocked, m)

theorem memoryPtrace_served : MemoryServed memoryPtrace id where
  peek_mem _ _ := rfl
  peek_val _ _ _ h := (Option.some.inj h).symm
  poke_ok _ _ _ _ := rfl
  poke_err _ _ _ h := absurd h (by simp [memoryPtrace])
  peek_some _ _ := by simp [memoryPtrace]
  poke_true _ _ _ := rfl

/-- A debugger of a process whose memory is all `nop`s. -/
def nopDebugger : Debugger (Memory 64) where
  breakpoints := initBreakpoints
  tracee := fun _ => 0x90
  loadAddress := ⟨0⟩
  output := []

/-- A word stored right behind a breakpoint is not lost. -/
theorem writesKept_beside :
    WritesKept (strippedEnv memoryPtrace) id
      (userMemory (fun _ => 0x90) [.break_ ⟨0x1000⟩, .set ⟨0x1001⟩ 42 .NONE])
      (runEdits (strippedEnv memoryPtrace) [.break_ ⟨0x1000⟩, .set ⟨0x1001⟩ 42 .NONE]
        nopDebugger) := by
  have served : MemoryServed (strippedEnv memoryPtrace).pt id := memoryPtrace_served
  refine (writesKept_iff_trapOverTrap served (d := nopDebugger) rfl
    [.break_ ⟨0x1000⟩, .set ⟨0x1001⟩ 42 .NONE]).mpr ?_ _ (List.prefix_refl _)
  have hfree : ∀ i < 8, isBroken [.break_ ⟨0x1000⟩] ⟨0x1001 + BitVec.ofNat 64 i⟩ ≠ true := by
    decide
  intro pre addr word filter hpre i hi hbroken
  rcases pre with _ | ⟨e, _ | ⟨_, _⟩⟩
  · simp at hpre
  · simp only [List.cons_append, List.nil_append, List.cons_prefix_cons, Edit.set.injEq] at hpre
    obtain ⟨rfl, ⟨rfl, rfl, rfl⟩, -⟩ := hpre
    exact absurd hbroken (hfree i hi)
  · simp at hpre

/-- A word stored over a breakpoint takes the trap out of memory. -/
theorem writesKept_fails_over_breakpoint :
    ¬ ∀ pre, pre <+: [Edit.break_ ⟨0x1000⟩, .set ⟨0x1000⟩ 42 .NONE] →
      WritesKept (strippedEnv memoryPtrace) id (userMemory (fun _ => 0x90) pre)
        (runEdits (strippedEnv memoryPtrace) pre nopDebugger) := by
  intro h
  have htrap := (h _ (List.prefix_refl _)).trapped ⟨0x1000⟩ (by decide)
  exact absurd htrap (by decide)

end Spray
