/-
The breakpoints a line is stepped over with.

They are set on the other lines of the function, and those that were not set before are
written down to be deleted.  An entry's address is one in the binary; what becomes of it in
the process is its sum with the load address, and what is taken is their difference.
-/
import Spray.Lib.Triple
import Spray.Debugger
import Spray.Proofs.FunctionLines
import Spray.Proofs.SetMemory

namespace Spray

open Triple

variable {W : Type} {env : Env W} {mem : W → Memory 64}

/-- Where the breakpoint for an entry is set. -/
def lineAddr (loadAddress : RealAddr) (line : LineEntry) : RealAddr :=
  ⟨line.addr.value - loadAddress.value⟩

/-- The entries of the other lines whose address, by `addrOf`, is `a`. -/
def OnOtherLine (addrOf : LineEntry → RealAddr) (skipLine : Nat) (lines : List LineEntry)
    (a : RealAddr) : Prop := ∃ line ∈ lines, line.ln ≠ skipLine ∧ addrOf line = a

/-- The enabled set has grown by the other lines' addresses, and `toDel` is what is new. -/
structure Marks (addrOf : LineEntry → RealAddr) (skipLine : Nat) (lines : List LineEntry)
    (before after : Breakpoints) (toDel : List RealAddr) : Prop where
  enabled : ∀ a, lookupBreakpoint after a = true ↔
    lookupBreakpoint before a = true ∨ OnOtherLine addrOf skipLine lines a
  added : ∀ a, a ∈ toDel ↔ lookupBreakpoint after a = true ∧ lookupBreakpoint before a = false
  nodup : toDel.Nodup

variable {addrOf : LineEntry → RealAddr} {skipLine : Nat} {lines : List LineEntry}
  {before b b' : Breakpoints} {toDel : List RealAddr} {line : LineEntry}

theorem onOtherLine_snoc (a : RealAddr) :
    OnOtherLine addrOf skipLine (lines ++ [line]) a ↔
      OnOtherLine addrOf skipLine lines a ∨ line.ln ≠ skipLine ∧ addrOf line = a := by
  unfold OnOtherLine
  constructor
  · rintro ⟨e, he, h⟩
    rcases List.mem_append.mp he with he | he
    · exact .inl ⟨e, he, h⟩
    · rw [← List.mem_singleton.mp he]
      exact .inr h
  · rintro (⟨e, he, h⟩ | h)
    · exact ⟨e, List.mem_append_left _ he, h⟩
    · exact ⟨line, List.mem_append_right _ List.mem_cons_self, h⟩

/-- A line that is skipped, or has its breakpoint, changes nothing. -/
theorem Marks.skip (h : Marks addrOf skipLine lines before b toDel)
    (hskip : line.ln = skipLine ∨ lookupBreakpoint b (addrOf line) = true) :
    Marks addrOf skipLine (lines ++ [line]) before b toDel := by
  refine ⟨fun a => ?_, h.added, h.nodup⟩
  rw [onOtherLine_snoc, h.enabled]
  constructor
  · rintro (hold | hline)
    · exact .inl hold
    · exact .inr (.inl hline)
  · rintro (hold | hline | ⟨hne, rfl⟩)
    · exact .inl hold
    · exact .inr hline
    · exact (h.enabled _).mp (hskip.resolve_left hne)

/-- A line that gets its breakpoint is written down. -/
theorem Marks.add (h : Marks addrOf skipLine lines before b toDel) (hne : line.ln ≠ skipLine)
    (hnew : lookupBreakpoint b (addrOf line) = false)
    (hb : ∀ a, lookupBreakpoint b' a = (decide (a = addrOf line) || lookupBreakpoint b a)) :
    Marks addrOf skipLine (lines ++ [line]) before b' (toDel ++ [addrOf line]) := by
  have hbefore : lookupBreakpoint before (addrOf line) = false := by
    rw [← Bool.not_eq_true]
    intro hold
    rw [(h.enabled _).mpr (.inl hold)] at hnew
    cases hnew
  refine ⟨fun a => ?_, fun a => ?_, ?_⟩
  · rw [hb, onOtherLine_snoc, Bool.or_eq_true, decide_eq_true_iff, h.enabled]
    by_cases ha : a = addrOf line
    · simp [ha, hne]
    · simp [ha, Ne.symm ha]
  · rw [List.mem_append, List.mem_singleton, h.added, hb, Bool.or_eq_true, decide_eq_true_iff]
    by_cases ha : a = addrOf line
    · simp [ha, hbefore]
    · simp [ha]
  · refine List.nodup_append.mpr ⟨h.nodup, List.nodup_singleton _, ?_⟩
    rintro a ha _ hin rfl
    rw [List.mem_singleton.mp hin, h.added, hnew] at ha
    cases ha.1

/-- One call of the callback. -/
theorem callbackSetDwarfLineBreakpoint_run (loadAddress : RealAddr) (toDel : List RealAddr)
    (line : LineEntry) (d : Debugger W) :
    callbackSetDwarfLineBreakpoint env loadAddress skipLine toDel line d =
      if skipLine ≠ line.ln ∧ !lookupBreakpoint d.breakpoints (lineAddr loadAddress line) then
        .ok (toDel ++ [lineAddr loadAddress line])
          { d with toStore := (enableBreakpoint env.pt (lineAddr loadAddress line) d.toStore).2 }
      else .ok toDel d := by
  show (if skipLine ≠ line.ln ∧ !lookupBreakpoint d.breakpoints (lineAddr loadAddress line) then _
    else _ : DbgM W (List RealAddr)) d = _
  split
  · rfl
  · rfl

theorem callbackSetDwarfLineBreakpoint_marks (served : MemoryServed env.pt mem)
    (loadAddress : RealAddr) (toDel : List RealAddr) (line : LineEntry) :
    Holds (fun d : Debugger W =>
        Marks (lineAddr loadAddress) skipLine lines before d.breakpoints toDel)
      (callbackSetDwarfLineBreakpoint env loadAddress skipLine toDel line)
      (fun toDel' d =>
        Marks (lineAddr loadAddress) skipLine (lines ++ [line]) before d.breakpoints toDel')
      (fun _ _ => False) := by
  intro d hd
  rw [callbackSetDwarfLineBreakpoint_run]
  by_cases hset : skipLine ≠ line.ln ∧ !lookupBreakpoint d.breakpoints (lineAddr loadAddress line)
  · rw [if_pos hset]
    refine hd.add (Ne.symm hset.1) (by simpa using hset.2) fun a => ?_
    refine (enableBreakpoint_lookup served.toMemoryLaws _ d.toStore a).trans ?_
    rw [if_pos (enableBreakpoint_ok served _ d.toStore)]
  · rw [if_neg hset]
    refine hd.skip ?_
    by_cases hln : line.ln = skipLine
    · exact .inl hln
    · refine .inr ?_
      simpa [Ne.symm hln] using hset

theorem marks_nil (b : Breakpoints) : Marks addrOf skipLine [] b b [] := by
  refine ⟨fun a => ?_, fun a => ?_, List.nodup_nil⟩
  · simp [OnOtherLine]
  · simp

variable {func : DebugSymbol} {pos : Position} {filepath : String}

/-- By the addresses it uses, the function always does what it says. -/
theorem setStepOverBreakpoints_marks (served : MemoryServed env.pt mem)
    (hpos : symPosition func env.info = some pos)
    (hpath : symFilepath func env.info = some filepath) (d : Debugger W) :
    ∃ toDel, returned (setStepOverBreakpoints env func) d = some (some toDel) ∧
      Marks (lineAddr d.loadAddress) pos.line (env.info.dbg.sdForEachLine (symName func) filepath)
        d.breakpoints (finalState (setStepOverBreakpoints env func) d).breakpoints toDel := by
  have hspec : Holds (· = d) (setStepOverBreakpoints env func) (fun r s =>
      ∃ toDel, r = some toDel ∧ Marks (lineAddr d.loadAddress) pos.line
        (env.info.dbg.sdForEachLine (symName func) filepath) d.breakpoints s.breakpoints toDel)
      (fun _ _ => False) := by
    unfold setStepOverBreakpoints
    rw [hpos, hpath]
    rintro d rfl
    have hfold := Holds.foldlM_append
      (I := fun lines toDel (s : Debugger W) =>
        Marks (lineAddr d.loadAddress) pos.line lines d.breakpoints s.breakpoints toDel)
      (fun _ toDel line => callbackSetDwarfLineBreakpoint_marks served d.loadAddress toDel line)
      (env.info.dbg.sdForEachLine (symName func) filepath) [] []
    exact (hfold.conseq (fun _ hs => hs) (fun toDel s hs => ⟨toDel, rfl, hs⟩)
      (fun _ _ => id)).map d (marks_nil d.breakpoints)
  obtain ⟨r, d', hr, toDel, rfl, h⟩ := hspec.returns rfl
  unfold returned finalState
  rw [hr]
  exact ⟨toDel, rfl, h⟩

/-- Told by the DWARF information, it marks the new statements in the function's range, the end
of which is taken to be inside. -/
theorem setStepOverBreakpoints_visited (served : MemoryServed env.pt mem)
    {realpath : String → Realpath} {dbg dbg₁ dbg₂ : DwarfDebug Die}
    {hpaths : (sdGetFilepaths dbg).1.isSome} (hdbg : env.info.dbg = dbg.answers realpath hpaths)
    (hpos : symPosition func env.info = some pos)
    (hpath : symFilepath func env.info = some filepath) {lowpc highpc : Word} {table : LineTable}
    (hrange : sdGetSubprogPcRange (symName func) dbg = (some (lowpc, highpc), dbg₁))
    (htable : sdGetLineTable realpath filepath dbg₁ = (some table, dbg₂))
    (hsorted : ByAddress table.lines) (hone : countAt ⟨lowpc⟩ table.lines = 1) (d : Debugger W) :
    ∃ toDel, returned (setStepOverBreakpoints env func) d = some (some toDel) ∧
      Marks (lineAddr d.loadAddress) pos.line (visitedLines lowpc highpc table.lines)
        d.breakpoints (finalState (setStepOverBreakpoints env func) d).breakpoints toDel := by
  have hmarks := setStepOverBreakpoints_marks served hpos hpath d
  rw [hdbg] at hmarks
  rw [← sdForEachLine_eq hrange htable hsorted hone]
  exact hmarks

/-- The real addresses of the other lines are marked, and what is new is returned. -/
def StepOverMarks (env : Env W) (func : DebugSymbol) (skipLine : Nat) (lines : List LineEntry)
    (d : Debugger W) : Prop :=
  ∃ toDel, returned (setStepOverBreakpoints env func) d = some (some toDel) ∧
    Marks (fun line => dbgToReal d.loadAddress line.addr) skipLine lines d.breakpoints
      (finalState (setStepOverBreakpoints env func) d).breakpoints toDel

/-- Where no breakpoint is set, subtracting the load address from the other lines' addresses
leads to the same ones as adding it. -/
def SameAddresses (loadAddress : RealAddr) (skipLine : Nat) (lines : List LineEntry)
    (b : Breakpoints) : Prop :=
  ∀ a, lookupBreakpoint b a = false →
    (OnOtherLine (lineAddr loadAddress) skipLine lines a ↔
      OnOtherLine (fun line => dbgToReal loadAddress line.addr) skipLine lines a)

/-- The set is the same by either address. -/
theorem Marks.congr {addrOf' : LineEntry → RealAddr}
    (h : Marks addrOf skipLine lines before b toDel) :
    Marks addrOf' skipLine lines before b toDel ↔
      ∀ a, lookupBreakpoint before a = false →
        (OnOtherLine addrOf skipLine lines a ↔ OnOtherLine addrOf' skipLine lines a) := by
  constructor
  · intro h' a hoff
    have hsame := (h.enabled a).symm.trans (h'.enabled a)
    simpa [hoff] using hsame
  · intro hsame
    refine ⟨fun a => ?_, h.added, h.nodup⟩
    rw [h.enabled]
    cases hoff : lookupBreakpoint before a with
    | false => rw [hsame a hoff]
    | true => simp

/-- **The other lines of a function are marked in the process exactly if subtracting the load
address is as good as adding it.** -/
theorem stepOverMarks_iff_sameAddresses (served : MemoryServed env.pt mem)
    (hpos : symPosition func env.info = some pos)
    (hpath : symFilepath func env.info = some filepath) (d : Debugger W) :
    StepOverMarks env func pos.line (env.info.dbg.sdForEachLine (symName func) filepath) d ↔
      SameAddresses d.loadAddress pos.line
        (env.info.dbg.sdForEachLine (symName func) filepath) d.breakpoints := by
  obtain ⟨toDel, hreturned, hmarks⟩ := setStepOverBreakpoints_marks served hpos hpath d
  constructor
  · intro ⟨toDel', hreturned', hmarks'⟩
    rw [hreturned] at hreturned'
    obtain rfl := Option.some.inj (Option.some.inj hreturned')
    exact hmarks.congr.mp hmarks'
  · intro hsame
    exact ⟨toDel, hreturned, hmarks.congr.mpr hsame⟩

/-- It is in an executable that is not position independent. -/
theorem sameAddresses_zero (skipLine : Nat) (lines : List LineEntry) (b : Breakpoints) :
    SameAddresses ⟨0⟩ skipLine lines b := by
  intro a _
  simp [OnOtherLine, lineAddr, dbgToReal]

/-! ### A function of two lines -/

/-- A process whose executable has one function, with lines 3 and 4. -/
def twoLineEnv : Env (Memory 64) where
  pt := memoryPtrace
  info :=
    { elf := ⟨.DYN, [⟨"f", 0x1000, 0x10, .STT_FUNC⟩]⟩
      dbg :=
        { sdFilepathFromPc := fun _ => some "/src/a.c"
          sdLineEntryFromPc := fun pc => ⟨true, true, false, true, 3, 0, pc, none⟩
          sdForEachLine := fun _ _ =>
            [⟨true, true, false, false, 3, 0, ⟨0x1000⟩, none⟩,
              ⟨true, true, false, false, 4, 0, ⟨0x1008⟩, none⟩]
          sdEffectiveStartAddr := fun _ _ => none } }
  printSource _ _ _ := .err
  initVar _ _ _ m := (none, m)

def twoLineFunc : DebugSymbol := ⟨⟨"f", 0x1000, 0x10, .STT_FUNC⟩, some ⟨0x1000⟩⟩

/-- The executable is loaded where it was linked. -/
theorem stepOverMarks_linked :
    StepOverMarks twoLineEnv twoLineFunc 3 (twoLineEnv.info.dbg.sdForEachLine "f" "/src/a.c")
      nopDebugger := by
  have served : MemoryServed twoLineEnv.pt id := memoryPtrace_served
  exact (stepOverMarks_iff_sameAddresses served rfl rfl nopDebugger).mpr
    (sameAddresses_zero _ _ _)

/-- The executable is loaded somewhere else. -/
theorem stepOverMarks_fails_loaded :
    ¬ StepOverMarks twoLineEnv twoLineFunc 3 (twoLineEnv.info.dbg.sdForEachLine "f" "/src/a.c")
      { nopDebugger with loadAddress := ⟨0x400000⟩ } := by
  intro ⟨toDel, hreturned, hmarks⟩
  have hmarked := (hmarks.enabled ⟨0x401008⟩).mpr (.inr ⟨_, .tail _ (.head _), by decide, by decide⟩)
  revert hmarked
  have hoff : lookupBreakpoint (finalState (setStepOverBreakpoints twoLineEnv twoLineFunc)
      { nopDebugger with loadAddress := ⟨0x400000⟩ }).breakpoints ⟨0x401008⟩ = false := rfl
  rw [hoff]
  exact Bool.false_ne_true

end Spray
