/-
The debugger shows what there is to see.

Each command of the debugger does to the tracee, and prints, what the same command does to
the view.  So does a session, as long as each of its commands may be given where it is: what
it shows is what the program does by itself, and it gets as far as the program does.
-/
import Spray.Proofs.Backtrace
import Spray.Proofs.CommandGrammar
import Spray.Proofs.ViewSteps

namespace Spray

open Triple

variable {X : Type} {s : Debuggee X} {codes : StopCodes} {limit fuel : Nat} {code : SiCode}
  {v : View X} {d : Debugger (Machine X)}

/-- What the debugger has come to is what the command comes to. -/
def Shows (s : Debuggee X) : Except (List Message) (View X) → Debugger (Machine X) → Prop
  | .ok next, d => Stands s next d
  | .error out, d => Exited out d

/-- A command is executed as in the view, given long enough. -/
abbrev Does (s : Debuggee X) (v : View X) (limit fuel : Nat)
    (o : Nat → Option (Except (List Message) (View X))) (x : DbgM (Machine X) Unit) : Prop :=
  Holds (Stands s v) x (fun _ d => ∃ r, o (max limit fuel) = some r ∧ Shows s r d)
    (fun _ d => (∀ n, n < limit → n < fuel → o n = none) ∨
      ∃ out, o (max limit fuel) = some (.error out) ∧ Exited out d)

/-! ### Printing -/

theorem say_then_say {W : Type} (first second : Message) (d : Debugger W) :
    (do
      say first
      say second) d = .ok () { d with output := d.output ++ ([first] ++ [second]) } := by
  rw [← List.append_assoc]
  rfl

theorem printCurrentSource_shown (h : Shadows s (.stopped code) v d) (codes : StopCodes)
    (limit : Nat) : ∃ d', printCurrentSource (s.env codes limit) d = .ok () d' ∧
      Shadows s (.stopped code) (s.shown v) d' := by
  refine ⟨_, ?_, h.printed (s.sourceMessages v)⟩
  have hinfo : (s.env codes limit).info = s.info := rfl
  have hprint : (s.env codes limit).printSource = s.printSource := rfl
  unfold printCurrentSource Debuggee.sourceMessages
  rw [bind_run h.getDbgPc, hinfo, hprint]
  dsimp only
  generalize (symByAddr v.dbgPc s.info).bind (symPosition · s.info) = pos
  generalize (symByAddr v.dbgPc s.info).bind (symFilepath · s.info) = filepath
  cases pos with
  | none => rfl
  | some pos =>
      cases filepath with
      | none => rfl
      | some filepath =>
          dsimp only
          rw [bind_run h.isUserBreakpoint]
          cases v.enabled v.pc with
          | false =>
              cases s.printSource filepath pos.line 3 with
              | ok => rfl
              | err => rfl
          | true =>
              rw [if_pos rfl, bind_run h.getPc]
              cases s.printSource filepath pos.line 3 with
              | ok => exact say_then_say _ _ d
              | err => exact say_then_say _ _ d

/-- Either way the source is shown, if there is still a program. -/
theorem showAfter_does {P : Debugger (Machine X) → Prop} {o : Option (Except Nat (Cpu X))}
    {x : DbgM (Machine X) SprayResult} {E : Halt → Debugger (Machine X) → Prop}
    (h : Holds P x (Came s v o) E)
    (hexit : ∀ e, o = some (.error e) → ∀ halt d, Exited (v.output ++ [.childExited e]) d →
      E halt d) :
    Holds P (do if (← x) = .ok then printCurrentSource (s.env codes limit))
      (fun _ d => ∃ r, o.map (fun r => (v.reached r).map s.shown) = some r ∧
        Shows s r d) E := by
  refine Holds.bind h fun res d hd => ?_
  cases o with
  | none => exact hd.elim
  | some r =>
      cases r with
      | ok c =>
          obtain ⟨rfl, code, hd⟩ := hd
          obtain ⟨d', hprint, h'⟩ := printCurrentSource_shown hd codes limit
          rw [if_pos rfl, hprint]
          exact ⟨_, rfl, code, h'⟩
      | error e =>
          have keeps := exited_invariant s codes limit (v.output ++ [.childExited e])
          refine (keeps.discipline.showAfter (Holds.pure fun _ => id)).conseq (fun _ => id)
            (fun _ d h => ⟨_, rfl, h⟩) (hexit e rfl) d hd

/-! ### Running the program -/

variable {stops : RealAddr → Bool}

theorem resumed_mono {n m : Nat} (hle : n ≤ m) {r : Except (List Message) (View X)}
    (h : s.resumed n stops v = some r) : s.resumed m stops v = some r := by
  obtain ⟨c, hc, hr⟩ := Option.map_eq_some_iff.mp h
  exact Option.map_eq_some_iff.mpr ⟨c, Program.resume_mono hle hc, hr⟩

theorem resumed_error {n : Nat} {e : Nat}
    (h : s.program.resume stops n v.cpu = some (.error e)) :
    s.resumed n stops v = some (.error (v.output ++ [.childExited e])) := by
  unfold Debuggee.resumed
  rw [h]
  rfl

theorem resumed_none {n : Nat} (h : s.program.resume stops n v.cpu = none) :
    s.resumed n stops v = none := by
  unfold Debuggee.resumed
  rw [h]
  rfl

/-- An operation that resumes the program, and then shows the source. -/
theorem resumed_does {P : Debugger (Machine X) → Prop} {x : DbgM (Machine X) SprayResult}
    (h : Holds P x (Came s v (s.program.resume stops limit v.cpu))
      (fun _ => GaveUp limit fuel (s.program.resume stops · v.cpu) v.output)) :
    Holds P (do if (← x) = .ok then printCurrentSource (s.env codes limit))
      (fun _ d => ∃ r, s.resumed (max limit fuel) stops v = some r ∧ Shows s r d)
      (fun _ d => (∀ n, n < limit → n < fuel → s.resumed n stops v = none) ∨
        ∃ out, s.resumed (max limit fuel) stops v = some (.error out) ∧ Exited out d) := by
  have hmax : limit ≤ max limit fuel := Nat.le_max_left ..
  refine (showAfter_does h fun e he _ d hd => .inr ⟨e, he, hd⟩).conseq (fun _ => id) ?_ ?_
  · rintro _ d ⟨r, hr, hd⟩
    exact ⟨r, resumed_mono hmax hr, hd⟩
  · rintro _ d (hnone | ⟨e, he, hd⟩)
    · exact .inl fun n hn hfuel => resumed_none (hnone n hn hfuel)
    · exact .inr ⟨_, resumed_mono hmax (resumed_error he), hd⟩

theorem execContinue_does :
    Does s v limit fuel (s.exec · v .continue_) (execContinue (s.env codes limit) fuel) := by
  refine Holds.bind ((continueExecution_continued fuel).conseq (fun _ => id) (fun _ _ => id) ?_) ?_
  · exact fun _ _ hzero => .inl fun n _ hn => absurd hn (hzero ▸ Nat.not_lt_zero n)
  · intro res
    by_cases hres : res = .ok
    · rw [if_pos hres]
      exact resumed_does (Continued.wait fuel res)
    · rw [if_neg hres]
      refine Holds.pure fun d hd => ?_
      cases hd with
      | running => exact absurd rfl hres
      | exited hstep hd =>
          refine ⟨_, resumed_error (n := max limit fuel) ?_, hd⟩
          unfold Program.resume
          rw [hstep]

/-- One instruction is the same however long the program may run. -/
theorem execInst_does :
    Does s v limit fuel (s.exec · v .inst) (execInst (s.env codes limit) fuel) := by
  refine (showAfter_does (E := fun _ d => fuel = 0 ∨ ∃ e, s.program.step v.cpu = .error e ∧
    Exited (v.output ++ [.childExited e]) d) ((singleStepInstruction_came fuel).conseq
    (fun _ => id) (fun _ _ => id) fun _ _ => .inl) ?_).conseq (fun _ => id) ?_ ?_
  · exact fun e he _ d hd => .inr ⟨e, Option.some.inj he, hd⟩
  · exact fun _ _ => id
  · rintro _ d (hzero | ⟨e, he, hd⟩)
    · exact .inl fun n _ hn => absurd hn (hzero ▸ Nat.not_lt_zero n)
    · refine .inr ⟨v.output ++ [.childExited e], ?_, hd⟩
      show some ((v.reached (s.program.step v.cpu)).map s.shown) = _
      rw [he]
      rfl

/-! ### Stepping to another line -/

/-- What the loop over instructions comes to: it has found another line, lost track of where
the program is, or the program has exited. -/
inductive Lined (s : Debuggee X) (r : Except (List Message) (View X))
    (d : Debugger (Machine X)) : SprayResult → Prop
  | found {next : View X} (h : Stands s next d) (hr : r = .ok (s.shown next)) : Lined s r d .ok
  | lost {next : View X} (h : Stands s next d) (hr : r = .ok next) : Lined s r d .err
  | exited {out : List Message} {res : SprayResult} (hr : r = .error out) (h : Exited out d) :
      Lined s r d res

/-- The loop can halt only if there is no fuel, or the program has exited. -/
abbrev LineHalts (fuel : Nat) (r : Except (List Message) (View X)) :
    Halt → Debugger (Machine X) → Prop := fun _ d =>
  fuel = 0 ∨ ∃ out, r = .error out ∧ Exited out d

theorem singleStepLineLoop_lined (initLine left : Nat) : ∀ (pos : Position) (v : View X),
    Holds (Stands s v) (singleStepLineLoop (s.env codes limit) fuel initLine left pos)
      (fun res d => Lined s (s.stepLineLoop initLine left pos v) d res)
      (LineHalts fuel (s.stepLineLoop initLine left pos v)) := by
  have hinfo : (s.env codes limit).info = s.info := rfl
  induction left with
  | zero =>
      rintro pos v d ⟨code, h⟩
      exact .lost ⟨code, h.printed _⟩ rfl
  | succ left ih =>
      intro pos v
      unfold singleStepLineLoop Debuggee.stepLineLoop
      by_cases hstays : (!pos.isExact || pos.line = initLine) = true
      · rw [if_pos hstays, if_pos hstays]
        refine Holds.bind ((singleStepInstruction_came fuel).conseq (fun _ => id) (fun _ _ => id)
          fun _ _ => .inl) fun res => ?_
        unfold Debuggee.stepped
        cases hstep : s.program.step v.cpu with
        | ok c =>
            rintro d ⟨rfl, code, h⟩
            dsimp only [View.reached]
            rw [bind_run h.getDbgPc, hinfo]
            cases addrPosition (v.withCpu c).dbgPc s.info with
            | none => exact .lost ⟨code, h.printed _⟩ rfl
            | some pos => exact ih pos (v.withCpu c) d ⟨code, h⟩
        | error e =>
            -- Whatever the loop goes on to do, there is no program any more.
            have keeps := (exited_invariant s codes limit
              (v.output ++ [.childExited e])).toStepInvariant.invariant fuel
            refine Holds.conseq (Q := fun _ => Exited (v.output ++ [.childExited e]))
              (H := fun _ => Exited (v.output ++ [.childExited e])) ?_ (fun _ => id)
              (fun _ _ => .exited rfl) fun _ _ hd => .inr ⟨_, rfl, hd⟩
            cases res with
            | err => exact Holds.pure fun _ => id
            | ok =>
                refine Holds.bind keeps.getDbgPc fun pc => ?_
                cases addrPosition pc (s.env codes limit).info with
                | none => exact Holds.bind (keeps.say _) fun _ => Holds.pure fun _ => id
                | some pos => exact keeps.singleStepLineLoop initLine left pos
      · rw [if_neg hstays, if_neg hstays]
        exact Holds.pure fun d h => .found h rfl

theorem singleStepLine_lined (fuel : Nat) :
    Holds (Stands s v) (singleStepLine (s.env codes limit) fuel)
      (fun res d => Lined s (s.stepLine v) d res)
      (LineHalts fuel (s.stepLine v)) := by
  rintro d ⟨code, h⟩
  have hinfo : (s.env codes limit).info = s.info := rfl
  unfold singleStepLine Debuggee.stepLine
  rw [bind_run h.getDbgPc, hinfo]
  cases addrPosition v.dbgPc s.info with
  | none => exact .lost ⟨code, h.printed _⟩ rfl
  | some pos =>
      exact singleStepLineLoop_lined pos.line singleStepSearchLimit pos v d ⟨code, h⟩

theorem execStep_does :
    Does s v limit fuel (s.exec · v .step) (execStep (s.env codes limit) fuel) := by
  refine Holds.bind ((singleStepLine_lined fuel).conseq (fun _ => id) (fun _ _ => id) ?_) ?_
  · rintro _ d (hzero | ⟨out, hr, hd⟩)
    · exact .inl fun n _ hn => absurd hn (hzero ▸ Nat.not_lt_zero n)
    · exact .inr ⟨out, congrArg some hr, hd⟩
  · rintro res d hd
    cases hd with
    | found h hr =>
        obtain ⟨code, h⟩ := h
        obtain ⟨d', hprint, h'⟩ := printCurrentSource_shown h codes limit
        rw [if_pos rfl, hprint]
        exact ⟨_, congrArg some hr, code, h'⟩
    | lost h hr => exact ⟨_, congrArg some hr, h⟩
    | @exited out _ hr h =>
        have keeps := exited_invariant s codes limit out
        exact (keeps.discipline.showAfter (Holds.pure fun _ => id)).conseq (fun _ => id)
          (fun _ d h => ⟨_, congrArg some hr, h⟩)
          (fun _ d h => .inr ⟨out, congrArg some hr, h⟩) d h

/-! ### Printing and setting -/

theorem printFiltered_shown (h : Shadows s (.stopped code) v d) {value : Word}
    {filter : PrintFilter} {info : PrintValueInfo} (may : v.MayFilter (info.pointer value) filter) :
    ∃ d', printFiltered (s.env codes limit) value filter info d = .ok () d' ∧
      Shadows s (.stopped code) (v.printed [v.filtered value filter info]) d' := by
  refine ⟨_, ?_, h.printed _⟩
  cases filter with
  | DEREF =>
      have hread : request (ptReadMemory (s.env codes limit).pt ⟨info.pointer value⟩) d =
          .ok (some (v.readMemory ⟨info.pointer value⟩)) d := h.readMemory (may rfl)
      exact bind_run hread
  | _ => rfl

/-- A command that returns does what it comes to. -/
theorem Does.of_run {x : DbgM (Machine X) Unit} {next : View X}
    (h : ∀ code d, Shadows s (.stopped code) v d →
      ∃ d', x d = .ok () d' ∧ Shadows s (.stopped code) next d') :
    Does s v limit fuel (fun _ => some (.ok next)) x := by
  rintro d ⟨code, hd⟩
  obtain ⟨d', hrun, hd'⟩ := h code d hd
  rw [hrun]
  exact ⟨_, rfl, code, hd'⟩

theorem defaultFilter_deref {filter : PrintFilter} (h : defaultFilter filter .BYTES = .DEREF) :
    filter = .DEREF := by
  unfold defaultFilter at h
  split at h
  · cases h
  · exact h

theorem MayFilter.default {value : Word} {filter : PrintFilter} (h : v.MayFilter value filter) :
    v.MayFilter value (defaultFilter filter .BYTES) := fun hderef => h (defaultFilter_deref hderef)

theorem execPrintMemory_does {addr : RealAddr} {filter : PrintFilter}
    (may : s.May v (.printMemory addr filter)) :
    Does s v limit fuel (s.exec · v (.printMemory addr filter))
      (execPrintMemory (s.env codes limit) addr filter) := by
  refine Does.of_run fun code d h => ?_
  unfold execPrintMemory
  rw [bind_run (h.readMemory may.1)]
  exact printFiltered_shown h (MayFilter.default may.2)

theorem execPrintRegister_does {reg : X86Reg} {filter : PrintFilter}
    (may : s.May v (.printRegister reg filter)) :
    Does s v limit fuel (s.exec · v (.printRegister reg filter))
      (execPrintRegister (s.env codes limit) reg filter) := by
  refine Does.of_run fun code d h => ?_
  unfold execPrintRegister
  rw [bind_run (h.getRegister reg)]
  exact printFiltered_shown h (MayFilter.default may)

theorem execSetMemory_does {addr : RealAddr} {word : Word} {filter : PrintFilter}
    (may : s.May v (.setMemory addr word filter)) :
    Does s v limit fuel (s.exec · v (.setMemory addr word filter))
      (execSetMemory (s.env codes limit) addr word filter) := by
  refine Does.of_run fun code d h => ?_
  obtain ⟨d₁, hwrite, h₁⟩ := h.writeMemory codes limit word may.1
  have hread : request (ptReadMemory (s.env codes limit).pt addr) d₁ = .ok (some word) d₁ := by
    have hword : (v.writeMemory addr word).readMemory addr = word :=
      Memory.readWord_writeWord _ _ _ (by decide)
    rw [h₁.readMemory (h₁.untrapped may.1), hword]
  unfold execSetMemory
  rw [bind_run hwrite]
  dsimp only
  rw [bind_run hread]
  exact printFiltered_shown h₁ (MayFilter.default (v := v.writeMemory addr word) may.2)

theorem execSetRegister_does {reg : X86Reg} {word : Word} {filter : PrintFilter}
    (may : s.May v (.setRegister reg word filter)) :
    Does s v limit fuel (s.exec · v (.setRegister reg word filter))
      (execSetRegister (s.env codes limit) reg word filter) := by
  refine Does.of_run fun code d h => ?_
  obtain ⟨d₁, hwrite, h₁⟩ := h.setRegister codes limit may.1
  have hread : request (getRegisterValue (s.env codes limit).pt reg) d₁ = .ok (some word) d₁ := by
    have hword : (v.setRegister reg word).cpu.regs reg = word := Function.update_self ..
    rw [h₁.getRegister, hword]
  unfold execSetRegister
  rw [bind_run hwrite]
  dsimp only
  rw [bind_run hread]
  exact printFiltered_shown h₁ (MayFilter.default (v := v.setRegister reg word) may.2)

/-! ### Variables -/

/-- A variable is found by the registers, which the traps leave alone. -/
theorem initVar_found (h : Shadows s (.stopped code) v d) (varName : String) :
    initVar (s.env codes limit) varName d = .ok (s.findVariable v varName) d := by
  have hfind : (s.env codes limit).initVar v.dbgPc v.loadAddress varName d.tracee =
      (s.findVariable v varName, d.tracee) := by
    simp [Debuggee.env, Debuggee.findVariable, Program.ptrace, h.isStopped, h.regs]
  unfold initVar
  rw [bind_run h.getDbgPc, bind_run (get_run d), h.loadAddress]
  unfold request
  rw [hfind]

theorem readLocation_shown (h : Shadows s (.stopped code) v d) {loc : SdLocation}
    (may : v.MayRead loc) :
    readLocation (s.env codes limit) loc d = .ok (some (v.readLocation loc)) d := by
  cases loc with
  | addr addr => exact h.readMemory may
  | reg reg => exact h.getRegister reg

theorem writeLocation_shown (h : Shadows s (.stopped code) v d) (codes : StopCodes) (limit : Nat)
    {loc : SdLocation} {value : Word} (may : s.MayWrite value loc) :
    ∃ d', writeLocation (s.env codes limit) value loc d = .ok .ok d' ∧
      Shadows s (.stopped code) (v.writeLocation value loc) d' := by
  cases loc with
  | addr addr => exact h.writeMemory codes limit value may
  | reg reg => exact h.setRegister codes limit may

/-- What has just been written can be read back. -/
theorem mayRead_written (h : Shadows s (.stopped code) v d) {loc : SdLocation} {value : Word}
    (may : s.MayWrite value loc) : (v.writeLocation value loc).MayRead loc := by
  cases loc with
  | addr addr => exact h.untrapped may
  | reg reg => trivial

theorem execPrintVariable_does {varName : String} {filter : PrintFilter}
    (may : s.May v (.printVariable varName filter)) :
    Does s v limit fuel (s.exec · v (.printVariable varName filter))
      (execPrintVariable (s.env codes limit) varName filter) := by
  refine Does.of_run fun code d h => ?_
  unfold execPrintVariable Debuggee.printVariable
  rw [bind_run (initVar_found h varName)]
  cases hvar : s.findVariable v varName with
  | none => exact ⟨_, rfl, h.printed _⟩
  | some var =>
      obtain ⟨mayRead, mayFilter⟩ := may var hvar
      dsimp only
      rw [bind_run (readLocation_shown h mayRead)]
      exact printFiltered_shown h mayFilter

theorem execSetVariable_does {varName : String} {value : Word} {filter : PrintFilter}
    (may : s.May v (.setVariable varName value filter)) :
    Does s v limit fuel (s.exec · v (.setVariable varName value filter))
      (execSetVariable (s.env codes limit) varName value filter) := by
  refine Does.of_run fun code d h => ?_
  unfold execSetVariable Debuggee.setVariable
  rw [bind_run (initVar_found h varName)]
  cases hvar : s.findVariable v varName with
  | none => exact ⟨_, rfl, h.printed _⟩
  | some var =>
      obtain ⟨mayWrite, mayFilter⟩ := may var hvar
      obtain ⟨d₁, hwrite, h₁⟩ := writeLocation_shown h codes limit mayWrite
      dsimp only
      rw [bind_run hwrite]
      dsimp only
      rw [bind_run (readLocation_shown h₁ (mayRead_written h mayWrite))]
      have mayFilter' : (v.writeLocation value var.loc).MayFilter value filter := by
        cases var.loc with
        | addr addr => exact mayFilter
        | reg reg => exact mayFilter
      exact printFiltered_shown h₁ mayFilter'

/-! ### Backtraces -/

theorem realToDbg_unrelocated {loadAddress : RealAddr} (h : loadAddress.value = 0) (real : Word) :
    realToDbg loadAddress ⟨real⟩ = ⟨real⟩ :=
  ((realToDbg_eq_iff loadAddress real).mpr h).symm

/-- The frames are followed as far as the fuel lasts. -/
theorem initBacktraceLoop_shown {msgs : List Message}
    (h : Shadows s (.stopped code) (v.printed msgs) d) (may : s.MayTrace v) (codes : StopCodes)
    (limit fuel : Nat) : ∀ (n : Nat) (frames : List CallLocation), (∀ k < n, v.caller k ≠ 0) →
      (∀ found, s.callers v fuel (v.caller n) frames = some found →
        initBacktraceLoop (s.env codes limit) fuel ⟨v.caller n⟩ frames d =
          .ok (some found) d) ∧
      (s.callers v fuel (v.caller n) frames = none →
        initBacktraceLoop (s.env codes limit) fuel ⟨v.caller n⟩ frames d =
          .error .outOfFuel d) := by
  induction fuel with
  | zero =>
      intro n frames _
      exact ⟨fun found hfound => (Option.some_ne_none found hfound.symm).elim, fun _ => rfl⟩
  | succ fuel ih =>
      intro n frames hne
      unfold initBacktraceLoop Debuggee.callers
      by_cases hzero : v.caller n = 0
      · rw [if_pos hzero, if_pos hzero]
        refine ⟨fun found hfound => ?_, fun hnone => (Option.some_ne_none frames hnone).elim⟩
        rw [Option.some.inj hfound]
        rfl
      · rw [if_neg hzero, if_neg hzero]
        have hall : ∀ k ≤ n, v.caller k ≠ 0 := fun k hk =>
          (Nat.lt_or_eq_of_le hk).elim (hne k) fun heq => heq ▸ hzero
        obtain ⟨hframe, hret⟩ := may.2.2 n hall
        have hreadRet : request (ptReadMemory (s.env codes limit).pt ⟨v.caller n + 8⟩) d =
            .ok (some (v.readMemory ⟨v.caller n + 8⟩)) d := h.readMemory hret
        have hreadFrame : request (ptReadMemory (s.env codes limit).pt ⟨v.caller n⟩) d =
            .ok (some (v.readMemory ⟨v.caller n⟩)) d := h.readMemory hframe
        have hloc : initCallFrame (s.env codes limit) ⟨v.readMemory ⟨v.caller n + 8⟩⟩
            ⟨v.readMemory ⟨v.caller n⟩⟩ =
            s.callLocation (realToDbg v.loadAddress ⟨v.readMemory ⟨v.caller n + 8⟩⟩)
              ⟨v.readMemory ⟨v.caller n⟩⟩ := by
          rw [realToDbg_unrelocated may.1]
          rfl
        rw [bind_run hreadRet]
        dsimp only
        rw [bind_run hreadFrame]
        dsimp only
        rw [hloc]
        exact ih (n + 1) _ fun k hk => hall k (Nat.le_of_lt_succ hk)

theorem callers_mono {n m : Nat} (hle : n ≤ m) : ∀ {framePointer : Word}
    {frames found : List CallLocation}, s.callers v n framePointer frames = some found →
      s.callers v m framePointer frames = some found := by
  induction n generalizing m with
  | zero => exact fun h => (Option.some_ne_none _ h.symm).elim
  | succ n ih =>
      intro framePointer frames found h
      obtain ⟨m, rfl⟩ := Nat.exists_eq_succ_of_ne_zero (Nat.ne_zero_of_lt hle)
      unfold Debuggee.callers at h ⊢
      by_cases hzero : framePointer = 0
      · rw [if_pos hzero] at h ⊢
        exact h
      · rw [if_neg hzero] at h ⊢
        exact ih (Nat.le_of_succ_le_succ hle) h

theorem storesFramePointer_shown (h : Shadows s (.stopped code) v d) (may : s.MayTrace v) :
    storesFramePointer (s.env codes limit) v.dbgPc d = .ok (s.storesFramePointer v) d := by
  have hstart := may.2.1
  have hinfo : (s.env codes limit).info = s.info := rfl
  unfold storesFramePointer Debuggee.storesFramePointer Debuggee.funcStart at *
  rw [hinfo]
  cases hfunc : symByAddr v.dbgPc s.info with
  | none => rfl
  | some func =>
      rw [hfunc] at hstart
      dsimp only
      rw [bind_run (get_run d), h.loadAddress, bind_run (h.readMemory (hstart _ rfl))]
      rfl

/-- The first frame is the one the program is in. -/
theorem initBacktrace_shown (h : Shadows s (.stopped code) v d) (may : s.MayTrace v)
    (codes : StopCodes) (limit fuel : Nat) : ∃ d₁, Shadows s (.stopped code)
        (v.printed (if s.storesFramePointer v then [] else [.noFramePointer])) d₁ ∧
      initBacktrace (s.env codes limit) fuel v.dbgPc d =
        initBacktraceLoop (s.env codes limit) fuel ⟨v.caller 0⟩
          [s.callLocation v.dbgPc ⟨v.caller 0⟩] d₁ := by
  unfold initBacktrace
  rw [bind_run (h.getRegister .rbp)]
  dsimp only
  rw [bind_run (storesFramePointer_shown h may)]
  cases s.storesFramePointer v with
  | true => exact ⟨_, h.printed [], congrArg _ (printed_nil d).symm⟩
  | false => exact ⟨_, h.printed _, rfl⟩

theorem execBacktrace_does (may : s.May v .backtrace) :
    Does s v limit fuel (s.exec · v .backtrace) (execBacktrace (s.env codes limit) fuel) := by
  have mayTrace : s.MayTrace v := may
  rintro d ⟨code, h⟩
  obtain ⟨d₁, h₁, hstart⟩ := initBacktrace_shown h mayTrace codes limit fuel
  obtain ⟨hfound, hnone⟩ := initBacktraceLoop_shown h₁ mayTrace codes limit fuel 0
    [s.callLocation v.dbgPc ⟨v.caller 0⟩] fun k hk => absurd hk (Nat.not_lt_zero k)
  have hexec : ∀ n, s.exec n v .backtrace =
      (s.callers v n (v.caller 0) [s.callLocation v.dbgPc ⟨v.caller 0⟩]).map fun frames =>
        .ok ((v.printed (if s.storesFramePointer v then [] else [.noFramePointer])).printed
          [.backtrace frames]) := by
    intro n
    show s.backtrace n v = _
    unfold Debuggee.backtrace View.printed
    simp only [List.append_assoc]
    rfl
  unfold execBacktrace
  rw [bind_run h.getDbgPc]
  cases hcallers : s.callers v fuel (v.caller 0) [s.callLocation v.dbgPc ⟨v.caller 0⟩] with
  | some frames =>
      rw [bind_run (hstart.trans (hfound frames hcallers))]
      refine ⟨.ok _, ?_, code, h₁.printed [.backtrace frames]⟩
      refine (hexec _).trans ?_
      rw [callers_mono (Nat.le_max_right ..) hcallers]
      rfl
  | none =>
      rw [bind_error (hstart.trans (hnone hcallers))]
      refine .inl fun n _ hn => (hexec n).trans ?_
      cases hshort : s.callers v n (v.caller 0) [s.callLocation v.dbgPc ⟨v.caller 0⟩] with
      | none => rfl
      | some frames =>
          rw [callers_mono (Nat.le_of_lt hn) hshort] at hcallers
          cases hcallers

/-! ### Every command -/

theorem execLeave_does (may : s.May v .leave) :
    Does s v limit fuel (s.exec · v .leave) (execLeave (s.env codes limit) fuel) :=
  resumed_does (stepOut_came may fuel)

/-- Nothing is done for a function without lines. -/
theorem setStepOverBreakpoints_none {func : DebugSymbol} (hothers : s.otherLines v func = none)
    (d : Debugger (Machine X)) :
    setStepOverBreakpoints (s.env codes limit) func d = .ok none d := by
  have hinfo : (s.env codes limit).info = s.info := rfl
  unfold Debuggee.otherLines at hothers
  unfold setStepOverBreakpoints
  rw [hinfo]
  cases hpos : symPosition func s.info with
  | none => rfl
  | some pos =>
      cases hpath : symFilepath func s.info with
      | none => rfl
      | some filepath =>
          rw [hpos, hpath] at hothers
          cases hothers

theorem execNext_does (may : s.May v .next) :
    Does s v limit fuel (s.exec · v .next) (execNext (s.env codes limit) fuel) := by
  obtain ⟨mayStepOver, mayReturn⟩ : s.MayStepOver v ∧ s.MayReturn v := may
  have hinfo : (s.env codes limit).info = s.info := rfl
  show Does s v limit fuel (s.stepOver · v) _
  unfold Debuggee.stepOver
  cases hfunc : symByAddr v.dbgPc s.info with
  | none =>
      refine Does.of_run fun code d h => ⟨_, ?_, h.printed [.currentFunctionUnknown]⟩
      unfold execNext stepOver
      rw [bind_assoc, bind_run h.getDbgPc, hinfo, hfunc]
      rfl
  | some func =>
      dsimp only
      cases hothers : s.otherLines v func with
      | none =>
          refine Does.of_run fun code d h => ⟨_, ?_, h.printed [.scopeBreakpointsFailed]⟩
          unfold execNext stepOver
          rw [bind_assoc, bind_run h.getDbgPc, hinfo, hfunc]
          dsimp only
          rw [bind_assoc, bind_run (setStepOverBreakpoints_none hothers d)]
          rfl
      | some others =>
          exact resumed_does (stepOver_came hfunc hothers mayStepOver mayReturn fuel)

/-- **A command does to the tracee, and prints, what it does to the view.** -/
theorem exec_does (command : Command) (may : s.May v command) :
    Does s v limit fuel (s.exec · v command) (command.exec (s.env codes limit) fuel) := by
  cases command with
  | continue_ => exact execContinue_does
  | break_ addr =>
      refine Does.of_run fun code d h => ?_
      obtain ⟨d', hrun, h'⟩ := h.enable codes limit may
      exact ⟨d', bind_run hrun, h'⟩
  | delete addr =>
      refine Does.of_run fun code d h => ?_
      obtain ⟨d', hrun, h'⟩ := h.disable codes limit addr
      exact ⟨d', bind_run hrun, h'⟩
  | printMemory addr filter => exact execPrintMemory_does may
  | printRegister reg filter => exact execPrintRegister_does may
  | printVariable varName filter => exact execPrintVariable_does may
  | setMemory addr word filter => exact execSetMemory_does may
  | setRegister reg word filter => exact execSetRegister_does may
  | setVariable varName value filter => exact execSetVariable_does may
  | inst => exact execInst_does
  | leave => exact execLeave_does may
  | step => exact execStep_does
  | next => exact execNext_does may
  | backtrace => exact execBacktrace_does may

end Spray
