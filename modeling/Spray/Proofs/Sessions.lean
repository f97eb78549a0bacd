/-
A whole session shows what there is to see.

The debugger is started on a program, and lines are typed at its prompt.  Whatever comes of
that is what they come to in the view, however the program is limited; and it comes of it, if
there is time enough.
-/
import Spray.Proofs.Ideal
import Spray.Proofs.Reading

namespace Spray

open Triple

variable {X : Type} {s : Debuggee X} {codes : StopCodes} {limit fuel : Nat} {code : SiCode}
  {v : View X} {d : Debugger (Machine X)}

/-! ### Lines -/

/-- A command that comes to something comes to nothing else, given longer. -/
theorem exec_mono {n m : Nat} (hle : n ≤ m) {command : Command}
    {r : Except (List Message) (View X)} (h : s.exec n v command = some r) :
    s.exec m v command = some r := by
  cases command with
  | continue_ => exact resumed_mono hle h
  | leave => exact resumed_mono hle h
  | next =>
      change s.stepOver n v = some r at h
      show s.stepOver m v = some r
      unfold Debuggee.stepOver at h ⊢
      cases hfunc : symByAddr v.dbgPc s.info with
      | none => rw [hfunc] at h; exact h
      | some func =>
          rw [hfunc] at h
          dsimp only at h ⊢
          cases hothers : s.otherLines v func with
          | none => rw [hothers] at h; exact h
          | some others =>
              rw [hothers] at h
              exact resumed_mono hle h
  | backtrace =>
      obtain ⟨frames, hframes, hr⟩ := Option.map_eq_some_iff.mp h
      exact Option.map_eq_some_iff.mpr ⟨frames, callers_mono hle hframes, hr⟩
  | _ => exact h

theorem enter_mono {n m : Nat} (hle : n ≤ m) {reading : Reading}
    {r : Except (List Message) (View X)} (h : s.enter n v reading = some r) :
    s.enter m v reading = some r := by
  obtain ⟨msgs, _ | command⟩ := reading
  · exact h
  · exact exec_mono hle h

theorem Stands.printed (h : Stands s v d) (msgs : List Message) :
    Stands s (v.printed msgs) (d.printed msgs) :=
  h.imp fun _ h => h.printed msgs

/-- A line does to the tracee, and prints, what it does to the view. -/
theorem enter_does (reading : Reading) (may : ∀ command, reading.command = some command →
      s.May (v.printed reading.msgs) command) :
    Does s v limit fuel (s.enter · v reading)
      (reading.exec (Command.exec (s.env codes limit) fuel)) := by
  intro d h
  obtain ⟨msgs, _ | command⟩ := reading
  · rw [Reading.exec_none]
    exact ⟨_, rfl, h.printed msgs⟩
  · rw [Reading.exec_some]
    exact exec_does command (may command rfl) _ (h.printed msgs)

theorem session_cons {n : Nat} {reading : Reading} {readings : List Reading} {next : View X}
    (h : s.enter n v reading = some (.ok next)) :
    s.session n v (reading :: readings) = s.session n next readings := by
  rw [Debuggee.session, h]

theorem session_cons_error {n : Nat} {reading : Reading} {readings : List Reading}
    {out : List Message} (h : s.enter n v reading = some (.error out)) :
    s.session n v (reading :: readings) = some (.error out) := by
  rw [Debuggee.session, h]

theorem session_cons_none {n : Nat} {reading : Reading} {readings : List Reading}
    (h : s.enter n v reading = none) : s.session n v (reading :: readings) = none := by
  rw [Debuggee.session, h]

/-- With less time there is nothing, or the same view to go on from. -/
theorem session_none_of_next {n m : Nat} (hle : n ≤ m) {reading : Reading}
    {readings : List Reading} {next : View X} (hnext : s.enter m v reading = some (.ok next))
    (h : s.session n next readings = none) : s.session n v (reading :: readings) = none := by
  cases hshort : s.enter n v reading with
  | none => exact session_cons_none hshort
  | some r =>
      rw [enter_mono hle hshort] at hnext
      rw [hnext] at hshort
      rw [session_cons hshort]
      exact h

/-- **The lines of a session do to the tracee, and print, what they do to the view.** -/
theorem session_does (readings : List Reading) : ∀ v : View X, s.MaySession v readings →
    Does s v limit fuel (s.session · v readings)
      (readings.forM (Reading.exec (Command.exec (s.env codes limit) fuel))) := by
  induction readings with
  | nil => exact fun v _ => Holds.pure fun d h => ⟨.ok v, rfl, h⟩
  | cons reading readings ih =>
      rintro v ⟨may, mayRest⟩
      have hlong : ∀ n, n < limit → n ≤ max limit fuel := fun n hn =>
        Nat.le_trans (Nat.le_of_lt hn) (Nat.le_max_left ..)
      refine Holds.bind ((enter_does reading may).conseq (fun _ => id) (fun _ _ => id) ?_) ?_
      · rintro _ d (hnone | ⟨out, hout, hd⟩)
        · exact .inl fun n hn hfuel => session_cons_none (hnone n hn hfuel)
        · exact .inr ⟨out, session_cons_error hout, hd⟩
      · rintro _ d ⟨r, hr, hd⟩
        cases r with
        | ok next =>
            refine (ih next (mayRest _ next hr)).conseq (fun _ => id) ?_ ?_ d hd
            · rintro _ d' ⟨r', hr', hd'⟩
              exact ⟨r', (session_cons hr).trans hr', hd'⟩
            · rintro _ d' (hnone | ⟨out, hout, hd'⟩)
              · exact .inl fun n hn hfuel => session_none_of_next (hlong n hn) hr (hnone n hn hfuel)
              · exact .inr ⟨out, (session_cons hr).trans hout, hd'⟩
        | error out =>
            have keeps := exited_invariant s codes limit out
            exact (keeps.discipline.readings fuel fun _ _ _ _ _ _ _ => trivial).conseq (fun _ => id)
              (fun _ d' h => ⟨_, session_cons_error hr, h⟩)
              (fun _ d' h => .inr ⟨out, session_cons_error hr, h⟩) d hd

/-! ### Starting -/

theorem start_mono {n m : Nat} (hle : n ≤ m) {main : DebugSymbol}
    {r : Except (List Message) (View X)} (h : s.start n main v = some r) :
    s.start m main v = some r := by
  unfold Debuggee.start at h ⊢
  cases hstart : functionStartAddr main s.info with
  | none => rw [hstart] at h; exact h
  | some startMain =>
      rw [hstart] at h
      exact resumed_mono hle h

/-- The prompt is reached if the program has not exited before `main`. -/
structure Started (s : Debuggee X) (r : Except (List Message) (View X)) (reached : Bool)
    (d : Debugger (Machine X)) : Prop where
  shows : Shows s r d
  reached : ∀ next, r = .ok next → reached = true

/-- With its breakpoint gone, the program is shown where `main` starts. -/
theorem showMain_started {addr : RealAddr} (hoff : v.enabled addr = false)
    (o : Option (Except Nat (Cpu X))) :
    Holds (Came s (v.withEnabled (Function.update v.enabled addr true)) o .ok)
      (do
        let _ ← onStore (disableBreakpoint (s.env codes limit).pt addr)
        printCurrentSource (s.env codes limit)
        return true)
      (fun reached d => ∃ r, o.map (fun r => (v.reached r).map s.shown) = some r ∧
        Started s r reached d)
      (fun _ d => ∃ e, o = some (.error e) ∧ Exited (v.output ++ [.childExited e]) d) := by
  have hback : Function.update (Function.update v.enabled addr true) addr false = v.enabled := by
    rw [Function.update_idem, ← hoff, Function.update_eq_self]
  refine Holds.bind ((disable_came .ok addr).conseq (fun _ => id) (fun _ _ => id)
    fun _ _ => False.elim) fun _ d h => ?_
  have hcame : Came s v o .ok d :=
    (congrArg (Came s · o .ok d) (congrArg v.withEnabled hback)).mp h
  cases o with
  | none => exact hcame.elim
  | some r =>
      cases r with
      | ok c =>
          obtain ⟨-, code, hd⟩ := hcame
          obtain ⟨d', hprint, h'⟩ := printCurrentSource_shown hd codes limit
          rw [bind_run hprint]
          exact ⟨_, rfl, ⟨code, h'⟩, fun _ _ => rfl⟩
      | error e =>
          have keeps := exited_invariant s codes limit (v.output ++ [.childExited e])
          refine (Holds.bind keeps.discipline.printCurrentSource fun _ => Holds.pure
            (Q := fun reached d => reached = true ∧ Exited (v.output ++ [.childExited e]) d)
            fun _ => .intro rfl).conseq (fun _ => id) ?_ (fun _ _ hd => ⟨e, rfl, hd⟩) d hcame
          exact fun _ d hd => ⟨_, rfl, hd.2, fun _ _ => hd.1⟩

/-- **Starting leads to where `main` starts.** -/
theorem startDebugger_started {main : DebugSymbol} (hmain : symByName "main" s.info = some main)
    (may : ∀ startMain, functionStartAddr main s.info = some startMain →
      s.program.boundary (dbgToReal v.loadAddress startMain).value ∧
        v.enabled (dbgToReal v.loadAddress startMain) = false) :
    Holds (Stands s v) (startDebugger (s.env codes limit) fuel)
      (fun reached d => ∃ r, s.start (max limit fuel) main v = some r ∧ Started s r reached d)
      (fun _ d => (∀ n, n < limit → n < fuel → s.start n main v = none) ∨
        ∃ out, s.start (max limit fuel) main v = some (.error out) ∧ Exited out d) := by
  have hinfo : (s.env codes limit).info = s.info := rfl
  rintro d ⟨code, h⟩
  unfold startDebugger Debuggee.start
  rw [hinfo, hmain]
  dsimp only
  cases hstart : functionStartAddr main s.info with
  | none =>
      obtain ⟨d', hprint, h'⟩ := printCurrentSource_shown h codes limit
      dsimp only
      rw [bind_run hprint]
      exact ⟨_, rfl, ⟨code, h'⟩, fun _ _ => rfl⟩
  | some startMain =>
      obtain ⟨hboundary, hoff⟩ := may startMain hstart
      dsimp only
      rw [bind_run (get_run d), h.loadAddress]
      generalize dbgToReal v.loadAddress startMain = addr at hboundary hoff ⊢
      obtain ⟨d₁, henable, h₁⟩ := h.enable codes limit hboundary
      rw [bind_run henable]
      have hmax : limit ≤ max limit fuel := Nat.le_max_left ..
      have hexit : ∀ e, s.program.resume (Function.update v.enabled addr true) limit v.cpu =
          some (.error e) → s.resumed (max limit fuel) (Function.update v.enabled addr true) v =
            some (.error (v.output ++ [.childExited e])) :=
        fun e he => resumed_mono hmax (resumed_error he)
      refine Holds.bind (P := Stands s (v.withEnabled (Function.update v.enabled addr true)))
        ((continueExecution_continued fuel).conseq (fun _ => id) (fun _ _ => id)
          fun _ _ hzero => .inl fun n _ hn => absurd hn (hzero ▸ Nat.not_lt_zero n))
        (fun res => ?_) d₁ ⟨code, h₁⟩
      cases res with
      | err =>
          refine Holds.pure fun d hd => ?_
          cases hd with
          | exited hstep hd =>
              refine ⟨_, hexit _ ?_, hd, fun next hnext => by cases hnext⟩
              unfold Program.resume
              rw [show s.program.step v.cpu = _ from hstep]
      | ok =>
          refine Holds.bind ((Continued.wait fuel .ok).conseq (fun _ => id) (fun _ _ => id) ?_)
            fun res => ?_
          · rintro _ d (hnone | ⟨e, he, hd⟩)
            · exact .inl fun n hn hfuel => resumed_none (hnone n hn hfuel)
            · exact .inr ⟨_, hexit e he, hd⟩
          cases res with
          | err =>
              refine Holds.pure fun d hd => ?_
              cases ho : s.program.resume (Function.update v.enabled addr true) limit v.cpu with
              | none => exact (congrArg (Came s _ · .err d) ho).mp hd |>.elim
              | some r =>
                  have hcame := (congrArg (Came s _ · .err d) ho).mp hd
                  cases r with
                  | ok c => exact absurd hcame.1 (by decide)
                  | error e =>
                      exact ⟨_, hexit e ho, hcame, fun next hnext => by cases hnext⟩
          | ok =>
              refine (showMain_started hoff _).conseq (fun _ => id) ?_ ?_
              · rintro reached d ⟨r, hr, hd⟩
                exact ⟨r, resumed_mono hmax hr, hd⟩
              · rintro _ d ⟨e, he, hd⟩
                exact .inr ⟨_, hexit e he, hd⟩

/-! ### Sessions -/

theorem session_mono {n m : Nat} (hle : n ≤ m) {readings : List Reading} :
    ∀ {v : View X} {r : Except (List Message) (View X)}, s.session n v readings = some r →
      s.session m v readings = some r := by
  induction readings with
  | nil => exact id
  | cons reading readings ih =>
      intro v r h
      cases henter : s.enter n v reading with
      | none => exact absurd ((session_cons_none henter).symm.trans h) (Option.some_ne_none r).symm
      | some entered =>
          have hlong := enter_mono hle henter
          cases entered with
          | ok next =>
              rw [session_cons henter] at h
              rw [session_cons hlong]
              exact ih h
          | error out =>
              rw [session_cons_error hlong]
              rwa [session_cons_error henter] at h

theorem run_of_start {n : Nat} {main : DebugSymbol} {lines : List String} {next : View X}
    (h : s.start n main v = some (.ok next)) : s.run n main v lines =
      s.session n next (readLines s.info s.lineEntryAt next.loadAddress none lines) := by
  rw [Debuggee.run, h]

theorem run_of_start_error {n : Nat} {main : DebugSymbol} {lines : List String}
    {out : List Message} (h : s.start n main v = some (.error out)) :
    s.run n main v lines = some (.error out) := by
  rw [Debuggee.run, h]

theorem run_of_start_none {n : Nat} {main : DebugSymbol} {lines : List String}
    (h : s.start n main v = none) : s.run n main v lines = none := by
  rw [Debuggee.run, h]

theorem run_mono {n m : Nat} (hle : n ≤ m) {main : DebugSymbol} {lines : List String}
    {r : Except (List Message) (View X)} (h : s.run n main v lines = some r) :
    s.run m main v lines = some r := by
  cases hstart : s.start n main v with
  | none => exact absurd ((run_of_start_none hstart).symm.trans h) (Option.some_ne_none r).symm
  | some started =>
      have hlong := start_mono hle hstart
      cases started with
      | ok next =>
          rw [run_of_start hstart] at h
          rw [run_of_start hlong]
          exact session_mono hle h
      | error out =>
          rw [run_of_start_error hlong]
          rwa [run_of_start_error hstart] at h

/-- **What is typed does to the tracee, and prints, what it does to the view.** -/
theorem runPrompt_does (codes : StopCodes) (limit fuel : Nat) {main : DebugSymbol}
    (hmain : symByName "main" s.info = some main) {lines : List String}
    (may : s.MayRun main v lines) :
    Does s v limit fuel (s.run · main v lines)
      (runPrompt (s.env codes limit) s.lineEntryAt fuel lines) := by
  have hlong : ∀ n, n < limit → n ≤ max limit fuel := fun n hn =>
    Nat.le_trans (Nat.le_of_lt hn) (Nat.le_max_left ..)
  refine Holds.bind ((startDebugger_started hmain may.start).conseq (fun _ => id)
    (fun _ _ => id) ?_) fun reached => ?_
  · rintro _ d (hnone | ⟨out, hout, hd⟩)
    · exact .inl fun n hn hfuel => run_of_start_none (hnone n hn hfuel)
    · exact .inr ⟨out, run_of_start_error hout, hd⟩
  · rintro d ⟨r, hr, hd⟩
    cases r with
    | error out =>
        have keeps := exited_invariant s codes limit out
        have hrun : s.run (max limit fuel) main v lines = _ := run_of_start_error hr
        refine (Holds.ite (fun _ => keeps.promptLoop _ fuel lines none) fun _ =>
          Holds.pure fun _ => id).conseq (fun _ => id) (fun _ d' h => ⟨_, hrun, h⟩)
          (fun _ d' h => .inr ⟨out, hrun, h⟩) d hd.shows
    | ok next =>
        obtain ⟨code, h⟩ := hd.shows
        rw [if_pos (hd.reached next rfl), promptLoop_eq_readings, h.loadAddress]
        refine (session_does _ next (may.session _ next hr)).conseq (fun _ => id) ?_ ?_ d ⟨code, h⟩
        · rintro _ d' ⟨r', hr', hd'⟩
          exact ⟨r', (run_of_start hr).trans hr', hd'⟩
        · rintro _ d' (hnone | ⟨out, hout, hd'⟩)
          · refine .inl fun n hn hfuel => ?_
            cases hshort : s.start n main v with
            | none => exact run_of_start_none hshort
            | some started =>
                rw [start_mono (hlong n hn) hshort] at hr
                rw [hr] at hshort
                exact (run_of_start hshort).trans (hnone n hn hfuel)
          · exact .inr ⟨out, (run_of_start hr).trans hout, hd'⟩

/-! ### From the beginning -/

theorem attach_stands {cpu : Cpu X} (hown : ∀ a, s.program.code a → cpu.mem a = s.program.image a)
    (hb : s.program.boundary cpu.pc) (loadAddress : RealAddr) :
    Stands s (View.attach cpu loadAddress) (attach cpu loadAddress) := by
  refine ⟨.other 0, ⟨fun a ha => ?_, fun a b _ hb => ?_⟩, fun _ => rfl, rfl,
    ⟨rfl, rfl, fun _ _ => rfl⟩, hown, hb, fun a ha => ?_, rfl, rfl⟩
  · exact hown a.value ha
  · exact absurd hb (by simp [attach, savedByte_initBreakpoints])
  · cases ha

/-! ### A session of `nop`s -/

/-- The `nop`s are the code of `main`, which starts after four of them. -/
def nopDebuggee : Debuggee Unit where
  program := nopProgram
  info :=
    { elf := ⟨.EXEC, [⟨"main", 0x1000, 0x100, .STT_FUNC⟩]⟩
      dbg :=
        { sdFilepathFromPc := fun _ => some "nop.c"
          sdLineEntryFromPc := fun addr => { isOk := true, ln := 1, addr }
          sdForEachLine := fun _ _ => []
          sdEffectiveStartAddr := fun start _ => some ⟨start.value + 4⟩ } }
  lineEntryAt _ _ := {}
  printSource _ _ _ := .ok
  variableAt _ _ _ _ := none

def nopMain : DebugSymbol := ⟨⟨"main", 0x1000, 0x100, .STT_FUNC⟩, none⟩

def nopLines : List String := ["break 0x1006", "c", "print %rip | dec", "", "i"]

def nopReadings : List Reading :=
  [⟨[], some (.break_ ⟨0x1006⟩)⟩, ⟨[], some .continue_⟩, ⟨[], some (.printRegister .rip .DEC)⟩,
    ⟨[], some (.printRegister .rip .DEC)⟩, ⟨[], some .inst⟩]

/-- Lines that may be typed wherever the program is. -/
theorem maySession_of_always {readings : List Reading}
    (h : ∀ reading ∈ readings, ∀ command, reading.command = some command →
      ∀ v : View X, s.May v command) : ∀ v : View X, s.MaySession v readings := by
  induction readings with
  | nil => exact fun _ => trivial
  | cons reading readings ih =>
      intro v
      refine ⟨fun command hcommand => h reading List.mem_cons_self command hcommand _,
        fun _ next _ => ih (fun reading hmem => h reading (List.mem_cons_of_mem _ hmem)) next⟩

theorem start_loadAddress {n : Nat} {main : DebugSymbol} {next : View X}
    (h : s.start n main v = some (.ok next)) : next.loadAddress = v.loadAddress := by
  unfold Debuggee.start at h
  cases hstart : functionStartAddr main s.info with
  | none => rw [hstart] at h; cases h; rfl
  | some startMain =>
      rw [hstart] at h
      obtain ⟨r, -, hr⟩ := Option.map_eq_some_iff.mp h
      cases r with
      | ok c => cases hr; rfl
      | error e => cases hr

theorem nopReadings_read :
    readLines nopDebuggee.info nopDebuggee.lineEntryAt ⟨0⟩ none nopLines = nopReadings := by
  decide

theorem nopDebuggee_mayRun : nopDebuggee.MayRun nopMain (View.attach nopCpu ⟨0⟩) nopLines where
  start _ _ := ⟨trivial, rfl⟩
  session limit next hstart := by
    rw [start_loadAddress hstart]
    show nopDebuggee.MaySession next (readLines _ _ ⟨0⟩ none nopLines)
    rw [nopReadings_read]
    refine maySession_of_always (fun reading hmem command hcommand v => ?_) next
    simp only [nopReadings, List.mem_cons, List.not_mem_nil, or_false] at hmem
    rcases hmem with rfl | rfl | rfl | rfl | rfl <;> cases hcommand
    · exact trivial
    · exact trivial
    · exact fun hderef => by cases hderef
    · exact fun hderef => by cases hderef
    · exact trivial

/-! ### Whatever is typed -/

/--
**The debugger shows what there is to see.**  It is attached to a program before the first
instruction, and lines are typed at its prompt.  If it returns, the program and all that has
been printed are what the lines come to in the view, or the program has exited, and what had
been printed by then comes first.  If it does not, then they come to nothing in the time there
was, or the program has exited likewise.
-/
theorem runPrompt_shows (s : Debuggee X) (codes : StopCodes) (limit fuel : Nat)
    {main : DebugSymbol} (hmain : symByName "main" s.info = some main) (cpu : Cpu X)
    (hown : ∀ a, s.program.code a → cpu.mem a = s.program.image a)
    (hb : s.program.boundary cpu.pc) (loadAddress : RealAddr) (lines : List String)
    (may : s.MayRun main (View.attach cpu loadAddress) lines) :
    Holds (· = attach cpu loadAddress) (runPrompt (s.env codes limit) s.lineEntryAt fuel lines)
      (fun _ d => ∃ n r, s.run n main (View.attach cpu loadAddress) lines = some r ∧ Shows s r d)
      (fun _ d => (∀ n, n < limit → n < fuel →
          s.run n main (View.attach cpu loadAddress) lines = none) ∨
        ∃ n out, s.run n main (View.attach cpu loadAddress) lines = some (.error out) ∧
          Exited out d) := by
  refine (runPrompt_does codes limit fuel hmain may).conseq ?_ ?_ ?_
  · rintro d rfl
    exact attach_stands hown hb loadAddress
  · exact fun _ d ⟨r, hr, hd⟩ => ⟨_, r, hr, hd⟩
  · rintro _ d (hnone | ⟨out, hout, hd⟩)
    · exact .inl hnone
    · exact .inr ⟨_, out, hout, hd⟩

theorem runPrompt_shows_nops :
    Holds (· = attach nopCpu ⟨0⟩)
      (runPrompt (nopDebuggee.env kernelCodes 32) nopDebuggee.lineEntryAt 32 nopLines)
      (fun _ d => ∃ n r, nopDebuggee.run n nopMain (View.attach nopCpu ⟨0⟩) nopLines = some r ∧
        Shows nopDebuggee r d)
      (fun _ d => (∀ n, n < 32 → n < 32 →
          nopDebuggee.run n nopMain (View.attach nopCpu ⟨0⟩) nopLines = none) ∨
        ∃ n out, nopDebuggee.run n nopMain (View.attach nopCpu ⟨0⟩) nopLines =
          some (.error out) ∧ Exited out d) :=
  runPrompt_shows nopDebuggee kernelCodes 32 32 rfl nopCpu (fun _ _ => rfl) trivial ⟨0⟩ nopLines
    nopDebuggee_mayRun

/--
**The debugger gets as far as the program does.**  Once the lines come to something in the
view, the debugger shows it as well, whatever codes the tracee's stops are reported with, and
however much longer it may run; and it is back at the prompt, unless the program has exited.
-/
theorem runPrompt_reaches (s : Debuggee X) {main : DebugSymbol}
    (hmain : symByName "main" s.info = some main) (cpu : Cpu X)
    (hown : ∀ a, s.program.code a → cpu.mem a = s.program.image a)
    (hb : s.program.boundary cpu.pc) (loadAddress : RealAddr) (lines : List String)
    (may : s.MayRun main (View.attach cpu loadAddress) lines) {n : Nat}
    {r : Except (List Message) (View X)}
    (hrun : s.run n main (View.attach cpu loadAddress) lines = some r)
    (codes : StopCodes) {limit fuel : Nat} (hlimit : n < limit) (hfuel : n < fuel) :
    let x := runPrompt (s.env codes limit) s.lineEntryAt fuel lines
    let d := finalState x (attach cpu loadAddress)
    Shows s r d ∧ ∀ next, r = .ok next → x (attach cpu loadAddress) = .ok () d := by
  intro x d
  have hlong := run_mono (Nat.le_trans (Nat.le_of_lt hlimit) (Nat.le_max_left limit fuel)) hrun
  have hdoes := runPrompt_does codes limit fuel hmain may _
    (attach_stands hown hb loadAddress)
  unfold d finalState x
  cases hres : runPrompt (s.env codes limit) s.lineEntryAt fuel lines (attach cpu loadAddress) with
  | ok _ d' =>
      rw [hres] at hdoes
      obtain ⟨r', hr', hd'⟩ := hdoes
      obtain rfl : r = r' := Option.some.inj (hlong.symm.trans hr')
      exact ⟨hd', fun _ _ => rfl⟩
  | error e d' =>
      rw [hres] at hdoes
      rcases hdoes with hnone | ⟨out, hout, hd'⟩
      · exact absurd (hrun.symm.trans (hnone n hlimit hfuel)) (Option.some_ne_none r)
      · obtain rfl : r = .error out := Option.some.inj (hlong.symm.trans hout)
        exact ⟨hd', fun _ hnext => by cases hnext⟩

theorem runPrompt_reaches_nops :
    ∃ r, nopDebuggee.run 20 nopMain (View.attach nopCpu ⟨0⟩) nopLines = some r ∧
      Shows nopDebuggee r (finalState
        (runPrompt (nopDebuggee.env kernelCodes 32) nopDebuggee.lineEntryAt 32 nopLines)
        (attach nopCpu ⟨0⟩)) := by
  have hruns : (nopDebuggee.run 20 nopMain (View.attach nopCpu ⟨0⟩) nopLines).isSome = true := by
    decide
  obtain ⟨r, hr⟩ := Option.isSome_iff_exists.mp hruns
  exact ⟨r, hr, (runPrompt_reaches nopDebuggee rfl nopCpu (fun _ _ => rfl) trivial ⟨0⟩ nopLines
    nopDebuggee_mayRun hr kernelCodes (by decide) (by decide)).1⟩

/--
**The prompt is read ahead.**  Whatever tracee is debugged, the lines that are typed can be read
before the debugger is started.  Doing what they have been read as, one after the other, is what
the prompt does, with an empty line standing for the last one that was not.
-/
theorem runPrompt_readsAhead {W : Type} (env : Env W) (lineEntryAt : String → Nat → LineEntry)
    (fuel : Nat) (lines : List String) (d : Debugger W) :
    runPrompt env lineEntryAt fuel lines d =
      (do
        if ← startDebugger env fuel then
          (readLines env.info lineEntryAt d.loadAddress none lines).forM
            (Reading.exec (Command.exec env fuel))) d := by
  have hkeeps := (loadAddress_invariant env d.loadAddress).discipline.startDebugger fuel d rfl
  unfold runPrompt
  cases hstart : startDebugger env fuel d with
  | error e d' => rw [bind_error hstart, bind_error hstart]
  | ok reached d' =>
      rw [hstart] at hkeeps
      rw [bind_run hstart, bind_run hstart]
      cases reached with
      | false => rfl
      | true =>
          rw [if_pos rfl, if_pos rfl, promptLoop_eq_readings]
          rw [show d'.loadAddress = d.loadAddress from hkeeps]

end Spray
