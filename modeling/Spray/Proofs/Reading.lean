/-
The prompt does what its lines are read as.

Whatever executes the commands, the parser has the same command executed, or reports the same
error: it is one function of the tokens and of where the program is loaded.  So lines can be
read ahead of the session they are typed in.
-/
import Spray.Ideal
import Spray.Proofs.CommandGrammar
import Spray.Proofs.Commands

namespace Spray

open Triple

variable {W : Type} {info : DebugInfo} {lineEntryAt : String → Nat → LineEntry}

/-! ### One line of tokens -/

/-- A part of the parser, with whatever executes the commands left open. -/
abbrev Parsed := ∀ W : Type, (Command → DbgM W Unit) → Except String (DbgM W Unit)

/-- There is an error, or messages are printed and a command is executed; and these are the
same whatever executes it. -/
inductive Settled (x : Parsed) : Prop
  | refused (msg : String) (h : ∀ W run, x W run = .error msg)
  | given (msgs : List Message) (command : RealAddr → Command)
      (h : ∀ W run, ∃ prog, x W run = .ok prog ∧
        ∀ d, prog d = run (command d.loadAddress) (d.printed msgs))

namespace Settled

theorem error (msg : String) : Settled fun _ _ => .error msg := .refused msg fun _ _ => rfl

theorem command (command : Command) : Settled fun _ run => .ok (run command) :=
  .given [] (fun _ => command) fun _ run =>
    ⟨run command, rfl, fun d => congrArg (run command) (printed_nil d).symm⟩

theorem congr {x y : Parsed} (h : Settled x) (heq : ∀ W run, y W run = x W run) : Settled y := by
  cases h with
  | refused msg h => exact .refused msg fun W run => (heq W run).trans (h W run)
  | given msgs command h =>
      refine .given msgs command fun W run => ?_
      obtain ⟨prog, hprog, hrun⟩ := h W run
      exact ⟨prog, (heq W run).trans hprog, hrun⟩

/-- What is checked first does not depend on the commands. -/
theorem bind {α : Type} {check : Except String α} {x : α → Parsed}
    (h : ∀ a, check = .ok a → Settled (x a)) :
    Settled fun W run => check >>= fun a => x a W run := by
  cases check with
  | error msg => exact .error msg
  | ok a => exact h a rfl

theorem ite {c : Prop} [Decidable c] {x y : Parsed} (hx : c → Settled x) (hy : ¬ c → Settled y) :
    Settled fun W run => if c then x W run else y W run := by
  by_cases hc : c
  · exact (hx hc).congr fun _ _ => if_pos hc
  · exact (hy hc).congr fun _ _ => if_neg hc

theorem plainCommand (command : Command) (tokens : List String) :
    Settled fun _ run => plainCommand run command tokens :=
  .bind fun _ _ => .command command

theorem breakpointCommand (name : String) (command : RealAddr → Command)
    (tokens : List String) :
    Settled fun _ run => breakpointCommand info lineEntryAt run name command tokens := by
  cases tokens with
  | nil => exact .error _
  | cons loc tokens =>
      cases hloc : parseBreakLocation info lineEntryAt loc with
      | none =>
          refine (error ("Invalid location for '" ++ name ++ "'")).congr fun W run => ?_
          dsimp only [Spray.breakpointCommand]
          rw [hloc]
          rfl
      | some addr =>
          have hrest : Settled fun W run => endOfTokens tokens >>= fun _ =>
              .ok (do run (command (dbgToReal (← get).loadAddress addr))) :=
            .bind fun _ _ => .given [] (fun loadAddress => command (dbgToReal loadAddress addr))
              fun W run => ⟨_, rfl, fun d => by rw [printed_nil]; rfl⟩
          refine hrest.congr fun W run => ?_
          dsimp only [Spray.breakpointCommand]
          rw [hloc]
          rfl

/-- A register by its name, with a command for it. -/
theorem register (name msg : String) (command : X86Reg → Command) :
    Settled fun _ run => match getRegisterFromName name with
      | some reg => .ok (run (command reg))
      | none => .error msg := by
  cases getRegisterFromName name with
  | some reg => exact .command _
  | none => exact .error msg

/-- An address, with a command for it. -/
theorem address (str msg : String) (command : Word → Command) :
    Settled fun _ run => match parseBase16 str with
      | some addr => .ok (run (command addr))
      | none => .error msg := by
  cases parseBase16 str with
  | some addr => exact .command _
  | none => exact .error msg

theorem warning (ident : String) : ∃ msgs, ∀ (W : Type) (d : Debugger W),
    warnRegisterNameConflict ident d = .ok () (d.printed msgs) := by
  unfold warnRegisterNameConflict
  by_cases hreg : (getRegisterFromName ident).isSome
  · simp only [if_pos hreg]
    exact ⟨_, fun W d => (bind_run (say_run _ d)).trans
      ((say_run _ _).trans (congrArg _ (printed_printed d _ _)))⟩
  · simp only [if_neg hreg]
    exact ⟨[], fun W d => congrArg _ (printed_nil d).symm⟩

theorem printLocation (locStr : String) (filter : PrintFilter) :
    Settled fun _ run => printLocation run locStr filter := by
  refine .ite (fun _ => register _ _ fun reg => .printRegister reg filter) fun _ =>
    .ite (fun _ => ?_) fun _ => address _ _ fun addr => .printMemory ⟨addr⟩ filter
  obtain ⟨msgs, hmsgs⟩ := warning locStr
  exact .given msgs (fun _ => .printVariable locStr filter) fun W run =>
    ⟨_, rfl, fun d => bind_run (hmsgs W d)⟩

theorem setLocation (locStr : String) (value : Word) (filter : PrintFilter) :
    Settled fun _ run => setLocation run locStr value filter :=
  .ite (fun _ => register _ _ fun reg => .setRegister reg value filter) fun _ =>
    .ite (fun _ => command _) fun _ => address _ _ fun addr => .setMemory ⟨addr⟩ value filter

theorem printCommand (tokens : List String) : Settled fun _ run => printCommand run tokens := by
  cases tokens with
  | nil => exact .error _
  | cons locStr tokens => exact .bind fun _ _ => .bind fun _ _ => .printLocation _ _

theorem setCommand (tokens : List String) : Settled fun _ run => setCommand run tokens := by
  match tokens with
  | [] => exact .error _
  | [_] => exact .error _
  | locStr :: valueStr :: tokens =>
      refine .bind fun parsed _ => .bind fun _ _ => ?_
      cases hvalue : parseSetValue valueStr parsed.1 with
      | none => exact .error _
      | some value => exact .setLocation _ _ _

end Settled

/-- The parser does the same with the tokens whatever executes the commands. -/
theorem debugCommand_settled (info : DebugInfo) (lineEntryAt : String → Nat → LineEntry)
    (tokens : List String) :
    Settled fun _ run => debugCommand info lineEntryAt run tokens := by
  cases tokens with
  | nil => exact .error _
  | cons cmd tokens =>
      by_cases hname : ∃ name : CommandName, name.Form cmd
      · obtain ⟨name, hform⟩ := hname
        have hparse : Settled fun _ run => name.parse info lineEntryAt run tokens := by
          cases name with
          | break_ => exact .breakpointCommand ..
          | delete => exact .breakpointCommand ..
          | print => exact .printCommand _
          | set => exact .setCommand _
          | backtrace => exact .command _
          | _ => exact .plainCommand _ _
        exact hparse.congr fun W run => debugCommand_of_form hform tokens run
      · exact (Settled.error _).congr fun W run =>
          debugCommand_unknown (not_exists.mp hname) tokens run

/-! ### Doing what has been read -/

/-- Print the messages, and have the command executed if there is one. -/
def Reading.exec (run : Command → DbgM W Unit) (reading : Reading) : DbgM W Unit := do
  reading.msgs.forM say
  reading.command.forM run

theorem forM_say (msgs : List Message) : ∀ d : Debugger W,
    msgs.forM say d = .ok () (d.printed msgs) := by
  induction msgs with
  | nil => exact fun d => congrArg _ (printed_nil d).symm
  | cons msg msgs ih =>
      intro d
      refine (bind_run (say_run msg d)).trans ((ih _).trans ?_)
      rw [printed_printed]
      rfl

theorem Reading.exec_none (run : Command → DbgM W Unit) (msgs : List Message) (d : Debugger W) :
    Reading.exec run ⟨msgs, none⟩ d = .ok () (d.printed msgs) := bind_run (forM_say msgs d)

theorem Reading.exec_some (run : Command → DbgM W Unit) (msgs : List Message)
    (command : Command) (d : Debugger W) :
    Reading.exec run ⟨msgs, some command⟩ d = run command (d.printed msgs) :=
  bind_run (forM_say msgs d)

/-- What the tokens come to depends on where the program is loaded, and on nothing else. -/
theorem exists_reading (info : DebugInfo) (lineEntryAt : String → Nat → LineEntry)
    (tokens : List String) : ∃ reading : RealAddr → Reading,
    ∀ (W : Type) (run : Command → DbgM W Unit) (d : Debugger W),
      handleDebugCommandTokens info lineEntryAt run tokens d =
        (reading d.loadAddress).exec run d := by
  cases debugCommand_settled info lineEntryAt tokens with
  | refused msg h =>
      refine ⟨fun _ => ⟨[.replErr msg], none⟩, fun W run d => ?_⟩
      unfold handleDebugCommandTokens
      rw [show debugCommand info lineEntryAt run tokens = .error msg from h W run]
      rfl
  | given msgs command h =>
      refine ⟨fun loadAddress => ⟨msgs, some (command loadAddress)⟩, fun W run d => ?_⟩
      obtain ⟨prog, hprog, hrun⟩ := h W run
      unfold handleDebugCommandTokens
      rw [show debugCommand info lineEntryAt run tokens = .ok prog from hprog]
      exact (hrun d).trans (Reading.exec_some run msgs (command d.loadAddress) d).symm

theorem handleDebugCommandTokens_reads (run : Command → DbgM W Unit) (tokens : List String)
    (d : Debugger W) : handleDebugCommandTokens info lineEntryAt run tokens d =
      (promptReading info lineEntryAt d.loadAddress tokens).exec run d := by
  obtain ⟨reading, hreading⟩ := exists_reading info lineEntryAt tokens
  have hread : promptReading info lineEntryAt d.loadAddress tokens = reading d.loadAddress := by
    unfold promptReading finalState
    rw [hreading]
    obtain ⟨msgs, _ | command⟩ := reading d.loadAddress
    · rw [Reading.exec_none]
      rfl
    · rw [Reading.exec_some]
      rfl
  rw [hreading, hread]

theorem handleDebugCommand_reads (info : DebugInfo) (lineEntryAt : String → Nat → LineEntry)
    (run : Command → DbgM W Unit) (history : Option String) (line : String) (d : Debugger W) :
    handleDebugCommand info lineEntryAt run history line d =
      (do
        (readLine info lineEntryAt d.loadAddress (recalled history line)).exec run
        return recalled history line) d := by
  have hhandle : ∀ (last : String) (tokens : List String), getCommandTokens last = tokens →
      (do
        handleDebugCommandTokens info lineEntryAt run tokens
        return some last) d = (do
        (readLine info lineEntryAt d.loadAddress (some last)).exec run
        return some last) d := by
    rintro last tokens rfl
    exact bind_congr_run (handleDebugCommandTokens_reads run _ d)
  unfold handleDebugCommand recalled
  cases htokens : getCommandTokens line with
  | nil =>
      rw [if_pos rfl]
      cases history with
      | none => rfl
      | some last => exact hhandle last _ rfl
  | cons token tokens =>
      rw [if_neg (List.cons_ne_nil token tokens)]
      exact hhandle line _ htokens

/-- If no command moves the program, the lines can be read before any of them is executed. -/
theorem promptLoop_reads {run : Command → DbgM W Unit} {loadAddress : RealAddr}
    (hkeeps : ∀ command, Holds (fun d => d.loadAddress = loadAddress) (run command)
      (fun _ d => d.loadAddress = loadAddress) fun _ _ => True) (lines : List String) :
    ∀ (history : Option String) (d : Debugger W), d.loadAddress = loadAddress →
      promptLoop info lineEntryAt run history lines d =
        (readLines info lineEntryAt loadAddress history lines).forM (Reading.exec run) d := by
  induction lines with
  | nil => exact fun _ _ _ => rfl
  | cons line lines ih =>
      intro history d hload
      have hread := handleDebugCommand_reads info lineEntryAt run history line d
      rw [hload] at hread
      show (handleDebugCommand info lineEntryAt run history line >>= fun history =>
        promptLoop info lineEntryAt run history lines) d =
        ((readLine info lineEntryAt loadAddress (recalled history line)).exec run >>= fun _ =>
          (readLines info lineEntryAt loadAddress (recalled history line) lines).forM
            (Reading.exec run)) d
      refine (bind_congr_run hread).trans ?_
      rw [bind_assoc]
      generalize readLine info lineEntryAt loadAddress (recalled history line) = reading
      have hexec : Holds (fun d => d.loadAddress = loadAddress) (reading.exec run)
          (fun _ d => d.loadAddress = loadAddress) fun _ _ => True := by
        obtain ⟨msgs, _ | command⟩ := reading
        · exact fun d h => by rw [Reading.exec_none]; exact h
        · exact fun d h => by rw [Reading.exec_some]; exact hkeeps command (d.printed msgs) h
      have hnext := hexec d hload
      cases hrun : reading.exec run d with
      | ok u d' =>
          rw [hrun] at hnext
          rw [bind_run hrun, bind_run hrun]
          exact ih _ d' hnext
      | error e d' => rw [bind_error hrun, bind_error hrun]

/-! ### A whole session -/

/-- No command moves the program. -/
theorem loadAddress_invariant (env : Env W) (loadAddress : RealAddr) :
    CommandInvariant env (fun d => d.loadAddress = loadAddress) fun _ _ => True where
  getRegister _ := fun _ => id
  setRegister _ _ := fun _ => id
  readMemory _ := fun _ => id
  writeMemory _ _ := fun _ => id
  singleStep := fun _ => id
  cont := fun _ => id
  getSigInfo := fun _ => id
  await := by
    intro d h
    unfold awaitStatus
    generalize env.pt.waitpid d.tracee = out
    obtain ⟨_ | _ | _, w⟩ := out
    · exact h
    · trivial
    · trivial
  enable _ := fun _ => id
  disable _ := fun _ => id
  say _ := fun _ => id
  findVariable _ _ _ := fun _ => id
  halt _ _ _ := trivial

theorem promptLoop_eq_readings (env : Env W) (fuel : Nat) (lines : List String)
    (history : Option String) (d : Debugger W) :
    promptLoop env.info lineEntryAt (Command.exec env fuel) history lines d =
      (readLines env.info lineEntryAt d.loadAddress history lines).forM
        (Reading.exec (Command.exec env fuel)) d :=
  promptLoop_reads (fun command => (loadAddress_invariant env d.loadAddress).exec fuel command)
    lines history d rfl

/-! ### What is kept at the prompt -/

namespace Discipline

variable {env : Env W} {sets : SdLocation → Word → Prop}
  {Ready Running Trapped : Debugger W → Prop} {H : Halt → Debugger W → Prop}
  (rules : Discipline env sets Ready Running Trapped H)

include rules

theorem reading (fuel : Nat) {reading : Reading}
    (hsets : ∀ command ∈ reading.command, ∀ loc value, command.Sets loc value → sets loc value) :
    Holds Ready (reading.exec (Command.exec env fuel)) (fun _ => Ready) H := by
  obtain ⟨msgs, command⟩ := reading
  refine Holds.bind (Holds.forM (I := fun _ => Ready) (fun msg _ => rules.say msg) msgs) fun _ => ?_
  cases command with
  | none => exact Holds.pure fun _ => id
  | some command => exact rules.exec fuel command (hsets command rfl)

theorem readings (fuel : Nat) {readings : List Reading}
    (hsets : ∀ reading ∈ readings, ∀ command ∈ reading.command, ∀ loc value,
      command.Sets loc value → sets loc value) :
    Holds Ready (readings.forM (Reading.exec (Command.exec env fuel))) (fun _ => Ready) H := by
  induction readings with
  | nil => exact Holds.pure fun _ => id
  | cons reading readings ih =>
      refine Holds.bind (rules.reading fuel (hsets reading List.mem_cons_self)) fun _ => ?_
      exact ih fun reading hmem => hsets reading (List.mem_cons_of_mem _ hmem)

/-- Whatever is typed, the requests made for it keep what all of them keep. -/
theorem promptLoop (lineEntryAt : String → Nat → LineEntry) (fuel : Nat) {lines : List String}
    {history : Option String} {loadAddress : RealAddr}
    (hsets : ∀ reading ∈ readLines env.info lineEntryAt loadAddress history lines,
      ∀ command ∈ reading.command, ∀ loc value, command.Sets loc value → sets loc value) :
    Holds (fun d => Ready d ∧ d.loadAddress = loadAddress)
      (promptLoop env.info lineEntryAt (Command.exec env fuel) history lines)
      (fun _ => Ready) H := by
  rintro d ⟨hd, rfl⟩
  rw [promptLoop_eq_readings]
  exact rules.readings fuel hsets d hd

/-- So does the whole program. -/
theorem runPrompt (lineEntryAt : String → Nat → LineEntry) (fuel : Nat) (loadAddress : RealAddr)
    {lines : List String}
    (hsets : ∀ reading ∈ readLines env.info lineEntryAt loadAddress none lines,
      ∀ command ∈ reading.command, ∀ loc value, command.Sets loc value → sets loc value) :
    Holds (fun d => Ready d ∧ d.loadAddress = loadAddress)
      (runPrompt env lineEntryAt fuel lines) (fun _ => Ready) H := by
  have hkeeps := (loadAddress_invariant env loadAddress).discipline.startDebugger fuel
  refine Holds.bind (((rules.startDebugger fuel).and hkeeps).conseq (fun _ => id) (fun _ _ => id)
    fun _ _ h => h.1) fun reached => ?_
  refine Holds.ite (fun _ => rules.promptLoop lineEntryAt fuel hsets) fun _ => ?_
  exact Holds.pure fun d h => h.1

end Discipline

theorem CommandInvariant.promptLoop {env : Env W} {I : Debugger W → Prop}
    {H : Halt → Debugger W → Prop} (inv : CommandInvariant env I H)
    (lineEntryAt : String → Nat → LineEntry) (fuel : Nat) (lines : List String)
    (history : Option String) :
    Holds I (promptLoop env.info lineEntryAt (Command.exec env fuel) history lines)
      (fun _ => I) H :=
  fun d hd => inv.discipline.promptLoop lineEntryAt fuel (fun _ _ _ _ _ _ _ => trivial) d ⟨hd, rfl⟩

end Spray
