/-
What the prompt accepts.

The grammar of the commands is stated apart from the parser.  What is proved of the parser
holds for whatever its commands are made to do, so it is known to do nothing but run one of
them, once, or none.
-/
import Spray.Lib.Triple
import Spray.Proofs.Locations
import Spray.Prompt

namespace Spray

/-! ### The grammar -/

inductive CommandName
  | continue_ | break_ | delete | print | set | inst | leave | step | next | backtrace
  deriving DecidableEq

/-- The short and the long form of a command. -/
def CommandName.Form (cmd : String) : CommandName → Prop
  | continue_ => cmd = "c" ∨ cmd = "continue"
  | break_ => cmd = "b" ∨ cmd = "break"
  | delete => cmd = "d" ∨ cmd = "delete"
  | print => cmd = "p" ∨ cmd = "print"
  | set => cmd = "t" ∨ cmd = "set"
  | inst => cmd = "i" ∨ cmd = "inst"
  | leave => cmd = "l" ∨ cmd = "leave"
  | step => cmd = "s" ∨ cmd = "step"
  | next => cmd = "n" ∨ cmd = "next"
  | backtrace => cmd = "a" ∨ cmd = "backtrace"

/-- The commands that stand alone. -/
def CommandName.alone : CommandName → Option Command
  | continue_ => some .continue_
  | inst => some .inst
  | leave => some .leave
  | step => some .step
  | next => some .next
  | backtrace => some .backtrace
  | _ => none

/-- What `print` and `set` can be used on. -/
inductive Place
  | register (reg : X86Reg)
  | variable_ (varName : String)
  | memory (addr : RealAddr)

inductive PlaceSyntax : String → Place → Prop
  | register {loc name reg} (hloc : loc.toList = '%' :: name)
      (hreg : getRegisterFromName (String.ofList name) = some reg) : PlaceSyntax loc (.register reg)
  | variable_ {loc} (hident : isValidIdentifier loc = true) : PlaceSyntax loc (.variable_ loc)
  | memory {loc addr} (hident : isValidIdentifier loc = false)
      (hparse : parseBase16 loc = some addr) : PlaceSyntax loc (.memory ⟨addr⟩)

def Place.printed (filter : PrintFilter) : Place → Command
  | register reg => .printRegister reg filter
  | variable_ varName => .printVariable varName filter
  | memory addr => .printMemory addr filter

def Place.written (value : Word) (filter : PrintFilter) : Place → Command
  | register reg => .setRegister reg value filter
  | variable_ varName => .setVariable varName value filter
  | memory addr => .setMemory addr value filter

/-- Nothing, or a bar and a filter. -/
inductive FilterSyntax : List String → PrintFilter → Prop
  | none : FilterSyntax [] .NONE
  | some {str filter} (hparse : parseFilter (some str) = filter) (hvalid : filter ≠ .NONE) :
      FilterSyntax ["|", str] filter

/-- The commands, given where the tracee is loaded. -/
inductive CommandSyntax (info : DebugInfo) (lineEntryAt : String → Nat → LineEntry)
    (loadAddress : RealAddr) : List String → Command → Prop
  | alone {name : CommandName} {cmd command} (hform : name.Form cmd)
      (halone : name.alone = some command) :
      CommandSyntax info lineEntryAt loadAddress [cmd] command
  | break_ {cmd loc addr} (hform : CommandName.break_.Form cmd)
      (hloc : parseBreakLocation info lineEntryAt loc = some addr) :
      CommandSyntax info lineEntryAt loadAddress [cmd, loc] (.break_ (dbgToReal loadAddress addr))
  | delete {cmd loc addr} (hform : CommandName.delete.Form cmd)
      (hloc : parseBreakLocation info lineEntryAt loc = some addr) :
      CommandSyntax info lineEntryAt loadAddress [cmd, loc] (.delete (dbgToReal loadAddress addr))
  | print {cmd loc place tokens filter} (hform : CommandName.print.Form cmd)
      (hloc : PlaceSyntax loc place) (hfilter : FilterSyntax tokens filter) :
      CommandSyntax info lineEntryAt loadAddress (cmd :: loc :: tokens) (place.printed filter)
  | set {cmd loc place valueStr value tokens filter shown} (hform : CommandName.set.Form cmd)
      (hloc : PlaceSyntax loc place) (hfilter : FilterSyntax tokens filter)
      (hvalue : parseSetValue valueStr filter = some (value, shown)) :
      CommandSyntax info lineEntryAt loadAddress (cmd :: loc :: valueStr :: tokens)
        (place.written value shown)

variable {W : Type} {info : DebugInfo} {lineEntryAt : String → Nat → LineEntry}

/-- The debugger with more messages printed. -/
def Debugger.printed (d : Debugger W) (msgs : List Message) : Debugger W :=
  { d with output := d.output ++ msgs }

/-- One command is run after some messages, and nothing else is done. -/
def Runs (info : DebugInfo) (lineEntryAt : String → Nat → LineEntry) (d : Debugger W)
    (tokens : List String) (command : Command) : Prop :=
  ∃ msgs, ∀ run : Command → DbgM W Unit,
    handleDebugCommandTokens info lineEntryAt run tokens d = run command (d.printed msgs)

/-- Messages are printed, and nothing else is done. -/
def RunsNothing (info : DebugInfo) (lineEntryAt : String → Nat → LineEntry) (d : Debugger W)
    (tokens : List String) : Prop :=
  ∃ msgs, ∀ run : Command → DbgM W Unit,
    handleDebugCommandTokens info lineEntryAt run tokens d = .ok () (d.printed msgs)

/-- What the grammar has for a list of tokens is run, and otherwise nothing. -/
structure FollowsGrammar (info : DebugInfo) (lineEntryAt : String → Nat → LineEntry)
    (d : Debugger W) (tokens : List String) : Prop where
  accepts : ∀ command, CommandSyntax info lineEntryAt d.loadAddress tokens command →
    Runs info lineEntryAt d tokens command
  rejects : (¬ ∃ command, CommandSyntax info lineEntryAt d.loadAddress tokens command) →
    RunsNothing info lineEntryAt d tokens

/-! ### The parts of a command -/

theorem optionalFilter_delim {tokens : List String} (h : parseFilter tokens.head? ≠ .NONE) :
    optionalFilter ("|" :: tokens) = .ok (parseFilter tokens.head?, tokens.tail) := by
  have hdelim : isFilterDelim "|" = true := rfl
  unfold optionalFilter
  dsimp only
  rw [if_pos hdelim]
  cases hfilter : parseFilter tokens.head? with
  | NONE => exact absurd hfilter h
  | _ => rfl

theorem filter_of_grammar {α : Type} {tokens : List String} {filter : PrintFilter}
    (h : FilterSyntax tokens filter) (k : PrintFilter → Except String α) :
    (do
      let (filter, tokens) ← optionalFilter tokens
      endOfTokens tokens
      k filter) = k filter := by
  cases h with
  | none => rfl
  | @some str _ hparse hvalid =>
      subst hparse
      have hread : optionalFilter ["|", str] = .ok (parseFilter (some str), []) :=
        optionalFilter_delim hvalid
      rw [hread]
      rfl

/-- Without a valid filter, or with more behind it, nothing comes after the error. -/
theorem filter_of_not {tokens : List String} (h : ¬ ∃ filter, FilterSyntax tokens filter) :
    ∃ msg, ∀ {α : Type} (k : PrintFilter → Except String α),
      (do
        let (filter, tokens) ← optionalFilter tokens
        endOfTokens tokens
        k filter) = .error msg := by
  cases tokens with
  | nil => exact absurd ⟨_, .none⟩ h
  | cons delim tokens =>
      by_cases hdelim : isFilterDelim delim = true
      · have hbar : delim = "|" := of_decide_eq_true hdelim
        subst hbar
        by_cases hfilter : parseFilter tokens.head? = .NONE
        · refine ⟨"Invalid filter", fun k => ?_⟩
          unfold optionalFilter
          dsimp only
          rw [if_pos hdelim, hfilter]
          rfl
        · refine ⟨"Trailing characters in command", fun k => ?_⟩
          rw [optionalFilter_delim hfilter]
          match tokens with
          | [] => exact absurd rfl hfilter
          | [str] => exact absurd ⟨_, .some rfl hfilter⟩ h
          | _ :: _ :: _ => rfl
      · refine ⟨"Trailing characters in command", fun k => ?_⟩
        unfold optionalFilter
        dsimp only
        rw [if_neg hdelim]
        rfl

theorem head?_ne_of_identifier {loc : String} (h : isValidIdentifier loc = true) :
    loc.toList.head? ≠ some '%' := by
  intro hhead
  exact absurd (isValidIdentifier_mem h (List.mem_of_head? hhead)) (by decide)

theorem head?_ne_of_parseBase16 {loc : String} {addr : Word} (h : parseBase16 loc = some addr) :
    loc.toList.head? ≠ some '%' := by
  intro hhead
  obtain ⟨n, hn, -⟩ := (parseNum_eq_some_iff (by decide)).mp h
  have hscan := (Numeral.scan_eq_some_iff (by decide)).mpr hn
  obtain ⟨rest, hrest⟩ := List.head?_eq_some_iff.mp hhead
  rw [hrest] at hscan
  cases hscan

/-! ### The commands one by one -/

/-- What is returned makes the debugger print some messages and run one command. -/
def Gives (parsed : (Command → DbgM W Unit) → Except String (DbgM W Unit)) (d : Debugger W)
    (command : Command) : Prop :=
  ∃ msgs, ∀ run, ∃ prog, parsed run = .ok prog ∧ prog d = run command (d.printed msgs)

/-- There is an error, whatever the commands do. -/
def Refuses (parsed : (Command → DbgM W Unit) → Except String (DbgM W Unit)) : Prop :=
  ∃ msg, ∀ run, parsed run = .error msg

theorem printed_nil (d : Debugger W) : d.printed [] = d := by
  unfold Debugger.printed
  rw [List.append_nil]

theorem printed_printed (d : Debugger W) (msgs msgs' : List Message) :
    (d.printed msgs).printed msgs' = d.printed (msgs ++ msgs') := by
  unfold Debugger.printed
  dsimp only
  rw [List.append_assoc]

theorem say_run (msg : Message) (d : Debugger W) : say msg d = .ok () (d.printed [msg]) := rfl

theorem warnRegisterNameConflict_run (ident : String) (d : Debugger W) :
    ∃ msgs, warnRegisterNameConflict ident d = .ok () (d.printed msgs) := by
  unfold warnRegisterNameConflict
  split
  · exact ⟨_, (Triple.bind_run (say_run _ d)).trans
      ((say_run _ _).trans (congrArg _ (printed_printed d _ _)))⟩
  · exact ⟨[], congrArg _ (printed_nil d).symm⟩

theorem gives_pure {parsed : (Command → DbgM W Unit) → Except String (DbgM W Unit)}
    {command : Command} (h : ∀ run, parsed run = .ok (run command)) (d : Debugger W) :
    Gives parsed d command :=
  ⟨[], fun run => ⟨run command, h run, by rw [printed_nil]⟩⟩

theorem breakpointCommand_gives {loc : String} {addr : DbgAddr}
    (hloc : parseBreakLocation info lineEntryAt loc = some addr) (name : String)
    (command : RealAddr → Command) (d : Debugger W) :
    Gives (fun run => breakpointCommand info lineEntryAt run name command [loc]) d
      (command (dbgToReal d.loadAddress addr)) := by
  refine ⟨[], fun run => ⟨do run (command (dbgToReal (← get).loadAddress addr)), ?_, ?_⟩⟩
  · dsimp only [breakpointCommand]
    rw [hloc]
    rfl
  · rw [printed_nil]
    rfl

theorem breakpointCommand_refuses {tokens : List String}
    (h : ¬ ∃ loc addr, tokens = [loc] ∧ parseBreakLocation info lineEntryAt loc = some addr)
    (name : String) (command : RealAddr → Command) :
    Refuses fun run : Command → DbgM W Unit =>
      breakpointCommand info lineEntryAt run name command tokens := by
  cases tokens with
  | nil => exact ⟨_, fun _ => rfl⟩
  | cons loc tokens =>
      cases hloc : parseBreakLocation info lineEntryAt loc with
      | none => exact ⟨_, fun _ => by dsimp only [breakpointCommand]; rw [hloc]; rfl⟩
      | some addr =>
          cases tokens with
          | nil => exact absurd ⟨loc, addr, rfl, hloc⟩ h
          | cons token tokens => exact ⟨_, fun _ => by dsimp only [breakpointCommand]; rw [hloc]; rfl⟩

theorem printLocation_gives {loc : String} {place : Place} (h : PlaceSyntax loc place)
    (filter : PrintFilter) (d : Debugger W) :
    Gives (fun run => printLocation run loc filter) d (place.printed filter) := by
  cases h with
  | register hloc hreg =>
      refine gives_pure (fun run => ?_) d
      unfold printLocation
      rw [hloc, if_pos List.head?_cons, List.tail_cons, hreg]
      rfl
  | variable_ hident =>
      obtain ⟨msgs, hwarn⟩ := warnRegisterNameConflict_run loc d
      refine ⟨msgs, fun run => ⟨do
        warnRegisterNameConflict loc
        run (.printVariable loc filter), ?_, Triple.bind_run hwarn⟩⟩
      show printLocation run loc filter = _
      unfold printLocation
      rw [if_neg (head?_ne_of_identifier hident), if_pos hident]
      rfl
  | memory hident hparse =>
      refine gives_pure (fun run => ?_) d
      unfold printLocation
      rw [if_neg (head?_ne_of_parseBase16 hparse), hident, if_neg Bool.false_ne_true, hparse]
      rfl

theorem setLocation_gives {loc : String} {place : Place} (h : PlaceSyntax loc place)
    (value : Word) (filter : PrintFilter) (d : Debugger W) :
    Gives (fun run => setLocation run loc value filter) d (place.written value filter) := by
  refine gives_pure (fun run => ?_) d
  unfold setLocation
  cases h with
  | register hloc hreg =>
      rw [hloc, if_pos List.head?_cons, List.tail_cons, hreg]
      rfl
  | variable_ hident =>
      rw [if_neg (head?_ne_of_identifier hident), if_pos hident]
      rfl
  | memory hident hparse =>
      rw [if_neg (head?_ne_of_parseBase16 hparse), hident, if_neg Bool.false_ne_true, hparse]
      rfl

/-- What is no place is a register without a name, or no number. -/
theorem not_place {loc : String} (h : ¬ ∃ place, PlaceSyntax loc place) :
    loc.toList.head? = some '%' ∧ getRegisterFromName (String.ofList loc.toList.tail) = none ∨
      loc.toList.head? ≠ some '%' ∧ isValidIdentifier loc = false ∧ parseBase16 loc = none := by
  by_cases hhead : loc.toList.head? = some '%'
  · obtain ⟨name, hname⟩ := List.head?_eq_some_iff.mp hhead
    refine .inl ⟨hhead, Option.eq_none_iff_forall_ne_some.mpr fun reg hreg => h ⟨.register reg, ?_⟩⟩
    rw [hname] at hreg
    exact .register hname hreg
  · have hident : isValidIdentifier loc = false :=
      Bool.eq_false_iff.mpr fun hident => h ⟨_, .variable_ hident⟩
    refine .inr ⟨hhead, hident, Option.eq_none_iff_forall_ne_some.mpr fun addr haddr => ?_⟩
    exact h ⟨_, .memory hident haddr⟩

theorem printLocation_refuses {loc : String} (h : ¬ ∃ place, PlaceSyntax loc place) :
    ∃ msg, ∀ (run : Command → DbgM W Unit) filter, printLocation run loc filter = .error msg := by
  rcases not_place h with ⟨hhead, hreg⟩ | ⟨hhead, hident, hparse⟩
  · refine ⟨"Invalid register name", fun run filter => ?_⟩
    unfold printLocation
    rw [if_pos hhead, hreg]
    rfl
  · refine ⟨"Invalid location to print the value of", fun run filter => ?_⟩
    unfold printLocation
    rw [if_neg hhead, hident, if_neg Bool.false_ne_true, hparse]
    rfl

theorem setLocation_refuses {loc : String} (h : ¬ ∃ place, PlaceSyntax loc place) :
    ∃ msg, ∀ (run : Command → DbgM W Unit) value filter,
      setLocation run loc value filter = .error msg := by
  rcases not_place h with ⟨hhead, hreg⟩ | ⟨hhead, hident, hparse⟩
  · refine ⟨"Invalid register name", fun run value filter => ?_⟩
    unfold setLocation
    rw [if_pos hhead, hreg]
    rfl
  · refine ⟨"Invalid location to set the value of", fun run value filter => ?_⟩
    unfold setLocation
    rw [if_neg hhead, hident, if_neg Bool.false_ne_true, hparse]
    rfl

theorem printCommand_gives {loc : String} {place : Place} {tokens : List String}
    {filter : PrintFilter} (hloc : PlaceSyntax loc place) (hfilter : FilterSyntax tokens filter)
    (d : Debugger W) :
    Gives (fun run => printCommand run (loc :: tokens)) d (place.printed filter) := by
  obtain ⟨msgs, hgives⟩ := printLocation_gives hloc filter d
  refine ⟨msgs, fun run => ?_⟩
  obtain ⟨prog, hprog, hrun⟩ := hgives run
  exact ⟨prog, (filter_of_grammar hfilter _).trans hprog, hrun⟩

theorem printCommand_refuses {tokens : List String}
    (h : ¬ ∃ loc place rest filter, tokens = loc :: rest ∧ PlaceSyntax loc place ∧
      FilterSyntax rest filter) :
    Refuses fun run : Command → DbgM W Unit => printCommand run tokens := by
  cases tokens with
  | nil => exact ⟨_, fun _ => rfl⟩
  | cons loc tokens =>
      by_cases hfilter : ∃ filter, FilterSyntax tokens filter
      · obtain ⟨filter, hfilter⟩ := hfilter
        have hplace : ¬ ∃ place, PlaceSyntax loc place :=
          fun ⟨place, hplace⟩ => h ⟨loc, place, tokens, filter, rfl, hplace, hfilter⟩
        obtain ⟨msg, hmsg⟩ := printLocation_refuses (W := W) hplace
        exact ⟨msg, fun run => (filter_of_grammar hfilter _).trans (hmsg run filter)⟩
      · obtain ⟨msg, hmsg⟩ := filter_of_not hfilter
        exact ⟨msg, fun run => hmsg _⟩

/-- What `set` goes on with behind its filter. -/
def setParsed (run : Command → DbgM W Unit) (loc valueStr : String) (filter : PrintFilter) :
    Except String (DbgM W Unit) :=
  match parseSetValue valueStr filter with
  | none => throw "Invalid value to set the location to"
  | some (value, filter) => setLocation run loc value filter

theorem setCommand_of_filter {tokens : List String} {filter : PrintFilter}
    (hfilter : FilterSyntax tokens filter) (run : Command → DbgM W Unit) (loc valueStr : String) :
    setCommand run (loc :: valueStr :: tokens) = setParsed run loc valueStr filter :=
  filter_of_grammar hfilter (setParsed run loc valueStr)

theorem setCommand_gives {loc valueStr : String} {place : Place} {tokens : List String}
    {value : Word} {filter shown : PrintFilter} (hloc : PlaceSyntax loc place)
    (hfilter : FilterSyntax tokens filter)
    (hvalue : parseSetValue valueStr filter = some (value, shown)) (d : Debugger W) :
    Gives (fun run => setCommand run (loc :: valueStr :: tokens)) d
      (place.written value shown) := by
  obtain ⟨msgs, hgives⟩ := setLocation_gives hloc value shown d
  refine ⟨msgs, fun run => ?_⟩
  obtain ⟨prog, hprog, hrun⟩ := hgives run
  refine ⟨prog, (setCommand_of_filter hfilter run loc valueStr).trans ?_, hrun⟩
  unfold setParsed
  rw [hvalue]
  exact hprog

theorem setCommand_refuses {tokens : List String}
    (h : ¬ ∃ loc place valueStr rest filter value shown, tokens = loc :: valueStr :: rest ∧
      PlaceSyntax loc place ∧ FilterSyntax rest filter ∧
      parseSetValue valueStr filter = some (value, shown)) :
    Refuses fun run : Command → DbgM W Unit => setCommand run tokens := by
  match tokens with
  | [] => exact ⟨_, fun _ => rfl⟩
  | [_] => exact ⟨_, fun _ => rfl⟩
  | loc :: valueStr :: tokens =>
      by_cases hfilter : ∃ filter, FilterSyntax tokens filter
      · obtain ⟨filter, hfilter⟩ := hfilter
        cases hvalue : parseSetValue valueStr filter with
        | none =>
            refine ⟨"Invalid value to set the location to", fun run =>
              (setCommand_of_filter hfilter run loc valueStr).trans ?_⟩
            unfold setParsed
            rw [hvalue]
            rfl
        | some parsed =>
            obtain ⟨value, shown⟩ := parsed
            have hplace : ¬ ∃ place, PlaceSyntax loc place := fun ⟨place, hplace⟩ =>
              h ⟨loc, place, valueStr, tokens, filter, value, shown, rfl, hplace, hfilter, hvalue⟩
            obtain ⟨msg, hmsg⟩ := setLocation_refuses (W := W) hplace
            refine ⟨msg, fun run => (setCommand_of_filter hfilter run loc valueStr).trans ?_⟩
            unfold setParsed
            rw [hvalue]
            exact hmsg run value shown
      · obtain ⟨msg, hmsg⟩ := filter_of_not hfilter
        exact ⟨msg, fun run => hmsg (setParsed run loc valueStr)⟩

/-! ### Which command it is -/

/-- The part of the parser that is in charge of a command. -/
def CommandName.parse (info : DebugInfo) (lineEntryAt : String → Nat → LineEntry)
    (run : Command → DbgM W Unit) (tokens : List String) :
    CommandName → Except String (DbgM W Unit)
  | continue_ => plainCommand run .continue_ tokens
  | break_ => breakpointCommand info lineEntryAt run "break" .break_ tokens
  | delete => breakpointCommand info lineEntryAt run "delete" .delete tokens
  | print => printCommand run tokens
  | set => setCommand run tokens
  | inst => plainCommand run .inst tokens
  | leave => plainCommand run .leave tokens
  | step => plainCommand run .step tokens
  | next => plainCommand run .next tokens
  | backtrace => return run .backtrace

theorem debugCommand_of_form {name : CommandName} {cmd : String} (h : name.Form cmd)
    (tokens : List String) (run : Command → DbgM W Unit) :
    debugCommand info lineEntryAt run (cmd :: tokens) =
      name.parse info lineEntryAt run tokens := by
  cases name <;> rcases h with rfl | rfl <;> simp [debugCommand, isCommand, CommandName.parse]

theorem debugCommand_unknown {cmd : String} (h : ∀ name : CommandName, ¬ name.Form cmd)
    (tokens : List String) (run : Command → DbgM W Unit) :
    debugCommand info lineEntryAt run (cmd :: tokens) = .error "Unknown command" := by
  have hno : ∀ (name : CommandName) (shortForm : Char) (longForm : String),
      (cmd = String.ofList [shortForm] ∨ cmd = longForm → name.Form cmd) →
      ¬ isCommand cmd shortForm longForm = true := by
    intro name shortForm longForm hform hcmd
    refine h name (hform ?_)
    rcases (Bool.or_eq_true _ _).mp hcmd with hshort | hlong
    · exact .inl (String.toList_inj.mp (by rw [of_decide_eq_true hshort, String.toList_ofList]))
    · exact .inr (of_decide_eq_true hlong)
  unfold debugCommand
  dsimp only
  rw [if_neg (hno .continue_ 'c' "continue" id), if_neg (hno .break_ 'b' "break" id),
    if_neg (hno .delete 'd' "delete" id), if_neg (hno .print 'p' "print" id),
    if_neg (hno .set 't' "set" id), if_neg (hno .inst 'i' "inst" id),
    if_neg (hno .leave 'l' "leave" id), if_neg (hno .step 's' "step" id),
    if_neg (hno .next 'n' "next" id), if_neg (hno .backtrace 'a' "backtrace" id)]
  rfl

/-! ### The whole parser -/

theorem Gives.runs {d : Debugger W} {tokens : List String} {command : Command}
    (h : Gives (fun run => debugCommand info lineEntryAt run tokens) d command) :
    Runs info lineEntryAt d tokens command := by
  obtain ⟨msgs, hgives⟩ := h
  refine ⟨msgs, fun run => ?_⟩
  obtain ⟨prog, hprog, hrun⟩ := hgives run
  unfold handleDebugCommandTokens
  dsimp only at hprog
  rw [hprog]
  exact hrun

theorem Refuses.runsNothing {tokens : List String}
    (h : Refuses fun run : Command → DbgM W Unit => debugCommand info lineEntryAt run tokens)
    (d : Debugger W) : RunsNothing info lineEntryAt d tokens := by
  obtain ⟨msg, hrefuses⟩ := h
  refine ⟨[.replErr msg], fun run => ?_⟩
  unfold handleDebugCommandTokens
  rw [show debugCommand info lineEntryAt run tokens = .error msg from hrefuses run]
  rfl

/-- Tokens behind `backtrace`. -/
def TrailsBacktrace (tokens : List String) : Prop :=
  ∃ cmd token rest, tokens = cmd :: token :: rest ∧ CommandName.backtrace.Form cmd

theorem CommandName.parse_alone {name : CommandName} {command : Command}
    (h : name.alone = some command) (d : Debugger W) :
    Gives (fun run => name.parse info lineEntryAt run []) d command := by
  cases name with
  | break_ => cases h
  | delete => cases h
  | print => cases h
  | set => cases h
  | _ =>
      cases h
      exact gives_pure (fun _ => rfl) d

theorem CommandSyntax.runs {d : Debugger W} {tokens : List String} {command : Command}
    (h : CommandSyntax info lineEntryAt d.loadAddress tokens command) :
    Runs info lineEntryAt d tokens command := by
  refine Gives.runs ?_
  cases h with
  | alone hform halone =>
      simp only [debugCommand_of_form hform]
      exact CommandName.parse_alone halone d
  | break_ hform hloc =>
      simp only [debugCommand_of_form hform]
      exact breakpointCommand_gives hloc _ _ d
  | delete hform hloc =>
      simp only [debugCommand_of_form hform]
      exact breakpointCommand_gives hloc _ _ d
  | print hform hloc hfilter =>
      simp only [debugCommand_of_form hform]
      exact printCommand_gives hloc hfilter d
  | set hform hloc hfilter hvalue =>
      simp only [debugCommand_of_form hform]
      exact setCommand_gives hloc hfilter hvalue d

theorem plainCommand_refuses {tokens : List String} (h : tokens ≠ []) (command : Command) :
    Refuses fun run : Command → DbgM W Unit => plainCommand run command tokens := by
  cases tokens with
  | nil => exact absurd rfl h
  | cons token tokens => exact ⟨_, fun _ => rfl⟩

/-- Where there is nothing in the grammar, there is an error. -/
theorem debugCommand_refuses {loadAddress : RealAddr} {tokens : List String}
    (hback : ¬ TrailsBacktrace tokens)
    (h : ¬ ∃ command, CommandSyntax info lineEntryAt loadAddress tokens command) :
    Refuses fun run : Command → DbgM W Unit => debugCommand info lineEntryAt run tokens := by
  cases tokens with
  | nil => exact ⟨_, fun _ => rfl⟩
  | cons cmd tokens =>
      by_cases hname : ∃ name : CommandName, name.Form cmd
      · obtain ⟨name, hform⟩ := hname
        simp only [debugCommand_of_form hform]
        have hmore : ∀ command, name.alone = some command → tokens ≠ [] := by
          rintro command halone rfl
          exact h ⟨command, .alone hform halone⟩
        cases name with
        | break_ =>
            refine breakpointCommand_refuses ?_ _ _
            rintro ⟨loc, addr, rfl, hloc⟩
            exact h ⟨_, .break_ hform hloc⟩
        | delete =>
            refine breakpointCommand_refuses ?_ _ _
            rintro ⟨loc, addr, rfl, hloc⟩
            exact h ⟨_, .delete hform hloc⟩
        | print =>
            refine printCommand_refuses ?_
            rintro ⟨loc, place, rest, filter, rfl, hloc, hfilter⟩
            exact h ⟨_, .print hform hloc hfilter⟩
        | set =>
            refine setCommand_refuses ?_
            rintro ⟨loc, place, valueStr, rest, filter, value, shown, rfl, hloc, hfilter, hvalue⟩
            exact h ⟨_, .set hform hloc hfilter hvalue⟩
        | backtrace =>
            cases tokens with
            | nil => exact absurd rfl (hmore _ rfl)
            | cons token tokens => exact absurd ⟨cmd, token, tokens, rfl, hform⟩ hback
        | _ => exact plainCommand_refuses (hmore _ rfl) _
      · exact ⟨_, fun run => debugCommand_unknown (not_exists.mp hname) tokens run⟩

/-- `backtrace` is alone in the grammar. -/
theorem TrailsBacktrace.not_grammatical {tokens : List String} (h : TrailsBacktrace tokens)
    (loadAddress : RealAddr) :
    ¬ ∃ command, CommandSyntax info lineEntryAt loadAddress tokens command := by
  obtain ⟨cmd, token, rest, rfl, hform⟩ := h
  rintro ⟨command, hsyntax⟩
  rcases hform with rfl | rfl
  · cases hsyntax with
    | break_ hform => exact absurd hform (by simp [CommandName.Form])
    | delete hform => exact absurd hform (by simp [CommandName.Form])
    | print hform => exact absurd hform (by simp [CommandName.Form])
    | set hform => exact absurd hform (by simp [CommandName.Form])
  · cases hsyntax with
    | break_ hform => exact absurd hform (by simp [CommandName.Form])
    | delete hform => exact absurd hform (by simp [CommandName.Form])
    | print hform => exact absurd hform (by simp [CommandName.Form])
    | set hform => exact absurd hform (by simp [CommandName.Form])

theorem TrailsBacktrace.not_runsNothing {tokens : List String} (h : TrailsBacktrace tokens)
    (d : Debugger W) : ¬ RunsNothing info lineEntryAt d tokens := by
  obtain ⟨cmd, token, rest, rfl, hform⟩ := h
  rintro ⟨msgs, hnothing⟩
  have hthrow := hnothing fun _ => throw .aborted
  unfold handleDebugCommandTokens at hthrow
  rw [debugCommand_of_form hform] at hthrow
  cases hthrow

/-- **The parser follows the grammar exactly where no tokens trail `backtrace`.** -/
theorem followsGrammar_iff (info : DebugInfo) (lineEntryAt : String → Nat → LineEntry)
    (d : Debugger W) (tokens : List String) :
    FollowsGrammar info lineEntryAt d tokens ↔ ¬ TrailsBacktrace tokens := by
  constructor
  · intro h htrails
    exact htrails.not_runsNothing d (h.rejects (htrails.not_grammatical d.loadAddress))
  · intro hback
    exact ⟨fun _ hsyntax => hsyntax.runs, fun hnot =>
      (debugCommand_refuses hback hnot).runsNothing d⟩

theorem followsGrammar_fails_backtrace :
    ¬ FollowsGrammar (strippedEnv (stillPtrace (fun _ => none) none)).info (fun _ _ => {})
      (⟨⟨initBreakpoints, ()⟩, ⟨0⟩, []⟩ : Debugger Unit) ["backtrace", "now"] := by
  intro h
  have htrails : TrailsBacktrace ["backtrace", "now"] := ⟨_, _, _, rfl, .inr rfl⟩
  exact htrails.not_runsNothing _ (h.rejects (htrails.not_grammatical _))

end Spray
