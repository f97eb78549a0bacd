/-
What is set is what is printed.

A value that was set is found where the next `print` looks for it, and nowhere else.  Variables are
looked up anew each time, in the registers that there are then: that they are where they were is
what has to be shown of them.
-/
import Spray.Proofs.CommandGrammar
import Spray.Proofs.Editing

namespace Spray

open Triple

variable {W : Type} {env : Env W} {mapped : Word → Bool} {l : Lookups} {c : Contents} {fuel : Nat}

/-! ### Places -/

namespace Place

/-- The filter that is used if this one is typed. -/
def filtered (filter : PrintFilter) : Place → PrintFilter
  | variable_ _ => filter
  | _ => defaultFilter filter .BYTES

/-- Where it is, and what is said of it when it is printed. -/
def resolve (mapped : Word → Bool) (l : Lookups) (info : DebugInfo) (loadAddress : RealAddr)
    (c : Contents) : Place → Option (SdLocation × PrintValueInfo)
  | register reg => some (.reg reg, .regRead reg)
  | variable_ varName =>
    (c.lookUp mapped l info loadAddress varName).map fun var => (var.loc, .varRead var)
  | memory addr => some (.addr addr, .memRead)

/-- There is a word to set there.  Which variables there are depends on the program counter: none
of them may be in it (it has no number in DWARF). -/
structure Settable (mapped : Word → Bool) (l : Lookups) (info : DebugInfo)
    (loadAddress : RealAddr) (c : Contents) (place : Place) (loc : SdLocation)
    (said : PrintValueInfo) : Prop where
  found : place.resolve mapped l info loadAddress c = some (loc, said)
  has : Contents.has mapped loc = true
  stays : ∀ varName, place = .variable_ varName → loc ≠ .reg .rip

theorem written_edits (value : Word) (filter : PrintFilter) (place : Place) :
    (place.written value filter).Edits := by
  cases place with
  | register reg => exact .setRegister reg value filter
  | variable_ varName => exact .setVariable varName value filter
  | memory addr => exact .setMemory addr value filter

theorem printed_looks (filter : PrintFilter) (place : Place) :
    (place.printed filter).Looks := by
  cases place with
  | register reg => exact .printRegister reg filter
  | variable_ varName => exact .printVariable varName filter
  | memory addr => exact .printMemory addr filter

theorem written_ne_backtrace (value : Word) (filter : PrintFilter) (place : Place) :
    place.written value filter ≠ .backtrace := by
  cases place <;> exact nofun

theorem printed_ne_backtrace (filter : PrintFilter) (place : Place) :
    place.printed filter ≠ .backtrace := by
  cases place <;> exact nofun

end Place

section Places

variable {loadAddress : RealAddr} {info : DebugInfo} {varName : String} {word : Word}

theorem regs_poke (c : Contents) (addr word : Word) : (c.poke mapped addr word).regs = c.regs := by
  unfold Contents.poke
  split <;> rfl

/-- Memory is not read to find a variable. -/
theorem lookUp_poke (c : Contents) (addr word : Word) :
    (c.poke mapped addr word).lookUp mapped l info loadAddress varName =
      c.lookUp mapped l info loadAddress varName := by
  have same : SameRegisters (fun x y : Contents => x.regs = y.regs) (Contents.ptrace mapped)
      (Contents.ptrace mapped) := fun _ _ h => ⟨congrArg some h, h⟩
  unfold Contents.lookUp
  rw [regs_poke]
  have hsame : SameEnd _
      (l.initVar ⟨Contents.ptrace mapped, realToDbg loadAddress ⟨c.regs .rip⟩, info.elf,
        loadAddress⟩ varName (c.poke mapped addr word))
      (l.initVar ⟨Contents.ptrace mapped, realToDbg loadAddress ⟨c.regs .rip⟩, info.elf,
        loadAddress⟩ varName c) :=
    Lookups.initVar_same same varName (regs_poke c addr word)
  exact hsame.joined

/-- Neither is a register that a variable is in. -/
theorem lookUp_register {var : RuntimeVariable} {reg : X86Reg}
    (h : c.lookUp mapped l info loadAddress varName = some var) (hloc : var.loc = .reg reg)
    (hpc : reg ≠ .rip) (word : Word) :
    (c.write mapped word (.reg reg)).lookUp mapped l info loadAddress varName = some var := by
  have hrip : (c.write mapped word (.reg reg)).regs .rip = c.regs .rip := by
    show Function.update c.regs reg word .rip = c.regs .rip
    exact Function.update_of_ne hpc.symm ..
  have alike : RegistersAlike (fun _ _ => True) (fun _ _ : Contents => True)
      (Contents.ptrace mapped) (Contents.ptrace mapped) :=
    fun _ _ _ => ⟨.some fun _ => trivial, trivial⟩
  unfold Contents.lookUp at h ⊢
  rw [hrip]
  have hfound : Option.Rel _
      (l.initVar ⟨Contents.ptrace mapped, realToDbg loadAddress ⟨c.regs .rip⟩, info.elf,
        loadAddress⟩ varName c)
      (l.initVar ⟨Contents.ptrace mapped, realToDbg loadAddress ⟨c.regs .rip⟩, info.elf,
        loadAddress⟩ varName (c.write mapped word (.reg reg))) :=
    Lookups.initVar_alike ⟨fun _ => trivial, fun _ _ _ _ => trivial⟩ alike varName trivial
  generalize l.initVar _ varName c = found at h hfound
  generalize l.initVar _ varName (c.write mapped word (.reg reg)) = found' at hfound ⊢
  cases hfound with
  | none => exact h
  | @some x y hvar =>
      obtain ⟨found, c₁⟩ := x
      obtain ⟨found', c₂⟩ := y
      obtain rfl : found = some var := h
      obtain ⟨hvar, -⟩ := hvar
      cases hvar with
      | some hvar => exact congrArg some (hvar.eq_of_reg hloc)

/-- A variable is still where it was after it was set. -/
theorem lookUp_write {var : RuntimeVariable}
    (h : c.lookUp mapped l info loadAddress varName = some var) (hpc : var.loc ≠ .reg .rip)
    (word : Word) :
    (c.write mapped word var.loc).lookUp mapped l info loadAddress varName = some var := by
  cases hloc : var.loc with
  | addr addr => exact (lookUp_poke c addr.value word).trans h
  | reg reg => exact lookUp_register h hloc (fun hreg => hpc (hreg ▸ hloc)) word

variable {place : Place} {loc : SdLocation} {said : PrintValueInfo}

namespace Place.Settable

variable (h : place.Settable mapped l info loadAddress c loc said)

include h

theorem edit_written (word : Word) (filter : PrintFilter) :
    (place.written word filter).edit mapped l info loadAddress c = c.write mapped word loc := by
  obtain ⟨hfound, -, -⟩ := h
  cases place with
  | register reg => cases hfound; rfl
  | variable_ varName =>
      obtain ⟨var, hvar, hsaid⟩ := Option.map_eq_some_iff.mp hfound
      cases hsaid
      unfold Place.written Command.edit
      dsimp only
      rw [hvar]
  | memory addr => cases hfound; rfl

theorem write (word : Word) :
    place.Settable mapped l info loadAddress (c.write mapped word loc) loc said := by
  obtain ⟨hfound, hhas, hstays⟩ := h
  refine ⟨?_, hhas, hstays⟩
  cases place with
  | register reg => exact hfound
  | variable_ varName =>
      obtain ⟨var, hvar, hsaid⟩ := Option.map_eq_some_iff.mp hfound
      cases hsaid
      exact Option.map_eq_some_iff.mpr ⟨var, lookUp_write hvar (hstays varName rfl) word, rfl⟩
  | memory addr => exact hfound

end Place.Settable

/-- No byte is in both. -/
def SdLocation.Apart : SdLocation → SdLocation → Prop
  | .addr a, .addr b => 8 ≤ (b.value - a.value).toNat ∧ 8 ≤ (a.value - b.value).toNat
  | .reg r, .reg r' => r ≠ r'
  | _, _ => True

theorem Contents.read_write_apart (c : Contents) (word : Word) {loc loc' : SdLocation}
    (h : loc.Apart loc') : (c.write mapped word loc).read mapped loc' = c.read mapped loc' := by
  cases loc with
  | addr a =>
      cases loc' with
      | addr b =>
          show (c.poke mapped a.value word).peek mapped b.value = c.peek mapped b.value
          unfold Contents.peek Contents.poke
          cases mapped a.value with
          | false => rfl
          | true =>
              have hword : Memory.readWord (Memory.writeWord (k := 8) c.mem a.value word)
                  b.value 8 = Memory.readWord c.mem b.value 8 :=
                Memory.readWord_writeWord_apart (k := 8) _ _ h.1 h.2
              rw [if_pos rfl, hword]
      | reg reg => exact congrArg some (congrFun (regs_poke c a.value word) reg)
  | reg reg =>
      cases loc' with
      | addr b => rfl
      | reg reg' =>
          have hne : reg ≠ reg' := h
          exact congrArg some (Function.update_of_ne hne.symm ..)

/-- What is written to `loc` does not change what is printed of the place.  Where a variable is may
depend on any register. -/
structure Place.Spared (mapped : Word → Bool) (l : Lookups) (info : DebugInfo)
    (loadAddress : RealAddr) (c : Contents) (place : Place) (loc loc' : SdLocation)
    (said : PrintValueInfo) : Prop where
  found : place.resolve mapped l info loadAddress c = some (loc', said)
  apart : loc.Apart loc'
  stays : ∀ varName, place = .variable_ varName → ∃ addr, loc = .addr addr

theorem Place.Spared.write {loc' : SdLocation}
    (h : place.Spared mapped l info loadAddress c loc loc' said) (word : Word) :
    place.resolve mapped l info loadAddress (c.write mapped word loc) = some (loc', said) := by
  obtain ⟨hfound, -, hstays⟩ := h
  cases place with
  | register reg => exact hfound
  | variable_ varName =>
      obtain ⟨addr, rfl⟩ := hstays varName rfl
      show (Contents.lookUp mapped l info loadAddress varName
        (c.poke mapped addr.value word)).map _ = _
      rw [lookUp_poke]
      exact hfound
  | memory addr => exact hfound

theorem edited_append (before after : List Reading) (c : Contents) :
    edited mapped l info loadAddress (before ++ after) c =
      edited mapped l info loadAddress after (edited mapped l info loadAddress before c) :=
  List.foldl_append

theorem edited_looks {readings : List Reading}
    (h : ∀ reading ∈ readings, ∀ command ∈ reading.command, command.Looks) :
    edited mapped l info loadAddress readings c = c := by
  induction readings with
  | nil => rfl
  | cons reading rest ih =>
      have hedit : reading.command.elim c (Command.edit mapped l info loadAddress c) = c := by
        cases hcommand : reading.command with
        | none => rfl
        | some command => exact edit_looks (h reading List.mem_cons_self command hcommand)
      show edited mapped l info loadAddress rest (reading.command.elim c _) = c
      rw [hedit]
      exact ih fun other hother => h other (List.mem_cons_of_mem _ hother)

/-- What was set is there as long as nothing else is set. -/
theorem edited_sets {before between : List Reading} {sets : Reading} {filter : PrintFilter}
    (h : place.Settable mapped l info loadAddress (edited mapped l info loadAddress before c) loc
      said)
    (hsets : sets.command = some (place.written word filter))
    (hbetween : ∀ reading ∈ between, ∀ command ∈ reading.command,
      command.Looks ∧ command ≠ .backtrace) :
    edited mapped l info loadAddress (before ++ sets :: between) c =
      (edited mapped l info loadAddress before c).write mapped word loc := by
  rw [edited_append]
  show edited mapped l info loadAddress between (sets.command.elim _ _) = _
  rw [hsets, edited_looks fun reading hmem command hcommand =>
    (hbetween reading hmem command hcommand).1]
  exact h.edit_written word filter

end Places

/-! ### What is shown -/

section Shown

variable {loadAddress : RealAddr} {place : Place} {loc : SdLocation} {said : PrintValueInfo}
  {word : Word} {filter : PrintFilter} {H : Halt → Debugger Contents → Prop}

/-- This was said last. -/
def SaidLast (msg : Message) (d : Debugger W) : Prop :=
  ∃ front, d.output = front ++ [msg]

theorem printFiltered_saidLast (hfilter : filter ≠ .DEREF) (value : Word) (info : PrintValueInfo) :
    Holds (Holding c loadAddress)
      (printFiltered (env.on l (Contents.ptrace mapped)) value filter info)
      (fun _ => SaidLast (.value value filter info)) H := by
  cases filter with
  | DEREF => exact absurd rfl hfilter
  | _ => exact fun d _ => ⟨d.output, rfl⟩

/-- What is there is printed. -/
theorem printed_saidLast (h : place.resolve mapped l env.info loadAddress c = some (loc, said))
    (hread : c.read mapped loc = some word) (hfilter : place.filtered filter ≠ .DEREF) :
    Holds (Holding c loadAddress)
      ((place.printed filter).exec (env.on l (Contents.ptrace mapped)) fuel)
      (fun _ => SaidLast (.value word (place.filtered filter) said)) H := by
  cases place with
  | register reg =>
      cases h
      refine (getRegister_holding reg).bind fun read => Holds.assume fun hword => ?_
      rw [hword.trans hread]
      exact printFiltered_saidLast hfilter word _
  | variable_ varName =>
      obtain ⟨var, hvar, hsaid⟩ := Option.map_eq_some_iff.mp h
      cases hsaid
      refine (initVar_holding varName).bind fun found => Holds.assume fun hfound => ?_
      rw [hfound.trans hvar]
      refine (readLocation_holding var.loc).bind fun read => Holds.assume fun hword => ?_
      rw [hword.trans hread]
      exact printFiltered_saidLast hfilter word _
  | memory addr =>
      cases h
      refine (readMemory_holding addr).bind fun read => Holds.assume fun hword => ?_
      rw [hword.trans hread]
      exact printFiltered_saidLast hfilter word _

theorem reading_saidLast {reading : Reading}
    (hcommand : reading.command = some (place.printed filter))
    (h : place.resolve mapped l env.info loadAddress c = some (loc, said))
    (hread : c.read mapped loc = some word) (hfilter : place.filtered filter ≠ .DEREF) :
    Holds (Holding c loadAddress)
      (reading.exec (Command.exec (env.on l (Contents.ptrace mapped)) fuel))
      (fun _ => SaidLast (.value word (place.filtered filter) said)) H := by
  obtain ⟨msgs, command⟩ := reading
  obtain rfl : command = some (place.printed filter) := hcommand
  refine (Holds.forM (I := fun _ => Holding c loadAddress) (fun msg _ => say_holding msg)
    msgs).bind fun _ => ?_
  exact printed_saidLast h hread hfilter

end Shown

theorem ShowsAlike.saidLast {before d : Debugger W} {seen : Debugger Contents} {msg : Message}
    (h : ShowsAlike R before d seen) (hlast : SaidLast msg seen) : SaidLast msg d := by
  obtain ⟨front, hfront⟩ := hlast
  exact ⟨before.output ++ front, by rw [h.output, hfront, List.append_assoc]⟩

/-! ### At the prompt -/

variable {R : W → Contents → Prop} {lineEntryAt : String → Nat → LineEntry}
  {history : Option String} {lines : List String} {d : Debugger W}

theorem command_of_singleton {reading : Reading} {command : Command} {P : Command → Prop}
    (hcommand : reading.command = some command) (h : P command) :
    ∀ other ∈ [reading], ∀ command ∈ other.command, P command := by
  intro other hmem command hother
  obtain rfl := List.mem_singleton.mp hmem
  obtain rfl := Option.some.inj (hcommand.symm.trans hother)
  exact h

/-- Lines that edit return, as long as none of them is a backtrace. -/
theorem readings_return (hserves : Serves mapped R env.pt) (hlookup : env.LooksUp l)
    {readings : List Reading}
    (hedits : ∀ reading ∈ readings, ∀ command ∈ reading.command,
      command.Edits ∧ command ≠ .backtrace) (hd : R d.tracee c) :
    ∃ (d' : Debugger W) (seen : Debugger Contents),
      readings.forM (Reading.exec (Command.exec env fuel)) d = .ok () d' ∧
      readings.forM (Reading.exec (Command.exec (env.on l (Contents.ptrace mapped)) fuel))
        (.atContents c d.loadAddress) = .ok () seen ∧
      ShowsAlike R d d' seen ∧
      seen.tracee = edited mapped l env.info d.loadAddress readings c := by
  obtain ⟨d', seen, halt, n, hleft, hright, h, htracee, hread⟩ :=
    readings_alike hserves hlookup
      (fun reading hmem command hcommand => (hedits reading hmem command hcommand).1) hd
  obtain ⟨rfl, htake⟩ := hread.returns fun reading hmem hcommand =>
    (hedits reading hmem _ hcommand).2 rfl
  rw [htake] at htracee
  exact ⟨d', seen, hleft, hright, h, htracee⟩

/-- What is there after the lines in front is printed by the last one. -/
theorem readings_print (hserves : Serves mapped R env.pt) (hlookup : env.LooksUp l)
    {front : List Reading} {prints : Reading} {place : Place} {word : Word} {filter : PrintFilter}
    {loc : SdLocation} {said : PrintValueInfo}
    (hfront : ∀ reading ∈ front, ∀ command ∈ reading.command,
      command.Edits ∧ command ≠ .backtrace)
    (hprints : prints.command = some (place.printed filter)) (hd : R d.tracee c)
    (hplace : place.resolve mapped l env.info d.loadAddress
      (edited mapped l env.info d.loadAddress front c) = some (loc, said))
    (hword : (edited mapped l env.info d.loadAddress front c).read mapped loc = some word)
    (hfilter : place.filtered filter ≠ .DEREF) :
    ∃ d', (front ++ [prints]).forM (Reading.exec (Command.exec env fuel)) d = .ok () d' ∧
      SaidLast (.value word (place.filtered filter) said) d' := by
  have hlast : ∀ reading ∈ [prints], ∀ command ∈ reading.command,
      command.Edits ∧ command ≠ .backtrace :=
    command_of_singleton hprints
      ⟨.looks (place.printed_looks filter), place.printed_ne_backtrace filter⟩
  obtain ⟨d₁, seen₁, hrun₁, -, h₁, htracee⟩ := readings_return hserves hlookup hfront hd
  obtain ⟨d₂, seen₂, hrun₂, hseen₂, h₂, -⟩ := readings_return hserves hlookup hlast h₁.tracee
  have hends : Holds (Holding seen₁.tracee d₁.loadAddress)
      ([prints].forM (Reading.exec (Command.exec (env.on l (Contents.ptrace mapped)) fuel)))
      (fun _ => SaidLast (.value word (place.filtered filter) said)) (fun _ _ => True) := by
    rw [htracee, h₁.loadAddress_left]
    exact (reading_saidLast hprints hplace hword hfilter).bind fun _ => Holds.pure fun _ h => h
  have hshown := hends (.atContents seen₁.tracee d₁.loadAddress) ⟨rfl, rfl⟩
  rw [hseen₂] at hshown
  have hsplit : (front ++ [prints]).forM (Reading.exec (Command.exec env fuel)) d =
      (front.forM (Reading.exec (Command.exec env fuel)) >>= fun _ =>
        [prints].forM (Reading.exec (Command.exec env fuel))) d := congrFun List.forM_append d
  refine ⟨d₂, ?_, h₂.saidLast hshown⟩
  rw [hsplit, bind_run hrun₁, hrun₂]

/-- Something is set, and around it there is nothing that may not return. -/
theorem edits_around {before between : List Reading} {sets : Reading} {place : Place} {word : Word}
    {filter : PrintFilter}
    (hbefore : ∀ reading ∈ before, ∀ command ∈ reading.command,
      command.Edits ∧ command ≠ .backtrace)
    (hsets : sets.command = some (place.written word filter))
    (hbetween : ∀ reading ∈ between, ∀ command ∈ reading.command,
      command.Looks ∧ command ≠ .backtrace) :
    ∀ reading ∈ before ++ sets :: between, ∀ command ∈ reading.command,
      command.Edits ∧ command ≠ .backtrace := by
  intro reading hmem command hcommand
  rcases List.mem_append.mp hmem with hmem | hmem
  · exact hbefore reading hmem command hcommand
  rcases List.mem_cons.mp hmem with rfl | hmem
  · obtain rfl := Option.some.inj (hsets.symm.trans hcommand)
    exact ⟨place.written_edits word filter, place.written_ne_backtrace word filter⟩
  · have hlooks := hbetween reading hmem command hcommand
    exact ⟨.looks hlooks.1, hlooks.2⟩

/-- The variable of the function. -/
def functionVariable : RuntimeVariable :=
  ⟨.addr ⟨0x7fffffffe008⟩, none, 0, [.baseType ⟨.INT, 4⟩]⟩

theorem countedLookups_finds (pt : Ptrace W) (elf : ElfFile) (w : W) :
    countedLookups.initVar ⟨pt, ⟨0x1004⟩, elf, ⟨0⟩⟩ "x" w = some (some functionVariable, w) := by
  have hfind : (sdRuntimeVariable countedLookups.offdie countedLookups.variableType ⟨0x1004⟩ "x"
      countedLookups.dbg).1 =
        some ⟨⟨⟨2, .location, .ok .EXPRLOC⟩, [.baseType ⟨.INT, 4⟩]⟩, none, 0⟩ := by
    have hdbg : countedLookups.dbg = .ofTrees shadowing [] := rfl
    rw [hdbg, sdRuntimeVariable_eq]
    decide
  unfold Lookups.initVar initVarWithin
  rw [hfind]
  rfl

def settingLines : List String := ["t 2000 5", "t x 7", "p %rax", "p x"]

theorem settingLines_read : readLines editedEnv.info (fun _ _ => {}) ⟨0⟩ none settingLines =
    [⟨[], some (.setMemory ⟨0x2000⟩ 5 .DEC)⟩] ++ ⟨[], some (.setVariable "x" 7 .DEC)⟩ ::
      [⟨[], some (.printRegister .rax .NONE)⟩] ++ [⟨[], some (.printVariable "x" .NONE)⟩] := by
  decide +kernel

theorem lookUp_x (hpc : c.regs .rip = 0x1004) :
    c.lookUp pageMapped countedLookups editedEnv.info ⟨0⟩ "x" = some functionVariable := by
  have hdbg : realToDbg ⟨0⟩ ⟨0x1004⟩ = ⟨0x1004⟩ := by decide
  unfold Contents.lookUp
  rw [hpc, hdbg, countedLookups_finds]
  rfl

theorem settable_x : (Place.variable_ "x").Settable pageMapped countedLookups editedEnv.info ⟨0⟩
    (standing.poke pageMapped 0x2000 5) functionVariable.loc (.varRead functionVariable) :=
  ⟨Option.map_eq_some_iff.mpr ⟨_, lookUp_x (by decide), rfl⟩, by decide, fun _ _ => nofun⟩

/-- **What is set is what is printed.**  After anything was shown and set, set a word of memory, a
register or a variable: printed after any number of other prints, its value is the one that was
set. -/
theorem promptLoop_printsSet (hserves : Serves mapped R env.pt) (hlookup : env.LooksUp l)
    {before between : List Reading} {sets prints : Reading} {place : Place} {word : Word}
    {filter filter' : PrintFilter} {loc : SdLocation} {said : PrintValueInfo}
    (hlines : readLines env.info lineEntryAt d.loadAddress history lines =
      before ++ sets :: between ++ [prints])
    (hbefore : ∀ reading ∈ before, ∀ command ∈ reading.command,
      command.Edits ∧ command ≠ .backtrace)
    (hsets : sets.command = some (place.written word filter))
    (hbetween : ∀ reading ∈ between, ∀ command ∈ reading.command,
      command.Looks ∧ command ≠ .backtrace)
    (hprints : prints.command = some (place.printed filter')) (hd : R d.tracee c)
    (hplace : place.Settable mapped l env.info d.loadAddress
      (edited mapped l env.info d.loadAddress before c) loc said)
    (hfilter : place.filtered filter' ≠ .DEREF) :
    ∃ d', promptLoop env.info lineEntryAt (Command.exec env fuel) history lines d = .ok () d' ∧
      SaidLast (.value word (place.filtered filter') said) d' := by
  have hedited := edited_sets hplace hsets hbetween
  have hfound := (hplace.write word).found
  have hword := Contents.read_write (edited mapped l env.info d.loadAddress before c) word
    hplace.has
  rw [← hedited] at hfound hword
  rw [promptLoop_eq_readings, hlines]
  exact readings_print hserves hlookup (edits_around hbefore hsets hbetween) hprints hd hfound
    hword hfilter

theorem promptLoop_printsSet_counted :
    ∃ d', promptLoop editedEnv.info (fun _ _ => {}) (Command.exec editedEnv 9) none settingLines
        ⟨⟨initBreakpoints, standing, 0⟩, ⟨0⟩, []⟩ = .ok () d' ∧
      SaidLast (.value 7 .NONE (.varRead functionVariable)) d' := by
  have hsets : (⟨[], some (.setVariable "x" 7 .DEC)⟩ : Reading).command =
      some ((Place.variable_ "x").written 7 .DEC) := rfl
  have hprints : (⟨[], some (.printVariable "x" .NONE)⟩ : Reading).command =
      some ((Place.variable_ "x").printed .NONE) := rfl
  exact promptLoop_printsSet (countedContents_serves pageMapped) editedEnv_looksUp
    settingLines_read (command_of_singleton rfl ⟨.setMemory ⟨0x2000⟩ 5 .DEC, nofun⟩) hsets
    (command_of_singleton rfl ⟨.printRegister .rax .NONE, nofun⟩) hprints rfl settable_x nofun

def sparingLines : List String := ["t %rbx 3", "t 2000 5", "p %rax", "p x"]

theorem sparingLines_read : readLines editedEnv.info (fun _ _ => {}) ⟨0⟩ none sparingLines =
    [⟨[], some (.setRegister .rbx 3 .DEC)⟩] ++ ⟨[], some (.setMemory ⟨0x2000⟩ 5 .DEC)⟩ ::
      [⟨[], some (.printRegister .rax .NONE)⟩] ++ [⟨[], some (.printVariable "x" .NONE)⟩] := by
  decide +kernel

theorem spared_x : (Place.variable_ "x").Spared pageMapped countedLookups editedEnv.info ⟨0⟩
    (standing.write pageMapped 3 (.reg .rbx)) (.addr ⟨0x2000⟩) functionVariable.loc
    (.varRead functionVariable) :=
  ⟨Option.map_eq_some_iff.mpr ⟨_, lookUp_x (by decide), rfl⟩, ⟨by decide, by decide⟩,
    fun _ _ => ⟨_, rfl⟩⟩

/-- **Nothing else is set.**  Printed after something else was set, a place has the value that it
had before. -/
theorem promptLoop_keepsOther (hserves : Serves mapped R env.pt) (hlookup : env.LooksUp l)
    {before between : List Reading} {sets prints : Reading} {place other : Place}
    {word held : Word} {filter filter' : PrintFilter} {loc loc' : SdLocation}
    {said said' : PrintValueInfo}
    (hlines : readLines env.info lineEntryAt d.loadAddress history lines =
      before ++ sets :: between ++ [prints])
    (hbefore : ∀ reading ∈ before, ∀ command ∈ reading.command,
      command.Edits ∧ command ≠ .backtrace)
    (hsets : sets.command = some (place.written word filter))
    (hbetween : ∀ reading ∈ between, ∀ command ∈ reading.command,
      command.Looks ∧ command ≠ .backtrace)
    (hprints : prints.command = some (other.printed filter')) (hd : R d.tracee c)
    (hplace : place.Settable mapped l env.info d.loadAddress
      (edited mapped l env.info d.loadAddress before c) loc said)
    (hother : other.Spared mapped l env.info d.loadAddress
      (edited mapped l env.info d.loadAddress before c) loc loc' said')
    (hheld : (edited mapped l env.info d.loadAddress before c).read mapped loc' = some held)
    (hfilter : other.filtered filter' ≠ .DEREF) :
    ∃ d', promptLoop env.info lineEntryAt (Command.exec env fuel) history lines d = .ok () d' ∧
      SaidLast (.value held (other.filtered filter') said') d' := by
  have hedited := edited_sets hplace hsets hbetween
  have hfound := hother.write word
  have hword := (Contents.read_write_apart _ word hother.apart).trans hheld
  rw [← hedited] at hfound hword
  rw [promptLoop_eq_readings, hlines]
  exact readings_print hserves hlookup (edits_around hbefore hsets hbetween) hprints hd hfound
    hword hfilter

theorem promptLoop_keepsOther_counted :
    ∃ d', promptLoop editedEnv.info (fun _ _ => {}) (Command.exec editedEnv 9) none sparingLines
        ⟨⟨initBreakpoints, standing, 0⟩, ⟨0⟩, []⟩ = .ok () d' ∧
      SaidLast (.value 0 .NONE (.varRead functionVariable)) d' := by
  have hsets : (⟨[], some (.setMemory ⟨0x2000⟩ 5 .DEC)⟩ : Reading).command =
      some ((Place.memory ⟨0x2000⟩).written 5 .DEC) := rfl
  have hprints : (⟨[], some (.printVariable "x" .NONE)⟩ : Reading).command =
      some ((Place.variable_ "x").printed .NONE) := rfl
  exact promptLoop_keepsOther (countedContents_serves pageMapped) editedEnv_looksUp
    sparingLines_read (command_of_singleton rfl ⟨.setRegister .rbx 3 .DEC, nofun⟩) hsets
    (command_of_singleton rfl ⟨.printRegister .rax .NONE, nofun⟩) hprints rfl
    ⟨rfl, by decide, fun _ => nofun⟩ spared_x (by decide) nofun

end Spray
