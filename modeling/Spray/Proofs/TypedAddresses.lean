/-
Addresses that are printed, and addresses that are typed in.

`break` and `delete` take an address to be one in the binary, `print` and `set` take it to be
one in the running process, and the message for a breakpoint prints one of the latter kind.
-/
import Spray.Proofs.Backtrace
import Spray.Proofs.CommandGrammar

namespace Spray

open Numeral

variable {W : Type} {info : DebugInfo} {lineEntryAt : String → Nat → LineEntry}

/-! ### What a typed address should mean -/

/-- The address in the message that a breakpoint was hit (`ADDR_FORMAT`). -/
def hitAddressText (addr : RealAddr) : String := printFormat addr.value .ADDR

def Message.hitAddress : Message → Option String
  | .hitBreakpoint addr _ => some (hitAddressText addr)
  | _ => none

/-- A text that is a number, and not one that could be a name. -/
def TypedAddress (str : String) : Prop :=
  isValidIdentifier str = false ∧ ∃ n, Denotes 16 str.toList n

/-- The tracee stands still on the address, and its place in the source is known. -/
structure StandsOn (env : Env W) (d : Debugger W) (addr : RealAddr) (filepath : String) :
    Prop where
  still : ∃ still read rs, StandsStill env.pt still read (some rs) ∧ still d.tracee ∧
    (⟨rs .rip⟩ : RealAddr) = addr
  source : ∃ sym, symByAddr (realToDbg d.loadAddress addr) env.info = some sym ∧
    symFilepath sym env.info = some filepath ∧ (symPosition sym env.info).isSome = true

/-- The message for the breakpoint is printed where the tracee stands on it.  Typed behind
`delete` or `break`, the text in the message acts on the breakpoint. -/
structure IdentifiesBreakpoint (info : DebugInfo) (lineEntryAt : String → Nat → LineEntry)
    (d : Debugger W) (addr : RealAddr) : Prop where
  reports : ∀ (env : Env W) filepath, env.info = info → StandsOn env d addr filepath →
    lookupBreakpoint d.breakpoints addr = true →
      ∃ d' msg, printCurrentSource env d = .ok () d' ∧ d.output ++ [msg] <+: d'.output ∧
        msg.hitAddress = some (hitAddressText addr)
  deletes : Runs info lineEntryAt d ["delete", hitAddressText addr] (.delete addr)
  breaks : Runs info lineEntryAt d ["break", hitAddressText addr] (.break_ addr)

/-- The commands that take an address all take the text for the same one. -/
structure MeansAddress (info : DebugInfo) (lineEntryAt : String → Nat → LineEntry)
    (d : Debugger W) (str : String) (addr : RealAddr) : Prop where
  breaks : Runs info lineEntryAt d ["break", str] (.break_ addr)
  deletes : Runs info lineEntryAt d ["delete", str] (.delete addr)
  prints : ∀ tokens filter, FilterSyntax tokens filter →
    Runs info lineEntryAt d ("print" :: str :: tokens) (.printMemory addr filter)
  sets : ∀ valueStr value tokens filter shown, FilterSyntax tokens filter →
    parseSetValue valueStr filter = some (value, shown) →
    Runs info lineEntryAt d ("set" :: str :: valueStr :: tokens) (.setMemory addr value shown)

/-- Breakpoints are identified by their reports, and typed addresses have one meaning. -/
structure AddressesAgree (info : DebugInfo) (lineEntryAt : String → Nat → LineEntry)
    (d : Debugger W) : Prop where
  reported : ∀ addr, lookupBreakpoint d.breakpoints addr = true →
    IdentifiesBreakpoint info lineEntryAt d addr
  typed : ∀ str, TypedAddress str → ∃ addr, MeansAddress info lineEntryAt d str addr

/-! ### What it means to each command -/

/-- Only one command is run. -/
theorem Runs.unique {d : Debugger W} {tokens : List String} {command command' : Command}
    (h : Runs info lineEntryAt d tokens command) (h' : Runs info lineEntryAt d tokens command') :
    command = command' := by
  obtain ⟨msgs, hruns⟩ := h
  obtain ⟨msgs', hruns'⟩ := h'
  by_contra hne
  -- The first command fails here and the second does not.
  let run : Command → DbgM W Unit := fun c => if c = command then throw .aborted else pure ()
  have hfails : run command = throw .aborted := if_pos rfl
  have hpasses : run command' = pure () := if_neg fun heq => hne heq.symm
  have herror := (hruns run).trans (congrFun hfails (d.printed msgs))
  have hok := (hruns' run).trans (congrFun hpasses (d.printed msgs'))
  exact nomatch herror.symm.trans hok

variable {str : String} {n : Int}

theorem runs_break (hident : isValidIdentifier str = false) (hn : Denotes 16 str.toList n)
    (d : Debugger W) : Runs info lineEntryAt d ["break", str]
      (.break_ (dbgToReal d.loadAddress ⟨clamped n⟩)) :=
  (CommandSyntax.break_ (.inr rfl) (parseBreakLocation_numeral hident hn)).runs

theorem runs_delete (hident : isValidIdentifier str = false) (hn : Denotes 16 str.toList n)
    (d : Debugger W) : Runs info lineEntryAt d ["delete", str]
      (.delete (dbgToReal d.loadAddress ⟨clamped n⟩)) :=
  (CommandSyntax.delete (.inr rfl) (parseBreakLocation_numeral hident hn)).runs

theorem placeSyntax_memory (hident : isValidIdentifier str = false)
    (hn : Denotes 16 str.toList n) : PlaceSyntax str (.memory ⟨clamped n⟩) :=
  .memory hident (parseNum_denotes (by decide) hn)

/-- One meaning is possible only where addresses in the binary are the real ones. -/
theorem meansAddress_iff (hident : isValidIdentifier str = false) (hn : Denotes 16 str.toList n)
    (d : Debugger W) :
    (∃ addr, MeansAddress info lineEntryAt d str addr) ↔ d.loadAddress.value = 0 := by
  constructor
  · rintro ⟨addr, h⟩
    have hbreak := h.breaks.unique (runs_break hident hn d)
    have hprint : Runs info lineEntryAt d ["print", str]
        (.printMemory ⟨clamped n⟩ .NONE) :=
      (CommandSyntax.print (.inr rfl) (placeSyntax_memory hident hn) .none).runs
    have hmemory := (h.prints [] .NONE .none).unique hprint
    rw [Command.break_.injEq] at hbreak
    rw [Command.printMemory.injEq] at hmemory
    have hsame : clamped n = clamped n + d.loadAddress.value :=
      congrArg RealAddr.value (hmemory.1.symm.trans hbreak)
    bv_omega
  · intro hzero
    have hreal : dbgToReal d.loadAddress ⟨clamped n⟩ = ⟨clamped n⟩ := by
      unfold dbgToReal
      rw [hzero]
      exact congrArg RealAddr.mk (BitVec.add_zero _)
    refine ⟨⟨clamped n⟩, ?_, ?_, ?_, ?_⟩
    · rw [← hreal]
      exact runs_break hident hn d
    · rw [← hreal]
      exact runs_delete hident hn d
    · intro tokens filter hfilter
      exact (CommandSyntax.print (.inr rfl) (placeSyntax_memory hident hn) hfilter).runs
    · intro valueStr value tokens filter shown hfilter hvalue
      exact (CommandSyntax.set (.inr rfl) (placeSyntax_memory hident hn) hfilter hvalue).runs

/-! ### Reports -/

theorem getPc_still {env : Env W} {still : W → Prop} {read : Word → Option Word} {rs : Regs}
    (hstill : StandsStill env.pt still read (some rs)) {d : Debugger W} (hd : still d.tracee) :
    ∃ w, still w ∧ getPc env d = .ok ⟨rs .rip⟩ { d with tracee := w } := by
  obtain ⟨w, hw, hrip⟩ := request_getRegisterValue hstill .rip hd
  refine ⟨w, hw, ?_⟩
  unfold getPc
  rw [Triple.bind_run hrip]
  rfl

/-- A breakpoint that is enabled is reported with its address. -/
theorem printCurrentSource_reports {env : Env W} {d : Debugger W} {addr : RealAddr}
    {filepath : String} (hon : StandsOn env d addr filepath)
    (hbreak : lookupBreakpoint d.breakpoints addr = true) :
    ∃ d' : Debugger W, printCurrentSource env d = .ok () d' ∧
      d.output ++ [.hitBreakpoint addr filepath] <+: d'.output := by
  obtain ⟨⟨still, read, rs, hstill, hd, rfl⟩, sym, hsym, hfile, hpos⟩ := hon
  obtain ⟨pos, hpos⟩ := Option.isSome_iff_exists.mp hpos
  obtain ⟨w₁, hw₁, hpc₁⟩ := getPc_still hstill hd
  obtain ⟨w₂, hw₂, hpc₂⟩ := getPc_still hstill (d := { d with tracee := w₁ }) hw₁
  obtain ⟨w₃, -, hpc₃⟩ := getPc_still hstill (d := { d with tracee := w₂ }) hw₂
  have hdbg : getDbgPc env d =
      .ok (realToDbg d.loadAddress ⟨rs .rip⟩) { d with tracee := w₁ } := by
    unfold getDbgPc
    rw [Triple.bind_run hpc₁]
    rfl
  have huser : isUserBreakpoint env { d with tracee := w₁ } = .ok true { d with tracee := w₂ } := by
    unfold isUserBreakpoint
    rw [Triple.bind_run hpc₂]
    exact congrArg (EStateM.Result.ok · _) hbreak
  unfold printCurrentSource
  rw [Triple.bind_run hdbg, hsym, Option.bind_some, Option.bind_some, hpos, hfile]
  dsimp only
  rw [Triple.bind_run huser, if_pos rfl]
  rw [Triple.bind_run hpc₃, Triple.bind_run (say_run _ _)]
  cases env.printSource filepath pos.line 3 with
  | ok => exact ⟨_, rfl, List.prefix_append _ _⟩
  | err => exact ⟨_, rfl, List.prefix_append _ _⟩

/-! ### What the reported address leads to -/

theorem hitAddressText_denotes (addr : RealAddr) :
    Denotes 16 (hitAddressText addr).toList addr.value.toNat := by
  unfold hitAddressText printFormat
  rw [String.toList_ofList]
  exact hex_denotes 16 addr.value.toNat

theorem hitAddressText_not_identifier (addr : RealAddr) :
    isValidIdentifier (hitAddressText addr) = false := by
  unfold hitAddressText printFormat isValidIdentifier hex
  rw [String.toList_ofList]
  rfl

/-- The text leads to the breakpoint if what `strtol` makes of it does. -/
theorem identifiesBreakpoint_iff_clamped (d : Debugger W) (addr : RealAddr) :
    IdentifiesBreakpoint info lineEntryAt d addr ↔
      clamped addr.value.toNat + d.loadAddress.value = addr.value := by
  have hident := hitAddressText_not_identifier addr
  have hn := hitAddressText_denotes addr
  constructor
  · intro h
    have hdelete := h.deletes.unique (runs_delete hident hn d)
    rw [Command.delete.injEq] at hdelete
    exact congrArg RealAddr.value hdelete.symm
  · intro h
    have hreal : dbgToReal d.loadAddress ⟨clamped addr.value.toNat⟩ = addr :=
      congrArg RealAddr.mk h
    have hdelete : Runs info lineEntryAt d ["delete", hitAddressText addr] _ :=
      runs_delete hident hn d
    have hbreak : Runs info lineEntryAt d ["break", hitAddressText addr] _ :=
      runs_break hident hn d
    rw [hreal] at hdelete hbreak
    refine ⟨fun env filepath _ hon henabled => ?_, hdelete, hbreak⟩
    obtain ⟨d', hrun, hsaid⟩ := printCurrentSource_reports hon henabled
    exact ⟨d', _, hrun, hsaid, rfl⟩

theorem identifiesBreakpoint_iff (d : Debugger W) (addr : RealAddr) :
    IdentifiesBreakpoint info lineEntryAt d addr ↔
      addr.value.toNat < 2 ^ 63 ∧ d.loadAddress.value = 0 ∨
      2 ^ 63 ≤ addr.value.toNat ∧ d.loadAddress.value = addr.value - 0x7fffffffffffffff := by
  rw [identifiesBreakpoint_iff_clamped]
  by_cases hlt : addr.value.toNat < 2 ^ 63
  · have hclamped : clamped addr.value.toNat = addr.value :=
      BitVec.toNat_inj.mp ((clamped_toNat_iff addr.value.toNat).mpr hlt)
    rw [hclamped]
    constructor
    · intro h
      exact .inl ⟨hlt, by bv_omega⟩
    · rintro (⟨-, hzero⟩ | ⟨hge, -⟩)
      · rw [hzero]
        exact BitVec.add_zero _
      · omega
  · have hclamped : clamped addr.value.toNat = 0x7fffffffffffffff := by
      unfold clamped LONG_MIN LONG_MAX
      rw [show max (-2 ^ 63 : Int) (min (addr.value.toNat : Int) (2 ^ 63 - 1)) =
        2 ^ 63 - 1 by omega]
      rfl
    rw [hclamped]
    constructor
    · intro h
      exact .inr ⟨by omega, by bv_omega⟩
    · rintro (⟨hlt', -⟩ | ⟨-, h⟩)
      · exact absurd hlt' hlt
      · bv_omega

/-- **A reported address identifies its breakpoint, and a typed one means the same everywhere,
exactly if the tracee is loaded at address 0 and `strtol` can read the breakpoint's address.** -/
theorem addressesAgree_iff (info : DebugInfo) (lineEntryAt : String → Nat → LineEntry)
    (d : Debugger W) :
    (AddressesAgree info lineEntryAt d ↔ d.loadAddress.value = 0 ∧
      ∀ addr, lookupBreakpoint d.breakpoints addr = true → addr.value.toNat < 2 ^ 63) ∧
    (∀ addr, IdentifiesBreakpoint info lineEntryAt d addr ↔
      addr.value.toNat < 2 ^ 63 ∧ d.loadAddress.value = 0 ∨
      2 ^ 63 ≤ addr.value.toNat ∧ d.loadAddress.value = addr.value - 0x7fffffffffffffff) ∧
    ∀ str, TypedAddress str →
      ((∃ addr, MeansAddress info lineEntryAt d str addr) ↔ d.loadAddress.value = 0) := by
  have htyped : ∀ str, TypedAddress str →
      ((∃ addr, MeansAddress info lineEntryAt d str addr) ↔ d.loadAddress.value = 0) :=
    fun str ⟨hident, n, hn⟩ => meansAddress_iff hident hn d
  refine ⟨⟨fun h => ?_, fun ⟨hzero, hrange⟩ => ?_⟩, identifiesBreakpoint_iff d, htyped⟩
  · have hzero : d.loadAddress.value = 0 :=
      (htyped _ ⟨hitAddressText_not_identifier ⟨0⟩, _, hitAddressText_denotes ⟨0⟩⟩).mp
        (h.typed _ ⟨hitAddressText_not_identifier ⟨0⟩, _, hitAddressText_denotes ⟨0⟩⟩)
    refine ⟨hzero, fun addr hbreak => ?_⟩
    rcases (identifiesBreakpoint_iff d addr).mp (h.reported addr hbreak) with ⟨hlt, -⟩ | ⟨hge, hoff⟩
    · exact hlt
    · rw [hzero] at hoff
      bv_omega
  · refine ⟨fun addr hbreak => ?_, fun str hstr => (htyped str hstr).mpr hzero⟩
    exact (identifiesBreakpoint_iff d addr).mpr (.inl ⟨hrange addr hbreak, hzero⟩)

/-- Nothing is known of the program, which is loaded where position independent ones are and
has a breakpoint. -/
def relocatedDebugger : Debugger Unit where
  breakpoints := hashmapSet initBreakpoints ⟨⟨0x555555555139⟩, true, 0x55⟩
  tracee := ()
  loadAddress := ⟨0x555555554000⟩
  output := []

theorem addressesAgree_fails_pie :
    ¬ AddressesAgree (strippedEnv (stillPtrace (fun _ => none) none)).info (fun _ _ => {})
      relocatedDebugger := by
  intro h
  have hbreak : lookupBreakpoint relocatedDebugger.breakpoints ⟨0x555555555139⟩ = true := by
    decide
  rcases (identifiesBreakpoint_iff relocatedDebugger _).mp (h.reported _ hbreak) with
    ⟨-, hzero⟩ | ⟨hge, -⟩
  · exact absurd hzero (by decide)
  · exact absurd hge (by decide)

end Spray
