/-
What the parser of ELF files looks at, and what it makes of it.

The numbers in the file say where everything is, and the parser believes them.  So there are
three cases: it looks at a byte that the file does not have, it accepts the file, or it gives up
with an error code.  Each of them is put in terms of what is stored in the file.
-/
import Spray.ElfParse
import Spray.Lib.Triple
import Mathlib.Tactic.IntervalCases

namespace Spray

open Bytes (HoldsString strEq)

variable {file : FileContent}

/-! ### Fields -/

/-- No byte of the field is missing. -/
def FileContent.Has (file : FileContent) (base : Word) (f : Field) : Prop :=
  Bytes.Inside file.byteAt (base + BitVec.ofNat 64 f.off) f.size

/-- The value of a field that the file has. -/
def FileContent.value (file : FileContent) (base : Word) (f : Field) : Nat :=
  (file.field base f).getD 0

theorem isSome_field_iff {base : Word} {f : Field} :
    (file.field base f).isSome ↔ file.Has base f :=
  Bytes.isSome_readLE_iff

theorem field_of_has {base : Word} {f : Field} (h : file.Has base f) :
    file.field base f = some (file.value base f) := by
  obtain ⟨v, hv⟩ := Option.isSome_iff_exists.mp (isSome_field_iff.mpr h)
  rw [FileContent.value, hv]
  rfl

theorem field_of_not_has {base : Word} {f : Field} (h : ¬ file.Has base f) :
    file.field base f = none :=
  Option.not_isSome_iff_eq_none.mp (mt isSome_field_iff.mp h)

theorem map_field_eq_some_true_iff {base : Word} {f : Field} {p : Nat → Bool} :
    (file.field base f).map p = some true ↔
      file.Has base f ∧ p (file.value base f) = true := by
  by_cases h : file.Has base f
  · simp [field_of_has h, h]
  · simp [field_of_not_has h, h]

theorem isSome_byteAt_iff {off : Word} :
    (file.byteAt off).isSome ↔ off.toNat < file.bytes.length := by
  unfold FileContent.byteAt
  simp

/-! ### The header -/

def HeaderCheck.Passes (file : FileContent) (check : HeaderCheck) : Prop :=
  file.Has 0 check.field ∧ check.accepts (file.value 0 check.field) = true

/-- The file has the fields that are checked, up to the first that is rejected. -/
def ChecksInside (file : FileContent) : List HeaderCheck → Prop
  | [] => True
  | check :: checks =>
      file.Has 0 check.field ∧ (check.Passes file → ChecksInside file checks)

def HeaderAccepted (file : FileContent) : Prop := ∀ check ∈ headerChecks, check.Passes file

structure HeaderInside (file : FileContent) : Prop where
  checks : ChecksInside file headerChecks
  counts : HeaderAccepted file →
    file.Has 0 Ehdr.ePhnum ∧ file.Has 0 Ehdr.eShnum ∧ file.Has 0 Ehdr.eShstrndx

/-- What the checks store. -/
def storeChecked (file : FileContent) (checks : List HeaderCheck) (elf : ElfStore) : ElfStore :=
  checks.foldl (fun elf check => check.store (file.value 0 check.field) elf) elf

theorem run_of_not_has {check : HeaderCheck} (h : ¬ file.Has 0 check.field) (elf : ElfStore) :
    check.run file elf = .error .outside elf := by
  unfold HeaderCheck.run
  rw [field_of_not_has h]
  rfl

theorem run_of_passes {check : HeaderCheck} (h : check.Passes file) (elf : ElfStore) :
    check.run file elf = .ok () (check.store (file.value 0 check.field) elf) := by
  unfold HeaderCheck.run
  rw [field_of_has h.1]
  show (if check.accepts (file.value 0 check.field) then _ else _ : Parse Unit) elf = _
  rw [if_pos h.2]
  rfl

theorem run_of_rejected {check : HeaderCheck} (hhas : file.Has 0 check.field)
    (h : ¬ check.Passes file) (elf : ElfStore) :
    check.run file elf = .error (.gaveUp check.error) elf := by
  unfold HeaderCheck.run
  rw [field_of_has hhas]
  show (if check.accepts (file.value 0 check.field) then _ else _ : Parse Unit) elf = _
  rw [if_neg fun haccepts => h ⟨hhas, haccepts⟩]
  rfl

theorem runChecks_cons (check : HeaderCheck) (checks : List HeaderCheck) :
    (check :: checks).forM (·.run file) =
      (check.run file >>= fun _ => checks.forM (·.run file)) := rfl

theorem runChecks_of_passes {checks : List HeaderCheck}
    (h : ∀ check ∈ checks, check.Passes file) (elf : ElfStore) :
    checks.forM (·.run file) elf = .ok () (storeChecked file checks elf) := by
  induction checks generalizing elf with
  | nil => rfl
  | cons check checks ih =>
      rw [runChecks_cons, Triple.bind_run (run_of_passes (h check List.mem_cons_self) elf)]
      exact ih (fun c hc => h c (List.mem_cons_of_mem check hc)) _

theorem runChecks_of_rejected {checks : List HeaderCheck} (hin : ChecksInside file checks)
    (h : ¬ ∀ check ∈ checks, check.Passes file) (elf : ElfStore) :
    ∃ check ∈ checks, ∃ elf', checks.forM (·.run file) elf = .error (.gaveUp check.error) elf' := by
  induction checks generalizing elf with
  | nil => exact absurd (fun _ hc => nomatch hc) h
  | cons check checks ih =>
      by_cases hpass : check.Passes file
      · have hrest : ¬ ∀ c ∈ checks, c.Passes file := fun hall =>
          h (List.forall_mem_cons.mpr ⟨hpass, hall⟩)
        obtain ⟨c, hc, elf', hrun⟩ := ih (hin.2 hpass) hrest
          (check.store (file.value 0 check.field) elf)
        refine ⟨c, List.mem_cons_of_mem check hc, elf', ?_⟩
        rw [runChecks_cons, Triple.bind_run (run_of_passes hpass elf)]
        exact hrun
      · refine ⟨check, List.mem_cons_self, elf, ?_⟩
        rw [runChecks_cons]
        exact Triple.bind_error (run_of_rejected hin.1 hpass elf)

theorem runChecks_of_missing {checks : List HeaderCheck} (h : ¬ ChecksInside file checks)
    (elf : ElfStore) : ∃ elf', checks.forM (·.run file) elf = .error .outside elf' := by
  induction checks generalizing elf with
  | nil => exact absurd trivial h
  | cons check checks ih =>
      by_cases hhas : file.Has 0 check.field
      · have hpass : check.Passes file := by
          by_contra hpass
          exact h ⟨hhas, fun hp => absurd hp hpass⟩
        obtain ⟨elf', hrun⟩ := ih (fun hin => h ⟨hhas, fun _ => hin⟩)
          (check.store (file.value 0 check.field) elf)
        refine ⟨elf', ?_⟩
        rw [runChecks_cons, Triple.bind_run (run_of_passes hpass elf)]
        exact hrun
      · refine ⟨elf, ?_⟩
        rw [runChecks_cons]
        exact Triple.bind_error (run_of_not_has hhas elf)

/-- Where the section header table is. -/
def tableOffset (file : FileContent) : Word := BitVec.ofNat 64 (file.value 0 Ehdr.eShoff)

/-- What the header says about the tables. -/
def headerInfo (file : FileContent) : TableInfo where
  progTableOff := BitVec.ofNat 64 (file.value 0 Ehdr.ePhoff)
  sectTableOff := tableOffset file
  nProgHdrs := if file.value 0 Ehdr.ePhnum = 0xffff then 0xffff else file.value 0 Ehdr.ePhnum
  nSectHdrs := if file.value 0 Ehdr.eShnum = 0 then 0xffff else file.value 0 Ehdr.eShnum
  shstrtabIdx :=
    if file.value 0 Ehdr.eShstrndx = 0xffff then 0xffff else file.value 0 Ehdr.eShstrndx

theorem access_of_has {base : Word} {f : Field} (h : file.Has base f) (elf : ElfStore) :
    access (file.field base f) elf = .ok (file.value base f) elf := by
  rw [field_of_has h]
  rfl

theorem HeaderAccepted.has (h : HeaderAccepted file) :
    file.Has 0 Ehdr.ePhoff ∧ file.Has 0 Ehdr.eShoff :=
  ⟨(h (require Ehdr.ePhoff (· ≠ 0) .DISLIKE) (by simp [headerChecks])).1,
    (h (require Ehdr.eShoff (· ≠ 0) .DISLIKE) (by simp [headerChecks])).1⟩

theorem parseElfHeader_of_accepted (hin : HeaderInside file) (h : HeaderAccepted file)
    (elf : ElfStore) :
    parseElfHeader file elf = .ok (headerInfo file) (storeChecked file headerChecks elf) := by
  obtain ⟨hphnum, hshnum, hshstrndx⟩ := hin.counts h
  obtain ⟨hphoff, hshoff⟩ := h.has
  unfold parseElfHeader
  rw [Triple.bind_run (runChecks_of_passes h elf), Triple.bind_run (access_of_has hphoff _),
    Triple.bind_run (access_of_has hshoff _), Triple.bind_run (access_of_has hphnum _),
    Triple.bind_run (access_of_has hshnum _), Triple.bind_run (access_of_has hshstrndx _)]
  rfl

/-- The results that the checks give up with. -/
theorem error_of_mem_headerChecks {check : HeaderCheck} (h : check ∈ headerChecks) :
    check.error = .INVALID ∨ check.error = .DISLIKE := by
  have hall : ∀ check ∈ headerChecks, check.error = .INVALID ∨ check.error = .DISLIKE := by
    simp [headerChecks, require]
  exact hall check h

theorem parseElfHeader_of_rejected (hin : HeaderInside file) (h : ¬ HeaderAccepted file)
    (elf : ElfStore) : ∃ res elf', parseElfHeader file elf = .error (.gaveUp res) elf' ∧
      (res = .INVALID ∨ res = .DISLIKE) := by
  obtain ⟨check, hmem, elf', hrun⟩ := runChecks_of_rejected hin.checks h elf
  exact ⟨check.error, elf', Triple.bind_error hrun, error_of_mem_headerChecks hmem⟩

theorem access_of_not_has {base : Word} {f : Field} (h : ¬ file.Has base f) (elf : ElfStore) :
    access (file.field base f) elf = .error .outside elf := by
  rw [field_of_not_has h]
  rfl

theorem parseElfHeader_of_missing (h : ¬ HeaderInside file) (elf : ElfStore) :
    ∃ elf', parseElfHeader file elf = .error .outside elf' := by
  by_cases hchecks : ChecksInside file headerChecks
  · have hacc : HeaderAccepted file := by
      by_contra hacc
      exact h ⟨hchecks, fun h => absurd h hacc⟩
    obtain ⟨hphoff, hshoff⟩ := hacc.has
    refine ⟨storeChecked file headerChecks elf, ?_⟩
    unfold parseElfHeader
    rw [Triple.bind_run (runChecks_of_passes hacc elf), Triple.bind_run (access_of_has hphoff _),
      Triple.bind_run (access_of_has hshoff _)]
    by_cases hphnum : file.Has 0 Ehdr.ePhnum
    · rw [Triple.bind_run (access_of_has hphnum _)]
      by_cases hshnum : file.Has 0 Ehdr.eShnum
      · rw [Triple.bind_run (access_of_has hshnum _)]
        have hshstrndx : ¬ file.Has 0 Ehdr.eShstrndx := fun hshstrndx =>
          h ⟨hchecks, fun _ => ⟨hphnum, hshnum, hshstrndx⟩⟩
        exact Triple.bind_error (access_of_not_has hshstrndx _)
      · exact Triple.bind_error (access_of_not_has hshnum _)
    · exact Triple.bind_error (access_of_not_has hphnum _)
  · obtain ⟨elf', hrun⟩ := runChecks_of_missing hchecks elf
    exact ⟨elf', Triple.bind_error hrun⟩

/-! ### The initial section header -/

/-- How many program headers there are: what the header says, or the initial section header if
they are too many. -/
def progCount (file : FileContent) : Nat :=
  if file.value 0 Ehdr.ePhnum = 0xffff then file.value (tableOffset file) Shdr.shInfo
  else file.value 0 Ehdr.ePhnum

def sectionCount (file : FileContent) : Nat :=
  if file.value 0 Ehdr.eShnum = 0 ∨ file.value 0 Ehdr.eShnum = 0xffff then
    file.value (tableOffset file) Shdr.shSize % 2 ^ 32
  else file.value 0 Ehdr.eShnum

/-- The index of the section that holds the names of the sections. -/
def namesIndex (file : FileContent) : Nat :=
  if file.value 0 Ehdr.eShstrndx = 0xffff then file.value (tableOffset file) Shdr.shLink
  else file.value 0 Ehdr.eShstrndx

/-- The numbers that are looked up in the initial section header are there. -/
structure InitInside (file : FileContent) : Prop where
  progs : file.value 0 Ehdr.ePhnum = 0xffff → file.Has (tableOffset file) Shdr.shInfo
  sections : file.value 0 Ehdr.eShnum = 0 ∨ file.value 0 Ehdr.eShnum = 0xffff →
    file.Has (tableOffset file) Shdr.shSize
  names : file.value 0 Ehdr.eShstrndx = 0xffff → file.Has (tableOffset file) Shdr.shLink

def fullInfo (file : FileContent) : TableInfo :=
  { headerInfo file with
    nProgHdrs := progCount file
    nSectHdrs := sectionCount file
    shstrtabIdx := namesIndex file }

theorem fillIn_eq_some {n v : Nat} {actual : Option Nat}
    (hactual : n = checkSectionHeader → actual = some v) (hkept : n ≠ checkSectionHeader → n = v) :
    fillIn n actual = some v := by
  unfold fillIn
  by_cases hn : n = checkSectionHeader
  · rw [if_pos hn, hactual hn]
  · rw [if_neg hn, hkept hn]

theorem isSome_of_fillIn {n : Nat} {actual : Option Nat} (h : (fillIn n actual).isSome)
    (hn : n = checkSectionHeader) : actual.isSome := by
  unfold fillIn at h
  rwa [if_pos hn] at h

theorem nProgHdrs_eq_iff :
    (headerInfo file).nProgHdrs = checkSectionHeader ↔ file.value 0 Ehdr.ePhnum = 0xffff := by
  unfold headerInfo checkSectionHeader
  dsimp only
  split
  · next h => exact ⟨fun _ => h, fun _ => rfl⟩
  · exact Iff.rfl

theorem nSectHdrs_eq_iff : (headerInfo file).nSectHdrs = checkSectionHeader ↔
    file.value 0 Ehdr.eShnum = 0 ∨ file.value 0 Ehdr.eShnum = 0xffff := by
  unfold headerInfo checkSectionHeader
  dsimp only
  split
  · next h => exact ⟨fun _ => .inl h, fun _ => rfl⟩
  · next h => exact ⟨.inr, fun hmany => hmany.resolve_left h⟩

theorem shstrtabIdx_eq_iff :
    (headerInfo file).shstrtabIdx = checkSectionHeader ↔ file.value 0 Ehdr.eShstrndx = 0xffff := by
  unfold headerInfo checkSectionHeader
  dsimp only
  split
  · next h => exact ⟨fun _ => h, fun _ => rfl⟩
  · exact Iff.rfl

theorem parseInitSection_of_inside (h : InitInside file) :
    parseInitSection file (tableOffset file) (headerInfo file) = some (fullInfo file) := by
  have hprogs : fillIn (headerInfo file).nProgHdrs (file.field (tableOffset file) Shdr.shInfo) =
      some (progCount file) := by
    unfold progCount
    refine fillIn_eq_some (fun hn => ?_) (fun hn => ?_)
    · have hmany := nProgHdrs_eq_iff.mp hn
      rw [if_pos hmany, field_of_has (h.progs hmany)]
    · have hfew := mt nProgHdrs_eq_iff.mpr hn
      rw [if_neg hfew]
      exact if_neg hfew
  have hsections : fillIn (headerInfo file).nSectHdrs
      ((file.field (tableOffset file) Shdr.shSize).map (· % 2 ^ 32)) =
      some (sectionCount file) := by
    unfold sectionCount
    refine fillIn_eq_some (fun hn => ?_) (fun hn => ?_)
    · have hmany := nSectHdrs_eq_iff.mp hn
      rw [if_pos hmany, field_of_has (h.sections hmany)]
      rfl
    · have hfew := mt nSectHdrs_eq_iff.mpr hn
      rw [if_neg hfew]
      exact if_neg fun hzero => hfew (.inl hzero)
  have hnames : fillIn (headerInfo file).shstrtabIdx
      (file.field (tableOffset file) Shdr.shLink) = some (namesIndex file) := by
    unfold namesIndex
    refine fillIn_eq_some (fun hn => ?_) (fun hn => ?_)
    · have hmany := shstrtabIdx_eq_iff.mp hn
      rw [if_pos hmany, field_of_has (h.names hmany)]
    · have hfew := mt shstrtabIdx_eq_iff.mpr hn
      rw [if_neg hfew]
      exact if_neg hfew
  unfold parseInitSection
  rw [hprogs, hsections, hnames]
  rfl

theorem parseInitSection_of_missing (h : ¬ InitInside file) :
    parseInitSection file (tableOffset file) (headerInfo file) = none := by
  refine Option.eq_none_iff_forall_ne_some.mpr fun info hinfo => h ?_
  unfold parseInitSection at hinfo
  obtain ⟨_, hprogs, hinfo⟩ := Option.bind_eq_some_iff.mp hinfo
  obtain ⟨_, hsections, hinfo⟩ := Option.bind_eq_some_iff.mp hinfo
  obtain ⟨_, hnames, -⟩ := Option.bind_eq_some_iff.mp hinfo
  refine ⟨fun hmany => ?_, fun hmany => ?_, fun hmany => ?_⟩
  · exact isSome_field_iff.mp
      (isSome_of_fillIn (Option.isSome_of_eq_some hprogs) (nProgHdrs_eq_iff.mpr hmany))
  · have hsize := isSome_of_fillIn (Option.isSome_of_eq_some hsections)
      (nSectHdrs_eq_iff.mpr hmany)
    rw [Option.isSome_map] at hsize
    exact isSome_field_iff.mp hsize
  · exact isSome_field_iff.mp
      (isSome_of_fillIn (Option.isSome_of_eq_some hnames) (shstrtabIdx_eq_iff.mpr hmany))

/-! ### One section -/

/-- Where the names of the sections are. -/
def namesOffset (file : FileContent) : Word :=
  BitVec.ofNat 64 (file.value (shdrAt (tableOffset file) (namesIndex file)) Shdr.shOffset)

def sectionHeader (file : FileContent) (i : Nat) : Word := shdrAt (tableOffset file) i

def sectionName (file : FileContent) (i : Nat) : Word :=
  namesOffset file + BitVec.ofNat 64 (file.value (sectionHeader file i) Shdr.shName)

/-- The section is a symbol table for the whole program. -/
structure IsSymtab (file : FileContent) (i : Nat) : Prop where
  name : HoldsString file.byteAt (sectionName file i) symtabName
  type : file.value (sectionHeader file i) Shdr.shType = 2
  flags : isAllocUnset (file.value (sectionHeader file i) Shdr.shFlags) = true
  entsize : file.value (sectionHeader file i) Shdr.shEntsize = sizeofSym

/-- The section is a string table for it. -/
structure IsStrtab (file : FileContent) (i : Nat) : Prop where
  name : HoldsString file.byteAt (sectionName file i) strtabName
  type : file.value (sectionHeader file i) Shdr.shType = 3
  flags : isAllocUnset (file.value (sectionHeader file i) Shdr.shFlags) = true

/-- The file has what is looked at in a section header: the offset of the name, the name up to
where it differs from the two names that are looked for, and with one of these names the type
and what else is checked. -/
structure SectionInside (file : FileContent) (i : Nat) : Prop where
  name : file.Has (sectionHeader file i) Shdr.shName
  likeSymtab : (strEq file.byteAt (sectionName file i) symtabName).isSome
  likeStrtab : (strEq file.byteAt (sectionName file i) strtabName).isSome
  symtab : HoldsString file.byteAt (sectionName file i) symtabName →
    file.Has (sectionHeader file i) Shdr.shType ∧
    (file.value (sectionHeader file i) Shdr.shType = 2 →
      file.Has (sectionHeader file i) Shdr.shFlags ∧
      (isAllocUnset (file.value (sectionHeader file i) Shdr.shFlags) = true →
        file.Has (sectionHeader file i) Shdr.shEntsize))
  strtab : HoldsString file.byteAt (sectionName file i) strtabName →
    file.Has (sectionHeader file i) Shdr.shType ∧
    (file.value (sectionHeader file i) Shdr.shType = 3 →
      file.Has (sectionHeader file i) Shdr.shFlags)

theorem isSome_andAlso_iff {a b : Option Bool} :
    (andAlso a b).isSome ↔ a.isSome ∧ (a = some true → b.isSome) := by
  unfold andAlso
  cases a with
  | none => simp
  | some c => cases c <;> simp

theorem andAlso_eq_some_true_iff {a b : Option Bool} :
    andAlso a b = some true ↔ a = some true ∧ b = some true := by
  unfold andAlso
  cases a with
  | none => simp
  | some c => cases c <;> simp

/-- A field is read, and something else if it has a certain value. -/
theorem isSome_andAlso_field_iff {base : Word} {f : Field} {p : Nat → Bool} {b : Option Bool} :
    (andAlso ((file.field base f).map p) b).isSome ↔
      file.Has base f ∧ (p (file.value base f) = true → b.isSome) := by
  rw [isSome_andAlso_iff, Option.isSome_map, isSome_field_iff, map_field_eq_some_true_iff]
  exact ⟨fun ⟨h, hb⟩ => ⟨h, fun hp => hb ⟨h, hp⟩⟩, fun ⟨h, hb⟩ => ⟨h, fun hp => hb hp.2⟩⟩

theorem isSome_isValidSymtab_iff {shdr name : Word} :
    (isValidSymtab file shdr name).isSome ↔
      (strEq file.byteAt name symtabName).isSome ∧
      (HoldsString file.byteAt name symtabName → file.Has shdr Shdr.shType ∧
        (file.value shdr Shdr.shType = 2 → file.Has shdr Shdr.shFlags ∧
          (isAllocUnset (file.value shdr Shdr.shFlags) = true →
            file.Has shdr Shdr.shEntsize))) := by
  unfold isValidSymtab
  rw [isSome_andAlso_iff, Bytes.strEq_eq_some_true_iff, isSome_andAlso_field_iff,
    isSome_andAlso_field_iff, Option.isSome_map, isSome_field_iff, decide_eq_true_iff]

theorem isSome_isValidStrtab_iff {shdr name : Word} :
    (isValidStrtab file shdr name).isSome ↔
      (strEq file.byteAt name strtabName).isSome ∧
      (HoldsString file.byteAt name strtabName → file.Has shdr Shdr.shType ∧
        (file.value shdr Shdr.shType = 3 → file.Has shdr Shdr.shFlags)) := by
  unfold isValidStrtab
  rw [isSome_andAlso_iff, Bytes.strEq_eq_some_true_iff, isSome_andAlso_field_iff,
    Option.isSome_map, isSome_field_iff, decide_eq_true_iff]

theorem isValidSymtab_eq_true_iff {i : Nat} (h : SectionInside file i) :
    isValidSymtab file (sectionHeader file i) (sectionName file i) = some true ↔
      IsSymtab file i := by
  unfold isValidSymtab
  simp only [andAlso_eq_some_true_iff, Bytes.strEq_eq_some_true_iff, map_field_eq_some_true_iff,
    decide_eq_true_eq]
  constructor
  · rintro ⟨hname, ⟨-, htype⟩, ⟨-, hflags⟩, -, hentsize⟩
    exact ⟨hname, htype, hflags, hentsize⟩
  · rintro ⟨hname, htype, hflags, hentsize⟩
    obtain ⟨hhasType, hrest⟩ := h.symtab hname
    obtain ⟨hhasFlags, hrest⟩ := hrest htype
    exact ⟨hname, ⟨hhasType, htype⟩, ⟨hhasFlags, hflags⟩, hrest hflags, hentsize⟩

theorem isValidStrtab_eq_true_iff {i : Nat} (h : SectionInside file i) :
    isValidStrtab file (sectionHeader file i) (sectionName file i) = some true ↔
      IsStrtab file i := by
  unfold isValidStrtab
  simp only [andAlso_eq_some_true_iff, Bytes.strEq_eq_some_true_iff, map_field_eq_some_true_iff,
    decide_eq_true_eq]
  constructor
  · rintro ⟨hname, ⟨-, htype⟩, -, hflags⟩
    exact ⟨hname, htype, hflags⟩
  · rintro ⟨hname, htype, hflags⟩
    obtain ⟨hhasType, hrest⟩ := h.strtab hname
    exact ⟨hname, ⟨hhasType, htype⟩, hrest htype, hflags⟩

/-- A check that is defined decides what it is true for. -/
theorem exists_eq_some_of_iff {x : Option Bool} {p : Prop} (h : x.isSome)
    (hp : x = some true ↔ p) : ∃ valid, x = some valid ∧ (valid = true ↔ p) := by
  obtain ⟨valid, rfl⟩ := Option.isSome_iff_exists.mp h
  exact ⟨valid, rfl, by rw [← hp, Option.some_inj]⟩

/-- A name cannot be both. -/
theorem strEq_strtabName_of_symtabName {name : Word}
    (h : HoldsString file.byteAt name symtabName) :
    strEq file.byteAt name strtabName = some false :=
  h.strEq_eq (by decide) (by decide)

theorem not_strtabName_of_symtabName {name : Word}
    (h : HoldsString file.byteAt name symtabName) :
    ¬ HoldsString file.byteAt name strtabName := by
  rw [← Bytes.strEq_eq_some_true_iff, strEq_strtabName_of_symtabName h]
  exact fun heq => nomatch heq

/-! ### All sections -/

/-- The first index other than 0 with a property. -/
structure FirstAt (p : Nat → Prop) (n k : Nat) : Prop where
  ne_zero : k ≠ 0
  lt : k < n
  holds : p k
  before : ∀ j < k, j ≠ 0 → ¬ p j

/-- What has been found among the first `n` indices; 0 is nothing. -/
structure FirstUpTo (p : Nat → Prop) (n k : Nat) : Prop where
  found : k ≠ 0 → FirstAt p n k
  missed : k = 0 → ∀ j < n, j ≠ 0 → ¬ p j

theorem FirstUpTo.keep {p : Nat → Prop} {n k : Nat} (h : FirstUpTo p n k)
    (hkeep : ¬ (p n ∧ k = 0)) : FirstUpTo p (n + 1) k := by
  refine ⟨fun hk => ?_, fun hk j hj hne hp => ?_⟩
  · obtain ⟨hne, hlt, hp, hbefore⟩ := h.found hk
    exact ⟨hne, Nat.lt_succ_of_lt hlt, hp, hbefore⟩
  · rcases Nat.lt_succ_iff_lt_or_eq.mp hj with hlt | rfl
    · exact h.missed hk j hlt hne hp
    · exact hkeep ⟨hp, hk⟩

theorem FirstUpTo.set {p : Nat → Prop} {n : Nat} (h : FirstUpTo p n 0) (hp : p n) :
    FirstUpTo p (n + 1) n :=
  ⟨fun hne => ⟨hne, Nat.lt_succ_self n, hp, h.missed rfl⟩,
    fun hzero j hj hne => absurd (by omega) hne⟩

theorem FirstAt.unique {p : Nat → Prop} {n k k' : Nat} (h : FirstAt p n k)
    (h' : FirstAt p n k') : k = k' := by
  rcases Nat.lt_trichotomy k k' with hlt | heq | hlt
  · exact absurd h.holds (h'.before k hlt h.ne_zero)
  · exact heq
  · exact absurd h'.holds (h.before k' hlt h'.ne_zero)

/-- The invariant of the loop over the sections. -/
structure Found (file : FileContent) (n : Nat) (found : TableIndices) : Prop where
  symtab : FirstUpTo (IsSymtab file) n found.symtab
  strtab : FirstUpTo (IsStrtab file) n found.strtab

theorem findTablesAt_of_inside {i : Nat} {found : TableIndices} (h : SectionInside file i)
    (hfound : Found file i found) :
    ∃ found', findTablesAt file (tableOffset file) (namesOffset file) i found = some found' ∧
      Found file (i + 1) found' := by
  obtain ⟨hsym, hstr⟩ := hfound
  obtain ⟨symValid, hsymValid, hsymIff⟩ := exists_eq_some_of_iff
    (isSome_isValidSymtab_iff.mpr ⟨h.likeSymtab, h.symtab⟩) (isValidSymtab_eq_true_iff h)
  obtain ⟨strValid, hstrValid, hstrIff⟩ := exists_eq_some_of_iff
    (isSome_isValidStrtab_iff.mpr ⟨h.likeStrtab, h.strtab⟩) (isValidStrtab_eq_true_iff h)
  have heq : findTablesAt file (tableOffset file) (namesOffset file) i found =
      if symValid ∧ found.symtab = 0 then some { found with symtab := i }
      else if strValid ∧ found.strtab = 0 then some { found with strtab := i }
      else some found := by
    unfold findTablesAt
    show (file.field (sectionHeader file i) Shdr.shName).bind _ = _
    rw [field_of_has h.name]
    show (isValidSymtab file (sectionHeader file i) (sectionName file i)).bind _ = _
    rw [hsymValid, Option.bind_some]
    congr 1
    show (isValidStrtab file (sectionHeader file i) (sectionName file i)).bind _ = _
    rw [hstrValid]
    rfl
  rw [heq]
  by_cases hsymNew : symValid ∧ found.symtab = 0
  · have his : IsSymtab file i := hsymIff.mp hsymNew.1
    rw [if_pos hsymNew]
    refine ⟨_, rfl, ?_, hstr.keep fun hboth =>
      not_strtabName_of_symtabName his.name hboth.1.name⟩
    rw [hsymNew.2] at hsym
    exact hsym.set his
  · have hkeep := hsym.keep fun hboth => hsymNew ⟨hsymIff.mpr hboth.1, hboth.2⟩
    rw [if_neg hsymNew]
    by_cases hstrNew : strValid ∧ found.strtab = 0
    · rw [if_pos hstrNew]
      rw [hstrNew.2] at hstr
      exact ⟨_, rfl, hkeep, hstr.set (hstrIff.mp hstrNew.1)⟩
    · rw [if_neg hstrNew]
      exact ⟨_, rfl, hkeep, hstr.keep fun hboth => hstrNew ⟨hstrIff.mpr hboth.1, hboth.2⟩⟩

theorem findTablesAt_of_missing {i : Nat} (h : ¬ SectionInside file i) (found : TableIndices) :
    findTablesAt file (tableOffset file) (namesOffset file) i found = none := by
  refine Option.eq_none_iff_forall_ne_some.mpr fun found' hfound' => h ?_
  unfold findTablesAt at hfound'
  obtain ⟨shName, hname, hrest⟩ := Option.bind_eq_some_iff.mp hfound'
  have hhas : file.Has (sectionHeader file i) Shdr.shName :=
    isSome_field_iff.mp (Option.isSome_of_eq_some hname)
  cases (field_of_has hhas).symm.trans hname
  obtain ⟨symValid, hsymValid, hrest⟩ := Option.bind_eq_some_iff.mp hrest
  obtain ⟨hlikeSym, hsym⟩ := isSome_isValidSymtab_iff.mp (Option.isSome_of_eq_some hsymValid)
  suffices hstr : (strEq file.byteAt (sectionName file i) strtabName).isSome ∧
      (HoldsString file.byteAt (sectionName file i) strtabName →
        file.Has (sectionHeader file i) Shdr.shType ∧
        (file.value (sectionHeader file i) Shdr.shType = 3 →
          file.Has (sectionHeader file i) Shdr.shFlags)) from
    ⟨hhas, hlikeSym, hstr.1, hsym, hstr.2⟩
  by_cases hnew : symValid ∧ found.symtab = 0
  · -- The name is not compared further.
    rw [hnew.1] at hsymValid
    unfold isValidSymtab at hsymValid
    have hname := Bytes.strEq_eq_some_true_iff.mp (andAlso_eq_some_true_iff.mp hsymValid).1
    exact ⟨Option.isSome_of_eq_some (strEq_strtabName_of_symtabName hname),
      fun hstr => absurd hstr (not_strtabName_of_symtabName hname)⟩
  · rw [if_neg hnew] at hrest
    obtain ⟨strValid, hstrValid, -⟩ := Option.bind_eq_some_iff.mp hrest
    exact isSome_isValidStrtab_iff.mp (Option.isSome_of_eq_some hstrValid)

theorem findTablesLoop_of_inside {n i : Nat} {found : TableIndices}
    (h : ∀ j, i ≤ j → j < i + n → SectionInside file j) (hfound : Found file i found) :
    ∃ found', findTablesLoop file (tableOffset file) (namesOffset file) n i found = some found' ∧
      Found file (i + n) found' := by
  induction n generalizing i found with
  | zero => exact ⟨found, rfl, hfound⟩
  | succ n ih =>
      obtain ⟨next, hnext, hinv⟩ := findTablesAt_of_inside (h i (Nat.le_refl i) (by omega)) hfound
      obtain ⟨found', hrun, hfound'⟩ := ih (fun j hij hjn => h j (by omega) (by omega)) hinv
      refine ⟨found', ?_, ?_⟩
      · rw [findTablesLoop, hnext]
        exact hrun
      · rwa [Nat.add_assoc, Nat.add_comm 1 n] at hfound'

theorem findTablesLoop_of_missing {n i : Nat} (h : ¬ ∀ j, i ≤ j → j < i + n → SectionInside file j)
    (found : TableIndices) :
    findTablesLoop file (tableOffset file) (namesOffset file) n i found = none := by
  induction n generalizing i found with
  | zero => exact absurd (fun j hij hjn => absurd hjn (by omega)) h
  | succ n ih =>
      rw [findTablesLoop]
      by_cases hi : SectionInside file i
      · have hrest : ¬ ∀ j, i + 1 ≤ j → j < i + 1 + n → SectionInside file j := by
          intro hall
          refine h fun j hij hjn => ?_
          rcases Nat.eq_or_lt_of_le hij with rfl | hlt
          · exact hi
          · exact hall j hlt (by omega)
        cases findTablesAt file (tableOffset file) (namesOffset file) i found with
        | none => rfl
        | some next => exact ih hrest next
      · rw [findTablesAt_of_missing hi]
        rfl

def TablesFound (file : FileContent) : Prop :=
  (∃ i < sectionCount file, i ≠ 0 ∧ IsSymtab file i) ∧
  (∃ i < sectionCount file, i ≠ 0 ∧ IsStrtab file i)

theorem FirstUpTo.ne_zero_iff {p : Nat → Prop} {n k : Nat} (h : FirstUpTo p n k) :
    k ≠ 0 ↔ ∃ i < n, i ≠ 0 ∧ p i := by
  constructor
  · intro hk
    obtain ⟨hne, hlt, hp, -⟩ := h.found hk
    exact ⟨k, hlt, hne, hp⟩
  · rintro ⟨i, hi, hne, hp⟩ hk
    exact h.missed hk i hi hne hp

def SectionsInside (file : FileContent) : Prop :=
  ∀ i < sectionCount file, SectionInside file i

theorem findTableSections_of_inside (h : SectionsInside file) :
    ∃ res found, findTableSections file (tableOffset file) (sectionCount file)
      (namesOffset file) = some (res, found) ∧ Found file (sectionCount file) found ∧
      (res = .ok ↔ TablesFound file) := by
  have hstart : Found file 0 ⟨0, 0⟩ :=
    ⟨⟨fun hne => absurd rfl hne, fun _ j hj => absurd hj (Nat.not_lt_zero j)⟩,
      ⟨fun hne => absurd rfl hne, fun _ j hj => absurd hj (Nat.not_lt_zero j)⟩⟩
  obtain ⟨found, hrun, hfound⟩ := findTablesLoop_of_inside (n := sectionCount file)
    (fun j _ hj => h j (by omega)) hstart
  rw [Nat.zero_add] at hfound
  refine ⟨_, found, by unfold findTableSections; rw [hrun]; rfl, hfound, ?_⟩
  unfold TablesFound
  rw [← hfound.symtab.ne_zero_iff, ← hfound.strtab.ne_zero_iff]
  split <;> simp [*]

theorem findTableSections_of_missing (h : ¬ SectionsInside file) :
    findTableSections file (tableOffset file) (sectionCount file) (namesOffset file) = none := by
  unfold findTableSections
  rw [findTablesLoop_of_missing fun hall => h fun j hj => hall j (Nat.zero_le j) (by omega)]
  rfl

/-! ### The whole file -/

/-- The file has everything that the parser looks at. -/
structure LooksInside (file : FileContent) : Prop where
  header : HeaderInside file
  init : HeaderAccepted file → InitInside file
  names : HeaderAccepted file → file.Has (sectionHeader file (namesIndex file)) Shdr.shOffset
  sections : HeaderAccepted file → SectionsInside file

/-- The header passes every check, and both tables are there. -/
def Usable (file : FileContent) : Prop := HeaderAccepted file ∧ TablesFound file

/-- What a usable file is parsed to. -/
structure ParsedFrom (file : FileContent) (elf : MappedElf) : Prop where
  data : elf.data = file
  headers : elf.sectTable.headers = tableOffset file
  nHeaders : elf.sectTable.nHeaders = sectionCount file
  shstrtabIdx : elf.sectTable.shstrtabIdx = namesIndex file
  symtabIdx : FirstAt (IsSymtab file) (sectionCount file) elf.sectTable.symtabIdx
  strtabIdx : FirstAt (IsStrtab file) (sectionCount file) elf.sectTable.strtabIdx

/-- An accepted header has a type and an endianness. -/
theorem storeChecked_of_accepted (h : HeaderAccepted file) (elf : ElfStore) :
    ∃ type endianness, storeChecked file headerChecks elf =
      { elf with type := some type, endianness := some endianness } := by
  have htype := (h ⟨Ehdr.eType, fun type => type ≤ 4, .INVALID,
    fun type elf => { elf with type := ElfType.ofEType type }⟩ (by simp [headerChecks])).2
  have hdata := (h ⟨Ehdr.eIdent 5, fun data => data = 1 ∨ data = 2, .DISLIKE,
    fun data elf => { elf with endianness := Endianness.ofData data }⟩ (by simp [headerChecks])).2
  have hstore : storeChecked file headerChecks elf =
      { elf with
        type := ElfType.ofEType (file.value 0 Ehdr.eType)
        endianness := Endianness.ofData (file.value 0 (Ehdr.eIdent 5)) } := rfl
  obtain ⟨type, htype⟩ : ∃ type, ElfType.ofEType (file.value 0 Ehdr.eType) = some type := by
    have hle : file.value 0 Ehdr.eType ≤ 4 := of_decide_eq_true htype
    revert hle
    generalize file.value 0 Ehdr.eType = value
    intro hle
    interval_cases value <;> exact ⟨_, rfl⟩
  obtain ⟨endianness, hdata⟩ : ∃ endianness,
      Endianness.ofData (file.value 0 (Ehdr.eIdent 5)) = some endianness := by
    rcases of_decide_eq_true hdata with hlittle | hbig
    · exact ⟨.LITTLE, by rw [hlittle]; rfl⟩
    · exact ⟨.BIG, by rw [hbig]; rfl⟩
  exact ⟨type, endianness, by rw [hstore, htype, hdata]⟩

/-- Behind an accepted header, the sections are searched. -/
theorem parseMapped_of_accepted (hheader : HeaderInside file) (hacc : HeaderAccepted file)
    (hinit : InitInside file)
    (hnames : file.Has (sectionHeader file (namesIndex file)) Shdr.shOffset) (elf : ElfStore) :
    parseMapped file elf =
      (access (findTableSections file (tableOffset file) (sectionCount file)
        (namesOffset file)) >>= storeTables file (fullInfo file))
        (storeChecked file headerChecks elf) := by
  unfold parseMapped
  rw [Triple.bind_run (parseElfHeader_of_accepted hheader hacc elf)]
  show (access (parseInitSection file (tableOffset file) (headerInfo file)) >>= _) _ = _
  rw [parseInitSection_of_inside hinit]
  show (access (file.field (sectionHeader file (namesIndex file)) Shdr.shOffset) >>= _) _ = _
  rw [Triple.bind_run (access_of_has hnames _)]
  rfl

theorem parseMapped_of_usable (hin : LooksInside file) (h : Usable file) (elf : ElfStore) :
    ∃ elf' mapped, parseMapped file elf = .ok () elf' ∧ elf'.all = some mapped ∧
      ParsedFrom file mapped := by
  obtain ⟨hacc, hfound⟩ := h
  obtain ⟨type, endianness, hstore⟩ := storeChecked_of_accepted hacc elf
  obtain ⟨res, found, htables, hinv, hres⟩ := findTableSections_of_inside (hin.sections hacc)
  have hrun := parseMapped_of_accepted hin.header hacc (hin.init hacc) (hin.names hacc) elf
  rw [htables, hres.mpr hfound, hstore] at hrun
  have hsym := hinv.symtab.found (hinv.symtab.ne_zero_iff.mpr hfound.1)
  have hstr := hinv.strtab.found (hinv.strtab.ne_zero_iff.mpr hfound.2)
  exact ⟨_, _, hrun, rfl, rfl, rfl, rfl, rfl, hsym, hstr⟩

theorem parseMapped_of_unusable (hin : LooksInside file) (h : ¬ Usable file) (elf : ElfStore) :
    ∃ res elf', parseMapped file elf = .error (.gaveUp res) elf' ∧
      (res = .INVALID ∨ res = .DISLIKE) := by
  by_cases hacc : HeaderAccepted file
  · obtain ⟨res, found, htables, -, hres⟩ := findTableSections_of_inside (hin.sections hacc)
    have herr : res = .err := by
      cases res with
      | ok => exact absurd ⟨hacc, hres.mp rfl⟩ h
      | err => rfl
    have hrun := parseMapped_of_accepted hin.header hacc (hin.init hacc) (hin.names hacc) elf
    rw [htables, herr] at hrun
    exact ⟨.INVALID, _, hrun, .inl rfl⟩
  · obtain ⟨res, elf', hrun, hres⟩ := parseElfHeader_of_rejected hin.header hacc elf
    exact ⟨res, elf', Triple.bind_error hrun, hres⟩

theorem parseMapped_of_missing (h : ¬ LooksInside file) (elf : ElfStore) :
    ∃ elf', parseMapped file elf = .error .outside elf' := by
  by_cases hheader : HeaderInside file
  · have hacc : HeaderAccepted file := by
      by_contra hacc
      exact h ⟨hheader, fun h => absurd h hacc, fun h => absurd h hacc, fun h => absurd h hacc⟩
    refine ⟨storeChecked file headerChecks elf, ?_⟩
    by_cases hreached : InitInside file ∧
        file.Has (sectionHeader file (namesIndex file)) Shdr.shOffset
    · obtain ⟨hinit, hnames⟩ := hreached
      have hsections : ¬ SectionsInside file := fun hsections =>
        h ⟨hheader, fun _ => hinit, fun _ => hnames, fun _ => hsections⟩
      rw [parseMapped_of_accepted hheader hacc hinit hnames,
        findTableSections_of_missing hsections]
      rfl
    · unfold parseMapped
      rw [Triple.bind_run (parseElfHeader_of_accepted hheader hacc elf)]
      show (access (parseInitSection file (tableOffset file) (headerInfo file)) >>= _) _ = _
      by_cases hinit : InitInside file
      · rw [parseInitSection_of_inside hinit]
        show (access (file.field (sectionHeader file (namesIndex file)) Shdr.shOffset) >>= _) _ = _
        exact Triple.bind_error (access_of_not_has (fun hnames => hreached ⟨hinit, hnames⟩) _)
      · rw [parseInitSection_of_missing hinit]
        rfl
  · obtain ⟨elf', hrun⟩ := parseElfHeader_of_missing hheader elf
    exact ⟨elf', Triple.bind_error hrun⟩

/-! ### The parser -/

variable {io : FileCalls}

/-- The file can be opened, measured and mapped. -/
structure FileCalls.Mapped (io : FileCalls) : Prop where
  opens : io.opens = true
  seeks : io.seeks = true
  maps : io.maps = true

theorem seParseElfIn_of_not_mapped (h : ¬ io.Mapped) (elf : ElfStore) :
    seParseElfIn file io elf = some (.IO_ERR, elf) := by
  unfold seParseElfIn
  cases hopens : io.opens with
  | false => rfl
  | true =>
      cases hseeks : io.seeks with
      | false => rfl
      | true =>
          cases hmaps : io.maps with
          | false => rfl
          | true => exact absurd ⟨hopens, hseeks, hmaps⟩ h

theorem seParseElfIn_of_mapped (h : io.Mapped) (elf : ElfStore) :
    seParseElfIn file io elf = match parseMapped file elf with
      | .ok () elf => some (.OK, elf)
      | .error .outside _ => none
      | .error (.gaveUp res) elf => some (if io.unmaps then res else .IO_ERR, elf) := by
  unfold seParseElfIn
  rw [h.opens, h.seeks, h.maps]
  rfl

theorem seParseElfIn_of_usable (hmapped : io.Mapped) (hin : LooksInside file)
    (h : Usable file) (elf : ElfStore) :
    ∃ elf' mapped, seParseElfIn file io elf = some (.OK, elf') ∧ elf'.all = some mapped ∧
      ParsedFrom file mapped := by
  obtain ⟨elf', mapped, hrun, hall, hparsed⟩ := parseMapped_of_usable hin h elf
  exact ⟨elf', mapped, by rw [seParseElfIn_of_mapped hmapped, hrun], hall, hparsed⟩

theorem seParseElfIn_of_unusable (hmapped : io.Mapped) (hin : LooksInside file)
    (h : ¬ Usable file) (elf : ElfStore) :
    ∃ res elf', seParseElfIn file io elf = some (if io.unmaps then res else .IO_ERR, elf') ∧
      (res = .INVALID ∨ res = .DISLIKE) := by
  obtain ⟨res, elf', hrun, hres⟩ := parseMapped_of_unusable hin h elf
  exact ⟨res, elf', by rw [seParseElfIn_of_mapped hmapped, hrun], hres⟩

theorem seParseElfIn_of_missing (hmapped : io.Mapped) (h : ¬ LooksInside file)
    (elf : ElfStore) : seParseElfIn file io elf = none := by
  obtain ⟨elf', hrun⟩ := parseMapped_of_missing h elf
  rw [seParseElfIn_of_mapped hmapped, hrun]

end Spray
