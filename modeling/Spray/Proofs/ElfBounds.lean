/-
Whether a file that has been parsed can be queried.

Neither the parser nor the lookup of symbols compares an offset with the size of the file.  So
whether they stay inside is up to the numbers in the file, and this file says what has to hold
of them.
-/
import Spray.Proofs.ElfParse

namespace Spray

open Bytes (HoldsString strEq Inside Terminated)

variable {file : FileContent} {elf : MappedElf} {io : FileCalls}

/-! ### What it means to be safe -/

/-- The section is inside the file. -/
def MappedElf.HasSection (elf : MappedElf) (i : Nat) : Prop :=
  ∃ off size, elf.field (elf.sectHeader i) Shdr.shOffset = some off ∧
    elf.field (elf.sectHeader i) Shdr.shSize = some size ∧
    Inside elf.data.byteAt (BitVec.ofNat 64 off) size

/-- The name of the symbol that was found, if one was, ends inside the file. -/
def MappedElf.NameInside (elf : MappedElf) (found : Option Word) : Prop :=
  ∀ sym, found = some sym →
    ∃ name, elf.seSymbolName sym = some name ∧ Terminated elf.data.byteAt name

/-- Nothing that belongs to a parsed file is outside, and no query reads there. -/
structure QuerySafe (elf : MappedElf) : Prop where
  headers : Inside elf.data.byteAt elf.sectTable.headers (sizeofShdr * elf.sectTable.nHeaders)
  shstrtab : Inside elf.data.byteAt (elf.sectHeader elf.sectTable.shstrtabIdx) sizeofShdr
  symtab : elf.HasSection elf.sectTable.symtabIdx
  strtab : elf.HasSection elf.sectTable.strtabIdx
  fromName : ∀ name, 0#8 ∉ name →
    ∃ found, elf.seSymbolFromName name = some found ∧ elf.NameInside found
  fromAddr : ∀ addr, ∃ found, elf.seSymbolFromAddr addr = some found ∧ elf.NameInside found

/-- The parser never reads outside these bytes, and what it accepts can be queried in them. -/
def SafeToQueryIn (mapping : FileContent) (io : FileCalls) (elfStore : ElfStore) : Prop :=
  ∃ res elf, seParseElfIn mapping io elfStore = some (res, elf) ∧
    (res = .OK → ∃ mapped, elf.all = some mapped ∧ QuerySafe mapped)

/-- All of this stays inside the file.  The zeros between its end and that of its last page are
outside. -/
def SafeToQuery (io : FileCalls) (elfStore : ElfStore) : Prop :=
  SafeToQueryIn io.content io elfStore

/-! ### What the file has to say -/

def sectionOffset (file : FileContent) (i : Nat) : Word :=
  BitVec.ofNat 64 (file.value (sectionHeader file i) Shdr.shOffset)

def sectionSize (file : FileContent) (i : Nat) : Nat :=
  file.value (sectionHeader file i) Shdr.shSize

def symbolCount (file : FileContent) (symtab : Nat) : Nat := sectionSize file symtab / sizeofSym

def symbolAt (file : FileContent) (symtab i : Nat) : Word := symAt (sectionOffset file symtab) i

def symbolName (file : FileContent) (symtab strtab i : Nat) : Word :=
  sectionOffset file strtab + BitVec.ofNat 64 (file.value (symbolAt file symtab i) Sym.stName)

/-- The section headers, the two tables and the names of the symbols are in the file. -/
structure TablesInside (file : FileContent) (symtab strtab : Nat) : Prop where
  headers : Inside file.byteAt (tableOffset file) (sizeofShdr * sectionCount file)
  shstrtab : Inside file.byteAt (sectionHeader file (namesIndex file)) sizeofShdr
  symbols : Inside file.byteAt (sectionOffset file symtab) (sectionSize file symtab)
  strings : Inside file.byteAt (sectionOffset file strtab) (sectionSize file strtab)
  names : ∀ i < symbolCount file symtab, Terminated file.byteAt (symbolName file symtab strtab i)

/-- The numbers in the file stay inside it. -/
structure FitsInFile (file : FileContent) : Prop where
  looks : LooksInside file
  tables : HeaderAccepted file → ∀ symtab strtab,
    FirstAt (IsSymtab file) (sectionCount file) symtab →
    FirstAt (IsStrtab file) (sectionCount file) strtab → TablesInside file symtab strtab

/-! ### Reading inside a region -/

theorem has_sectionHeader {f : Field} {i : Nat}
    (h : Inside file.byteAt (tableOffset file) (sizeofShdr * sectionCount file))
    (hi : i < sectionCount file) (hf : f.off + f.size ≤ sizeofShdr) :
    file.Has (sectionHeader file i) f :=
  h.entry (Nat.le_refl _) hi hf

theorem has_symbolAt {f : Field} {symtab i : Nat}
    (h : Inside file.byteAt (sectionOffset file symtab) (sectionSize file symtab))
    (hi : i < symbolCount file symtab) (hf : f.off + f.size ≤ sizeofSym) :
    file.Has (symbolAt file symtab i) f :=
  h.entry (Nat.mul_div_le _ _) hi hf

/-- A string in a file is shorter than the file. -/
theorem length_lt_of_holdsString {a : Word} {s : List Byte} (h : HoldsString file.byteAt a s) :
    a.toNat + s.length < file.bytes.length := by
  have hlt : ∀ {a : Word} {b : Byte}, file.byteAt a = some b → a.toNat < file.bytes.length :=
    fun h => isSome_byteAt_iff.mp (Option.isSome_of_eq_some h)
  unfold HoldsString at h
  induction s generalizing a with
  | nil => exact hlt h.1
  | cons c s ih =>
      have hrest := ih h.2
      have hfirst := hlt h.1
      have hsmall := file.length_le
      rw [BitVec.toNat_add, BitVec.toNat_ofNat, Nat.mod_eq_of_lt (by omega)] at hrest
      rw [List.length_cons]
      omega

/-! ### The loop over the symbols -/

namespace MappedElf

theorem findSymbolLoop_of_isSome {test : Word → Option Bool} {symtab : Word} {n i : Nat}
    (h : ∀ j, i ≤ j → j < i + n → (test (symAt symtab j)).isSome) :
    ∃ found, findSymbolLoop test symtab n i = some found ∧
      ∀ sym, found = some sym → ∃ j < i + n, sym = symAt symtab j := by
  induction n generalizing i with
  | zero => exact ⟨none, rfl, fun _ h => nomatch h⟩
  | succ n ih =>
      obtain ⟨found, hrun, hfound⟩ := ih (i := i + 1) fun j hij hjn => h j (by omega) (by omega)
      obtain ⟨b, hb⟩ := Option.isSome_iff_exists.mp (h i (Nat.le_refl i) (by omega))
      rw [findSymbolLoop, hb]
      cases b with
      | true =>
          refine ⟨some (symAt symtab i), rfl, fun sym hsym => ⟨i, by omega, ?_⟩⟩
          cases hsym
          rfl
      | false =>
          refine ⟨found, hrun, fun sym hsym => ?_⟩
          obtain ⟨j, hj, heq⟩ := hfound sym hsym
          exact ⟨j, by omega, heq⟩

/-- A symbol that cannot be tested is met, unless one before it passes. -/
theorem findSymbolLoop_eq_none {test : Word → Option Bool} {symtab : Word} {n i j : Nat}
    (hij : i ≤ j) (hjn : j < i + n) (hj : test (symAt symtab j) = none)
    (hpass : ∀ k, test (symAt symtab k) ≠ some true) : findSymbolLoop test symtab n i = none := by
  induction n generalizing i with
  | zero => omega
  | succ n ih =>
      rw [findSymbolLoop]
      rcases Nat.eq_or_lt_of_le hij with rfl | hlt
      · rw [hj]
        rfl
      · cases hi : test (symAt symtab i) with
        | none => rfl
        | some b =>
            cases b with
            | true => exact absurd hi (hpass i)
            | false => exact ih hlt (by omega)

end MappedElf

/-! ### Queries of a parsed file -/

theorem ParsedFrom.field_eq (h : ParsedFrom file elf) (base : Word) (f : Field) :
    elf.field base f = file.field base f := by
  rw [MappedElf.field, h.data]

theorem ParsedFrom.sectHeader_eq (h : ParsedFrom file elf) (i : Nat) :
    elf.sectHeader i = sectionHeader file i := by
  rw [MappedElf.sectHeader, h.headers]
  rfl

/-- The symbols are searched in the table that was found. -/
theorem ParsedFrom.findSymbol_eq (h : ParsedFrom file elf)
    (hheaders : Inside file.byteAt (tableOffset file) (sizeofShdr * sectionCount file))
    (test : Word → Option Bool) :
    elf.findSymbol test =
      MappedElf.findSymbolLoop test (sectionOffset file elf.sectTable.symtabIdx)
        (symbolCount file elf.sectTable.symtabIdx) 0 := by
  have hhas {f : Field} (hf : f.off + f.size ≤ sizeofShdr) :
      elf.field (elf.sectHeader elf.sectTable.symtabIdx) f =
        some (file.value (sectionHeader file elf.sectTable.symtabIdx) f) := by
    rw [h.field_eq, h.sectHeader_eq, field_of_has (has_sectionHeader hheaders h.symtabIdx.lt hf)]
  have hentsize := h.symtabIdx.holds.entsize
  unfold MappedElf.findSymbol
  dsimp only
  rw [hhas (f := Shdr.shOffset) (by decide), hhas (f := Shdr.shSize) (by decide),
    hhas (f := Shdr.shEntsize) (by decide), hentsize]
  rfl

/-- The name of a symbol is where the string table that was found has it. -/
theorem ParsedFrom.seSymbolName_eq (h : ParsedFrom file elf)
    (hheaders : Inside file.byteAt (tableOffset file) (sizeofShdr * sectionCount file))
    (sym : Word) : elf.seSymbolName sym = (file.field sym Sym.stName).map fun stName =>
      sectionOffset file elf.sectTable.strtabIdx + BitVec.ofNat 64 stName := by
  have hoff : file.field (sectionHeader file elf.sectTable.strtabIdx) Shdr.shOffset =
      some (file.value (sectionHeader file elf.sectTable.strtabIdx) Shdr.shOffset) :=
    field_of_has (has_sectionHeader hheaders h.strtabIdx.lt (by decide))
  unfold MappedElf.seSymbolName
  rw [h.field_eq, h.sectHeader_eq, hoff, h.field_eq]
  cases file.field sym Sym.stName <;> rfl

section Tables

variable (h : ParsedFrom file elf)
  (htables : TablesInside file elf.sectTable.symtabIdx elf.sectTable.strtabIdx)
include h htables

theorem seSymbolName_symbolAt {i : Nat} (hi : i < symbolCount file elf.sectTable.symtabIdx) :
    elf.seSymbolName (symbolAt file elf.sectTable.symtabIdx i) =
      some (symbolName file elf.sectTable.symtabIdx elf.sectTable.strtabIdx i) := by
  rw [h.seSymbolName_eq htables.headers,
    field_of_has (has_symbolAt htables.symbols hi (by decide))]
  rfl

/-- A search ends, and the name of what it finds does, if the test is defined. -/
theorem findSymbol_of_isSome {test : Word → Option Bool}
    (htest : ∀ i < symbolCount file elf.sectTable.symtabIdx,
      (test (symbolAt file elf.sectTable.symtabIdx i)).isSome) :
    ∃ found, elf.findSymbol test = some found ∧ elf.NameInside found := by
  obtain ⟨found, hrun, hfound⟩ := MappedElf.findSymbolLoop_of_isSome (i := 0)
    (n := symbolCount file elf.sectTable.symtabIdx) fun i _ hi => htest i (by omega)
  refine ⟨found, (h.findSymbol_eq htables.headers test).trans hrun, fun sym hsym => ?_⟩
  obtain ⟨i, hi, rfl⟩ := hfound sym hsym
  rw [Nat.zero_add] at hi
  refine ⟨_, seSymbolName_symbolAt h htables hi, ?_⟩
  rw [h.data]
  exact htables.names i hi

theorem isSome_hasName {name : List Byte} (hname : 0#8 ∉ name) {i : Nat}
    (hi : i < symbolCount file elf.sectTable.symtabIdx) :
    (elf.hasName name (symbolAt file elf.sectTable.symtabIdx i)).isSome := by
  unfold MappedElf.hasName
  rw [seSymbolName_symbolAt h htables hi, h.data]
  exact (htables.names i hi).isSome_strEq hname

theorem isSome_coversAddr (addr : DbgAddr) {i : Nat}
    (hi : i < symbolCount file elf.sectTable.symtabIdx) :
    (elf.coversAddr addr (symbolAt file elf.sectTable.symtabIdx i)).isSome := by
  have hvalue := field_of_has (has_symbolAt htables.symbols hi (f := Sym.stValue) (by decide))
  have hsize := field_of_has (has_symbolAt htables.symbols hi (f := Sym.stSize) (by decide))
  unfold MappedElf.coversAddr MappedElf.seSymbolStartAddr MappedElf.seSymbolEndAddr
  rw [isSome_andAlso_iff, h.field_eq, h.field_eq, hvalue, hsize]
  exact ⟨rfl, fun _ => rfl⟩

theorem querySafe_of_tablesInside : QuerySafe elf := by
  have hsection {i : Nat} (hi : i < sectionCount file)
      (hin : Inside file.byteAt (sectionOffset file i) (sectionSize file i)) :
      elf.HasSection i := by
    refine ⟨_, _, ?_, ?_, by rw [h.data]; exact hin⟩
    · rw [h.field_eq, h.sectHeader_eq]
      exact field_of_has (has_sectionHeader htables.headers hi (by decide))
    · rw [h.field_eq, h.sectHeader_eq]
      exact field_of_has (has_sectionHeader htables.headers hi (by decide))
  refine ⟨?_, ?_, hsection h.symtabIdx.lt htables.symbols, hsection h.strtabIdx.lt htables.strings,
    fun name hname => ?_, fun addr => ?_⟩
  · rw [h.data, h.headers, h.nHeaders]
    exact htables.headers
  · rw [h.data, h.shstrtabIdx, h.sectHeader_eq]
    exact htables.shstrtab
  · exact findSymbol_of_isSome h htables fun i hi => isSome_hasName h htables hname hi
  · exact findSymbol_of_isSome h htables fun i hi => isSome_coversAddr h htables addr hi

end Tables

/-- A query that is longer than the file and starts like a name without an end runs out of the
file. -/
theorem ParsedFrom.terminated_of_fromName (h : ParsedFrom file elf)
    (hheaders : Inside file.byteAt (tableOffset file) (sizeofShdr * sectionCount file))
    (hsymbols : Inside file.byteAt (sectionOffset file elf.sectTable.symtabIdx)
      (sectionSize file elf.sectTable.symtabIdx))
    (hquery : ∀ name, 0#8 ∉ name → (elf.seSymbolFromName name).isSome) {i : Nat}
    (hi : i < symbolCount file elf.sectTable.symtabIdx) :
    Terminated file.byteAt (symbolName file elf.sectTable.symtabIdx elf.sectTable.strtabIdx i) := by
  by_contra hends
  have hmissing : ∃ b, file.byteAt b = none := by
    refine ⟨BitVec.ofNat 64 (2 ^ 63), List.getElem?_eq_none ?_⟩
    have hsmall := file.length_le
    rw [BitVec.toNat_ofNat]
    omega
  obtain ⟨front, hfront, hnone⟩ := Bytes.exists_strEq_eq_none hends hmissing
  have hname : 0#8 ∉ front ++ List.replicate file.bytes.length 1#8 := by
    rw [List.mem_append]
    rintro (hmem | hmem)
    · exact hfront hmem
    · exact absurd (List.eq_of_mem_replicate hmem) (by decide)
  have hdefined := hquery _ hname
  unfold MappedElf.seSymbolFromName at hdefined
  rw [h.findSymbol_eq hheaders,
    MappedElf.findSymbolLoop_eq_none (j := i) (Nat.zero_le i) (by omega)] at hdefined
  · cases hdefined
  · show elf.hasName _ (symbolAt file elf.sectTable.symtabIdx i) = none
    unfold MappedElf.hasName
    rw [h.seSymbolName_eq hheaders, field_of_has (has_symbolAt hsymbols hi (by decide)), h.data]
    exact hnone _
  · intro k hpass
    unfold MappedElf.hasName at hpass
    obtain ⟨name, -, hpass⟩ := Option.bind_eq_some_iff.mp hpass
    rw [h.data] at hpass
    have hlong := length_lt_of_holdsString (Bytes.strEq_eq_some_true_iff.mp hpass)
    rw [List.length_append, List.length_replicate] at hlong
    omega

theorem ParsedFrom.tablesInside (h : ParsedFrom file elf) (hsafe : QuerySafe elf) :
    TablesInside file elf.sectTable.symtabIdx elf.sectTable.strtabIdx := by
  have hheaders := hsafe.headers
  rw [h.data, h.headers, h.nHeaders] at hheaders
  have hsection {i : Nat} (hin : elf.HasSection i) :
      Inside file.byteAt (sectionOffset file i) (sectionSize file i) := by
    obtain ⟨off, size, hoff, hsize, hin⟩ := hin
    rw [h.field_eq, h.sectHeader_eq] at hoff hsize
    rw [h.data] at hin
    unfold sectionOffset sectionSize FileContent.value
    rwa [hoff, hsize]
  refine ⟨hheaders, ?_, hsection hsafe.symtab, hsection hsafe.strtab, fun i hi => ?_⟩
  · have hshstrtab := hsafe.shstrtab
    rwa [h.data, h.shstrtabIdx, h.sectHeader_eq] at hshstrtab
  · refine h.terminated_of_fromName hheaders (hsection hsafe.symtab) (fun name hname => ?_) hi
    obtain ⟨found, hfound, -⟩ := hsafe.fromName name hname
    exact Option.isSome_of_eq_some hfound

theorem FirstAt.usable {symtab strtab : Nat} (hacc : HeaderAccepted file)
    (hsym : FirstAt (IsSymtab file) (sectionCount file) symtab)
    (hstr : FirstAt (IsStrtab file) (sectionCount file) strtab) : Usable file :=
  ⟨hacc, ⟨symtab, hsym.lt, hsym.ne_zero, hsym.holds⟩, ⟨strtab, hstr.lt, hstr.ne_zero, hstr.holds⟩⟩

theorem safeToQueryIn_iff {elfStore : ElfStore} :
    SafeToQueryIn file io elfStore ↔ (io.Mapped → FitsInFile file) := by
  constructor
  · rintro ⟨res, elf, hparse, hsafe⟩ hmapped
    have hlooks : LooksInside file := by
      by_contra hlooks
      cases hparse.symm.trans (seParseElfIn_of_missing hmapped hlooks elfStore)
    refine ⟨hlooks, fun hacc symtab strtab hsym hstr => ?_⟩
    obtain ⟨elf', mapped, hok, hall, hparsed⟩ :=
      seParseElfIn_of_usable hmapped hlooks (hsym.usable hacc hstr) elfStore
    cases hparse.symm.trans hok
    obtain ⟨mapped', hall', hsafe⟩ := hsafe rfl
    cases hall.symm.trans hall'
    rw [hsym.unique hparsed.symtabIdx, hstr.unique hparsed.strtabIdx]
    exact hparsed.tablesInside hsafe
  · intro hfits
    by_cases hmapped : io.Mapped
    · obtain ⟨hlooks, htables⟩ := hfits hmapped
      by_cases husable : Usable file
      · obtain ⟨elf, mapped, hok, hall, hparsed⟩ :=
          seParseElfIn_of_usable hmapped hlooks husable elfStore
        have hinside := htables husable.1 _ _ hparsed.symtabIdx hparsed.strtabIdx
        exact ⟨.OK, elf, hok, fun _ => ⟨mapped, hall, querySafe_of_tablesInside hparsed hinside⟩⟩
      · obtain ⟨res, elf, hgaveUp, hres⟩ :=
          seParseElfIn_of_unusable hmapped hlooks husable elfStore
        refine ⟨_, elf, hgaveUp, fun hok => ?_⟩
        rcases hres with rfl | rfl <;> cases hunmaps : io.unmaps <;> rw [hunmaps] at hok <;>
          cases hok
    · exact ⟨.IO_ERR, elfStore, seParseElfIn_of_not_mapped hmapped elfStore, fun hok => nomatch hok⟩

/-- **A file is safe to parse and to query exactly if the numbers in it stay inside it: nothing
else keeps the parser and the lookup of symbols from reading elsewhere.** -/
theorem safeToQuery_iff {elfStore : ElfStore} :
    SafeToQuery io elfStore ↔ (io.Mapped → FitsInFile io.content) := safeToQueryIn_iff

/-- A header that passes every check, with the section headers far behind the end of the
file. -/
def truncatedElf : FileContent :=
  ⟨[0x7f, 0x45, 0x4c, 0x46, 2, 1, 1, 0] ++ List.replicate 8 0 ++
    [2, 0, 62, 0, 1, 0, 0, 0] ++ List.replicate 8 0 ++
    -- The program headers are at 64 and the section headers at 2^40.
    [64, 0, 0, 0, 0, 0, 0, 0] ++ [0, 0, 0, 0, 0, 1, 0, 0] ++ List.replicate 6 0 ++
    [56, 0, 1, 0, 64, 0, 4, 0, 3, 0], by decide⟩

/-- The program crashes on it. -/
theorem safeToQuery_fails_truncated :
    ¬ SafeToQuery ⟨truncatedElf, true, true, true, true, fun _ => List.cons_ne_nil _ _⟩ .unset := by
  rintro ⟨res, elf, hparse, -⟩
  have hnone : seParseElfIn truncatedElf
      ⟨truncatedElf, true, true, true, true, fun _ => List.cons_ne_nil _ _⟩ .unset = none := rfl
  exact nomatch hnone.symm.trans hparse

end Spray
