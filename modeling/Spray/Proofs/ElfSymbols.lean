/-
The symbols of a parsed file are a list.

Everywhere else an ELF file is its type and the list of its symbols, and a symbol is found by
going through the list.  A file whose numbers stay inside it is parsed to something that stands
for such a list, and the lookups in the bytes of the file then find what the lookups in the list
find.
-/
import Spray.Proofs.ElfBounds

namespace Spray

open Bytes (HoldsString strEq Inside Terminated)

variable {file : FileContent} {elf : MappedElf} {abstract : ElfFile}

/-! ### What the bytes stand for -/

/-- The characters of a name, one for each byte. -/
def stringOf (bytes : List Byte) : String :=
  String.ofList (bytes.map fun b => Char.ofNat b.toNat)

/-- `ELF64_ST_TYPE` -/
def SymbolType.ofInfo (info : Nat) : SymbolType :=
  match info % 16 with
  | 0 => .STT_NOTYPE
  | 1 => .STT_OBJECT
  | 2 => .STT_FUNC
  | 3 => .STT_SECTION
  | 4 => .STT_FILE
  | n => .other n

/-- The bytes from `sym` on are that symbol. -/
structure IsSymbol (elf : MappedElf) (sym : Word) (s : ElfSym) : Prop where
  name : ∃ off bytes, elf.seSymbolName sym = some off ∧ 0#8 ∉ bytes ∧
    HoldsString elf.data.byteAt off bytes ∧ s.name = stringOf bytes
  value : ∃ v, elf.field sym Sym.stValue = some v ∧ s.stValue = BitVec.ofNat 64 v
  size : ∃ v, elf.field sym Sym.stSize = some v ∧ s.stSize = BitVec.ofNat 64 v
  type : ∃ v, elf.field sym Sym.stInfo = some v ∧ s.type = SymbolType.ofInfo v

/-- The file has that type and these symbols. -/
structure IsElfFile (elf : MappedElf) (abstract : ElfFile) : Prop where
  type : abstract.type = elf.type
  symbols : ∃ symtab,
    (∀ test, elf.findSymbol test =
      MappedElf.findSymbolLoop test symtab abstract.symtab.length 0) ∧
    ∀ i s, abstract.symtab[i]? = some s → IsSymbol elf (symAt symtab i) s

theorem stringOf_inj {bytes bytes' : List Byte} (h : stringOf bytes = stringOf bytes') :
    bytes = bytes' := by
  have hchar : Function.Injective fun b : Byte => Char.ofNat b.toNat := by
    intro b b' heq
    have hvalid : ∀ b : Byte, (Char.ofNat b.toNat).toNat = b.toNat := by decide +kernel
    have hnat : b.toNat = b'.toNat := by
      rw [← hvalid b, ← hvalid b']
      exact congrArg Char.toNat heq
    exact BitVec.eq_of_toNat_eq hnat
  exact hchar.list_map (String.ofList_inj.mp h)

/-! ### Every parsed file stands for one -/

theorem exists_isSymbol (h : ParsedFrom file elf)
    (htables : TablesInside file elf.sectTable.symtabIdx elf.sectTable.strtabIdx) {i : Nat}
    (hi : i < symbolCount file elf.sectTable.symtabIdx) :
    ∃ s, IsSymbol elf (symbolAt file elf.sectTable.symtabIdx i) s := by
  have hfield {f : Field} (hf : f.off + f.size ≤ sizeofSym) :
      elf.field (symbolAt file elf.sectTable.symtabIdx i) f =
        some (file.value (symbolAt file elf.sectTable.symtabIdx i) f) := by
    rw [h.field_eq, field_of_has (has_symbolAt htables.symbols hi hf)]
  obtain ⟨bytes, hbytes, hholds⟩ := htables.names i hi
  exact ⟨⟨stringOf bytes, _, _, _⟩,
    ⟨_, bytes, seSymbolName_symbolAt h htables hi, hbytes, by rw [h.data]; exact hholds, rfl⟩,
    ⟨_, hfield (by decide), rfl⟩, ⟨_, hfield (by decide), rfl⟩, ⟨_, hfield (by decide), rfl⟩⟩

theorem exists_isElfFile (h : ParsedFrom file elf)
    (htables : TablesInside file elf.sectTable.symtabIdx elf.sectTable.strtabIdx) :
    ∃ abstract, IsElfFile elf abstract := by
  have hall : ∀ i : Fin (symbolCount file elf.sectTable.symtabIdx),
      ∃ s, IsSymbol elf (symbolAt file elf.sectTable.symtabIdx i) s :=
    fun i => exists_isSymbol h htables i.isLt
  choose symbol hsymbol using hall
  refine ⟨⟨elf.type, List.ofFn symbol⟩, rfl, sectionOffset file elf.sectTable.symtabIdx,
    fun test => ?_, fun i s hs => ?_⟩
  · rw [List.length_ofFn]
    exact h.findSymbol_eq htables.headers test
  · obtain ⟨hi, heq⟩ := List.getElem?_eq_some_iff.mp hs
    rw [List.getElem_ofFn] at heq
    rw [← heq]
    exact hsymbol ⟨i, by rwa [List.length_ofFn] at hi⟩

/-! ### The lookups agree -/

/-- The loop goes through the symbols as `find?` does through the list. -/
theorem findSymbolLoop_rel {test : Word → Option Bool} {p : ElfSym → Bool} {symtab : Word}
    {l : List ElfSym} {i : Nat}
    (hsymbols : ∀ k s, l[k]? = some s → IsSymbol elf (symAt symtab (i + k)) s)
    (htest : ∀ sym s, IsSymbol elf sym s → test sym = some (p s)) :
    ∃ found, MappedElf.findSymbolLoop test symtab l.length i = some found ∧
      Option.Rel (IsSymbol elf) found (l.find? p) := by
  induction l generalizing i with
  | nil => exact ⟨none, rfl, .none⟩
  | cons s l ih =>
      have hfirst : IsSymbol elf (symAt symtab i) s := hsymbols 0 s rfl
      rw [List.length_cons, MappedElf.findSymbolLoop, htest _ _ hfirst, List.find?_cons]
      cases p s with
      | true => exact ⟨some (symAt symtab i), rfl, .some hfirst⟩
      | false =>
          refine ih fun k s hs => ?_
          rw [Nat.add_assoc, Nat.add_comm 1 k]
          exact hsymbols (k + 1) s hs

theorem IsElfFile.findSymbol_rel (h : IsElfFile elf abstract) {test : Word → Option Bool}
    {p : ElfSym → Bool} (htest : ∀ sym s, IsSymbol elf sym s → test sym = some (p s)) :
    ∃ found, elf.findSymbol test = some found ∧
      Option.Rel (IsSymbol elf) found (abstract.symtab.find? p) := by
  obtain ⟨symtab, hfind, hsymbols⟩ := h.symbols
  rw [hfind]
  exact findSymbolLoop_rel (fun k s hs => by rw [Nat.zero_add]; exact hsymbols k s hs) htest

/-- **Looking up a name in the file finds the symbol that is found in the list.** -/
theorem IsElfFile.seSymbolFromName (h : IsElfFile elf abstract) {name : List Byte}
    (hname : 0#8 ∉ name) :
    ∃ found, elf.seSymbolFromName name = some found ∧
      Option.Rel (IsSymbol elf) found (Spray.seSymbolFromName (stringOf name) abstract) := by
  refine h.findSymbol_rel fun sym s hs => ?_
  obtain ⟨off, bytes, hoff, hbytes, hholds, heq⟩ := hs.name
  unfold MappedElf.hasName
  rw [hoff, heq]
  show strEq elf.data.byteAt off name = _
  rw [hholds.strEq_eq hbytes hname]
  congr 1
  exact decide_eq_decide.mpr ⟨congrArg stringOf, stringOf_inj⟩

/-- **So does looking up an address.** -/
theorem IsElfFile.seSymbolFromAddr (h : IsElfFile elf abstract) (addr : DbgAddr) :
    ∃ found, elf.seSymbolFromAddr addr = some found ∧
      Option.Rel (IsSymbol elf) found (Spray.seSymbolFromAddr addr abstract) := by
  refine h.findSymbol_rel fun sym s hs => ?_
  obtain ⟨value, hvalue, hstart⟩ := hs.value
  obtain ⟨size, hsize, hlen⟩ := hs.size
  unfold MappedElf.coversAddr MappedElf.seSymbolStartAddr MappedElf.seSymbolEndAddr
  rw [hvalue, hsize]
  unfold Spray.seSymbolStartAddr Spray.seSymbolEndAddr
  rw [hstart, hlen]
  by_cases hle : BitVec.ofNat 64 value ≤ addr.value
  · simp [andAlso, hle]
  · simp [andAlso, hle]

/-- A section header, as far as the parser looks at it. -/
def smallShdr (name type off size entsize : Byte) : List Byte :=
  [name, 0, 0, 0, type, 0, 0, 0] ++ List.replicate 16 0 ++ [off, 0, 0, 0, 0, 0, 0, 0] ++
    [size, 0, 0, 0, 0, 0, 0, 0] ++ List.replicate 16 0 ++ [entsize, 0, 0, 0, 0, 0, 0, 0]

/-- A program with a function `f` of 8 bytes at `0x10`. -/
def smallElf : FileContent :=
  ⟨[0x7f, 0x45, 0x4c, 0x46, 2, 1, 1, 0] ++ List.replicate 8 0 ++
    [2, 0, 62, 0, 1, 0, 0, 0] ++ List.replicate 8 0 ++
    [64, 0, 0, 0, 0, 0, 0, 0] ++ [107, 0, 0, 0, 0, 0, 0, 0] ++ List.replicate 6 0 ++
    [56, 0, 1, 0, 64, 0, 3, 0, 1, 0] ++
    -- From 64 on, one table for all names, and from 83 on the symbol.
    [0] ++ symtabName ++ [0] ++ strtabName ++ [0] ++ cString ['f'] ++ [0] ++
    [17, 0, 0, 0, 0x12, 0, 0, 0] ++ [0x10, 0, 0, 0, 0, 0, 0, 0] ++ [8, 0, 0, 0, 0, 0, 0, 0] ++
    List.replicate 64 0 ++ smallShdr 9 3 64 19 0 ++ smallShdr 1 2 83 24 24, by decide +kernel⟩

example :
    (do
      let (res, elf) ← seParseElf
        ⟨smallElf, true, true, true, true, fun _ => List.cons_ne_nil _ _⟩ .unset
      let elf ← elf.all
      return (res, elf.seSymbolFromName (cString ['f']), elf.seSymbolFromAddr ⟨0x12⟩)) =
    some (.OK, some (some 83), some (some 83)) := by decide +kernel

theorem smallElf_tablesInside : TablesInside smallElf 2 1 := by
  have hregion : ∀ a len, (∀ k < len, (smallElf.byteAt (a + BitVec.ofNat 64 k)).isSome) →
      Inside smallElf.byteAt a len := fun _ _ h => h
  refine ⟨hregion _ _ (by decide +kernel), hregion _ _ (by decide +kernel),
    hregion _ _ (by decide +kernel), hregion _ _ (by decide +kernel), fun i hi => ?_⟩
  have hone : symbolCount smallElf 2 = 1 := by decide +kernel
  have hi0 : i = 0 := by omega
  have hname : HoldsString smallElf.byteAt (symbolName smallElf 2 1 0) (cString ['f']) :=
    ⟨by decide +kernel, by decide +kernel, trivial⟩
  rw [hi0]
  exact ⟨_, by decide, hname⟩

/-! ### Any file -/

/-- A file that is accepted has been parsed for what it says. -/
theorem parsedFrom_of_ok {io : FileCalls} {elfStore elf : ElfStore}
    (hok : seParseElfIn file io elfStore = some (.OK, elf)) :
    ∃ mapped, elf.all = some mapped ∧ ParsedFrom file mapped := by
  have hmapped : io.Mapped := by
    by_contra hmapped
    cases hok.symm.trans (seParseElfIn_of_not_mapped hmapped elfStore)
  have hlooks : LooksInside file := by
    by_contra hlooks
    cases hok.symm.trans (seParseElfIn_of_missing hmapped hlooks elfStore)
  have husable : Usable file := by
    by_contra husable
    obtain ⟨res, elf', hgaveUp, hres⟩ := seParseElfIn_of_unusable hmapped hlooks husable elfStore
    rw [hok] at hgaveUp
    rcases hres with rfl | rfl <;> cases hunmaps : io.unmaps <;> rw [hunmaps] at hgaveUp <;>
      cases hgaveUp
  obtain ⟨elf', mapped, hok', hall, hparsed⟩ :=
    seParseElfIn_of_usable hmapped hlooks husable elfStore
  cases hok.symm.trans hok'
  exact ⟨mapped, hall, hparsed⟩

/-- **The bytes of a file refine the list of its symbols.**  Whatever is accepted and can be
queried stands for a list, the same one for every query, and a lookup in the bytes finds a
symbol exactly if the lookup in the list finds one, and then that one.  The bytes may be those
of the file alone, or its mapping. -/
theorem seParseElf_refines {mapping : FileContent} {io : FileCalls} {elfStore elf : ElfStore}
    (hok : seParseElfIn mapping io elfStore = some (.OK, elf))
    (hsafe : SafeToQueryIn mapping io elfStore) :
    ∃ mapped abstract, elf.all = some mapped ∧ abstract.type = mapped.type ∧
      (∀ name, 0#8 ∉ name → ∃ found, mapped.seSymbolFromName name = some found ∧
        Option.Rel (IsSymbol mapped) found (seSymbolFromName (stringOf name) abstract)) ∧
      ∀ addr, ∃ found, mapped.seSymbolFromAddr addr = some found ∧
        Option.Rel (IsSymbol mapped) found (seSymbolFromAddr addr abstract) := by
  obtain ⟨mapped, hall, hparsed⟩ := parsedFrom_of_ok hok
  obtain ⟨res, elf', hparse, hquery⟩ := hsafe
  cases hok.symm.trans hparse
  obtain ⟨mapped', hall', hquery⟩ := hquery rfl
  cases hall.symm.trans hall'
  obtain ⟨abstract, habstract⟩ := exists_isElfFile hparsed (hparsed.tablesInside hquery)
  exact ⟨mapped, abstract, hall, habstract.type, fun _ => habstract.seSymbolFromName,
    habstract.seSymbolFromAddr⟩

/-- A parser that is given a small program. -/
theorem seParseElf_refines_small : ∃ mapped abstract,
    mapped.data = smallElf ∧ abstract.type = mapped.type ∧
      (∀ name, 0#8 ∉ name → ∃ found, mapped.seSymbolFromName name = some found ∧
        Option.Rel (IsSymbol mapped) found (seSymbolFromName (stringOf name) abstract)) ∧
      ∀ addr, ∃ found, mapped.seSymbolFromAddr addr = some found ∧
        Option.Rel (IsSymbol mapped) found (seSymbolFromAddr addr abstract) := by
  let io : FileCalls := ⟨smallElf, true, true, true, true, fun _ => List.cons_ne_nil _ _⟩
  obtain ⟨elf, small, hok, hall, hdata, hsymtab, hstrtab⟩ : ∃ elf small,
      seParseElfIn smallElf io .unset = some (.OK, elf) ∧ elf.all = some small ∧
        small.data = smallElf ∧ small.sectTable.symtabIdx = 2 ∧ small.sectTable.strtabIdx = 1 :=
    ⟨_, _, rfl, rfl, rfl, rfl, rfl⟩
  have hsafe : SafeToQuery io .unset := by
    refine ⟨_, elf, hok, fun _ => ⟨small, hall, ?_⟩⟩
    obtain ⟨parsed, hparsed, hfrom⟩ := parsedFrom_of_ok hok
    cases hall.symm.trans hparsed
    refine querySafe_of_tablesInside hfrom ?_
    rw [hsymtab, hstrtab]
    exact smallElf_tablesInside
  obtain ⟨mapped, abstract, hmapped, hrefines⟩ := seParseElf_refines hok hsafe
  cases hall.symm.trans hmapped
  exact ⟨small, abstract, hdata, hrefines⟩

end Spray
