/-
Where break locations lead.

The documentation tells functions, addresses and lines apart by what the executable has to
offer.  The code goes by the text: what looks like an identifier is only ever looked up as
the name of a function, and only the first symbol of that name counts.
-/
import Spray.Lib.Split
import Spray.Proofs.Numbers
import Spray.Dwarf.Lines
import Spray.Location

namespace Spray

open Numeral

/-! ### Locations as documented -/

variable {info : DebugInfo} {lineEntryAt : String → Nat → LineEntry} {loc : String}

/-- A function of this name, with a known line table, effectively starts at the address. -/
def NamesFunction (info : DebugInfo) (loc : String) (addr : DbgAddr) : Prop :=
  ∃ sym ∈ info.elf.symtab, sym.name = loc ∧ functionStartAddr ⟨sym, none⟩ info = some addr

/-- A hexadecimal literal, with the prefix `0x` or without. -/
def HexLiteral (loc : String) (v : Nat) : Prop :=
  ∃ mark digits, loc.toList = mark ++ digits ∧
    (mark = [] ∨ mark = ['0', 'x'] ∨ mark = ['0', 'X']) ∧ digits ≠ [] ∧
    (∀ c ∈ digits, isDigit 16 c) ∧ v = value 16 digits

def FileLine (loc file : String) (line : Nat) : Prop :=
  ∃ digits, loc.toList = file.toList ++ ':' :: digits ∧ file.toList ≠ [] ∧ ':' ∉ file.toList ∧
    digits ≠ [] ∧ (∀ c ∈ digits, isDigit 10 c) ∧ line = value 10 digits

/-- A function comes before an address, and that before a line. -/
structure ResolvesAsDocumented (info : DebugInfo) (lineEntryAt : String → Nat → LineEntry)
    (loc : String) (res : Option DbgAddr) : Prop where
  function : (∃ addr, NamesFunction info loc addr) →
    ∃ addr, NamesFunction info loc addr ∧ res = some addr
  address : (¬ ∃ addr, NamesFunction info loc addr) → ∀ v, HexLiteral loc v →
    ∃ addr, res = some addr ∧ addr.value.toNat = v
  line : (¬ ∃ addr, NamesFunction info loc addr) → (¬ ∃ v, HexLiteral loc v) →
    ∀ file line, FileLine loc file line → res = addrAtLine lineEntryAt file line
  invalid : (¬ ∃ addr, NamesFunction info loc addr) → (¬ ∃ v, HexLiteral loc v) →
    (¬ ∃ file line, FileLine loc file line) → res = none

/-- What `strtol` makes of an integer. -/
def clamped (n : Int) : Word := BitVec.ofInt 64 (max LONG_MIN (min n LONG_MAX))

/-- The text is enough to tell what is meant. -/
structure TextTells (info : DebugInfo) (lineEntryAt : String → Nat → LineEntry) (loc : String) :
    Prop where
  /-- The first symbol with the name of a function is such a function. -/
  first : (∃ addr, NamesFunction info loc addr) → isValidIdentifier loc = true →
    (symByName loc info).bind (functionStartAddr · info) ≠ none
  /-- A function whose name is no identifier starts where its name leads as another location. -/
  spelled : (∃ addr, NamesFunction info loc addr) → isValidIdentifier loc = false →
    (∃ n, Denotes 16 loc.toList n ∧ NamesFunction info loc ⟨clamped n⟩) ∨
    ∃ file line addr, FileLine loc file line ∧ line ≤ UINT_MAX ∧
      addrAtLine lineEntryAt file line = some addr ∧ NamesFunction info loc addr
  /-- An address is no identifier, and not too large for `strtol`. -/
  address : (¬ ∃ addr, NamesFunction info loc addr) → ∀ v, HexLiteral loc v →
    isValidIdentifier loc = false ∧ v < 2 ^ 63
  /-- A line number is an `unsigned`, or there is no such line. -/
  line : (¬ ∃ addr, NamesFunction info loc addr) → ∀ file line, FileLine loc file line →
    line ≤ UINT_MAX ∨ addrAtLine lineEntryAt file line = none
  /-- There are no blanks and no sign in front of an address. -/
  numeral : (¬ ∃ addr, NamesFunction info loc addr) → ∀ n, Denotes 16 loc.toList n →
    ∃ v, HexLiteral loc v

/-! ### Texts -/

theorem HexLiteral.denotes {v : Nat} (h : HexLiteral loc v) : Denotes 16 loc.toList v := by
  obtain ⟨mark, digits, hloc, hmark, hne, hdigits, rfl⟩ := h
  refine ⟨[], [], mark, digits, hloc, List.forall_mem_nil _, .inl rfl, ?_, hne, hdigits, ?_⟩
  · rcases hmark with rfl | hmark
    · exact .inl rfl
    · exact .inr ⟨rfl, hmark⟩
  · rw [if_neg (by decide)]

theorem not_denotes_of_colon {str : List Char} (h : ':' ∈ str) (n : Int) :
    ¬ Denotes 16 str n := by
  rintro ⟨spaces, sign, mark, digits, rfl, hspaces, hsign, hmark, -, hdigits, -⟩
  rcases List.mem_append.mp h with h | h
  · exact absurd (hspaces _ h) (by decide)
  rcases List.mem_append.mp h with h | h
  · rcases hsign with rfl | rfl | rfl <;> exact absurd h (by decide)
  rcases List.mem_append.mp h with h | h
  · rcases hmark with rfl | ⟨-, rfl | rfl⟩ <;> exact absurd h (by decide)
  · exact absurd (hdigits _ h) (by decide)

theorem isValidIdentifier_mem (h : isValidIdentifier loc = true) {c : Char}
    (hc : c ∈ loc.toList) : isIdentifierPart c = true := by
  unfold isValidIdentifier at h
  cases hchars : loc.toList with
  | nil =>
      rw [hchars] at hc
      cases hc
  | cons first rest =>
      rw [hchars] at h hc
      obtain ⟨hfirst, hrest⟩ := (Bool.and_eq_true _ _).mp h
      rcases List.mem_cons.mp hc with rfl | hc
      · exact (Bool.or_eq_true _ _).mpr (.inl hfirst)
      · exact List.all_eq_true.mp hrest c hc

theorem isIdentifierPart_toNat {c : Char} (h : isIdentifierPart c = true) : 48 ≤ c.toNat := by
  unfold isIdentifierPart isIdentifierStart at h
  simp only [Bool.or_eq_true, Bool.and_eq_true, decide_eq_true_eq, Char.le_def,
    UInt32.le_iff_toNat_le] at h
  show 48 ≤ c.val.toNat
  rcases h with ((⟨ha, -⟩ | ⟨hA, -⟩) | rfl) | ⟨h0, -⟩
  · exact Nat.le_trans (by decide) ha
  · exact Nat.le_trans (by decide) hA
  · decide
  · exact h0

/-- A numeral that looks like an identifier has neither blanks nor a sign. -/
theorem hexLiteral_of_identifier (h : isValidIdentifier loc = true) {n : Int}
    (hn : Denotes 16 loc.toList n) : ∃ v, HexLiteral loc v := by
  obtain ⟨spaces, sign, mark, digits, hloc, hspaces, hsign, hmark, hne, hdigits, -⟩ := hn
  have hnospaces : spaces = [] := by
    cases spaces with
    | nil => rfl
    | cons c spaces =>
        have hpart : isIdentifierPart c = true :=
          isValidIdentifier_mem h (by rw [hloc]; exact List.mem_cons_self)
        have hspace : isSpace c = true := hspaces c List.mem_cons_self
        rw [not_isSpace (Nat.le_trans (by decide) (isIdentifierPart_toNat hpart))] at hspace
        cases hspace
  have hnosign : sign = [] := by
    rcases hsign with hsign | rfl | rfl
    · exact hsign
    · have hpart := isValidIdentifier_mem h (show '+' ∈ loc.toList by rw [hloc]; simp)
      exact absurd hpart (by decide)
    · have hpart := isValidIdentifier_mem h (show '-' ∈ loc.toList by rw [hloc]; simp)
      exact absurd hpart (by decide)
  rw [hnospaces, hnosign, List.nil_append, List.nil_append] at hloc
  refine ⟨_, mark, digits, hloc, ?_, hne, hdigits, rfl⟩
  rcases hmark with hmark | ⟨-, hmark⟩
  · exact .inl hmark
  · exact .inr hmark

theorem FileLine.mem_colon {file : String} {line : Nat} (h : FileLine loc file line) :
    ':' ∈ loc.toList := by
  obtain ⟨digits, hloc, -⟩ := h
  rw [hloc]
  simp

theorem isFileWithLine_iff : isFileWithLine loc = true ↔ ∃ file line, FileLine loc file line := by
  constructor
  · intro h
    obtain ⟨file, rest, hloc, hfile, hrest⟩ := Split.exists_split (fun c => decide (c ≠ ':'))
      loc.toList
    have hcolon : ':' ∉ file := fun hmem => absurd (hfile _ hmem) (by decide)
    unfold isFileWithLine at h
    rw [hloc, Split.takeWhile_append hfile hrest, Split.dropWhile_append hfile hrest] at h
    cases rest with
    | nil => cases h
    | cons c digits =>
        have hc : c = ':' := by simpa using hrest c rfl
        subst hc
        simp only [Bool.and_eq_true, decide_eq_true_eq, List.all_eq_true] at h
        obtain ⟨⟨hne, hne'⟩, hdigits⟩ := h
        refine ⟨String.ofList file, _, digits, ?_, ?_, ?_, hne', hdigits, rfl⟩
        · rw [String.toList_ofList, hloc]
        · rw [String.toList_ofList]
          exact hne
        · rw [String.toList_ofList]
          exact hcolon
  · rintro ⟨file, line, digits, hloc, hne, hfile, hne', hdigits, -⟩
    unfold isFileWithLine
    rw [hloc, (Split.split_at hfile).1, (Split.split_at hfile).2]
    simpa [hne, hne'] using hdigits

/-- The first token of a string that starts with it. -/
theorem strtok_append {delims token rest : List Char} (hne : token ≠ [])
    (htoken : ∀ c ∈ token, c ∉ delims) (hrest : ∀ c ∈ rest.head?, c ∈ delims) :
    strtok delims (token ++ rest) = some (token, rest.tail) := by
  have hpass : ∀ c ∈ token, decide (c ∉ delims) = true := by
    intro c hc
    exact decide_eq_true (htoken c hc)
  have hstop : Split.Stops (fun c => decide (c ∉ delims)) rest := by
    intro c hc
    exact decide_eq_false fun hnot => hnot (hrest c hc)
  have hskip : (token ++ rest).dropWhile (· ∈ delims) = token ++ rest := by
    cases token with
    | nil => exact absurd rfl hne
    | cons c token =>
        exact List.dropWhile_cons_of_neg (by simpa using htoken c List.mem_cons_self)
  unfold strtok
  rw [hskip]
  cases token with
  | nil => exact absurd rfl hne
  | cons c token =>
      dsimp only [List.cons_append]
      rw [← List.cons_append, Split.takeWhile_append hpass hstop,
        Split.dropWhile_append hpass hstop]

theorem parseLineno_digits {digits : List Char} (hne : digits ≠ [])
    (hdigits : ∀ c ∈ digits, isDigit 10 c) :
    parseLineno (String.ofList digits) =
      if (value 10 digits : Int) ≤ UINT_MAX then some (value 10 digits) else none := by
  have hdenotes : Denotes 10 digits (value 10 digits) :=
    ⟨[], [], [], digits, rfl, List.forall_mem_nil _, .inl rfl, .inl rfl, hne, hdigits,
      (if_neg (by decide)).symm⟩
  obtain ⟨-, hread⟩ := (strtol_iff (by decide)).mpr ⟨_, hdenotes, rfl⟩
  unfold parseLineno
  rw [String.toList_ofList, hread]
  dsimp only
  unfold LONG_MIN LONG_MAX UINT_MAX
  by_cases hle : (value 10 digits : Int) ≤ 2 ^ 32 - 1
  · rw [if_pos ⟨hne, rfl, by omega⟩, if_pos hle]
    congr 1
    omega
  · rw [if_neg (by omega), if_neg hle]

/-! ### What the code does for each kind of text -/

theorem parseBreakLocation_identifier (h : isValidIdentifier loc = true) :
    parseBreakLocation info lineEntryAt loc =
      (symByName loc info).bind (functionStartAddr · info) := if_pos h

theorem parseBreakLocation_numeral (h : isValidIdentifier loc = false) {n : Int}
    (hn : Denotes 16 loc.toList n) :
    parseBreakLocation info lineEntryAt loc = some ⟨clamped n⟩ := by
  unfold parseBreakLocation parseBase16
  rw [h, if_neg Bool.false_ne_true, parseNum_denotes (by decide) hn]
  rfl

theorem FileLine.not_identifier {file : String} {line : Nat} (h : FileLine loc file line) :
    isValidIdentifier loc = false := by
  rw [Bool.eq_false_iff]
  intro hident
  exact absurd (isValidIdentifier_mem hident h.mem_colon) (by decide)

theorem parseBase16_eq_none (h : ∀ n, ¬ Denotes 16 loc.toList n) : parseBase16 loc = none := by
  refine Option.eq_none_iff_forall_ne_some.mpr fun w hw => ?_
  obtain ⟨n, hn, -⟩ := (parseNum_eq_some_iff (by decide)).mp hw
  exact h n hn

theorem parseBreakLocation_fileLine {file : String} {line : Nat} (h : FileLine loc file line) :
    parseBreakLocation info lineEntryAt loc =
      if (line : Int) ≤ UINT_MAX then addrAtLine lineEntryAt file line else none := by
  have hcheck : isFileWithLine loc = true := isFileWithLine_iff.mpr ⟨file, line, h⟩
  unfold parseBreakLocation
  rw [h.not_identifier, if_neg Bool.false_ne_true,
    parseBase16_eq_none (not_denotes_of_colon h.mem_colon)]
  dsimp only
  rw [if_pos hcheck]
  obtain ⟨digits, hloc, hne, hfile, hne', hdigits, rfl⟩ := h
  have hnotcolon : ∀ c ∈ file.toList, c ∉ [':'] := by
    intro c hc hmem
    rw [List.mem_singleton.mp hmem] at hc
    exact hfile hc
  have hnotcolon' : ∀ c ∈ digits, c ∉ [':'] := by
    intro c hc hmem
    rw [List.mem_singleton.mp hmem] at hc
    exact absurd (hdigits _ hc) (by decide)
  have hsecond : strtok [':'] (digits ++ []) = some (digits, []) :=
    strtok_append hne' hnotcolon' fun _ h => nomatch h
  rw [List.append_nil] at hsecond
  rw [hloc, strtok_append hne hnotcolon (by simp)]
  dsimp only [List.tail_cons]
  rw [hsecond]
  dsimp only
  rw [parseLineno_digits hne' hdigits, String.ofList_toList]
  by_cases hle : (value 10 digits : Int) ≤ UINT_MAX
  · rw [if_pos hle, if_pos hle]
  · rw [if_neg hle, if_neg hle]

theorem parseBreakLocation_other (h : isValidIdentifier loc = false)
    (hn : ∀ n, ¬ Denotes 16 loc.toList n) (hfile : ¬ ∃ file line, FileLine loc file line) :
    parseBreakLocation info lineEntryAt loc = none := by
  unfold parseBreakLocation
  rw [h, if_neg Bool.false_ne_true, parseBase16_eq_none hn]
  dsimp only
  rw [if_neg fun hcheck => hfile (isFileWithLine_iff.mp hcheck)]

/-! ### Where that is as documented -/

/-- What the first symbol of a name leads to is one of the functions of that name. -/
theorem namesFunction_of_first {addr : DbgAddr}
    (h : (symByName loc info).bind (functionStartAddr · info) = some addr) :
    NamesFunction info loc addr := by
  unfold symByName seSymbolFromName at h
  obtain ⟨func, hfunc, haddr⟩ := Option.bind_eq_some_iff.mp h
  obtain ⟨sym, hsym, rfl⟩ := Option.map_eq_some_iff.mp hfunc
  exact ⟨sym, List.mem_of_find?_eq_some hsym, by simpa using List.find?_some hsym, haddr⟩

/-- A literal is read as it is up to the bound of `strtol`. -/
theorem clamped_toNat_iff (v : Nat) : (clamped v).toNat = v ↔ v < 2 ^ 63 := by
  unfold clamped LONG_MIN LONG_MAX
  rw [BitVec.toNat_ofInt]
  omega

theorem FileLine.not_denotes {file : String} {line : Nat} (h : FileLine loc file line) :
    ∀ n, ¬ Denotes 16 loc.toList n := not_denotes_of_colon h.mem_colon

theorem FileLine.not_hexLiteral {file : String} {line : Nat} (h : FileLine loc file line) :
    ¬ ∃ v, HexLiteral loc v := fun ⟨v, hv⟩ => h.not_denotes v hv.denotes

/-- Where the location is the name of a function. -/
theorem resolves_function_iff (hfunc : ∃ addr, NamesFunction info loc addr) :
    ResolvesAsDocumented info lineEntryAt loc (parseBreakLocation info lineEntryAt loc) ↔
      TextTells info lineEntryAt loc := by
  constructor
  · intro h
    obtain ⟨addr, hnames, hres⟩ := h.function hfunc
    refine ⟨fun _ hident => ?_, fun _ hident => ?_, absurd hfunc, absurd hfunc, absurd hfunc⟩
    · rw [parseBreakLocation_identifier hident] at hres
      rw [hres]
      exact Option.some_ne_none addr
    · by_cases hnumeral : ∃ n, Denotes 16 loc.toList n
      · obtain ⟨n, hn⟩ := hnumeral
        rw [parseBreakLocation_numeral hident hn] at hres
        cases hres
        exact .inl ⟨n, hn, hnames⟩
      · by_cases hfile : ∃ file line, FileLine loc file line
        · obtain ⟨file, line, hline⟩ := hfile
          rw [parseBreakLocation_fileLine hline] at hres
          split at hres
          · rename_i hle
            exact .inr ⟨file, line, addr, hline, hle, hres, hnames⟩
          · cases hres
        · rw [parseBreakLocation_other hident (not_exists.mp hnumeral) hfile] at hres
          cases hres
  · intro h
    refine ⟨fun _ => ?_, absurd hfunc, absurd hfunc, absurd hfunc⟩
    cases hident : isValidIdentifier loc with
    | true =>
        obtain ⟨addr, haddr⟩ := Option.ne_none_iff_exists'.mp (h.first hfunc hident)
        exact ⟨addr, namesFunction_of_first haddr,
          (parseBreakLocation_identifier hident).trans haddr⟩
    | false =>
        rcases h.spelled hfunc hident with
          ⟨n, hn, hnames⟩ | ⟨file, line, addr, hline, hle, hres, hnames⟩
        · exact ⟨_, hnames, parseBreakLocation_numeral hident hn⟩
        · exact ⟨addr, hnames, by rw [parseBreakLocation_fileLine hline, if_pos hle, hres]⟩

/-- Where it is not. -/
theorem resolves_other_iff (hfunc : ¬ ∃ addr, NamesFunction info loc addr) :
    ResolvesAsDocumented info lineEntryAt loc (parseBreakLocation info lineEntryAt loc) ↔
      TextTells info lineEntryAt loc := by
  -- Then nothing that looks like an identifier leads anywhere.
  have hnowhere : isValidIdentifier loc = true →
      parseBreakLocation info lineEntryAt loc = none := by
    intro hident
    rw [parseBreakLocation_identifier hident]
    exact Option.eq_none_iff_forall_ne_some.mpr fun addr haddr =>
      hfunc ⟨addr, namesFunction_of_first haddr⟩
  constructor
  · intro h
    refine ⟨fun hex => absurd hex hfunc, fun hex => absurd hex hfunc, fun _ v hv => ?_,
      fun _ file line hline => ?_, fun _ n hn => ?_⟩
    · obtain ⟨addr, hres, hvalue⟩ := h.address hfunc v hv
      cases hident : isValidIdentifier loc with
      | true =>
          rw [hnowhere hident] at hres
          cases hres
      | false =>
          rw [parseBreakLocation_numeral hident hv.denotes] at hres
          cases hres
          exact ⟨rfl, (clamped_toNat_iff v).mp hvalue⟩
    · have hres := h.line hfunc hline.not_hexLiteral file line hline
      rw [parseBreakLocation_fileLine hline] at hres
      split at hres
      · rename_i hle
        exact .inl hle
      · exact .inr hres.symm
    · cases hident : isValidIdentifier loc with
      | true => exact hexLiteral_of_identifier hident hn
      | false =>
          by_contra hhex
          have hres := h.invalid hfunc hhex fun ⟨file, line, hline⟩ => hline.not_denotes n hn
          rw [parseBreakLocation_numeral hident hn] at hres
          cases hres
  · intro h
    refine ⟨fun hex => absurd hex hfunc, fun _ v hv => ?_, fun _ _ file line hline => ?_,
      fun _ hhex hfile => ?_⟩
    · obtain ⟨hident, hlt⟩ := h.address hfunc v hv
      exact ⟨_, parseBreakLocation_numeral hident hv.denotes, (clamped_toNat_iff v).mpr hlt⟩
    · rw [parseBreakLocation_fileLine hline]
      rcases h.line hfunc file line hline with hle | hnone
      · rw [if_pos hle]
      · rw [hnone, ite_self]
    · cases hident : isValidIdentifier loc with
      | true => exact hnowhere hident
      | false =>
          exact parseBreakLocation_other hident (fun n hn => hhex (h.numeral hfunc n hn)) hfile

/-- **A break location resolves as documented exactly if its text tells what it is.** -/
theorem resolvesAsDocumented_iff (info : DebugInfo) (lineEntryAt : String → Nat → LineEntry)
    (loc : String) :
    ResolvesAsDocumented info lineEntryAt loc (parseBreakLocation info lineEntryAt loc) ↔
      TextTells info lineEntryAt loc := by
  by_cases hfunc : ∃ addr, NamesFunction info loc addr
  · exact resolves_function_iff hfunc
  · exact resolves_other_iff hfunc

/-- On the entries of the DWARF layer, `addrAtLine` is `addr_at`. -/
theorem addrAtLine_eq_addrAt (realpath : String → Realpath) (dbg : DwarfDebug Die)
    (filepath : String) (lineno : Nat) :
    addrAtLine (fun file line => (sdLineEntryAt realpath file line dbg).1) filepath lineno =
      (addrAt realpath filepath lineno dbg).1 := rfl

/-- A program whose function `main` has its name from a variable in another file, too. -/
def sharedNameInfo : DebugInfo where
  elf := ⟨.EXEC, [⟨"main", 0x404010, 4, .STT_OBJECT⟩, ⟨"main", 0x401136, 32, .STT_FUNC⟩]⟩
  dbg := ⟨fun _ => none, fun _ => {}, fun _ _ => [], fun start _ => some start⟩

/-- The address `cafe` is taken for the name of a function, and the function behind the variable
of its name is not found. -/
theorem resolvesAsDocumented_fails :
    ¬ ResolvesAsDocumented sharedNameInfo (fun _ _ => {}) "cafe"
      (parseBreakLocation sharedNameInfo (fun _ _ => {}) "cafe") ∧
    ¬ ResolvesAsDocumented sharedNameInfo (fun _ _ => {}) "main"
      (parseBreakLocation sharedNameInfo (fun _ _ => {}) "main") := by
  have hcafe : parseBreakLocation sharedNameInfo (fun _ _ => {}) "cafe" = none := by
    decide +kernel
  have hmain : parseBreakLocation sharedNameInfo (fun _ _ => {}) "main" = none := by
    decide +kernel
  constructor
  · intro h
    have hfunc : ¬ ∃ addr, NamesFunction sharedNameInfo "cafe" addr := by
      rintro ⟨addr, sym, hsym, hname, -⟩
      rcases List.mem_pair.mp hsym with rfl | rfl
      · exact absurd hname (by decide)
      · exact absurd hname (by decide)
    obtain ⟨addr, hres, -⟩ := h.address hfunc _ ⟨[], ['c', 'a', 'f', 'e'], by simp, .inl rfl,
      by simp, List.all_eq_true.mp rfl, rfl⟩
    exact nomatch hcafe.symm.trans hres
  · intro h
    obtain ⟨addr, -, hres⟩ := h.function ⟨⟨0x401136⟩, ⟨"main", 0x401136, 32, .STT_FUNC⟩,
      by simp [sharedNameInfo], rfl, rfl⟩
    exact nomatch hmain.symm.trans hres

end Spray
