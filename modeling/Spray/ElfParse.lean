/-
Parsing ELF files (`src/spray_elf.c`).

The file is mapped into memory, and the parser follows the offsets in it.  A pointer into the
mapping is modelled by its distance from the start, modulo 2^64 as pointers are.  A mapping ends
with a page, and behind the end of the file it has zeros up to there.  Reading a byte that it does
not have is `none`, and there is nothing after that.
-/
import Spray.Elf
import Spray.Lib.Bytes

namespace Spray

inductive Endianness
  | BIG
  | LITTLE
  deriving DecidableEq, Repr

/-- The content of a file, or of the memory that it is mapped to.  The size of a file is an
`off_t`. -/
structure FileContent where
  bytes : List Byte
  length_le : bytes.length ≤ 2 ^ 63

def FileContent.byteAt (file : FileContent) (off : Word) : Option Byte := file.bytes[off.toNat]?

def pageSize : Nat := 4096

/-- What `mmap` makes of a file: the last page of it is filled up with zeros. -/
def FileContent.paged (file : FileContent) : FileContent where
  bytes := file.bytes ++
    List.replicate ((pageSize - file.bytes.length % pageSize) % pageSize) 0
  length_le := by
    have hfile := file.length_le
    rw [List.length_append, List.length_replicate, pageSize]
    omega

structure ElfProgTable where
  nHeaders : Nat
  headers : Word
  deriving DecidableEq, Repr

structure ElfSectTable where
  nHeaders : Nat
  /-- Symbol table index in `headers`. -/
  symtabIdx : Nat
  shstrtabIdx : Nat
  strtabIdx : Nat
  headers : Word
  deriving DecidableEq, Repr

/-- What a parsed file consists of (`ElfFile` in the source). -/
structure MappedElf where
  type : ElfType
  endianness : Endianness
  progTable : ElfProgTable
  sectTable : ElfSectTable
  data : FileContent

/-- The memory that a file is parsed into; what has not been set is `none`. -/
structure ElfStore where
  type : Option ElfType
  endianness : Option Endianness
  progTable : Option ElfProgTable
  sectTable : Option ElfSectTable
  data : Option FileContent

/-- Fresh from `malloc`. -/
def ElfStore.unset : ElfStore := ⟨none, none, none, none, none⟩

/-- The file, if every field of it has been set. -/
def ElfStore.all (elf : ElfStore) : Option MappedElf := do
  return ⟨← elf.type, ← elf.endianness, ← elf.progTable, ← elf.sectTable, ← elf.data⟩

/-! ### The structures in the file -/

/-- Where a field is in its structure, and how many bytes it has. -/
structure Field where
  off : Nat
  size : Nat
  deriving DecidableEq, Repr

def FileContent.field (file : FileContent) (base : Word) (f : Field) : Option Nat :=
  Bytes.readLE file.byteAt f.size (base + BitVec.ofNat 64 f.off)

/-- `Elf64_Ehdr` -/
def Ehdr.eIdent (i : Nat) : Field := ⟨i, 1⟩
def Ehdr.eType : Field := ⟨16, 2⟩
def Ehdr.eMachine : Field := ⟨18, 2⟩
def Ehdr.eVersion : Field := ⟨20, 4⟩
def Ehdr.ePhoff : Field := ⟨32, 8⟩
def Ehdr.eShoff : Field := ⟨40, 8⟩
def Ehdr.ePhentsize : Field := ⟨54, 2⟩
def Ehdr.ePhnum : Field := ⟨56, 2⟩
def Ehdr.eShentsize : Field := ⟨58, 2⟩
def Ehdr.eShnum : Field := ⟨60, 2⟩
def Ehdr.eShstrndx : Field := ⟨62, 2⟩

/-- `Elf64_Shdr` -/
def Shdr.shName : Field := ⟨0, 4⟩
def Shdr.shType : Field := ⟨4, 4⟩
def Shdr.shFlags : Field := ⟨8, 8⟩
def Shdr.shOffset : Field := ⟨24, 8⟩
def Shdr.shSize : Field := ⟨32, 8⟩
def Shdr.shLink : Field := ⟨40, 4⟩
def Shdr.shInfo : Field := ⟨44, 4⟩
def Shdr.shEntsize : Field := ⟨56, 8⟩

/-- `Elf64_Sym` -/
def Sym.stName : Field := ⟨0, 4⟩
def Sym.stInfo : Field := ⟨4, 1⟩
def Sym.stValue : Field := ⟨8, 8⟩
def Sym.stSize : Field := ⟨16, 8⟩

def sizeofPhdr : Nat := 56
def sizeofShdr : Nat := 64
def sizeofSym : Nat := 24

/-- `&sect_headers[i]` -/
def shdrAt (sectHeaders : Word) (i : Nat) : Word := sectHeaders + BitVec.ofNat 64 (sizeofShdr * i)

/-- `&symtab[i]` -/
def symAt (symtab : Word) (i : Nat) : Word := symtab + BitVec.ofNat 64 (sizeofSym * i)

/-! ### The ELF header -/

inductive ElfParseResult
  | OK
  /-- Error during I/O. -/
  | IO_ERR
  /-- Invalid file. -/
  | INVALID
  /-- Some feature used is not supported. -/
  | DISLIKE
  deriving DecidableEq, Repr

/-- How parsing ends early. -/
inductive ParseEnd
  /-- A byte was read that the mapping does not have. -/
  | outside
  | gaveUp (res : ElfParseResult)
  deriving DecidableEq, Repr

abbrev Parse := EStateM ParseEnd ElfStore

/-- Reading from the mapping while parsing. -/
def access {α : Type} : Option α → Parse α
  | none => throw .outside
  | some a => pure a

/-- A field that is checked: the values to go on with, the result for others, and what is stored
of the value. -/
structure HeaderCheck where
  field : Field
  accepts : Nat → Bool
  error : ElfParseResult
  store : Nat → ElfStore → ElfStore

def HeaderCheck.run (file : FileContent) (check : HeaderCheck) : Parse Unit := do
  let value ← access (file.field 0 check.field)
  if check.accepts value then modify (check.store value) else throw (.gaveUp check.error)

/-- A check whose value is not stored. -/
def require (field : Field) (accepts : Nat → Bool) (error : ElfParseResult) : HeaderCheck :=
  ⟨field, accepts, error, fun _ elf => elf⟩

def Endianness.ofData : Nat → Option Endianness
  | 1 => some .LITTLE
  | 2 => some .BIG
  | _ => none

def ElfType.ofEType : Nat → Option ElfType
  | 0 => some .NONE
  | 1 => some .REL
  | 2 => some .EXEC
  | 3 => some .DYN
  | 4 => some .CORE
  | _ => none

/-- The checks of `parse_elf_header`, in the order of the source. -/
def headerChecks : List HeaderCheck :=
  [ -- Is the magic number invalid?
    require (Ehdr.eIdent 0) (· = 0x7f) .INVALID,
    require (Ehdr.eIdent 1) (· = 0x45) .INVALID,
    require (Ehdr.eIdent 2) (· = 0x4c) .INVALID,
    require (Ehdr.eIdent 3) (· = 0x46) .INVALID,
    -- Is this ELF file meant for something different than 64 bit?
    require (Ehdr.eIdent 4) (· = 2) .DISLIKE,
    ⟨Ehdr.eIdent 5, fun data => data = 1 ∨ data = 2, .DISLIKE,
      fun data elf => { elf with endianness := Endianness.ofData data }⟩,
    -- `ELFOSABI_LINUX`, or `ELFOSABI_NONE` which is the same as `ELFOSABI_SYSV`
    require (Ehdr.eIdent 7) (fun osabi => osabi = 3 ∨ osabi = 0) .DISLIKE,
    require (Ehdr.eIdent 6) (· = 1) .INVALID,
    require (Ehdr.eIdent 8) (· = 0) .INVALID,
    require Ehdr.eVersion (· = 1) .INVALID,
    -- `e_type` maps to the type up to `ELF_TYPE_CORE`; the rest is reserved.
    ⟨Ehdr.eType, fun type => type ≤ 4, .INVALID,
      fun type elf => { elf with type := ElfType.ofEType type }⟩,
    -- We're x86 only here!
    require Ehdr.eMachine (· = 62) .DISLIKE,
    -- Is this file missing a program or a section header table?
    require Ehdr.ePhoff (· ≠ 0) .DISLIKE,
    require Ehdr.eShoff (· ≠ 0) .DISLIKE,
    -- Are the entry sizes in the header tables meant for 64-bit?
    require Ehdr.ePhentsize (· = sizeofPhdr) .DISLIKE,
    require Ehdr.eShentsize (· = sizeofShdr) .DISLIKE ]

/-- Stands for a number that is found in the initial section header. -/
def checkSectionHeader : Nat := 0xffff

/-- What is read from the ELF header about the tables. -/
structure TableInfo where
  progTableOff : Word
  sectTableOff : Word
  nProgHdrs : Nat
  nSectHdrs : Nat
  shstrtabIdx : Nat
  deriving DecidableEq, Repr

def parseElfHeader (file : FileContent) : Parse TableInfo := do
  headerChecks.forM (·.run file)
  let phoff ← access (file.field 0 Ehdr.ePhoff)
  let shoff ← access (file.field 0 Ehdr.eShoff)
  -- Some values don't fit the header's fields anymore.  `PN_XNUM` and `SHN_XINDEX` say so.
  let phnum ← access (file.field 0 Ehdr.ePhnum)
  let shnum ← access (file.field 0 Ehdr.eShnum)
  let shstrndx ← access (file.field 0 Ehdr.eShstrndx)
  return {
    progTableOff := BitVec.ofNat 64 phoff
    sectTableOff := BitVec.ofNat 64 shoff
    nProgHdrs := if phnum = 0xffff then checkSectionHeader else phnum
    nSectHdrs := if shnum = 0 then checkSectionHeader else shnum
    shstrtabIdx := if shstrndx = 0xffff then checkSectionHeader else shstrndx }

/-- A number, or the one from the initial section header if it stands for that. -/
def fillIn (n : Nat) (actual : Option Nat) : Option Nat :=
  if n = checkSectionHeader then actual else some n

def parseInitSection (file : FileContent) (initSectionHeader : Word) (info : TableInfo) :
    Option TableInfo := do
  let nProgHdrs ← fillIn info.nProgHdrs (file.field initSectionHeader Shdr.shInfo)
  -- `sh_size` has 64 bits, and what it is assigned to has 32.
  let nSectHdrs ← fillIn info.nSectHdrs
    ((file.field initSectionHeader Shdr.shSize).map (· % 2 ^ 32))
  let shstrtabIdx ← fillIn info.shstrtabIdx (file.field initSectionHeader Shdr.shLink)
  return { info with nProgHdrs, nSectHdrs, shstrtabIdx }

/-! ### The symbol table and the string table -/

/-- `a && b`, where `b` is not evaluated if `a` is false. -/
def andAlso (a b : Option Bool) : Option Bool := do
  if ← a then b else return false

/-- Is the `SHF_ALLOC` bit of a section's flags unset? -/
def isAllocUnset (flags : Nat) : Bool := (BitVec.ofNat 64 flags) &&& 2 = 0

def cString (s : List Char) : List Byte := s.map fun c => BitVec.ofNat 8 c.toNat

/-- `".symtab"` -/
def symtabName : List Byte := cString ['.', 's', 'y', 'm', 't', 'a', 'b']

/-- `".strtab"` -/
def strtabName : List Byte := cString ['.', 's', 't', 'r', 't', 'a', 'b']

/-- `SHT_SYMTAB` is 2.  `SHF_ALLOC` is always set for .dynsym. -/
def isValidSymtab (file : FileContent) (shdr name : Word) : Option Bool :=
  andAlso (Bytes.strEq file.byteAt name symtabName) <|
  andAlso ((file.field shdr Shdr.shType).map (· = 2)) <|
  andAlso ((file.field shdr Shdr.shFlags).map isAllocUnset) <|
  (file.field shdr Shdr.shEntsize).map (· = sizeofSym)

/-- `SHT_STRTAB` is 3. -/
def isValidStrtab (file : FileContent) (shdr name : Word) : Option Bool :=
  andAlso (Bytes.strEq file.byteAt name strtabName) <|
  andAlso ((file.field shdr Shdr.shType).map (· = 3)) <|
  (file.field shdr Shdr.shFlags).map isAllocUnset

/-- The indices found so far; 0, which is a reserved index, is none. -/
structure TableIndices where
  symtab : Nat
  strtab : Nat
  deriving DecidableEq, Repr

/-- The body of the loop over the section headers. -/
def findTablesAt (file : FileContent) (sectHeaders shstrtab : Word) (i : Nat)
    (found : TableIndices) : Option TableIndices := do
  let curHdr := shdrAt sectHeaders i
  let shName ← file.field curHdr Shdr.shName
  let name := shstrtab + BitVec.ofNat 64 shName
  if (← isValidSymtab file curHdr name) ∧ found.symtab = 0 then
    return { found with symtab := i }
  else if (← isValidStrtab file curHdr name) ∧ found.strtab = 0 then
    return { found with strtab := i }
  else return found

/-- The loop with `n` headers left, the next of which is at index `i`. -/
def findTablesLoop (file : FileContent) (sectHeaders shstrtab : Word) :
    Nat → Nat → TableIndices → Option TableIndices
  | 0, _, found => some found
  | n + 1, i, found => do
      let found ← findTablesAt file sectHeaders shstrtab i found
      findTablesLoop file sectHeaders shstrtab n (i + 1) found

def findTableSections (file : FileContent) (sectHeaders : Word) (nSectHdrs : Nat)
    (shstrtab : Word) : Option (SprayResult × TableIndices) := do
  let found ← findTablesLoop file sectHeaders shstrtab nSectHdrs 0 ⟨0, 0⟩
  return (if found.symtab ≠ 0 ∧ found.strtab ≠ 0 then .ok else .err, found)

/-! ### Parsing a file -/

/-- Store what was found, if both tables were. -/
def storeTables (file : FileContent) (info : TableInfo) (tables : SprayResult × TableIndices) :
    Parse Unit :=
  let (res, found) := tables
  if res = .err then throw (.gaveUp .INVALID)
  else modify fun elf => { elf with
    sectTable := some
      ⟨info.nSectHdrs, found.symtab, info.shstrtabIdx, found.strtab, info.sectTableOff⟩
    progTable := some ⟨info.nProgHdrs, info.progTableOff⟩
    data := some file }

/-- What is done with the mapped file. -/
def parseMapped (file : FileContent) : Parse Unit := do
  let header ← parseElfHeader file
  let sectHeaders := header.sectTableOff
  let info ← access (parseInitSection file sectHeaders header)
  let shstrtabHdr := shdrAt sectHeaders info.shstrtabIdx
  let shstrtab ← access (file.field shstrtabHdr Shdr.shOffset)
  let tables ←
    access (findTableSections file sectHeaders info.nSectHdrs (BitVec.ofNat 64 shstrtab))
  storeTables file info tables

/-- What becomes of the system calls of `se_parse_elf`. -/
structure FileCalls where
  content : FileContent
  /-- `open` -/
  opens : Bool
  /-- `lseek` -/
  seeks : Bool
  /-- `mmap` -/
  maps : Bool
  /-- `munmap` -/
  unmaps : Bool
  /-- A mapping has at least one byte. -/
  not_empty : maps = true → content.bytes ≠ []

/-- The result and what the memory for the file then holds, if the bytes that can be read are
those of `mapping`.  There is none if another one is read. -/
def seParseElfIn (mapping : FileContent) (io : FileCalls) (elfStore : ElfStore) :
    Option (ElfParseResult × ElfStore) :=
  if !io.opens then some (.IO_ERR, elfStore)
  else if !io.seeks then some (.IO_ERR, elfStore)
  else if !io.maps then some (.IO_ERR, elfStore)
  else
    match parseMapped mapping elfStore with
    | .ok () elf => some (.OK, elf)
    | .error .outside _ => none
    | .error (.gaveUp res) elf => some (if io.unmaps then res else .IO_ERR, elf)

/-- Parse the file, all of which has been mapped. -/
def seParseElf (io : FileCalls) (elfStore : ElfStore) : Option (ElfParseResult × ElfStore) :=
  seParseElfIn io.content.paged io elfStore

/-! ### Symbol table interface -/

namespace MappedElf

variable (elf : MappedElf)

def field (base : Word) (f : Field) : Option Nat := elf.data.field base f

def sectHeader (i : Nat) : Word := shdrAt elf.sectTable.headers i

/-- The loop with `n` symbols left, the next of which is at index `i`. -/
def findSymbolLoop (test : Word → Option Bool) (symtab : Word) :
    Nat → Nat → Option (Option Word)
  | 0, _ => some none
  | n + 1, i => do
      if ← test (symAt symtab i) then return some (symAt symtab i)
      else findSymbolLoop test symtab n (i + 1)

/-- The first symbol that passes the test.  The division is undefined for an entry size
of 0. -/
def findSymbol (test : Word → Option Bool) : Option (Option Word) := do
  let symtabHdr := elf.sectHeader elf.sectTable.symtabIdx
  let symtab ← elf.field symtabHdr Shdr.shOffset
  let size ← elf.field symtabHdr Shdr.shSize
  let entsize ← elf.field symtabHdr Shdr.shEntsize
  if entsize = 0 then none
  else findSymbolLoop test (BitVec.ofNat 64 symtab) (size / entsize) 0

/-- Where the symbol's name is in the file. -/
def seSymbolName (sym : Word) : Option Word := do
  let strtab ← elf.field (elf.sectHeader elf.sectTable.strtabIdx) Shdr.shOffset
  let stName ← elf.field sym Sym.stName
  return BitVec.ofNat 64 strtab + BitVec.ofNat 64 stName

def seSymbolStartAddr (sym : Word) : Option DbgAddr := do
  return ⟨BitVec.ofNat 64 (← elf.field sym Sym.stValue)⟩

def seSymbolEndAddr (sym : Word) : Option DbgAddr := do
  return ⟨BitVec.ofNat 64 (← elf.field sym Sym.stValue) +
    BitVec.ofNat 64 (← elf.field sym Sym.stSize)⟩

def hasName (name : List Byte) (sym : Word) : Option Bool := do
  Bytes.strEq elf.data.byteAt (← elf.seSymbolName sym) name

def coversAddr (addr : DbgAddr) (sym : Word) : Option Bool :=
  andAlso ((elf.seSymbolStartAddr sym).map fun start => start.value ≤ addr.value)
    ((elf.seSymbolEndAddr sym).map fun stop => stop.value ≥ addr.value)

def seSymbolFromName (name : List Byte) : Option (Option Word) := elf.findSymbol (elf.hasName name)

def seSymbolFromAddr (addr : DbgAddr) : Option (Option Word) :=
  elf.findSymbol (elf.coversAddr addr)

end MappedElf

end Spray
