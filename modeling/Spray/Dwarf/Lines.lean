/-
From a PC to a line of its source file (`src/spray_dwarf.c`).

The line table of a unit is found by the unit's file path, also when it is a PC that is
looked up: the PC is mapped to a path first, and the path to a unit.
-/
import Spray.Dwarf.Subprog

namespace Spray

/-! ### File paths -/

/-- What `realpath` makes of a path: the canonical one, or it fails, with `ENOENT` or
otherwise. -/
inductive Realpath
  | path (p : String)
  | enoent
  | failed
  deriving DecidableEq, Repr

/-- `basename` of a path. -/
def basename (path : String) : String :=
  let chars := path.toList
  let trimmed := chars.reverse.dropWhile (· = '/')
  if chars = [] then "."
  else if trimmed = [] then "/"
  else String.ofList (trimmed.takeWhile (· ≠ '/')).reverse

/-- `basename` and then `dirname` of the same buffer.  The end `dirname` marks is in the
place of the base name's first character if the file is in the root directory. -/
def baseAndDirname (path : String) : String × String :=
  let chars := path.toList
  let trimmed := chars.reverse.dropWhile (· = '/')
  if chars = [] then (".", ".")
  else if trimmed = [] then ("/", if chars.length = 2 then "//" else "/")
  else
    let front := trimmed.dropWhile (· ≠ '/')
    let dir := front.dropWhile (· = '/')
    if front = [] then (basename path, ".")
    else if dir = [] then
      match front.length with
      | 1 => ("", "/")
      | 2 => ("", "//")
      | _ => (basename path, "/")
    else (basename path, String.ofList dir.reverse)

/-- The path of a DIE's file.  A unit's is put together from its directory and its name. -/
def sdGetFilepath (die : Die) : Option String :=
  if sdHasAt die .name && sdHasAt die .compDir then
    match die.name with
    | .ok fileName =>
      match die.compDir with
      | .ok dirName => some (dirName ++ "/" ++ fileName)
      | _ => none
    | _ => none
  else if sdHasAt die .declFile then
    match die.declFileText with
    | .ok declFile => some declFile
    | _ => none
  else none

def callbackFindFilepathByPc (pc : Word) : SearchCallback Die (Option String) :=
  fun die _ filepath =>
    match sdCheckPcInDie die pc with
    | .ok true => (true, sdGetFilepath die)
    | _ => (false, filepath)

def sdFilepathFromPc (pc : DbgAddr) (dbg : DwarfDebug Die) : Option String × DwarfDebug Die :=
  match sdSearchDwarfDbg (callbackFindFilepathByPc pc.value) dbg none with
  | (.ok _, dbg, filepath) => (filepath, dbg)
  | (_, dbg, _) => (none, dbg)

/-! ### Line tables -/

structure LineTable where
  lines : List LineEntry
  /-- The unit whose line context it is from. -/
  lineContext : Nat
  deriving DecidableEq, Repr

variable (realpath : String → Realpath)

def sdIsDieFromFile (die : Die) (filepath : String) : Bool :=
  match sdGetFilepath die with
  | none => false
  | some dieFilepath =>
    let (fileName, dirName) := baseAndDirname dieFilepath
    match realpath filepath with
    -- Likely, the user only gave a file name.  Only the names are compared.
    | .enoent => basename filepath = fileName
    | .path fullFilepath =>
      let (expectFileName, expectDirName) := baseAndDirname fullFilepath
      fileName = expectFileName && dirName = expectDirName
    -- `basename` and `dirname` of `NULL`.
    | .failed => fileName = "." && dirName = "."

/-- Line number and address information, unless the table is two-level. -/
def sdGetLineContext (cuDie : Die) : Option LineContext :=
  match cuDie.lineContext with
  | .ok lineContext => if lineContext.tableCount = 2 then none else some lineContext
  | _ => none

/-- The lines of a unit's table, if all can be read. -/
def srclines (cuDie : Die) : Option LineTable :=
  match sdGetLineContext cuDie with
  | none => none
  | some lineContext =>
    match lineContext.lines with
    | .ok lines => (lines.mapM Dlv.toOption).map fun lines => ⟨lines, cuDie.offset⟩
    | _ => none

def callbackGetSrclines (filepath : String) : SearchCallback Die (Option LineTable) :=
  fun cuDie _ lineTable =>
    if !sdHasTag cuDie .compileUnit then (false, lineTable)
    else if !sdIsDieFromFile realpath cuDie filepath then (false, lineTable)
    else
      match srclines cuDie with
      | none => (false, lineTable)
      | some found => (true, some found)

def sdGetLineTable (filepath : String) (dbg : DwarfDebug Die) :
    Option LineTable × DwarfDebug Die :=
  match sdSearchDwarfDbg (callbackGetSrclines realpath filepath) dbg none with
  | (.ok _, dbg, lineTable) => (lineTable, dbg)
  | (_, dbg, _) => (none, dbg)

/-- The line table that is consulted for a PC. -/
def lineTableOfPc (pc : DbgAddr) (dbg : DwarfDebug Die) : Option LineTable × DwarfDebug Die :=
  match sdFilepathFromPc pc dbg with
  | (none, dbg) => (none, dbg)
  | (some filepath, dbg) => sdGetLineTable realpath filepath dbg

/-- The line that contains the address `pc`, from index `i` on. -/
def lineIndexOfPc (pc : DbgAddr) (i : Nat) : List LineEntry → Option Nat
  | [] => none
  | line :: rest =>
    if line.addr.value < pc.value then lineIndexOfPc pc (i + 1) rest
    else
      match rest with
      | [] => some i
      | next :: _ => if pc.value < next.addr.value then some i else none

def getLineTableIndexOfPc (lineTable : LineTable) (pc : DbgAddr) : Option Nat :=
  lineIndexOfPc pc 0 lineTable.lines

def sdLineEntryFromPc (pc : DbgAddr) (dbg : DwarfDebug Die) : LineEntry × DwarfDebug Die :=
  match lineTableOfPc realpath pc dbg with
  | (none, dbg) => ({}, dbg)
  | (some lineTable, dbg) =>
    match lineTable.lines.find? (·.addr.value = pc.value) with
    | some line => ({ line with isExact := true }, dbg)
    | none =>
      match (getLineTableIndexOfPc lineTable pc).bind (lineTable.lines[·]?) with
      | none => ({}, dbg)
      | some line =>
        (if line.isOk && line.addr.value = pc.value then { line with isExact := true } else line, dbg)

/-- The line with the line number `lineno`, from index `i` on. -/
def lineIndexOfLine (lineno i : Nat) : List LineEntry → Option Nat
  | [] => none
  | line :: rest => if line.ln < lineno then lineIndexOfLine lineno (i + 1) rest else some i

def getLineTableIndexOfLine (lineTable : LineTable) (lineno : Nat) : Option Nat :=
  lineIndexOfLine lineno 0 lineTable.lines

/-- The line entry for a position in the source. -/
def sdLineEntryAt (filepath : String) (lineno : Nat) (dbg : DwarfDebug Die) :
    LineEntry × DwarfDebug Die :=
  match sdGetLineTable realpath filepath dbg with
  | (none, dbg) => ({}, dbg)
  | (some lineTable, dbg) =>
    match (getLineTableIndexOfLine lineTable lineno).bind (lineTable.lines[·]?) with
    | none => ({}, dbg)
    | some line => (line, dbg)

/-- The address of a position in the source. -/
def addrAt (filepath : String) (lineno : Nat) (dbg : DwarfDebug Die) :
    Option DbgAddr × DwarfDebug Die :=
  match sdLineEntryAt realpath filepath lineno dbg with
  | (line, dbg) => (if line.isOk then some line.addr else none, dbg)

/-! ### The lines of a function -/

/-- Run the callback on the new statements among the lines, as far as the function goes and
the callback succeeds. -/
def runOnLines {σ : Type} (callback : LineEntry → σ → SprayResult × σ) (highpc : Word) :
    List LineEntry → σ → SprayResult × σ
  | [], data => (.ok, data)
  | line :: rest, data =>
    if line.addr.value ≤ highpc then
      if line.newStatement then
        match callback line data with
        | (.err, data) => (.err, data)
        | (.ok, data) => runOnLines callback highpc rest data
      else runOnLines callback highpc rest data
    else (.ok, data)

/-- `sd_for_each_line`, with the data its callback is handed. -/
def sdForEachLineWith {σ : Type} (fnName filepath : String)
    (callback : LineEntry → σ → SprayResult × σ) (initData : σ) (dbg : DwarfDebug Die) :
    (SprayResult × σ) × DwarfDebug Die :=
  match sdGetSubprogPcRange fnName dbg with
  | (none, dbg) => ((.err, initData), dbg)
  | (some (lowpc, highpc), dbg) =>
    match sdGetLineTable realpath filepath dbg with
    | (none, dbg) => ((.err, initData), dbg)
    | (some lineTable, dbg) =>
      match getLineTableIndexOfPc lineTable ⟨lowpc⟩ with
      | none => ((.err, initData), dbg)
      | some i => (runOnLines callback highpc (lineTable.lines.drop i) initData, dbg)

/-- The entries `sd_for_each_line` calls its callback with, when that never fails. -/
def sdForEachLine (fnName filepath : String) (dbg : DwarfDebug Die) :
    List LineEntry × DwarfDebug Die :=
  match sdGetSubprogPcRange fnName dbg with
  | (none, dbg) => ([], dbg)
  | (some (lowpc, highpc), dbg) =>
    match sdGetLineTable realpath filepath dbg with
    | (none, dbg) => ([], dbg)
    | (some lineTable, dbg) =>
      match getLineTableIndexOfPc lineTable ⟨lowpc⟩ with
      | none => ([], dbg)
      | some i =>
        let inside := (lineTable.lines.drop i).takeWhile fun line => line.addr.value ≤ highpc
        (inside.filter (·.newStatement), dbg)

/-! ### The start of a function behind its prologue -/

def callbackGetFilepaths : SearchCallback Die (List String) :=
  fun cuDie _ filepaths =>
    if sdHasTag cuDie .compileUnit then
      match cuDie.srcfiles with
      | .ok srcfiles => (false, filepaths ++ srcfiles)
      | _ => (false, filepaths)
    else (false, filepaths)

/-- The file paths of all units.  The callback accepts no DIE, so that all are searched. -/
def sdGetFilepaths (dbg : DwarfDebug Die) : Option (List String) × DwarfDebug Die :=
  match sdSearchDwarfDbg callbackGetFilepaths dbg [] with
  | (.error, dbg, _) => (none, dbg)
  | (_, dbg, filepaths) => (some filepaths, dbg)

/-- Either the prologue end or the line after the first one, among the lines from that one
on. -/
def prologueEndOrNext (functionEnd : DbgAddr) (lines : List LineEntry) : Option DbgAddr :=
  match (lines.takeWhile (·.addr.value ≤ functionEnd.value)).find? (·.prologueEnd) with
  | some line => some line.addr
  | none =>
    match lines with
    | _ :: next :: _ => some next.addr
    | [firstLine] => some firstLine.addr
    | [] => none

/-- The loop over the file paths, the first of which with a line for the start is taken. -/
def effectiveStartAddr (prologueStart functionEnd : DbgAddr) :
    List String → DwarfDebug Die → Option DbgAddr × DwarfDebug Die
  | [], dbg => (none, dbg)
  | filepath :: rest, dbg =>
    match sdGetLineTable realpath filepath dbg with
    | (none, dbg) => effectiveStartAddr prologueStart functionEnd rest dbg
    | (some lineTable, dbg) =>
      match getLineTableIndexOfPc lineTable prologueStart with
      | none => effectiveStartAddr prologueStart functionEnd rest dbg
      | some firstLine => (prologueEndOrNext functionEnd (lineTable.lines.drop firstLine), dbg)

/-- The address, if there is one.  When the search for the file paths fails there is no result at
all: the `NULL` that comes of it is dereferenced. -/
def sdEffectiveStartAddr (prologueStart functionEnd : DbgAddr) (dbg : DwarfDebug Die) :
    Option (Option DbgAddr) × DwarfDebug Die :=
  match sdGetFilepaths dbg with
  | (none, dbg) => (none, dbg)
  | (some filepaths, dbg) =>
    match effectiveStartAddr realpath prologueStart functionEnd filepaths dbg with
    | (addr, dbg) => (some addr, dbg)

theorem isSome_sdEffectiveStartAddr {prologueStart functionEnd : DbgAddr} {dbg : DwarfDebug Die}
    (h : (sdGetFilepaths dbg).1.isSome) :
    (sdEffectiveStartAddr realpath prologueStart functionEnd dbg).1.isSome := by
  unfold sdEffectiveStartAddr
  generalize sdGetFilepaths dbg = found at *
  obtain ⟨_ | filepaths, dbg'⟩ := found
  · cases h
  · rfl

/-! ### The answers of the DWARF layer -/

/-- What `src/info.c` is told, when no search changes what the next one finds and the one for
file paths does not fail. -/
def DwarfDebug.answers (dbg : DwarfDebug Die) (hpaths : (sdGetFilepaths dbg).1.isSome) :
    DwarfInfo where
  sdFilepathFromPc pc := (sdFilepathFromPc pc dbg).1
  sdLineEntryFromPc pc := (sdLineEntryFromPc realpath pc dbg).1
  sdForEachLine fnName filepath := (sdForEachLine realpath fnName filepath dbg).1
  sdEffectiveStartAddr start functionEnd :=
    (sdEffectiveStartAddr realpath start functionEnd dbg).1.get
      (isSome_sdEffectiveStartAddr realpath hpaths)

end Spray
