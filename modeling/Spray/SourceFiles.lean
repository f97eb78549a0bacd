/-
Source files and the files they include (`src/print-source.scm`), and the types that are
declared in them (`c-types` of `src/c-syntax.scm`).

A source file is loaded after the files it includes.  Those that have been loaded are kept in a
table, `SourceFiles`.  What is in the files there are, and what CHICKEN makes of their paths, is
up to the `Host`.
-/
import Spray.PrintSource

namespace Spray

/-! ### Types -/

/-- Is `token` a keyword token that's a type specifier? -/
def isTypeSpecKeyword (token : Token) : Bool :=
  token.tag = .keyword &&
    (token.text = "struct".toList || token.text = "enum".toList || token.text = "union".toList)

/-- Store the identifier of the first type specification found in `tokens` in `env`. -/
def storeTypeSpec (env : List Text) : List Token → List Text
  | [] => env
  | token :: tokens =>
    if token.tag = .identifier then token.text :: env
    else if token.tag = .whitespace then storeTypeSpec env tokens
    else if isTypeSpecKeyword token then storeTypeSpec env tokens
    else env

def storeTypedef (env : List Text) (_ : List Token) : List Text := env

/-- The parts of `tokens` that begin with a keyword token, the last one first. -/
def filterKeywords (keywordTokens : List (List Token)) : List Token → List (List Token)
  | [] => keywordTokens
  | token :: tokens =>
    filterKeywords
      (if token.tag = .keyword then (token :: tokens) :: keywordTokens else keywordTokens) tokens

/-- What one part adds to the environment. -/
def extendWith (env : List Text) (tokens : List Token) : List Text :=
  match tokens with
  | [] => env
  | token :: _ =>
    if isTypeSpecKeyword token then storeTypeSpec env tokens
    else if token.text = "typedef".toList then storeTypedef env tokens
    else env

def extendTypesEnv (env : List Text) (tokenLines : List (List Token)) : List Text :=
  (filterKeywords [] tokenLines.flatten).foldl extendWith env

def makeTypesEnv (tokenLines : List (List Token)) (tokenLinesLst : List (List (List Token))) :
    TypesEnv :=
  some (tokenLinesLst.foldl extendTypesEnv (extendTypesEnv [] tokenLines))

/-! ### The lines of a file -/

/-- The part of a list from the last element but one on.  `next` is what comes after
`current`. -/
def beforeLastFrom : (current next : List Text) → Except SchemeError (List Text)
  -- The `cdr` of an empty list.
  | _, [] => .error .badArgument
  | current, [_] => .ok current
  | current, _ :: next :: rest => beforeLastFrom current.tail (next :: rest)

def beforeLast : List Text → Except SchemeError (List Text)
  | [] => .ok []
  | line :: lines => beforeLastFrom (line :: lines) lines

/-- Cut off a last line that is empty.  `set!` changes the end of `lines`, which `pen` is. -/
def omitTrailingLine (lines : List Text) : Except SchemeError (List Text) :=
  match beforeLast lines with
  | .error e => .error e
  | .ok [] => .ok []
  | .ok [_] => .error .badArgument
  | .ok (_ :: last :: rest) =>
    if last = [] then .ok (lines.take (lines.length - (last :: rest).length)) else .ok lines

/-- What the code uses of the file system, of CHICKEN and of its eggs. -/
structure Host where
  /-- The content of the file at a path, if there is one. -/
  files : Text → Option Text
  pathnameDirectory : Text → Option Text
  makePathname : (directory : Option Text) → (file : Text) → Text
  /-- `string-search` of the `regex` egg. -/
  search : RegexSearch
  /-- The order in which `hash-table->alist` lists the keys of a table. -/
  listed : List Text → List Text

variable (host : Host)

/-- All lines in the file behind `filepath`, or none if the file can't be read. -/
def fileToList (filepath : Text) : Except SchemeError (List Text) :=
  match host.files filepath with
  | some content => omitTrailingLine (content.splitOn '\n')
  | none => .ok []

/-! ### Includes -/

/-- Where a file is, and what it depends on in turn. -/
inductive Deps
  | mk (file : Text) (includes : List Deps)

def Deps.file : Deps → Text
  | mk file _ => file

def Deps.includes : Deps → List Deps
  | mk _ includes => includes

inductive SearchType
  | systemHeader
  | localHeader
  deriving DecidableEq, Repr

/-- `(substring str 1 (- (string-length str) 1))` -/
def stripPathQuotes (str : Text) : Except SchemeError Text :=
  if 2 ≤ str.length then .ok (str.drop 1).dropLast else .error .badArgument

def searchPaths : List Text := ["/usr/include", "/usr/local/include"].map String.toList

def findLocalHeader (filepath includeFilepath : Text) : Text :=
  host.makePathname (host.pathnameDirectory filepath) includeFilepath

def findSystemHeader (includeFilepath : Text) : Option Text :=
  (searchPaths.map fun path => host.makePathname (some path) includeFilepath).find?
    fun checkFilepath => (host.files checkFilepath).isSome

def searchType (filepath : Text) : SearchType :=
  if ['<'].isPrefixOf filepath then .systemHeader else .localHeader

def findLocation (filepath includeFilepath : Text) : SearchType → Option Text
  | .systemHeader => findSystemHeader host includeFilepath
  | .localHeader => some (findLocalHeader host filepath includeFilepath)

/-- The files that are included by these tokens of the file at `filepath`. -/
def filterTokenFilepaths (filepath : Text) : List Token → Except SchemeError (List Text)
  | [] => .ok []
  | token :: tokens =>
    if token.tag = .includeFilepath then
      match stripPathQuotes token.text with
      | .error e => .error e
      | .ok includeFilepath =>
        (filterTokenFilepaths filepath tokens).map fun filepaths =>
          (findLocation host filepath includeFilepath (searchType token.text)).toList ++ filepaths
    else filterTokenFilepaths filepath tokens

def filterFilepaths (filepath : Text) (tokenLines : List (List Token)) :
    Except SchemeError (List Text) :=
  filterTokenFilepaths host filepath tokenLines.flatten

/-! ### Source files -/

structure SourceFile where
  tokenLines : List (List Token)
  deps : Deps
  /-- `none` until the environment is asked for. -/
  typesEnv : TypesEnv

/-- The table of the source files that have been loaded. -/
abbrev SourceFiles := Text → Option SourceFile

def hashTableInsert (table : SourceFiles) (key : Text) (value : SourceFile) : SourceFiles :=
  fun path => if path = key then some value else table path

def sfName (sf : SourceFile) : Text := sf.deps.file

/-- What is kept while files are loaded. -/
structure Loader where
  table : SourceFiles
  /-- A record of the files that have been read, the last one first. -/
  read : List Text

/-- Load some files one after the other, and collect their dependencies. -/
def loadIncludes
    (load : Text → Loader → Option (Except SchemeError SourceFile × Loader)) :
    (filepaths : List Text) → (includes : List Deps) → Loader →
      Option (Except SchemeError (List Deps) × Loader)
  | [], includes, s => some (.ok includes, s)
  | filepath :: filepaths, includes, s =>
    match load filepath s with
    | none => none
    | some (.error e, s) => some (.error e, s)
    | some (.ok sf, s) => loadIncludes load filepaths (sf.deps :: includes) s

/-- Enough steps to split any of the lines into tokens. -/
def tokenFuel (lines : List Text) : Nat := 3 * (lines.map List.length).foldr max 0 + 1

/-- Read a file and split it into tokens. -/
def readTokens (filepath : Text) : Option (Except SchemeError (List (List Token))) :=
  match fileToList host filepath with
  | .error e => some (.error e)
  | .ok lines => tokenize host.search (tokenFuel lines) lines

/-- Load a source file, if files are included to a depth of less than `fuel`. -/
def loadSourceFile : (fuel : Nat) → (filepath : Text) → Loader →
    Option (Except SchemeError SourceFile × Loader)
  | 0, _, _ => none
  | fuel + 1, filepath, s =>
    match s.table filepath with
    -- The file has been read already.
    | some sf => some (.ok sf, s)
    | none =>
      let s := { s with read := filepath :: s.read }
      match readTokens host filepath with
      | none => none
      | some (.error e) => some (.error e, s)
      | some (.ok tokenLines) =>
        match filterFilepaths host filepath tokenLines with
        | .error e => some (.error e, s)
        | .ok filepaths =>
          match loadIncludes (loadSourceFile fuel) filepaths [] s with
          | none => none
          | some (.error e, s) => some (.error e, s)
          | some (.ok includes, s) =>
            let sf := { tokenLines, deps := .mk filepath includes, typesEnv := none }
            some (.ok sf, { s with table := hashTableInsert s.table filepath sf })

/-! ### The types environment of a file -/

mutual

/-- Add the files of a dependency tree to those that have been visited. -/
def flattenDeps (flattened : List Text) : Deps → List Text
  | .mk file includes =>
    -- Continue only if this is a new dependency.
    if file ∈ flattened then flattened else flattenIncludes (file :: flattened) includes

def flattenIncludes (flattened : List Text) : List Deps → List Text
  | [] => flattened
  | dep :: deps => flattenIncludes (flattenDeps flattened dep) deps

end

/-- All unique files in the dependency tree of a source file. -/
def sfFlatDeps (sf : SourceFile) : List Text := host.listed (flattenDeps [] sf.deps)

/-- The token lines of some files in the table. -/
def tokenLinesOf (table : SourceFiles) :
    List Text → Except SchemeError (List (List (List Token)))
  | [] => .ok []
  | dep :: deps =>
    match table dep with
    | none => .error .badArgument
    | some sf => (tokenLinesOf table deps).map (sf.tokenLines :: ·)

def sfDepsToTokenLinesLst (table : SourceFiles) (sf : SourceFile) :
    Except SchemeError (List (List (List Token))) :=
  tokenLinesOf table (sfFlatDeps host sf)

/-- The types environment of a source file.  It is made when it is asked for. -/
def sfTypesEnv (table : SourceFiles) (sf : SourceFile) :
    Except SchemeError (TypesEnv × SourceFiles) :=
  match sf.typesEnv with
  | some env => .ok (some env, table)
  | none =>
    match table (sfName sf) with
    | none => .error .badArgument
    | some sf' =>
      -- Parse the types in the source file's dependency tree.
      match sfDepsToTokenLinesLst host table sf' with
      | .error e => .error e
      | .ok [] => .error .badArgument
      | .ok (tokenLines :: tokenLinesLst) =>
        let sf' := { sf' with typesEnv := makeTypesEnv tokenLines tokenLinesLst }
        .ok (sf'.typesEnv, hashTableInsert table (sfName sf) sf')

/-! ### Printing -/

/-- What is displayed of the source around a line (`print-source`).  There always is a source
file once one has been loaded. -/
def printSource (eggs : Eggs) (fuel : Nat) (filepath : Text) (lineno nContextLines : Nat)
    (useColor : Bool) (s : Loader) : Option (Except SchemeError Text × Loader) :=
  match loadSourceFile host fuel filepath s with
  | none => none
  | some (.error e, s) => some (.error e, s)
  | some (.ok sf, s) =>
    match sfTypesEnv host s.table sf with
    | .error e => some (.error e, s)
    | .ok (typesEnv, table) =>
      some (.ok (printedSource eggs sf.tokenLines typesEnv lineno nContextLines useColor),
        { s with table })

end Spray
