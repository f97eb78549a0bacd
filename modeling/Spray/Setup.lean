/-
Starting to debug a program (`src/info.c`, `src/debugger.c`).

The debug information comes from the program's file, and the load address from the first line of
the tracee's `/proc/<pid>/maps` file.
-/
import Spray.ElfParse
import Spray.Format
import Spray.Monad

namespace Spray

/-! ### Debug information -/

/-- The values of the enumeration, which are what C compares. -/
def ElfParseResult.value : ElfParseResult → Nat
  | .OK => 0
  | .IO_ERR => 1
  | .INVALID => 2
  | .DISLIKE => 3

def SprayResult.value : SprayResult → Nat
  | .ok => 0
  | .err => 1

/-- Which of the allocations succeed. -/
structure Allocations where
  elf : Bool
  symbols : Bool
  info : Bool
  deriving DecidableEq, Repr

/-- What `init_debug_info` returns a pointer to, apart from the symbols, of which there are none
yet. -/
structure InitialInfo (D : Type) where
  elf : ElfStore
  dbg : D

/-- The debug information of the program at a path, or none if that is `NULL`.  `sdDwarfInit`
loads the DWARF information, and parsing the ELF file can end outside the file. -/
def initDebugInfo {D : Type} (sdDwarfInit : String → Option D) (files : String → FileCalls)
    (allocs : Allocations) : Option String → Option (Option (InitialInfo D))
  | none => some none
  | some filepath =>
      match sdDwarfInit filepath with
      | none => some none
      | some dbg =>
          if !allocs.elf then some none else do
            let (elfRes, elf) ← seParseElf (files filepath) .unset
            if elfRes.value = SprayResult.err.value then return none
            else if !allocs.symbols then return none
            else if !allocs.info then return none
            else return some ⟨elf, dbg⟩

/-! ### The load address -/

variable {W : Type} (env : Env W)

/-- `getdelim` from the start of a file: what is there up to and including the delimiter, or
the whole file if there is none, and nothing from a file that is empty. -/
def getdelim (delim : Char) (file : String) : Option String :=
  let front := file.toList.takeWhile (· ≠ delim)
  let rest := file.toList.dropWhile (· ≠ delim)
  if file.toList = [] then none else some (String.ofList (front ++ rest.take 1))

def isDynExec (info : DebugInfo) : Bool := info.elf.type = .DYN

/-- Set the load address, given the content of `/proc/<pid>/maps` if it can be opened. -/
def initLoadAddress (procMap : Option String) : DbgM W Unit := do
  if isDynExec env.info then
    match procMap.bind (getdelim '-') with
    | none => throw .aborted
    | some addr =>
      match parseBase16 addr with
      | none => throw .aborted
      | some loadAddress => modify fun d => { d with loadAddress := ⟨loadAddress⟩ }
  else modify fun d => { d with loadAddress := ⟨0⟩ }

end Spray
