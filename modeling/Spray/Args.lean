/-
Command line arguments for spray (`src/args.c`, `src/spray.c`).

`argv` is the list of the strings in front of the `NULL` at index `argc`, of which there is
one at least.  A `char **` is the array of pointers it points to.
-/
import Spray.Magic

namespace Spray

structure Flags where
  /-- `-c`, `--no-color` -/
  noColor : Bool := false
  deriving DecidableEq, Repr

structure Args where
  flags : Flags := {}
  file : Option String := none
  args : List (Option String) := []
  nArgs : Nat := 0
  deriving DecidableEq, Repr

/-- Parse a flag starting with a single dash. -/
def parseShortFlag (flag : String) (flags : Flags) : Option Flags :=
  if flag = "-c" then some { flags with noColor := true } else none

/-- Parse a flag starting with a double dash. -/
def parseLongFlag (flag : String) (flags : Flags) : Option Flags :=
  if flag = "--no-color" then some { flags with noColor := true } else none

/-- Does an argument start with the given characters (`strncmp`)? -/
def argStartsWith (arg : String) (chars : List Char) : Bool := chars.isPrefixOf arg.toList

/-- The loop of `parse_flags` over the arguments from index `i` on. -/
def parseFlagsLoop (i : Nat) (flags : Flags) : List String → Option (Nat × Flags)
  -- There must be more arguments than just flags.
  | [] => none
  | arg :: rest =>
    if argStartsWith arg ['-', '-'] then
      match parseLongFlag arg flags with
      | none => none
      | some flags => parseFlagsLoop (i + 1) flags rest
    else if argStartsWith arg ['-'] then
      match parseShortFlag arg flags with
      | none => none
      | some flags => parseFlagsLoop (i + 1) flags rest
    -- There are no more flags.
    else some (i, flags)

/-- Parse all flags, and count the arguments they and the name of the program take up.  On
error the flags that are passed in stay what they are. -/
def parseFlags (argv : List String) (flags : Flags) : Option Nat × Flags :=
  match parseFlagsLoop 1 {} argv.tail with
  | none => (none, flags)
  | some (i, flagsBuf) => (some i, flagsBuf)

def parseArgs (argv : List String) (args : Args) : SprayResult × Args :=
  match parseFlags argv args.flags with
  | (none, flags) => (.err, { args with flags })
  | (some fileIdx, flags) =>
    let args := { args with flags, file := argv[fileIdx]? }
    -- Are there any arguments that should be passed to the debugged executable?
    if fileIdx + 1 < argv.length then
      (.ok, { args with
        args := (argv.drop fileIdx).map some ++ [none], nArgs := argv.length - fileIdx })
    else (.ok, args)

/-- The arguments before any have been set (`GLOBAL_ARGS`). -/
def globalArgs : Args := {}

/-- Replace the arguments that are set by a copy of the given ones.  The array of the copy is
terminated by a `NULL` pointer. -/
def setArgs (global args : Args) : Args :=
  { global with
    flags := args.flags, file := args.file, args := args.args.take args.nArgs ++ [none] }

/-- Set the arguments for the whole program, unless they are invalid. -/
def setupArgs (argv : List String) : Option Args :=
  match parseArgs argv {} with
  | (.err, _) => none
  | (.ok, args) => some (setArgs globalArgs args)

/-- The arguments a process is started with, given an array for `execv`: all in front of the
first `NULL` pointer. -/
def execvArgs (args : List (Option String)) : List String :=
  (args.takeWhile Option.isSome).filterMap id

end Spray
