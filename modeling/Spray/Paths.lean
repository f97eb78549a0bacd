/-
Shortening paths for display (`src/magic.c`).

A string ends in a `NUL`, and what is in memory behind that one is not its own: to read on
there is undefined.  A pointer into a string is the index it points to.
-/
import Spray.Monad

namespace Spray

/-- The first index at which two strings differ, their `NUL`s included.  There is none in
strings that are equal, and the search goes on behind them. -/
def firstDifference : (cwd absFilepath : List Char) → Except Halt Nat
  | c :: cwd, f :: absFilepath =>
    if c = f then (· + 1) <$> firstDifference cwd absFilepath else .ok 0
  | [], [] => .error .undefined
  | _, _ => .ok 0

/-- The part of a path that is relative to the working directory, as a pointer into the path,
given what `getcwd` returns. -/
def relativeFilepath (getcwd absFilepath : Option String) : Except Halt (Option Nat) :=
  match absFilepath, getcwd with
  | some absFilepath, some cwd => do
    let i ← firstDifference cwd.toList absFilepath.toList
    -- Behind the working directory is a slash, which is left out.
    if i = 0 then return some 0 else return some (i + 1)
  | _, _ => .ok none

/-- The string a pointer into a string points to. -/
def stringFrom (str : String) (i : Nat) : Except Halt String :=
  if i ≤ str.toList.length then .ok (String.ofList (str.toList.drop i)) else .error .undefined

/-- What is printed for a path. -/
def printAsRelativeFilepath (getcwd : Option String) (filepath : String) :
    Except Halt String := do
  match ← relativeFilepath getcwd (some filepath) with
  | some relative => stringFrom filepath relative
  | none => return filepath

end Spray
