/-
Printing source code (`src/print-source.scm`, and `color-tokens` of `src/tokenize.scm`).

A window of the file's lines around the current one is printed, each with its number.  The
window is cut out of the list of lines by one computation and numbered by another.
-/
import Spray.Lib.Ansi
import Spray.Tokenize

namespace Spray

/-- What the code uses of the `traversal` and `format` eggs. -/
structure Eggs where
  sublist : List (List Token) → (start stop : Int) → List (List Token)
  mapIndexed : (List Token → Nat → Text) → List (List Token) → List Text
  /-- The directive `~4d`. -/
  format4d : Int → Text

variable (eggs : Eggs)

/-! ### Colors -/

/-- The names in a types environment, or none if it is not one. -/
abbrev TypesEnv := Option (List Text)

def isTypeInEnv (env : TypesEnv) (type : Text) : Bool :=
  match env with
  | some types => types.any (· = type)
  | none => false

def defColor (color : String) : Text := Ansi.sequence ('[' :: color.toList)

def literalColor : Text := defColor "31"
def typeColor : Text := defColor "32"
def operatorColor : Text := defColor "33"
def constantColor : Text := defColor "34"
def keywordColor : Text := defColor "35"
def commentColor : Text := defColor "96"
def noColor : Text := defColor "0"

def pickBeforeColor (typesEnv : TypesEnv) (token : Token) : Text :=
  match token.tag with
  | .keyword => keywordColor
  | .preprocDirective => keywordColor
  | .operator => operatorColor
  | .primType => typeColor
  | .literal => literalColor
  | .constant => constantColor
  | .identifier => if isTypeInEnv typesEnv token.text then typeColor else []
  | .comment | .commentText | .uncomment | .trailingUncomment => commentColor
  | _ => []

def beforeColor (typesEnv : TypesEnv) (useColor : Bool) (token : Token) : Text :=
  if useColor then pickBeforeColor typesEnv token else []

def afterColor (useColor : Bool) : Text := if useColor then noColor else []

def formatToken (typesEnv : TypesEnv) (useColor : Bool) (token : Token) : Text :=
  beforeColor typesEnv useColor token ++ token.text ++ afterColor useColor

def accumulateStrings (strs : List Text) : Text := strs.foldr (· ++ ·) []

def formatTokens (typesEnv : TypesEnv) (useColor : Bool) (tokens : List Token) : Text :=
  accumulateStrings (tokens.map (formatToken typesEnv useColor))

/-! ### Line numbers -/

/-- `char-whitespace?`. -/
def charWhitespace (c : Char) : Bool := c.toNat = 32 || (9 ≤ c.toNat && c.toNat ≤ 13)

/-- Check if `tokens` contains any non-whitespace text. -/
def visibleContent (tokens : List Token) : Bool :=
  (tokens.map Token.text).any fun tokenTextChars =>
    !(tokenTextChars.filter fun c => !charWhitespace c).isEmpty

def highlightActiveLineno (currentLineno activeLineno : Int) (tokens : List Token) : Text :=
  if currentLineno = activeLineno then " -> ".toList
  else if visibleContent tokens then "    ".toList
  else []

def formatLineno (startLineno activeLineno : Int) (tokens : List Token) (offset : Nat) : Text :=
  let currentLineno := offset + startLineno
  ' ' :: eggs.format4d currentLineno ++ highlightActiveLineno currentLineno activeLineno tokens

def colorTokens (tokenLines : List (List Token)) (typesEnv : TypesEnv)
    (startLineno activeLineno : Int) (useColor : Bool) : Text :=
  accumulateStrings (eggs.mapIndexed (fun tokenLine idx =>
    formatLineno eggs startLineno activeLineno tokenLine idx ++
      formatTokens typesEnv useColor tokenLine ++ ['\n']) tokenLines)

/-! ### The window -/

def satStart (lst : List (List Token)) (start : Int) : Int :=
  if start < 0 then 0
  else if start < lst.length then start
  -- The start index is inclusive.
  else lst.length - 1

def satEnd (lst : List (List Token)) (stop : Int) : Int :=
  if stop < 0 then 0
  else if stop < lst.length then stop
  -- The end index is exclusive.
  else lst.length

/-- A sublist that does not exceed the range of `lst`. -/
def satSublist (lst : List (List Token)) (start stop : Int) : List (List Token) :=
  eggs.sublist lst (satStart lst start) (satEnd lst stop)

def startLineno (lineno nContextLines : Int) : Int :=
  if lineno > nContextLines then lineno - nContextLines else 1

/-- The window is extended downward if there are not enough lines above. -/
def endLineno (lineno nContextLines : Int) : Int :=
  lineno + nContextLines + 1 + if lineno < nContextLines then nContextLines - lineno else 0

def lineWindow (lines : List (List Token)) (lineno nContextLines : Int) : List (List Token) :=
  satSublist eggs lines (startLineno lineno nContextLines - 1) (endLineno lineno nContextLines - 1)

/-- What `print-source` displays of a source file. -/
def printedSource (tokenLines : List (List Token)) (typesEnv : TypesEnv)
    (lineno nContextLines : Int) (useColor : Bool) : Text :=
  colorTokens eggs (lineWindow eggs tokenLines lineno nContextLines) typesEnv
    (startLineno lineno nContextLines) lineno useColor

end Spray
