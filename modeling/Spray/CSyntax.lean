/-
Tokens in C source code (`src/c-syntax.scm`).

A text is a list of characters.  The searches are those of the `regex` egg, which is not
part of the program: `search` stands for its `string-search`.
-/
import Spray.Lib.Regex

namespace Spray

abbrev Text := List Char

instance decidableMemText (text : Text) (texts : List Text) : Decidable (text ∈ texts) :=
  inferInstance

inductive TokenTag
  | other
  | keyword
  | operator
  | specialSymbol
  | constant
  | literal
  | identifier
  | primType
  | preprocDirective
  | includeFilepath
  | comment
  | uncomment
  | trailingUncomment
  | commentText
  | whitespace
  | end
  deriving DecidableEq, Repr

structure Token where
  tag : TokenTag
  text : Text
  deriving DecidableEq, Repr

def makeToken (text : Text) (tag : TokenTag) : Token := ⟨tag, text⟩

def makeTokenList (text : Text) (tag : TokenTag) : List Token := [makeToken text tag]

def makeEndToken : Token := makeToken [] .end

def isEndToken (token : Token) : Bool := token.text = [] && token.tag = .end

/-! ### Meaningful texts -/

def cKeywords : List Text :=
  ["case", "default", "if", "else", "switch", "while", "do", "for", "goto", "continue", "break",
    "return", "struct", "union", "enum", "typedef", "extern", "static", "register", "auto",
    "const", "volatile", "restrict"].map String.toList

def cOperators : List Text :=
  [">>=", "<<=", "+=", "-=", "*=", "/=", "%=", "&=", "^=", "|=", ">>", "<<", "++", "--", "->",
    "&&", "||", "<=", ">=", "==", "!=", "=", ".", "&", "!", "~", "-", "+", "*", "/", "%", "<", ">",
    "^", "|", "?", ":", "sizeof"].map String.toList

def cBuiltinTypes : List Text :=
  ["char", "short", "int", "long", "signed", "unsigned", "float", "double", "void"].map
    String.toList

def cSpecialSymbols : List Text :=
  ["(", ")", "[", "]", "\x7b", "\x7d", ",", ";", "..."].map String.toList

def cComment : List Text := ["/*".toList]

def cUncomment : List Text := ["*/".toList]

def cppComment : List Text := ["//".toList]

/-! ### Regular expressions -/

section Regexes

open Regex

/-- Any character. -/
def anyChar : Regex := noneOf ""

/-- `(u|U|l|L)*` -/
def integerSuffix (num : Nat) : Regex :=
  star (group num (alts [char 'u', char 'U', char 'l', char 'L']))

/-- `[0-9]` -/
def digit : Regex := inRanges [('0', '9')]

/-- `[Ee][+-]?[0-9]+` -/
def exponent : Regex := seqs [anyOf "Ee", opt (anyOf "+-"), plus digit]

/-- `(f|F|l|L)?` -/
def floatSuffix (num : Nat) : Regex :=
  opt (group num (alts [char 'f', char 'F', char 'l', char 'L']))

/-- `^"([^"\\]|\\[\s\S])*"` -/
def literalRegex : Regex :=
  anchored (seqs [anyOf "\"", star (group 1 (alt (noneOf "\"\\") (seq (anyOf "\\") anyChar))),
    anyOf "\""])

/-- `^[\t\r\n ]*` -/
def whitespaceRegex : Regex := anchored (star (anyOf "\t\r\n "))

/-- `^[a-zA-Z_][a-zA-Z_0-9]*` -/
def identifierRegex : Regex :=
  anchored (seq (inRanges [('a', 'z'), ('A', 'Z')] "_")
    (star (inRanges [('a', 'z'), ('A', 'Z'), ('0', '9')] "_")))

/-- `^0[xX][a-fA-F0-9]+(u|U|l|L)*` -/
def hexConstantRegex : Regex :=
  anchored (seqs [char '0', anyOf "xX", plus (inRanges [('a', 'f'), ('A', 'F'), ('0', '9')]),
    integerSuffix 1])

/-- `^0[0-7]+(u|U|l|L)*` -/
def octalConstantRegex : Regex :=
  anchored (seqs [char '0', plus (inRanges [('0', '7')]), integerSuffix 1])

/-- `^[0-9][0-9]*(u|U|l|L)*` -/
def decimalConstantRegex : Regex := anchored (seqs [digit, star digit, integerSuffix 1])

/-- `^(u|U|l|L)*'(\\.|[^\\'])+'` -/
def charConstantRegex : Regex :=
  anchored (seqs [integerSuffix 1, anyOf "'",
    plus (group 2 (alt (seq (anyOf "\\") (noneOf "\n")) (noneOf "\\'"))), anyOf "'"])

/-- `^[1-9][0-9]*[Ee][+-]?[0-9]+` -/
def sciConstantRegex : Regex := anchored (seqs [inRanges [('1', '9')], star digit, exponent])

/-- `^[0-9]*\.[0-9]+([Ee][+-]?[0-9]+)?(f|F|l|L)?` -/
def floatConstantRegexFrac : Regex :=
  anchored (seqs [star digit, char '.', plus digit, opt (group 1 exponent), floatSuffix 2])

/-- `^[0-9]+\.[0-9]*([Ee][+-]?[0-9]+)?(f|F|l|L)?` -/
def floatConstantRegexWhole : Regex :=
  anchored (seqs [plus digit, char '.', star digit, opt (group 1 exponent), floatSuffix 2])

/-- `^(#[a-z_]+)([ \t]*)([<"]([^>"\\]|\\[\s\S])*[>"])?` -/
def preprocDirectiveRegex : Regex :=
  anchored (seqs [group 1 (seq (char '#') (plus (inRanges [('a', 'z')] "_"))),
    group 2 (star (anyOf " \t")),
    opt (group 3 (seqs [anyOf "<\"",
      star (group 4 (alt (noneOf ">\"\\") (seq (anyOf "\\") anyChar))), anyOf ">\""]))])

/-- `^(\*(?!\/)|[^*])*` -/
def commentTextRegex : Regex :=
  anchored (star (group 1 (alt (seq (char '*') (notAhead (char '/'))) (noneOf "*"))))

/-- `^[^\n]*` -/
def lineCommentTextRegex : Regex := anchored (star (noneOf "\n"))

/-- `^[^ \n\t\r]*` -/
def anyRegex : Regex := anchored (star (noneOf " \n\t\r"))

/-- `^(case|default|…|restrict)[\n\t ]` -/
def keywordRegex : Regex :=
  anchored (seq (group 1 (alts [literal "case", literal "default", literal "if", literal "else",
    literal "switch", literal "while", literal "do", literal "for", literal "goto",
    literal "continue", literal "break", literal "return", literal "struct", literal "union",
    literal "enum", literal "typedef", literal "extern", literal "static", literal "register",
    literal "auto", literal "const", literal "volatile", literal "restrict"])) (anyOf "\n\t "))

/-- All expressions there are. -/
def cRegexes : List Regex :=
  [literalRegex, whitespaceRegex, identifierRegex, hexConstantRegex, octalConstantRegex,
    decimalConstantRegex, charConstantRegex, sciConstantRegex, floatConstantRegexFrac,
    floatConstantRegexWhole, preprocDirectiveRegex, commentTextRegex, lineCommentTextRegex,
    anyRegex, keywordRegex]

end Regexes

/-! ### Searches -/

/-- Where Scheme raises an error. -/
inductive SchemeError
  /-- A procedure is called with an argument of the wrong type, or out of range. -/
  | badArgument
  | error (message : String) (irritant : Text)
  deriving DecidableEq, Repr

/-- Does `text` match `regex`? -/
def regexMatch (search : RegexSearch) (regex : Regex) (text : Text) : Bool :=
  match search regex text with
  | some (full :: _) => full ≠ some []
  | _ => false

/-- The full match of `text` and `regex`. -/
def fullMatch (search : RegexSearch) (regex : Regex) (text : Text) : Except SchemeError Text :=
  match search regex text with
  | some (some full :: _) => .ok full
  | _ => .error .badArgument

end Spray
