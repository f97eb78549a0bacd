/-
Splitting C source code into tokens (`src/tokenize.scm`).

The scanner has a mode that is kept from line to line, and tokens that it has scanned but
not returned yet.  Both are passed along.
-/
import Spray.CSyntax

namespace Spray

/-! ### One token -/

/-- The first of the texts that `givenStr` starts with. -/
def findPrefix (givenStr : Text) (possiblePrefixes : List Text) : Option Text :=
  possiblePrefixes.find? fun possiblePrefix => possiblePrefix.isPrefixOf givenStr

def startsWith (givenStr : Text) (possiblePrefixes : List Text) : Bool :=
  (findPrefix givenStr possiblePrefixes).isSome

/-- The token of one of the given texts, which `code` starts with. -/
def scanPrefix (possiblePrefixes : List Text) (tag : TokenTag) (code : Text) :
    Except SchemeError (List Token) :=
  match findPrefix code possiblePrefixes with
  | some text => .ok (makeTokenList text tag)
  -- There is no text to cut off the code.
  | none => .error .badArgument

def startsWithComment (str : Text) : Bool := startsWith str cComment

def startsWithLineComment (str : Text) : Bool := startsWith str cppComment

def startsWithUncomment (str : Text) : Bool := startsWith str cUncomment

def startsWithOperator (str : Text) : Bool := startsWith str cOperators

def startsWithSpecialSymbol (str : Text) : Bool := startsWith str cSpecialSymbols

def scanComment : Text → Except SchemeError (List Token) := scanPrefix cComment .comment

def scanLineComment : Text → Except SchemeError (List Token) := scanPrefix cppComment .comment

def scanUncomment : Text → Except SchemeError (List Token) := scanPrefix cUncomment .uncomment

def scanTrailingUncomment : Text → Except SchemeError (List Token) :=
  scanPrefix cUncomment .trailingUncomment

def scanKeyword : Text → Except SchemeError (List Token) := scanPrefix cKeywords .keyword

def scanOperator : Text → Except SchemeError (List Token) := scanPrefix cOperators .operator

def scanSpecialSymbol : Text → Except SchemeError (List Token) :=
  scanPrefix cSpecialSymbols .specialSymbol

section Search

-- `string-search` of the `regex` egg.
variable (search : RegexSearch)

/-- The token of all that `regex` matches. -/
def scanMatch (regex : Regex) (tag : TokenTag) (code : Text) : Except SchemeError (List Token) :=
  (fullMatch search regex code).map fun text => makeTokenList text tag

def startsWithKeyword (str : Text) : Bool := regexMatch search keywordRegex str

def startsWithLiteral (str : Text) : Bool := regexMatch search literalRegex str

def startsWithWhitespace (str : Text) : Bool := regexMatch search whitespaceRegex str

def startsWithIdentifier (str : Text) : Bool := regexMatch search identifierRegex str

/-- The kinds of constants, in the order they are tried in. -/
def constantRegexes : List Regex :=
  [hexConstantRegex, octalConstantRegex, decimalConstantRegex, charConstantRegex,
    sciConstantRegex, floatConstantRegexFrac, floatConstantRegexWhole]

def startsWithConstant (str : Text) : Bool :=
  constantRegexes.any fun regex => regexMatch search regex str

def startsWithPreproc (str : Text) : Bool := regexMatch search preprocDirectiveRegex str

def startsWithAny (str : Text) : Bool := regexMatch search anyRegex str

def scanLineCommentText : Text → Except SchemeError (List Token) :=
  scanMatch search lineCommentTextRegex .commentText

def scanCommentText : Text → Except SchemeError (List Token) :=
  scanMatch search commentTextRegex .commentText

def scanLiteral : Text → Except SchemeError (List Token) := scanMatch search literalRegex .literal

def scanWhitespace : Text → Except SchemeError (List Token) :=
  scanMatch search whitespaceRegex .whitespace

def scanIdentifier (code : Text) : Except SchemeError (List Token) :=
  (fullMatch search identifierRegex code).map fun text =>
    makeTokenList text (if text ∈ cBuiltinTypes then .primType else .identifier)

def scanConstant (code : Text) : Except SchemeError (List Token) :=
  match constantRegexes.find? fun regex => regexMatch search regex code with
  | some regex => scanMatch search regex .constant code
  | none => .error (.error "scan-constant, expected to find match" code)

/-- A directive, and what follows it if that is the path to include. -/
def scanPreproc (code : Text) : Except SchemeError (List Token) :=
  match search preprocDirectiveRegex code with
  | some (_ :: some directive :: whitespace :: filepath :: _) =>
    if directive = "#include".toList then
      match filepath, whitespace with
      | none, _ => .ok (makeTokenList directive .preprocDirective)
      | some filepath, some whitespace =>
        .ok [makeToken directive .preprocDirective, makeToken whitespace .whitespace,
          makeToken filepath .includeFilepath]
      | some _, none => .error .badArgument
    else .ok (makeTokenList directive .preprocDirective)
  | _ => .error .badArgument

def scanAny : Text → Except SchemeError (List Token) := scanMatch search anyRegex .other

def scanNormalMode (code : Text) : Except SchemeError (List Token) :=
  if startsWithUncomment code then scanTrailingUncomment code
  else if startsWithKeyword search code then scanKeyword code
  else if startsWithOperator code then scanOperator code
  else if startsWithSpecialSymbol code then scanSpecialSymbol code
  else if startsWithLiteral search code then scanLiteral search code
  else if startsWithWhitespace search code then scanWhitespace search code
  else if startsWithIdentifier search code then scanIdentifier search code
  else if startsWithConstant search code then scanConstant search code
  else if startsWithPreproc search code then scanPreproc search code
  else if startsWithAny search code then scanAny search code
  else .error (.error "scan, invalid input" code)

/-! ### The scanner -/

inductive ScanMode
  | normal
  | comment
  | lineComment
  deriving DecidableEq, Repr

structure Scanner where
  mode : ScanMode
  /-- Tokens to be returned before the next one is scanned. -/
  tokenQueue : List Token
  deriving DecidableEq, Repr

/-- The next tokens in the code, and the mode after them. -/
def scan (code : Text) (newLine : Bool) (mode : ScanMode) :
    Except SchemeError (List Token × ScanMode) :=
  -- A single-line comment ends by itself.
  let mode := if mode = .lineComment && newLine then .normal else mode
  if code = [] then .ok ([], mode)
  else
    match mode with
    | .normal =>
      if startsWithComment code then (scanComment code).map (·, .comment)
      else if startsWithLineComment code then (scanLineComment code).map (·, .lineComment)
      else (scanNormalMode search code).map (·, .normal)
    | .comment =>
      if startsWithUncomment code then (scanUncomment code).map (·, .normal)
      else (scanCommentText search code).map (·, .comment)
    | .lineComment => (scanLineCommentText search code).map (·, .lineComment)

/-- The next token in the code. -/
def nextToken (code : Text) (newLine : Bool) (s : Scanner) : Except SchemeError (Token × Scanner) :=
  match s.tokenQueue with
  | token :: queue => .ok (token, { s with tokenQueue := queue })
  | [] =>
    match scan search code newLine s.mode with
    | .error e => .error e
    -- The input is over.
    | .ok ([], mode) => .ok (makeEndToken, { s with mode })
    | .ok (token :: queue, mode) => .ok (token, { mode, tokenQueue := queue })

/-- The rest of `str` after as many characters as `cutoff` has. -/
def stringCutoff (str cutoff : Text) : Except SchemeError Text :=
  if cutoff.length ≤ str.length then .ok (str.drop cutoff.length) else .error .badArgument

/-- Split the code into tokens, if that takes less than `fuel` steps. -/
def tokenizeCode : (fuel : Nat) → Text → (tokens : List Token) → (newLine : Bool) → Scanner →
    Option (Except SchemeError (List Token × Scanner))
  | 0, _, _, _, _ => none
  | fuel + 1, code, tokens, newLine, s =>
    match nextToken search code newLine s with
    | .error e => some (.error e)
    | .ok (token, s) =>
      if isEndToken token then some (.ok (tokens.reverse, s))
      else
        match stringCutoff code token.text with
        | .error e => some (.error e)
        | .ok code => tokenizeCode fuel code (token :: tokens) false s

/-- Split one line after the other into tokens. -/
def tokenizeLines (fuel : Nat) : List Text → Scanner →
    Option (Except SchemeError (List (List Token)))
  | [], _ => some (.ok [])
  | codeLine :: codeLines, s =>
    match tokenizeCode search fuel codeLine [] true s with
    | none => none
    | some (.error e) => some (.error e)
    | some (.ok (tokens, s)) =>
      match tokenizeLines fuel codeLines s with
      | some (.ok tokenLines) => some (.ok (tokens :: tokenLines))
      | other => other

end Search

/-! ### Comments that begin outside of the code -/

/-- What becomes of a line at the start: it is within the comment, or the comment ends in it. -/
inductive LeadLine
  | leadCommentEnd (tokens : List Token)
  | leadCommentLine (tokens : List Token)
  deriving DecidableEq, Repr

def LeadLine.tokens : LeadLine → List Token
  | leadCommentEnd tokens => tokens
  | leadCommentLine tokens => tokens

def isLeadComment (tokenLines : List (List Token)) : Bool :=
  (tokenLines.flatten.map Token.tag).any (· = .trailingUncomment)

def wrapLeadingCommentLine (extStr : Text) : List Token → LeadLine
  | [] => .leadCommentLine (makeTokenList extStr .commentText)
  | token :: restTokens =>
    if token.tag = .trailingUncomment then
      .leadCommentEnd (makeToken extStr .commentText :: token :: restTokens)
    else wrapLeadingCommentLine (extStr ++ token.text) restTokens

/-- The lines up to the one the comment ends in. -/
def wrapLeadingCommentLines (extLines : List (List Token)) : List (List Token) →
    Except SchemeError (List (List Token))
  -- There is a line the comment ends in.
  | [] => .error .badArgument
  | line :: restLines =>
    match wrapLeadingCommentLine [] line with
    | .leadCommentEnd tokens => .ok ((tokens :: extLines).reverse ++ restLines)
    | .leadCommentLine tokens => wrapLeadingCommentLines (tokens :: extLines) restLines

/-- Include anything up to a trailing `*/` in a comment. -/
def wrapLeadingComment (tokenLines : List (List Token)) : Except SchemeError (List (List Token)) :=
  if isLeadComment tokenLines then wrapLeadingCommentLines [] tokenLines else .ok tokenLines

/-- Split each line into tokens, if that takes less than `fuel` steps for a line. -/
def tokenize (search : RegexSearch) (fuel : Nat) (codeLines : List Text) :
    Option (Except SchemeError (List (List Token))) :=
  match tokenizeLines search fuel codeLines { mode := .normal, tokenQueue := [] } with
  | some (.ok tokenLines) => some (wrapLeadingComment tokenLines)
  | other => other

end Spray
