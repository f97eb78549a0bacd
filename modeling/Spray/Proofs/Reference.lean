/-
A scanner for comments alone.

It goes through the code character by character and knows nothing of tokens: there is code,
there are string and character literals, block comments and line comments.  Tokenizing is
measured against it.

Some text is taken as it is (`swallowed`): from a character that begins no token up to a
blank, and the path of an include.  The verdict on such text is what the reference scanner
takes it for: code from its start to its end, or not.
-/
import Spray.Lib.Split
import Spray.Proofs.Lexemes

namespace Spray

/-! ### The reference scanner -/

inductive RefState
  | code
  | literal (quote : Char)
  /-- Behind a backslash in a literal. -/
  | escape (quote : Char)
  /-- Between the two characters that open a block comment. -/
  | opening
  | block
  /-- Between the two characters that close it. -/
  | closing
  | line
  deriving DecidableEq, Repr

def RefState.isLiteral : RefState → Bool
  | literal _ | escape _ => true
  | code | opening | block | closing | line => false

/-- The state that the next line begins in. -/
def RefState.nextLine : RefState → RefState
  | line => code
  | s => s

/-- Whether a character in front of `next` belongs to a comment, and the state behind it.  There
is none behind a `*/` in code. -/
def refStep (next : Option Char) : RefState → Char → Option (Bool × RefState)
  | .code, c =>
    if c = '*' ∧ next = some '/' then none
    else if c = '/' ∧ next = some '*' then some (true, .opening)
    else if c = '/' ∧ next = some '/' then some (true, .line)
    else if c = '"' ∨ c = '\'' then some (false, .literal c)
    else some (false, .code)
  | .literal quote, c =>
    some (false, if c = '\\' then .escape quote else if c = quote then .code else .literal quote)
  | .escape quote, _ => some (false, .literal quote)
  | .opening, _ => some (true, .block)
  | .block, c => some (true, if c = '*' ∧ next = some '/' then .closing else .block)
  | .closing, _ => some (true, .code)
  | .line, _ => some (true, .line)

/-- Which characters of `text`, that `rest` follows, belong to a comment. -/
def refScan (rest : Text) : RefState → Text → Option (List Bool × RefState)
  | s, [] => some ([], s)
  | s, c :: text =>
    match refStep (text ++ rest).head? s c with
    | some (flag, s) => (refScan rest s text).map fun (flags, s) => (flag :: flags, s)
    | none => none

/-- The same for all lines, if every literal is closed on its line. -/
def refLines : RefState → List Text → Option (List (List Bool))
  | _, [] => some []
  | s, codeLine :: codeLines =>
    match refScan [] s codeLine with
    | some (flags, s) =>
      if s.isLiteral then none else (refLines s.nextLine codeLines).map (flags :: ·)
    | none => none

theorem refScan_cons {rest : Text} {s s' : RefState} {c : Char} {text : Text} {flags : List Bool} :
    refScan rest s (c :: text) = some (flags, s') ↔
      ∃ flag s₁ flags', refStep (text ++ rest).head? s c = some (flag, s₁) ∧
        refScan rest s₁ text = some (flags', s') ∧ flags = flag :: flags' := by
  rw [refScan]
  constructor
  · intro h
    split at h
    · rename_i flag s₁ hstep
      obtain ⟨⟨flags', s₂⟩, hscan, heq⟩ := Option.map_eq_some_iff.mp h
      cases heq
      exact ⟨flag, s₁, flags', hstep, hscan, rfl⟩
    · cases h
  · rintro ⟨flag, s₁, flags', hstep, hscan, rfl⟩
    rw [hstep]
    dsimp only
    rw [hscan]
    rfl

theorem refScan_append {rest : Text} {s s' : RefState} {text text' : Text} {flags : List Bool} :
    refScan rest s (text ++ text') = some (flags, s') ↔
      ∃ flags₁ s₁ flags₂, refScan (text' ++ rest) s text = some (flags₁, s₁) ∧
        refScan rest s₁ text' = some (flags₂, s') ∧ flags = flags₁ ++ flags₂ := by
  induction text generalizing s flags with
  | nil => simp [refScan]
  | cons c text ih =>
      rw [List.cons_append, refScan_cons, List.append_assoc]
      constructor
      · rintro ⟨flag, s₁, flags', hstep, hscan, rfl⟩
        obtain ⟨flags₁, s₂, flags₂, hfirst, hsecond, rfl⟩ := ih.mp hscan
        exact ⟨flag :: flags₁, s₂, flags₂,
          refScan_cons.mpr ⟨flag, s₁, flags₁, hstep, hfirst, rfl⟩, hsecond, rfl⟩
      · rintro ⟨flags₁, s₂, flags₂, hfirst, hsecond, rfl⟩
        obtain ⟨flag, s₁, flags', hstep, hscan, rfl⟩ := refScan_cons.mp hfirst
        exact ⟨flag, s₁, flags' ++ flags₂, hstep, ih.mpr ⟨flags', s₂, flags₂, hscan, hsecond, rfl⟩,
          rfl⟩

theorem length_of_refScan {rest : Text} {s s' : RefState} {text : Text} {flags : List Bool}
    (h : refScan rest s text = some (flags, s')) : flags.length = text.length := by
  induction text generalizing s flags with
  | nil =>
      cases h
      rfl
  | cons c text ih =>
      obtain ⟨flag, s₁, flags', -, hscan, rfl⟩ := refScan_cons.mp h
      rw [List.length_cons, List.length_cons, ih hscan]

theorem refLines_cons {s : RefState} {codeLine : Text} {codeLines : List Text}
    {flagLines : List (List Bool)} :
    refLines s (codeLine :: codeLines) = some flagLines ↔ ∃ flags s₁ flagLines',
      refScan [] s codeLine = some (flags, s₁) ∧ s₁.isLiteral = false ∧
      refLines s₁.nextLine codeLines = some flagLines' ∧ flagLines = flags :: flagLines' := by
  rw [refLines]
  constructor
  · intro h
    split at h
    · rename_i flags s₁ hscan
      split at h
      · cases h
      · rename_i hliteral
        obtain ⟨flagLines', hlines, rfl⟩ := Option.map_eq_some_iff.mp h
        exact ⟨flags, s₁, flagLines', hscan, Bool.eq_false_iff.mpr hliteral, hlines, rfl⟩
    · cases h
  · rintro ⟨flags, s₁, flagLines', hscan, hliteral, hlines, rfl⟩
    rw [hscan]
    dsimp only
    rw [hliteral, if_neg Bool.false_ne_true, hlines]
    rfl

/-! ### Text that is swallowed -/

/-- A character that a token other than a literal or a directive begins with. -/
def isPlain (c : Char) : Bool :=
  isWordChar c || [c] ∈ cOperators || [c] ∈ cSpecialSymbols || c ∈ "\t\r\n ".toList

def isDirectiveChar (c : Char) : Bool := ('a'.toNat ≤ c.toNat && c.toNat ≤ 'z'.toNat) || c = '_'

/-- No token begins like this. -/
def isStray : Text → Bool
  | [] => false
  | c :: t =>
    if c = '\'' then t.head? = some '\''
    else if c = '#' then !t.head?.any isDirectiveChar
    else c ≠ '"' && !isPlain c

def isPathEnd (c : Char) : Bool := c = '>' || c = '"'

/-- How long the path is that has been opened, its end included. -/
def pathLength : (escaped : Bool) → Text → Option Nat
  | _, [] => none
  | true, _ :: t => (pathLength false t).map (· + 1)
  | false, c :: t => if isPathEnd c then some 1 else (pathLength (c = '\\') t).map (· + 1)

/-- How long the path is that the code begins with. -/
def quotedPathLength : Text → Option Nat
  | [] => none
  | c :: t => if c = '<' ∨ c = '"' then (pathLength false t).map (· + 1) else none

/-- How long an include with a path is, if the code begins with one. -/
def includeLength : Text → Nat
  | [] => 0
  | c :: t =>
    if c = '#' ∧ t.takeWhile isDirectiveChar = "include".toList then
      let blanks := (t.dropWhile isDirectiveChar).takeWhile (· ∈ " \t".toList)
      let path := (t.dropWhile isDirectiveChar).dropWhile (· ∈ " \t".toList)
      (quotedPathLength path).elim 0 (8 + blanks.length + ·)
    else 0

/-- How much of the code is taken as it is. -/
def swallowed (code : Text) : Nat :=
  if isStray code then (code.takeWhile (· ∉ " \n\t\r".toList)).length else includeLength code

/-- What the reference scanner takes text for that is swallowed. -/
inductive Verdict
  /-- It is code. -/
  | kept
  /-- There is a comment in it. -/
  | comment
  /-- It ends in a literal. -/
  | literal
  deriving DecidableEq, Repr

def Verdict.andThen : Verdict → Verdict → Verdict
  | kept, v => v
  | v, _ => v

def textVerdict (rest text : Text) : Verdict :=
  match refScan rest .code text with
  | some (flags, s) => if true ∈ flags then .comment else if s = .code then .kept else .literal
  | none => .kept

/-- The verdict on a line, from a state on, if the next `skip` characters are passed over. -/
def lineVerdict : (skip : Nat) → RefState → Text → Verdict
  | _, _, [] => .kept
  | skip + 1, s, _ :: text => lineVerdict skip s text
  | 0, s, c :: text =>
    match if s = .code then swallowed (c :: text) else 0 with
    | 0 =>
      match refStep text.head? s c with
      | some (_, s) => lineVerdict 0 s text
      | none => .kept
    | n + 1 => (textVerdict (text.drop n) (c :: text.take n)).andThen (lineVerdict n .code text)

def linesVerdict : RefState → List Text → Verdict
  | _, [] => .kept
  | s, codeLine :: codeLines =>
    (lineVerdict 0 s codeLine).andThen <|
      match refScan [] s codeLine with
      | some (_, s) => linesVerdict s.nextLine codeLines
      | none => .kept

/-! ### Text that is passed over -/

/-- The reference scanner passes over `text`, in front of `rest`, in one kind of characters, and
none of it is swallowed. -/
structure Passes (rest : Text) (s : RefState) (text : Text) (flag : Bool) (s' : RefState) :
    Prop where
  scanned : refScan rest s text = some (List.replicate text.length flag, s')
  verdict : lineVerdict 0 s (text ++ rest) = lineVerdict 0 s' rest

namespace Passes

variable {rest text text' : Text} {s s₁ s' : RefState} {flag : Bool} {c : Char}

theorem nil (rest : Text) (s : RefState) (flag : Bool) : Passes rest s [] flag s := ⟨rfl, rfl⟩

theorem cons (hstep : refStep (text ++ rest).head? s c = some (flag, s₁))
    (hkept : s = .code → swallowed (c :: (text ++ rest)) = 0) (h : Passes rest s₁ text flag s') :
    Passes rest s (c :: text) flag s' where
  scanned := refScan_cons.mpr ⟨flag, s₁, _, hstep, h.scanned, rfl⟩
  verdict := by
    have hnone : (if s = .code then swallowed (c :: (text ++ rest)) else 0) = 0 := by
      split
      · rename_i hs
        exact hkept hs
      · rfl
    rw [List.cons_append, lineVerdict, hnone, ← h.verdict]
    dsimp only
    rw [hstep]

theorem append (h : Passes (text' ++ rest) s text flag s₁) (h' : Passes rest s₁ text' flag s') :
    Passes rest s (text ++ text') flag s' where
  scanned := refScan_append.mpr ⟨_, s₁, _, h.scanned, h'.scanned, by
    rw [List.length_append, List.replicate_add]⟩
  verdict := by rw [List.append_assoc, h.verdict, h'.verdict]

end Passes

theorem refStep_code {next : Option Char} {c : Char} (hquote : c ≠ '"' ∧ c ≠ '\'')
    (hopens : c = '/' → next ≠ some '*' ∧ next ≠ some '/')
    (hcloses : ¬ (c = '*' ∧ next = some '/')) : refStep next .code c = some (false, .code) := by
  rw [refStep, if_neg hcloses, if_neg fun h => (hopens h.1).1 h.2,
    if_neg fun h => (hopens h.1).2 h.2, if_neg (not_or.mpr hquote)]

theorem isPlain_ne {c : Char} (h : isPlain c = true) : c ≠ '"' ∧ c ≠ '\'' ∧ c ≠ '#' := by
  refine ⟨?_, ?_, ?_⟩
  all_goals
    rintro rfl
    revert h
    decide

theorem swallowed_plain {c : Char} (h : isPlain c = true) (rest : Text) :
    swallowed (c :: rest) = 0 := by
  obtain ⟨-, hquote, hhash⟩ := isPlain_ne h
  have hstray : isStray (c :: rest) = false := by
    rw [isStray, if_neg hquote, if_neg hhash, h, Bool.not_true, Bool.and_false]
  rw [swallowed, hstray, if_neg Bool.false_ne_true, includeLength, if_neg fun h => hhash h.1]

/-- Plain characters are passed over as code if no comment is opened there. -/
theorem Passes.plain {rest text : Text} {s' : RefState} {flags : List Bool}
    (hscan : refScan [] .code (text ++ rest) = some (flags, s'))
    (hplain : ∀ c ∈ text, isPlain c = true)
    (hopens : ∀ front back, text = front ++ '/' :: back →
      (back ++ rest).head? ≠ some '*' ∧ (back ++ rest).head? ≠ some '/') :
    Passes rest .code text false .code := by
  induction text generalizing flags with
  | nil => exact .nil rest .code false
  | cons c text ih =>
      obtain ⟨hc, htext⟩ := List.forall_mem_cons.mp hplain
      obtain ⟨hdouble, hsingle, -⟩ := isPlain_ne hc
      rw [List.cons_append, refScan_cons, List.append_nil] at hscan
      obtain ⟨flag, s₁, flags', hstep, hscan, -⟩ := hscan
      have hcloses : ¬ (c = '*' ∧ (text ++ rest).head? = some '/') := by
        intro h
        rw [refStep, if_pos h] at hstep
        cases hstep
      have hcode := refStep_code ⟨hdouble, hsingle⟩ (fun h => hopens [] text (by rw [h]; rfl))
        hcloses
      rw [hcode] at hstep
      cases hstep
      refine .cons hcode (fun _ => swallowed_plain hc _) (ih hscan htext ?_)
      rintro front back rfl
      exact hopens (c :: front) back rfl

/-! ### Literals -/

/-- Text between quotes: what ends it only comes behind a backslash. -/
inductive Enclosed (isEnd : Char → Bool) : Text → Prop
  | nil : Enclosed isEnd []
  | char {c : Char} {text : Text} (hc : isEnd c = false) (hne : c ≠ '\\')
      (h : Enclosed isEnd text) : Enclosed isEnd (c :: text)
  | escape {c : Char} {text : Text} (h : Enclosed isEnd text) : Enclosed isEnd ('\\' :: c :: text)

theorem Passes.enclosed {quote : Char} {body rest : Text} (h : Enclosed (· = quote) body) :
    Passes rest (.literal quote) body false (.literal quote) := by
  induction h with
  | nil => exact .nil rest _ false
  | char hc hne _ ih =>
      refine .cons ?_ nofun ih
      rw [refStep, if_neg hne, if_neg (of_decide_eq_false hc)]
  | @escape c text _ ih =>
      have hescape : Passes rest (.escape quote) (c :: text) false (.literal quote) :=
        .cons rfl nofun ih
      refine .cons ?_ nofun hescape
      rw [refStep, if_pos rfl]

/-- A literal is passed over. -/
theorem Passes.literal {quote : Char} {body rest : Text} (hquote : quote = '"' ∨ quote = '\'')
    (hkept : swallowed (quote :: (body ++ quote :: rest)) = 0) (h : Enclosed (· = quote) body) :
    Passes rest .code (quote :: (body ++ [quote])) false .code := by
  have hopen : refStep (body ++ [quote] ++ rest).head? .code quote =
      some (false, .literal quote) := by
    rw [refStep]
    rcases hquote with rfl | rfl
    · simp
    · simp
  have hclose : Passes rest (.literal quote) [quote] false .code := by
    refine .cons ?_ nofun (.nil rest .code false)
    have hne : quote ≠ '\\' := by
      rcases hquote with rfl | rfl
      · decide
      · decide
    rw [refStep, if_neg hne, if_pos rfl]
  refine .cons hopen (fun _ => ?_) (.append (.enclosed h) hclose)
  rw [List.append_assoc]
  exact hkept

/-- A literal that is closed on its line has a closing quote. -/
theorem exists_enclosed {quote : Char} {s' : RefState} (hs' : s'.isLiteral = false) (text : Text) :
    ∀ {flags : List Bool},
      (refScan [] (.literal quote) text = some (flags, s') →
        ∃ body rest, text = body ++ quote :: rest ∧ Enclosed (· = quote) body) ∧
      (refScan [] (.escape quote) text = some (flags, s') →
        ∃ c body rest, text = c :: (body ++ quote :: rest) ∧ Enclosed (· = quote) body) := by
  induction text with
  | nil =>
      intro flags
      constructor
      · intro h
        cases h
        cases hs'
      · intro h
        cases h
        cases hs'
  | cons c text ih =>
      intro flags
      constructor
      · intro h
        obtain ⟨flag, s₁, flags', hstep, hscan, -⟩ := refScan_cons.mp h
        rw [refStep] at hstep
        cases hstep
        split at hscan
        · rename_i hc
          obtain ⟨d, body, rest, rfl, hbody⟩ := ih.2 hscan
          exact ⟨c :: d :: body, rest, rfl, by rw [hc]; exact .escape hbody⟩
        · rename_i hne
          split at hscan
          · rename_i hc
            exact ⟨[], text, by rw [hc]; rfl, .nil⟩
          · rename_i hc
            obtain ⟨body, rest, rfl, hbody⟩ := ih.1 hscan
            exact ⟨c :: body, rest, rfl, .char (decide_eq_false hc) hne hbody⟩
      · intro h
        obtain ⟨flag, s₁, flags', hstep, hscan, -⟩ := refScan_cons.mp h
        cases hstep
        obtain ⟨body, rest, rfl, hbody⟩ := ih.1 hscan
        exact ⟨c, body, rest, rfl, hbody⟩

/-! ### Paths -/

theorem quotedPathLength_enclosed {quote c : Char} (hquote : quote = '<' ∨ quote = '"')
    {body : Text} (h : Enclosed isPathEnd body) (hc : isPathEnd c = true) (rest : Text) :
    quotedPathLength (quote :: (body ++ c :: rest)) = some (body.length + 2) := by
  have hpath : pathLength false (body ++ c :: rest) = some (body.length + 1) := by
    induction h with
    | nil => rw [List.nil_append, pathLength, if_pos hc, List.length_nil]
    | @char d body hd hne _ ih =>
        rw [List.cons_append, pathLength, if_neg (Bool.eq_false_iff.mp hd), decide_eq_false hne,
          ih]
        rfl
    | @escape d body _ ih =>
        have hescape : pathLength true (d :: (body ++ c :: rest)) = some (body.length + 2) := by
          rw [pathLength, ih]
          rfl
        rw [List.cons_append, List.cons_append, pathLength, if_neg (by decide),
          decide_eq_true rfl, hescape]
        rfl
  rw [quotedPathLength, if_pos hquote, hpath]
  rfl

theorem enclosed_of_pathLength {path : Text} : ∀ {n : Nat},
    (pathLength false path = some n → ∃ body c rest, path = body ++ c :: rest ∧
      Enclosed isPathEnd body ∧ isPathEnd c = true ∧ n = body.length + 1) ∧
    (pathLength true path = some n → ∃ d body c rest, path = d :: (body ++ c :: rest) ∧
      Enclosed isPathEnd body ∧ isPathEnd c = true ∧ n = body.length + 2) := by
  induction path with
  | nil => exact ⟨nofun, nofun⟩
  | cons d path ih =>
      intro n
      constructor
      · intro h
        rw [pathLength] at h
        split at h
        · rename_i hd
          cases h
          exact ⟨[], d, path, rfl, .nil, hd, rfl⟩
        · rename_i hd
          obtain ⟨m, hm, rfl⟩ := Option.map_eq_some_iff.mp h
          by_cases hescape : d = '\\'
          · rw [decide_eq_true hescape] at hm
            obtain ⟨e, body, c, rest, rfl, hbody, hc, rfl⟩ := ih.2 hm
            exact ⟨d :: e :: body, c, rest, rfl, hescape ▸ .escape hbody, hc, rfl⟩
          · rw [decide_eq_false hescape] at hm
            obtain ⟨body, c, rest, rfl, hbody, hc, rfl⟩ := ih.1 hm
            exact ⟨d :: body, c, rest, rfl,
              .char (Bool.eq_false_iff.mpr hd) hescape hbody, hc, rfl⟩
      · intro h
        rw [pathLength] at h
        obtain ⟨m, hm, rfl⟩ := Option.map_eq_some_iff.mp h
        obtain ⟨body, c, rest, rfl, hbody, hc, rfl⟩ := ih.1 hm
        exact ⟨d, body, c, rest, rfl, hbody, hc, rfl⟩

/-- How much of a directive, of the blanks behind it and of a path is taken as it is. -/
theorem includeLength_directive {name blanks rest : Text}
    (hname : ∀ c ∈ name, isDirectiveChar c = true)
    (hover : Split.Stops isDirectiveChar (blanks ++ rest))
    (hblanks : ∀ c ∈ blanks, c ∈ " \t".toList) (hstop : Split.Stops (· ∈ " \t".toList) rest) :
    includeLength ('#' :: (name ++ (blanks ++ rest))) =
      if name = "include".toList then (quotedPathLength rest).elim 0 (8 + blanks.length + ·)
      else 0 := by
  have hblanks : ∀ c ∈ blanks, decide (c ∈ " \t".toList) = true := fun c hc =>
    decide_eq_true (hblanks c hc)
  rw [includeLength, Split.takeWhile_append hname hover, Split.dropWhile_append hname hover]
  simp only [true_and]
  rw [Split.takeWhile_append hblanks hstop, Split.dropWhile_append hblanks hstop]

end Spray
