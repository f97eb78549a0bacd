/-
What is shown of a source file.

The window around a line is found and numbered separately, and its texts have been split
into tokens and colored.  A reader still sees some lines of the file that follow each other,
each with its own number, and the arrow at the line that was asked for.
-/
import Spray.PrintSource
import Spray.Proofs.Tokenize

namespace Spray

/-- Line numbers fill four columns. -/
def lineNumber (n : Nat) : Text := List.leftpad 4 ' ' (Nat.toDigits 10 n)

/-- What the eggs are documented to do. -/
structure Eggs.Documented (eggs : Eggs) : Prop where
  sublist : ∀ (lst : List (List Token)) (start stop : Nat), start ≤ stop → stop ≤ lst.length →
    eggs.sublist lst start stop = (lst.drop start).take (stop - start)
  mapIndexed : ∀ (f : List Token → Nat → Text) (lst : List (List Token)),
    eggs.mapIndexed f lst = lst.mapIdx fun idx tokens => f tokens idx
  format4d : ∀ n : Nat, eggs.format4d n = lineNumber n

/-- The arrow, or room for it in front of a line that is not blank. -/
def lineMarker (active number : Nat) (line : Text) : Text :=
  if number = active then " -> ".toList
  else if line.any fun c => !charWhitespace c then "    ".toList
  else []

/-- The lines as a reader sees them, when the first of them has the given number. -/
def shownLines (active : Nat) : (number : Nat) → List Text → Text
  | _, [] => []
  | number, line :: rest =>
    ' ' :: lineNumber number ++ lineMarker active number line ++ line ++ '\n' ::
      shownLines active (number + 1) rest

variable {eggs : Eggs} {typesEnv : TypesEnv} {useColor : Bool}

/-! ### Colors are not seen -/

/-- A text that only sets a color, if anything. -/
def SetsColor (text : Text) : Prop :=
  ∀ rest, Ansi.strip false (text ++ rest) = Ansi.strip false rest

theorem setsColor_nil : SetsColor [] := fun _ => rfl

theorem setsColor_defColor {color : String} (h : 'm' ∉ '[' :: color.toList) :
    SetsColor (defColor color) := Ansi.strip_sequence h

theorem setsColor_ite {c : Prop} [Decidable c] {text other : Text} (htext : SetsColor text)
    (hother : SetsColor other) : SetsColor (if c then text else other) := by
  split
  · exact htext
  · exact hother

theorem pickBeforeColor_setsColor (token : Token) : SetsColor (pickBeforeColor typesEnv token) := by
  unfold pickBeforeColor
  split
  case h_7 => exact setsColor_ite (setsColor_defColor (by decide)) setsColor_nil
  case h_12 => exact setsColor_nil
  all_goals exact setsColor_defColor (by decide)

theorem formatToken_strip {token : Token} (h : Ansi.escape ∉ token.text) (rest : Text) :
    Ansi.strip false (formatToken typesEnv useColor token ++ rest) =
      token.text ++ Ansi.strip false rest := by
  have hbefore : SetsColor (beforeColor typesEnv useColor token) :=
    setsColor_ite (pickBeforeColor_setsColor token) setsColor_nil
  have hafter : SetsColor (afterColor useColor) :=
    setsColor_ite (setsColor_defColor (by decide)) setsColor_nil
  unfold formatToken
  rw [List.append_assoc, List.append_assoc, hbefore, Ansi.strip_plain h, hafter]

theorem formatTokens_strip {tokens : List Token} (h : Ansi.escape ∉ textOf tokens) (rest : Text) :
    Ansi.strip false (formatTokens typesEnv useColor tokens ++ rest) =
      textOf tokens ++ Ansi.strip false rest := by
  induction tokens with
  | nil => rfl
  | cons token tokens ih =>
      rw [textOf_cons, List.mem_append, not_or] at h
      have hsplit : formatTokens typesEnv useColor (token :: tokens) =
          formatToken typesEnv useColor token ++ formatTokens typesEnv useColor tokens := rfl
      rw [hsplit, textOf_cons, List.append_assoc, formatToken_strip h.1, ih h.2, List.append_assoc]

/-! ### Line numbers are -/

theorem escape_not_mem_lineNumber (n : Nat) : Ansi.escape ∉ lineNumber n := by
  intro hmem
  rcases List.mem_append.mp hmem with hpad | hdigit
  · have := List.eq_of_mem_replicate hpad
    exact absurd this (by decide)
  · have := Nat.isDigit_of_mem_toDigits (by decide) (by decide) hdigit
    exact absurd this (by decide)

theorem visible_iff_any (chars : Text) :
    (!(chars.filter fun c => !charWhitespace c).isEmpty) = chars.any fun c => !charWhitespace c := by
  rw [Bool.eq_iff_iff]
  simp

/-- Tokens show something if their text does. -/
theorem visibleContent_eq (tokens : List Token) :
    visibleContent tokens = (textOf tokens).any fun c => !charWhitespace c := by
  unfold visibleContent textOf
  rw [List.any_flatten]
  simp only [visible_iff_any]

theorem escape_not_mem_lineMarker (active number : Nat) (line : Text) :
    Ansi.escape ∉ lineMarker active number line := by
  unfold lineMarker
  split
  · decide
  · split
    · decide
    · exact List.not_mem_nil

theorem formatLineno_strip (documented : eggs.Documented) {tokens : List Token}
    (first active idx : Nat) (rest : Text) :
    Ansi.strip false (formatLineno eggs first active tokens idx ++ rest) =
      ' ' :: lineNumber (first + idx) ++ lineMarker active (first + idx) (textOf tokens) ++
        Ansi.strip false rest := by
  have hnumber : (idx : Int) + first = (first + idx : Nat) := by omega
  have hmarker : highlightActiveLineno (first + idx : Nat) active tokens =
      lineMarker active (first + idx) (textOf tokens) := by
    unfold highlightActiveLineno lineMarker
    simp only [visibleContent_eq, Int.natCast_inj]
  have hlabel : Ansi.escape ∉ ' ' :: lineNumber (first + idx) := by
    rw [List.mem_cons, not_or]
    exact ⟨by decide, escape_not_mem_lineNumber _⟩
  unfold formatLineno
  dsimp only
  rw [hnumber, documented.format4d, hmarker, List.append_assoc, Ansi.strip_plain hlabel,
    Ansi.strip_plain (escape_not_mem_lineMarker _ _ _), List.append_assoc]

/-! ### All lines -/

theorem formatLineno_succ (first idx : Nat) (active : Int) (tokens : List Token) :
    formatLineno eggs first active tokens (idx + 1) =
      formatLineno eggs (first + 1 : Nat) active tokens idx := by
  have hnumber : ((idx + 1 : Nat) : Int) + first = idx + (first + 1 : Nat) := by omega
  unfold formatLineno
  dsimp only
  rw [hnumber]

/-- The lines after the first are numbered from the next number on. -/
theorem colorTokens_cons (documented : eggs.Documented) (tokens : List Token)
    (tokenLines : List (List Token)) (first : Nat) (active : Int) :
    colorTokens eggs (tokens :: tokenLines) typesEnv first active useColor =
      formatLineno eggs first active tokens 0 ++ formatTokens typesEnv useColor tokens ++ ['\n'] ++
        colorTokens eggs tokenLines typesEnv (first + 1 : Nat) active useColor := by
  unfold colorTokens
  rw [documented.mapIndexed, documented.mapIndexed, List.mapIdx_cons]
  simp only [formatLineno_succ]
  rfl

/-- Lines are shown with the numbers that follow each other. -/
theorem colorTokens_strip (documented : eggs.Documented) {tokenLines : List (List Token)}
    (h : ∀ tokens ∈ tokenLines, Ansi.escape ∉ textOf tokens) (first active : Nat) :
    Ansi.strip false (colorTokens eggs tokenLines typesEnv first active useColor) =
      shownLines active first (tokenLines.map textOf) := by
  induction tokenLines generalizing first with
  | nil =>
      unfold colorTokens
      rw [documented.mapIndexed]
      rfl
  | cons tokens tokenLines ih =>
      have hrest := ih (fun tokens hmem => h tokens (List.mem_cons_of_mem _ hmem)) (first + 1)
      rw [colorTokens_cons documented, List.append_assoc, List.append_assoc,
        formatLineno_strip documented, formatTokens_strip (h tokens List.mem_cons_self),
        Ansi.strip_plain (by decide), hrest, List.map_cons, shownLines]
      simp

/-! ### The window -/

/-- How many lines are before the window. -/
def linesBefore (lineno nContextLines : Nat) : Nat := lineno - nContextLines - 1

/-- How many lines there are up to the end of the window, if the file has that many. -/
def linesUpTo (lineno nContextLines : Nat) : Nat :=
  lineno + nContextLines + (nContextLines - lineno)

theorem startLineno_eq (l c : Nat) : startLineno l c = linesBefore l c + 1 := by
  unfold startLineno linesBefore
  split
  · omega
  · omega

theorem endLineno_eq (l c : Nat) : endLineno l c = linesUpTo l c + 1 := by
  unfold endLineno linesUpTo
  split
  · omega
  · omega

theorem satStart_of_lt {lst : List (List Token)} {start : Nat} (h : start < lst.length) :
    satStart lst start = start := by
  unfold satStart
  rw [if_neg (by omega), if_pos (by omega)]

theorem satEnd_eq (lst : List (List Token)) (stop : Nat) :
    satEnd lst stop = (min stop lst.length : Nat) := by
  unfold satEnd
  rw [if_neg (by omega)]
  split
  · omega
  · omega

/-- The window are the lines after those before it, and has the line that was asked for. -/
theorem lineWindow_split (documented : eggs.Documented) {lines : List (List Token)} {l : Nat}
    (hpos : 0 < l) (hl : l ≤ lines.length) (c : Nat) :
    ∃ before after, lines = before ++ lineWindow eggs lines l c ++ after ∧
      before.length = linesBefore l c ∧ before.length < l ∧
      l ≤ before.length + (lineWindow eggs lines l c).length := by
  have hbefore : linesBefore l c < l := by
    unfold linesBefore
    omega
  have hupTo : l ≤ linesUpTo l c := by
    unfold linesUpTo
    omega
  have hwindow : lineWindow eggs lines l c = (lines.drop (linesBefore l c)).take
      (min (linesUpTo l c) lines.length - linesBefore l c) := by
    unfold lineWindow satSublist
    rw [startLineno_eq, endLineno_eq, Int.add_sub_cancel, Int.add_sub_cancel,
      satStart_of_lt (by omega), satEnd_eq]
    exact documented.sublist lines _ _ (by omega) (by omega)
  refine ⟨lines.take (linesBefore l c), (lines.drop (linesBefore l c)).drop
    (min (linesUpTo l c) lines.length - linesBefore l c), ?_, ?_, ?_, ?_⟩
  · rw [hwindow, List.append_assoc, List.take_append_drop, List.take_append_drop]
  · rw [List.length_take]
    omega
  · rw [List.length_take]
    omega
  · rw [hwindow, List.length_take, List.length_take, List.length_drop]
    omega

/-! ### What is printed -/

theorem map_textOf_append {lines : List Text} {tokenLines before window after : List (List Token)}
    (htexts : tokenLines.map textOf = lines) (hsplit : tokenLines = before ++ window ++ after) :
    lines = before.map textOf ++ window.map textOf ++ after.map textOf := by
  rw [← htexts, hsplit, List.map_append, List.map_append]

/-- **Without its colors, what is printed are lines of the file that follow each other, the
line that was asked for among them, each after its own number and that line after an arrow.** -/
theorem printedSource_shownLines (documented : eggs.Documented) {search : RegexSearch}
    (hsearch : FindsRegexes search) {fuel : Nat} {lines : List Text}
    (hlines : ∀ line ∈ lines, '\n' ∉ line ∧ Ansi.escape ∉ line)
    (hfuel : ∀ line ∈ lines, 3 * line.length < fuel) {l : Nat} (hpos : 0 < l)
    (hl : l ≤ lines.length) (c : Nat) (typesEnv : TypesEnv) (useColor : Bool) :
    ∃ tokenLines, tokenize search fuel lines = some (.ok tokenLines) ∧
      ∃ before shown after, lines = before ++ shown ++ after ∧ before.length < l ∧
        l ≤ before.length + shown.length ∧
        Ansi.strip false (printedSource eggs tokenLines typesEnv l c useColor) =
          shownLines l (before.length + 1) shown := by
  obtain ⟨scanned, hrun, hscanned⟩ := tokenizeLines_spec hsearch
    (fun line hmem => ⟨(hlines line hmem).1, hfuel line hmem⟩) .normal
  obtain ⟨tokenLines, htokenize, hsame⟩ := tokenize_wraps hrun
  have htexts := hsame.trans hscanned
  have hlen : tokenLines.length = lines.length := by
    rw [← htexts, List.length_map]
  obtain ⟨before, after, hsplit, hbefore, hlt, hle⟩ :=
    lineWindow_split documented hpos (hlen ▸ hl) c
  have happend := map_textOf_append htexts hsplit
  refine ⟨tokenLines, htokenize, _, _, _, happend, ?_, ?_, ?_⟩
  · rw [List.length_map]
    exact hlt
  · rw [List.length_map, List.length_map]
    exact hle
  · have hescape : ∀ tokens ∈ lineWindow eggs tokenLines l c, Ansi.escape ∉ textOf tokens := by
      intro tokens hmem
      refine (hlines (textOf tokens) ?_).2
      rw [happend]
      exact List.mem_append_left _ (List.mem_append_right _ (List.mem_map_of_mem hmem))
    have hfirst : startLineno l c = (linesBefore l c + 1 : Nat) := startLineno_eq l c
    unfold printedSource
    rw [hfirst, List.length_map, hbefore]
    exact colorTokens_strip documented hescape _ l

/-- Eggs that do what they are documented to do. -/
def documentedEggs : Eggs where
  sublist lst start stop := (lst.drop start.toNat).take (stop - start).toNat
  mapIndexed f lst := lst.mapIdx fun idx tokens => f tokens idx
  format4d n := lineNumber n.toNat

theorem documentedEggs_documented : documentedEggs.Documented where
  sublist lst start stop hle _ := by
    have hlen : ((stop : Int) - start).toNat = stop - start := by omega
    unfold documentedEggs
    dsimp only
    rw [hlen, Int.toNat_natCast]
  mapIndexed _ _ := rfl
  format4d _ := rfl

/-- A declaration after a blank line. -/
theorem printedSource_shownLines_declaration :
    let lines := [[], "int f(int n);".toList, "  /* n */".toList]
    ∃ tokenLines, tokenize searchLongest 100 lines = some (.ok tokenLines) ∧
      ∃ before shown after, lines = before ++ shown ++ after ∧ before.length < 2 ∧
        2 ≤ before.length + shown.length ∧
        Ansi.strip false (printedSource documentedEggs tokenLines none (2 : Nat) (1 : Nat) true) =
          shownLines 2 (before.length + 1) shown :=
  printedSource_shownLines documentedEggs_documented
    (fun r _ => searchLongest_findsLongest r) (by decide) (by decide) (by decide) (by decide) 1
    none true

end Spray
