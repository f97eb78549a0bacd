/-
The comments that are tokenized.

Tokenizing and the reference scanner go through the lines side by side: what is scanned is
what the reference scanner says of its text (`Agrees`), and so are runs of scans over a line
(`Lexes`) and over all lines.  That ends where text is swallowed that is not code.  If there
is a comment in it, there is no way back: its characters are not tokenized as comments, or the
ones in front of them are, too, because a comment is said to begin outside of the lines.
-/
import Spray.Proofs.ScannedCode

namespace Spray

/-- Where the reference scanner is while the scanner is in a mode. -/
def ScanMode.state : ScanMode → RefState
  | normal => .code
  | comment => .block
  | lineComment => .line

/-- The mode that code is scanned in. -/
def ScanMode.enter (mode : ScanMode) (newLine : Bool) : ScanMode :=
  if mode = .lineComment && newLine then .normal else mode

theorem ScanMode.enter_false (mode : ScanMode) : mode.enter false = mode := by
  rw [enter, Bool.and_false]
  rfl

theorem ScanMode.state_nextLine (mode : ScanMode) :
    mode.state.nextLine = (mode.enter true).state := by
  cases mode <;> rfl

/-- Which characters are in tokens of comments. -/
def commentFlags (tokens : List Token) : List Bool :=
  tokens.flatMap fun token => List.replicate token.text.length token.tag.isComment

theorem commentFlags_cons (token : Token) (tokens : List Token) :
    commentFlags (token :: tokens) =
      List.replicate token.text.length token.tag.isComment ++ commentFlags tokens := rfl

theorem commentFlags_append (tokens tokens' : List Token) :
    commentFlags (tokens ++ tokens') = commentFlags tokens ++ commentFlags tokens' :=
  List.flatMap_append

theorem commentFlags_of_all {tokens : List Token} {flag : Bool}
    (h : ∀ token ∈ tokens, token.tag.isComment = flag) :
    commentFlags tokens = List.replicate (textOf tokens).length flag := by
  induction tokens with
  | nil => rfl
  | cons token tokens ih =>
      obtain ⟨htoken, htokens⟩ := List.forall_mem_cons.mp h
      rw [commentFlags_cons, ih htokens, htoken, textOf_cons, List.length_append,
        List.replicate_add]

theorem length_commentFlags (tokens : List Token) :
    (commentFlags tokens).length = (textOf tokens).length := by
  induction tokens with
  | nil => rfl
  | cons token tokens ih =>
      rw [commentFlags_cons, textOf_cons, List.length_append, List.length_append,
        List.length_replicate, ih]

theorem textOf_append (tokens tokens' : List Token) :
    textOf (tokens ++ tokens') = textOf tokens ++ textOf tokens' := by
  simp [textOf]

/-! ### Text of comments -/

theorem Passes.line (text rest : Text) : Passes rest .line text true .line := by
  induction text with
  | nil => exact .nil rest _ true
  | cons c text ih => exact .cons rfl nofun ih

theorem Passes.commentText {text rest : Text} (h : commentTextRegex.Accepts true text rest) :
    Passes rest .block text true .block := by
  rw [commentTextRegex, Regex.accepts_anchored] at h
  refine Regex.star_induction (motive := fun text => Passes rest .block text true .block)
    (.nil rest _ true) ?_ h
  intro atStart t u hone hothers
  have hone : ∃ c, t = [c] ∧ ¬ (c = '*' ∧ (u ++ rest).head? = some '/') := by
    rcases Regex.accepts_alt.mp (Regex.accepts_group.mp hone) with hstar | hother
    · obtain ⟨_, _, rfl, hc, m, rfl, -, hahead⟩ := Regex.accepts_seq.mp hstar
      rw [Regex.accepts_char.mp hc]
      refine ⟨'*', rfl, fun hnext => ?_⟩
      obtain ⟨rest', hrest⟩ := List.head?_eq_some_iff.mp hnext.2
      exact hahead ['/'] rest' [] hrest.symm (Regex.matches_char.mpr ⟨rfl, rfl⟩)
    · obtain ⟨c, hc, rfl⟩ := Regex.accepts_noneOf.mp hother
      exact ⟨c, rfl, fun hnext => hc (by rw [hnext.1]; exact List.mem_singleton_self _)⟩
  obtain ⟨c, rfl, hno⟩ := hone
  have hstep : refStep (u ++ rest).head? .block c = some (true, .block) := by
    rw [refStep, if_neg hno]
  exact .cons hstep (fun hcode => by cases hcode) hothers

/-! ### A scan -/

/-- The reference scanner says of the text of the tokens what the tokens are, and is where the
scanner is behind them. -/
structure Agrees (code : Text) (mode : ScanMode) (tokens : List Token) (mode' : ScanMode)
    (rest : Text) : Prop where
  split : code = textOf tokens ++ rest
  scanned : refScan rest mode.state (textOf tokens) = some (commentFlags tokens, mode'.state)
  verdict : lineVerdict 0 mode.state code = lineVerdict 0 mode'.state rest
  /-- No comment is ended that has not begun. -/
  inside : ∀ token ∈ tokens, token.tag ≠ .trailingUncomment

/-- What is scanned is no comment, but not all of it is code. -/
structure Swallows (code : Text) (tokens : List Token) (rest : Text) : Prop where
  split : code = textOf tokens ++ rest
  noComment : ∀ token ∈ tokens, token.tag.isComment = false
  length : (textOf tokens).length = swallowed code
  verdict : lineVerdict 0 .code code = textVerdict rest (textOf tokens)
  lost : textVerdict rest (textOf tokens) ≠ .kept

theorem inside_of_noComment {tokens : List Token}
    (h : ∀ token ∈ tokens, token.tag.isComment = false) :
    ∀ token ∈ tokens, token.tag ≠ .trailingUncomment := by
  intro token htoken htag
  have hno := h token htoken
  rw [htag] at hno
  cases hno

namespace Agrees

variable {code rest rest' : Text} {mode mode' mode'' : ScanMode} {tokens tokens' : List Token}

theorem of_passes {flag : Bool} (hsplit : code = textOf tokens ++ rest)
    (hflag : ∀ token ∈ tokens, token.tag.isComment = flag)
    (hinside : ∀ token ∈ tokens, token.tag ≠ .trailingUncomment)
    (h : Passes rest mode.state (textOf tokens) flag mode'.state) :
    Agrees code mode tokens mode' rest where
  split := hsplit
  scanned := by rw [commentFlags_of_all hflag, h.scanned]
  verdict := by rw [hsplit, h.verdict]
  inside := hinside

/-- One token of a comment. -/
theorem token {tag : TokenTag} {text : Text} (hsplit : code = text ++ rest)
    (hcomment : tag.isComment = true) (hinside : tag ≠ .trailingUncomment)
    (h : Passes rest mode.state text true mode'.state) :
    Agrees code mode [⟨tag, text⟩] mode' rest := by
  have htext : textOf [⟨tag, text⟩] = text := List.append_nil text
  refine .of_passes (by rw [htext, hsplit]) ?_ ?_ (by rw [htext]; exact h)
  · intro token htoken
    rw [List.mem_singleton.mp htoken]
    exact hcomment
  · intro token htoken
    rw [List.mem_singleton.mp htoken]
    exact hinside

theorem nil (mode : ScanMode) (code : Text) : Agrees code mode [] mode code :=
  ⟨rfl, rfl, rfl, nofun⟩

theorem append (h : Agrees code mode tokens mode' rest)
    (h' : Agrees rest mode' tokens' mode'' rest') :
    Agrees code mode (tokens ++ tokens') mode'' rest' where
  split := by rw [h.split, h'.split, textOf_append, List.append_assoc]
  scanned := by
    have hscanned := h.scanned
    rw [h'.split] at hscanned
    rw [textOf_append, commentFlags_append]
    exact refScan_append.mpr ⟨_, _, _, hscanned, h'.scanned, rfl⟩
  verdict := h.verdict.trans h'.verdict
  inside := List.forall_mem_append.mpr ⟨h.inside, h'.inside⟩

end Agrees

theorem lineVerdict_skip (text rest : Text) (s : RefState) :
    lineVerdict text.length s (text ++ rest) = lineVerdict 0 s rest := by
  induction text with
  | nil => rfl
  | cons c text ih => exact ih

theorem lineVerdict_swallowed {text rest : Text} (hne : text ≠ [])
    (h : text.length = swallowed (text ++ rest)) :
    lineVerdict 0 .code (text ++ rest) =
      (textVerdict rest text).andThen (lineVerdict 0 .code rest) := by
  obtain ⟨c, text, rfl⟩ := List.exists_cons_of_ne_nil hne
  rw [List.cons_append] at h ⊢
  rw [lineVerdict, if_pos rfl, ← h, List.length_cons]
  dsimp only
  rw [List.drop_left, List.take_left, lineVerdict_skip]

theorem refScan_of_kept {text rest : Text} {flags : List Bool} {s : RefState}
    (hscan : refScan rest .code text = some (flags, s)) (h : textVerdict rest text = .kept) :
    refScan rest .code text = some (List.replicate text.length false, .code) := by
  rw [textVerdict, hscan] at h
  dsimp only at h
  split at h
  · cases h
  rename_i hno
  split at h
  · rename_i hcode
    have hflags : flags = List.replicate text.length false := by
      refine List.eq_replicate_iff.mpr ⟨length_of_refScan hscan, fun flag hflag => ?_⟩
      rw [← Bool.not_eq_true]
      rintro rfl
      exact hno hflag
    rw [hscan, hflags, hcode]
  · cases h

/-- What is scanned of code is code, or it is not and swallowed. -/
theorem agrees_or_swallows {code : Text} {tokens : List Token} {rest : Text} {flags : List Bool}
    {s : RefState} (hscan : refScan [] .code code = some (flags, s)) (hne : textOf tokens ≠ [])
    (hsplit : code = textOf tokens ++ rest)
    (hno : ∀ token ∈ tokens, token.tag.isComment = false)
    (h : Passes rest .code (textOf tokens) false .code ∨ (textOf tokens).length = swallowed code) :
    Agrees code .normal tokens .normal rest ∨ Swallows code tokens rest := by
  rcases h with h | hlength
  · exact Or.inl (.of_passes hsplit hno (inside_of_noComment hno) h)
  · have hverdict := lineVerdict_swallowed hne (hsplit ▸ hlength)
    rw [← hsplit] at hverdict
    by_cases hkept : textVerdict rest (textOf tokens) = .kept
    · rw [hsplit] at hscan
      obtain ⟨flags₁, s₁, _, hfirst, -, -⟩ := refScan_append.mp hscan
      rw [List.append_nil] at hfirst
      rw [hkept, hsplit] at hverdict
      exact Or.inl (.of_passes hsplit hno (inside_of_noComment hno)
        ⟨refScan_of_kept hfirst hkept, hverdict⟩)
    · refine Or.inr ⟨hsplit, hno, hlength, hverdict.trans ?_, hkept⟩
      cases hlost : textVerdict rest (textOf tokens) with
      | kept => exact absurd hlost hkept
      | comment => rfl
      | literal => rfl

theorem passes_open (rest : Text) : Passes rest .code "/*".toList true .block := by
  have hchars : "/*".toList = ['/', '*'] := by decide
  have hstar : Passes rest .opening ['*'] true .block := .cons rfl nofun (.nil rest .block true)
  rw [hchars]
  exact .cons rfl (fun _ => swallowed_plain (by decide) _) hstar

theorem passes_line (rest : Text) : Passes rest .code "//".toList true .line := by
  have hchars : "//".toList = ['/', '/'] := by decide
  rw [hchars]
  exact .cons rfl (fun _ => swallowed_plain (by decide) _) (.line ['/'] rest)

theorem passes_close (rest : Text) : Passes rest .block "*/".toList true .code := by
  have hchars : "*/".toList = ['*', '/'] := by decide
  have hslash : Passes rest .closing ['/'] true .code := .cons rfl nofun (.nil rest .code true)
  rw [hchars]
  exact .cons rfl nofun hslash

section Scan

variable {search : RegexSearch} {code : Text} {tokens : List Token} {mode : ScanMode}
  {tag : TokenTag}

/-- A text of a table is the token of a comment. -/
theorem agrees_of_scanPrefix (mode₁ mode₂ : ScanMode) {text : Text}
    (hpasses : ∀ rest, Passes rest mode₁.state text true mode₂.state)
    (hcomment : tag.isComment = true) (hinside : tag ≠ .trailingUncomment)
    (h : startsWith code [text] = true)
    (hok : (scanPrefix [text] tag code).map (·, mode₂) = .ok (tokens, mode)) :
    ∃ rest, Agrees code mode₁ tokens mode rest := by
  obtain ⟨_, hmem, rest, hsplit, htoken⟩ := scanPrefix_eq tag h
  rw [htoken] at hok
  rw [List.mem_singleton.mp hmem] at hok hsplit
  cases hok
  exact ⟨rest, .token hsplit hcomment hinside (hpasses rest)⟩

/-- The text in a comment. -/
theorem agrees_of_scanMatch (mode₁ : ScanMode) {r : Regex}
    (hfinds : FindsLongest search (.anchored r))
    (hpasses : ∀ {text rest}, (Regex.anchored r).Accepts true text rest →
      Passes rest mode₁.state text true mode₁.state)
    (hok : (scanMatch search (.anchored r) .commentText code).map (·, mode₁) =
      .ok (tokens, mode)) : ∃ rest, Agrees code mode₁ tokens mode rest := by
  unfold scanMatch fullMatch at hok
  split at hok
  · rename_i hresult
    obtain ⟨text, rest, m, hcode, hm, hlist, -⟩ := Regex.found_anchored hfinds hresult
    obtain ⟨hfull, -⟩ := List.cons.inj hlist
    cases hfull
    cases hok
    exact ⟨rest, .token hcode rfl nofun (hpasses (Regex.accepts_anchored.mpr ⟨m, hm⟩))⟩
  · cases hok

variable (hsearch : FindsRegexes search)
include hsearch

/-- What a scan gives agrees with the reference scanner, or text is swallowed that is not code. -/
theorem scan_agrees (hne : code ≠ []) (hline : '\n' ∉ code) {newLine : Bool} {mode : ScanMode}
    {flags : List Bool} {s : RefState} (hs : s.isLiteral = false)
    (hscan : refScan [] (mode.enter newLine).state code = some (flags, s)) :
    ∃ tokens mode' rest, scan search code newLine mode = .ok (tokens, mode') ∧
      Scanned code tokens ∧ (Agrees code (mode.enter newLine) tokens mode' rest ∨
        mode.enter newLine = .normal ∧ mode' = .normal ∧ Swallows code tokens rest) := by
  obtain ⟨tokens, mode', hok, hscanned⟩ := scan_scans hsearch hne hline newLine mode
  suffices hagrees : ∃ rest, Agrees code (mode.enter newLine) tokens mode' rest ∨
      mode.enter newLine = .normal ∧ mode' = .normal ∧ Swallows code tokens rest by
    obtain ⟨rest, hagrees⟩ := hagrees
    exact ⟨tokens, mode', rest, hok, hscanned, hagrees⟩
  have htext : textOf tokens ≠ [] := by
    obtain ⟨token, queue, rfl, htoken, -⟩ := hscanned.shape
    rw [textOf_cons]
    exact fun hnil => htoken (List.append_eq_nil_iff.mp hnil).1
  unfold scan at hok
  rw [if_neg hne] at hok
  change (match mode.enter newLine with
    | .normal => _
    | .comment => _
    | .lineComment => _) = _ at hok
  generalize mode.enter newLine = mode₁ at hok hscan
  cases mode₁ with
  | normal =>
      dsimp only at hok
      split at hok
      · rename_i hstarts
        obtain ⟨rest, hagrees⟩ :=
          agrees_of_scanPrefix .normal .comment passes_open (by decide) (by decide) hstarts hok
        exact ⟨rest, Or.inl hagrees⟩
      rename_i hblock
      split at hok
      · rename_i hstarts
        obtain ⟨rest, hagrees⟩ :=
          agrees_of_scanPrefix .normal .lineComment passes_line (by decide) (by decide) hstarts hok
        exact ⟨rest, Or.inl hagrees⟩
      rename_i hslash
      obtain ⟨_, rest, hnormal, hsplit, hno, hcode⟩ := scanNormalMode_scansCode hsearch hline hs
        hscan hne (Bool.eq_false_iff.mpr hblock) (Bool.eq_false_iff.mpr hslash)
      rw [hnormal] at hok
      cases hok
      exact ⟨rest, (agrees_or_swallows hscan htext hsplit hno hcode).imp id fun h => ⟨rfl, rfl, h⟩⟩
  | comment =>
      dsimp only at hok
      split at hok
      · rename_i hstarts
        obtain ⟨rest, hagrees⟩ :=
          agrees_of_scanPrefix .comment .normal passes_close (by decide) (by decide) hstarts hok
        exact ⟨rest, Or.inl hagrees⟩
      · obtain ⟨rest, hagrees⟩ :=
          agrees_of_scanMatch .comment (hsearch.of (i := 11) rfl) .commentText hok
        exact ⟨rest, Or.inl hagrees⟩
  | lineComment =>
      obtain ⟨rest, hagrees⟩ :=
        agrees_of_scanMatch .lineComment (hsearch.of (i := 12) rfl)
          (fun _ => .line _ _) hok
      exact ⟨rest, Or.inl hagrees⟩

end Scan

/-! ### A line -/

/-- The scans of a line, one after the other. -/
inductive Lexes (search : RegexSearch) : Text → Bool → ScanMode → List Token → ScanMode → Prop
  | done (newLine : Bool) (mode : ScanMode) :
      Lexes search [] newLine mode [] (mode.enter newLine)
  | more {code rest : Text} {newLine : Bool} {mode mode₁ mode' : ScanMode}
      {tokens tokens' : List Token} (scanned : scan search code newLine mode = .ok (tokens, mode₁))
      (begins : Scanned code tokens) (split : code = textOf tokens ++ rest)
      (others : Lexes search rest false mode₁ tokens' mode') :
      Lexes search code newLine mode (tokens ++ tokens') mode'

/-- Tokens that have been scanned are returned, one after the other. -/
theorem tokenizeCode_queue {search : RegexSearch} {fuel : Nat} {rest : Text} {mode : ScanMode}
    {queue : List Token} (h : ∀ token ∈ queue, token.tag ≠ .end) (tokens : List Token) :
    tokenizeCode search (fuel + queue.length) (textOf queue ++ rest) tokens false
        { mode, tokenQueue := queue } =
      tokenizeCode search fuel rest (queue.reverse ++ tokens) false { mode, tokenQueue := [] } := by
  induction queue generalizing tokens with
  | nil => rfl
  | cons token queue ih =>
      obtain ⟨htoken, hqueue⟩ := List.forall_mem_cons.mp h
      rw [List.length_cons, ← Nat.add_assoc, textOf_cons, List.append_assoc,
        tokenizeCode_next rfl htoken, ih hqueue, List.reverse_cons, List.append_assoc,
        List.singleton_append]

theorem tokenizeCode_scan {search : RegexSearch} {fuel : Nat} {code rest : Text} {newLine : Bool}
    {mode mode₁ : ScanMode} {tokens : List Token}
    (h : scan search code newLine mode = .ok (tokens, mode₁)) (hbegins : Scanned code tokens)
    (hsplit : code = textOf tokens ++ rest) (tokens₀ : List Token) :
    tokenizeCode search (fuel + tokens.length) code tokens₀ newLine { mode, tokenQueue := [] } =
      tokenizeCode search fuel rest (tokens.reverse ++ tokens₀) false
        { mode := mode₁, tokenQueue := [] } := by
  obtain ⟨token, queue, rfl, -, -⟩ := hbegins.shape
  obtain ⟨htoken, hqueue⟩ := List.forall_mem_cons.mp hbegins.goesOn
  have hnext : nextToken search code newLine { mode, tokenQueue := [] } =
      .ok (token, { mode := mode₁, tokenQueue := queue }) := by
    rw [nextToken]
    dsimp only
    rw [h]
  rw [textOf_cons, List.append_assoc] at hsplit
  rw [hsplit] at hnext ⊢
  rw [List.length_cons, ← Nat.add_assoc, tokenizeCode_next hnext htoken,
    tokenizeCode_queue hqueue, List.reverse_cons, List.append_assoc, List.singleton_append]

namespace Lexes

variable {search : RegexSearch} {code : Text} {newLine : Bool} {mode mode' : ScanMode}
  {tokens : List Token}

theorem tokenizeCode_eq (h : Lexes search code newLine mode tokens mode') :
    ∀ {fuel : Nat} (tokens₀ : List Token), 3 * code.length < fuel →
      tokenizeCode search fuel code tokens₀ newLine { mode, tokenQueue := [] } =
        some (.ok (tokens₀.reverse ++ tokens, { mode := mode', tokenQueue := [] })) := by
  induction h with
  | done newLine mode =>
      intro fuel tokens₀ hfuel
      obtain ⟨fuel, rfl⟩ := Nat.exists_eq_succ_of_ne_zero (Nat.ne_of_gt hfuel)
      rw [tokenizeCode, nextToken, scan, if_pos rfl, List.append_nil]
      rfl
  | @more code rest newLine mode mode₁ mode' tokens tokens' scanned begins split others ih =>
      intro fuel tokens₀ hfuel
      obtain ⟨token, queue, rfl, htext, hqueue⟩ := begins.shape
      have hlength : 0 < token.text.length := List.length_pos_iff.mpr htext
      have hcode : code.length = token.text.length + (textOf queue).length + rest.length := by
        rw [split, textOf_cons, List.length_append, List.length_append]
      obtain ⟨fuel, rfl⟩ := Nat.exists_eq_add_of_le' (show (token :: queue).length ≤ fuel by
        rw [List.length_cons]
        omega)
      rw [List.length_cons] at hfuel
      rw [tokenizeCode_scan scanned begins split, ih _ (by omega), List.reverse_append,
        List.reverse_reverse, List.append_assoc]

variable (hsearch : FindsRegexes search)
include hsearch

/-- A line agrees with the reference scanner, up to where text is swallowed that is not code. -/
theorem agrees_or_swallows (h : Lexes search code newLine mode tokens mode') :
    ∀ {flags : List Bool} {s : RefState}, '\n' ∉ code → s.isLiteral = false →
      refScan [] (mode.enter newLine).state code = some (flags, s) →
      Agrees code (mode.enter newLine) tokens mode' [] ∨
        ∃ front run back code₁ rest, tokens = front ++ (run ++ back) ∧
          Agrees code (mode.enter newLine) front .normal code₁ ∧ Swallows code₁ run rest := by
  induction h with
  | done newLine mode => exact fun _ _ _ => Or.inl (.nil _ [])
  | @more code rest newLine mode mode₁ mode' tokens tokens' scanned begins split others ih =>
      intro flags s hline hs hscan
      have hne : code ≠ [] := by
        obtain ⟨token, queue, rfl, htext, -⟩ := begins.shape
        rw [split, textOf_cons, List.append_assoc]
        exact fun hnil => htext (List.append_eq_nil_iff.mp hnil).1
      obtain ⟨_, _, rest₁, hok, -, hagrees⟩ := scan_agrees hsearch hne hline hs hscan
      rw [scanned] at hok
      cases hok
      have hrest : ∀ {rest₁}, code = textOf tokens ++ rest₁ → rest₁ = rest := fun hsplit =>
        List.append_cancel_left (hsplit.symm.trans split)
      rcases hagrees with hagrees | ⟨hmode, rfl, hswallows⟩
      · obtain rfl := hrest hagrees.split
        rw [split] at hscan
        obtain ⟨_, s₁, _, hfirst, hsecond, -⟩ := refScan_append.mp hscan
        rw [List.append_nil, hagrees.scanned] at hfirst
        cases hfirst
        rw [← mode₁.enter_false] at hsecond hagrees
        have hfree : '\n' ∉ rest₁ := by
          intro hmem
          rw [split] at hline
          exact hline (List.mem_append_right _ hmem)
        rcases ih hfree hs hsecond with hothers | ⟨front, run, back, code₁, rest, rfl, hfront, hrun⟩
        · exact Or.inl (hagrees.append hothers)
        · exact Or.inr ⟨tokens ++ front, run, back, code₁, rest, (List.append_assoc _ _ _).symm,
            hagrees.append hfront, hrun⟩
      · rw [hmode]
        exact Or.inr ⟨[], tokens, tokens', code, rest₁, rfl, .nil _ code, hswallows⟩

end Lexes

theorem exists_lexes {search : RegexSearch} (hsearch : FindsRegexes search) {code : Text}
    (hline : '\n' ∉ code) (newLine : Bool) (mode : ScanMode) :
    ∃ tokens mode', Lexes search code newLine mode tokens mode' := by
  induction hlength : code.length using Nat.strong_induction_on generalizing code newLine mode with
  | _ n ih =>
      by_cases hne : code = []
      · rw [hne]
        exact ⟨[], _, .done newLine mode⟩
      · obtain ⟨tokens, mode₁, hok, hscanned⟩ := scan_scans hsearch hne hline newLine mode
        obtain ⟨rest, hsplit⟩ := hscanned.begins
        have hshorter : rest.length < n := by
          obtain ⟨token, queue, rfl, htext, -⟩ := hscanned.shape
          have hpos : 0 < token.text.length := List.length_pos_iff.mpr htext
          rw [← hlength, ← hsplit, textOf_cons, List.length_append, List.length_append]
          omega
        have hfree : '\n' ∉ rest := by
          intro hmem
          rw [← hsplit] at hline
          exact hline (List.mem_append_right _ hmem)
        obtain ⟨tokens', mode', hothers⟩ := ih _ hshorter hfree false mode₁ rfl
        exact ⟨tokens ++ tokens', mode', .more hok hscanned hsplit.symm hothers⟩

/-- The flags are not those of the tokens: they differ at the beginning of the line, where not
all characters belong to a comment, and no comment is ended that has not begun. -/
def Differs (flags : List Bool) (tokens : List Token) : Prop :=
  ∃ front back flags₁ flags₂, tokens = front ++ back ∧ flags = flags₁ ++ flags₂ ∧
    flags₁.length = (textOf front).length ∧ flags₁ ≠ commentFlags front ∧ false ∈ flags₁ ∧
    ∀ token ∈ front, token.tag ≠ .trailingUncomment

/-- What is swallowed does not begin with a comment. -/
theorem Swallows.flags {code rest : Text} {run : List Token} {flags : List Bool} {s : RefState}
    (h : Swallows code run rest) (hscan : refScan [] .code code = some (flags, s))
    (hcomment : textVerdict rest (textOf run) = .comment) :
    ∃ flags₁ flags₂, flags = flags₁ ++ flags₂ ∧ flags₁.length = (textOf run).length ∧
      true ∈ flags₁ ∧ false ∈ flags₁ := by
  rw [h.split] at hscan
  obtain ⟨flags₁, s₁, flags₂, hfirst, -, rfl⟩ := refScan_append.mp hscan
  rw [List.append_nil] at hfirst
  refine ⟨flags₁, flags₂, rfl, length_of_refScan hfirst, ?_, ?_⟩
  · rw [textVerdict, hfirst] at hcomment
    dsimp only at hcomment
    split at hcomment
    · rename_i hmem
      exact hmem
    · split at hcomment <;> cases hcomment
  · have hlength := h.length
    cases hrun : textOf run with
    | nil =>
        rw [hrun] at hcomment
        cases hcomment
    | cons c text =>
        rw [h.split, hrun] at hlength
        have hslash : c ≠ '/' := by
          rintro rfl
          rw [List.cons_append, swallowed_plain (by decide)] at hlength
          cases hlength
        rw [hrun] at hfirst
        obtain ⟨flag, s₂, flags', hstep, -, rfl⟩ := refScan_cons.mp hfirst
        rw [refStep] at hstep
        simp only [hslash, false_and, if_false] at hstep
        have hflag : flag = false := by
          split at hstep
          · cases hstep
          · split at hstep <;> cases hstep <;> rfl
        rw [hflag]
        exact List.mem_cons_self

namespace Lexes

variable {search : RegexSearch} {code : Text} {newLine : Bool} {mode mode' : ScanMode}
  {tokens : List Token} {flags : List Bool} {s : RefState} (hsearch : FindsRegexes search)
include hsearch

theorem agrees (h : Lexes search code newLine mode tokens mode') (hline : '\n' ∉ code)
    (hs : s.isLiteral = false)
    (hscan : refScan [] (mode.enter newLine).state code = some (flags, s))
    (hverdict : lineVerdict 0 (mode.enter newLine).state code = .kept) :
    commentFlags tokens = flags ∧ mode'.state = s ∧
      ∀ token ∈ tokens, token.tag ≠ .trailingUncomment := by
  rcases h.agrees_or_swallows hsearch hline hs hscan with
    hagrees | ⟨front, run, back, code₁, rest, rfl, hfront, hrun⟩
  · have hscanned := hagrees.scanned
    rw [hagrees.split, List.append_nil, hscanned] at hscan
    cases hscan
    exact ⟨rfl, rfl, hagrees.inside⟩
  · rw [hfront.verdict, ScanMode.state, hrun.verdict] at hverdict
    exact absurd hverdict hrun.lost

theorem differs (h : Lexes search code newLine mode tokens mode') (hline : '\n' ∉ code)
    (hs : s.isLiteral = false)
    (hscan : refScan [] (mode.enter newLine).state code = some (flags, s))
    (hverdict : lineVerdict 0 (mode.enter newLine).state code = .comment) :
    Differs flags tokens := by
  rcases h.agrees_or_swallows hsearch hline hs hscan with
    hagrees | ⟨front, run, back, code₁, rest, rfl, hfront, hrun⟩
  · rw [hagrees.verdict] at hverdict
    cases hverdict
  · rw [hfront.verdict, ScanMode.state, hrun.verdict] at hverdict
    rw [hfront.split] at hscan
    obtain ⟨_, s₁, flags₂, hfirst, hsecond, rfl⟩ := refScan_append.mp hscan
    rw [List.append_nil, hfront.scanned] at hfirst
    cases hfirst
    obtain ⟨flags₃, flags₄, rfl, hlength, htrue, hfalse⟩ := hrun.flags hsecond hverdict
    refine ⟨front ++ run, back, commentFlags front ++ flags₃, flags₄,
      (List.append_assoc _ _ _).symm, (List.append_assoc _ _ _).symm, ?_, ?_,
      List.mem_append_right _ hfalse,
      List.forall_mem_append.mpr ⟨hfront.inside, inside_of_noComment hrun.noComment⟩⟩
    · rw [textOf_append, List.length_append, List.length_append, hlength,
        length_of_refScan hfront.scanned]
    · rw [commentFlags_append, commentFlags_of_all hrun.noComment]
      intro heq
      rw [List.append_cancel_left heq] at htrue
      cases List.eq_of_mem_replicate htrue

end Lexes

/-! ### All lines -/

/-- The scans of all lines. -/
inductive LexesLines (search : RegexSearch) :
    List Text → ScanMode → List (List Token) → Prop
  | nil (mode : ScanMode) : LexesLines search [] mode []
  | cons {codeLine : Text} {codeLines : List Text} {mode mode' : ScanMode} {tokens : List Token}
      {tokenLines : List (List Token)} (line : Lexes search codeLine true mode tokens mode')
      (lines : LexesLines search codeLines mode' tokenLines) :
      LexesLines search (codeLine :: codeLines) mode (tokens :: tokenLines)

theorem exists_lexesLines {search : RegexSearch} (hsearch : FindsRegexes search)
    {codeLines : List Text} (h : ∀ codeLine ∈ codeLines, '\n' ∉ codeLine) (mode : ScanMode) :
    ∃ tokenLines, LexesLines search codeLines mode tokenLines := by
  induction codeLines generalizing mode with
  | nil => exact ⟨[], .nil mode⟩
  | cons codeLine codeLines ih =>
      obtain ⟨hline, hlines⟩ := List.forall_mem_cons.mp h
      obtain ⟨tokens, mode', htokens⟩ := exists_lexes hsearch hline true mode
      obtain ⟨tokenLines, htokenLines⟩ := ih hlines mode'
      exact ⟨tokens :: tokenLines, .cons htokens htokenLines⟩

namespace LexesLines

variable {search : RegexSearch} {codeLines : List Text} {mode : ScanMode}
  {tokenLines : List (List Token)}

theorem tokenizeLines_eq (h : LexesLines search codeLines mode tokenLines) {fuel : Nat}
    (hfuel : ∀ codeLine ∈ codeLines, 3 * codeLine.length < fuel) :
    tokenizeLines search fuel codeLines { mode, tokenQueue := [] } = some (.ok tokenLines) := by
  induction h with
  | nil mode => rfl
  | cons line lines ih =>
      obtain ⟨hline, hlines⟩ := List.forall_mem_cons.mp hfuel
      rw [tokenizeLines, line.tokenizeCode_eq [] hline]
      dsimp only
      rw [ih hlines]
      rfl

variable (hsearch : FindsRegexes search)
include hsearch

/-- All lines agree with the reference scanner if all that is swallowed is code. -/
theorem agrees (h : LexesLines search codeLines mode tokenLines) :
    ∀ {flagLines : List (List Bool)}, (∀ codeLine ∈ codeLines, '\n' ∉ codeLine) →
      refLines (mode.enter true).state codeLines = some flagLines →
      linesVerdict (mode.enter true).state codeLines = .kept →
      tokenLines.map commentFlags = flagLines ∧
        ∀ tokens ∈ tokenLines, ∀ token ∈ tokens, token.tag ≠ .trailingUncomment := by
  induction h with
  | nil mode =>
      intro flagLines _ href _
      cases href
      exact ⟨rfl, nofun⟩
  | @cons codeLine codeLines mode mode' tokens tokenLines line lines ih =>
      intro flagLines hfree href hverdict
      obtain ⟨hline, hlines⟩ := List.forall_mem_cons.mp hfree
      obtain ⟨flags, s, flagLines, hscan, hs, href, rfl⟩ := refLines_cons.mp href
      rw [linesVerdict, hscan] at hverdict
      cases hkept : lineVerdict 0 (mode.enter true).state codeLine with
      | kept =>
          rw [hkept] at hverdict
          dsimp only [Verdict.andThen] at hverdict
          obtain ⟨rfl, rfl, hinside⟩ := line.agrees hsearch hline hs hscan hkept
          rw [ScanMode.state_nextLine] at href hverdict
          obtain ⟨hflags, hothers⟩ := ih hlines href hverdict
          exact ⟨by rw [List.map_cons, hflags], List.forall_mem_cons.mpr ⟨hinside, hothers⟩⟩
      | comment =>
          rw [hkept] at hverdict
          cases hverdict
      | literal =>
          rw [hkept] at hverdict
          cases hverdict

/-- Some line differs if there is a comment in what is swallowed first. -/
theorem differs (h : LexesLines search codeLines mode tokenLines) :
    ∀ {flagLines : List (List Bool)}, (∀ codeLine ∈ codeLines, '\n' ∉ codeLine) →
      refLines (mode.enter true).state codeLines = some flagLines →
      linesVerdict (mode.enter true).state codeLines = .comment →
      ∃ front tokens back flags, tokenLines = front ++ tokens :: back ∧
        flagLines[front.length]? = some flags ∧ Differs flags tokens ∧
        ∀ tokens ∈ front, ∀ token ∈ tokens, token.tag ≠ .trailingUncomment := by
  induction h with
  | nil mode =>
      intro flagLines _ _ hverdict
      cases hverdict
  | @cons codeLine codeLines mode mode' tokens tokenLines line lines ih =>
      intro flagLines hfree href hverdict
      obtain ⟨hline, hlines⟩ := List.forall_mem_cons.mp hfree
      obtain ⟨flags, s, flagLines, hscan, hs, href, rfl⟩ := refLines_cons.mp href
      rw [linesVerdict, hscan] at hverdict
      cases hkept : lineVerdict 0 (mode.enter true).state codeLine with
      | kept =>
          rw [hkept] at hverdict
          dsimp only [Verdict.andThen] at hverdict
          obtain ⟨rfl, rfl, hinside⟩ := line.agrees hsearch hline hs hscan hkept
          rw [ScanMode.state_nextLine] at href hverdict
          obtain ⟨front, tokens', back, flags, rfl, hflags, hdiffers, hfront⟩ :=
            ih hlines href hverdict
          exact ⟨tokens :: front, tokens', back, flags, rfl, hflags, hdiffers,
            List.forall_mem_cons.mpr ⟨hinside, hfront⟩⟩
      | comment =>
          exact ⟨[], tokens, tokenLines, flags, rfl, rfl,
            line.differs hsearch hline hs hscan hkept, nofun⟩
      | literal =>
          rw [hkept] at hverdict
          cases hverdict

end LexesLines

/-! ### A comment that begins outside, again -/

theorem commentFlags_wrapLeadingCommentLine (extStr : Text) (tokens : List Token) :
    ∃ flags, commentFlags (wrapLeadingCommentLine extStr tokens).tokens =
      List.replicate extStr.length true ++ flags := by
  induction tokens generalizing extStr with
  | nil => exact ⟨[], rfl⟩
  | cons token tokens ih =>
      rw [wrapLeadingCommentLine]
      split
      · exact ⟨commentFlags (token :: tokens), rfl⟩
      · obtain ⟨flags, hflags⟩ := ih (extStr ++ token.text)
        rw [hflags, List.length_append, List.replicate_add, List.append_assoc]
        exact ⟨_, rfl⟩

/-- All in front of the end of the comment belongs to it. -/
theorem commentFlags_wrapLeadingCommentLine_front {front : List Token}
    (h : ∀ token ∈ front, token.tag ≠ .trailingUncomment) (extStr : Text) (back : List Token) :
    ∃ flags, commentFlags (wrapLeadingCommentLine extStr (front ++ back)).tokens =
      List.replicate (extStr ++ textOf front).length true ++ flags := by
  induction front generalizing extStr with
  | nil =>
      rw [show extStr ++ textOf [] = extStr from List.append_nil extStr]
      exact commentFlags_wrapLeadingCommentLine extStr back
  | cons token front ih =>
      obtain ⟨htoken, hfront⟩ := List.forall_mem_cons.mp h
      rw [List.cons_append, wrapLeadingCommentLine, if_neg htoken, textOf_cons,
        ← List.append_assoc]
      exact ih hfront _

theorem exists_leadCommentLine {tokens : List Token}
    (h : ∀ token ∈ tokens, token.tag ≠ .trailingUncomment) (extStr : Text) :
    ∃ wrapped, wrapLeadingCommentLine extStr tokens = .leadCommentLine wrapped := by
  induction tokens generalizing extStr with
  | nil => exact ⟨_, rfl⟩
  | cons token tokens ih =>
      obtain ⟨htoken, htokens⟩ := List.forall_mem_cons.mp h
      rw [wrapLeadingCommentLine, if_neg htoken]
      exact ih htokens _

theorem wrapLeadingCommentLines_begins {lines : List (List Token)} :
    ∀ {extLines wrapped : List (List Token)},
      wrapLeadingCommentLines extLines lines = .ok wrapped → extLines.reverse <+: wrapped := by
  induction lines with
  | nil => exact nofun
  | cons line lines ih =>
      intro extLines wrapped hok
      rw [wrapLeadingCommentLines] at hok
      split at hok
      · rename_i tokens _
        cases hok
        exact ⟨tokens :: lines, by simp⟩
      · rename_i tokens _
        obtain ⟨back, rfl⟩ := ih hok
        exact ⟨tokens :: back, by simp⟩

/-- What becomes of the first line that there may be a `*/` in. -/
theorem wrapLeadingCommentLines_getElem? {front back : List (List Token)} {line : List Token}
    (h : ∀ tokens ∈ front, ∀ token ∈ tokens, token.tag ≠ .trailingUncomment) :
    ∀ {extLines wrapped : List (List Token)},
      wrapLeadingCommentLines extLines (front ++ line :: back) = .ok wrapped →
      wrapped[extLines.length + front.length]? = some (wrapLeadingCommentLine [] line).tokens := by
  induction front with
  | nil =>
      intro extLines wrapped hok
      rw [List.nil_append, wrapLeadingCommentLines] at hok
      split at hok
      · rename_i tokens hlead
        cases hok
        rw [hlead]
        simp [LeadLine.tokens]
      · rename_i tokens hlead
        obtain ⟨back, rfl⟩ := wrapLeadingCommentLines_begins hok
        rw [hlead]
        simp [LeadLine.tokens]
  | cons tokens front ih =>
      intro extLines wrapped hok
      obtain ⟨htokens, hfront⟩ := List.forall_mem_cons.mp h
      obtain ⟨lead, hlead⟩ := exists_leadCommentLine htokens []
      rw [List.cons_append, wrapLeadingCommentLines, hlead] at hok
      have hget := ih hfront hok
      rw [List.length_cons] at hget ⊢
      rw [← hget]
      congr 1
      omega

/-- A line that differs is not set right by a comment that begins outside. -/
theorem commentFlags_wrapped_ne {front back : List (List Token)} {tokens : List Token}
    {flagLines : List (List Bool)} {flags : List Bool} {wrapped : List (List Token)}
    (hflags : flagLines[front.length]? = some flags) (hdiffers : Differs flags tokens)
    (hfront : ∀ tokens ∈ front, ∀ token ∈ tokens, token.tag ≠ .trailingUncomment)
    (hok : wrapLeadingComment (front ++ tokens :: back) = .ok wrapped) :
    wrapped.map commentFlags ≠ flagLines := by
  rintro rfl
  obtain ⟨first, others, flags₁, flags₂, rfl, rfl, hlength, hne, hfalse, hinside⟩ := hdiffers
  rw [List.getElem?_map] at hflags
  unfold wrapLeadingComment at hok
  split at hok
  · have hget := wrapLeadingCommentLines_getElem? hfront hok
    rw [List.length_nil, Nat.zero_add] at hget
    obtain ⟨flags, hall⟩ := commentFlags_wrapLeadingCommentLine_front hinside [] others
    rw [hget, Option.map_some, hall, List.nil_append] at hflags
    have htrue := (List.append_inj (Option.some.inj hflags) (by simp [hlength])).1
    rw [← htrue] at hfalse
    cases List.eq_of_mem_replicate hfalse
  · cases hok
    rw [List.getElem?_append_right (Nat.le_refl _), Nat.sub_self, List.getElem?_cons_zero,
      Option.map_some, commentFlags_append] at hflags
    have hsame := (List.append_inj (Option.some.inj hflags)
      ((length_commentFlags first).trans hlength.symm)).1
    exact hne hsame.symm

theorem wrapLeadingComment_inside {tokenLines : List (List Token)}
    (h : ∀ tokens ∈ tokenLines, ∀ token ∈ tokens, token.tag ≠ .trailingUncomment) :
    wrapLeadingComment tokenLines = .ok tokenLines := by
  refine if_neg fun hlead => ?_
  rw [isLeadComment, List.any_eq_true] at hlead
  obtain ⟨tag, htag, heq⟩ := hlead
  obtain ⟨token, htoken, rfl⟩ := List.mem_map.mp htag
  obtain ⟨tokens, htokens, hmem⟩ := List.mem_flatten.mp htoken
  exact h tokens htokens token hmem (of_decide_eq_true heq)

/-- The characters in tokens of comments are those of `flagLines`. -/
def CommentsRecognised (search : RegexSearch) (fuel : Nat) (codeLines : List Text)
    (flagLines : List (List Bool)) : Prop :=
  ∃ tokenLines, tokenize search fuel codeLines = some (.ok tokenLines) ∧
    tokenLines.map commentFlags = flagLines

/-- **Comments are recognised exactly if the reference scanner takes all that is swallowed for
code, and not if there is a comment in what is swallowed first that it does not.** -/
theorem commentsRecognised_iff {search : RegexSearch} (hsearch : FindsRegexes search)
    {fuel : Nat} {codeLines : List Text} (hlines : ∀ codeLine ∈ codeLines, '\n' ∉ codeLine)
    (hfuel : ∀ codeLine ∈ codeLines, 3 * codeLine.length < fuel) {flagLines : List (List Bool)}
    (href : refLines .code codeLines = some flagLines)
    (hverdict : linesVerdict .code codeLines ≠ .literal) :
    CommentsRecognised search fuel codeLines flagLines ↔
      linesVerdict .code codeLines = .kept := by
  obtain ⟨tokenLines, hlexes⟩ := exists_lexesLines hsearch hlines .normal
  have hrun := hlexes.tokenizeLines_eq hfuel
  have htokenize : tokenize search fuel codeLines = some (wrapLeadingComment tokenLines) := by
    rw [tokenize, hrun]
  constructor
  · rintro ⟨wrapped, hok, hflags⟩
    rw [htokenize] at hok
    cases hlost : linesVerdict .code codeLines with
    | kept => rfl
    | literal => exact absurd hlost hverdict
    | comment =>
        obtain ⟨front, tokens, back, flags, rfl, hget, hdiffers, hfront⟩ :=
          hlexes.differs hsearch hlines href hlost
        exact absurd hflags
          (commentFlags_wrapped_ne hget hdiffers hfront (Option.some.inj hok))
  · intro hkept
    obtain ⟨hflags, hinside⟩ := hlexes.agrees hsearch hlines href hkept
    rw [wrapLeadingComment_inside hinside] at htokenize
    exact ⟨tokenLines, htokenize, hflags⟩

/-- A comment over two lines, behind an operator and a literal that look like one. -/
theorem commentsRecognised_lines :
    CommentsRecognised searchLongest 100 ["a /= \"/*\";/*b".toList, "c*/d//".toList]
      [List.replicate 10 false ++ List.replicate 3 true,
        List.replicate 3 true ++ [false] ++ List.replicate 2 true] :=
  (commentsRecognised_iff (fun r _ => searchLongest_findsLongest r) (by decide)
    (by decide) (by decide) (by decide)).mpr (by decide)

/-- A character that begins no token and an include take the comment behind them along, or the
literal that it is behind. -/
theorem not_commentsRecognised :
    (refLines .code ["@/* c */".toList] = some [List.replicate 1 false ++ List.replicate 7 true] ∧
      ¬ CommentsRecognised searchLongest 100 ["@/* c */".toList]
        [List.replicate 1 false ++ List.replicate 7 true]) ∧
    (refLines .code ["#include <a//b>".toList] =
        some [List.replicate 11 false ++ List.replicate 4 true] ∧
      ¬ CommentsRecognised searchLongest 100 ["#include <a//b>".toList]
        [List.replicate 11 false ++ List.replicate 4 true]) ∧
    (refLines .code ["@\"a b\"/* c */".toList] =
        some [List.replicate 6 false ++ List.replicate 7 true] ∧
      ¬ CommentsRecognised searchLongest 100 ["@\"a b\"/* c */".toList]
        [List.replicate 6 false ++ List.replicate 7 true]) := by
  have hno : ∀ {codeLine : Text} {flags : List Bool} {tokens : List Token},
      tokenize searchLongest 100 [codeLine] = some (.ok [tokens]) → commentFlags tokens ≠ flags →
      ¬ CommentsRecognised searchLongest 100 [codeLine] [flags] := by
    rintro codeLine flags tokens hrun hne ⟨tokenLines, hok, hflags⟩
    rw [hrun] at hok
    cases hok
    exact hne (List.cons.inj hflags).1
  have hstray : tokenize searchLongest 100 ["@/* c */".toList] =
      some (.ok [[⟨.commentText, "@/* c ".toList⟩, ⟨.trailingUncomment, "*/".toList⟩]]) := by
    rfl
  have hinclude : tokenize searchLongest 100 ["#include <a//b>".toList] =
      some (.ok [[⟨.preprocDirective, "#include".toList⟩, ⟨.whitespace, " ".toList⟩,
        ⟨.includeFilepath, "<a//b>".toList⟩]]) := by
    rfl
  have hliteral : tokenize searchLongest 100 ["@\"a b\"/* c */".toList] =
      some (.ok [[⟨.commentText, "@\"a b\"/* c ".toList⟩, ⟨.trailingUncomment, "*/".toList⟩]]) := by
    rfl
  exact ⟨⟨by decide, hno hstray (by decide)⟩,
    ⟨by decide, hno hinclude (by decide)⟩,
    ⟨by decide, hno hliteral (by decide)⟩⟩

end Spray
