/-
Tokenizing keeps the text.

Whatever is scanned is how the code begins (`Scanned`): each scan is only made where its
expression or table matches, and where nothing else does, some character does that is no
whitespace.  So what the scanner still has to return is always how the code that is left
begins (`Pending`), and each token makes `3 * code + queue` smaller.
-/
import Spray.Tokenize

namespace Spray

/-- The text of some tokens. -/
def textOf (tokens : List Token) : Text := (tokens.map Token.text).flatten

theorem textOf_cons (token : Token) (tokens : List Token) :
    textOf (token :: tokens) = token.text ++ textOf tokens := rfl

/-- All searches for the expressions of C are leftmost and longest. -/
def FindsRegexes (search : RegexSearch) : Prop := ∀ r ∈ cRegexes, FindsLongest search r

theorem FindsRegexes.of {search : RegexSearch} (h : FindsRegexes search) {i : Nat} {r : Regex}
    (hr : cRegexes[i]? = some r) : FindsLongest search r := h r (List.mem_of_getElem? hr)

/-- What a scan gives: tokens that the code begins with, the first of them not empty. -/
structure Scanned (code : Text) (tokens : List Token) : Prop where
  begins : textOf tokens <+: code
  shape : ∃ token queue, tokens = token :: queue ∧ token.text ≠ [] ∧ queue.length ≤ 2
  goesOn : ∀ token ∈ tokens, token.tag ≠ .end

/-- A scan that succeeds. -/
def Scans (code : Text) (result : Except SchemeError (List Token)) : Prop :=
  ∃ tokens, result = .ok tokens ∧ Scanned code tokens

theorem Scanned.single {code text : Text} {tag : TokenTag} (hbegins : text <+: code)
    (hne : text ≠ []) (htag : tag ≠ .end) : Scanned code (makeTokenList text tag) where
  begins := by
    have htext : textOf (makeTokenList text tag) = text := List.append_nil text
    rw [htext]
    exact hbegins
  shape := ⟨_, [], rfl, hne, Nat.zero_le 2⟩
  goesOn := by
    intro token htoken
    rw [List.mem_singleton.mp htoken]
    exact htag

theorem Scans.ite {code : Text} {c : Prop} [Decidable c] {a b : Except SchemeError (List Token)}
    (hpos : c → Scans code a) (hneg : ¬ c → Scans code b) : Scans code (if c then a else b) := by
  split
  · rename_i h
    exact hpos h
  · rename_i h
    exact hneg h

/-! ### Tables -/

theorem scanPrefix_scans {code : Text} {table : List Text} {tag : TokenTag}
    (h : startsWith code table = true) (hne : ∀ text ∈ table, text ≠ []) (htag : tag ≠ .end) :
    Scans code (scanPrefix table tag code) := by
  obtain ⟨text, htext⟩ := Option.isSome_iff_exists.mp h
  have hbegins := List.find?_some htext
  refine ⟨makeTokenList text tag, ?_, .single (List.isPrefixOf_iff_prefix.mp hbegins)
    (hne text (List.mem_of_find?_eq_some htext)) htag⟩
  rw [scanPrefix, htext]

/-! ### Expressions -/

section Search

variable {search : RegexSearch} {r : Regex} {code : Text}

/-- An expression matches if there is something not empty that it matches. -/
theorem regexMatch_of_matches (h : FindsLongest search (.anchored r)) {text rest : Text}
    {m : Captures} (hr : r.Matches true text rest m) (hne : text ≠ [])
    (hcode : code = text ++ rest) : regexMatch search (.anchored r) code = true := by
  obtain ⟨result, hresult⟩ := Regex.search_anchored h hcode hr
  obtain ⟨text', rest', m', _, _, hlist, hlongest⟩ := Regex.found_anchored h hresult
  have hlen := hlongest text rest m hcode hr
  have hne' : text' ≠ [] := by
    intro hnil
    rw [hnil, List.length_nil] at hlen
    exact hne (List.length_eq_zero_iff.mp (Nat.le_zero.mp hlen))
  rw [regexMatch, hresult, hlist, Regex.toList]
  simp [hne']

/-- If one does, the match is how the code begins. -/
theorem matches_of_regexMatch (h : FindsLongest search (.anchored r))
    (hmatch : regexMatch search (.anchored r) code = true) :
    ∃ text rest m, code = text ++ rest ∧ text ≠ [] ∧ r.Matches true text rest m ∧
      search (.anchored r) code = some ((Regex.anchored r).toList text m) := by
  unfold regexMatch at hmatch
  split at hmatch
  · rename_i full groups hresult
    obtain ⟨text, rest, m, hcode, hr, hlist, _⟩ := Regex.found_anchored h hresult
    refine ⟨text, rest, m, hcode, ?_, hr, by rw [hresult, hlist]⟩
    rintro rfl
    obtain ⟨rfl, _⟩ := List.cons.inj hlist
    simp at hmatch
  · cases hmatch

theorem fullMatch_of_regexMatch (h : FindsLongest search (.anchored r))
    (hmatch : regexMatch search (.anchored r) code = true) :
    ∃ text, fullMatch search (.anchored r) code = .ok text ∧ text ≠ [] ∧ text <+: code := by
  obtain ⟨text, rest, m, hcode, hne, _, hresult⟩ := matches_of_regexMatch h hmatch
  refine ⟨text, ?_, hne, ⟨rest, hcode.symm⟩⟩
  rw [fullMatch, hresult]
  rfl

theorem scanMatch_scans (h : FindsLongest search (.anchored r))
    (hmatch : regexMatch search (.anchored r) code = true) {tag : TokenTag} (htag : tag ≠ .end) :
    Scans code (scanMatch search (.anchored r) tag code) := by
  obtain ⟨text, hfull, hne, hbegins⟩ := fullMatch_of_regexMatch h hmatch
  refine ⟨makeTokenList text tag, ?_, .single hbegins hne htag⟩
  rw [scanMatch, hfull]
  rfl

/-- One character that may be repeated is enough to match. -/
theorem regexMatch_star {set : CharSet} {c : Char} {rest : Text}
    (h : FindsLongest search (.anchored (.star (.oneOf set)))) (hc : set.mem c = true) :
    regexMatch search (.anchored (.star (.oneOf set))) (c :: rest) = true := by
  have hone : (Regex.oneOf set).Matches true [c] rest [] := ⟨⟨c, hc, rfl⟩, rfl⟩
  exact regexMatch_of_matches h (Regex.matches_star hone) (List.cons_ne_nil c []) rfl

/-! ### Kinds of tokens -/

variable (hsearch : FindsRegexes search)
include hsearch

/-- What comes before the blank is one of the keywords. -/
theorem startsWith_of_startsWithKeyword (h : startsWithKeyword search code = true) :
    startsWith code cKeywords = true := by
  have hfinds : FindsLongest search keywordRegex := hsearch.of (i := 14) rfl
  obtain ⟨text, rest, m, hcode, _, hr, _⟩ := matches_of_regexMatch hfinds h
  obtain ⟨t, u, n, n', htext, _, ⟨k, _, hword⟩, _⟩ := hr
  obtain ⟨r, hr, hmatch⟩ := Regex.matches_alts (List.cons_ne_nil _ _) hword
  have hkeyword : t ∈ cKeywords := by
    obtain ⟨s, hs, rfl⟩ : ∃ s ∈ ["case", "default", "if", "else", "switch", "while", "do", "for",
        "goto", "continue", "break", "return", "struct", "union", "enum", "typedef", "extern",
        "static", "register", "auto", "const", "volatile", "restrict"], Regex.literal s = r :=
      List.mem_map.mp hr
    rw [Regex.matches_literal hmatch]
    exact List.mem_map_of_mem hs
  refine List.find?_isSome.mpr ⟨t, hkeyword, List.isPrefixOf_iff_prefix.mpr ⟨u ++ rest, ?_⟩⟩
  rw [hcode, htext, List.append_assoc]

theorem scanIdentifier_scans (h : startsWithIdentifier search code = true) :
    Scans code (scanIdentifier search code) := by
  have hfinds : FindsLongest search identifierRegex := hsearch.of (i := 2) rfl
  obtain ⟨text, hfull, hne, hbegins⟩ := fullMatch_of_regexMatch hfinds h
  refine ⟨makeTokenList text (if text ∈ cBuiltinTypes then .primType else .identifier), ?_,
    .single hbegins hne ?_⟩
  · exact congrArg (Except.map _) hfull
  · split
    · decide
    · decide

/-- The expressions of constants are searched for like all others. -/
theorem FindsRegexes.constant {regex : Regex} (h : regex ∈ constantRegexes) :
    FindsLongest search regex ∧ ∃ r, regex = .anchored r := by
  constructor
  · have hconstants : constantRegexes = (cRegexes.drop 3).take 7 := rfl
    rw [hconstants] at h
    exact hsearch regex (List.mem_of_mem_drop (List.mem_of_mem_take h))
  · simp only [constantRegexes, List.mem_cons, List.not_mem_nil, or_false] at h
    rcases h with rfl | rfl | rfl | rfl | rfl | rfl | rfl <;> exact ⟨_, rfl⟩

theorem scanConstant_scans (h : startsWithConstant search code = true) :
    Scans code (scanConstant search code) := by
  obtain ⟨regex, hregex⟩ := Option.isSome_iff_exists.mp
    (List.find?_isSome.mpr (List.any_eq_true.mp h))
  have hmatch := List.find?_some hregex
  obtain ⟨hfinds, r, rfl⟩ := hsearch.constant (List.mem_of_find?_eq_some hregex)
  rw [scanConstant, hregex]
  exact scanMatch_scans hfinds hmatch (by decide)

omit hsearch in
theorem preproc_toList (text : Text) (m : Captures) :
    preprocDirectiveRegex.toList text m =
      [some text, Regex.groupText m 1, Regex.groupText m 2, Regex.groupText m 3,
        Regex.groupText m 4] := rfl

/-- `#[a-z_]+` -/
def directiveName : Regex := .seq (.char '#') (.plus (.inRanges [('a', 'z')] "_"))

/-- `[<"]([^>"\\]|\\[\s\S])*[>"]` -/
def includePath : Regex :=
  .seqs [.anyOf "<\"", .star (.group 4 (.alt (.noneOf ">\"\\") (.seq (.anyOf "\\") anyChar))),
    .anyOf ">\""]

/-- A directive, blanks and perhaps a path, one after the other. -/
theorem preproc_groups (h : startsWithPreproc search code = true) :
    ∃ directive whitespace filepath rest other,
      code = directive ++ (whitespace ++ (filepath.getD [] ++ rest)) ∧ directive ≠ [] ∧
      search preprocDirectiveRegex code =
        some [some (directive ++ (whitespace ++ filepath.getD [])), some directive,
          some whitespace, filepath, other] ∧
      (∀ path, filepath = some path → ∃ atStart m, includePath.Matches atStart path rest m) ∧
      (∃ atStart rest, directiveName.Accepts atStart directive rest) ∧
      ∃ atStart rest, (Regex.star (.anyOf " \t")).Accepts atStart whitespace rest := by
  have hfinds : FindsLongest search preprocDirectiveRegex := hsearch.of (i := 10) rfl
  obtain ⟨text, rest, m, hcode, _, hr, hresult⟩ := matches_of_regexMatch hfinds h
  obtain ⟨t, u, n, m', htext, hm, ⟨k, hn, hdirective⟩, htail⟩ := Regex.matches_seqs_cons.mp hr
  obtain ⟨v, w, n', m'', hu, hm', ⟨k', hn', hblank⟩, hpath⟩ := Regex.matches_seqs_cons.mp htail
  have hne : t ≠ [] := by
    obtain ⟨a, b, _, _, rfl, _, hchar, _⟩ := hdirective
    rw [(Regex.matches_char.mp hchar).1]
    exact List.cons_ne_nil _ _
  have hk := Regex.captures_of_groups_nil hdirective rfl
  have hk' := Regex.captures_of_groups_nil hblank rfl
  subst hk hk' hn hn' hm hm' htext hu
  -- No group but those of the path takes part in matching the path.
  have hno : ∀ num, num = 1 ∨ num = 2 → Regex.groupText m'' num = none := by
    intro num hnum
    refine Regex.groupText_of_groups hpath ?_
    rcases hnum with rfl | rfl
    · decide
    · decide
  have hw : (Regex.groupText m'' 3).getD [] = w := by
    rcases hpath with ⟨k'', hm'', _⟩ | ⟨hw, hm''⟩
    · rw [hm'', Regex.groupText_append]
      rfl
    · rw [hw, hm'']
      rfl
  have hgroup : ∀ num, Regex.groupText ([] ++ [(1, t)] ++ ([] ++ [(2, v)] ++ m'')) num =
      (Regex.groupText m'' num).or
        ((Regex.groupText [(2, v)] num).or (Regex.groupText [(1, t)] num)) := by
    intro num
    rw [List.nil_append, List.nil_append, Regex.groupText_append, Regex.groupText_append,
      Option.or_assoc]
  have hquoted : ∀ path, Regex.groupText m'' 3 = some path →
      ∃ atStart m, includePath.Matches atStart path rest m := by
    intro path hgroup
    rcases hpath with ⟨k'', hm'', hquoted⟩ | ⟨_, hm''⟩
    · rw [hm'', Regex.groupText_append] at hgroup
      obtain rfl := Option.some.inj hgroup
      exact ⟨_, k'', hquoted⟩
    · rw [hm''] at hgroup
      cases hgroup
  refine ⟨t, v, Regex.groupText m'' 3, rest, Regex.groupText m'' 4, ?_, hne, ?_, hquoted,
    ⟨_, _, _, hdirective⟩, _, _, _, hblank⟩
  · rw [hw, hcode, List.append_assoc, List.append_assoc]
  · rw [hw]
    refine hresult.trans (congrArg some ?_)
    refine (preproc_toList _ _).trans ?_
    rw [hgroup, hgroup, hgroup, hgroup, hno 1 (Or.inl rfl), hno 2 (Or.inr rfl)]
    have h3 : (Regex.groupText m'' 3).or none = Regex.groupText m'' 3 := Option.or_none
    have h4 : (Regex.groupText m'' 4).or none = Regex.groupText m'' 4 := Option.or_none
    exact congrArg₂ (fun a b => [some (t ++ (v ++ w)), some t, some v, a, b]) h3 h4

theorem scanPreproc_scans (h : startsWithPreproc search code = true) :
    Scans code (scanPreproc search code) := by
  obtain ⟨directive, whitespace, filepath, rest, other, hcode, hne, hresult, -⟩ :=
    preproc_groups hsearch h
  have hbegins : directive <+: code := ⟨_, hcode.symm⟩
  have hsingle : Scanned code (makeTokenList directive .preprocDirective) :=
    .single hbegins hne (by decide)
  unfold scanPreproc
  rw [hresult]
  dsimp only
  split
  · cases filepath with
    | none => exact ⟨_, rfl, hsingle⟩
    | some filepath =>
        refine ⟨_, rfl, ⟨rest, ?_⟩, ⟨_, _, rfl, hne, Nat.le_refl 2⟩, ?_⟩
        · rw [hcode]
          simp [textOf, makeToken]
        · intro token htoken
          simp only [List.mem_cons, List.not_mem_nil, or_false] at htoken
          rcases htoken with rfl | rfl | rfl
          · simp [makeToken]
          · simp [makeToken]
          · simp [makeToken]
  · exact ⟨_, rfl, hsingle⟩

/-- Whatever there is, something is scanned. -/
theorem scanNormalMode_scans (hne : code ≠ []) : Scans code (scanNormalMode search code) := by
  have hliteral : FindsLongest search literalRegex := hsearch.of (i := 0) rfl
  have hwhitespace : FindsLongest search whitespaceRegex := hsearch.of (i := 1) rfl
  have hany : FindsLongest search anyRegex := hsearch.of (i := 13) rfl
  unfold scanNormalMode
  refine .ite (fun h => scanPrefix_scans h (by decide) (by decide)) fun _ => ?_
  refine .ite (fun h => scanPrefix_scans (startsWith_of_startsWithKeyword hsearch h) (by decide)
    (by decide)) fun _ => ?_
  refine .ite (fun h => scanPrefix_scans h (by decide) (by decide)) fun _ => ?_
  refine .ite (fun h => scanPrefix_scans h (by decide) (by decide)) fun _ => ?_
  refine .ite (fun h => scanMatch_scans hliteral h (by decide)) fun _ => ?_
  refine .ite (fun h => scanMatch_scans hwhitespace h (by decide)) fun hnotBlank => ?_
  refine .ite (fun h => scanIdentifier_scans hsearch h) fun _ => ?_
  refine .ite (fun h => scanConstant_scans hsearch h) fun _ => ?_
  refine .ite (fun h => scanPreproc_scans hsearch h) fun _ => ?_
  refine .ite (fun h => scanMatch_scans hany h (by decide)) fun hnotAny => ?_
  -- The first character is a blank or it is not.
  obtain ⟨c, rest, rfl⟩ := List.exists_cons_of_ne_nil hne
  by_cases hc : c ∈ "\t\r\n ".toList
  · refine absurd (regexMatch_star hwhitespace ?_) hnotBlank
    rw [Regex.mem_chars, decide_eq_true hc]
    rfl
  · refine absurd (regexMatch_star hany ?_) hnotAny
    have hsame : " \n\t\r".toList.all (· ∈ "\t\r\n ".toList) = true := by decide
    have hnot : c ∉ " \n\t\r".toList := fun hmem =>
      hc (of_decide_eq_true (List.all_eq_true.mp hsame c hmem))
    rw [Regex.mem_chars, decide_eq_false hnot]
    rfl

/-- In a comment, something is scanned up to its end. -/
theorem scanCommentText_scans (hne : code ≠ []) (h : startsWithUncomment code = false) :
    Scans code (scanCommentText search code) := by
  have hfinds : FindsLongest search commentTextRegex := hsearch.of (i := 11) rfl
  obtain ⟨c, rest, rfl⟩ := List.exists_cons_of_ne_nil hne
  refine scanMatch_scans hfinds ?_ (by decide)
  have hone : ∃ m, (Regex.alt (.seq (.char '*') (.notAhead (.char '/'))) (.noneOf "*")).Matches
      true [c] rest m := by
    by_cases hc : c = '*'
    · refine ⟨[], Or.inl ⟨[c], [], [], [], rfl, rfl, Regex.matches_char.mpr ⟨by rw [hc], rfl⟩, rfl,
        rfl, ?_⟩⟩
      intro t u n hrest hslash
      obtain rfl : rest = '/' :: u := by
        rw [← hrest, (Regex.matches_char.mp hslash).1]
        rfl
      rw [hc] at h
      cases h
    · refine ⟨[], Or.inr ⟨⟨c, ?_, rfl⟩, rfl⟩⟩
      have hnot : c ∉ "*".toList := by
        intro hmem
        exact hc (List.mem_singleton.mp hmem)
      rw [Regex.mem_chars, decide_eq_false hnot]
      rfl
  obtain ⟨m, hone⟩ := hone
  have hgroup : (Regex.group 1 _).Matches true [c] rest (m ++ [(1, [c])]) := ⟨m, rfl, hone⟩
  exact regexMatch_of_matches hfinds (Regex.matches_star hgroup) (List.cons_ne_nil c []) rfl

/-- In a line comment, something is scanned up to the end of the line. -/
theorem scanLineCommentText_scans (hne : code ≠ []) (h : '\n' ∉ code) :
    Scans code (scanLineCommentText search code) := by
  have hfinds : FindsLongest search lineCommentTextRegex := hsearch.of (i := 12) rfl
  obtain ⟨c, rest, rfl⟩ := List.exists_cons_of_ne_nil hne
  refine scanMatch_scans hfinds (regexMatch_star hfinds ?_) (by decide)
  have hnot : c ∉ "\n".toList := by
    intro hmem
    rw [List.mem_singleton.mp hmem] at h
    exact h List.mem_cons_self
  rw [Regex.mem_chars, decide_eq_false hnot]
  rfl

/-- Any code is scanned in any mode. -/
theorem scan_scans (hne : code ≠ []) (h : '\n' ∉ code) (newLine : Bool) (mode : ScanMode) :
    ∃ tokens mode', scan search code newLine mode = .ok (tokens, mode') ∧ Scanned code tokens := by
  have hmap : ∀ {result : Except SchemeError (List Token)} (mode' : ScanMode), Scans code result →
      ∃ tokens mode'', result.map (·, mode') = .ok (tokens, mode'') ∧ Scanned code tokens := by
    intro result mode' ⟨tokens, hok, hscanned⟩
    exact ⟨tokens, mode', by rw [hok]; rfl, hscanned⟩
  unfold scan
  rw [if_neg hne]
  generalize (if mode = .lineComment && newLine then ScanMode.normal else mode) = mode
  cases mode with
  | normal =>
      dsimp only
      split
      · rename_i hstarts
        exact hmap .comment (scanPrefix_scans hstarts (by decide) (by decide))
      · split
        · rename_i hstarts
          exact hmap .lineComment (scanPrefix_scans hstarts (by decide) (by decide))
        · exact hmap .normal (scanNormalMode_scans hsearch hne)
  | comment =>
      dsimp only
      split
      · rename_i hstarts
        exact hmap .normal (scanPrefix_scans hstarts (by decide) (by decide))
      · rename_i hstarts
        exact hmap .comment (scanCommentText_scans hsearch hne (Bool.eq_false_iff.mpr hstarts))
  | lineComment => exact hmap .lineComment (scanLineCommentText_scans hsearch hne h)

/-! ### A line -/

/-- The tokens to be returned are how the code begins, and there are more to come. -/
structure Pending (code : Text) (s : Scanner) : Prop where
  begins : textOf s.tokenQueue <+: code
  goesOn : ∀ token ∈ s.tokenQueue, token.tag ≠ .end

/-- How many more tokens there can be. -/
def tokensLeft (code : Text) (s : Scanner) : Nat := 3 * code.length + s.tokenQueue.length

omit hsearch in
/-- What a token leaves of the code. -/
theorem Pending.next {token : Token} {queue : List Token} (mode : ScanMode)
    (hbegins : textOf (token :: queue) <+: code)
    (hgoesOn : ∀ t ∈ token :: queue, t.tag ≠ .end) :
    code = token.text ++ code.drop token.text.length ∧
      Pending (code.drop token.text.length) { mode, tokenQueue := queue } := by
  obtain ⟨rest, hrest⟩ := hbegins
  rw [textOf_cons, List.append_assoc] at hrest
  have hdrop : code.drop token.text.length = textOf queue ++ rest := by
    rw [← hrest, List.drop_left]
  refine ⟨by rw [hdrop, hrest], ⟨rest, hdrop.symm⟩, ?_⟩
  intro t ht
  exact hgoesOn t (List.mem_cons_of_mem token ht)

/-- The next token is how the code begins, unless the code is over. -/
theorem nextToken_spec {s : Scanner} (hpending : Pending code s) (h : '\n' ∉ code)
    (newLine : Bool) :
    (code = [] ∧ ∃ mode, nextToken search code newLine s =
        .ok (makeEndToken, { mode, tokenQueue := [] })) ∨
      ∃ token s', nextToken search code newLine s = .ok (token, s') ∧ token.tag ≠ .end ∧
        code = token.text ++ code.drop token.text.length ∧
        Pending (code.drop token.text.length) s' ∧
        tokensLeft (code.drop token.text.length) s' < tokensLeft code s := by
  obtain ⟨mode, queue⟩ := s
  obtain ⟨hbegins, hgoesOn⟩ := hpending
  cases queue with
  | cons token queue =>
      obtain ⟨hsplit, hnext⟩ := Pending.next mode hbegins hgoesOn
      refine Or.inr ⟨token, _, rfl, hgoesOn token List.mem_cons_self, hsplit, hnext, ?_⟩
      unfold tokensLeft
      rw [List.length_drop, List.length_cons]
      dsimp only
      omega
  | nil =>
      by_cases hne : code = []
      · refine Or.inl ⟨hne, if mode = .lineComment && newLine then .normal else mode, ?_⟩
        unfold nextToken scan
        rw [if_pos hne]
      · obtain ⟨tokens, mode', hscan, hscanned⟩ := scan_scans hsearch hne h newLine mode
        obtain ⟨token, queue, rfl, htext, hqueue⟩ := hscanned.shape
        obtain ⟨hsplit, hnext⟩ := Pending.next mode' hscanned.begins hscanned.goesOn
        refine Or.inr ⟨token, { mode := mode', tokenQueue := queue }, ?_,
          hscanned.goesOn token List.mem_cons_self, hsplit, hnext, ?_⟩
        · unfold nextToken
          dsimp only
          rw [hscan]
        · have hlen : 0 < token.text.length := List.length_pos_iff.mpr htext
          have hcode : token.text.length ≤ code.length := by
            rw [hsplit, List.length_append]
            omega
          unfold tokensLeft
          rw [List.length_drop, List.length_nil]
          dsimp only
          omega

omit hsearch in
/-- A token that is not the end is taken off the code. -/
theorem tokenizeCode_next {fuel : Nat} {rest : Text} {newLine : Bool} {s s' : Scanner}
    {token : Token} (hnext : nextToken search (token.text ++ rest) newLine s = .ok (token, s'))
    (htag : token.tag ≠ .end) (tokens : List Token) :
    tokenizeCode search (fuel + 1) (token.text ++ rest) tokens newLine s =
      tokenizeCode search fuel rest (token :: tokens) false s' := by
  have hnotEnd : isEndToken token = false := by
    rw [isEndToken, decide_eq_false htag, Bool.and_false]
  have hcut : stringCutoff (token.text ++ rest) token.text = .ok rest := by
    rw [stringCutoff, if_pos (by simp), List.drop_left]
  rw [tokenizeCode, hnext]
  dsimp only
  rw [hnotEnd, if_neg Bool.false_ne_true, hcut]

/-- A line is split into tokens that are its text. -/
theorem tokenizeCode_spec {fuel : Nat} {s : Scanner} (hpending : Pending code s) (h : '\n' ∉ code)
    (hfuel : tokensLeft code s < fuel) (tokens : List Token) (newLine : Bool) :
    ∃ result mode, tokenizeCode search fuel code tokens newLine s =
        some (.ok (tokens.reverse ++ result, { mode, tokenQueue := [] })) ∧
      textOf result = code := by
  induction fuel generalizing code s tokens newLine with
  | zero => exact absurd hfuel (Nat.not_lt_zero _)
  | succ fuel ih =>
      rcases nextToken_spec hsearch hpending h newLine with
        ⟨hnil, mode, hend⟩ | ⟨token, s', hnext, htag, hsplit, hpending', hless⟩
      · refine ⟨[], mode, ?_, hnil.symm⟩
        unfold tokenizeCode
        rw [hend, List.append_nil]
        rfl
      · have hrest : '\n' ∉ code.drop token.text.length :=
          fun hmem => h (List.mem_of_mem_drop hmem)
        obtain ⟨result, mode, hrun, htext⟩ :=
          ih hpending' hrest (by omega) (token :: tokens) false
        refine ⟨token :: result, mode, ?_, ?_⟩
        · rw [hsplit] at hnext ⊢
          rw [tokenizeCode_next hnext htag, hrun, List.reverse_cons,
            List.append_assoc, List.singleton_append]
        · rw [textOf_cons, htext]
          exact hsplit.symm

/-! ### All lines -/

theorem tokenizeLines_spec {fuel : Nat} {codeLines : List Text}
    (h : ∀ codeLine ∈ codeLines, '\n' ∉ codeLine ∧ 3 * codeLine.length < fuel)
    (mode : ScanMode) :
    ∃ tokenLines, tokenizeLines search fuel codeLines { mode, tokenQueue := [] } =
      some (.ok tokenLines) ∧ tokenLines.map textOf = codeLines := by
  induction codeLines generalizing mode with
  | nil => exact ⟨[], rfl, rfl⟩
  | cons codeLine codeLines ih =>
      obtain ⟨hline, hfuel⟩ := h codeLine List.mem_cons_self
      have hpending : Pending codeLine { mode, tokenQueue := [] } :=
        ⟨List.nil_prefix, fun token htoken => absurd htoken List.not_mem_nil⟩
      obtain ⟨tokens, mode', hrun, htext⟩ :=
        tokenizeCode_spec hsearch hpending hline hfuel [] true
      obtain ⟨tokenLines, hlines, htexts⟩ :=
        ih (fun line hmem => h line (List.mem_cons_of_mem codeLine hmem)) mode'
      refine ⟨tokens :: tokenLines, ?_, ?_⟩
      · unfold tokenizeLines
        rw [hrun]
        dsimp only
        rw [List.reverse_nil, List.nil_append, hlines]
      · rw [List.map_cons, htext, htexts]

end Search

/-! ### A comment that begins outside -/

theorem wrapLeadingCommentLine_text (extStr : Text) (tokens : List Token) :
    textOf (wrapLeadingCommentLine extStr tokens).tokens = extStr ++ textOf tokens := by
  induction tokens generalizing extStr with
  | nil =>
      rw [wrapLeadingCommentLine]
      rfl
  | cons token tokens ih =>
      rw [wrapLeadingCommentLine]
      split
      · rfl
      · rw [ih, textOf_cons, List.append_assoc]

/-- The comment ends in a line with a trailing `*/`. -/
theorem wrapLeadingCommentLine_end (extStr : Text) {tokens : List Token}
    (h : ∃ token ∈ tokens, token.tag = .trailingUncomment) :
    ∃ wrapped, wrapLeadingCommentLine extStr tokens = .leadCommentEnd wrapped := by
  induction tokens generalizing extStr with
  | nil =>
      obtain ⟨token, htoken, _⟩ := h
      exact absurd htoken List.not_mem_nil
  | cons token tokens ih =>
      rw [wrapLeadingCommentLine]
      split
      · exact ⟨_, rfl⟩
      · rename_i hnot
        refine ih _ ?_
        obtain ⟨t, ht, htag⟩ := h
        rcases List.mem_cons.mp ht with rfl | ht
        · exact absurd htag hnot
        · exact ⟨t, ht, htag⟩

theorem wrapLeadingCommentLines_spec {lines : List (List Token)}
    (h : ∃ line ∈ lines, ∃ token ∈ line, token.tag = .trailingUncomment)
    (extLines : List (List Token)) :
    ∃ wrapped, wrapLeadingCommentLines extLines lines = .ok (extLines.reverse ++ wrapped) ∧
      wrapped.map textOf = lines.map textOf := by
  induction lines generalizing extLines with
  | nil =>
      obtain ⟨line, hline, _⟩ := h
      exact absurd hline List.not_mem_nil
  | cons line lines ih =>
      have htext := wrapLeadingCommentLine_text [] line
      rw [wrapLeadingCommentLines]
      cases hlead : wrapLeadingCommentLine [] line with
      | leadCommentEnd tokens =>
          rw [hlead] at htext
          refine ⟨tokens :: lines, ?_, ?_⟩
          · dsimp only
            rw [List.reverse_cons, List.append_assoc, List.singleton_append]
          · rw [List.map_cons, List.map_cons]
            exact congrArg (· :: _) htext
      | leadCommentLine tokens =>
          rw [hlead] at htext
          obtain ⟨line', hline', hend⟩ := h
          rcases List.mem_cons.mp hline' with rfl | hline'
          · obtain ⟨wrapped, hwrapped⟩ := wrapLeadingCommentLine_end [] hend
            rw [hlead] at hwrapped
            cases hwrapped
          · obtain ⟨wrapped, hrun, htexts⟩ := ih ⟨line', hline', hend⟩ (tokens :: extLines)
            refine ⟨tokens :: wrapped, ?_, ?_⟩
            · dsimp only
              rw [hrun, List.reverse_cons, List.append_assoc, List.singleton_append]
            · rw [List.map_cons, List.map_cons, htexts]
              exact congrArg (· :: _) htext

theorem wrapLeadingComment_spec (tokenLines : List (List Token)) :
    ∃ wrapped, wrapLeadingComment tokenLines = .ok wrapped ∧
      wrapped.map textOf = tokenLines.map textOf := by
  unfold wrapLeadingComment
  split
  · rename_i hlead
    rw [isLeadComment, List.any_eq_true] at hlead
    obtain ⟨tag, htag, heq⟩ := hlead
    obtain ⟨token, htoken, rfl⟩ := List.mem_map.mp htag
    obtain ⟨line, hline, hmem⟩ := List.mem_flatten.mp htoken
    exact wrapLeadingCommentLines_spec ⟨line, hline, token, hmem, of_decide_eq_true heq⟩ []
  · exact ⟨tokenLines, rfl, rfl⟩

/-- Wrapping does not fail, and keeps the text. -/
theorem tokenize_wraps {search : RegexSearch} {fuel : Nat} {codeLines : List Text}
    {tokenLines : List (List Token)}
    (h : tokenizeLines search fuel codeLines { mode := .normal, tokenQueue := [] } =
      some (.ok tokenLines)) :
    ∃ wrapped, tokenize search fuel codeLines = some (.ok wrapped) ∧
      wrapped.map textOf = tokenLines.map textOf := by
  obtain ⟨wrapped, hwrap, hsame⟩ := wrapLeadingComment_spec tokenLines
  refine ⟨wrapped, ?_, hsame⟩
  unfold tokenize
  rw [h]
  dsimp only
  rw [hwrap]

/-- **Tokenizing ends, and the tokens of each line are its text.** -/
theorem tokenize_text {search : RegexSearch} (hsearch : FindsRegexes search) {fuel : Nat}
    {codeLines : List Text} (hlines : ∀ codeLine ∈ codeLines, '\n' ∉ codeLine)
    (hfuel : ∀ codeLine ∈ codeLines, 3 * codeLine.length < fuel) :
    ∃ tokenLines, tokenize search fuel codeLines = some (.ok tokenLines) ∧
      tokenLines.map textOf = codeLines := by
  obtain ⟨tokenLines, hrun, htexts⟩ := tokenizeLines_spec hsearch
    (fun codeLine hmem => ⟨hlines codeLine hmem, hfuel codeLine hmem⟩) .normal
  obtain ⟨wrapped, hwrapped, hsame⟩ := tokenize_wraps hrun
  exact ⟨wrapped, hwrapped, hsame.trans htexts⟩

/-- Two lines, the first of which ends a comment. -/
theorem tokenize_text_uncommented :
    ∃ tokenLines, tokenize searchLongest 100 ["a */ /* b".toList, "c */ #include <d>".toList] =
        some (.ok tokenLines) ∧
      tokenLines.map textOf = ["a */ /* b".toList, "c */ #include <d>".toList] :=
  tokenize_text (fun r _ => searchLongest_findsLongest r) (by decide) (by decide)

/-! ### Every token -/

section Every

variable {P : Token → Prop} {search : RegexSearch}

/-- What is true of all tokens that are scanned. -/
def HoldsOfScanned (search : RegexSearch) (P : Token → Prop) : Prop :=
  ∀ {code newLine mode tokens mode'}, scan search code newLine mode = .ok (tokens, mode') →
    ∀ token ∈ tokens, P token

theorem nextToken_holds (hscanned : HoldsOfScanned search P) {code : Text} {newLine : Bool}
    {s s' : Scanner} {token : Token} (hqueue : ∀ t ∈ s.tokenQueue, P t)
    (hrun : nextToken search code newLine s = .ok (token, s')) :
    (isEndToken token = true ∨ P token) ∧ ∀ t ∈ s'.tokenQueue, P t := by
  unfold nextToken at hrun
  split at hrun
  · rename_i hq
    rw [hq] at hqueue
    cases hrun
    exact ⟨Or.inr (hqueue _ List.mem_cons_self), fun t ht => hqueue t (List.mem_cons_of_mem _ ht)⟩
  · split at hrun
    · cases hrun
    · cases hrun
      exact ⟨Or.inl rfl, hqueue⟩
    · rename_i hscan
      cases hrun
      have htokens := hscanned hscan
      exact ⟨Or.inr (htokens _ List.mem_cons_self),
        fun t ht => htokens t (List.mem_cons_of_mem _ ht)⟩

theorem tokenizeCode_holds (hscanned : HoldsOfScanned search P) {fuel : Nat} :
    ∀ {code : Text} {tokens result : List Token} {newLine : Bool} {s s' : Scanner},
      (∀ t ∈ s.tokenQueue, P t) → (∀ t ∈ tokens, P t) →
      tokenizeCode search fuel code tokens newLine s = some (.ok (result, s')) →
      (∀ t ∈ result, P t) ∧ ∀ t ∈ s'.tokenQueue, P t := by
  induction fuel with
  | zero =>
      intro code tokens result newLine s s' _ _ hrun
      cases hrun
  | succ fuel ih =>
      intro code tokens result newLine s s' hqueue htokens hrun
      unfold tokenizeCode at hrun
      split at hrun
      · cases hrun
      · rename_i token t hnext
        obtain ⟨htoken, hqueue'⟩ := nextToken_holds hscanned hqueue hnext
        split at hrun
        · cases hrun
          exact ⟨fun t ht => htokens t (List.mem_reverse.mp ht), hqueue'⟩
        · rename_i hend
          split at hrun
          · cases hrun
          · refine ih hqueue' ?_ hrun
            intro t ht
            rcases List.mem_cons.mp ht with rfl | ht
            · exact htoken.resolve_left hend
            · exact htokens t ht

theorem tokenizeLines_holds (hscanned : HoldsOfScanned search P) {fuel : Nat}
    {codeLines : List Text} : ∀ {s : Scanner} {tokenLines : List (List Token)},
      (∀ t ∈ s.tokenQueue, P t) → tokenizeLines search fuel codeLines s = some (.ok tokenLines) →
      ∀ tokens ∈ tokenLines, ∀ t ∈ tokens, P t := by
  induction codeLines with
  | nil =>
      intro s tokenLines _ hrun
      cases hrun
      exact fun _ htokens => absurd htokens List.not_mem_nil
  | cons codeLine codeLines ih =>
      intro s tokenLines hqueue hrun
      unfold tokenizeLines at hrun
      split at hrun
      · cases hrun
      · cases hrun
      · rename_i tokens s' hline
        obtain ⟨hfirst, hqueue'⟩ := tokenizeCode_holds hscanned hqueue
          (fun t ht => absurd ht List.not_mem_nil) hline
        split at hrun
        · rename_i rest hlines
          cases hrun
          intro line hmem
          rcases List.mem_cons.mp hmem with rfl | hmem
          · exact hfirst
          · exact ih hqueue' hlines line hmem
        · rename_i hother
          exact absurd hrun (hother _)

theorem wrapLeadingCommentLine_holds (hcomment : ∀ text, P ⟨.commentText, text⟩)
    {tokens : List Token} (extStr : Text) (htokens : ∀ t ∈ tokens, P t) :
    ∀ t ∈ (wrapLeadingCommentLine extStr tokens).tokens, P t := by
  induction tokens generalizing extStr with
  | nil =>
      intro t ht
      rw [List.mem_singleton.mp ht]
      exact hcomment extStr
  | cons token tokens ih =>
      unfold wrapLeadingCommentLine
      split
      · intro t ht
        rcases List.mem_cons.mp ht with rfl | ht
        · exact hcomment extStr
        · exact htokens t ht
      · exact ih _ fun t ht => htokens t (List.mem_cons_of_mem _ ht)

theorem wrapLeadingCommentLines_holds (hcomment : ∀ text, P ⟨.commentText, text⟩)
    {lines : List (List Token)} : ∀ {extLines wrapped : List (List Token)},
      (∀ tokens ∈ extLines, ∀ t ∈ tokens, P t) → (∀ tokens ∈ lines, ∀ t ∈ tokens, P t) →
      wrapLeadingCommentLines extLines lines = .ok wrapped →
      ∀ tokens ∈ wrapped, ∀ t ∈ tokens, P t := by
  induction lines with
  | nil =>
      intro extLines wrapped _ _ hrun
      cases hrun
  | cons line lines ih =>
      intro extLines wrapped hext hlines hrun
      have hline := wrapLeadingCommentLine_holds hcomment [] (hlines line List.mem_cons_self)
      unfold wrapLeadingCommentLines at hrun
      split at hrun
      · rename_i tokens hlead
        rw [hlead] at hline
        cases hrun
        intro tokens' hmem
        rcases List.mem_append.mp hmem with hmem | hmem
        · rcases List.mem_cons.mp (List.mem_reverse.mp hmem) with rfl | hmem
          · exact hline
          · exact hext tokens' hmem
        · exact hlines tokens' (List.mem_cons_of_mem _ hmem)
      · rename_i tokens hlead
        rw [hlead] at hline
        refine ih ?_ (fun tokens' hmem => hlines tokens' (List.mem_cons_of_mem _ hmem)) hrun
        intro tokens' hmem
        rcases List.mem_cons.mp hmem with rfl | hmem
        · exact hline
        · exact hext tokens' hmem

/-- What is true of all tokens that are scanned, and of any text of a comment, is true of all
tokens there are. -/
theorem tokenize_holds (hscanned : HoldsOfScanned search P)
    (hcomment : ∀ text, P ⟨.commentText, text⟩) {fuel : Nat} {codeLines : List Text}
    {tokenLines : List (List Token)}
    (hrun : tokenize search fuel codeLines = some (.ok tokenLines)) :
    ∀ token ∈ tokenLines.flatten, P token := by
  intro token htoken
  obtain ⟨tokens, htokens, hmem⟩ := List.mem_flatten.mp htoken
  refine (?_ : ∀ tokens ∈ tokenLines, ∀ t ∈ tokens, P t) tokens htokens token hmem
  unfold tokenize at hrun
  split at hrun
  · rename_i lines hlines
    have hall := tokenizeLines_holds hscanned (fun t ht => absurd ht List.not_mem_nil) hlines
    replace hrun := Option.some.inj hrun
    unfold wrapLeadingComment at hrun
    split at hrun
    · exact wrapLeadingCommentLines_holds hcomment
        (fun _ hmem => absurd hmem List.not_mem_nil) hall hrun
    · cases hrun
      exact hall
  · rename_i hother
    exact absurd hrun (hother _)

end Every

end Spray
