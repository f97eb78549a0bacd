/-
The words and numbers that are scanned.

A word is the longest run of letters, digits and underscores, and a number is the longest
text that any of the expressions for numbers accepts.  The scanner tries its rules one
after the other and takes the first that matches, so that a shorter text wins where an
earlier rule matches it.  Both sides are told from the run of word characters, or of
digits, that the code begins with (`WordEnds` and `NumberEnds`).
-/
import Spray.Lib.Split
import Spray.Proofs.Tokenize

namespace Spray

/-! ### Kinds of characters -/

def isDigit (c : Char) : Bool := '0'.toNat ≤ c.toNat && c.toNat ≤ '9'.toNat

def isOctalDigit (c : Char) : Bool := '0'.toNat ≤ c.toNat && c.toNat ≤ '7'.toNat

/-- A letter or an underscore. -/
def isWordStart (c : Char) : Bool :=
  ('a'.toNat ≤ c.toNat && c.toNat ≤ 'z'.toNat) || ('A'.toNat ≤ c.toNat && c.toNat ≤ 'Z'.toNat) ||
    c = '_'

def isWordChar (c : Char) : Bool := isWordStart c || isDigit c

/-- One of the letters behind an integer. -/
def isSuffixLetter (c : Char) : Prop := c = 'u' ∨ c = 'U' ∨ c = 'l' ∨ c = 'L'

theorem isDigit_of_isOctalDigit {c : Char} (h : isOctalDigit c = true) : isDigit c = true := by
  simp only [isOctalDigit, isDigit, Bool.and_eq_true, decide_eq_true_eq] at h ⊢
  exact ⟨h.1, h.2.trans (by decide)⟩

theorem isDigit_of_isSuffixLetter {c : Char} (h : isSuffixLetter c) : isDigit c = false := by
  rcases h with rfl | rfl | rfl | rfl <;> rfl

section Accepts

variable {atStart : Bool} {text rest : Text}

theorem accepts_digit : digit.Accepts atStart text rest ↔ ∃ c, isDigit c = true ∧ text = [c] := by
  rw [digit, Regex.accepts_inRanges]
  simp [isDigit]

theorem accepts_octalDigit : (Regex.inRanges [('0', '7')]).Accepts atStart text rest ↔
    ∃ c, isOctalDigit c = true ∧ text = [c] := by
  rw [Regex.accepts_inRanges]
  simp [isOctalDigit]

theorem accepts_integerSuffix {num : Nat} :
    (integerSuffix num).Accepts atStart text rest ↔ ∀ c ∈ text, isSuffixLetter c := by
  refine Regex.accepts_star ?_
  intro atStart text rest
  rw [Regex.accepts_group, Regex.accepts_alts (List.cons_ne_nil _ _)]
  simp [Regex.accepts_char, isSuffixLetter]

theorem accepts_identifier : identifierRegex.Accepts true text rest ↔
    ∃ c t, text = c :: t ∧ isWordStart c = true ∧ ∀ d ∈ t, isWordChar d = true := by
  have hstart : ∀ {text rest}, (Regex.inRanges [('a', 'z'), ('A', 'Z')] "_").Accepts true text
      rest ↔ ∃ c, isWordStart c = true ∧ text = [c] := by
    intro text rest
    rw [Regex.accepts_inRanges]
    simp [isWordStart]
  have hchar : ∀ {atStart text rest}, (Regex.inRanges [('a', 'z'), ('A', 'Z'), ('0', '9')]
      "_").Accepts atStart text rest ↔ ∃ c, isWordChar c = true ∧ text = [c] := by
    intro atStart text rest
    rw [Regex.accepts_inRanges]
    simp [isWordChar, isWordStart, isDigit]
    grind
  rw [identifierRegex, Regex.accepts_anchored, Regex.accepts_seq]
  constructor
  · rintro ⟨t, u, rfl, ht, hu⟩
    obtain ⟨c, hc, rfl⟩ := hstart.mp ht
    exact ⟨c, u, rfl, hc, (Regex.accepts_star hchar).mp hu⟩
  · rintro ⟨c, t, rfl, hc, ht⟩
    exact ⟨[c], t, rfl, hstart.mpr ⟨c, hc, rfl⟩, (Regex.accepts_star hchar).mpr ht⟩

/-- `0x` or `0X`, and more. -/
theorem hex_of_accepts (h : hexConstantRegex.Accepts true text rest) :
    ∃ x t, text = '0' :: x :: t ∧ (x = 'x' ∨ x = 'X') := by
  rw [hexConstantRegex, Regex.accepts_anchored, Regex.accepts_seqs_cons] at h
  obtain ⟨_, _, rfl, hzero, hrest⟩ := h
  obtain ⟨_, u, rfl, hx, -⟩ := Regex.accepts_seqs_cons.mp hrest
  obtain ⟨x, hmem, rfl⟩ := Regex.accepts_anyOf.mp hx
  rw [Regex.accepts_char.mp hzero]
  exact ⟨x, u, rfl, by simpa using hmem⟩

theorem accepts_octal : octalConstantRegex.Accepts true text rest ↔
    ∃ o s, text = '0' :: (o ++ s) ∧ (o ≠ [] ∧ ∀ c ∈ o, isOctalDigit c = true) ∧
      ∀ c ∈ s, isSuffixLetter c := by
  rw [octalConstantRegex, Regex.accepts_anchored, Regex.accepts_seqs_cons]
  constructor
  · rintro ⟨t, u, rfl, hzero, hrest⟩
    obtain ⟨o, s, rfl, ho, hs⟩ := Regex.accepts_seqs_cons.mp hrest
    rw [Regex.accepts_char.mp hzero]
    exact ⟨o, s, rfl, (Regex.accepts_plus accepts_octalDigit).mp ho, accepts_integerSuffix.mp hs⟩
  · rintro ⟨o, s, rfl, ho, hs⟩
    exact ⟨['0'], o ++ s, rfl, Regex.accepts_char.mpr rfl, Regex.accepts_seqs_cons.mpr
      ⟨o, s, rfl, (Regex.accepts_plus accepts_octalDigit).mpr ho, accepts_integerSuffix.mpr hs⟩⟩

theorem accepts_decimal : decimalConstantRegex.Accepts true text rest ↔
    ∃ d s, text = d ++ s ∧ (d ≠ [] ∧ ∀ c ∈ d, isDigit c = true) ∧ ∀ c ∈ s, isSuffixLetter c := by
  rw [decimalConstantRegex, Regex.accepts_anchored, Regex.accepts_seqs_cons]
  constructor
  · rintro ⟨t, u, rfl, hfirst, hrest⟩
    obtain ⟨d, s, rfl, hd, hs⟩ := Regex.accepts_seqs_cons.mp hrest
    obtain ⟨c, hc, rfl⟩ := accepts_digit.mp hfirst
    exact ⟨c :: d, s, rfl, ⟨List.cons_ne_nil c d, List.forall_mem_cons.mpr
      ⟨hc, (Regex.accepts_star accepts_digit).mp hd⟩⟩, accepts_integerSuffix.mp hs⟩
  · rintro ⟨d, s, rfl, ⟨hne, hd⟩, hs⟩
    obtain ⟨c, d, rfl⟩ := List.exists_cons_of_ne_nil hne
    obtain ⟨hc, hd⟩ := List.forall_mem_cons.mp hd
    exact ⟨[c], d ++ s, rfl, accepts_digit.mpr ⟨c, hc, rfl⟩, Regex.accepts_seqs_cons.mpr
      ⟨d, s, rfl, (Regex.accepts_star accepts_digit).mpr hd, accepts_integerSuffix.mpr hs⟩⟩

/-- An exponent: `e`, perhaps a sign, and digits. -/
def IsExponent (t : Text) : Prop :=
  ∃ e sign d, t = e :: (sign ++ d) ∧ (e = 'E' ∨ e = 'e') ∧
    (sign = [] ∨ sign = ['+'] ∨ sign = ['-']) ∧ d ≠ [] ∧ ∀ c ∈ d, isDigit c = true

theorem accepts_exponent : exponent.Accepts atStart text rest ↔ IsExponent text := by
  rw [exponent, Regex.accepts_seqs_cons]
  constructor
  · rintro ⟨t, u, rfl, he, hrest⟩
    obtain ⟨sign, d, rfl, hsign, hd⟩ := Regex.accepts_seqs_cons.mp hrest
    obtain ⟨e, hmem, rfl⟩ := Regex.accepts_anyOf.mp he
    refine ⟨e, sign, d, rfl, by simpa using hmem, ?_, (Regex.accepts_plus accepts_digit).mp hd⟩
    rcases Regex.accepts_opt.mp hsign with hsign | rfl
    · obtain ⟨c, hc, rfl⟩ := Regex.accepts_anyOf.mp hsign
      right
      simpa using hc
    · exact Or.inl rfl
  · rintro ⟨e, sign, d, rfl, he, hsign, hd⟩
    refine ⟨[e], sign ++ d, rfl, Regex.accepts_anyOf.mpr ⟨e, by simpa using he, rfl⟩,
      Regex.accepts_seqs_cons.mpr ⟨sign, d, rfl, Regex.accepts_opt.mpr ?_,
        (Regex.accepts_plus accepts_digit).mpr hd⟩⟩
    rcases hsign with rfl | rfl | rfl
    · exact Or.inr rfl
    · exact Or.inl (Regex.accepts_anyOf.mpr ⟨'+', by simp, rfl⟩)
    · exact Or.inl (Regex.accepts_anyOf.mpr ⟨'-', by simp, rfl⟩)

theorem accepts_sci : sciConstantRegex.Accepts true text rest ↔
    ∃ c d e, text = c :: (d ++ e) ∧ (isDigit c = true ∧ c ≠ '0') ∧
      (∀ c ∈ d, isDigit c = true) ∧ IsExponent e := by
  have hfirst : ∀ {text rest}, (Regex.inRanges [('1', '9')]).Accepts true text rest ↔
      ∃ c, (isDigit c = true ∧ c ≠ '0') ∧ text = [c] := by
    intro text rest
    have hrange : ∀ c : Char, '1'.toNat ≤ c.toNat ∧ c.toNat ≤ '9'.toNat ↔
        isDigit c = true ∧ c ≠ '0' := by
      intro c
      rw [Ne, ← Char.toNat_inj, isDigit, Bool.and_eq_true, decide_eq_true_eq, decide_eq_true_eq]
      have h0 : '0'.toNat = 48 := rfl
      have h1 : '1'.toNat = 49 := rfl
      omega
    rw [Regex.accepts_inRanges]
    simp [← hrange]
  rw [sciConstantRegex, Regex.accepts_anchored, Regex.accepts_seqs_cons]
  constructor
  · rintro ⟨t, u, rfl, hone, hrest⟩
    obtain ⟨d, e, rfl, hd, he⟩ := Regex.accepts_seqs_cons.mp hrest
    obtain ⟨c, hc, rfl⟩ := hfirst.mp hone
    exact ⟨c, d, e, rfl, hc, (Regex.accepts_star accepts_digit).mp hd, accepts_exponent.mp he⟩
  · rintro ⟨c, d, e, rfl, hc, hd, he⟩
    exact ⟨[c], d ++ e, rfl, hfirst.mpr ⟨c, hc, rfl⟩, Regex.accepts_seqs_cons.mpr
      ⟨d, e, rfl, (Regex.accepts_star accepts_digit).mpr hd, accepts_exponent.mpr he⟩⟩

/-- There is a point in a floating point constant, and a digit in front of it or behind it. -/
theorem point_of_accepts (h : floatConstantRegexFrac.Accepts true text rest ∨
    floatConstantRegexWhole.Accepts true text rest) :
    ∃ d t, text = d ++ '.' :: t ∧ (∀ c ∈ d, isDigit c = true) ∧
      (d = [] → ∃ c u, t = c :: u ∧ isDigit c = true) := by
  rcases h with h | h
  · rw [floatConstantRegexFrac, Regex.accepts_anchored, Regex.accepts_seqs_cons] at h
    obtain ⟨d, _, rfl, hd, hrest⟩ := h
    obtain ⟨_, _, rfl, hpoint, hfrac⟩ := Regex.accepts_seqs_cons.mp hrest
    obtain ⟨t, u, rfl, ht, -⟩ := Regex.accepts_seqs_cons.mp hfrac
    rw [Regex.accepts_char.mp hpoint]
    obtain ⟨hne, hall⟩ := (Regex.accepts_plus accepts_digit).mp ht
    obtain ⟨c, t, rfl⟩ := List.exists_cons_of_ne_nil hne
    exact ⟨d, _, rfl, (Regex.accepts_star accepts_digit).mp hd,
      fun _ => ⟨c, t ++ u, rfl, hall c List.mem_cons_self⟩⟩
  · rw [floatConstantRegexWhole, Regex.accepts_anchored, Regex.accepts_seqs_cons] at h
    obtain ⟨d, _, rfl, hd, hrest⟩ := h
    obtain ⟨_, t, rfl, hpoint, -⟩ := Regex.accepts_seqs_cons.mp hrest
    rw [Regex.accepts_char.mp hpoint]
    obtain ⟨hne, hall⟩ := (Regex.accepts_plus accepts_digit).mp hd
    exact ⟨d, t, rfl, hall, fun hnil => absurd hnil hne⟩

theorem accepts_frac {c : Char} (h : isDigit c = true) :
    floatConstantRegexFrac.Accepts true ['.', c] rest := by
  rw [floatConstantRegexFrac, Regex.accepts_anchored, Regex.accepts_seqs_cons]
  refine ⟨[], ['.', c], rfl, (Regex.accepts_star accepts_digit).mpr nofun, ?_⟩
  refine Regex.accepts_seqs_cons.mpr ⟨['.'], [c], rfl, Regex.accepts_char.mpr rfl, ?_⟩
  refine Regex.accepts_seqs_cons.mpr ⟨[c], [], rfl, (Regex.accepts_plus accepts_digit).mpr
    ⟨List.cons_ne_nil c [], by simpa using h⟩, ?_⟩
  exact Regex.accepts_seqs_cons.mpr ⟨[], [], rfl, Regex.accepts_opt.mpr (Or.inr rfl),
    Regex.accepts_opt.mpr (Or.inr rfl)⟩

theorem accepts_whole {d : Text} (hne : d ≠ []) (hd : ∀ c ∈ d, isDigit c = true) :
    floatConstantRegexWhole.Accepts true (d ++ ['.']) rest := by
  rw [floatConstantRegexWhole, Regex.accepts_anchored, Regex.accepts_seqs_cons]
  refine ⟨d, ['.'], rfl, (Regex.accepts_plus accepts_digit).mpr ⟨hne, hd⟩, ?_⟩
  refine Regex.accepts_seqs_cons.mpr ⟨['.'], [], rfl, Regex.accepts_char.mpr rfl, ?_⟩
  refine Regex.accepts_seqs_cons.mpr ⟨[], [], rfl, (Regex.accepts_star accepts_digit).mpr nofun, ?_⟩
  exact Regex.accepts_seqs_cons.mpr ⟨[], [], rfl, Regex.accepts_opt.mpr (Or.inr rfl),
    Regex.accepts_opt.mpr (Or.inr rfl)⟩

end Accepts

/-! ### What is scanned first -/

/-- The token is the next one there is in normal mode. -/
def NextIs (search : RegexSearch) (code : Text) (token : Token) : Prop :=
  ∀ newLine, nextToken search code newLine { mode := .normal, tokenQueue := [] } =
    .ok (token, { mode := .normal, tokenQueue := [] })

/-- The texts of a table begin with characters of another kind. -/
def beginsApart (kind : Char → Bool) (table : List Text) : Bool :=
  table.all fun text => text.head?.any fun c => !kind c

theorem findPrefix_some {code text : Text} {table : List Text}
    (h : findPrefix code table = some text) : text ∈ table ∧ text <+: code := by
  unfold findPrefix at h
  have hbegins := List.find?_some h
  exact ⟨List.mem_of_find?_eq_some h, List.isPrefixOf_iff_prefix.mp hbegins⟩

theorem findPrefix_none {table : List Text} (kind : Char → Bool)
    (htable : beginsApart kind table = true) {c : Char} (hc : kind c = true) (rest : Text) :
    findPrefix (c :: rest) table = none := by
  rw [findPrefix, List.find?_eq_none]
  intro text htext hbegins
  have hhead := List.all_eq_true.mp htable text htext
  cases text with
  | nil => cases hhead
  | cons d text =>
      obtain ⟨rfl, -⟩ := List.cons_prefix_cons.mp (List.isPrefixOf_iff_prefix.mp hbegins)
      simp [hc] at hhead

theorem startsWith_false {table : List Text} (kind : Char → Bool)
    (htable : beginsApart kind table = true) {c : Char} (hc : kind c = true) (rest : Text) :
    startsWith (c :: rest) table = false := by
  rw [startsWith, findPrefix_none kind htable hc]
  rfl

section Scan

variable {search : RegexSearch} {r : Regex} {code : Text}

theorem nextIs_of_scan (kind : Char → Bool) (hblock : beginsApart kind cComment = true)
    (hline : beginsApart kind cppComment = true) {c : Char} (hc : kind c = true) {rest : Text}
    {token : Token} (h : scanNormalMode search (c :: rest) = .ok [token]) :
    NextIs search (c :: rest) token := by
  intro newLine
  unfold nextToken scan startsWithComment startsWithLineComment
  rw [startsWith_false kind hblock hc, startsWith_false kind hline hc, h]
  rfl

theorem NextIs.unique {token token' : Token} (h : NextIs search code token)
    (h' : NextIs search code token') : token = token' := by
  have heq := (h true).symm.trans (h' true)
  cases heq
  rfl

theorem regexMatch_true (h : FindsLongest search (.anchored r)) {text rest : Text}
    (hr : (Regex.anchored r).Accepts true text rest) (hne : text ≠ [])
    (hcode : code = text ++ rest) :
    regexMatch search (.anchored r) code = true := by
  obtain ⟨m, hm⟩ := Regex.accepts_anchored.mp hr
  exact regexMatch_of_matches h hm hne hcode

theorem accepts_of_regexMatch (h : FindsLongest search (.anchored r))
    (hmatch : regexMatch search (.anchored r) code = true) :
    ∃ text rest, code = text ++ rest ∧ text ≠ [] ∧ (Regex.anchored r).Accepts true text rest := by
  obtain ⟨text, rest, m, hcode, hne, hm, -⟩ := matches_of_regexMatch h hmatch
  exact ⟨text, rest, hcode, hne, Regex.accepts_anchored.mpr ⟨m, hm⟩⟩

/-- Nothing that begins with this character is accepted. -/
theorem regexMatch_false (h : FindsLongest search (.anchored r)) {c : Char} {rest : Text}
    (hno : ∀ t rest, ¬ (Regex.anchored r).Accepts true (c :: t) rest) :
    regexMatch search (.anchored r) (c :: rest) = false := by
  rw [← Bool.not_eq_true]
  intro hmatch
  obtain ⟨text, rest', hcode, hne, haccepts⟩ := accepts_of_regexMatch h hmatch
  obtain ⟨d, t, rfl⟩ := List.exists_cons_of_ne_nil hne
  obtain ⟨rfl, -⟩ := List.cons.inj hcode
  exact hno t rest' haccepts

theorem fullMatch_longest (h : FindsLongest search (.anchored r)) {text : Text}
    (hlongest : Regex.LongestPrefix [.anchored r] code text) :
    fullMatch search (.anchored r) code = .ok text := by
  obtain ⟨m, hresult⟩ := Regex.search_longestPrefix h hlongest
  rw [fullMatch, hresult]
  rfl

/-- What is scanned where the expression matches is the longest text that it accepts. -/
theorem scanMatch_longest (h : FindsLongest search (.anchored r))
    (hmatch : regexMatch search (.anchored r) code = true) (tag : TokenTag) :
    ∃ text rest, code = text ++ rest ∧ (Regex.anchored r).Accepts true text rest ∧
      Regex.LongestPrefix [.anchored r] code text ∧
      scanMatch search (.anchored r) tag code = .ok [⟨tag, text⟩] := by
  obtain ⟨text, rest, hcode, -, haccepts⟩ := accepts_of_regexMatch h hmatch
  obtain ⟨p, hp⟩ := Regex.exists_longestPrefix (List.mem_singleton_self _) hcode haccepts
  obtain ⟨r', hr', rest', hcode', haccepts'⟩ := hp.accepted
  rw [List.mem_singleton.mp hr'] at haccepts'
  refine ⟨p, rest', hcode', haccepts', hp, ?_⟩
  rw [scanMatch, fullMatch_longest h hp]
  rfl

theorem not_accepts_literal {c : Char} (hc : c ≠ '"') (t rest : Text) :
    ¬ literalRegex.Accepts true (c :: t) rest := by
  rw [literalRegex, Regex.accepts_anchored, Regex.accepts_seqs_cons]
  rintro ⟨_, u, htext, hquote, -⟩
  obtain ⟨d, hd, rfl⟩ := Regex.accepts_anyOf.mp hquote
  obtain ⟨rfl, -⟩ := List.cons.inj htext
  exact hc (by simpa using hd)

theorem not_accepts_whitespace {c : Char} (hc : c ∉ ['\t', '\r', '\n', ' ']) (t rest : Text) :
    ¬ whitespaceRegex.Accepts true (c :: t) rest := by
  rw [whitespaceRegex, Regex.accepts_anchored, Regex.accepts_star Regex.accepts_anyOf]
  intro hall
  exact hc (by simpa using hall c List.mem_cons_self)

/-! ### Words -/

/-- A word, and that it is over. -/
structure IsWord (w rest : Text) : Prop where
  start : ∃ c t, w = c :: t ∧ isWordStart c = true
  all : ∀ c ∈ w, isWordChar c = true
  stops : Split.Stops isWordChar rest

theorem IsWord.longest {w rest : Text} (h : IsWord w rest) :
    Regex.LongestPrefix [identifierRegex] (w ++ rest) w := by
  obtain ⟨c, t, rfl, hc⟩ := h.start
  refine ⟨⟨_, List.mem_singleton_self _, rest, rfl, accepts_identifier.mpr ⟨c, t, rfl, hc,
    (List.forall_mem_cons.mp h.all).2⟩⟩, ?_⟩
  intro r hr text' rest' hcode haccepts
  rw [List.mem_singleton.mp hr] at haccepts
  obtain ⟨d, u, rfl, hd, hu⟩ := accepts_identifier.mp haccepts
  refine Split.length_le h.stops (List.forall_mem_cons.mpr ⟨?_, hu⟩) hcode
  rw [isWordChar, hd, Bool.true_or]

/-- What consists of word characters is no longer than the word. -/
theorem IsWord.begins_iff {w rest v : Text} (h : IsWord w rest)
    (hv : ∀ c ∈ v, isWordChar c = true) :
    v <+: w ++ rest ↔ v <+: w := by
  constructor
  · intro hbegins
    obtain ⟨u, hcode⟩ := hbegins
    exact List.prefix_of_prefix_length_le ⟨u, hcode⟩ (List.prefix_append w rest)
      (Split.length_le h.stops hv hcode.symm)
  · intro hbegins
    exact hbegins.trans (List.prefix_append w rest)

/-- The longest identifier is a word. -/
theorem exists_word {w : Text} (h : Regex.LongestPrefix [identifierRegex] code w) :
    ∃ rest, code = w ++ rest ∧ IsWord w rest := by
  obtain ⟨r, hr, _, hcode, haccepts⟩ := h.accepted
  rw [List.mem_singleton.mp hr] at haccepts
  obtain ⟨c, t, rfl, hc, -⟩ := accepts_identifier.mp haccepts
  obtain ⟨w', rest', hsplit, hall, hover⟩ := Split.exists_split isWordChar code
  have hword : IsWord w' rest' := by
    refine ⟨?_, hall, hover⟩
    cases w' with
    | nil =>
        have hstop := hover c (by rw [← List.nil_append rest', ← hsplit, hcode]; rfl)
        rw [isWordChar, hc] at hstop
        cases hstop
    | cons d t' =>
        obtain ⟨rfl, -⟩ := List.cons.inj (hcode.symm.trans hsplit)
        exact ⟨_, t', rfl, hc⟩
  have hlongest := hword.longest
  rw [← hsplit] at hlongest
  rw [h.unique hlongest]
  exact ⟨rest', hsplit, hword⟩

/-- What a word is. -/
def wordTag (w : Text) : TokenTag :=
  if w ∈ cKeywords then .keyword
  else if w = "sizeof".toList then .operator
  else if w ∈ cBuiltinTypes then .primType
  else .identifier

/-- A blank that may end a keyword comes next. -/
def blankNext (rest : Text) : Bool := rest.head?.any fun c => c ∈ ['\n', '\t', ' ']

theorem keywords_words : (cKeywords.all fun w => w.all isWordChar) = true := by decide

/-- No keyword begins with another. -/
theorem keywords_apart : (cKeywords.all fun w => cKeywords.all fun k =>
    k = w || !k.isPrefixOf w) = true := by decide

/-- Only one operator is a word. -/
theorem operators_apart : (cOperators.all fun text =>
    text = "sizeof".toList || text.head?.any fun c => !isWordStart c) = true := by decide

/-- The table and the expression have the same keywords. -/
theorem exists_keywords : ∃ names : List String, names ≠ [] ∧
    cKeywords = names.map String.toList ∧
    keywordRegex = .anchored (.seq (.group 1 (.alts (names.map Regex.literal)))
      (.anyOf "\n\t ")) :=
  ⟨["case", "default", "if", "else", "switch", "while", "do", "for", "goto", "continue", "break",
    "return", "struct", "union", "enum", "typedef", "extern", "static", "register", "auto",
    "const", "volatile", "restrict"], List.cons_ne_nil _ _, rfl, rfl⟩

theorem accepts_keyword {text rest : Text} : keywordRegex.Accepts true text rest ↔
    ∃ w ∈ cKeywords, ∃ c ∈ ['\n', '\t', ' '], text = w ++ [c] := by
  obtain ⟨names, hne, htable, hregex⟩ := exists_keywords
  have hne' : names.map Regex.literal ≠ [] := by simpa using hne
  rw [hregex, htable, Regex.accepts_anchored, Regex.accepts_seq]
  constructor
  · rintro ⟨w, _, rfl, hw, hblank⟩
    obtain ⟨c, hc, rfl⟩ := Regex.accepts_anyOf.mp hblank
    obtain ⟨r, hr, haccepts⟩ := (Regex.accepts_alts hne').mp (Regex.accepts_group.mp hw)
    obtain ⟨name, hname, rfl⟩ := List.mem_map.mp hr
    rw [Regex.accepts_literal.mp haccepts]
    exact ⟨_, List.mem_map_of_mem hname, c, by simpa using hc, rfl⟩
  · rintro ⟨_, hw, c, hc, rfl⟩
    obtain ⟨name, hname, rfl⟩ := List.mem_map.mp hw
    refine ⟨_, [c], rfl, Regex.accepts_group.mpr ((Regex.accepts_alts hne').mpr
      ⟨_, List.mem_map_of_mem hname, Regex.accepts_literal.mpr rfl⟩),
      Regex.accepts_anyOf.mpr ⟨c, by simpa using hc, rfl⟩⟩

/-- A keyword is recognized where a blank ends it. -/
theorem startsWithKeyword_iff (hsearch : FindsRegexes search) {w rest : Text} (h : IsWord w rest) :
    startsWithKeyword search (w ++ rest) = true ↔ w ∈ cKeywords ∧ blankNext rest = true := by
  have hfinds : FindsLongest search keywordRegex := hsearch.of (i := 14) rfl
  constructor
  · intro hmatch
    obtain ⟨text, rest', hcode, -, haccepts⟩ := accepts_of_regexMatch hfinds hmatch
    obtain ⟨k, hk, c, hc, rfl⟩ := accepts_keyword.mp haccepts
    have hover : Split.Stops isWordChar (c :: rest') := by
      refine Split.stops_cons ?_
      simp only [List.mem_cons, List.not_mem_nil, or_false] at hc
      rcases hc with rfl | rfl | rfl <;> rfl
    have hwords : ∀ d ∈ k, isWordChar d = true :=
      List.all_eq_true.mp (List.all_eq_true.mp keywords_words k hk)
    rw [List.append_assoc, List.singleton_append] at hcode
    have hkeyword := Split.takeWhile_append hwords hover
    rw [← hcode, Split.takeWhile_append h.all h.stops] at hkeyword
    subst hkeyword
    rw [List.append_cancel_left hcode]
    exact ⟨hk, by simpa [blankNext] using hc⟩
  · rintro ⟨hw, hblank⟩
    obtain ⟨c, hc, hblank⟩ := (Option.any_eq_true _ _).mp hblank
    obtain ⟨rest, rfl⟩ := List.head?_eq_some_iff.mp hc
    replace hblank := of_decide_eq_true hblank
    have haccepts : keywordRegex.Accepts true (w ++ [c]) rest :=
      accepts_keyword.mpr ⟨w, hw, c, hblank, rfl⟩
    exact regexMatch_true hfinds haccepts (by simp) (by simp)

theorem scanKeyword_word {w rest : Text} (h : IsWord w rest) (hw : w ∈ cKeywords) :
    scanKeyword (w ++ rest) = .ok [⟨.keyword, w⟩] := by
  have hsome : (findPrefix (w ++ rest) cKeywords).isSome = true :=
    List.find?_isSome.mpr ⟨w, hw, List.isPrefixOf_iff_prefix.mpr (List.prefix_append w rest)⟩
  obtain ⟨k, hk⟩ := Option.isSome_iff_exists.mp hsome
  obtain ⟨hmem, hbegins⟩ := findPrefix_some hk
  have hwords : ∀ d ∈ k, isWordChar d = true :=
    List.all_eq_true.mp (List.all_eq_true.mp keywords_words k hmem)
  have hinside : k <+: w := (h.begins_iff hwords).mp hbegins
  have happart := List.all_eq_true.mp (List.all_eq_true.mp keywords_apart w hw) k hmem
  rw [List.isPrefixOf_iff_prefix.mpr hinside, Bool.not_true, Bool.or_false,
    decide_eq_true_eq] at happart
  rw [scanKeyword, scanPrefix, hk, happart]
  rfl

theorem sizeof_word : ∀ c ∈ "sizeof".toList, isWordChar c = true := by
  have hall : ("sizeof".toList.all isWordChar) = true := by decide
  exact List.all_eq_true.mp hall

/-- The operator that a word begins with is `sizeof`. -/
theorem findPrefix_operators {w rest : Text} (h : IsWord w rest) :
    findPrefix (w ++ rest) cOperators =
      if "sizeof".toList <+: w then some "sizeof".toList else none := by
  obtain ⟨c, t, hw, hc⟩ := h.start
  have hword : ∀ text ∈ cOperators, text <+: w ++ rest → text = "sizeof".toList := by
    intro text htext hbegins
    have happart := List.all_eq_true.mp operators_apart text htext
    rcases (Bool.or_eq_true _ _).mp happart with heq | hhead
    · exact of_decide_eq_true heq
    · cases text with
      | nil => cases hhead
      | cons d text =>
          rw [hw, List.cons_append] at hbegins
          obtain ⟨rfl, -⟩ := List.cons_prefix_cons.mp hbegins
          simp [hc] at hhead
  split
  · rename_i hsizeof
    have hmem : "sizeof".toList ∈ cOperators := by decide
    have hbegins := List.isPrefixOf_iff_prefix.mpr ((h.begins_iff sizeof_word).mpr hsizeof)
    have hsome : (findPrefix (w ++ rest) cOperators).isSome = true :=
      List.find?_isSome.mpr ⟨_, hmem, hbegins⟩
    obtain ⟨text, hfound⟩ := Option.isSome_iff_exists.mp hsome
    obtain ⟨htext, hbegins⟩ := findPrefix_some hfound
    rw [hfound, hword text htext hbegins]
  · rename_i hother
    cases hfound : findPrefix (w ++ rest) cOperators with
    | none => rfl
    | some text =>
        obtain ⟨htext, hbegins⟩ := findPrefix_some hfound
        rw [hword text htext hbegins] at hbegins
        exact absurd ((h.begins_iff sizeof_word).mp hbegins) hother

theorem isWordStart_ne {c : Char} (h : isWordStart c = true) :
    c ≠ '"' ∧ c ∉ ['\t', '\r', '\n', ' '] := by
  refine ⟨?_, ?_⟩
  · rintro rfl
    cases h
  · intro hmem
    simp only [List.mem_cons, List.not_mem_nil, or_false] at hmem
    rcases hmem with rfl | rfl | rfl | rfl <;> cases h

/-- What is scanned of a word. -/
theorem scanNormalMode_word (hsearch : FindsRegexes search) {w rest : Text} (h : IsWord w rest) :
    scanNormalMode search (w ++ rest) = .ok [
      if w ∈ cKeywords ∧ blankNext rest = true then ⟨.keyword, w⟩
      else if "sizeof".toList <+: w then ⟨.operator, "sizeof".toList⟩
      else ⟨if w ∈ cBuiltinTypes then .primType else .identifier, w⟩] := by
  obtain ⟨c, t, hw, hc⟩ := h.start
  have hcode : w ++ rest = c :: (t ++ rest) := by rw [hw]; rfl
  have huncomment : startsWithUncomment (w ++ rest) = false := by
    rw [hcode]
    exact startsWith_false isWordStart (by decide) hc _
  unfold scanNormalMode
  rw [huncomment, if_neg Bool.false_ne_true]
  by_cases hkeyword : w ∈ cKeywords ∧ blankNext rest = true
  · rw [if_pos ((startsWithKeyword_iff hsearch h).mpr hkeyword), if_pos hkeyword]
    exact scanKeyword_word h hkeyword.1
  · rw [if_neg fun hk => hkeyword ((startsWithKeyword_iff hsearch h).mp hk), if_neg hkeyword]
    have hoperator := findPrefix_operators h
    by_cases hsizeof : "sizeof".toList <+: w
    · rw [if_pos hsizeof] at hoperator ⊢
      rw [startsWithOperator, startsWith, hoperator]
      unfold scanOperator scanPrefix
      rw [hoperator]
      rfl
    · rw [if_neg hsizeof] at hoperator ⊢
      have hspecial : startsWithSpecialSymbol (w ++ rest) = false := by
        rw [hcode]
        exact startsWith_false isWordStart (by decide) hc _
      have hliteral : startsWithLiteral search (w ++ rest) = false := by
        rw [hcode]
        exact regexMatch_false (hsearch.of (i := 0) rfl) (not_accepts_literal (isWordStart_ne hc).1)
      have hwhitespace : startsWithWhitespace search (w ++ rest) = false := by
        rw [hcode]
        exact regexMatch_false (hsearch.of (i := 1) rfl)
          (not_accepts_whitespace (isWordStart_ne hc).2)
      have hidentifier : startsWithIdentifier search (w ++ rest) = true := by
        obtain ⟨r, hr, rest', hsplit, haccepts⟩ := h.longest.accepted
        rw [List.mem_singleton.mp hr] at haccepts
        exact regexMatch_true (hsearch.of (i := 2) rfl) haccepts (by rw [hw]; simp) hsplit
      rw [startsWithOperator, startsWith, hoperator, hspecial, hliteral, hwhitespace, hidentifier]
      have hfull := fullMatch_longest (hsearch.of (i := 2) rfl) h.longest
      show scanIdentifier search (w ++ rest) = _
      rw [scanIdentifier]
      exact congrArg (Except.map _) hfull

/-- A keyword is not `sizeof` and more. -/
theorem not_sizeof_of_keyword {w : Text} (hw : w ∈ cKeywords) : ¬ "sizeof".toList <+: w := by
  have hno : (cKeywords.all fun w => !"sizeof".toList.isPrefixOf w) = true := by decide
  have hw' := List.all_eq_true.mp hno w hw
  intro hbegins
  rw [List.isPrefixOf_iff_prefix.mpr hbegins] at hw'
  cases hw'

/-- The word that the code begins with, if any, is scanned as what it is. -/
structure WordEnds (w rest : Text) : Prop where
  /-- A keyword is ended by a blank. -/
  keyword : w ∈ cKeywords → blankNext rest = true
  /-- What begins with `sizeof` is no longer than that. -/
  sizeof : "sizeof".toList <+: w → w = "sizeof".toList

/-- The next token is the word, as what it is, where a keyword is ended by a blank and the
word does not only begin with `sizeof`. -/
theorem nextIs_word_iff (hsearch : FindsRegexes search) {w rest : Text} (h : IsWord w rest) :
    NextIs search (w ++ rest) ⟨wordTag w, w⟩ ↔ WordEnds w rest := by
  obtain ⟨c, t, hw, hc⟩ := h.start
  have hcode : w ++ rest = c :: (t ++ rest) := by rw [hw]; rfl
  have hscan := scanNormalMode_word hsearch h
  have hnext := fun token (hok : scanNormalMode search (c :: (t ++ rest)) = .ok [token]) =>
    nextIs_of_scan isWordStart (by decide) (by decide) hc hok
  have hkeyword : "sizeof".toList ∉ cKeywords := by decide
  rw [← hcode] at hnext
  constructor
  · intro hclaim
    have heq := hclaim.unique (hnext _ hscan)
    refine ⟨fun hmem => ?_, fun hsizeof => ?_⟩
    · by_contra hblank
      rw [if_neg fun hk => hblank hk.2] at heq
      split at heq
      · obtain ⟨-, rfl⟩ := Token.mk.inj heq
        exact hkeyword hmem
      · have htag := (Token.mk.inj heq).1
        rw [wordTag, if_pos hmem] at htag
        split at htag <;> cases htag
    · split at heq
      · rename_i hk
        exact absurd hsizeof (not_sizeof_of_keyword hk.1)
      · exact (Token.mk.inj heq).2
  · rintro ⟨hblank, hsizeof⟩
    refine hnext _ (hscan.trans ?_)
    congr 2
    by_cases hmem : w ∈ cKeywords
    · rw [if_pos ⟨hmem, hblank hmem⟩, wordTag, if_pos hmem]
    · rw [if_neg fun hk => hmem hk.1, wordTag, if_neg hmem]
      by_cases hbegins : "sizeof".toList <+: w
      · rw [if_pos hbegins, if_pos (hsizeof hbegins), hsizeof hbegins]
      · have hne : w ≠ "sizeof".toList := by
          rintro rfl
          exact hbegins List.prefix_rfl
        rw [if_neg hbegins, if_neg hne]

theorem nextIs_longestWord_iff (hsearch : FindsRegexes search) (code : Text) :
    (∀ w, Regex.LongestPrefix [identifierRegex] code w → NextIs search code ⟨wordTag w, w⟩) ↔
      WordEnds (code.takeWhile isWordChar) (code.dropWhile isWordChar) := by
  obtain ⟨w, rest, rfl, hall, hover⟩ := Split.exists_split isWordChar code
  rw [Split.takeWhile_append hall hover, Split.dropWhile_append hall hover]
  by_cases hstart : ∃ c t, w = c :: t ∧ isWordStart c = true
  · have h : IsWord w rest := ⟨hstart, hall, hover⟩
    rw [← nextIs_word_iff hsearch h]
    constructor
    · intro hclaim
      exact hclaim w h.longest
    · intro hnext v hv
      rw [hv.unique h.longest]
      exact hnext
  · -- There is no word, and keywords are words.
    refine ⟨fun _ => ⟨fun hw => ?_, fun hsizeof => ?_⟩, fun _ v hv => ?_⟩
    · have hstarts : (cKeywords.all fun w => w.head?.any isWordStart) = true := by decide
      obtain ⟨c, hc, hword⟩ := (Option.any_eq_true _ _).mp (List.all_eq_true.mp hstarts w hw)
      obtain ⟨t, rfl⟩ := List.head?_eq_some_iff.mp hc
      exact absurd ⟨c, t, rfl, hword⟩ hstart
    · obtain ⟨t, rfl⟩ := hsizeof
      exact absurd ⟨'s', "izeof".toList ++ t, by simp, rfl⟩ hstart
    · obtain ⟨rest', hcode, hword⟩ := exists_word hv
      have hv := Split.takeWhile_append hword.all hword.stops
      rw [← hcode, Split.takeWhile_append hall hover] at hv
      subst hv
      exact absurd hword.start hstart

/-! ### Numbers -/

/-- The expressions for numbers. -/
def numericRegexes : List Regex :=
  [hexConstantRegex, octalConstantRegex, decimalConstantRegex, sciConstantRegex,
    floatConstantRegexFrac, floatConstantRegexWhole]

/-- Some digits, and that they are over. -/
structure Digits (d rest : Text) : Prop where
  ne_nil : d ≠ []
  all : ∀ c ∈ d, isDigit c = true
  stops : Split.Stops isDigit rest

section Digits

variable {d rest t u : Text} (h : Digits d rest)
include h

/-- Digits and suffix letters: either there are no letters, or the digits are all there are. -/
theorem Digits.suffix {ds s : Text} (hcode : d ++ rest = ds ++ s ++ u)
    (hds : ∀ c ∈ ds, isDigit c = true) (hs : ∀ c ∈ s, isSuffixLetter c) :
    (s = [] ∧ ds.length ≤ d.length) ∨ (ds = d ∧ ∃ c ∈ rest.head?, isSuffixLetter c) := by
  cases s with
  | nil =>
      rw [List.append_nil] at hcode
      exact Or.inl ⟨rfl, Split.length_le h.stops hds hcode⟩
  | cons c s =>
      have hc := hs c List.mem_cons_self
      have hover : Split.Stops isDigit (c :: (s ++ u)) :=
        Split.stops_cons (isDigit_of_isSuffixLetter hc)
      rw [List.append_assoc, List.cons_append] at hcode
      have hd := Split.takeWhile_append h.all h.stops
      rw [hcode, Split.takeWhile_append hds hover] at hd
      subst hd
      rw [List.append_cancel_left hcode]
      exact Or.inr ⟨rfl, c, rfl, hc⟩

/-- Without suffix letters, an integer ends with the digits. -/
theorem Digits.integer (hcode : d ++ rest = t ++ u)
    (hno : ∀ c ∈ rest.head?, ¬ isSuffixLetter c)
    (ht : octalConstantRegex.Accepts true t u ∨ decimalConstantRegex.Accepts true t u) :
    t.length ≤ d.length := by
  obtain ⟨ds, s, rfl, hds, hs⟩ : ∃ ds s, t = ds ++ s ∧ (∀ c ∈ ds, isDigit c = true) ∧
      ∀ c ∈ s, isSuffixLetter c := by
    rcases ht with ht | ht
    · obtain ⟨o, s, rfl, ⟨-, ho⟩, hs⟩ := accepts_octal.mp ht
      exact ⟨'0' :: o, s, rfl, List.forall_mem_cons.mpr
        ⟨rfl, fun c hc => isDigit_of_isOctalDigit (ho c hc)⟩, hs⟩
    · obtain ⟨ds, s, rfl, ⟨-, hds⟩, hs⟩ := accepts_decimal.mp ht
      exact ⟨ds, s, rfl, hds, hs⟩
  rcases h.suffix hcode hds hs with ⟨rfl, hle⟩ | ⟨-, c, hc, hletter⟩
  · rw [List.append_nil]
    exact hle
  · exact absurd hletter (hno c hc)

theorem Digits.hex (hcode : d ++ rest = t ++ u) (ht : hexConstantRegex.Accepts true t u) :
    d = ['0'] ∧ ∃ x ∈ rest.head?, x = 'x' ∨ x = 'X' := by
  obtain ⟨x, t, rfl, hx⟩ := hex_of_accepts ht
  have hover : Split.Stops isDigit (x :: (t ++ u)) := by
    refine Split.stops_cons ?_
    rcases hx with rfl | rfl <;> rfl
  have hzero : ∀ c ∈ ['0'], isDigit c = true := List.forall_mem_singleton.mpr rfl
  have hd := Split.takeWhile_append h.all h.stops
  rw [hcode] at hd
  rw [← hd, show '0' :: x :: t ++ u = ['0'] ++ x :: (t ++ u) from rfl] at hcode ⊢
  rw [Split.takeWhile_append hzero hover] at hcode ⊢
  rw [List.append_cancel_left hcode]
  exact ⟨rfl, x, rfl, hx⟩

theorem Digits.float (hcode : d ++ rest = t ++ u)
    (ht : floatConstantRegexFrac.Accepts true t u ∨ floatConstantRegexWhole.Accepts true t u) :
    rest.head? = some '.' := by
  obtain ⟨ds, v, rfl, hds, -⟩ := point_of_accepts ht
  have hover : Split.Stops isDigit ('.' :: (v ++ u)) := Split.stops_cons rfl
  rw [List.append_assoc, List.cons_append] at hcode
  have hd := Split.dropWhile_append h.all h.stops
  rw [hcode, Split.dropWhile_append hds hover] at hd
  rw [← hd]
  rfl

theorem Digits.sci (hcode : d ++ rest = t ++ u) (ht : sciConstantRegex.Accepts true t u) :
    d.head? ≠ some '0' ∧ ∃ e, e <+: rest ∧ IsExponent e := by
  obtain ⟨c, ds, e, rfl, ⟨hc, hzero⟩, hds, he⟩ := accepts_sci.mp ht
  have hover : Split.Stops isDigit (e ++ u) := by
    obtain ⟨l, sign, v, rfl, hl, -⟩ := he
    refine Split.stops_cons ?_
    rcases hl with rfl | rfl <;> rfl
  have hall : ∀ x ∈ c :: ds, isDigit x = true := List.forall_mem_cons.mpr ⟨hc, hds⟩
  rw [← List.cons_append, List.append_assoc] at hcode
  have hd := Split.takeWhile_append h.all h.stops
  rw [hcode, Split.takeWhile_append hall hover] at hd
  subst hd
  rw [List.append_cancel_left hcode]
  exact ⟨by simpa using hzero, e, List.prefix_append e u, he⟩

end Digits

/-- Nothing of the code is accepted. -/
def Rejects (r : Regex) (code : Text) : Prop :=
  ∀ text rest, code = text ++ rest → ¬ r.Accepts true text rest

/-- What the first of the expressions that accepts something accepts. -/
inductive FirstConstant (code p : Text) : Prop
  | hex (longest : Regex.LongestPrefix [hexConstantRegex] code p)
  | octal (hex : Rejects hexConstantRegex code)
      (longest : Regex.LongestPrefix [octalConstantRegex] code p)
  | decimal (hex : Rejects hexConstantRegex code) (octal : Rejects octalConstantRegex code)
      (longest : Regex.LongestPrefix [decimalConstantRegex] code p)

/-- The number is of the kind that is tried first. -/
structure NumberEnds (d rest : Text) : Prop where
  /-- There is a digit in front of a point. -/
  leading : d = [] → ∀ c u, rest = '.' :: c :: u → isDigit c = false
  /-- There is no point behind digits. -/
  point : d ≠ [] → rest.head? ≠ some '.'
  /-- There is no exponent behind digits. -/
  exponent : d ≠ [] → d.head? ≠ some '0' → ∀ e, e <+: rest → ¬ IsExponent e
  /-- What begins like an octal number is one. -/
  octal : ∀ o t, d = '0' :: o :: t → isOctalDigit o = true → ∀ c ∈ t, isOctalDigit c = true

section First

variable {d rest p : Text} (h : Digits d rest)
include h

theorem Digits.accepts_decimal : decimalConstantRegex.Accepts true d rest :=
  Spray.accepts_decimal.mpr ⟨d, [], (List.append_nil d).symm, ⟨h.ne_nil, h.all⟩, nofun⟩

/-- Where the first is not a hexadecimal number, it ends with the digits or suffix letters. -/
theorem FirstConstant.integer (hfirst : FirstConstant (d ++ rest) p)
    (hnohex : ∀ x ∈ rest.head?, x ≠ 'x' ∧ x ≠ 'X') (hno : ∀ c ∈ rest.head?, ¬ isSuffixLetter c) :
    p.length ≤ d.length := by
  cases hfirst with
  | hex longest =>
      obtain ⟨r, hr, u, hcode, haccepts⟩ := longest.accepted
      rw [List.mem_singleton.mp hr] at haccepts
      obtain ⟨-, x, hx, hhex⟩ := h.hex hcode haccepts
      exact absurd hhex (not_or.mpr (hnohex x hx))
  | octal _ longest =>
      obtain ⟨r, hr, u, hcode, haccepts⟩ := longest.accepted
      rw [List.mem_singleton.mp hr] at haccepts
      exact h.integer hcode hno (Or.inl haccepts)
  | decimal _ _ longest =>
      obtain ⟨r, hr, u, hcode, haccepts⟩ := longest.accepted
      rw [List.mem_singleton.mp hr] at haccepts
      exact h.integer hcode hno (Or.inr haccepts)

theorem numberEnds_of_longest (hfirst : FirstConstant (d ++ rest) p)
    (hlongest : Regex.LongestPrefix numericRegexes (d ++ rest) p) : NumberEnds d rest := by
  refine ⟨fun hnil => absurd hnil h.ne_nil, fun _ hpoint => ?_, fun _ hzero e he hexp => ?_, ?_⟩
  · obtain ⟨u, rfl⟩ := List.head?_eq_some_iff.mp hpoint
    have hle := hlongest.longest floatConstantRegexWhole (by simp [numericRegexes]) (d ++ ['.']) u
      (by simp) (accepts_whole h.ne_nil h.all)
    have hint := hfirst.integer h (by simp) (by simp [isSuffixLetter])
    rw [List.length_append, List.length_singleton] at hle
    omega
  · obtain ⟨u, rfl⟩ := he
    obtain ⟨c, ds, hd⟩ := List.exists_cons_of_ne_nil h.ne_nil
    have haccepts : sciConstantRegex.Accepts true (d ++ e) u := by
      rw [hd] at hzero ⊢
      have hall := List.forall_mem_cons.mp (hd ▸ h.all)
      exact accepts_sci.mpr ⟨c, ds, e, rfl, ⟨hall.1, by simpa using hzero⟩, hall.2, hexp⟩
    have hle := hlongest.longest sciConstantRegex (by simp [numericRegexes]) (d ++ e) u
      (by simp) haccepts
    obtain ⟨l, sign, v, rfl, hl, -⟩ := hexp
    have hint := hfirst.integer h (by rcases hl with rfl | rfl <;> simp)
      (by rcases hl with rfl | rfl <;> simp [isSuffixLetter])
    rw [List.length_append, List.length_cons] at hle
    omega
  · intro o t hd ho
    have hle := hlongest.longest decimalConstantRegex (by simp [numericRegexes]) d rest rfl
      h.accepts_decimal
    cases hfirst with
    | hex longest =>
        obtain ⟨r, hr, u, hcode, haccepts⟩ := longest.accepted
        rw [List.mem_singleton.mp hr] at haccepts
        rw [(h.hex hcode haccepts).1] at hd
        cases hd
    | decimal _ hno longest =>
        refine absurd (accepts_octal.mpr ⟨[o], [], rfl, ⟨List.cons_ne_nil o [], ?_⟩, nofun⟩)
          (hno ['0', o] (t ++ rest) (by rw [hd]; rfl))
        exact List.forall_mem_singleton.mpr ho
    | octal _ longest =>
        obtain ⟨r, hr, u, hcode, haccepts⟩ := longest.accepted
        rw [List.mem_singleton.mp hr] at haccepts
        obtain ⟨os, s, rfl, ⟨-, hos⟩, hs⟩ := accepts_octal.mp haccepts
        have hdigits : ∀ c ∈ '0' :: os, isDigit c = true := List.forall_mem_cons.mpr
          ⟨rfl, fun c hc => isDigit_of_isOctalDigit (hos c hc)⟩
        have hall : '0' :: os = d := by
          rcases h.suffix hcode hdigits hs with ⟨rfl, hless⟩ | ⟨heq, -⟩
          · rw [List.append_nil] at hle hcode
            exact (List.append_inj hcode (Nat.le_antisymm hle hless)).1.symm
          · exact heq
        obtain ⟨-, rfl⟩ := List.cons.inj (hall.trans hd)
        exact fun c hc => hos c (List.mem_cons_of_mem o hc)

/-- An integer is not longer than the octal number that is found first. -/
theorem Digits.le_octal (hends : NumberEnds d rest)
    (hlongest : Regex.LongestPrefix [octalConstantRegex] (d ++ rest) p) {t u : Text}
    (hcode : d ++ rest = t ++ u) (ht : decimalConstantRegex.Accepts true t u) :
    t.length ≤ p.length := by
  obtain ⟨r, hr, v, hcode', haccepts⟩ := hlongest.accepted
  rw [List.mem_singleton.mp hr] at haccepts
  obtain ⟨os, s, rfl, ⟨hne, hos⟩, hs⟩ := accepts_octal.mp haccepts
  obtain ⟨o, os, rfl⟩ := List.exists_cons_of_ne_nil hne
  have ho := hos o List.mem_cons_self
  -- The code begins with a zero and an octal digit, so that all digits are octal.
  obtain ⟨w, hd⟩ : ∃ w, d = '0' :: o :: w := by
    have hdigits : ∀ c ∈ ['0', o], isDigit c = true := by
      simp [isDigit_of_isOctalDigit ho]
      rfl
    have hsplit : d ++ rest = ['0', o] ++ (os ++ s ++ v) := by
      rw [hcode']
      simp
    have hbegins : ['0', o] <+: d :=
      List.prefix_of_prefix_length_le ⟨_, hsplit.symm⟩ (List.prefix_append d rest)
        (Split.length_le h.stops hdigits hsplit)
    obtain ⟨w, hw⟩ := hbegins
    exact ⟨w, hw.symm⟩
  have hall : ∀ c ∈ o :: w, isOctalDigit c = true :=
    List.forall_mem_cons.mpr ⟨ho, hends.octal o w hd ho⟩
  have hoctal : ∀ {s u}, (∀ c ∈ s, isSuffixLetter c) →
      octalConstantRegex.Accepts true (d ++ s) u := by
    intro s u hs
    rw [hd]
    exact accepts_octal.mpr ⟨o :: w, s, rfl, ⟨List.cons_ne_nil o w, hall⟩, hs⟩
  obtain ⟨ds, s', rfl, ⟨-, hds⟩, hs'⟩ := Spray.accepts_decimal.mp ht
  rcases h.suffix hcode hds hs' with ⟨rfl, hle⟩ | ⟨rfl, -⟩
  · have hge := hlongest.longest _ (List.mem_singleton_self _) (d ++ []) rest (by simp)
      (hoctal nofun)
    rw [List.append_nil] at hge ⊢
    exact hle.trans hge
  · exact hlongest.longest _ (List.mem_singleton_self _) _ u hcode (hoctal hs')

theorem longest_of_numberEnds (hfirst : FirstConstant (d ++ rest) p) (hends : NumberEnds d rest) :
    Regex.LongestPrefix numericRegexes (d ++ rest) p := by
  -- Only integers matter.
  have hlongest : (∀ r ∈ [hexConstantRegex, octalConstantRegex, decimalConstantRegex], ∀ t u,
      d ++ rest = t ++ u → r.Accepts true t u → t.length ≤ p.length) →
      ∀ r ∈ numericRegexes, ∀ t u, d ++ rest = t ++ u → r.Accepts true t u →
        t.length ≤ p.length := by
    intro hinteger r hr t u hcode ht
    simp only [numericRegexes, List.mem_cons, List.not_mem_nil, or_false] at hr
    rcases hr with rfl | rfl | rfl | rfl | rfl | rfl
    · exact hinteger _ (by simp) t u hcode ht
    · exact hinteger _ (by simp) t u hcode ht
    · exact hinteger _ (by simp) t u hcode ht
    · obtain ⟨hzero, e, he, hexp⟩ := h.sci hcode ht
      exact absurd hexp (hends.exponent h.ne_nil hzero e he)
    · exact absurd (h.float hcode (Or.inl ht)) (hends.point h.ne_nil)
    · exact absurd (h.float hcode (Or.inr ht)) (hends.point h.ne_nil)
  cases hfirst with
  | hex longest =>
      obtain ⟨r, hr, v, hcode', haccepts⟩ := longest.accepted
      rw [List.mem_singleton.mp hr] at haccepts
      obtain ⟨hzero, x, hx, hhex⟩ := h.hex hcode' haccepts
      have hno : ∀ c ∈ rest.head?, ¬ isSuffixLetter c := by
        intro c hc
        rw [hx] at hc
        cases hc
        rcases hhex with rfl | rfl <;> simp [isSuffixLetter]
      refine ⟨⟨_, by simp [numericRegexes], v, hcode', haccepts⟩, hlongest ?_⟩
      intro r hr t u hcode ht
      have hlen : d.length ≤ p.length := by
        obtain ⟨_, _, rfl, -⟩ := hex_of_accepts haccepts
        rw [hzero]
        simp
      simp only [List.mem_cons, List.not_mem_nil, or_false] at hr
      rcases hr with rfl | rfl | rfl
      · exact longest.longest _ (List.mem_singleton_self _) t u hcode ht
      · exact (h.integer hcode hno (Or.inl ht)).trans hlen
      · exact (h.integer hcode hno (Or.inr ht)).trans hlen
  | octal hnohex longest =>
      obtain ⟨r, hr, v, hcode', haccepts⟩ := longest.accepted
      rw [List.mem_singleton.mp hr] at haccepts
      refine ⟨⟨_, by simp [numericRegexes], v, hcode', haccepts⟩, hlongest ?_⟩
      intro r hr t u hcode ht
      simp only [List.mem_cons, List.not_mem_nil, or_false] at hr
      rcases hr with rfl | rfl | rfl
      · exact absurd ht (hnohex t u hcode)
      · exact longest.longest _ (List.mem_singleton_self _) t u hcode ht
      · exact h.le_octal hends longest hcode ht
  | decimal hnohex hnooctal longest =>
      obtain ⟨r, hr, v, hcode', haccepts⟩ := longest.accepted
      rw [List.mem_singleton.mp hr] at haccepts
      refine ⟨⟨_, by simp [numericRegexes], v, hcode', haccepts⟩, hlongest ?_⟩
      intro r hr t u hcode ht
      simp only [List.mem_cons, List.not_mem_nil, or_false] at hr
      rcases hr with rfl | rfl | rfl
      · exact absurd ht (hnohex t u hcode)
      · exact absurd ht (hnooctal t u hcode)
      · exact longest.longest _ (List.mem_singleton_self _) t u hcode ht

end First

/-- Every number begins with a digit, or with a point and a digit. -/
theorem number_begins {r : Regex} (hr : r ∈ numericRegexes) {text rest : Text}
    (h : r.Accepts true text rest) :
    ∃ c t, text = c :: t ∧ (isDigit c = true ∨ c = '.' ∧ ∃ e u, t = e :: u ∧ isDigit e = true) := by
  have hfloat : floatConstantRegexFrac.Accepts true text rest ∨
      floatConstantRegexWhole.Accepts true text rest → ∃ c t, text = c :: t ∧
        (isDigit c = true ∨ c = '.' ∧ ∃ e u, t = e :: u ∧ isDigit e = true) := by
    intro h
    obtain ⟨d, t, rfl, hd, hpoint⟩ := point_of_accepts h
    cases d with
    | nil => exact ⟨'.', t, rfl, Or.inr ⟨rfl, hpoint rfl⟩⟩
    | cons c d => exact ⟨c, _, rfl, Or.inl (hd c List.mem_cons_self)⟩
  simp only [numericRegexes, List.mem_cons, List.not_mem_nil, or_false] at hr
  rcases hr with rfl | rfl | rfl | rfl | rfl | rfl
  · obtain ⟨x, t, rfl, -⟩ := hex_of_accepts h
    exact ⟨'0', _, rfl, Or.inl rfl⟩
  · obtain ⟨o, s, rfl, -⟩ := accepts_octal.mp h
    exact ⟨'0', _, rfl, Or.inl rfl⟩
  · obtain ⟨d, s, rfl, ⟨hne, hd⟩, -⟩ := accepts_decimal.mp h
    obtain ⟨c, d, rfl⟩ := List.exists_cons_of_ne_nil hne
    exact ⟨c, _, rfl, Or.inl (hd c List.mem_cons_self)⟩
  · obtain ⟨c, d, e, rfl, ⟨hc, -⟩, -⟩ := accepts_sci.mp h
    exact ⟨c, _, rfl, Or.inl hc⟩
  · exact hfloat (Or.inl h)
  · exact hfloat (Or.inr h)

/-- The constant that is scanned is the longest of the first kind that there is. -/
theorem scanConstant_first (hsearch : FindsRegexes search) {d rest : Text} (h : Digits d rest) :
    ∃ p, FirstConstant (d ++ rest) p ∧
      scanConstant search (d ++ rest) = .ok [⟨.constant, p⟩] := by
  have hhex : FindsLongest search hexConstantRegex := hsearch.of (i := 3) rfl
  have hoctal : FindsLongest search octalConstantRegex := hsearch.of (i := 4) rfl
  have hdecimal : FindsLongest search decimalConstantRegex := hsearch.of (i := 5) rfl
  have hscans : ∀ {r}, FindsLongest search (.anchored r) →
      regexMatch search (.anchored r) (d ++ rest) = true →
      ∃ p, Regex.LongestPrefix [.anchored r] (d ++ rest) p ∧
        scanMatch search (.anchored r) .constant (d ++ rest) = .ok [⟨.constant, p⟩] := by
    intro r hr hmatch
    obtain ⟨p, _, -, -, hp, hscan⟩ := scanMatch_longest hr hmatch .constant
    exact ⟨p, hp, hscan⟩
  have hrejects : ∀ {r}, FindsLongest search (.anchored r) →
      (∀ rest', ¬ (Regex.anchored r).Accepts true [] rest') →
      regexMatch search (.anchored r) (d ++ rest) = false → Rejects (.anchored r) (d ++ rest) := by
    intro r hr hnil hmatch text rest' hcode haccepts
    have hne : text ≠ [] := by
      rintro rfl
      exact hnil rest' haccepts
    rw [regexMatch_true hr haccepts hne hcode] at hmatch
    cases hmatch
  unfold scanConstant constantRegexes
  cases hmatch : regexMatch search hexConstantRegex (d ++ rest) with
  | true =>
      obtain ⟨p, hp, hscan⟩ := hscans hhex hmatch
      rw [List.find?_cons, hmatch]
      exact ⟨p, .hex hp, hscan⟩
  | false =>
      have hnohex : Rejects hexConstantRegex (d ++ rest) := by
        refine hrejects hhex (fun rest' ht => ?_) hmatch
        obtain ⟨_, _, hnil, -⟩ := hex_of_accepts ht
        cases hnil
      rw [List.find?_cons, hmatch, List.find?_cons]
      cases hmatch' : regexMatch search octalConstantRegex (d ++ rest) with
      | true =>
          obtain ⟨p, hp, hscan⟩ := hscans hoctal hmatch'
          exact ⟨p, .octal hnohex hp, hscan⟩
      | false =>
          have hnooctal : Rejects octalConstantRegex (d ++ rest) := by
            refine hrejects hoctal (fun rest' ht => ?_) hmatch'
            obtain ⟨_, _, hnil, -⟩ := accepts_octal.mp ht
            cases hnil
          have hmatch'' : regexMatch search decimalConstantRegex (d ++ rest) = true :=
            regexMatch_true hdecimal h.accepts_decimal h.ne_nil rfl
          obtain ⟨p, hp, hscan⟩ := hscans hdecimal hmatch''
          rw [List.find?_cons, hmatch'']
          exact ⟨p, .decimal hnohex hnooctal hp, hscan⟩

theorem not_accepts_keyword {c : Char} (hc : isWordStart c = false) (t rest : Text) :
    ¬ keywordRegex.Accepts true (c :: t) rest := by
  rw [accepts_keyword]
  rintro ⟨w, hw, d, -, heq⟩
  have hstarts : (cKeywords.all fun w => w.head?.any isWordStart) = true := by decide
  have hhead := List.all_eq_true.mp hstarts w hw
  cases w with
  | nil => cases hhead
  | cons e w =>
      obtain ⟨rfl, -⟩ := List.cons.inj heq
      rw [List.head?_cons, Option.any_some, hc] at hhead
      cases hhead

theorem isDigit_ne {c : Char} (h : isDigit c = true) :
    isWordStart c = false ∧ c ≠ '"' ∧ c ∉ ['\t', '\r', '\n', ' '] := by
  refine ⟨?_, ?_, ?_⟩
  · rw [← Bool.not_eq_true]
    intro hstart
    simp only [isDigit, isWordStart, Bool.and_eq_true, Bool.or_eq_true,
      decide_eq_true_eq] at h hstart
    have h9 : '9'.toNat = 57 := rfl
    have ha : 'a'.toNat = 97 := rfl
    have hA : 'A'.toNat = 65 := rfl
    rcases hstart with (hlower | hupper) | rfl
    · omega
    · omega
    · exact absurd h (by decide)
  · rintro rfl
    cases h
  · intro hmem
    simp only [List.mem_cons, List.not_mem_nil, or_false] at hmem
    rcases hmem with rfl | rfl | rfl | rfl <;> cases h

/-- What is scanned of some digits. -/
theorem scanNormalMode_digits (hsearch : FindsRegexes search) {d rest : Text} (h : Digits d rest) :
    ∃ p, FirstConstant (d ++ rest) p ∧
      scanNormalMode search (d ++ rest) = .ok [⟨.constant, p⟩] := by
  obtain ⟨p, hfirst, hscan⟩ := scanConstant_first hsearch h
  refine ⟨p, hfirst, ?_⟩
  obtain ⟨c, t, rfl⟩ := List.exists_cons_of_ne_nil h.ne_nil
  have hc := h.all c List.mem_cons_self
  obtain ⟨hstart, hquote, hblank⟩ := isDigit_ne hc
  rw [← hscan]
  have huncomment : startsWithUncomment (c :: t ++ rest) = false :=
    startsWith_false isDigit (by decide) hc _
  have hkeyword : startsWithKeyword search (c :: t ++ rest) = false :=
    regexMatch_false (hsearch.of (i := 14) rfl) (not_accepts_keyword hstart)
  have hoperator : startsWithOperator (c :: t ++ rest) = false :=
    startsWith_false isDigit (by decide) hc _
  have hspecial : startsWithSpecialSymbol (c :: t ++ rest) = false :=
    startsWith_false isDigit (by decide) hc _
  have hliteral : startsWithLiteral search (c :: t ++ rest) = false :=
    regexMatch_false (hsearch.of (i := 0) rfl) (not_accepts_literal hquote)
  have hwhitespace : startsWithWhitespace search (c :: t ++ rest) = false :=
    regexMatch_false (hsearch.of (i := 1) rfl) (not_accepts_whitespace hblank)
  have hidentifier : startsWithIdentifier search (c :: t ++ rest) = false := by
    refine regexMatch_false (hsearch.of (i := 2) rfl) fun t rest haccepts => ?_
    obtain ⟨d, u, heq, hd, -⟩ := accepts_identifier.mp haccepts
    obtain ⟨rfl, -⟩ := List.cons.inj heq
    rw [hstart] at hd
    cases hd
  have hconstant : startsWithConstant search (c :: t ++ rest) = true := by
    refine List.any_eq_true.mpr ⟨decimalConstantRegex, by simp [constantRegexes], ?_⟩
    exact regexMatch_true (hsearch.of (i := 5) rfl) h.accepts_decimal h.ne_nil rfl
  unfold scanNormalMode
  rw [huncomment, hkeyword, hoperator, hspecial, hliteral, hwhitespace, hidentifier, hconstant]
  rfl

/-- A point is an operator, whatever is behind it. -/
theorem not_nextIs_point (hsearch : FindsRegexes search) (rest p : Text) :
    ¬ NextIs search ('.' :: rest) ⟨.constant, p⟩ := by
  have huncomment : startsWithUncomment ('.' :: rest) = false :=
    startsWith_false (fun c => c = '.') (by decide) rfl _
  have hkeyword : startsWithKeyword search ('.' :: rest) = false :=
    regexMatch_false (hsearch.of (i := 14) rfl) (not_accepts_keyword rfl)
  have hpoint : ".".toList ∈ cOperators := by decide
  have hbegins : ".".toList.isPrefixOf ('.' :: rest) = true := rfl
  have hsome : (findPrefix ('.' :: rest) cOperators).isSome = true :=
    List.find?_isSome.mpr ⟨_, hpoint, hbegins⟩
  obtain ⟨text, htext⟩ := Option.isSome_iff_exists.mp hsome
  have hscan : scanNormalMode search ('.' :: rest) = .ok [⟨.operator, text⟩] := by
    unfold scanNormalMode startsWithOperator startsWith
    rw [huncomment, hkeyword, hsome]
    show scanOperator ('.' :: rest) = _
    rw [scanOperator, scanPrefix, htext]
    rfl
  have hnext := nextIs_of_scan (fun c => c = '.') (by decide) (by decide) rfl hscan
  intro hclaim
  cases hclaim.unique hnext

/-- The next token is the longest number exactly where that is of the kind tried first. -/
theorem nextIs_number_iff (hsearch : FindsRegexes search) (code : Text) :
    (∀ p, Regex.LongestPrefix numericRegexes code p → NextIs search code ⟨.constant, p⟩) ↔
      NumberEnds (code.takeWhile isDigit) (code.dropWhile isDigit) := by
  obtain ⟨d, rest, rfl, hall, hover⟩ := Split.exists_split isDigit code
  rw [Split.takeWhile_append hall hover, Split.dropWhile_append hall hover]
  cases d with
  | cons c d =>
      have h : Digits (c :: d) rest := ⟨List.cons_ne_nil c d, hall, hover⟩
      obtain ⟨p, hfirst, hscan⟩ := scanNormalMode_digits hsearch h
      have hnext : NextIs search (c :: d ++ rest) ⟨.constant, p⟩ :=
        nextIs_of_scan isDigit (by decide) (by decide) (hall c List.mem_cons_self)
          hscan
      constructor
      · intro hclaim
        have hdecimal : decimalConstantRegex ∈ numericRegexes := by simp [numericRegexes]
        obtain ⟨q, hq⟩ := Regex.exists_longestPrefix hdecimal rfl h.accepts_decimal
        obtain ⟨-, rfl⟩ := Token.mk.inj ((hclaim q hq).unique hnext)
        exact numberEnds_of_longest h hfirst hq
      · intro hends q hq
        rw [hq.unique (longest_of_numberEnds h hfirst hends)]
        exact hnext
  | nil =>
      constructor
      · intro hclaim
        refine ⟨fun _ c u hrest => ?_, fun hne => absurd rfl hne, fun hne => absurd rfl hne, nofun⟩
        subst hrest
        by_contra hdigit
        rw [Bool.not_eq_false] at hdigit
        have hfrac : floatConstantRegexFrac ∈ numericRegexes := by simp [numericRegexes]
        have hsplit : [] ++ '.' :: c :: u = ['.', c] ++ u := rfl
        obtain ⟨q, hq⟩ := Regex.exists_longestPrefix hfrac hsplit (accepts_frac hdigit)
        exact not_nextIs_point hsearch _ q (hclaim q hq)
      · intro hends q hq
        obtain ⟨r, hr, u, hcode, haccepts⟩ := hq.accepted
        obtain ⟨c, t, rfl, hc | ⟨rfl, e, v, rfl, he⟩⟩ := number_begins hr haccepts
        · have hstop := hover c (by rw [← List.nil_append rest, hcode]; rfl)
          rw [hc] at hstop
          cases hstop
        · rw [hends.leading rfl e (v ++ u) hcode] at he
          cases he

end Scan

/-- Lexemes are scanned by maximal munch, and classified as a whole. -/
structure MaximalMunch (search : RegexSearch) (code : Text) : Prop where
  word : ∀ w, Regex.LongestPrefix [identifierRegex] code w → NextIs search code ⟨wordTag w, w⟩
  number : ∀ p, Regex.LongestPrefix numericRegexes code p → NextIs search code ⟨.constant, p⟩

/-- **The next token is the longest word or number exactly where a keyword is ended by a blank,
no other word begins with `sizeof`, and a number is of the kind that is tried first.** -/
theorem maximalMunch_iff {search : RegexSearch} (hsearch : FindsRegexes search) (code : Text) :
    MaximalMunch search code ↔
      WordEnds (code.takeWhile isWordChar) (code.dropWhile isWordChar) ∧
        NumberEnds (code.takeWhile isDigit) (code.dropWhile isDigit) := by
  rw [← nextIs_longestWord_iff hsearch, ← nextIs_number_iff hsearch]
  exact ⟨fun h => ⟨h.word, h.number⟩, fun h => ⟨h.1, h.2⟩⟩

theorem maximalMunch_hex : MaximalMunch searchLongest "0x1F;".toList := by
  refine (maximalMunch_iff (fun r _ => searchLongest_findsLongest r) _).mpr
    ⟨⟨fun hw => ?_, fun hsizeof => ?_⟩, ⟨fun hnil => ?_, fun _ => ?_, fun _ hzero => ?_, ?_⟩⟩
  · exact absurd hw (by decide)
  · exact absurd (List.isPrefixOf_iff_prefix.mpr hsizeof) (by decide)
  · exact absurd hnil (by decide)
  · decide
  · exact absurd (by decide) hzero
  · intro o t hd
    have hone : "0x1F;".toList.takeWhile isDigit = ['0'] := by decide
    rw [hone] at hd
    cases hd

/-- A keyword in front of a semicolon, and a number with a point. -/
theorem not_maximalMunch :
    ¬ MaximalMunch searchLongest "return;".toList ∧ ¬ MaximalMunch searchLongest "1.5".toList := by
  have hsearch : FindsRegexes searchLongest := fun r _ => searchLongest_findsLongest r
  refine ⟨fun h => ?_, fun h => ?_⟩
  · have hends := (nextIs_longestWord_iff hsearch _).mp h.word
    exact absurd (hends.keyword (by decide)) (by decide)
  · have hends := (nextIs_number_iff hsearch _).mp h.number
    exact hends.point (by decide) (by decide)

end Spray
