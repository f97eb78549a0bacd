/-
What is scanned of code.

In code, each rule of the scanner gives tokens that are no comments, and the reference scanner
passes over their text as code, too (`ScansCode`): plain characters and operators open no
comment inside of a token, a literal ends where its quote does, and a directive is plain.
What is left is a character that begins no token and the path of an include, which are
swallowed.
-/
import Spray.Proofs.Reference

namespace Spray

/-! ### Expressions for text between quotes -/

/-- One character between quotes, perhaps behind a backslash. -/
inductive EnclosedPart (isEnd : Char → Bool) : Text → Prop
  | char {c : Char} (hc : isEnd c = false) (hne : c ≠ '\\') : EnclosedPart isEnd [c]
  | escape (c : Char) : EnclosedPart isEnd ['\\', c]

section Enclosed

variable {r : Regex} {isEnd : Char → Bool} {atStart : Bool} {text rest : Text}

theorem enclosed_of_star
    (hr : ∀ {atStart text rest}, r.Accepts atStart text rest → EnclosedPart isEnd text)
    (h : (Regex.star r).Accepts atStart text rest) : Enclosed isEnd text := by
  refine Regex.star_induction (motive := Enclosed isEnd) .nil ?_ h
  intro atStart t u hone hothers
  cases hr hone with
  | char hc hne => exact .char hc hne hothers
  | escape c => exact .escape hothers

theorem star_of_enclosed
    (hr : ∀ {atStart text rest}, '\n' ∉ text → EnclosedPart isEnd text →
      r.Accepts atStart text rest)
    (h : Enclosed isEnd text) (hline : '\n' ∉ text) : (Regex.star r).Accepts atStart text rest := by
  induction h generalizing atStart with
  | nil => exact Regex.accepts_star_nil
  | @char c text hc hne _ ih =>
      have hfirst : '\n' ∉ [c] := fun h => hline (List.mem_append_left text h)
      have hrest : '\n' ∉ text := fun h => hline (List.mem_append_right [c] h)
      exact Regex.accepts_star_append (hr hfirst (.char hc hne)) (ih hrest)
  | @escape c text _ ih =>
      have hfirst : '\n' ∉ ['\\', c] := fun h => hline (List.mem_append_left text h)
      have hrest : '\n' ∉ text := fun h => hline (List.mem_append_right ['\\', c] h)
      exact Regex.accepts_star_append (hr hfirst (.escape c)) (ih hrest)

theorem accepts_between {opens ends : String} :
    (Regex.seqs [.anyOf opens, .star r, .anyOf ends]).Accepts atStart text rest ↔
      ∃ first body last, text = first :: (body ++ [last]) ∧ first ∈ opens.toList ∧
        last ∈ ends.toList ∧ (Regex.star r).Accepts false body (last :: rest) := by
  rw [Regex.accepts_seqs_cons]
  constructor
  · rintro ⟨_, _, rfl, hfirst, hrest⟩
    obtain ⟨body, _, rfl, hbody, hlast⟩ := Regex.accepts_seqs_cons.mp hrest
    obtain ⟨c, hc, rfl⟩ := Regex.accepts_anyOf.mp hfirst
    obtain ⟨d, hd, rfl⟩ := Regex.accepts_anyOf.mp hlast
    rw [List.isEmpty_cons, Bool.and_false] at hbody
    exact ⟨c, body, d, rfl, hc, hd, hbody⟩
  · rintro ⟨c, body, d, rfl, hc, hd, hbody⟩
    refine ⟨[c], body ++ [d], rfl, Regex.accepts_anyOf.mpr ⟨c, hc, rfl⟩,
      Regex.accepts_seqs_cons.mpr ⟨body, [d], rfl, ?_, Regex.accepts_anyOf.mpr ⟨d, hd, rfl⟩⟩⟩
    rw [List.isEmpty_cons, Bool.and_false]
    exact hbody

/-- `([^…\\]|\\[\s\S])` -/
theorem accepts_part {num : Nat} {ends : String}
    (hends : ∀ c, c ∉ ends.toList ↔ isEnd c = false ∧ c ≠ '\\') :
    (Regex.group num (.alt (.noneOf ends) (.seq (.anyOf "\\") anyChar))).Accepts atStart text
      rest ↔ EnclosedPart isEnd text := by
  rw [Regex.accepts_group, Regex.accepts_alt, Regex.accepts_noneOf, Regex.accepts_seq]
  constructor
  · rintro (⟨c, hc, rfl⟩ | ⟨_, _, rfl, hescape, hany⟩)
    · obtain ⟨hc, hne⟩ := (hends c).mp hc
      exact .char hc hne
    · obtain ⟨c, -, rfl⟩ := Regex.accepts_noneOf.mp hany
      obtain ⟨d, hd, rfl⟩ := Regex.accepts_anyOf.mp hescape
      rw [List.mem_singleton.mp hd]
      exact .escape c
  · rintro (⟨hc, hne⟩ | c)
    · exact Or.inl ⟨_, (hends _).mpr ⟨hc, hne⟩, rfl⟩
    · exact Or.inr ⟨['\\'], [c], rfl,
        Regex.accepts_anyOf.mpr ⟨'\\', List.mem_singleton_self _, rfl⟩,
        Regex.accepts_noneOf.mpr ⟨c, List.not_mem_nil, rfl⟩⟩

/-- `(\\.|[^\\'])` -/
def charPart : Regex := .group 2 (.alt (.seq (.anyOf "\\") (.noneOf "\n")) (.noneOf "\\'"))

theorem accepts_charPart : charPart.Accepts atStart text rest ↔
    EnclosedPart (· = '\'') text ∧ (∀ c, text = ['\\', c] → c ≠ '\n') := by
  rw [charPart, Regex.accepts_group, Regex.accepts_alt, Regex.accepts_noneOf, Regex.accepts_seq]
  constructor
  · rintro (⟨_, _, rfl, hescape, hany⟩ | ⟨c, hc, rfl⟩)
    · obtain ⟨c, hc, rfl⟩ := Regex.accepts_noneOf.mp hany
      obtain ⟨d, hd, rfl⟩ := Regex.accepts_anyOf.mp hescape
      rw [List.mem_singleton.mp hd]
      refine ⟨.escape c, fun d hd => ?_⟩
      cases hd
      exact fun h => hc (h ▸ List.mem_singleton_self _)
    · rw [show "\\'".toList = ['\\', '\''] by decide, List.mem_cons,
        List.mem_singleton, not_or] at hc
      exact ⟨.char (decide_eq_false hc.2) hc.1, nofun⟩
  · rintro ⟨⟨hc, hne⟩ | c, hline⟩
    · refine Or.inr ⟨_, ?_, rfl⟩
      simpa using ⟨hne, of_decide_eq_false hc⟩
    · refine Or.inl ⟨['\\'], [c], rfl,
        Regex.accepts_anyOf.mpr ⟨'\\', List.mem_singleton_self _, rfl⟩,
        Regex.accepts_noneOf.mpr ⟨c, ?_, rfl⟩⟩
      exact fun h => hline c rfl (List.mem_singleton.mp h)

theorem literal_ends (c : Char) : c ∉ "\"\\".toList ↔ decide (c = '"') = false ∧ c ≠ '\\' := by
  rw [show "\"\\".toList = ['"', '\\'] by decide]
  simp

theorem path_ends (c : Char) : c ∉ ">\"\\".toList ↔ isPathEnd c = false ∧ c ≠ '\\' := by
  rw [show ">\"\\".toList = ['>', '"', '\\'] by decide]
  simp [isPathEnd, and_assoc]

theorem literal_of_accepts (h : literalRegex.Accepts true text rest) :
    ∃ body, text = '"' :: (body ++ ['"']) ∧ Enclosed (· = '"') body := by
  rw [literalRegex, Regex.accepts_anchored] at h
  obtain ⟨first, body, last, rfl, hfirst, hlast, hbody⟩ := accepts_between.mp h
  rw [List.mem_singleton.mp hfirst, List.mem_singleton.mp hlast]
  exact ⟨body, rfl, enclosed_of_star (accepts_part literal_ends).mp hbody⟩

theorem accepts_literal {body : Text} (h : Enclosed (· = '"') body) (hline : '\n' ∉ body) :
    literalRegex.Accepts true ('"' :: (body ++ ['"'])) rest := by
  rw [literalRegex, Regex.accepts_anchored]
  refine accepts_between.mpr ⟨'"', body, '"', rfl, List.mem_singleton_self _,
    List.mem_singleton_self _, ?_⟩
  exact star_of_enclosed (fun _ => (accepts_part literal_ends).mpr) h hline

theorem accepts_includePath {body : Text} {first last : Char} (hfirst : first = '<' ∨ first = '"')
    (hlast : isPathEnd last = true) (h : Enclosed isPathEnd body) (hline : '\n' ∉ body) :
    includePath.Accepts atStart (first :: (body ++ [last])) rest := by
  refine accepts_between.mpr ⟨first, body, last, rfl, ?_, ?_, ?_⟩
  · simpa using hfirst
  · simpa [isPathEnd] using hlast
  · exact star_of_enclosed (fun _ => (accepts_part path_ends).mpr) h hline

theorem path_of_accepts (h : includePath.Accepts atStart text rest) :
    ∃ first body last, text = first :: (body ++ [last]) ∧ (first = '<' ∨ first = '"') ∧
      isPathEnd last = true ∧ Enclosed isPathEnd body := by
  obtain ⟨first, body, last, rfl, hfirst, hlast, hbody⟩ := accepts_between.mp h
  refine ⟨first, body, last, rfl, ?_, ?_, enclosed_of_star (accepts_part path_ends).mp hbody⟩
  · simpa using hfirst
  · simpa [isPathEnd] using hlast

/-- A character constant, behind what may be in front of the quote. -/
theorem char_of_accepts (h : charConstantRegex.Accepts true text rest) :
    ∃ suffix body, text = suffix ++ '\'' :: (body ++ ['\'']) ∧
      (∀ c ∈ suffix, isSuffixLetter c) ∧ Enclosed (· = '\'') body ∧ body ≠ [] := by
  rw [charConstantRegex, Regex.accepts_anchored, Regex.accepts_seqs_cons] at h
  obtain ⟨suffix, _, rfl, hsuffix, hrest⟩ := h
  obtain ⟨_, _, rfl, hfirst, hrest⟩ := Regex.accepts_seqs_cons.mp hrest
  obtain ⟨_, _, rfl, hbody, hlast⟩ := Regex.accepts_seqs_cons.mp hrest
  obtain ⟨t, u, rfl, hone, hothers⟩ := Regex.accepts_seq.mp hbody
  obtain ⟨c, hc, rfl⟩ := Regex.accepts_anyOf.mp hfirst
  obtain ⟨d, hd, rfl⟩ := Regex.accepts_anyOf.mp hlast
  have henclosed : Enclosed (· = '\'') u :=
    enclosed_of_star (fun h => (accepts_charPart.mp h).1) hothers
  rw [List.mem_singleton.mp hc, List.mem_singleton.mp hd]
  refine ⟨suffix, t ++ u, rfl, accepts_integerSuffix.mp hsuffix, ?_⟩
  cases (accepts_charPart.mp hone).1 with
  | char hc hne => exact ⟨.char hc hne henclosed, List.cons_ne_nil _ _⟩
  | escape c => exact ⟨.escape henclosed, List.cons_ne_nil _ _⟩

theorem accepts_char {body : Text} (h : Enclosed (· = '\'') body) (hne : body ≠ [])
    (hline : '\n' ∉ body) : charConstantRegex.Accepts true ('\'' :: (body ++ ['\''])) rest := by
  have hpart : ∀ {atStart text rest}, '\n' ∉ text → EnclosedPart (· = '\'') text →
      charPart.Accepts atStart text rest := by
    intro atStart text rest hline hpart
    refine accepts_charPart.mpr ⟨hpart, ?_⟩
    rintro c rfl rfl
    exact hline (List.mem_cons_of_mem _ (List.mem_singleton_self _))
  have hbody : ∀ {atStart rest}, (Regex.plus charPart).Accepts atStart body rest := by
    intro atStart rest
    cases h with
    | nil => exact absurd rfl hne
    | @char c body hc hescape hbody =>
        have hfirst : '\n' ∉ [c] := fun h => hline (List.mem_append_left body h)
        have hrest : '\n' ∉ body := fun h => hline (List.mem_append_right [c] h)
        exact Regex.accepts_seq.mpr ⟨[c], body, rfl, hpart hfirst (.char hc hescape),
          star_of_enclosed hpart hbody hrest⟩
    | @escape c body hbody =>
        have hfirst : '\n' ∉ ['\\', c] := fun h => hline (List.mem_append_left body h)
        have hrest : '\n' ∉ body := fun h => hline (List.mem_append_right ['\\', c] h)
        exact Regex.accepts_seq.mpr ⟨['\\', c], body, rfl, hpart hfirst (.escape c),
          star_of_enclosed hpart hbody hrest⟩
  have hquote : ∀ {atStart rest}, (Regex.anyOf "'").Accepts atStart ['\''] rest :=
    Regex.accepts_anyOf.mpr ⟨'\'', List.mem_singleton_self _, rfl⟩
  rw [charConstantRegex, Regex.accepts_anchored, Regex.accepts_seqs_cons]
  exact ⟨[], _, rfl, accepts_integerSuffix.mpr nofun, Regex.accepts_seqs_cons.mpr
    ⟨['\''], _, rfl, hquote, Regex.accepts_seqs_cons.mpr ⟨body, ['\''], rfl, hbody, hquote⟩⟩⟩

end Enclosed

/-! ### Expressions for plain text -/

/-- A plain character that opens no comment. -/
def isInert (c : Char) : Prop := isPlain c = true ∧ c ≠ '/'

theorem isInert_of_isWordChar {c : Char} (h : isWordChar c = true) : isInert c := by
  constructor
  · rw [isPlain, h, Bool.true_or, Bool.true_or, Bool.true_or]
  · rintro rfl
    cases h

theorem isInert_of_mem {cs : Text} (hcs : (cs.all fun c => isPlain c && c ≠ '/') = true) :
    ∀ c ∈ cs, isInert c := by
  intro c hc
  have hboth := List.all_eq_true.mp hcs c hc
  rw [Bool.and_eq_true, decide_eq_true_eq] at hboth
  exact hboth

/-- A range of letters or of digits. -/
theorem isInert_of_range {c : Char} (h : ('a'.toNat ≤ c.toNat ∧ c.toNat ≤ 'z'.toNat) ∨
    ('A'.toNat ≤ c.toNat ∧ c.toNat ≤ 'Z'.toNat) ∨ ('0'.toNat ≤ c.toNat ∧ c.toNat ≤ '9'.toNat)) :
    isInert c := by
  refine isInert_of_isWordChar ?_
  simp only [isWordChar, isWordStart, isDigit, Bool.or_eq_true, Bool.and_eq_true,
    decide_eq_true_eq]
  rcases h with h | h | h
  · exact Or.inl (Or.inl (Or.inl h))
  · exact Or.inl (Or.inl (Or.inr h))
  · exact Or.inr h

/-- A range within the letters or the digits. -/
def isWordRange (r : Char × Char) : Bool :=
  [('a', 'z'), ('A', 'Z'), ('0', '9')].any fun kind =>
    kind.1.toNat ≤ r.1.toNat && r.2.toNat ≤ kind.2.toNat

theorem within_ranges {ranges : List (Char × Char)} {cs : String}
    (hranges : ranges.all isWordRange = true)
    (hcs : (cs.toList.all fun c => isPlain c && c ≠ '/') = true) :
    (Regex.inRanges ranges cs).Within isInert := by
  refine Regex.within_inRanges (fun r hr c hlow hhigh => isInert_of_range ?_) (isInert_of_mem hcs)
  have hkind := List.all_eq_true.mp hranges r hr
  simp only [isWordRange, List.any_cons, List.any_nil, Bool.or_false, Bool.or_eq_true,
    Bool.and_eq_true, decide_eq_true_eq] at hkind
  rcases hkind with ⟨hfirst, hlast⟩ | ⟨hfirst, hlast⟩ | ⟨hfirst, hlast⟩
  · exact Or.inl ⟨hfirst.trans hlow, hhigh.trans hlast⟩
  · exact Or.inr (Or.inl ⟨hfirst.trans hlow, hhigh.trans hlast⟩)
  · exact Or.inr (Or.inr ⟨hfirst.trans hlow, hhigh.trans hlast⟩)

theorem within_digit : digit.Within isInert := within_ranges (by decide) (by decide)

theorem within_letter {c : Char} (h : isWordChar c = true) : (Regex.char c).Within isInert :=
  Regex.within_char (isInert_of_isWordChar h)

theorem within_letters {cs : String} (hcs : (cs.toList.all fun c => isPlain c && c ≠ '/') = true) :
    (Regex.anyOf cs).Within isInert := Regex.within_anyOf (isInert_of_mem hcs)

theorem within_integerSuffix (num : Nat) : (integerSuffix num).Within isInert :=
  ⟨within_letter rfl, within_letter rfl, within_letter rfl, within_letter rfl⟩

theorem within_floatSuffix (num : Nat) : (floatSuffix num).Within isInert :=
  ⟨⟨within_letter rfl, within_letter rfl, within_letter rfl, within_letter rfl⟩, trivial⟩

theorem within_exponent : exponent.Within isInert :=
  ⟨within_letters (by decide), ⟨within_letters (by decide), trivial⟩,
    within_digit, within_digit⟩

/-- No character constant comes here. -/
theorem within_constant {r : Regex} (hr : r ∈ constantRegexes) (hne : r ≠ charConstantRegex) :
    r.Within isInert := by
  have hpoint : (Regex.char '.').Within isInert := Regex.within_char ⟨by decide, by decide⟩
  simp only [constantRegexes, List.mem_cons, List.not_mem_nil, or_false] at hr
  rcases hr with rfl | rfl | rfl | rfl | rfl | rfl | rfl
  · have hhex : (Regex.inRanges [('a', 'f'), ('A', 'F'), ('0', '9')]).Within isInert :=
      within_ranges (by decide) (by decide)
    exact ⟨trivial, within_letter rfl, within_letters (by decide), ⟨hhex, hhex⟩,
      within_integerSuffix 1⟩
  · have hoctal : (Regex.inRanges [('0', '7')]).Within isInert :=
      within_ranges (by decide) (by decide)
    exact ⟨trivial, within_letter rfl, ⟨hoctal, hoctal⟩, within_integerSuffix 1⟩
  · exact ⟨trivial, within_digit, within_digit, within_integerSuffix 1⟩
  · exact absurd rfl hne
  · exact ⟨trivial, within_ranges (by decide) (by decide), within_digit, within_exponent⟩
  · exact ⟨trivial, within_digit, hpoint, ⟨within_digit, within_digit⟩,
      ⟨within_exponent, trivial⟩, within_floatSuffix 2⟩
  · exact ⟨trivial, ⟨within_digit, within_digit⟩, hpoint, within_digit,
      ⟨within_exponent, trivial⟩, within_floatSuffix 2⟩

theorem within_whitespace : whitespaceRegex.Within isInert :=
  ⟨trivial, within_letters (by decide)⟩

theorem within_identifier : identifierRegex.Within isInert :=
  ⟨trivial, within_ranges (by decide) (by decide),
    within_ranges (by decide) (by decide)⟩

/-! ### Directives -/

theorem accepts_directiveName {atStart : Bool} {text rest : Text} :
    directiveName.Accepts atStart text rest ↔ ∃ name, text = '#' :: name ∧ name ≠ [] ∧
      ∀ c ∈ name, isDirectiveChar c = true := by
  have hchar : ∀ {atStart text rest}, (Regex.inRanges [('a', 'z')] "_").Accepts atStart text rest ↔
      ∃ c, isDirectiveChar c = true ∧ text = [c] := by
    intro atStart text rest
    rw [Regex.accepts_inRanges]
    simp [isDirectiveChar]
  rw [directiveName, Regex.accepts_seq]
  constructor
  · rintro ⟨_, name, rfl, hhash, hname⟩
    rw [Regex.accepts_char.mp hhash]
    exact ⟨name, rfl, (Regex.accepts_plus hchar).mp hname⟩
  · rintro ⟨name, rfl, hname⟩
    exact ⟨['#'], name, rfl, Regex.accepts_char.mpr rfl, (Regex.accepts_plus hchar).mpr hname⟩

theorem accepts_blanks {atStart : Bool} {text rest : Text} :
    (Regex.star (.anyOf " \t")).Accepts atStart text rest ↔ ∀ c ∈ text, c ∈ " \t".toList :=
  Regex.accepts_star Regex.accepts_anyOf

theorem accepts_preproc {name blanks path rest : Text} (hne : name ≠ [])
    (hname : ∀ c ∈ name, isDirectiveChar c = true) (hblanks : ∀ c ∈ blanks, c ∈ " \t".toList)
    (hpath : path = [] ∨ ∀ atStart, includePath.Accepts atStart path rest) :
    preprocDirectiveRegex.Accepts true ('#' :: (name ++ (blanks ++ path))) rest := by
  rw [preprocDirectiveRegex, Regex.accepts_anchored, Regex.accepts_seqs_cons]
  refine ⟨'#' :: name, blanks ++ path, rfl,
    Regex.accepts_group.mpr (accepts_directiveName.mpr ⟨name, rfl, hne, hname⟩),
    Regex.accepts_seqs_cons.mpr ⟨blanks, path, rfl,
      Regex.accepts_group.mpr (accepts_blanks.mpr hblanks), Regex.accepts_opt.mpr ?_⟩⟩
  rcases hpath with rfl | hpath
  · exact Or.inr rfl
  · exact Or.inl (Regex.accepts_group.mpr (hpath _))

theorem isWordChar_of_isDirectiveChar {c : Char} (h : isDirectiveChar c = true) :
    isWordChar c = true := by
  simp only [isDirectiveChar, isWordChar, isWordStart, Bool.or_eq_true] at h ⊢
  exact Or.inl (h.imp Or.inl id)

/-- A directive that the code begins with, the blanks behind it and the path, if any. -/
structure Directive (code name blanks path rest : Text) : Prop where
  split : code = '#' :: (name ++ (blanks ++ (path ++ rest)))
  name_ne : name ≠ []
  names : ∀ c ∈ name, isDirectiveChar c = true
  blank : ∀ c ∈ blanks, c ∈ " \t".toList
  isPath : path = [] ∨ ∃ first body last, path = first :: (body ++ [last]) ∧
    (first = '<' ∨ first = '"') ∧ isPathEnd last = true ∧ Enclosed isPathEnd body
  longest : ∀ text rest', code = text ++ rest' → preprocDirectiveRegex.Accepts true text rest' →
    text.length ≤ 1 + name.length + blanks.length + path.length

namespace Directive

variable {code name blanks path rest : Text}

theorem stops (h : Directive code name blanks path rest) :
    Split.Stops isDirectiveChar (blanks ++ (path ++ rest)) := by
  intro c hc
  rw [← Bool.not_eq_true]
  intro hname
  cases blanks with
  | cons d blanks =>
      obtain rfl : d = c := Option.some.inj hc
      have hblank := h.blank d List.mem_cons_self
      rw [show " \t".toList = [' ', '\t'] by decide] at hblank
      simp only [List.mem_cons, List.not_mem_nil, or_false] at hblank
      rcases hblank with rfl | rfl <;> cases hname
  | nil =>
      rcases h.isPath with rfl | ⟨first, body, last, rfl, hfirst, -⟩
      · obtain ⟨rest, rfl⟩ := List.head?_eq_some_iff.mp hc
        have hlonger := h.longest ('#' :: ((name ++ [c]) ++ ([] ++ []))) rest
          (by simpa using h.split) (accepts_preproc (by simp)
            (List.forall_mem_append.mpr ⟨h.names, by simpa using hname⟩) nofun (Or.inl rfl))
        simp at hlonger
        omega
      · obtain rfl : first = c := Option.some.inj hc
        rcases hfirst with rfl | rfl <;> cases hname

theorem blanks_stop (h : Directive code name blanks path rest) :
    Split.Stops (· ∈ " \t".toList) (path ++ rest) := by
  intro c hc
  refine decide_eq_false fun hblank => ?_
  rcases h.isPath with rfl | ⟨first, body, last, rfl, hfirst, -⟩
  · obtain ⟨rest, rfl⟩ := List.head?_eq_some_iff.mp hc
    have hlonger := h.longest ('#' :: (name ++ ((blanks ++ [c]) ++ []))) rest
      (by simpa using h.split) (accepts_preproc h.name_ne h.names
        (List.forall_mem_append.mpr ⟨h.blank, by simpa using hblank⟩) (Or.inl rfl))
    simp at hlonger
    omega
  · obtain rfl : first = c := Option.some.inj hc
    rw [show " \t".toList = [' ', '\t'] by decide] at hblank
    rcases hfirst with rfl | rfl <;> simp at hblank

/-- An include is swallowed with its path, and other directives are not. -/
theorem swallowed_eq (h : Directive code name blanks path rest) :
    swallowed code =
      if name = "include".toList then
        (quotedPathLength (path ++ rest)).elim 0 (8 + blanks.length + ·)
      else 0 := by
  have hstray : isStray code = false := by
    obtain ⟨c, name', rfl⟩ := List.exists_cons_of_ne_nil h.name_ne
    have hc : (some c).any isDirectiveChar = true := h.names c List.mem_cons_self
    rw [h.split, isStray, if_neg (by decide), if_pos rfl, List.cons_append, List.head?_cons, hc]
    rfl
  rw [swallowed, hstray, if_neg Bool.false_ne_true, h.split]
  exact includeLength_directive h.names h.stops h.blank h.blanks_stop

theorem swallowed_include (h : Directive code name blanks path rest)
    (hname : name = "include".toList) (hpath : path ≠ []) :
    swallowed code = 8 + blanks.length + path.length := by
  obtain ⟨first, body, last, rfl, hfirst, hlast, hbody⟩ := h.isPath.resolve_left hpath
  rw [h.swallowed_eq, if_pos hname, List.cons_append, List.append_assoc, List.singleton_append,
    quotedPathLength_enclosed hfirst hbody hlast, Option.elim_some]
  simp

/-- Without a path nothing is swallowed. -/
theorem swallowed_other (h : Directive code name blanks path rest) (hline : '\n' ∉ code)
    (hother : name ≠ "include".toList ∨ path = []) : swallowed code = 0 := by
  rw [h.swallowed_eq]
  split
  · rename_i hname
    obtain rfl := hother.resolve_left (not_not_intro hname)
    have hnone : quotedPathLength ([] ++ rest) = none := by
      by_contra hsome
      obtain ⟨n, hn⟩ := Option.ne_none_iff_exists'.mp hsome
      cases rest with
      | nil => cases hn
      | cons first rest =>
          rw [List.nil_append, quotedPathLength] at hn
          split at hn
          · rename_i hfirst
            obtain ⟨m, hm, -⟩ := Option.map_eq_some_iff.mp hn
            obtain ⟨body, last, rest, rfl, hbody, hlast, -⟩ := enclosed_of_pathLength.1 hm
            have hfree : '\n' ∉ body := by
              intro hmem
              refine hline ?_
              rw [h.split]
              simp [hmem]
            have hlonger := h.longest
              ('#' :: (name ++ (blanks ++ first :: (body ++ [last])))) rest
              (by simpa using h.split) (accepts_preproc h.name_ne h.names h.blank
                (Or.inr fun _ => accepts_includePath hfirst hlast hbody hfree))
            simp at hlonger
            omega
          · cases hn
    rw [hnone]
    rfl
  · rfl

end Directive

/-! ### What is scanned of code -/

/-- The tokens of comments. -/
def TokenTag.isComment (tag : TokenTag) : Bool :=
  tag ∈ [comment, commentText, uncomment, trailingUncomment]

/-- What is scanned is no comment, and the reference scanner passes over it as code, unless it
is what is swallowed. -/
def ScansCode (code : Text) (result : Except SchemeError (List Token)) : Prop :=
  ∃ tokens rest, result = .ok tokens ∧ code = textOf tokens ++ rest ∧
    (∀ token ∈ tokens, token.tag.isComment = false) ∧
    (Passes rest .code (textOf tokens) false .code ∨ (textOf tokens).length = swallowed code)

theorem ScansCode.single {code text rest : Text} {tag : TokenTag}
    (hcode : code = text ++ rest) (htag : tag.isComment = false)
    (h : Passes rest .code text false .code ∨ text.length = swallowed code) :
    ScansCode code (.ok [⟨tag, text⟩]) := by
  have htext : textOf [⟨tag, text⟩] = text := List.append_nil text
  refine ⟨_, rest, rfl, by rw [htext, hcode], ?_, by rw [htext]; exact h⟩
  intro token htoken
  rw [List.mem_singleton.mp htoken]
  exact htag

section Scan

variable {search : RegexSearch} {code : Text} {flags : List Bool} {s : RefState}
  {tag : TokenTag}

/-- What a table or an expression of inert characters gives is passed over. -/
theorem Passes.inert {text rest : Text} (hscan : refScan [] .code (text ++ rest) = some (flags, s))
    (htext : ∀ c ∈ text, isInert c) : Passes rest .code text false .code := by
  refine .plain hscan (fun c hc => (htext c hc).1) ?_
  rintro front back rfl
  exact absurd rfl (htext '/' (by simp)).2

theorem scanPrefix_eq (tag : TokenTag) {table : List Text}
    (h : startsWith code table = true) :
    ∃ text ∈ table, ∃ rest, code = text ++ rest ∧
      scanPrefix table tag code = .ok [⟨tag, text⟩] := by
  obtain ⟨text, htext⟩ := Option.isSome_iff_exists.mp h
  obtain ⟨hmem, rest, hcode⟩ := findPrefix_some htext
  exact ⟨text, hmem, rest, hcode.symm, by rw [scanPrefix, htext]; rfl⟩

theorem scansCode_table {table : List Text}
    (htable : (table.all fun text => text.all fun c => isPlain c && c ≠ '/') = true)
    (htag : tag.isComment = false) (hscan : refScan [] .code code = some (flags, s))
    (h : startsWith code table = true) : ScansCode code (scanPrefix table tag code) := by
  obtain ⟨text, hmem, rest, rfl, hok⟩ := scanPrefix_eq tag h
  rw [hok]
  exact .single rfl htag (Or.inl (.inert hscan
    (isInert_of_mem (List.all_eq_true.mp htable text hmem))))

theorem scansCode_within {r : Regex} (hfinds : FindsLongest search (.anchored r))
    (hwithin : (Regex.anchored r).Within isInert) (htag : tag.isComment = false)
    (hscan : refScan [] .code code = some (flags, s))
    (h : regexMatch search (.anchored r) code = true) :
    ScansCode code (scanMatch search (.anchored r) tag code) := by
  obtain ⟨text, rest, rfl, haccepts, -, hok⟩ := scanMatch_longest hfinds h tag
  rw [hok]
  exact .single rfl htag (Or.inl (.inert hscan (hwithin.of_accepts haccepts)))

/-- An operator has a `/` only where no comment begins. -/
theorem scansCode_operator (hscan : refScan [] .code code = some (flags, s))
    (hblock : startsWithComment code = false) (hline : startsWithLineComment code = false)
    (h : startsWithOperator code = true) : ScansCode code (scanOperator code) := by
  obtain ⟨text, hmem, rest, rfl, hok⟩ := scanPrefix_eq .operator h
  have htable : (cOperators.all fun text => text.all isPlain && ((text.all (· ≠ '/')) ||
      text = ['/'] || text = ['/', '='])) = true := by decide
  have htext := List.all_eq_true.mp htable text hmem
  rw [Bool.and_eq_true, Bool.or_eq_true, Bool.or_eq_true, decide_eq_true_eq,
    decide_eq_true_eq] at htext
  obtain ⟨hplain, hslash⟩ := htext
  rw [scanOperator, hok]
  refine .single rfl rfl (Or.inl (.plain hscan (List.all_eq_true.mp hplain) ?_))
  intro front back htext
  rcases hslash with (hno | rfl) | rfl
  · have hslash := List.all_eq_true.mp hno '/' (by rw [htext]; simp)
    exact absurd rfl (of_decide_eq_true hslash)
  · -- No comment begins with this `/`.
    cases front with
    | nil =>
        obtain rfl : back = [] := (List.cons.inj htext).2.symm
        constructor
        · intro hstar
          obtain ⟨rest, rfl⟩ := List.head?_eq_some_iff.mp hstar
          cases hblock
        · intro hslash
          obtain ⟨rest, rfl⟩ := List.head?_eq_some_iff.mp hslash
          cases hline
    | cons d front => simp at htext
  · cases front with
    | nil =>
        obtain rfl : back = ['='] := (List.cons.inj htext).2.symm
        exact ⟨by simp, by simp⟩
    | cons d front =>
        have htail := (List.cons.inj htext).2
        cases front with
        | nil => cases htail
        | cons e front => simp at htail

variable (hsearch : FindsRegexes search)
include hsearch

theorem scansCode_literal (h : startsWithLiteral search code = true) :
    ScansCode code (scanLiteral search code) := by
  obtain ⟨text, rest, rfl, haccepts, -, hok⟩ :=
    scanMatch_longest (hsearch.of (i := 0) rfl) h .literal
  obtain ⟨body, rfl, hbody⟩ := literal_of_accepts haccepts
  have hscan : scanLiteral search _ = _ := hok
  rw [hscan]
  refine .single rfl rfl (Or.inl (.literal (Or.inl rfl) ?_ hbody))
  exact if_neg Bool.false_ne_true

theorem scansCode_identifier (hscan : refScan [] .code code = some (flags, s))
    (h : startsWithIdentifier search code = true) :
    ScansCode code (scanIdentifier search code) := by
  have hfinds : FindsLongest search identifierRegex := hsearch.of (i := 2) rfl
  obtain ⟨text, rest, rfl, haccepts, hlongest, -⟩ := scanMatch_longest hfinds h .identifier
  have hfull : fullMatch search identifierRegex _ = _ := fullMatch_longest hfinds hlongest
  rw [scanIdentifier, hfull]
  refine .single rfl ?_ (Or.inl (.inert hscan (within_identifier.of_accepts haccepts)))
  split
  · rfl
  · rfl

theorem startsWithIdentifier_of_isWordStart {c : Char} (hc : isWordStart c = true) (rest : Text) :
    startsWithIdentifier search (c :: rest) = true := by
  have haccepts : identifierRegex.Accepts true [c] rest :=
    accepts_identifier.mpr ⟨c, [], rfl, hc, nofun⟩
  exact regexMatch_true (hsearch.of (i := 2) rfl) haccepts (List.cons_ne_nil c []) rfl

theorem scansCode_constant (hscan : refScan [] .code code = some (flags, s))
    (hidentifier : startsWithIdentifier search code = false)
    (h : startsWithConstant search code = true) :
    ScansCode code (scanConstant search code) := by
  obtain ⟨regex, hregex⟩ := Option.isSome_iff_exists.mp
    (List.find?_isSome.mpr (List.any_eq_true.mp h))
  have hmatch := List.find?_some hregex
  have hmem := List.mem_of_find?_eq_some hregex
  rw [scanConstant, hregex]
  by_cases hchar : regex = charConstantRegex
  · subst hchar
    obtain ⟨text, rest, rfl, haccepts, -, hok⟩ :=
      scanMatch_longest (hsearch.of (i := 6) rfl) hmatch .constant
    obtain ⟨suffix, body, rfl, hsuffix, hbody, hne⟩ := char_of_accepts haccepts
    -- Letters in front of the quote are scanned as an identifier.
    cases suffix with
    | cons c suffix =>
        have hc : isWordStart c = true := by
          rcases hsuffix c List.mem_cons_self with rfl | rfl | rfl | rfl <;> rfl
        rw [List.cons_append, List.cons_append,
          startsWithIdentifier_of_isWordStart hsearch hc] at hidentifier
        cases hidentifier
    | nil =>
        have hok : scanMatch search charConstantRegex .constant _ = _ := hok
        dsimp only
        rw [hok]
        refine .single rfl rfl (Or.inl (.literal (Or.inr rfl) ?_ hbody))
        have hstray : isStray ('\'' :: (body ++ '\'' :: rest)) = false := by
          cases hbody with
          | nil => exact absurd rfl hne
          | char hc _ _ =>
              rw [isStray, if_pos rfl]
              simpa using hc
          | escape _ => rfl
        rw [swallowed, hstray]
        rfl
  · have hwithin := within_constant hmem hchar
    obtain ⟨hfinds, r, rfl⟩ := hsearch.constant hmem
    exact scansCode_within hfinds hwithin rfl hscan hmatch

/-- What is found where a directive is. -/
theorem exists_directive (h : startsWithPreproc search code = true) :
    ∃ name blanks filepath rest other, Directive code name blanks (filepath.getD []) rest ∧
      (∀ path, filepath = some path → path ≠ []) ∧
      ∃ full, search preprocDirectiveRegex code =
        some [full, some ('#' :: name), some blanks, filepath, other] := by
  have hfinds : FindsLongest search preprocDirectiveRegex := hsearch.of (i := 10) rfl
  obtain ⟨directive, blanks, filepath, rest, other, hcode, -, hresult, hpath, ⟨_, _, hname⟩, _, _,
    hblanks⟩ := preproc_groups hsearch h
  obtain ⟨name, rfl, hne, hname⟩ := accepts_directiveName.mp hname
  obtain ⟨p, _, _, -, hlongest, -⟩ := scanMatch_longest hfinds h .preprocDirective
  obtain ⟨m, hm⟩ := Regex.search_longestPrefix hfinds hlongest
  have hp : p = '#' :: name ++ (blanks ++ filepath.getD []) := by
    have hlist := hm.symm.trans hresult
    exact Option.some.inj (List.cons.inj (Option.some.inj hlist)).1
  have hpaths : ∀ path, filepath = some path → ∃ first body last,
      path = first :: (body ++ [last]) ∧ (first = '<' ∨ first = '"') ∧ isPathEnd last = true ∧
        Enclosed isPathEnd body := by
    intro path hsome
    obtain ⟨_, m, hmatches⟩ := hpath path hsome
    exact path_of_accepts ⟨m, hmatches⟩
  refine ⟨name, blanks, filepath, rest, other, ⟨hcode, hne, hname, accepts_blanks.mp hblanks, ?_,
    ?_⟩, ?_, _, hresult⟩
  · cases filepath with
    | none => exact Or.inl rfl
    | some path => exact Or.inr (hpaths path rfl)
  · intro text rest' hcode' haccepts
    have hle := hlongest.longest _ (List.mem_singleton_self _) text rest' hcode' haccepts
    rw [hp] at hle
    simp at hle
    omega
  · intro path hsome
    obtain ⟨first, body, last, rfl, -⟩ := hpaths path hsome
    exact List.cons_ne_nil _ _

theorem scansCode_preproc (hline : '\n' ∉ code) (hscan : refScan [] .code code = some (flags, s))
    (h : startsWithPreproc search code = true) : ScansCode code (scanPreproc search code) := by
  obtain ⟨name, blanks, filepath, rest, other, hdirective, hpath, full, hresult⟩ :=
    exists_directive hsearch h
  have hsingle (hswallowed : swallowed code = 0) :
      ScansCode code (.ok [⟨.preprocDirective, '#' :: name⟩]) := by
    refine .single hdirective.split rfl (Or.inl ?_)
    rw [hdirective.split] at hswallowed hscan
    obtain ⟨flag, s₁, flags', hstep, hscan, -⟩ := refScan_cons.mp hscan
    have hcode : refStep (name ++ (blanks ++ (filepath.getD [] ++ rest))).head? .code '#' =
        some (false, .code) := refStep_code (by decide) nofun nofun
    rw [List.append_nil, hcode] at hstep
    cases hstep
    exact .cons hcode (fun _ => hswallowed) (.inert hscan fun c hc =>
      isInert_of_isWordChar (isWordChar_of_isDirectiveChar (hdirective.names c hc)))
  unfold scanPreproc
  rw [hresult]
  dsimp only
  split
  · rename_i hinclude
    have hname : name = "include".toList := by
      rw [show "#include".toList = '#' :: "include".toList by decide] at hinclude
      exact (List.cons.inj hinclude).2
    cases filepath with
    | none => exact hsingle (hdirective.swallowed_other hline (Or.inr rfl))
    | some path =>
        refine ⟨_, rest, rfl, ?_, ?_, Or.inr ?_⟩
        · rw [hdirective.split]
          simp [textOf, makeToken]
        · simp [makeToken, TokenTag.isComment]
        · rw [hdirective.swallowed_include hname (hpath path rfl), hname]
          simp [textOf, makeToken]
          omega
  · rename_i hinclude
    refine hsingle (hdirective.swallowed_other hline (Or.inl ?_))
    rintro rfl
    exact hinclude (by decide)

/-- A literal that is closed is scanned as one. -/
theorem startsWith_closed (hline : '\n' ∉ code) (hs : s.isLiteral = false)
    (hscan : refScan [] .code code = some (flags, s)) :
    (code.head? = some '"' → startsWithLiteral search code = true) ∧
      (code.head? = some '\'' → code.tail.head? ≠ some '\'' →
        startsWithConstant search code = true) := by
  have hclosed : ∀ {quote : Char} {text : Text}, code = quote :: text →
      quote = '"' ∨ quote = '\'' → ∃ body rest, code = quote :: (body ++ [quote]) ++ rest ∧
        Enclosed (· = quote) body ∧ '\n' ∉ body := by
    intro quote text hcode hquote
    rw [hcode] at hscan
    obtain ⟨flag, s₁, flags', hstep, hscan, -⟩ := refScan_cons.mp hscan
    have hopen : refStep (text ++ []).head? .code quote = some (false, .literal quote) := by
      rw [refStep]
      rcases hquote with rfl | rfl
      · simp
      · simp
    rw [hopen] at hstep
    cases hstep
    obtain ⟨body, rest, rfl, hbody⟩ := (exists_enclosed hs text).1 hscan
    refine ⟨body, rest, by simp [hcode], hbody, fun hmem => hline ?_⟩
    rw [hcode]
    simp [hmem]
  constructor
  · intro hhead
    obtain ⟨text, hcode⟩ := List.head?_eq_some_iff.mp hhead
    obtain ⟨body, rest, hcode, hbody, hfree⟩ := hclosed hcode (Or.inl rfl)
    have haccepts : literalRegex.Accepts true ('"' :: (body ++ ['"'])) rest :=
      accepts_literal hbody hfree
    exact regexMatch_true (hsearch.of (i := 0) rfl) haccepts (List.cons_ne_nil _ _) hcode
  · intro hhead hne
    obtain ⟨text, hcode⟩ := List.head?_eq_some_iff.mp hhead
    obtain ⟨body, rest, hcode, hbody, hfree⟩ := hclosed hcode (Or.inr rfl)
    have hnonempty : body ≠ [] := by
      rintro rfl
      rw [hcode] at hne
      exact hne rfl
    have haccepts : charConstantRegex.Accepts true ('\'' :: (body ++ ['\''])) rest :=
      accepts_char hbody hnonempty hfree
    exact List.any_eq_true.mpr ⟨charConstantRegex, by simp [constantRegexes],
      regexMatch_true (hsearch.of (i := 6) rfl) haccepts (List.cons_ne_nil _ _) hcode⟩

/-- Where no other rule matches, no token begins. -/
theorem isStray_of_not (hline : '\n' ∉ code) (hs : s.isLiteral = false)
    (hscan : refScan [] .code code = some (flags, s)) (hne : code ≠ [])
    (hoperator : startsWithOperator code = false) (hspecial : startsWithSpecialSymbol code = false)
    (hliteral : startsWithLiteral search code = false)
    (hwhitespace : startsWithWhitespace search code = false)
    (hidentifier : startsWithIdentifier search code = false)
    (hconstant : startsWithConstant search code = false)
    (hpreproc : startsWithPreproc search code = false) : isStray code = true := by
  obtain ⟨hdouble, hsingle⟩ := startsWith_closed hsearch hline hs hscan
  obtain ⟨c, rest, rfl⟩ := List.exists_cons_of_ne_nil hne
  rw [isStray]
  split
  · rename_i hc
    by_contra hno
    rw [hsingle (congrArg some hc) (fun h => hno (decide_eq_true h))] at hconstant
    cases hconstant
  split
  · rename_i hc
    rw [Bool.not_eq_true']
    by_contra hno
    obtain ⟨d, hd, hname⟩ := (Option.any_eq_true _ _).mp (Bool.not_eq_false _ ▸ hno)
    obtain ⟨rest, rfl⟩ := List.head?_eq_some_iff.mp hd
    have haccepts : preprocDirectiveRegex.Accepts true ('#' :: ([d] ++ ([] ++ []))) rest :=
      accepts_preproc (List.cons_ne_nil d []) (by simpa using hname)
        (fun _ hblank => absurd hblank List.not_mem_nil) (Or.inl rfl)
    have hmatch : startsWithPreproc search (c :: d :: rest) = true :=
      regexMatch_true (hsearch.of (i := 10) rfl) haccepts (List.cons_ne_nil _ _) (by simp [hc])
    rw [hmatch] at hpreproc
    cases hpreproc
  have hword : isWordChar c = false := by
    rw [isWordChar, Bool.or_eq_false_iff]
    constructor
    · by_contra hword
      rw [startsWithIdentifier_of_isWordStart hsearch (by simpa using hword)] at hidentifier
      cases hidentifier
    · by_contra hdigit
      have haccepts : decimalConstantRegex.Accepts true [c] rest :=
        accepts_decimal.mpr ⟨[c], [], rfl, ⟨List.cons_ne_nil c [], by simpa using hdigit⟩,
          fun _ hsuffix => absurd hsuffix List.not_mem_nil⟩
      have hmatch : startsWithConstant search (c :: rest) = true :=
        List.any_eq_true.mpr ⟨decimalConstantRegex, by simp [constantRegexes],
          regexMatch_true (hsearch.of (i := 5) rfl) haccepts (List.cons_ne_nil c []) rfl⟩
      rw [hmatch] at hconstant
      cases hconstant
  have htable : ∀ {table : List Text}, startsWith (c :: rest) table = false → [c] ∉ table := by
    intro table hno hmem
    have hbegins : [c].isPrefixOf (c :: rest) = true :=
      List.isPrefixOf_iff_prefix.mpr (List.prefix_append [c] rest)
    have hstarts : startsWith (c :: rest) table = true := List.find?_isSome.mpr ⟨[c], hmem, hbegins⟩
    rw [hstarts] at hno
    cases hno
  have hblank : c ∉ "\t\r\n ".toList := by
    intro hmem
    have haccepts : whitespaceRegex.Accepts true [c] rest := by
      rw [whitespaceRegex, Regex.accepts_anchored, Regex.accepts_star Regex.accepts_anyOf]
      simpa using hmem
    have hmatch : startsWithWhitespace search (c :: rest) = true :=
      regexMatch_true (hsearch.of (i := 1) rfl) haccepts (List.cons_ne_nil c []) rfl
    rw [hmatch] at hwhitespace
    cases hwhitespace
  have hquote : c ≠ '"' := by
    intro hc
    rw [hdouble (congrArg some hc)] at hliteral
    cases hliteral
  rw [isPlain, hword, decide_eq_false (htable hoperator), decide_eq_false (htable hspecial),
    decide_eq_false hblank, decide_eq_true hquote]
  rfl

theorem startsWithAny_of_isStray (h : isStray code = true) : startsWithAny search code = true := by
  cases code with
  | nil => cases h
  | cons c rest =>
      have hblank : c ∉ " \n\t\r".toList := by
        intro hmem
        rw [show " \n\t\r".toList = [' ', '\n', '\t', '\r'] by decide] at hmem
        simp only [List.mem_cons, List.not_mem_nil, or_false] at hmem
        have hplain : isPlain c = true ∧ c ≠ '\'' ∧ c ≠ '#' := by
          rcases hmem with rfl | rfl | rfl | rfl <;> decide
        rw [isStray, if_neg hplain.2.1, if_neg hplain.2.2, hplain.1, Bool.not_true,
          Bool.and_false] at h
        cases h
      have haccepts : anyRegex.Accepts true [c] rest := by
        rw [anyRegex, Regex.accepts_anchored, Regex.accepts_star Regex.accepts_noneOf]
        intro d hd
        rw [List.mem_singleton.mp hd]
        exact hblank
      exact regexMatch_true (hsearch.of (i := 13) rfl) haccepts (List.cons_ne_nil c []) rfl

theorem scansCode_any (hstray : isStray code = true) (h : startsWithAny search code = true) :
    ScansCode code (scanAny search code) := by
  obtain ⟨text, rest, hcode, haccepts, hlongest, hok⟩ :=
    scanMatch_longest (hsearch.of (i := 13) rfl) h .other
  have hscan : scanAny search code = _ := hok
  have haccepts_iff : ∀ {text rest : Text}, anyRegex.Accepts true text rest ↔
      ∀ c ∈ text, decide (c ∉ " \n\t\r".toList) = true := by
    intro text rest
    rw [anyRegex, Regex.accepts_anchored, Regex.accepts_star Regex.accepts_noneOf]
    simp only [decide_eq_true_eq]
  obtain ⟨run, rest', hrun, hall, hover⟩ :=
    Split.exists_split (fun c => decide (c ∉ " \n\t\r".toList)) code
  have hle := hlongest.longest _ (List.mem_singleton_self _) run rest' hrun
    (haccepts_iff.mpr hall)
  have hge := Split.length_le hover (haccepts_iff.mp haccepts) (hrun.symm.trans hcode)
  rw [hscan]
  refine .single hcode rfl (Or.inr ?_)
  rw [swallowed, if_pos hstray, hrun, Split.takeWhile_append hall hover]
  exact Nat.le_antisymm hge hle

/-- Whatever rule matches, what is scanned is code. -/
theorem scanNormalMode_scansCode (hline : '\n' ∉ code) (hs : s.isLiteral = false)
    (hscan : refScan [] .code code = some (flags, s)) (hne : code ≠ [])
    (hblock : startsWithComment code = false) (hslash : startsWithLineComment code = false) :
    ScansCode code (scanNormalMode search code) := by
  unfold scanNormalMode
  split
  · -- The reference scanner meets no end of a comment in code.
    rename_i hstarts
    obtain ⟨_, hmem, rest, rfl, -⟩ := scanPrefix_eq .trailingUncomment hstarts
    rw [List.mem_singleton.mp hmem] at hscan
    cases hscan
  split
  · rename_i hkeyword
    exact scansCode_table (by decide) rfl hscan
      (startsWith_of_startsWithKeyword hsearch hkeyword)
  split
  · rename_i hoperator
    exact scansCode_operator hscan hblock hslash hoperator
  rename_i hoperator
  split
  · rename_i hspecial
    exact scansCode_table (by decide) rfl hscan hspecial
  rename_i hspecial
  split
  · rename_i hliteral
    exact scansCode_literal hsearch hliteral
  rename_i hliteral
  split
  · rename_i hwhitespace
    exact scansCode_within (hsearch.of (i := 1) rfl) within_whitespace rfl hscan hwhitespace
  rename_i hwhitespace
  split
  · rename_i hidentifier
    exact scansCode_identifier hsearch hscan hidentifier
  rename_i hidentifier
  split
  · rename_i hconstant
    exact scansCode_constant hsearch hscan (Bool.eq_false_iff.mpr hidentifier) hconstant
  rename_i hconstant
  split
  · rename_i hpreproc
    exact scansCode_preproc hsearch hline hscan hpreproc
  rename_i hpreproc
  have hstray : isStray code = true :=
    isStray_of_not hsearch hline hs hscan hne (Bool.eq_false_iff.mpr hoperator)
      (Bool.eq_false_iff.mpr hspecial) (Bool.eq_false_iff.mpr hliteral)
      (Bool.eq_false_iff.mpr hwhitespace) (Bool.eq_false_iff.mpr hidentifier)
      (Bool.eq_false_iff.mpr hconstant) (Bool.eq_false_iff.mpr hpreproc)
  rw [if_pos (startsWithAny_of_isStray hsearch hstray)]
  exact scansCode_any hsearch hstray (startsWithAny_of_isStray hsearch hstray)

end Scan

end Spray
