/-
The files that a file includes.

An include path is scanned with its quotes, so that there is something to take off
(`Quoted`).  That leaves one error to be made with a file: reading it fails if it is there
but has no newline in it.
-/
import Spray.Proofs.SourceLines
import Spray.Proofs.Tokenize

namespace Spray

/-! ### Paths in quotes -/

/-- An include path has its two quotes. -/
def Quoted (token : Token) : Prop := token.tag = .includeFilepath → 2 ≤ token.text.length

theorem quoted_of_tag {token : Token} (h : token.tag ≠ .includeFilepath) : Quoted token :=
  fun htag => absurd htag h

theorem length_of_includePath {atStart : Bool} {path rest : Text} {m : Captures}
    (h : includePath.Matches atStart path rest m) : 2 ≤ path.length := by
  obtain ⟨t, u, _, _, rfl, _, ⟨⟨c, _, rfl⟩, _⟩, h⟩ := Regex.matches_seqs_cons.mp h
  obtain ⟨v, w, _, _, rfl, _, _, ⟨d, _, rfl⟩, _⟩ := Regex.matches_seqs_cons.mp h
  simp only [List.length_append, List.length_cons]
  omega

/-- All tokens of a scan that succeeds are as they should be. -/
def ScansQuoted (result : Except SchemeError (List Token)) : Prop :=
  ∀ tokens, result = .ok tokens → ∀ token ∈ tokens, Quoted token

theorem ScansQuoted.ite {c : Prop} [Decidable c] {a b : Except SchemeError (List Token)}
    (hpos : c → ScansQuoted a) (hneg : ScansQuoted b) : ScansQuoted (if c then a else b) := by
  split
  · rename_i h
    exact hpos h
  · exact hneg

/-- A scan for one token of another kind. -/
theorem scansQuoted_map {result : Except SchemeError Text} {tag : Text → TokenTag}
    (h : ∀ text, tag text ≠ .includeFilepath) :
    ScansQuoted (result.map fun text => makeTokenList text (tag text)) := by
  intro tokens hok token htoken
  cases result with
  | error e => cases hok
  | ok text =>
      cases hok
      rw [List.mem_singleton.mp htoken]
      exact quoted_of_tag (h text)

theorem scanPrefix_quoted {table : List Text} {tag : TokenTag} {code : Text}
    (h : tag ≠ .includeFilepath) : ScansQuoted (scanPrefix table tag code) := by
  intro tokens hok token htoken
  unfold scanPrefix at hok
  split at hok
  · cases hok
    rw [List.mem_singleton.mp htoken]
    exact quoted_of_tag h
  · cases hok

theorem scansQuoted_preproc {search : RegexSearch} (hsearch : FindsRegexes search) {code : Text}
    (h : startsWithPreproc search code = true) : ScansQuoted (scanPreproc search code) := by
  obtain ⟨directive, whitespace, filepath, rest, other, -, -, hresult, hquoted, -⟩ :=
    preproc_groups hsearch h
  intro tokens hok token htoken
  have hdirective : Quoted (makeToken directive .preprocDirective) :=
    quoted_of_tag fun htag => by cases htag
  unfold scanPreproc at hok
  rw [hresult] at hok
  dsimp only at hok
  split at hok
  · cases filepath with
    | none =>
        cases hok
        rw [List.mem_singleton.mp htoken]
        exact hdirective
    | some path =>
        cases hok
        simp only [List.mem_cons, List.not_mem_nil, or_false] at htoken
        rcases htoken with rfl | rfl | rfl
        · exact hdirective
        · exact quoted_of_tag fun htag => by cases htag
        · obtain ⟨_, _, hpath⟩ := hquoted path rfl
          exact fun _ => length_of_includePath hpath
  · cases hok
    rw [List.mem_singleton.mp htoken]
    exact hdirective

theorem scansQuoted_constant {search : RegexSearch} {code : Text} :
    ScansQuoted (scanConstant search code) := by
  unfold scanConstant
  split
  · exact scansQuoted_map fun _ htag => by cases htag
  · intro tokens hok
    cases hok

theorem scansQuoted_normal {search : RegexSearch} (hsearch : FindsRegexes search) {code : Text} :
    ScansQuoted (scanNormalMode search code) := by
  unfold scanNormalMode
  refine .ite (fun _ => scanPrefix_quoted fun htag => by cases htag) ?_
  refine .ite (fun _ => scanPrefix_quoted fun htag => by cases htag) ?_
  refine .ite (fun _ => scanPrefix_quoted fun htag => by cases htag) ?_
  refine .ite (fun _ => scanPrefix_quoted fun htag => by cases htag) ?_
  refine .ite (fun _ => scansQuoted_map fun _ htag => by cases htag) ?_
  refine .ite (fun _ => scansQuoted_map fun _ htag => by cases htag) ?_
  refine .ite (fun _ => scansQuoted_map fun text => ?_) ?_
  · split
    · exact fun htag => by cases htag
    · exact fun htag => by cases htag
  refine .ite (fun _ => scansQuoted_constant) ?_
  refine .ite (fun h => scansQuoted_preproc hsearch h) ?_
  refine .ite (fun _ => scansQuoted_map fun _ htag => by cases htag) ?_
  intro tokens hok
  cases hok

theorem scan_quoted {search : RegexSearch} (hsearch : FindsRegexes search) :
    HoldsOfScanned search Quoted := by
  have hmap : ∀ {result : Except SchemeError (List Token)} {mode mode' : ScanMode}
      {tokens : List Token}, ScansQuoted result → result.map (·, mode) = .ok (tokens, mode') →
      ∀ token ∈ tokens, Quoted token := by
    intro result mode mode' tokens hquoted hok
    cases result with
    | error e => cases hok
    | ok tokens' =>
        cases hok
        exact hquoted _ rfl
  intro code newLine mode tokens mode' hok
  unfold scan at hok
  generalize (if mode = .lineComment && newLine then ScanMode.normal else mode) = mode at hok
  by_cases hne : code = []
  · rw [if_pos hne] at hok
    cases hok
    exact fun _ htoken => absurd htoken List.not_mem_nil
  · rw [if_neg hne] at hok
    cases mode with
    | normal =>
        dsimp only at hok
        split at hok
        · exact hmap (scanPrefix_quoted fun htag => by cases htag) hok
        · split at hok
          · exact hmap (scanPrefix_quoted fun htag => by cases htag) hok
          · exact hmap (scansQuoted_normal hsearch) hok
    | comment =>
        dsimp only at hok
        split at hok
        · exact hmap (scanPrefix_quoted fun htag => by cases htag) hok
        · exact hmap (scansQuoted_map fun _ htag => by cases htag) hok
    | lineComment => exact hmap (scansQuoted_map fun _ htag => by cases htag) hok

/-! ### What a file includes -/

variable {host : Host}

/-- A file that is there has a newline in it. -/
def HasNewline (host : Host) (f : Text) : Prop :=
  ∀ content, host.files f = some content → '\n' ∈ content

/-- The files that a file includes, if it can be read. -/
def includesOf (host : Host) (f : Text) : List Text :=
  match readTokens host f with
  | some (.ok tokenLines) =>
    match filterFilepaths host f tokenLines with
    | .ok filepaths => filepaths
    | .error _ => []
  | _ => []

abbrev Includes (host : Host) (f g : Text) : Prop := g ∈ includesOf host f

theorem filterTokenFilepaths_ok (f : Text) {tokens : List Token} (h : ∀ t ∈ tokens, Quoted t) :
    ∃ filepaths, filterTokenFilepaths host f tokens = .ok filepaths := by
  induction tokens with
  | nil => exact ⟨[], rfl⟩
  | cons token tokens ih =>
      obtain ⟨filepaths, hrest⟩ := ih fun t ht => h t (List.mem_cons_of_mem token ht)
      unfold filterTokenFilepaths
      by_cases htag : token.tag = .includeFilepath
      · rw [if_pos htag, stripPathQuotes, if_pos (h token List.mem_cons_self htag)]
        dsimp only
        rw [hrest]
        exact ⟨_, rfl⟩
      · rw [if_neg htag]
        exact ⟨filepaths, hrest⟩

theorem length_lt_tokenFuel {line : Text} {lines : List Text} (h : line ∈ lines) :
    3 * line.length < tokenFuel lines := by
  have hle : line.length ≤ (lines.map List.length).foldr max 0 := by
    induction lines with
    | nil => exact absurd h List.not_mem_nil
    | cons first lines ih =>
        rw [List.map_cons, List.foldr_cons]
        rcases List.mem_cons.mp h with rfl | h
        · exact Nat.le_max_left ..
        · exact (ih h).trans (Nat.le_max_right ..)
  unfold tokenFuel
  omega

/-- The lines of a file are split into tokens, which have the text of the lines. -/
theorem readTokens_lines (hsearch : FindsRegexes host.search) {f : Text} {lines : List Text}
    (hlines : fileToList host f = .ok lines) (hfree : ∀ line ∈ lines, '\n' ∉ line) :
    ∃ tokenLines, readTokens host f = some (.ok tokenLines) ∧
      tokenize host.search (tokenFuel lines) lines = some (.ok tokenLines) ∧
      tokenLines.map textOf = lines := by
  obtain ⟨scanned, hrun, htexts⟩ := tokenizeLines_spec hsearch
    (fun line hline => ⟨hfree line hline, length_lt_tokenFuel hline⟩) .normal
  obtain ⟨tokenLines, htokens, hsame⟩ := tokenize_wraps hrun
  refine ⟨tokenLines, ?_, htokens, hsame.trans htexts⟩
  rw [readTokens, hlines]
  exact htokens

/-- The lines of a file that is there, or none. -/
theorem fileToList_hasNewline {f : Text} (h : HasNewline host f) :
    ∃ lines, fileToList host f = .ok lines ∧ ∀ line ∈ lines, '\n' ∉ line := by
  cases hfile : host.files f with
  | none =>
      refine ⟨[], ?_, fun _ hline => absurd hline List.not_mem_nil⟩
      rw [fileToList, hfile]
  | some content =>
      obtain ⟨lines, hlines, hcontent⟩ := fileToList_newline hfile (h content hfile)
      exact ⟨lines, hlines, hcontent.free⟩

/-- A file that can be read is split into tokens, and its includes are found. -/
theorem readTokens_hasNewline (hsearch : FindsRegexes host.search) {f : Text}
    (h : HasNewline host f) : ∃ tokenLines, readTokens host f = some (.ok tokenLines) ∧
      filterFilepaths host f tokenLines = .ok (includesOf host f) := by
  obtain ⟨lines, hlines, hfree⟩ := fileToList_hasNewline h
  obtain ⟨tokenLines, hread, htokens, _⟩ := readTokens_lines hsearch hlines hfree
  obtain ⟨filepaths, hfilepaths⟩ := filterTokenFilepaths_ok f
    (tokenize_holds (scan_quoted hsearch) (fun _ => quoted_of_tag fun htag => by cases htag)
      htokens)
  have hfilter : filterFilepaths host f tokenLines = .ok filepaths := hfilepaths
  refine ⟨tokenLines, hread, ?_⟩
  rw [includesOf, hread]
  dsimp only
  rw [hfilter]

theorem readTokens_noNewline {f : Text} (h : ¬ HasNewline host f) :
    readTokens host f = some (.error .badArgument) := by
  obtain ⟨content, hcontent⟩ := not_forall.mp h
  obtain ⟨hfile, hnewline⟩ := not_forall.mp hcontent
  rw [readTokens, fileToList_noNewline hfile hnewline]

/-- A file that is not there includes nothing. -/
theorem includesOf_missing {f : Text} (h : host.files f = none) : includesOf host f = [] := by
  have hread : readTokens host f = some (.ok []) := by
    rw [readTokens, fileToList, h]
    rfl
  rw [includesOf, hread]
  rfl

end Spray
