/-
Printing a source file.

Files are loaded, and their types looked for, when they are first printed.  What is in the
table then is what the files have in them, in whichever order they were asked for; so the same
text is printed at any time, and each word of it is in the color it has in the file.
-/
import Spray.Proofs.PrintSource
import Spray.Proofs.TypesEnv

namespace Spray

open Spray.Graph (Reaches OnCycle Ends)

variable {host : Host}

/-! ### What is in the table -/

/-- The tokens of a file, if it can be read. -/
def tokensOf (host : Host) (f : Text) : List (List Token) :=
  match readTokens host f with
  | some (.ok tokenLines) => tokenLines
  | _ => []

theorem Entry.tokensOf {table : SourceFiles} {f : Text} {sf : SourceFile}
    (h : Entry host table f sf) : tokensOf host f = sf.tokenLines := by
  unfold Spray.tokensOf
  rw [h.tokens]

theorem eq_of_map_eq {α β : Type} {g : α → β} {as bs : List α}
    (hmap : as.map g = bs.map g) (hinj : ∀ a ∈ as, ∀ b ∈ bs, g a = g b → a = b) : as = bs := by
  induction as generalizing bs with
  | nil =>
      rw [List.map_nil] at hmap
      exact (List.map_eq_nil_iff.mp hmap.symm).symm
  | cons a as ih =>
      obtain ⟨b, bs, rfl⟩ : ∃ b bs', bs = b :: bs' := by
        cases bs with
        | nil => cases hmap
        | cons b bs => exact ⟨b, bs, rfl⟩
      rw [List.map_cons, List.map_cons, List.cons.injEq] at hmap
      rw [hinj a List.mem_cons_self b List.mem_cons_self hmap.1, ih hmap.2 fun a ha b hb =>
        hinj a (List.mem_cons_of_mem _ ha) b (List.mem_cons_of_mem _ hb)]

theorem Deps.eq_of_parts {deps deps' : Deps} (hfile : deps.file = deps'.file)
    (hincludes : deps.includes = deps'.includes) : deps = deps' := by
  cases deps
  cases deps'
  exact congr (congrArg Deps.mk hfile) hincludes

/-- A file has the same dependencies in each table it is in. -/
theorem Entries.deps_unique {table table' : SourceFiles} (h : Entries host table)
    (h' : Entries host table') {f : Text} (hends : Ends (Includes host) f) :
    ∀ {sf sf' : SourceFile}, table f = some sf → table' f = some sf' → sf.deps = sf'.deps := by
  induction hends with
  | intro f _ ih =>
      intro sf sf' hsf hsf'
      have hentry := h f sf hsf
      have hentry' := h' f sf' hsf'
      refine Deps.eq_of_parts (hentry.file.trans hentry'.file.symm)
        (eq_of_map_eq (hentry.includes.trans hentry'.includes.symm) ?_)
      intro dep hdep dep' hdep' hsame
      obtain ⟨sf₁, hsf₁, rfl⟩ := hentry.entered dep hdep
      obtain ⟨sf₂, hsf₂, rfl⟩ := hentry'.entered dep' hdep'
      have hmem : sf₁.deps.file ∈ includesOf host f := by
        rw [← List.mem_reverse, ← hentry.includes]
        exact List.mem_map_of_mem hdep
      exact ih sf₁.deps.file hmem hsf₁ (hsame ▸ hsf₂)

/-- The files of the tree of an entry are those that its file leads to. -/
theorem Entries.has_iff {table : SourceFiles} (h : Entries host table) {f g : Text}
    {sf : SourceFile} (hf : table f = some sf) :
    sf.deps.Has g ↔ Reaches (Includes host) f g := by
  constructor
  · rintro ⟨dep, hreach, rfl⟩
    induction hreach with
    | refl =>
        rw [show sf.deps.file = f from (h f sf hf).file]
    | @tail dep d hdep hd ih =>
        obtain ⟨sf', hsf', rfl⟩ := h.tree hf hdep
        refine .tail ih ?_
        rw [Includes, ← List.mem_reverse, ← (h _ sf' hsf').includes]
        exact List.mem_map_of_mem hd
  · intro hreach
    induction hreach with
    | refl => exact ⟨sf.deps, .refl, (h f sf hf).file⟩
    | @tail g g' _ hedge ih =>
        obtain ⟨dep, hdep, rfl⟩ := ih
        obtain ⟨sf', hsf', rfl⟩ := h.tree hf hdep
        have hmem : g' ∈ sf'.deps.includes.map Deps.file := by
          rw [(h _ sf' hsf').includes]
          exact List.mem_reverse.mpr hedge
        obtain ⟨d, hd, rfl⟩ := List.mem_map.mp hmem
        exact ⟨d, .tail hdep hd, rfl⟩

/-! ### The types of a file -/

/-- The types environment of a file with these dependencies. -/
def typesOf (host : Host) (deps : Deps) : TypesEnv :=
  match (host.listed (flattenDeps [] deps)).map (tokensOf host) with
  | [] => none
  | tokenLines :: tokenLinesLst => makeTypesEnv tokenLines tokenLinesLst

theorem tokenLinesOf_eq {table : SourceFiles} (h : Entries host table) {keys : List Text} :
    ∀ {lst : List (List (List Token))}, tokenLinesOf table keys = .ok lst →
      lst = keys.map (tokensOf host) := by
  induction keys with
  | nil => intro lst hlst; cases hlst; rfl
  | cons key keys ih =>
      intro lst hlst
      unfold tokenLinesOf at hlst
      cases hsf : table key with
      | none => rw [hsf] at hlst; cases hlst
      | some sf =>
          rw [hsf] at hlst
          cases hrest : tokenLinesOf table keys with
          | error e => rw [hrest] at hlst; cases hlst
          | ok rest =>
              rw [hrest] at hlst
              cases hlst
              rw [List.map_cons, (h key sf hsf).tokensOf, ← ih hrest]

theorem typesOf_eq {table : SourceFiles} (h : Entries host table) {sf : SourceFile}
    {tokenLines : List (List Token)} {tokenLinesLst : List (List (List Token))}
    (hlst : sfDepsToTokenLinesLst host table sf = .ok (tokenLines :: tokenLinesLst)) :
    typesOf host sf.deps = makeTypesEnv tokenLines tokenLinesLst := by
  have hkeys : (host.listed (flattenDeps [] sf.deps)).map (tokensOf host) =
      tokenLines :: tokenLinesLst := (tokenLinesOf_eq h hlst).symm
  unfold typesOf
  rw [hkeys]

/-- Whether it was made before or not, the environment is that of the dependencies. -/
theorem sfTypesEnv_eq (hsearch : FindsRegexes host.search) {s : Loader}
    (hs : LoaderState host s) {f : Text} {sf : SourceFile} (hf : s.table f = some sf)
    {env : TypesEnv} {table' : SourceFiles} (h : sfTypesEnv host s.table sf = .ok (env, table')) :
    env = typesOf host sf.deps := by
  have htree := hs.loadedTree hsearch hf
  have hentries := hs.entries hsearch
  unfold sfTypesEnv at h
  cases henv : sf.typesEnv with
  | some types =>
      rw [henv] at h
      cases h
      rcases htree.made with hnone | ⟨tokenLines, tokenLinesLst, hlst, hmade⟩
      · rw [hnone] at henv
        cases henv
      · rw [typesOf_eq hentries hlst, ← hmade, henv]
  | none =>
      rw [henv] at h
      dsimp only at h
      cases hself : s.table (sfName sf) with
      | none => rw [hself] at h; cases h
      | some sf' =>
          rw [hself] at h
          dsimp only at h
          cases hlst : sfDepsToTokenLinesLst host s.table sf' with
          | error e => rw [hlst] at h; cases h
          | ok lst =>
              rw [hlst] at h
              cases lst with
              | nil => cases h
              | cons tokenLines tokenLinesLst =>
                  cases h
                  rw [← htree.self sf' hself, typesOf_eq hentries hlst]

/-! ### The text that is printed -/

section Printing

variable (hsearch : FindsRegexes host.search) (hlisted : ∀ keys, (host.listed keys).Perm keys)
include hsearch hlisted

theorem sfTypesEnv_ok {s : Loader} (hs : LoaderState host s) {f : Text} {sf : SourceFile}
    (hf : s.table f = some sf) :
    ∃ table', sfTypesEnv host s.table sf = .ok (typesOf host sf.deps, table') := by
  have htree := hs.loadedTree hsearch hf
  obtain ⟨env, table', hrun⟩ : ∃ env table', sfTypesEnv host s.table sf = .ok (env, table') := by
    unfold sfTypesEnv
    cases henv : sf.typesEnv with
    | some types => exact ⟨_, _, rfl⟩
    | none =>
        obtain ⟨sf', hself⟩ := htree.loaded (sfName sf) ⟨_, .refl, rfl⟩
        obtain ⟨tokenLines, tokenLinesLst, hlst⟩ := sfDepsToTokenLinesLst_ok hlisted htree
        have hlst' : sfDepsToTokenLinesLst host s.table sf' =
            .ok (tokenLines :: tokenLinesLst) := by
          rw [← hlst]
          unfold sfDepsToTokenLinesLst sfFlatDeps
          rw [htree.self sf' hself]
        dsimp only
        rw [hself]
        dsimp only
        rw [hlst']
        exact ⟨_, _, rfl⟩
  exact ⟨table', sfTypesEnv_eq hsearch hs hf hrun ▸ hrun⟩

/-- Once a file has been loaded, the text that is printed of it is known. -/
theorem printSource_of_load (eggs : Eggs) {s t : Loader} {fuel : Nat} {f : Text}
    {sf : SourceFile} (hs : LoaderState host s)
    (hload : loadSourceFile host fuel f s = some (.ok sf, t)) (l c : Nat) (useColor : Bool) :
    ∃ s', printSource host eggs fuel f l c useColor s =
        some (.ok (printedSource eggs (tokensOf host f) (typesOf host sf.deps) l c useColor), s') ∧
      LoaderState host s' := by
  have ht : LoaderState host t := .load hs hload
  have htable := ((loadSourceFile_spec hsearch fuel (hs.entries hsearch) hload).2 sf rfl).2
  obtain ⟨table', hrun⟩ := sfTypesEnv_ok hsearch hlisted ht htable
  refine ⟨{ t with table := table' }, ?_, .types ht htable hrun⟩
  unfold printSource
  rw [hload]
  dsimp only
  rw [hrun, (ht.entries hsearch f sf htable).tokensOf]

/-- The types that are seen are those declared in the files it leads to. -/
theorem isTypeInEnv_typesOf {s : Loader} (hs : LoaderState host s) {f : Text} {sf : SourceFile}
    (hf : s.table f = some sf) (name : Text) :
    isTypeInEnv (typesOf host sf.deps) name = true ↔
      ∃ g, Reaches (Includes host) f g ∧ Declares (tokensOf host g).flatten name := by
  have htree := hs.loadedTree hsearch hf
  have hentries := hs.entries hsearch
  obtain ⟨tokenLines, tokenLinesLst, hlst⟩ := sfDepsToTokenLinesLst_ok hlisted htree
  rw [typesOf_eq hentries hlst, makeTypesEnv_sees hlisted htree.consistent hlst]
  refine exists_congr fun g => ?_
  rw [hentries.has_iff hf]
  refine and_congr_right fun hreach => ⟨?_, fun hdeclares => ?_⟩
  · rintro ⟨sf', hsf', hdeclares⟩
    rw [(hentries g sf' hsf').tokensOf]
    exact hdeclares
  · obtain ⟨sf', hsf'⟩ := hentries.reaches hf hreach
    rw [(hentries g sf' hsf').tokensOf] at hdeclares
    exact ⟨sf', hsf', hdeclares⟩

end Printing

/-! ### Colors -/

inductive Shade
  | standard | red | green | yellow | blue | magenta | cyan
  deriving DecidableEq, Repr

/-- The style of an escape sequence that sets a color, or the style to begin with. -/
def Shade.style : Shade → Text
  | standard => "[0".toList
  | red => "[31".toList
  | green => "[32".toList
  | yellow => "[33".toList
  | blue => "[34".toList
  | magenta => "[35".toList
  | cyan => "[96".toList

/-- The color of a word.  A name has one if it names a type. -/
def tokenShade (isType : Text → Bool) (token : Token) : Shade :=
  match token.tag with
  | .keyword | .preprocDirective => .magenta
  | .operator => .yellow
  | .primType => .green
  | .literal => .red
  | .constant => .blue
  | .identifier => if isType token.text then .green else .standard
  | .comment | .commentText | .uncomment | .trailingUncomment => .cyan
  | _ => .standard

section Colors

variable (isType : Text → Bool) (useColor : Bool)

def shadeShown (token : Token) : Shade :=
  if useColor then tokenShade isType token else .standard

/-- The words of a line, each in its color. -/
def coloredTokens (tokens : List Token) : List (Char × Text) :=
  tokens.flatMap fun token => Ansi.styled (shadeShown isType useColor token).style token.text

/-- The lines as a reader sees them, when the first of them has the given number. -/
def coloredLines (active : Nat) : (number : Nat) → List (List Token) → List (Char × Text)
  | _, [] => []
  | number, tokens :: rest =>
    Ansi.styled Shade.standard.style
        (' ' :: lineNumber number ++ lineMarker active number (textOf tokens)) ++
      coloredTokens isType useColor tokens ++ Ansi.styled Shade.standard.style ['\n'] ++
      coloredLines active (number + 1) rest

end Colors

variable {typesEnv : TypesEnv} {useColor : Bool} {eggs : Eggs}

/-- A text that begins and ends without a color. -/
abbrev RendersPlain (text : Text) (shown : List (Char × Text)) : Prop :=
  Ansi.Renders text Shade.standard.style shown Shade.standard.style

theorem defColor_renders {color : String} (h : 'm' ∉ '[' :: color.toList) :
    Ansi.Renders (defColor color) Shade.standard.style [] ('[' :: color.toList) := .sequence h

/-- Before a word its color is set. -/
theorem pickBeforeColor_renders (token : Token) :
    Ansi.Renders (pickBeforeColor typesEnv token) Shade.standard.style []
      (tokenShade (isTypeInEnv typesEnv) token).style := by
  obtain ⟨tag, text⟩ := token
  unfold pickBeforeColor tokenShade
  cases tag with
  | keyword => exact defColor_renders (by decide)
  | preprocDirective => exact defColor_renders (by decide)
  | operator => exact defColor_renders (by decide)
  | primType => exact defColor_renders (by decide)
  | literal => exact defColor_renders (by decide)
  | constant => exact defColor_renders (by decide)
  | comment => exact defColor_renders (by decide)
  | commentText => exact defColor_renders (by decide)
  | uncomment => exact defColor_renders (by decide)
  | trailingUncomment => exact defColor_renders (by decide)
  | identifier =>
      dsimp only
      cases isTypeInEnv typesEnv text with
      | true => exact defColor_renders (by decide)
      | false => exact .nil _
  | _ => exact .nil _

/-- A word is shown in its color, and the color is gone after it. -/
theorem formatToken_renders {token : Token} (h : Ansi.escape ∉ token.text) :
    RendersPlain (formatToken typesEnv useColor token) (Ansi.styled
      (shadeShown (isTypeInEnv typesEnv) useColor token).style token.text) := by
  unfold formatToken beforeColor afterColor shadeShown
  cases useColor with
  | false =>
      show RendersPlain (token.text ++ []) _
      rw [List.append_nil]
      exact .plain h
  | true =>
      have hreset : ∀ style, Ansi.Renders noColor style [] Shade.standard.style :=
        fun _ => .sequence (by decide)
      have hcolor : Ansi.Renders (pickBeforeColor typesEnv token) _ _ _ :=
        pickBeforeColor_renders token
      have hword := (hcolor.append (.plain h)).append (hreset _)
      rwa [List.nil_append, List.append_nil] at hword

theorem formatTokens_renders {tokens : List Token} (h : Ansi.escape ∉ textOf tokens) :
    RendersPlain (formatTokens typesEnv useColor tokens)
      (coloredTokens (isTypeInEnv typesEnv) useColor tokens) := by
  induction tokens with
  | nil => exact .nil _
  | cons token tokens ih =>
      rw [textOf_cons, List.mem_append, not_or] at h
      exact (formatToken_renders h.1).append (ih h.2)

/-- Neither the number of a line nor the marker behind it has a color. -/
theorem formatLineno_renders (documented : eggs.Documented) (tokens : List Token)
    (first active : Nat) :
    RendersPlain (formatLineno eggs first active tokens 0) (Ansi.styled Shade.standard.style
      (' ' :: lineNumber first ++ lineMarker active first (textOf tokens))) := by
  have hlabel : formatLineno eggs first active tokens 0 =
      ' ' :: lineNumber first ++ lineMarker active first (textOf tokens) := by
    unfold formatLineno highlightActiveLineno lineMarker
    dsimp only
    rw [Int.natCast_zero, Int.zero_add, documented.format4d]
    simp only [visibleContent_eq, Int.natCast_inj]
  rw [hlabel]
  refine .plain ?_
  rw [List.cons_append, List.mem_cons, List.mem_append, not_or, not_or]
  exact ⟨by decide, escape_not_mem_lineNumber _, escape_not_mem_lineMarker _ _ _⟩

/-- Each line has its number, and its words have their colors. -/
theorem colorTokens_renders (documented : eggs.Documented) {tokenLines : List (List Token)}
    (h : ∀ tokens ∈ tokenLines, Ansi.escape ∉ textOf tokens) (active first : Nat) :
    RendersPlain (colorTokens eggs tokenLines typesEnv first active useColor)
      (coloredLines (isTypeInEnv typesEnv) useColor active first tokenLines) := by
  induction tokenLines generalizing first with
  | nil =>
      unfold colorTokens
      rw [documented.mapIndexed]
      exact .nil _
  | cons tokens tokenLines ih =>
      rw [colorTokens_cons documented]
      have htokens : RendersPlain (formatTokens typesEnv useColor tokens) _ :=
        formatTokens_renders (h tokens List.mem_cons_self)
      exact (((formatLineno_renders documented tokens first active).append htokens).append
        (.plain (by decide))).append
          (ih (fun tokens hmem => h tokens (List.mem_cons_of_mem _ hmem)) (first + 1))

/-! ### Any file, at any time -/

theorem escape_not_mem_line {content : Text} {lines : List Text} (h : HasLines content lines)
    (hescape : Ansi.escape ∉ content) : ∀ line ∈ lines, Ansi.escape ∉ line := by
  have hunlines : ∀ lines : List Text, Ansi.escape ∉ unlines lines →
      ∀ line ∈ lines, Ansi.escape ∉ line := by
    intro lines hnot line hline hmem
    exact hnot (List.mem_flatten.mpr ⟨_, List.mem_map_of_mem hline, List.mem_append_left _ hmem⟩)
  rcases h.joined with rfl | ⟨front, last, rfl, _, rfl⟩
  · exact hunlines lines hescape
  · rw [List.mem_append, not_or] at hescape
    intro line hline
    rcases List.mem_append.mp hline with hline | hline
    · exact hunlines front hescape.1 line hline
    · rw [List.mem_singleton.mp hline]
      exact hescape.2

/-- Lines of the file that follow each other are shown, the one that was asked for among them. -/
def ShowsLines (host : Host) (f : Text) (l c : Nat) (useColor : Bool) (text : Text) : Prop :=
  ∃ before shown after, tokensOf host f = before ++ shown ++ after ∧
    before.length = linesBefore l c ∧ l ≤ before.length + shown.length ∧
    -- A name is a type if a file that this one leads to declares it.
    ∃ isType : Text → Bool, (∀ name, isType name = true ↔
        ∃ g, Reaches (Includes host) f g ∧ Declares (tokensOf host g).flatten name) ∧
      Ansi.render none Shade.standard.style text =
        coloredLines isType useColor l (before.length + 1) shown

/-- Where no file leads back to itself, following the includes comes to an end. -/
theorem includes_end (hfinite : {f | (host.files f).isSome}.Finite) {f : Text}
    (hall : ∀ g, Reaches (Includes host) f g → HasNewline host g ∧ ¬ OnCycle (Includes host) g) :
    Ends (Includes host) f := by
  have hedges : {f | ∃ g, Includes host f g}.Finite := by
    refine hfinite.subset fun f' ⟨g, hg⟩ => ?_
    by_contra hmissing
    rw [Includes, includesOf_missing (Option.not_isSome_iff_eq_none.mp hmissing)] at hg
    exact List.not_mem_nil hg
  exact Graph.ends_of_not_onCycle hedges fun g hreach => (hall g hreach).2

/-! ### A type from a header -/

/-- A file, and a header with a type that is used in it. -/
def typedHost : Host := hostOf [("a.c", "#include \"b.h\"\nnode *n;\n"), ("b.h", "struct node;\n")]

theorem typedHost_searches : FindsRegexes typedHost.search :=
  fun r _ => searchLongest_findsLongest r

theorem typedHost_all {g : Text} (hreach : Reaches (Includes typedHost) "a.c".toList g) :
    HasNewline typedHost g ∧ ¬ OnCycle (Includes typedHost) g := by
  have hincludes : includesOf typedHost "a.c".toList = ["b.h".toList] := by decide +kernel
  have hnone : ∀ g, ¬ Includes typedHost "b.h".toList g := by
    have hlist : includesOf typedHost "b.h".toList = [] := by decide +kernel
    intro g hg
    rw [Includes, hlist] at hg
    exact List.not_mem_nil hg
  have hends : Ends (Includes typedHost) "a.c".toList := by
    refine Graph.ends_of_next fun g hg => ?_
    rw [Includes, hincludes] at hg
    rw [List.mem_singleton.mp hg]
    exact Graph.ends_of_next fun g' hg' => absurd hg' (hnone g')
  refine ⟨?_, (hends.reaches hreach).not_onCycle⟩
  rcases Relation.ReflTransGen.cases_head hreach with rfl | ⟨h, hh, hreach⟩
  · intro content hcontent
    obtain rfl := Option.some.inj hcontent
    decide
  · rw [Includes, hincludes] at hh
    rw [List.mem_singleton.mp hh] at hreach
    rcases Relation.ReflTransGen.cases_head hreach with rfl | ⟨h', hh', _⟩
    · intro content hcontent
      obtain rfl := Option.some.inj hcontent
      decide
    · exact absurd hh' (hnone h')

/-! ### Requests -/

/--
**A file is shown as it is, whenever it is printed.**  If no file that it leads to leads back to
itself, and each of them has a newline if it is there, then a line of the file is printed with
the lines around it, each word in the color it has in the file: whatever has been printed
before, the text is the same.
-/
theorem printSource_shows (hsearch : FindsRegexes host.search)
    (hlisted : ∀ keys, (host.listed keys).Perm keys) (documented : eggs.Documented)
    (hfinite : {f | (host.files f).isSome}.Finite) {f content : Text}
    (hfile : host.files f = some content) (hescape : Ansi.escape ∉ content)
    (hall : ∀ g, Reaches (Includes host) f g → HasNewline host g ∧ ¬ OnCycle (Includes host) g) :
    ∃ lines, HasLines content lines ∧ (tokensOf host f).map textOf = lines ∧
      ∀ l c useColor, 0 < l → l ≤ lines.length → ∃ text, ShowsLines host f l c useColor text ∧
        ∃ n, ∀ fuel ≥ n, ∀ s, LoaderState host s → ∃ s',
          printSource host eggs fuel f l c useColor s = some (.ok text, s') ∧
            LoaderState host s' := by
  obtain ⟨lines, hlines, hcontent⟩ := fileToList_newline hfile ((hall f .refl).1 content hfile)
  obtain ⟨tokenLines, hread, -, htexts⟩ := readTokens_lines hsearch hlines hcontent.free
  have htokens : tokensOf host f = tokenLines := by
    unfold tokensOf
    rw [hread]
  rw [← htokens] at htexts
  have hends := includes_end hfinite hall
  obtain ⟨n, hload⟩ := loadSourceFile_ok hsearch hends fun g hreach => (hall g hreach).1
  -- The dependencies are those found when the file is the first one to be printed.
  obtain ⟨sf₀, t₀, hload₀⟩ := hload n (Nat.le_refl n) ⟨fun _ => none, []⟩
  have ht₀ : LoaderState host t₀ := .load .start hload₀
  have hsf₀ := ((loadSourceFile_spec hsearch n (LoaderState.start.entries hsearch) hload₀).2
    sf₀ rfl).2
  refine ⟨lines, hcontent, htexts, fun l c useColor hpos hl =>
    ⟨printedSource eggs (tokensOf host f) (typesOf host sf₀.deps) l c useColor, ?_, n,
      fun fuel hfuel s hs => ?_⟩⟩
  · have hlen : l ≤ (tokensOf host f).length := by
      rw [← htexts, List.length_map] at hl
      exact hl
    obtain ⟨before, after, hsplit, hbefore, -, hle⟩ := lineWindow_split documented hpos hlen c
    refine ⟨before, _, after, hsplit, hbefore, hle, isTypeInEnv (typesOf host sf₀.deps),
      isTypeInEnv_typesOf hsearch hlisted ht₀ hsf₀, ?_⟩
    have hplain : ∀ tokens ∈ lineWindow eggs (tokensOf host f) l c,
        Ansi.escape ∉ textOf tokens := by
      intro tokens hmem
      refine escape_not_mem_line hcontent hescape _ ?_
      rw [← htexts]
      refine List.mem_map_of_mem ?_
      rw [hsplit]
      exact List.mem_append_left _ (List.mem_append_right _ hmem)
    have hfirst : startLineno l c = (linesBefore l c + 1 : Nat) := startLineno_eq l c
    unfold printedSource
    rw [hfirst, hbefore]
    exact (colorTokens_renders documented hplain l _).render_eq
  · obtain ⟨sf, t, hrun⟩ := hload fuel hfuel s
    have ht : LoaderState host t := .load hs hrun
    have hsf := ((loadSourceFile_spec hsearch fuel (hs.entries hsearch) hrun).2 sf rfl).2
    have hsame := (ht.entries hsearch).deps_unique (ht₀.entries hsearch) hends hsf hsf₀
    rw [← hsame]
    exact printSource_of_load hsearch hlisted eggs hs hrun l c useColor

theorem printSource_shows_typed :
    ∃ lines, HasLines "#include \"b.h\"\nnode *n;\n".toList lines ∧
      (tokensOf typedHost "a.c".toList).map textOf = lines ∧
      ∀ l c useColor, 0 < l → l ≤ lines.length → ∃ text,
        ShowsLines typedHost "a.c".toList l c useColor text ∧
        ∃ n, ∀ fuel ≥ n, ∀ s, LoaderState typedHost s → ∃ s',
          printSource typedHost documentedEggs fuel "a.c".toList l c useColor s =
            some (.ok text, s') ∧ LoaderState typedHost s' :=
  printSource_shows typedHost_searches (fun keys => .refl keys) documentedEggs_documented
    (hostOf_finite _) rfl (by decide) fun _ => typedHost_all

/--
**What has been loaded makes no difference.**  If a request prints a text once, whatever was
printed before, then it prints the same text after anything else that was printed.
-/
theorem printSource_coherent (hsearch : FindsRegexes host.search)
    (hlisted : ∀ keys, (host.listed keys).Perm keys) {s t s' : Loader} (hs : LoaderState host s)
    (ht : LoaderState host t) {fuel l c : Nat} {f text : Text} {useColor : Bool}
    (hprint : printSource host eggs fuel f l c useColor s = some (.ok text, s')) :
    ∃ n, ∀ fuel' ≥ n, ∃ t',
      printSource host eggs fuel' f l c useColor t = some (.ok text, t') := by
  cases hload : loadSourceFile host fuel f s with
  | none =>
      unfold printSource at hprint
      rw [hload] at hprint
      cases hprint
  | some loaded =>
      obtain ⟨_ | sf, s₁⟩ := loaded
      · unfold printSource at hprint
        rw [hload] at hprint
        cases hprint
      · obtain ⟨_, hprint', -⟩ := printSource_of_load hsearch hlisted eggs hs hload l c useColor
        rw [hprint] at hprint'
        cases hprint'
        have hs₁ : LoaderState host s₁ := .load hs hload
        have hentries := hs₁.entries hsearch
        have hsf := ((loadSourceFile_spec hsearch fuel (hs.entries hsearch) hload).2 sf rfl).2
        have hends := (hentries f sf hsf).ends
        obtain ⟨n, hn⟩ := loadSourceFile_ok hsearch hends fun g hreach => by
          obtain ⟨sf', hsf'⟩ := hentries.reaches hsf hreach
          exact (hentries g sf' hsf').newline
        refine ⟨n, fun fuel' hfuel => ?_⟩
        obtain ⟨sf', t₁, hrun⟩ := hn fuel' hfuel t
        have ht₁ : LoaderState host t₁ := .load ht hrun
        have hsf' := ((loadSourceFile_spec hsearch fuel' (ht.entries hsearch) hrun).2 sf' rfl).2
        obtain ⟨t', ht', -⟩ := printSource_of_load hsearch hlisted eggs ht hrun l c useColor
        rw [hentries.deps_unique (ht₁.entries hsearch) hends hsf hsf']
        exact ⟨t', ht'⟩

/-- The same request twice. -/
theorem printSource_coherent_twice : ∃ fuel text s',
    printSource typedHost documentedEggs fuel "a.c".toList 2 1 true ⟨fun _ => none, []⟩ =
        some (.ok text, s') ∧
      ∃ n, ∀ fuel' ≥ n, ∃ t',
        printSource typedHost documentedEggs fuel' "a.c".toList 2 1 true s' =
          some (.ok text, t') := by
  obtain ⟨n, hload⟩ := loadSourceFile_ok typedHost_searches
    (includes_end (hostOf_finite _) fun _ => typedHost_all) fun _ hreach => (typedHost_all hreach).1
  obtain ⟨sf, t, hrun⟩ := hload n (Nat.le_refl n) ⟨fun _ => none, []⟩
  obtain ⟨s', hprint, hs'⟩ := printSource_of_load typedHost_searches
    (fun keys => .refl keys) documentedEggs .start hrun 2 1 true
  exact ⟨n, _, s', hprint, printSource_coherent typedHost_searches (fun keys => .refl keys)
    .start hs' hprint⟩

end Spray
