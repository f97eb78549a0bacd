/-
The types a file sees.

The dependencies of a source file are a tree in which one file may be at many places.  The walk
goes below the first of them only, but whatever the walk has visited, the files it includes have
been visited as well (`Flattened`), and so have all files that are in the tree.
-/
import Spray.Proofs.SourceFiles

namespace Spray

open Spray.Graph (Reaches)

/-! ### Dependency trees -/

/-- A tree is right below another. -/
abbrev Deps.Includes (deps dep : Deps) : Prop := dep ∈ deps.includes

/-- A file is somewhere in a tree. -/
def Deps.Has (deps : Deps) (f : Text) : Prop := ∃ dep, Reaches Deps.Includes deps dep ∧ dep.file = f

/-- Wherever a file is in a tree, it includes the same files. -/
def Deps.Consistent (deps : Deps) : Prop :=
  ∀ dep dep', Reaches Deps.Includes deps dep → Reaches Deps.Includes deps dep' →
    dep.file = dep'.file → dep.includes.map Deps.file = dep'.includes.map Deps.file

/-- A walk through some trees: what it visits, it visits with all that is included. -/
structure Flattened (walked : Deps → Prop) (before after : List Text) : Prop where
  kept : ∀ f ∈ before, f ∈ after
  nodup : before.Nodup → after.Nodup
  closed : ∀ f ∈ after, f ∈ before ∨
    ∃ dep, walked dep ∧ dep.file = f ∧ ∀ d ∈ dep.includes, d.file ∈ after

theorem Flattened.refl (walked : Deps → Prop) (flattened : List Text) :
    Flattened walked flattened flattened :=
  ⟨fun _ h => h, fun h => h, fun _ h => Or.inl h⟩

/-- One walk after the other. -/
theorem Flattened.trans {walked walked' walked'' : Deps → Prop} {r s t : List Text}
    (hrs : Flattened walked r s) (hst : Flattened walked' s t) (h : ∀ d, walked d → walked'' d)
    (h' : ∀ d, walked' d → walked'' d) : Flattened walked'' r t where
  kept f hf := hst.kept f (hrs.kept f hf)
  nodup hr := hst.nodup (hrs.nodup hr)
  closed f hf := by
    rcases hst.closed f hf with hf | ⟨dep, hdep, hfile, hincludes⟩
    · rcases hrs.closed f hf with hf | ⟨dep, hdep, hfile, hincludes⟩
      · exact Or.inl hf
      · exact Or.inr ⟨dep, h dep hdep, hfile, fun d hd => hst.kept _ (hincludes d hd)⟩
    · exact Or.inr ⟨dep, h' dep hdep, hfile, hincludes⟩

mutual

theorem flattenDeps_spec (flattened : List Text) : ∀ deps : Deps,
    Flattened (Reaches Deps.Includes deps) flattened (flattenDeps flattened deps) ∧
      deps.file ∈ flattenDeps flattened deps
  | .mk file includes => by
      unfold flattenDeps
      by_cases hvisited : file ∈ flattened
      · rw [if_pos hvisited]
        exact ⟨.refl _ _, hvisited⟩
      · rw [if_neg hvisited]
        obtain ⟨hwalk, hall⟩ := flattenIncludes_spec (file :: flattened) includes
        have hfile := hwalk.kept file List.mem_cons_self
        refine ⟨⟨fun f hf => hwalk.kept f (List.mem_cons_of_mem file hf), fun hnodup =>
          hwalk.nodup (List.nodup_cons.mpr ⟨hvisited, hnodup⟩), fun f hf => ?_⟩, hfile⟩
        rcases hwalk.closed f hf with hf | ⟨dep, ⟨d, hd, hreach⟩, hrest⟩
        · rcases List.mem_cons.mp hf with rfl | hf
          · exact Or.inr ⟨.mk f includes, .refl, rfl, hall⟩
          · exact Or.inl hf
        · exact Or.inr ⟨dep, .head hd hreach, hrest⟩

theorem flattenIncludes_spec (flattened : List Text) : ∀ deps : List Deps,
    Flattened (fun dep => ∃ d ∈ deps, Reaches Deps.Includes d dep) flattened
        (flattenIncludes flattened deps) ∧
      ∀ dep ∈ deps, dep.file ∈ flattenIncludes flattened deps
  | [] => by
      rw [flattenIncludes]
      exact ⟨.refl _ _, fun _ hdep => absurd hdep List.not_mem_nil⟩
  | dep :: deps => by
      rw [flattenIncludes]
      obtain ⟨hfirst, hfile⟩ := flattenDeps_spec flattened dep
      obtain ⟨hrest, hall⟩ := flattenIncludes_spec (flattenDeps flattened dep) deps
      refine ⟨hfirst.trans hrest (fun d hd => ⟨dep, List.mem_cons_self, hd⟩) ?_, ?_⟩
      · exact fun d ⟨d', hd', hreach⟩ => ⟨d', List.mem_cons_of_mem dep hd', hreach⟩
      · intro d hd
        rcases List.mem_cons.mp hd with rfl | hd
        · exact hrest.kept _ hfile
        · exact hall d hd

end

/-- The walk visits exactly the files of a tree. -/
theorem mem_flattenDeps_iff {deps : Deps} (h : deps.Consistent) (f : Text) :
    f ∈ flattenDeps [] deps ↔ deps.Has f := by
  obtain ⟨hwalk, hroot⟩ := flattenDeps_spec [] deps
  constructor
  · intro hf
    rcases hwalk.closed f hf with hf | ⟨dep, hdep, hfile, _⟩
    · exact absurd hf List.not_mem_nil
    · exact ⟨dep, hdep, hfile⟩
  · rintro ⟨dep, hreach, rfl⟩
    induction hreach with
    | refl => exact hroot
    | @tail dep d hdep hd ih =>
        rcases hwalk.closed _ ih with hf | ⟨dep', hdep', hfile, hincludes⟩
        · exact absurd hf List.not_mem_nil
        · -- The walk has been at the same file, perhaps at another place.
          have hmem : d.file ∈ dep'.includes.map Deps.file := by
            rw [h dep' dep hdep' hdep hfile]
            exact List.mem_map_of_mem hd
          obtain ⟨d', hd', hsame⟩ := List.mem_map.mp hmem
          rw [← hsame]
          exact hincludes d' hd'

section Listed

variable {host : Host} (hlisted : ∀ keys, (host.listed keys).Perm keys)
include hlisted

theorem sfFlatDeps_nodup (sf : SourceFile) : (sfFlatDeps host sf).Nodup :=
  (hlisted _).nodup_iff.mpr ((flattenDeps_spec [] sf.deps).1.nodup List.nodup_nil)

theorem mem_sfFlatDeps_iff {sf : SourceFile} (h : sf.deps.Consistent) (f : Text) :
    f ∈ sfFlatDeps host sf ↔ sf.deps.Has f :=
  (hlisted _).mem_iff.trans (mem_flattenDeps_iff h f)

end Listed

/-! ### Declarations -/

/-- There is a keyword among the tokens behind which the name comes next. -/
def Declares (tokens : List Token) (name : Text) : Prop :=
  ∃ front keyword skipped back,
    tokens = front ++ keyword :: (skipped ++ ⟨.identifier, name⟩ :: back) ∧
    isTypeSpecKeyword keyword = true ∧
    ∀ token ∈ skipped, token.tag = .whitespace ∨ isTypeSpecKeyword token = true

/-- The name comes next. -/
def ComesNext (tokens : List Token) (name : Text) : Prop :=
  ∃ skipped back, tokens = skipped ++ ⟨.identifier, name⟩ :: back ∧
    ∀ token ∈ skipped, token.tag = .whitespace ∨ isTypeSpecKeyword token = true

theorem tag_of_isTypeSpecKeyword {token : Token} (h : isTypeSpecKeyword token = true) :
    token.tag = .keyword := by
  unfold isTypeSpecKeyword at h
  exact of_decide_eq_true (Bool.and_eq_true_iff.mp h).1

theorem comesNext_identifier {token : Token} {tokens : List Token} {name : Text}
    (htag : token.tag = .identifier) : ComesNext (token :: tokens) name ↔ name = token.text := by
  constructor
  · intro ⟨skipped, back, hsplit, hskipped⟩
    cases skipped with
    | nil =>
        obtain ⟨rfl, _⟩ := List.cons.inj hsplit
        rfl
    | cons first skipped =>
        obtain ⟨rfl, _⟩ := List.cons.inj hsplit
        rcases hskipped token List.mem_cons_self with hblank | hkeyword
        · rw [htag] at hblank
          cases hblank
        · rw [tag_of_isTypeSpecKeyword hkeyword] at htag
          cases htag
  · rintro rfl
    refine ⟨[], tokens, ?_, fun _ h => absurd h List.not_mem_nil⟩
    rw [← htag]
    rfl

theorem comesNext_skipped {token : Token} {tokens : List Token} {name : Text}
    (hskipped : token.tag = .whitespace ∨ isTypeSpecKeyword token = true) :
    ComesNext (token :: tokens) name ↔ ComesNext tokens name := by
  constructor
  · intro ⟨skipped, back, hsplit, hall⟩
    cases skipped with
    | nil =>
        obtain ⟨rfl, _⟩ := List.cons.inj hsplit
        rcases hskipped with hblank | hkeyword
        · cases hblank
        · cases tag_of_isTypeSpecKeyword hkeyword
    | cons first skipped =>
        obtain ⟨_, rfl⟩ := List.cons.inj hsplit
        exact ⟨skipped, back, rfl, fun t ht => hall t (List.mem_cons_of_mem first ht)⟩
  · rintro ⟨skipped, back, rfl, hall⟩
    refine ⟨token :: skipped, back, rfl, fun t ht => ?_⟩
    rcases List.mem_cons.mp ht with rfl | ht
    · exact hskipped
    · exact hall t ht

theorem mem_storeTypeSpec_iff (env : List Text) (tokens : List Token) (name : Text) :
    name ∈ storeTypeSpec env tokens ↔ name ∈ env ∨ ComesNext tokens name := by
  induction tokens with
  | nil =>
      have hno : ¬ ComesNext [] name := by
        rintro ⟨skipped, back, hsplit, _⟩
        cases skipped <;> cases hsplit
      rw [storeTypeSpec]
      exact ⟨Or.inl, fun h => h.resolve_right hno⟩
  | cons token tokens ih =>
      rw [storeTypeSpec]
      by_cases hidentifier : token.tag = .identifier
      · rw [if_pos hidentifier, comesNext_identifier hidentifier, List.mem_cons, or_comm]
      · rw [if_neg hidentifier]
        by_cases hskipped : token.tag = .whitespace ∨ isTypeSpecKeyword token = true
        · rw [comesNext_skipped hskipped, ← ih]
          by_cases hblank : token.tag = .whitespace
          · rw [if_pos hblank]
          · rw [if_neg hblank, if_pos (hskipped.resolve_left hblank)]
        · rw [if_neg fun h => hskipped (Or.inl h), if_neg fun h => hskipped (Or.inr h)]
          have hno : ¬ ComesNext (token :: tokens) name := by
            rintro ⟨skipped, back, hsplit, hall⟩
            cases skipped with
            | nil =>
                obtain ⟨rfl, _⟩ := List.cons.inj hsplit
                exact hidentifier rfl
            | cons first skipped =>
                obtain ⟨rfl, _⟩ := List.cons.inj hsplit
                exact hskipped (hall token List.mem_cons_self)
          exact ⟨Or.inl, fun h => h.resolve_right hno⟩

/-! ### Environments -/

theorem mem_filterKeywords_iff (keywordTokens : List (List Token)) (tokens part : List Token) :
    part ∈ filterKeywords keywordTokens tokens ↔ part ∈ keywordTokens ∨
      ∃ front token rest, tokens = front ++ token :: rest ∧ token.tag = .keyword ∧
        part = token :: rest := by
  induction tokens generalizing keywordTokens with
  | nil =>
      rw [filterKeywords]
      refine ⟨Or.inl, fun h => h.resolve_right ?_⟩
      rintro ⟨front, token, rest, hsplit, _⟩
      cases front <;> cases hsplit
  | cons token tokens ih =>
      rw [filterKeywords, ih]
      constructor
      · rintro (hmem | ⟨front, t, rest, rfl, htag, hpart⟩)
        · split at hmem
          · rename_i htag
            rcases List.mem_cons.mp hmem with rfl | hmem
            · exact Or.inr ⟨[], token, tokens, rfl, htag, rfl⟩
            · exact Or.inl hmem
          · exact Or.inl hmem
        · exact Or.inr ⟨token :: front, t, rest, rfl, htag, hpart⟩
      · rintro (hmem | ⟨front, t, rest, hsplit, htag, rfl⟩)
        · refine Or.inl ?_
          split
          · exact List.mem_cons_of_mem _ hmem
          · exact hmem
        · cases front with
          | nil =>
              obtain ⟨rfl, rfl⟩ := List.cons.inj hsplit
              rw [if_pos htag]
              exact Or.inl List.mem_cons_self
          | cons first front =>
              obtain ⟨rfl, rfl⟩ := List.cons.inj hsplit
              exact Or.inr ⟨front, t, rest, rfl, htag, rfl⟩

/-- What one part adds. -/
theorem mem_extendWith_iff (env : List Text) (part : List Token) (name : Text) :
    name ∈ extendWith env part ↔ name ∈ env ∨
      ∃ token rest, part = token :: rest ∧ isTypeSpecKeyword token = true ∧
        ComesNext rest name := by
  cases part with
  | nil =>
      rw [extendWith]
      exact ⟨Or.inl, fun h => h.resolve_right fun ⟨_, _, hpart, _⟩ => by cases hpart⟩
  | cons token rest =>
      rw [extendWith]
      by_cases hkeyword : isTypeSpecKeyword token = true
      · rw [if_pos hkeyword, mem_storeTypeSpec_iff, comesNext_skipped (Or.inr hkeyword)]
        refine or_congr_right ⟨fun h => ⟨token, rest, rfl, hkeyword, h⟩, ?_⟩
        rintro ⟨token', rest', hpart, _, h⟩
        obtain ⟨_, rfl⟩ := List.cons.inj hpart
        exact h
      · rw [if_neg hkeyword, storeTypedef, ite_self]
        refine ⟨Or.inl, fun h => h.resolve_right ?_⟩
        rintro ⟨token', rest', hpart, hkeyword', _⟩
        obtain ⟨rfl, _⟩ := List.cons.inj hpart
        exact hkeyword hkeyword'

/-- What a fold adds, one element at a time. -/
theorem mem_foldl_iff {α β : Type} {f : List β → α → List β} {adds : α → β → Prop}
    (hf : ∀ env a b, b ∈ f env a ↔ b ∈ env ∨ adds a b) (as : List α) (env : List β) (b : β) :
    b ∈ as.foldl f env ↔ b ∈ env ∨ ∃ a ∈ as, adds a b := by
  induction as generalizing env with
  | nil => simp
  | cons a as ih =>
      rw [List.foldl_cons, ih, hf]
      simp only [List.mem_cons, exists_eq_or_imp, or_assoc]

theorem mem_extendTypesEnv_iff (env : List Text) (tokenLines : List (List Token)) (name : Text) :
    name ∈ extendTypesEnv env tokenLines ↔ name ∈ env ∨ Declares tokenLines.flatten name := by
  rw [extendTypesEnv, mem_foldl_iff mem_extendWith_iff]
  refine or_congr_right ⟨?_, ?_⟩
  · rintro ⟨part, hpart, token, rest, rfl, hkeyword, skipped, back, rfl, hskipped⟩
    rcases (mem_filterKeywords_iff ..).mp hpart with hpart | ⟨front, t, r, hsplit, _, heq⟩
    · exact absurd hpart List.not_mem_nil
    · obtain ⟨rfl, rfl⟩ := List.cons.inj heq
      exact ⟨front, token, skipped, back, hsplit, hkeyword, hskipped⟩
  · rintro ⟨front, keyword, skipped, back, hsplit, hkeyword, hskipped⟩
    exact ⟨_, (mem_filterKeywords_iff ..).mpr
      (Or.inr ⟨front, keyword, _, hsplit, tag_of_isTypeSpecKeyword hkeyword, rfl⟩),
      keyword, _, rfl, hkeyword, skipped, back, rfl, hskipped⟩

theorem isTypeInEnv_makeTypesEnv (tokenLines : List (List Token))
    (tokenLinesLst : List (List (List Token))) (name : Text) :
    isTypeInEnv (makeTypesEnv tokenLines tokenLinesLst) name = true ↔
      ∃ lines ∈ tokenLines :: tokenLinesLst, Declares lines.flatten name := by
  have hmem : isTypeInEnv (makeTypesEnv tokenLines tokenLinesLst) name = true ↔
      name ∈ tokenLinesLst.foldl extendTypesEnv (extendTypesEnv [] tokenLines) := by
    simp [isTypeInEnv, makeTypesEnv]
  rw [hmem, mem_foldl_iff mem_extendTypesEnv_iff, mem_extendTypesEnv_iff]
  simp

/-! ### The environment of a source file -/

section Environment

variable {host : Host}

theorem tokenLinesOf_ok {table : SourceFiles} {deps : List Text}
    (h : ∀ dep ∈ deps, ∃ sf, table dep = some sf) :
    ∃ lst, tokenLinesOf table deps = .ok lst ∧ lst.length = deps.length := by
  induction deps with
  | nil => exact ⟨[], rfl, rfl⟩
  | cons dep deps ih =>
      obtain ⟨sf, hsf⟩ := h dep List.mem_cons_self
      obtain ⟨lst, hlst, hlength⟩ := ih fun d hd => h d (List.mem_cons_of_mem dep hd)
      refine ⟨sf.tokenLines :: lst, ?_, congrArg (· + 1) hlength⟩
      rw [tokenLinesOf, hsf]
      dsimp only
      rw [hlst]
      rfl

theorem mem_tokenLinesOf {table : SourceFiles} {deps : List Text}
    {lst : List (List (List Token))} (h : tokenLinesOf table deps = .ok lst)
    (lines : List (List Token)) :
    lines ∈ lst ↔ ∃ dep ∈ deps, ∃ sf, table dep = some sf ∧ sf.tokenLines = lines := by
  induction deps generalizing lst with
  | nil =>
      cases h
      simp
  | cons dep deps ih =>
      rw [tokenLinesOf] at h
      split at h
      · cases h
      · rename_i sf hsf
        cases hrest : tokenLinesOf table deps with
        | error e =>
            rw [hrest] at h
            cases h
        | ok rest =>
            rw [hrest] at h
            cases h
            have hfirst : (∃ sf', table dep = some sf' ∧ sf'.tokenLines = lines) ↔
                lines = sf.tokenLines := by
              rw [hsf]
              constructor
              · rintro ⟨sf', hsf', rfl⟩
                rw [Option.some.inj hsf']
              · rintro rfl
                exact ⟨sf, rfl, rfl⟩
            rw [List.mem_cons, ih hrest]
            simp only [List.mem_cons, exists_eq_or_imp, hfirst]

/-- Where all these files have kept their tokens, they are found again. -/
theorem tokenLinesOf_kept {table table' : SourceFiles}
    (hkept : ∀ f sf, table f = some sf →
      ∃ sf', table' f = some sf' ∧ sf'.tokenLines = sf.tokenLines) {deps : List Text}
    {lst : List (List (List Token))} (h : tokenLinesOf table deps = .ok lst) :
    tokenLinesOf table' deps = .ok lst := by
  induction deps generalizing lst with
  | nil => exact h
  | cons dep deps ih =>
      rw [tokenLinesOf] at h
      split at h
      · cases h
      · rename_i sf hsf
        obtain ⟨sf', hsf', hsame⟩ := hkept dep sf hsf
        cases hrest : tokenLinesOf table deps with
        | error e =>
            rw [hrest] at h
            cases h
        | ok rest =>
            rw [hrest] at h
            rw [tokenLinesOf, hsf']
            dsimp only
            rw [ih hrest, hsame]
            exact h

/-- If a source file has an environment, it was made of the files it depends on. -/
def Made (host : Host) (table : SourceFiles) (sf : SourceFile) : Prop :=
  sf.typesEnv = none ∨ ∃ tokenLines tokenLinesLst,
    sfDepsToTokenLinesLst host table sf = .ok (tokenLines :: tokenLinesLst) ∧
    sf.typesEnv = makeTypesEnv tokenLines tokenLinesLst

/-- A source file, where all files of its dependency tree are loaded. -/
structure LoadedTree (host : Host) (table : SourceFiles) (sf : SourceFile) : Prop where
  consistent : sf.deps.Consistent
  loaded : ∀ f, sf.deps.Has f → ∃ sf', table f = some sf'
  /-- The entry for the file itself has the same dependencies. -/
  self : ∀ sf', table (sfName sf) = some sf' → sf'.deps = sf.deps
  made : Made host table sf

/-- What the environment has to tell. -/
def SeesIncludes (table : SourceFiles) (sf : SourceFile) (env : TypesEnv) : Prop :=
  ∀ name, isTypeInEnv env name = true ↔
    ∃ f, sf.deps.Has f ∧ ∃ sf', table f = some sf' ∧ Declares sf'.tokenLines.flatten name

variable (hlisted : ∀ keys, (host.listed keys).Perm keys)
include hlisted

theorem makeTypesEnv_sees {table : SourceFiles} {sf : SourceFile} (h : sf.deps.Consistent)
    {tokenLines : List (List Token)} {tokenLinesLst : List (List (List Token))}
    (hlst : sfDepsToTokenLinesLst host table sf = .ok (tokenLines :: tokenLinesLst)) :
    SeesIncludes table sf (makeTypesEnv tokenLines tokenLinesLst) := by
  intro name
  rw [isTypeInEnv_makeTypesEnv]
  constructor
  · rintro ⟨lines, hlines, hdeclares⟩
    obtain ⟨f, hf, sf', hsf', rfl⟩ := (mem_tokenLinesOf hlst lines).mp hlines
    exact ⟨f, (mem_sfFlatDeps_iff hlisted h f).mp hf, sf', hsf', hdeclares⟩
  · rintro ⟨f, hf, sf', hsf', hdeclares⟩
    exact ⟨sf'.tokenLines, (mem_tokenLinesOf hlst _).mpr
      ⟨f, (mem_sfFlatDeps_iff hlisted h f).mpr hf, sf', hsf', rfl⟩, hdeclares⟩

/-- The token lines of all files are there. -/
theorem sfDepsToTokenLinesLst_ok {table : SourceFiles} {sf : SourceFile}
    (h : LoadedTree host table sf) : ∃ tokenLines tokenLinesLst,
      sfDepsToTokenLinesLst host table sf = .ok (tokenLines :: tokenLinesLst) := by
  obtain ⟨lst, hlst, hlength⟩ := tokenLinesOf_ok fun f hf =>
    h.loaded f ((mem_sfFlatDeps_iff hlisted h.consistent f).mp hf)
  cases lst with
  | cons tokenLines tokenLinesLst => exact ⟨tokenLines, tokenLinesLst, hlst⟩
  | nil =>
      -- The file itself is one of them.
      have hroot := (mem_sfFlatDeps_iff hlisted h.consistent sf.deps.file).mpr ⟨_, .refl, rfl⟩
      rw [List.eq_nil_of_length_eq_zero hlength.symm] at hroot
      exact absurd hroot List.not_mem_nil

/-- **The dependencies of a file are the files of its tree, each of them once, and its
environment has exactly the types that one of them declares.** -/
theorem sfTypesEnv_seesIncludes {table : SourceFiles} {sf : SourceFile}
    (h : LoadedTree host table sf) :
    ((sfFlatDeps host sf).Nodup ∧ ∀ f, f ∈ sfFlatDeps host sf ↔ sf.deps.Has f) ∧
      ∃ env table', sfTypesEnv host table sf = .ok (env, table') ∧ SeesIncludes table sf env := by
  refine ⟨⟨sfFlatDeps_nodup hlisted sf, mem_sfFlatDeps_iff hlisted h.consistent⟩, ?_⟩
  unfold sfTypesEnv
  cases henv : sf.typesEnv with
  | some env =>
      refine ⟨some env, table, rfl, ?_⟩
      rcases h.made with hnone | ⟨tokenLines, tokenLinesLst, hlst, hmade⟩
      · rw [henv] at hnone
        cases hnone
      · rw [← henv, hmade]
        exact makeTypesEnv_sees hlisted h.consistent hlst
  | none =>
      obtain ⟨sf', hsf'⟩ := h.loaded (sfName sf) ⟨_, .refl, rfl⟩
      obtain ⟨tokenLines, tokenLinesLst, hlst⟩ := sfDepsToTokenLinesLst_ok hlisted h
      have hsame : sfDepsToTokenLinesLst host table sf' = .ok (tokenLines :: tokenLinesLst) := by
        rw [← hlst]
        unfold sfDepsToTokenLinesLst sfFlatDeps
        rw [h.self sf' hsf']
      dsimp only
      rw [hsf']
      dsimp only
      rw [hsame]
      exact ⟨_, _, rfl, makeTypesEnv_sees hlisted h.consistent hlst⟩

end Environment

/-! ### A header that is included twice -/

/-- The tree of a file that includes a header twice. -/
def twiceDeps : Deps := .mk "a.c".toList [.mk "b.h".toList [], .mk "b.h".toList []]

/-- The header declares a type. -/
def twiceTable : SourceFiles := fun path =>
  if path = "a.c".toList then some { tokenLines := [], deps := twiceDeps, typesEnv := none }
  else if path = "b.h".toList then
    some { tokenLines := [[⟨.keyword, "struct".toList⟩, ⟨.whitespace, " ".toList⟩,
             ⟨.identifier, "x".toList⟩]]
           deps := .mk "b.h".toList [], typesEnv := none }
  else none

theorem twiceDeps_reaches {dep : Deps} (h : Reaches Deps.Includes twiceDeps dep) :
    dep = twiceDeps ∨ dep = .mk "b.h".toList [] := by
  induction h with
  | refl => exact Or.inl rfl
  | tail _ hd ih =>
      rcases ih with rfl | rfl
      · simp only [Deps.Includes, twiceDeps, Deps.includes, List.mem_cons, List.not_mem_nil,
          or_false, or_self] at hd
        exact Or.inr hd
      · exact absurd hd List.not_mem_nil

theorem sfTypesEnv_seesIncludes_twice :
    let sf : SourceFile := { tokenLines := [], deps := twiceDeps, typesEnv := none }
    ((sfFlatDeps (hostOf []) sf).Nodup ∧ ∀ f, f ∈ sfFlatDeps (hostOf []) sf ↔ twiceDeps.Has f) ∧
      ∃ env table', sfTypesEnv (hostOf []) twiceTable sf = .ok (env, table') ∧
        SeesIncludes twiceTable sf env := by
  refine sfTypesEnv_seesIncludes (fun keys => .refl keys) ⟨?_, ?_, ?_, Or.inl rfl⟩
  · intro dep dep' hdep hdep' hsame
    rcases twiceDeps_reaches hdep with rfl | rfl
    · rcases twiceDeps_reaches hdep' with rfl | rfl
      · rfl
      · exact absurd hsame (by decide)
    · rcases twiceDeps_reaches hdep' with rfl | rfl
      · exact absurd hsame (by decide)
      · rfl
  · rintro f ⟨dep, hdep, rfl⟩
    rcases twiceDeps_reaches hdep with rfl | rfl
    · exact ⟨_, rfl⟩
    · exact ⟨_, rfl⟩
  · intro sf' hsf'
    obtain rfl := Option.some.inj hsf'
    rfl

/-! ### Loaded files -/

section Loaded

variable {host : Host}

/-- Everything in the tree of an entry is the tree of an entry. -/
theorem Entries.tree {table : SourceFiles} (h : Entries host table) {f : Text} {sf : SourceFile}
    (hf : table f = some sf) {dep : Deps} (hreach : Reaches Deps.Includes sf.deps dep) :
    ∃ sf', table dep.file = some sf' ∧ sf'.deps = dep := by
  induction hreach with
  | refl =>
      refine ⟨sf, ?_, rfl⟩
      rw [show sf.deps.file = f from (h f sf hf).file]
      exact hf
  | @tail dep d _ hd ih =>
      obtain ⟨sf', hsf', rfl⟩ := ih
      exact (h _ sf' hsf').entered d hd

/-- An environment that was made stays as it is while files keep their tokens. -/
theorem Made.kept {table table' : SourceFiles} {sf : SourceFile} (h : Made host table sf)
    (hkept : ∀ f sf, table f = some sf →
      ∃ sf', table' f = some sf' ∧ sf'.tokenLines = sf.tokenLines) : Made host table' sf := by
  rcases h with hnone | ⟨tokenLines, tokenLinesLst, hlst, hmade⟩
  · exact Or.inl hnone
  · exact Or.inr ⟨tokenLines, tokenLinesLst, tokenLinesOf_kept hkept hlst, hmade⟩

theorem LoaderState.made (hsearch : FindsRegexes host.search) {s : Loader}
    (h : LoaderState host s) : ∀ f sf, s.table f = some sf → Made host s.table sf := by
  induction h with
  | start =>
      intro f sf hf
      cases hf
  | @load s s' fuel f r before run ih =>
      intro g sf hg
      have hkept := (loadSourceFile_spec hsearch fuel (before.entries hsearch) run).1
      rcases hkept.fresh g sf hg with hold | hnone
      · exact (ih g sf hold).kept fun f sf hf => ⟨sf, hkept.kept f sf hf, rfl⟩
      · exact Or.inl hnone
  | @types s f sf env table before loaded run ih =>
      rcases sfTypesEnv_update run with
        rfl | ⟨sf', tokenLines, tokenLinesLst, hsf', hlst, henv, rfl⟩
      · exact ih
      · have htokens : ∀ g sf'', s.table g = some sf'' →
            ∃ sf₃, hashTableInsert s.table (sfName sf) { sf' with typesEnv := env } g =
              some sf₃ ∧ sf₃.tokenLines = sf''.tokenLines := by
          intro g sf'' hg
          by_cases hgf : g = sfName sf
          · rw [hgf, hsf'] at hg
            cases hg
            rw [hgf]
            exact ⟨_, hashTableInsert_self .., rfl⟩
          · exact ⟨sf'', (hashTableInsert_ne _ hgf).trans hg, rfl⟩
        intro g sf'' hg
        by_cases hgf : g = sfName sf
        · obtain rfl : { sf' with typesEnv := env } = sf'' := by
            rw [hgf] at hg
            exact Option.some.inj ((hashTableInsert_self ..).symm.trans hg)
          exact Or.inr ⟨tokenLines, tokenLinesLst, tokenLinesOf_kept htokens hlst, henv⟩
        · have hold : s.table g = some sf'' := (hashTableInsert_ne _ hgf).symm.trans hg
          exact (ih g sf'' hold).kept htokens

/-- Whatever has been loaded before, the trees of the files in the table are loaded. -/
theorem LoaderState.loadedTree (hsearch : FindsRegexes host.search) {s : Loader}
    (h : LoaderState host s) {f : Text} {sf : SourceFile} (hf : s.table f = some sf) :
    LoadedTree host s.table sf where
  consistent := by
    intro dep dep' hdep hdep' hsame
    obtain ⟨sf', hsf', rfl⟩ := (h.entries hsearch).tree hf hdep
    obtain ⟨sf'', hsf'', rfl⟩ := (h.entries hsearch).tree hf hdep'
    rw [hsame, hsf''] at hsf'
    rw [Option.some.inj hsf']
  loaded := by
    rintro g ⟨dep, hdep, rfl⟩
    obtain ⟨sf', hsf', _⟩ := (h.entries hsearch).tree hf hdep
    exact ⟨sf', hsf'⟩
  self := by
    intro sf' hsf'
    have hfile : sfName sf = f := ((h.entries hsearch) f sf hf).file
    rw [hfile, hf] at hsf'
    rw [Option.some.inj hsf']
  made := h.made hsearch f sf hf

end Loaded

end Spray
