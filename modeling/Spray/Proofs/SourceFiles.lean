/-
Loading a file and all that it includes.

A file is entered in the table once the files it includes have been (`Entry`), so all that is
ever in the table can be read, and following the includes from it comes to an end.  The other
way round the induction is on the includes that are followed: if they come to an end, and the
files can be read, each of them is loaded in turn.
-/
import Spray.Lib.Graph
import Spray.Proofs.Includes

namespace Spray

open Spray.Graph (Reaches OnCycle Ends)

variable {host : Host}

/-! ### What is in the table -/

/-- A source file is in its place in the table, and so are the files it includes. -/
structure Entry (host : Host) (table : SourceFiles) (f : Text) (sf : SourceFile) : Prop where
  newline : HasNewline host f
  tokens : readTokens host f = some (.ok sf.tokenLines)
  file : sfName sf = f
  includes : sf.deps.includes.map Deps.file = (includesOf host f).reverse
  entered : ∀ dep ∈ sf.deps.includes, ∃ sf', table dep.file = some sf' ∧ sf'.deps = dep
  ends : Ends (Includes host) f

/-- All entries of a table are like that. -/
def Entries (host : Host) (table : SourceFiles) : Prop :=
  ∀ f sf, table f = some sf → Entry host table f sf

/-- What loading does in any case: no entry is lost, and new ones have no environment yet. -/
structure Kept (host : Host) (s s' : Loader) : Prop where
  entries : Entries host s'.table
  kept : ∀ f sf, s.table f = some sf → s'.table f = some sf
  fresh : ∀ f sf, s'.table f = some sf → s.table f = some sf ∨ sf.typesEnv = none

theorem Kept.refl {s : Loader} (h : Entries host s.table) : Kept host s s :=
  ⟨h, fun _ _ h => h, fun _ _ h => Or.inl h⟩

theorem Kept.trans {s t u : Loader} (hst : Kept host s t) (htu : Kept host t u) :
    Kept host s u where
  entries := htu.entries
  kept f sf h := htu.kept f sf (hst.kept f sf h)
  fresh f sf h := (htu.fresh f sf h).elim (hst.fresh f sf) Or.inr

/-- What loading some files does if it succeeds: the files that are read are those that are
entered. -/
structure Complete (host : Host) (starts : List Text) (s s' : Loader) : Prop where
  entered : ∀ f ∈ starts, ∃ sf, s'.table f = some sf
  record : ∃ new, s'.read = new ++ s.read ∧ new.Nodup ∧
    (∀ g, g ∈ new ↔ s.table g = none ∧ ∃ sf, s'.table g = some sf) ∧
    ∀ g ∈ new, ∃ f ∈ starts, Reaches (Includes host) f g

theorem Complete.nothing (s : Loader) : Complete host [] s s where
  entered f h := absurd h List.not_mem_nil
  record := by
    refine ⟨[], rfl, List.nodup_nil, fun g => ⟨fun h => absurd h List.not_mem_nil, ?_⟩,
      fun g h => absurd h List.not_mem_nil⟩
    intro ⟨hnone, sf, hsome⟩
    rw [hnone] at hsome
    cases hsome

theorem Complete.tabled {s : Loader} {f : Text} {sf : SourceFile} (h : s.table f = some sf) :
    Complete host [f] s s where
  entered g hg := by
    rw [List.mem_singleton.mp hg]
    exact ⟨sf, h⟩
  record := by
    obtain ⟨new, hread, hnodup, hnew, _⟩ := (Complete.nothing s : Complete host [] s s).record
    obtain rfl := List.append_cancel_right (hread.symm.trans (List.nil_append _).symm)
    exact ⟨[], rfl, hnodup, hnew, fun g hg => absurd hg List.not_mem_nil⟩

/-- One file after the other. -/
theorem Complete.cons {f : Text} {starts : List Text} {s t u : Loader}
    (hfirst : Complete host [f] s t) (hst : Kept host s t) (hrest : Complete host starts t u)
    (htu : Kept host t u) : Complete host (f :: starts) s u where
  entered g hg := by
    rcases List.mem_cons.mp hg with rfl | hg
    · obtain ⟨sf, hsf⟩ := hfirst.entered g (List.mem_singleton_self g)
      exact ⟨sf, htu.kept g sf hsf⟩
    · exact hrest.entered g hg
  record := by
    obtain ⟨new, hread, hnodup, hnew, hreached⟩ := hfirst.record
    obtain ⟨new', hread', hnodup', hnew', hreached'⟩ := hrest.record
    refine ⟨new' ++ new, by rw [hread', hread, List.append_assoc], ?_, ?_, ?_⟩
    · refine List.nodup_append.mpr ⟨hnodup', hnodup, ?_⟩
      rintro g hg g' hg' rfl
      obtain ⟨hnone, _⟩ := (hnew' g).mp hg
      obtain ⟨_, sf, hsome⟩ := (hnew g).mp hg'
      rw [hnone] at hsome
      cases hsome
    · intro g
      rw [List.mem_append, hnew', hnew]
      constructor
      · rintro (⟨hnone, hsome⟩ | ⟨hnone, sf, hsome⟩)
        · refine ⟨?_, hsome⟩
          cases hs : s.table g with
          | none => rfl
          | some sf =>
              rw [hst.kept g sf hs] at hnone
              cases hnone
        · exact ⟨hnone, sf, htu.kept g sf hsome⟩
      · rintro ⟨hnone, hsome⟩
        cases ht : t.table g with
        | none => exact Or.inl ⟨rfl, hsome⟩
        | some sf => exact Or.inr ⟨hnone, sf, rfl⟩
    · intro g hg
      rcases List.mem_append.mp hg with hg | hg
      · obtain ⟨f', hf', hreach⟩ := hreached' g hg
        exact ⟨f', List.mem_cons_of_mem f hf', hreach⟩
      · obtain ⟨f', hf', hreach⟩ := hreached g hg
        rw [List.mem_singleton.mp hf'] at hreach
        exact ⟨f, List.mem_cons_self, hreach⟩

/-- All files that an entry leads to are entered. -/
theorem Entries.reaches {table : SourceFiles} (h : Entries host table) {f g : Text}
    {sf : SourceFile} (hf : table f = some sf) (hreach : Reaches (Includes host) f g) :
    ∃ sf', table g = some sf' := by
  induction hreach with
  | refl => exact ⟨sf, hf⟩
  | @tail g g' _ hedge ih =>
      obtain ⟨sf', hg⟩ := ih
      have hentry := h g sf' hg
      have hmem : g' ∈ sf'.deps.includes.map Deps.file := by
        rw [hentry.includes]
        exact List.mem_reverse.mpr hedge
      obtain ⟨dep, hdep, rfl⟩ := List.mem_map.mp hmem
      obtain ⟨sf'', hsf'', _⟩ := hentry.entered dep hdep
      exact ⟨sf'', hsf''⟩

/-! ### One file -/

theorem hashTableInsert_self (table : SourceFiles) (f : Text) (sf : SourceFile) :
    hashTableInsert table f sf f = some sf := if_pos rfl

theorem hashTableInsert_ne {table : SourceFiles} {f g : Text} (sf : SourceFile) (h : g ≠ f) :
    hashTableInsert table f sf g = table g := if_neg h

/-- A new entry, for a file whose includes are entered. -/
theorem Entries.insert {table : SourceFiles} (h : Entries host table) {f : Text}
    {sf : SourceFile} (hnew : table f = none) (hentry : Entry host table f sf) :
    Entries host (hashTableInsert table f sf) := by
  have hkept : ∀ g sf', table g = some sf' → hashTableInsert table f sf g = some sf' := by
    intro g sf' hg
    rw [hashTableInsert_ne sf, hg]
    rintro rfl
    rw [hnew] at hg
    cases hg
  have hmono : ∀ {g : Text} {sf' : SourceFile}, Entry host table g sf' →
      Entry host (hashTableInsert table f sf) g sf' := by
    intro g sf' he
    refine { he with entered := fun dep hdep => ?_ }
    obtain ⟨sf'', hsf'', hdeps⟩ := he.entered dep hdep
    exact ⟨sf'', hkept _ _ hsf'', hdeps⟩
  intro g sf' hg
  by_cases hgf : g = f
  · rw [hgf, hashTableInsert_self] at hg
    obtain rfl := Option.some.inj hg
    rw [hgf]
    exact hmono hentry
  · rw [hashTableInsert_ne sf hgf] at hg
    exact hmono (h g sf' hg)

/-- What loading a file does. -/
def LoadSpec (host : Host)
    (load : Text → Loader → Option (Except SchemeError SourceFile × Loader)) : Prop :=
  ∀ {f s r s'}, Entries host s.table → load f s = some (r, s') →
    Kept host s s' ∧ ∀ sf, r = .ok sf → Complete host [f] s s' ∧ s'.table f = some sf

/-- What loading the files that a file includes does. -/
theorem loadIncludes_spec {load : Text → Loader → Option (Except SchemeError SourceFile × Loader)}
    (hload : LoadSpec host load) {filepaths : List Text} : ∀ {includes : List Deps}
      {s s' : Loader} {r : Except SchemeError (List Deps)}, Entries host s.table →
      loadIncludes load filepaths includes s = some (r, s') →
      Kept host s s' ∧ ∀ deps, r = .ok deps → Complete host filepaths s s' ∧
        ∃ new, deps = new ++ includes ∧ new.map Deps.file = filepaths.reverse ∧
          ∀ dep ∈ new, ∃ sf, s'.table dep.file = some sf ∧ sf.deps = dep := by
  induction filepaths with
  | nil =>
      intro includes s s' r hentries hrun
      cases hrun
      refine ⟨.refl hentries, fun deps hdeps => ?_⟩
      cases hdeps
      exact ⟨.nothing s, [], rfl, rfl, fun _ hdep => absurd hdep List.not_mem_nil⟩
  | cons f filepaths ih =>
      intro includes s s' r hentries hrun
      unfold loadIncludes at hrun
      split at hrun
      · cases hrun
      · rename_i e t hfirst
        cases hrun
        exact ⟨(hload hentries hfirst).1, fun deps hdeps => by cases hdeps⟩
      · rename_i sf t hfirst
        obtain ⟨hst, hdone⟩ := hload hentries hfirst
        obtain ⟨hcomplete, htabled⟩ := hdone sf rfl
        obtain ⟨htu, hrest⟩ := ih hst.entries hrun
        refine ⟨hst.trans htu, fun deps hdeps => ?_⟩
        obtain ⟨hcomplete', new, rfl, hfiles, hnew⟩ := hrest deps hdeps
        have hfile := (hst.entries f sf htabled).file
        refine ⟨hcomplete.cons hst hcomplete' htu, new ++ [sf.deps], by simp, ?_, ?_⟩
        · rw [List.map_append, hfiles, List.reverse_cons]
          exact congrArg (filepaths.reverse ++ [·]) hfile
        · intro dep hdep
          rcases List.mem_append.mp hdep with hdep | hdep
          · exact hnew dep hdep
          · rw [List.mem_singleton.mp hdep]
            refine ⟨sf, htu.kept _ sf ?_, rfl⟩
            rw [show sf.deps.file = f from hfile]
            exact htabled

/-- A file is read before all those it includes. -/
theorem Complete.withSelf {s t : Loader} {f : Text} {sf : SourceFile}
    (h : Complete host (includesOf host f) { s with read := f :: s.read } t)
    (hnew : s.table f = none) (hmissing : t.table f = none) :
    ∃ new, t.read = new ++ s.read ∧ new.Nodup ∧
      (∀ g, g ∈ new ↔ s.table g = none ∧ ∃ sf', hashTableInsert t.table f sf g = some sf') ∧
      ∀ g ∈ new, ∃ f' ∈ [f], Reaches (Includes host) f' g := by
  obtain ⟨new, hread, hnodup, hmem, hreached⟩ := h.record
  have hnotIn : f ∉ new := by
    intro hf
    obtain ⟨_, sf', hsf'⟩ := (hmem f).mp hf
    rw [hmissing] at hsf'
    cases hsf'
  refine ⟨new ++ [f], by rw [hread]; simp, ?_, ?_, ?_⟩
  · refine List.nodup_append.mpr ⟨hnodup, List.nodup_singleton f, ?_⟩
    rintro g hg g' hg' rfl
    rw [List.mem_singleton.mp hg'] at hg
    exact hnotIn hg
  · intro g
    rw [List.mem_append, List.mem_singleton]
    by_cases hgf : g = f
    · subst hgf
      exact ⟨fun _ => ⟨hnew, sf, hashTableInsert_self ..⟩, fun _ => Or.inr rfl⟩
    · rw [hashTableInsert_ne sf hgf, hmem]
      exact ⟨fun h => h.resolve_right hgf, Or.inl⟩
  · intro g hg
    refine ⟨f, List.mem_singleton_self f, ?_⟩
    rcases List.mem_append.mp hg with hg | hg
    · obtain ⟨f', hf', hreach⟩ := hreached g hg
      exact .head hf' hreach
    · rw [List.mem_singleton.mp hg]

/-- What is loaded on the way to a file that includes it is not the file itself. -/
theorem notEntered {s t : Loader} {f : Text} (hnew : s.table f = none) (hst : Kept host s t)
    (hcomplete : Complete host (includesOf host f) s t) : t.table f = none := by
  cases hf : t.table f with
  | none => rfl
  | some sf =>
      obtain ⟨new, _, _, hmem, hreached⟩ := hcomplete.record
      obtain ⟨g, hg, hreach⟩ := hreached f ((hmem f).mpr ⟨hnew, sf, hf⟩)
      exact absurd (Relation.TransGen.head' hg hreach) (hst.entries f sf hf).ends.not_onCycle

/-- Once its includes have been loaded, a file is entered. -/
theorem enter {s t : Loader} {f : Text} {sf : SourceFile} (hnew : s.table f = none)
    (hkept : Kept host { s with read := f :: s.read } t)
    (hcomplete : Complete host (includesOf host f) { s with read := f :: s.read } t)
    (hentry : Entry host t.table f sf) (hfresh : sf.typesEnv = none) :
    Kept host s { t with table := hashTableInsert t.table f sf } ∧
      Complete host [f] s { t with table := hashTableInsert t.table f sf } := by
  have hmissing := notEntered (s := { s with read := f :: s.read }) hnew hkept hcomplete
  refine ⟨⟨hkept.entries.insert hmissing hentry, ?_, ?_⟩, ?_, hcomplete.withSelf hnew hmissing⟩
  · intro g sf' hg
    have hne : g ≠ f := by
      rintro rfl
      rw [hnew] at hg
      cases hg
    exact (hashTableInsert_ne sf hne).trans (hkept.kept g sf' hg)
  · intro g sf' hg
    by_cases hgf : g = f
    · subst hgf
      obtain rfl := Option.some.inj ((hashTableInsert_self ..).symm.trans hg)
      exact Or.inr hfresh
    · exact hkept.fresh g sf' ((hashTableInsert_ne sf hgf).symm.trans hg)
  · intro g hg
    rw [List.mem_singleton.mp hg]
    exact ⟨sf, hashTableInsert_self ..⟩

theorem loadSourceFile_spec (hsearch : FindsRegexes host.search) (fuel : Nat) :
    LoadSpec host (loadSourceFile host fuel) := by
  induction fuel with
  | zero =>
      intro f s r s' _ hrun
      cases hrun
  | succ fuel ih =>
      intro f s r s' hentries hrun
      unfold loadSourceFile at hrun
      cases htable : s.table f with
      | some sf =>
          rw [htable] at hrun
          cases hrun
          refine ⟨.refl hentries, fun sf' hsf' => ?_⟩
          cases hsf'
          exact ⟨.tabled htable, htable⟩
      | none =>
          rw [htable] at hrun
          dsimp only at hrun
          by_cases hnewline : HasNewline host f
          · obtain ⟨tokenLines, htokens, hincludes⟩ := readTokens_hasNewline hsearch hnewline
            simp only [htokens, hincludes] at hrun
            split at hrun
            · cases hrun
            · rename_i e t hload
              cases hrun
              have hkept := (loadIncludes_spec ih
                (s := { s with read := f :: s.read }) hentries hload).1
              exact ⟨⟨hkept.entries, hkept.kept, hkept.fresh⟩, fun sf hsf => by cases hsf⟩
            · rename_i includes t hload
              cases hrun
              obtain ⟨hkept, hdone⟩ := loadIncludes_spec ih
                (s := { s with read := f :: s.read }) hentries hload
              obtain ⟨hcomplete, new, hdeps, hfiles, hnew⟩ := hdone includes rfl
              obtain rfl : includes = new := hdeps.trans (List.append_nil new)
              have hends : Ends (Includes host) f := by
                refine Graph.ends_of_next fun g hg => ?_
                obtain ⟨sf, hsf⟩ := hcomplete.entered g hg
                exact (hkept.entries g sf hsf).ends
              have hentry : Entry host t.table f ⟨tokenLines, .mk f includes, none⟩ :=
                ⟨hnewline, htokens, rfl, hfiles, hnew, hends⟩
              obtain ⟨hkept', hcomplete'⟩ := enter htable hkept hcomplete hentry rfl
              refine ⟨hkept', fun sf hsf => ?_⟩
              cases hsf
              exact ⟨hcomplete', hashTableInsert_self ..⟩
          · simp only [readTokens_noNewline hnewline] at hrun
            cases hrun
            exact ⟨⟨hentries, fun _ _ h => h, fun _ _ h => Or.inl h⟩, fun sf hsf => by cases hsf⟩

/-! ### Loading ends -/

/-- What there is for each element of a list from some number on is there for all of them. -/
theorem exists_bound {α : Type} {P : α → Nat → Prop} {as : List α}
    (h : ∀ a ∈ as, ∃ n, ∀ k ≥ n, P a k) : ∃ n, ∀ a ∈ as, ∀ k ≥ n, P a k := by
  induction as with
  | nil => exact ⟨0, fun a ha => absurd ha List.not_mem_nil⟩
  | cons a as ih =>
      obtain ⟨n, hn⟩ := h a List.mem_cons_self
      obtain ⟨m, hm⟩ := ih fun b hb => h b (List.mem_cons_of_mem a hb)
      refine ⟨max n m, fun b hb k hk => ?_⟩
      rcases List.mem_cons.mp hb with rfl | hb
      · exact hn k (by omega)
      · exact hm b hb k (by omega)

theorem loadIncludes_ok {load : Text → Loader → Option (Except SchemeError SourceFile × Loader)}
    {filepaths : List Text} (h : ∀ f ∈ filepaths, ∀ s, ∃ sf s', load f s = some (.ok sf, s'))
    (includes : List Deps) (s : Loader) :
    ∃ deps s', loadIncludes load filepaths includes s = some (.ok deps, s') := by
  induction filepaths generalizing includes s with
  | nil => exact ⟨includes, s, rfl⟩
  | cons f filepaths ih =>
      obtain ⟨sf, t, hfirst⟩ := h f List.mem_cons_self s
      unfold loadIncludes
      rw [hfirst]
      exact ih (fun g hg => h g (List.mem_cons_of_mem f hg)) _ t

/-- If the includes come to an end and can be read, loading succeeds. -/
theorem loadSourceFile_ok (hsearch : FindsRegexes host.search) {f : Text}
    (hends : Ends (Includes host) f) :
    (∀ g, Reaches (Includes host) f g → HasNewline host g) →
      ∃ n, ∀ fuel ≥ n, ∀ s, ∃ sf s', loadSourceFile host fuel f s = some (.ok sf, s') := by
  induction hends with
  | intro f _ ih =>
      intro hnewline
      obtain ⟨tokenLines, htokens, hincludes⟩ := readTokens_hasNewline hsearch (hnewline f .refl)
      obtain ⟨n, hn⟩ := exists_bound fun g (hg : g ∈ includesOf host f) =>
        ih g hg fun g' hreach => hnewline g' (.head hg hreach)
      refine ⟨n + 1, fun fuel hfuel s => ?_⟩
      obtain ⟨fuel, rfl⟩ := Nat.exists_eq_add_one_of_ne_zero (n := fuel) (by omega)
      unfold loadSourceFile
      cases htable : s.table f with
      | some sf => exact ⟨sf, s, rfl⟩
      | none =>
          obtain ⟨includes, t, hload⟩ := loadIncludes_ok
            (fun g hg => hn g hg fuel (by omega)) [] { s with read := f :: s.read }
          simp only [htokens, hincludes, hload]
          exact ⟨_, _, rfl⟩

/-! ### Any file, at any time -/

/-- What there may be once some files have been loaded, and the types environments of some have
been asked for. -/
inductive LoaderState (host : Host) : Loader → Prop
  | start : LoaderState host ⟨fun _ => none, []⟩
  | load {s s' : Loader} {fuel : Nat} {f : Text} {r : Except SchemeError SourceFile}
      (before : LoaderState host s) (run : loadSourceFile host fuel f s = some (r, s')) :
      LoaderState host s'
  | types {s : Loader} {f : Text} {sf : SourceFile} {env : TypesEnv} {table : SourceFiles}
      (before : LoaderState host s) (loaded : s.table f = some sf)
      (run : sfTypesEnv host s.table sf = .ok (env, table)) : LoaderState host { s with table }

/-- A source file may get another environment. -/
theorem Entries.update {table : SourceFiles} (h : Entries host table) {f : Text}
    {sf : SourceFile} (hf : table f = some sf) (env : TypesEnv) :
    Entries host (hashTableInsert table f { sf with typesEnv := env }) := by
  have hdeps : ∀ g sf', table g = some sf' →
      ∃ sf'', hashTableInsert table f { sf with typesEnv := env } g = some sf'' ∧
        sf''.deps = sf'.deps := by
    intro g sf' hg
    by_cases hgf : g = f
    · subst hgf
      rw [hf] at hg
      cases hg
      exact ⟨_, hashTableInsert_self .., rfl⟩
    · exact ⟨sf', (hashTableInsert_ne _ hgf).trans hg, rfl⟩
  have hmono : ∀ {g : Text} {sf' : SourceFile}, Entry host table g sf' →
      Entry host (hashTableInsert table f { sf with typesEnv := env }) g sf' := by
    intro g sf' he
    refine { he with entered := fun dep hdep => ?_ }
    obtain ⟨sf'', hsf'', hsame⟩ := he.entered dep hdep
    obtain ⟨sf₃, hsf₃, hsame'⟩ := hdeps _ sf'' hsf''
    exact ⟨sf₃, hsf₃, hsame'.trans hsame⟩
  intro g sf' hg
  by_cases hgf : g = f
  · subst hgf
    rw [hashTableInsert_self] at hg
    cases hg
    have he := hmono (h g sf hf)
    exact ⟨he.newline, he.tokens, he.file, he.includes, he.entered, he.ends⟩
  · rw [hashTableInsert_ne _ hgf] at hg
    exact hmono (h g sf' hg)

/-- Asking for the environment changes no more than that. -/
theorem sfTypesEnv_update {table table' : SourceFiles} {sf : SourceFile} {env : TypesEnv}
    (h : sfTypesEnv host table sf = .ok (env, table')) :
    table' = table ∨ ∃ sf' tokenLines tokenLinesLst, table (sfName sf) = some sf' ∧
      sfDepsToTokenLinesLst host table sf' = .ok (tokenLines :: tokenLinesLst) ∧
      env = makeTypesEnv tokenLines tokenLinesLst ∧
      table' = hashTableInsert table (sfName sf) { sf' with typesEnv := env } := by
  unfold sfTypesEnv at h
  split at h
  · cases h
    exact Or.inl rfl
  · split at h
    · cases h
    · rename_i sf' hsf'
      split at h
      · cases h
      · cases h
      · rename_i hlst
        cases h
        exact Or.inr ⟨sf', _, _, hsf', hlst, rfl, rfl⟩

theorem LoaderState.entries (hsearch : FindsRegexes host.search) {s : Loader}
    (h : LoaderState host s) : Entries host s.table := by
  induction h with
  | start =>
      intro f sf hf
      cases hf
  | load _ run ih => exact (loadSourceFile_spec hsearch _ ih run).1.entries
  | types _ loaded run ih =>
      rcases sfTypesEnv_update run with rfl | ⟨sf', _, _, hsf', _, _, rfl⟩
      · exact ih
      · exact ih.update hsf' _

/-- Loading a file ends, with an entry for each file it leads to.  Each of them is read once, if
it has not been read before. -/
def LoadsAll (host : Host) (s : Loader) (f : Text) : Prop :=
  ∃ n, ∀ fuel ≥ n, ∃ sf s', loadSourceFile host fuel f s = some (.ok sf, s') ∧
    (∀ g, Reaches (Includes host) f g → ∃ sf', s'.table g = some sf') ∧
    ∃ new, s'.read = new ++ s.read ∧ new.Nodup ∧
      ∀ g, g ∈ new ↔ Reaches (Includes host) f g ∧ s.table g = none

/-- What is in the table can be read, and its includes come to an end. -/
theorem LoadsAll.sound (hsearch : FindsRegexes host.search) {s : Loader}
    (hs : LoaderState host s) {f : Text} (h : LoadsAll host s f) {g : Text}
    (hreach : Reaches (Includes host) f g) : HasNewline host g ∧ ¬ OnCycle (Includes host) g := by
  obtain ⟨n, hn⟩ := h
  obtain ⟨sf, s', hrun, hentered, _⟩ := hn n (Nat.le_refl n)
  obtain ⟨sf', hg⟩ := hentered g hreach
  have hentry := (loadSourceFile_spec hsearch n (hs.entries hsearch) hrun).1.entries g sf' hg
  exact ⟨hentry.newline, hentry.ends.not_onCycle⟩

/-- **Loading a file succeeds exactly if no file that it leads to leads back to itself, and all
of them have a newline in them if they are there.** -/
theorem loadsAll_iff (hsearch : FindsRegexes host.search)
    (hfinite : {f | (host.files f).isSome}.Finite) {s : Loader} (hs : LoaderState host s)
    (f : Text) :
    LoadsAll host s f ↔
      ∀ g, Reaches (Includes host) f g → HasNewline host g ∧ ¬ OnCycle (Includes host) g := by
  constructor
  · exact fun h g hreach => h.sound hsearch hs hreach
  · intro h
    have hedges : {f | ∃ g, Includes host f g}.Finite := by
      refine hfinite.subset fun f' ⟨g, hg⟩ => ?_
      by_contra hmissing
      rw [Includes, includesOf_missing (Option.not_isSome_iff_eq_none.mp hmissing)] at hg
      exact List.not_mem_nil hg
    have hends := Graph.ends_of_not_onCycle hedges fun g hreach => (h g hreach).2
    obtain ⟨n, hn⟩ := loadSourceFile_ok hsearch hends fun g hreach => (h g hreach).1
    refine ⟨n, fun fuel hfuel => ?_⟩
    obtain ⟨sf, s', hrun⟩ := hn fuel hfuel s
    obtain ⟨hkept, hdone⟩ := loadSourceFile_spec hsearch fuel (hs.entries hsearch) hrun
    obtain ⟨hcomplete, hsf⟩ := hdone sf rfl
    have hall := fun g hreach => hkept.entries.reaches (g := g) hsf hreach
    obtain ⟨new, hread, hnodup, hmem, hreached⟩ := hcomplete.record
    refine ⟨sf, s', hrun, hall, new, hread, hnodup, fun g => ⟨fun hg => ?_, fun hg => ?_⟩⟩
    · obtain ⟨f', hf', hreach⟩ := hreached g hg
      rw [List.mem_singleton.mp hf'] at hreach
      exact ⟨hreach, ((hmem g).mp hg).1⟩
    · exact (hmem g).mpr ⟨hg.2, hall g hg.1⟩

/-! ### Two files -/

/-- A file that includes one that is missing. -/
def missingHost : Host := hostOf [("a.c", "#include \"b.h\"\nint a;\n")]

/-- A header that includes itself, with a guard. -/
def guardedHost : Host :=
  hostOf [("a.h", "#ifndef A\n#define A\n#include \"a.h\"\n#endif\n")]

theorem hostOf_finite (files : List (String × String)) :
    {f | ((hostOf files).files f).isSome}.Finite := by
  refine (List.finite_toSet (files.map fun file => file.1.toList)).subset fun f hf => ?_
  rw [Set.mem_ofPred_eq, hostOf, Option.isSome_map, List.find?_isSome] at hf
  obtain ⟨file, hfile, hpath⟩ := hf
  exact List.mem_map.mpr ⟨file, hfile, of_decide_eq_true hpath⟩

theorem loadsAll_missing : LoadsAll missingHost ⟨fun _ => none, []⟩ "a.c".toList := by
  have hincludes : ∀ g, Includes missingHost "a.c".toList g → g = "b.h".toList := by
    have hlist : includesOf missingHost "a.c".toList = ["b.h".toList] := by decide +kernel
    intro g hg
    rw [Includes, hlist] at hg
    exact List.mem_singleton.mp hg
  have hnone : ∀ g, ¬ Includes missingHost "b.h".toList g := by
    have hlist : includesOf missingHost "b.h".toList = [] := by decide +kernel
    intro g hg
    rw [Includes, hlist] at hg
    exact List.not_mem_nil hg
  have hnewline : HasNewline missingHost "a.c".toList ∧ HasNewline missingHost "b.h".toList := by
    constructor
    · intro content hcontent
      obtain rfl := Option.some.inj hcontent
      decide
    · intro content hcontent
      cases hcontent
  have hends : Ends (Includes missingHost) "a.c".toList := by
    refine Graph.ends_of_next fun g hg => ?_
    rw [hincludes g hg]
    exact Graph.ends_of_next fun g' hg' => absurd hg' (hnone g')
  refine (loadsAll_iff (fun r _ => searchLongest_findsLongest r) (hostOf_finite _) .start _).mpr
    fun g hreach => ⟨?_, (hends.reaches hreach).not_onCycle⟩
  rcases Relation.ReflTransGen.cases_head hreach with rfl | ⟨h, hh, hreach⟩
  · exact hnewline.1
  · rw [hincludes h hh] at hreach
    rcases Relation.ReflTransGen.cases_head hreach with rfl | ⟨h', hh', _⟩
    · exact hnewline.2
    · exact absurd hh' (hnone h')

/-- The header is looked up in the table before it is there, over and over. -/
theorem not_loadsAll_guarded :
    FindsRegexes guardedHost.search ∧ {f | (guardedHost.files f).isSome}.Finite ∧
      ¬ LoadsAll guardedHost ⟨fun _ => none, []⟩ "a.h".toList := by
  have hsearch : FindsRegexes guardedHost.search := fun r _ => searchLongest_findsLongest r
  refine ⟨hsearch, hostOf_finite _, fun h => ?_⟩
  have hself : "a.h".toList ∈ includesOf guardedHost "a.h".toList := by decide +kernel
  exact (h.sound hsearch .start .refl).2 (.single hself)

end Spray
