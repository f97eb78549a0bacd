/-
Regular expressions with groups and negative lookahead.

`Matches` says what it is for an expression to match a text, in front of what is left of the
line.  A search is leftmost and longest (`FindsLongest`) if it gives the longest match at
the first position where there is one.  `searchLongest` is such a search: it goes through
all matches (`allMatches`) at one position after the other.
-/
import Mathlib.Data.List.MinMax
import Mathlib.Order.WellFounded

/-- Ranges of characters, or all characters but those. -/
structure CharSet where
  ranges : List (Char × Char)
  negated : Bool := false
  deriving DecidableEq, Repr

def CharSet.mem (set : CharSet) (c : Char) : Bool :=
  (set.ranges.any fun r => r.1.toNat ≤ c.toNat && c.toNat ≤ r.2.toNat) != set.negated

inductive Regex where
  | empty
  /-- `^` -/
  | start
  | oneOf (set : CharSet)
  | seq (first second : Regex)
  | alt (first second : Regex)
  | star (r : Regex)
  | group (num : Nat) (r : Regex)
  /-- `(?!r)` -/
  | notAhead (r : Regex)
  deriving DecidableEq, Repr

/-- What the groups have matched, the last one last. -/
abbrev Captures := List (Nat × List Char)

/-- Any number of matches, one after the other. -/
inductive Iterates (One : Bool → List Char → List Char → Captures → Prop) :
    Bool → List Char → List Char → Captures → Prop
  | done (atStart : Bool) (rest : List Char) : Iterates One atStart [] rest []
  | more {atStart : Bool} {t u rest : List Char} {m n : Captures}
      (one : One atStart t (u ++ rest) m)
      (others : Iterates One (atStart && t.isEmpty) u rest n) :
      Iterates One atStart (t ++ u) rest (m ++ n)

namespace Regex

/-- The expression matches `text` in front of `rest`.  `atStart` is whether the text is at
the start of the line. -/
def Matches : Regex → (atStart : Bool) → (text rest : List Char) → Captures → Prop
  | empty, _, text, _, m => text = [] ∧ m = []
  | start, atStart, text, _, m => atStart = true ∧ text = [] ∧ m = []
  | oneOf set, _, text, _, m => (∃ c, set.mem c = true ∧ text = [c]) ∧ m = []
  | seq r r', atStart, text, rest, m =>
    ∃ t u n n', text = t ++ u ∧ m = n ++ n' ∧ r.Matches atStart t (u ++ rest) n ∧
      r'.Matches (atStart && t.isEmpty) u rest n'
  | alt r r', atStart, text, rest, m =>
    r.Matches atStart text rest m ∨ r'.Matches atStart text rest m
  | star r, atStart, text, rest, m => Iterates r.Matches atStart text rest m
  | group num r, atStart, text, rest, m =>
    ∃ n, m = n ++ [(num, text)] ∧ r.Matches atStart text rest n
  | notAhead r, atStart, text, rest, m =>
    text = [] ∧ m = [] ∧ ∀ t u n, t ++ u = rest → ¬ r.Matches atStart t u n

/-- The numbers of the groups. -/
def groups : Regex → List Nat
  | group num r => num :: r.groups
  | seq r r' | alt r r' => r.groups ++ r'.groups
  | star r | notAhead r => r.groups
  | empty | start | oneOf _ => []

/-- The text a group has matched last, if it took part. -/
def groupText (m : Captures) (num : Nat) : Option (List Char) :=
  (m.reverse.find? fun capture => capture.1 = num).map Prod.snd

/-- A match as a list: the whole text, and then the text of each group. -/
def toList (r : Regex) (text : List Char) (m : Captures) : List (Option (List Char)) :=
  some text :: (List.range (r.groups.foldr max 0)).map fun i => groupText m (i + 1)

/-! ### Shorthands -/

def char (c : Char) : Regex := oneOf { ranges := [(c, c)] }

/-- One of these characters. -/
def anyOf (cs : String) : Regex := oneOf { ranges := cs.toList.map fun c => (c, c) }

def noneOf (cs : String) : Regex :=
  oneOf { ranges := cs.toList.map fun c => (c, c), negated := true }

/-- One of these characters, or of these ranges. -/
def inRanges (ranges : List (Char × Char)) (cs : String := "") : Regex :=
  oneOf { ranges := ranges ++ cs.toList.map fun c => (c, c) }

def seqs : List Regex → Regex
  | [] => empty
  | [r] => r
  | r :: rs => seq r (seqs rs)

def alts : List Regex → Regex
  | [] => empty
  | [r] => r
  | r :: rs => alt r (alts rs)

def literal (s : String) : Regex := seqs (s.toList.map char)

def plus (r : Regex) : Regex := seq r (star r)

def opt (r : Regex) : Regex := alt r empty

section Shorthands

variable {atStart : Bool} {text rest : List Char} {m : Captures}

theorem matches_seqs_cons {r : Regex} {rs : List Regex} :
    (seqs (r :: rs)).Matches atStart text rest m ↔
      ∃ t u n n', text = t ++ u ∧ m = n ++ n' ∧ r.Matches atStart t (u ++ rest) n ∧
        (seqs rs).Matches (atStart && t.isEmpty) u rest n' := by
  cases rs with
  | cons r' rs => rfl
  | nil =>
      constructor
      · intro h
        exact ⟨text, [], m, [], (List.append_nil _).symm, (List.append_nil _).symm, h, rfl, rfl⟩
      · intro ⟨t, u, n, n', htext, hm, hr, hu, hn'⟩
        subst hu hn'
        rw [htext, hm, List.append_nil, List.append_nil]
        exact hr

theorem matches_alts {rs : List Regex} (hrs : rs ≠ [])
    (h : (alts rs).Matches atStart text rest m) : ∃ r ∈ rs, r.Matches atStart text rest m := by
  induction rs with
  | nil => exact absurd rfl hrs
  | cons r rs ih =>
      cases rs with
      | nil => exact ⟨r, List.mem_cons_self, h⟩
      | cons r' rs =>
          rcases h with h | h
          · exact ⟨r, List.mem_cons_self, h⟩
          · obtain ⟨q, hq, hmatch⟩ := ih (List.cons_ne_nil _ _) h
            exact ⟨q, List.mem_cons_of_mem r hq, hmatch⟩

theorem mem_chars {cs : List Char} {negated : Bool} {d : Char} :
    CharSet.mem { ranges := cs.map fun c => (c, c), negated } d = (decide (d ∈ cs) != negated) := by
  unfold CharSet.mem
  congr 1
  rw [Bool.eq_iff_iff, List.any_eq_true, decide_eq_true_iff]
  constructor
  · intro ⟨r, hr, hd⟩
    obtain ⟨c, hc, rfl⟩ := List.mem_map.mp hr
    have hrange : c.toNat ≤ d.toNat ∧ d.toNat ≤ c.toNat := by simpa using hd
    have heq : d = c := Char.toNat_inj.mp (by omega)
    rw [heq]
    exact hc
  · intro hd
    exact ⟨(d, d), List.mem_map.mpr ⟨d, hd, rfl⟩, by simp⟩

theorem mem_char {c d : Char} : CharSet.mem { ranges := [(c, c)] } d = true ↔ d = c := by
  have hchars : ({ ranges := [(c, c)] } : CharSet) =
      { ranges := [c].map fun c => (c, c), negated := false } := rfl
  rw [hchars, mem_chars]
  simp

theorem matches_char {c : Char} :
    (char c).Matches atStart text rest m ↔ text = [c] ∧ m = [] := by
  constructor
  · intro ⟨⟨d, hd, htext⟩, hm⟩
    rw [mem_char.mp hd] at htext
    exact ⟨htext, hm⟩
  · intro ⟨htext, hm⟩
    exact ⟨⟨c, mem_char.mpr rfl, htext⟩, hm⟩

theorem matches_literal {s : String} (h : (literal s).Matches atStart text rest m) :
    text = s.toList := by
  unfold literal at h
  generalize s.toList = cs at h ⊢
  induction cs generalizing atStart text m with
  | nil => exact h.1
  | cons c cs ih =>
      obtain ⟨t, u, n, n', htext, _, hchar, hu⟩ := matches_seqs_cons.mp h
      rw [htext, (matches_char.mp hchar).1, ih hu]
      rfl

/-- What matches once matches where it may be repeated. -/
theorem matches_star {r : Regex} (h : r.Matches atStart text rest m) :
    (star r).Matches atStart text rest m := by
  have hmore : Iterates r.Matches atStart (text ++ []) rest (m ++ []) := .more h (.done _ rest)
  rw [List.append_nil, List.append_nil] at hmore
  exact hmore

/-- Only the groups of an expression capture something. -/
theorem captures_mem {r : Regex} (h : r.Matches atStart text rest m) :
    ∀ capture ∈ m, capture.1 ∈ r.groups := by
  induction r generalizing atStart text rest m with
  | empty =>
      obtain ⟨_, rfl⟩ := h
      exact fun _ hc => absurd hc List.not_mem_nil
  | start =>
      obtain ⟨_, _, rfl⟩ := h
      exact fun _ hc => absurd hc List.not_mem_nil
  | oneOf set =>
      obtain ⟨_, rfl⟩ := h
      exact fun _ hc => absurd hc List.not_mem_nil
  | seq r r' ih ih' =>
      obtain ⟨t, u, n, n', _, rfl, hr, hr'⟩ := h
      intro capture hc
      rcases List.mem_append.mp hc with hc | hc
      · exact List.mem_append_left _ (ih hr capture hc)
      · exact List.mem_append_right _ (ih' hr' capture hc)
  | alt r r' ih ih' =>
      intro capture hc
      rcases h with h | h
      · exact List.mem_append_left _ (ih h capture hc)
      · exact List.mem_append_right _ (ih' h capture hc)
  | star r ih =>
      unfold Matches at h
      induction h with
      | done atStart rest => exact fun _ hc => absurd hc List.not_mem_nil
      | more one others ihs =>
          intro capture hc
          rcases List.mem_append.mp hc with hc | hc
          · exact ih one capture hc
          · exact ihs capture hc
  | group num r ih =>
      obtain ⟨n, rfl, hr⟩ := h
      intro capture hc
      rcases List.mem_append.mp hc with hc | hc
      · exact List.mem_cons_of_mem num (ih hr capture hc)
      · rw [List.mem_singleton.mp hc]
        exact List.mem_cons_self
  | notAhead r ih =>
      obtain ⟨_, rfl, _⟩ := h
      exact fun _ hc => absurd hc List.not_mem_nil

theorem captures_of_groups_nil {r : Regex} (h : r.Matches atStart text rest m)
    (hgroups : r.groups = []) : m = [] := by
  rw [List.eq_nil_iff_forall_not_mem]
  intro capture hc
  have hmem := captures_mem h capture hc
  rw [hgroups] at hmem
  exact List.not_mem_nil hmem

/-- The later capture of a group counts. -/
theorem groupText_append (m n : Captures) (num : Nat) :
    groupText (m ++ n) num = (groupText n num).or (groupText m num) := by
  unfold groupText
  rw [List.reverse_append, List.find?_append, Option.map_or]

theorem groupText_of_groups {r : Regex} (h : r.Matches atStart text rest m) {num : Nat}
    (hnum : num ∉ r.groups) : groupText m num = none := by
  rw [groupText, Option.map_eq_none_iff, List.find?_eq_none]
  intro capture hc heq
  rw [← of_decide_eq_true heq] at hnum
  exact hnum (captures_mem h capture (List.mem_reverse.mp hc))

end Shorthands

/-! ### What is accepted -/

/-- The expression matches `text` in front of `rest`, whatever its groups capture. -/
def Accepts (r : Regex) (atStart : Bool) (text rest : List Char) : Prop :=
  ∃ m, r.Matches atStart text rest m

section Accepts

variable {atStart : Bool} {text rest : List Char} {r r' : Regex}

theorem accepts_empty : empty.Accepts atStart text rest ↔ text = [] :=
  ⟨fun ⟨_, h, _⟩ => h, fun h => ⟨[], h, rfl⟩⟩

theorem accepts_oneOf {set : CharSet} :
    (oneOf set).Accepts atStart text rest ↔ ∃ c, set.mem c = true ∧ text = [c] :=
  ⟨fun ⟨_, h, _⟩ => h, fun h => ⟨[], h, rfl⟩⟩

theorem accepts_anyOf {cs : String} :
    (anyOf cs).Accepts atStart text rest ↔ ∃ c ∈ cs.toList, text = [c] := by
  rw [anyOf, accepts_oneOf]
  simp [mem_chars]

theorem accepts_noneOf {cs : String} :
    (noneOf cs).Accepts atStart text rest ↔ ∃ c, c ∉ cs.toList ∧ text = [c] := by
  rw [noneOf, accepts_oneOf]
  simp [mem_chars]

theorem accepts_inRanges {ranges : List (Char × Char)} {cs : String} :
    (inRanges ranges cs).Accepts atStart text rest ↔
      ∃ c, ((∃ r ∈ ranges, r.1.toNat ≤ c.toNat ∧ c.toNat ≤ r.2.toNat) ∨ c ∈ cs.toList) ∧
        text = [c] := by
  have hmem : ∀ c, CharSet.mem { ranges := ranges ++ cs.toList.map fun c => (c, c) } c = true ↔
      (∃ r ∈ ranges, r.1.toNat ≤ c.toNat ∧ c.toNat ≤ r.2.toNat) ∨ c ∈ cs.toList := by
    intro c
    have hchars := @mem_chars cs.toList false c
    unfold CharSet.mem at hchars ⊢
    rw [Bool.bne_false] at hchars ⊢
    rw [List.any_append, hchars, Bool.or_eq_true, Bool.bne_false, decide_eq_true_eq]
    simp
  rw [inRanges, accepts_oneOf]
  simp only [hmem]

theorem accepts_char {c : Char} : (char c).Accepts atStart text rest ↔ text = [c] :=
  ⟨fun ⟨_, h⟩ => (matches_char.mp h).1, fun h => ⟨[], matches_char.mpr ⟨h, rfl⟩⟩⟩

theorem accepts_seq :
    (seq r r').Accepts atStart text rest ↔ ∃ t u, text = t ++ u ∧
      r.Accepts atStart t (u ++ rest) ∧ r'.Accepts (atStart && t.isEmpty) u rest := by
  constructor
  · rintro ⟨m, t, u, n, n', htext, -, hr, hr'⟩
    exact ⟨t, u, htext, ⟨n, hr⟩, n', hr'⟩
  · rintro ⟨t, u, htext, ⟨n, hr⟩, n', hr'⟩
    exact ⟨n ++ n', t, u, n, n', htext, rfl, hr, hr'⟩

theorem accepts_seqs_cons {rs : List Regex} :
    (seqs (r :: rs)).Accepts atStart text rest ↔ ∃ t u, text = t ++ u ∧
      r.Accepts atStart t (u ++ rest) ∧ (seqs rs).Accepts (atStart && t.isEmpty) u rest := by
  constructor
  · rintro ⟨m, hm⟩
    obtain ⟨t, u, n, n', htext, -, hr, hr'⟩ := matches_seqs_cons.mp hm
    exact ⟨t, u, htext, ⟨n, hr⟩, n', hr'⟩
  · rintro ⟨t, u, htext, ⟨n, hr⟩, n', hr'⟩
    exact ⟨n ++ n', matches_seqs_cons.mpr ⟨t, u, n, n', htext, rfl, hr, hr'⟩⟩

theorem accepts_alt : (alt r r').Accepts atStart text rest ↔
    r.Accepts atStart text rest ∨ r'.Accepts atStart text rest :=
  ⟨fun ⟨m, h⟩ => h.imp (⟨m, ·⟩) (⟨m, ·⟩),
    fun h => h.elim (fun ⟨m, hr⟩ => ⟨m, Or.inl hr⟩) fun ⟨m, hr⟩ => ⟨m, Or.inr hr⟩⟩

theorem accepts_alts {rs : List Regex} (hrs : rs ≠ []) :
    (alts rs).Accepts atStart text rest ↔ ∃ r ∈ rs, r.Accepts atStart text rest := by
  induction rs with
  | nil => exact absurd rfl hrs
  | cons r rs ih =>
      cases rs with
      | nil => simp [alts]
      | cons r' rs =>
          have hcons : alts (r :: r' :: rs) = alt r (alts (r' :: rs)) := rfl
          rw [hcons, accepts_alt, ih (List.cons_ne_nil _ _)]
          simp only [List.exists_mem_cons_iff]

theorem accepts_opt : (opt r).Accepts atStart text rest ↔
    r.Accepts atStart text rest ∨ text = [] := by
  rw [opt, accepts_alt, accepts_empty]

theorem accepts_group {num : Nat} :
    (group num r).Accepts atStart text rest ↔ r.Accepts atStart text rest :=
  ⟨fun ⟨_, n, _, h⟩ => ⟨n, h⟩, fun ⟨n, h⟩ => ⟨n ++ [(num, text)], n, rfl, h⟩⟩

theorem accepts_literal {s : String} :
    (literal s).Accepts atStart text rest ↔ text = s.toList := by
  constructor
  · rintro ⟨m, h⟩
    exact matches_literal h
  · rintro rfl
    unfold literal
    generalize s.toList = cs
    induction cs generalizing atStart with
    | nil => exact accepts_empty.mpr rfl
    | cons c cs ih =>
        rw [List.map_cons, accepts_seqs_cons]
        exact ⟨[c], cs, rfl, accepts_char.mpr rfl, ih⟩

theorem accepts_star_nil : (star r).Accepts atStart [] rest := ⟨[], .done atStart rest⟩

theorem accepts_star_append {t u : List Char} (hone : r.Accepts atStart t (u ++ rest))
    (hothers : (star r).Accepts (atStart && t.isEmpty) u rest) :
    (star r).Accepts atStart (t ++ u) rest := by
  obtain ⟨m, hone⟩ := hone
  obtain ⟨n, hothers⟩ := hothers
  exact ⟨m ++ n, .more hone hothers⟩

/-- What holds of nothing, and of one more in front, holds of a repetition. -/
theorem star_induction {motive : List Char → Prop} (nil : motive [])
    (more : ∀ {atStart t u}, r.Accepts atStart t (u ++ rest) → motive u → motive (t ++ u))
    (h : (star r).Accepts atStart text rest) : motive text := by
  obtain ⟨m, hm⟩ := h
  unfold Matches at hm
  induction hm with
  | done atStart rest => exact nil
  | more one others ih => exact more ⟨_, one⟩ (ih more)

/-- A repetition of single characters of a kind. -/
theorem accepts_star {p : Char → Prop}
    (h : ∀ {atStart text rest}, r.Accepts atStart text rest ↔ ∃ c, p c ∧ text = [c]) :
    (star r).Accepts atStart text rest ↔ ∀ c ∈ text, p c := by
  constructor
  · intro hstar
    refine star_induction (motive := fun text => ∀ c ∈ text, p c) nofun ?_ hstar
    intro atStart t u hone hothers
    obtain ⟨d, hd, rfl⟩ := h.mp hone
    exact List.forall_mem_cons.mpr ⟨hd, hothers⟩
  · intro hall
    induction text generalizing atStart with
    | nil => exact accepts_star_nil
    | cons c text ih =>
        obtain ⟨hc, htext⟩ := List.forall_mem_cons.mp hall
        exact accepts_star_append (h.mpr ⟨c, hc, rfl⟩) (ih htext)

theorem accepts_plus {p : Char → Prop}
    (h : ∀ {atStart text rest}, r.Accepts atStart text rest ↔ ∃ c, p c ∧ text = [c]) :
    (plus r).Accepts atStart text rest ↔ text ≠ [] ∧ ∀ c ∈ text, p c := by
  rw [plus, accepts_seq]
  constructor
  · rintro ⟨t, u, rfl, hone, hothers⟩
    obtain ⟨c, hc, rfl⟩ := h.mp hone
    exact ⟨List.cons_ne_nil c u, List.forall_mem_cons.mpr ⟨hc, (accepts_star h).mp hothers⟩⟩
  · rintro ⟨hne, hall⟩
    obtain ⟨c, u, rfl⟩ := List.exists_cons_of_ne_nil hne
    obtain ⟨hc, hu⟩ := List.forall_mem_cons.mp hall
    exact ⟨[c], u, rfl, h.mpr ⟨c, hc, rfl⟩, (accepts_star h).mpr hu⟩

end Accepts

/-- All the characters that the expression can take are of the kind. -/
def Within (p : Char → Prop) : Regex → Prop
  | oneOf set => ∀ c, set.mem c = true → p c
  | seq r r' | alt r r' => r.Within p ∧ r'.Within p
  | star r | group _ r => r.Within p
  | empty | start | notAhead _ => True

section Within

variable {p : Char → Prop} {atStart : Bool} {text rest : List Char} {r : Regex}

theorem Within.of_accepts (h : r.Within p) (haccepts : r.Accepts atStart text rest) :
    ∀ c ∈ text, p c := by
  induction r generalizing atStart text rest with
  | empty =>
      rw [accepts_empty.mp haccepts]
      exact nofun
  | start =>
      obtain ⟨m, -, rfl, -⟩ := haccepts
      exact nofun
  | oneOf set =>
      obtain ⟨c, hc, rfl⟩ := accepts_oneOf.mp haccepts
      simpa using h c hc
  | seq r r' ih ih' =>
      obtain ⟨t, u, rfl, ht, hu⟩ := accepts_seq.mp haccepts
      exact List.forall_mem_append.mpr ⟨ih h.1 ht, ih' h.2 hu⟩
  | alt r r' ih ih' =>
      rcases accepts_alt.mp haccepts with haccepts | haccepts
      · exact ih h.1 haccepts
      · exact ih' h.2 haccepts
  | star r ih =>
      refine star_induction (motive := fun text => ∀ c ∈ text, p c) nofun ?_ haccepts
      intro atStart t u hone hothers
      exact List.forall_mem_append.mpr ⟨ih h hone, hothers⟩
  | group num r ih => exact ih h (accepts_group.mp haccepts)
  | notAhead r ih =>
      obtain ⟨m, rfl, -⟩ := haccepts
      exact nofun

theorem within_char {c : Char} (h : p c) : (char c).Within p := by
  intro d hd
  rw [mem_char.mp hd]
  exact h

theorem within_anyOf {cs : String} (h : ∀ c ∈ cs.toList, p c) : (anyOf cs).Within p := by
  intro c hc
  obtain ⟨d, hd, heq⟩ := accepts_anyOf.mp
    ((accepts_oneOf : (oneOf _).Accepts true _ [] ↔ _).mpr ⟨c, hc, rfl⟩)
  rw [List.singleton_inj.mp heq]
  exact h d hd

theorem within_inRanges {ranges : List (Char × Char)} {cs : String}
    (hranges : ∀ r ∈ ranges, ∀ c : Char, r.1.toNat ≤ c.toNat → c.toNat ≤ r.2.toNat → p c)
    (hchars : ∀ c ∈ cs.toList, p c) : (inRanges ranges cs).Within p := by
  intro c hc
  obtain ⟨d, hd, heq⟩ := accepts_inRanges.mp
    ((accepts_oneOf : (oneOf _).Accepts true _ [] ↔ _).mpr ⟨c, hc, rfl⟩)
  rw [List.singleton_inj.mp heq]
  rcases hd with ⟨r, hr, hlow, hhigh⟩ | hd
  · exact hranges r hr d hlow hhigh
  · exact hchars d hd

end Within

end Regex

/-! ### Leftmost, longest matches -/

/-- A search in a line.  The result is the list of a match. -/
abbrev RegexSearch := Regex → List Char → Option (List (Option (List Char)))

/-- The search gives the longest of the matches at the leftmost position there is one at. -/
structure FindsLongest (search : RegexSearch) (r : Regex) : Prop where
  found : ∀ {line result}, search r line = some result → ∃ front text rest m,
    line = front ++ (text ++ rest) ∧ r.Matches front.isEmpty text rest m ∧
    result = r.toList text m ∧
    ∀ front' text' rest' m', line = front' ++ (text' ++ rest') →
      r.Matches front'.isEmpty text' rest' m' →
      front.length < front'.length ∨
        (front.length = front'.length ∧ text'.length ≤ text.length)
  complete : ∀ {line}, search r line = none → ∀ front text rest m,
    line = front ++ (text ++ rest) → ¬ r.Matches front.isEmpty text rest m

namespace Regex

variable {search : RegexSearch} {r : Regex} {line text rest : List Char} {m : Captures}

/-- An expression that only matches at the start of the line. -/
def anchored (r : Regex) : Regex := seq start r

theorem matches_anchored {atStart : Bool} :
    (anchored r).Matches atStart text rest m ↔
      atStart = true ∧ r.Matches true text rest m := by
  constructor
  · intro ⟨t, u, n, n', htext, hm, ⟨hstart, ht, hn⟩, hr⟩
    subst ht hn
    rw [htext, hm]
    rw [hstart] at hr
    exact ⟨hstart, hr⟩
  · intro ⟨hstart, hr⟩
    subst hstart
    exact ⟨[], text, [], m, rfl, rfl, ⟨rfl, rfl, rfl⟩, hr⟩

/-- What an anchored search finds is how the line begins. -/
theorem found_anchored (h : FindsLongest search (anchored r)) {result : List (Option (List Char))}
    (hresult : search (anchored r) line = some result) :
    ∃ text rest m, line = text ++ rest ∧ r.Matches true text rest m ∧
      result = (anchored r).toList text m ∧
      ∀ text' rest' m', line = text' ++ rest' → r.Matches true text' rest' m' →
        text'.length ≤ text.length := by
  obtain ⟨front, text, rest, m, hline, hmatch, hlist, hlongest⟩ := h.found hresult
  obtain ⟨hstart, hr⟩ := matches_anchored.mp hmatch
  obtain rfl := List.isEmpty_iff.mp hstart
  refine ⟨text, rest, m, hline, hr, hlist, ?_⟩
  intro text' rest' m' hline' hr'
  rcases hlongest [] text' rest' m' hline' (matches_anchored.mpr ⟨rfl, hr'⟩) with hlt | ⟨_, hle⟩
  · exact absurd hlt (Nat.lt_irrefl _)
  · exact hle

/-- Where there is a match at the start, an anchored search finds one. -/
theorem search_anchored (h : FindsLongest search (anchored r)) (hline : line = text ++ rest)
    (hr : r.Matches true text rest m) : ∃ result, search (anchored r) line = some result := by
  cases hresult : search (anchored r) line with
  | some result => exact ⟨result, rfl⟩
  | none =>
      exact absurd (matches_anchored.mpr ⟨rfl, hr⟩) (h.complete hresult [] text rest m hline)

theorem accepts_anchored : (anchored r).Accepts true text rest ↔ r.Accepts true text rest :=
  ⟨fun ⟨m, h⟩ => ⟨m, (matches_anchored.mp h).2⟩,
    fun ⟨m, h⟩ => ⟨m, matches_anchored.mpr ⟨rfl, h⟩⟩⟩

/-- The longest text that one of some expressions accepts at the start of a line. -/
structure LongestPrefix (rs : List Regex) (line text : List Char) : Prop where
  accepted : ∃ r ∈ rs, ∃ rest, line = text ++ rest ∧ r.Accepts true text rest
  longest : ∀ r ∈ rs, ∀ text' rest', line = text' ++ rest' → r.Accepts true text' rest' →
    text'.length ≤ text.length

theorem LongestPrefix.unique {rs : List Regex} {text' : List Char}
    (h : LongestPrefix rs line text) (h' : LongestPrefix rs line text') : text = text' := by
  obtain ⟨r, hr, rest, hline, haccepts⟩ := h.accepted
  obtain ⟨r', hr', rest', hline', haccepts'⟩ := h'.accepted
  have hle := h.longest r' hr' text' rest' hline' haccepts'
  have hge := h'.longest r hr text rest hline haccepts
  exact (List.append_inj (hline.symm.trans hline') (Nat.le_antisymm hge hle)).1

theorem exists_longestPrefix {rs : List Regex} (hr : r ∈ rs) (hline : line = text ++ rest)
    (h : r.Accepts true text rest) : ∃ text, LongestPrefix rs line text := by
  let Accepted : Set (List Char) :=
    {t | ∃ r ∈ rs, ∃ rest, line = t ++ rest ∧ r.Accepts true t rest}
  let left : List Char → Nat := fun t => line.length - t.length
  obtain ⟨t, ht, hmax⟩ := (measure left).wf.has_min Accepted ⟨text, r, hr, rest, hline, h⟩
  refine ⟨t, ht, fun r' hr' text' rest' hline' h' => ?_⟩
  have hle : ¬ line.length - text'.length < line.length - t.length :=
    hmax text' ⟨r', hr', rest', hline', h'⟩
  obtain ⟨_, _, rest'', hline'', _⟩ := ht
  have hlen : line.length = t.length + rest''.length := by rw [hline'', List.length_append]
  have hlen' : line.length = text'.length + rest'.length := by rw [hline', List.length_append]
  omega

/-- An anchored search finds the longest text that is accepted. -/
theorem search_longestPrefix (h : FindsLongest search (anchored r))
    (hlongest : LongestPrefix [anchored r] line text) :
    ∃ m, search (anchored r) line = some ((anchored r).toList text m) := by
  obtain ⟨r', hr', rest, hline, haccepts⟩ := hlongest.accepted
  obtain rfl := List.mem_singleton.mp hr'
  obtain ⟨m, hm⟩ := accepts_anchored.mp haccepts
  obtain ⟨result, hresult⟩ := search_anchored h hline hm
  obtain ⟨text', rest', m', hline', hm', hlist, hmax⟩ := found_anchored h hresult
  have hle := hmax text rest m hline hm
  have hge := hlongest.longest _ hr' text' rest' hline' (accepts_anchored.mpr ⟨m', hm'⟩)
  obtain ⟨rfl, -⟩ := List.append_inj (hline.symm.trans hline') (Nat.le_antisymm hle hge)
  exact ⟨m', hresult.trans (congrArg some hlist)⟩

end Regex

/-! ### A search -/

/-- One way to match the beginning of a line: the text, what is left, and the captures. -/
abbrev RegexMatch := List Char × List Char × Captures

/-- Any number of matches that are not empty, up to a number. -/
def iterate (one : Bool → List Char → List RegexMatch) : (fuel : Nat) → Bool → List Char →
    List RegexMatch
  | 0, _, line => [([], line, [])]
  | fuel + 1, atStart, line =>
    ([], line, []) :: ((one atStart line).filter fun p => !p.1.isEmpty).flatMap fun p =>
      (iterate one fuel false p.2.1).map fun q => (p.1 ++ q.1, q.2.1, p.2.2 ++ q.2.2)

namespace Regex

/-- All ways to match the beginning of a line, but for repetitions of nothing. -/
def allMatches : Regex → (atStart : Bool) → List Char → List RegexMatch
  | empty, _, line => [([], line, [])]
  | start, atStart, line => if atStart then [([], line, [])] else []
  | oneOf set, _, line =>
    match line with
    | c :: rest => if set.mem c then [([c], rest, [])] else []
    | [] => []
  | seq r r', atStart, line =>
    (r.allMatches atStart line).flatMap fun p =>
      (r'.allMatches (atStart && p.1.isEmpty) p.2.1).map fun q =>
        (p.1 ++ q.1, q.2.1, p.2.2 ++ q.2.2)
  | alt r r', atStart, line => r.allMatches atStart line ++ r'.allMatches atStart line
  | star r, atStart, line => iterate r.allMatches line.length atStart line
  | group num r, atStart, line =>
    (r.allMatches atStart line).map fun p => (p.1, p.2.1, p.2.2 ++ [(num, p.1)])
  | notAhead r, atStart, line =>
    if (r.allMatches atStart line).isEmpty then [([], line, [])] else []

/-- The longest match at the first position there is one at. -/
def longestFrom (r : Regex) (atStart : Bool) (line : List Char) : Option RegexMatch :=
  match (r.allMatches atStart line).argmax (fun p => p.1.length), line with
  | some found, _ => some found
  | none, [] => none
  | none, _ :: line => longestFrom r false line

end Regex

def searchLongest : RegexSearch := fun r line =>
  (r.longestFrom true line).map fun found => r.toList found.1 found.2.2

/-- What is listed are matches, and no text that matches is left out. -/
structure Enumerates (one : Bool → List Char → List RegexMatch)
    (One : Bool → List Char → List Char → Captures → Prop) : Prop where
  sound : ∀ {atStart line p}, p ∈ one atStart line →
    line = p.1 ++ p.2.1 ∧ One atStart p.1 p.2.1 p.2.2
  all : ∀ {atStart text rest m}, One atStart text rest m →
    ∃ n, (text, rest, n) ∈ one atStart (text ++ rest)

theorem iterate_sound {one : Bool → List Char → List RegexMatch}
    {One : Bool → List Char → List Char → Captures → Prop} (h : Enumerates one One) {fuel : Nat}
    {atStart : Bool} {line : List Char} {p : RegexMatch} (hp : p ∈ iterate one fuel atStart line) :
    line = p.1 ++ p.2.1 ∧ Iterates One atStart p.1 p.2.1 p.2.2 := by
  induction fuel generalizing atStart line p with
  | zero =>
      obtain rfl := List.mem_singleton.mp hp
      exact ⟨rfl, .done atStart line⟩
  | succ fuel ih =>
      rcases List.mem_cons.mp hp with rfl | hp
      · exact ⟨rfl, .done atStart line⟩
      · obtain ⟨q, hq, hp⟩ := List.mem_flatMap.mp hp
        obtain ⟨s, hs, rfl⟩ := List.mem_map.mp hp
        obtain ⟨hq, hne⟩ := List.mem_filter.mp hq
        obtain ⟨hline, hone⟩ := h.sound hq
        obtain ⟨hrest, hothers⟩ := ih hs
        have hempty : q.1.isEmpty = false := by simpa using hne
        have hfalse : (atStart && q.1.isEmpty) = false := by
          rw [hempty, Bool.and_false]
        rw [hrest] at hone
        rw [← hfalse] at hothers
        refine ⟨?_, .more hone hothers⟩
        rw [hline, hrest, List.append_assoc]

theorem iterate_all {one : Bool → List Char → List RegexMatch}
    {One : Bool → List Char → List Char → Captures → Prop} (h : Enumerates one One)
    {atStart : Bool} {text rest : List Char} {m : Captures} (hm : Iterates One atStart text rest m)
    {fuel : Nat} (hfuel : text.length ≤ fuel) :
    ∃ n, (text, rest, n) ∈ iterate one fuel atStart (text ++ rest) := by
  induction hm generalizing fuel with
  | done atStart rest =>
      cases fuel with
      | zero => exact ⟨[], List.mem_cons_self⟩
      | succ fuel => exact ⟨[], List.mem_cons_self⟩
  | @more atStart t u rest m n hone hothers ih =>
      rw [List.length_append] at hfuel
      cases t with
      | nil =>
          -- Nothing has been matched, so it is not listed.
          have hsame : (atStart && List.isEmpty ([] : List Char)) = atStart := Bool.and_true _
          rw [hsame] at ih
          exact ih (by omega)
      | cons c t =>
          obtain ⟨fuel, rfl⟩ : ∃ fuel', fuel = fuel' + 1 :=
            Nat.exists_eq_succ_of_ne_zero (by rw [List.length_cons] at hfuel; omega)
          obtain ⟨m', hm'⟩ := h.all hone
          have hfalse : (atStart && (c :: t).isEmpty) = false := Bool.and_false _
          rw [hfalse] at ih
          have hu : u.length ≤ fuel := by
            rw [List.length_cons] at hfuel
            omega
          obtain ⟨n', hn'⟩ := ih hu
          refine ⟨m' ++ n', List.mem_cons_of_mem _ (List.mem_flatMap.mpr ?_)⟩
          rw [List.append_assoc]
          exact ⟨_, List.mem_filter.mpr ⟨hm', rfl⟩, List.mem_map.mpr ⟨_, hn', rfl⟩⟩

namespace Regex

theorem allMatches_oneOf (set : CharSet) :
    Enumerates (oneOf set).allMatches (oneOf set).Matches := by
  constructor
  · intro atStart line p hp
    cases line with
    | nil => exact absurd hp List.not_mem_nil
    | cons c rest =>
        unfold allMatches at hp
        dsimp only at hp
        split at hp
        · rename_i hc
          obtain rfl := List.mem_singleton.mp hp
          exact ⟨rfl, ⟨c, hc, rfl⟩, rfl⟩
        · exact absurd hp List.not_mem_nil
  · intro atStart text rest m ⟨⟨c, hc, htext⟩, _⟩
    subst htext
    refine ⟨[], ?_⟩
    unfold allMatches
    dsimp only [List.cons_append, List.nil_append]
    rw [if_pos hc]
    exact List.mem_cons_self

theorem allMatches_seq {r r' : Regex} (ih : Enumerates r.allMatches r.Matches)
    (ih' : Enumerates r'.allMatches r'.Matches) :
    Enumerates (seq r r').allMatches (seq r r').Matches := by
  constructor
  · intro atStart line p hp
    obtain ⟨q, hq, hp⟩ := List.mem_flatMap.mp hp
    obtain ⟨s, hs, rfl⟩ := List.mem_map.mp hp
    obtain ⟨hline, hr⟩ := ih.sound hq
    obtain ⟨hrest, hr'⟩ := ih'.sound hs
    rw [hrest] at hr
    refine ⟨?_, q.1, s.1, q.2.2, s.2.2, rfl, rfl, hr, hr'⟩
    rw [hline, hrest, List.append_assoc]
  · intro atStart text rest m ⟨t, u, n, n', htext, _, hr, hr'⟩
    obtain ⟨k, hk⟩ := ih.all hr
    obtain ⟨k', hk'⟩ := ih'.all hr'
    subst htext
    refine ⟨k ++ k', List.mem_flatMap.mpr ?_⟩
    rw [List.append_assoc]
    exact ⟨_, hk, List.mem_map.mpr ⟨_, hk', rfl⟩⟩

theorem allMatches_notAhead {r : Regex} (ih : Enumerates r.allMatches r.Matches) :
    Enumerates (notAhead r).allMatches (notAhead r).Matches := by
  constructor
  · intro atStart line p hp
    unfold allMatches at hp
    split at hp
    · rename_i hnone
      obtain rfl := List.mem_singleton.mp hp
      refine ⟨rfl, rfl, rfl, ?_⟩
      intro t u n hline hr
      obtain ⟨k, hk⟩ := ih.all hr
      rw [hline, List.isEmpty_iff.mp hnone] at hk
      exact List.not_mem_nil hk
    · exact absurd hp List.not_mem_nil
  · intro atStart text rest m ⟨htext, _, hnone⟩
    subst htext
    refine ⟨[], ?_⟩
    have hempty : (r.allMatches atStart rest).isEmpty = true := by
      rw [List.isEmpty_iff, List.eq_nil_iff_forall_not_mem]
      intro p hp
      exact hnone p.1 p.2.1 p.2.2 (ih.sound hp).1.symm (ih.sound hp).2
    unfold allMatches
    rw [List.nil_append, if_pos hempty]
    exact List.mem_cons_self

theorem allMatches_enumerates (r : Regex) : Enumerates r.allMatches r.Matches := by
  induction r with
  | empty =>
      constructor
      · intro atStart line p hp
        obtain rfl := List.mem_singleton.mp hp
        exact ⟨rfl, rfl, rfl⟩
      · intro atStart text rest m ⟨htext, _⟩
        subst htext
        exact ⟨[], List.mem_cons_self⟩
  | start =>
      constructor
      · intro atStart line p hp
        cases atStart with
        | false => exact absurd hp List.not_mem_nil
        | true =>
            obtain rfl := List.mem_singleton.mp hp
            exact ⟨rfl, rfl, rfl, rfl⟩
      · intro atStart text rest m ⟨hstart, htext, _⟩
        subst hstart htext
        exact ⟨[], List.mem_cons_self⟩
  | oneOf set => exact allMatches_oneOf set
  | seq r r' ih ih' => exact allMatches_seq ih ih'
  | alt r r' ih ih' =>
      constructor
      · intro atStart line p hp
        rcases List.mem_append.mp hp with hp | hp
        · exact ⟨(ih.sound hp).1, Or.inl (ih.sound hp).2⟩
        · exact ⟨(ih'.sound hp).1, Or.inr (ih'.sound hp).2⟩
      · intro atStart text rest m h
        rcases h with h | h
        · obtain ⟨n, hn⟩ := ih.all h
          exact ⟨n, List.mem_append_left _ hn⟩
        · obtain ⟨n, hn⟩ := ih'.all h
          exact ⟨n, List.mem_append_right _ hn⟩
  | star r ih =>
      constructor
      · intro atStart line p hp
        exact iterate_sound ih hp
      · intro atStart text rest m h
        exact iterate_all ih h (by rw [List.length_append]; omega)
  | group num r ih =>
      constructor
      · intro atStart line p hp
        obtain ⟨q, hq, rfl⟩ := List.mem_map.mp hp
        exact ⟨(ih.sound hq).1, q.2.2, rfl, (ih.sound hq).2⟩
      · intro atStart text rest m ⟨n, _, h⟩
        obtain ⟨k, hk⟩ := ih.all h
        exact ⟨k ++ [(num, text)], List.mem_map.mpr ⟨_, hk, rfl⟩⟩
  | notAhead r ih => exact allMatches_notAhead ih

variable {r : Regex}

/-- A match that no other begins in front of, and the longest of those that begin with it. -/
structure LeftmostLongest (r : Regex) (atStart : Bool) (line front : List Char)
    (found : RegexMatch) : Prop where
  splits : line = front ++ (found.1 ++ found.2.1)
  matched : r.Matches (atStart && front.isEmpty) found.1 found.2.1 found.2.2
  longest : ∀ front' text rest m, line = front' ++ (text ++ rest) →
    r.Matches (atStart && front'.isEmpty) text rest m →
    front.length < front'.length ∨
      (front.length = front'.length ∧ text.length ≤ found.1.length)

/-- The longest of the matches that begin with the line. -/
theorem argmax_leftmost {atStart : Bool} {line : List Char} {found : RegexMatch}
    (h : (r.allMatches atStart line).argmax (fun p => p.1.length) = some found) :
    LeftmostLongest r atStart line [] found := by
  obtain ⟨hline, hmatch⟩ := (allMatches_enumerates r).sound (List.argmax_mem h)
  refine ⟨hline, ?_, ?_⟩
  · rw [List.isEmpty_nil, Bool.and_true]
    exact hmatch
  · intro front' text rest m hline' hmatch'
    cases front' with
    | nil =>
        rw [List.isEmpty_nil, Bool.and_true] at hmatch'
        obtain ⟨n, hn⟩ := (allMatches_enumerates r).all hmatch'
        rw [List.nil_append] at hline'
        rw [← hline'] at hn
        exact Or.inr ⟨rfl, List.le_of_mem_argmax (f := fun p : RegexMatch => p.1.length) hn h⟩
    | cons c front' => exact Or.inl (Nat.succ_pos _)

theorem argmax_none {atStart : Bool} {line : List Char}
    (h : (r.allMatches atStart line).argmax (fun p => p.1.length) = none) (text rest : List Char)
    (m : Captures) (hline : line = text ++ rest) : ¬ r.Matches atStart text rest m := by
  intro hmatch
  obtain ⟨n, hn⟩ := (allMatches_enumerates r).all hmatch
  rw [← hline, List.argmax_eq_none.mp h] at hn
  exact List.not_mem_nil hn

/-- If no match begins with the line, it is the one of the rest. -/
theorem LeftmostLongest.cons {atStart : Bool} {c : Char} {line front : List Char}
    {found : RegexMatch} (h : LeftmostLongest r false line front found)
    (hnone : ∀ text rest m, c :: line = text ++ rest → ¬ r.Matches atStart text rest m) :
    LeftmostLongest r atStart (c :: line) (c :: front) found := by
  refine ⟨congrArg (List.cons c) h.splits, ?_, ?_⟩
  · have hmatch := h.matched
    rw [Bool.false_and] at hmatch
    rw [List.isEmpty_cons, Bool.and_false]
    exact hmatch
  · intro front' text rest m hline hmatch
    cases front' with
    | nil =>
        rw [List.isEmpty_nil, Bool.and_true] at hmatch
        exact absurd hmatch (hnone text rest m hline)
    | cons c' front' =>
        obtain ⟨_, hline⟩ := List.cons.inj hline
        rw [List.isEmpty_cons, Bool.and_false] at hmatch
        have hlater := h.longest front' text rest m hline hmatch
        rw [List.length_cons, List.length_cons]
        omega

theorem longestFrom_some {atStart : Bool} {line : List Char} {found : RegexMatch}
    (h : r.longestFrom atStart line = some found) :
    ∃ front, LeftmostLongest r atStart line front found := by
  induction line generalizing atStart with
  | nil =>
      unfold longestFrom at h
      split at h
      · rename_i harg
        cases h
        exact ⟨[], argmax_leftmost harg⟩
      · cases h
      · rename_i heq
        cases heq
  | cons c line ih =>
      unfold longestFrom at h
      split at h
      · rename_i harg
        cases h
        exact ⟨[], argmax_leftmost harg⟩
      · cases h
      · rename_i harg heq
        cases heq
        obtain ⟨front, hfront⟩ := ih h
        exact ⟨c :: front, hfront.cons (argmax_none harg)⟩

theorem longestFrom_none {atStart : Bool} {line : List Char}
    (h : r.longestFrom atStart line = none) (front text rest : List Char) (m : Captures)
    (hline : line = front ++ (text ++ rest)) :
    ¬ r.Matches (atStart && front.isEmpty) text rest m := by
  induction front generalizing atStart line with
  | nil =>
      rw [List.isEmpty_nil, Bool.and_true]
      unfold longestFrom at h
      split at h
      · cases h
      · rename_i harg
        exact argmax_none harg text rest m hline
      · rename_i harg
        exact argmax_none harg text rest m hline
  | cons c front ih =>
      unfold longestFrom at h
      split at h
      · cases h
      · cases hline
      · obtain ⟨_, rfl⟩ := List.cons.inj hline
        have hlater := ih h rfl
        rw [Bool.false_and] at hlater
        rw [List.isEmpty_cons, Bool.and_false]
        exact hlater

end Regex

theorem searchLongest_findsLongest (r : Regex) : FindsLongest searchLongest r where
  found := by
    intro line result hresult
    obtain ⟨found, hfound, rfl⟩ := Option.map_eq_some_iff.mp hresult
    obtain ⟨front, h⟩ := Regex.longestFrom_some hfound
    exact ⟨front, found.1, found.2.1, found.2.2, h.splits, h.matched, rfl, h.longest⟩
  complete := by
    intro line hnone front text rest m hline
    exact Regex.longestFrom_none (Option.map_eq_none_iff.mp hnone) front text rest m hline
