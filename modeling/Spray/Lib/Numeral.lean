/-
Numbers as text, the way C's `printf` writes and `strtol` reads them.

A numeral is white space, a sign, in base 16 possibly `0x`, and digits.  `Denotes` says which
integer a text stands for without saying how it is read; `scan` reads one off the front of a
text.  They agree on the texts that are numerals from end to end, so a numeral denotes one
integer only.
-/
import Mathlib.Algebra.Group.Int.Defs
import Mathlib.Data.List.TakeWhile

namespace Numeral

/-! ### Digits -/

/-- The value of a digit; letters stand for the digits from ten on. -/
def digitVal (c : Char) : Option Nat :=
  if 48 ≤ c.toNat ∧ c.toNat ≤ 57 then some (c.toNat - 48)
  else if 97 ≤ c.toNat ∧ c.toNat ≤ 122 then some (c.toNat - 87)
  else if 65 ≤ c.toNat ∧ c.toNat ≤ 90 then some (c.toNat - 55)
  else none

def isDigit (base : Nat) (c : Char) : Bool := (digitVal c).any (· < base)

/-- The number written with these digits, the highest first. -/
def value (base : Nat) (digits : List Char) : Nat :=
  digits.foldl (fun n c => base * n + (digitVal c).getD 0) 0

/-- `isspace`. -/
def isSpace (c : Char) : Bool := c.toNat = 32 || 9 ≤ c.toNat && c.toNat ≤ 13

theorem value_concat (base : Nat) (digits : List Char) (c : Char) :
    value base (digits ++ [c]) = base * value base digits + (digitVal c).getD 0 := by
  simp [value]

/-- Leading zeros do not count. -/
theorem value_replicate_zero (base n : Nat) (digits : List Char) :
    value base (List.replicate n '0' ++ digits) = value base digits := by
  have hzero : ∀ n, value base (List.replicate n '0') = 0 := by
    intro n
    induction n with
    | zero => rfl
    | succ n ih => rw [List.replicate_succ', value_concat, ih]; rfl
  unfold value at hzero ⊢
  rw [List.foldl_append, hzero]

theorem digitVal_digitChar {d : Nat} (h : d < 16) : digitVal d.digitChar = some d := by
  have hall : ∀ d : Fin 16, digitVal (Nat.digitChar d) = some d.val := by decide
  exact hall ⟨d, h⟩

section Digits

variable {base : Nat} (hbase : 1 < base) (hle : base ≤ 16)
include hbase hle

theorem isDigit_of_mem_toDigits (n : Nat) : ∀ c ∈ Nat.toDigits base n, isDigit base c := by
  have hdigit : ∀ d < base, isDigit base d.digitChar := by
    intro d hd
    rw [isDigit, digitVal_digitChar (by omega)]
    simpa using hd
  induction n using Nat.strongRecOn with
  | ind n ih =>
      intro c hc
      rw [Nat.toDigits_eq_if hbase] at hc
      split at hc
      · rename_i hlt
        rw [List.mem_singleton.mp hc]
        exact hdigit n hlt
      · rename_i hge
        rcases List.mem_append.mp hc with hc | hc
        · exact ih _ (Nat.div_lt_self (by omega) hbase) c hc
        · rw [List.mem_singleton.mp hc]
          exact hdigit _ (Nat.mod_lt _ (by omega))

theorem value_toDigits (n : Nat) : value base (Nat.toDigits base n) = n := by
  induction n using Nat.strongRecOn with
  | ind n ih =>
      rw [Nat.toDigits_eq_if hbase]
      split
      · rename_i hlt
        show base * 0 + (digitVal n.digitChar).getD 0 = n
        rw [digitVal_digitChar (by omega)]
        simp
      · rename_i hge
        rw [value_concat, ih _ (Nat.div_lt_self (by omega) hbase),
          digitVal_digitChar (by have := Nat.mod_lt n (Nat.zero_lt_of_lt hbase); omega)]
        exact Nat.div_add_mod n base

end Digits

/-! ### Reading -/

/-- A sign in front of the rest, if there is one, and whether it is a minus. -/
def takeSign (str : List Char) : Bool × List Char :=
  if str.head? = some '-' then (true, str.tail)
  else if str.head? = some '+' then (false, str.tail)
  else (false, str)

/-- In base 16, `0x` in front of a digit is passed over. -/
def skipPrefix (base : Nat) (str : List Char) : List Char :=
  if base = 16 ∧ (str.take 2 = ['0', 'x'] ∨ str.take 2 = ['0', 'X']) ∧
      (str.drop 2).head?.any (isDigit 16) then
    str.drop 2
  else str

/-- The integer in front of a text and what is behind it, unless there is none. -/
def scan (base : Nat) (str : List Char) : Option (Int × List Char) :=
  let (neg, unsigned) := takeSign (str.dropWhile isSpace)
  let body := skipPrefix base unsigned
  let digits := body.takeWhile (isDigit base)
  if digits = [] then none
  else
    let n : Int := value base digits
    some (if neg then -n else n, body.dropWhile (isDigit base))

def LONG_MIN : Int := -2 ^ 63

def LONG_MAX : Int := 2 ^ 63 - 1

/-- `strtol`: the integer in front of the string, or the bound it is beyond, and what is left
of the string. -/
def strtol (str : List Char) (base : Nat) : Int × List Char :=
  match scan base str with
  | none => (0, str)
  | some (n, rest) => (max LONG_MIN (min n LONG_MAX), rest)

/-- From end to end, the text is a numeral that stands for `n`. -/
def Denotes (base : Nat) (str : List Char) (n : Int) : Prop :=
  ∃ spaces sign mark digits, str = spaces ++ (sign ++ (mark ++ digits)) ∧
    (∀ c ∈ spaces, isSpace c) ∧ (sign = [] ∨ sign = ['+'] ∨ sign = ['-']) ∧
    (mark = [] ∨ base = 16 ∧ (mark = ['0', 'x'] ∨ mark = ['0', 'X'])) ∧
    digits ≠ [] ∧ (∀ c ∈ digits, isDigit base c) ∧
    n = if sign = ['-'] then -(value base digits : Int) else value base digits

theorem isDigit_toNat {base : Nat} {c : Char} (h : isDigit base c) :
    48 ≤ c.toNat ∧ c.toNat ≤ 57 ∨ 97 ≤ c.toNat ∧ c.toNat ≤ 122 ∨
      65 ≤ c.toNat ∧ c.toNat ≤ 90 := by
  unfold isDigit digitVal at h
  split at h
  · exact .inl ‹_›
  · split at h
    · exact .inr (.inl ‹_›)
    · split at h
      · exact .inr (.inr ‹_›)
      · cases h

theorem isDigit_mono {base base' : Nat} (hle : base ≤ base') {c : Char} (h : isDigit base c) :
    isDigit base' c := by
  unfold isDigit at h ⊢
  cases hc : digitVal c with
  | none => rw [hc] at h; cases h
  | some d =>
      rw [hc] at h
      simp only [Option.any_some, decide_eq_true_eq] at h ⊢
      omega

theorem not_isSpace {c : Char} (h : 33 ≤ c.toNat) : isSpace c = false := by
  unfold isSpace
  simp only [Bool.or_eq_false_iff, decide_eq_false_iff_not, Bool.and_eq_false_iff]
  omega

theorem isDigit_not_isSpace {base : Nat} {c : Char} (h : isDigit base c) : isSpace c = false :=
  not_isSpace (by have := isDigit_toNat h; omega)

/-! ### The parts of a numeral are told apart -/

theorem dropWhile_spaces {spaces rest : List Char} (hspaces : ∀ c ∈ spaces, isSpace c)
    (hrest : ∀ c ∈ rest.head?, isSpace c = false) :
    (spaces ++ rest).dropWhile isSpace = rest := by
  rw [List.dropWhile_append_of_pos hspaces]
  cases rest with
  | nil => rfl
  | cons c rest => rw [List.dropWhile_cons_of_neg (by simp [hrest c rfl])]

theorem takeSign_append {sign rest : List Char} (hsign : sign = [] ∨ sign = ['+'] ∨ sign = ['-'])
    (hrest : ∀ c ∈ rest.head?, c ≠ '+' ∧ c ≠ '-') :
    takeSign (sign ++ rest) = (decide (sign = ['-']), rest) := by
  unfold takeSign
  rcases hsign with rfl | rfl | rfl
  · have hplus : rest.head? ≠ some '+' := fun h => (hrest _ h).1 rfl
    have hminus : rest.head? ≠ some '-' := fun h => (hrest _ h).2 rfl
    rw [List.nil_append, if_neg hminus, if_neg hplus]
    rfl
  · rfl
  · rfl

theorem skipPrefix_append {base : Nat} (hle : base ≤ 16) {mark digits : List Char}
    (hmark : mark = [] ∨ base = 16 ∧ (mark = ['0', 'x'] ∨ mark = ['0', 'X']))
    (hne : digits ≠ []) (hdigits : ∀ c ∈ digits, isDigit base c) :
    skipPrefix base (mark ++ digits) = digits := by
  obtain ⟨c, ds, rfl⟩ := List.exists_cons_of_ne_nil hne
  unfold skipPrefix
  rcases hmark with rfl | ⟨rfl, hmark⟩
  · rw [List.nil_append, if_neg]
    rintro ⟨-, htake, -⟩
    -- The second digit would have to be an x.
    have hmem : ∀ x, List.take 2 (c :: ds) = ['0', x] → x ∈ c :: ds := by
      intro x h
      have hx : x ∈ List.take 2 (c :: ds) := by simp [h]
      exact List.mem_of_mem_take hx
    have hx : 'x' ∈ c :: ds ∨ 'X' ∈ c :: ds := htake.imp (hmem 'x') (hmem 'X')
    rcases hx with hx | hx
    · exact absurd (hdigits _ hx) (by simp [isDigit, digitVal]; omega)
    · exact absurd (hdigits _ hx) (by simp [isDigit, digitVal]; omega)
  · have hc : isDigit 16 c := hdigits c (List.mem_cons_self ..)
    rcases hmark with rfl | rfl
    · rw [if_pos ⟨rfl, .inl rfl, by simpa using hc⟩]
      rfl
    · rw [if_pos ⟨rfl, .inr rfl, by simpa using hc⟩]
      rfl

theorem takeSign_spec (str : List Char) :
    ∃ sign, (sign = [] ∨ sign = ['+'] ∨ sign = ['-']) ∧
      str = sign ++ (takeSign str).2 ∧ (takeSign str).1 = decide (sign = ['-']) := by
  unfold takeSign
  by_cases hminus : str.head? = some '-'
  · obtain ⟨rest, rfl⟩ := List.head?_eq_some_iff.mp hminus
    exact ⟨['-'], .inr (.inr rfl), rfl, rfl⟩
  · rw [if_neg hminus]
    by_cases hplus : str.head? = some '+'
    · obtain ⟨rest, rfl⟩ := List.head?_eq_some_iff.mp hplus
      exact ⟨['+'], .inr (.inl rfl), rfl, rfl⟩
    · rw [if_neg hplus]
      exact ⟨[], .inl rfl, rfl, rfl⟩

theorem skipPrefix_spec (base : Nat) (str : List Char) :
    ∃ mark, (mark = [] ∨ base = 16 ∧ (mark = ['0', 'x'] ∨ mark = ['0', 'X'])) ∧
      str = mark ++ skipPrefix base str := by
  unfold skipPrefix
  split
  · rename_i h
    refine ⟨str.take 2, .inr ⟨h.1, h.2.1⟩, ?_⟩
    rw [List.take_append_drop]
  · exact ⟨[], .inl rfl, rfl⟩

/-- **A text is read from end to end exactly if it is a numeral, and as what it stands for.** -/
theorem scan_eq_some_iff {base : Nat} (hle : base ≤ 16) {str : List Char} {n : Int} :
    scan base str = some (n, []) ↔ Denotes base str n := by
  constructor
  · intro h
    obtain ⟨sign, hsign, hsplit, hneg⟩ := takeSign_spec (str.dropWhile isSpace)
    obtain ⟨mark, hmark, hbody⟩ := skipPrefix_spec base (takeSign (str.dropWhile isSpace)).2
    unfold scan at h
    dsimp only at h
    generalize skipPrefix base (takeSign (str.dropWhile isSpace)).2 = body at h hbody
    split at h
    · cases h
    · rename_i hne
      obtain ⟨hn, hrest⟩ := Prod.mk.inj (Option.some.inj h)
      have hdigits : ∀ c ∈ body, isDigit base c := List.dropWhile_eq_nil_iff.mp hrest
      rw [List.takeWhile_eq_self_iff.mpr hdigits] at hn hne
      rw [hneg] at hn
      refine ⟨str.takeWhile isSpace, sign, mark, body, ?_, fun c hc => List.mem_takeWhile_imp hc,
        hsign, hmark, hne, hdigits, ?_⟩
      · rw [← hbody, ← hsplit, List.takeWhile_append_dropWhile]
      · simpa using hn.symm
  · rintro ⟨spaces, sign, mark, digits, rfl, hspaces, hsign, hmark, hne, hdigits, rfl⟩
    have hdigit : ∀ c ∈ (mark ++ digits).head?, isDigit 16 c := by
      intro c hc
      rcases hmark with rfl | ⟨rfl, rfl | rfl⟩
      · exact isDigit_mono hle (hdigits c (List.mem_of_mem_head? hc))
      · cases hc
        decide
      · cases hc
        decide
    have hbody : ∀ c ∈ (mark ++ digits).head?, c ≠ '+' ∧ c ≠ '-' := by
      intro c hc
      constructor
      · rintro rfl
        exact absurd (hdigit _ hc) (by decide)
      · rintro rfl
        exact absurd (hdigit _ hc) (by decide)
    have hfront : ∀ c ∈ (sign ++ (mark ++ digits)).head?, isSpace c = false := by
      intro c hc
      rcases hsign with rfl | rfl | rfl
      · exact isDigit_not_isSpace (hdigit c hc)
      · cases hc
        decide
      · cases hc
        decide
    unfold scan
    rw [dropWhile_spaces hspaces hfront, takeSign_append hsign hbody]
    dsimp only
    rw [skipPrefix_append hle hmark hne hdigits, List.takeWhile_eq_self_iff.mpr hdigits, if_neg hne,
      List.dropWhile_eq_nil_iff.mpr hdigits]
    simp

/-- A numeral stands for one integer. -/
theorem Denotes.unique {base : Nat} (hle : base ≤ 16) {str : List Char} {n n' : Int}
    (h : Denotes base str n) (h' : Denotes base str n') : n = n' := by
  have hscan := (scan_eq_some_iff hle).mpr h
  rw [(scan_eq_some_iff hle).mpr h'] at hscan
  cases hscan
  rfl

/-- `strtol` gets to the end of a numeral, and of nothing else that is not empty. -/
theorem strtol_iff {base : Nat} (hle : base ≤ 16) {str : List Char} {n : Int} :
    str ≠ [] ∧ strtol str base = (n, []) ↔
      ∃ m, Denotes base str m ∧ n = max LONG_MIN (min m LONG_MAX) := by
  unfold strtol
  constructor
  · rintro ⟨hne, h⟩
    cases hscan : scan base str with
    | none =>
        rw [hscan] at h
        exact absurd (Prod.mk.inj h).2 hne
    | some out =>
        obtain ⟨m, rest⟩ := out
        rw [hscan] at h
        obtain ⟨hn, rfl⟩ := Prod.mk.inj h
        exact ⟨m, (scan_eq_some_iff hle).mp hscan, hn.symm⟩
  · rintro ⟨m, hm, rfl⟩
    rw [(scan_eq_some_iff hle).mpr hm]
    refine ⟨?_, rfl⟩
    rintro rfl
    obtain ⟨spaces, sign, mark, digits, h, -, -, -, hne, -⟩ := hm
    simp only [List.nil_eq, List.append_eq_nil_iff] at h
    exact hne h.2.2.2

/-! ### Writing -/

/-- `%ld`. -/
def signed (n : Int) : List Char :=
  if n < 0 then '-' :: Nat.toDigits 10 n.natAbs else Nat.toDigits 10 n.natAbs

/-- `0x%lx`, with zeros in front up to a number of digits. -/
def hex (width n : Nat) : List Char :=
  ['0', 'x'] ++ List.leftpad width '0' (Nat.toDigits 16 n)

theorem signed_denotes (n : Int) : Denotes 10 (signed n) n := by
  have hdigits : ∀ c ∈ Nat.toDigits 10 n.natAbs, isDigit 10 c :=
    isDigit_of_mem_toDigits (by decide) (by decide) n.natAbs
  have hvalue : value 10 (Nat.toDigits 10 n.natAbs) = n.natAbs :=
    value_toDigits (by decide) (by decide) n.natAbs
  unfold signed
  by_cases hneg : n < 0
  · rw [if_pos hneg]
    refine ⟨[], ['-'], [], Nat.toDigits 10 n.natAbs, rfl, by simp, .inr (.inr rfl), .inl rfl,
      Nat.toDigits_ne_nil, hdigits, ?_⟩
    rw [if_pos rfl, hvalue]
    omega
  · rw [if_neg hneg]
    refine ⟨[], [], [], Nat.toDigits 10 n.natAbs, rfl, by simp, .inl rfl, .inl rfl,
      Nat.toDigits_ne_nil, hdigits, ?_⟩
    rw [if_neg (by decide), hvalue]
    omega

theorem signed_denotes_iff {n m : Int} : Denotes 10 (signed n) m ↔ n = m :=
  ⟨fun h => (signed_denotes n).unique (by decide) h, fun h => h ▸ signed_denotes n⟩

theorem isDigit_of_mem_leftpad {width n : Nat} {c : Char}
    (hc : c ∈ List.leftpad width '0' (Nat.toDigits 16 n)) : isDigit 16 c := by
  rcases List.mem_append.mp hc with hc | hc
  · rw [List.eq_of_mem_replicate hc]
    decide
  · exact isDigit_of_mem_toDigits (by decide) (by decide) n c hc

theorem hex_denotes (width n : Nat) : Denotes 16 (hex width n) n := by
  refine ⟨[], [], ['0', 'x'], _, rfl, by simp, .inl rfl, .inr ⟨rfl, .inl rfl⟩, ?_,
    fun c hc => isDigit_of_mem_leftpad hc, ?_⟩
  · simp [List.leftpad]
  · rw [if_neg (by decide), List.leftpad, value_replicate_zero,
      value_toDigits (by decide) (by decide)]

/-- In base 10, a number in base 16 is not a numeral. -/
theorem hex_not_denotes (width n : Nat) (m : Int) : ¬ Denotes 10 (hex width n) m := by
  intro h
  have hscan := (scan_eq_some_iff (by decide)).mpr h
  obtain ⟨rest, hrest⟩ : ∃ rest, hex width n = '0' :: 'x' :: rest := ⟨_, rfl⟩
  rw [hrest] at hscan
  cases hscan

end Numeral
