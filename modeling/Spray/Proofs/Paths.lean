/-
What a shortened path names.

The working directory and the path are compared character by character, and whatever they
have in common is cut off the path with one character more.  That is a shorter name of the
same file only where all of the working directory is in common.
-/
import Spray.Paths

namespace Spray

/-! ### What shortening a path means -/

/-- A path that `getcwd` can return. -/
structure WorkingDir (cwd : List Char) : Prop where
  absolute : cwd.head? = some '/'
  no_trailing : cwd ≠ ['/'] → cwd.getLast? ≠ some '/'

/-- What the absolute paths of the files in a directory start with. -/
def dirPrefix (cwd : List Char) : List Char := if cwd = ['/'] then cwd else cwd ++ ['/']

/-- The path as seen from a directory: the rest of it if that is a proper prefix. -/
def seenFrom (cwd path : List Char) : List Char :=
  if dirPrefix cwd <+: path ∧ path ≠ cwd then path.drop (dirPrefix cwd).length else path

/-- The absolute path a path stands for. -/
def resolve (cwd path : List Char) : List Char :=
  if path.head? = some '/' then path else dirPrefix cwd ++ path

/-- The path is shortened to the way it is seen from the working directory, and that names
the same file. -/
def NamesSameFile (cwd path : String) : Prop :=
  ∃ i short, relativeFilepath (some cwd) (some path) = .ok (some i) ∧
    stringFrom path i = .ok short ∧ short.toList = seenFrom cwd.toList path.toList ∧
    resolve cwd.toList short.toList = path.toList

/-! ### What the loop finds -/

/-- Two lists have something in common and then differ, or are the same. -/
theorem exists_common (xs ys : List Char) :
    ∃ common xs' ys', xs = common ++ xs' ∧ ys = common ++ ys' ∧
      (xs' = [] ∧ ys' = [] ∨ xs'.head? ≠ ys'.head?) := by
  induction xs generalizing ys with
  | nil =>
      cases ys with
      | nil => exact ⟨[], [], [], rfl, rfl, .inl ⟨rfl, rfl⟩⟩
      | cons y ys => exact ⟨[], [], y :: ys, rfl, rfl, .inr (by simp)⟩
  | cons x xs ih =>
      cases ys with
      | nil => exact ⟨[], x :: xs, [], rfl, rfl, .inr (by simp)⟩
      | cons y ys =>
          by_cases hxy : x = y
          · obtain ⟨common, xs', ys', hxs, hys, hdiff⟩ := ih ys
            exact ⟨x :: common, xs', ys', by rw [hxs]; rfl, by rw [hys, hxy]; rfl, hdiff⟩
          · exact ⟨[], x :: xs, y :: ys, rfl, rfl, .inr (by simpa using hxy)⟩

theorem firstDifference_of_head?_ne {xs ys : List Char} (h : xs.head? ≠ ys.head?) :
    firstDifference xs ys = .ok 0 := by
  cases xs with
  | nil =>
      cases ys with
      | nil => exact absurd rfl h
      | cons y ys => rfl
  | cons x xs =>
      cases ys with
      | nil => rfl
      | cons y ys => exact if_neg fun hxy => h (by rw [hxy]; rfl)

theorem firstDifference_append {common xs ys : List Char} (h : xs.head? ≠ ys.head?) :
    firstDifference (common ++ xs) (common ++ ys) = .ok common.length := by
  induction common with
  | nil => exact firstDifference_of_head?_ne h
  | cons c common ih =>
      rw [List.cons_append, List.cons_append, firstDifference, if_pos rfl, ih]
      rfl

theorem firstDifference_self (xs : List Char) : firstDifference xs xs = .error .undefined := by
  induction xs with
  | nil => rfl
  | cons x xs ih =>
      rw [firstDifference, if_pos rfl, ih]
      rfl

/-! ### Where a path names the same file -/

/-- The pointer that is returned for two absolute paths. -/
theorem relativeFilepath_of_common {cwd path : String} {common xs ys : List Char}
    (hcwd : cwd.toList = common ++ xs) (hpath : path.toList = common ++ ys)
    (hdiff : xs.head? ≠ ys.head?) (hne : common ≠ []) :
    relativeFilepath (some cwd) (some path) = .ok (some (common.length + 1)) := by
  have hpos : common.length ≠ 0 := fun h => hne (List.length_eq_zero_iff.mp h)
  unfold relativeFilepath
  dsimp only
  rw [hcwd, hpath, firstDifference_append hdiff]
  show (if common.length = 0 then pure (some 0) else pure (some (common.length + 1)) :
    Except Halt (Option Nat)) = _
  rw [if_neg hpos]
  rfl

/-- What a path is shortened to is the rest of it behind the part in common and one more
character. -/
theorem NamesSameFile.exists_rest {cwd path : String} (h : NamesSameFile cwd path)
    (hcwd : cwd.toList.head? = some '/') (hpath : path.toList.head? = some '/') :
    ∃ common c rest, path.toList = common ++ c :: rest ∧ common ≠ [] ∧
      resolve cwd.toList rest = path.toList := by
  obtain ⟨i, short, hi, hshort, -, hresolve⟩ := h
  obtain ⟨common, xs, ys, hxs, hys, ⟨rfl, rfl⟩ | hdiff⟩ := exists_common cwd.toList path.toList
  · -- Equal paths are read beyond their end.
    rw [List.append_nil] at hxs hys
    unfold relativeFilepath at hi
    dsimp only at hi
    rw [hxs, hys, firstDifference_self] at hi
    cases hi
  · have hne : common ≠ [] := by
      rintro rfl
      rw [hxs, List.nil_append] at hcwd
      rw [hys, List.nil_append] at hpath
      exact hdiff (hcwd.trans hpath.symm)
    cases hi.symm.trans (relativeFilepath_of_common hxs hys hdiff hne)
    unfold stringFrom at hshort
    split at hshort
    · rename_i hle
      cases hshort
      cases ys with
      | nil =>
          rw [hys, List.append_nil] at hle
          omega
      | cons c rest =>
          have hdrop : path.toList.drop (common.length + 1) = rest := by
            rw [hys, ← List.drop_drop, List.drop_left]
            rfl
          rw [String.toList_ofList, hdrop] at hresolve
          exact ⟨common, c, rest, hys, hne, hresolve⟩
    · cases hshort

theorem dirPrefix_of_ne {cwd : List Char} (h : cwd ≠ ['/']) : dirPrefix cwd = cwd ++ ['/'] :=
  if_neg h

/-- The rest names the same file only if all of the working directory has been cut off, and a
slash with it. -/
theorem NamesSameFile.below {cwd path : String} (h : NamesSameFile cwd path)
    (hcwd : cwd.toList.head? = some '/') (hpath : path.toList.head? = some '/') :
    cwd.toList ≠ ['/'] ∧
      ∃ rest, path.toList = cwd.toList ++ '/' :: rest ∧ rest.head? ≠ some '/' := by
  obtain ⟨common, c, rest, hrest, hne, hresolve⟩ := h.exists_rest hcwd hpath
  have hpos : 0 < common.length := List.length_pos_of_ne_nil hne
  have hhead : rest.head? ≠ some '/' := by
    intro hslash
    unfold resolve at hresolve
    rw [if_pos hslash] at hresolve
    have hlength := congrArg List.length (hresolve.trans hrest)
    simp only [List.length_append, List.length_cons] at hlength
    omega
  have hbelow : dirPrefix cwd.toList = common ++ [c] := by
    unfold resolve at hresolve
    rw [if_neg hhead, hrest, ← List.singleton_append, ← List.append_assoc] at hresolve
    exact List.append_cancel_right hresolve
  have hroot : cwd.toList ≠ ['/'] := by
    intro hroot
    unfold dirPrefix at hbelow
    rw [if_pos hroot, hroot] at hbelow
    have hlength := congrArg List.length hbelow
    simp only [List.length_append, List.length_cons, List.length_nil] at hlength
    omega
  refine ⟨hroot, rest, ?_, hhead⟩
  rw [hrest, ← List.singleton_append, ← List.append_assoc, ← hbelow, dirPrefix_of_ne hroot,
    List.append_assoc, List.singleton_append]

/-- What is below the working directory is seen from there as the rest of its path. -/
theorem seenFrom_of_below {cwd path rest : List Char} (hroot : cwd ≠ ['/'])
    (hrest : path = cwd ++ '/' :: rest) :
    path = dirPrefix cwd ++ rest ∧ seenFrom cwd path = rest := by
  have hbelow : path = dirPrefix cwd ++ rest := by
    rw [dirPrefix_of_ne hroot, List.append_assoc, List.singleton_append, hrest]
  have hproper : path ≠ cwd := by
    intro heq
    have hlength := congrArg List.length (heq.symm.trans hrest)
    simp at hlength
  refine ⟨hbelow, ?_⟩
  unfold seenFrom
  rw [if_pos ⟨⟨rest, hbelow.symm⟩, hproper⟩, hbelow, List.drop_left]

/-- **A shortened path names the same file exactly if the file is below the working directory,
that is not the root, and one slash follows it in the path.** -/
theorem namesSameFile_iff {cwd path : String} (hcwd : WorkingDir cwd.toList)
    (hpath : path.toList.head? = some '/') :
    NamesSameFile cwd path ↔ cwd.toList ≠ ['/'] ∧
      ∃ rest, path.toList = cwd.toList ++ '/' :: rest ∧ rest.head? ≠ some '/' := by
  constructor
  · exact fun h => h.below hcwd.absolute hpath
  · rintro ⟨hroot, rest, hrest, hhead⟩
    have hne : cwd.toList ≠ [] := by
      intro hnil
      have habsolute := hcwd.absolute
      rw [hnil] at habsolute
      cases habsolute
    obtain ⟨hbelow, hseen⟩ := seenFrom_of_below hroot hrest
    refine ⟨cwd.toList.length + 1, String.ofList rest,
      relativeFilepath_of_common (List.append_nil _).symm hrest (by simp) hne, ?_, ?_, ?_⟩
    · unfold stringFrom
      rw [if_pos (by rw [hrest]; simp), hrest, ← List.drop_drop, List.drop_left]
      rfl
    · rw [String.toList_ofList, hseen]
    · unfold resolve
      rw [String.toList_ofList, if_neg hhead, hbelow]

theorem namesSameFile_below : NamesSameFile "/home/user" "/home/user/src/main.c" :=
  (namesSameFile_iff ⟨by simp, by simp⟩ (by simp)).mpr
    ⟨by simp, ['s', 'r', 'c', '/', 'm', 'a', 'i', 'n', '.', 'c'], by simp, by simp⟩

/-- The file's first directory loses its first letter. -/
theorem namesSameFile_fails_outside : ¬ NamesSameFile "/home/user" "/usr/include/stdio.h" := by
  rintro ⟨i, short, hi, hshort, -, hresolve⟩
  have hcwd : "/home/user".toList = ['/'] ++ ['h', 'o', 'm', 'e', '/', 'u', 's', 'e', 'r'] := by
    simp
  have hpath : "/usr/include/stdio.h".toList = ['/'] ++ ['u', 's', 'r', '/', 'i', 'n', 'c', 'l',
      'u', 'd', 'e', '/', 's', 't', 'd', 'i', 'o', '.', 'h'] := by simp
  have hindex := relativeFilepath_of_common hcwd hpath (by simp) (by simp)
  cases hi.symm.trans hindex
  simp [stringFrom] at hshort
  subst hshort
  simp [resolve, dirPrefix] at hresolve

end Spray
