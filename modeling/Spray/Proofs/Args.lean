/-
From the command line to the debuggee.

The flags are parsed as they should be.  The copy of the arguments is one of all that
`parse_args` has counted, but it counts none unless the debuggee gets arguments besides its
own name, and `set_args` does not keep the count.
-/
import Spray.Args

namespace Spray

/-! ### The grammar of the command line -/

def ValidFlag (arg : String) : Prop := arg = "-c" ∨ arg = "--no-color"

/-- Behind the name of the program stand valid flags, then a file and then arguments for it. -/
structure CommandLine (argv : List String) (flags : List String) (file : String)
    (rest : List String) : Prop where
  shape : argv.tail = flags ++ file :: rest
  valid : ∀ flag ∈ flags, ValidFlag flag
  noDash : file.toList.head? ≠ some '-'

/-- The flags, the file and the arguments of a valid command line are set, and nothing is
changed for an invalid one. -/
structure ArgsKept (argv : List String) : Prop where
  accepts : (parseArgs argv {}).1 = .ok ↔ ∃ flags file rest, CommandLine argv flags file rest
  setup : ∀ flags file rest, CommandLine argv flags file rest → ∃ got, setupArgs argv = some got ∧
    got.file = some file ∧ (got.flags.noColor = true ↔ flags ≠ []) ∧
    got.args = (file :: rest).map some ++ [none] ∧ execvArgs got.args = file :: rest
  rejects : ∀ args, (parseArgs argv args).1 = .err → (parseArgs argv args).2.flags = args.flags

/-- The length of the array is known as well. -/
structure ArgsIntact (argv : List String) : Prop extends ArgsKept argv where
  count : ∀ flags file rest got, CommandLine argv flags file rest → setupArgs argv = some got →
    got.nArgs = (file :: rest).length

/-! ### The loop over the flags -/

variable {i : Nat} {flags : Flags} {arg : String} {rest : List String}

theorem parseFlagsLoop_flag (h : ValidFlag arg) :
    parseFlagsLoop i flags (arg :: rest) = parseFlagsLoop (i + 1) ⟨true⟩ rest := by
  rcases h with rfl | rfl
  · have hlong : ¬ argStartsWith "-c" ['-', '-'] = true := by simp [argStartsWith]
    have hshort : argStartsWith "-c" ['-'] = true := by simp [argStartsWith]
    rw [parseFlagsLoop, if_neg hlong, if_pos hshort]
    rfl
  · have hlong : argStartsWith "--no-color" ['-', '-'] = true := by simp [argStartsWith]
    rw [parseFlagsLoop, if_pos hlong]
    rfl

theorem argStartsWith_dash : argStartsWith arg ['-'] = true ↔ arg.toList.head? = some '-' := by
  unfold argStartsWith
  cases arg.toList with
  | nil => simp
  | cons c chars =>
      rw [List.isPrefixOf_cons_cons, List.isPrefixOf_nil_left, Bool.and_true, beq_iff_eq,
        List.head?_cons, Option.some.injEq]
      exact eq_comm

theorem argStartsWith_dashes (h : argStartsWith arg ['-', '-'] = true) :
    argStartsWith arg ['-'] = true := by
  unfold argStartsWith at h ⊢
  rw [List.isPrefixOf_iff_prefix] at h ⊢
  exact List.IsPrefix.trans ⟨['-'], rfl⟩ h

theorem parseFlagsLoop_file (h : arg.toList.head? ≠ some '-') :
    parseFlagsLoop i flags (arg :: rest) = some (i, flags) := by
  have hdash : ¬ argStartsWith arg ['-'] = true := fun hdash => h (argStartsWith_dash.mp hdash)
  rw [parseFlagsLoop, if_neg fun hdashes => hdash (argStartsWith_dashes hdashes), if_neg hdash]

theorem parseFlagsLoop_invalid (hdash : arg.toList.head? = some '-') (h : ¬ ValidFlag arg) :
    parseFlagsLoop i flags (arg :: rest) = none := by
  have hshort : parseShortFlag arg flags = none := if_neg fun heq => h (.inl heq)
  have hlong : parseLongFlag arg flags = none := if_neg fun heq => h (.inr heq)
  rw [parseFlagsLoop, hshort, hlong, if_pos (argStartsWith_dash.mpr hdash)]
  split <;> rfl

/-- The loop stops at the first argument that does not start with a dash. -/
theorem parseFlagsLoop_append {front rest : List String} {file : String}
    (hfront : ∀ flag ∈ front, ValidFlag flag) (hfile : file.toList.head? ≠ some '-') :
    parseFlagsLoop i flags (front ++ file :: rest) =
      some (i + front.length, ⟨flags.noColor || !front.isEmpty⟩) := by
  induction front generalizing i flags with
  | nil =>
      rw [List.nil_append, parseFlagsLoop_file hfile]
      simp
  | cons flag front ih =>
      obtain ⟨hflag, hfront⟩ := List.forall_mem_cons.mp hfront
      rw [List.cons_append, parseFlagsLoop_flag hflag, ih hfront, List.length_cons,
        Nat.add_comm front.length 1, ← Nat.add_assoc]
      simp

/-- It only gets there over flags. -/
theorem exists_front_of_parseFlagsLoop {args : List String} {res : Nat × Flags}
    (h : parseFlagsLoop i flags args = some res) : ∃ front file rest,
      args = front ++ file :: rest ∧ (∀ flag ∈ front, ValidFlag flag) ∧
      file.toList.head? ≠ some '-' := by
  induction args generalizing i flags with
  | nil => cases h
  | cons arg args ih =>
      by_cases hdash : arg.toList.head? = some '-'
      · by_cases hvalid : ValidFlag arg
        · rw [parseFlagsLoop_flag hvalid] at h
          obtain ⟨front, file, rest, rfl, hfront, hfile⟩ := ih h
          exact ⟨arg :: front, file, rest, rfl, List.forall_mem_cons.mpr ⟨hvalid, hfront⟩, hfile⟩
        · rw [parseFlagsLoop_invalid hdash hvalid] at h
          cases h
      · exact ⟨[], arg, args, rfl, List.forall_mem_nil _, hdash⟩

theorem parseFlagsLoop_eq_some_iff {args : List String} {j : Nat} {flags' : Flags} :
    parseFlagsLoop i flags args = some (j, flags') ↔ ∃ front file rest,
      args = front ++ file :: rest ∧ (∀ flag ∈ front, ValidFlag flag) ∧
      file.toList.head? ≠ some '-' ∧ j = i + front.length ∧
      flags' = ⟨flags.noColor || !front.isEmpty⟩ := by
  constructor
  · intro h
    obtain ⟨front, file, rest, rfl, hfront, hfile⟩ := exists_front_of_parseFlagsLoop h
    cases (parseFlagsLoop_append hfront hfile).symm.trans h
    exact ⟨front, file, rest, rfl, hfront, hfile, rfl, rfl⟩
  · rintro ⟨front, file, rest, rfl, hfront, hfile, rfl, rfl⟩
    exact parseFlagsLoop_append hfront hfile

/-! ### From the flags to the arguments -/

theorem parseFlagsLoop_tail_iff {argv : List String} {j : Nat} {flags' : Flags} :
    parseFlagsLoop 1 {} argv.tail = some (j, flags') ↔ ∃ front file rest,
      CommandLine argv front file rest ∧ j = 1 + front.length ∧ flags' = ⟨!front.isEmpty⟩ := by
  rw [parseFlagsLoop_eq_some_iff]
  constructor
  · rintro ⟨front, file, rest, hshape, hvalid, hdash, rfl, rfl⟩
    exact ⟨front, file, rest, ⟨hshape, hvalid, hdash⟩, rfl, rfl⟩
  · rintro ⟨front, file, rest, ⟨hshape, hvalid, hdash⟩, rfl, rfl⟩
    exact ⟨front, file, rest, hshape, hvalid, hdash, rfl, rfl⟩

theorem CommandLine.argv_eq {argv front : List String} {file : String}
    (h : CommandLine argv front file rest) : ∃ me, argv = me :: (front ++ file :: rest) := by
  cases argv with
  | nil => exact absurd h.shape (by simp)
  | cons me args => exact ⟨me, congrArg (me :: ·) h.shape⟩

/-- The arguments of the debuggee are set only if there are some behind its name. -/
theorem parseArgs_of_commandLine {argv front : List String} {file : String}
    (h : CommandLine argv front file rest) (args : Args) :
    parseArgs argv args = (.ok,
      if rest = [] then { args with flags := ⟨!front.isEmpty⟩, file := some file }
      else
        { flags := ⟨!front.isEmpty⟩, file := some file
          args := (file :: rest).map some ++ [none], nArgs := (file :: rest).length }) := by
  have hloop : parseFlagsLoop 1 {} argv.tail = some (1 + front.length, ⟨!front.isEmpty⟩) :=
    parseFlagsLoop_tail_iff.mpr ⟨front, file, rest, h, rfl, rfl⟩
  obtain ⟨me, hargv⟩ := h.argv_eq
  have hdrop : argv.drop (1 + front.length) = file :: rest := by
    rw [hargv, Nat.add_comm, List.drop_succ_cons, List.drop_left]
  have hfile : argv[1 + front.length]? = some file := by
    rw [← List.head?_drop, hdrop]
    rfl
  have hlength : argv.length = 1 + front.length + (file :: rest).length := by
    rw [hargv]
    simp
    omega
  unfold parseArgs parseFlags
  rw [hloop]
  dsimp only
  rw [hdrop, hfile, hlength, Nat.add_sub_cancel_left]
  cases rest with
  | nil => rw [if_neg (by simp), if_pos rfl]
  | cons arg rest => rw [if_pos (by simp), if_neg (by simp)]

theorem parseArgs_of_not {argv : List String}
    (h : ¬ ∃ front file rest, CommandLine argv front file rest) (args : Args) :
    parseArgs argv args = (.err, args) := by
  have hloop : parseFlagsLoop 1 {} argv.tail = none := by
    refine Option.eq_none_iff_forall_ne_some.mpr fun ⟨j, flags⟩ hsome => ?_
    obtain ⟨front, file, rest, hline, -⟩ := parseFlagsLoop_tail_iff.mp hsome
    exact h ⟨front, file, rest, hline⟩
  unfold parseArgs parseFlags
  rw [hloop]

theorem parseArgs_ok_iff {argv : List String} (args : Args) :
    (parseArgs argv args).1 = .ok ↔ ∃ front file rest, CommandLine argv front file rest := by
  constructor
  · intro hok
    by_contra hnot
    rw [parseArgs_of_not hnot] at hok
    cases hok
  · rintro ⟨front, file, rest, hline⟩
    rw [parseArgs_of_commandLine hline]

theorem parseArgs_rejects {argv : List String} (args : Args)
    (h : (parseArgs argv args).1 = .err) : (parseArgs argv args).2.flags = args.flags := by
  have hnot : ¬ ∃ front file rest, CommandLine argv front file rest := by
    intro hline
    rw [(parseArgs_ok_iff args).mpr hline] at h
    cases h
  rw [parseArgs_of_not hnot]

/-- What `get_args` returns after a valid command line. -/
theorem setupArgs_of_commandLine {argv front : List String} {file : String}
    (h : CommandLine argv front file rest) :
    setupArgs argv = some
      { flags := ⟨!front.isEmpty⟩, file := some file
        args := (if rest = [] then [] else (file :: rest).map some) ++ [none], nArgs := 0 } := by
  unfold setupArgs
  rw [parseArgs_of_commandLine h]
  by_cases hrest : rest = []
  · rw [if_pos hrest, if_pos hrest]
    rfl
  · rw [if_neg hrest, if_neg hrest]
    dsimp only [setArgs, globalArgs]
    rw [← List.length_map (f := some), List.take_left]

theorem execvArgs_map_some (args : List String) : execvArgs (args.map some ++ [none]) = args := by
  unfold execvArgs
  rw [List.takeWhile_append_of_pos (by simp)]
  simp

theorem setupArgs_kept {argv front : List String} {file : String}
    (h : CommandLine argv front file rest) (hrest : rest ≠ []) :
    ∃ got, setupArgs argv = some got ∧ got.file = some file ∧
      (got.flags.noColor = true ↔ front ≠ []) ∧
      got.args = (file :: rest).map some ++ [none] ∧ execvArgs got.args = file :: rest := by
  refine ⟨_, setupArgs_of_commandLine h, rfl, by simp, ?_, ?_⟩
  · rw [if_neg hrest]
  · rw [if_neg hrest]
    exact execvArgs_map_some (file :: rest)

/-- **The length of the arguments is never kept, and all else is kept exactly if there is an
argument for the debuggee; otherwise it is started without its own name.** -/
theorem argsIntact_and_argsKept_iff (argv : List String) :
    (ArgsIntact argv ↔ ¬ ∃ flags file rest, CommandLine argv flags file rest) ∧
    (ArgsKept argv ↔ ∀ flags file rest, CommandLine argv flags file rest → rest ≠ []) := by
  have hkept : (∀ flags file rest, CommandLine argv flags file rest → rest ≠ []) →
      ArgsKept argv := fun h =>
    ⟨parseArgs_ok_iff {}, fun flags file rest hline => setupArgs_kept hline (h _ _ _ hline),
      parseArgs_rejects⟩
  constructor
  · constructor
    · rintro h ⟨flags, file, rest, hline⟩
      have hcount := h.count _ _ _ _ hline (setupArgs_of_commandLine hline)
      exact absurd hcount (by simp)
    · intro hnot
      refine ⟨hkept fun flags file rest hline => absurd ⟨flags, file, rest, hline⟩ hnot, ?_⟩
      intro flags file rest got hline
      exact absurd ⟨flags, file, rest, hline⟩ hnot
  · constructor
    · rintro h flags file rest hline rfl
      obtain ⟨got, hgot, -, -, hargs, -⟩ := h.setup _ _ _ hline
      cases (setupArgs_of_commandLine hline).symm.trans hgot
      rw [if_pos rfl] at hargs
      exact absurd hargs (by simp)
    · exact hkept

/-- The count is 0 beside two arguments, and without arguments the debuggee gets not even its
own name. -/
theorem argsIntact_fails_print_args :
    ¬ ArgsIntact ["spray", "tests/assets/print-args.bin", "Hello"] ∧
    ¬ ArgsKept ["spray", "tests/assets/print-args.bin"] := by
  have hhello : CommandLine ["spray", "tests/assets/print-args.bin", "Hello"] []
      "tests/assets/print-args.bin" ["Hello"] := ⟨rfl, by simp, by simp⟩
  have halone : CommandLine ["spray", "tests/assets/print-args.bin"] []
      "tests/assets/print-args.bin" [] := ⟨rfl, by simp, by simp⟩
  constructor
  · intro h
    exact absurd (h.count _ _ _ _ hhello (setupArgs_of_commandLine hhello)) (by simp)
  · intro h
    obtain ⟨got, hgot, -, -, -, hexecv⟩ := h.setup _ _ _ halone
    cases (setupArgs_of_commandLine halone).symm.trans hgot
    exact absurd hexecv (by simp [execvArgs])

end Spray
