/-
The load address of a position independent executable.

`getdelim` keeps the delimiter it stops at, and `parse_num` accepts a string only if all of
it is a number.  No line of `/proc/<pid>/maps` gets past both.
-/
import Spray.Lib.Split
import Spray.Proofs.Numbers
import Spray.Setup

namespace Spray

open Numeral

variable {W : Type} {env : Env W}

/-- The load address becomes the number that `digits` are in front of the first `-`. -/
def LoadsAddress (env : Env W) (d : Debugger W) (digits rest : List Char) : Prop :=
  ∃ d', initLoadAddress env (some (String.ofList (digits ++ '-' :: rest))) d = .ok () d' ∧
    d'.loadAddress.value.toNat = value 16 digits

theorem getdelim_of_not_mem {delim : Char} {front rest : List Char} (h : delim ∉ front) :
    getdelim delim (String.ofList (front ++ delim :: rest)) =
      some (String.ofList (front ++ [delim])) := by
  unfold getdelim
  dsimp only
  rw [String.toList_ofList, if_neg (by simp), (Split.split_at h).1, (Split.split_at h).2]
  rfl

/-- A numeral ends in a digit. -/
theorem isDigit_of_denotes_concat {base : Nat} {front : List Char} {c : Char} {n : Int}
    (h : Denotes base (front ++ [c]) n) : isDigit base c := by
  obtain ⟨spaces, sign, mark, digits, hstr, -, -, -, hne, hdigits, -⟩ := h
  have hlast := congrArg List.getLast? hstr
  simp only [← List.append_assoc] at hlast
  rw [List.getLast?_append_of_ne_nil _ hne, List.getLast?_concat] at hlast
  exact hdigits c (List.mem_of_getLast? hlast.symm)

theorem parseBase16_delimited (front : List Char) :
    parseBase16 (String.ofList (front ++ ['-'])) = none := by
  refine Option.eq_none_iff_forall_ne_some.mpr fun w hw => ?_
  obtain ⟨n, hn, -⟩ := (parseNum_eq_some_iff (by decide)).mp hw
  rw [String.toList_ofList] at hn
  exact absurd (isDigit_of_denotes_concat hn) (by decide)

theorem initLoadAddress_delimited (hdyn : env.info.elf.type = .DYN) {front : List Char}
    (hfront : '-' ∉ front) (rest : List Char) :
    initLoadAddress env (some (String.ofList (front ++ '-' :: rest))) = throw .aborted := by
  have hcheck : isDynExec env.info = true := decide_eq_true hdyn
  unfold initLoadAddress
  rw [if_pos hcheck, Option.bind_some, getdelim_of_not_mem hfront]
  dsimp only
  rw [parseBase16_delimited]

/-- **No position independent executable gets its load address: the assertion on
`parse_base16` fails whatever number its first mapping starts at.** -/
theorem not_loadsAddress (hdyn : env.info.elf.type = .DYN) (d : Debugger W)
    {digits : List Char} (hdigits : ∀ c ∈ digits, isDigit 16 c) (rest : List Char) :
    ¬ LoadsAddress env d digits rest ∧
    initLoadAddress env (some (String.ofList (digits ++ '-' :: rest))) d = .error .aborted d := by
  have hmem : '-' ∉ digits := fun h => absurd (hdigits _ h) (by decide)
  have haborts := congrFun (initLoadAddress_delimited hdyn hmem rest) d
  refine ⟨?_, haborts⟩
  rintro ⟨d', hloads, -⟩
  exact nomatch hloads.symm.trans haborts

/-- A position independent executable, about which nothing else is known. -/
def pieEnv : Env Unit :=
  { strippedEnv (stillPtrace (fun _ => none) none) with
    info := { (strippedEnv (stillPtrace (fun _ => none) none)).info with elf := ⟨.DYN, []⟩ } }

def pieDebugger : Debugger Unit := ⟨⟨initBreakpoints, ()⟩, ⟨0⟩, []⟩

/-- Where programs are loaded when their layout is not randomized. -/
theorem loadAddress_aborts_pie :
    ¬ LoadsAddress pieEnv pieDebugger ['5', '5', '5', '5', '5', '5', '5', '5', '4', '0', '0', '0']
      ['5', ' '] ∧
    initLoadAddress pieEnv (some (String.ofList (['5', '5', '5', '5', '5', '5', '5', '5', '4', '0',
      '0', '0'] ++ '-' :: ['5', ' ']))) pieDebugger = .error .aborted pieDebugger :=
  not_loadsAddress rfl pieDebugger (List.all_eq_true.mp rfl) _

/-- It fails already at the shortest number. -/
theorem loadsAddress_fails : ¬ LoadsAddress pieEnv pieDebugger ['1'] [] := by
  have haborts : initLoadAddress pieEnv (some (String.ofList (['1'] ++ '-' :: []))) =
      throw .aborted := initLoadAddress_delimited rfl (by decide) []
  rintro ⟨d', hloads, -⟩
  exact nomatch hloads.symm.trans (congrFun haborts pieDebugger)

end Spray
