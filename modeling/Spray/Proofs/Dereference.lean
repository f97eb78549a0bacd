/-
Printing what a pointer points to.

`printVarValue` prints a value by the first node of its type that can be printed.
`printVarDerefValue` looks for a base type behind a pointer; it takes a typedef between the
two for the end of the pointer, and a pointer to a pointer for one to the base type.
-/
import Spray.PrintValue

namespace Spray

/-- The base type in front of a type, apart from modifiers. -/
def modified : SdType → Option SdBasetype
  | .baseType t :: _ => some t
  | .modifier _ :: rest => modified rest
  | _ => none

/-- The base type that the first pointer to one points to, apart from modifiers. -/
def pointedTo : SdType → Option SdBasetype
  | [] => none
  | .modifier .pointer :: rest => (modified rest).or (pointedTo rest)
  | _ :: rest => pointedTo rest

/-- The text printed for a value that belongs to a base type, or to none. -/
def printPointedTo (deref : Word) (filter : FormatFilter) : Option SdBasetype → String
  | some t => printBaseType t deref .NONE
  | none => printFormatWith deref filter "(not a pointer!)"

/-- The loop stops at a base type with a pointer in front of it. -/
theorem printVarDerefValue_go (deref : Word) (filter : FormatFilter) (type : SdType) :
    printVarDerefValue.go deref filter type false =
        printPointedTo deref filter (pointedTo type) ∧
      printVarDerefValue.go deref filter type true =
        printPointedTo deref filter ((modified type).or (pointedTo type)) := by
  induction type with
  | nil => exact ⟨rfl, rfl⟩
  | cons node rest ih =>
      obtain ⟨hfalse, htrue⟩ := ih
      cases node with
      | baseType t => exact ⟨hfalse, rfl⟩
      | modifier m =>
          cases m with
          | pointer =>
              refine ⟨htrue, htrue.trans (congrArg _ ?_)⟩
              show _ = (modified rest).or ((modified rest).or (pointedTo rest))
              rw [← Option.or_assoc, Option.or_self]
          | _ => exact ⟨hfalse, htrue⟩
      | unspecified => exact ⟨hfalse, hfalse⟩
      | typedef => exact ⟨hfalse, hfalse⟩

/-! ### Texts that differ -/

/-- A character of a number in base 10. -/
def isNumeric (c : Char) : Bool := Numeral.isDigit 10 c || c = '-' || c = '.'

theorem toDigits_isNumeric (n : Nat) : ∀ c ∈ Nat.toDigits 10 n, isNumeric c := by
  intro c hc
  have hdigit : Numeral.isDigit 10 c :=
    Numeral.isDigit_of_mem_toDigits (by decide) (by decide) n c hc
  simp [isNumeric, hdigit]

theorem printSigned_isNumeric (width : Nat) (value : Word) :
    ∀ c ∈ (printSigned width value).toList, isNumeric c := by
  intro c hc
  rw [printSigned, String.toList_ofList, Numeral.signed] at hc
  split at hc
  · rcases List.mem_cons.mp hc with rfl | hc
    · decide
    · exact toDigits_isNumeric _ c hc
  · exact toDigits_isNumeric _ c hc

theorem printUnsigned_isNumeric (width : Nat) (value : Word) :
    ∀ c ∈ (printUnsigned width value).toList, isNumeric c := by
  intro c hc
  rw [printUnsigned, String.toList_ofList] at hc
  exact toDigits_isNumeric _ c hc

theorem printDouble_isNumeric (n : Nat) : ∀ c ∈ (printDouble n).toList, isNumeric c := by
  intro c hc
  rw [printDouble, String.toList_ofList] at hc
  rcases List.mem_append.mp hc with hc | hc
  · exact toDigits_isNumeric _ c hc
  · rcases List.mem_cons.mp hc with rfl | hc
    · decide
    · rw [List.eq_of_mem_replicate hc]
      decide

/-- A character is in quotes, and its quotes are all there is if it is a NUL. -/
theorem printChar_quoted (value : Word) :
    (printChar value).toList.head? = some '\'' ∧ (printChar value).toList.getLast? = some '\'' := by
  rw [printChar, String.toList_ofList]
  generalize Char.ofNat (value.setWidth 8).toNat = c
  by_cases hc : c = Char.ofNat 0
  · rw [hc]
    decide
  · have hquote : '\'' ≠ Char.ofNat 0 := by decide
    simp [List.takeWhile, hc]

/-- What is printed for a base type is a character in quotes or a number. -/
theorem printBaseType_shape (t : SdBasetype) (value : Word) :
    ((printBaseType t value .NONE).toList.head? = some '\'' ∧
        (printBaseType t value .NONE).toList.getLast? = some '\'') ∨
      ∀ c ∈ (printBaseType t value .NONE).toList, isNumeric c := by
  obtain ⟨tag, size⟩ := t
  cases tag with
  | CHAR => exact .inl (printChar_quoted _)
  | SIGNED_CHAR | SHORT | INT | LONG | LONG_LONG => exact .inr (printSigned_isNumeric _ _)
  | UNSIGNED_CHAR | UNSIGNED_SHORT | UNSIGNED_INT | UNSIGNED_LONG | UNSIGNED_LONG_LONG =>
      exact .inr (printUnsigned_isNumeric _ _)
  | FLOAT | DOUBLE | LONG_DOUBLE => exact .inr (printDouble_isNumeric _)

theorem printFormatWith_getLast (value : Word) (filter : FormatFilter) :
    (printFormatWith value filter "(not a pointer!)").toList.getLast? = some ')' := by
  rw [printFormatWith, String.toList_append]
  exact List.getLast?_append_of_ne_nil _ (by decide)

theorem printFormat_addr_not_mem (value : Word) : ')' ∉ (printFormat value .ADDR).toList := by
  rw [printFormat, String.toList_ofList, Numeral.hex]
  intro h
  rcases List.mem_append.mp h with h | h
  · exact absurd h (by decide)
  · exact absurd (Numeral.isDigit_of_mem_leftpad h) (by decide)

theorem printBaseType_ne_with (t : SdBasetype) (value : Word) (filter : FormatFilter) :
    printBaseType t value .NONE ≠ printFormatWith value filter "(not a pointer!)" := by
  intro h
  have hlast := printFormatWith_getLast value filter
  rw [← h] at hlast
  rcases printBaseType_shape t value with ⟨-, hquote⟩ | hnum
  · rw [hquote] at hlast
    cases hlast
  · exact absurd (hnum _ (List.mem_of_getLast? hlast)) (by decide)

/-- An address is not printed the way a base type is, nor with a message behind it. -/
theorem printPointedTo_ne_addr (value : Word) (filter : FormatFilter)
    (found : Option SdBasetype) :
    printPointedTo value filter found ≠ printFormat value .ADDR := by
  intro h
  cases found with
  | none =>
      refine printFormat_addr_not_mem value ?_
      rw [← h]
      exact List.mem_of_getLast? (printFormatWith_getLast value filter)
  | some t =>
      obtain ⟨rest, hrest⟩ : ∃ rest, (printBaseType t value .NONE).toList = '0' :: 'x' :: rest := by
        rw [show printBaseType t value .NONE = _ from h, printFormat, String.toList_ofList]
        exact ⟨_, rfl⟩
      rcases printBaseType_shape t value with ⟨hquote, -⟩ | hnum
      · rw [hrest, List.head?_cons, Option.some.injEq] at hquote
        exact absurd hquote (by decide)
      · exact absurd (hnum 'x' (by simp [hrest])) (by decide)

/-! ### One pointer less -/

/-- Behind what cannot be printed, the type goes on with this node. -/
structure Continues (type mid : SdType) (node : SdTypenode) (more : SdType) : Prop where
  type_eq : type = mid ++ node :: more
  mid_not : ∀ n ∈ mid, n.isPrintable = false
  node_is : node.isPrintable = true

/-- What the pointer points to is printed as a value of that type would be. -/
def DerefsAs (var : RuntimeVariable) (pre rest : SdType) (deref : Word) (filter : FormatFilter) :
    Prop :=
  printVarDerefValue (some { var with type := pre ++ .modifier .pointer :: rest }) deref filter =
    printVarValue (some { var with type := rest }) deref .NONE

/-- **One pointer is stripped exactly if a base type comes next and either only modifiers are
in front of it, or a base type further on, behind a pointer of its own, prints alike.** -/
theorem derefsAs_iff {pre rest mid more : SdType} {node : SdTypenode}
    (hpre : ∀ n ∈ pre, n.isPrintable = false) (hrest : Continues rest mid node more)
    (var : RuntimeVariable) (deref : Word) (filter : FormatFilter) :
    DerefsAs var pre rest deref filter ↔ ∃ t, node = .baseType t ∧
      ((∀ n ∈ mid, n.isModifier = true) ∨ ∃ t', pointedTo more = some t' ∧
        printBaseType t' deref .NONE = printBaseType t deref .NONE) := by
  obtain ⟨rfl, hmid, hnode⟩ := hrest
  have hvalue : printVarValue (some { var with type := mid ++ node :: more }) deref .NONE =
      printVarValue.go deref .NONE (node :: more) := printVarValue_go_append hmid _
  have hderef : printVarDerefValue
      (some { var with type := pre ++ .modifier .pointer :: (mid ++ node :: more) }) deref filter =
      printVarDerefValue.go deref filter (node :: more) (mid.all SdTypenode.isModifier) :=
    (printVarDerefValue_go_append hpre _ false).trans (printVarDerefValue_go_append hmid _ true)
  have hmore := printVarDerefValue_go deref filter more
  unfold DerefsAs
  rw [hvalue, hderef]
  cases node with
  | baseType t =>
      cases hall : mid.all SdTypenode.isModifier with
      | true => exact ⟨fun _ => ⟨t, rfl, .inl (List.all_eq_true.mp hall)⟩, fun _ => rfl⟩
      | false =>
          have hnot : ¬ ∀ n ∈ mid, n.isModifier = true := by
            intro h
            rw [List.all_eq_true.mpr h] at hall
            cases hall
          show printVarDerefValue.go deref filter more false = printBaseType t deref .NONE ↔ _
          rw [hmore.1]
          constructor
          · intro h
            cases hfound : pointedTo more with
            | none =>
                rw [hfound] at h
                exact absurd h.symm (printBaseType_ne_with t deref filter)
            | some t' =>
                rw [hfound] at h
                exact ⟨t, rfl, .inr ⟨t', rfl, h⟩⟩
          · rintro ⟨_, ⟨⟩, hmods | ⟨t', hfound, hsame⟩⟩
            · exact absurd hmods hnot
            · rw [hfound]
              exact hsame
  | modifier m =>
      cases m with
      | pointer =>
          refine ⟨fun h => ?_, fun ⟨t, h, _⟩ => nomatch h⟩
          exact absurd (hmore.2.symm.trans h) (printPointedTo_ne_addr deref filter _)
      | _ => cases hnode
  | unspecified => cases hnode
  | typedef => cases hnode

/-! ### Pointers to a number -/

def pointerVariable : RuntimeVariable := ⟨.addr ⟨0x1000⟩, none, 1, []⟩

/-- `const int *const p`. -/
theorem derefsAs_const :
    DerefsAs pointerVariable [.modifier .const] [.modifier .const, .baseType ⟨.INT, 4⟩] 7 .BYTES :=
  (derefsAs_iff (by decide) ⟨(rfl : _ = [.modifier .const] ++ _ :: []), by decide, rfl⟩
    pointerVariable 7 .BYTES).mpr ⟨_, rfl, .inl (by decide)⟩

/-- Neither a pointer to a typedef of `int` nor a pointer to a pointer to one. -/
theorem derefsAs_fails_typedef :
    ¬ DerefsAs pointerVariable [] [.typedef, .baseType ⟨.INT, 4⟩] 7 .BYTES ∧
      ¬ DerefsAs pointerVariable [] [.modifier .pointer, .baseType ⟨.INT, 4⟩] 7 .BYTES := by
  constructor
  · intro h
    obtain ⟨t, -, hmods | ⟨t', hfound, -⟩⟩ := (derefsAs_iff (by decide)
      ⟨(rfl : _ = [.typedef] ++ _ :: []), by decide, rfl⟩ pointerVariable 7 .BYTES).mp h
    · exact absurd (hmods .typedef (by simp)) (by decide)
    · cases hfound
  · intro h
    obtain ⟨t, hnode, -⟩ := (derefsAs_iff (by decide)
      ⟨(rfl : _ = [] ++ _ :: [_]), by simp, rfl⟩ pointerVariable 7 .BYTES).mp h
    cases hnode

end Spray
