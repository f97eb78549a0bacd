/-
From an address to the symbol of its function.

The lookup takes the first symbol whose range holds the address, end included, and does
not ask what type the symbol has.  Functions do not overlap, but they touch, and symbols of
other types may cover them.
-/
import Spray.Elf

namespace Spray

/-- The address is in the symbol's range; the size, as ELF has it, does not count its end. -/
def ElfSym.covers (sym : ElfSym) (addr : DbgAddr) : Prop :=
  sym.stValue.toNat ≤ addr.value.toNat ∧
    addr.value.toNat < sym.stValue.toNat + sym.stSize.toNat

/-- The ranges of two functions have no address in common. -/
def ElfSym.Disjoint (sym other : ElfSym) : Prop :=
  sym.type = .STT_FUNC → other.type = .STT_FUNC → ∀ addr, ¬ (sym.covers addr ∧ other.covers addr)

/-- The address lies between start and end of the symbol, by the program's own measure. -/
def ElfSym.touches (sym : ElfSym) (addr : DbgAddr) : Bool :=
  (seSymbolStartAddr sym).value ≤ addr.value ∧ (seSymbolEndAddr sym).value ≥ addr.value

variable {sym : ElfSym} {addr : DbgAddr} {elf : ElfFile}

/-- A symbol that covers an address touches it, unless its end is past the last address. -/
theorem touches_iff_of_covers (h : sym.covers addr) :
    sym.touches addr = true ↔ sym.stValue.toNat + sym.stSize.toNat < 2 ^ 64 := by
  obtain ⟨hstart, hend⟩ := h
  have haddr := addr.value.isLt
  have hsize := sym.stSize.isLt
  unfold ElfSym.touches seSymbolStartAddr seSymbolEndAddr
  rw [decide_eq_true_iff, ge_iff_le, BitVec.le_def, BitVec.le_def, BitVec.toNat_add]
  show sym.stValue.toNat ≤ _ ∧ _ ↔ _
  constructor
  · intro ⟨_, hle⟩
    by_contra hwraps
    rw [Nat.mod_eq_sub_mod (by omega), Nat.mod_eq_of_lt (by omega)] at hle
    omega
  · intro hfits
    rw [Nat.mod_eq_of_lt hfits]
    omega

/-- **The symbol found for an address is its function exactly if no symbol in front of the
function touches the address, and the function ends below the last address.** -/
theorem seSymbolFromAddr_iff (before after : List ElfSym)
    (horder : elf.symtab = before ++ sym :: after)
    (hfunction : sym.type = .STT_FUNC) (hcovers : sym.covers addr)
    (hdisjoint : elf.symtab.Pairwise ElfSym.Disjoint) :
    seSymbolFromAddr addr elf = some sym ↔
      sym.stValue.toNat + sym.stSize.toNat < 2 ^ 64 ∧
        ∀ other ∈ before, other.touches addr = false := by
  have hother : ∀ other ∈ before, other ≠ sym := by
    rintro other hmem rfl
    rw [horder, List.pairwise_append] at hdisjoint
    exact hdisjoint.2.2 other hmem other List.mem_cons_self hfunction hfunction addr
      ⟨hcovers, hcovers⟩
  have hfind : seSymbolFromAddr addr elf = elf.symtab.find? fun s => s.touches addr := rfl
  rw [hfind, horder, List.find?_append]
  constructor
  · intro hfound
    cases hfirst : before.find? fun s => s.touches addr with
    | some other =>
        rw [hfirst, Option.some_or] at hfound
        obtain rfl := Option.some.inj hfound
        exact absurd rfl (hother other (List.mem_of_find?_eq_some hfirst))
    | none =>
        rw [hfirst, Option.none_or] at hfound
        have htouches := List.find?_some hfound
        refine ⟨(touches_iff_of_covers hcovers).mp htouches, ?_⟩
        intro other hmem
        exact Bool.eq_false_iff.mpr (List.find?_eq_none.mp hfirst other hmem)
  · intro ⟨hfits, hnone⟩
    have hfirst : before.find? (fun s => s.touches addr) = none := by
      rw [List.find?_eq_none]
      intro other hmem
      rw [hnone other hmem]
      exact Bool.false_ne_true
    have htouches := (touches_iff_of_covers hcovers).mpr hfits
    rw [hfirst, Option.none_or]
    simp [htouches]

/-! ### Two functions that touch -/

def touchingElf : ElfFile where
  type := .EXEC
  symtab :=
    [⟨"crtstuff.c", 0, 0, .STT_FILE⟩, ⟨"first", 0x1000, 0x10, .STT_FUNC⟩,
      ⟨"second", 0x1010, 0x10, .STT_FUNC⟩]

theorem touchingElf_disjoint : touchingElf.symtab.Pairwise ElfSym.Disjoint := by
  have hfile : ∀ other : ElfSym, ElfSym.Disjoint ⟨"crtstuff.c", 0, 0, .STT_FILE⟩ other := by
    intro other h
    cases h
  have hfunctions : ElfSym.Disjoint ⟨"first", 0x1000, 0x10, .STT_FUNC⟩
      ⟨"second", 0x1010, 0x10, .STT_FUNC⟩ := by
    intro _ _ addr ⟨⟨_, hend⟩, hstart, _⟩
    simp at hend hstart
    omega
  refine .cons (fun other _ => hfile other) (.cons ?_ (.cons ?_ .nil))
  · intro other hmem
    rw [List.mem_singleton.mp hmem]
    exact hfunctions
  · intro other hmem
    exact absurd hmem List.not_mem_nil

/-- Behind its first address, the second function is found. -/
theorem seSymbolFromAddr_inside :
    seSymbolFromAddr ⟨0x1014⟩ touchingElf = some ⟨"second", 0x1010, 0x10, .STT_FUNC⟩ :=
  (seSymbolFromAddr_iff
    [⟨"crtstuff.c", 0, 0, .STT_FILE⟩, ⟨"first", 0x1000, 0x10, .STT_FUNC⟩] []
    rfl rfl ⟨by decide, by decide⟩ touchingElf_disjoint).mpr ⟨by decide, by decide⟩

/-- At its first address, the first one is. -/
theorem seSymbolFromAddr_fails_touching :
    touchingElf.symtab.Pairwise ElfSym.Disjoint ∧
      ElfSym.covers ⟨"second", 0x1010, 0x10, .STT_FUNC⟩ ⟨0x1010⟩ ∧
      seSymbolFromAddr ⟨0x1010⟩ touchingElf ≠ some ⟨"second", 0x1010, 0x10, .STT_FUNC⟩ :=
  ⟨touchingElf_disjoint, ⟨by decide, by decide⟩, by decide⟩

end Spray
