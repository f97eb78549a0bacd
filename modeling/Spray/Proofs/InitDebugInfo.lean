/-
Whether programs that cannot be parsed are rejected.

`init_debug_info` compares the result of the parser with `SP_ERR`, which belongs to another
enumeration and has the value of `ELF_PARSE_IO_ERR`.  So an error of I/O is noticed, and a file
that is invalid or not supported is not.
-/
import Spray.Proofs.ElfParse
import Spray.Setup

namespace Spray

variable {D : Type} {sdDwarfInit : String → Option D} {files : String → FileCalls}
  {allocs : Allocations}

/-- Where parsing the file fails there is no debug information, and where there is, the file has
been parsed and every field set. -/
structure RejectsUnusable (sdDwarfInit : String → Option D) (files : String → FileCalls)
    (allocs : Allocations) (filepath : Option String) : Prop where
  rejects : ∀ path res elf, filepath = some path →
    seParseElf (files path) .unset = some (res, elf) → res ≠ .OK →
    initDebugInfo sdDwarfInit files allocs filepath = some none
  complete : ∀ info, initDebugInfo sdDwarfInit files allocs filepath = some (some info) →
    ∃ path, filepath = some path ∧ seParseElf (files path) .unset = some (.OK, info.elf) ∧
      info.elf.all.isSome

/-- Nothing but what the file says can keep it from being used. -/
structure ContentDecides (sdDwarfInit : String → Option D) (files : String → FileCalls)
    (allocs : Allocations) (path : String) : Prop where
  loads : (sdDwarfInit path).isSome
  allocates : allocs = ⟨true, true, true⟩
  mapped : (files path).Mapped
  inside : LooksInside (files path).content.paged
  unmaps : (files path).unmaps = true

/-! ### One call -/

theorem initDebugInfo_eq {path : String} {dbg : D} (hload : sdDwarfInit path = some dbg)
    (halloc : allocs.elf = true) : initDebugInfo sdDwarfInit files allocs (some path) =
      (seParseElf (files path) .unset).bind fun (res, elf) =>
        some (if res = .IO_ERR ∨ allocs.symbols = false ∨ allocs.info = false then none
          else some ⟨elf, dbg⟩) := by
  unfold initDebugInfo
  dsimp only
  rw [hload, halloc]
  show (seParseElf (files path) .unset).bind _ = _
  congr 1
  funext ⟨res, elf⟩
  cases allocs.symbols <;> cases allocs.info <;> cases res <;> rfl

theorem initDebugInfo_of_failure {path : String}
    (h : ¬ ((sdDwarfInit path).isSome ∧ allocs.elf = true)) :
    initDebugInfo sdDwarfInit files allocs (some path) = some none := by
  unfold initDebugInfo
  dsimp only
  cases hload : sdDwarfInit path with
  | none => rfl
  | some dbg =>
      cases halloc : allocs.elf with
      | false => rfl
      | true => exact absurd ⟨by rw [hload]; rfl, halloc⟩ h

/-- What it takes to get debug information. -/
theorem initDebugInfo_eq_some {filepath : Option String} {info : InitialInfo D}
    (h : initDebugInfo sdDwarfInit files allocs filepath = some (some info)) :
    ∃ path res, filepath = some path ∧ (sdDwarfInit path).isSome ∧
      allocs = ⟨true, true, true⟩ ∧
      seParseElf (files path) .unset = some (res, info.elf) ∧ res ≠ .IO_ERR := by
  cases filepath with
  | none => cases h
  | some path =>
      by_cases hstart : (sdDwarfInit path).isSome ∧ allocs.elf = true
      · obtain ⟨dbg, hload⟩ := Option.isSome_iff_exists.mp hstart.1
        rw [initDebugInfo_eq hload hstart.2] at h
        obtain ⟨⟨res, elf⟩, hparse, h⟩ := Option.bind_eq_some_iff.mp h
        dsimp only at h
        split at h
        · cases h
        · next hgood =>
            cases h
            rw [not_or, not_or, Bool.not_eq_false, Bool.not_eq_false] at hgood
            obtain ⟨hres, hsymbols, hinfo⟩ := hgood
            refine ⟨path, res, rfl, hstart.1, ?_, hparse, hres⟩
            obtain ⟨elfAlloc, symbolsAlloc, infoAlloc⟩ := allocs
            cases hstart.2
            cases hsymbols
            cases hinfo
            rfl
      · rw [initDebugInfo_of_failure hstart] at h
        cases h

/-- It returns if the parser does. -/
theorem exists_initDebugInfo {path : String} {res : ElfParseResult} {elf : ElfStore}
    (hparse : seParseElf (files path) .unset = some (res, elf)) :
    ∃ info, initDebugInfo sdDwarfInit files allocs (some path) = some info := by
  by_cases hstart : (sdDwarfInit path).isSome ∧ allocs.elf = true
  · obtain ⟨dbg, hload⟩ := Option.isSome_iff_exists.mp hstart.1
    rw [initDebugInfo_eq hload hstart.2, hparse]
    exact ⟨_, rfl⟩
  · exact ⟨none, initDebugInfo_of_failure hstart⟩

theorem rejectsUnusable_of_complete {filepath : Option String}
    (h : ∀ info, initDebugInfo sdDwarfInit files allocs filepath = some (some info) →
      ∃ path, filepath = some path ∧ seParseElf (files path) .unset = some (.OK, info.elf) ∧
        info.elf.all.isSome) :
    RejectsUnusable sdDwarfInit files allocs filepath := by
  refine ⟨?_, h⟩
  rintro path res elf rfl hparse hres
  obtain ⟨info, hinfo⟩ : ∃ info, initDebugInfo sdDwarfInit files allocs (some path) = some info :=
    exists_initDebugInfo hparse
  cases info with
  | none => exact hinfo
  | some info =>
      obtain ⟨path', hpath, hok, -⟩ := h info hinfo
      cases hpath
      cases hparse.symm.trans hok
      exact absurd rfl hres

/-- An unusable file gets as far as a result that is not noticed. -/
theorem initDebugInfo_of_unusable {path : String}
    (h : ContentDecides sdDwarfInit files allocs path) (hbad : ¬ Usable (files path).content.paged) :
    ∃ info res, initDebugInfo sdDwarfInit files allocs (some path) = some (some info) ∧
      seParseElf (files path) .unset = some (res, info.elf) ∧
      (res = .INVALID ∨ res = .DISLIKE) := by
  obtain ⟨hload, rfl, hmapped, hin, hunmaps⟩ := h
  obtain ⟨dbg, hdbg⟩ := Option.isSome_iff_exists.mp hload
  obtain ⟨res, elf, hparse, hres⟩ := seParseElfIn_of_unusable hmapped hin hbad .unset
  rw [if_pos hunmaps] at hparse
  change seParseElf (files path) .unset = _ at hparse
  refine ⟨⟨elf, dbg⟩, res, ?_, hparse, hres⟩
  rw [initDebugInfo_eq hdbg rfl, hparse, Option.bind_some]
  rcases hres with rfl | rfl <;> rfl

/-- A program that is cut off in its header: the zeros behind its end are no version. -/
example : (seParseElf ⟨⟨[0x7f, 0x45, 0x4c, 0x46, 2, 1, 1, 0] ++ List.replicate 8 0 ++ [2, 0, 62, 0],
    by decide⟩, true, true, true, true, fun _ => List.cons_ne_nil _ _⟩ .unset).map (·.1) =
      some .INVALID := by decide +kernel

/-- **Programs that cannot be parsed are rejected exactly where that is not left to what the file
says: a file whose header fails a check, or in which one of the tables is missing, is taken for
one that has been parsed.** -/
theorem rejectsUnusable_iff {filepath : Option String} :
    RejectsUnusable sdDwarfInit files allocs filepath ↔
      ∀ path, filepath = some path → ContentDecides sdDwarfInit files allocs path →
        Usable (files path).content.paged := by
  constructor
  · rintro h path rfl hdecides
    by_contra hbad
    obtain ⟨info, res, hinfo, hparse, hres⟩ := initDebugInfo_of_unusable hdecides hbad
    obtain ⟨path', hpath, hok, -⟩ := h.complete info hinfo
    cases hpath
    cases hparse.symm.trans hok
    rcases hres with hres | hres <;> cases hres
  · refine fun h => rejectsUnusable_of_complete fun info hinfo => ?_
    obtain ⟨path, res, rfl, hload, halloc, hparse, hres⟩ := initDebugInfo_eq_some hinfo
    have hmapped : (files path).Mapped := by
      by_contra hmapped
      have heq := hparse.symm.trans (seParseElfIn_of_not_mapped hmapped .unset)
      exact hres (congrArg Prod.fst (Option.some.inj heq))
    have hin : LooksInside (files path).content.paged := by
      by_contra hin
      cases hparse.symm.trans (seParseElfIn_of_missing hmapped hin _)
    have husable : Usable (files path).content.paged := by
      by_contra hbad
      obtain ⟨res', elf, hgaveUp, -⟩ := seParseElfIn_of_unusable hmapped hin hbad .unset
      cases hunmaps : (files path).unmaps with
      | false =>
          rw [hunmaps] at hgaveUp
          cases hparse.symm.trans hgaveUp
          exact hres rfl
      | true => exact hbad (h path rfl ⟨hload, halloc, hmapped, hin, hunmaps⟩)
    obtain ⟨elf, mapped, hok, hall, -⟩ := seParseElfIn_of_usable hmapped hin husable .unset
    cases hparse.symm.trans hok
    exact ⟨path, rfl, hok, Option.isSome_of_eq_some hall⟩

/-- The ELF header of a 32-bit program. -/
def elf32 : FileContent :=
  ⟨[0x7f, 0x45, 0x4c, 0x46, 1, 1, 1] ++ List.replicate 45 0, by decide⟩

/-- It is taken for one that has been parsed, with nothing of it set. -/
theorem rejectsUnusable_fails_elf32 :
    ¬ RejectsUnusable (D := Unit) (fun _ => some ())
      (fun _ => ⟨elf32, true, true, true, true, fun _ => List.cons_ne_nil _ _⟩)
      ⟨true, true, true⟩ (some "tests/assets/32bit-linux-simple.bin") := by
  intro h
  have hnone := h.rejects _ .DISLIKE .unset rfl rfl (fun heq => nomatch heq)
  exact nomatch hnone

end Spray
