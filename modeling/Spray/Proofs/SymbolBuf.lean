/-
What is kept of symbols is what would be looked up.

A symbol that has been looked up is used through a pointer, and then another one is looked up, which
may move the buffer.  As long as no pointer is used after that, the buffer makes no difference: each
symbol has the name, the addresses, the position and the file path that it has without one.
-/
import Spray.SymbolBuf

namespace Spray

variable {info : DebugInfo} {buf buf' : DebugSymbolBuf}

/-! ### Runs -/

namespace SymM

variable {α β : Type}

theorem bind_run {x : SymM α} {f : α → SymM β} {a : α} (h : x buf = some (a, buf')) :
    (x >>= f) buf = f a buf' := by
  show (x buf).bind (fun p => f p.1 p.2) = _
  rw [h]
  rfl

theorem follow_run {ref : GrowableRef} {entry : SymbolEntry} (h : buf.follow ref = some entry) :
    follow ref buf = some (entry, buf) := by
  unfold follow
  rw [h]
  rfl

end SymM

/-! ### Invariants -/

/-- What is kept of a symbol is what would be looked up. -/
structure SymbolEntry.Coherent (info : DebugInfo) (idx : Nat) (entry : SymbolEntry) : Prop where
  bufIdx : entry.bufIdx = idx
  position : ∀ p, entry.position = some p → symPosition entry.symbol info = some p
  filepath : ∀ p, entry.filepath = some p → symFilepath entry.symbol info = some p

def CoherentSymbols (info : DebugInfo) (buf : DebugSymbolBuf) : Prop :=
  ∀ idx (entry : SymbolEntry), buf.entries[idx]? = some entry → entry.Coherent info idx

/-- The symbols that have been found, in this order. -/
def symbolsOf (buf : DebugSymbolBuf) : List DebugSymbol := buf.entries.map (·.symbol)

@[simp] theorem length_symbolsOf (buf : DebugSymbolBuf) :
    (symbolsOf buf).length = buf.entries.length := List.length_map ..

/-- No pointer has become stale, and no symbol or position has changed. -/
structure StillThere (buf buf' : DebugSymbolBuf) : Prop where
  symbols : symbolsOf buf' = symbolsOf buf
  follow : ∀ ref entry, buf.follow ref = some entry → ∃ entry', buf'.follow ref = some entry' ∧
    entry'.symbol = entry.symbol ∧ ∀ p, entry.position = some p → entry'.position = some p

theorem StillThere.refl (buf : DebugSymbolBuf) : StillThere buf buf :=
  ⟨rfl, fun _ entry h => ⟨entry, h, rfl, fun _ hp => hp⟩⟩

theorem StillThere.trans {buf'' : DebugSymbolBuf} (h : StillThere buf buf')
    (h' : StillThere buf' buf'') : StillThere buf buf'' := by
  refine ⟨h'.symbols.trans h.symbols, fun ref entry hentry => ?_⟩
  obtain ⟨entry', hentry', hsymbol, hposition⟩ := h.follow ref entry hentry
  obtain ⟨entry'', hentry'', hsymbol', hposition'⟩ := h'.follow ref entry' hentry'
  exact ⟨entry'', hentry'', hsymbol'.trans hsymbol, fun p hp => hposition' p (hposition p hp)⟩

/-- The pointer points to that symbol, or both are `NULL`. -/
def PointsTo (buf : DebugSymbolBuf) : Option GrowableRef → Option DebugSymbol → Prop :=
  Option.Rel fun ref symbol => ∃ entry, buf.follow ref = some entry ∧ entry.symbol = symbol

theorem StillThere.pointsTo (h : StillThere buf buf') {ref : Option GrowableRef}
    {symbol : Option DebugSymbol} (hptr : PointsTo buf ref symbol) : PointsTo buf' ref symbol := by
  cases hptr with
  | none => exact .none
  | some hptr =>
      obtain ⟨entry, hentry, rfl⟩ := hptr
      obtain ⟨entry', hentry', hsymbol, -⟩ := h.follow _ entry hentry
      exact .some ⟨entry', hentry', hsymbol⟩

/-! ### Looking up -/

theorem initSymbolBuf_coherent : CoherentSymbols info initSymbolBuf := by
  intro idx entry h
  rw [initSymbolBuf, Growable.entries_empty] at h
  cases h

theorem allocSymbol_spec (h : CoherentSymbols info buf) (symbol : DebugSymbol) :
    ∃ ref buf', SymM.allocSymbol symbol buf = some (ref, buf') ∧ CoherentSymbols info buf' ∧
      PointsTo buf' (some ref) (some symbol) ∧
      symbolsOf buf' = symbolsOf buf ++ [symbol] := by
  let pushed : GrowableRef × DebugSymbolBuf :=
    buf.push ⟨buf.entries.length, symbol, none, none⟩
  refine ⟨pushed.1, pushed.2, rfl, ?_, .some ⟨_, Growable.follow_push_self _ _, rfl⟩, ?_⟩
  · intro idx entry hentry
    rw [Growable.entries_push] at hentry
    rcases Nat.lt_or_ge idx buf.entries.length with hlt | hge
    · rw [List.getElem?_append_left hlt] at hentry
      exact h idx entry hentry
    · rw [List.getElem?_append_right hge, List.getElem?_singleton] at hentry
      split at hentry
      case isTrue hidx =>
        cases hentry
        exact ⟨by dsimp only; omega, nofun, nofun⟩
      case isFalse => cases hentry
  · unfold symbolsOf
    rw [Growable.entries_push, List.map_append]
    rfl

/-- A symbol is found as it is without a buffer. -/
def Finds (info : DebugInfo) (buf : DebugSymbolBuf) (find : SymM (Option GrowableRef))
    (symbol : Option DebugSymbol) : Prop :=
  ∃ sym buf', find buf = some (sym, buf') ∧ CoherentSymbols info buf' ∧ PointsTo buf' sym symbol ∧
    symbolsOf buf' = symbolsOf buf ++ symbol.toList

theorem symByName_finds (h : CoherentSymbols info buf) (name : String) :
    Finds info buf (SymM.symByName info name) (symByName name info) := by
  unfold SymM.symByName symByName
  cases seSymbolFromName name info.elf with
  | none => exact ⟨none, buf, rfl, h, .none, (List.append_nil _).symm⟩
  | some elf =>
      obtain ⟨ref, buf', hrun, hcoherent, hptr, hsymbols⟩ := allocSymbol_spec h ⟨elf, none⟩
      exact ⟨some ref, buf', SymM.bind_run hrun, hcoherent, hptr, hsymbols⟩

theorem symByAddr_finds (h : CoherentSymbols info buf) (addr : DbgAddr) :
    Finds info buf (SymM.symByAddr info addr) (symByAddr addr info) := by
  unfold SymM.symByAddr symByAddr
  cases seSymbolFromAddr addr info.elf with
  | none => exact ⟨none, buf, rfl, h, .none, (List.append_nil _).symm⟩
  | some elf =>
      obtain ⟨ref, buf', hrun, hcoherent, hptr, hsymbols⟩ := allocSymbol_spec h ⟨elf, some addr⟩
      exact ⟨some ref, buf', SymM.bind_run hrun, hcoherent, hptr, hsymbols⟩

theorem find_finds (h : CoherentSymbols info buf) (lookup : SymLookup) :
    Finds info buf (lookup.find info) (lookup.symbol info) := by
  cases lookup with
  | byName name => exact symByName_finds h name
  | byAddr addr => exact symByAddr_finds h addr

/-! ### Using -/

/-- What has been got is this answer, or points to it. -/
def Means (buf : DebugSymbolBuf) : SymHeld → SymAnswer → Prop
  | .answer known, answer => known = answer
  | .position none, answer => answer = .position none
  | .position (some ref), answer => ∃ entry p, buf.follow ref = some entry ∧
      entry.position = some p ∧ answer = .position (some p)

theorem StillThere.means (h : StillThere buf buf') {held : SymHeld} {answer : SymAnswer}
    (hmeans : Means buf held answer) : Means buf' held answer := by
  cases held with
  | answer known => exact hmeans
  | position kept =>
      cases kept with
      | none => exact hmeans
      | some ref =>
          obtain ⟨entry, p, hentry, hp, rfl⟩ := hmeans
          obtain ⟨entry', hentry', -, hposition⟩ := h.follow ref entry hentry
          exact ⟨entry', p, hentry', hposition p hp, rfl⟩

/-- What is written through `mut_sym_ptr` is read through the pointer it was made of. -/
theorem writeMutSym_spec (h : CoherentSymbols info buf) {ref : GrowableRef} {entry : SymbolEntry}
    (hentry : buf.follow ref = some entry) (write : SymbolEntry → SymbolEntry)
    (hsymbol : ∀ other, (write other).symbol = other.symbol)
    (hposition : ∀ p, entry.position = some p → (write entry).position = some p)
    (hwrite : (write entry).Coherent info ref.idx) :
    ∃ buf', SymM.writeMutSym entry write buf = some ((), buf') ∧ CoherentSymbols info buf' ∧
      StillThere buf buf' ∧ buf'.follow ref = some (write entry) := by
  have hget : buf.entries[ref.idx]? = some entry := Growable.entries_of_follow hentry
  have hidx : entry.bufIdx = ref.idx := (h ref.idx entry hget).bufIdx
  have hlt : ref.idx < buf.entries.length := (List.getElem?_eq_some_iff.mp hget).1
  refine ⟨buf.modify ref.idx write, ?_, ?_,
    ⟨Growable.map_entries_modify buf ref.idx hsymbol, ?_⟩, ?_⟩
  · unfold SymM.writeMutSym
    rw [hidx, if_pos hlt]
  · intro idx other hother
    rw [Growable.entries_modify, List.getElem?_modify] at hother
    by_cases hsame : ref.idx = idx
    · subst hsame
      rw [hget] at hother
      simp only [↓reduceIte, Option.map_eq_map, Option.map_some, Option.some.injEq] at hother
      exact hother ▸ hwrite
    · simp only [hsame, ↓reduceIte, id_map'] at hother
      exact h idx other hother
  · intro other otherEntry hother
    rw [Growable.follow_modify, hother]
    by_cases hsame : other.idx = ref.idx
    · have hgot : buf.entries[ref.idx]? = some otherEntry :=
        hsame ▸ Growable.entries_of_follow hother
      cases hget.symm.trans hgot
      exact ⟨write entry, by rw [Option.map_some, if_pos hsame], hsymbol entry, hposition⟩
    · exact ⟨otherEntry, by rw [Option.map_some, if_neg hsame], rfl, fun _ hp => hp⟩
  · rw [Growable.follow_modify, hentry, Option.map_some, if_pos rfl]

theorem symFilepath_spec (h : CoherentSymbols info buf) {ref : GrowableRef} {entry : SymbolEntry}
    (hentry : buf.follow ref = some entry) :
    ∃ buf', SymM.symFilepath info (some ref) buf = some (symFilepath entry.symbol info, buf') ∧
      CoherentSymbols info buf' ∧ StillThere buf buf' := by
  have hkept := h ref.idx entry (Growable.entries_of_follow hentry)
  unfold SymM.symFilepath
  dsimp only
  rw [SymM.bind_run (SymM.follow_run hentry)]
  cases hfilepath : entry.filepath with
  | some filepath =>
      rw [hkept.filepath filepath hfilepath]
      exact ⟨buf, rfl, h, .refl buf⟩
  | none =>
      unfold symFilepath
      cases hfound : info.dbg.sdFilepathFromPc (symAddr entry.symbol) with
      | none => exact ⟨buf, rfl, h, .refl buf⟩
      | some filepath =>
          obtain ⟨buf', hrun, hcoherent, hthere, -⟩ := writeMutSym_spec h hentry
            (fun mutSym => { mutSym with filepath := some filepath }) (fun _ => rfl)
            (fun _ hp => hp) ⟨hkept.bufIdx, hkept.position, fun p hp => hfound.trans hp⟩
          exact ⟨buf', SymM.bind_run hrun, hcoherent, hthere⟩

theorem symPosition_spec (h : CoherentSymbols info buf) {ref : GrowableRef} {entry : SymbolEntry}
    (hentry : buf.follow ref = some entry) :
    ∃ held buf', SymM.symPosition info (some ref) buf = some (held, buf') ∧
      CoherentSymbols info buf' ∧ StillThere buf buf' ∧
      Means buf' (.position held) (.position (symPosition entry.symbol info)) := by
  have hkept := h ref.idx entry (Growable.entries_of_follow hentry)
  unfold SymM.symPosition
  dsimp only
  rw [SymM.bind_run (SymM.follow_run hentry)]
  cases hposition : entry.position with
  | some p =>
      rw [hkept.position p hposition]
      exact ⟨some ref, buf, rfl, h, .refl buf, entry, p, hentry, hposition, rfl⟩
  | none =>
      unfold symPosition
      dsimp only
      cases hok : (info.dbg.sdLineEntryFromPc (symAddr entry.symbol)).isOk with
      | false => exact ⟨none, buf, rfl, h, .refl buf, rfl⟩
      | true =>
          have hp : symPosition entry.symbol info =
              some ⟨(info.dbg.sdLineEntryFromPc (symAddr entry.symbol)).ln,
                (info.dbg.sdLineEntryFromPc (symAddr entry.symbol)).cl,
                (info.dbg.sdLineEntryFromPc (symAddr entry.symbol)).isExact⟩ := if_pos hok
          obtain ⟨buf', hrun, hcoherent, hthere, hwritten⟩ := writeMutSym_spec h hentry
            (fun mutSym => { mutSym with
              position := some ⟨(info.dbg.sdLineEntryFromPc (symAddr entry.symbol)).ln,
                (info.dbg.sdLineEntryFromPc (symAddr entry.symbol)).cl,
                (info.dbg.sdLineEntryFromPc (symAddr entry.symbol)).isExact⟩ }) (fun _ => rfl)
            (fun p hkeptp => by rw [hposition] at hkeptp; cases hkeptp)
            ⟨hkept.bufIdx, fun p hsome => hp.trans hsome, hkept.filepath⟩
          refine ⟨some ref, buf', SymM.bind_run hrun, hcoherent, hthere, ?_⟩
          exact ⟨_, _, hwritten, rfl, rfl⟩

/-- A use of a symbol gives what it means without a buffer. -/
theorem use_spec (h : CoherentSymbols info buf) {sym : Option GrowableRef}
    {symbol : Option DebugSymbol} (hptr : PointsTo buf sym symbol) (use : SymUse) :
    ∃ held buf', use.use info sym buf = some (held, buf') ∧ CoherentSymbols info buf' ∧
      StillThere buf buf' ∧ Means buf' held (use.answer info symbol) := by
  cases hptr with
  | none =>
      cases use with
      | position => exact ⟨.position none, buf, rfl, h, .refl buf, rfl⟩
      | _ => exact ⟨_, buf, rfl, h, .refl buf, rfl⟩
  | some hptr =>
      obtain ⟨entry, hentry, rfl⟩ := hptr
      cases use with
      | filepath =>
          obtain ⟨buf', hrun, hcoherent, hthere⟩ := symFilepath_spec h hentry
          exact ⟨_, buf', SymM.bind_run hrun, hcoherent, hthere, rfl⟩
      | position =>
          obtain ⟨held, buf', hrun, hcoherent, hthere, hmeans⟩ := symPosition_spec h hentry
          exact ⟨_, buf', SymM.bind_run hrun, hcoherent, hthere, hmeans⟩
      | _ =>
          exact ⟨_, buf, SymM.bind_run (SymM.bind_run (SymM.follow_run hentry)), h, .refl buf, rfl⟩

theorem uses_spec {sym : Option GrowableRef} {symbol : Option DebugSymbol} (uses : List SymUse) :
    ∀ {buf : DebugSymbolBuf}, CoherentSymbols info buf → PointsTo buf sym symbol →
      ∃ held buf', uses.mapM (SymUse.use info sym) buf = some (held, buf') ∧
        CoherentSymbols info buf' ∧ StillThere buf buf' ∧
        List.Forall₂ (Means buf') held (uses.map (SymUse.answer info symbol)) := by
  induction uses with
  | nil => exact fun {buf} h _ => ⟨[], buf, rfl, h, .refl buf, .nil⟩
  | cons use uses ih =>
      intro buf h hptr
      obtain ⟨held, buf', hrun, hcoherent, hthere, hmeans⟩ := use_spec h hptr use
      obtain ⟨rest, buf'', hrest, hcoherent', hthere', hmeans'⟩ :=
        ih hcoherent (hthere.pointsTo hptr)
      refine ⟨held :: rest, buf'', ?_, hcoherent', hthere.trans hthere',
        .cons (hthere'.means hmeans) hmeans'⟩
      rw [List.mapM_cons]
      exact (SymM.bind_run hrun).trans (SymM.bind_run hrest)

theorem read_spec {held : SymHeld} {answer : SymAnswer} (h : Means buf held answer) :
    held.read buf = some (answer, buf) := by
  cases held with
  | answer known => exact congrArg (fun answer => some (answer, buf)) h
  | position kept =>
      cases kept with
      | none => exact congrArg (fun answer => some (answer, buf)) h.symm
      | some ref =>
          obtain ⟨entry, p, hentry, hp, rfl⟩ := h
          have hread : SymM.readPosition (some ref) buf = some (some p, buf) := by
            refine (SymM.bind_run (SymM.follow_run hentry)).trans ?_
            rw [hp]
            rfl
          exact SymM.bind_run hread

theorem reads_spec {held : List SymHeld} {answers : List SymAnswer}
    (h : List.Forall₂ (Means buf) held answers) :
    held.mapM SymHeld.read buf = some (answers, buf) := by
  induction h with
  | nil => rfl
  | cons hmeans _ ih =>
      rw [List.mapM_cons]
      exact (SymM.bind_run (read_spec hmeans)).trans (SymM.bind_run ih)

/-! ### Symbol after symbol -/

/-- The answers that are the symbol's own. -/
def answersOf (info : DebugInfo) (asked : SymLookup × List SymUse) : List SymAnswer :=
  asked.2.map (SymUse.answer info (asked.1.symbol info))

/-- The symbols these find. -/
def foundBy (info : DebugInfo) (asked : List (SymLookup × List SymUse)) : List DebugSymbol :=
  asked.filterMap fun asked => asked.1.symbol info

theorem askSymbol_spec (h : CoherentSymbols info buf) (lookup : SymLookup) (uses : List SymUse) :
    ∃ buf', askSymbol info lookup uses buf = some (answersOf info (lookup, uses), buf') ∧
      CoherentSymbols info buf' ∧
      symbolsOf buf' = symbolsOf buf ++ (lookup.symbol info).toList := by
  obtain ⟨sym, buf', hfind, hcoherent, hptr, hsymbols⟩ := find_finds h lookup
  obtain ⟨held, buf'', huses, hcoherent', hthere, hmeans⟩ := uses_spec uses hcoherent hptr
  refine ⟨buf'', ?_, hcoherent', hthere.symbols.trans hsymbols⟩
  exact (SymM.bind_run hfind).trans ((SymM.bind_run huses).trans (reads_spec hmeans))

theorem askSymbols_spec (asked : List (SymLookup × List SymUse)) :
    ∀ {buf : DebugSymbolBuf}, CoherentSymbols info buf →
      ∃ buf', askSymbols info asked buf = some (asked.map (answersOf info), buf') ∧
        CoherentSymbols info buf' ∧ symbolsOf buf' = symbolsOf buf ++ foundBy info asked := by
  induction asked with
  | nil => exact fun {buf} h => ⟨buf, rfl, h, (List.append_nil _).symm⟩
  | cons first asked ih =>
      intro buf h
      obtain ⟨buf', hrun, hcoherent, hsymbols⟩ := askSymbol_spec h first.1 first.2
      obtain ⟨buf'', hrest, hcoherent', hsymbols'⟩ := ih hcoherent
      refine ⟨buf'', ?_, hcoherent', ?_⟩
      · unfold askSymbols
        rw [List.mapM_cons]
        exact (SymM.bind_run hrun).trans (SymM.bind_run hrest)
      · rw [hsymbols', hsymbols, List.append_assoc, foundBy, foundBy, List.filterMap_cons]
        cases first.1.symbol info with
        | none => rfl
        | some symbol => rfl

/-- **The buffer of symbols makes no difference.**  However many symbols are looked up, and
whatever each of them is asked for, again and again: no pointer is followed that has become stale,
and the answers are the ones that there are without a buffer. -/
theorem askSymbols_answers (info : DebugInfo) (asked : List (SymLookup × List SymUse)) :
    ∃ buf, askSymbols info asked initSymbolBuf = some (asked.map (answersOf info), buf) := by
  obtain ⟨buf, hrun, -⟩ := askSymbols_spec asked initSymbolBuf_coherent
  exact ⟨buf, hrun⟩

/-- A pointer to a symbol that is found after some symbols, and kept while others are found. -/
def keepSymbol (info : DebugInfo) (asked : List (SymLookup × List SymUse)) (lookup : SymLookup)
    (later : List (SymLookup × List SymUse)) : SymM (Option GrowableRef) := do
  let _ ← askSymbols info asked
  let sym ← lookup.find info
  let _ ← askSymbols info later
  return sym

/-- As long as it may be followed, a pointer points to the same symbol. -/
theorem symbol_of_follow {more : List DebugSymbol} (h : symbolsOf buf' = symbolsOf buf ++ more)
    {ref : GrowableRef} {entry entry' : SymbolEntry} (hentry : buf.follow ref = some entry)
    (hentry' : buf'.follow ref = some entry') : entry'.symbol = entry.symbol := by
  have hget : buf.entries[ref.idx]? = some entry := Growable.entries_of_follow hentry
  have hlt : ref.idx < (symbolsOf buf).length :=
    (length_symbolsOf buf).symm ▸ (List.getElem?_eq_some_iff.mp hget).1
  have hsame : (symbolsOf buf')[ref.idx]? = (symbolsOf buf)[ref.idx]? := by
    rw [h, List.getElem?_append_left hlt]
  unfold symbolsOf at hsame
  rw [List.getElem?_map, List.getElem?_map, hget, Growable.entries_of_follow hentry'] at hsame
  exact Option.some.inj hsame

/-- **When a symbol is lost.**  A symbol that is kept while others are looked up may be used, and is
the same symbol still, exactly if the number of symbols found before it lies in the same chunk of
the buffer as the number found up to then. -/
theorem keepSymbol_follow_iff (asked later : List (SymLookup × List SymUse)) {lookup : SymLookup}
    {symbol : DebugSymbol} (h : lookup.symbol info = some symbol) :
    ∃ ref buf, keepSymbol info asked lookup later initSymbolBuf = some (some ref, buf) ∧
      ((∃ entry, buf.follow ref = some entry ∧ entry.symbol = symbol) ↔
        ((foundBy info asked).length + (foundBy info later).length) / 16 =
          (foundBy info asked).length / 16) := by
  obtain ⟨buf, hasked, hcoherent, hsymbols⟩ := askSymbols_spec asked
    initSymbolBuf_coherent
  obtain ⟨sym, buf', hfind, hcoherent', hptr, hsymbols'⟩ := find_finds hcoherent lookup
  obtain ⟨buf'', hlater, -, hsymbols''⟩ := askSymbols_spec later hcoherent'
  rw [h] at hptr hsymbols'
  cases hptr with
  | @some ref symbol hptr =>
      obtain ⟨entry, hentry, rfl⟩ := hptr
      have hlength : buf'.entries.length = (foundBy info asked).length + 1 := by
        rw [← length_symbolsOf, hsymbols', hsymbols]
        simp [initSymbolBuf]
      have hlength' : buf''.entries.length =
          (foundBy info asked).length + (foundBy info later).length + 1 := by
        rw [← length_symbolsOf, hsymbols'', List.length_append, length_symbolsOf, hlength]
        omega
      refine ⟨ref, buf'', ?_, ?_⟩
      · exact (SymM.bind_run hasked).trans ((SymM.bind_run hfind).trans (SymM.bind_run hlater))
      · have hlasts : (buf''.follow ref).isSome ↔ _ :=
          Growable.follow_isSome_iff hentry (by omega)
        rw [hlength, hlength', Nat.add_sub_cancel, Nat.add_sub_cancel] at hlasts
        rw [← hlasts, Option.isSome_iff_exists]
        exact ⟨fun ⟨other, hother, _⟩ => ⟨other, hother⟩,
          fun ⟨other, hother⟩ => ⟨other, hother, symbol_of_follow hsymbols'' hentry hother⟩⟩

/-- There is a function `main`. -/
def mainInfo : DebugInfo where
  elf := ⟨.EXEC, [⟨"main", 0, 16, .STT_FUNC⟩]⟩
  dbg := ⟨fun _ => some "a.c", fun _ => { isOk := true, ln := 3 }, fun _ _ => [], fun _ _ => none⟩

/-- The sixteenth symbol is lost when the next one is found. -/
theorem keepSymbol_follow_iff_main :
    ∃ ref buf, keepSymbol mainInfo (List.replicate 15 (.byName "main", [.position]))
        (.byName "main") [(.byAddr ⟨8⟩, [.filepath])] initSymbolBuf = some (some ref, buf) ∧
      ((∃ entry, buf.follow ref = some entry ∧
          entry.symbol = ⟨⟨"main", 0, 16, .STT_FUNC⟩, none⟩) ↔
        ((foundBy mainInfo (List.replicate 15 (.byName "main", [.position]))).length +
            (foundBy mainInfo [(.byAddr ⟨8⟩, [.filepath])]).length) / 16 =
          (foundBy mainInfo (List.replicate 15 (.byName "main", [.position]))).length / 16) :=
  keepSymbol_follow_iff _ _ (by decide)

end Spray
