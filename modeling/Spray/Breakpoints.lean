/-
Breakpoints (`src/breakpoints.c`).

A breakpoint is the byte `int3` written over the first byte of an instruction.
`ptrace` moves whole words, so setting and removing one each read the word at the
address, replace its lowest byte and write all eight bytes back.

The hash map the breakpoints live in is keyed by address; it is modelled as the
partial map it represents.
-/
import Spray.Ptrace

namespace Spray

structure Breakpoint where
  addr : RealAddr
  isEnabled : Bool := false
  origData : Byte := 0
  deriving DecidableEq, Repr

/-- `struct Breakpoints`: a map keyed by address.  Its `pid` is the tracee the functions
below are passed. -/
structure Breakpoints where
  map : RealAddr → Option Breakpoint
  /-- Entries are filed under their own address. -/
  keyed : ∀ {a bp}, map a = some bp → bp.addr = a

def initBreakpoints : Breakpoints := ⟨fun _ => none, by simp⟩

/-- Wrapper to make internal breakpoint look-ups more comfortable. -/
def getBreakpoint (b : Breakpoints) (addr : RealAddr) : Option Breakpoint := b.map addr

/-- `hashmap_set`: the entry's own address is the key. -/
def hashmapSet (b : Breakpoints) (entry : Breakpoint) : Breakpoints where
  map := Function.update b.map entry.addr (some entry)
  keyed := by
    intro a bp h
    by_cases ha : a = entry.addr
    · rw [ha, Function.update_self, Option.some.injEq] at h
      rw [ha, ← h]
    · rw [Function.update_of_ne ha] at h
      exact b.keyed h

/-- Did we find an enabled breakpoint? -/
def lookupBreakpoint (b : Breakpoints) (addr : RealAddr) : Bool :=
  match getBreakpoint b addr with
  | some check => check.isEnabled
  | none => false

/-- The breakpoints together with the process they are set in. -/
structure Store (W : Type) where
  breakpoints : Breakpoints
  tracee : W

variable {W : Type}

/-- Create the breakpoint first, if there is none at `addr` yet. -/
def getOrCreateBreakpoint (b : Breakpoints) (addr : RealAddr) : Breakpoint × Breakpoints :=
  match getBreakpoint b addr with
  | some bp => (bp, b)
  | none => ({ addr }, hashmapSet b { addr })

def enableBreakpoint (pt : Ptrace W) (addr : RealAddr) (s : Store W) : SprayResult × Store W :=
  let (toEnable, b) := getOrCreateBreakpoint s.breakpoints addr
  -- Re-activating an already active breakpoint would save its own trap as the original.
  if !toEnable.isEnabled then
    match ptReadMemory pt toEnable.addr s.tracee with
    | (none, w) => (.err, ⟨b, w⟩)
    | (some word, w) =>
      let origData : Byte := (word &&& btmByteMask).setWidth 8
      let int3Data := (word &&& ~~~btmByteMask) ||| int3.setWidth 64
      match ptWriteMemory pt toEnable.addr int3Data w with
      | (.err, w) => (.err, ⟨b, w⟩)
      | (.ok, w) => (.ok, ⟨hashmapSet b { addr := toEnable.addr, isEnabled := true, origData }, w⟩)
  else (.ok, ⟨b, s.tracee⟩)

def disableBreakpoint (pt : Ptrace W) (addr : RealAddr) (s : Store W) : SprayResult × Store W :=
  match getBreakpoint s.breakpoints addr with
  | none => (.ok, s)
  | some toDisable =>
    if toDisable.isEnabled then
      match ptReadMemory pt toDisable.addr s.tracee with
      | (none, w) => (.err, ⟨s.breakpoints, w⟩)
      | (some modifiedWord, w) =>
        let restoredWord := (modifiedWord &&& ~~~btmByteMask) ||| toDisable.origData.setWidth 64
        match ptWriteMemory pt toDisable.addr restoredWord w with
        | (.err, w) => (.err, ⟨s.breakpoints, w⟩)
        | (.ok, w) =>
          (.ok, ⟨hashmapSet s.breakpoints
            { addr := toDisable.addr, isEnabled := false, origData := toDisable.origData }, w⟩)
    else (.ok, s)

end Spray
