import PageStore.Error
import PageStore.Journal.Entry

/-!
# A log in memory

Keeps every entry in order, and how many of them the last force covered.  Writing and forcing may
be made to fail: whether a call fails depends on how many calls of its sort came before it.  A
write that fails adds nothing, and a force that fails covers nothing.
-/

namespace PageStore

/-- A log in memory. -/
structure MemoryLog where
  entries : List Entry
  /-- How many entries the last force covered. -/
  forced : Nat
  /-- How many forces succeeded. -/
  forces : Nat
  /-- How many writes were tried. -/
  writesTried : Nat
  /-- How many forces were tried. -/
  forcesTried : Nat
  /-- Whether the write fails that comes after so many others. -/
  writeFails : Nat → Bool
  /-- Whether the force fails that comes after so many others. -/
  forceFails : Nat → Bool
deriving Inhabited

namespace MemoryLog

/-- The log without entries, with the calls that are to fail. -/
def failing (writeFails forceFails : Nat → Bool) : MemoryLog :=
  ⟨[], 0, 0, 0, 0, writeFails, forceFails⟩

/-- The log without entries, on which no call fails. -/
def empty : MemoryLog := failing (fun _ => false) (fun _ => false)

/-- Writes an entry. -/
def write (log : MemoryLog) (entry : Entry) : Except Error Unit × MemoryLog :=
  let tried := { log with writesTried := log.writesTried + 1 }
  if log.writeFails log.writesTried then (.error .diskFull, tried)
  else (.ok (), { tried with entries := log.entries ++ [entry] })

/-- Forces every entry written so far. -/
def force (log : MemoryLog) : Except Error Unit × MemoryLog :=
  let tried := { log with forcesTried := log.forcesTried + 1 }
  if log.forceFails log.forcesTried then (.error .diskFull, tried)
  else (.ok (), { tried with forced := log.entries.length, forces := log.forces + 1 })

/-- The entries that the last force covered. -/
def forcedEntries (log : MemoryLog) : List Entry := log.entries.take log.forced

end MemoryLog

end PageStore
