import PageStore.Journal.Basic
import PageStore.Table.Catalog

/-!
# Entries that a journal took and forced

A journal takes an entry when it is written, into memory or on its way to the log file
(`Journal.Entered`), and an entry that was taken is safe once the journal is forced
(`Journal.Forced`): then it is among the entries that the last force covered, or its frame stands at
the end of the log file.  Neither call touches any file but the journal's own, and neither moves the
journal to another file (`Journal.Keeps`).  A call that fails takes nothing and forces nothing.
-/

namespace PageStore.Journal

variable {journal after : Journal} {disk disk' : Disk} {entry : Entry} {log : FileLog}

/-- The path of the file that a journal writes, if it writes one. -/
def path? : Journal → Option String
  | memory _ => none
  | file log => some log.path

/-- No table is in the file that the journal writes. -/
def Apart (journal : Journal) (catalog : Catalog) : Prop :=
  ∀ table file, catalog.file table = .ok file → journal.path? ≠ some file.path

/-- The journal took an entry: it is in memory, or its frame ends what the file and the buffer
hold. -/
def Entered (entry : Entry) : Journal → Disk → Prop
  | memory log, _ => entry ∈ log.entries
  | file log, disk => Frame.encode entry.encode <:+ disk.read log.path ++ log.buffer

/-- The journal took an entry and was forced after that. -/
def Forced (entry : Entry) : Journal → Disk → Prop
  | memory log, _ => entry ∈ log.forcedEntries
  | file log, disk => log.buffer = [] ∧ Frame.encode entry.encode <:+ disk.read log.path

/-- A journal and its disk after calls of the journal. -/
structure Keeps (journal : Journal) (disk : Disk) (after : Journal) (disk' : Disk) : Prop where
  path : after.path? = journal.path?
  others : ∀ path, journal.path? ≠ some path → disk'.read path = disk.read path

theorem Keeps.of_disk (path : after.path? = journal.path?) : Keeps journal disk after disk :=
  ⟨path, fun _ _ => rfl⟩

theorem Keeps.append (log : FileLog) {other : FileLog} (same : other.path = log.path)
    (data : Bytes) :
    Keeps (file log) disk (file other) (disk.append log.path data) := by
  refine ⟨congrArg some same, ?_⟩
  intro path apart
  rw [Disk.read_append, if_neg]
  rintro rfl
  exact apart rfl

theorem Keeps.trans {later : Journal} {disk'' : Disk} (first : Keeps journal disk after disk')
    (second : Keeps after disk' later disk'') : Keeps journal disk later disk'' where
  path := second.path.trans first.path
  others path apart := by
    rw [second.others path (by rw [first.path]; exact apart), first.others path apart]

/-! ## Writing -/

theorem append_keeps (log : FileLog) (disk : Disk) (data : Bytes) :
    Keeps (file log) disk (file (log.append disk data).1) (log.append disk data).2 := by
  have flushed : Keeps (file log) disk (file (log.flush disk).1) (log.flush disk).2 :=
    .append log (by rfl) log.buffer
  unfold FileLog.append
  split
  · exact .of_disk rfl
  · dsimp only
    split
    · exact flushed.trans (.of_disk rfl)
    · exact flushed.trans (.append (log.flush disk).1 rfl data)

/-- What is appended ends the file together with the buffer. -/
theorem append_suffix (log : FileLog) (disk : Disk) (data : Bytes) :
    data <:+ (log.append disk data).2.read (log.append disk data).1.path ++
      (log.append disk data).1.buffer := by
  unfold FileLog.append
  split
  · exact ⟨disk.read log.path ++ log.buffer, by rw [List.append_assoc]⟩
  · dsimp only
    split
    · exact List.suffix_append _ _
    · refine ⟨(log.flush disk).2.read log.path, ?_⟩
      simp [FileLog.flush]

theorem write_keeps (journal : Journal) (disk : Disk) (entry : Entry) :
    Keeps journal disk (journal.write disk entry).2.1 (journal.write disk entry).2.2 := by
  cases journal with
  | memory log => exact .of_disk rfl
  | file log =>
    unfold Journal.write FileLog.write
    by_cases fits : entry.encode.length ≤ FileLog.maxEntry
    · simp only [fits, if_true]
      exact append_keeps log disk (Frame.encode entry.encode)
    · simp only [fits, if_false]
      exact .of_disk rfl

theorem write_entered (journal : Journal) (disk : Disk) (entry : Entry)
    (ok : (journal.write disk entry).1 = .ok ()) :
    Entered entry (journal.write disk entry).2.1 (journal.write disk entry).2.2 := by
  cases journal with
  | memory log =>
    simp only [Journal.write, MemoryLog.write] at ok ⊢
    split at ok
    · cases ok
    · next works =>
      rw [if_neg works]
      exact List.mem_append_right _ (List.mem_singleton_self entry)
  | file log =>
    by_cases fits : entry.encode.length ≤ FileLog.maxEntry
    · simp only [Journal.write, FileLog.write, fits, if_true]
      exact append_suffix log disk (Frame.encode entry.encode)
    · simp [Journal.write, FileLog.write, fits] at ok

/-! ## Forcing -/

theorem force_keeps (journal : Journal) (disk : Disk) :
    Keeps journal disk (journal.force disk).2.1 (journal.force disk).2.2 := by
  cases journal with
  | memory log => exact .of_disk rfl
  | file log => exact .append log (by rfl) log.buffer

theorem force_forced (entered : Entered entry journal disk) (ok : (journal.force disk).1 = .ok ()) :
    Forced entry (journal.force disk).2.1 (journal.force disk).2.2 := by
  cases journal with
  | memory log =>
    simp only [Journal.force, MemoryLog.force] at ok ⊢
    split at ok
    · cases ok
    · next works =>
      rw [if_neg works]
      have taken : entry ∈ log.entries := entered
      simpa [Forced, MemoryLog.forcedEntries] using taken
  | file log =>
    refine ⟨rfl, ?_⟩
    simpa [Journal.force, FileLog.flush, Entered] using entered

end PageStore.Journal
