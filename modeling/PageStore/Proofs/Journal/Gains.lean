import PageStore.Proofs.Journal.Entries

/-!
# What a journal gains

A journal gains the entries that are written to it, after everything that it held before, whatever
that was (`Journal.Gains`).  In memory they are the last of its entries; in a file their frames end
what the file and the buffer hold.  To force a journal is to gain nothing (`force_gains`).

Once it is forced the entries that it gained are secured (`Journal.Secures`): in memory the force
covers them and all before them, and in a file they no longer wait in the buffer.  They stay so
whatever becomes of later calls (`Secures.write`, `Secures.force`).

No call of a journal fails that is sure (`Journal.Sure`): in memory none is made to, and in a file
the entries for two images of a page fit a frame (`Sure.write_ok`, `Sure.force_ok`).
-/

namespace PageStore

namespace MemoryLog

/-- What a force covered stays covered. -/
theorem covers_write (log : MemoryLog) (entry : Entry) :
    log.forcedEntries <+: (log.write entry).2.forcedEntries := by
  unfold write forcedEntries
  dsimp only
  split
  · exact List.prefix_refl _
  · rw [List.take_append]
    exact List.prefix_append _ _

theorem covers_force (log : MemoryLog) : log.forcedEntries <+: log.force.2.forcedEntries := by
  unfold force forcedEntries
  dsimp only
  split
  · exact List.prefix_refl _
  · rw [List.take_length]
    exact List.take_prefix _ _

end MemoryLog

namespace Journal

variable {journal after later : Journal} {disk disk' disk'' : Disk} {catalog : Catalog}
  {entry : Entry} {more further : List Entry}

/-- A journal and its disk after the given entries were added to what it held. -/
inductive Gains (more : List Entry) : Journal → Disk → Journal → Disk → Prop
  | memory {log after : MemoryLog} {disk disk' : Disk} (entries : after.entries = log.entries ++ more)
      (writes : after.writeFails = log.writeFails) (forces : after.forceFails = log.forceFails) :
      Gains more (.memory log) disk (.memory after) disk'
  | file {log after : FileLog} {disk disk' : Disk} (path : after.path = log.path)
      (stream : after.stream disk' = log.stream disk ++ encodeEntries more) :
      Gains more (.file log) disk (.file after) disk'

theorem Gains.trans (first : Gains more journal disk after disk')
    (second : Gains further after disk' later disk'') :
    Gains (more ++ further) journal disk later disk'' := by
  cases first with
  | memory entries writes forces =>
    cases second with
    | memory entries' writes' forces' =>
      refine .memory ?_ (writes'.trans writes) (forces'.trans forces)
      rw [entries', entries, List.append_assoc]
  | file path stream =>
    cases second with
    | file path' stream' =>
      refine .file (path'.trans path) ?_
      rw [stream', stream, encodeEntries_append, List.append_assoc]

/-- Who writes other files adds nothing to a journal. -/
theorem gains_of_disk (journal : Journal)
    (same : ∀ path, journal.path? = some path → disk'.read path = disk.read path) :
    Gains [] journal disk journal disk' := by
  cases journal with
  | memory log => exact .memory (List.append_nil _).symm rfl rfl
  | file log =>
    refine .file rfl ?_
    rw [FileLog.stream, FileLog.stream, same log.path rfl]
    exact (List.append_nil _).symm

/-- An entry that is written is gained. -/
theorem write_gains (ok : (journal.write disk entry).1 = .ok ()) :
    Gains [entry] journal disk (journal.write disk entry).2.1 (journal.write disk entry).2.2 := by
  cases journal with
  | memory log =>
    simp only [Journal.write, MemoryLog.write] at ok ⊢
    split at ok
    · cases ok
    · next works =>
      rw [if_neg works]
      exact .memory rfl rfl rfl
  | file log =>
    cases written : log.write disk entry with
    | error e =>
      simp only [Journal.write, written] at ok
      cases ok
    | ok taken =>
      obtain ⟨-, path, stream⟩ := FileLog.write_ok written
      simp only [Journal.write, written]
      refine .file path ?_
      rw [stream]
      simp [encodeEntries]

theorem force_gains (journal : Journal) (disk : Disk) :
    Gains [] journal disk (journal.force disk).2.1 (journal.force disk).2.2 := by
  cases journal with
  | memory log =>
    have same : log.force.2.entries = log.entries ∧ log.force.2.writeFails = log.writeFails ∧
        log.force.2.forceFails = log.forceFails := by
      unfold MemoryLog.force
      dsimp only
      split <;> exact ⟨rfl, rfl, rfl⟩
    exact .memory (same.1.trans (List.append_nil _).symm) same.2.1 same.2.2
  | file log =>
    refine .file rfl ?_
    show (log.flush disk).2.read log.path ++ [] = _
    rw [FileLog.read_flush]
    rfl

/-! ## What a force secures -/

/-- A journal and its disk after the given entries were added to what it held and the journal was
forced after that. -/
inductive Secures (more : List Entry) : Journal → Disk → Journal → Disk → Prop
  | memory {log after : MemoryLog} {disk disk' : Disk}
      (covered : log.entries ++ more <+: after.forcedEntries) :
      Secures more (.memory log) disk (.memory after) disk'
  | file {log after : FileLog} {disk disk' : Disk} (path : after.path = log.path)
      (stored : log.stream disk ++ encodeEntries more <+: disk'.read log.path) :
      Secures more (.file log) disk (.file after) disk'

/-- Forcing a journal secures what it gained. -/
theorem Gains.force_secures (gains : Gains more journal disk after disk')
    (ok : (after.force disk').1 = .ok ()) :
    Secures more journal disk (after.force disk').2.1 (after.force disk').2.2 := by
  cases gains with
  | @memory log after _ _ entries =>
    simp only [Journal.force, MemoryLog.force] at ok ⊢
    split at ok
    · cases ok
    · next works =>
      rw [if_neg works]
      refine .memory ?_
      simp only [MemoryLog.forcedEntries, List.take_length, entries]
      exact List.prefix_refl _
  | @file log after _ _ path stream =>
    refine .file path ?_
    rw [← stream, ← path, ← FileLog.read_flush]
    exact List.prefix_refl _

/-- What is secured comes after what was gained before. -/
theorem Gains.secures (gains : Gains more journal disk after disk')
    (secures : Secures further after disk' later disk'') :
    Secures (more ++ further) journal disk later disk'' := by
  cases gains with
  | memory entries _ _ =>
    cases secures with
    | memory covered =>
      refine .memory ?_
      rw [← List.append_assoc, ← entries]
      exact covered
  | file path stream =>
    cases secures with
    | file path' stored =>
      refine .file (path'.trans path) ?_
      rw [encodeEntries_append, ← List.append_assoc, ← stream, ← path]
      exact stored

/-- What was secured is a matter of the journal's own file. -/
theorem Secures.congr (secures : Secures more journal disk after disk')
    (same : ∀ path, after.path? = some path → disk''.read path = disk'.read path) :
    Secures more journal disk after disk'' := by
  cases secures with
  | memory covered => exact .memory covered
  | @file log other _ _ path stored =>
    refine .file path ?_
    have here : other.path = log.path := path
    rw [← here, same other.path rfl, here]
    exact stored

/-- What was secured stays so when the next entry is written, or cannot be. -/
theorem Secures.write (secures : Secures more journal disk after disk') (entry : Entry) :
    Secures more journal disk (after.write disk' entry).2.1 (after.write disk' entry).2.2 := by
  cases secures with
  | @memory log after _ _ covered =>
    exact .memory (covered.trans (after.covers_write entry))
  | @file log after _ _ path stored =>
    cases written : after.write disk' entry with
    | error e =>
      simp only [Journal.write, written]
      exact .file path stored
    | ok taken =>
      obtain ⟨-, path', -⟩ := FileLog.write_ok written
      simp only [Journal.write, written]
      refine .file (path'.trans path) (stored.trans ?_)
      rw [← path]
      exact FileLog.grows_write written

theorem Secures.force (secures : Secures more journal disk after disk') :
    Secures more journal disk (after.force disk').2.1 (after.force disk').2.2 := by
  cases secures with
  | @memory log after _ _ covered =>
    exact .memory (covered.trans after.covers_force)
  | @file log after _ _ path stored =>
    refine .file path (stored.trans ?_)
    rw [← path]
    exact after.grows_flush disk'

/-! ## Journals that do not fail -/

/-- No call of the journal fails that is about pages of a catalog. -/
inductive Sure (catalog : Catalog) : Journal → Prop
  | memory {log : MemoryLog} (writes : ∀ n, log.writeFails n = false)
      (forces : ∀ n, log.forceFails n = false) : Sure catalog (.memory log)
  | file {log : FileLog}
      (room : ∀ table file, catalog.file table = .ok file →
        32 + 2 * file.pageSize ≤ FileLog.maxEntry) :
      Sure catalog (.file log)

theorem Sure.gains (sure : journal.Sure catalog) (gains : Gains more journal disk after disk') :
    after.Sure catalog := by
  cases gains with
  | memory _ writes forces =>
    cases sure with
    | memory works holds => exact .memory (writes ▸ works) (forces ▸ holds)
  | file _ _ =>
    cases sure with
    | file room => exact .file room

/-- An entry for two images of a page is written, if the journal is sure. -/
theorem Sure.write_ok (sure : journal.Sure catalog) {table : TableId} {file : HeapFile}
    (listed : catalog.file table = .ok file) (before : entry.before.length = file.pageSize)
    (image : entry.after.length = file.pageSize) (disk : Disk) :
    (journal.write disk entry).1 = .ok () := by
  cases sure with
  | @memory log writes forces =>
    simp only [Journal.write, MemoryLog.write, writes, Bool.false_eq_true, if_false]
  | @file log room =>
    have fits : entry.encode.length ≤ FileLog.maxEntry := by
      rw [Entry.length_encode, before, image]
      have := room table file listed
      omega
    simp only [Journal.write, FileLog.write, if_pos fits]

theorem Sure.force_ok (sure : journal.Sure catalog) (disk : Disk) :
    (journal.force disk).1 = .ok () := by
  cases sure with
  | @memory log writes forces =>
    simp only [Journal.force, MemoryLog.force, forces, Bool.false_eq_true, if_false]
  | file _ => rfl

end Journal

end PageStore
