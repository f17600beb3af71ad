import PageStore.Database
import PageStore.Proofs.Schedule.System

/-!
# Systems that are opened

A database that was just opened is a fresh system (`Database.system_fresh`), and it stays fresh while
tables are registered that are in other files than the log (`Database.addFile_fresh`).  So what is
proved of every run of a fresh system is about what transactions do with such a database.

After that the catalog is left as it is, and the catalog's files stay apart from the log's.
-/

namespace PageStore.Database

variable {db opened : Database} {settings : Settings} {place : LogPlace} {disk : Disk}
  {nextTxn : TxnId} {file : HeapFile}

/-- The system of a database in which nobody has begun a call. -/
def system (db : Database) : System := ⟨db.store, .empty, db.nextTxn⟩

/-- A database that was just opened has nothing in memory and no tables yet. -/
theorem system_fresh (ok : openOn settings place disk nextTxn = .ok opened) :
    opened.system.Fresh := by
  unfold openOn at ok
  cases valid : settings.validate with
  | error e => simp [valid, bind, Except.bind] at ok
  | ok _ =>
    cases log : openLog settings place disk with
    | error e => simp [valid, log, bind, Except.bind] at ok
    | ok placed =>
      simp only [valid, log, bind, Except.bind, pure, Except.pure, Except.ok.injEq] at ok
      subst ok
      refine ⟨Catalog.sound_empty, ?_, rfl, rfl, rfl⟩
      intro table file listed
      cases listed

/-- A table can be registered whose file the log does not write. -/
theorem addFile_fresh (fresh : db.system.Fresh) {fileName name : String} {schema : Schema}
    {pageSize : Nat}
    (apart : ∀ path, db.store.disk.directory.fileAt fileName = .ok path →
      db.store.journal.path? ≠ some path) :
    (db.addFile fileName schema name pageSize).2.2.system.Fresh := by
  unfold addFile
  cases opens : HeapFile.onDisk .checked db.store.disk fileName schema pageSize with
  | error e => exact fresh
  | ok created =>
    rcases created with ⟨file, disk⟩
    rcases HeapFile.sound_of_onDisk opens with ⟨sound, here⟩
    dsimp only
    cases adds : db.store.catalog.add file name with
    | error e => exact ⟨fresh.catalog, fresh.apart, fresh.cache, fresh.locks, rfl⟩
    | ok catalog =>
      refine ⟨fresh.catalog.add file sound adds, ?_, fresh.cache, fresh.locks, rfl⟩
      intro table other listed
      rcases Catalog.file_add adds listed with ⟨-, rfl⟩ | before
      · exact apart other.path here
      · exact fresh.apart table other before

end PageStore.Database
