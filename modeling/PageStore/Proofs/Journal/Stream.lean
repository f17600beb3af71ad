import PageStore.Proofs.Journal.ReadBack

/-!
# A log file is one stream of entries

A log in use (`Session`) is written to, forced, read and opened anew, in any order
(`Session.after`). What its file holds and then its buffer holds is at any time the frames of the
entries that were written, in that order (`Session.Streams`).  An entry reaches the file when the
buffer is emptied, or when its frame is too large for the buffer, and in both cases what was
buffered before it goes first. A log that is opened anew begins with an empty buffer, and before
anything is written to it the old one is closed, so the two never write to the file out of turn.

So nothing is lost or moved (`file_streams_entries`): the file only grows at its end, and what is
read is what was written.
-/

namespace PageStore

/-- The numbers of an entry fit the words that hold them in a log file. -/
structure Entry.Worded (entry : Entry) : Prop where
  txn : entry.txn < Word.limit 8
  table : entry.page.table < Word.limit 4
  number : entry.page.number < Word.limit 4

theorem Entry.Worded.fits {entry : Entry} (worded : entry.Worded)
    (length : entry.encode.length ≤ FileLog.maxEntry) : entry.Fits :=
  ⟨worded.txn, worded.table, worded.number, length⟩

theorem encodeEntries_append (first second : List Entry) :
    encodeEntries (first ++ second) = encodeEntries first ++ encodeEntries second :=
  List.flatMap_append

namespace FileLog

variable {log : FileLog} {disk : Disk} {path : String} {sync : Bool} {entry : Entry}

/-! ## Sessions -/

/-- What a log is used for. -/
inductive Use where
  | write (entry : Entry)
  | force
  | read
  | reopen (sync : Bool)
deriving DecidableEq, Repr, Inhabited

/-- Whether a log is written to. -/
def Use.isWrite : Use → Bool
  | write _ => true
  | force | read | reopen _ => false

/-- The entry that a use writes, unless the log refuses it because no frame can hold it. -/
def Use.taken? : Use → Option Entry
  | write entry => if entry.encode.length ≤ maxEntry then some entry else none
  | force | read | reopen _ => none

/-- A log in use. -/
structure Session where
  log : FileLog
  disk : Disk
  /-- The entries that the log took, in order. -/
  written : List Entry
deriving Inhabited

namespace Session

/-- A session that begins with opening a log. -/
def start (disk : Disk) (path : String) (sync : Bool) : Session :=
  let (log, disk) := onDisk disk path sync
  ⟨log, disk, []⟩

/-- What a use makes of a session.  A log that refuses an entry stays as it was. -/
def use (session : Session) : Use → Session
  | .write entry =>
    match session.log.write session.disk entry with
    | .ok (log, disk) => ⟨log, disk, session.written ++ [entry]⟩
    | .error _ => session
  | .force =>
    let (log, disk) := session.log.flush session.disk
    ⟨log, disk, session.written⟩
  | .read =>
    let (_, log, disk) := session.log.read session.disk
    ⟨log, disk, session.written⟩
  | .reopen sync =>
    let (log, disk) := session.log.reopen session.disk sync
    ⟨log, disk, session.written⟩

/-- A session after some uses, one after another. -/
def after (session : Session) (uses : List Use) : Session := uses.foldl use session

end Session

/-! ## The file grows at its end -/

theorem grows_flush (log : FileLog) (disk : Disk) :
    disk.read log.path <+: (log.flush disk).2.read log.path := by
  rw [read_flush]
  exact List.prefix_append _ _

theorem grows_append (log : FileLog) (disk : Disk) (data : Bytes) :
    disk.read log.path <+: (log.append disk data).2.read log.path := by
  unfold FileLog.append
  split
  · exact List.prefix_refl _
  · dsimp only
    split
    · exact log.grows_flush disk
    · refine (log.grows_flush disk).trans ?_
      rw [Disk.read_append, if_pos (by rfl)]
      exact List.prefix_append _ _

/-- What it takes for an entry to be written, and what it leads to. -/
theorem write_ok {after : FileLog} {disk' : Disk}
    (written : log.write disk entry = .ok (after, disk')) :
    entry.encode.length ≤ maxEntry ∧ after.path = log.path ∧
      after.stream disk' = log.stream disk ++ Frame.encode entry.encode := by
  by_cases small : entry.encode.length ≤ maxEntry
  · obtain ⟨other, disk'', written', path, stream⟩ := write_spec small log disk
    rw [written] at written'
    cases written'
    exact ⟨small, path, stream⟩
  · rw [FileLog.write, if_neg small] at written
    cases written

theorem grows_write {after : FileLog} {disk' : Disk}
    (written : log.write disk entry = .ok (after, disk')) :
    disk.read log.path <+: disk'.read log.path := by
  have grows := log.grows_append disk (Frame.encode entry.encode)
  unfold FileLog.write at written
  split at written
  · rw [Except.ok.inj written] at grows
    exact grows
  · cases written

/-- A log that is read leaves what emptying its buffer leaves. -/
theorem read_snd (log : FileLog) (disk : Disk) : (log.read disk).2 = log.flush disk := by
  unfold FileLog.read
  dsimp only
  split <;> rfl

/-! ## What a session keeps -/

namespace Session

variable {session : Session}

/-- The file and then the buffer hold the frames of the entries that were written, and each of these
can be read back. -/
structure Streams (path : String) (session : Session) : Prop where
  path : session.log.path = path
  stream : session.log.stream session.disk = encodeEntries session.written
  fits : ∀ entry ∈ session.written, entry.Fits

theorem streams_start (absent : disk.read path = []) (sync : Bool) :
    (start disk path sync).Streams path := by
  refine ⟨rfl, ?_, nofun⟩
  show ((disk.create path).read path) ++ [] = []
  rw [Disk.read_create, absent, List.append_nil]

/-- A log whose buffer was emptied holds what it held. -/
theorem Streams.flush (streams : session.Streams path) :
    (session.log.flush session.disk).1.stream (session.log.flush session.disk).2 =
      encodeEntries session.written := by
  have emptied : (session.log.flush session.disk).1.stream (session.log.flush session.disk).2 =
      (session.log.flush session.disk).2.read session.log.path := List.append_nil _
  rw [emptied, read_flush, streams.stream]

/-- A log that is opened anew begins where the old one, once it is closed, has ended. -/
theorem Streams.reopen (streams : session.Streams path) (sync : Bool) :
    (session.log.reopen session.disk sync).1.stream (session.log.reopen session.disk sync).2 =
      encodeEntries session.written := by
  rw [← streams.stream]
  simp [FileLog.reopen, onDisk, close, FileLog.flush, FileLog.stream]

/-- A log that takes an entry is written to, and one that refuses an entry stays as it was. -/
theorem use_write (session : Session) (entry : Entry) :
    (∃ log disk, session.log.write session.disk entry = .ok (log, disk) ∧
        session.use (.write entry) = ⟨log, disk, session.written ++ [entry]⟩) ∨
      (maxEntry < entry.encode.length ∧ session.use (.write entry) = session) := by
  by_cases small : entry.encode.length ≤ maxEntry
  · obtain ⟨log, disk, written, -⟩ := write_spec small session.log session.disk
    exact .inl ⟨log, disk, written, by simp only [use, written]⟩
  · have refused : session.log.write session.disk entry =
        .error (.entryTooLong entry.encode.length) := if_neg small
    exact .inr ⟨Nat.lt_of_not_le small, by simp only [use, refused]⟩

/-- Reading leaves what forcing leaves. -/
theorem use_read (session : Session) : session.use .read = session.use .force := by
  have same := session.log.read_snd session.disk
  show Session.mk (session.log.read session.disk).2.1 (session.log.read session.disk).2.2 _ = _
  rw [same]
  rfl

theorem Streams.use (streams : session.Streams path) {use : Use}
    (worded : ∀ entry, use = .write entry → entry.Worded) : (session.use use).Streams path := by
  have forced : (session.use .force).Streams path := ⟨streams.path, streams.flush, streams.fits⟩
  cases use with
  | write entry =>
    rcases session.use_write entry with ⟨log, disk, written, same⟩ | ⟨-, same⟩
    · have small := write_ok written
      rw [same]
      refine ⟨small.2.1.trans streams.path, ?_, fun other mem => ?_⟩
      · show log.stream disk = _
        rw [small.2.2, streams.stream, encodeEntries_append]
        simp
      · rcases List.mem_append.1 mem with before | now
        · exact streams.fits other before
        · rw [List.mem_singleton.1 now]
          exact (worded entry rfl).fits small.1
    · rw [same]
      exact streams
  | force => exact forced
  | read =>
    rw [use_read]
    exact forced
  | reopen sync => exact ⟨streams.path, streams.reopen sync, streams.fits⟩

/-- What a session writes is what its uses write and the log does not refuse. -/
theorem written_after (uses : List Use) (session : Session) :
    (session.after uses).written = session.written ++ uses.filterMap Use.taken? := by
  induction uses generalizing session with
  | nil => exact (List.append_nil _).symm
  | cons use uses ih =>
    have rest := ih (session.use use)
    rw [show session.after (use :: uses) = (session.use use).after uses from rfl, rest]
    cases use with
    | write entry =>
      rcases session.use_write entry with ⟨log, disk, written, same⟩ | ⟨large, same⟩
      · have taken : Use.taken? (.write entry) = some entry := if_pos (write_ok written).1
        rw [same, List.filterMap_cons_some taken, List.append_assoc, List.singleton_append]
      · have refused : Use.taken? (.write entry) = none := if_neg (Nat.not_le_of_lt large)
        rw [same, List.filterMap_cons_none refused]
    | force => rfl
    | read => rw [use_read]; rfl
    | reopen sync => rfl

theorem Streams.after {uses : List Use} (streams : session.Streams path)
    (worded : ∀ entry, .write entry ∈ uses → entry.Worded) : (session.after uses).Streams path := by
  induction uses generalizing session with
  | nil => exact streams
  | cons use uses ih =>
    have first := streams.use fun entry same => worded entry (same ▸ List.mem_cons_self)
    exact ih first fun entry mem => worded entry (List.mem_cons_of_mem _ mem)

/-- No use takes bytes out of the file, or puts any before its end. -/
theorem grows_use (session : Session) (use : Use) :
    session.disk.read session.log.path <+: (session.use use).disk.read session.log.path := by
  have forced : session.disk.read session.log.path <+:
      (session.use .force).disk.read session.log.path := session.log.grows_flush session.disk
  cases use with
  | write entry =>
    rcases session.use_write entry with ⟨log, disk, written, same⟩ | ⟨-, same⟩
    · rw [same]
      exact grows_write written
    · exact ⟨[], by rw [same, List.append_nil]⟩
  | force => exact forced
  | read =>
    rw [use_read]
    exact forced
  | reopen sync =>
    have grows := session.log.grows_flush (session.disk.create session.log.path)
    rw [Disk.read_create] at grows
    exact grows

/-- A use that does not write leaves nothing in the buffer. -/
theorem buffer_use {use : Use} (rests : use.isWrite = false) (session : Session) :
    (session.use use).log.buffer = [] := by
  cases use with
  | write entry => cases rests
  | force => rfl
  | read =>
    rw [use_read]
    rfl
  | reopen sync => rfl

/-- A log file that was not there before, and is written to, forced, read and opened anew in any
order.  At any time the bytes of the file and then those of the buffer are the frames of the entries
that were written, in order, also while a second log was opened and the first is not yet closed;
these are all entries that a frame can hold.  The file only grows at its end, a use that does not
write leaves nothing in the buffer, and reading gives the entries that were written. -/
theorem file_streams_entries {uses : List Use} (absent : disk.read path = []) (sync : Bool)
    (worded : ∀ entry, .write entry ∈ uses → entry.Worded) :
    let session := (start disk path sync).after uses
    session.written = uses.filterMap Use.taken? ∧
      session.disk.read path ++ session.log.buffer = encodeEntries session.written ∧
      (∀ sync, let (fresh, disk) := onDisk session.disk path sync
        disk.read path ++ (session.log.buffer ++ fresh.buffer) = encodeEntries session.written) ∧
      (∀ use, session.disk.read path <+: (session.use use).disk.read path) ∧
      (∀ use, use.isWrite = false → (session.use use).log.buffer = []) ∧
      (session.log.read session.disk).1 = .ok session.written := by
  intro session
  have streams : session.Streams path := (streams_start absent sync).after worded
  have holds : session.disk.read path ++ session.log.buffer = encodeEntries session.written := by
    rw [← streams.stream, FileLog.stream, streams.path]
  refine ⟨written_after uses _, holds, fun sync => ?_, fun use => ?_,
    fun use rests => session.buffer_use rests, ?_⟩
  · show (session.disk.create path).read path ++ (session.log.buffer ++ []) = _
    rw [Disk.read_create, List.append_nil, holds]
  · rw [← streams.path]
    exact session.grows_use use
  · rw [read_fst, streams.stream, entriesOf?_encodeEntries streams.fits, answer]

/-- The statement above where an entry in the buffer goes ahead of one that is too large for it, and
another is still in the buffer when a second log is opened. -/
theorem file_streams_entries_past_buffer :
    let small : Entry := ⟨0, ⟨1, 0⟩, [0], [1]⟩
    let large : Entry := ⟨1, ⟨1, 1⟩, [], Bytes.zeros 9000⟩
    let last : Entry := ⟨2, ⟨1, 2⟩, [], [9]⟩
    let uses : List Use := [.write small, .write large, .write last, .reopen true, .write last]
    let session := (start (.empty default) "wal.log" false).after uses
    ((Disk.empty default).read "wal.log" = [] ∧ ∀ entry, .write entry ∈ uses → entry.Worded) ∧
      session.written = [small, large, last, last] ∧
      session.disk.read "wal.log" ++ session.log.buffer = encodeEntries session.written ∧
      (∀ sync, let (fresh, disk) := onDisk session.disk "wal.log" sync
        disk.read "wal.log" ++ (session.log.buffer ++ fresh.buffer) =
          encodeEntries session.written) ∧
      (∀ use, session.disk.read "wal.log" <+: (session.use use).disk.read "wal.log") ∧
      (∀ use, use.isWrite = false → (session.use use).log.buffer = []) ∧
      (session.log.read session.disk).1 = .ok session.written := by
  intro small large last uses session
  have worded : ∀ entry, .write entry ∈ uses → entry.Worded := by
    intro entry mem
    simp only [uses, List.mem_cons, List.not_mem_nil, or_false, Use.write.injEq, reduceCtorEq,
      false_or] at mem
    rcases mem with rfl | rfl | rfl | rfl <;> exact ⟨by decide, by decide, by decide⟩
  have taken : uses.filterMap Use.taken? = [small, large, last, last] := by
    simp [uses, List.filterMap_cons, Use.taken?, Entry.length_encode, small, large, last, maxEntry]
  have absent : (Disk.empty default).read "wal.log" = [] := rfl
  obtain ⟨written, streams⟩ := file_streams_entries absent false worded
  exact ⟨⟨absent, worded⟩, written.trans taken, streams⟩

end Session

end FileLog

end PageStore
