import PageStore.Proofs.Journal.Frames

/-!
# Reading a log file back

What a log reads is what its file and then its buffer hold (`FileLog.stream`, `read_fst`), and
writing an entry adds its frame there, however much of it stays in the buffer (`write_spec`).  So the
entries that were written are read back, and a torn tail after them is not
(`read_encoded_entries`).

Opening a log leaves its file as it is.  A torn tail stays in front of the entries that are written
next, and the first bytes of these are read as the rest of the torn frame
(`entries_after_torn_tail`).
-/

namespace PageStore.FileLog

variable {log : FileLog} {disk : Disk} {path : String} {sync : Bool} {entry : Entry}
  {entries : List Entry}

/-! ## What a log holds -/

/-- The bytes of the file and then those of the buffer. -/
def stream (log : FileLog) (disk : Disk) : Bytes := disk.read log.path ++ log.buffer

/-- What a log answers that has read some entries, or came to a whole frame that holds no entry. -/
def answer : Option (List Entry) → Except Error (List Entry)
  | some entries => .ok entries
  | none => .error .truncatedEntry

theorem answer_eq_ok_iff {found : Option (List Entry)} :
    answer found = .ok entries ↔ found = some entries := by
  cases found <;> simp [answer]

theorem read_flush (log : FileLog) (disk : Disk) :
    (log.flush disk).2.read log.path = log.stream disk := by
  simp [flush, stream]

theorem read_fst (log : FileLog) (disk : Disk) :
    (log.read disk).1 = answer (entriesOf? (log.stream disk)) := by
  have same : (log.flush disk).1.path = log.path := rfl
  simp only [FileLog.read, same, read_flush]
  cases entriesOf? (log.stream disk) <;> rfl

theorem path_append (log : FileLog) (disk : Disk) (data : Bytes) :
    (log.append disk data).1.path = log.path := by
  unfold FileLog.append
  split
  · rfl
  · dsimp only
    split <;> rfl

theorem stream_append (log : FileLog) (disk : Disk) (data : Bytes) :
    (log.append disk data).1.stream (log.append disk data).2 = log.stream disk ++ data := by
  unfold FileLog.append
  split
  · simp [stream]
  · dsimp only
    split <;> simp [stream, flush]

/-- Writing an entry that a frame can hold adds its frame. -/
theorem write_spec (fits : entry.encode.length ≤ maxEntry) (log : FileLog) (disk : Disk) :
    ∃ after disk', log.write disk entry = .ok (after, disk') ∧ after.path = log.path ∧
      after.stream disk' = log.stream disk ++ Frame.encode entry.encode := by
  have path := log.path_append disk (Frame.encode entry.encode)
  have stream := log.stream_append disk (Frame.encode entry.encode)
  rw [FileLog.write, if_pos fits]
  generalize log.append disk (Frame.encode entry.encode) = written at path stream ⊢
  exact ⟨written.1, written.2, rfl, path, stream⟩

/-! ## Reading what was written -/

/-- A log reads the entries whose frames it holds, in order, and no torn tail after them; and where
its bytes are those of entries that were cut off anywhere, it reads those entries whose frames lie
wholly before the cut. -/
theorem read_encoded_entries (fits : ∀ entry ∈ entries, entry.Fits) (log : FileLog) (disk : Disk) :
    (∀ tail, Frame.Torn tail → log.stream disk = encodeEntries entries ++ tail →
      (log.read disk).1 = .ok entries) ∧
    ∀ cut, log.stream disk = (encodeEntries entries).take cut →
      ∃ k, WholeBefore entries cut k ∧ (log.read disk).1 = .ok (entries.take k) := by
  constructor
  · intro tail torn holds
    rw [read_fst, holds, entriesOf?_append_torn fits torn, answer]
  · intro cut holds
    obtain ⟨k, tail, whole, torn, left⟩ := exists_take_eq fits cut
    have some : ∀ entry ∈ entries.take k, entry.Fits := fun entry mem =>
      fits entry (List.mem_of_mem_take mem)
    refine ⟨k, whole, ?_⟩
    rw [read_fst, holds, left, entriesOf?_append_torn some torn, answer]

/-- The statement above for two entries, with a count and too few bytes after them, and cut off in
the frame of the second. -/
theorem read_encoded_entries_of_two :
    let first : Entry := ⟨0, ⟨1, 0⟩, [0], [1]⟩
    let second : Entry := ⟨1, ⟨1, 1⟩, [], [7]⟩
    let log : FileLog := ⟨"wal.log", false, []⟩
    let bytes := encodeEntries [first, second]
    let holding := fun bytes => (Disk.empty default).put "wal.log" bytes
    (∀ entry ∈ [first, second], entry.Fits) ∧
      (log.read (holding (bytes ++ [0, 0, 0, 200, 1, 2]))).1 = .ok [first, second] ∧
      (log.read (holding (bytes.take 50))).1 = .ok [first] := by
  intro first second log bytes holding
  have fits : ∀ entry ∈ [first, second], entry.Fits := by decide
  have held : ∀ bytes, log.stream (holding bytes) = bytes := fun bytes => by
    simp [stream, log, holding]
  refine ⟨fits, (read_encoded_entries fits log _).1 _ (by decide) (held _), ?_⟩
  obtain ⟨k, whole, read⟩ := (read_encoded_entries fits log _).2 50 (held _)
  have before : 0 < k := (whole.2 0 (by decide)).2 (by decide)
  have inside : ¬ 1 < k := fun second => absurd ((whole.2 1 (by decide)).1 second) (by decide)
  obtain rfl : k = 1 := by omega
  exact read

/-! ## Writing behind a torn tail -/

/-- Writes entries, one after another. -/
def writeAll (log : FileLog) (disk : Disk) : List Entry → Except Error (FileLog × Disk)
  | [] => .ok (log, disk)
  | entry :: entries => do
    let (log, disk) ← log.write disk entry
    log.writeAll disk entries

/-- Opens a log on a file, writes entries and forces the log. -/
def extend (disk : Disk) (path : String) (sync : Bool) (entries : List Entry) :
    Except Error (FileLog × Disk) := do
  let opened := onDisk disk path sync
  let (log, disk) ← opened.1.writeAll opened.2 entries
  return log.flush disk

theorem writeAll_spec (fits : ∀ entry ∈ entries, entry.encode.length ≤ maxEntry) (log : FileLog)
    (disk : Disk) :
    ∃ after disk', log.writeAll disk entries = .ok (after, disk') ∧ after.path = log.path ∧
      after.stream disk' = log.stream disk ++ encodeEntries entries := by
  induction entries generalizing log disk with
  | nil => exact ⟨log, disk, rfl, rfl, (List.append_nil _).symm⟩
  | cons entry entries ih =>
    obtain ⟨first, others⟩ := List.forall_mem_cons.1 fits
    obtain ⟨next, disk₁, written, path₁, stream₁⟩ := write_spec first log disk
    obtain ⟨after, disk₂, rest, path₂, stream₂⟩ := ih others next disk₁
    refine ⟨after, disk₂, ?_, path₂.trans path₁, ?_⟩
    · rw [writeAll, written]
      exact rest
    · rw [stream₂, stream₁, encodeEntries_cons, List.append_assoc]

/-- What the forced log reads is what the file held and the frames that were written. -/
theorem extend_spec (fits : ∀ entry ∈ entries, entry.encode.length ≤ maxEntry) (disk : Disk)
    (path : String) (sync : Bool) :
    ∃ log disk', extend disk path sync entries = .ok (log, disk') ∧
      disk'.read path = disk.read path ++ encodeEntries entries ∧
      log.stream disk' = disk.read path ++ encodeEntries entries := by
  obtain ⟨log, disk', written, same, stream⟩ :=
    writeAll_spec fits (onDisk disk path sync).1 (onDisk disk path sync).2
  have opened : (onDisk disk path sync).1.stream (onDisk disk path sync).2 = disk.read path := by
    simp [onDisk, FileLog.stream]
  have here : log.path = path := same
  rw [opened] at stream
  refine ⟨(log.flush disk').1, (log.flush disk').2, ?_, ?_, ?_⟩
  · simp only [extend, written]
    rfl
  · rw [← here, read_flush, stream, here]
  · rw [FileLog.stream, ← stream, ← read_flush]
    exact List.append_nil _

theorem fits_length (fits : ∀ entry ∈ entries, entry.Fits) :
    ∀ entry ∈ entries, entry.encode.length ≤ maxEntry :=
  fun entry mem => (fits entry mem).length

/-- Entries that are written and forced behind the first `cut` bytes of a frame: the file has their
frames, but what is read begins with the torn frame.  Where its count was left, these entries are
lost if they are too short to make it whole, and else their first bytes are read as its content. -/
theorem entries_after_torn_tail {kept added : List Entry} {lost : Entry} {cut : Nat}
    (kept_fits : ∀ entry ∈ kept, entry.Fits) (lost_fits : lost.Fits)
    (added_fits : ∀ entry ∈ added, entry.Fits) (inside : cut < (Frame.encode lost.encode).length)
    (torn : disk.read path = encodeEntries kept ++ (Frame.encode lost.encode).take cut)
    (sync : Bool) :
    ∃ log disk', extend disk path sync added = .ok (log, disk') ∧
      disk'.read path = disk.read path ++ encodeEntries added ∧
      (log.read disk').1 = answer (do
        let found ← entriesOf? ((Frame.encode lost.encode).take cut ++ encodeEntries added)
        return kept ++ found) ∧
      ((log.read disk').1 = .ok (kept ++ added) ↔
        entriesOf? ((Frame.encode lost.encode).take cut ++ encodeEntries added) = some added) ∧
      (cut = 0 → (log.read disk').1 = .ok (kept ++ added)) ∧
      (4 ≤ cut → (encodeEntries added).length < Frame.missing lost.encode cut →
        (log.read disk').1 = .ok kept) ∧
      (4 ≤ cut → Frame.missing lost.encode cut ≤ (encodeEntries added).length →
        (log.read disk').1 = answer (do
          let merged ← Entry.decode? (Frame.completed lost.encode cut (encodeEntries added))
          let others ← entriesOf? ((encodeEntries added).drop (Frame.missing lost.encode cut))
          return kept ++ merged :: others)) := by
  obtain ⟨log, disk', done, file, stream⟩ := extend_spec (fits_length added_fits) disk path sync
  have found : entriesOf? (log.stream disk') =
      (entriesOf? ((Frame.encode lost.encode).take cut ++ encodeEntries added)).map (kept ++ ·) := by
    rw [stream, torn, List.append_assoc, entriesOf?_append kept_fits]
  refine ⟨log, disk', done, file, ?all, ?exact, ?whole, ?lost, ?merged⟩
  all_goals rw [read_fst, found]
  case all => cases entriesOf? ((Frame.encode lost.encode).take cut ++ encodeEntries added) <;> rfl
  case exact =>
    rw [answer_eq_ok_iff]
    cases entriesOf? ((Frame.encode lost.encode).take cut ++ encodeEntries added) <;> simp
  case whole =>
    rintro rfl
    rw [List.take_zero, List.nil_append, entriesOf?_encodeEntries added_fits, Option.map_some, answer]
  case lost =>
    intro counted few
    rw [entriesOf?_of_torn (Frame.torn_take_append lost_fits.length_lt counted few),
      Option.map_some, List.append_nil, answer]
  case merged =>
    intro counted enough
    -- The count is that of the torn frame, so the scan goes on behind the bytes that complete it.
    have small : (Frame.completed lost.encode cut (encodeEntries added)).length < Word.limit 4 := by
      rw [Frame.length_completed counted inside enough]
      exact lost_fits.length_lt
    rw [Frame.take_append_eq_encode counted inside enough, entriesOf?_encode small]
    cases Entry.decode? (Frame.completed lost.encode cut (encodeEntries added)) with
    | none => rfl
    | some merged => cases entriesOf? ((encodeEntries added).drop _) <;> rfl

/-- The statement above where the count of a frame of a hundred bytes was left, and the frame of
one entry that is written next does not fill it: that entry is lost. -/
theorem entries_after_torn_tail_too_short :
    let kept : Entry := ⟨0, ⟨1, 0⟩, [0], [1]⟩
    let lost : Entry := ⟨1, ⟨1, 1⟩, [], Bytes.zeros 64⟩
    let added : Entry := ⟨2, ⟨1, 2⟩, [], [9]⟩
    let torn := (Frame.encode lost.encode).take 4
    let disk := (Disk.empty default).put "wal.log" (encodeEntries [kept] ++ torn)
    (kept.Fits ∧ lost.Fits ∧ added.Fits ∧ 4 < (Frame.encode lost.encode).length) ∧
      ∃ log disk', extend disk "wal.log" false [added] = .ok (log, disk') ∧
        (log.read disk').1 = .ok [kept] := by
  intro kept lost added torn disk
  have kept_fits : ∀ entry ∈ [kept], entry.Fits := by decide
  have added_fits : ∀ entry ∈ [added], entry.Fits := by decide
  have lost_fits : lost.Fits := by decide
  have inside : 4 < (Frame.encode lost.encode).length := by decide
  have file : disk.read "wal.log" = encodeEntries [kept] ++ torn := by simp [disk]
  obtain ⟨log, disk', done, -, -, -, -, few, -⟩ :=
    entries_after_torn_tail kept_fits lost_fits added_fits inside file false
  exact ⟨⟨kept_fits kept (.head _), lost_fits, added_fits added (.head _), inside⟩,
    log, disk', done, few (by decide) (by decide)⟩

/-- An entry that is written and forced behind a frame that lacks its last byte is not read: its
first byte completes the torn frame, and an entry is read that nobody wrote. -/
theorem torn_tail_takes_next_entry :
    let kept : Entry := ⟨0, ⟨1, 0⟩, [0], [1]⟩
    let lost : Entry := ⟨1, ⟨1, 1⟩, [], [7]⟩
    let added : Entry := ⟨2, ⟨1, 2⟩, [], [9]⟩
    let torn := (Frame.encode lost.encode).take 36
    let disk := (Disk.empty default).put "wal.log" (encodeEntries [kept] ++ torn)
    (kept.Fits ∧ lost.Fits ∧ added.Fits ∧ 36 < (Frame.encode lost.encode).length) ∧
      ∃ log disk', extend disk "wal.log" false [added] = .ok (log, disk') ∧
        (log.read disk').1 = .ok [kept, ⟨1, ⟨1, 1⟩, [], [0]⟩] ∧
        (log.read disk').1 ≠ .ok [kept, added] := by
  intro kept lost added torn disk
  have kept_fits : kept.Fits := by decide
  have added_fits : ∀ entry ∈ [added], entry.Fits := by decide
  obtain ⟨log, disk', done, -, stream⟩ := extend_spec (fits_length added_fits) disk "wal.log" false
  have bytes : log.stream disk' =
      encodeEntries [kept, ⟨1, ⟨1, 1⟩, [], [0]⟩] ++ (Frame.encode added.encode).drop 1 := by
    rw [stream, show disk.read "wal.log" = encodeEntries [kept] ++ torn by simp [disk]]
    decide
  have read : (log.read disk').1 = .ok [kept, ⟨1, ⟨1, 1⟩, [], [0]⟩] := by
    rw [read_fst, bytes, entriesOf?_append_torn (by decide) (by decide), answer]
  refine ⟨⟨kept_fits, by decide, added_fits added (.head _), by decide⟩, log, disk', done, read, ?_⟩
  rw [read, ne_eq, Except.ok.injEq]
  decide

end PageStore.FileLog
