import PageStore.Journal.FileLog

/-!
# Frames of a log file

An entry whose numbers fit their words (`Entry.Fits`) is read back from its bytes, whatever follows
them (`Entry.decode?_encode`), and a whole frame at the front of a file gives its content and what
follows it (`Frame.next?_encode`).  By induction over the frames at the front, their entries are read
before anything else is looked at (`entriesOf?_append`).

A tail is torn (`Frame.Torn`) if it holds no whole frame.  Nothing is read from it, and so the
entries before it are all that is read (`entriesOf?_append_torn`).  Where a file of entries is cut
off, whole frames are left and then a torn tail (`exists_take_eq`).  Bytes that follow a torn frame
become part of it: enough of them make it whole around other content
(`Frame.take_append_eq_encode`), and too few leave it torn (`Frame.torn_take_append`).
-/

namespace PageStore

/-! ## Entries -/

namespace Entry

variable {entry : Entry} {width n : Nat}

/-- The numbers of an entry fit the words that hold them in a log file. -/
structure Fits (entry : Entry) : Prop where
  txn : entry.txn < Word.limit 8
  table : entry.page.table < Word.limit 4
  number : entry.page.number < Word.limit 4
  length : entry.encode.length ≤ FileLog.maxEntry

instance : DecidablePred Fits := fun entry =>
  decidable_of_iff
    (entry.txn < Word.limit 8 ∧ entry.page.table < Word.limit 4 ∧
      entry.page.number < Word.limit 4 ∧ entry.encode.length ≤ FileLog.maxEntry)
    ⟨fun ⟨txn, table, number, length⟩ => ⟨txn, table, number, length⟩,
      fun ⟨txn, table, number, length⟩ => ⟨txn, table, number, length⟩⟩

theorem length_encode (entry : Entry) :
    entry.encode.length = 32 + entry.before.length + entry.after.length := by
  simp only [encode, encodeCounted, List.length_append, Word.length_little]
  omega

/-- The content of a frame is as long as its count can say. -/
theorem Fits.length_lt (fits : entry.Fits) : entry.encode.length < Word.limit 4 :=
  Nat.lt_succ_of_le fits.length

theorem take?_append {front : Bytes} (length : front.length = n) (rest : Bytes) :
    take? n (front ++ rest) = some (front, rest) := by
  have enough : n ≤ (front ++ rest).length := by
    rw [List.length_append]
    omega
  rw [take?, if_pos enough, List.take_left' length, List.drop_left' length]

theorem takeWord?_little (small : n < Word.limit width) (rest : Bytes) :
    takeWord? width (Word.little width n ++ rest) = some (n, rest) := by
  simp only [takeWord?, take?_append (Word.length_little width n), Option.map_some,
    Word.ofLittle_little, Nat.mod_eq_of_lt small]

theorem takeCounted?_encodeCounted {bytes : Bytes} (small : bytes.length < Word.limit 8)
    (rest : Bytes) : takeCounted? (encodeCounted bytes ++ rest) = some (bytes, rest) := by
  simp only [takeCounted?, encodeCounted, List.append_assoc, takeWord?_little small,
    Option.bind_eq_bind, Option.bind_some]
  exact take?_append rfl rest

/-- An entry is read back from its bytes, whatever follows them. -/
theorem decode?_encode (fits : entry.Fits) (rest : Bytes) :
    decode? (entry.encode ++ rest) = some entry := by
  have length := entry.length_encode
  have bound : FileLog.maxEntry < Word.limit 8 := by decide
  have before : entry.before.length < Word.limit 8 := by
    have := fits.length
    omega
  have after : entry.after.length < Word.limit 8 := by
    have := fits.length
    omega
  simp only [decode?, encode, List.append_assoc, takeWord?_little fits.txn,
    takeWord?_little fits.table, takeWord?_little fits.number, takeCounted?_encodeCounted before,
    takeCounted?_encodeCounted after, Option.bind_eq_bind, Option.bind_some]

end Entry

/-! ## Frames -/

namespace Frame

variable {bytes content tail : Bytes} {cut : Nat}

/-- No whole frame is at the front: the bytes end inside the word that counts, or before there are as
many as it says. -/
def Torn (tail : Bytes) : Prop := tail.length < 4 ∨ tail.length - 4 < Word.ofBig (tail.take 4)

instance : DecidablePred Torn := fun tail =>
  inferInstanceAs (Decidable (tail.length < 4 ∨ tail.length - 4 < Word.ofBig (tail.take 4)))

theorem torn_nil : Torn [] := .inl (by decide)

theorem length_encode (content : Bytes) : (encode content).length = 4 + content.length := by
  rw [encode, List.length_append, Word.length_big]

theorem next?_eq_none_iff : next? bytes = none ↔ Torn bytes := by
  unfold next? Torn
  by_cases short : bytes.length < 4
  · simp [short]
  · simp [short]

theorem take_encode (content rest : Bytes) :
    (encode content ++ rest).take 4 = Word.big 4 content.length := by
  rw [encode, List.append_assoc]
  exact List.take_left' (Word.length_big 4 _)

/-- A whole frame at the front is taken off. -/
theorem next?_encode (small : content.length < Word.limit 4) (rest : Bytes) :
    next? (encode content ++ rest) = some (content, rest) := by
  have long : ¬ (encode content ++ rest).length < 4 := by
    rw [List.length_append, length_encode]
    omega
  have after : (encode content ++ rest).drop 4 = content ++ rest := by
    rw [encode, List.append_assoc]
    exact List.drop_left' (Word.length_big 4 _)
  have enough : ¬ (content ++ rest).length < content.length := by
    rw [List.length_append]
    omega
  simp only [next?, if_neg long, take_encode, Word.ofBig_big, Nat.mod_eq_of_lt small, after,
    if_neg enough, List.take_left, List.drop_left]

theorem split_of_torn (torn : Torn tail) : split tail = ([], tail) := by
  have none := next?_eq_none_iff.2 torn
  rw [split]
  split
  · rfl
  · next whole => simp [whole] at none

theorem split_encode (small : content.length < Word.limit 4) (rest : Bytes) :
    split (encode content ++ rest) = (content :: (split rest).1, (split rest).2) := by
  have whole := next?_encode small rest
  rw [split]
  split
  · next torn => simp [torn] at whole
  · next first =>
    rw [whole] at first
    cases first
    rfl

/-- How many bytes of a frame lie behind a cut. -/
def missing (content : Bytes) (cut : Nat) : Nat := (encode content).length - cut

/-- What a frame holds that was cut off after its count, once other bytes follow the cut. -/
def completed (content : Bytes) (cut : Nat) (more : Bytes) : Bytes :=
  content.take (cut - 4) ++ more.take (missing content cut)

theorem take_encode_of_le (counted : 4 ≤ cut) :
    (encode content).take cut = Word.big 4 content.length ++ content.take (cut - 4) := by
  rw [encode, List.take_append, Word.length_big, List.take_of_length_le]
  rwa [Word.length_big]

theorem length_completed {more : Bytes} (counted : 4 ≤ cut) (inside : cut < (encode content).length)
    (enough : missing content cut ≤ more.length) :
    (completed content cut more).length = content.length := by
  rw [length_encode] at inside
  simp only [completed, missing, length_encode] at enough ⊢
  rw [List.length_append, List.length_take, List.length_take]
  omega

/-- Enough bytes behind a cut make the frame whole again, around other content. -/
theorem take_append_eq_encode {more : Bytes} (counted : 4 ≤ cut)
    (inside : cut < (encode content).length) (enough : missing content cut ≤ more.length) :
    (encode content).take cut ++ more =
      encode (completed content cut more) ++ more.drop (missing content cut) := by
  rw [take_encode_of_le counted, encode, length_completed counted inside enough, completed,
    List.append_assoc, List.append_assoc, List.append_assoc, List.take_append_drop]

/-- A count without as many bytes after it is torn. -/
theorem torn_of_count (small : content.length < Word.limit 4)
    (count : bytes.take 4 = Word.big 4 content.length) (few : bytes.length < 4 + content.length) :
    Torn bytes := by
  rw [Torn, count, Word.ofBig_big, Nat.mod_eq_of_lt small]
  omega

/-- Too few bytes behind a cut leave the frame torn. -/
theorem torn_take_append {more : Bytes} (small : content.length < Word.limit 4) (counted : 4 ≤ cut)
    (few : more.length < missing content cut) : Torn ((encode content).take cut ++ more) := by
  have count : ((encode content).take cut ++ more).take 4 = Word.big 4 content.length := by
    rw [take_encode_of_le counted, List.append_assoc]
    exact List.take_left' (Word.length_big 4 _)
  refine torn_of_count small count ?_
  rw [missing, length_encode] at few
  rw [List.length_append, List.length_take, length_encode]
  omega

/-- A frame that was cut off is torn. -/
theorem torn_take (small : content.length < Word.limit 4) (inside : cut < (encode content).length) :
    Torn ((encode content).take cut) := by
  by_cases counted : 4 ≤ cut
  · rw [← List.append_nil ((encode content).take cut)]
    exact torn_take_append small counted (Nat.sub_pos_of_lt inside)
  · left
    rw [List.length_take]
    omega

end Frame

/-! ## Files of entries -/

variable {entries : List Entry} {tail : Bytes} {cut : Nat}

@[simp] theorem encodeEntries_nil : encodeEntries [] = [] := rfl

@[simp] theorem encodeEntries_cons (entry : Entry) (entries : List Entry) :
    encodeEntries (entry :: entries) = Frame.encode entry.encode ++ encodeEntries entries := rfl

theorem entriesOf?_of_torn (torn : Frame.Torn tail) : entriesOf? tail = some [] := by
  rw [entriesOf?, Frame.split_of_torn torn]
  rfl

theorem entriesOf?_encode {content : Bytes} (small : content.length < Word.limit 4) (rest : Bytes) :
    entriesOf? (Frame.encode content ++ rest) =
      (Entry.decode? content).bind fun entry => (entriesOf? rest).map (entry :: ·) := by
  simp only [entriesOf?, Frame.split_encode small, List.mapM_cons]
  cases Entry.decode? content with
  | none => rfl
  | some entry => cases (Frame.split rest).1.mapM Entry.decode? <;> rfl

/-- The entries at the front of a file are read, and then what follows them. -/
theorem entriesOf?_append (fits : ∀ entry ∈ entries, entry.Fits) (rest : Bytes) :
    entriesOf? (encodeEntries entries ++ rest) = (entriesOf? rest).map (entries ++ ·) := by
  induction entries with
  | nil => simp
  | cons entry entries ih =>
    obtain ⟨first, others⟩ := List.forall_mem_cons.1 fits
    have decoded : Entry.decode? entry.encode = some entry := by
      rw [← Entry.decode?_encode first [], List.append_nil]
    rw [encodeEntries_cons, List.append_assoc, entriesOf?_encode first.length_lt, decoded, ih others]
    cases entriesOf? rest <;> rfl

/-- The entries of a file are read, and no torn tail after them. -/
theorem entriesOf?_append_torn (fits : ∀ entry ∈ entries, entry.Fits) (torn : Frame.Torn tail) :
    entriesOf? (encodeEntries entries ++ tail) = some entries := by
  rw [entriesOf?_append fits, entriesOf?_of_torn torn, Option.map_some, List.append_nil]

theorem entriesOf?_encodeEntries (fits : ∀ entry ∈ entries, entry.Fits) :
    entriesOf? (encodeEntries entries) = some entries := by
  rw [← entriesOf?_append_torn fits Frame.torn_nil, List.append_nil]

/-! ## Files that were cut off -/

/-- The frames of the first `k` entries lie wholly before a cut, and no other frame does. -/
def WholeBefore (entries : List Entry) (cut k : Nat) : Prop :=
  k ≤ entries.length ∧
    ∀ i < entries.length, i < k ↔ (encodeEntries (entries.take (i + 1))).length ≤ cut

theorem WholeBefore.nil (cut : Nat) : WholeBefore [] cut 0 :=
  ⟨Nat.le_refl 0, fun _ inside => absurd inside (Nat.not_lt_zero _)⟩

theorem WholeBefore.inside {entry : Entry} (before : cut < (Frame.encode entry.encode).length)
    (entries : List Entry) : WholeBefore (entry :: entries) cut 0 := by
  refine ⟨Nat.zero_le _, fun i _ => ⟨fun none => absurd none (Nat.not_lt_zero i), fun whole => ?_⟩⟩
  rw [List.take_succ_cons, encodeEntries_cons, List.length_append] at whole
  omega

theorem WholeBefore.cons {k : Nat} (whole : WholeBefore entries cut k) (entry : Entry) :
    WholeBefore (entry :: entries) ((Frame.encode entry.encode).length + cut) (k + 1) := by
  refine ⟨Nat.succ_le_succ whole.1, fun i inside => ?_⟩
  rw [List.take_succ_cons, encodeEntries_cons, List.length_append, Nat.add_le_add_iff_left]
  cases i with
  | zero => simp
  | succ i =>
    rw [Nat.succ_lt_succ_iff]
    exact whole.2 i (Nat.lt_of_succ_lt_succ inside)

/-- A file of entries that was cut off holds whole frames and a torn tail. -/
theorem exists_take_eq (fits : ∀ entry ∈ entries, entry.Fits) (cut : Nat) :
    ∃ k tail, WholeBefore entries cut k ∧ Frame.Torn tail ∧
      (encodeEntries entries).take cut = encodeEntries (entries.take k) ++ tail := by
  induction entries generalizing cut with
  | nil => exact ⟨0, [], .nil cut, Frame.torn_nil, by simp⟩
  | cons entry entries ih =>
    obtain ⟨first, others⟩ := List.forall_mem_cons.1 fits
    -- A cut inside the first frame leaves a torn tail; else the frame stays, and the rest is cut.
    by_cases inside : cut < (Frame.encode entry.encode).length
    · refine ⟨0, (Frame.encode entry.encode).take cut, .inside inside entries,
        Frame.torn_take first.length_lt inside, ?_⟩
      rw [encodeEntries_cons, List.take_append_of_le_length (Nat.le_of_lt inside)]
      rfl
    · obtain ⟨later, rfl⟩ := Nat.exists_eq_add_of_le (Nat.le_of_not_lt inside)
      obtain ⟨k, tail, whole, torn, left⟩ := ih others later
      refine ⟨k + 1, tail, whole.cons entry, torn, ?_⟩
      rw [List.take_succ_cons, encodeEntries_cons, encodeEntries_cons, List.take_length_add_append,
        left, List.append_assoc]

end PageStore
