import PageStore.Bytes.Word
import PageStore.Ident

/-!
# Entries of the write-ahead log

An entry tells which transaction changed which page, and the bytes of the page before and after.
In a log file each entry stands in a frame: a word of four bytes, most significant first, counts the
bytes of the entry, which follow.  Inside an entry all words have the least significant byte first,
and each byte string follows a word of eight bytes that counts it.

`Frame.split` takes a log file apart into the contents of its whole frames and a tail that holds no
whole frame; `entriesOf?` reads the contents and ignores the tail.
-/

namespace PageStore

/-- A change of a page, as the log records it. -/
structure Entry where
  txn : TxnId
  page : PageId
  before : Bytes
  after : Bytes
deriving DecidableEq, Repr, Inhabited

namespace Entry

/-- A byte string after a word that counts it. -/
def encodeCounted (bytes : Bytes) : Bytes := Word.little 8 bytes.length ++ bytes

/-- The bytes of an entry. -/
def encode (entry : Entry) : Bytes :=
  Word.little 8 entry.txn ++ Word.little 4 entry.page.table ++ Word.little 4 entry.page.number
    ++ encodeCounted entry.before ++ encodeCounted entry.after

/-- Takes a number of bytes from the front, if there are as many. -/
def take? (n : Nat) (bytes : Bytes) : Option (Bytes × Bytes) :=
  if n ≤ bytes.length then some (bytes.take n, bytes.drop n) else none

/-- Takes a word from the front. -/
def takeWord? (width : Nat) (bytes : Bytes) : Option (Nat × Bytes) :=
  (take? width bytes).map fun (word, rest) => (Word.ofLittle word, rest)

/-- Takes a counted byte string from the front. -/
def takeCounted? (bytes : Bytes) : Option (Bytes × Bytes) := do
  let (count, rest) ← takeWord? 8 bytes
  take? count rest

/-- The entry at the front of a byte string.  What follows the entry is ignored. -/
def decode? (bytes : Bytes) : Option Entry := do
  let (txn, rest) ← takeWord? 8 bytes
  let (table, rest) ← takeWord? 4 rest
  let (number, rest) ← takeWord? 4 rest
  let (before, rest) ← takeCounted? rest
  let (after, _) ← takeCounted? rest
  some ⟨txn, ⟨table, number⟩, before, after⟩

end Entry

namespace Frame

/-- A frame around some bytes. -/
def encode (content : Bytes) : Bytes := Word.big 4 content.length ++ content

/-- The content of the first frame and what follows the frame, if the frame is whole. -/
def next? (bytes : Bytes) : Option (Bytes × Bytes) :=
  if bytes.length < 4 then none
  else
    let length := Word.ofBig (bytes.take 4)
    let rest := bytes.drop 4
    if rest.length < length then none else some (rest.take length, rest.drop length)

theorem length_lt_of_next? {bytes content rest : Bytes} (h : next? bytes = some (content, rest)) :
    rest.length < bytes.length := by
  unfold next? at h
  split at h
  · cases h
  · simp only at h
    split at h
    · cases h
    · cases h
      simp only [List.length_drop]
      omega

/-- The contents of the whole frames, and the tail that holds no whole frame. -/
def split (bytes : Bytes) : List Bytes × Bytes :=
  match h : next? bytes with
  | none => ([], bytes)
  | some (content, rest) =>
    have := length_lt_of_next? h
    let (contents, tail) := split rest
    (content :: contents, tail)
termination_by bytes.length

end Frame

/-- The bytes of a log file that holds the given entries. -/
def encodeEntries (entries : List Entry) : Bytes :=
  entries.flatMap fun entry => Frame.encode entry.encode

/-- The entries in the whole frames of a log file, unless a whole frame holds no entry. -/
def entriesOf? (bytes : Bytes) : Option (List Entry) := (Frame.split bytes).1.mapM Entry.decode?

end PageStore
