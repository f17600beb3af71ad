import PageStore.Proofs.Bytes
import PageStore.Proofs.Record.Cut

/-!
# The bytes that are rows

Which bytes a row is read from, and which of them it is stored in again.  A stored text begins
behind the fields before it, so what is said of every stored text is said of the bytes from its own
beginning on (`EachText`).

A row of a schema is read from bytes exactly if there are enough of them and the counted bytes of
every text are UTF-8 (`Readable`).  It is stored in the very bytes that it was read from exactly if
no count is past the room and only zeros follow the counted bytes (`Canonical`).
-/

namespace PageStore

/-- Strings of which the first parts are equally long are equal if their parts are. -/
theorem Bytes.append_eq_iff {first rest first' rest' : Bytes}
    (same : first.length = first'.length) :
    first ++ rest = first' ++ rest' ↔ first = first' ∧ rest = rest' :=
  ⟨fun whole => List.append_inj whole same, fun ⟨left, right⟩ => by rw [left, right]⟩

/-! ## Stored texts -/

namespace StoredText

/-- The number that a stored text begins with. -/
def count (bytes : Bytes) : Nat := Word.ofBig (bytes.take 4)

/-- The room behind the number. -/
def room (bytes : Bytes) : Bytes := bytes.slice 4 textRoom

/-- The bytes in the room that are counted. -/
def content (bytes : Bytes) : Bytes := (room bytes).take (min (count bytes) textRoom)

/-- The bytes in the room after those that are counted. -/
def padding (bytes : Bytes) : Bytes := (room bytes).drop (min (count bytes) textRoom)

/-- The counted bytes are UTF-8. -/
def Valid (bytes : Bytes) : Prop := (content bytes).toByteArray.IsValidUTF8

/-- The number is within the room, and only zeros follow the counted bytes. -/
def Exact (bytes : Bytes) : Prop := count bytes ≤ textRoom ∧ ∀ byte ∈ padding bytes, byte = 0

variable {bytes : Bytes} {chars : List Char}

theorem content_eq (bytes : Bytes) :
    content bytes = (bytes.drop 4).take (min (count bytes) textRoom) := by
  rw [content, room, Bytes.slice, List.take_take, Nat.min_eq_left (Nat.min_le_right _ _)]

theorem length_content (enough : FieldType.text.width ≤ bytes.length) :
    (content bytes).length = min (count bytes) textRoom := by
  rw [content, List.length_take, room, Bytes.length_slice_of_le enough,
    Nat.min_eq_left (Nat.min_le_right _ _)]

/-- The bytes of a stored text are its number, what this counts, and the rest of the room. -/
theorem take_width (bytes : Bytes) :
    bytes.take FieldType.text.width = bytes.take 4 ++ (content bytes ++ padding bytes) := by
  rw [content, padding, List.take_append_drop]
  exact List.take_add

theorem valid_iff : Valid bytes ↔ ∃ chars, Utf8.decode (content bytes) = .ok chars := by
  have encodes (chars : List Char) : (Utf8.encode chars).toByteArray = chars.utf8Encode := by
    have same := Utf8.toByteArray_encode (String.ofList chars)
    rwa [String.toList_ofList, String.toByteArray_ofList] at same
  constructor
  · rintro ⟨chars, same⟩
    rw [← encodes, List.toByteArray_inj] at same
    exact ⟨chars, Utf8.decode_eq_ok_iff.2 same⟩
  · rintro ⟨chars, ok⟩
    exact ⟨chars, by rw [Utf8.decode_eq_ok_iff.1 ok, encodes]⟩

/-- The number is that of the counted bytes unless it is past the room. -/
theorem big_length_content_iff (enough : FieldType.text.width ≤ bytes.length) :
    Word.big 4 (content bytes).length = bytes.take 4 ↔ count bytes ≤ textRoom := by
  have four : (bytes.take 4).length = 4 :=
    List.length_take_of_le (Nat.le_trans (Nat.le_add_right 4 textRoom) enough)
  have back := Word.big_ofBig (bytes.take 4)
  rw [four] at back
  rw [length_content enough]
  constructor
  · intro same
    have small : min (count bytes) textRoom < Word.limit 4 :=
      Nat.lt_of_le_of_lt (Nat.min_le_right _ _) (by decide)
    have word : min (count bytes) textRoom = count bytes := by
      rw [← Nat.mod_eq_of_lt small, ← Word.ofBig_big, same, count]
    exact word ▸ Nat.min_le_right _ _
  · intro within
    rw [Nat.min_eq_left within]
    exact back

/-- What is read of a stored text is stored in the same bytes exactly if these are exact. -/
theorem encodeText_eq_iff (enough : FieldType.text.width ≤ bytes.length)
    (holds : content bytes = Utf8.encode chars) :
    encodeText (String.ofList chars) = bytes.take FieldType.text.width ↔ Exact bytes := by
  have fits : (Utf8.encode chars).length ≤ textRoom := by
    rw [← holds, length_content enough]
    exact Nat.min_le_right _ _
  have left : (padding bytes).length = textRoom - (content bytes).length := by
    rw [length_content enough, padding, List.length_drop, room, Bytes.length_slice_of_le enough]
  have four : (Word.big 4 (content bytes).length).length = (bytes.take 4).length := by
    rw [Word.length_big, List.length_take_of_le (Nat.le_trans (Nat.le_add_right 4 textRoom) enough)]
  have zeros : Bytes.zeros (textRoom - (content bytes).length) = padding bytes ↔
      ∀ byte ∈ padding bytes, byte = 0 := by
    rw [eq_comm, Bytes.zeros, List.eq_replicate_iff]
    exact and_iff_right left
  rw [encodeText, String.toList_ofList, Utf8.cut_of_fits fits, ← holds, take_width,
    List.append_assoc, Bytes.append_eq_iff four, List.append_right_inj,
    big_length_content_iff enough, zeros, Exact]

end StoredText

/-- Whether something is so of every text among the stored fields of some types. -/
def EachText (p : Bytes → Prop) (types : List FieldType) (bytes : Bytes) : Prop :=
  ∀ i, types[i]? = some .text → p (bytes.drop (FieldType.totalWidth (types.take i)))

/-- There are bytes for every field of a schema, and the counted bytes of every text are UTF-8. -/
structure Readable (schema : Schema) (bytes : Bytes) : Prop where
  enough : schema.width ≤ bytes.length
  valid : EachText StoredText.Valid schema.types bytes

/-- No text has a number past its room, nor anything but zeros after its counted bytes. -/
def Canonical (schema : Schema) (bytes : Bytes) : Prop :=
  EachText StoredText.Exact schema.types bytes

variable {p : Bytes → Prop} {type : FieldType} {types : List FieldType} {bytes rest : Bytes}
  {field : Field} {fields : List Field}

theorem eachText_nil (p : Bytes → Prop) (bytes : Bytes) : EachText p [] bytes := nofun

theorem eachText_cons :
    EachText p (type :: types) bytes ↔
      (type = .text → p bytes) ∧ EachText p types (bytes.drop type.width) := by
  rw [EachText, ← Nat.and_forall_add_one]
  refine and_congr ?_ (forall_congr' fun i => ?_)
  · rw [List.getElem?_cons_zero, Option.some.injEq]
    rfl
  · rw [List.getElem?_cons_succ, List.drop_drop]
    rfl

/-! ## Single fields -/

/-- What there is to say of a field that is read from the front of bytes: it is stored as it is, and
in the same bytes exactly if these are exact. -/
structure FieldType.Reads (type : FieldType) (bytes : Bytes) (field : Field) : Prop where
  reads : type.decode bytes = (.ok field, bytes.drop type.width)
  type_eq : field.type = type
  stored : field.stored = field
  encode_iff : field.encode = bytes.take type.width ↔ (type = .text → StoredText.Exact bytes)

theorem encodeInt_decodeInt (four : bytes.length = 4) : encodeInt (decodeInt bytes) = bytes := by
  have small := Word.ofBig_lt bytes
  have back := Word.big_ofBig bytes
  rw [four] at small back
  rw [encodeInt, decodeInt, UInt32.toUInt32_toInt32, UInt32.toNat_ofNat_of_lt' small, back]

theorem FieldType.exists_reads (enough : type.width ≤ bytes.length)
    (valid : type = .text → StoredText.Valid bytes) : ∃ field, type.Reads bytes field := by
  have long : ¬ bytes.length < type.width := Nat.not_lt.2 enough
  cases type with
  | int =>
    have four : (bytes.take 4).length = 4 := List.length_take_of_le enough
    refine ⟨.int (decodeInt (bytes.take 4)), ?_, rfl, rfl, ?_⟩
    · rw [decode, if_neg long]
      rfl
    · exact iff_of_true (encodeInt_decodeInt four) nofun
  | text =>
    obtain ⟨chars, ok⟩ := StoredText.valid_iff.1 (valid rfl)
    have holds := Utf8.decode_eq_ok_iff.1 ok
    rw [StoredText.content_eq, StoredText.count] at ok
    refine ⟨.text (String.ofList chars), ?_, rfl, ?_, ?_⟩
    · rw [decode, if_neg long]
      simp only [ok]
      rfl
    · have fits : (Utf8.encode chars).length ≤ textRoom := by
        rw [← holds, StoredText.length_content enough]
        exact Nat.min_le_right _ _
      rw [Field.stored, storedText, String.toList_ofList, Utf8.cut_of_fits fits]
    · exact (StoredText.encodeText_eq_iff enough holds).trans
        ⟨fun exact' _ => exact', fun exact' => exact' rfl⟩

theorem FieldType.valid_of_decode (ok : type.decode bytes = (.ok field, rest)) :
    type.width ≤ bytes.length ∧ (type = .text → StoredText.Valid bytes) := by
  unfold decode at ok
  split at ok
  · cases ok
  · next long =>
    refine ⟨Nat.not_lt.1 long, ?_⟩
    rintro rfl
    simp only at ok
    split at ok
    · next chars read =>
      rw [StoredText.valid_iff, StoredText.content_eq]
      exact ⟨chars, read⟩
    · cases ok

/-! ## Rows -/

theorem readable_of_decodeFields (ok : decodeFields types bytes = .ok fields) :
    FieldType.totalWidth types ≤ bytes.length ∧ EachText StoredText.Valid types bytes := by
  induction types generalizing bytes fields with
  | nil => exact ⟨Nat.zero_le _, eachText_nil _ _⟩
  | cons type types ih =>
    rw [decodeFields] at ok
    split at ok
    · next field rest first =>
      obtain ⟨others, read, -⟩ := Answer.map_eq_ok.1 ok
      obtain ⟨enough, valid⟩ := FieldType.valid_of_decode first
      obtain ⟨_, here⟩ := FieldType.exists_reads enough valid
      obtain rfl : bytes.drop type.width = rest := by
        rw [here.reads] at first
        exact congrArg Prod.snd first
      obtain ⟨more, valid'⟩ := ih read
      rw [List.length_drop] at more
      refine ⟨?_, eachText_cons.2 ⟨valid, valid'⟩⟩
      rw [FieldType.totalWidth]
      omega
    · cases ok

theorem exists_decodeFields (enough : FieldType.totalWidth types ≤ bytes.length)
    (valid : EachText StoredText.Valid types bytes) :
    ∃ fields, decodeFields types bytes = .ok fields ∧ fields.map Field.type = types ∧
      fields.map Field.stored = fields ∧
      (encodeFields fields = bytes.take (FieldType.totalWidth types) ↔
        EachText StoredText.Exact types bytes) := by
  induction types generalizing bytes with
  | nil => exact ⟨[], rfl, rfl, rfl, iff_of_true rfl (eachText_nil _ _)⟩
  | cons type types ih =>
    rw [FieldType.totalWidth] at enough ⊢
    obtain ⟨valid, valid'⟩ := eachText_cons.1 valid
    obtain ⟨field, here⟩ := FieldType.exists_reads (by omega) valid
    obtain ⟨fields, read, same, stored, exact_iff⟩ :=
      ih (by rw [List.length_drop]; omega) valid'
    refine ⟨field :: fields, ?_, ?_, ?_, ?_⟩
    · rw [decodeFields, here.reads]
      simp only [read, Except.map]
    · rw [List.map_cons, here.type_eq, same]
    · rw [List.map_cons, here.stored, stored]
    · have width : field.encode.length = (bytes.take type.width).length := by
        rw [field.length_encode, here.type_eq, List.length_take_of_le (by omega)]
      rw [List.take_add, encodeFields, List.flatMap_cons, Bytes.append_eq_iff width,
        here.encode_iff, eachText_cons]
      exact and_congr_right fun _ => exact_iff

/-- A row of a schema is read from bytes exactly if there are enough of them and the counted bytes
of every text are UTF-8.  The row that is read fits the schema, and it is read back from the bytes
that it is stored in.  These are the bytes that it was read from exactly if no text in them has a
number past its room, nor anything but zeros after its counted bytes. -/
theorem rows_read_from_readable_bytes (schema : Schema) (bytes : Bytes) :
    ((∃ row, Row.decode schema bytes = .ok row) ↔ Readable schema bytes) ∧
      ∀ row, Row.decode schema bytes = .ok row →
        row.fits schema = true ∧ ∃ stored, row.encode schema = .ok stored ∧
          Row.decode schema stored = .ok row ∧
          (stored = bytes.take schema.width ↔ Canonical schema bytes) := by
  have readable {row : Row} (ok : Row.decode schema bytes = .ok row) : Readable schema bytes := by
    rw [Row.decode] at ok
    split at ok
    · next fields read => exact ⟨(readable_of_decodeFields read).1, (readable_of_decodeFields read).2⟩
    · cases ok
  have reads (here : Readable schema bytes) : ∃ row, Row.decode schema bytes = .ok row ∧
      row.fits schema = true ∧ ∃ stored, row.encode schema = .ok stored ∧
        Row.decode schema stored = .ok row ∧
        (stored = bytes.take schema.width ↔ Canonical schema bytes) := by
    obtain ⟨fields, read, same, stored, exact_iff⟩ := exists_decodeFields here.enough here.valid
    have fits : (Row.ofFields fields).fits schema = true := Row.fits_iff.2 same
    refine ⟨.ofFields fields, ?_, fits, encodeFields fields, if_pos fits, ?_, exact_iff⟩
    · rw [Row.decode, read]
    · have again := decodeFields_encodeFields fields []
      rw [List.append_nil, stored, same] at again
      rw [Row.decode, again]
  refine ⟨⟨?_, fun here => ?_⟩, fun row ok => ?_⟩
  · rintro ⟨row, ok⟩
    exact readable ok
  · obtain ⟨row, ok, -⟩ := reads here
    exact ⟨row, ok⟩
  · obtain ⟨row', ok', outcome⟩ := reads (readable ok)
    cases ok.symm.trans ok'
    exact outcome

/-- The statement above for a text whose number is past its room, between an integer and a byte that
belongs to no field. -/
theorem rows_read_from_readable_bytes_past_room :
    let schema := Schema.ofTypes [.int, .text] []
    let bytes : Bytes := [0, 0, 0, 7] ++ [0, 0, 0, 200] ++ List.replicate 128 97 ++ [1]
    let row : Row := .ofFields [.int 7, .text (String.ofList (List.replicate 128 'a'))]
    Row.decode schema bytes = .ok row ∧ Readable schema bytes ∧ row.fits schema = true ∧
      ∃ stored, row.encode schema = .ok stored ∧ Row.decode schema stored = .ok row ∧
        stored ≠ bytes.take schema.width := by
  intro schema bytes row
  have ok : Row.decode schema bytes = .ok row := by decide +kernel
  obtain ⟨reads, outcome⟩ := rows_read_from_readable_bytes schema bytes
  obtain ⟨fits, stored, encoded, decoded, same_iff⟩ := outcome row ok
  refine ⟨ok, reads.1 ⟨row, ok⟩, fits, stored, encoded, decoded, fun same => ?_⟩
  have within : StoredText.count (bytes.drop 4) ≤ textRoom := (same_iff.1 same 1 rfl).1
  exact absurd within (by decide +kernel)

end PageStore
