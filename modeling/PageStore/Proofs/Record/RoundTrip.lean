import PageStore.Proofs.Record.Utf8
import PageStore.Record.Codec

/-!
# Reading back stored rows

A field that was stored is read back as its stored part (`FieldType.decode_encode`): an integer as
it is, a text up to its room.  So are all the fields of a row, whatever bytes follow them
(`decodeFields_encodeFields`).  A text that fits its room is stored as it is (`Utf8.cut_of_fits`).
-/

namespace PageStore

theorem decodeInt_encodeInt (value : Int32) : decodeInt (encodeInt value) = value := by
  have small : value.toUInt32.toNat < Word.limit 4 := value.toUInt32.toNat_lt
  unfold decodeInt encodeInt
  rw [Word.ofBig_big, Nat.mod_eq_of_lt small, UInt32.ofNat_toNat]
  rfl

/-- A stored text begins with the number of its bytes, which are no more than its room. -/
theorem take_encodeText (text : String) (rest : Bytes) :
    ∃ content, content = Utf8.encode (Utf8.cut textRoom text.toList) ∧
      min (Word.ofBig ((encodeText text ++ rest).take 4)) textRoom = content.length ∧
      ((encodeText text ++ rest).drop 4).take content.length = content := by
  refine ⟨_, rfl, ?_, ?_⟩
  · have room := Utf8.length_encode_cut textRoom text.toList
    have small : (Utf8.encode (Utf8.cut textRoom text.toList)).length < Word.limit 4 := by
      have : textRoom < Word.limit 4 := by decide
      omega
    have word : (encodeText text ++ rest).take 4 =
        Word.big 4 (Utf8.encode (Utf8.cut textRoom text.toList)).length := by
      rw [encodeText, List.append_assoc, List.append_assoc]
      exact List.take_left' (Word.length_big 4 _)
    rw [word, Word.ofBig_big, Nat.mod_eq_of_lt small]
    omega
  · have after : (encodeText text ++ rest).drop 4 =
        Utf8.encode (Utf8.cut textRoom text.toList) ++ (Bytes.zeros (textRoom -
          (Utf8.encode (Utf8.cut textRoom text.toList)).length) ++ rest) := by
      rw [encodeText, List.append_assoc, List.append_assoc]
      exact List.drop_left' (Word.length_big 4 _)
    rw [after]
    exact List.take_left' rfl

/-- A stored field is read back as its stored part, and what follows it is left. -/
theorem FieldType.decode_encode (field : Field) (rest : Bytes) :
    field.type.decode (field.encode ++ rest) = (.ok field.stored, rest) := by
  have width := field.length_encode
  have enough : ¬ (field.encode ++ rest).length < field.type.width := by
    rw [List.length_append, width]
    omega
  unfold FieldType.decode
  rw [if_neg enough]
  cases field with
  | int value =>
    have first : (encodeInt value ++ rest).take 4 = encodeInt value :=
      List.take_left' (length_encodeInt value)
    have left : (encodeInt value ++ rest).drop 4 = rest :=
      List.drop_left' (length_encodeInt value)
    simp only [Field.type, Field.encode, Field.stored, first, left, decodeInt_encodeInt]
  | text value =>
    have left : (encodeText value ++ rest).drop (4 + textRoom) = rest :=
      List.drop_left' (length_encodeText value)
    obtain ⟨content, same, count, bytes⟩ := take_encodeText value rest
    have read : Utf8.decode content = .ok (Utf8.cut textRoom value.toList) := by
      rw [same, Utf8.decode_encode]
    simp only [Field.type, Field.encode, Field.stored, storedText, count, bytes, read, left]

/-- Stored fields are read back as their stored parts, whatever follows them. -/
theorem decodeFields_encodeFields (fields : List Field) (rest : Bytes) :
    decodeFields (fields.map Field.type) (encodeFields fields ++ rest) =
      .ok (fields.map Field.stored) := by
  induction fields with
  | nil => rfl
  | cons field fields ih =>
    have whole : encodeFields (field :: fields) ++ rest =
        field.encode ++ (encodeFields fields ++ rest) := by
      simp only [encodeFields, List.flatMap_cons, List.append_assoc]
    rw [whole, List.map_cons, decodeFields, FieldType.decode_encode]
    simp only [ih, Except.map, List.map_cons]

/-! ## Texts that fit -/

theorem Utf8.cut_of_fits {room : Nat} {text : List Char} (fits : (Utf8.encode text).length ≤ room) :
    Utf8.cut room text = text := by
  induction text generalizing room with
  | nil => rfl
  | cons c text ih =>
    rw [Utf8.encode_cons, List.length_append] at fits
    have left : (Utf8.encode text).length ≤ room - (Utf8.encodeChar c).length := by omega
    rw [Utf8.cut, if_pos (by omega), ih left]

end PageStore
