import Mathlib.Data.List.Forall2
import PageStore.Proofs.Record.RoundTrip
import PageStore.Record.Checked

/-!
# Texts cut to their room

Of a text that is longer than its room the longest beginning is stored that fits the room and does
not end inside a character (`LongestWithin`, `longestWithin_storedText`).  The bytes of a text are
those of UTF-8 (`Utf8.toByteArray_encode`), so a beginning is one whose end is a boundary of
characters among these bytes.  The same place is found by going back from the room until there is a
boundary (`LongestWithin.lastBoundary_eq`).

What was cut fits, so it is stored as it is the next time: a row that was read back has the stored
form of the row that was written (`encodeFields_stored`).
-/

namespace PageStore

/-! ## The bytes of a text -/

namespace Utf8

theorem encodeChar_eq (c : Char) : encodeChar c = String.utf8EncodeChar c := by
  have valid : c.toNat < 0xD800 ∨ 0xDFFF < c.toNat ∧ c.toNat < 0x110000 := c.valid
  unfold encodeChar String.utf8EncodeChar
  rw [show c.val.toNat = c.toNat from rfl]
  generalize c.toNat = n at valid
  -- Both go by the same bounds, and the bits of the first byte are within its mask.
  refine ite_congr (propext Nat.lt_succ_iff) (fun _ => rfl) fun _ => ?_
  refine ite_congr (propext Nat.lt_succ_iff) (fun two => ?_) fun _ => ?_
  · rw [Nat.mod_eq_of_lt (show n / 64 < 32 by omega), Nat.add_comm 0xC0, Nat.add_comm 0x80]
  refine ite_congr (propext Nat.lt_succ_iff) (fun three => ?_) fun _ => ?_
  · rw [Nat.mod_eq_of_lt (show n / 4096 < 16 by omega), Nat.add_comm 0xE0, Nat.add_comm 0x80,
      Nat.add_comm 0x80]
  · rw [Nat.mod_eq_of_lt (show n / 262144 < 8 by omega), Nat.add_comm 0xF0, Nat.add_comm 0x80,
      Nat.add_comm 0x80, Nat.add_comm 0x80]

/-- The bytes of a text are its bytes in UTF-8. -/
theorem toByteArray_encode (text : String) :
    (encode text.toList).toByteArray = text.toByteArray := by
  have same : encodeChar = String.utf8EncodeChar := funext encodeChar_eq
  rw [encode, same, ← List.utf8Encode, ← String.toByteArray_ofList, String.ofList_toList]

theorem length_encode (text : String) : (encode text.toList).length = text.utf8ByteSize := by
  rw [← List.size_toByteArray, toByteArray_encode, String.size_toByteArray]

theorem encode_append (text text' : List Char) :
    encode (text ++ text') = encode text ++ encode text' := List.flatMap_append

/-! ## Beginnings of a text -/

/-- What is cut off comes last. -/
theorem cut_prefix (room : Nat) (text : List Char) : cut room text <+: text := by
  induction text generalizing room with
  | nil => exact List.prefix_rfl
  | cons c text ih =>
    unfold cut
    split
    · exact (List.prefix_cons_inj c).2 (ih _)
    · exact List.nil_prefix

/-- Every beginning that fits the room is a beginning of what is kept. -/
theorem prefix_cut {room : Nat} {text first : List Char} (begins : first <+: text)
    (fits : (encode first).length ≤ room) : first <+: cut room text := by
  induction text generalizing room first with
  | nil => exact begins
  | cons c text ih =>
    cases first with
    | nil => exact List.nil_prefix
    | cons c' first =>
      obtain ⟨rfl, further⟩ := List.cons_prefix_cons.1 begins
      rw [encode_cons, List.length_append] at fits
      rw [cut, if_pos (by omega)]
      exact (List.prefix_cons_inj c').2 (ih further (by omega))

end Utf8

/-- A beginning of a text that fits a room of so many bytes, such that no boundary of characters
within the room comes after its end. -/
structure LongestWithin (room : Nat) (text first : String) : Prop where
  begins : ∃ rest, text = first ++ rest
  fits : first.utf8ByteSize ≤ room
  longest : ∀ n, n ≤ room → String.Pos.Raw.IsValid text ⟨n⟩ → n ≤ first.utf8ByteSize

theorem longestWithin_storedText (text : String) :
    LongestWithin textRoom text (storedText text) where
  begins := by
    obtain ⟨rest, whole⟩ := Utf8.cut_prefix textRoom text.toList
    refine ⟨String.ofList rest, ?_⟩
    rw [storedText, ← String.ofList_append, whole, String.ofList_toList]
  fits := by
    rw [← Utf8.length_encode, storedText, String.toList_ofList]
    exact Utf8.length_encode_cut textRoom text.toList
  longest n within boundary := by
    obtain ⟨first, rest, rfl, same⟩ := String.Pos.Raw.isValid_iff_exists_append.1 boundary
    obtain rfl : n = first.utf8ByteSize := congrArg String.Pos.Raw.byteIdx same
    have begins : first.toList <+: (first ++ rest).toList := ⟨rest.toList, String.toList_append.symm⟩
    rw [← Utf8.length_encode] at within ⊢
    obtain ⟨more, kept⟩ := Utf8.prefix_cut begins within
    rw [← Utf8.length_encode, storedText, String.toList_ofList, ← kept, Utf8.encode_append,
      List.length_append]
    exact Nat.le_add_right _ _

/-- The last boundary of characters at or before a place in a text. -/
def lastBoundary (text : String) : (place : Nat) → Nat
  | 0 => 0
  | place + 1 =>
    if String.Pos.Raw.isValid text ⟨place + 1⟩ then place + 1 else lastBoundary text place

theorem lastBoundary_of_isValid {text : String} {boundary place : Nat}
    (valid : String.Pos.Raw.IsValid text ⟨boundary⟩) (before : boundary ≤ place)
    (last : ∀ n, n ≤ place → String.Pos.Raw.IsValid text ⟨n⟩ → n ≤ boundary) :
    lastBoundary text place = boundary := by
  induction place with
  | zero => exact (Nat.le_zero.1 before).symm
  | succ place ih =>
    rw [lastBoundary]
    by_cases here : String.Pos.Raw.IsValid text ⟨place + 1⟩
    · rw [if_pos (String.Pos.Raw.isValid_eq_true_iff.2 here)]
      exact Nat.le_antisymm (last _ (Nat.le_refl _) here) before
    · rw [if_neg (here ∘ String.Pos.Raw.isValid_eq_true_iff.1)]
      have ne : boundary ≠ place + 1 := fun same => here (same ▸ valid)
      exact ih (by omega) fun n le => last n (by omega)

/-- Going back from the room, or from the end of a text that fits it, leads to the end of the longest
beginning. -/
theorem LongestWithin.lastBoundary_eq {room : Nat} {text first : String}
    (within : LongestWithin room text first) :
    lastBoundary text (min text.utf8ByteSize room) = first.utf8ByteSize := by
  obtain ⟨rest, rfl⟩ := within.begins
  have inside : first.utf8ByteSize ≤ (first ++ rest).utf8ByteSize := by
    rw [String.utf8ByteSize_append]
    exact Nat.le_add_right _ _
  refine lastBoundary_of_isValid ?_ (Nat.le_min.2 ⟨inside, within.fits⟩) fun n le => ?_
  · exact String.Pos.Raw.isValid_iff_exists_append.2 ⟨first, rest, rfl, rfl⟩
  · exact within.longest n (Nat.le_trans le (Nat.min_le_right _ _))

/-! ## Rows that were read back -/

@[simp] theorem Field.type_stored (field : Field) : field.stored.type = field.type := by
  cases field <;> rfl

/-- What is stored of a field is stored like the field. -/
theorem Field.encode_stored (field : Field) : field.stored.encode = field.encode := by
  cases field with
  | int value => rfl
  | text value =>
    have fits := Utf8.length_encode_cut textRoom value.toList
    simp only [Field.stored, Field.encode, encodeText, storedText, String.toList_ofList,
      Utf8.cut_of_fits fits]

theorem encodeFields_stored (fields : List Field) :
    encodeFields (fields.map Field.stored) = encodeFields fields := by
  simp only [encodeFields, List.flatMap_map, Field.encode_stored]

/-- A field as it is read back: an integer as it was, a text cut to its room. -/
inductive Field.ReadsBack : Field → Field → Prop
  | int (value : Int32) : ReadsBack (.int value) (.int value)
  | text {text first : String} (within : LongestWithin textRoom text first) :
    ReadsBack (.text text) (.text first)

theorem Field.readsBack_stored (field : Field) : field.ReadsBack field.stored := by
  cases field with
  | int value => exact .int value
  | text value => exact .text (longestWithin_storedText value)

/-- A row of a schema is stored in exactly the width of the schema.  Whatever follows its bytes, its
fields are read back from them, integers as they were and texts as their longest beginnings within
their room, and without a record; and the row that was read back is stored in the same bytes.  A row
of other types than the schema's is not stored. -/
theorem rows_read_back_cut_to_room (schema : Schema) (row : Row) :
    (row.fits schema = true → ∃ bytes fields,
      row.encode schema = .ok bytes ∧ bytes.length = schema.width ∧
        List.Forall₂ Field.ReadsBack row.fields fields ∧
        (∀ rest, Row.decode schema (bytes ++ rest) = .ok ⟨fields, none⟩) ∧
        ∀ record, Row.encode ⟨fields, record⟩ schema = .ok bytes) ∧
    (row.fits schema = false →
      row.encode schema = .error (.rowMismatch row schema) ∧
        (Error.rowMismatch row schema).kind = .schemaMismatch) ∧
    ∀ text, (storedText text).utf8ByteSize = lastBoundary text (min text.utf8ByteSize textRoom) := by
  refine ⟨fun fits => ?_, fun unfit => ?_, fun text => ?_⟩
  · have types : schema.types = row.fields.map Field.type := (Row.fits_iff.1 fits).symm
    refine ⟨encodeFields row.fields, row.fields.map Field.stored, if_pos fits,
      Row.length_encode fits, ?_, fun rest => ?_, fun record => ?_⟩
    · rw [List.forall₂_map_right_iff]
      exact List.forall₂_same.2 fun field _ => field.readsBack_stored
    · rw [Row.decode, types, decodeFields_encodeFields]
      rfl
    · have again : Row.fits ⟨row.fields.map Field.stored, record⟩ schema = true := by
        rw [Row.fits_iff, types, Row.types, List.map_map]
        exact List.map_congr_left fun field _ => field.type_stored
      rw [Row.encode, if_pos again, encodeFields_stored]
  · exact ⟨if_neg (by rw [unfit]; exact Bool.false_ne_true), rfl⟩
  · exact (longestWithin_storedText text).lastBoundary_eq.symm

/-- The statement above for a text of which a character lies across the end of its room. -/
theorem rows_read_back_cut_to_room_before_character :
    let text := String.ofList ('a' :: List.replicate 64 'é')
    let row : Row := .ofFields [.int (-7), .text text]
    let schema := Schema.ofTypes [.int, .text] []
    let narrow := Schema.ofTypes [.int] []
    (row.fits schema = true ∧ row.fits narrow = false) ∧
      storedText text = String.ofList ('a' :: List.replicate 63 'é') ∧
      (∃ bytes fields, row.encode schema = .ok bytes ∧ bytes.length = schema.width ∧
        List.Forall₂ Field.ReadsBack row.fields fields ∧
        (∀ rest, Row.decode schema (bytes ++ rest) = .ok ⟨fields, none⟩) ∧
        ∀ record, Row.encode ⟨fields, record⟩ schema = .ok bytes) ∧
      row.encode narrow = .error (.rowMismatch row narrow) := by
  intro text row schema narrow
  have fits : row.fits schema = true := by decide
  have unfit : row.fits narrow = false := by decide
  have stored : storedText text = String.ofList ('a' :: List.replicate 63 'é') := by
    rw [storedText, String.toList_ofList]
    exact congrArg String.ofList (by decide +kernel)
  exact ⟨⟨fits, unfit⟩, stored, (rows_read_back_cut_to_room schema row).1 fits,
    ((rows_read_back_cut_to_room narrow row).2.1 unfit).1⟩

end PageStore
