import PageStore.Bytes.Basic

/-!
# Stretches of byte strings

A byte string is compared position by position: `getElem?_slice` and `getElem?_splice` say what a
stretch and an overwritten string have at a position.  From these follow the two facts that reading
and writing rest on: a stretch that was written reads back as written (`slice_splice`), and every
stretch apart from it reads as before (`slice_splice_of_disjoint`).
-/

namespace PageStore.Bytes

variable {bytes data : Bytes} {start stretch length : Nat}

theorem getElem?_slice (bytes : Bytes) (start length i : Nat) :
    (bytes.slice start length)[i]? = if i < length then bytes[start + i]? else none := by
  unfold slice
  rw [List.getElem?_take]
  split
  · rw [List.getElem?_drop]
  · rfl

theorem length_slice_of_le (inside : start + length ≤ bytes.length) :
    (bytes.slice start length).length = length := by
  simp only [slice, List.length_take, List.length_drop]
  omega

/-- A stretch that reaches the end is all that is left there. -/
theorem slice_of_length_le (reaches : bytes.length ≤ start + length) :
    bytes.slice start length = bytes.drop start :=
  List.take_of_length_le (by rw [List.length_drop]; omega)

theorem getElem?_splice (inside : start ≤ bytes.length) (i : Nat) :
    (bytes.splice start data)[i]? =
      if start ≤ i ∧ i < start + data.length then data[i - start]? else bytes[i]? := by
  have whole : (bytes.take start).length = start := List.length_take_of_le inside
  unfold splice
  rw [List.append_assoc, List.getElem?_append, whole]
  by_cases before : i < start
  · rw [if_pos before, List.getElem?_take, if_pos before, if_neg (by omega)]
  · rw [if_neg before, List.getElem?_append]
    by_cases among : i - start < data.length
    · rw [if_pos among, if_pos (by omega)]
    · rw [if_neg among, if_neg (by omega), List.getElem?_drop]
      congr 1
      omega

theorem extendTo_of_le (reaches : length ≤ bytes.length) : bytes.extendTo length = bytes := by
  have nothing : length - bytes.length = 0 := by omega
  simp [extendTo, nothing, zeros]

/-- What was written is read back. -/
theorem slice_splice (inside : start ≤ bytes.length) :
    (bytes.splice start data).slice start data.length = data := by
  apply List.ext_getElem?
  intro i
  rw [getElem?_slice, getElem?_splice inside]
  by_cases among : i < data.length
  · rw [if_pos among, if_pos (by omega)]
    congr 1
    omega
  · rw [if_neg among, List.getElem?_eq_none (by omega)]

/-- A stretch apart from the one written reads as before. -/
theorem slice_splice_of_disjoint (inside : start ≤ bytes.length)
    (apart : stretch + length ≤ start ∨ start + data.length ≤ stretch) :
    (bytes.splice start data).slice stretch length = bytes.slice stretch length := by
  apply List.ext_getElem?
  intro i
  rw [getElem?_slice, getElem?_slice, getElem?_splice inside]
  by_cases among : i < length
  · rw [if_pos among, if_pos among, if_neg (by omega)]
  · rw [if_neg among, if_neg among]

/-- Writing after an extension to the place of the write leaves nothing out. -/
theorem length_splice_extendTo :
    ((bytes.extendTo start).splice start data).length =
      max bytes.length (start + data.length) := by
  have reach := length_extendTo bytes start
  simp only [splice, List.length_append, List.length_take, List.length_drop, reach]
  omega

end PageStore.Bytes
