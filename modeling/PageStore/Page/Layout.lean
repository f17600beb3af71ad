import PageStore.Bytes.Word

/-!
# The layout of a page

A page begins with a header of one bit for each slot, rounded up to whole bytes, and goes on with
the slots, which all have the width of a row.  There are as many slots as fit together with their
bits: `slots_fit` says that the layout stays inside the page, and `slotCount_maximal` that no
layout with more slots does.

The program counts slots in bits, which it holds in machine words (`slotsPerPage`).  A size of 2 ^ 61
bytes has too many bits for a word; what is counted then depends on how the program was built
(`Arithmetic`).  The count is `slotCount` where sizes have words for their bits, as they have for all
pages and rows in memory (`slotsPerPage_of_inWords`).
-/

namespace PageStore

/-! ## Sizes in machine words -/

/-- What becomes of a number that is too large for a machine word: a program that was built with
checks of its arithmetic stops, and one that was built without goes on with the low bits. -/
inductive Arithmetic where
  | checked
  | wrapping
deriving DecidableEq, Repr, Inhabited

namespace Arithmetic

/-- A number as a machine word, which has eight bytes. -/
def word (arithmetic : Arithmetic) (n : Nat) : Option Nat :=
  if n < Word.limit 8 then some n
  else match arithmetic with
    | checked => none
    | wrapping => some (n % Word.limit 8)

/-- The bits of a page. -/
def pageBits (arithmetic : Arithmetic) (pageSize : Nat) : Option Nat := arithmetic.word (pageSize * 8)

/-- The bits that a slot takes: those of its row, and its own in the header. -/
def slotBits (arithmetic : Arithmetic) (rowWidth : Nat) : Option Nat := do
  arithmetic.word ((← arithmetic.word (rowWidth * 8)) + 1)

end Arithmetic

/-- The number of slots that the program counts for a page, if it does not stop. -/
def slotsPerPage (arithmetic : Arithmetic) (pageSize rowWidth : Nat) : Option Nat :=
  if rowWidth = 0 then some 0
  else do return (← arithmetic.pageBits pageSize) / (← arithmetic.slotBits rowWidth)

/-- The bits of a page and of a row are machine words. -/
structure InWords (pageSize rowWidth : Nat) : Prop where
  page : pageSize * 8 < Word.limit 8
  row : rowWidth * 8 < Word.limit 8

/-! ## Slots -/

/-- The number of slots of a page. -/
def slotCount (pageSize rowWidth : Nat) : Nat :=
  if rowWidth = 0 then 0 else pageSize * 8 / (rowWidth * 8 + 1)

/-- The number of header bytes for that many slots. -/
def headerSize (slots : Nat) : Nat := (slots + 7) / 8

/-- Where a slot begins, on a page with that many slots. -/
def slotStart (slots rowWidth slot : Nat) : Nat := headerSize slots + slot * rowWidth

/-- A slot ends where any later one begins, or before. -/
theorem slotStart_add_le {slots rowWidth slot later : Nat} (lt : slot < later) :
    slotStart slots rowWidth slot + rowWidth ≤ slotStart slots rowWidth later := by
  have inside : slot * rowWidth + rowWidth ≤ later * rowWidth := by
    rw [← Nat.succ_mul]
    exact Nat.mul_le_mul_right _ lt
  unfold slotStart
  omega

/-- Slots and their header fit a page exactly when they do with one bit for each slot. -/
theorem layout_fits_iff {pageSize rowWidth slots : Nat} :
    headerSize slots + slots * rowWidth ≤ pageSize ↔ slots * (rowWidth * 8 + 1) ≤ pageSize * 8 := by
  have hm : slots * (rowWidth * 8 + 1) = slots * rowWidth * 8 + slots := by
    rw [Nat.mul_add, Nat.mul_one, Nat.mul_assoc]
  unfold headerSize
  omega

/-- The header and the slots of a page lie inside it. -/
theorem slots_fit (pageSize rowWidth : Nat) :
    headerSize (slotCount pageSize rowWidth) + slotCount pageSize rowWidth * rowWidth
      ≤ pageSize := by
  rw [layout_fits_iff]
  unfold slotCount
  split
  · simp
  · exact Nat.div_mul_le_self _ _

/-- No layout with more slots lies inside a page. -/
theorem slotCount_maximal {pageSize rowWidth slots : Nat} (pos : 0 < rowWidth)
    (fits : headerSize slots + slots * rowWidth ≤ pageSize) :
    slots ≤ slotCount pageSize rowWidth := by
  rw [layout_fits_iff] at fits
  have : rowWidth ≠ 0 := by omega
  simp only [slotCount, this, if_false]
  exact (Nat.le_div_iff_mul_le (by omega)).2 fits

/-! ## Counting in words -/

namespace Arithmetic

variable {arithmetic : Arithmetic} {n bits pageSize rowWidth : Nat}

theorem word_of_lt (lt : n < Word.limit 8) : arithmetic.word n = some n := if_pos lt

theorem word_checked_of_le (le : Word.limit 8 ≤ n) : checked.word n = none := if_neg (Nat.not_lt.2 le)

theorem word_wrapping (n : Nat) : wrapping.word n = some (n % Word.limit 8) := by
  by_cases lt : n < Word.limit 8
  · rw [word_of_lt lt, Nat.mod_eq_of_lt lt]
  · exact if_neg lt

/-- The limit is a multiple of eight, so there is room for one bit more than those of whole bytes. -/
theorem succ_lt_limit (lt : rowWidth * 8 < Word.limit 8) : rowWidth * 8 + 1 < Word.limit 8 := by
  simp only [Word.limit] at lt ⊢
  omega

theorem slotBits_of_lt (lt : rowWidth * 8 < Word.limit 8) :
    arithmetic.slotBits rowWidth = some (rowWidth * 8 + 1) := by
  rw [slotBits, word_of_lt lt]
  exact word_of_lt (succ_lt_limit lt)

theorem slotBits_checked_of_le (le : Word.limit 8 ≤ rowWidth * 8) :
    checked.slotBits rowWidth = none := by
  rw [slotBits, word_checked_of_le le]
  rfl

theorem slotBits_wrapping (rowWidth : Nat) :
    wrapping.slotBits rowWidth = some (rowWidth * 8 % Word.limit 8 + 1) := by
  have room : rowWidth * 8 % Word.limit 8 + 1 < Word.limit 8 := by
    simp only [Word.limit]
    omega
  rw [slotBits, word_wrapping]
  show wrapping.word (rowWidth * 8 % Word.limit 8 + 1) = _
  exact word_of_lt room

/-- No slot takes no bits, even if those of its row are lost. -/
theorem slotBits_pos (takes : arithmetic.slotBits rowWidth = some bits) : 0 < bits := by
  cases arithmetic with
  | checked =>
    by_cases lt : rowWidth * 8 < Word.limit 8
    · rw [slotBits_of_lt lt] at takes
      cases takes
      exact Nat.succ_pos _
    · rw [slotBits_checked_of_le (Nat.not_lt.1 lt)] at takes
      cases takes
  | wrapping =>
    rw [slotBits_wrapping] at takes
    cases takes
    exact Nat.succ_pos _

end Arithmetic

open Arithmetic

variable {arithmetic : Arithmetic} {pageSize rowWidth slots : Nat}

theorem slotsPerPage_of_pos (wide : 0 < rowWidth) :
    slotsPerPage arithmetic pageSize rowWidth =
      (do return (← arithmetic.pageBits pageSize) / (← arithmetic.slotBits rowWidth)) :=
  if_neg (Nat.ne_of_gt wide)

/-- Where the bits are machine words, the program counts all slots, however it was built. -/
theorem slotsPerPage_of_inWords (inWords : InWords pageSize rowWidth) (arithmetic : Arithmetic) :
    slotsPerPage arithmetic pageSize rowWidth = some (slotCount pageSize rowWidth) := by
  by_cases wide : rowWidth = 0
  · rw [slotsPerPage, slotCount, if_pos wide, if_pos wide]
  · rw [slotsPerPage, slotCount, if_neg wide, if_neg wide, pageBits, word_of_lt inWords.page,
      slotBits_of_lt inWords.row]
    rfl

/-- A checked program stops where the bits are no machine words. -/
theorem slotsPerPage_checked (wide : 0 < rowWidth) (large : ¬ InWords pageSize rowWidth) :
    slotsPerPage .checked pageSize rowWidth = none := by
  rw [slotsPerPage_of_pos wide, pageBits]
  by_cases lt : pageSize * 8 < Word.limit 8
  · have le : Word.limit 8 ≤ rowWidth * 8 := Nat.not_lt.1 fun row => large ⟨lt, row⟩
    rw [word_of_lt lt, slotBits_checked_of_le le]
    rfl
  · rw [word_checked_of_le (Nat.not_lt.1 lt)]
    rfl

/-- Another program divides what the words hold of the bits. -/
theorem slotsPerPage_wrapping (pageSize : Nat) (wide : 0 < rowWidth) :
    slotsPerPage .wrapping pageSize rowWidth =
      some (pageSize * 8 % Word.limit 8 / (rowWidth * 8 % Word.limit 8 + 1)) := by
  rw [slotsPerPage_of_pos wide, pageBits, word_wrapping, slotBits_wrapping]
  rfl

/-- It counts too few slots for a page whose bits are no machine word. -/
theorem slotsPerPage_wrapping_lt (wide : 0 < rowWidth) (large : Word.limit 8 ≤ pageSize * 8)
    (row : rowWidth * 8 < Word.limit 8) :
    ∃ slots, slotsPerPage .wrapping pageSize rowWidth = some slots ∧
      slots < slotCount pageSize rowWidth := by
  refine ⟨_, slotsPerPage_wrapping pageSize wide, ?_⟩
  rw [slotCount, if_neg (Nat.ne_of_gt wide), Nat.mod_eq_of_lt row]
  have lost : pageSize * 8 % Word.limit 8 + (rowWidth * 8 + 1) ≤ pageSize * 8 := by
    have := succ_lt_limit row
    have split := Nat.mod_add_div (pageSize * 8) (Word.limit 8)
    have whole : Word.limit 8 * 1 ≤ Word.limit 8 * (pageSize * 8 / Word.limit 8) :=
      Nat.mul_le_mul_left _ (Nat.div_pos large (by decide))
    omega
  rw [Nat.lt_iff_add_one_le, ← Nat.add_div_right _ (Nat.succ_pos _)]
  exact Nat.div_le_div_right lost

end PageStore
