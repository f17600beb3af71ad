/-!
# Byte strings

Page images, table files and log files are lists of bytes.  `splice` overwrites a stretch of one,
and `extendTo` lengthens one by zeros, which together are a write into a file at some offset.
-/

namespace PageStore

/-- A byte string. -/
abbrev Bytes := List UInt8

namespace Bytes

/-- That many zero bytes. -/
def zeros (n : Nat) : Bytes := List.replicate n 0

/-- The stretch of a given length that begins at a given offset. -/
def slice (bytes : Bytes) (start length : Nat) : Bytes := (bytes.drop start).take length

/-- The bytes with `data` written over those from `start` on. -/
def splice (bytes : Bytes) (start : Nat) (data : Bytes) : Bytes :=
  bytes.take start ++ data ++ bytes.drop (start + data.length)

/-- The bytes followed by as many zeros as it takes to reach a length. -/
def extendTo (bytes : Bytes) (length : Nat) : Bytes := bytes ++ zeros (length - bytes.length)

@[simp] theorem length_zeros (n : Nat) : (zeros n).length = n := List.length_replicate

@[simp] theorem length_extendTo (bytes : Bytes) (n : Nat) :
    (bytes.extendTo n).length = max bytes.length n := by
  simp only [extendTo, List.length_append, length_zeros]
  omega

/-- Writing inside a byte string keeps its length. -/
theorem length_splice {bytes data : Bytes} {start : Nat}
    (inside : start + data.length ≤ bytes.length) :
    (bytes.splice start data).length = bytes.length := by
  simp only [splice, List.length_append, List.length_take, List.length_drop]
  omega

end Bytes

end PageStore
