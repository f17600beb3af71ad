import PageStore.Settings.Value

/-!
# Readers

What the readers of settings files share: a reader takes something from the front of a text and
gives what is left.
-/

namespace PageStore

/-- Takes something from the front of a text. -/
abbrev Reader (α : Type) := List Char → Option (α × List Char)

namespace Reader

/-- What is left after an expected beginning. -/
def expect : (word : List Char) → List Char → Option (List Char)
  | [], text => some text
  | c :: word, d :: text => if c = d then expect word text else none
  | _ :: _, [] => none

/-- The value of a hexadecimal digit. -/
def hexDigit? (c : Char) : Option Nat :=
  if c.isDigit then some (c.toNat - '0'.toNat)
  else if 'a' ≤ c && c ≤ 'f' then some (c.toNat - 'a'.toNat + 10)
  else if 'A' ≤ c && c ≤ 'F' then some (c.toNat - 'A'.toNat + 10)
  else none

/-- Takes so many hexadecimal digits, which extend a number. -/
def hex : (count : Nat) → Nat → Reader Nat
  | 0, n, text => some (n, text)
  | count + 1, n, c :: text => do hex count (n * 16 + (← hexDigit? c)) text
  | _ + 1, _, [] => none

/-- The number that digits of a base write. -/
def digitsValue (base : Nat) (digits : List Char) : Nat :=
  digits.foldl (fun n c => n * base + (hexDigit? c).getD 0) 0

end Reader

end PageStore
