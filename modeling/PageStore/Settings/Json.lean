import PageStore.Settings.Reader

/-!
# JSON

Reads a file of settings in JSON.  `Json.members?` gives the members of the object that the text
is, in order; lists and objects inside it are checked, and given as `Value.compound` or
`Value.emptyTable`.  Lists and objects may not lie more than 127 deep.

A number that is not whole is worked out from its first digits, as many as 64 bits hold: they are
rounded to a number with 53 bits, and that is multiplied by a power of ten or divided by one.  The
result can differ from the nearest number in its last bits (`scaled?`).
-/

namespace PageStore.Json

open Reader

/-- Whether a character may stand between tokens. -/
def isBlank (c : Char) : Bool := c == ' ' || c == '\t' || c == '\n' || c == '\r'

/-- Skips what may stand between tokens. -/
def skip (text : List Char) : List Char := text.dropWhile isBlank

/-- Reads the unit or the pair of units that an escape writes. -/
def readUnits (text : List Char) : Option (Char × List Char) := do
  let (high, text) ← hex 4 0 text
  if 0xDC00 ≤ high && high ≤ 0xDFFF then none
  else if 0xD800 ≤ high && high ≤ 0xDBFF then
    let (low, text) ← hex 4 0 (← expect ['\\', 'u'] text)
    if 0xDC00 ≤ low && low ≤ 0xDFFF then
      some (Char.ofNat (0x10000 + (high - 0xD800) * 0x400 + (low - 0xDC00)), text)
    else none
  else some (Char.ofNat high, text)

/-- The character that a letter after a backslash stands for. -/
def escape? (c : Char) : Option Char :=
  match c with
  | '"' => some '"'
  | '\\' => some '\\'
  | '/' => some '/'
  | 'b' => some '\x08'
  | 'f' => some '\x0c'
  | 'n' => some '\n'
  | 'r' => some '\r'
  | 't' => some '\t'
  | _ => none

/-- Reads a string up to its closing quote.  Each step takes a character at least. -/
def readString : (steps : Nat) → (done : List Char) → Reader String
  | 0, _, _ => none
  | _ + 1, _, [] => none
  | _ + 1, done, '"' :: text => some (String.ofList done.reverse, text)
  | steps + 1, done, '\\' :: 'u' :: text => do
    let (c, text) ← readUnits text
    readString steps (c :: done) text
  | steps + 1, done, '\\' :: c :: text => do readString steps ((← escape? c) :: done) text
  | steps + 1, done, c :: text => if c < ' ' then none else readString steps (c :: done) text

/-! ## Numbers -/

/-- The largest number that 64 bits hold. -/
def maxSignificand : Nat := 18446744073709551615

/-- A number with one more digit, if 64 bits hold it. -/
def extend? (n : Nat) (c : Char) : Option Nat :=
  let more := n * 10 + (c.toNat - '0'.toNat)
  if more ≤ maxSignificand then some more else none

/-- The number that digits write, as far as 64 bits hold it, and how many digits are left out. -/
def wholeDigits (n : Nat) : List Char → Nat × Nat
  | [] => (n, 0)
  | c :: digits =>
    match extend? n c with
    | some n => wholeDigits n digits
    | none => (n, digits.length + 1)

/-- A number with more digits, as far as 64 bits hold it, and how many digits are taken in. -/
def placeDigits (n : Nat) : List Char → Nat × Nat
  | [] => (n, 0)
  | c :: digits =>
    match extend? n c with
    | some n =>
      let (n, taken) := placeDigits n digits
      (n, taken + 1)
    | none => (n, 0)

/-- The largest power of ten that one factor makes up for. -/
def maxFactor : Nat := 308

/-- A number times a power of ten, unless the product is too large.  The number is rounded before
and after each factor, so the product need not be the nearest number. -/
def scaled? (x : Binary64) (power : Int) : Option Binary64 :=
  if power < -maxFactor then
    if x.isZero then some x else scaled? (x.overTen maxFactor) (power + maxFactor)
  else if power < 0 then some (x.overTen (-power).toNat)
  else if x.isZero then some x
  else if maxFactor < power then none
  else
    match x.timesTen power.toNat with
    | .finite negative m e => some (.finite negative m e)
    | _ => none
termination_by (-power).toNat
decreasing_by simp only [maxFactor] at *; omega

/-- The largest power that is read. -/
def maxPower : Nat := 2147483647

/-- A number with a power of ten of its own and another one that is written after it.  A written
power that is too large gives zero if it is negative or the number is zero. -/
def withPower? (negative : Bool) (n : Nat) (own : Int) (negativePower : Bool) (power : Nat) :
    Option Binary64 :=
  let x := Binary64.ofDecimal negative n 0
  if maxPower < power then
    if n = 0 || negativePower then some (.ofDecimal negative 0 0) else none
  else scaled? x (if negativePower then own - power else own + power)

/-- A whole number: it stays whole if 64 bits hold it with its sign and it is not minus zero. -/
def whole (negative : Bool) (n : Nat) : Value :=
  if negative then
    if 0 < n && n ≤ 9223372036854775808 then .int (-(n : Int)) else .real (.ofDecimal true n 0)
  else if n ≤ 9223372036854775807 then .int n
  else .real (.ofDecimal false n 0)

/-- Reads the digits after a point, if there is a point. -/
def readPlaces : Reader (Option (List Char))
  | '.' :: text =>
    let digits := text.takeWhile Char.isDigit
    if digits.isEmpty then none else some (some digits, text.dropWhile Char.isDigit)
  | text => some (none, text)

/-- Reads a power of ten, if there is one, with whether it is negative. -/
def readPower : Reader (Option (Bool × Nat))
  | c :: text =>
    if c == 'e' || c == 'E' then
      let (negative, text) := match text with
        | '-' :: text => (true, text)
        | '+' :: text => (false, text)
        | text => (false, text)
      let digits := text.takeWhile Char.isDigit
      if digits.isEmpty then none
      else some (some (negative, digitsValue 10 digits), text.dropWhile Char.isDigit)
    else some (none, c :: text)
  | [] => some (none, [])

/-- The value of a number, given its parts. -/
def number? (negative : Bool) (digits : List Char) (places : Option (List Char))
    (power : Option (Bool × Nat)) : Option Value :=
  let (n, left) := wholeDigits 0 digits
  match places, power, left with
  | none, none, 0 => some (whole negative n)
  | places, power, left =>
    let (n, taken) := placeDigits n (places.getD [])
    let (negativePower, power) := power.getD (false, 0)
    (withPower? negative n ((left : Int) - taken) negativePower power).map Value.real

/-- Reads a number. -/
def readNumber (text : List Char) : Option (Value × List Char) := do
  let (negative, text) := match text with
    | '-' :: text => (true, text)
    | text => (false, text)
  let digits := text.takeWhile Char.isDigit
  if digits.isEmpty || (digits.head? == some '0' && 1 < digits.length) then none
  else
    let (places, text) ← readPlaces (text.dropWhile Char.isDigit)
    let (power, text) ← readPower text
    some (← number? negative digits places power, text)

/-! ## Values, lists and objects -/

mutual

/-- Reads a value, with lists and objects at most so deep, in so many steps. -/
def readValue : (steps depth : Nat) → Reader Value
  | 0, _, _ => none
  | steps + 1, depth, text =>
    match skip text with
    | '"' :: text => do
      let (s, text) ← readString (text.length + 1) [] text
      some (.text s, text)
    | '[' :: text =>
      if depth ≤ 1 then none
      else
        match skip text with
        | ']' :: text => some (.compound, text)
        | text => do
          let (_, text) ← readElements steps (depth - 1) text
          some (.compound, text)
    | '\x7b' :: text =>
      if depth ≤ 1 then none
      else do
        let (members, text) ← readObject steps (depth - 1) text
        some (if members.isEmpty then .emptyTable else .compound, text)
    | 't' :: text => (expect ['r', 'u', 'e'] text).map fun text => (.flag true, text)
    | 'f' :: text => (expect ['a', 'l', 's', 'e'] text).map fun text => (.flag false, text)
    | 'n' :: text => (expect ['u', 'l', 'l'] text).map fun text => (.null, text)
    | text => readNumber text

/-- Reads the elements of a list and its closing bracket. -/
def readElements : (steps depth : Nat) → Reader Unit
  | 0, _, _ => none
  | steps + 1, depth, text => do
    let (_, text) ← readValue steps depth text
    match skip text with
    | ',' :: text => readElements steps depth text
    | ']' :: text => some ((), text)
    | _ => none

/-- Reads the members of an object and its closing brace. -/
def readObject : (steps depth : Nat) → Reader (List (String × Value))
  | 0, _, _ => none
  | steps + 1, depth, text =>
    match skip text with
    | '\x7d' :: text => some ([], text)
    | text => readMembers steps depth text

/-- Reads one member of an object or more, and the closing brace. -/
def readMembers : (steps depth : Nat) → Reader (List (String × Value))
  | 0, _, _ => none
  | steps + 1, depth, text =>
    match skip text with
    | '"' :: text => do
      let (key, text) ← readString (text.length + 1) [] text
      let text ← expect [':'] (skip text)
      let (value, text) ← readValue steps depth text
      match skip text with
      | ',' :: text => do
        let (members, text) ← readMembers steps depth text
        some ((key, value) :: members, text)
      | '\x7d' :: text => some ([(key, value)], text)
      | _ => none
    | _ => none

end

/-- How deep lists and objects may lie, and one more. -/
def maxDepth : Nat := 128

/-- The members of the object that a text is; a text that is another value has none.  Every reader
takes a character for every two steps, so twice the length of the text is enough of them. -/
def members? (text : String) : Option (List (String × Value)) := do
  let text := text.toList
  let steps := 2 * text.length + 2
  let (members, rest) ← match skip text with
    | '\x7b' :: rest => readObject steps (maxDepth - 1) rest
    | text => do
      let (_, rest) ← readValue steps maxDepth text
      some ([], rest)
  if (skip rest).isEmpty then some members else none

end PageStore.Json
