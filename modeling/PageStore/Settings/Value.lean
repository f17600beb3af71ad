import PageStore.Settings.Binary64

/-!
# Values of settings

Sources of settings hold values of several kinds, and each setting takes every kind from which it
can be told what is meant: a number may be given as a text or a flag, a flag as a number or a word,
and a text as anything with a text of its own.  What is read from a list, a table or nothing is
refused.
-/

namespace PageStore

/-- A value in a source of settings. -/
inductive Value where
  | null
  | flag (on : Bool)
  | int (value : Int)
  | real (value : Binary64)
  | text (value : String)
  /-- A list, or a table that is not empty; no setting takes it. -/
  | compound
  /-- A table without members, which leaves a setting as it is. -/
  | emptyTable
deriving DecidableEq, Repr, Inhabited

namespace Value

/-- The largest count that a setting can hold. -/
def maxCount : Nat := 18446744073709551615

/-- The meaning of a word that stands for a flag, in any case of letters. -/
def flagWord? (word : String) : Option Bool :=
  let word := word.toLower
  if word = "true" || word = "on" || word = "yes" then some true
  else if word = "false" || word = "off" || word = "no" then some false
  else none

/-- The number that decimal digits write, after a plus sign or none. -/
def digits? (text : List Char) : Option Nat :=
  let digits := match text with
    | '+' :: rest => rest
    | text => text
  if digits.isEmpty || !digits.all Char.isDigit then none
  else some (digits.foldl (fun n c => n * 10 + (c.toNat - '0'.toNat)) 0)

/-- A value as a count. -/
def count? : Value → Option Nat
  | null | compound | emptyTable => none
  | flag on => some on.toNat
  | int value => if 0 ≤ value then some value.toNat else none
  | real value => some (value.toNatUpTo maxCount)
  | text value =>
    match flagWord? value with
    | some on => some on.toNat
    | none => (digits? value.toList).filter (· ≤ maxCount)

/-- A value as a flag. -/
def flag? : Value → Option Bool
  | null | compound | emptyTable => none
  | flag on => some on
  | int value => some (value ≠ 0)
  | real value => some (!value.isZero)
  | text value =>
    if value = "1" then some true else if value = "0" then some false else flagWord? value

/-- A value as a text. -/
def text? : Value → Option String
  | null | compound | emptyTable => none
  | flag on => some (if on then "true" else "false")
  | int value => some (toString value)
  | real value => some value.render
  | text value => some value

end Value

end PageStore
