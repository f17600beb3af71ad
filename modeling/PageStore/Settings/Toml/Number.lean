import PageStore.Settings.Toml.Token

/-!
# Numbers of TOML

A number is a bare word, or two words around a point, or a word that ends in the letter of its power
with the power after a plus sign.  Digits may have single low lines between them.  The whole part of
a number in base ten begins with zero only if it is zero; the other parts may begin with zeros.

A whole number must fit 64 bits with its sign, and a number with a point or a power must be finite.
-/

namespace PageStore.Toml

open Reader

/-- Whether a character is a digit of a base. -/
def isDigitOf (base : Nat) (c : Char) : Bool := (hexDigit? c).any (· < base)

/-- Takes digits with single low lines between them, which may begin with zeros or not. -/
def readDigits (base : Nat) (zeros : Bool) (word : List Char) : Option (List Char × List Char) :=
  let isPart (c : Char) : Bool := isDigitOf base c || c == '_'
  let part := word.takeWhile isPart
  let twice := (part.zip (part.drop 1)).any fun (a, b) => a == '_' && b == '_'
  let digits := part.filter (· ≠ '_')
  if part.isEmpty || part.head? == some '_' || part.getLast? == some '_' || twice then none
  else if !zeros && digits.head? == some '0' && 1 < digits.length then none
  else some (digits, word.dropWhile isPart)

/-- Takes a minus sign or none; gives whether there was one. -/
def readSign : List Char → Bool × List Char
  | '-' :: word => (true, word)
  | word => (false, word)

/-- A whole number, if 64 bits hold it with its sign. -/
def whole? (negative : Bool) (n : Nat) : Option Value :=
  if negative then if n ≤ 9223372036854775808 then some (.int (-(n : Int))) else none
  else if n ≤ 9223372036854775807 then some (.int n) else none

/-- A number with a point or a power, if it is finite. -/
def real? (negative : Bool) (digits : List Char) (power : Int) : Option Value :=
  let read := Binary64.ofDecimal negative (digitsValue 10 digits) power
  match read with
  | .finite .. => some (.real read)
  | _ => none

/-- The whole number that a word writes in a base, with a sign only in base ten. -/
def wholeOf? (base : Nat) (word : List Char) : Option Value := do
  let (negative, word) := if base = 10 then readSign word else (false, word)
  let (digits, rest) ← readDigits base (base ≠ 10) word
  if rest.isEmpty then whole? negative (digitsValue base digits) else none

/-- Takes the power of a number, of which `word` follows the letter in the same word.  If nothing
does, the power is the next word, after a plus sign or none. -/
def readPower (word : List Char) (tokens : List Token) : Option (Int × List Token) := do
  let (negative, word, tokens) ←
    match word, tokens with
    | [], .mark '+' :: .word word :: tokens => some (false, word, tokens)
    | [], .word word :: tokens => some (false, word, tokens)
    | [], _ => none
    | word, tokens =>
      let (negative, word) := readSign word
      some (negative, word, tokens)
  let (digits, rest) ← readDigits 10 true word
  let n : Int := digitsValue 10 digits
  if rest.isEmpty then some (if negative then -n else n, tokens) else none

/-- Takes a number with a point or a power, given its first word and the word after the point. -/
def readReal (word : List Char) (places : Option (List Char)) (tokens : List Token) :
    Option (Value × List Token) := do
  let (negative, word) := readSign word
  let (digits, rest) ← readDigits 10 false word
  let (places, rest) ← match places with
    | none => some ([], rest)
    | some places => if rest.isEmpty then readDigits 10 true places else none
  let (power, tokens) ← match rest with
    | [] => some (0, tokens)
    | c :: rest => if c = 'e' || c = 'E' then readPower rest tokens else none
  return (← real? negative (digits ++ places) (power - places.length), tokens)

/-- The value of a word for a number without digits. -/
def limit? (word : List Char) : Option Value :=
  match word with
  | ['i', 'n', 'f'] => some (.real (.infinite false))
  | ['-', 'i', 'n', 'f'] => some (.real (.infinite true))
  | ['n', 'a', 'n'] | ['-', 'n', 'a', 'n'] => some (.real .notANumber)
  | _ => none

/-- Takes a number, given its first word. -/
def readNumber (word : List Char) (tokens : List Token) : Option (Value × List Token) :=
  match word with
  | '0' :: 'x' :: digits => return (← wholeOf? 16 digits, tokens)
  | '0' :: 'o' :: digits => return (← wholeOf? 8 digits, tokens)
  | '0' :: 'b' :: digits => return (← wholeOf? 2 digits, tokens)
  | word =>
    if 'e' ∈ word || 'E' ∈ word then readReal word none tokens
    else
      match tokens with
      | .mark '.' :: .word places :: tokens => readReal word (some places) tokens
      | .mark '.' :: _ => none
      | tokens => return (← (limit? word).or (wholeOf? 10 word), tokens)

end PageStore.Toml
