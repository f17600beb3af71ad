import PageStore.Settings.Toml.Token

/-!
# Days and times of TOML

A date is a day, a day with a time, a day with a time and an offset from the universal time, or a
time alone.  It takes several tokens; `readMoment` puts its text together and `normal?` checks the
text and gives the one way to write it: a `T` before the time, no zero at the end of a fraction, a
capital `Z`, and a plus sign before an offset of less than one hour.
-/

namespace PageStore.Toml

open Reader

/-! ## Texts -/

/-- Takes so many decimal digits, and the number that they write. -/
def readPlaces (count : Nat) (text : List Char) : Option (Nat × List Char) :=
  let digits := text.take count
  if digits.length = count && digits.all Char.isDigit then
    some (digitsValue 10 digits, text.drop count)
  else none

/-- Takes a day. -/
def readDay (text : List Char) : Option (List Char × List Char) := do
  let (_, rest) ← readPlaces 4 text
  let (month, rest) ← readPlaces 2 (← expect ['-'] rest)
  let (day, rest) ← readPlaces 2 (← expect ['-'] rest)
  if 1 ≤ month && month ≤ 12 && 1 ≤ day && day ≤ 31 then some (text.take 10, rest) else none

/-- The digits after the point of a second: nine at most, and none at the end that is zero. -/
def secondDigits (digits : List Char) : List Char :=
  ((digits.take 9).reverse.dropWhile (· == '0')).reverse

/-- Takes a time. -/
def readTime (text : List Char) : Option (List Char × List Char) := do
  let (hour, rest) ← readPlaces 2 text
  let (minute, rest) ← readPlaces 2 (← expect [':'] rest)
  let (second, rest) ← readPlaces 2 (← expect [':'] rest)
  if hour ≤ 24 && minute ≤ 59 && second ≤ 59 then
    let time := text.take 8
    match rest with
    | '.' :: rest =>
      let digits := rest.takeWhile Char.isDigit
      if digits.isEmpty then none
      else
        let shown := secondDigits digits
        some (if shown.isEmpty then time else time ++ '.' :: shown, rest.dropWhile Char.isDigit)
    | rest => some (time, rest)
  else none

/-- The offset that ends a date, if it has one. -/
def offset? : List Char → Option (List Char)
  | [] => some []
  | ['Z'] | ['z'] => some ['Z']
  | c :: text => do
    let (hours, rest) ← readPlaces 2 text
    let (_, rest) ← readPlaces 2 (← expect [':'] rest)
    if !rest.isEmpty || (c ≠ '+' && c ≠ '-') then none
    else some ((if hours = 0 then '+' else c) :: text)

/-- The one way to write the date that a text writes. -/
def normal? (text : List Char) : Option (List Char) :=
  if text[2]? = some ':' then do
    let (time, rest) ← readTime text
    if rest.isEmpty then some time else none
  else do
    let (day, rest) ← readDay text
    match rest with
    | c :: text =>
      if c = 'T' || c = 't' || c = ' ' then do
        let (time, rest) ← readTime text
        return day ++ 'T' :: time ++ (← offset? rest)
      else return day ++ (← offset? rest)
    | [] => some day

/-! ## Tokens -/

/-- Whether a word begins a date by itself: it has the letter before a time, or a dash that is
neither its sign nor the sign of a power. -/
def isDated (word : List Char) : Bool :=
  let power := (word.zip (word.drop 1)).any fun (a, b) => (a == 'e' || a == 'E') && b == '-'
  'T' ∈ word || 't' ∈ word || ('-' ∈ word.drop 1 && !power)

/-- Takes a mark and the word after it, if the mark is there. -/
def readPart (c : Char) (tokens : List Token) : Option (List Char × List Token) :=
  match tokens with
  | .mark d :: rest =>
    if c = d then
      match rest with
      | .word word :: rest => some (c :: word, rest)
      | _ => none
    else some ([], tokens)
  | tokens => some ([], tokens)

/-- Takes the minutes and all that may follow them, if a colon is there. -/
def readMinutes (tokens : List Token) : Option (List Char × List Token) :=
  match tokens with
  | .mark ':' :: .word minute :: .mark ':' :: .word second :: tokens => do
    let (fraction, tokens) ← readPart '.' tokens
    let (offset, tokens) ← readPart '+' tokens
    let (minutes, tokens) ← readPart ':' tokens
    return (':' :: minute ++ ':' :: second ++ fraction ++ offset ++ minutes, tokens)
  | .mark ':' :: _ => none
  | tokens => some ([], tokens)

/-- Takes a date, given its first word. -/
def readMoment (word : List Char) (tokens : List Token) : Option (Value × List Token) := do
  let (hour, tokens) := match tokens with
    | .blank [' '] :: .word hour :: tokens => (' ' :: hour, tokens)
    | tokens => ([], tokens)
  let (time, tokens) ← readMinutes tokens
  return (.text (String.ofList (← normal? (word ++ hour ++ time))), tokens)

end PageStore.Toml
