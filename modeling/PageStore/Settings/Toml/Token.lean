import PageStore.Settings.Reader

/-!
# Tokens of TOML

A TOML text is read as a list of tokens: ends of lines, runs of blanks, comments, bare words,
strings in quotes, and marks of one character.  `Token.scan` takes a whole text apart and fails on a
character that begins no token and on a string that is not closed.

A bare word is any run of letters, digits, low lines and dashes, so `1979-05-27` is one word and
`1.5` is a word, a mark and a word.
-/

namespace PageStore.Toml

open Reader

/-- A piece of a file of settings. -/
inductive Token where
  | lineEnd
  | blank (text : List Char)
  | comment
  | word (text : List Char)
  /-- A string in quotes, and whether it may be of several lines. -/
  | quoted (value : String) (lines : Bool)
  | mark (c : Char)
deriving DecidableEq, Repr, Inhabited

/-! ## Characters -/

/-- The text with each return and line feed made a line feed. -/
def foldLines : List Char → List Char
  | '\r' :: '\n' :: rest => '\n' :: foldLines rest
  | c :: rest => c :: foldLines rest
  | [] => []

/-- Whether a character may stand between the words of a line. -/
def isBlank (c : Char) : Bool := c == ' ' || c == '\t'

/-- Whether a character may stand in a bare word. -/
def isBare (c : Char) : Bool := c.isAlphanum || c == '_' || c == '-'

/-- Whether a character is a token by itself. -/
def isMark (c : Char) : Bool :=
  c ∈ ['=', '.', ',', ':', '+', '[', ']', '\x7b', '\x7d']

/-- Whether a character may stand in a comment. -/
def isRemark (c : Char) : Bool := c == '\t' || ' ' ≤ c

/-- Whether a character may stand in a string as it is. -/
def isPlain (c : Char) : Bool := c == '\t' || (' ' ≤ c && c ≠ '\x7f')

/-! ## Strings -/

/-- The character that the digits of an escape write. -/
def readCode (digits : Nat) (text : List Char) : Option (Char × List Char) := do
  let (n, text) ← hex digits 0 text
  if n < 0xD800 || (0xE000 ≤ n && n < 0x110000) then some (Char.ofNat n, text) else none

/-- Takes the character that an escape writes, after its backslash. -/
def readEscape : Reader Char
  | '"' :: text => some ('"', text)
  | '\\' :: text => some ('\\', text)
  | 'b' :: text => some ('\x08', text)
  | 'f' :: text => some ('\x0c', text)
  | 'n' :: text => some ('\n', text)
  | 'r' :: text => some ('\r', text)
  | 't' :: text => some ('\t', text)
  | 'u' :: text => readCode 4 text
  | 'U' :: text => readCode 8 text
  | _ => none

/-- What is left after a backslash at the end of a line: the line feed and all blanks after it are
skipped. -/
def skipJoin (text : List Char) : Option (List Char) :=
  match text.dropWhile isBlank with
  | '\n' :: rest => some (rest.dropWhile fun c => isBlank c || c == '\n')
  | _ => none

/-- Takes the rest of a string on one line.  Each step takes a character at least. -/
def readLineString (quote : Char) : (steps : Nat) → (done : List Char) → Reader String
  | 0, _, _ => none
  | _ + 1, _, [] => none
  | steps + 1, done, c :: text =>
    if c = quote then some (String.ofList done.reverse, text)
    else if c = '\\' && quote = '"' then do
      let (c, text) ← readEscape text
      readLineString quote steps (c :: done) text
    else if isPlain c then readLineString quote steps (c :: done) text
    else none

/-- Takes the rest of a string of several lines, up to three quotes.  One or two quotes more
belong to the string. -/
def readLinesString (quote : Char) : (steps : Nat) → (done : List Char) → Reader String
  | 0, _, _ => none
  | _ + 1, _, [] => none
  | steps + 1, done, c :: text =>
    if c = quote then
      match expect [quote, quote] text with
      | none => readLinesString quote steps (c :: done) text
      | some text =>
        let more := (text.takeWhile (· = quote)).take 2
        some (String.ofList (more ++ done).reverse, text.drop more.length)
    else if c = '\\' && quote = '"' then
      match skipJoin text with
      | some text => readLinesString quote steps done text
      | none => do
        let (c, text) ← readEscape text
        readLinesString quote steps (c :: done) text
    else if c = '\n' || isPlain c then readLinesString quote steps (c :: done) text
    else none

/-- Takes a string after its first quote. -/
def readQuoted (quote : Char) (text : List Char) : Option (Token × List Char) :=
  match expect [quote, quote] text with
  | some text => do
    let text := match text with
      | '\n' :: rest => rest
      | text => text
    let (s, text) ← readLinesString quote (text.length + 1) [] text
    some (.quoted s true, text)
  | none => do
    let (s, text) ← readLineString quote (text.length + 1) [] text
    some (.quoted s false, text)

/-! ## Texts -/

namespace Token

/-- Takes the token that begins with a character. -/
def read (c : Char) (text : List Char) : Option (Token × List Char) :=
  if c = '\n' then some (.lineEnd, text)
  else if isBlank c then some (.blank (c :: text.takeWhile isBlank), text.dropWhile isBlank)
  else if c = '#' then some (.comment, text.dropWhile isRemark)
  else if isMark c then some (.mark c, text)
  else if c = '"' || c = '\'' then readQuoted c text
  else if isBare c then some (.word (c :: text.takeWhile isBare), text.dropWhile isBare)
  else none

/-- The tokens of a text.  Each step takes a character at least. -/
def scan : (steps : Nat) → List Char → Option (List Token)
  | _, [] => some []
  | 0, _ :: _ => none
  | steps + 1, c :: text => do
    let (token, text) ← read c text
    return token :: (← scan steps text)

end Token

end PageStore.Toml
