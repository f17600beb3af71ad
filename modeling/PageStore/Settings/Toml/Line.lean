import PageStore.Settings.Toml.Moment
import PageStore.Settings.Toml.Number

/-!
# Lines of TOML

A line that is not blank gives a value to a name or opens a table.  A name has parts between points.
Lists and inline tables are checked and given as `Value.compound` or `Value.emptyTable`.

One table may not give values to two names of which one lies inside the other (`clashes`): a name
that has a value is no table, and a table that was given as a value takes no further members.
-/

namespace PageStore.Toml

/-- A name, by its parts. -/
abbrev Names := List String

/-- Whether a name cannot stand beside others: one of them lies inside the other, or they are the
same. -/
def clashes (names : Names) (others : List Names) : Bool :=
  others.any fun other => names.isPrefixOf other || other.isPrefixOf names

/-- Whether no two of the names clash. -/
def compatible : List Names → Bool
  | [] => true
  | names :: others => !clashes names others && compatible others

/-! ## Between values -/

/-- Skips blanks on a line. -/
def skip : List Token → List Token
  | .blank _ :: tokens => tokens
  | tokens => tokens

/-- Skips blanks, comments and ends of lines. -/
def skipLines : List Token → List Token
  | .blank _ :: tokens => skipLines tokens
  | .comment :: tokens => skipLines tokens
  | .lineEnd :: tokens => skipLines tokens
  | tokens => tokens

/-- Skips the blank end of a line with a comment on it, up to the next line. -/
def endLine (tokens : List Token) : Option (List Token) :=
  let rest := match skip tokens with
    | .comment :: tokens => tokens
    | tokens => tokens
  match rest with
  | .lineEnd :: tokens => some tokens
  | [] => some []
  | _ => none

/-- Takes an expected mark. -/
def expectMark (c : Char) : List Token → Option (List Token)
  | .mark d :: tokens => if c = d then some tokens else none
  | _ => none

/-- Takes a name.  Blanks may stand around its points and after it. -/
def readNames : (steps : Nat) → List Token → Option (Names × List Token)
  | 0, _ => none
  | steps + 1, tokens => do
    let (name, tokens) ← match tokens with
      | .word word :: tokens => some (String.ofList word, tokens)
      | .quoted name false :: tokens => some (name, tokens)
      | _ => none
    match skip tokens with
    | .mark '.' :: tokens => do
      let (names, tokens) ← readNames steps (skip tokens)
      return (name :: names, tokens)
    | tokens => return ([name], tokens)

/-! ## Values -/

/-- Takes the value that begins with a word. -/
def readBare (word : List Char) (tokens : List Token) : Option (Value × List Token) :=
  match word with
  | ['t', 'r', 'u', 'e'] => some (.flag true, tokens)
  | ['f', 'a', 'l', 's', 'e'] => some (.flag false, tokens)
  | word =>
    let numeral := word.head?.any fun c => c == '-' || c.isDigit
    if !numeral && (limit? word).isNone then none
    else if isDated word || tokens.head? == some (.mark ':') then readMoment word tokens
    else readNumber word tokens

mutual

/-- Takes a value.  Each step takes a token, or goes from a list or a table to its first member. -/
def readValue : (steps : Nat) → List Token → Option (Value × List Token)
  | 0, _ => none
  | _ + 1, .quoted value _ :: tokens => some (.text value, tokens)
  | _ + 1, .word word :: tokens => readBare word tokens
  | _ + 1, .mark '+' :: .word word :: tokens => readNumber word tokens
  | steps + 1, .mark '[' :: tokens => do return (.compound, ← readElements steps tokens)
  | steps + 1, .mark '\x7b' :: tokens =>
    match skip tokens with
    | .mark '\x7d' :: tokens => some (.emptyTable, tokens)
    | tokens => do return (.compound, ← readMembers steps [] tokens)
  | _ + 1, _ => none

/-- Skips the elements of a list and its closing bracket. -/
def readElements : (steps : Nat) → List Token → Option (List Token)
  | 0, _ => none
  | steps + 1, tokens =>
    match skipLines tokens with
    | .mark ']' :: tokens => some tokens
    | tokens => do
      let (_, tokens) ← readValue steps tokens
      match skipLines tokens with
      | .mark ',' :: tokens => readElements steps tokens
      | .mark ']' :: tokens => some tokens
      | _ => none

/-- Skips the members of an inline table, which go on one line, and its closing brace. -/
def readMembers : (steps : Nat) → (given : List Names) → List Token → Option (List Token)
  | 0, _, _ => none
  | steps + 1, given, tokens => do
    let (names, tokens) ← readNames (tokens.length + 1) tokens
    let (_, tokens) ← readValue steps (skip (← expectMark '=' tokens))
    if clashes names given then none
    else
      match skip tokens with
      | .mark ',' :: tokens => readMembers steps (names :: given) (skip tokens)
      | .mark '\x7d' :: tokens => some tokens
      | _ => none

end

/-! ## Lines -/

/-- A line that says something. -/
inductive Line where
  | assign (names : Names) (value : Value)
  /-- A table is opened, which is one more element of a list or stands for itself. -/
  | opening (names : Names) (element : Bool)
deriving DecidableEq, Repr, Inhabited

/-- Takes a line, which is not blank. -/
def Line.read : List Token → Option (Line × List Token)
  | .mark '[' :: .mark '[' :: tokens => do
    let (names, tokens) ← readNames (tokens.length + 1) (skip tokens)
    let tokens ← endLine (← expectMark ']' (← expectMark ']' tokens))
    return (.opening names true, tokens)
  | .mark '[' :: tokens => do
    let (names, tokens) ← readNames (tokens.length + 1) (skip tokens)
    let tokens ← endLine (← expectMark ']' tokens)
    return (.opening names false, tokens)
  | tokens => do
    let (names, tokens) ← readNames (tokens.length + 1) tokens
    let tokens ← expectMark '=' tokens
    let (value, tokens) ← readValue (2 * tokens.length + 2) (skip tokens)
    return (.assign names value, ← endLine tokens)

/-- The lines of a file that say something. -/
def Line.readAll : (steps : Nat) → List Token → Option (List Line)
  | 0, _ => none
  | steps + 1, tokens =>
    match skipLines tokens with
    | [] => some []
    | tokens => do
      let (line, tokens) ← Line.read tokens
      return line :: (← Line.readAll steps tokens)

end PageStore.Toml
