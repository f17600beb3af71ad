import PageStore.Dictionary
import PageStore.Settings.Basic
import PageStore.Settings.Json
import PageStore.Settings.Toml

/-!
# Loading settings

Settings come from three sources.  What a file gives takes the place of what holds otherwise, and
what the environment gives takes the place of both.  In a file a setting goes by its key; in the
environment the key follows a mark and a low line, in any case of letters.

A key with points or brackets names a place inside a setting.  No setting has places inside, so
such a key makes the whole setting unreadable.
-/

namespace PageStore

/-- How a file of settings is written. -/
inductive FileFormat where
  | toml
  | json
deriving DecidableEq, Repr, Inhabited

namespace FileFormat

/-- What a file assigns at its top level. -/
def members? : FileFormat → String → Option (List (String × Value))
  | toml, text => Toml.members? text
  | json, text => Json.members? text

end FileFormat

namespace Settings

/-- Whether a character may stand in a key. -/
def isKeyChar (c : Char) : Bool := c.isAlphanum || c == ' ' || c == '_' || c == '-'

/-- Whether a whole number with digits and a sign or none is one that 64 bits hold. -/
def isIndex (negative : Bool) (digits : List Char) : Bool :=
  let n := Reader.digitsValue 10 digits
  !digits.isEmpty && n ≤ (if negative then 9223372036854775808 else 9223372036854775807)

/-- Whether what follows a key leads to places inside it, each step taking a character at least. -/
def isInside : (steps : Nat) → List Char → Bool
  | _, [] => true
  | 0, _ => false
  | steps + 1, '.' :: rest =>
    !(rest.takeWhile isKeyChar).isEmpty && isInside steps (rest.dropWhile isKeyChar)
  | steps + 1, '[' :: rest =>
    let isBlank (c : Char) : Bool := c == ' ' || c == '\t'
    let rest := rest.dropWhile isBlank
    let (negative, rest) := match rest with
      | '-' :: rest => (true, rest)
      | rest => (false, rest)
    isIndex negative (rest.takeWhile Char.isDigit) &&
      (match (rest.dropWhile Char.isDigit).dropWhile isBlank with
      | ']' :: after => isInside steps after
      | _ => false)
  | _, _ => false

/-- The setting inside which a key names a place, if it does. -/
def around? (key : String) : Option String :=
  let head := key.toList.takeWhile isKeyChar
  let rest := key.toList.dropWhile isKeyChar
  if !head.isEmpty && !rest.isEmpty && isInside rest.length rest then some (String.ofList head)
  else none

/-- The values by setting, a later one taking the place of an earlier one. -/
def collect (members : List (String × Value)) : Dictionary String Value :=
  members.foldl (fun found (key, value) => found.put key value) .empty

/-- The values of a dictionary with those of another in their place, as far as they set anything. -/
def override (lower upper : Dictionary String Value) : Dictionary String Value :=
  upper.entries.foldl
    (fun found (key, value) =>
      match around? key, value with
      | some setting, _ => found.put setting .compound
      | none, .emptyTable => found
      | none, value => found.put key value)
    lower

/-- A character in lower case.  Outside ASCII only the sign of the unit kelvin matters, whose lower
case is a letter that keys have. -/
def lower (c : Char) : Char := if c = '\u212a' then 'k' else c.toLower

/-- The values that the environment gives: a variable counts if it begins with the mark and a low
line, and the rest of its name is the key. -/
def ofEnvironment (mark : String) (environment : List (String × String)) :
    Dictionary String Value :=
  collect <| environment.filterMap fun (name, value) =>
    let start := (mark ++ "_").toList.map lower
    let name := name.toList.map lower
    if start.isPrefixOf name then some (String.ofList (name.drop start.length), .text value)
    else none

/-- Reads one value, if it is given. -/
def setting {α : Type} (values : Dictionary String Value) (key : String)
    (read : Value → Option α) (fallback : α) : Option α :=
  match values.get? key with
  | none => some fallback
  | some value => read value

/-- The settings that values give, with those that hold otherwise for the rest. -/
def ofValues? (values : Dictionary String Value) : Option Settings := do
  let directory ← setting values "data_dir" Value.text? default.directory
  let pageSize ← setting values "page_size" Value.count? default.pageSize
  let bufferPages ← setting values "buffer_pages" Value.count? default.bufferPages
  let lockTimeout ← setting values "lock_timeout_ms" Value.count? default.lockTimeout
  let logName ← setting values "wal_file" Value.text? default.logName
  let sync ← setting values "sync" Value.flag? default.sync
  some ⟨directory, pageSize, bufferPages, lockTimeout, logName, sync⟩

/-- Loads settings from a file, if one is named, and from the environment.  A file that is named
must be there and be well formed. -/
def load (file : Option (FileFormat × Option String)) (mark : String)
    (environment : List (String × String)) : Except Error Settings :=
  let members : Option (List (String × Value)) :=
    match file with
    | none => some []
    | some (_, none) => none
    | some (format, some text) => format.members? text
  let settings : Option Settings := do
    let values := override .empty (collect (← members))
    ofValues? (override values (ofEnvironment mark environment))
  match settings with
  | none => .error .unreadableSettings
  | some settings => do
    settings.validate
    .ok settings

end Settings

end PageStore
