import PageStore.Dictionary
import PageStore.Settings.Toml.Line

/-!
# TOML

Reads a file of settings in TOML.  `Toml.members?` gives what the file assigns at the top level,
with lists and tables as `Value.compound` or `Value.emptyTable`; the rest of the file is checked for
its form and for names that are given twice.

The lines of a file fall into sections: those before the first opening line, and those from each
opening line on.  A table takes its members from the section that opens it, if there is one, and
from the sections whose names lie inside its own.  Where the first of these opens an element of a
list, they are split at each line that opens an element, and every part is a table by itself.
-/

namespace PageStore.Toml

/-- The lines that belong to one table. -/
structure Section where
  /-- The name of the table, as seen from the table that is looked at. -/
  names : Names
  /-- Whether the section opens an element of a list. -/
  element : Bool
  members : List (Names × Value)
deriving DecidableEq, Repr, Inhabited

namespace Section

/-- The sections of a file, given the one that its lines begin in. -/
def ofLines (current : Section) : List Line → List Section
  | [] => [current]
  | .assign names value :: lines =>
    ofLines { current with members := current.members ++ [(names, value)] } lines
  | .opening names element :: lines => current :: ofLines ⟨names, element, []⟩ lines

/-- What a member gives its table: a name of several parts gives it a table. -/
def member? : Names × Value → Option (String × Value)
  | ([], _) => none
  | ([name], value) => some (name, value)
  | (name :: _, _) => some (name, .compound)

/-- The members that a section gives its table.  Several members may lie inside one. -/
def ownMembers (own : Section) : Dictionary String Value :=
  (own.members.filterMap member?).foldl (fun found (name, value) => found.put name value) .empty

/-- The sections inside a table, by the first part of their names, in order of first appearance. -/
def groups (sections : List Section) : Dictionary String (List Section) :=
  sections.foldl
    (fun found s =>
      match s.names with
      | [] => found
      | name :: names =>
        found.put name ((found.get? name).getD [] ++ [{ s with names := names }]))
    .empty

/-- Whether a section opens an element of the list that is looked at. -/
def opensElement (s : Section) : Bool := s.element && s.names.isEmpty

/-- The parts of a list of sections, each of which begins with a section that opens an element. -/
def elements : List Section → List (List Section)
  | [] => []
  | s :: sections =>
    match elements sections with
    | part :: parts =>
      if part.head?.any opensElement then [s] :: part :: parts else (s :: part) :: parts
    | [] => [[s]]

/-- The members of a table, given the sections that it takes them from.  Names of tables have at
most so many parts. -/
def table? : (depth : Nat) → List Section → Option (Dictionary String Value)
  | 0, _ => none
  | depth + 1, sections => do
    let own ← match sections.filter fun s => s.names.isEmpty with
      | [] => some .empty
      | [own] =>
        if own.element || !compatible (own.members.map Prod.fst) then none
        else some own.ownMembers
      | _ => none
    (groups sections).entries.foldlM
      (fun found (name, inside) => do
        let value ← match inside with
          | first :: _ =>
            if first.opensElement then do
              for part in elements inside do
                let part := part.modifyHead fun s => { s with element := false }
                let _ ← table? depth part
              some Value.compound
            else do
              let members ← table? depth inside
              some (if members.entries.isEmpty then Value.emptyTable else Value.compound)
          | [] => some Value.emptyTable
        if found.contains name then none else some (found.put name value))
      own

end Section

/-- What a file assigns at the top level. -/
def members? (text : String) : Option (List (String × Value)) := do
  let text := match foldLines text.toList with
    | '\ufeff' :: rest => rest
    | text => text
  let tokens ← Token.scan text.length text
  let lines ← Line.readAll (tokens.length + 1) tokens
  let sections := Section.ofLines ⟨[], false, []⟩ lines
  let depth := sections.foldl (fun depth s => max depth s.names.length) 0
  return (← Section.table? (depth + 1) sections).entries

end PageStore.Toml
