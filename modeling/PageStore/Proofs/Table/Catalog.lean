import PageStore.Database
import PageStore.Proofs.Table.HeapFile

/-!
# Names and numbers of tables

A catalog is kept by the numbers of its tables, and only the way in which files are registered keeps
the names apart.  A registration takes the place of an earlier one of the same number, and drops one
of the same name.  So what a catalog lists are the registrations that stand: those after which none
was made of their number or of their name (`Catalog.registerAll_lists`).

Two registrations of one name do not both stand (`Stands.unique`).  So names and numbers belong to
each other one to one, and looking a table up by its name does not depend on the order in which a
catalog is searched (`Catalog.Named.tableId_eq_ok`).
-/

namespace PageStore

/-- A file that is registered under a name. -/
structure Registration where
  file : HeapFile
  name : String
deriving DecidableEq, Repr

/-- A registration stands, of those that were made one after another, if none was made later of its
number or of its name. -/
def Stands (made : List Registration) (one : Registration) : Prop :=
  ∃ before after, made = before ++ one :: after ∧
    ∀ later ∈ after, later.file.table ≠ one.file.table ∧ later.name ≠ one.name

section Stands

variable {made : List Registration} {one other new : Registration}

theorem Stands.mem (stands : Stands made one) : one ∈ made := by
  obtain ⟨before, after, rfl, -⟩ := stands
  exact List.mem_append_right before List.mem_cons_self

/-- One more registration stands, and leaves those to stand that have another number and another
name. -/
theorem stands_snoc : Stands (made ++ [new]) one ↔
    one = new ∨ Stands made one ∧ new.file.table ≠ one.file.table ∧ new.name ≠ one.name := by
  constructor
  · rintro ⟨before, after, same, free⟩
    rcases List.eq_nil_or_concat after with rfl | ⟨after, last, rfl⟩
    · obtain ⟨-, here⟩ := List.append_inj' same rfl
      exact .inl (List.cons.inj here).1.symm
    · rw [List.concat_eq_append] at same free
      rw [← List.cons_append, ← List.append_assoc] at same
      obtain ⟨rfl, here⟩ := List.append_inj' same rfl
      obtain rfl := (List.cons.inj here).1
      refine .inr ⟨⟨before, after, rfl, fun later mem => ?_⟩, ?_⟩
      · exact free later (List.mem_append_left _ mem)
      · exact free new (List.mem_append_right _ List.mem_cons_self)
  · rintro (rfl | ⟨⟨before, after, rfl, free⟩, apart⟩)
    · exact ⟨made, [], rfl, nofun⟩
    · refine ⟨before, after ++ [new], by rw [List.append_assoc, List.cons_append], ?_⟩
      intro later mem
      rcases List.mem_append.1 mem with old | last
      · exact free later old
      · rw [List.mem_singleton.1 last]
        exact apart

/-- Of two registrations that share a name or a number one was made first, and does not stand. -/
theorem Stands.unique (stands : Stands made one) (too : Stands made other)
    (shared : one.name = other.name ∨ one.file.table = other.file.table) : one = other := by
  obtain ⟨before, after, rfl, free⟩ := stands
  obtain ⟨before', after', same, free'⟩ := too
  rcases List.append_eq_append_iff.1 same with ⟨between, -, rest⟩ | ⟨between, -, rest⟩
  · cases between with
    | nil => exact (List.cons.inj rest).1
    | cons first between =>
      obtain ⟨-, rfl⟩ := List.cons.inj rest
      obtain ⟨number, name⟩ := free other (List.mem_append_right _ List.mem_cons_self)
      exact (shared.elim (name ·.symm) (number ·.symm)).elim
  · cases between with
    | nil => exact (List.cons.inj rest).1.symm
    | cons first between =>
      obtain ⟨-, rfl⟩ := List.cons.inj rest
      obtain ⟨number, name⟩ := free' one (List.mem_append_right _ List.mem_cons_self)
      exact (shared.elim name number).elim

end Stands

namespace Catalog

variable {catalog added : Catalog} {file : HeapFile} {name other : String} {table : TableId}
  {entry : Table} {made : List Registration}

/-! ## One registration -/

theorem tableName_eq_ok :
    catalog.tableName table = .ok name ↔ ∃ entry, catalog.get? table = some entry ∧
      entry.name = name := by
  unfold Catalog.tableName
  cases catalog.get? table with
  | none => simp
  | some entry => simp

/-- A registration fails exactly if the number of its file has another name. -/
theorem add_eq_error_iff {e : Error} :
    catalog.add file name = .error e ↔ ∃ other, catalog.tableName file.table = .ok other ∧
      other ≠ name ∧ e = .tableTaken file.table name other := by
  unfold Catalog.add Catalog.tableName
  cases catalog.get? file.table with
  | none => simp
  | some entry =>
    by_cases same : entry.name = name
    · simp [Option.filter, same]
    · have apart : ¬ name = entry.name := fun here => same here.symm
      simp [Option.filter, same, apart, eq_comm]

/-- A registration that succeeds puts the file in its place, and takes away what had its name. -/
theorem get?_add (ok : catalog.add file name = .ok added) (table : TableId) :
    added.get? table = if table = file.table then some ⟨name, file⟩
      else (catalog.get? table).filter fun entry => entry.name ≠ name := by
  dsimp only [Catalog.add] at ok
  split at ok
  · cases ok
  · cases ok
    rw [Dictionary.get?_put, Dictionary.get?_filter]

/-! ## Registrations one after another -/

/-- A catalog, with the registrations that were made, once one more is asked for.  It is made unless
it fails. -/
def register (state : List Registration × Catalog) (asked : Registration) :
    List Registration × Catalog :=
  match state.2.add asked.file asked.name with
  | .ok added => (state.1 ++ [asked], added)
  | .error _ => state

/-- The registrations that were made of those that were asked for one after another, and the catalog
after them. -/
def registerAll (asked : List Registration) : List Registration × Catalog :=
  asked.foldl register ([], .empty)

/-- A catalog that lists the registrations that stand, each under the number of its file. -/
def Lists (made : List Registration) (catalog : Catalog) : Prop :=
  ∀ table entry, catalog.get? table = some entry ↔
    entry.file.table = table ∧ Stands made ⟨entry.file, entry.name⟩

theorem lists_empty : Lists [] .empty := by
  intro table entry
  refine ⟨nofun, fun ⟨_, stands⟩ => ?_⟩
  cases stands.mem

theorem Lists.add (lists : catalog.Lists made) (ok : catalog.add file name = .ok added) :
    added.Lists (made ++ [⟨file, name⟩]) := by
  intro table entry
  rw [get?_add ok, stands_snoc]
  split
  · next here =>
    constructor
    · rintro ⟨⟩
      exact ⟨here.symm, .inl rfl⟩
    · rintro ⟨own, same | ⟨-, number, -⟩⟩
      · cases same
        rfl
      · exact absurd (here.symm.trans own.symm) number
  · next apart =>
    rw [Option.filter_eq_some_iff, lists table entry, decide_eq_true_eq]
    constructor
    · rintro ⟨⟨rfl, stands⟩, ne⟩
      exact ⟨rfl, .inr ⟨stands, (apart ·.symm), (ne ·.symm)⟩⟩
    · rintro ⟨rfl, same | ⟨stands, -, ne⟩⟩
      · cases same
        exact absurd rfl apart
      · exact ⟨⟨rfl, stands⟩, (ne ·.symm)⟩

theorem Lists.register {state : List Registration × Catalog} (lists : state.2.Lists state.1)
    (asked : Registration) : (register state asked).2.Lists (register state asked).1 := by
  unfold Catalog.register
  split
  · next ok => exact lists.add ok
  · exact lists

/-- After any registrations the catalog lists those that stand of the ones that were made. -/
theorem registerAll_lists (asked : List Registration) :
    (registerAll asked).2.Lists (registerAll asked).1 := by
  suffices goesOn : ∀ state : List Registration × Catalog, state.2.Lists state.1 →
      (asked.foldl Catalog.register state).2.Lists (asked.foldl Catalog.register state).1 from
    goesOn ([], .empty) lists_empty
  induction asked with
  | nil => exact fun _ => id
  | cons one asked ih => exact fun state lists => ih (Catalog.register state one) (lists.register one)

/-! ## Looking tables up -/

theorem Lists.file_eq_ok (lists : catalog.Lists made) :
    catalog.file table = .ok file ↔ file.table = table ∧ ∃ name, Stands made ⟨file, name⟩ := by
  rw [Catalog.file_eq_ok]
  constructor
  · rintro ⟨entry, found, rfl⟩
    obtain ⟨own, stands⟩ := (lists table entry).1 found
    exact ⟨own, entry.name, stands⟩
  · rintro ⟨own, name, stands⟩
    exact ⟨⟨name, file⟩, (lists table ⟨name, file⟩).2 ⟨own, stands⟩, rfl⟩

/-- A name has one number. -/
theorem Lists.eq_of_name (lists : catalog.Lists made) {one two : TableId} {first second : Table}
    (found : catalog.get? one = some first) (too : catalog.get? two = some second)
    (same : first.name = second.name) : one = two := by
  obtain ⟨rfl, stands⟩ := (lists one first).1 found
  obtain ⟨rfl, stands'⟩ := (lists two second).1 too
  exact congrArg (fun one : Registration => one.file.table) (stands.unique stands' (.inl same))

/-- A name is looked up by searching all tables, and there is only one to be found. -/
theorem Lists.tableId_eq_ok (lists : catalog.Lists made) :
    catalog.tableId name = .ok table ↔ catalog.tableName table = .ok name := by
  rw [tableName_eq_ok]
  unfold Catalog.tableId
  cases found : catalog.entries.find? fun entry => entry.2.name == name with
  | none =>
    refine ⟨nofun, ?_⟩
    rintro ⟨entry, look, same⟩
    have missed := List.find?_eq_none.1 found (table, entry) (Dictionary.mem_entries_iff.2 look)
    exact absurd (beq_iff_eq.2 same) missed
  | some pair =>
    obtain ⟨number, entry⟩ := pair
    have look : catalog.get? number = some entry :=
      Dictionary.mem_entries_iff.1 (List.mem_of_find?_eq_some found)
    have passes := List.find?_some found
    have named : entry.name = name := beq_iff_eq.1 passes
    constructor
    · rintro ⟨⟩
      exact ⟨entry, look, named⟩
    · rintro ⟨entry', look', named'⟩
      exact congrArg Except.ok (lists.eq_of_name look look' (named.trans named'.symm))

theorem mem_tableIds : table ∈ catalog.tableIds ↔ ∃ file, catalog.file table = .ok file := by
  rw [Catalog.tableIds, List.mem_mergeSort, Dictionary.mem_keys_iff, Option.isSome_iff_exists]
  constructor
  · rintro ⟨entry, found⟩
    exact ⟨entry.file, file_eq_ok.2 ⟨entry, found, rfl⟩⟩
  · rintro ⟨file, listed⟩
    obtain ⟨entry, found, -⟩ := file_eq_ok.1 listed
    exact ⟨entry, found⟩

theorem tableIds_increase (catalog : Catalog) : catalog.tableIds.Pairwise (· < ·) := by
  have sorted : catalog.tableIds.Pairwise (· ≤ ·) := by
    refine (List.pairwise_mergeSort (fun a b c first second => ?_) (fun a b => ?_) _).imp
      of_decide_eq_true
    · exact decide_eq_true (Nat.le_trans (of_decide_eq_true first) (of_decide_eq_true second))
    · rw [Bool.or_eq_true, decide_eq_true_eq, decide_eq_true_eq]
      exact Nat.le_total a b
  have distinct : catalog.tableIds.Nodup :=
    (List.mergeSort_perm catalog.keys _).nodup_iff.2 catalog.nodup_keys
  exact (sorted.and distinct).imp fun ⟨le, ne⟩ => Nat.lt_of_le_of_ne le ne

end Catalog

/-- Registering a file that fails, for whatever reason, leaves the catalog of a database as it
was. -/
theorem Database.catalog_addFile_of_error {db : Database} {fileName name : String} {schema : Schema}
    {pageSize : Nat} {e : Error} (fails : (db.addFile fileName schema name pageSize).1 = .error e) :
    (db.addFile fileName schema name pageSize).2.2.store.catalog = db.store.catalog := by
  unfold Database.addFile at fails ⊢
  cases opens : HeapFile.onDisk .checked db.store.disk fileName schema pageSize with
  | error e => rfl
  | ok created =>
    obtain ⟨file, disk⟩ := created
    simp only [opens] at fails ⊢
    cases adds : db.store.catalog.add file name with
    | error e => rfl
    | ok catalog =>
      simp only [adds] at fails
      cases fails

namespace Catalog

/-- Whatever files are registered under whatever names, names and numbers belong to each other one
to one.  A number that is registered has the file of the last registration of that number that was
made, and it is that file's own number; it stays registered until its name is given to another
number.  The numbers are listed in increasing order.  A registration fails exactly if the number of
its file is registered under another name, and one that fails leaves the catalog as it was. -/
theorem names_and_numbers_correspond (asked : List Registration) :
    let made := (registerAll asked).1
    let catalog := (registerAll asked).2
    (∀ one two name, catalog.tableName one = .ok name → catalog.tableName two = .ok name →
      one = two) ∧
    (∀ name table, catalog.tableId name = .ok table ↔ catalog.tableName table = .ok name) ∧
    (∀ table file, catalog.file table = .ok file ↔ file.table = table ∧ ∃ name before after,
      made = before ++ ⟨file, name⟩ :: after ∧
        ∀ later ∈ after, later.file.table ≠ table ∧ later.name ≠ name) ∧
    (∀ table, table ∈ catalog.tableIds ↔ ∃ file, catalog.file table = .ok file) ∧
    catalog.tableIds.Pairwise (· < ·) ∧
    (∀ file name, (∃ e, catalog.add file name = .error e) ↔
      ∃ other, catalog.tableName file.table = .ok other ∧ other ≠ name) ∧
    (∀ file name e, catalog.add file name = .error e →
      registerAll (asked ++ [⟨file, name⟩]) = (made, catalog)) ∧
    ∀ (db : Database) fileName schema name pageSize e, db.store.catalog = catalog →
      (db.addFile fileName schema name pageSize).1 = .error e →
        (db.addFile fileName schema name pageSize).2.2.store.catalog = catalog := by
  intro made catalog
  have lists : catalog.Lists made := registerAll_lists asked
  refine ⟨?_, fun _ _ => lists.tableId_eq_ok, ?_, fun _ => mem_tableIds, tableIds_increase catalog,
    fun file name => ?_, fun file name e fails => ?_, ?_⟩
  · intro one two name named too
    obtain ⟨first, found, rfl⟩ := tableName_eq_ok.1 named
    obtain ⟨second, found', same⟩ := tableName_eq_ok.1 too
    exact lists.eq_of_name found found' same.symm
  · intro table file
    rw [lists.file_eq_ok]
    refine and_congr_right fun own => ?_
    rw [← own]
    rfl
  · constructor
    · rintro ⟨e, fails⟩
      obtain ⟨other, named, ne, -⟩ := add_eq_error_iff.1 fails
      exact ⟨other, named, ne⟩
    · rintro ⟨other, named, ne⟩
      exact ⟨_, add_eq_error_iff.2 ⟨other, named, ne, rfl⟩⟩
  · rw [registerAll, List.foldl_append]
    show register (made, catalog) ⟨file, name⟩ = (made, catalog)
    rw [register, show (made, catalog).2.add file name = .error e from fails]
  · intro db fileName schema name pageSize e same fails
    rw [← same]
    exact Database.catalog_addFile_of_error fails

/-- A file of number 1 is not registered under a second name; but once number 2 has taken the first
one, number 1 can have the second. -/
example :
    let file (table : TableId) : HeapFile := ⟨table, "t", ⟨[]⟩, 8⟩
    let (made, catalog) := registerAll [⟨file 1, "a"⟩, ⟨file 1, "b"⟩, ⟨file 2, "a"⟩, ⟨file 1, "b"⟩]
    made = [⟨file 1, "a"⟩, ⟨file 2, "a"⟩, ⟨file 1, "b"⟩] ∧
      [1, 2].map catalog.tableName = [.ok "b", .ok "a"] := by
  exact ⟨by decide +kernel, by rfl⟩

end Catalog

end PageStore
