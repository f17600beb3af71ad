import Mathlib.Algebra.Ring.Int.Defs
import Mathlib.Data.List.Induction
import PageStore.Proofs.Query.Schemas

/-!
# What aggregates are

The rows of an aggregate by their definition, with no tallies: the groups in the order in which they
first appear (`groupsOf`), the rows of each (`members`), and what a function is of these
(`Aggregation.exact`).  `summary` is what an aggregate should give, as long as an integer field can
hold each value (`InRange`).

A loop over the rows keeps tallies instead, in a dictionary that grows with the groups.  After any
rows, these are the groups of the rows so far, each with the tally of its members (`Tallied`), and
`Aggregation.results` then gives the summary, or the error that a value is too large.
-/

namespace PageStore

variable {schema out : Schema} {row : Row} {rows : List Row} {key : Option Field}

/-- The integer at a position of a row, if there is one. -/
def Row.intAt? (i : Nat) (row : Row) : Option Int :=
  match row.fields[i]? with
  | some (.int value) => some value.toInt
  | _ => none

/-- The integers at a position of some rows. -/
def intsAt (i : Nat) (rows : List Row) : List Int := rows.filterMap (Row.intAt? i)

namespace Aggregation

variable {agg : Aggregation} {groups : Groups}

/-! ## The definition -/

/-- The group of a row: the field that rows are grouped by, if they are. -/
def groupOf (agg : Aggregation) (row : Row) : Option Field := agg.group.bind fun i => row.fields[i]?

/-- The groups of some rows, in the order in which they first appear. -/
def groupsOf (agg : Aggregation) (rows : List Row) : List (Option Field) :=
  (rows.map agg.groupOf).eraseDups

/-- The rows of a group. -/
def members (agg : Aggregation) (rows : List Row) (key : Option Field) : List Row :=
  rows.filter fun row => agg.groupOf row = key

/-- The values of a function of some rows. -/
def exact (agg : Aggregation) (rows : List Row) : List Int :=
  let ints := intsAt agg.field rows
  match agg.function with
  | .count => [rows.length]
  | .sum => [ints.sum]
  | .min => ints.min?.toList
  | .max => ints.max?.toList
  | .avg => [ints.sum.tdiv rows.length]
  | .sumCount => [ints.sum, rows.length]
  | .partAvg => [ints.sum.tdiv (max (intsAt (agg.field + 1) rows).sum 1)]

/-- An integer field can hold the values of every group. -/
def InRange (agg : Aggregation) (rows : List Row) : Prop :=
  ∀ key ∈ agg.groupsOf rows, ∀ value ∈ agg.exact (agg.members rows key),
    -2147483648 ≤ value ∧ value ≤ 2147483647

/-- The row of a group: the field that it was grouped by, and the values over its rows. -/
def rowOf (agg : Aggregation) (rows : List Row) (key : Option Field) : Row :=
  .ofFields (key.toList ++
    (agg.exact (agg.members rows key)).map fun value => .int (Int32.ofInt value))

/-- The rows of all groups. -/
def summary (agg : Aggregation) (rows : List Row) : List Row :=
  (agg.groupsOf rows).map (agg.rowOf rows)

/-! ## Groups -/

theorem mem_groupsOf : key ∈ agg.groupsOf rows ↔ ∃ row ∈ rows, agg.groupOf row = key := by
  rw [groupsOf, List.mem_eraseDups, List.mem_map]

theorem groupsOf_concat (agg : Aggregation) (rows : List Row) (row : Row) :
    agg.groupsOf (rows ++ [row]) =
      if agg.groupOf row ∈ agg.groupsOf rows then agg.groupsOf rows
      else agg.groupsOf rows ++ [agg.groupOf row] := by
  have splits : agg.groupsOf (rows ++ [row]) =
      agg.groupsOf rows ++ ([agg.groupOf row].removeAll (rows.map agg.groupOf)).eraseDups := by
    rw [groupsOf, List.map_append, List.eraseDups_append]
    rfl
  have known : agg.groupOf row ∈ agg.groupsOf rows ↔ agg.groupOf row ∈ rows.map agg.groupOf :=
    List.mem_eraseDups
  rw [splits]
  by_cases old : agg.groupOf row ∈ agg.groupsOf rows
  · rw [if_pos old]
    have new : [agg.groupOf row].removeAll (rows.map agg.groupOf) = [] := by
      simpa [List.removeAll] using known.1 old
    rw [new]
    exact List.append_nil _
  · rw [if_neg old]
    have new : [agg.groupOf row].removeAll (rows.map agg.groupOf) = [agg.groupOf row] := by
      simpa [List.removeAll] using mt known.2 old
    rw [new]
    rfl

theorem members_concat (agg : Aggregation) (rows : List Row) (row : Row) (key : Option Field) :
    agg.members (rows ++ [row]) key =
      if agg.groupOf row = key then agg.members rows key ++ [row] else agg.members rows key := by
  by_cases own : agg.groupOf row = key <;> simp [members, own]

theorem members_ne_nil (known : key ∈ agg.groupsOf rows) : agg.members rows key ≠ [] := by
  obtain ⟨row, mem, own⟩ := mem_groupsOf.1 known
  exact List.ne_nil_of_mem (List.mem_filter.2 ⟨mem, decide_eq_true own⟩)

/-! ## Rows that have what is read of them -/

/-- A row has the fields that an aggregation reads. -/
structure Suits (agg : Aggregation) (row : Row) : Prop where
  key : agg.key row = .ok (agg.groupOf row)
  field : ∃ field, row.fields[agg.field]? = some field
  int : agg.function ≠ .count → ∃ value, row.fields[agg.field]? = some (.int value)
  count : agg.function = .partAvg → ∃ value, row.fields[agg.field + 1]? = some (.int value)

theorem exists_field {i : Nat} {column : Column} (fits : row.fits schema)
    (listed : schema.columnAt i = .ok column) :
    ∃ field, row.fields[i]? = some field ∧ field.type = column.type := by
  have same := congrArg (fun types => types[i]?) (Row.fits_iff.1 fits)
  simp only [Row.types, Schema.types, List.getElem?_map] at same
  unfold Schema.columnAt Schema.column? at listed
  split at listed
  · next found =>
    cases listed
    rw [found] at same
    obtain ⟨field, read, type⟩ := Option.map_eq_some_iff.1 same
    exact ⟨field, read, type⟩
  · cases listed

theorem exists_int {i : Nat} {type : FieldType} (fits : row.fits schema)
    (listed : schema.typeAt i = .ok type) (int : type ≠ .text) :
    ∃ value, row.fields[i]? = some (.int value) := by
  obtain ⟨column, found, rfl⟩ := Answer.map_eq_ok.1 listed
  obtain ⟨field, read, same⟩ := exists_field fits found
  cases field with
  | int value => exact ⟨value, read⟩
  | text value => exact absurd same.symm int

/-- An aggregation is allowed over integers, or counts. -/
theorem check_eq_ok (checked : agg.check schema = .ok ()) :
    ∃ type, schema.typeAt agg.field = .ok type ∧ (agg.function ≠ .count → type ≠ .text) ∧
      (agg.function = .partAvg → schema.typeAt (agg.field + 1) = .ok .int) := by
  obtain ⟨type, typed, checked⟩ := Answer.bind_eq_ok.1 checked
  dsimp only at checked
  by_cases refused : type = .text ∧ agg.function ≠ .count
  · rw [if_pos refused] at checked
    cases checked
  · rw [if_neg refused] at checked
    refine ⟨type, typed, fun counts text => refused ⟨text, counts⟩, fun parts => ?_⟩
    rw [if_pos parts] at checked
    obtain ⟨type, typed, checked⟩ := Answer.bind_eq_ok.1 checked
    by_cases int : type = .int
    · rw [typed, int]
    · rw [if_pos int] at checked
      cases checked

/-- The rows that an aggregation is allowed over have what it reads. -/
theorem suits_of_fits (accepted : agg.outputSchema schema = .ok out) (fits : row.fits schema) :
    agg.Suits row := by
  obtain ⟨_, checked, accepted⟩ := Answer.bind_eq_ok.1 accepted
  obtain ⟨grouped, columns, accepted⟩ := Answer.bind_eq_ok.1 accepted
  obtain ⟨column, listed, -⟩ := Answer.bind_eq_ok.1 accepted
  obtain ⟨type, typed, notText, counted⟩ := check_eq_ok checked
  refine ⟨?_, ?_, fun counts => ?_, fun parts => ?_⟩
  · unfold groupColumns at columns
    unfold Aggregation.key groupOf
    cases group : agg.group with
    | none => rfl
    | some i =>
      rw [group] at columns
      obtain ⟨column, found, -⟩ := Answer.map_eq_ok.1 columns
      obtain ⟨field, read, -⟩ := exists_field fits found
      simp [Row.fieldAt, read, Except.map]
  · obtain ⟨field, read, -⟩ := exists_field fits listed
    exact ⟨field, read⟩
  · exact exists_int fits typed (notText counts)
  · exact exists_int fits (counted parts) (by decide)

/-! ## Tallies -/

theorem intsAt_concat (i : Nat) (rows : List Row) (row : Row) :
    intsAt i (rows ++ [row]) = intsAt i rows ++ (row.intAt? i).toList := by
  cases found : row.intAt? i <;> simp [intsAt, found]

/-- The tally of the rows of a group. -/
def tallyOf (agg : Aggregation) (rows : List Row) : Tally :=
  let ints := intsAt agg.field rows
  match agg.function with
  | .partAvg => ⟨(intsAt (agg.field + 1) rows).sum, ints.sum, none, none⟩
  | _ => ⟨rows.length, ints.sum, ints.min?, ints.max?⟩

theorem tallyOf_nil (agg : Aggregation) : agg.tallyOf [] = .zero := by
  unfold tallyOf
  split <;> rfl

theorem tallyOf_partAvg (parts : agg.function = .partAvg) (rows : List Row) :
    agg.tallyOf rows =
      ⟨(intsAt (agg.field + 1) rows).sum, (intsAt agg.field rows).sum, none, none⟩ := by
  unfold tallyOf
  rw [parts]

theorem tallyOf_eq (whole : agg.function ≠ .partAvg) (rows : List Row) :
    agg.tallyOf rows = ⟨rows.length, (intsAt agg.field rows).sum, (intsAt agg.field rows).min?,
      (intsAt agg.field rows).max?⟩ := by
  unfold tallyOf
  split
  · next parts => exact absurd parts whole
  · rfl

theorem min?_concat (ints : List Int) (v : Int) :
    (ints ++ [v]).min? = some (match ints.min? with
      | some m => if v < m then v else m
      | none => v) := by
  cases ints with
  | nil => rfl
  | cons first ints =>
    simp only [List.cons_append, List.min?_cons', List.foldl_append, List.foldl_cons, List.foldl_nil]
    congr 1
    omega

theorem max?_concat (ints : List Int) (v : Int) :
    (ints ++ [v]).max? = some (match ints.max? with
      | some m => if m < v then v else m
      | none => v) := by
  cases ints with
  | nil => rfl
  | cons first ints =>
    simp only [List.cons_append, List.max?_cons', List.foldl_append, List.foldl_cons, List.foldl_nil]
    congr 1
    omega

/-- Adding a field makes the tally of some rows that of one row more. -/
theorem add_tally {field : Field} (whole : agg.function ≠ .partAvg)
    (read : row.fields[agg.field]? = some field) (rows : List Row) :
    (agg.tallyOf rows).add field = agg.tallyOf (rows ++ [row]) := by
  rw [tallyOf_eq whole, tallyOf_eq whole, intsAt_concat, List.length_append, List.length_singleton]
  cases field with
  | text value =>
    simp [Tally.add, Row.intAt?, read]
  | int value =>
    have here : (row.intAt? agg.field).toList = [value.toInt] := by simp [Row.intAt?, read]
    rw [here, min?_concat, max?_concat, List.sum_append, List.sum_singleton, Tally.add]
    rfl

/-- A row that suits makes the tally of some rows that of one row more. -/
theorem Suits.tally (suits : agg.Suits row) (rows : List Row) :
    agg.tally (agg.tallyOf rows) row = .ok (agg.tallyOf (rows ++ [row])) := by
  by_cases parts : agg.function = .partAvg
  · obtain ⟨sum, readSum⟩ := suits.int (by simp [parts])
    obtain ⟨count, readCount⟩ := suits.count parts
    have sums : (row.intAt? agg.field).toList = [sum.toInt] := by simp [Row.intAt?, readSum]
    have counts : (row.intAt? (agg.field + 1)).toList = [count.toInt] := by
      simp [Row.intAt?, readCount]
    rw [tallyOf_partAvg parts, tallyOf_partAvg parts, intsAt_concat, intsAt_concat, sums, counts,
      List.sum_append, List.sum_append, List.sum_singleton, List.sum_singleton]
    simp [Aggregation.tally, parts, Row.fieldAt, readSum, readCount, Tally.addPart, bind,
      Except.bind]
  · obtain ⟨field, read⟩ := suits.field
    have adds := add_tally parts read rows
    unfold Aggregation.tally
    split
    · next is => exact absurd is parts
    · simp [Row.fieldAt, read, adds, bind, Except.bind, pure, Except.pure]

/-! ## The loop over the rows -/

/-- The groups of some rows are kept, each with the tally of its members. -/
structure Tallied (agg : Aggregation) (rows : List Row) (groups : Groups) : Prop where
  keys : groups.keys = agg.groupsOf rows
  tallies : ∀ key, (groups.get? key).getD .zero = agg.tallyOf (agg.members rows key)

theorem tallied_empty (agg : Aggregation) : agg.Tallied [] .empty :=
  ⟨rfl, fun _ => agg.tallyOf_nil.symm⟩

/-- A row that suits is tallied in its group. -/
theorem Tallied.addRow (tallied : agg.Tallied rows groups) (suits : agg.Suits row) :
    ∃ after, agg.addRow groups row = .ok after ∧ agg.Tallied (rows ++ [row]) after := by
  have tally := suits.tally (agg.members rows (agg.groupOf row))
  rw [← tallied.tallies] at tally
  refine ⟨groups.put (agg.groupOf row)
    (agg.tallyOf (agg.members rows (agg.groupOf row) ++ [row])), ?_, ?_, fun key => ?_⟩
  · rw [Aggregation.addRow, suits.key]
    show (agg.tally _ row >>= _) = _
    rw [tally]
    rfl
  · rw [Dictionary.keys_put, tallied.keys, groupsOf_concat]
    by_cases old : agg.groupOf row ∈ agg.groupsOf rows
    · rw [if_pos old, if_pos old]
    · rw [if_neg old, if_neg old]
  · rw [Dictionary.get?_put, members_concat]
    by_cases own : agg.groupOf row = key
    · subst own
      simp only [if_true, Option.getD_some]
    · rw [if_neg own, if_neg fun same => own same.symm]
      exact tallied.tallies key

/-- Rows that suit are tallied in their groups. -/
theorem exists_tallied (suit : ∀ row ∈ rows, agg.Suits row) :
    ∃ groups, rows.foldlM agg.addRow .empty = .ok groups ∧ agg.Tallied rows groups := by
  -- The invariant speaks of the rows so far, so the induction adds the last row.
  induction rows using List.reverseRecOn with
  | nil => exact ⟨.empty, rfl, agg.tallied_empty⟩
  | append_singleton rows row ih =>
    obtain ⟨groups, folds, tallied⟩ := ih fun row mem => suit row (List.mem_append_left _ mem)
    obtain ⟨after, adds, tallied⟩ := tallied.addRow (suit row (by simp))
    refine ⟨after, ?_, tallied⟩
    rw [List.foldlM_append, folds]
    show [row].foldlM agg.addRow groups = _
    rw [List.foldlM_cons, adds]
    rfl

/-! ## The rows of the groups -/

/-- The values of the tally of some rows are the values of the rows. -/
theorem values_tallyOf (suit : ∀ row ∈ rows, agg.Suits row) (nonempty : rows ≠ []) :
    (agg.tallyOf rows).values agg.function = agg.exact rows := by
  have many : ¬ (rows.length : Int) < 1 := by
    have := List.length_pos_iff.2 nonempty
    omega
  have ints (counts : agg.function ≠ .count) : intsAt agg.field rows ≠ [] := by
    obtain ⟨row, others, rfl⟩ := List.exists_cons_of_ne_nil nonempty
    obtain ⟨value, read⟩ := (suit row List.mem_cons_self).int counts
    simp [intsAt, Row.intAt?, read]
  unfold Tally.values exact tallyOf
  cases function : agg.function with
  | count | sum | sumCount => rfl
  | avg => simp only [if_neg many]
  | partAvg =>
    have largest (count : Int) : (if count < 1 then 1 else count) = max count 1 := by omega
    simp only [largest]
  | min =>
    obtain ⟨first, rest, eq⟩ := List.exists_cons_of_ne_nil (ints (by simp [function]))
    simp [eq]
  | max =>
    obtain ⟨first, rest, eq⟩ := List.exists_cons_of_ne_nil (ints (by simp [function]))
    simp [eq]

/-- The tally of each group is that of its members, so it gives their values. -/
theorem Tallied.result (tallied : agg.Tallied rows groups) (suit : ∀ row ∈ rows, agg.Suits row)
    {tally : Tally} (mem : (key, tally) ∈ groups.entries) :
    key ∈ agg.groupsOf rows ∧ tally.result agg.function =
      (agg.exact (agg.members rows key)).mapM (Tally.toField agg.function) := by
  have known : key ∈ agg.groupsOf rows := tallied.keys ▸ List.mem_map_of_mem mem
  have same := tallied.tallies key
  rw [Dictionary.mem_entries_iff.1 mem, Option.getD_some] at same
  have suit : ∀ row ∈ agg.members rows key, agg.Suits row :=
    fun row mem => suit row (List.mem_filter.1 mem).1
  rw [Tally.result, same, values_tallyOf suit (members_ne_nil known)]
  exact ⟨known, rfl⟩

/-- Tallied groups give the summary of the rows, if an integer field can hold all values. -/
theorem Tallied.results_ok (tallied : agg.Tallied rows groups)
    (suit : ∀ row ∈ rows, agg.Suits row) (inRange : agg.InRange rows) :
    agg.results groups = .ok (agg.summary rows) := by
  rw [results, Answer.mapM_of_forall (g := fun entry => agg.rowOf rows entry.1)]
  · rw [summary, ← tallied.keys, Dictionary.keys, List.map_map]
    rfl
  · rintro ⟨key, tally⟩ mem
    obtain ⟨known, result⟩ := tallied.result suit mem
    have fields : tally.result agg.function = .ok ((agg.exact (agg.members rows key)).map
        fun value => .int (Int32.ofInt value)) :=
      result.trans (Answer.mapM_of_forall fun value mem => if_pos (inRange key known value mem))
    show (tally.result agg.function >>= _) = _
    rw [fields]
    rfl

/-- Tallied groups give an error, if an integer field cannot hold some value. -/
theorem Tallied.results_error (tallied : agg.Tallied rows groups)
    (suit : ∀ row ∈ rows, agg.Suits row) (outside : ¬ agg.InRange rows) :
    ∃ value, agg.results groups = .error (.overflow agg.function value) := by
  cases made : agg.results groups with
  | ok given =>
    refine absurd (fun key known value mem => ?_) outside
    obtain ⟨⟨key, tally⟩, listed, rfl⟩ := List.mem_map.1 (tallied.keys ▸ known)
    obtain ⟨known, result⟩ := tallied.result suit listed
    obtain ⟨row, -, made⟩ := Answer.exists_of_mem (Answer.forall₂_of_mapM made).flip listed
    obtain ⟨fields, made, -⟩ := Answer.bind_eq_ok.1 made
    rw [result] at made
    obtain ⟨field, -, held⟩ := Answer.exists_of_mem (Answer.forall₂_of_mapM made).flip mem
    exact Decidable.byContradiction fun outside => by
      cases held.symm.trans (if_neg outside)
  | error e =>
    obtain ⟨⟨key, tally⟩, listed, fails⟩ := Answer.exists_of_mapM_error made
    obtain ⟨known, result⟩ := tallied.result suit listed
    replace fails : (tally.result agg.function >>= _) = .error e := fails
    rw [result] at fails
    cases made : (agg.exact (agg.members rows key)).mapM (Tally.toField agg.function) with
    | ok fields =>
      rw [made] at fails
      cases fails
    | error e' =>
      rw [made] at fails
      cases fails
      obtain ⟨value, -, fails⟩ := Answer.exists_of_mapM_error made
      refine ⟨value, ?_⟩
      unfold Tally.toField at fails
      split at fails
      · cases fails
      · cases fails
        rfl

end Aggregation

end PageStore
