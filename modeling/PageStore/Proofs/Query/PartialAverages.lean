import Mathlib.Algebra.BigOperators.Ring.Finset
import PageStore.Proofs.Query.Aggregates

/-!
# Averages of parts

The average of the rows of several parts can be computed part by part: each part gives the sum and
the count of each of its groups, and an aggregate over these adds the sums and the counts of a group
before it divides.  What it gives is what the average over all rows gives, in the same order; and if
it puts the groups together, it gives the one average of all rows (`Plan.partial_averages_combine`).

The groups come in the same order because a group that first appears in some part is first given by
that part (`eraseDups_flatMap`).  The sums and counts that a part gives for some of its groups add up
to those of the rows of these groups, as each row is in one of them (`flatMap_members_perm`); where a
part has no rows of a group, it adds nothing.  And an average never is too large for an integer field,
as no integer is that it is made of.
-/

namespace PageStore

/-! ## First appearances -/

section Distinct

variable {α β : Type} [BEq α] [LawfulBEq α] [BEq β] [LawfulBEq β]

omit [LawfulBEq α] in
theorem length_without_lt (a : α) (l : List α) :
    (l.filter fun b => !b == a).length < (a :: l).length :=
  Nat.lt_succ_of_le (List.length_filter_le _ _)

/-- What first appears among the members that pass a test. -/
theorem eraseDups_filter (test : α → Bool) (l : List α) :
    (l.filter test).eraseDups = l.eraseDups.filter test := by
  -- Erasing the first member's duplicates leaves a shorter list, but not the tail.
  induction size : l.length using Nat.strongRecOn generalizing l with
  | ind n ih =>
    cases l with
    | nil => rfl
    | cons a l =>
      have rest := ih _ (size ▸ length_without_lt a l) _ rfl
      rw [List.filter_filter] at rest
      rw [List.eraseDups_cons]
      by_cases passes : test a = true
      · rw [List.filter_cons_of_pos passes, List.filter_cons_of_pos passes, List.eraseDups_cons,
          List.filter_filter, ← rest]
        simp only [Bool.and_comm]
      · rw [List.filter_cons_of_neg passes, List.filter_cons_of_neg passes, ← rest]
        congr 1
        refine List.filter_congr fun b _ => ?_
        by_cases same : b = a
        · simp [same, passes]
        · simp [same]

theorem nodup_eraseDups (l : List α) : l.eraseDups.Nodup := by
  induction size : l.length using Nat.strongRecOn generalizing l with
  | ind n ih =>
    cases l with
    | nil => exact List.nodup_nil
    | cons a l =>
      rw [List.eraseDups_cons, List.nodup_cons]
      refine ⟨fun again => ?_, ih _ (size ▸ length_without_lt a l) _ rfl⟩
      have other := (List.mem_filter.1 (List.mem_eraseDups.1 again)).2
      rw [beq_self_eq_true] at other
      cases other

/-- What first appears among the images of what first appears. -/
theorem eraseDups_map_eraseDups (f : α → β) (l : List α) :
    (l.eraseDups.map f).eraseDups = (l.map f).eraseDups := by
  induction size : l.length using Nat.strongRecOn generalizing l with
  | ind n ih =>
    cases l with
    | nil => rfl
    | cons a l =>
      have rest := ih _ (size ▸ length_without_lt a l) _ rfl
      rw [List.eraseDups_cons, List.map_cons, List.map_cons, List.eraseDups_cons, List.eraseDups_cons,
        eraseDups_filter, rest, ← eraseDups_filter, List.filter_map, List.filter_filter,
        List.filter_map]
      congr 3
      refine List.filter_congr fun b _ => ?_
      by_cases same : b = a
      · simp [same]
      · simp [same]

/-- What first appears among the images of several lists is what first appears among those of their
first appearances. -/
theorem eraseDups_flatMap (f : α → β) (parts : List (List α)) :
    (parts.flatMap fun part => part.eraseDups.map f).eraseDups =
      (parts.flatten.map f).eraseDups := by
  induction parts with
  | nil => rfl
  | cons part parts ih =>
    have same : (fun b => !(part.eraseDups.map f).elem b) = fun b => !(part.map f).elem b := by
      funext b
      rw [Bool.eq_iff_iff]
      simp [List.mem_eraseDups]
    rw [List.flatMap_cons, List.flatten_cons, List.map_append, List.eraseDups_append,
      List.eraseDups_append, eraseDups_map_eraseDups, List.removeAll, List.removeAll, same,
      eraseDups_filter, ih, ← eraseDups_filter]

omit [BEq α] [LawfulBEq α] [BEq β] [LawfulBEq β] in
/-- Members that are taken by their keys, each key once, are all members. -/
theorem flatMap_filter_perm [DecidableEq β] (key : α → β) {keys : List β} {l : List α}
    (nodup : keys.Nodup) (all : ∀ a ∈ l, key a ∈ keys) :
    (keys.flatMap fun k => l.filter fun a => key a = k).Perm l := by
  induction keys generalizing l with
  | nil =>
    rw [List.eq_nil_iff_forall_not_mem.2 fun a mem => List.not_mem_nil (all a mem)]
    exact .refl _
  | cons k keys ih =>
    obtain ⟨fresh, nodup⟩ := List.nodup_cons.1 nodup
    let others := l.filter fun a => !decide (key a = k)
    have rest : (keys.flatMap fun k' => l.filter fun a => key a = k') =
        keys.flatMap fun k' => others.filter fun a => key a = k' := by
      refine List.flatMap_congr fun k' mem => ?_
      rw [List.filter_filter]
      refine List.filter_congr fun a _ => ?_
      by_cases own : key a = k'
      · have apart : k' ≠ k := fun same => fresh (same ▸ mem)
        simp [own, apart]
      · simp [own]
    have covered : ∀ a ∈ others, key a ∈ keys := by
      intro a mem
      obtain ⟨listed, other⟩ := List.mem_filter.1 mem
      rcases List.mem_cons.1 (all a listed) with same | known
      · simp [same] at other
      · exact known
    rw [List.flatMap_cons, rest]
    exact ((ih nodup covered).append_left _).trans (List.filter_append_perm _ l)

end Distinct

namespace Aggregation

/-- The sum and the count of a field. -/
def partialSums (field : Nat) (group : Option Nat) : Aggregation := ⟨field, group, .sumCount⟩

/-- The average of a field. -/
def averages (field : Nat) (group : Option Nat) : Aggregation := ⟨field, group, .avg⟩

/-- The average of sums and counts that come after the field that they were grouped by, if there is
one.  They are grouped by this field again, or not at all. -/
def combined (group kept : Option Nat) : Aggregation :=
  ⟨group.toList.length, kept.map fun _ => 0, .partAvg⟩

/-- A grouping has the groups of another, or puts all rows together. -/
def Coarser (kept group : Option Nat) : Prop := kept = group ∨ kept = none

/-- The group that the rows of a group belong to, if groups may be put together. -/
def coarse (kept : Option Nat) (key : Option Field) : Option Field := kept.bind fun _ => key

variable {field : Nat} {group kept : Option Nat} {schema out : Schema} {row : Row} {rows part : List Row}
  {parts : List (List Row)} {key : Option Field} {agg : Aggregation}

/-! ## Sums and counts of a part -/

/-- A row of a sum and a count, as a part gives it for a group. -/
def sumRow (key : Option Field) (sum count : Int) : Row :=
  .ofFields (key.toList ++ [.int (Int32.ofInt sum), .int (Int32.ofInt count)])

/-- The key of a group is there if rows are grouped. -/
theorem length_toList_groupOf (suits : agg.Suits row) :
    (agg.groupOf row).toList.length = agg.group.toList.length := by
  have keyed := suits.key
  unfold Aggregation.key at keyed
  cases group : agg.group with
  | none =>
    rw [groupOf, group]
    rfl
  | some i =>
    rw [group] at keyed
    obtain ⟨field, -, same⟩ := Answer.map_eq_ok.1 keyed
    rw [← same]
    rfl

theorem length_toList_of_mem (suit : ∀ row ∈ rows, agg.Suits row)
    (known : key ∈ agg.groupsOf rows) : key.toList.length = agg.group.toList.length := by
  obtain ⟨row, mem, rfl⟩ := mem_groupsOf.1 known
  exact length_toList_groupOf (suit row mem)

/-- A coarser grouping puts the groups of another together. -/
theorem groupOf_coarser (coarser : Coarser kept group) (row : Row) :
    (averages field kept).groupOf row = coarse kept ((partialSums field group).groupOf row) := by
  rcases coarser with rfl | rfl
  · cases kept <;> rfl
  · rfl

theorem groupOf_sumRow (coarser : Coarser kept group)
    (whole : key.toList.length = group.toList.length) (sum count : Int) :
    (combined group kept).groupOf (sumRow key sum count) = coarse kept key := by
  rcases coarser with rfl | rfl
  · cases key <;> cases kept <;> first | rfl | cases whole
  · rfl

theorem sum_sumRow (whole : key.toList.length = group.toList.length) (sum count : Int) :
    (sumRow key sum count).fields[group.toList.length]? = some (.int (Int32.ofInt sum)) := by
  rw [← whole]
  cases key <;> rfl

theorem count_sumRow (whole : key.toList.length = group.toList.length) (sum count : Int) :
    (sumRow key sum count).fields[group.toList.length + 1]? = some (.int (Int32.ofInt count)) := by
  rw [← whole]
  cases key <;> rfl

/-- What the parts give has what the average of them reads. -/
theorem suits_sumRow (coarser : Coarser kept group)
    (whole : key.toList.length = group.toList.length) (sum count : Int) :
    (combined group kept).Suits (sumRow key sum count) where
  key := by
    rcases coarser with rfl | rfl
    · cases key <;> cases kept <;> rfl
    · rfl
  field := ⟨_, sum_sumRow whole sum count⟩
  int _ := ⟨_, sum_sumRow whole sum count⟩
  count _ := ⟨_, count_sumRow whole sum count⟩

theorem intAt?_sumRow (whole : key.toList.length = group.toList.length) {sum count : Int}
    (inRange : ∀ value ∈ [sum, count], -2147483648 ≤ value ∧ value ≤ 2147483647) :
    (sumRow key sum count).intAt? group.toList.length = some sum ∧
      (sumRow key sum count).intAt? (group.toList.length + 1) = some count := by
  have exact {value : Int} (mem : value ∈ [sum, count]) : (Int32.ofInt value).toInt = value := by
    have := inRange value mem
    exact Int32.toInt_ofInt_of_le (by omega) (by omega)
  refine ⟨?_, ?_⟩
  · simp only [Row.intAt?, sum_sumRow whole, exact (List.mem_cons_self ..)]
  · simp only [Row.intAt?, count_sumRow whole, exact (List.mem_cons_of_mem _ (List.mem_cons_self ..))]

/-! ## Groups of all parts -/

theorem groupsOf_flatMap (coarser : Coarser kept group)
    (suit : ∀ part ∈ parts, ∀ row ∈ part, (partialSums field group).Suits row) :
    (combined group kept).groupsOf (parts.flatMap (partialSums field group).summary) =
      (averages field kept).groupsOf parts.flatten := by
  have given : (parts.flatMap (partialSums field group).summary).map (combined group kept).groupOf =
      (parts.map (List.map (partialSums field group).groupOf)).flatMap fun keys =>
        keys.eraseDups.map (coarse kept) := by
    rw [List.map_flatMap, List.flatMap_map]
    refine List.flatMap_congr fun part mem => ?_
    rw [summary, List.map_map]
    refine List.map_congr_left fun key known => ?_
    have whole : key.toList.length = group.toList.length :=
      length_toList_of_mem (suit part mem) known
    exact groupOf_sumRow coarser whole _ _
  have all : (parts.map (List.map (partialSums field group).groupOf)).flatten.map (coarse kept) =
      parts.flatten.map (averages field kept).groupOf := by
    rw [← List.map_flatten, List.map_map]
    exact List.map_congr_left fun row _ => (groupOf_coarser coarser row).symm
  rw [groupsOf, given, eraseDups_flatMap, all, groupsOf]

/-- The groups of a part that are put together into one. -/
def groupsIn (field : Nat) (group kept : Option Nat) (part : List Row) (key : Option Field) :
    List (Option Field) :=
  ((partialSums field group).groupsOf part).filter fun place => coarse kept place = key

/-- A part gives one row for each of its groups that are put together. -/
theorem members_summary (coarser : Coarser kept group)
    (suit : ∀ row ∈ part, (partialSums field group).Suits row) (key : Option Field) :
    (combined group kept).members ((partialSums field group).summary part) key =
      (groupsIn field group kept part key).map ((partialSums field group).rowOf part) := by
  rw [members, summary, List.filter_map, groupsIn]
  congr 1
  refine List.filter_congr fun place known => ?_
  have whole : place.toList.length = group.toList.length := length_toList_of_mem suit known
  have same : (combined group kept).groupOf ((partialSums field group).rowOf part place) =
      coarse kept place := groupOf_sumRow coarser whole _ _
  rw [Function.comp_apply, same]

/-- Each row of the groups that are put together is in one of them. -/
theorem flatMap_members_perm (coarser : Coarser kept group) (part : List Row) (key : Option Field) :
    ((groupsIn field group kept part key).flatMap ((partialSums field group).members part)).Perm
      ((averages field kept).members part key) := by
  have own : ∀ place ∈ groupsIn field group kept part key,
      (partialSums field group).members part place = ((averages field kept).members part key).filter
        fun row => (partialSums field group).groupOf row = place := by
    intro place listed
    have here : coarse kept place = key := of_decide_eq_true (List.mem_filter.1 listed).2
    rw [members, members, List.filter_filter]
    refine List.filter_congr fun row _ => ?_
    by_cases same : (partialSums field group).groupOf row = place
    · simp [groupOf_coarser coarser, same, here]
    · simp [same]
  rw [List.flatMap_congr own]
  refine flatMap_filter_perm _ ((nodup_eraseDups _).filter _) fun row mem => ?_
  obtain ⟨listed, here⟩ := List.mem_filter.1 mem
  refine List.mem_filter.2 ⟨mem_groupsOf.2 ⟨row, listed, rfl⟩, ?_⟩
  rwa [groupOf_coarser coarser] at here

theorem members_append (agg : Aggregation) (rows more : List Row) (key : Option Field) :
    agg.members (rows ++ more) key = agg.members rows key ++ agg.members more key :=
  List.filter_append ..

theorem intsAt_append (i : Nat) (rows more : List Row) :
    intsAt i (rows ++ more) = intsAt i rows ++ intsAt i more := List.filterMap_append ..

theorem intsAt_map_rowOf {i : Nat} {value : Option Field → Int} {keys : List (Option Field)}
    (read : ∀ key ∈ keys, (agg.rowOf rows key).intAt? i = some (value key)) :
    intsAt i (keys.map (agg.rowOf rows)) = keys.map value := by
  rw [intsAt, List.filterMap_map, ← List.filterMap_eq_map]
  exact List.filterMap_congr read

/-- What a part gives for a group adds up to the sum and the count of its rows. -/
theorem intsAt_members_summary (coarser : Coarser kept group)
    (suit : ∀ row ∈ part, (partialSums field group).Suits row)
    (inRange : (partialSums field group).InRange part) (key : Option Field) :
    let given := (combined group kept).members ((partialSums field group).summary part) key
    let members := (averages field kept).members part key
    (intsAt group.toList.length given).sum = (intsAt field members).sum ∧
      (intsAt (group.toList.length + 1) given).sum = members.length := by
  intro given members
  have read : ∀ place ∈ groupsIn field group kept part key,
      ((partialSums field group).rowOf part place).intAt? group.toList.length =
          some (intsAt field ((partialSums field group).members part place)).sum ∧
        ((partialSums field group).rowOf part place).intAt? (group.toList.length + 1) =
          some (((partialSums field group).members part place).length : Int) := by
    intro place listed
    have known := (List.mem_filter.1 listed).1
    exact intAt?_sumRow (length_toList_of_mem suit known) (inRange place known)
  have together : ((groupsIn field group kept part key).flatMap
      ((partialSums field group).members part)).Perm members := flatMap_members_perm coarser part key
  have one : given = _ := members_summary coarser suit key
  constructor
  · rw [one, intsAt_map_rowOf fun place listed => (read place listed).1]
    calc ((groupsIn field group kept part key).map fun place =>
          (intsAt field ((partialSums field group).members part place)).sum).sum
        = (intsAt field ((groupsIn field group kept part key).flatMap
            ((partialSums field group).members part))).sum := by
          rw [intsAt, List.filterMap_flatMap, List.flatMap, List.sum_flatten, List.map_map]
          rfl
      _ = (intsAt field members).sum := (together.filterMap _).sum_eq
  · rw [one, intsAt_map_rowOf fun place listed => (read place listed).2, ← together.length_eq,
      List.length_flatMap, Nat.cast_list_sum, List.map_map]
    rfl

/-- What all parts give for a group adds up to the sum and the count of its rows. -/
theorem intsAt_members_flatMap (coarser : Coarser kept group)
    (suit : ∀ part ∈ parts, ∀ row ∈ part, (partialSums field group).Suits row)
    (inRange : ∀ part ∈ parts, (partialSums field group).InRange part) (key : Option Field) :
    let given := (combined group kept).members (parts.flatMap (partialSums field group).summary) key
    let members := (averages field kept).members parts.flatten key
    (intsAt group.toList.length given).sum = (intsAt field members).sum ∧
      (intsAt (group.toList.length + 1) given).sum = members.length := by
  induction parts with
  | nil => exact ⟨rfl, rfl⟩
  | cons part parts ih =>
    obtain ⟨sum, count⟩ := intsAt_members_summary coarser (suit part List.mem_cons_self)
      (inRange part List.mem_cons_self) key
    obtain ⟨sums, counts⟩ := ih (fun part mem => suit part (List.mem_cons_of_mem _ mem))
      fun part mem => inRange part (List.mem_cons_of_mem _ mem)
    simp only [List.flatMap_cons, List.flatten_cons, members_append, intsAt_append, List.sum_append,
      List.length_append, Int.natCast_add]
    exact ⟨congrArg₂ (· + ·) sum sums, congrArg₂ (· + ·) count counts⟩

/-- The average of what the parts give for a group is the average of its rows. -/
theorem exact_combined (coarser : Coarser kept group)
    (suit : ∀ part ∈ parts, ∀ row ∈ part, (partialSums field group).Suits row)
    (inRange : ∀ part ∈ parts, (partialSums field group).InRange part)
    (known : key ∈ (averages field kept).groupsOf parts.flatten) :
    (combined group kept).exact
        ((combined group kept).members (parts.flatMap (partialSums field group).summary) key) =
      (averages field kept).exact ((averages field kept).members parts.flatten key) := by
  obtain ⟨sum, count⟩ := intsAt_members_flatMap coarser suit inRange key
  have nonempty := List.length_pos_iff.2 (members_ne_nil known)
  show [Int.tdiv (intsAt group.toList.length _).sum
    (max (intsAt (group.toList.length + 1) _).sum 1)] = [Int.tdiv _ _]
  rw [sum, count, Int.max_eq_left (by omega)]
  rfl

/-! ## Averages are in range -/

theorem sum_bounds {ints : List Int} {low high : Int}
    (bounds : ∀ value ∈ ints, low ≤ value ∧ value ≤ high) :
    low * ints.length ≤ ints.sum ∧ ints.sum ≤ high * ints.length := by
  induction ints with
  | nil => simp
  | cons first ints ih =>
    have := bounds first List.mem_cons_self
    have := ih fun value mem => bounds value (List.mem_cons_of_mem _ mem)
    rw [List.sum_cons, List.length_cons, Int.natCast_add, Int.mul_add, Int.mul_add]
    simp only [Int.natCast_one, Int.mul_one]
    omega

theorem intsAt_bounds {i : Nat} {value : Int} (mem : value ∈ intsAt i rows) :
    -2147483648 ≤ value ∧ value ≤ 2147483647 := by
  obtain ⟨row, -, read⟩ := List.mem_filterMap.1 mem
  unfold Row.intAt? at read
  split at read
  · next held found =>
    cases read
    have := held.le_toInt
    have := held.toInt_lt
    omega
  · cases read

/-- No average is too large for an integer field. -/
theorem inRange_averages (field : Nat) (group : Option Nat) (rows : List Row) :
    (averages field group).InRange rows := by
  intro key known value mem
  have nonempty := List.length_pos_iff.2 (members_ne_nil known)
  obtain ⟨low, high⟩ := sum_bounds fun value (mem : value ∈ intsAt field
    ((averages field group).members rows key)) => intsAt_bounds mem
  have few : (intsAt field ((averages field group).members rows key)).length ≤
    ((averages field group).members rows key).length := List.length_filterMap_le ..
  obtain rfl := List.mem_singleton.1 mem
  refine ⟨Int.le_tdiv_of_mul_le (by omega) ?_, ?_⟩
  · show _ ≤ (intsAt field _).sum
    omega
  · have most : (intsAt field ((averages field group).members rows key)).sum ≤
        2147483647 * ((averages field group).members rows key).length := by omega
    refine Int.le_trans (Int.tdiv_le_tdiv (by omega) most) ?_
    exact Int.le_of_eq (Int.mul_tdiv_cancel _ (by omega))

/-- What the parts give is averaged to the averages of all rows. -/
theorem summary_combined (coarser : Coarser kept group)
    (suit : ∀ part ∈ parts, ∀ row ∈ part, (partialSums field group).Suits row)
    (inRange : ∀ part ∈ parts, (partialSums field group).InRange part) :
    (combined group kept).summary (parts.flatMap (partialSums field group).summary) =
        (averages field kept).summary parts.flatten ∧
      (combined group kept).InRange (parts.flatMap (partialSums field group).summary) := by
  refine ⟨?_, fun key known => ?_⟩
  · rw [summary, groupsOf_flatMap coarser suit, summary]
    refine List.map_congr_left fun key known => ?_
    rw [rowOf, exact_combined coarser suit inRange known]
    rfl
  · rw [groupsOf_flatMap coarser suit] at known
    rw [exact_combined coarser suit inRange known]
    exact inRange_averages field kept parts.flatten key known

theorem suits_summary (coarser : Coarser kept group)
    (suit : ∀ row ∈ part, (partialSums field group).Suits row) :
    ∀ row ∈ (partialSums field group).summary part, (combined group kept).Suits row := by
  intro row mem
  obtain ⟨key, known, rfl⟩ := List.mem_map.1 mem
  exact suits_sumRow coarser (length_toList_of_mem suit known) _ _

/-! ## What is allowed -/

theorem groupColumns_coarser (coarser : Coarser kept group) {columns : List Column}
    (grouped : (partialSums field group).groupColumns schema = .ok columns) :
    ∃ columns, (averages field kept).groupColumns schema = .ok columns := by
  rcases coarser with rfl | rfl
  · exact ⟨columns, grouped⟩
  · exact ⟨[], rfl⟩

/-- Where sums and counts are allowed, so are averages. -/
theorem averages_accepted (coarser : Coarser kept group)
    (accepted : (partialSums field group).outputSchema schema = .ok out) :
    ∃ plain, (averages field kept).outputSchema schema = .ok plain := by
  obtain ⟨_, checked, accepted⟩ := Answer.bind_eq_ok.1 accepted
  obtain ⟨_, columns, accepted⟩ := Answer.bind_eq_ok.1 accepted
  obtain ⟨column, listed, -⟩ := Answer.bind_eq_ok.1 accepted
  obtain ⟨type, typed, notText, -⟩ := check_eq_ok checked
  obtain ⟨grouped, columns⟩ := groupColumns_coarser coarser columns
  have checked : (averages field kept).check schema = .ok () := by
    rw [check]
    refine Answer.bind_eq_ok.2 ⟨type, typed, ?_⟩
    exact if_neg fun refused => notText nofun refused.1
  exact ⟨_, Answer.bind_eq_ok.2 ⟨(), checked, Answer.bind_eq_ok.2 ⟨grouped, columns,
    Answer.bind_eq_ok.2 ⟨column, listed, rfl⟩⟩⟩⟩

/-- The average of sums and counts is allowed over what the parts give. -/
theorem combined_accepted (coarser : Coarser kept group)
    (accepted : (partialSums field group).outputSchema schema = .ok out) :
    ∃ last, (combined group kept).outputSchema out = .ok last := by
  obtain ⟨_, -, accepted⟩ := Answer.bind_eq_ok.1 accepted
  obtain ⟨grouped, columns, accepted⟩ := Answer.bind_eq_ok.1 accepted
  obtain ⟨column, -, accepted⟩ := Answer.bind_eq_ok.1 accepted
  cases accepted
  unfold groupColumns at columns
  cases group with
  | none =>
    cases columns
    rcases coarser with rfl | rfl <;> exact ⟨_, rfl⟩
  | some i =>
    obtain ⟨first, -, rfl⟩ := Answer.map_eq_ok.1 columns
    rcases coarser with rfl | rfl <;> exact ⟨_, rfl⟩

end Aggregation

namespace Plan

open Aggregation

/-- Over a plan with rows of a schema that gives some rows on some store, an aggregate could be built
and gave others. -/
def Aggregates (agg : Aggregation) (schema : Schema) (rows given : List Row) : Prop :=
  ∃ child plan s after later, child.schema = schema ∧ child.all s = .ok rows after ∧
    aggregateOf child agg = .ok plan ∧ plan.all s = .ok given later

/-- The rows of some parts fit one schema, and over each part the sums and counts of a field were
given, of each group or of all rows.  Then the average of these, over any plan that gives them one
part after the other, gives what the average of the field gives over any plan that gives all rows of
the parts, one part after the other: the same rows in the same order.  Neither fails.  Both are grouped
as the sums and counts were, or neither is grouped. -/
theorem partial_averages_combine {field : Nat} {group kept : Option Nat} {schema out : Schema}
    {parts sums : List (List Row)} (coarser : Coarser kept group)
    (accepted : (partialSums field group).outputSchema schema = .ok out)
    (fit : ∀ part ∈ parts, ∀ row ∈ part, row.fits schema)
    (summed : List.Forall₂ (Aggregates (partialSums field group) schema) parts sums) :
    ∃ rows,
      (∀ child s after, child.schema = out → child.all s = .ok sums.flatten after →
        ∃ plan, aggregateOf child (combined group kept) = .ok plan ∧ plan.all s = .ok rows after) ∧
      ∀ child s after, child.schema = schema → child.all s = .ok parts.flatten after →
        ∃ plan, aggregateOf child (averages field kept) = .ok plan ∧
          plan.all s = .ok rows after := by
  have suit : ∀ part ∈ parts, ∀ row ∈ part, (partialSums field group).Suits row :=
    fun part here row mem => suits_of_fits accepted (fit part here row mem)
  obtain ⟨inRange, rfl⟩ : (∀ part ∈ parts, (partialSums field group).InRange part) ∧
      sums = parts.map (partialSums field group).summary := by
    clear fit
    induction summed with
    | nil => exact ⟨nofun, rfl⟩
    | @cons part given parts sums first _ ih =>
      obtain ⟨child, plan, s, after, later, same, all, built, gave⟩ := first
      obtain ⟨_, _, built⟩ := Answer.bind_eq_ok.1 built
      cases built
      obtain ⟨inRange, rfl, -⟩ :=
        (all_aggregate all (suit part List.mem_cons_self) given later).1 gave
      obtain ⟨others, rfl⟩ := ih fun part mem => suit part (List.mem_cons_of_mem _ mem)
      exact ⟨List.forall_mem_cons.2 ⟨inRange, others⟩, rfl⟩
  obtain ⟨same, inRange'⟩ := summary_combined coarser suit inRange
  refine ⟨(averages field kept).summary parts.flatten, ?_, ?_⟩
  · rintro child s after rfl all
    obtain ⟨last, accepted⟩ := combined_accepted coarser accepted
    have suit' : ∀ row ∈ (parts.map (partialSums field group).summary).flatten,
        (combined group kept).Suits row := by
      intro row mem
      obtain ⟨part, here, mem⟩ := List.mem_flatMap.1 mem
      exact suits_summary coarser (suit part here) row mem
    refine ⟨.aggregate child (combined group kept) last, ?_,
      (all_aggregate all suit' _ _).2 ⟨inRange', same.symm, rfl⟩⟩
    rw [aggregateOf, accepted]
    rfl
  · rintro child s after rfl all
    obtain ⟨plain, accepted'⟩ := averages_accepted coarser accepted
    have suit' : ∀ row ∈ parts.flatten, (averages field kept).Suits row := by
      intro row mem
      obtain ⟨part, here, mem⟩ := List.mem_flatten.1 mem
      exact suits_of_fits accepted' (fit part here row mem)
    refine ⟨.aggregate child (averages field kept) plain, ?_,
      (all_aggregate all suit' _ _).2 ⟨inRange_averages field kept _, rfl, rfl⟩⟩
    rw [aggregateOf, accepted']
    rfl

/-- A row of a name and some points. -/
def points (name : String) (values : List Int) : Row :=
  .ofFields (.text name :: values.map fun value => .int (Int32.ofInt value))

/-- The statement above for three parts, one of which is empty and the others have rows of the same
two groups in another order: the averages of the groups and that of all rows are cut off. -/
theorem partial_averages_combine_of_three_parts :
    let sums := [[points "b" [3, 1], points "a" [-10, 1]], [],
      [points "a" [-1, 2], points "b" [4, 1]]]
    let rows := [points "b" [3], points "a" [-10], points "a" [-1], points "b" [4], points "a" [0]]
    let given : Plan := .list ⟨[⟨.text, some "name"⟩, ⟨.int, some "sum(points)"⟩,
      ⟨.int, some "count(points)"⟩]⟩ sums.flatten
    let all : Plan := .list ⟨[⟨.text, some "name"⟩, ⟨.int, some "points"⟩]⟩ rows
    (∃ combining plain, aggregateOf given (combined (some 0) (some 0)) = .ok combining ∧
      aggregateOf all (averages 1 (some 0)) = .ok plain ∧
      combining.all default = .ok [points "b" [3], points "a" [-3]] default ∧
      plain.all default = .ok [points "b" [3], points "a" [-3]] default) ∧
    ∃ combining plain, aggregateOf given (combined (some 0) none) = .ok combining ∧
      aggregateOf all (averages 1 none) = .ok plain ∧
      combining.all default = .ok [.ofFields [.int 0]] default ∧
      plain.all default = .ok [.ofFields [.int 0]] default := by
  intro sums rows given all
  let schema : Schema := ⟨[⟨.text, some "name"⟩, ⟨.int, some "points"⟩]⟩
  let out : Schema := ⟨[⟨.text, some "name"⟩, ⟨.int, some "sum(points)"⟩,
    ⟨.int, some "count(points)"⟩]⟩
  let parts := [[points "b" [3], points "a" [-10]], [],
    [points "a" [-1], points "b" [4], points "a" [0]]]
  have accepted : (partialSums 1 (some 0)).outputSchema schema = .ok out := rfl
  have fit : ∀ part ∈ parts, ∀ row ∈ part, row.fits schema := by decide
  have summed (part given : List Row)
      (gives : Plan.all (.aggregate (.list schema part) (partialSums 1 (some 0)) out) default =
        .ok given default) : Aggregates (partialSums 1 (some 0)) schema part given := by
    obtain ⟨left, taken⟩ := (list_yields schema part).drains default
    exact ⟨.list schema part, _, default, default, default, rfl,
      all_eq_ok_iff.2 ⟨_, left, rfl, taken⟩, rfl, gives⟩
  have each : List.Forall₂ (Aggregates (partialSums 1 (some 0)) schema) parts sums :=
    .cons (summed _ _ rfl) (.cons (summed _ _ rfl) (.cons (summed _ _ rfl) .nil))
  have alike {kept : Option Nat} (coarser : Coarser kept (some 0)) {plain : Plan} (gives : List Row)
      (built : aggregateOf all (averages 1 kept) = .ok plain)
      (averaged : plain.all default = .ok gives default) :
      ∃ combining, aggregateOf given (combined (some 0) kept) = .ok combining ∧
        combining.all default = .ok gives default := by
    obtain ⟨last, combines, averages⟩ := partial_averages_combine coarser accepted fit each
    obtain ⟨plain', built', averaged'⟩ := averages all default default rfl rfl
    cases built.symm.trans built'
    cases averaged.symm.trans averaged'
    exact combines given default default rfl rfl
  obtain ⟨grouped, built, combined⟩ := alike (.inl rfl) [points "b" [3], points "a" [-3]] rfl rfl
  obtain ⟨whole, built', combined'⟩ := alike (.inr rfl) [.ofFields [.int 0]] rfl rfl
  exact ⟨⟨grouped, _, built, rfl, combined, rfl⟩, whole, _, built', rfl, combined', rfl⟩

end Plan

end PageStore
