import Mathlib.Logic.Relation
import PageStore.Proofs.Answers
import PageStore.Proofs.Query.Turn

/-!
# The rows of a plan fit its schema

The schema of a plan is fixed when the plan is built, its rows come about when it runs.  An
aggregate makes its schema of a schema below and its rows of tallies, and a plan above reads its
rows by that schema, so the two have to agree at every depth.

`Plan.Sound` is what carries this through a run: the rows that a plan has taken and not given yet
fit, and so do those of its parts.  Every turn keeps it (`sound_start`, `sound_next`), whatever the
store is; `Plan.rows_fit` follows for every plan that could be built, every part of it, and every
sequence of commands to the plan and its parts.
-/

namespace PageStore

variable {row : Row} {schema out : Schema} {rows : List Row} {bytes : Bytes} {i : Nat}

/-! ## Rows of pages -/

theorem FieldType.type_of_decode {type : FieldType} {field : Field} {rest : Bytes}
    (ok : type.decode bytes = (.ok field, rest)) : field.type = type := by
  unfold FieldType.decode at ok
  split at ok
  · cases ok
  · cases type with
    | int =>
      cases ok
      rfl
    | text =>
      simp only at ok
      split at ok
      · cases ok
        rfl
      · cases ok

/-- Fields that are read have the types that they are read by. -/
theorem types_of_decodeFields {types : List FieldType} {fields : List Field}
    (ok : decodeFields types bytes = .ok fields) : fields.map Field.type = types := by
  induction types generalizing bytes fields with
  | nil =>
    cases ok
    rfl
  | cons type types ih =>
    rw [decodeFields] at ok
    split at ok
    · next field rest first =>
      obtain ⟨others, read, whole⟩ := Answer.map_eq_ok.1 ok
      rw [← whole, List.map_cons, FieldType.type_of_decode first, ih read]
    · cases ok

/-- The rows of a page fit the schema that the page is read by. -/
theorem Page.fits_of_mem_rows {page : Page} (ok : page.rows schema = .ok rows) (mem : row ∈ rows) :
    row.fits schema := by
  obtain ⟨slot, -, stored⟩ := Answer.exists_of_mem (Answer.forall₂_of_mapM ok) mem
  unfold storedRow at stored
  split at stored
  · next fields read =>
    cases stored
    exact Row.fits_iff.2 (types_of_decodeFields read)
  · cases stored

/-! ## Rows of aggregates -/

/-- Labels leave the types of columns as they are. -/
theorem Schema.types_labelled (schema : Schema) (label : String) :
    (schema.labelled label).types = schema.types := by
  simp [types, labelled, List.map_map, Function.comp_def]

theorem Row.type_of_fieldAt {column : Column} {field : Field} (fits : row.fits schema)
    (listed : schema.columnAt i = .ok column) (ok : row.fieldAt i = .ok field) :
    field.type = column.type := by
  have same := congrArg (fun types => types[i]?) (Row.fits_iff.1 fits)
  simp only [Row.types, Schema.types, List.getElem?_map] at same
  unfold Schema.columnAt Schema.column? at listed
  unfold Row.fieldAt at ok
  split at listed
  · next found =>
    split at ok
    · next read =>
      cases listed
      cases ok
      simpa [found, read] using same
    · cases ok
  · cases listed

/-- The keys of groups have the types of the columns that rows are grouped by. -/
def Groups.Fit (groups : Groups) (grouped : List Column) : Prop :=
  ∀ key ∈ groups.keys, key.toList.map Field.type = grouped.map Column.type

theorem Groups.fit_empty (grouped : List Column) : Groups.Fit .empty grouped := nofun

namespace Aggregation

variable {agg : Aggregation} {grouped : List Column} {groups after : Groups}

theorem types_of_key {key : Option Field} (columns : agg.groupColumns schema = .ok grouped)
    (fits : row.fits schema) (ok : agg.key row = .ok key) :
    key.toList.map Field.type = grouped.map Column.type := by
  unfold groupColumns at columns
  unfold Aggregation.key at ok
  cases group : agg.group with
  | none =>
    rw [group] at columns ok
    cases columns
    cases ok
    rfl
  | some i =>
    rw [group] at columns ok
    obtain ⟨column, listed, rfl⟩ := Answer.map_eq_ok.1 columns
    obtain ⟨field, read, rfl⟩ := Answer.map_eq_ok.1 ok
    show [field.type] = [column.type]
    rw [Row.type_of_fieldAt fits listed read]

theorem fit_addRow (columns : agg.groupColumns schema = .ok grouped) (fits : row.fits schema)
    (fit : groups.Fit grouped) (ok : agg.addRow groups row = .ok after) : after.Fit grouped := by
  obtain ⟨key, keyed, ok⟩ := Answer.bind_eq_ok.1 ok
  obtain ⟨tally, -, ok⟩ := Answer.bind_eq_ok.1 ok
  cases ok
  intro place mem
  rw [Dictionary.keys_put] at mem
  split at mem
  · exact fit place mem
  · rcases List.mem_append.1 mem with old | new
    · exact fit place old
    · rw [List.mem_singleton.1 new]
      exact types_of_key columns fits keyed

/-- A function makes one integer for each of its columns. -/
theorem types_of_result {tally : Tally} {function : Function} {fields : List Field} (name : String)
    (ok : tally.result function = .ok fields) :
    fields.map Field.type = (outputNames function name).map fun _ => .int := by
  have paired := Answer.forall₂_of_mapM ok
  have ints : ∀ type ∈ fields.map Field.type, type = .int := by
    intro type mem
    obtain ⟨field, given, rfl⟩ := List.mem_map.1 mem
    obtain ⟨value, -, made⟩ := Answer.exists_of_mem paired given
    unfold Tally.toField at made
    split at made
    · cases made
      rfl
    · cases made
  have count : (outputNames function name).length = (tally.values function).length := by
    cases function <;> rfl
  rw [List.eq_replicate_of_mem ints, List.map_const', List.length_map, count,
    paired.length_eq]

theorem types_of_outputSchema (ok : agg.outputSchema schema = .ok out) :
    ∃ grouped name, agg.groupColumns schema = .ok grouped ∧
      out.types = grouped.map Column.type ++ (outputNames agg.function name).map fun _ => .int := by
  obtain ⟨_, -, ok⟩ := Answer.bind_eq_ok.1 ok
  obtain ⟨grouped, columns, ok⟩ := Answer.bind_eq_ok.1 ok
  obtain ⟨column, -, ok⟩ := Answer.bind_eq_ok.1 ok
  cases ok
  exact ⟨grouped, column.name.getD "*", columns, by simp [Schema.types, Function.comp_def]⟩

/-- The rows that groups give fit the schema of the aggregation. -/
theorem results_fit (ok : agg.outputSchema schema = .ok out)
    (columns : agg.groupColumns schema = .ok grouped) (fit : groups.Fit grouped)
    (results : agg.results groups = .ok rows) : ∀ row ∈ rows, row.fits out := by
  intro row mem
  obtain ⟨grouped', name, columns', types⟩ := types_of_outputSchema ok
  cases columns.symm.trans columns'
  obtain ⟨⟨key, tally⟩, listed, made⟩ := Answer.exists_of_mem (Answer.forall₂_of_mapM results) mem
  obtain ⟨fields, result, made⟩ := Answer.bind_eq_ok.1 made
  cases made
  rw [Row.fits_iff, types]
  show (key.toList ++ fields).map Field.type = _
  rw [List.map_append, fit key (List.mem_map_of_mem listed), types_of_result name result]

end Aggregation

namespace Plan

/-! ## Plans that can be built -/

/-- The plans that can be built: of rows that fit, by the functions that refuse plans that cannot
run. -/
inductive Built : Plan → Prop
  | list {schema : Schema} {rows : List Row} (fit : ∀ row ∈ rows, row.fits schema) :
      Built (.list schema rows)
  | file (file : HeapFile) (txn : TxnId) (mode : LockMode) :
      Built (.scan file file.schema txn mode)
  | scan {plan : Plan} {catalog : Catalog} {table : TableId} {label : Option String} {txn : TxnId}
      {mode : LockMode} (ok : scanOf catalog table label txn mode = .ok plan) : Built plan
  | aggregate {plan child : Plan} {agg : Aggregation} (below : Built child)
      (ok : aggregateOf child agg = .ok plan) : Built plan
  | insert {plan child : Plan} {catalog : Catalog} {txn : TxnId} {table : TableId}
      (below : Built child) (ok : insertOf catalog child txn table = .ok plan) : Built plan
  | delete {child : Plan} (below : Built child) (txn : TxnId) : Built (.delete child txn)

/-- A scan reads its file by a schema of the types of its own, and so it did the rows it holds. -/
def ScanFits (file : HeapFile) (schema : Schema) (cursor : Option Cursor) : Prop :=
  schema.types = file.schema.types ∧ ∀ row ∈ (cursor.map Cursor.pending).getD [], row.fits schema

/-- The schema of an aggregate is made of the schema below it, and the rows it holds fit. -/
def AggregateFits (agg : Aggregation) (below schema : Schema) (left : Option (List Row)) : Prop :=
  agg.outputSchema below = .ok schema ∧ ∀ row ∈ left.getD [], row.fits schema

/-- The rows that a plan and its parts hold fit their schemas, and every schema is the one that
comes of those below. -/
def Sound : (plan : Plan) → plan.State → Prop
  | .list schema rows, _ => ∀ row ∈ rows, row.fits schema
  | .scan file schema _ _, cursor => ScanFits file schema cursor
  | .aggregate child agg schema, state =>
    AggregateFits agg child.schema schema (Prod.fst state) ∧ Sound child (Prod.snd state)
  | .insert child .., state => True ∧ Sound child (Prod.snd state)
  | .delete child .., state => True ∧ Sound child (Prod.snd state)

variable {plan : Plan}

theorem sound_initial (built : Built plan) : plan.Sound plan.initial := by
  induction built with
  | list fit => exact fit
  | file => exact ⟨rfl, nofun⟩
  | @scan plan catalog table label txn mode ok =>
    obtain ⟨file, -, ok⟩ := Answer.bind_eq_ok.1 ok
    cases ok
    refine ⟨?_, nofun⟩
    cases label with
    | none => rfl
    | some label => exact file.schema.types_labelled label
  | aggregate _ ok ih =>
    obtain ⟨schema, made, ok⟩ := Answer.bind_eq_ok.1 ok
    cases ok
    exact ⟨⟨made, nofun⟩, ih⟩
  | insert _ ok ih =>
    obtain ⟨file, -, ok⟩ := Answer.bind_eq_ok.1 ok
    split at ok
    · cases ok
      exact ⟨trivial, ih⟩
    · cases ok
  | delete _ _ ih => exact ⟨trivial, ih⟩

theorem Sound.closed {state : plan.State} (sound : plan.Sound state) :
    plan.Sound (plan.closed state) := by
  induction plan with
  | list schema rows => exact (sound : ∀ row ∈ rows, row.fits schema)
  | scan => exact ⟨sound.1, nofun⟩
  | aggregate child agg schema ih => exact ⟨⟨sound.1.1, nofun⟩, ih sound.2⟩
  | insert child txn table ih => exact ⟨trivial, ih sound.2⟩
  | delete child txn ih => exact ⟨trivial, ih sound.2⟩

/-! ## What the turns of a plan give -/

/-- A value is a row of a schema, or that there is none. -/
def Gives (schema : Schema) (taken : Option Row) : Prop := ∀ row ∈ taken, row.fits schema

theorem gives_none (schema : Schema) : Gives schema none := nofun

theorem gives_some (fits : row.fits schema) : Gives schema (some row) := by
  rintro _ ⟨⟩
  exact fits

theorem listNext_gives (schema : Schema) (rows : List Row) :
    (listNext rows).Keeps (fun _ => ∀ row ∈ rows, row.fits schema) (Gives schema) := by
  refine Turn.keeps_state.bind fun given fit => ?_
  cases given with
  | none => exact Turn.keeps_fail _
  | some given =>
    cases found : rows[given]? with
    | none =>
      simp only [found]
      exact Turn.keeps_pure (gives_none schema)
    | some row =>
      simp only [found]
      refine (Turn.keeps_setState fit).bind fun _ _ => Turn.keeps_pure (gives_some ?_)
      exact fit row (List.mem_of_getElem? found)

theorem keeps_cursor {file : HeapFile} (types : schema.types = file.schema.types)
    (fit : ∀ row ∈ rows, row.fits schema) (number : Nat) :
    (Turn.setState (some (⟨number, rows⟩ : Cursor))).Keeps (ScanFits file schema) fun _ => True :=
  Turn.keeps_setState ⟨types, fit⟩

theorem turnPages_gives {file : HeapFile} {txn : TxnId} {mode : LockMode}
    (types : schema.types = file.schema.types) (pages number : Nat) :
    (turnPages file txn mode pages number).Keeps (ScanFits file schema) (Gives schema) := by
  induction pages generalizing number with
  | zero => exact Turn.keeps_pure (gives_none schema)
  | succ pages ih =>
    refine (Turn.keeps_inStore _).bind fun frame _ => ?_
    refine (keeps_cursor types (List.forall_mem_nil _) (number + 1)).bind fun _ _ => ?_
    have read : ∀ rows, frame.page.rows file.schema = .ok rows → ∀ row ∈ rows, row.fits schema :=
      fun rows ok row mem => by
        rw [Row.fits_iff, types]
        exact Row.fits_iff.1 (Page.fits_of_mem_rows ok mem)
    refine (Turn.keeps_ofExcept read).bind fun rows fit => ?_
    cases rows with
    | nil => exact ih (number + 1)
    | cons row rows =>
      have others : ∀ row ∈ rows, row.fits schema := fun row mem => fit row (.tail _ mem)
      refine (keeps_cursor types others (number + 1)).bind fun _ _ => ?_
      exact Turn.keeps_pure (gives_some (fit row List.mem_cons_self))

theorem scanNext_gives (file : HeapFile) (schema : Schema) (txn : TxnId) (mode : LockMode) :
    (scanNext file txn mode).Keeps (ScanFits file schema) (Gives schema) := by
  refine Turn.keeps_state.bind fun cursor ⟨types, fit⟩ => ?_
  match cursor, fit with
  | none, _ => exact Turn.keeps_fail _
  | some ⟨number, []⟩, _ =>
    exact (Turn.keeps_inStore _).bind fun count _ => turnPages_gives types (count - number) number
  | some ⟨number, row :: rows⟩, fit =>
    have others : ∀ row ∈ rows, row.fits schema := fun row mem => fit row (.tail _ mem)
    refine (keeps_cursor types others number).bind fun _ _ => ?_
    exact Turn.keeps_pure (gives_some (fit row List.mem_cons_self))

theorem aggregateNext_gives {σ : Type} (inv : σ → Prop) (agg : Aggregation)
    (below schema : Schema) :
    aggregateNext.Keeps (fun state => AggregateFits agg below schema state.1 ∧ inv state.2)
      (Gives schema) := by
  refine Turn.keeps_state.bind fun (rows, child) ⟨⟨made, fit⟩, kept⟩ => ?_
  match rows, fit with
  | none, _ => exact Turn.keeps_fail _
  | some [], _ => exact Turn.keeps_pure (gives_none schema)
  | some (row :: rows), fit =>
    have others : ∀ row ∈ rows, row.fits schema := fun row mem => fit row (.tail _ mem)
    refine (Turn.keeps_setState ⟨⟨made, others⟩, kept⟩).bind fun _ _ => ?_
    exact Turn.keeps_pure (gives_some (fit row List.mem_cons_self))

/-- What counts rows gives a row that holds a number. -/
theorem writeNext_gives {σ : Type} {inv : σ → Prop} {operator : Operator}
    {next : Turn σ (Option Row)} {kind : Row → Prop}
    (takes : next.Keeps inv fun taken => ∀ row ∈ taken, kind row) (write : Row → Op Unit)
    (bound : σ → Store → Nat) :
    (writeNext operator next write bound).Keeps (fun state => True ∧ inv state.2)
      (Gives countSchema) := by
  refine Turn.keeps_get.bind fun (s, progress, child) _ => ?_
  cases progress with
  | closed => exact Turn.keeps_fail _
  | done => exact Turn.keeps_pure (gives_none _)
  | running =>
    have counts : (countAll next write (bound child s)).Keeps inv fun _ => True := by
      refine takes.pullAll (fun count row _ _ => ?_) _ 0 trivial
      exact (Turn.keeps_inStore _).bind fun _ _ => Turn.keeps_pure trivial
    refine (counts.inChild fun _ => True).bind fun count _ => ?_
    refine (Turn.keeps_modify fun _ _ kept => kept).bind fun _ _ => ?_
    exact Turn.keeps_pure (gives_some rfl)

/-- The rows that a plan gives fit its schema, and it stays sound. -/
theorem sound_next (plan : Plan) : plan.next.Keeps plan.Sound (Gives plan.schema) := by
  induction plan with
  | list schema rows => exact listNext_gives schema rows
  | scan file schema txn mode => exact scanNext_gives file schema txn mode
  | aggregate child agg schema _ => exact aggregateNext_gives child.Sound agg child.schema schema
  | insert child txn table ih => exact writeNext_gives ih _ _
  | delete child txn ih => exact writeNext_gives ih _ _

/-- An aggregate that is started holds rows that fit its schema. -/
theorem aggregateStart_sound {child : Plan} {agg : Aggregation} {schema : Schema}
    (starts : child.start.Keeps child.Sound fun _ => True) :
    (aggregateStart agg child.start child.next child.supply).Keeps
      (fun state => AggregateFits agg child.schema schema state.1 ∧ child.Sound state.2)
      fun _ => True := by
  refine (starts.inChild _).bind fun _ _ => ?_
  refine Turn.keeps_get.bind fun (s, _, below) ⟨⟨made, _⟩, _⟩ => ?_
  obtain ⟨grouped, name, columns, -⟩ := Aggregation.types_of_outputSchema made
  have tallies : (Turn.pullAll child.next (fun groups row => Turn.ofExcept (agg.addRow groups row))
      (child.supply below s) .empty).Keeps child.Sound fun groups => groups.Fit grouped := by
    refine (sound_next child).pullAll (fun groups row fit fits => ?_) _ _ (Groups.fit_empty _)
    exact Turn.keeps_ofExcept fun after ok => Aggregation.fit_addRow columns fits fit ok
  refine (tallies.inChild _).bind fun groups fit => ?_
  refine (Turn.keeps_ofExcept fun rows ok =>
    Aggregation.results_fit made columns fit ok).bind fun rows fits => ?_
  exact Turn.keeps_modify fun s (_, below) ⟨_, sound⟩ => ⟨⟨made, fits⟩, sound⟩

theorem sound_start (plan : Plan) : plan.start.Keeps plan.Sound fun _ => True := by
  induction plan with
  | list schema rows => exact fun _ _ fit => ⟨fit, trivial⟩
  | scan file schema txn mode => exact fun _ _ sound => ⟨⟨sound.1, nofun⟩, trivial⟩
  | aggregate child agg schema ih => exact aggregateStart_sound ih
  | insert child txn table ih =>
    exact (ih.inChild fun _ => True).bind fun _ _ => Turn.keeps_modify fun _ _ kept => kept
  | delete child txn ih =>
    exact (ih.inChild fun _ => True).bind fun _ _ => Turn.keeps_modify fun _ _ kept => kept

/-! ## Runs -/

variable {state after : plan.State}

theorem sound_close (plan : Plan) : plan.close.Keeps plan.Sound fun _ => True :=
  Turn.keeps_modify fun _ _ sound => sound.closed

theorem sound_collect (plan : Plan) : plan.collect.Keeps plan.Sound fun _ => True := by
  refine Turn.keeps_get.bind fun (s, state) _ => ?_
  have takes : plan.next.Keeps plan.Sound fun taken => ∀ row ∈ taken, True :=
    (sound_next plan).mono fun _ _ _ _ => trivial
  have pulls : (Turn.pullAll plan.next (fun rows row => pure (row :: rows)) (plan.supply state s)
      []).Keeps plan.Sound fun _ => True :=
    takes.pullAll (fun _ _ _ _ => Turn.keeps_pure trivial) (plan.supply state s) [] trivial
  exact pulls.bind fun rows _ => Turn.keeps_pure trivial

/-- No command makes a plan unsound. -/
theorem sound_command (command : Command) (plan : Plan) :
    (command.turn plan).Keeps plan.Sound fun _ => True := by
  cases command with
  | start => exact sound_start plan
  | next => exact (sound_next plan).bind fun _ _ => Turn.keeps_pure trivial
  | collect => exact (sound_collect plan).bind fun _ _ => Turn.keeps_pure trivial
  | rewind => exact (sound_close plan).bind fun _ _ => sound_start plan
  | close => exact sound_close plan

theorem Sound.obeys (sound : plan.Sound state) {command : Command}
    (obeys : plan.Obeys command state after) : plan.Sound after := by
  obtain ⟨s, rfl⟩ := obeys
  have keeps := sound_command command plan
  cases ran : command.turn plan (s, state) with
  | ok _ later => exact (keeps.of_ok sound ran).1
  | error stop later => exact keeps.of_error sound ran

/-- No command to a plan or to a part of it makes the plan unsound. -/
theorem Sound.moves (sound : plan.Sound state) (moves : plan.Moves state after) :
    plan.Sound after := by
  induction plan with
  | list schema rows =>
    obtain ⟨command, obeys⟩ := moves
    exact sound.obeys obeys
  | scan file schema txn mode =>
    obtain ⟨command, obeys⟩ := moves
    exact sound.obeys obeys
  | aggregate child agg schema ih =>
    rcases moves with ⟨command, obeys⟩ | ⟨own, below⟩
    · exact sound.obeys obeys
    · exact ⟨own ▸ sound.1, ih sound.2 below⟩
  | insert child txn table ih =>
    rcases moves with ⟨command, obeys⟩ | ⟨own, below⟩
    · exact sound.obeys obeys
    · exact ⟨trivial, ih sound.2 below⟩
  | delete child txn ih =>
    rcases moves with ⟨command, obeys⟩ | ⟨own, below⟩
    · exact sound.obeys obeys
    · exact ⟨trivial, ih sound.2 below⟩

/-- The parts of a sound plan are sound. -/
theorem Sound.parts (sound : plan.Sound state) {part : Σ part : Plan, part.State}
    (inside : part ∈ plan.parts state) : part.1.Sound part.2 := by
  induction plan with
  | list schema rows =>
    cases List.mem_singleton.1 inside
    exact sound
  | scan file schema txn mode =>
    cases List.mem_singleton.1 inside
    exact sound
  | aggregate child agg schema ih =>
    rcases List.mem_cons.1 inside with rfl | below
    · exact sound
    · exact ih sound.2 below
  | insert child txn table ih =>
    rcases List.mem_cons.1 inside with rfl | below
    · exact sound
    · exact ih sound.2 below
  | delete child txn ih =>
    rcases List.mem_cons.1 inside with rfl | below
    · exact sound
    · exact ih sound.2 below

/-- Whatever was asked of a plan and of its parts, on whatever stores: a row that the plan or one of
its parts gives has the types of the schema of the one that gives it, in their order. -/
theorem rows_fit (built : Built plan)
    (visited : Relation.ReflTransGen plan.Moves plan.initial state)
    {part : Σ part : Plan, part.State} (inside : part ∈ plan.parts state) {s : Store}
    {later : Store × part.1.State} (given : part.1.next (s, part.2) = .ok (some row) later) :
    row.types = part.1.schema.types := by
  have sound : plan.Sound state := by
    clear inside
    induction visited with
    | refl => exact sound_initial built
    | tail _ moves sound => exact sound.moves moves
  have fits := ((sound_next part.1).of_ok (sound.parts inside) given).2
  exact Row.fits_iff.1 (fits row rfl)

/-- Three scores of two players. -/
def scores : Plan :=
  .list ⟨[⟨.text, some "name"⟩, ⟨.int, some "score"⟩]⟩
    [.ofFields [.text "b", .int 3], .ofFields [.text "a", .int 10], .ofFields [.text "b", .int 4]]

/-- The sum of the scores of each player. -/
def sums : Plan :=
  .aggregate scores ⟨1, some 0, .sum⟩ ⟨[⟨.text, some "name"⟩, ⟨.int, some "sum(score)"⟩]⟩

/-- The largest of the sums. -/
def largestSum : Plan := .aggregate sums ⟨1, none, .max⟩ ⟨[⟨.int, some "max(sum(score))"⟩]⟩

theorem largestSum_built : Built largestSum := by
  have below : Built sums := by
    have given : Built scores := .list (by decide)
    exact .aggregate given (show aggregateOf scores ⟨1, some 0, .sum⟩ = .ok sums from rfl)
  exact .aggregate below (show aggregateOf sums ⟨1, none, .max⟩ = .ok largestSum from rfl)

/-- All players were met, their sums were taken, and the largest of them is left to give. -/
def largestSumOpened : largestSum.State :=
  ((some [.ofFields [.int 10]], some [], some 3) : Option (List Row) × Option (List Row) × Option Nat)

theorem rows_fit_of_largestSum :
    ∃ later, largestSum.next (default, largestSumOpened) = .ok (some (.ofFields [.int 10])) later ∧
      (Row.ofFields [.int 10]).types = largestSum.schema.types := by
  have opens : largestSum.Moves largestSum.initial largestSumOpened := .inl ⟨.start, default, rfl⟩
  have gives : largestSum.next (default, largestSumOpened) =
      .ok (some (.ofFields [.int 10])) (default, (some [], largestSumOpened.2)) := rfl
  exact ⟨_, gives, rows_fit largestSum_built (.single opens) List.mem_cons_self gives⟩

end Plan

end PageStore
