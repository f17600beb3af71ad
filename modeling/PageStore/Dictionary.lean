/-!
# Dictionaries

Finite maps as lists of entries whose keys are distinct.  The entries stay in the order in which
their keys were first put, so every walk over a dictionary has a fixed order.

The view of a dictionary is `get?`: `get?_put`, `get?_erase`, `get?_filter` and `get?_mapValues`
say what each operation does to it.
-/

namespace PageStore

universe u v w

/-- A finite map with its entries in the order in which their keys were first put. -/
structure Dictionary (κ : Type u) (ν : Type v) where
  entries : List (κ × ν)
  distinct : (entries.map Prod.fst).Nodup

namespace Dictionary

variable {κ : Type u} {ν : Type v} {μ : Type w}

/-- The dictionary without entries. -/
def empty : Dictionary κ ν := ⟨[], List.nodup_nil⟩

instance : Inhabited (Dictionary κ ν) := ⟨empty⟩

/-- The keys, in the order in which they were first put. -/
def keys (d : Dictionary κ ν) : List κ := d.entries.map Prod.fst

/-- The values, in the order of their keys. -/
def values (d : Dictionary κ ν) : List ν := d.entries.map Prod.snd

/-- The number of entries. -/
def size (d : Dictionary κ ν) : Nat := d.entries.length

variable [DecidableEq κ]

/-- The value under a key. -/
def get? (d : Dictionary κ ν) (k : κ) : Option ν := d.entries.lookup k

/-- Whether a key has a value. -/
def contains (d : Dictionary κ ν) (k : κ) : Bool := (d.get? k).isSome

/-- The entries with the value under `k` replaced, or with a last entry added. -/
def putEntry (k : κ) (a : ν) : List (κ × ν) → List (κ × ν)
  | [] => [(k, a)]
  | e :: rest => if e.1 = k then (k, a) :: rest else e :: putEntry k a rest

omit [DecidableEq κ] in
theorem nodup_keys (d : Dictionary κ ν) : d.keys.Nodup := d.distinct

theorem keys_putEntry (k : κ) (a : ν) (l : List (κ × ν)) :
    (putEntry k a l).map Prod.fst =
      if k ∈ l.map Prod.fst then l.map Prod.fst else l.map Prod.fst ++ [k] := by
  induction l with
  | nil => simp [putEntry]
  | cons e rest ih =>
    by_cases h : e.1 = k
    · simp [putEntry, h]
    · have h' : ¬ k = e.1 := fun he => h he.symm
      by_cases hm : k ∈ rest.map Prod.fst
      · simp only [putEntry, h, if_false, List.map_cons, ih, hm, if_true, List.mem_cons, or_true]
      · simp only [putEntry, h, if_false, List.map_cons, ih, hm, List.mem_cons, h', or_self,
          List.cons_append]

theorem nodup_putEntry (k : κ) (a : ν) (l : List (κ × ν)) (h : (l.map Prod.fst).Nodup) :
    ((putEntry k a l).map Prod.fst).Nodup := by
  rw [keys_putEntry]
  split
  · exact h
  · rename_i hk
    rw [List.nodup_append]
    exact ⟨h, by simp, fun x hx y hy => by
      rintro rfl
      simp only [List.mem_singleton] at hy
      exact hk (hy ▸ hx)⟩

/-- The dictionary with `a` as the value under `k`. -/
def put (d : Dictionary κ ν) (k : κ) (a : ν) : Dictionary κ ν :=
  ⟨putEntry k a d.entries, nodup_putEntry k a d.entries d.distinct⟩

omit [DecidableEq κ] in
theorem nodup_filter {l : List (κ × ν)} (h : (l.map Prod.fst).Nodup) (p : κ × ν → Bool) :
    ((l.filter p).map Prod.fst).Nodup :=
  (List.filter_sublist.map Prod.fst).nodup h

/-- The entries that pass a test. -/
def filter (d : Dictionary κ ν) (p : κ → ν → Bool) : Dictionary κ ν :=
  ⟨d.entries.filter fun e => p e.1 e.2, nodup_filter d.distinct _⟩

/-- The dictionary without a key. -/
def erase (d : Dictionary κ ν) (k : κ) : Dictionary κ ν := d.filter fun k' _ => k' ≠ k

omit [DecidableEq κ] in
theorem keys_mapEntries (f : κ → ν → μ) (l : List (κ × ν)) :
    (l.map fun e => (e.1, f e.1 e.2)).map Prod.fst = l.map Prod.fst := by
  simp [List.map_map, Function.comp_def]

/-- The dictionary with every value changed. -/
def mapValues (d : Dictionary κ ν) (f : κ → ν → μ) : Dictionary κ μ :=
  ⟨d.entries.map fun e => (e.1, f e.1 e.2), by rw [keys_mapEntries]; exact d.distinct⟩

/-- The dictionary with the value under one key changed, if it has one. -/
def modify (d : Dictionary κ ν) (k : κ) (f : ν → ν) : Dictionary κ ν :=
  d.mapValues fun k' a => if k' = k then f a else a

/-! ## What the operations do to `get?` -/

omit [DecidableEq κ] in
@[simp] theorem entries_empty : (empty : Dictionary κ ν).entries = [] := rfl

@[simp] theorem get?_empty (k : κ) : (empty : Dictionary κ ν).get? k = none := rfl

theorem lookup_cons_eq {e : κ × ν} {l : List (κ × ν)} {k : κ} (h : k = e.1) :
    (e :: l).lookup k = some e.2 := by
  cases e
  simp [h]

theorem lookup_cons_ne {e : κ × ν} {l : List (κ × ν)} {k : κ} (h : k ≠ e.1) :
    (e :: l).lookup k = l.lookup k := by
  cases e
  simp [List.lookup_cons, beq_false_of_ne h]

theorem lookup_putEntry (k : κ) (a : ν) (l : List (κ × ν)) (k' : κ) :
    (putEntry k a l).lookup k' = if k' = k then some a else l.lookup k' := by
  induction l with
  | nil =>
    by_cases h : k' = k
    · rw [if_pos h]
      exact lookup_cons_eq h
    · rw [if_neg h]
      exact lookup_cons_ne h
  | cons e rest ih =>
    by_cases he : e.1 = k
    · rw [putEntry, if_pos he]
      by_cases h : k' = k
      · rw [if_pos h]
        exact lookup_cons_eq h
      · rw [if_neg h, lookup_cons_ne (e := (k, a)) h, lookup_cons_ne (he ▸ h)]
    · rw [putEntry, if_neg he]
      by_cases h : k' = e.1
      · have hk : k' ≠ k := fun hk => he (h ▸ hk)
        rw [if_neg hk, lookup_cons_eq h, lookup_cons_eq h]
      · rw [lookup_cons_ne h, lookup_cons_ne h, ih]

/-- Reading after a write gives the value written, and every other key reads as before. -/
@[simp] theorem get?_put (d : Dictionary κ ν) (k : κ) (a : ν) (k' : κ) :
    (d.put k a).get? k' = if k' = k then some a else d.get? k' :=
  lookup_putEntry k a d.entries k'

theorem lookup_eq_none {l : List (κ × ν)} {k : κ} (h : k ∉ l.map Prod.fst) :
    l.lookup k = none := by
  induction l with
  | nil => rfl
  | cons e rest ih =>
    rw [List.map_cons, List.mem_cons, not_or] at h
    rw [lookup_cons_ne h.1]
    exact ih h.2

theorem lookup_filter (p : κ → ν → Bool) (l : List (κ × ν)) (hl : (l.map Prod.fst).Nodup)
    (k : κ) :
    (l.filter fun e => p e.1 e.2).lookup k = (l.lookup k).filter (p k) := by
  induction l with
  | nil => rfl
  | cons e rest ih =>
    rw [List.map_cons, List.nodup_cons] at hl
    have ih := ih hl.2
    by_cases hk : k = e.1
    · have hn : rest.lookup k = none := lookup_eq_none (hk ▸ hl.1)
      rw [lookup_cons_eq hk]
      by_cases hp : p e.1 e.2 = true
      · rw [List.filter_cons_of_pos (p := fun e : κ × ν => p e.1 e.2) hp, lookup_cons_eq hk]
        simp [Option.filter, hk, hp]
      · rw [List.filter_cons_of_neg (p := fun e : κ × ν => p e.1 e.2) hp, ih, hn]
        simp [Option.filter, hk, hp]
    · rw [lookup_cons_ne hk]
      by_cases hp : p e.1 e.2 = true
      · rw [List.filter_cons_of_pos (p := fun e : κ × ν => p e.1 e.2) hp, lookup_cons_ne hk, ih]
      · rw [List.filter_cons_of_neg (p := fun e : κ × ν => p e.1 e.2) hp, ih]

/-- A filtered dictionary has the values that pass the test, under their keys. -/
@[simp] theorem get?_filter (d : Dictionary κ ν) (p : κ → ν → Bool) (k : κ) :
    (d.filter p).get? k = (d.get? k).filter (p k) :=
  lookup_filter p d.entries d.distinct k

/-- An erased key has no value, and every other key reads as before. -/
@[simp] theorem get?_erase (d : Dictionary κ ν) (k k' : κ) :
    (d.erase k).get? k' = if k' = k then none else d.get? k' := by
  unfold erase
  rw [get?_filter]
  by_cases h : k' = k
  · cases d.get? k' <;> simp [h]
  · cases d.get? k' <;> simp [h]

/-- What is left after an erasure was there before. -/
theorem get?_of_erase {d : Dictionary κ ν} {k k' : κ} {a : ν} (left : (d.erase k).get? k' = some a) :
    d.get? k' = some a := by
  rw [get?_erase] at left
  split at left
  · cases left
  · exact left

theorem lookup_mapEntries (f : κ → ν → μ) (l : List (κ × ν)) (k : κ) :
    (l.map fun e => (e.1, f e.1 e.2)).lookup k = (l.lookup k).map (f k) := by
  induction l with
  | nil => rfl
  | cons e rest ih =>
    rw [List.map_cons]
    by_cases hk : k = e.1
    · rw [lookup_cons_eq (e := (e.1, f e.1 e.2)) hk, lookup_cons_eq hk, hk]
      rfl
    · rw [lookup_cons_ne (e := (e.1, f e.1 e.2)) hk, lookup_cons_ne hk, ih]

/-- Changing every value changes what each key reads as. -/
@[simp] theorem get?_mapValues (d : Dictionary κ ν) (f : κ → ν → μ) (k : κ) :
    (d.mapValues f).get? k = (d.get? k).map (f k) :=
  lookup_mapEntries f d.entries k

/-- Changing the value under one key changes that key alone. -/
@[simp] theorem get?_modify (d : Dictionary κ ν) (k : κ) (f : ν → ν) (k' : κ) :
    (d.modify k f).get? k' = if k' = k then (d.get? k').map f else d.get? k' := by
  unfold modify
  rw [get?_mapValues]
  by_cases h : k' = k
  · simp [h]
  · simp [h]

theorem lookup_isSome_iff {l : List (κ × ν)} {k : κ} :
    (l.lookup k).isSome ↔ k ∈ l.map Prod.fst := by
  induction l with
  | nil => simp
  | cons e rest ih =>
    rw [List.map_cons, List.mem_cons]
    by_cases hk : k = e.1
    · simp [hk]
    · rw [lookup_cons_ne hk, ih]
      simp [hk]

/-- The keys are those that have a value. -/
theorem mem_keys_iff {d : Dictionary κ ν} {k : κ} : k ∈ d.keys ↔ (d.get? k).isSome :=
  lookup_isSome_iff.symm

theorem mem_entries_iff_lookup {l : List (κ × ν)} (hl : (l.map Prod.fst).Nodup) {k : κ} {a : ν} :
    (k, a) ∈ l ↔ l.lookup k = some a := by
  induction l with
  | nil => simp
  | cons e rest ih =>
    rw [List.map_cons, List.nodup_cons] at hl
    rw [List.mem_cons]
    by_cases hk : k = e.1
    · have hn : (k, a) ∉ rest := fun h => hl.1 (List.mem_map.2 ⟨_, h, hk⟩)
      rw [lookup_cons_eq hk, Option.some.injEq]
      constructor
      · rintro (h | h)
        · rw [← h]
        · exact absurd h hn
      · intro h
        exact .inl (Prod.ext hk h.symm)
    · rw [lookup_cons_ne hk, ← ih hl.2]
      constructor
      · rintro (h | h)
        · exact absurd (congrArg Prod.fst h) hk
        · exact h
      · exact .inr

/-- The entries are the keys with their values. -/
theorem mem_entries_iff {d : Dictionary κ ν} {k : κ} {a : ν} :
    (k, a) ∈ d.entries ↔ d.get? k = some a :=
  mem_entries_iff_lookup d.distinct

/-! ## Undoing a put -/

theorem filter_putEntry (k : κ) (a : ν) (l : List (κ × ν)) :
    ((putEntry k a l).filter fun e => e.1 ≠ k) = l.filter fun e => e.1 ≠ k := by
  induction l with
  | nil => simp [putEntry]
  | cons e rest ih =>
    by_cases here : e.1 = k
    · simp [putEntry, here]
    · rw [putEntry, if_neg here]
      simp only [List.filter_cons, ih]

/-- Erasing a key forgets what was put under it. -/
@[simp] theorem erase_put (d : Dictionary κ ν) (k : κ) (a : ν) : (d.put k a).erase k = d.erase k := by
  simp only [erase, filter, put, mk.injEq]
  exact filter_putEntry k a d.entries

/-- Erasing a key without a value changes nothing. -/
theorem erase_of_get?_eq_none {d : Dictionary κ ν} {k : κ} (absent : d.get? k = none) :
    d.erase k = d := by
  have kept : d.entries.filter (fun e => decide (e.1 ≠ k)) = d.entries := by
    refine List.filter_eq_self.2 fun e mem => decide_eq_true fun here => ?_
    rw [mem_entries_iff.1 (show (k, e.2) ∈ d.entries from here ▸ mem)] at absent
    cases absent
  cases d
  simp only [erase, filter, mk.injEq]
  exact kept

/-! ## What the operations do to the number of entries -/

omit [DecidableEq κ] in
theorem length_keys (d : Dictionary κ ν) : d.keys.length = d.size := List.length_map _

theorem keys_put (d : Dictionary κ ν) (k : κ) (a : ν) :
    (d.put k a).keys = if k ∈ d.keys then d.keys else d.keys ++ [k] := keys_putEntry k a d.entries

theorem keys_erase (d : Dictionary κ ν) (k : κ) : (d.erase k).keys = d.keys.erase k := by
  rw [d.nodup_keys.erase_eq_filter]
  show (d.entries.filter fun e => decide (e.1 ≠ k)).map Prod.fst =
    (d.entries.map Prod.fst).filter fun k' => k' != k
  rw [List.filter_map]
  have same : (fun e : κ × ν => decide (e.1 ≠ k)) = (fun k' => k' != k) ∘ Prod.fst := by
    funext e
    by_cases here : e.1 = k <;> simp [here]
  exact congrArg (fun test => (d.entries.filter test).map Prod.fst) same

/-- A put adds an entry unless the key had a value. -/
theorem size_put (d : Dictionary κ ν) (k : κ) (a : ν) :
    (d.put k a).size = if (d.get? k).isSome then d.size else d.size + 1 := by
  rw [← length_keys, keys_put, ← length_keys]
  by_cases here : k ∈ d.keys
  · rw [if_pos here, if_pos (mem_keys_iff.1 here)]
  · rw [if_neg here, if_neg (here ∘ mem_keys_iff.2), List.length_append, List.length_singleton]

/-- An erasure takes an entry away if the key had a value. -/
theorem size_erase (d : Dictionary κ ν) (k : κ) :
    (d.erase k).size = if (d.get? k).isSome then d.size - 1 else d.size := by
  rw [← length_keys, keys_erase, List.length_erase, length_keys]
  by_cases here : k ∈ d.keys
  · rw [if_pos here, if_pos (mem_keys_iff.1 here)]
  · rw [if_neg here, if_neg (here ∘ mem_keys_iff.2)]

end Dictionary

end PageStore
