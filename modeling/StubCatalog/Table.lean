/-! # Tables in order of insertion

A table maps names to values and remembers the order in which the names were first put in; a later
value replaces the first one in its place. The keys are distinct by construction. -/

namespace StubCatalog

/-- Replaces the value under `key`, or adds the pair at the end. -/
def putPair {α : Type} (pairs : List (String × α)) (key : String) (value : α) :
    List (String × α) :=
  match pairs with
  | [] => [(key, value)]
  | (k, v) :: rest => if k = key then (key, value) :: rest else (k, v) :: putPair rest key value

theorem map_fst_putPair {α : Type} (pairs : List (String × α)) (key : String) (value : α) :
    (putPair pairs key value).map Prod.fst =
      if key ∈ pairs.map Prod.fst then pairs.map Prod.fst else pairs.map Prod.fst ++ [key] := by
  induction pairs with
  | nil => simp [putPair]
  | cons pair rest ih =>
    obtain ⟨k, v⟩ := pair
    by_cases h : k = key
    · simp [putPair, h]
    · have h' : ¬ key = k := fun e => h e.symm
      simp only [putPair, h, if_false, List.map_cons, ih, List.mem_cons, h', false_or]
      split <;> simp

theorem nodup_putPair {α : Type} {pairs : List (String × α)} (key : String) (value : α)
    (h : (pairs.map Prod.fst).Nodup) : ((putPair pairs key value).map Prod.fst).Nodup := by
  rw [map_fst_putPair]
  split
  · exact h
  · next hk =>
    refine List.nodup_append.2 ⟨h, by simp, ?_⟩
    rintro a ha b hb rfl
    exact hk (List.mem_singleton.1 hb ▸ ha)

/-- A finite map from names to values that keeps the order of insertion. -/
structure Table (α : Type) where
  pairs : List (String × α) := []
  nodup : (pairs.map Prod.fst).Nodup := by exact List.nodup_nil

namespace Table

variable {α β : Type}

/-- The table without entries. -/
def empty : Table α := {}

instance : Inhabited (Table α) := ⟨empty⟩

instance [BEq α] : BEq (Table α) := ⟨fun a b => a.pairs == b.pairs⟩

/-- The keys in order. -/
def keys (t : Table α) : List String := t.pairs.map Prod.fst

/-- The values in order. -/
def values (t : Table α) : List α := t.pairs.map Prod.snd

/-- The number of entries. -/
def size (t : Table α) : Nat := t.pairs.length

/-- The value under a key. -/
def get? (t : Table α) (key : String) : Option α := t.pairs.lookup key

/-- There is a value under the key. -/
def contains (t : Table α) (key : String) : Bool := (t.get? key).isSome

/-- Sets the value under a key, in its place or at the end. -/
def insert (t : Table α) (key : String) (value : α) : Table α where
  pairs := putPair t.pairs key value
  nodup := nodup_putPair key value t.nodup

/-- Adds a value unless the key is taken. -/
def insertNew (t : Table α) (key : String) (value : α) : Table α :=
  if t.contains key then t else t.insert key value

/-- Changes the value under a key. -/
def modify (t : Table α) (key : String) (f : α → α) : Table α :=
  match t.get? key with
  | some value => t.insert key (f value)
  | none => t

/-- The table of the given pairs, the last value of a name winning. -/
def ofList (pairs : List (String × α)) : Table α :=
  pairs.foldl (fun t pair => t.insert pair.1 pair.2) empty

/-- Changes all values, which may depend on the key. -/
def mapPairs (t : Table α) (f : String → α → β) : Table β where
  pairs := t.pairs.map fun pair => (pair.1, f pair.1 pair.2)
  nodup := by simpa [List.map_map, Function.comp_def] using t.nodup

/-- Changes all values. -/
def map (t : Table α) (f : α → β) : Table β := t.mapPairs fun _ => f

/-- Keeps some entries. -/
def filter (t : Table α) (p : String → α → Bool) : Table α where
  pairs := t.pairs.filter fun pair => p pair.1 pair.2
  nodup := t.nodup.sublist (List.filter_sublist.map Prod.fst)

/-- Adds the entries of another table, whose values prevail. -/
def union (t u : Table α) : Table α :=
  u.pairs.foldl (fun t pair => t.insert pair.1 pair.2) t

theorem keys_insert (t : Table α) (key : String) (value : α) :
    (t.insert key value).keys = if key ∈ t.keys then t.keys else t.keys ++ [key] :=
  map_fst_putPair t.pairs key value

end Table

end StubCatalog
