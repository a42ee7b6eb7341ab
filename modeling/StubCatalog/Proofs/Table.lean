import Mathlib.Data.List.Nodup
import Mathlib.Data.List.Perm.Subperm
import StubCatalog.Table

/-! # Looking up in tables

What holds of every pair that is put into a table holds of every pair that is found in it (`Holds`).
-/

namespace StubCatalog.Table

open List

variable {α β : Type} {key : String} {t u : Table α} {value : α} {pairs : List (String × α)}

@[simp]
theorem keys_mapPairs (t : Table α) (f : String → α → β) : (t.mapPairs f).keys = t.keys := by
  simp [keys, mapPairs, Function.comp_def]

@[simp]
theorem keys_map (t : Table α) (f : α → β) : (t.map f).keys = t.keys := keys_mapPairs t _

theorem nodup_keys (t : Table α) : t.keys.Nodup := t.nodup

@[simp]
theorem get?_mapPairs (t : Table α) (f : String → α → β) (key : String) :
    (t.mapPairs f).get? key = (t.get? key).map (f key) := by
  show (t.pairs.map fun pair => (pair.1, f pair.1 pair.2)).lookup key =
    (t.pairs.lookup key).map (f key)
  induction t.pairs with
  | nil => rfl
  | cons pair rest ih =>
    obtain ⟨k, v⟩ := pair
    by_cases h : key = k
    · subst h
      simp
    · simp only [map_cons, lookup_cons, beq_eq_false_iff_ne.mpr h]
      exact ih

@[simp]
theorem get?_map (t : Table α) (f : α → β) (key : String) :
    (t.map f).get? key = (t.get? key).map f := get?_mapPairs t _ key

theorem mem_keys_iff : key ∈ t.keys ↔ ∃ value, t.get? key = some value := by
  unfold keys get?
  induction t.pairs with
  | nil => simp
  | cons pair rest ih =>
    obtain ⟨k, v⟩ := pair
    by_cases h : key = k
    · subst h
      simp
    · simp only [map_cons, mem_cons, h, false_or, lookup_cons,
        beq_eq_false_iff_ne.mpr h]
      exact ih

theorem mem_pairs_iff : (key, value) ∈ t.pairs ↔ t.get? key = some value := by
  have hnodup := t.nodup
  unfold get?
  generalize t.pairs = pairs at hnodup ⊢
  induction pairs with
  | nil => simp
  | cons pair rest ih =>
    obtain ⟨k, v⟩ := pair
    obtain ⟨hfresh, hrest⟩ := nodup_cons.mp hnodup
    by_cases h : key = k
    · subst h
      have hnot : (key, value) ∉ rest := fun hmem => hfresh (mem_map.mpr ⟨_, hmem, rfl⟩)
      simp [hnot, eq_comm]
    · simp only [mem_cons, Prod.mk.injEq, h, false_and, false_or, lookup_cons,
        beq_eq_false_iff_ne.mpr h]
      exact ih hrest

theorem mem_values (h : t.get? key = some value) : value ∈ t.values :=
  mem_map.mpr ⟨_, mem_pairs_iff.mpr h, rfl⟩

/-! ### Putting in -/

theorem get?_insert (t : Table α) (key name : String) (value : α) :
    (t.insert key value).get? name = if name = key then some value else t.get? name := by
  show (putPair t.pairs key value).lookup name = _
  unfold get?
  induction t.pairs with
  | nil => by_cases h : name = key <;> simp [putPair, h, lookup_cons, beq_eq_false_iff_ne.mpr]
  | cons pair rest ih =>
    obtain ⟨k, v⟩ := pair
    unfold putPair
    by_cases hk : k = key
    · rw [if_pos hk]
      by_cases h : name = key
      · simp [h]
      · have hne : name ≠ k := hk ▸ h
        simp [h, lookup_cons, beq_eq_false_iff_ne.mpr h, beq_eq_false_iff_ne.mpr hne]
    · rw [if_neg hk, lookup_cons, lookup_cons, ih]
      by_cases h : name = k
      · have hne : name ≠ key := h ▸ hk
        simp [h, hk]
      · simp [beq_eq_false_iff_ne.mpr h]

theorem get?_union (t u : Table α) (key : String) :
    (t.union u).get? key = (u.get? key).or (t.get? key) := by
  have hnodup := u.nodup
  unfold union
  rw [show u.get? key = u.pairs.lookup key from rfl]
  generalize u.pairs = pairs at hnodup
  induction pairs generalizing t with
  | nil => rfl
  | cons pair rest ih =>
    obtain ⟨k, v⟩ := pair
    obtain ⟨hfresh, hrest⟩ := nodup_cons.mp hnodup
    rw [foldl_cons, ih _ hrest, get?_insert, lookup_cons]
    by_cases h : key = k
    · subst h
      have hnone : rest.lookup key = none := by
        refine lookup_eq_none_iff.mpr fun other hother => bne_iff_ne.mpr ?_
        rintro rfl
        exact hfresh (mem_map.mpr ⟨other, hother, rfl⟩)
      simp [hnone]
    · simp [h, beq_eq_false_iff_ne.mpr h]

theorem contains_eq_false_iff : t.contains key = false ↔ t.get? key = none := by
  rw [contains, Option.isSome_eq_false_iff, Option.isNone_iff_eq_none]

theorem get?_insert_of_fresh {name : String} {old : α}
    (hfresh : ¬ t.contains key) (hold : t.get? name = some old) :
    (t.insert key value).get? name = some old := by
  rw [get?_insert, if_neg, hold]
  rintro rfl
  rw [contains_eq_false_iff.mp (Bool.eq_false_iff.mpr hfresh)] at hold
  cases hold

theorem get?_insertNew (t : Table α) (key name : String) (value : α) :
    (t.insertNew key value).get? name =
      (t.get? name).or (if name = key then some value else none) := by
  unfold insertNew
  split
  · next h =>
    obtain ⟨old, hold⟩ := Option.isSome_iff_exists.mp h
    split
    · next heq => simp [heq, hold]
    · simp
  · next h =>
    rw [get?_insert]
    split
    · next heq => simp [heq, contains_eq_false_iff.mp (Bool.eq_false_iff.mpr h)]
    · simp

theorem get?_modify (t : Table α) (key name : String) (f : α → α) :
    (t.modify key f).get? name = if name = key then (t.get? name).map f else t.get? name := by
  unfold modify
  split
  · next value hvalue =>
    rw [get?_insert]
    split
    · next heq => rw [heq, hvalue, Option.map_some]
    · rfl
  · next hnone =>
    split
    · next heq => rw [heq, hnone, Option.map_none]
    · rfl

theorem keys_modify (t : Table α) (key : String) (f : α → α) : (t.modify key f).keys = t.keys := by
  unfold modify
  split
  · next value hvalue => rw [keys_insert, if_pos (mem_keys_iff.mpr ⟨value, hvalue⟩)]
  · rfl

theorem contains_iff_mem_keys : t.contains key ↔ key ∈ t.keys := by
  rw [contains, Option.isSome_iff_exists, mem_keys_iff]

theorem length_keys (t : Table α) : t.keys.length = t.size := length_map _

theorem length_lt_size {met : List String} (hkey : key ∈ t.keys) (hfresh : key ∉ met)
    (hnodup : met.Nodup) (hmet : met ⊆ t.keys) : met.length < t.size := by
  have hsubperm : (key :: met).Subperm t.keys :=
    subperm_of_subset (nodup_cons.mpr ⟨hfresh, hnodup⟩)
      (cons_subset.mpr ⟨hkey, hmet⟩)
  have hlength := hsubperm.length_le
  rwa [length_cons, length_keys] at hlength

theorem size_modify (t : Table α) (key : String) (f : α → α) : (t.modify key f).size = t.size := by
  rw [← length_keys, ← length_keys, keys_modify]

theorem size_eq_of_get? (h : t.get? = u.get?) : t.size = u.size := by
  have hperm : t.keys.Perm u.keys :=
    (perm_ext_iff_of_nodup t.nodup_keys u.nodup_keys).mpr fun key => by
      rw [mem_keys_iff, mem_keys_iff, h]
  rw [← length_keys, ← length_keys, hperm.length_eq]

theorem contains_eq_of_keys (h : t.keys = u.keys) (key : String) :
    t.contains key = u.contains key := by
  rw [Bool.eq_iff_iff, contains_iff_mem_keys, contains_iff_mem_keys, h]

/-- The property holds of every name in the table and its value. -/
def Holds (p : String → α → Prop) (t : Table α) : Prop :=
  ∀ name value, t.get? name = some value → p name value

section
variable {p : String → α → Prop} {t : Table α}

instance [∀ name value, Decidable (p name value)] : Decidable (Holds p t) :=
  decidable_of_iff (∀ pair ∈ t.pairs, p pair.1 pair.2)
    ⟨fun h name value hvalue => h (name, value) (mem_pairs_iff.mpr hvalue),
      fun h pair hpair => h pair.1 pair.2 (mem_pairs_iff.mp hpair)⟩

theorem holds_empty : Holds p (empty : Table α) := nofun

theorem Holds.of_mem_values {p : α → Prop} (h : Holds (fun _ => p) t)
    (hvalue : value ∈ t.values) : p value := by
  obtain ⟨pair, hpair, rfl⟩ := mem_map.mp hvalue
  exact h pair.1 pair.2 (mem_pairs_iff.mp hpair)

theorem Holds.insert (h : Holds p t) (hp : p key value) : Holds p (t.insert key value) := by
  intro name v hv
  rw [get?_insert] at hv
  split at hv
  · next heq =>
    cases hv
    exact heq ▸ hp
  · exact h name v hv

theorem Holds.insertNew (h : Holds p t) (hp : p key value) : Holds p (t.insertNew key value) := by
  unfold Table.insertNew
  split
  · exact h
  · exact h.insert hp

theorem Holds.modify (h : Holds p t) {f : α → α} (hf : ∀ v, p key v → p key (f v)) :
    Holds p (t.modify key f) := by
  unfold Table.modify
  split
  · next v hv => exact h.insert (hf v (h key v hv))
  · exact h

theorem Holds.insertAll (h : Holds p t) (hp : ∀ pair ∈ pairs, p pair.1 pair.2) :
    Holds p (pairs.foldl (fun table pair => table.insert pair.1 pair.2) t) := by
  induction pairs generalizing t with
  | nil => exact h
  | cons pair pairs ih =>
    exact ih (h.insert (hp pair (by simp))) fun other hother => hp other (by simp [hother])

theorem Holds.insertNewAll (h : Holds p t) {xs : List β} {key : β → String} {value : β → α}
    (hp : ∀ x ∈ xs, p (key x) (value x)) :
    Holds p (xs.foldl (fun table x => table.insertNew (key x) (value x)) t) := by
  induction xs generalizing t with
  | nil => exact h
  | cons x xs ih => exact ih (h.insertNew (hp x (by simp))) fun y hy => hp y (by simp [hy])

theorem holds_ofList (hp : ∀ pair ∈ pairs, p pair.1 pair.2) : Holds p (ofList pairs) :=
  holds_empty.insertAll hp

theorem Holds.union (h : Holds p t) (hu : Holds p u) : Holds p (t.union u) :=
  h.insertAll fun pair hpair => hu pair.1 pair.2 (mem_pairs_iff.mp hpair)

end

/-! ### Tables from lists -/

theorem eq_of_pairs (h : t.pairs = u.pairs) : t = u := by
  cases t
  cases u
  cases h
  rfl

theorem map_get?_keys (t : Table α) : t.keys.map t.get? = t.values.map some := by
  have hpairs : ∀ pair ∈ t.pairs, t.get? pair.1 = some pair.2 :=
    fun pair hpair => mem_pairs_iff.mp hpair
  rw [keys, values, map_map, map_map]
  exact map_congr_left hpairs

theorem eq_of_get? (hkeys : t.keys = u.keys) (hget : t.get? = u.get?) : t = u := by
  have hsome : t.values.map some = u.values.map some := by
    rw [← map_get?_keys, ← map_get?_keys, hkeys, hget]
  have hvalues : t.values = u.values :=
    map_injective_iff.mpr (fun _ _ => Option.some.inj) hsome
  apply eq_of_pairs
  rw [← zip_unzip t.pairs, ← zip_unzip u.pairs, unzip_eq_map, unzip_eq_map]
  exact congrArg₂ List.zip hkeys hvalues

theorem map_insert (t : Table α) (f : α → β) (key : String) (value : α) :
    (t.insert key value).map f = (t.map f).insert key (f value) := by
  apply eq_of_pairs
  show (putPair t.pairs key value).map _ = putPair (t.pairs.map fun pair => (pair.1, f pair.2)) _ _
  induction t.pairs with
  | nil => rfl
  | cons pair rest ih =>
    obtain ⟨k, v⟩ := pair
    simp only [putPair, map_cons]
    split
    · rfl
    · rw [map_cons, ih]

theorem map_ofList (pairs : List (String × α)) (f : α → β) :
    (ofList pairs).map f = ofList (pairs.map fun pair => (pair.1, f pair.2)) := by
  have h : ∀ t : Table α, (pairs.foldl (fun t pair => t.insert pair.1 pair.2) t).map f =
      (pairs.map fun pair => (pair.1, f pair.2)).foldl (fun t pair => t.insert pair.1 pair.2)
        (t.map f) := by
    induction pairs with
    | nil => exact fun _ => rfl
    | cons pair rest ih =>
      intro t
      rw [foldl_cons, map_cons, foldl_cons, ih, map_insert]
  exact h empty

theorem pairs_insert_of_notMem (h : key ∉ t.keys) :
    (t.insert key value).pairs = t.pairs ++ [(key, value)] := by
  show putPair t.pairs key value = _
  unfold keys at h
  generalize t.pairs = pairs at h ⊢
  induction pairs with
  | nil => rfl
  | cons pair rest ih =>
    obtain ⟨k, v⟩ := pair
    simp only [map_cons, mem_cons, not_or] at h
    rw [putPair, if_neg (Ne.symm h.1), ih h.2, cons_append]

theorem pairs_insertAll (h : (t.keys ++ pairs.map Prod.fst).Nodup) :
    (pairs.foldl (fun t pair => t.insert pair.1 pair.2) t).pairs = t.pairs ++ pairs := by
  induction pairs generalizing t with
  | nil => simp
  | cons pair rest ih =>
    have hfresh : pair.1 ∉ t.keys := fun hmem => disjoint_of_nodup_append h hmem (by simp)
    have hpairs : (t.insert pair.1 pair.2).pairs = t.pairs ++ [pair] :=
      pairs_insert_of_notMem hfresh
    have hkeys : (t.insert pair.1 pair.2).keys = t.keys ++ [pair.1] := by
      rw [keys_insert, if_neg hfresh]
    rw [foldl_cons, ih (by simpa [hkeys] using h), hpairs, append_assoc,
      singleton_append]

theorem ofList_pairs (t : Table α) : ofList t.pairs = t :=
  eq_of_pairs (pairs_insertAll t.nodup)

theorem exists_get?_ofList (h : key ∈ pairs.map Prod.fst) :
    ∃ value, (ofList pairs).get? key = some value := by
  have hfold : ∀ (pairs : List (String × α)) (t : Table α),
      (key ∈ pairs.map Prod.fst ∨ ∃ value, t.get? key = some value) →
      ∃ value, (pairs.foldl (fun t pair => t.insert pair.1 pair.2) t).get? key = some value := by
    intro pairs
    induction pairs with
    | nil => simp
    | cons pair rest ih =>
      intro t ht
      rw [foldl_cons]
      by_cases hkey : key = pair.1
      · exact ih _ (Or.inr ⟨pair.2, by rw [get?_insert, if_pos hkey]⟩)
      · refine ih _ ?_
        rw [get?_insert, if_neg hkey]
        simpa [hkey] using ht
  exact hfold pairs empty (Or.inl h)

theorem contains_ofList_iff : (ofList pairs).contains key ↔ key ∈ pairs.map Prod.fst := by
  rw [contains, Option.isSome_iff_exists]
  refine ⟨?_, exists_get?_ofList⟩
  rintro ⟨value, hvalue⟩
  have hnames : (ofList pairs).Holds fun name _ => name ∈ pairs.map Prod.fst :=
    holds_ofList fun pair hpair => mem_map_of_mem hpair
  exact hnames key value hvalue

end StubCatalog.Table
