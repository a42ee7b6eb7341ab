import StubCatalog.Proofs.TypeExpr.Comparison

/-! # Tables of built-in types

Containment goes by which built-in types lie above which, and overlap by families of values and
ranges of integers. That the two agree is a matter of the tables (`Tables`). -/

namespace StubCatalog

open List

variable {name x : String} {names : List String} {v : LiteralValue}

/-! ### The order of built-in types -/

namespace Keyword

theorem mem_addName {other : String} (h : name ∈ names) : name ∈ addName names other := by
  unfold addName
  split
  · exact h
  · exact mem_append_left _ h

theorem mem_foldl_addName {others : List String} (h : name ∈ names) :
    name ∈ others.foldl addName names := by
  induction others generalizing names with
  | nil => exact h
  | cons other others ih => exact ih (mem_addName h)

theorem mem_climb (h : name ∈ names) : name ∈ climb names := by
  have hfold : ∀ others found : List String, name ∈ found →
      name ∈ others.foldl (fun found name => ((parents.lookup name).getD []).foldl addName found)
        found := by
    intro others
    induction others with
    | nil => exact fun _ h => h
    | cons other others ih => exact fun found h => ih _ (mem_foldl_addName h)
  exact hfold names names h

theorem mem_ancestors_self (name : String) : name ∈ ancestors name :=
  mem_climb <| mem_climb <| mem_climb <| mem_climb <| mem_climb <| mem_climb <|
    mem_singleton_self name

theorem ancestors_of_not_listed (h : parents.lookup name = none) : ancestors name = [name] := by
  have hclimb : climb [name] = [name] := by simp [climb, h]
  simp [ancestors, height, Nat.repeat, hclimb]

end Keyword

namespace TypeExpr

open Keyword

/-- Both bounds are integers or absent. -/
def areIntegers (bounds : Bound × Bound) : Bool := bounds.1.isInteger && bounds.2.isInteger

/-- The built-in types that are ranges of integers, with an integer of each. -/
def rangeSamples : List (String × Int) :=
  [("int", 0), ("positive-int", 1), ("negative-int", -1), ("non-negative-int", 0),
    ("non-positive-int", 0)]

/-- An integer of a built-in type that is a range of integers. -/
def rangeSample? (name : String) : Option Int := rangeSamples.lookup name

/-- The built-in types that objects can belong to. -/
def objectBases : List String := ["object", "mixed", "callable", "iterable"]

/-- The family of a value. -/
def literalFamily : LiteralValue → Family
  | .int _ => .int
  | .float _ => .float
  | .str _ => .string

/-- The built-in types that ask something of a text. -/
def textKeywords : List String :=
  ["non-empty-string", "non-falsy-string", "numeric-string", "lowercase-string",
    "non-empty-lowercase-string", "literal-string", "class-string", "interface-string",
    "enum-string", "trait-string"]

/-- What the tables of the built-in types say about each other, so far as the comparisons rely on
it. -/
structure Tables : Prop where
  nonempty : ∀ pair ∈ drawn, pair.1 ≠ "never" → pair.2 ≠ []
  above : ∀ x ∈ parents.map Prod.fst, ∀ y ∈ ancestors x, ∀ z ∈ ancestors x,
    areSiblings y z = false ∧ (domain y).any (domain z).contains
  int : ∀ name ∈ ancestors "int", Family.int ∈ domain name
  float : ∀ name ∈ ancestors "float", Family.float ∈ domain name
  string : ∀ name ∈ ancestors "string", Family.string ∈ domain name
  texts : ∀ name ∈ textKeywords, Family.string ∈ domain name
  siblings : ∀ pair ∈ [("true", "false"), ("false", "true"), ("open-resource", "closed-resource"),
    ("closed-resource", "open-resource")], Family.int ∉ domain pair.1 ∧
    Family.float ∉ domain pair.1 ∧ Family.string ∉ domain pair.1
  integers : ∀ pair ∈ Keyword.ranges, areIntegers pair.2 ∧ Family.int ∈ domain pair.1 ∧
    Family.float ∉ domain pair.1 ∧ Family.string ∉ domain pair.1
  sampled : ∀ pair ∈ Keyword.ranges, ∃ n ∈ rangeSample? pair.1, inBounds pair.2.1 pair.2.2 n
  rangesAbove : ∀ x ∈ parents.map Prod.fst, rangeSample? x = none →
    ∀ name ∈ ancestors x, (ranges.lookup name).isSome → name = "int"
  samplesAbove : ∀ pair ∈ rangeSamples, ∀ name ∈ ancestors pair.1,
    literalInKeyword (.int pair.2) name
  objects : ∀ x ∈ objectBases, ∀ y ∈ objectBases, ranges.lookup x = none ∧
    areSiblings x y = false ∧ (domain x).any (domain y).contains

/-- The facts are decided once, here. -/
theorem tables : Tables where
  nonempty := by decide
  above := by decide
  int := by decide
  float := by decide
  string := by decide
  texts := by decide
  siblings := by decide
  integers := by decide
  sampled := by decide
  rangesAbove := by decide
  samplesAbove := by decide
  objects := by decide

example : ancestors "list" = ["list", "array", "iterable", "mixed"] ∧ domain "list" = [.array] ∧
    domain "iterable" = [.array, .object] := by decide +kernel

/-! ### The order and the families -/

theorem areSiblings_self (x : String) : areSiblings x x = false := by
  by_cases h : x = "true"
  · subst h; decide
  by_cases h' : x = "false"
  · subst h'; decide
  by_cases h'' : x = "open-resource"
  · subst h''; decide
  simp [areSiblings, h, h', h'']

theorem domain_ne_nil_of_not_listed (hx : x ≠ "never") (h : parents.lookup x = none) :
    domain x ≠ [] := by
  rw [domain, ancestors_of_not_listed h]
  simp only [findSome?_cons, findSome?_nil]
  cases hlookup : drawn.lookup x with
  | none => simp [families]
  | some found => simpa using tables.nonempty _ (mem_of_lookup hlookup) hx

/-- **Built-in types above a common one** do not exclude each other and share a family. -/
theorem meet_above {y z : String} (hx : x ≠ "never") (hy : y ∈ ancestors x) (hz : z ∈ ancestors x) :
    areSiblings y z = false ∧ (domain y).any (domain z).contains := by
  cases h : parents.lookup x with
  | some above => exact tables.above x (mem_map_of_mem (mem_of_lookup h)) y hy z hz
  | none =>
    rw [ancestors_of_not_listed h] at hy hz
    obtain rfl := mem_singleton.mp hy
    obtain rfl := mem_singleton.mp hz
    obtain ⟨f, rest, hdomain⟩ := exists_cons_of_ne_nil (domain_ne_nil_of_not_listed hx h)
    exact ⟨areSiblings_self _, by simp [hdomain]⟩

/-! ### Values of built-in types -/

theorem mem_textKeywords {s : String} {answer : Bool} (h : textInKeyword? s name = some answer) :
    name ∈ textKeywords := by
  refine Decidable.byContradiction fun hname => ?_
  simp only [textKeywords, mem_cons, not_mem_nil, or_false, not_or] at hname
  simp [textInKeyword?, hname] at h

theorem mem_domain_of_literalInKeyword (h : literalInKeyword v name) :
    literalFamily v ∈ domain name := by
  cases v with
  | int n =>
    simp only [literalInKeyword] at h
    split at h
    · next low high hlookup =>
      exact (tables.integers (name, low, high) (mem_of_lookup hlookup)).2.1
    · exact tables.int name (contains_iff_mem.mp h)
  | float d => exact tables.float name (contains_iff_mem.mp h)
  | str s =>
    simp only [literalInKeyword] at h
    split at h
    · next hanswer => exact tables.texts name (mem_textKeywords hanswer)
    · exact tables.string name (contains_iff_mem.mp h)

theorem areSiblings_of_literalInKeyword {y : String} (h : literalInKeyword v x) :
    areSiblings x y = false := by
  rw [← Bool.not_eq_true]
  intro hsiblings
  obtain ⟨hint, hfloat, hstring⟩ := tables.siblings (x, y) (contains_iff_mem.mp hsiblings)
  have hmem := mem_domain_of_literalInKeyword h
  cases v with
  | int n => exact hint hmem
  | float d => exact hfloat hmem
  | str s => exact hstring hmem

theorem isInt_of_literalInKeyword (h : literalInKeyword v name)
    (hrange : (ranges.lookup name).isSome) : ∃ n, v = .int n := by
  obtain ⟨bounds, hbounds⟩ := Option.isSome_iff_exists.mp hrange
  obtain ⟨-, -, hfloat, hstring⟩ := tables.integers (name, bounds) (mem_of_lookup hbounds)
  have hmem := mem_domain_of_literalInKeyword h
  cases v with
  | int n => exact ⟨n, rfl⟩
  | float d => exact absurd hmem hfloat
  | str s => exact absurd hmem hstring

/-! ### Ranges of integers -/

theorem areIntegers_of_lookup {bounds : Bound × Bound} (h : ranges.lookup name = some bounds) :
    areIntegers bounds :=
  (tables.integers (name, bounds) (mem_of_lookup h)).1

theorem eq_int_of_range_above {above : String} (habove : rangeSample? above = none)
    (hname : name ∈ ancestors above) (hrange : (ranges.lookup name).isSome) :
    name = "int" := by
  cases h : parents.lookup above with
  | some parents =>
    exact tables.rangesAbove above (mem_map_of_mem (mem_of_lookup h)) habove name hname hrange
  | none =>
    rw [ancestors_of_not_listed h] at hname
    obtain rfl := mem_singleton.mp hname
    obtain ⟨bounds, hbounds⟩ := Option.isSome_iff_exists.mp hrange
    obtain ⟨n, hn, -⟩ := tables.sampled (name, bounds) (mem_of_lookup hbounds)
    rw [show rangeSample? name = some n from hn] at habove
    cases habove

theorem literalInKeyword_of_rangeSample {above : String} {n : Int} (h : rangeSample? name = some n)
    (habove : above ∈ ancestors name) : literalInKeyword (.int n) above :=
  tables.samplesAbove (name, n) (mem_of_lookup h) above habove

end TypeExpr

end StubCatalog
