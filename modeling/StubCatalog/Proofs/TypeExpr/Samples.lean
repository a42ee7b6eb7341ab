import Mathlib.Data.Int.Order.Basic
import Mathlib.Data.Set.Insert
import StubCatalog.Proofs.TypeExpr.Tables

/-! # Samples of types

A type that is neither a union nor an intersection is represented by a *sample*: a single value, the
built-in type it is, or an object (`sample`). Whatever contains the type admits its sample
(`Admits`), and two types that admit a common sample meet. -/

namespace StubCatalog

open List

variable {t u m : TypeExpr} {v w : LiteralValue} {name : String} {low high : Bound} {n : Int}

namespace TypeExpr

open Keyword

/-! ### Integers between bounds -/

/-- The integers between bounds that may be absent. -/
def integersBetween (low high : Option Int) : Set Int :=
  { n | (∀ l ∈ low, l ≤ n) ∧ ∀ u ∈ high, n ≤ u }

/-- The bounds are in order. -/
def InOrder (low high : Option Int) : Prop := ∀ l ∈ low, ∀ u ∈ high, l ≤ u

theorem inBounds_ofInt (low high : Option Int) (n : Int) : inBounds (.ofInt? low) (.ofInt? high) n ↔
      (∀ l ∈ low, l ≤ n) ∧ ∀ h ∈ high, n ≤ h := by
  cases low <;> cases high <;> simp [inBounds, Bound.ofInt?, Bound.isOpen, Json.le_int_int]

theorem exists_of_areIntegers {bounds : Bound × Bound} (h : areIntegers bounds) :
    ∃ low high, bounds = (.ofInt? low, .ofInt? high) := by
  obtain ⟨hlow, hhigh⟩ := Bool.and_eq_true_iff.mp h
  obtain ⟨l, hl⟩ := Bound.exists_of_isInteger hlow
  obtain ⟨u, hu⟩ := Bound.exists_of_isInteger hhigh
  exact ⟨l, u, Prod.ext hl hu⟩

section
variable {low high low' high' : Option Int} {n : Int}

theorem mem_integersBetween :
    n ∈ integersBetween low high ↔ inBounds (.ofInt? low) (.ofInt? high) n :=
  (inBounds_ofInt low high n).symm

theorem nonempty_integersBetween : (integersBetween low high).Nonempty ↔ InOrder low high := by
  constructor
  · rintro ⟨n, hlow, hhigh⟩ l hl u hu
    exact (hlow l hl).trans (hhigh u hu)
  · intro h
    cases low with
    | some l => exact ⟨l, by simp, fun u hu => h l rfl u hu⟩
    | none =>
      cases high with
      | some u => exact ⟨u, by simp, by simp⟩
      | none => exact ⟨0, by simp, by simp⟩

theorem integersBetween_self (n : Int) : integersBetween (some n) (some n) = {n} := by
  ext m
  simp only [integersBetween, Option.mem_some, forall_eq']
  exact ⟨fun h => le_antisymm h.2 h.1, fun h => ⟨h.ge, h.le⟩⟩

theorem inter_integersBetween : integersBetween low high ∩ integersBetween low' high' =
      integersBetween (low.merge max low') (high.merge min high') := by
  ext n
  cases low <;> cases low' <;> cases high <;> cases high' <;> simp [integersBetween] <;> omega

theorem greaterBound_ofInt :
    greaterBound (.ofInt? low) (.ofInt? low') = .ofInt? (low.merge max low') := by
  rcases low with _ | l <;> rcases low' with _ | l' <;> try rfl
  rcases lt_or_ge l l' with h | h
  · simp [greaterBound, Bound.ofInt?, Bound.isOpen, Json.lt, Json.le_int_int, h, h.le]
  · simp [greaterBound, Bound.ofInt?, Bound.isOpen, Json.lt, Json.le_int_int, h]

theorem lesserBound_ofInt :
    lesserBound (.ofInt? high) (.ofInt? high') = .ofInt? (high.merge min high') := by
  rcases high with _ | u <;> rcases high' with _ | u' <;> try rfl
  rcases lt_or_ge u' u with h | h
  · simp [lesserBound, Bound.ofInt?, Bound.isOpen, Json.lt, Json.le_int_int, h, h.le]
  · simp [lesserBound, Bound.ofInt?, Bound.isOpen, Json.lt, Json.le_int_int, h]

theorem boundsMeet_iff : boundsMeet (.ofInt? low, .ofInt? high) (.ofInt? low', .ofInt? high') ↔
      (integersBetween low high ∩ integersBetween low' high').Nonempty := by
  rw [inter_integersBetween, nonempty_integersBetween]
  simp only [boundsMeet, greaterBound_ofInt, lesserBound_ofInt]
  generalize low.merge max low' = l
  generalize high.merge min high' = u
  cases l <;> cases u <;> simp [Bound.ofInt?, Bound.isOpen, Json.le_int_int, InOrder]

end

theorem inBounds_of_boundsWithin {low' high' : Bound} (hb : areIntegers (low, high))
    (hb' : areIntegers (low', high')) (h : boundsWithin low high low' high')
    (hn : inBounds low high n) : inBounds low' high' n := by
  obtain ⟨l, u, hlu⟩ := exists_of_areIntegers hb
  obtain ⟨l', u', hlu'⟩ := exists_of_areIntegers hb'
  cases hlu
  cases hlu'
  rw [inBounds_ofInt] at hn ⊢
  cases l <;> cases u <;> cases l' <;> cases u' <;>
    simp [boundsWithin, Bound.ofInt?, Bound.isOpen, Json.le_int_int] at h hn ⊢ <;> omega

theorem boundsMeet_of_inBounds {a b : Bound × Bound} (ha : areIntegers a)
    (hb : areIntegers b) (hna : inBounds a.1 a.2 n)
    (hnb : inBounds b.1 b.2 n) : boundsMeet a b := by
  obtain ⟨l, u, rfl⟩ := exists_of_areIntegers ha
  obtain ⟨l', u', rfl⟩ := exists_of_areIntegers hb
  exact boundsMeet_iff.mpr ⟨n, mem_integersBetween.mpr hna, mem_integersBetween.mpr hnb⟩

/-! ### Samples -/

/-- What represents a type that is neither a union nor an intersection. -/
inductive Sample where
  /-- A single value. -/
  | value (v : LiteralValue)
  /-- Something of a built-in type. -/
  | base (name : String)
  /-- Some object. -/
  | object

/-- An integer between two bounds. -/
def between (low high : Bound) : Int :=
  match low.stored, high.stored with
  | .int n, _ => n
  | _, .int n => n
  | _, _ => 0

/-- The sample of a type. -/
def sample (t : TypeExpr) : Sample :=
  match t with
  | .literal v => .value v
  | .intRange low high => .value (.int (between low high))
  | .keyword name =>
    match rangeSample? name.text with
    | some n => .value (.int n)
    | none => .base name.text
  | t =>
    match className? t with
    | some _ => .object
    | none => .base ((baseName? t).getD "")

/-- The type admits the sample. -/
def Admits (s : Sample) (t : TypeExpr) : Prop :=
  match s with
  | .value v =>
    match t with
    | .literal w => v.same w
    | .intRange low high => ∃ n, v = .int n ∧ inBounds low high n
    | t => className? t = none ∧ ∃ name, baseName? t = some name ∧ literalInKeyword v name
  | .base above =>
    literal? t = none ∧ bounds? t = none ∧ className? t = none ∧
      ∃ name, baseName? t = some name ∧ name ∈ ancestors above
  | .object => (className? t).isSome ∨ ∃ name ∈ objectBases, baseName? t = some name

/-- The type is neither a single value nor a range of integers. -/
def IsBroad (t : TypeExpr) : Prop := literal? t = none ∧ bounds? t = none

theorem rangeOf_of_admits (ht : t.isRegularNode) (hliteral : literal? t = none)
    (h : Admits (.value (.int n)) t) :
    ∃ bounds, rangeOf? t = some bounds ∧ areIntegers bounds ∧ inBounds bounds.1 bounds.2 n := by
  have hopen : ∀ name, className? t = none → baseName? t = some name →
      literalInKeyword (.int n) name →
      (match family? t with
        | some name =>
          if (domain name).contains .int then some (Bound.ofInt? none, Bound.ofInt? none) else none
        | none => none) = some (Bound.ofInt? none, Bound.ofInt? none) := by
    intro name hclass hbase hname
    have hmem : (domain name).contains .int :=
      contains_iff_mem.mpr (mem_domain_of_literalInKeyword hname)
    simp only [family?, hclass, hbase, Option.isSome_none, Bool.false_eq_true, if_false, hmem,
      if_true]
  have hall : inBounds (Bound.ofInt? none) (Bound.ofInt? none) n := rfl
  cases t with
  | literal v => simp [literal?] at hliteral
  | intRange low high =>
    obtain ⟨m, hm, hbounds⟩ := h
    cases hm
    exact ⟨(low, high), rfl, ht, hbounds⟩
  | keyword name =>
    obtain ⟨hclass, base, hbase, hin⟩ := h
    obtain rfl : name.text = base := by simpa [baseName?] using hbase
    cases hlookup : ranges.lookup name.text with
    | some bounds =>
      refine ⟨bounds, by simp [rangeOf?, hlookup], areIntegers_of_lookup hlookup, ?_⟩
      simpa [literalInKeyword, hlookup] using hin
    | none =>
      refine ⟨(.ofInt? none, .ofInt? none), ?_, rfl, hall⟩
      simp only [rangeOf?, hlookup]
      exact hopen _ hclass hbase hin
  | _ =>
    obtain ⟨hclass, base, hbase, hin⟩ := h
    exact ⟨(.ofInt? none, .ofInt? none), hopen _ hclass hbase hin, rfl, hall⟩

/-! ### Types that admit a common sample -/

theorem same_of_same_same {u : LiteralValue} (hv : u.same v) (hw : u.same w) : v.same w := by
  cases u <;> cases v <;> cases w <;> simp_all [LiteralValue.same, Double.same]
  next x y z =>
    rcases hv with ⟨rfl, hx⟩ | ⟨hx, hy⟩
    · exact hw
    · rcases hw with ⟨rfl, hx'⟩ | ⟨-, hz⟩
      · exact Or.inr ⟨hy, hx⟩
      · exact Or.inr ⟨hy, hz⟩

theorem literalInKeyword_of_same (h : v.same w) (name : String) :
    literalInKeyword w name = literalInKeyword v name := by
  cases v <;> cases w <;> simp_all [LiteralValue.same, literalInKeyword]

theorem className?_of_admits_value (h : Admits (.value v) t) : className? t = none := by
  cases t with
  | named _ | generic _ _ | callable _ _ _ => exact h.1
  | _ => rfl

theorem exists_family_of_admits_value (h : Admits (.value v) t) :
    ∃ name, family? t = some name := by
  have hclass := className?_of_admits_value h
  simp only [family?, hclass, Option.isSome_none, Bool.false_eq_true, if_false]
  cases t with
  | literal w => cases w <;> exact ⟨_, rfl⟩
  | intRange low high => exact ⟨_, rfl⟩
  | _ => exact ⟨_, h.2.choose_spec.1⟩

theorem literalMeets_of_admits (hvw : v.same w) (hliteral : literal? t = none)
    (h : Admits (.value v) t) : literalMeets w t := by
  cases t with
  | literal w => simp [literal?] at hliteral
  | intRange low high =>
    obtain ⟨n, rfl, hn⟩ := h
    obtain rfl : w = .int n := by cases w <;> simp_all [LiteralValue.same]
    exact hn
  | _ =>
    obtain ⟨hclass, name, hbase, hname⟩ := h
    simp only [literalMeets, family?, hclass, hbase, Option.isSome_none, Bool.false_eq_true,
      if_false, literalInKeyword_of_same hvw, hname, Bool.true_or]

theorem rangesMeet_of_admits (ht : t.isRegularNode) (hu : u.isRegularNode)
    (htliteral : literal? t = none) (huliteral : literal? u = none) (h : Admits (.value (.int n)) t)
    (h' : Admits (.value (.int n)) u) : rangesMeet t u := by
  obtain ⟨x, hx, hxint, hxn⟩ := rangeOf_of_admits ht htliteral h
  obtain ⟨y, hy, hyint, hyn⟩ := rangeOf_of_admits hu huliteral h'
  rw [rangesMeet, hx, hy]
  exact boundsMeet_of_inBounds hxint hyint hxn hyn

theorem atomsMeet_of_families {x y : String} (ht : t.IsBroad) (hu : u.IsBroad)
    (hx : family? t = some x) (hy : family? u = some y)
    (hranges : (ranges.lookup x).isSome → (ranges.lookup y).isSome →
      rangesMeet t u) (hsiblings : areSiblings x y = false)
    (hdomain : (domain x).any (domain y).contains) : atomsMeet t u := by
  unfold atomsMeet
  split
  · rfl
  rw [hx, hy]
  dsimp only
  split
  · cases ht.1
  · cases ht.1
  · cases hu.1
  · cases ht.2
  · cases hu.2
  · split
    · next h =>
      obtain ⟨h1, h2⟩ := Bool.and_eq_true_iff.mp h
      exact hranges h1 h2
    · rw [hsiblings]
      exact hdomain

theorem literal?_eq_none (h : ∀ v, t ≠ .literal v) : literal? t = none := by
  cases t with
  | literal v => exact absurd rfl (h v)
  | _ => rfl

theorem bounds?_eq_none (h : ∀ low high, t ≠ .intRange low high) : bounds? t = none := by
  cases t with
  | intRange low high => exact absurd rfl (h low high)
  | _ => rfl

theorem admits_value_iff (h : t.IsBroad) :
    Admits (.value v) t ↔
      className? t = none ∧ ∃ name, baseName? t = some name ∧ literalInKeyword v name := by
  cases t with
  | literal v => cases h.1
  | intRange low high => cases h.2
  | _ => rfl

theorem atomsMeet_of_admits_value (ht : t.isRegularNode) (hu : u.isRegularNode)
    (h : Admits (.value v) t) (h' : Admits (.value v) u) : atomsMeet t u := by
  by_cases hbroad : t.IsBroad ∧ u.IsBroad
  · obtain ⟨htbroad, hubroad⟩ := hbroad
    obtain ⟨htclass, x, hx, hvx⟩ := (admits_value_iff htbroad).mp h
    obtain ⟨huclass, y, hy, hvy⟩ := (admits_value_iff hubroad).mp h'
    have htfamily : family? t = some x := by simp [family?, htclass, hx]
    have hufamily : family? u = some y := by simp [family?, huclass, hy]
    refine atomsMeet_of_families htbroad hubroad htfamily hufamily
      (fun hrange _ => ?_) (areSiblings_of_literalInKeyword hvx) ?_
    · obtain ⟨n, rfl⟩ := isInt_of_literalInKeyword hvx hrange
      exact rangesMeet_of_admits ht hu htbroad.1 hubroad.1 h h'
    · exact any_eq_true.mpr ⟨literalFamily v, mem_domain_of_literalInKeyword hvx,
        contains_iff_mem.mpr (mem_domain_of_literalInKeyword hvy)⟩
  · obtain ⟨x, hx⟩ := exists_family_of_admits_value h
    obtain ⟨y, hy⟩ := exists_family_of_admits_value h'
    unfold atomsMeet
    split
    · rfl
    rw [hx, hy]
    dsimp only
    split
    · exact same_of_same_same h h'
    · rename_i hright
      exact literalMeets_of_admits h (literal?_eq_none hright) h'
    · rename_i hleft _
      exact literalMeets_of_admits h' (literal?_eq_none hleft) h
    · rename_i hright
      obtain ⟨n, rfl, hn⟩ := h
      exact rangesMeet_of_admits ht hu rfl (literal?_eq_none hright) ⟨n, rfl, hn⟩ h'
    · rename_i hleft _ _
      obtain ⟨n, rfl, hn⟩ := h'
      exact rangesMeet_of_admits ht hu (literal?_eq_none hleft) rfl h ⟨n, rfl, hn⟩
    · rename_i htliteral htbounds huliteral hubounds _
      exact absurd ⟨⟨literal?_eq_none htliteral, bounds?_eq_none htbounds⟩,
        literal?_eq_none huliteral, bounds?_eq_none hubounds⟩ hbroad

theorem atomsMeet_of_admits_base {above : String} (habove : above ≠ "never")
    (hrange : rangeSample? above = none) (ht : t.isRegularNode) (hu : u.isRegularNode)
    (h : Admits (.base above) t) (h' : Admits (.base above) u) : atomsMeet t u := by
  obtain ⟨htliteral, htbounds, htclass, x, hx, hxabove⟩ := h
  obtain ⟨huliteral, hubounds, huclass, y, hy, hyabove⟩ := h'
  obtain ⟨hsiblings, hdomain⟩ := meet_above habove hxabove hyabove
  have htfamily : family? t = some x := by simp [family?, htclass, hx]
  have hufamily : family? u = some y := by simp [family?, huclass, hy]
  refine atomsMeet_of_families ⟨htliteral, htbounds⟩ ⟨huliteral, hubounds⟩ htfamily hufamily
    (fun hxrange hyrange => ?_) hsiblings hdomain
  obtain rfl := eq_int_of_range_above hrange hxabove hxrange
  obtain rfl := eq_int_of_range_above hrange hyabove hyrange
  have hzero : literalInKeyword (.int 0) "int" :=
    literalInKeyword_of_rangeSample rfl (mem_ancestors_self _)
  exact rangesMeet_of_admits ht hu htliteral huliteral
    ((admits_value_iff ⟨htliteral, htbounds⟩).mpr ⟨htclass, "int", hx, hzero⟩)
    ((admits_value_iff ⟨huliteral, hubounds⟩).mpr ⟨huclass, "int", hy, hzero⟩)

theorem family_of_admits_object (h : Admits .object t) :
    t.IsBroad ∧ ∃ name ∈ objectBases, family? t = some name := by
  rcases h with hclass | ⟨name, hname, hbase⟩
  · refine ⟨⟨?_, ?_⟩, "object", by decide, by rw [family?, if_pos hclass]⟩
    · cases t with
      | literal v => simp [className?] at hclass
      | _ => rfl
    · cases t with
      | intRange low high => simp [className?] at hclass
      | _ => rfl
  · have hnot : ∀ base ∈ ["int", "float", "string"], base ∉ objectBases := by decide
    refine ⟨⟨?_, ?_⟩, ?_⟩
    · cases t with
      | literal v =>
        cases v <;> simp only [baseName?, Option.some.injEq] at hbase <;>
          exact absurd (hbase ▸ hname) (hnot _ (by decide))
      | _ => rfl
    · cases t with
      | intRange low high =>
        simp only [baseName?, Option.some.injEq] at hbase
        exact absurd (hbase ▸ hname) (hnot _ (by decide))
      | _ => rfl
    · unfold family?
      split
      · exact ⟨"object", by decide, rfl⟩
      · exact ⟨name, hname, hbase⟩

theorem atomsMeet_of_admits_object (h : Admits .object t) (h' : Admits .object u) :
    atomsMeet t u := by
  obtain ⟨htbroad, x, hx, htfamily⟩ := family_of_admits_object h
  obtain ⟨hubroad, y, hy, hufamily⟩ := family_of_admits_object h'
  obtain ⟨hrange, hsiblings, hdomain⟩ := tables.objects x hx y hy
  refine atomsMeet_of_families htbroad hubroad htfamily hufamily
    (fun hxrange _ => ?_) hsiblings hdomain
  rw [hrange] at hxrange
  cases hxrange

/-! ### Types that contain a sample's type -/

/-- The bounds of a range are in order. -/
def inOrder (low high : Bound) : Bool := low.isOpen || high.isOpen || low.stored.le high.stored

/-- The type stands for values of its own: it neither depends on anything nor combines other types,
its bounds are in order, and its fields are those of an array or object. -/
def isDefinite : TypeExpr → Bool
  | .keyword _ | .named _ | .generic .. | .literal _ | .callable .. => true
  | .intRange low high => inOrder low high
  | .shape kind .. => shapes.contains kind.text
  | _ => false

theorem isAtom_of_isDefinite (h : t.isDefinite) : t.isAtom := by
  cases t <;> simp_all [isDefinite, isAtom]

/-- The sample is no integer in disguise, and there is something like it. -/
def Sample.IsSound : Sample → Prop
  | .base name => name ≠ "never" ∧ rangeSample? name = none
  | _ => True

theorem isSound_sample (hm : m.isDefinite) (hnever : m.isNever = false) : (sample m).IsSound := by
  have hgenerics : ∀ name ∈ generics, name ≠ "never" ∧ rangeSample? name = none := by decide
  have hshapes : ∀ name ∈ shapes, name ≠ "never" ∧ rangeSample? name = none := by decide
  cases m with
  | keyword name =>
    simp only [sample]
    split
    · trivial
    · next hrange => exact ⟨by simpa [isNever] using hnever, hrange⟩
  | generic name args =>
    simp only [sample, className?, baseName?]
    by_cases hgeneric : isGeneric name
    · simp only [hgeneric, if_true]
      exact hgenerics _ (contains_iff_mem.mp hgeneric)
    · simp only [hgeneric, Bool.false_eq_true, if_false]
      trivial
  | shape kind fields s key value => exact hshapes _ (contains_iff_mem.mp hm)
  | callable kind params result =>
    simp only [sample, className?, baseName?]
    split
    · trivial
    · simp only [Option.getD_some]
      split <;> exact ⟨by decide, by decide⟩
  | named _ | literal _ | intRange _ _ => trivial
  | _ => simp [isDefinite] at hm

theorem atomsMeet_of_admits {s : Sample} (hs : s.IsSound) (ht : t.isRegularNode)
    (hu : u.isRegularNode) (h : Admits s t) (h' : Admits s u) : atomsMeet t u := by
  cases s with
  | value v => exact atomsMeet_of_admits_value ht hu h h'
  | base above => exact atomsMeet_of_admits_base hs.1 hs.2 ht hu h h'
  | object => exact atomsMeet_of_admits_object h h'

theorem inBounds_between (hint : areIntegers (low, high))
    (horder : inOrder low high) : inBounds low high (between low high) := by
  simp only [areIntegers, Bool.and_eq_true] at hint
  obtain ⟨l, rfl⟩ := Bound.exists_of_isInteger hint.1
  obtain ⟨u, rfl⟩ := Bound.exists_of_isInteger hint.2
  rw [inBounds_ofInt]
  cases l <;> cases u <;> simp_all [between, Bound.ofInt?, inOrder, Bound.isOpen, Json.le_int_int]

theorem admits_of_same (hm : m.isDefinite) (hmr : m.isRegularNode)
    (htr : t.isRegularNode) (h : m.same t) : Admits (sample m) t := by
  cases m with
  | keyword a =>
    cases t with
    | keyword b =>
      rw [same] at h
      obtain rfl := Label.eq_of_same hmr htr h
      simp only [sample]
      split
      · next n hn => exact ⟨rfl, _, rfl, literalInKeyword_of_rangeSample hn (mem_ancestors_self _)⟩
      · exact ⟨rfl, rfl, rfl, _, rfl, mem_ancestors_self _⟩
    | _ => simp [same] at h
  | named a =>
    cases t with
    | named b => exact Or.inl rfl
    | _ => simp [same] at h
  | generic a as =>
    cases t with
    | generic b bs =>
      rw [same, Bool.and_eq_true, beq_iff_eq] at h
      have hgeneric : isGeneric b = isGeneric a := by rw [isGeneric, isGeneric, h.1]
      cases ha : isGeneric a with
      | true =>
        simp only [sample, className?, baseName?, ha, if_true, Option.getD_some, h.1]
        exact ⟨rfl, rfl, by simp [className?, hgeneric, ha], _,
          by simp [baseName?, hgeneric, ha], mem_ancestors_self _⟩
      | false =>
        simp only [sample, className?, ha, Bool.false_eq_true, if_false]
        exact Or.inl (by simp [className?, hgeneric, ha])
    | _ => simp [same] at h
  | shape a as s k v =>
    cases t with
    | shape b bs s' k' v' =>
      simp only [same, Bool.and_eq_true] at h
      simp only [isRegularNode, Bool.and_eq_true] at hmr htr
      obtain rfl := Label.eq_of_same hmr.1.1 htr.1.1 h.1.1.1.1
      exact ⟨rfl, rfl, rfl, _, rfl, mem_ancestors_self _⟩
    | _ => simp [same] at h
  | literal v =>
    cases t with
    | literal w =>
      rw [same] at h
      exact h
    | _ => simp [same] at h
  | intRange l u =>
    cases t with
    | intRange l' u' =>
      simp only [same, Bool.and_eq_true] at h
      simp only [isRegularNode, Bool.and_eq_true] at hmr htr
      obtain rfl := Bound.eq_of_same hmr.1 htr.1 h.1
      obtain rfl := Bound.eq_of_same hmr.2 htr.2 h.2
      exact ⟨_, rfl, inBounds_between (Bool.and_eq_true_iff.mpr hmr) hm⟩
    | _ => simp [same] at h
  | callable a ps r =>
    cases t with
    | callable b qs q =>
      simp only [same, Bool.and_eq_true] at h
      simp only [isRegularNode, Bool.and_eq_true] at hmr htr
      obtain rfl := Label.eq_of_same hmr.1 htr.1 h.1.1
      simp only [sample, className?, baseName?]
      split
      · next hclass => exact Or.inl (by simpa [className?] using congrArg Option.isSome hclass)
      · next hclass =>
        exact ⟨rfl, rfl, by simpa [className?] using hclass, _, rfl, mem_ancestors_self _⟩
    | _ => simp [same] at h
  | _ => simp [isDefinite] at hm

theorem sample_eq_object (h : className? m = some name) : sample m = .object := by
  cases m with
  | named _ | generic _ _ | callable _ _ _ => simp only [sample, h]
  | _ => simp [className?] at h

theorem admits_of_withinRange (hm : m.isDefinite)
    (hmr : m.isRegularNode) (hbounds : areIntegers (low, high))
    (h : withinRange m low high) : Admits (sample m) (.intRange low high) := by
  cases m with
  | literal v =>
    cases v with
    | int n => exact ⟨n, rfl, h⟩
    | _ => simp [withinRange] at h
  | intRange l u =>
    exact ⟨_, rfl, inBounds_of_boundsWithin hmr hbounds h (inBounds_between hmr hm)⟩
  | keyword name =>
    simp only [withinRange] at h
    split at h
    · next l u hlookup =>
      obtain ⟨n, hn, hin⟩ := tables.sampled (name.text, l, u) (mem_of_lookup hlookup)
      have hn : rangeSample? name.text = some n := hn
      have hsample : sample (.keyword name) = .value (.int n) := by simp only [sample, hn]
      rw [hsample]
      exact ⟨n, rfl, inBounds_of_boundsWithin (areIntegers_of_lookup hlookup) hbounds h hin⟩
    · cases h
  | _ => simp [withinRange] at h

theorem literalInKeyword_of_rangeInKeyword
    (hbounds : areIntegers (low, high)) (hn : inBounds low high n)
    (h : rangeInKeyword low high name) : literalInKeyword (.int n) name := by
  simp only [rangeInKeyword, literalInKeyword] at h ⊢
  split at h
  · next l u hlookup =>
    exact inBounds_of_boundsWithin hbounds (areIntegers_of_lookup hlookup) h hn
  · exact h

theorem eq_literal_of_literal? (h : literal? t = some v) : t = .literal v := by
  cases t <;> simp_all [literal?]

theorem eq_intRange_of_bounds? (h : bounds? t = some (low, high)) : t = .intRange low high := by
  cases t <;> simp_all [bounds?]

theorem admits_of_above {base : String} (hm : m.IsBroad) (hmclass : className? m = none)
    (hbase : baseName? m = some base) (ht : t.IsBroad) (htclass : className? t = none)
    (hname : baseName? t = some name) (h : name ∈ ancestors base) : Admits (sample m) t := by
  have hadmits : Admits (.base base) t := ⟨ht.1, ht.2, htclass, name, hname, h⟩
  cases m with
  | keyword word =>
    obtain rfl : word.text = base := by simpa [baseName?] using hbase
    simp only [sample]
    split
    · next n hn =>
      exact (admits_value_iff ht).mpr ⟨htclass, name, hname, literalInKeyword_of_rangeSample hn h⟩
    · exact hadmits
  | literal v => cases hm.1
  | intRange l u => cases hm.2
  | generic _ _ | shape _ _ _ _ _ | callable _ _ _ =>
    simp only [sample, hmclass, hbase, Option.getD_some]
    exact hadmits
  | _ => simp [baseName?] at hbase

theorem admits_of_atomContained {ask : Parts m t} (hm : m.isDefinite)
    (hmr : m.isRegularNode) (htr : t.isRegularNode)
    (h : atomContained .unknown m t ask = .ok true) : Admits (sample m) t := by
  unfold atomContained at h
  split at h
  · next child parent hchild hparent =>
    rw [sample_eq_object hchild]
    exact Or.inl (by simp [hparent])
  · cases h
  · next child hchild hparent =>
    rw [sample_eq_object hchild]
    split at h
    · cases h
    next base hbase =>
    refine Or.inr ⟨base, ?_, hbase⟩
    split at h
    · next hobject =>
      simp only [Bool.or_eq_true, beq_iff_eq] at hobject
      rcases hobject with rfl | rfl <;> decide
    split at h
    · next hcallable =>
      simp only [Bool.and_eq_true, beq_iff_eq] at hcallable
      rw [hcallable.1]
      decide
    split at h
    · next hiterable =>
      rw [beq_iff_eq.mp hiterable]
      decide
    · cases h
  · next hmclass htclass =>
    split at h
    · next base base' hbase hbase' =>
      cases htliteral : literal? t with
      | some y =>
        obtain rfl := eq_literal_of_literal? htliteral
        cases hmliteral : literal? m with
        | some x =>
          obtain rfl := eq_literal_of_literal? hmliteral
          exact Except.ok.inj h
        | none => simp [hmliteral, htliteral] at h
      | none =>
        cases htbounds : bounds? t with
        | some bounds =>
          obtain ⟨low, high⟩ := bounds
          obtain rfl := eq_intRange_of_bounds? htbounds
          refine admits_of_withinRange hm hmr htr ?_
          cases hmliteral : literal? m <;> simpa [hmliteral, htliteral, htbounds] using h
        | none =>
          cases hmliteral : literal? m with
          | some x =>
            obtain rfl := eq_literal_of_literal? hmliteral
            simp only [hmliteral, htliteral, htbounds] at h
            split at h
            · next hx =>
              exact (admits_value_iff ⟨htliteral, htbounds⟩).mpr ⟨htclass, base', hbase', hx⟩
            · cases h
          | none =>
            cases hmbounds : bounds? m with
            | some bounds =>
              obtain ⟨low, high⟩ := bounds
              obtain rfl := eq_intRange_of_bounds? hmbounds
              simp only [hmliteral, htliteral, htbounds, hmbounds, Except.ok.injEq] at h
              exact (admits_value_iff ⟨htliteral, htbounds⟩).mpr ⟨htclass, base', hbase',
                literalInKeyword_of_rangeInKeyword hmr (inBounds_between hmr hm) h⟩
            | none =>
              simp only [hmliteral, htliteral, htbounds, hmbounds] at h
              split at h
              · next habove =>
                exact admits_of_above ⟨hmliteral, hmbounds⟩ hmclass hbase ⟨htliteral, htbounds⟩
                  htclass hbase' (contains_iff_mem.mp habove)
              · cases h
    · cases h

end TypeExpr

end StubCatalog
