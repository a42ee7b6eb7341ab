import StubCatalog.Decimal.Numeral
import StubCatalog.Sequence
import StubCatalog.TypeExpr.Size
import StubCatalog.TypeExpr.Supertype

/-! # Containment and overlap

Containment says that every value of one type is a value of the other, and says no when it cannot
tell; overlap says that some value may belong to both, and says yes when it cannot tell. A class
hierarchy tells how classes are related and what references to class constants stand for, which are
followed only so many levels deep. -/

namespace StubCatalog.TypeExpr

/-! ### Questions to the class hierarchy -/

/-- Which classes are below which, and what references to constants stand for. -/
structure Hierarchy where
  isSubclass : String → String → Bool
  expand : String → String → Option TypeExpr

/-- Nothing is known about classes. -/
def Hierarchy.unknown : Hierarchy where
  isSubclass _ _ := false
  expand _ _ := none

/-- The classes are the same, or the first is below the second. -/
def Hierarchy.related (h : Hierarchy) (child parent : String) : Bool :=
  Text.lower child == Text.lower parent || h.isSubclass child parent

/-- Why a comparison has no answer. -/
inductive CompareError where
  | noArguments
  /-- References to class constants lead to references without end. -/
  | endlessReference
  deriving DecidableEq, Repr

/-- The text of the error. -/
def CompareError.message : CompareError → String
  | .noArguments => "tuple index out of range"
  | .endlessReference => "maximum recursion depth exceeded"

/-- The answer of a comparison, if it has one. -/
abbrev Verdict := Except CompareError Bool

/-! ### Sorts of types -/

/-- The built-in type that stands for a type other than a class. -/
def baseName? : TypeExpr → Option String
  | .keyword name => some name.text
  | .literal (.int _) => some "int"
  | .literal (.float _) => some "float"
  | .literal (.str _) => some "string"
  | .intRange .. => some "int"
  | .generic name _ => if Keyword.isGeneric name then some (Text.lower name) else none
  | .shape kind .. => some kind.text
  | .callable kind .. =>
    some (if kind.text == "pure-callable" then "pure-callable" else "callable")
  | _ => none

/-- The word is one for closures. -/
def isClosureKind (kind : String) : Bool := "Closure".toList.reverse.isPrefixOf kind.toList.reverse

/-- The class that a type is about. -/
def className? : TypeExpr → Option String
  | .named name => some name
  | .generic name _ => if Keyword.isGeneric name then none else some name
  | .callable kind .. => if isClosureKind kind.text then some "Closure" else none
  | _ => none

/-- The built-in type whose family of values counts. -/
def family? (t : TypeExpr) : Option String :=
  if (className? t).isSome then some "object" else baseName? t

/-- The type as it is compared: a template parameter is its bound, a conditional both of its
branches, and a reference what it stands for, which the flag tells. -/
def normalize (h : Hierarchy) : TypeExpr → TypeExpr × Bool
  | .template _ none => (mixed, false)
  | .template _ (some bound) => normalize h bound
  | .conditional subject target whenTrue whenFalse negated =>
    (conditionalBranches (.conditional subject target whenTrue whenFalse negated), false)
  | .memberReference owner member =>
    match h.expand owner member.text with
    | some t => (t, true)
    | none => (.unknown "unresolved member reference", false)
  | t => (t, false)

theorem size_normalize_le (h : Hierarchy) (t : TypeExpr) :
    (normalize h t).2 = false → (normalize h t).1.size ≤ t.size := by
  fun_induction normalize h t with
  | case1 => simp [size]
  | case2 _ bound ih =>
    intro hn
    have := ih hn
    simp only [size, sizeOption]
    omega
  | case3 subject target whenTrue whenFalse negated =>
    intro _
    exact size_conditionalBranches_le _
  | case4 => simp
  | case5 => simp [size]
  | case6 => simp

/-- The type is compared by its members. -/
def isUnionLike : TypeExpr → Bool
  | .union _ | .nullable _ => true
  | _ => false

theorem size_le_of_mem_membersOf {m : TypeExpr} :
    ∀ {t : TypeExpr}, m ∈ membersOf t → m.size ≤ t.size
  | .nullable t, h => by
    simp only [membersOf, List.mem_append, List.mem_singleton] at h
    rcases h with h | rfl
    · have := size_le_of_mem_membersOf h
      simp only [size]
      omega
    · simp [size]
  | .union ts, h => by
    have : m.size ≤ sizeList ts := size_le_sizeList h
    simp only [size]
    omega
  | .keyword _, h | .named _, h | .intersection _, h | .generic .., h | .shape .., h
  | .conditional .., h | .literal _, h | .template .., h | .intRange .., h | .callable .., h
  | .memberReference .., h | .unknown _, h => by
    simp only [membersOf, List.mem_singleton] at h
    simp [h]

theorem size_lt_of_mem_membersOf {m t : TypeExpr} (ht : t.isUnionLike = true)
    (h : m ∈ membersOf t) : m.size < t.size := by
  match t, ht, h with
  | .union ts, _, h =>
    have : m.size ≤ sizeList ts := size_le_sizeList h
    simp only [size]
    omega
  | .nullable t, _, h =>
    have hpos := size_pos t
    simp only [membersOf, List.mem_append, List.mem_singleton] at h
    rcases h with h | rfl
    · have := size_le_of_mem_membersOf h
      simp only [size]
      omega
    · simp only [size]
      omega

/-! ### Integers -/

/-- The integer lies between the bounds. -/
def inBounds (low high : Bound) (n : Int) : Bool :=
  (low.isOpen || low.stored.le (.int n)) && (high.isOpen || Json.le (.int n) high.stored)

/-- The first range lies within the second. -/
def boundsWithin (low high low' high' : Bound) : Bool :=
  (low'.isOpen || (!low.isOpen && low'.stored.le low.stored))
    && (high'.isOpen || (!high.isOpen && high.stored.le high'.stored))

/-- The integers of the type lie between the bounds. -/
def withinRange (t : TypeExpr) (low high : Bound) : Bool :=
  match t with
  | .literal (.int n) => inBounds low high n
  | .intRange l u => boundsWithin l u low high
  | .keyword name =>
    match Keyword.ranges.lookup name.text with
    | some (l, u) => boundsWithin l u low high
    | none => false
  | _ => false

/-- A range of integers lies within a built-in type. -/
def rangeInKeyword (low high : Bound) (name : String) : Bool :=
  match Keyword.ranges.lookup name with
  | some (l, u) => boundsWithin low high l u
  | none => (Keyword.ancestors "int").contains name

/-- The integers that a type has, as bounds; none if it has none. -/
def rangeOf? (t : TypeExpr) : Option (Bound × Bound) :=
  match t with
  | .intRange low high => some (low, high)
  | t =>
    let bounds := match t with
      | .keyword name => Keyword.ranges.lookup name.text
      | _ => none
    match bounds with
    | some range => some range
    | none =>
      match family? t with
      | some name =>
        if (Keyword.domain name).contains .int then some (.ofInt? none, .ofInt? none) else none
      | none => none

/-- The greater of two lower bounds. -/
def greaterBound (x y : Bound) : Bound :=
  if x.isOpen || (!y.isOpen && x.stored.lt y.stored) then y else x

/-- The lesser of two upper bounds. -/
def lesserBound (x y : Bound) : Bound :=
  if x.isOpen || (!y.isOpen && y.stored.lt x.stored) then y else x

/-- The ranges have an integer in common. -/
def boundsMeet (a b : Bound × Bound) : Bool :=
  let low := greaterBound a.1 b.1
  let high := lesserBound a.2 b.2
  low.isOpen || high.isOpen || low.stored.le high.stored

/-- The types have an integer in common. -/
def rangesMeet (a b : TypeExpr) : Bool :=
  match rangeOf? a, rangeOf? b with
  | some x, some y => boundsMeet x y
  | _, _ => false

/-! ### Literals -/

/-- Words that are read as decimals but are no numbers. -/
def wordsForNumbers : List String := ["nan", "inf", "-inf", "infinity"]

/-- The text is a number: a decimal that is none of the plain words for infinity and no number. -/
def isNumericText (s : String) : Bool :=
  let trimmed := Text.trim s
  (Numeral.readDouble? trimmed).isSome
    && !wordsForNumbers.contains (Text.lower trimmed)

/-- What a text has to satisfy to belong to one of the built-in types of texts. -/
def textInKeyword? (s : String) (name : String) : Option Bool :=
  match name with
  | "non-empty-string" => some (s != "")
  | "non-falsy-string" => some (s != "" && s != "0")
  | "numeric-string" => some (isNumericText s)
  | "lowercase-string" => some (s == Text.lower s)
  | "non-empty-lowercase-string" => some (s != "" && s == Text.lower s)
  | "literal-string" => some true
  | "class-string" => some false
  | "interface-string" => some false
  | "enum-string" => some false
  | "trait-string" => some false
  | _ => none

/-- The value belongs to the built-in type. -/
def literalInKeyword (value : LiteralValue) (name : String) : Bool :=
  match value with
  | .int n =>
    match Keyword.ranges.lookup name with
    | some (low, high) => inBounds low high n
    | none => (Keyword.ancestors "int").contains name
  | .float _ => (Keyword.ancestors "float").contains name
  | .str s =>
    match textInKeyword? s name with
    | some answer => answer
    | none => (Keyword.ancestors "string").contains name

/-- The value may belong to a type that is no literal. -/
def literalMeets (value : LiteralValue) (t : TypeExpr) : Bool :=
  match t with
  | .intRange low high =>
    match value with
    | .int n => inBounds low high n
    | _ => false
  | t =>
    match family? t with
    | none => true
    | some name =>
      literalInKeyword value name || (name == "callable" && match value with
        | .str _ => true
        | _ => false)

/-! ### Containment -/

/-- An answer about the parts of two types that have already been taken apart: it may ask about any
two types that are smaller together. -/
abbrev Parts (a b : TypeExpr) :=
  (x y : TypeExpr) → x.size + y.size < a.size + b.size → Verdict

/-- The type of the keys, if it is given. -/
def keyArgument? : (args : List TypeExpr) → Option { t : TypeExpr // t ∈ args }
  | first :: _ :: _ => some ⟨first, by simp⟩
  | _ => none

theorem size_getD_mixed_le (t : Option TypeExpr) : (t.getD mixed).size ≤ sizeOption t + 1 := by
  cases t <;> simp [sizeOption, size]

/-- The value that the type has. -/
def literal? : TypeExpr → Option LiteralValue
  | .literal value => some value
  | _ => none

/-- The bounds of a range of integers. -/
def bounds? : TypeExpr → Option (Bound × Bound)
  | .intRange low high => some (low, high)
  | _ => none

/-- The field of this key. -/
def fieldFor? (fields : List (ShapeField TypeExpr)) (key : ShapeKey) :
    Option { f : ShapeField TypeExpr // f ∈ fields } :=
  match h : fields.find? (fun f => sameKeys f.key (some key)) with
  | some f => some ⟨f, List.mem_of_find?_eq_some h⟩
  | none => none

/-- Every field of the second shape is met by one of the first. -/
def fieldsContained (fields fields' : List (ShapeField TypeExpr))
    (ask : (f : ShapeField TypeExpr) → f ∈ fields → (g : ShapeField TypeExpr) → g ∈ fields' →
      Verdict) : Verdict :=
  allHold fields' fun g hg =>
    match g.key with
    | none => .ok true
    | some key =>
      match fieldFor? fields key with
      | none => .ok g.optional.isSet
      | some ⟨f, hf⟩ => if f.optional.isSet && !g.optional.isSet then .ok false else ask f hf g hg

/-- A sealed shape allows no further fields. -/
def sealContained (fields fields' : List (ShapeField TypeExpr)) (s s' : Flag) : Bool :=
  !s'.isSet || (s.isSet && fields.all fun f => fields'.any fun g => sameKeys g.key f.key)

/-- The arguments, fields and the like of the first type fit those of the second, once their base
types do. -/
def argumentsContained (a b : TypeExpr) (ask : Parts a b) : Verdict :=
  match b with
  | .shape kind' fields' s' key' value' =>
    match a with
    | .shape kind fields s key value => do
      if ← fieldsContained fields fields' fun f hf g hg => ask f.value g.value (by
          have := size_le_sizeFields hf
          have := size_le_sizeFields hg
          simp only [size]
          omega) then
        return sealContained fields fields' s s'
      return false
    | _ => .ok false
  | .generic name' args' =>
    match hlast : args'.getLast? with
    | none => .error .noArguments
    | some last' =>
      have hlast' := size_le_sizeList (List.mem_of_getLast? hlast)
      match a with
      | .generic name args =>
        if Keyword.isGeneric name != Keyword.isGeneric name' then .ok false
        else if !Keyword.isGeneric name then
          if Text.lower name != Text.lower name' then .ok true
          else if args.length != args'.length then .ok false
          else allHold (args.zip args') fun pair hp => ask pair.1 pair.2 (by
            have := size_le_sizeList (List.of_mem_zip (a := pair.1) (b := pair.2) hp).1
            have := size_le_sizeList (List.of_mem_zip (a := pair.1) (b := pair.2) hp).2
            simp only [size]
            omega)
        else
          match hargs : args.getLast? with
          | none => .error .noArguments
          | some last => do
            have hlast := size_le_sizeList (List.mem_of_getLast? hargs)
            if ← ask last last' (by simp only [size]; omega) then
              match keyArgument? args, keyArgument? args' with
              | some ⟨first, hfirst⟩, some ⟨first', hfirst'⟩ =>
                ask first first' (by
                  have := size_le_sizeList hfirst
                  have := size_le_sizeList hfirst'
                  simp only [size]
                  omega)
              | _, _ => return true
            else return false
      | .shape kind fields s key value => do
        if ← allHold fields fun f hf => ask f.value last' (by
            have := size_le_sizeFields hf
            simp only [size]
            omega) then
          if s.isSet then return true
          else ask (value.getD mixed) last' (by
            have := size_getD_mixed_le value
            simp only [size]
            omega)
        else return false
      | _ => .ok false
  | _ => .ok true

/-- Containment of types that are neither unions nor intersections. -/
def atomContained (h : Hierarchy) (a b : TypeExpr) (ask : Parts a b) : Verdict :=
  match className? a, className? b with
  | some child, some parent =>
    if h.related child parent then argumentsContained a b ask else .ok false
  | none, some _ => .ok false
  | some child, none =>
    match baseName? b with
    | none => .ok false
    | some base =>
      if base == "object" || base == "mixed" then .ok true
      else if base == "callable" && Text.lower child == "closure" then .ok true
      else if base == "iterable" then .ok (h.related child "Traversable")
      else .ok false
  | none, none =>
    match baseName? a, baseName? b with
    | some base, some base' =>
      match literal? a, bounds? a, literal? b, bounds? b with
      | some x, _, some y, _ => .ok (x.same y)
      | none, _, some _, _ => .ok false
      | _, _, _, some (low, high) => .ok (withinRange a low high)
      | some x, _, _, _ =>
        if literalInKeyword x base' then argumentsContained a b ask else .ok false
      | _, some (low, high), _, _ => .ok (rangeInKeyword low high base')
      | _, _, _, _ =>
        if (Keyword.ancestors base).contains base' then argumentsContained a b ask else .ok false
    | _, _ => .ok false

/-- Containment of two types as they are compared, given the answers about their parts. -/
def containedStep (h : Hierarchy) (a b : TypeExpr) (ask : Parts a b) : Verdict :=
  if b.isUnknown || b.isMixed then .ok true
  else if a.isUnknown || a.isMixed then .ok false
  else if a.isNever then .ok true
  else if a.same b then .ok true
  else if ha : a.isUnionLike then
    allHold (membersOf a) fun m hm => ask m b (by
      have := size_lt_of_mem_membersOf ha hm
      omega)
  else match a with
    | .intersection ms =>
      someHolds ms fun m hm => ask m b (by
        have := size_le_sizeList hm
        simp only [size]
        omega)
    | a =>
      if hb : b.isUnionLike then
        someHolds (membersOf b) fun m hm => ask a m (by
          have := size_lt_of_mem_membersOf hb hm
          omega)
      else match b with
        | .intersection ms =>
          allHold ms fun m hm => ask a m (by
            have := size_le_sizeList hm
            simp only [size]
            omega)
        | b => atomContained h a b ask

/-- A comparison in steps, where `deeper` answers once a reference has been followed. -/
def comparedWith (h : Hierarchy) (step : (a b : TypeExpr) → Parts a b → Verdict)
    (deeper : TypeExpr → TypeExpr → Verdict) (a b : TypeExpr) : Verdict :=
  if _hx : (normalize h a).2 = false ∧ (normalize h b).2 = false then
    step (normalize h a).1 (normalize h b).1 fun x y _ => comparedWith h step deeper x y
  else step (normalize h a).1 (normalize h b).1 fun x y _ => deeper x y
termination_by a.size + b.size
decreasing_by
  have := size_normalize_le h a _hx.1
  have := size_normalize_le h b _hx.2
  omega

/-- Containment that follows at most `depth` references, one inside the other. -/
def containedWithin (h : Hierarchy) : Nat → TypeExpr → TypeExpr → Verdict
  | 0 => comparedWith h (containedStep h) fun _ _ => .error .endlessReference
  | depth + 1 => comparedWith h (containedStep h) (containedWithin h depth)

/-! ### Overlap -/

/-- Two built-in types that exclude each other although their families agree. -/
def areSiblings (x y : String) : Bool :=
  [("true", "false"), ("false", "true"), ("open-resource", "closed-resource"),
    ("closed-resource", "open-resource")].contains (x, y)

/-- Overlap of two types that are neither unions nor intersections, neither containing the other. -/
def atomsMeet (a b : TypeExpr) : Bool :=
  if (className? a).isSome && (className? b).isSome then true
  else match family? a, family? b with
    | some x, some y =>
      match a, b with
      | .literal u, .literal v => u.same v
      | .literal u, t => literalMeets u t
      | t, .literal v => literalMeets v t
      | .intRange .., _ => rangesMeet a b
      | _, .intRange .. => rangesMeet a b
      | _, _ =>
        if (Keyword.ranges.lookup x).isSome && (Keyword.ranges.lookup y).isSome then rangesMeet a b
        else if areSiblings x y then false
        else (Keyword.domain x).any (Keyword.domain y).contains
    | _, _ => true

/-- Overlap of two types as they are compared, given the answers about their parts and about
containment. -/
def overlapStep (contained : TypeExpr → TypeExpr → Verdict) (a b : TypeExpr) (ask : Parts a b) :
    Verdict :=
  if a.isUnknown || b.isUnknown || a.isMixed || b.isMixed then .ok true
  else if a.isNever || b.isNever then .ok false
  else if a.same b then .ok true
  else if ha : a.isUnionLike then
    someHolds (membersOf a) fun m hm => ask m b (by
      have := size_lt_of_mem_membersOf ha hm
      omega)
  else if hb : b.isUnionLike then
    someHolds (membersOf b) fun m hm => ask a m (by
      have := size_lt_of_mem_membersOf hb hm
      omega)
  else match a with
    | .intersection ms =>
      allHold ms fun m hm => ask m b (by
        have := size_le_sizeList hm
        simp only [size]
        omega)
    | a =>
      match b with
      | .intersection ms =>
        allHold ms fun m hm => ask a m (by
          have := size_le_sizeList hm
          simp only [size]
          omega)
      | b => do
        if ← contained a b then return true
        if ← contained b a then return true
        return atomsMeet a b

/-- Overlap that follows at most `depth` references, one inside the other. -/
def overlapWithin (h : Hierarchy) : Nat → TypeExpr → TypeExpr → Verdict
  | 0 => comparedWith h (overlapStep (containedWithin h 0)) fun _ _ => .error .endlessReference
  | depth + 1 =>
    comparedWith h (overlapStep (containedWithin h (depth + 1))) (overlapWithin h depth)

/-! ### The two comparisons -/

/-- The number of references that a comparison follows, one inside the other, before it gives up. -/
def referenceDepth : Nat := 450

/-- Every value of `a` is a value of `b`, for certain. -/
def isContainedBy (a b : TypeExpr) (h : Hierarchy := .unknown) : Verdict :=
  containedWithin h referenceDepth a b

/-- Some value may belong to both types. -/
def canOverlap (a b : TypeExpr) (h : Hierarchy := .unknown) : Verdict :=
  overlapWithin h referenceDepth a b

end StubCatalog.TypeExpr
