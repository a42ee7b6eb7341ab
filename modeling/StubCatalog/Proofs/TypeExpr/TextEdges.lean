import StubCatalog.Proofs.TypeExpr.WrittenTokens

/-! # How the text of a type starts and ends

The first tokens of a type never read as a condition or as the key of a field, and they start a type
unless they are `$this` (`Headed`). A colon may stand behind a type unless it ends in a callable
without a result (`endsOpen`). -/

namespace StubCatalog.TypeExpr

open List Reading

variable {kind : TokenKind}

/-! ### First and last parts -/

/-- The part that the text of a type starts with. -/
def firstPart (t : TypeExpr) : Option TypeExpr :=
  (unionParts t).head?.bind fun u => (intersectionParts u).head?

/-- The type is `$this`. -/
def isThis : TypeExpr → Bool
  | .keyword name => name.text == "$this"
  | _ => false

/-- The text of the type starts with the variable `$this`. -/
def startsThis (t : TypeExpr) : Bool := t.firstPart.any isThis

/-- The type is a class named like the word for a negation. -/
def isNotName : TypeExpr → Bool
  | .named name | .generic name _ | .memberReference name _ => Text.lower name == "not"
  | _ => false

/-- The text of the type starts with the word for a negation. -/
def startsNot (t : TypeExpr) : Bool := t.firstPart.any isNotName

/-- The alternatives besides null. -/
def withoutNull : TypeExpr → TypeExpr
  | .nullable t => t
  | t => t

/-- The part that the text of a type ends with, unless it stands in parentheses. -/
def lastPart (t : TypeExpr) : Option TypeExpr :=
  (unionParts t.withoutNull).getLast?.bind fun u => (intersectionParts u).getLast?

/-- The type is a callable without a result. -/
def isOpenCallable : TypeExpr → Bool
  | .callable _ _ none => true
  | _ => false

mutual

/-- The text of the type ends in a callable without a result. -/
def endsOpen : TypeExpr → Bool
  | .callable _ _ result => endsOpenResult result
  | t => t.lastPart.any isOpenCallable

/-- The text of a callable with such a result ends in a callable without one. -/
def endsOpenResult : Option TypeExpr → Bool
  | none => true
  | some t => t.endsOpen

end

section
variable {t : TypeExpr} {ts : List TypeExpr}

theorem firstPart_eq_self (hunion : t.isUnionLike = false) (hintersection : t.isIntersection = false) :
    t.firstPart = some t := by
  cases t with
  | union => cases hunion
  | intersection => cases hintersection
  | _ => rfl

theorem firstPart_union (ht : t.isUnionLike = false) :
    (TypeExpr.union (t :: ts)).firstPart = t.firstPart := by
  cases t with
  | union => cases ht
  | _ => rfl

end

section
variable {t u : TypeExpr} {us : List TypeExpr}

theorem lastPart_any (hu : u.isUnionLike = false) (hlast : us.getLast? = some u) :
    (us.getLast?.bind fun v => (intersectionParts v).getLast?).any isOpenCallable =
      (u.endsOpen && !u.endsInResult) := by
  rw [hlast]
  cases u with
  | union => cases hu
  | nullable => cases hu
  | callable kind params result => cases result <;> simp [intersectionParts, isOpenCallable, endsOpen,
      endsOpenResult, endsInResult]
  | _ => simp [intersectionParts, isOpenCallable, endsOpen, endsInResult, lastPart, withoutNull,
      unionParts]

theorem endsOpen_union (hu : u.isUnionLike = false) (hlast : us.getLast? = some u) :
    (TypeExpr.union us).endsOpen = (u.endsOpen && !u.endsInResult) := by
  rw [← lastPart_any hu hlast, endsOpen]
  · rfl
  · simp

theorem endsOpen_nullable (hu : u.isUnionLike = false) (hlast : (unionParts t).getLast? = some u) :
    (TypeExpr.nullable t).endsOpen = (u.endsOpen && !u.endsInResult) := by
  rw [← lastPart_any hu hlast, endsOpen]
  · rfl
  · simp

theorem endsOpen_question (h : t.isCompound = false) (ht : t.takesNull) :
    (TypeExpr.nullable t).endsOpen = t.endsOpen := by
  have hlike : t.isUnionLike = false := by
    cases t <;> simp_all [isUnionLike, isCompound, takesNull]
  have hresult : t.endsInResult = false := by
    cases t <;> simp_all [isCompound, endsInResult]
  have hlast : (unionParts t).getLast? = some t := by
    cases t <;> first | rfl | cases hlike
  rw [endsOpen_nullable hlike hlast, hresult, Bool.not_false, Bool.and_true]

theorem endsOpen_intersection (hu : u.isIntersection = false) (hlast : us.getLast? = some u) :
    (TypeExpr.intersection us).endsOpen = (u.endsOpen && !u.isLoose) := by
  have hends : (TypeExpr.intersection us).endsOpen = us.getLast?.any isOpenCallable := by
    rw [endsOpen]
    · rfl
    · simp
  rw [hends, hlast]
  cases u with
  | intersection => cases hu
  | callable kind params result => cases result <;> simp [isOpenCallable, endsOpen, endsOpenResult,
      isLoose, endsInResult]
  | _ => simp [isOpenCallable, endsOpen, isLoose, endsInResult, lastPart, withoutNull, unionParts,
      intersectionParts]

end

/-! ### First tokens -/

/-- The tokens start with a type that is no conditional, whatever stands behind them. -/
inductive Starts : List Token → Prop
  | name {a : Token} {us : List Token} (ha : a.kind = .identifier)
      (hus : goesOn (kindAt us)) : Starts (a :: us)
  | number {n : Int} {ts us : List Token} (h : IsNumber n ts) (hus : goesOn (kindAt us)) :
      Starts (ts ++ us)
  | string {a : Token} {us : List Token} (ha : a.kind = .string) (hus : goesOn (kindAt us)) :
      Starts (a :: us)
  | sign {a : Token} {us : List Token} (ha : a.kind = .leftParen ∨ a.kind = .question) :
      Starts (a :: us)

section
variable {ts us z : List Token}

theorem goesOn_append (hus : goesOn (kindAt us)) (hz : goesOn (kindAt z)) :
    goesOn (kindAt (us ++ z)) := by
  cases us with
  | nil => exact hz
  | cons u us => exact hus

theorem Starts.append (h : Starts ts) (hz : goesOn (kindAt z)) : Starts (ts ++ z) := by
  cases h with
  | name ha hus => exact .name ha (goesOn_append hus hz)
  | number h hus =>
    rw [append_assoc]
    exact .number h (goesOn_append hus hz)
  | string ha hus => exact .string ha (goesOn_append hus hz)
  | sign ha => exact .sign ha

theorem Starts.opening (h : Starts ts) : Opening ts := by
  cases h with
  | name ha hus | string ha hus => simpa [Opening, ha] using hus
  | number h hus => exact h.opening hus
  | sign ha => rcases ha with ha | ha <;> simp [Opening, ha]

theorem Starts.startsType (h : Starts ts) (z : List Token) : startsType (kindAt (ts ++ z)) := by
  obtain ⟨a, us, rfl⟩ : ∃ a us, ts = a :: us := by
    cases ts with
    | nil => exact h.opening.elim
    | cons a us => exact ⟨a, us, rfl⟩
  exact h.opening.startsType

theorem startsTest_eq_false {a : Token} {s : List Token} (hs : kindAt s ≠ some .identifier) :
    startsTest (a :: s) = false := by
  cases s with
  | nil => rfl
  | cons b s =>
    rw [kindAt_cons_ne] at hs
    simp [startsTest, isTest, isWord, hs]

theorem kindAt_append_ne (hus : kindAt us ≠ some kind) (hz : kindAt z ≠ some kind) :
    kindAt (us ++ z) ≠ some kind := by
  cases us with
  | nil => exact hz
  | cons u us => exact hus

theorem ne_identifier_of_goesOn (h : goesOn (kindAt us)) : kindAt us ≠ some .identifier := by
  intro hkind
  rw [hkind] at h
  cases h

theorem Starts.startsTest (h : Starts ts) (hz : kindAt z ≠ some .identifier) :
    startsTest (ts ++ z) = false := by
  cases h with
  | name ha hus | string ha hus =>
    exact startsTest_eq_false (kindAt_append_ne (ne_identifier_of_goesOn hus) hz)
  | number h hus =>
    have hbehind := kindAt_append_ne (ne_identifier_of_goesOn hus) hz
    rcases h with ⟨t, rfl, ht, -⟩ | ⟨t, u, m, rfl, ht, hu, -⟩
    · exact startsTest_eq_false hbehind
    · exact startsTest_eq_false (by simp [kindAt_cons, hu])
  | @sign a us ha =>
    cases hs : us ++ z with
    | nil => rw [cons_append, hs]; rfl
    | cons b s =>
      rw [cons_append, hs]
      rcases ha with ha | ha <;> simp [Reading.startsTest, isTest, ha]

end

/-- **The first tokens of a written type.** -/
structure Headed (t : TypeExpr) (ts : List Token) : Prop where
  starts : t.startsThis = false → Starts ts
  this : t.startsThis → ∃ a us, ts = a :: us ∧ a.kind = .variable ∧ goesOn (kindAt us)
  word : ts.head?.any (isWord · "not") = t.startsNot

section
variable {t u : TypeExpr} {ts z : List Token}

theorem Headed.exists_cons (h : Headed t ts) : ∃ a us, ts = a :: us := by
  cases hthis : t.startsThis with
  | false =>
    cases ts with
    | nil => exact (h.starts hthis).opening.elim
    | cons a us => exact ⟨a, us, rfl⟩
  | true =>
    obtain ⟨a, us, rfl, -⟩ := h.this hthis
    exact ⟨a, us, rfl⟩

theorem Headed.append (h : Headed t ts) (hfirst : u.firstPart = t.firstPart)
    (hz : goesOn (kindAt z)) : Headed u (ts ++ z) := by
  have hthis : u.startsThis = t.startsThis := by rw [startsThis, hfirst, startsThis]
  have hnot : u.startsNot = t.startsNot := by rw [startsNot, hfirst, startsNot]
  refine ⟨fun hu => (h.starts (hthis ▸ hu)).append hz, fun hu => ?_, ?_⟩
  · obtain ⟨a, us, rfl, ha, hus⟩ := h.this (hthis ▸ hu)
    exact ⟨a, us ++ z, rfl, ha, goesOn_append hus hz⟩
  · rw [hnot, ← h.word]
    obtain ⟨a, us, rfl⟩ := h.exists_cons
    rfl

theorem Headed.startsTest (h : Headed t ts) (hz : kindAt z ≠ some .identifier) :
    startsTest (ts ++ z) = false := by
  cases hthis : t.startsThis with
  | false => exact (h.starts hthis).startsTest hz
  | true =>
    obtain ⟨a, us, rfl, -, hus⟩ := h.this hthis
    exact startsTest_eq_false (kindAt_append_ne (ne_identifier_of_goesOn hus) hz)

theorem Headed.shapeKey? (h : Headed t ts) (hz : goesOn (kindAt z)) :
    shapeKey? (ts ++ z) = .ok none := by
  cases hthis : t.startsThis with
  | false => exact ((h.starts hthis).append hz).opening.shapeKey?
  | true =>
    obtain ⟨⟨kind, value, position⟩, us, rfl, ha, -⟩ := h.this hthis
    obtain rfl : kind = .variable := ha
    rfl

theorem Headed.kindAt_ne (h : Headed t ts)
    (hkind : kind ∈ [.greater, .rightParen, .rightBrace, .ellipsis]) (z : List Token) :
    kindAt (ts ++ z) ≠ some kind := by
  cases hthis : t.startsThis with
  | false =>
    intro hs
    have hstarts := (h.starts hthis).startsType z
    rw [hs] at hstarts
    simp only [mem_cons, not_mem_nil, or_false] at hkind
    rcases hkind with rfl | rfl | rfl | rfl <;> cases hstarts
  | true =>
    obtain ⟨a, us, rfl, ha, -⟩ := h.this hthis
    rw [cons_append, kindAt_cons, ha]
    rintro ⟨⟩
    simp at hkind

end

/-! ### The first tokens of a text -/

theorem lower_backslash_ne (name : String) : Text.lower ("\\" ++ name) ≠ "not" := by
  obtain ⟨cs, hcs⟩ := Text.toList_lower_backslash name
  intro h
  rw [h] at hcs
  cases hcs

theorem lower_classText (name : String) :
    (Text.lower (classText name) == "not") = (Text.lower name == "not") := by
  unfold classText
  split
  · next h =>
    rw [beq_eq_false_iff_ne.mpr (lower_backslash_ne name)]
    symm
    rw [beq_eq_false_iff_ne]
    intro hnot
    rw [Keyword.isReserved, hnot] at h
    exact absurd h (by decide)
  · rfl

section
variable {α : Type} {M : α → List Token → Prop} {as : List α} {us : List Token}

theorem Joined.exists_first (h : Joined kind M as us) :
    ∃ a others ts rest, as = a :: others ∧ us = ts ++ rest ∧ M a ts ∧
      (rest = [] ∨ kindAt rest = some kind) := by
  cases h with
  | one h => exact ⟨_, [], us, [], rfl, by rw [append_nil], h, Or.inl rfl⟩
  | more h hsep hrest => exact ⟨_, _, _, _, rfl, rfl, h, Or.inr (by rw [kindAt_cons, hsep])⟩

theorem Joined.exists_last (h : Joined kind M as us) : ∃ a, as.getLast? = some a := by
  cases h <;> exact ⟨_, getLast?_eq_some_getLast (cons_ne_nil _ _)⟩

end

section
variable {P : TypeExpr → List Token → Prop} {t u : TypeExpr} {a : Token} {ts : List Token}

theorem headed_name (ha : a.kind = .identifier) (hts : goesOn (kindAt ts))
    (hthis : t.startsThis = false) (hword : (Text.lower a.value == "not") = t.startsNot) :
    Headed t (a :: ts) := by
  refine ⟨fun _ => .name ha hts, fun h => ?_, ?_⟩
  · rw [h] at hthis
    cases hthis
  · simp [isWord, ha, hword]

theorem headed_sign (ha : a.kind = .leftParen ∨ a.kind = .question)
    (hthis : t.startsThis = false) (hnot : t.startsNot = false) : Headed t (a :: ts) := by
  refine ⟨fun _ => .sign ha, fun h => ?_, ?_⟩
  · rw [h] at hthis
    cases hthis
  · rcases ha with ha | ha <;> simp [isWord, ha, hnot]

theorem headed_joined {wanted : TypeExpr → Bool} {ts : List TypeExpr} {us : List Token}
    (hP : ∀ u vs, P u vs → Headed u vs) (hkind : kind = .pipe ∨ kind = .ampersand)
    (h : Joined kind (fun u => Enclosed (wanted u) (P u)) ts us)
    (hfirst : ∀ u ∈ ts.head?, wanted u = false → t.firstPart = u.firstPart)
    (henclosed : ∀ u ∈ ts.head?, wanted u → t.startsThis = false ∧ t.startsNot = false) :
    Headed t us := by
  obtain ⟨u, others, vs, rest, rfl, rfl, hu, hrest⟩ := h.exists_first
  cases hu with
  | plain hwanted hu =>
    refine (hP u vs hu).append (hfirst u rfl hwanted) ?_
    rcases hrest with rfl | hrest
    · rfl
    · rw [hrest]
      rcases hkind with rfl | rfl <;> rfl
  | paren hwanted ha hu hb =>
    obtain ⟨hthis, hnot⟩ := henclosed u rfl hwanted
    exact headed_sign (Or.inl ha) hthis hnot

end

end StubCatalog.TypeExpr
