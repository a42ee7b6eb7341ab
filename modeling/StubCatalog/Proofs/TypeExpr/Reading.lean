import StubCatalog.Proofs.TypeExpr.Lexing
import StubCatalog.TypeExpr.Parser

/-! # Steps of reading

What the functions that read the small parts of a type do, said as *this attempt yields that value
and leaves those tokens* (`Yields`). -/

namespace StubCatalog.TypeExpr

/-- The attempt succeeds with the value and leaves `rest`. -/
def Yields {α : Type} {n : Nat} (attempt : Attempt (Parsed n α)) (value : α) (rest : List Token) :
    Prop :=
  ∃ h, attempt = .ok ⟨value, rest, h⟩

theorem Yields.ok {α : Type} {n : Nat} {value : α} {rest : List Token} (h : rest.length < n) :
    Yields (.ok ⟨value, rest, h⟩) value rest := ⟨h, rfl⟩

theorem Yields.bind {α β : Type} {n m : Nat} {attempt : Attempt (Parsed n α)}
    {f : Parsed n α → Attempt (Parsed m β)} {a : α} {b : β} {s rest : List Token}
    (h : Yields attempt a s) (hf : ∀ hlt, Yields (f ⟨a, s, hlt⟩) b rest) :
    Yields (attempt >>= f) b rest := by
  obtain ⟨hlt, rfl⟩ := h
  exact hf hlt

namespace Reading

variable {r : Reading} {s s1 s2 : List Token} {t u : Token} {kind : TokenKind} {v : TypeExpr}

/-! ### Single tokens -/

theorem yields_expect (h : t.kind = kind) : Yields (r.expect kind (t :: s)) () s :=
  ⟨by simp, by rw [expect, if_pos h]⟩

theorem kindAt_nil (kind : TokenKind) : kindAt [] ≠ some kind := (Option.some_ne_none kind).symm

theorem kindAt_cons (t : Token) (s : List Token) : kindAt (t :: s) = some t.kind := rfl

theorem kindAt_cons_ne {t : Token} : kindAt (t :: s) ≠ some kind ↔ t.kind ≠ kind := by
  rw [kindAt_cons, ne_eq, Option.some.injEq]

theorem take?_of_ne (h : kindAt s ≠ some kind) : take? kind s = none := by
  cases s with
  | nil => rfl
  | cons t s =>
    rw [kindAt_cons_ne] at h
    rw [take?, if_neg h]

theorem keyEnd?_of_ne (hcolon : kindAt s ≠ some .colon) (hquestion : kindAt s ≠ some .question) :
    keyEnd? s = none := by
  cases s with
  | nil => rfl
  | cons t s =>
    rw [kindAt_cons_ne] at hcolon hquestion
    simp only [keyEnd?, if_neg hcolon]
    cases s <;> simp [hquestion]

theorem arrayMarks_of_ne (h : kindAt s ≠ some .leftBracket) :
    ∃ hlt, arrayMarks v s = ⟨v, s, hlt⟩ := by
  refine ⟨by simp, ?_⟩
  match s, h with
  | [], _ => rw [arrayMarks]; simp
  | [a], _ => rw [arrayMarks]; simp
  | a :: b :: rest, h =>
    rw [kindAt_cons_ne] at h
    rw [arrayMarks, if_neg (by simp [h])]

/-! ### Numbers and ranges -/

theorem yields_number_int {n : Int} (ht : t.kind = .int)
    (hvalue : Numeral.readLiteral t.value = .ok n) :
    Yields (r.number (t :: s)) (.int n) s := by
  refine ⟨by simp, ?_⟩
  obtain ⟨kind, value, position⟩ := t
  obtain rfl : kind = .int := ht
  simp [number, accept, hvalue]

theorem yields_number_minus {n : Int} (ht : t.kind = .minus) (hu : u.kind = .int)
    (hvalue : Numeral.readLiteral u.value = .ok n) :
    Yields (r.number (t :: u :: s)) (.int (-n)) s := by
  refine ⟨by simp only [List.length_cons]; omega, ?_⟩
  obtain ⟨kind, value, position⟩ := t
  obtain rfl : kind = .minus := ht
  simp [number, accept, hu, hvalue]

theorem yields_intBound_word (h : isWord t "min" ∨ isWord t "max") :
    Yields (r.intBound (t :: s)) none s := by
  refine ⟨by simp, ?_⟩
  rw [intBound, if_pos (by simpa using h)]

theorem yields_intBound_number {n : Int} (ht : t.kind ≠ .identifier)
    (hvalue : Yields (r.number (t :: s)) (.int n) s1) :
    Yields (r.intBound (t :: s)) (some n) s1 := by
  obtain ⟨hlt, hvalue⟩ := hvalue
  refine ⟨hlt, ?_⟩
  rw [intBound, if_neg (by simp [isWord, ht]), hvalue]

theorem yields_intRange {low high : Option Int} {s4 : List Token} {a b c : Token}
    (ha : a.kind = .less) (hlow : Yields (r.intBound s1) low (b :: s2)) (hb : b.kind = .comma)
    (hhigh : Yields (r.intBound s2) high (c :: s4)) (hc : c.kind = .greater) :
    Yields (r.intRange (a :: s1)) (.intRange (.ofInt? low) (.ofInt? high)) s4 := by
  rw [intRange]
  exact .bind (yields_expect ha) fun _ => .bind hlow fun _ => .bind (yields_expect hb) fun _ =>
    .bind hhigh fun _ => .bind (yields_expect hc) fun _ => .ok _

/-! ### Where a written type starts -/

/-- Behind a word or a value that starts a type stands neither another name nor the end of a field's
key. -/
def goesOn (kind : Option TokenKind) : Bool :=
  match kind with
  | some .identifier | some .colon | some .question => false
  | _ => true

/-- The tokens start with a type that is no conditional, and no key of a field stands in front. -/
def Opening : List Token → Prop
  | [] => False
  | t :: rest =>
    match t.kind with
    | .identifier | .int | .string => goesOn (kindAt rest)
    | .minus => goesOn (kindAt rest.tail)
    | .leftParen | .question => True
    | _ => False

theorem Opening.startsType (h : Opening s) : startsType (kindAt s) := by
  match s, h with
  | t :: s, h =>
    obtain ⟨kind, value, position⟩ := t
    cases kind with
    | identifier | int | string | minus | leftParen | question => rfl
    | _ => exact absurd h (by simp [Opening])

theorem keyEnd?_of_goesOn (h : goesOn (kindAt s)) : keyEnd? s = none := by
  refine keyEnd?_of_ne ?_ ?_ <;> intro hkind <;> rw [hkind] at h <;> cases h

theorem Opening.shapeKey? (h : Opening s) : shapeKey? s = .ok none := by
  match s, h with
  | ⟨kind, value, position⟩ :: s, h =>
    cases kind with
    | identifier => simp only [Reading.shapeKey?, keyEnd?_of_goesOn h]
    | int => simp only [Reading.shapeKey?, keyEnd?_of_goesOn h]
    | string => simp only [Reading.shapeKey?, keyEnd?_of_goesOn h]
    | minus =>
      cases s with
      | nil => rfl
      | cons u s => simp [Reading.shapeKey?, keyEnd?_of_goesOn (s := s) h]
    | leftParen => rfl
    | question => rfl
    | _ => exact absurd h (by simp [Opening])

/-- The tokens of the marks behind a parameter's type. -/
def markTokens (byReference variadic optional : Bool) (a b c : Token) : List Token :=
  (if byReference then [a] else []) ++ (if variadic then [b] else []) ++
    (if optional then [c] else [])

section Callable
variable {a b c : Token} {byReference variadic optional : Bool}
  {p : CallableParameter TypeExpr} {ps : List (CallableParameter TypeExpr)}

theorem parameterMarks_eq (ha : a.kind = .ampersand) (hb : b.kind = .ellipsis)
    (hc : c.kind = .equals)
    (ht : t.kind = .comma ∨ t.kind = .rightParen) :
    ∃ hlt, parameterMarks v false (markTokens byReference variadic optional a b c ++ t :: s) =
      ⟨⟨v, optional, variadic, byReference⟩, t :: s, hlt⟩ := by
  refine ⟨by simp only [List.length_append, List.length_cons]; omega, ?_⟩
  obtain ⟨kind, value, position⟩ := a
  obtain rfl : kind = .ampersand := ha
  obtain ⟨kind, value, position⟩ := b
  obtain rfl : kind = .ellipsis := hb
  obtain ⟨kind, value, position⟩ := c
  obtain rfl : kind = .equals := hc
  obtain ⟨kind, value, position⟩ := t
  rcases ht with ht | ht
  · obtain rfl : kind = .comma := ht
    cases byReference <;> cases variadic <;> cases optional <;> rfl
  · obtain rfl : kind = .rightParen := ht
    cases byReference <;> cases variadic <;> cases optional <;> rfl

end Callable

end Reading

end StubCatalog.TypeExpr
