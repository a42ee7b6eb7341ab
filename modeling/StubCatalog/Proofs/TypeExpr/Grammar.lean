import StubCatalog.Proofs.TypeExpr.Pieces

/-! # The grammar of type expressions

The grammar as a relation: `Derives r phrase s rest` says that the tokens `s` start with the phrase,
a part of the grammar with its value, and that `rest` stands behind it. The parts without types
inside are taken over from the functions that read them. -/

namespace StubCatalog.TypeExpr

open List

/-- A part of the grammar with its value. -/
inductive Phrase where
  | type (t : TypeExpr)
  | union (t : TypeExpr)
  | intersection (t : TypeExpr)
  | items (sep : Reading.Separator) (ts : List TypeExpr)
  | further (sep : Reading.Separator) (ts : List TypeExpr)
  | part (t : TypeExpr)
  | single (t : TypeExpr)
  | named (name : String) (t : TypeExpr)
  | arguments (ts : List TypeExpr)
  | body (kind : String) (acc : List (ShapeField TypeExpr)) (t : TypeExpr)
  | field (f : ShapeField TypeExpr)
  | tail (types : Option TypeExpr × Option TypeExpr)
  | parameters (ps : List (CallableParameter TypeExpr))
  | parameter (p : CallableParameter TypeExpr)

namespace Reading

/-- The function that reads such a part yields the phrase's value and leaves `rest`. -/
def Reads (r : Reading) : Phrase → List Token → List Token → Prop
  | .type t, s, rest => Yields (r.type s) t rest
  | .union t, s, rest => Yields (r.union s) t rest
  | .intersection t, s, rest => Yields (r.intersection s) t rest
  | .items sep ts, s, rest => Yields (r.items sep s) ts rest
  | .further sep ts, s, rest => Yields (r.further sep s) ts rest
  | .part t, s, rest => Yields (r.nullablePart s) t rest
  | .single t, s, rest => Yields (r.single s) t rest
  | .named name t, s, rest => Yields (r.nameType name s) t rest
  | .arguments ts, s, rest => Yields (r.arguments s) ts rest
  | .body kind acc t, s, rest => Yields (r.shapeBody kind acc s) t rest
  | .field f, s, rest => Yields (r.shapeField s) f rest
  | .tail types, s, rest => Yields (r.shapeTail s) types rest
  | .parameters ps, s, rest => Yields (r.parameters s) ps rest
  | .parameter p, s, rest => Yields (r.parameter s) p rest

/-- A type next to the sign. -/
def Separator.item : Separator → TypeExpr → Phrase
  | .pipe => .intersection
  | .ampersand => .part
  | .comma => .type

/-- Two tokens start a conditional: its subject and the word behind it. -/
def isTest (first second : Token) : Bool :=
  isWord second "is" && (first.kind = .variable ||
    (first.kind = .identifier && !first.value.toList.contains '\\'))

/-- The tokens start with a conditional. -/
def startsTest : List Token → Bool
  | first :: second :: _ => isTest first second
  | _ => false

/-- The sign behind a name opens something that belongs to the name. -/
def opens (r : Reading) (name : String) : Option TokenKind → Bool
  | some .doubleColon => true
  | some .leftParen => (Keyword.callables.lookup (Text.lower name)).isSome
  | some .leftBrace => Keyword.shapes.contains (Text.lower name)
  | some .less =>
    Text.lower name == "int" || Keyword.generics.contains (builtin name) ||
      !(Keyword.builtins.contains (builtin name) || (r.template? name).isSome)
  | _ => false

/-- The name of a type with arguments. -/
def genericName (r : Reading) (name : String) : String :=
  if Keyword.generics.contains (builtin name) then builtin name else r.scope.resolveClass name

/-- A number starts with a token of such a sort. -/
def startsNumber (kind : TokenKind) : Bool :=
  kind = .int || kind = .float || kind = .minus || kind = .plus

/-- The marks of a parameter without a type start with a token of such a sort. -/
def startsMarks (kind : TokenKind) : Bool :=
  kind = .ampersand || kind = .ellipsis || kind = .variable

/-- **The grammar.** -/
inductive Derives (r : Reading) : Phrase → List Token → List Token → Prop
  | conditional {first second q c : Token} {s s1 s2 s3 s4 : List Token} {negated : Bool}
      {target whenTrue whenFalse : TypeExpr} (htest : isTest first second)
      (hnegated : (acceptWord "not" s).value = negated) (hs1 : (acceptWord "not" s).rest = s1)
      (htarget : Derives r (.union target) s1 (q :: s2)) (hq : q.kind = .question)
      (htrue : Derives r (.type whenTrue) s2 (c :: s3)) (hc : c.kind = .colon)
      (hfalse : Derives r (.type whenFalse) s3 s4) :
      Derives r (.type (.conditional first.value target whenTrue whenFalse negated))
        (first :: second :: s) s4
  | plain {s s1 : List Token} {v : TypeExpr} (htest : startsTest s = false)
      (hunion : Derives r (.union v) s s1) : Derives r (.type v) s s1
  | union {s s1 : List Token} {vs : List TypeExpr} (hitems : Derives r (.items .pipe vs) s s1) :
      Derives r (.union (combined unionOf vs)) s s1
  | intersection {s s1 : List Token} {vs : List TypeExpr}
      (hitems : Derives r (.items .ampersand vs) s s1) :
      Derives r (.intersection (combined intersectionOf vs)) s s1
  | items (sep : Separator) {s s1 s2 : List Token} {v : TypeExpr} {vs : List TypeExpr}
      (hfirst : Derives r (sep.item v) s s1) (hrest : Derives r (.further sep vs) s1 s2) :
      Derives r (.items sep (v :: vs)) s s2
  | last {sep : Separator} {s : List Token}
      (h : kindAt s = some sep.kind → sep.goesOn (kindAt s.tail) = false) :
      Derives r (.further sep []) s s
  | more {sep : Separator} {t : Token} {s s1 s2 : List Token} {v : TypeExpr}
      {vs : List TypeExpr} (ht : t.kind = sep.kind) (hs : sep.goesOn (kindAt s))
      (hnext : Derives r (sep.item v) s s1) (hrest : Derives r (.further sep vs) s1 s2) :
      Derives r (.further sep (v :: vs)) (t :: s) s2
  | question {t : Token} {s s1 : List Token} {v : TypeExpr} (ht : t.kind = .question)
      (hinner : Derives r (.part v) s s1) : Derives r (.part (nullableOf v)) (t :: s) s1
  | part {s s1 s2 : List Token} {v w : TypeExpr} (hs : kindAt s ≠ some .question)
      (hsingle : Derives r (.single v) s s1) (hw : (arrayMarks v s1).value = w)
      (hs2 : (arrayMarks v s1).rest = s2) : Derives r (.part w) s s2
  | paren {t u : Token} {s s1 : List Token} {v : TypeExpr} (ht : t.kind = .leftParen)
      (hinner : Derives r (.type v) s (u :: s1)) (hu : u.kind = .rightParen) :
      Derives r (.single v) (t :: s) s1
  | this {t : Token} {s : List Token} (ht : t.kind = .variable) (hvalue : t.value = "$this") :
      Derives r (.single (.keyword "$this")) (t :: s) s
  | number {t : Token} {s s1 : List Token} {value : LiteralValue}
      (ht : startsNumber t.kind) (hvalue : Yields (r.number (t :: s)) value s1) :
      Derives r (.single (.literal value)) (t :: s) s1
  | string {t : Token} {s : List Token} (ht : t.kind = .string) :
      Derives r (.single (.literal (.str (unquote t.value)))) (t :: s) s
  | name {t : Token} {s s1 : List Token} {v : TypeExpr} (ht : t.kind = .identifier)
      (hname : Derives r (.named t.value v) s s1) : Derives r (.single v) (t :: s) s1
  | alone {name : String} {s : List Token} (h : r.opens name (kindAt s) = false) :
      Derives r (.named name (r.nameAlone name)) s s
  | member {name : String} {t : Token} {s s1 : List Token} {v : TypeExpr}
      (ht : t.kind = .doubleColon) (hmember : Yields (r.memberReference name t s) v s1) :
      Derives r (.named name v) (t :: s) s1
  | callable {name kind : String} {t u : Token} {s s1 : List Token}
      {params : List (CallableParameter TypeExpr)}
      (hkind : Keyword.callables.lookup (Text.lower name) = some kind) (ht : t.kind = .leftParen)
      (hparams : Derives r (.parameters params) s (u :: s1)) (hu : u.kind = .rightParen)
      (hbehind : kindAt s1 ≠ some .colon) :
      Derives r (.named name (.callable kind params none)) (t :: s) s1
  | callableResult {name kind : String} {t u c : Token} {s s1 s2 : List Token}
      {params : List (CallableParameter TypeExpr)} {v : TypeExpr}
      (hkind : Keyword.callables.lookup (Text.lower name) = some kind) (ht : t.kind = .leftParen)
      (hparams : Derives r (.parameters params) s (u :: c :: s1)) (hu : u.kind = .rightParen)
      (hc : c.kind = .colon) (hresult : Derives r (.union v) s1 s2) :
      Derives r (.named name (.callable kind params (some v))) (t :: s) s2
  | shape {name : String} {t : Token} {s s1 : List Token} {v : TypeExpr}
      (hshape : Keyword.shapes.contains (Text.lower name)) (ht : t.kind = .leftBrace)
      (hbody : Derives r (.body (Text.lower name) [] v) s s1) :
      Derives r (.named name v) (t :: s) s1
  | range {name : String} {t : Token} {s s1 : List Token} {v : TypeExpr}
      (hname : Text.lower name = "int") (ht : t.kind = .less)
      (hrange : Yields (r.intRange (t :: s)) v s1) : Derives r (.named name v) (t :: s) s1
  | generic {name : String} {t : Token} {s s1 : List Token} {vs : List TypeExpr}
      (hname : Text.lower name ≠ "int") (hopens : r.opens name (some .less))
      (ht : t.kind = .less) (hargs : Derives r (.arguments vs) s s1) :
      Derives r (.named name (.generic (r.genericName name) vs)) (t :: s) s1
  | arguments {t : Token} {s s1 s2 : List Token} {vs : List TypeExpr}
      (hitems : Derives r (.items .comma vs) s s1) (hs2 : (accept .comma s1).rest = t :: s2)
      (ht : t.kind = .greater) : Derives r (.arguments vs) s s2
  | bodyEnd {kind : String} {acc : List (ShapeField TypeExpr)} {t : Token} {s : List Token}
      (ht : t.kind = .rightBrace) :
      Derives r (.body kind acc (.shape kind acc.reverse true none none)) (t :: s) s
  | bodyTail {kind : String} {acc : List (ShapeField TypeExpr)} {t u : Token}
      {s s1 s2 : List Token} {key value : Option TypeExpr} (ht : t.kind = .ellipsis)
      (htail : Derives r (.tail (key, value)) s s1) (hs2 : (accept .comma s1).rest = u :: s2)
      (hu : u.kind = .rightBrace) :
      Derives r (.body kind acc (.shape kind acc.reverse false key value)) (t :: s) s2
  | bodyMore {kind : String} {acc : List (ShapeField TypeExpr)} {t : Token} {s s1 s2 : List Token}
      {f : ShapeField TypeExpr} {v : TypeExpr} (hbrace : kindAt s ≠ some .rightBrace)
      (hdots : kindAt s ≠ some .ellipsis) (hfield : Derives r (.field f) s (t :: s1))
      (ht : t.kind = .comma) (hrest : Derives r (.body kind (f :: acc) v) s1 s2) :
      Derives r (.body kind acc v) s s2
  | bodyLast {kind : String} {acc : List (ShapeField TypeExpr)} {t : Token} {s s1 : List Token}
      {f : ShapeField TypeExpr} (hbrace : kindAt s ≠ some .rightBrace)
      (hdots : kindAt s ≠ some .ellipsis) (hfield : Derives r (.field f) s (t :: s1))
      (ht : t.kind = .rightBrace) :
      Derives r (.body kind acc (.shape kind (f :: acc).reverse true none none)) s s1
  | keyed {s s1 s2 : List Token} {k : ShapeKey} {optional : Bool} {v : TypeExpr}
      {hlt : s1.length < s.length} (hkey : shapeKey? s = .ok (some ⟨(k, optional), s1, hlt⟩))
      (hvalue : Derives r (.type v) s1 s2) : Derives r (.field ⟨some k, v, optional⟩) s s2
  | positional {s s1 : List Token} {v : TypeExpr} (hkey : shapeKey? s = .ok none)
      (hvalue : Derives r (.type v) s s1) : Derives r (.field ⟨none, v, false⟩) s s1
  | tailEnd {s : List Token} (h : kindAt s ≠ some .less) : Derives r (.tail (none, none)) s s
  | tail {t : Token} {s s1 : List Token} {vs : List TypeExpr} {key value : Option TypeExpr}
      (ht : t.kind = .less) (hargs : Derives r (.arguments vs) s s1)
      (htail : tailTypes? vs = some (key, value)) : Derives r (.tail (key, value)) (t :: s) s1
  | parametersEnd {t : Token} {s : List Token} (ht : t.kind = .rightParen) :
      Derives r (.parameters []) (t :: s) (t :: s)
  | parametersMore {t : Token} {s s1 s2 : List Token} {p : CallableParameter TypeExpr}
      {ps : List (CallableParameter TypeExpr)} (hs : kindAt s ≠ some .rightParen)
      (hparam : Derives r (.parameter p) s (t :: s1)) (ht : t.kind = .comma)
      (hrest : Derives r (.parameters ps) s1 s2) : Derives r (.parameters (p :: ps)) s s2
  | parametersLast {s s1 : List Token} {p : CallableParameter TypeExpr} (hne : s ≠ [])
      (hs : kindAt s ≠ some .rightParen) (hparam : Derives r (.parameter p) s s1)
      (hs1 : kindAt s1 ≠ some .comma) : Derives r (.parameters [p]) s s1
  | dots {t : Token} {s s1 s2 : List Token} {v : TypeExpr} {p : CallableParameter TypeExpr}
      (ht : t.kind = .ellipsis) (hs : startsType (kindAt s))
      (htype : Derives r (.type v) s s1) (hp : (parameterMarks v true s1).value = p)
      (hs2 : (parameterMarks v true s1).rest = s2) : Derives r (.parameter p) (t :: s) s2
  | marks {t : Token} {s s1 : List Token} {p : CallableParameter TypeExpr} (ht : startsMarks t.kind)
      (hs : t.kind = .ellipsis → startsType (kindAt s) = false)
      (hp : (parameterMarks mixed false (t :: s)).value = p)
      (hs1 : (parameterMarks mixed false (t :: s)).rest = s1) : Derives r (.parameter p) (t :: s) s1
  | typed {t : Token} {s s1 s2 : List Token} {v : TypeExpr} {p : CallableParameter TypeExpr}
      (ht : startsMarks t.kind = false) (htype : Derives r (.type v) (t :: s) s1)
      (hp : (parameterMarks v false s1).value = p)
      (hs2 : (parameterMarks v false s1).rest = s2) : Derives r (.parameter p) (t :: s) s2

/-! ### What is derived is read -/

section
variable {r : Reading} {s s1 : List Token}

theorem yields_type_plain {v : TypeExpr} (htest : startsTest s = false)
    (h : Yields (r.union s) v s1) : Yields (r.type s) v s1 := by
  obtain ⟨hlt, h⟩ := h
  refine ⟨hlt, ?_⟩
  match s, htest with
  | [], _ | [_], _ =>
    rw [type]
    · exact h
    · simp
  | first :: second :: rest, htest =>
    have htest : isTest first second = false := htest
    rw [type]
    exact (if_neg (by rw [isTest] at htest; rw [htest]; exact Bool.false_ne_true)).trans h

theorem yields_item {sep : Separator} {v : TypeExpr} (h : r.Reads (sep.item v) s s1) :
    Yields (r.item sep s) v s1 := by
  cases sep <;> rw [Reading.item] <;> exact h

theorem yields_nameType_closed {name : String} (h : r.opens name (kindAt s) = false) :
    Yields (r.nameType name s) (r.nameAlone name) s := by
  refine ⟨by simp, ?_⟩
  cases s with
  | nil => rw [nameType]
  | cons t s =>
    obtain ⟨kind, value, position⟩ := t
    rw [kindAt_cons] at h
    rw [nameType]
    cases kind with
    | doubleColon => cases h
    | leftParen =>
      have hnone : Keyword.callables.lookup (Text.lower name) = none := by simpa [opens] using h
      simp only [hnone]
    | leftBrace =>
      have hnone : Keyword.shapes.contains (Text.lower name) = false := h
      simp only [hnone, Bool.false_eq_true, if_false]
    | less =>
      simp only [opens, Bool.or_eq_false_iff, Bool.not_eq_false'] at h
      obtain ⟨⟨hint, hgeneric⟩, hother⟩ := h
      simp only [hint, hgeneric, hother, Bool.false_eq_true, if_false, if_true]
    | _ => rfl

end

/-- **Whatever the grammar derives is read.** -/
theorem Derives.read {r : Reading} {phrase : Phrase} {s rest : List Token}
    (h : r.Derives phrase s rest) : r.Reads phrase s rest := by
  induction h with
  | conditional htest hnegated hs1 _ hq _ hc _ htarget htrue hfalse =>
    subst hnegated hs1
    rw [Reads, type, if_pos (by exact htest)]
    exact .bind htarget fun _ => .bind (yields_expect hq) fun _ => .bind htrue fun _ =>
      .bind (yields_expect hc) fun _ => .bind hfalse fun _ => .ok _
  | plain htest _ hunion => exact yields_type_plain htest hunion
  | union _ hitems =>
    rw [Reads, Reading.union]
    exact .bind hitems fun _ => .ok _
  | intersection _ hitems =>
    rw [Reads, Reading.intersection]
    exact .bind hitems fun _ => .ok _
  | items _ _ _ hfirst hrest =>
    rw [Reads, Reading.items]
    exact .bind (yields_item hfirst) fun _ => .bind hrest fun _ => .ok _
  | @last sep s h =>
    cases s with
    | nil =>
      rw [Reads, further]
      exact .ok _
    | cons t s =>
      have hleft : t.kind = sep.kind → sep.goesOn (kindAt s) = false := fun ht => h (ht ▸ rfl)
      rw [Reads, further, if_neg (by simpa using hleft)]
      exact .ok _
  | more ht hs _ _ hnext hrest =>
    rw [Reads, further, if_pos (by simp [ht, hs])]
    exact .bind (yields_item hnext) fun _ => .bind hrest fun _ => .ok _
  | question ht _ hinner =>
    rw [Reads, nullablePart, if_pos ht]
    exact .bind hinner fun _ => .ok _
  | @part s _ _ _ _ hs _ hw hs2 hsingle =>
    subst hw hs2
    cases s with
    | nil => exact hsingle.elim fun hlt _ => absurd hlt (Nat.not_lt_zero _)
    | cons t s =>
      rw [Reads, nullablePart, if_neg (by simpa [kindAt] using hs)]
      exact .bind hsingle fun _ => .ok _
  | paren ht _ hu hinner =>
    rw [Reads, single, ht]
    exact .bind hinner fun _ => .bind (yields_expect hu) fun _ => .ok _
  | this ht hvalue =>
    rw [Reads, single, ht, if_pos (by simp [hvalue])]
    exact .ok _
  | number ht hvalue =>
    rw [Reads, single]
    simp only [startsNumber, Bool.or_eq_true, decide_eq_true_eq] at ht
    rcases ht with ((ht | ht) | ht) | ht <;> rw [ht] <;> exact .bind hvalue fun _ => .ok _
  | string ht =>
    rw [Reads, single, ht]
    exact .ok _
  | name ht _ hname =>
    rw [Reads, single, ht]
    exact .bind hname fun _ => .ok _
  | alone h => exact yields_nameType_closed h
  | member ht hmember =>
    rw [Reads, nameType, ht]
    exact .bind hmember fun _ => .ok _
  | callable hkind ht _ hu hbehind hparams =>
    rw [Reads, nameType, ht]
    simp only [hkind]
    refine .bind hparams fun _ => .bind (yields_expect hu) fun _ => ?_
    simp only [take?_of_ne hbehind]
    exact .ok _
  | callableResult hkind ht _ hu hc _ hparams hresult =>
    rw [Reads, nameType, ht]
    simp only [hkind]
    refine .bind hparams fun _ => .bind (yields_expect hu) fun _ => ?_
    simp only [take?, if_pos hc]
    exact .bind hresult fun _ => .ok _
  | shape hshape ht _ hbody =>
    rw [Reads, nameType, ht, if_pos hshape]
    exact .bind hbody fun _ => .ok _
  | range hname ht hrange =>
    rw [Reads, nameType]
    simp only [ht, hname, beq_self_eq_true, if_true]
    exact .bind hrange fun _ => .ok _
  | @generic name _ _ _ _ hname hopens ht _ hargs =>
    simp only [opens, beq_eq_false_iff_ne.mpr hname, Bool.false_or, Bool.or_eq_true] at hopens
    rw [Reads, nameType, genericName]
    simp only [ht, beq_eq_false_iff_ne.mpr hname, Bool.false_eq_true, if_false]
    split
    · exact .bind hargs fun _ => .ok _
    · next hgeneric =>
      rw [if_neg (by simpa using hopens.resolve_left hgeneric)]
      exact .bind hargs fun _ => .ok _
  | arguments _ hs2 ht hitems =>
    rw [Reads, Reading.arguments]
    exact .bind hitems fun _ => .bind (hs2 ▸ yields_expect ht) fun _ => .ok _
  | bodyEnd ht =>
    rw [Reads, shapeBody, if_pos ht]
    exact .ok _
  | bodyTail ht _ hs2 hu htail =>
    rw [Reads, shapeBody, if_neg (by simp [ht]), if_pos ht]
    exact .bind htail fun _ => .bind (hs2 ▸ yields_expect hu) fun _ => .ok _
  | @bodyMore _ _ _ s _ _ _ _ hbrace hdots _ ht _ hfield hrest =>
    cases s with
    | nil => exact hfield.elim fun hlt _ => absurd hlt (Nat.not_lt_zero _)
    | cons a s =>
      rw [Reads, shapeBody, if_neg (by simpa [kindAt] using hbrace),
        if_neg (by simpa [kindAt] using hdots)]
      refine .bind hfield fun _ => ?_
      simp only [take?, if_pos ht]
      exact .bind hrest fun _ => .ok _
  | @bodyLast _ _ _ s _ _ hbrace hdots _ ht hfield =>
    cases s with
    | nil => exact hfield.elim fun hlt _ => absurd hlt (Nat.not_lt_zero _)
    | cons a s =>
      rw [Reads, shapeBody, if_neg (by simpa [kindAt] using hbrace),
        if_neg (by simpa [kindAt] using hdots)]
      refine .bind hfield fun _ => ?_
      simp only [take?, ht, reduceCtorEq, if_false]
      exact .bind (yields_expect ht) fun _ => .ok _
  | keyed hkey _ hvalue =>
    rw [Reads, shapeField, hkey]
    exact .bind hvalue fun _ => .ok _
  | positional hkey _ hvalue =>
    rw [Reads, shapeField, hkey]
    exact .bind hvalue fun _ => .ok _
  | @tailEnd s h =>
    cases s with
    | nil =>
      rw [Reads, shapeTail]
      exact .ok _
    | cons t s =>
      rw [Reads, shapeTail, if_neg (by simpa [kindAt] using h)]
      exact .ok _
  | tail ht _ htail hargs =>
    rw [Reads, shapeTail, if_pos ht]
    refine .bind hargs fun _ => ?_
    simp only [htail]
    exact .ok _
  | parametersEnd ht =>
    rw [Reads, parameters, if_pos ht]
    exact .ok _
  | @parametersMore _ s _ _ _ _ hs _ ht _ hparam hrest =>
    cases s with
    | nil => exact hparam.elim fun hlt _ => absurd hlt (by simp)
    | cons a s =>
      rw [Reads, parameters, if_neg (by simpa [kindAt] using hs)]
      refine .bind hparam fun _ => ?_
      simp only [take?, if_pos ht]
      exact .bind hrest fun _ => .ok _
  | @parametersLast s _ _ hne hs _ hs1 hparam =>
    cases s with
    | nil => exact absurd rfl hne
    | cons a s =>
      rw [Reads, parameters, if_neg (by simpa [kindAt] using hs)]
      refine .bind hparam fun _ => ?_
      simp only [take?_of_ne hs1]
      exact .ok _
  | dots ht hs _ hp hs2 htype =>
    subst hp hs2
    rw [Reads, parameter, if_pos (by simp [ht, hs])]
    exact .bind htype fun _ => .ok _
  | marks ht hs hp hs1 =>
    subst hp hs1
    rw [Reads, parameter, if_neg (by simpa using hs), if_pos (by exact ht)]
    exact .ok _
  | @typed t _ _ _ _ _ ht _ hp hs2 htype =>
    subst hp hs2
    have hdots : t.kind ≠ .ellipsis := by
      intro hkind
      rw [hkind] at ht
      cases ht
    rw [Reads, parameter, if_neg (by simp [hdots]), if_neg (by exact Bool.eq_false_iff.mp ht)]
    exact .bind htype fun _ => .ok _

/-! ### What is left -/

section
variable {r : Reading} {phrase : Phrase} {tokens s rest : List Token}

theorem Derives.length_le (h : r.Derives phrase s rest) : rest.length ≤ s.length := by
  have hread := h.read
  cases phrase <;> exact hread.elim fun hlt _ => by omega

theorem Derives.eq_nil (h : r.Derives phrase s rest) (hs : s = []) : rest = [] := by
  subst hs
  exact length_eq_zero_iff.mp (Nat.le_zero.mp h.length_le)

theorem Derives.ne_nil {t : TypeExpr} (h : r.Derives (.type t) s rest) : s ≠ [] := by
  rintro rfl
  obtain ⟨hlt, -⟩ := h.read
  cases hlt

/-- **Nothing but tokens of the text** is left behind a phrase. -/
theorem Derives.subset (h : r.Derives phrase s rest) : rest ⊆ s := by
  induction h with
  | @conditional _ _ _ _ s =>
    have := acceptWord_rest "not" s
    simp only [subset_def, mem_cons] at *
    grind
  | @part _ s1 _ v =>
    have := arrayMarks_subset v s1
    simp only [subset_def] at *
    grind
  | number _ hvalue => exact number_subset hvalue
  | member _ hmember => exact subset_cons_of_subset _ (memberReference_subset hmember)
  | range _ _ hrange => exact intRange_subset hrange
  | @arguments _ _ s1 | @bodyTail _ _ _ _ _ s1 =>
    have := accept_rest .comma s1
    simp only [subset_def, mem_cons] at *
    grind
  | keyed hkey _ ih => exact List.Subset.trans ih (shapeKey?_subset hkey)
  | @dots _ _ s1 _ v =>
    have := parameterMarks_subset v true s1
    simp only [subset_def, mem_cons] at *
    grind
  | @marks t s _ _ _ _ _ hs1 => exact hs1 ▸ parameterMarks_subset mixed false (t :: s)
  | @typed _ _ s1 _ v =>
    have := parameterMarks_subset v false s1
    simp only [subset_def, mem_cons] at *
    grind
  | _ =>
    simp only [subset_def, mem_cons] at *
    grind

theorem Derives.leaves (h : r.Derives phrase s rest) (hs : s ⊆ tokens) : rest ⊆ tokens :=
  List.Subset.trans h.subset hs

theorem Derives.leaves_cons {t : Token} {s1 : List Token} (h : r.Derives phrase s rest)
    (hs : s ⊆ tokens) (hrest : rest = t :: s1) : s1 ⊆ tokens :=
  subset_of_cons_subset (hrest ▸ h.leaves hs)

end

/-! ### What is read is derived -/

section
variable {r : Reading} {tokens : List Token}

/-- The attempt comes to what the grammar derives for the phrase. -/
abbrev Sound (r : Reading) (tokens : List Token) {n : Nat} {α : Type} (phrase : α → Phrase)
    (s : List Token) : Attempt (Parsed n α) → Prop :=
  Outcome tokens fun p => r.Derives (phrase p.value) s p.rest

mutual

/-- **Whatever is read, the grammar derives.** -/
theorem type_outcome (s : List Token) (hs : s ⊆ tokens) : Sound r tokens .type s (r.type s) := by
  match s, hs with
  | [], hs | [_], hs =>
    rw [type]
    · exact (union_outcome _ hs).mono fun p hp => .plain rfl hp
    · simp
  | first :: second :: s, hs =>
    rw [type]
    split
    · next htest =>
      have hs1 : (acceptWord "not" s).rest ⊆ tokens := List.Subset.trans (acceptWord_rest "not" s)
        (subset_of_cons_subset (subset_of_cons_subset hs))
      generalize hnot : acceptWord "not" s = found at hs1
      obtain ⟨negated, s1, h1⟩ := found
      refine .bind (union_outcome s1 hs1) fun ⟨target, s2, h2⟩ htarget => ?_
      refine .bind (expect_outcome _) fun ⟨_, s3, h3⟩ ⟨q, hs2, hq⟩ => ?_
      have hs3 := htarget.leaves_cons hs1 hs2
      refine .bind (type_outcome s3 hs3) fun ⟨whenTrue, s4, h4⟩ htrue => ?_
      refine .bind (expect_outcome _) fun ⟨_, s5, h5⟩ ⟨c, hs4, hc⟩ => ?_
      refine .bind (type_outcome s5 (htrue.leaves_cons hs3 hs4)) fun ⟨whenFalse, s6, h6⟩ hfalse => ?_
      simp only at hs2 hs4 htarget htrue hfalse
      subst hs2 hs4
      exact .ok (.conditional htest (by rw [hnot]) (by rw [hnot]) htarget hq htrue hc hfalse)
    · next htest =>
      exact (union_outcome _ hs).mono fun p hp => .plain (Bool.eq_false_iff.mpr htest) hp
termination_by 16 * s.length + 10

theorem union_outcome (s : List Token) (hs : s ⊆ tokens) : Sound r tokens .union s (r.union s) := by
  rw [union]
  exact .bind (items_outcome .pipe s hs) fun ⟨ts, s1, h1⟩ hitems => .ok (.union hitems)
termination_by 16 * s.length + 9
decreasing_by simp [Separator.looseness]

theorem intersection_outcome (s : List Token) (hs : s ⊆ tokens) :
    Sound r tokens .intersection s (r.intersection s) := by
  rw [intersection]
  exact .bind (items_outcome .ampersand s hs) fun ⟨ts, s1, h1⟩ hitems => .ok (.intersection hitems)
termination_by 16 * s.length + 6
decreasing_by simp [Separator.looseness]

theorem items_outcome (sep : Separator) (s : List Token) (hs : s ⊆ tokens) :
    Sound r tokens (.items sep) s (r.items sep s) := by
  rw [items]
  refine .bind (item_outcome sep s hs) fun ⟨first, s1, h1⟩ hfirst => ?_
  refine .bind (further_outcome sep s1 (hfirst.leaves hs)) fun ⟨others, s2, h2⟩ hothers => ?_
  exact .ok (.items sep hfirst hothers)
termination_by 16 * s.length + sep.looseness + 1

theorem item_outcome (sep : Separator) (s : List Token) (hs : s ⊆ tokens) :
    Sound r tokens sep.item s (r.item sep s) := by
  match sep with
  | .pipe =>
    rw [item]
    exact intersection_outcome s hs
  | .ampersand =>
    rw [item]
    exact nullablePart_outcome s hs
  | .comma =>
    rw [item]
    exact type_outcome s hs
termination_by 16 * s.length + sep.looseness
decreasing_by all_goals simp [Separator.looseness]

theorem further_outcome (sep : Separator) (s : List Token) (hs : s ⊆ tokens) :
    Sound r tokens (.further sep) s (r.further sep s) := by
  have := sep.looseness_lt
  match s, hs with
  | [], _ =>
    rw [further]
    exact .ok (.last nofun)
  | t :: s, hs =>
    have hs := subset_of_cons_subset hs
    rw [further]
    split
    · next ht =>
      simp only [Bool.and_eq_true, decide_eq_true_eq] at ht
      refine .bind (item_outcome sep s hs) fun ⟨next, s1, h1⟩ hnext => ?_
      refine .bind (further_outcome sep s1 (hnext.leaves hs)) fun ⟨others, s2, h2⟩ hothers => ?_
      exact .ok (.more ht.1 ht.2 hnext hothers)
    · next ht =>
      refine .ok (.last fun hkind => ?_)
      rw [kindAt_cons, Option.some.injEq] at hkind
      simpa [hkind] using ht
termination_by 16 * s.length

theorem nullablePart_outcome (s : List Token) (hs : s ⊆ tokens) :
    Sound r tokens .part s (r.nullablePart s) := by
  match s, hs with
  | [], _ =>
    rw [nullablePart]
    exact .fail ..
  | t :: s, hs =>
    rw [nullablePart]
    split
    · next ht =>
      refine .bind (nullablePart_outcome s (subset_of_cons_subset hs))
        fun ⟨inner, s1, h1⟩ hinner => ?_
      exact .ok (.question ht hinner)
    · next ht =>
      refine .bind (single_outcome _ hs) fun ⟨atom, s1, h1⟩ hatom => ?_
      exact .ok (.part (by simpa [kindAt] using ht) hatom rfl rfl)
termination_by 16 * s.length + 3

theorem single_outcome (s : List Token) (hs : s ⊆ tokens) :
    Sound r tokens .single s (r.single s) := by
  match s, hs with
  | [], _ =>
    rw [single]
    exact .fail ..
  | t :: s, hs =>
    have hs1 := subset_of_cons_subset hs
    have hnumber : startsNumber t.kind → Sound r tokens .single (t :: s) (do
          let ⟨value, s1, h1⟩ ← r.number (t :: s)
          .ok ⟨.literal value, s1, h1⟩ : Attempt (Parsed (t :: s).length TypeExpr)) := by
      intro ht
      refine .bind (.self fun e he => (number_lacks he).mono hs) fun ⟨value, s1, h1⟩ hvalue => ?_
      exact .ok (.number ht ⟨h1, hvalue⟩)
    rw [single]
    split
    · next ht =>
      refine .bind (type_outcome s hs1) fun ⟨inner, s1, h1⟩ hinner => ?_
      refine .bind (expect_outcome _) fun ⟨_, s2, h2⟩ ⟨u, hs1, hu⟩ => ?_
      simp only at hs1 hinner
      subst hs1
      exact .ok (.paren ht hinner hu)
    · next ht =>
      split
      · next hvalue => exact .ok (.this ht (beq_iff_eq.mp hvalue))
      · exact .fail ..
    · next ht => exact hnumber (by rw [ht]; rfl)
    · next ht => exact hnumber (by rw [ht]; rfl)
    · next ht => exact hnumber (by rw [ht]; rfl)
    · next ht => exact hnumber (by rw [ht]; rfl)
    · next ht => exact .ok (.string ht)
    · next ht =>
      refine .bind (nameType_outcome t.value s hs1) fun ⟨result, s1, h1⟩ hresult => ?_
      exact .ok (.name ht hresult)
    · exact .fail ..
termination_by 16 * s.length + 2

theorem nameType_outcome (name : String) (s : List Token) (hs : s ⊆ tokens) :
    Sound r tokens (.named name) s (r.nameType name s) := by
  match s, hs with
  | [], _ =>
    rw [nameType]
    exact .ok (.alone rfl)
  | t :: s, hs =>
    have hs1 := subset_of_cons_subset hs
    have halone : r.opens name (some t.kind) = false → Sound r tokens (.named name) (t :: s)
        (.ok ⟨r.nameAlone name, t :: s, by simp⟩ :
          Attempt (Parsed ((t :: s).length + 1) TypeExpr)) :=
      fun h => .ok (.alone h)
    rw [nameType]
    split
    · next ht =>
      refine .bind memberReference_outcome fun ⟨result, s1, h1⟩ hresult => ?_
      exact .ok (.member ht ⟨h1, hresult.1⟩)
    · next ht =>
      split
      · next kind hkind =>
        refine .bind (parameters_outcome s hs1) fun ⟨params, s1, h1⟩ hparams => ?_
        refine .bind (expect_outcome _) fun ⟨_, s2, h2⟩ ⟨u, hs1, hu⟩ => ?_
        have hs2 := hparams.leaves_cons (subset_of_cons_subset hs) hs1
        simp only at hs1 hparams ⊢
        subst hs1
        split
        · next s3 h3 htake =>
          obtain ⟨c, hs3, hc⟩ := take?_eq_some htake
          refine .bind (union_outcome s3 (List.Subset.trans (take?_rest htake) hs2))
            fun ⟨result, s4, h4⟩ hresult => ?_
          simp only at hs3
          subst hs3
          exact .ok (.callableResult hkind ht hparams hu hc hresult)
        · next htake => exact .ok (.callable hkind ht hparams hu (kindAt_ne_of_take? htake))
      · next hkind => exact halone (by rw [ht, opens, hkind]; rfl)
    · next ht =>
      split
      · next hshape =>
        refine .bind (shapeBody_outcome _ [] s hs1) fun ⟨result, s1, h1⟩ hresult => ?_
        exact .ok (.shape hshape ht hresult)
      · next hshape => exact halone (by rw [ht, opens]; exact Bool.eq_false_iff.mpr hshape)
    · next ht =>
      split
      · next hint =>
        have hrange := (intRange_outcome (r := r) hs)
        refine .bind (.self fun e he => by rw [he] at hrange; exact hrange)
          fun ⟨result, s1, h1⟩ hresult => ?_
        exact .ok (.range (beq_iff_eq.mp hint) ht ⟨h1, hresult⟩)
      · next hint =>
        have hne : Text.lower name ≠ "int" := fun h => hint (beq_iff_eq.mpr h)
        split
        · next hgeneric =>
          refine .bind (arguments_outcome s hs1) fun ⟨args, s1, h1⟩ hargs => ?_
          have hopens : r.opens name (some .less) := by rw [opens, hgeneric]; simp
          have hname : r.genericName name = builtin name := if_pos hgeneric
          exact .ok (hname ▸ .generic hne hopens ht hargs)
        · next hgeneric =>
          split
          · next hother =>
            refine halone ?_
            rw [ht, opens, Bool.eq_false_iff.mpr hint, Bool.eq_false_iff.mpr hgeneric, hother]
            rfl
          · next hother =>
            refine .bind (arguments_outcome s hs1) fun ⟨args, s1, h1⟩ hargs => ?_
            have hopens : r.opens name (some .less) := by
              rw [opens, Bool.eq_false_iff.mpr hother]
              simp
            have hname : r.genericName name = r.scope.resolveClass name := if_neg hgeneric
            exact .ok (hname ▸ .generic hne hopens ht hargs)
    · next hcolon hparen hbrace hless =>
      refine halone ?_
      unfold opens
      split
      all_goals simp_all
termination_by 16 * s.length + 1

theorem arguments_outcome (s : List Token) (hs : s ⊆ tokens) :
    Sound r tokens .arguments s (r.arguments s) := by
  rw [arguments]
  refine .bind (items_outcome .comma s hs) fun ⟨ts, s1, h1⟩ hitems => ?_
  refine .bind (expect_outcome _) fun ⟨_, s3, h3⟩ ⟨t, hs2, ht⟩ => ?_
  exact .ok (.arguments hitems hs2 ht)
termination_by 16 * s.length + 13
decreasing_by simp [Separator.looseness]

theorem shapeBody_outcome (kind : String) (acc : List (ShapeField TypeExpr)) (s : List Token)
    (hs : s ⊆ tokens) : Sound r tokens (.body kind acc) s (r.shapeBody kind acc s) := by
  match s, hs with
  | [], _ =>
    rw [shapeBody]
    exact .fail ..
  | t :: s, hs =>
    have hlength : (t :: s).length = s.length + 1 := rfl
    rw [shapeBody]
    split
    · next ht => exact .ok (.bodyEnd ht)
    · next hbrace =>
      split
      · next ht =>
        refine .bind (shapeTail_outcome s (subset_of_cons_subset hs))
          fun ⟨(key, value), s1, h1⟩ htail => ?_
        refine .bind (expect_outcome _) fun ⟨_, s3, h3⟩ ⟨u, hs2, hu⟩ => ?_
        exact .ok (.bodyTail ht htail hs2 hu)
      · next hdots =>
        have hbrace : kindAt (t :: s) ≠ some .rightBrace := by simpa [kindAt] using hbrace
        have hdots : kindAt (t :: s) ≠ some .ellipsis := by simpa [kindAt] using hdots
        refine .bind (shapeField_outcome _ hs) fun ⟨field, s1, h1⟩ hfield => ?_
        simp only at hfield ⊢
        split
        · next s2 h2 htake =>
          obtain ⟨c, hs1, hc⟩ := take?_eq_some htake
          refine .bind (shapeBody_outcome kind (field :: acc) s2 (hfield.leaves_cons hs hs1))
            fun ⟨result, s3, h3⟩ hresult => ?_
          simp only at hs1
          subst hs1
          exact .ok (.bodyMore hbrace hdots hfield hc hresult)
        · refine .bind (expect_outcome _) fun ⟨_, s2, h2⟩ ⟨u, hs1, hu⟩ => ?_
          simp only at hs1
          subst hs1
          exact .ok (.bodyLast hbrace hdots hfield hu)
termination_by 16 * s.length + 12

theorem shapeField_outcome (s : List Token) (hs : s ⊆ tokens) :
    Sound r tokens .field s (r.shapeField s) := by
  rw [shapeField]
  refine .bind (.self fun e he => (shapeKey?_lacks he).mono hs) fun key hkey => ?_
  match key, hkey with
  | some ⟨(key, optional), s1, h1⟩, hkey =>
    have hs1 : s1 ⊆ tokens := List.Subset.trans (shapeKey?_subset hkey) hs
    refine .bind (type_outcome s1 hs1) fun ⟨value, s2, h2⟩ hvalue => ?_
    exact .ok (.keyed hkey hvalue)
  | none, hkey =>
    refine .bind (type_outcome s hs) fun ⟨value, s1, h1⟩ hvalue => ?_
    exact .ok (.positional hkey hvalue)
termination_by 16 * s.length + 11

theorem shapeTail_outcome (s : List Token) (hs : s ⊆ tokens) :
    Sound r tokens .tail s (r.shapeTail s) := by
  match s, hs with
  | [], _ =>
    rw [shapeTail]
    exact .ok (.tailEnd nofun)
  | t :: s, hs =>
    rw [shapeTail]
    split
    · next ht =>
      refine .bind (arguments_outcome s (subset_of_cons_subset hs))
        fun ⟨args, s1, h1⟩ hargs => ?_
      simp only
      split
      · next tail htail => exact .ok (.tail ht hargs htail)
      · exact .fail ..
    · next ht => exact .ok (.tailEnd (by simpa [kindAt] using ht))
termination_by 16 * s.length

theorem parameters_outcome (s : List Token) (hs : s ⊆ tokens) :
    Sound r tokens .parameters s (r.parameters s) := by
  match s, hs with
  | [], _ =>
    rw [parameters]
    exact .fail ..
  | t :: s, hs =>
    have hlength : (t :: s).length = s.length + 1 := rfl
    rw [parameters]
    split
    · next ht => exact .ok (.parametersEnd ht)
    · next ht =>
      have hparen : kindAt (t :: s) ≠ some .rightParen := by simpa [kindAt] using ht
      refine .bind (parameter_outcome _ hs) fun ⟨param, s1, h1⟩ hparam => ?_
      simp only at hparam ⊢
      split
      · next s2 h2 htake =>
        obtain ⟨c, hs1, hc⟩ := take?_eq_some htake
        refine .bind (parameters_outcome s2 (hparam.leaves_cons hs hs1))
          fun ⟨others, s3, h3⟩ hothers => ?_
        simp only at hs1
        subst hs1
        exact .ok (.parametersMore hparen hparam hc hothers)
      · next htake =>
        exact .ok (.parametersLast (by simp) hparen hparam (kindAt_ne_of_take? htake))
termination_by 16 * s.length + 12

theorem parameter_outcome (s : List Token) (hs : s ⊆ tokens) :
    Sound r tokens .parameter s (r.parameter s) := by
  match s, hs with
  | [], _ =>
    rw [parameter]
    exact .fail ..
  | t :: s, hs =>
    rw [parameter]
    split
    · next ht =>
      simp only [Bool.and_eq_true, decide_eq_true_eq] at ht
      refine .bind (type_outcome s (subset_of_cons_subset hs)) fun ⟨type, s1, h1⟩ htype => ?_
      exact .ok (.dots ht.1 ht.2 htype rfl rfl)
    · next hdots =>
      split
      · next ht =>
        refine .ok (.marks ht (fun hkind => ?_) rfl rfl)
        simpa [hkind] using hdots
      · next ht =>
        refine .bind (type_outcome _ hs) fun ⟨type, s1, h1⟩ htype => ?_
        exact .ok (.typed (Bool.eq_false_iff.mpr ht) htype rfl rfl)
termination_by 16 * s.length + 11

end

end

end Reading

end StubCatalog.TypeExpr
