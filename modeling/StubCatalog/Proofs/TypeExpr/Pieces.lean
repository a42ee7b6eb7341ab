import StubCatalog.Proofs.TypeExpr.Reading

/-! # Pieces without types inside

Which tokens the functions take that read a sign, a number, a range, the name of a member, a key or
the marks behind a type. An attempt comes to a value, to a flaw of the text, or to an integer
without a value (`Outcome`). -/

namespace StubCatalog.TypeExpr

open List

variable {e : Numeral.Error}

/-! ### Outcomes -/

/-- An integer among the tokens has no value. -/
def Lacks (tokens : List Token) (e : Numeral.Error) : Prop :=
  ∃ t ∈ tokens, t.kind = .int ∧ Numeral.readLiteral t.value = .error e

theorem Lacks.mono {s tokens : List Token} (h : Lacks s e) (hs : s ⊆ tokens) : Lacks tokens e := by
  obtain ⟨t, ht, h⟩ := h
  exact ⟨t, hs ht, h⟩

/-- What an attempt may come to: a value with the property `P`, a flaw, or an integer among the
tokens that has no value. -/
def Outcome (tokens : List Token) {α : Type} (P : α → Prop) : Attempt α → Prop
  | .ok a => P a
  | .error (.numeral e) => Lacks tokens e
  | .error (.malformed ..) => True

section
variable {tokens : List Token} {α β : Type} {P : α → Prop} {Q : β → Prop}

theorem Outcome.ok {a : α} (h : P a) : Outcome tokens P (.ok a) := h

theorem Outcome.fail (r : Reading) (flaw : Flaw) (s : List Token) :
    Outcome tokens P (r.fail flaw s) := trivial

theorem Outcome.bind {x : Attempt α} {f : α → Attempt β} (hx : Outcome tokens P x)
    (hf : ∀ a, P a → Outcome tokens Q (f a)) : Outcome tokens Q (x >>= f) := by
  match x, hx with
  | .ok a, hx => exact hf a hx
  | .error (.numeral _), hx => exact hx
  | .error (.malformed ..), _ => trivial

theorem Outcome.mono {x : Attempt α} {P' : α → Prop} (hx : Outcome tokens P x)
    (h : ∀ a, P a → P' a) : Outcome tokens P' x := by
  match x, hx with
  | .ok a, hx => exact h a hx
  | .error (.numeral _), hx => exact hx
  | .error (.malformed ..), _ => trivial

theorem Outcome.self {x : Attempt α} (h : ∀ e, x = .error (.numeral e) → Lacks tokens e) :
    Outcome tokens (fun a => x = .ok a) x := by
  match x, h with
  | .ok a, _ => exact rfl
  | .error (.numeral e), h => exact h e rfl
  | .error (.malformed ..), _ => trivial

end

namespace Reading

variable {r : Reading} {tokens s s1 : List Token} {t : Token} {kind : TokenKind} {v : TypeExpr}

/-! ### Single tokens -/

theorem expect_outcome (kind : TokenKind) :
    Outcome tokens (fun p => ∃ t, s = t :: p.rest ∧ t.kind = kind) (r.expect kind s) := by
  cases s with
  | nil => exact .fail ..
  | cons t s =>
    rw [expect]
    split
    · next ht => exact .ok ⟨t, rfl, ht⟩
    · exact .fail ..

theorem take?_eq_some {p : Parsed s.length Unit} (h : take? kind s = some p) :
    ∃ t, s = t :: p.rest ∧ t.kind = kind := by
  cases s with
  | nil => cases h
  | cons t s =>
    rw [take?] at h
    split at h
    · next ht =>
      cases h
      exact ⟨t, rfl, ht⟩
    · cases h

theorem take?_rest {p : Parsed s.length Unit} (h : take? kind s = some p) : p.rest ⊆ s := by
  obtain ⟨t, hs, -⟩ := take?_eq_some h
  intro u hu
  rw [hs]
  exact mem_cons_of_mem t hu

theorem kindAt_ne_of_take? (h : take? kind s = none) : kindAt s ≠ some kind := by
  cases s with
  | nil => simp [kindAt]
  | cons t s =>
    rw [take?] at h
    split at h
    · cases h
    · next ht => simpa [kindAt] using ht

theorem accept_value : (accept kind (t :: s)).value = decide (t.kind = kind) := by
  rw [accept]
  split
  · next h => rw [decide_eq_true h]
  · next h => rw [decide_eq_false h]

theorem accept_cons_rest : (accept kind (t :: s)).rest = if t.kind = kind then s else t :: s := by
  rw [accept]
  split <;> rfl

theorem accept_rest (kind : TokenKind) (s : List Token) : (accept kind s).rest ⊆ s := by
  unfold accept
  split
  · simp
  · split <;> simp

theorem acceptWord_rest (word : String) (s : List Token) : (acceptWord word s).rest ⊆ s := by
  unfold acceptWord
  split
  · simp
  · split <;> simp

/-! ### Numbers -/

/-- The tokens behind the sign of a number, and whether the sign is a minus. -/
def unsigned : List Token → Bool × List Token
  | [] => (false, [])
  | t :: s =>
    if t.kind = .minus then (true, s) else if t.kind = .plus then (false, s) else (false, t :: s)

/-- The value of a number token, behind a minus sign or not. -/
def numeral? (negative : Bool) (t : Token) : Option LiteralValue :=
  if t.kind = .int then
    (Numeral.readLiteral t.value).toOption.map fun m => .int (if negative then -m else m)
  else if t.kind = .float then
    let d := (Numeral.readDouble? (String.ofList (t.value.toList.filter (· != '_')))).getD .nan
    some (.float (if negative then d.neg else d))
  else none

theorem unsigned_eq : unsigned s = ((accept .minus s).value,
    if (accept .minus s).value then (accept .minus s).rest
    else (accept .plus (accept .minus s).rest).rest) := by
  cases s with
  | nil => rfl
  | cons t s =>
    rw [unsigned, accept_value, accept_cons_rest]
    by_cases hminus : t.kind = .minus
    · simp only [if_pos hminus, decide_eq_true hminus, if_true]
    · rw [if_neg hminus, if_neg hminus, decide_eq_false hminus, accept_cons_rest]
      split <;> rfl

theorem unsigned_subset : (unsigned s).2 ⊆ s := by
  unfold unsigned
  split
  · simp
  · split
    · simp
    · split <;> simp

/-- The number whose sign is known, and what is left behind it. -/
def numberAt (r : Reading) (negative : Bool) : List Token → Attempt (LiteralValue × List Token)
  | [] => r.fail .expectedNumber []
  | t :: rest =>
    if t.kind = .int then
      match Numeral.readLiteral t.value with
      | .error e => .error (.numeral e)
      | .ok n => .ok (.int (if negative then -n else n), rest)
    else if t.kind = .float then
      let d := (Numeral.readDouble? (String.ofList (t.value.toList.filter (· != '_')))).getD .nan
      .ok (.float (if negative then d.neg else d), rest)
    else r.fail .expectedNumber (t :: rest)

theorem number_map : (r.number s).map (fun p => (p.value, p.rest)) =
    r.numberAt (unsigned s).1 (unsigned s).2 := by
  rw [unsigned_eq]
  unfold number
  generalize accept .minus s = first
  obtain ⟨negative, plain, h⟩ := first
  simp only
  generalize hsecond : (if negative then (⟨false, plain, by omega⟩ : Parsed (plain.length + 1) Bool)
    else accept .plus plain) = second
  have hrest : (if negative then plain else (accept .plus plain).rest) = second.rest := by
    rw [← hsecond]
    split <;> rfl
  rw [hrest]
  obtain ⟨_, plain, h'⟩ := second
  cases plain with
  | nil => rfl
  | cons t rest =>
    simp only [numberAt]
    split
    · cases Numeral.readLiteral t.value <;> rfl
    · split <;> rfl

theorem yields_number_iff {value : LiteralValue} : Yields (r.number s) value s1 ↔
    ∃ t, (unsigned s).2 = t :: s1 ∧ numeral? (unsigned s).1 t = some value := by
  have hmap : Yields (r.number s) value s1 ↔
      r.numberAt (unsigned s).1 (unsigned s).2 = .ok (value, s1) := by
    rw [← number_map]
    cases r.number s with
    | error e => exact ⟨by rintro ⟨_, ⟨⟩⟩, by rintro ⟨⟩⟩
    | ok p =>
      constructor
      · rintro ⟨hlt, ⟨⟩⟩
        rfl
      · rintro ⟨⟩
        exact ⟨p.fewer, rfl⟩
  rw [hmap]
  cases (unsigned s).2 with
  | nil => exact ⟨by rintro ⟨⟩, by simp⟩
  | cons t rest =>
    have hright : (∃ u, t :: rest = u :: s1 ∧ numeral? (unsigned s).1 u = some value) ↔
        rest = s1 ∧ numeral? (unsigned s).1 t = some value := by
      constructor
      · rintro ⟨u, ⟨⟩, hvalue⟩
        exact ⟨rfl, hvalue⟩
      · rintro ⟨rfl, hvalue⟩
        exact ⟨t, rfl, hvalue⟩
    rw [hright, numberAt, numeral?]
    split
    · cases Numeral.readLiteral t.value <;> simp [Except.toOption, and_comm]
    · split
      · simp [and_comm]
      · exact ⟨by rintro ⟨⟩, by simp⟩

theorem number_lacks (h : r.number s = .error (.numeral e)) : Lacks s e := by
  have hmap := @number_map r s
  rw [h] at hmap
  have hplain := @unsigned_subset s
  generalize (unsigned s).2 = plain at hmap hplain
  cases plain with
  | nil => cases hmap
  | cons t rest =>
    rw [numberAt] at hmap
    split at hmap
    · next hkind =>
      split at hmap
      · next he =>
        cases hmap
        exact ⟨t, hplain (by simp), hkind, he⟩
      · cases hmap
    · split at hmap <;> cases hmap

theorem number_subset {value : LiteralValue} (h : Yields (r.number s) value s1) : s1 ⊆ s := by
  obtain ⟨t, hplain, -⟩ := yields_number_iff.mp h
  exact subset_of_cons_subset (hplain ▸ unsigned_subset)

/-! ### Ranges of integers -/

theorem yields_intBound_cases {bound : Option Int} (h : Yields (r.intBound s) bound s1) :
    (∃ t, s = t :: s1 ∧ (isWord t "min" ∨ isWord t "max") ∧ bound = none) ∨
      ∃ m, bound = some m ∧ kindAt s ≠ some .identifier ∧ Yields (r.number s) (.int m) s1 := by
  obtain ⟨hlt, h⟩ := h
  unfold intBound at h
  split at h
  · next t s =>
    split at h
    · next hword =>
      cases h
      exact Or.inl ⟨t, rfl, by simpa using hword, rfl⟩
    · split at h
      · cases h
      · next m rest hrest hnumber =>
        cases h
        have hnumber : Yields (r.number (t :: s)) (.int m) s1 := ⟨_, hnumber⟩
        refine Or.inr ⟨m, rfl, fun hkind => ?_, hnumber⟩
        obtain ⟨u, hplain, hvalue⟩ := yields_number_iff.mp hnumber
        rw [kindAt_cons, Option.some.injEq] at hkind
        rw [unsigned, if_neg (by rw [hkind]; decide), if_neg (by rw [hkind]; decide)]
          at hplain hvalue
        obtain ⟨rfl, -⟩ := List.cons.inj hplain
        rw [numeral?, if_neg (by rw [hkind]; decide), if_neg (by rw [hkind]; decide)] at hvalue
        cases hvalue
      · cases h
  · cases h

theorem intBound_subset {bound : Option Int} (h : Yields (r.intBound s) bound s1) : s1 ⊆ s := by
  rcases yields_intBound_cases h with ⟨t, rfl, -⟩ | ⟨m, -, -, hnumber⟩
  · exact subset_cons_self t s1
  · exact number_subset hnumber

theorem intBound_lacks (h : r.intBound s = .error (.numeral e)) : Lacks s e := by
  unfold intBound at h
  split at h
  · split at h
    · cases h
    · split at h
      · next hnumber =>
        cases h
        exact number_lacks hnumber
      · cases h
      · cases h
  · cases h

theorem intRange_outcome (hs : s ⊆ tokens) :
    Outcome tokens (fun p => ∃ a b c s2 s3, ∃ low high : Option Int, s = a :: s2 ∧
      a.kind = .less ∧ Yields (r.intBound s2) low (b :: s3) ∧ b.kind = .comma ∧
      Yields (r.intBound s3) high (c :: p.rest) ∧ c.kind = .greater ∧
      p.value = .intRange (.ofInt? low) (.ofInt? high)) (r.intRange s) := by
  unfold intRange
  refine .bind (expect_outcome _) fun ⟨_, s2, h2⟩ ⟨a, hs', ha⟩ => ?_
  simp only at hs'
  subst hs'
  have hs2 := subset_of_cons_subset hs
  refine .bind (.self fun e he => (intBound_lacks he).mono hs2) fun ⟨low, s3, h3⟩ hlow => ?_
  refine .bind (expect_outcome _) fun ⟨_, s4, h4⟩ ⟨b, hs3, hb⟩ => ?_
  simp only at hs3
  subst hs3
  have hs4 : s4 ⊆ tokens := List.Subset.trans (subset_of_cons_subset
    (intBound_subset ⟨h3, hlow⟩)) hs2
  refine .bind (.self fun e he => (intBound_lacks he).mono hs4) fun ⟨high, s5, h5⟩ hhigh => ?_
  refine .bind (expect_outcome _) fun ⟨_, s6, h6⟩ ⟨c, hs5, hc⟩ => ?_
  simp only at hs5
  subst hs5
  exact .ok ⟨a, b, c, s2, s4, low, high, rfl, ha, ⟨h3, hlow⟩, hb, ⟨h5, hhigh⟩, hc, rfl⟩

theorem yields_intRange_cases (h : Yields (r.intRange s) v s1) :
    ∃ a b c s2 s3, ∃ low high : Option Int, s = a :: s2 ∧ a.kind = .less ∧
      Yields (r.intBound s2) low (b :: s3) ∧ b.kind = .comma ∧
      Yields (r.intBound s3) high (c :: s1) ∧ c.kind = .greater ∧
      v = .intRange (.ofInt? low) (.ofInt? high) := by
  obtain ⟨hlt, h⟩ := h
  have houtcome := intRange_outcome (r := r) (List.Subset.refl s)
  rw [h] at houtcome
  exact houtcome

theorem intRange_subset (h : Yields (r.intRange s) v s1) : s1 ⊆ s := by
  obtain ⟨a, b, c, s2, s3, low, high, rfl, -, hlow, -, hhigh, -, -⟩ := yields_intRange_cases h
  refine fun u hu => mem_cons_of_mem _ (intBound_subset hlow ?_)
  exact mem_cons_of_mem _ (intBound_subset hhigh (mem_cons_of_mem _ hu))

/-! ### Members -/

theorem memberParts_rest (stop : Nat) : (memberParts stop s).rest ⊆ s := by
  induction s generalizing stop with
  | nil => simp [memberParts]
  | cons t rest ih =>
    unfold memberParts
    split
    · exact List.Subset.trans (ih t.stop) (by simp)
    · simp

theorem memberReference_outcome {owner : String} :
    Outcome tokens (fun p => r.memberReference owner t s = .ok p ∧ p.rest ⊆ s)
      (r.memberReference owner t s) := by
  have hrest := @memberParts_rest s t.stop
  unfold memberReference
  generalize memberParts t.stop s = found at hrest ⊢
  obtain ⟨parts, rest, h⟩ := found
  simp only
  split
  · exact .fail ..
  · exact .ok ⟨rfl, hrest⟩

theorem memberReference_subset {owner : String} (h : Yields (r.memberReference owner t s) v s1) :
    s1 ⊆ s := by
  obtain ⟨hlt, h⟩ := h
  have houtcome := @memberReference_outcome r s s t owner
  rw [h] at houtcome
  exact houtcome.2

theorem tailTypes?_cases {vs : List TypeExpr} {key value : Option TypeExpr}
    (h : tailTypes? vs = some (key, value)) :
    (∃ v, vs = [v] ∧ key = none ∧ value = some v) ∨
      ∃ k v, vs = [k, v] ∧ key = some k ∧ value = some v := by
  match vs, h with
  | [v], h =>
    cases h
    exact Or.inl ⟨v, rfl, rfl, rfl⟩
  | [k, v], h =>
    cases h
    exact Or.inr ⟨k, v, rfl, rfl, rfl⟩

/-! ### Keys -/

theorem keyEnd?_cons_cons {a b : Token} (ha : a.kind ≠ .colon) :
    keyEnd? (a :: b :: s) = if a.kind = .question ∧ b.kind = .colon then
      some ⟨true, s, Nat.lt_add_of_pos_right Nat.two_pos⟩ else none := by
  rw [keyEnd?, if_neg ha]
  by_cases h : a.kind = .question ∧ b.kind = .colon
  · rw [if_pos h]
    exact if_pos (by simpa using h)
  · rw [if_neg h]
    exact if_neg (by simpa using h)

theorem keyEnd?_colon (ht : t.kind = .colon) :
    keyEnd? (t :: s) = some ⟨false, s, Nat.lt_succ_self _⟩ := by
  rw [keyEnd?.eq_def]
  exact if_pos ht

theorem keyEnd?_rest {p : Parsed s.length Bool} (h : keyEnd? s = some p) : p.rest ⊆ s := by
  unfold keyEnd? at h
  split at h
  · split at h
    · cases h
      simp
    · split at h
      · split at h
        · cases h
          intro u hu
          simp [hu]
        · cases h
      · cases h
  · cases h

/-- The characters of a key: its value, unless it is an integer that is not read, and the tokens
behind it. -/
def keyStart? : List Token → Option (Attempt ShapeKey × List Token)
  | [] => none
  | t :: s =>
    match t.kind with
    | .minus =>
      match s with
      | [] => none
      | u :: s =>
        if u.kind = .int then
          some ((Numeral.readLiteral u.value).mapError .numeral |>.map fun m => .int (-m), s)
        else none
    | .int => some ((Numeral.readLiteral t.value).mapError .numeral |>.map .int, s)
    | .string => some (.ok (.str (unquote t.value)), s)
    | .identifier => some (.ok (.str t.value), s)
    | _ => none

theorem shapeKey?_eq_none : shapeKey? s = .ok none ↔
    ∀ key behind, keyStart? s = some (key, behind) → keyEnd? behind = none := by
  cases s with
  | nil => simp [shapeKey?, keyStart?]
  | cons t s =>
    obtain ⟨kind, value, position⟩ := t
    cases kind with
    | identifier | string => cases hend : keyEnd? s <;> simp [shapeKey?, keyStart?, hend]
    | int =>
      cases hend : keyEnd? s <;> cases hread : Numeral.readLiteral value <;>
        simp [shapeKey?, keyStart?, hend, hread]
    | minus =>
      cases s with
      | nil => simp [shapeKey?, keyStart?]
      | cons u s =>
        by_cases hu : u.kind = .int
        · cases hend : keyEnd? s <;> cases hread : Numeral.readLiteral u.value <;>
            simp [shapeKey?, keyStart?, hu, hend, hread]
        · simp [shapeKey?, keyStart?, hu]
    | _ => simp [shapeKey?, keyStart?]

theorem shapeKey?_of_keyEnd? {start : Attempt ShapeKey} {behind left : List Token} {optional : Bool}
    {hlt : left.length < behind.length} (hstart : keyStart? s = some (start, behind))
    (hend : keyEnd? behind = some ⟨optional, left, hlt⟩) :
    ∃ hlt', shapeKey? s = start.map fun key => some ⟨(key, optional), left, hlt'⟩ := by
  cases s with
  | nil => cases hstart
  | cons t s =>
    obtain ⟨kind, value, position⟩ := t
    cases kind with
    | identifier | string =>
      cases hstart
      exact ⟨by simp only [length_cons]; omega, by simp only [shapeKey?, hend]; rfl⟩
    | int =>
      cases hstart
      refine ⟨by simp only [length_cons]; omega, ?_⟩
      simp only [shapeKey?, hend]
      cases Numeral.readLiteral value <;> rfl
    | minus =>
      cases s with
      | nil => cases hstart
      | cons u s =>
        by_cases hu : u.kind = .int
        · simp only [keyStart?, hu, if_true] at hstart
          cases hstart
          refine ⟨by simp only [length_cons]; omega, ?_⟩
          simp only [shapeKey?, hu, if_true, hend]
          cases Numeral.readLiteral u.value <;> rfl
        · simp only [keyStart?, hu, if_false] at hstart
          cases hstart
    | _ => cases hstart

theorem shapeKey?_cases : shapeKey? s = .ok none ∨ ∃ start behind optional left hlt hlt',
    keyStart? s = some (start, behind) ∧ keyEnd? behind = some ⟨optional, left, hlt⟩ ∧
      shapeKey? s = start.map fun key => some ⟨(key, optional), left, hlt'⟩ := by
  by_cases h : ∀ start behind, keyStart? s = some (start, behind) → keyEnd? behind = none
  · exact Or.inl (shapeKey?_eq_none.mpr h)
  · simp only [Classical.not_forall] at h
    obtain ⟨start, behind, hstart, hne⟩ := h
    obtain ⟨⟨optional, left, hlt⟩, hend⟩ := Option.ne_none_iff_exists'.mp hne
    obtain ⟨hlt', hkey⟩ := shapeKey?_of_keyEnd? hstart hend
    exact Or.inr ⟨start, behind, optional, left, hlt, hlt', hstart, hend, hkey⟩

theorem shapeKey?_eq_some {key : ShapeKey} {optional : Bool} {left : List Token} :
    (∃ hlt, shapeKey? s = .ok (some ⟨(key, optional), left, hlt⟩)) ↔
      ∃ behind hlt, keyStart? s = some (.ok key, behind) ∧
        keyEnd? behind = some ⟨optional, left, hlt⟩ := by
  constructor
  · rintro ⟨hlt, h⟩
    rcases @shapeKey?_cases s with hnone | ⟨start, behind, _, _, hlt', _, hstart, hend, hkey⟩
    · rw [h] at hnone
      cases hnone
    · rw [h] at hkey
      cases start with
      | error e => cases hkey
      | ok key' =>
        cases hkey
        exact ⟨behind, hlt', hstart, hend⟩
  · rintro ⟨behind, hlt, hstart, hend⟩
    exact shapeKey?_of_keyEnd? hstart hend

theorem keyStart?_cases {start : Attempt ShapeKey} {behind : List Token}
    (h : keyStart? s = some (start, behind)) : behind ⊆ s ∧
      ((∃ text, start = .ok (.str text)) ∨ ∃ t ∈ s, t.kind = .int ∧ ∃ sign : Int → Int,
        (∀ n, sign n = n ∨ sign n = -n) ∧
        start = ((Numeral.readLiteral t.value).mapError .numeral |>.map fun n => .int (sign n))) := by
  cases s with
  | nil => cases h
  | cons t s =>
    obtain ⟨kind, value, position⟩ := t
    cases kind with
    | identifier | string =>
      cases h
      exact ⟨by simp, Or.inl ⟨_, rfl⟩⟩
    | int =>
      cases h
      exact ⟨by simp, Or.inr ⟨_, by simp, rfl, id, fun _ => Or.inl rfl, rfl⟩⟩
    | minus =>
      cases s with
      | nil => cases h
      | cons u s =>
        by_cases hu : u.kind = .int
        · simp only [keyStart?, hu, if_true] at h
          cases h
          exact ⟨fun v hv => by simp [hv],
            Or.inr ⟨u, by simp, hu, fun n => -n, fun _ => Or.inr rfl, rfl⟩⟩
        · simp only [keyStart?, hu, if_false] at h
          cases h
    | _ => cases h

theorem shapeKey?_lacks (h : shapeKey? s = .error (.numeral e)) : Lacks s e := by
  rcases @shapeKey?_cases s with hnone | ⟨start, behind, _, _, _, _, hstart, _, hkey⟩
  · rw [h] at hnone
    cases hnone
  · rw [h] at hkey
    obtain ⟨-, ⟨text, rfl⟩ | ⟨t, ht, hkind, sign, -, rfl⟩⟩ := keyStart?_cases hstart
    · cases hkey
    · cases he : Numeral.readLiteral t.value with
      | ok n =>
        rw [he] at hkey
        cases hkey
      | error e' =>
        rw [he] at hkey
        cases hkey
        exact ⟨t, ht, hkind, he⟩

theorem shapeKey?_subset {key : ShapeKey × Bool} {hlt : s1.length < s.length}
    (h : shapeKey? s = .ok (some ⟨key, s1, hlt⟩)) : s1 ⊆ s := by
  obtain ⟨behind, hlt', hstart, hend⟩ := shapeKey?_eq_some.mp ⟨hlt, h⟩
  exact List.Subset.trans (keyEnd?_rest hend) (keyStart?_cases hstart).1

/-! ### Marks -/

theorem arrayMarks_cons_cons {a b : Token} :
    (arrayMarks v (a :: b :: s)).value = (if a.kind = .leftBracket ∧ b.kind = .rightBracket then
      (arrayMarks (.generic "array" [v]) s).value else v) ∧
    (arrayMarks v (a :: b :: s)).rest = if a.kind = .leftBracket ∧ b.kind = .rightBracket then
      (arrayMarks (.generic "array" [v]) s).rest else a :: b :: s := by
  rw [arrayMarks]
  by_cases h : a.kind = .leftBracket ∧ b.kind = .rightBracket
  · rw [if_pos h, if_pos h, if_pos (by simpa using h)]
    exact ⟨rfl, rfl⟩
  · rw [if_neg h, if_neg h, if_neg (by simpa using h)]
    exact ⟨rfl, rfl⟩

theorem arrayMarks_holds {F : TypeExpr → Prop} (hF : ∀ t, F t → F (.generic "array" [t])) (h : F v)
    (s : List Token) : F (arrayMarks v s).value ∧ (arrayMarks v s).rest ⊆ s := by
  fun_induction arrayMarks v s with
  | case1 v a b s _ t left hlt heq ih =>
    obtain ⟨hvalue, hrest⟩ := ih (hF v h)
    rw [heq] at hvalue hrest
    exact ⟨hvalue, fun u hu => by simp [hrest hu]⟩
  | case2 v a b s _ => exact ⟨h, List.Subset.refl _⟩
  | case3 v s _ => exact ⟨h, List.Subset.refl _⟩

theorem arrayMarks_subset (v : TypeExpr) (s : List Token) : (arrayMarks v s).rest ⊆ s :=
  (@arrayMarks_holds v (fun _ => True) (fun _ _ => trivial) trivial s).2

theorem skipDefault_rest (depth : Int) : (skipDefault depth s).rest ⊆ s := by
  induction s generalizing depth with
  | nil => simp [skipDefault]
  | cons t rest ih =>
    unfold skipDefault
    split
    · simp
    · exact List.Subset.trans (ih _) (by simp)

/-- What is left behind a parameter's default value, if it has one. -/
def behindDefault (s : List Token) : List Token :=
  if (accept .equals s).value then (skipDefault 0 (accept .equals s).rest).rest
  else (accept .equals s).rest

/-- What is left behind the first three marks of a parameter. -/
def behindName (s : List Token) : List Token :=
  (accept .variable (accept .ellipsis (accept .ampersand s).rest).rest).rest

theorem parameterMarks_rest {variadic : Bool} :
    (parameterMarks v variadic s).rest = behindDefault (behindName s) := by
  unfold parameterMarks behindDefault behindName
  simp only
  split <;> rfl

theorem parameterMarks_value {variadic : Bool} :
    (parameterMarks v variadic s).value = ⟨v, (accept .equals (behindName s)).value,
      (accept .ellipsis (accept .ampersand s).rest).value || variadic,
      (accept .ampersand s).value⟩ := rfl

theorem parameterMarks_subset (v : TypeExpr) (variadic : Bool) (s : List Token) :
    (parameterMarks v variadic s).rest ⊆ s := by
  have hname : behindName s ⊆ s := List.Subset.trans (accept_rest _ _)
    (List.Subset.trans (accept_rest _ _) (accept_rest _ _))
  rw [parameterMarks_rest, behindDefault]
  split
  · exact List.Subset.trans (skipDefault_rest 0) (List.Subset.trans (accept_rest _ _) hname)
  · exact List.Subset.trans (accept_rest _ _) hname

end Reading

end StubCatalog.TypeExpr
