import StubCatalog.Proofs.TypeExpr.Cutting
import StubCatalog.Proofs.TypeExpr.Grammar

/-! # Types in other surroundings

Tokens are read alike (`Resembles`) if they are of the same sorts and say the same, wherever in a
text they stand. A phrase at the end of its text is also read alike with a closing parenthesis or an
ampersand behind it, if it may end there (`MayEnd`). -/

namespace StubCatalog.TypeExpr.Reading

open List

/-- The tokens behind a phrase: none, a closing parenthesis or an ampersand. -/
def isFollower (z : List Token) : Bool :=
  match kindAt z with
  | none | some .rightParen | some .ampersand => true
  | _ => false

/-- The first of the tokens stands at this place. -/
def StartsAt (n : Nat) (s : List Token) : Prop := s.head?.map Token.position = some n

theorem startsAt_cons {n : Nat} {t : Token} {s : List Token} :
    StartsAt n (t :: s) ↔ t.position = n := by
  simp [StartsAt]

/-- The tokens on the right are like those on the left, with `z` behind them: of the same sorts,
with the same gaps, and with the same text unless they are strings, which have it too if they are to
be exact. -/
inductive Resembles (exact : Prop) (z : List Token) : List Token → List Token → Prop
  | nil : Resembles exact z [] z
  | cons {t t' : Token} {s s' : List Token} (hkind : t'.kind = t.kind)
      (hvalue : t.kind ≠ .string ∨ exact → t'.value = t.value)
      (hgap : s ≠ [] → (StartsAt t'.stop s' ↔ StartsAt t.stop s)) (h : Resembles exact z s s') :
      Resembles exact z (t :: s) (t' :: s')

section
variable {exact : Prop} {z s s' s1 : List Token} {t t' : Token} {kind : TokenKind} {r r' : Reading}
  {v v' : TypeExpr}

theorem isFollower_cases (hz : isFollower z) :
    kindAt z = none ∨ kindAt z = some .rightParen ∨ kindAt z = some .ampersand := by
  unfold isFollower at hz
  split at hz <;> simp_all

theorem isFollower_ne (hz : isFollower z) (kind : TokenKind)
    (hkind : kind ∉ [.rightParen, .ampersand]) : kindAt z ≠ some kind := by
  simp only [mem_cons, not_mem_nil, or_false, not_or] at hkind
  rcases isFollower_cases hz with h | h | h <;> rw [h]
  · simp
  · simpa using Ne.symm hkind.1
  · simpa using Ne.symm hkind.2

theorem startsType_follower (hz : isFollower z) : startsType (kindAt z) = false := by
  rcases isFollower_cases hz with h | h | h <;> rw [h] <;> rfl

theorem opens_follower (hz : isFollower z) (name : String) : r.opens name (kindAt z) = false := by
  rcases isFollower_cases hz with h | h | h <;> rw [h] <;> rfl

theorem isWord_follower {word : String} {others : List Token}
    (hz : isFollower (t :: others)) : isWord t word = false := by
  have hkind := isFollower_ne hz .identifier (by decide)
  rw [kindAt_cons_ne] at hkind
  rw [isWord, beq_eq_false_iff_ne.mpr hkind]
  rfl

namespace Resembles

theorem eq_of_nil (h : Resembles exact z [] s') : s' = z := by
  cases h
  rfl

theorem kindAt_eq (h : Resembles exact z s s') (hs : s ≠ []) : kindAt s' = kindAt s := by
  cases h with
  | nil => exact absurd rfl hs
  | cons hkind => rw [kindAt_cons, kindAt_cons, hkind]

theorem kindAt_ne (h : Resembles exact z s s') (hs : kindAt s ≠ some kind)
    (hz : s = [] → kindAt z ≠ some kind) : kindAt s' ≠ some kind := by
  cases h with
  | nil => exact hz rfl
  | cons hkind => rwa [kindAt_cons, hkind]

theorem startsType_eq (h : Resembles exact z s s') (hz : isFollower z) :
    startsType (kindAt s') = startsType (kindAt s) := by
  cases h with
  | nil => exact startsType_follower hz
  | cons hkind => rw [kindAt_cons, kindAt_cons, hkind]

theorem next_ne (h : Resembles exact z s s') (hz : isFollower z) (hs : kindAt s ≠ some kind)
    (hkind : kind ∉ [.rightParen, .ampersand] := by decide) : kindAt s' ≠ some kind :=
  h.kindAt_ne hs fun _ => isFollower_ne hz kind hkind

theorem goesOn_eq (h : Resembles exact z s s') (hz : isFollower z) (sep : Separator) :
    sep.goesOn (kindAt s') = sep.goesOn (kindAt s) := by
  cases h with
  | nil =>
    cases sep with
    | pipe => rfl
    | ampersand => exact startsType_follower hz
    | comma => exact bne_iff_ne.mpr (isFollower_ne hz .greater (by decide))
  | cons hkind => rw [kindAt_cons, kindAt_cons, hkind]

theorem isWord_eq (hkind : t'.kind = t.kind)
    (hvalue : t.kind ≠ .string ∨ exact → t'.value = t.value) (word : String) :
    isWord t' word = isWord t word := by
  rw [isWord, isWord, hkind]
  by_cases h : t.kind = .identifier
  · rw [hvalue (Or.inl (by rw [h]; decide))]
  · rw [beq_eq_false_iff_ne.mpr h, Bool.false_and, Bool.false_and]

/-! ### Parts without types inside -/

theorem accept (h : Resembles exact z s s') (hz : s = [] → kindAt z ≠ some kind) :
    (accept kind s').value = (Reading.accept kind s).value ∧
      Resembles exact z (Reading.accept kind s).rest (Reading.accept kind s').rest := by
  cases h with
  | nil =>
    have hz := hz rfl
    cases z with
    | nil => exact ⟨rfl, .nil⟩
    | cons t z =>
      rw [kindAt_cons_ne] at hz
      rw [accept_value, accept_cons_rest, if_neg hz, decide_eq_false hz]
      exact ⟨rfl, .nil⟩
  | cons hkind hvalue hgap h =>
    rw [accept_value, accept_value, accept_cons_rest, accept_cons_rest, hkind]
    refine ⟨rfl, ?_⟩
    split
    · exact h
    · exact .cons hkind hvalue hgap h

theorem accept_cons (h : Resembles exact z s s') (hz : isFollower z)
    (hkind : kind ∉ [.rightParen, .ampersand]) (hs1 : (Reading.accept kind s).rest = t :: s1) :
    ∃ t' s1', (Reading.accept kind s').rest = t' :: s1' ∧ t'.kind = t.kind ∧
      Resembles exact z s1 s1' := by
  obtain ⟨-, hrest⟩ := h.accept fun _ => isFollower_ne hz kind hkind
  rw [hs1] at hrest
  generalize (Reading.accept kind s').rest = behind at hrest ⊢
  cases hrest with
  | cons hkind _ _ hrest => exact ⟨_, _, rfl, hkind, hrest⟩

theorem acceptWord (h : Resembles exact z s s') (hz : isFollower z) (word : String) :
    (acceptWord word s').value = (Reading.acceptWord word s).value ∧
      Resembles exact z (Reading.acceptWord word s).rest (Reading.acceptWord word s').rest := by
  cases h with
  | nil =>
    cases z with
    | nil => exact ⟨rfl, .nil⟩
    | cons t z =>
      have ht : ¬ isWord t word := by rw [isWord_follower hz]; exact Bool.false_ne_true
      simp only [Reading.acceptWord, if_neg ht, true_and]
      exact .nil
  | cons hkind hvalue hgap h =>
    rw [Reading.acceptWord, Reading.acceptWord, isWord_eq hkind hvalue]
    split
    · exact ⟨rfl, h⟩
    · exact ⟨rfl, .cons hkind hvalue hgap h⟩

theorem isTest_eq {u u' : Token} (hkind : t'.kind = t.kind)
    (hvalue : t.kind ≠ .string ∨ exact → t'.value = t.value) (hkind' : u'.kind = u.kind)
    (hvalue' : u.kind ≠ .string ∨ exact → u'.value = u.value) : isTest t' u' = isTest t u := by
  rw [isTest, isTest, isWord_eq hkind' hvalue', hkind]
  by_cases h : t.kind = .identifier
  · rw [hvalue (Or.inl (by rw [h]; decide))]
  · simp [h]

theorem startsTest_eq (h : Resembles exact z s s') (hz : isFollower z) (hs : s ≠ []) :
    startsTest s' = startsTest s := by
  cases h with
  | nil => exact absurd rfl hs
  | cons hkind hvalue _ h =>
    cases h with
    | nil =>
      cases z with
      | nil => rfl
      | cons u z =>
        show isTest _ u = false
        rw [isTest, isWord_follower hz]
        rfl
    | cons hkind' hvalue' => exact isTest_eq hkind hvalue hkind' hvalue'

theorem unsigned (h : Resembles exact z s s') (hs : s ≠ []) :
    (unsigned s').1 = (Reading.unsigned s).1 ∧
      Resembles exact z (Reading.unsigned s).2 (Reading.unsigned s').2 := by
  cases h with
  | nil => exact absurd rfl hs
  | cons hkind hvalue hgap h =>
    rw [Reading.unsigned, Reading.unsigned, hkind]
    split
    · exact ⟨rfl, h⟩
    · split
      · exact ⟨rfl, h⟩
      · exact ⟨rfl, .cons hkind hvalue hgap h⟩

theorem number {value : LiteralValue} (h : Resembles exact z s s') (r' : Reading)
    (hvalue : Yields (r.number s) value s1) :
    ∃ s1', Yields (r'.number s') value s1' ∧ Resembles exact z s1 s1' := by
  obtain ⟨t, hplain, hnumeral⟩ := yields_number_iff.mp hvalue
  obtain ⟨hsign, hrest⟩ := h.unsigned (by rintro rfl; cases hplain)
  rw [hplain] at hrest
  generalize hplain' : (Reading.unsigned s').2 = plain at hrest
  cases hrest with
  | @cons _ t' _ s1' hkind hvalue _ hrest =>
    refine ⟨s1', yields_number_iff.mpr ⟨t', hplain', ?_⟩, hrest⟩
    have hstring : t.kind ≠ .string := by
      intro hkind
      rw [numeral?, hkind] at hnumeral
      cases hnumeral
    rw [hsign, ← hnumeral, numeral?, numeral?, hkind, hvalue (Or.inl hstring)]

theorem intBound {bound : Option Int} (h : Resembles exact z s s') (r' : Reading)
    (hbound : Yields (r.intBound s) bound s1) :
    ∃ s1', Yields (r'.intBound s') bound s1' ∧ Resembles exact z s1 s1' := by
  rcases yields_intBound_cases hbound with ⟨t, rfl, hword, rfl⟩ | ⟨m, rfl, hkind, hnumber⟩
  · cases h with
    | cons hkind hvalue _ h =>
      refine ⟨_, yields_intBound_word ?_, h⟩
      rwa [isWord_eq hkind hvalue, isWord_eq hkind hvalue]
  · obtain ⟨s1', hnumber', h1⟩ := h.number r' hnumber
    cases h with
    | nil =>
      obtain ⟨hlt, -⟩ := hnumber
      cases hlt
    | cons hkind' =>
      refine ⟨s1', yields_intBound_number ?_ hnumber', h1⟩
      rwa [hkind', ne_eq, ← Option.some.injEq]

theorem intRange (h : Resembles exact z s s') (r' : Reading) (hrange : Yields (r.intRange s) v s1) :
    ∃ s1', Yields (r'.intRange s') v s1' ∧ Resembles exact z s1 s1' := by
  obtain ⟨a, b, c, s2, s3, low, high, rfl, ha, hlow, hb, hhigh, hc, rfl⟩ :=
    yields_intRange_cases hrange
  cases h with
  | cons ha' _ _ h =>
    obtain ⟨_, hlow', h⟩ := h.intBound r' hlow
    cases h with
    | cons hb' _ _ h =>
      obtain ⟨_, hhigh', h⟩ := h.intBound r' hhigh
      cases h with
      | cons hc' _ _ h =>
        exact ⟨_, yields_intRange (ha'.trans ha) hlow' (hb'.trans hb) hhigh' (hc'.trans hc), h⟩

theorem memberParts (h : Resembles exact z s s') (hz : isFollower z) {stop stop' : Nat}
    (hgap : s ≠ [] → (StartsAt stop' s' ↔ StartsAt stop s)) :
    (memberParts stop' s').value = (Reading.memberParts stop s).value ∧
      Resembles exact z (Reading.memberParts stop s).rest (Reading.memberParts stop' s').rest := by
  induction h generalizing stop stop' with
  | nil =>
    cases z with
    | nil => exact ⟨rfl, .nil⟩
    | cons t z =>
      have hname := isFollower_ne hz .identifier (by decide)
      have hstar := isFollower_ne hz .star (by decide)
      rw [kindAt_cons_ne] at hname hstar
      simp only [Reading.memberParts, hname, hstar, decide_false, Bool.or_self, Bool.false_and,
        Bool.false_eq_true, if_false, true_and]
      exact .nil
  | @cons t t' s s' hkind hvalue hgap' h ih =>
    have hplace : decide (t'.position = stop') = decide (t.position = stop) := by
      simpa [startsAt_cons] using hgap (by simp)
    obtain ⟨hparts, hrest⟩ := ih hgap'
    rw [Reading.memberParts, Reading.memberParts, hkind, hplace]
    split
    · next hname =>
      have hstring : t.kind ≠ .string := by
        intro hstring
        rw [hstring] at hname
        cases hname
      simp only [hparts, hvalue (Or.inl hstring), true_and]
      exact hrest
    · exact ⟨rfl, .cons hkind hvalue hgap' h⟩

theorem memberReference {owner : String} (h : Resembles exact z s s') (hz : isFollower z)
    (hgap : s ≠ [] → (StartsAt t'.stop s' ↔ StartsAt t.stop s))
    (hmember : Yields (r.memberReference owner t s) v s1) (hscope : r'.scope = r.scope) :
    ∃ s1', Yields (r'.memberReference owner t' s') v s1' ∧ Resembles exact z s1 s1' := by
  obtain ⟨hparts, hrest⟩ := h.memberParts hz hgap
  obtain ⟨hlt, hmember⟩ := hmember
  unfold Reading.memberReference at hmember ⊢
  generalize Reading.memberParts t.stop s = found at hparts hrest hmember
  generalize Reading.memberParts t'.stop s' = found' at hparts hrest ⊢
  obtain ⟨parts, rest, hfewer⟩ := found
  obtain ⟨parts', rest', hfewer'⟩ := found'
  simp only at hparts hrest hmember ⊢
  subst hparts
  split at hmember
  · cases hmember
  · next hparts =>
    cases hmember
    rw [if_neg hparts, hscope]
    exact ⟨rest', ⟨_, rfl⟩, hrest⟩

theorem arrayMarks {v v' : TypeExpr} {s s' : List Token} (h : Resembles exact z s s')
    (hz : isFollower z) (hv : exact → v' = v) :
    (exact → (arrayMarks v' s').value = (Reading.arrayMarks v s).value) ∧
      Resembles exact z (Reading.arrayMarks v s).rest (Reading.arrayMarks v' s').rest := by
  have hleft := isFollower_ne hz .leftBracket (by decide)
  have hright := isFollower_ne hz .rightBracket (by decide)
  match s, s', h with
  | _, _, .nil =>
    obtain ⟨hlt, h⟩ := @arrayMarks_of_ne z v' hleft
    rw [h]
    exact ⟨hv, .nil⟩
  | _, _, .cons hkind hvalue hgap .nil =>
    cases z with
    | nil => exact ⟨hv, .cons hkind hvalue hgap .nil⟩
    | cons b z =>
      rw [kindAt_cons_ne] at hright
      obtain ⟨hmarked, hrest⟩ := @arrayMarks_cons_cons z v' _ b
      rw [hmarked, hrest, if_neg fun h => hright h.2, if_neg fun h => hright h.2]
      exact ⟨hv, .cons hkind hvalue hgap .nil⟩
  | a :: b :: s, a' :: b' :: s', .cons hkind hvalue hgap (.cons hkind' hvalue' hgap' h) =>
    obtain ⟨hmarked, hrest⟩ := @arrayMarks_cons_cons s v a b
    obtain ⟨hmarked', hrest'⟩ := @arrayMarks_cons_cons s' v' a' b'
    rw [hmarked, hrest, hmarked', hrest', hkind, hkind']
    split
    · exact h.arrayMarks hz fun he => by rw [hv he]
    · exact ⟨hv, .cons hkind hvalue hgap (.cons hkind' hvalue' hgap' h)⟩

/-! ### Keys -/

theorem keyEnd? (h : Resembles exact z s s') (hz : isFollower z) :
    (keyEnd? s = none → Reading.keyEnd? s' = none) ∧
      ∀ optional left hlt, Reading.keyEnd? s = some ⟨optional, left, hlt⟩ →
        ∃ left' hlt', Reading.keyEnd? s' = some ⟨optional, left', hlt'⟩ ∧
          Resembles exact z left left' := by
  have hcolon := isFollower_ne hz .colon (by decide)
  have hquestion := isFollower_ne hz .question (by decide)
  cases h with
  | nil => exact ⟨fun _ => keyEnd?_of_ne hcolon hquestion, by rintro _ _ _ ⟨⟩⟩
  | @cons a a' s s' hkind _ _ h =>
    by_cases ha : a.kind = .colon
    · rw [keyEnd?_colon ha, keyEnd?_colon (hkind.trans ha)]
      refine ⟨by rintro ⟨⟩, ?_⟩
      rintro optional left hlt ⟨⟩
      exact ⟨s', _, rfl, h⟩
    · have ha' : a'.kind ≠ .colon := hkind ▸ ha
      cases h with
      | nil =>
        refine ⟨fun _ => ?_, by simp [Reading.keyEnd?, ha]⟩
        cases z with
        | nil => simp [Reading.keyEnd?, ha']
        | cons b z =>
          rw [kindAt_cons_ne] at hcolon
          exact (keyEnd?_cons_cons ha').trans (if_neg fun h => hcolon h.2)
      | @cons b b' s s' hkind' _ _ h =>
        rw [keyEnd?_cons_cons ha, keyEnd?_cons_cons ha', hkind, hkind']
        by_cases hend : a.kind = .question ∧ b.kind = .colon
        · rw [if_pos hend, if_pos hend]
          refine ⟨by rintro ⟨⟩, ?_⟩
          rintro optional left hlt ⟨⟩
          exact ⟨s', _, rfl, h⟩
        · rw [if_neg hend, if_neg hend]
          exact ⟨fun _ => rfl, by rintro _ _ _ ⟨⟩⟩

theorem keyStart? (h : Resembles exact z s s') (hz : isFollower z) (hs : s ≠ []) :
    (keyStart? s = none → Reading.keyStart? s' = none) ∧
      ∀ start behind, Reading.keyStart? s = some (start, behind) →
        ∃ start' behind', Reading.keyStart? s' = some (start', behind') ∧
          Resembles exact z behind behind' ∧
          ∀ key, start = .ok key → ∃ key', start' = .ok key' ∧ (exact → key' = key) := by
  cases h with
  | nil => exact absurd rfl hs
  | @cons t t' s s' hkind hvalue _ h =>
    obtain ⟨kind, value, position⟩ := t
    obtain ⟨kind', value', position'⟩ := t'
    obtain rfl : kind' = kind := hkind
    cases kind' with
    | string =>
      refine ⟨by rintro ⟨⟩, ?_⟩
      rintro _ _ ⟨⟩
      refine ⟨_, s', rfl, h, ?_⟩
      rintro _ ⟨⟩
      exact ⟨_, rfl, fun he => by rw [show value' = value from hvalue (Or.inr he)]⟩
    | identifier | int =>
      obtain rfl : value' = value := hvalue (Or.inl (by simp))
      refine ⟨by rintro ⟨⟩, ?_⟩
      rintro _ _ ⟨⟩
      exact ⟨_, s', rfl, h, fun key hkey => ⟨key, hkey, fun _ => rfl⟩⟩
    | minus =>
      cases h with
      | nil =>
        refine ⟨fun _ => ?_, by rintro _ _ ⟨⟩⟩
        cases z with
        | nil => rfl
        | cons u z =>
          have hint := isFollower_ne hz .int (by decide)
          rw [kindAt_cons_ne] at hint
          exact if_neg hint
      | @cons u u' s s' hkind hvalue _ h =>
        by_cases hu : u.kind = .int
        · have hu' : u'.kind = .int := hkind.trans hu
          simp only [Reading.keyStart?, hu, hu', if_true, hvalue (Or.inl (by rw [hu]; decide))]
          refine ⟨by rintro ⟨⟩, ?_⟩
          rintro _ _ ⟨⟩
          exact ⟨_, s', rfl, h, fun key hkey => ⟨key, hkey, fun _ => rfl⟩⟩
        · have hu' : u'.kind ≠ .int := hkind ▸ hu
          simp only [Reading.keyStart?, hu, hu', if_false]
          exact ⟨fun _ => trivial, by rintro _ _ ⟨⟩⟩
    | _ => exact ⟨fun _ => rfl, by rintro _ _ ⟨⟩⟩

theorem shapeKey?_none (h : Resembles exact z s s') (hz : isFollower z) (hs : s ≠ [])
    (hkey : shapeKey? s = .ok none) : shapeKey? s' = .ok none := by
  rw [shapeKey?_eq_none] at hkey ⊢
  intro start' behind' hstart'
  obtain ⟨hnone, hsome⟩ := h.keyStart? hz hs
  cases hstart : Reading.keyStart? s with
  | none =>
    rw [hnone hstart] at hstart'
    cases hstart'
  | some found =>
    obtain ⟨start, behind⟩ := found
    obtain ⟨_, _, hfound, hbehind, -⟩ := hsome start behind hstart
    rw [hfound] at hstart'
    cases hstart'
    exact (hbehind.keyEnd? hz).1 (hkey start behind hstart)

theorem shapeKey?_some {key : ShapeKey} {optional : Bool} (h : Resembles exact z s s')
    (hz : isFollower z) {hlt : s1.length < s.length}
    (hkey : shapeKey? s = .ok (some ⟨(key, optional), s1, hlt⟩)) :
    ∃ key' s1' hlt', shapeKey? s' = .ok (some ⟨(key', optional), s1', hlt'⟩) ∧
      Resembles exact z s1 s1' ∧ (exact → key' = key) := by
  obtain ⟨behind, hlt', hstart, hend⟩ := shapeKey?_eq_some.mp ⟨hlt, hkey⟩
  obtain ⟨start', behind', hstart', hbehind, hread⟩ :=
    (h.keyStart? hz (by rintro rfl; cases hlt)).2 _ _ hstart
  obtain ⟨key', rfl, hexact⟩ := hread key rfl
  obtain ⟨s1', hlt2, hend', h1⟩ := (hbehind.keyEnd? hz).2 _ _ _ hend
  obtain ⟨hlt3, hkey'⟩ := shapeKey?_eq_some.mpr ⟨behind', hlt2, hstart', hend'⟩
  exact ⟨key', s1', hlt3, hkey', h1, hexact⟩

/-! ### Marks of parameters -/

theorem skipDefault (h : Resembles exact z s s') (depth : Int)
    (hend : (skipDefault depth s).rest = [] → z = []) :
    Resembles exact z (Reading.skipDefault depth s).rest (Reading.skipDefault depth s').rest := by
  induction h generalizing depth with
  | nil =>
    rw [hend rfl]
    exact .nil
  | cons hkind hvalue hgap h ih =>
    rw [Reading.skipDefault] at hend
    rw [Reading.skipDefault, Reading.skipDefault, hkind]
    split
    · exact .cons hkind hvalue hgap h
    · next hstop =>
      rw [if_neg hstop] at hend
      exact ih _ hend

theorem accept_end (h : Resembles exact z s s') (kind : TokenKind) (hend : s = [] → z = []) :
    (Reading.accept kind s').value = (Reading.accept kind s).value ∧
      Resembles exact z (Reading.accept kind s).rest (Reading.accept kind s').rest := by
  refine h.accept fun hs => ?_
  rw [hend hs]
  exact kindAt_nil _

theorem parameterMarks (h : Resembles exact z s s') {variadic : Bool} (hv : exact → v' = v)
    (hend : (parameterMarks v variadic s).rest = [] → z = []) :
    (exact → (Reading.parameterMarks v' variadic s').value =
        (Reading.parameterMarks v variadic s).value) ∧
      Resembles exact z (Reading.parameterMarks v variadic s).rest
        (Reading.parameterMarks v' variadic s').rest := by
  rw [parameterMarks_rest] at hend
  have hname : behindName s = [] → z = [] := by
    intro hs
    rw [hs] at hend
    exact hend rfl
  obtain ⟨hreference, h1⟩ := h.accept_end .ampersand fun hs => hname (by rw [hs]; rfl)
  obtain ⟨hdots, h2⟩ := h1.accept_end .ellipsis fun hs => hname (by rw [behindName, hs]; rfl)
  obtain ⟨-, h3⟩ := h2.accept_end .variable fun hs => hname (by rw [behindName, hs]; rfl)
  have h3 : Resembles exact z (behindName s) (behindName s') := h3
  obtain ⟨hequals, h4⟩ := h3.accept_end .equals hname
  rw [parameterMarks_value, parameterMarks_value, hequals, hdots, hreference]
  refine ⟨fun he => by rw [hv he], ?_⟩
  rw [parameterMarks_rest, parameterMarks_rest]
  unfold behindDefault at hend ⊢
  rw [hequals]
  split
  · next hdefault =>
    rw [if_pos hdefault] at hend
    exact h4.skipDefault 0 hend
  · exact h4

end Resembles

end

/-! ### Phrases -/

/-- The phrase may end where `z` follows: it has a closing sign of its own, or `z` cannot be taken
for a part of it. -/
def MayEnd (z : List Token) : Phrase → Prop
  | .arguments _ | .body .. => True
  | .single t | .named _ t => kindAt z ≠ some .ampersand ∨ t.endsInResult = false
  | .parameters _ | .parameter _ => z = []
  | _ => kindAt z ≠ some .ampersand

/-- A phrase of this sort is derived from the tokens `s'`, with a value that fits and with tokens
left that resemble `rest`. -/
def Again (r : Reading) (exact : Prop) (z rest s' : List Token) {α : Type} (phrase : α → Phrase)
    (fits : α → Prop) : Prop :=
  ∃ a rest', r.Derives (phrase a) s' rest' ∧ Resembles exact z rest rest' ∧ fits a

/-- The phrase is derived from the tokens `s'`, if they are exact, and otherwise one of its sort. -/
def Recurs (r : Reading) (exact : Prop) (z rest s' : List Token) : Phrase → Prop
  | .type t => Again r exact z rest s' .type fun t' => exact → t' = t
  | .union t => Again r exact z rest s' .union fun t' => exact → t' = t
  | .intersection t => Again r exact z rest s' .intersection fun t' => exact → t' = t
  | .items sep ts =>
    Again r exact z rest s' (.items sep) fun ts' => ts'.length = ts.length ∧ (exact → ts' = ts)
  | .further sep ts =>
    Again r exact z rest s' (.further sep) fun ts' => ts'.length = ts.length ∧ (exact → ts' = ts)
  | .part t => Again r exact z rest s' .part fun t' => exact → t' = t
  | .single t => Again r exact z rest s' .single fun t' => exact → t' = t
  | .named name t => Again r exact z rest s' (.named name) fun t' => exact → t' = t
  | .arguments ts =>
    Again r exact z rest s' .arguments fun ts' => ts'.length = ts.length ∧ (exact → ts' = ts)
  | .body kind acc t => ∀ acc', (exact → acc' = acc) →
    Again r exact z rest s' (.body kind acc') fun t' => exact → t' = t
  | .field f => Again r exact z rest s' .field fun f' => exact → f' = f
  | .tail types => Again r exact z rest s' .tail fun types' => exact → types' = types
  | .parameters ps => Again r exact z rest s' .parameters fun ps' => exact → ps' = ps
  | .parameter p => Again r exact z rest s' .parameter fun p' => exact → p' = p

section
variable {r r' : Reading} {phrase : Phrase} {exact : Prop} {z s s' rest : List Token}

theorem mayEnd_item {sep : Separator} {v : TypeExpr} (h : kindAt z ≠ some .ampersand) :
    MayEnd z (sep.item v) := by
  cases sep <;> exact h

theorem recurs_item {sep : Separator} {v : TypeExpr} :
    Recurs r exact z rest s' (sep.item v) ↔
      Again r exact z rest s' sep.item fun v' => exact → v' = v := by
  cases sep <;> rfl

theorem ne_kind_of_follower (hz : isFollower z) (h : kindAt z ≠ some .ampersand)
    (sep : Separator) : kindAt z ≠ some sep.kind := by
  cases sep with
  | ampersand => exact h
  | pipe => exact isFollower_ne hz .pipe (by decide)
  | comma => exact isFollower_ne hz .comma (by decide)

theorem exists_tailTypes? {ts ts' : List TypeExpr} {key value : Option TypeExpr}
    (h : tailTypes? ts = some (key, value)) (hlength : ts'.length = ts.length) :
    ∃ types', tailTypes? ts' = some types' := by
  rcases tailTypes?_cases h with ⟨v, rfl, -, -⟩ | ⟨k, v, rfl, -, -⟩
  · obtain ⟨v', rfl⟩ := length_eq_one_iff.mp hlength
    exact ⟨_, rfl⟩
  · rcases ts' with _ | ⟨k', _ | ⟨v', _ | _⟩⟩ <;> simp at hlength
    exact ⟨_, rfl⟩

/-- **A phrase is derived from tokens that resemble its own.** By induction on the derivation; where
a phrase ends at the end of its tokens, what follows must not be taken for a part of it. -/
theorem Derives.resembling (h : r.Derives phrase s rest) (hscope : r'.scope = r.scope)
    (hz : isFollower z) (hs : Resembles exact z s s') (hend : rest = [] → MayEnd z phrase) :
    Recurs r' exact z rest s' phrase := by
  obtain ⟨text, scope⟩ := r
  obtain ⟨text', scope'⟩ := r'
  obtain rfl : scope' = scope := hscope
  induction h generalizing s' with
  | conditional htest hnegated hs1 _ hq _ hc hfalse ihtarget ihtrue ihfalse =>
    cases hs with
    | cons hkind hvalue _ hs =>
      cases hs with
      | cons hkind' hvalue' _ hs =>
        obtain ⟨hnot, hrest⟩ := hs.acceptWord hz "not"
        obtain ⟨target, _, htarget, hs, hsame⟩ := ihtarget (hs1 ▸ hrest) (by simp)
        cases hs with
        | cons hq' _ _ hs =>
          obtain ⟨whenTrue, _, htrue, hs, hsame'⟩ := ihtrue hs (by simp)
          cases hs with
          | cons hc' _ _ hs =>
            obtain ⟨whenFalse, rest', hfalse, hs, hsame2⟩ := ihfalse hs hend
            refine ⟨_, rest', .conditional ((Resembles.isTest_eq hkind hvalue hkind' hvalue').trans
              htest) (hnot.trans hnegated) rfl htarget (hq'.trans hq) htrue (hc'.trans hc) hfalse,
              hs, fun he => ?_⟩
            rw [hvalue (Or.inr he), hsame he, hsame' he, hsame2 he]
  | plain htest hunion ih =>
    obtain ⟨v, rest', hunion', hrest, hsame⟩ := ih hs hend
    have hne := (Derives.plain htest hunion).ne_nil
    exact ⟨v, rest', .plain ((hs.startsTest_eq hz hne).trans htest) hunion', hrest, hsame⟩
  | union _ ih =>
    obtain ⟨vs, rest', hitems, hs1, -, hsame⟩ := ih hs hend
    exact ⟨_, rest', .union hitems, hs1, fun he => by rw [hsame he]⟩
  | intersection _ ih =>
    obtain ⟨vs, rest', hitems, hs1, -, hsame⟩ := ih hs hend
    exact ⟨_, rest', .intersection hitems, hs1, fun he => by rw [hsame he]⟩
  | items sep _ hrest ihfirst ihrest =>
    obtain ⟨v, _, hfirst', hs1, hsame⟩ := recurs_item.mp
      (ihfirst hs fun hs1 => mayEnd_item (hend (hrest.eq_nil hs1)))
    obtain ⟨vs, rest', hrest', hs2, hlength, hsame'⟩ := ihrest hs1 hend
    exact ⟨_, rest', .items sep hfirst' hrest', hs2, by rw [length_cons, length_cons, hlength],
      fun he => by rw [hsame he, hsame' he]⟩
  | @last sep s h =>
    refine ⟨[], s', .last fun hkind => ?_, hs, rfl, fun _ => rfl⟩
    cases hs with
    | nil => exact absurd hkind (ne_kind_of_follower hz (hend rfl) sep)
    | cons hkind' _ _ hs =>
      rw [kindAt_cons, hkind'] at hkind
      exact (hs.goesOn_eq hz sep).trans (h hkind)
  | more ht hgoes _ hrest ihnext ihrest =>
    cases hs with
    | cons hkind _ _ hs =>
      obtain ⟨v, _, hnext', hs1, hsame⟩ := recurs_item.mp
        (ihnext hs fun hs1 => mayEnd_item (hend (hrest.eq_nil hs1)))
      obtain ⟨vs, rest', hrest', hs2, hlength, hsame'⟩ := ihrest hs1 hend
      exact ⟨_, rest', .more (hkind.trans ht) ((hs.goesOn_eq hz _).trans hgoes) hnext' hrest', hs2,
        by rw [length_cons, length_cons, hlength], fun he => by rw [hsame he, hsame' he]⟩
  | question ht hinner ih =>
    cases hs with
    | cons hkind _ _ hs =>
      obtain ⟨v, rest', hinner', hs1, hsame⟩ := ih hs hend
      exact ⟨_, rest', .question (hkind.trans ht) hinner', hs1, fun he => by rw [hsame he]⟩
  | part hquestion hsingle hw hs2 ih =>
    subst hw hs2
    obtain ⟨v, _, hsingle', hs1, hsame⟩ := ih hs fun hs1 => by
      subst hs1
      exact Or.inl (hend rfl)
    obtain ⟨hmarked, hrest⟩ := hs1.arrayMarks hz hsame
    exact ⟨_, _, .part (hs.next_ne hz hquestion)
      hsingle' rfl rfl, hrest, hmarked⟩
  | paren ht hinner hu ih =>
    cases hs with
    | cons hkind _ _ hs =>
      obtain ⟨v, _, hinner', hs1, hsame⟩ := ih hs (by simp)
      cases hs1 with
      | cons hkind' _ _ hs1 =>
        exact ⟨v, _, .paren (hkind.trans ht) hinner' (hkind'.trans hu), hs1, hsame⟩
  | this ht hthis =>
    cases hs with
    | cons hkind hvalue _ hs =>
      exact ⟨_, _, .this (hkind.trans ht) ((hvalue (Or.inl (by rw [ht]; decide))).trans hthis), hs,
        fun _ => rfl⟩
  | number ht hvalue =>
    obtain ⟨rest', hvalue', hrest⟩ := hs.number ⟨text', scope'⟩ hvalue
    cases hs with
    | cons hkind => exact ⟨_, rest', .number (by rw [hkind]; exact ht) hvalue', hrest, fun _ => rfl⟩
  | string ht =>
    cases hs with
    | cons hkind hvalue _ hs =>
      exact ⟨_, _, .string (hkind.trans ht), hs, fun he => by rw [hvalue (Or.inr he)]⟩
  | name ht hname ih =>
    cases hs with
    | cons hkind hvalue _ hs =>
      obtain ⟨v, rest', hname', hs1, hsame⟩ := ih hs hend
      rw [← hvalue (Or.inl (by rw [ht]; decide))] at hname'
      exact ⟨v, rest', .name (hkind.trans ht) hname', hs1, hsame⟩
  | @alone name s h =>
    refine ⟨_, s', .alone ?_, hs, fun _ => rfl⟩
    cases hs with
    | nil => exact opens_follower hz name
    | cons hkind => exact (congrArg _ (congrArg some hkind)).trans h
  | member ht hmember =>
    cases hs with
    | cons hkind _ hgap hs =>
      obtain ⟨rest', hmember', hrest⟩ :=
        hs.memberReference hz hgap hmember (show (Reading.mk text' scope').scope = _ from rfl)
      exact ⟨_, rest', .member (hkind.trans ht) hmember', hrest, fun _ => rfl⟩
  | callable hcallable ht hparams hu hbehind ih =>
    cases hs with
    | cons hkind _ _ hs =>
      obtain ⟨ps, _, hparams', hs1, hsame⟩ := ih hs (by simp)
      cases hs1 with
      | cons hkind' _ _ hs1 =>
        exact ⟨_, _, .callable hcallable (hkind.trans ht) hparams' (hkind'.trans hu)
          (hs1.next_ne hz hbehind), hs1,
          fun he => by rw [hsame he]⟩
  | callableResult hcallable ht hparams hu hc hresult ihparams ihresult =>
    cases hs with
    | cons hkind _ _ hs =>
      obtain ⟨ps, _, hparams', hs1, hsame⟩ := ihparams hs (by simp)
      cases hs1 with
      | cons hu' _ _ hs1 =>
        cases hs1 with
        | cons hc' _ _ hs1 =>
          obtain ⟨v, rest', hresult', hs2, hsame'⟩ := ihresult hs1 fun hs2 =>
            (hend hs2).resolve_right (by simp [endsInResult])
          exact ⟨_, rest', .callableResult hcallable (hkind.trans ht) hparams' (hu'.trans hu)
            (hc'.trans hc) hresult', hs2, fun he => by rw [hsame he, hsame' he]⟩
  | shape hshape ht hbody ih =>
    cases hs with
    | cons hkind _ _ hs =>
      obtain ⟨v, rest', hbody', hs1, hsame⟩ := ih hs (fun _ => trivial) [] fun _ => rfl
      exact ⟨v, rest', .shape hshape (hkind.trans ht) hbody', hs1, hsame⟩
  | range hname ht hrange =>
    obtain ⟨rest', hrange', hrest⟩ := hs.intRange ⟨text', scope'⟩ hrange
    cases hs with
    | cons hkind => exact ⟨_, rest', .range hname (hkind.trans ht) hrange', hrest, fun _ => rfl⟩
  | generic hname hopens ht hargs ih =>
    cases hs with
    | cons hkind _ _ hs =>
      obtain ⟨vs, rest', hargs', hs1, -, hsame⟩ := ih hs fun _ => trivial
      exact ⟨_, rest', .generic hname hopens (hkind.trans ht) hargs', hs1,
        fun he => by rw [hsame he]; rfl⟩
  | arguments _ hs2 ht ih =>
    obtain ⟨vs, s1', hitems, hs1, hsame⟩ := ih hs fun hs1 => by
      subst hs1
      cases hs2
    obtain ⟨_, _, hs2', hkind, hs2⟩ := hs1.accept_cons hz (by decide) hs2
    exact ⟨vs, _, .arguments hitems hs2' (hkind.trans ht), hs2, hsame⟩
  | bodyEnd ht =>
    cases hs with
    | cons hkind _ _ hs =>
      exact fun acc' hacc => ⟨_, _, .bodyEnd (hkind.trans ht), hs, fun he => by rw [hacc he]⟩
  | bodyTail ht htail hs2 hu ih =>
    cases hs with
    | cons hkind _ _ hs =>
      obtain ⟨⟨key, value⟩, s1', htail', hs1, hsame⟩ := ih hs fun hs1 => by
        subst hs1
        cases hs2
      obtain ⟨_, _, hs2', hkind', hrest⟩ := hs1.accept_cons hz (by decide) hs2
      refine fun acc' hacc => ⟨_, _, .bodyTail (hkind.trans ht) htail' hs2' (hkind'.trans hu),
        hrest, fun he => ?_⟩
      obtain ⟨rfl, rfl⟩ := Prod.mk.inj (hsame he)
      rw [hacc he]
  | bodyMore hbrace hdots hfield ht hrest ihfield ihrest =>
    intro acc' hacc
    obtain ⟨f, _, hfield', hs1, hsame⟩ := ihfield hs (by simp)
    cases hs1 with
    | cons hkind _ _ hs1 =>
      obtain ⟨v, rest', hrest', hs2, hsame'⟩ := ihrest hs1 (fun _ => trivial) (f :: acc')
        fun he => by rw [hsame he, hacc he]
      exact ⟨v, rest', .bodyMore
        (hs.next_ne hz hbrace)
        (hs.next_ne hz hdots) hfield'
        (hkind.trans ht) hrest', hs2, hsame'⟩
  | bodyLast hbrace hdots hfield ht ih =>
    intro acc' hacc
    obtain ⟨f, _, hfield', hs1, hsame⟩ := ih hs (by simp)
    cases hs1 with
    | cons hkind _ _ hs1 =>
      exact ⟨_, _, .bodyLast (hs.next_ne hz hbrace)
        (hs.next_ne hz hdots) hfield'
        (hkind.trans ht), hs1, fun he => by rw [hsame he, hacc he]⟩
  | keyed hkey hvalue ih =>
    obtain ⟨key, _, _, hkey', hs1, hsame⟩ := hs.shapeKey?_some hz hkey
    obtain ⟨v, rest', hvalue', hs2, hsame'⟩ := ih hs1 hend
    exact ⟨_, rest', .keyed hkey' hvalue', hs2, fun he => by rw [hsame he, hsame' he]⟩
  | positional hkey hvalue ih =>
    obtain ⟨v, rest', hvalue', hs1, hsame⟩ := ih hs hend
    exact ⟨_, rest', .positional (hs.shapeKey?_none hz hvalue.ne_nil hkey) hvalue', hs1,
      fun he => by rw [hsame he]⟩
  | tailEnd h =>
    exact ⟨_, s', .tailEnd (hs.next_ne hz h), hs,
      fun _ => rfl⟩
  | tail ht hargs htail ih =>
    cases hs with
    | cons hkind _ _ hs =>
      obtain ⟨vs, rest', hargs', hs1, hlength, hsame⟩ := ih hs fun _ => trivial
      obtain ⟨⟨key, value⟩, htail'⟩ := exists_tailTypes? htail hlength
      refine ⟨_, rest', .tail (hkind.trans ht) hargs' htail', hs1, fun he => ?_⟩
      rw [hsame he, htail] at htail'
      exact (Option.some.inj htail').symm
  | parametersEnd ht =>
    have hs' := hs
    cases hs with
    | cons hkind => exact ⟨[], _, .parametersEnd (hkind.trans ht), hs', fun _ => rfl⟩
  | parametersMore hparen hparam ht hrest ihparam ihrest =>
    obtain ⟨p, _, hparam', hs1, hsame⟩ := ihparam hs (by simp)
    cases hs1 with
    | cons hkind _ _ hs1 =>
      obtain ⟨ps, rest', hrest', hs2, hsame'⟩ := ihrest hs1 hend
      refine ⟨_, rest', .parametersMore (hs.kindAt_ne hparen fun hnil => ?_) hparam'
        (hkind.trans ht) hrest', hs2, fun he => by rw [hsame he, hsame' he]⟩
      cases hparam.eq_nil hnil
  | parametersLast hnil hparen hparam hcomma ih =>
    obtain ⟨p, rest', hparam', hs1, hsame⟩ := ih hs hend
    refine ⟨_, rest', .parametersLast ?_ (hs.kindAt_ne hparen fun h => absurd h hnil) hparam'
      (hs1.next_ne hz hcomma), hs1,
      fun he => by rw [hsame he]⟩
    cases hs with
    | nil => exact absurd rfl hnil
    | cons => exact cons_ne_nil _ _
  | dots ht hstarts htype hp hs2 ih =>
    subst hp hs2
    cases hs with
    | cons hkind _ _ hs =>
      obtain ⟨v, _, htype', hs1, hsame⟩ := ih hs fun hs1 => by
        subst hs1
        rw [hend rfl]
        exact kindAt_nil _
      obtain ⟨hvalue, hrest⟩ := hs1.parameterMarks hsame hend
      exact ⟨_, _, .dots (hkind.trans ht) ((hs.startsType_eq hz).trans hstarts) htype' rfl rfl,
        hrest, hvalue⟩
  | marks ht hstarts hp hs1 =>
    subst hp hs1
    obtain ⟨hvalue, hrest⟩ := hs.parameterMarks (fun _ => rfl) hend
    cases hs with
    | cons hkind _ _ hs =>
      refine ⟨_, _, .marks (by rw [hkind]; exact ht) (fun hdots => ?_) rfl rfl, hrest, hvalue⟩
      exact (hs.startsType_eq hz).trans (hstarts (hkind.symm.trans hdots))
  | typed ht htype hp hs2 ih =>
    subst hp hs2
    obtain ⟨v, _, htype', hs1, hsame⟩ := ih hs fun hs1 => by
      subst hs1
      rw [hend rfl]
      exact kindAt_nil _
    obtain ⟨hvalue, hrest⟩ := hs1.parameterMarks hsame hend
    cases hs with
    | cons hkind => exact ⟨_, _, .typed (by rw [hkind]; exact ht) htype' rfl rfl, hrest, hvalue⟩

/-! ### Tokens further on -/

/-- The tokens `n` characters further on, with `z` behind them. -/
def placed (n : Nat) (z s : List Token) : List Token := s.map (Token.moved n) ++ z

theorem resembles_placed (n : Nat) (z s : List Token) : Resembles exact z s (placed n z s) := by
  induction s with
  | nil => exact .nil
  | cons t s ih =>
    refine .cons rfl (fun _ => rfl) (fun hs => ?_) ih
    cases s with
    | nil => exact absurd rfl hs
    | cons u s =>
      show StartsAt _ (u.moved n :: _) ↔ _
      rw [startsAt_cons, startsAt_cons, Token.moved_stop]
      exact Nat.add_right_cancel_iff

theorem Derives.within {t : TypeExpr} {n : Nat} (h : r.Derives (.type t) s [])
    (hscope : r'.scope = r.scope) (hz : isFollower z) (hend : kindAt z ≠ some .ampersand) :
    r'.Derives (.type t) (placed n z s) z := by
  obtain ⟨t', rest', h', hrest, hsame⟩ :=
    h.resembling hscope hz (resembles_placed n z s : Resembles True z s _) fun _ => hend
  cases hrest
  rwa [hsame trivial] at h'

end

end StubCatalog.TypeExpr.Reading
