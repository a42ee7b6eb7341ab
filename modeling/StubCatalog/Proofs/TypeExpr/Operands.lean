import StubCatalog.Proofs.TypeExpr.ClearText
import StubCatalog.Proofs.TypeExpr.Members

/-! # Operands of bars and ampersands

A type in parentheses is read as the type on its own, so types can be put together from their texts
(`parse_composed`). A single type can stand on either side of an ampersand too, but behind it only
if it does not start with `$this` (`parse_ampersand_comm_iff`). -/

namespace StubCatalog.TypeExpr

open List Reading

/-! ### Parentheses -/

/-- The text in parentheses. -/
def enclosed (text : String) : String := "(" ++ text ++ ")"

theorem toList_enclosed (text : String) :
    (enclosed text).toList = '(' :: (text.toList ++ [')']) := by
  simp [enclosed]

/-- The tokens are read as the single type, whatever stands behind them, and start with a
parenthesis. -/
structure ReadsSingle (scope : Scope) (t : TypeExpr) (ts : List Token) : Prop where
  start (z : List Token) : kindAt (ts ++ z) = some .leftParen
  single (text : String) (z : List Token) : (Reading.mk text scope).Derives (.single t) (ts ++ z) z

section
variable {text : String} {scope : Scope} {t : TypeExpr} {ts z : List Token}

theorem spells_enclosed (h : parse text scope = .ok t) :
    Spells (enclosed text).toList (ReadsSingle scope t) := by
  obtain ⟨tokens, htokens, hderives⟩ := parse_eq_ok_iff.mp h
  have htext : Spells text.toList fun ts => ∃ n, ts = tokens.map (Token.moved n) := by
    intro start
    have hmoved := tokensFrom_moved start htokens
    rw [Nat.zero_add] at hmoved
    exact ⟨_, hmoved, start, rfl⟩
  rw [toList_enclosed]
  refine htext.enclose.mono ?_
  rintro _ ⟨a, _, b, rfl, ha, ⟨n, rfl⟩, hb⟩
  refine ⟨fun z => congrArg some ha, fun text' z => ?_⟩
  have hfollower : isFollower (b :: z) := by simp [isFollower, kindAt, hb]
  rw [cons_append, append_assoc, singleton_append]
  exact .paren ha (hderives.within rfl hfollower (by simp [kindAt, hb])) hb

theorem ReadsSingle.part (h : ReadsSingle scope t ts) (hz : ClosesPart false z) :
    (Reading.mk text scope).Derives (.part t) (ts ++ z) z :=
  derives_part (by rw [h.start]; simp) (h.single text z) hz

theorem parse_of_spells (h : Spells text.toList fun ts =>
    (kindAt ts = some .leftParen ∨ kindAt ts = some .question) ∧
      (Reading.mk text scope).Derives (.union t) ts []) : parse text scope = .ok t := by
  obtain ⟨ts, htokens, hstart, hunion⟩ := h 0
  refine parse_eq_ok_iff.mpr ⟨ts, htokens, .plain ?_ hunion⟩
  cases ts with
  | nil => rfl
  | cons a ts =>
    cases ts with
    | nil => rfl
    | cons b ts =>
      rw [kindAt_cons, Option.some.injEq, Option.some.injEq] at hstart
      rcases hstart with ha | ha <;> simp [startsTest, isTest, ha]

theorem further_nil {r : Reading} {sep : Separator} : r.Derives (.further sep []) [] [] :=
  .last fun h => absurd h (kindAt_nil _)

theorem derives_union_nil {r : Reading} (h : r.Derives (.part t) ts []) :
    r.Derives (.union t) ts [] :=
  .union (.items .pipe (.intersection (.items .ampersand h further_nil)) further_nil)

theorem parse_enclosed (h : parse text scope = .ok t) : parse (enclosed text) scope = .ok t := by
  refine parse_of_spells ((spells_enclosed h).mono fun ts hts => ?_)
  have hstart := hts.start []
  have hpart := @ReadsSingle.part (enclosed text) scope t ts [] hts rfl
  rw [append_nil] at hstart hpart
  exact ⟨Or.inl hstart, derives_union_nil hpart⟩

theorem parse_question (h : parse text scope = .ok t) :
    parse ("?" ++ enclosed text) scope = .ok (nullableOf t) := by
  refine parse_of_spells ?_
  rw [String.toList_append]
  refine ((spells_enclosed h).sign (c := '?') rfl (by decide)).mono ?_
  rintro _ ⟨a, ts, rfl, ha, hts⟩
  have hpart := @ReadsSingle.part ("?" ++ enclosed text) scope t ts [] hts rfl
  rw [append_nil] at hpart
  exact ⟨Or.inr (congrArg some ha), derives_union_nil (.question ha hpart)⟩

theorem parse_brackets (h : parse text scope = .ok t) :
    parse (enclosed text ++ "[]") scope = .ok (.generic "array" [t]) := by
  have hmarks := (spells_nil.sign (c := ']') rfl (by decide)).sign (c := '[') rfl (by decide)
  refine parse_of_spells ?_
  rw [String.toList_append]
  refine ((spells_enclosed h).append hmarks rfl (by simp)).mono ?_
  rintro _ ⟨ts, _, rfl, hts, a, _, rfl, ha, b, _, rfl, hb, rfl⟩
  obtain ⟨hvalue, hrest⟩ := @arrayMarks_cons_cons [] t a b
  obtain ⟨hlt, hend⟩ := @arrayMarks_of_ne [] (.generic "array" [t]) nofun
  rw [if_pos ⟨ha, hb⟩, hend] at hvalue hrest
  refine ⟨Or.inl (hts.start _), derives_union_nil (.part ?_ (hts.single _ _) hvalue hrest)⟩
  rw [hts.start]
  simp

end

section
variable {scope : Scope} {parts : List (String × TypeExpr)}
  (h : ∀ part ∈ parts, parse part.1 scope = .ok part.2) (hmany : 2 ≤ parts.length)
include h hmany

theorem spells_enclosedParts (sep : String) {kind : TokenKind}
    (hsep : IsSeparator sep.toList kind) :
    Spells (Text.joined sep (parts.map fun part => enclosed part.1)).toList fun ts =>
      kindAt ts = some .leftParen ∧ Joined kind (fun part => ReadsSingle scope part.2) parts ts := by
  have hne : parts ≠ [] := by
    rintro rfl
    simp at hmany
  rw [toList_joined, listed_map]
  refine (spells_listed hsep hne fun part hpart => spells_enclosed (h part hpart)).mono ?_
  intro ts hts
  obtain ⟨part, _, us, rest, -, rfl, hus, -⟩ := hts.exists_first
  exact ⟨hus.start rest, hts⟩

theorem parse_bars : parse (Text.joined "|" (parts.map fun part => enclosed part.1)) scope =
    .ok (unionOf (parts.map Prod.snd)) := by
  refine parse_of_spells ((spells_enclosedParts h hmany "|" isSeparator_pipe).mono ?_)
  rintro ts ⟨hstart, hts⟩
  refine ⟨Or.inl hstart, ?_⟩
  rw [← append_nil ts, ← combined_map unionOf hmany]
  refine .union (derives_joined .pipe Prod.snd hts (fun h => absurd h (kindAt_nil _))
    (fun _ _ _ _ _ => rfl) (fun part _ us hus s hs => ?_) fun part _ us hus => ?_)
  · exact .intersection (.items .ampersand (hus.part (closesPart_of_kindAt hs rfl))
      (.last (by rw [hs]; simp [Separator.kind])))
  · exact .intersection (.items .ampersand (hus.part (z := []) rfl) further_nil)

theorem parse_ampersands : parse (Text.joined "&" (parts.map fun part => enclosed part.1)) scope =
      .ok (intersectionOf (parts.map Prod.snd)) := by
  refine parse_of_spells ((spells_enclosedParts h hmany "&" isSeparator_ampersand).mono ?_)
  rintro ts ⟨hstart, hts⟩
  refine ⟨Or.inl hstart, ?_⟩
  rw [← append_nil ts, ← combined_map intersectionOf hmany]
  refine .union (.items .pipe (.intersection ?_) further_nil)
  exact derives_joined .ampersand Prod.snd hts (fun h => absurd h (kindAt_nil _))
    (fun part _ us hus s => by rw [hus.start]; rfl)
    (fun part _ us hus s hs => hus.part (closesPart_of_kindAt hs rfl))
    fun part _ us hus => hus.part rfl

end

/-- **Reading is compositional under parentheses.** Texts that are read in a scope, put in
parentheses, are read as the alternatives or the combination of their types, and a question mark or
a pair of brackets makes the type nullable or an array. -/
theorem parse_composed {scope : Scope} {parts : List (String × TypeExpr)}
    (h : ∀ part ∈ parts, parse part.1 scope = .ok part.2) :
    (2 ≤ parts.length → parse (Text.joined "|" (parts.map fun part => enclosed part.1)) scope =
          .ok (unionOf (parts.map Prod.snd)) ∧
        parse (Text.joined "&" (parts.map fun part => enclosed part.1)) scope =
          .ok (intersectionOf (parts.map Prod.snd))) ∧
    ∀ part ∈ parts, parse (enclosed part.1) scope = .ok part.2 ∧
      parse ("?" ++ enclosed part.1) scope = .ok (nullableOf part.2) ∧
      parse (enclosed part.1 ++ "[]") scope = .ok (.generic "array" [part.2]) := by
  refine ⟨fun hmany => ⟨parse_bars h hmany, parse_ampersands h hmany⟩, fun part hpart => ?_⟩
  exact ⟨parse_enclosed (h part hpart), parse_question (h part hpart), parse_brackets (h part hpart)⟩

/-- The template parameter `T` without a bound. -/
def elementScope : Scope where
  templates := Table.empty.insert "T" none

/-- A callable whose result would go on into the bar behind it, and a conditional. -/
def resultOrTest : List (String × TypeExpr) :=
  [("callable(): T", .callable "callable" [] (some (.template "T" none))),
    ("$x is T ? int : null", .conditional "$x" (.template "T" none) (.keyword "int") null false)]

theorem parse_composed_results : parse "(callable(): T)|($x is T ? int : null)" elementScope =
        .ok (unionOf (resultOrTest.map Prod.snd)) ∧
      parse "(callable(): T)&($x is T ? int : null)" elementScope =
        .ok (intersectionOf (resultOrTest.map Prod.snd)) ∧
      parse "($x is T ? int : null)[]" elementScope = .ok (.generic "array"
        [.conditional "$x" (.template "T" none) (.keyword "int") null false]) := by
  have hread : ∀ part ∈ resultOrTest, parse part.1 elementScope = .ok part.2 := by
    simp only [resultOrTest, forall_mem_cons, not_mem_nil, false_implies, implies_true,
      and_true]
    constructor
    · with_unfolding_all rfl
    · with_unfolding_all rfl
  obtain ⟨hmany, heach⟩ := parse_composed hread
  obtain ⟨hbars, hampersands⟩ := hmany (by decide)
  exact ⟨hbars, hampersands, (heach _ (mem_cons_of_mem _ (mem_singleton.mpr rfl))).2.2⟩

/-! ### Single types on both sides of an ampersand -/

namespace Reading
variable {r r' : Reading} {v : TypeExpr} {n : Nat} {z s rest : List Token}

theorem Derives.single_start (h : r.Derives (.single v) s rest) :
    kindAt s ≠ some .question ∧ (kindAt s ≠ some .variable → startsType (kindAt s)) := by
  cases h with
  | paren ht => simp [kindAt, ht, startsType]
  | this ht => simp [kindAt, ht]
  | number ht =>
    simp only [startsNumber, Bool.or_eq_true, decide_eq_true_eq] at ht
    rcases ht with ((ht | ht) | ht) | ht <;> simp [kindAt, ht, startsType]
  | string ht => simp [kindAt, ht, startsType]
  | name ht => simp [kindAt, ht, startsType]

theorem Derives.single_test (h : r.Derives (.single v) s rest) (htest : startsTest s) :
    kindAt rest = some .identifier := by
  match s, htest with
  | first :: second :: others, htest =>
    simp only [startsTest, isTest, isWord, Bool.and_eq_true, beq_iff_eq, Bool.or_eq_true,
      decide_eq_true_eq] at htest
    obtain ⟨⟨hsecond, -⟩, hfirst⟩ := htest
    cases h with
    | paren ht => simp [ht] at hfirst
    | this => exact congrArg some hsecond
    | number ht =>
      rcases hfirst with hfirst | ⟨hfirst, -⟩ <;> rw [hfirst] at ht <;> cases ht
    | string ht => simp [ht] at hfirst
    | name _ hname =>
      cases hname with
      | alone => exact congrArg some hsecond
      | member ht => simp [ht] at hsecond
      | callable _ ht => simp [ht] at hsecond
      | callableResult _ ht => simp [ht] at hsecond
      | shape _ ht => simp [ht] at hsecond
      | range _ ht => simp [ht] at hsecond
      | generic _ _ ht => simp [ht] at hsecond

/-- **A single type in other surroundings.** Unless it ends in the result of a callable, it is read
alike in front of an ampersand too. -/
theorem Derives.single_resembling {exact : Prop} {s' : List Token}
    (h : r.Derives (.single v) s rest) (hscope : r'.scope = r.scope) (hz : isFollower z)
    (hs : Resembles exact z s s')
    (hclosed : kindAt s = some .leftParen ∨ v.endsInResult = false) :
    Recurs r' exact z rest s' (.single v) := by
  rcases hclosed with hparen | hclosed
  · cases h with
    | paren ht hinner hu =>
      cases hs with
      | cons hkind _ _ hs =>
        obtain ⟨v', _, hinner', hs1, hsame⟩ := hinner.resembling hscope hz hs (by simp)
        cases hs1 with
        | cons hkind' _ _ hs1 =>
          exact ⟨v', _, .paren (hkind.trans ht) hinner' (hkind'.trans hu), hs1, hsame⟩
    | this ht | string ht | name ht =>
      rw [kindAt_cons, ht] at hparen
      cases hparen
    | number ht =>
      rw [kindAt_cons, Option.some.injEq] at hparen
      rw [hparen] at ht
      cases ht
  · exact h.resembling hscope hz hs fun _ => Or.inr hclosed

theorem moved_zero (s : List Token) : s.map (Token.moved 0) = s := by
  induction s with
  | nil => rfl
  | cons t s ih => rw [map_cons, ih, Token.moved, Nat.add_zero]

end Reading

/-- The text is a single type, with pairs of brackets behind it at most, that does not end in the
result of a callable. -/
def isOperand (text : String) : Bool :=
  match tokenize text with
  | .error _ => false
  | .ok tokens =>
    match (Reading.mk text {}).single tokens with
    | .error _ => false
    | .ok atom =>
      (arrayMarks atom.value atom.rest).rest.isEmpty &&
        (kindAt tokens == some .leftParen || !atom.value.endsInResult)

/-- The text starts with a variable, that is, with `$this` where a type is read. -/
def startsWithVariable (text : String) : Bool :=
  match tokenize text with
  | .error _ => false
  | .ok tokens => kindAt tokens == some .variable

/-- What counts of an operand: its tokens are read as the type in front of an ampersand and at the
end, and they start no conditional. -/
structure OperandOf (text : String) (tokens : List Token) (t : TypeExpr) : Prop where
  cut : tokenize text = .ok tokens
  plain : startsTest tokens = false
  starts : kindAt tokens ≠ some .variable → startsType (kindAt tokens)
  part {r : Reading} {z : List Token} (n : Nat) : r.scope = {} → isFollower z →
    r.Derives (.part t) (placed n z tokens) z

theorem exists_operandOf {text : String} (h : isOperand text) :
    ∃ tokens t, OperandOf text tokens t := by
  unfold isOperand at h
  split at h
  · cases h
  · next tokens htokens =>
    split at h
    · cases h
    · next atom hatom =>
      obtain ⟨atom, rest, hlt⟩ := atom
      simp only [Bool.and_eq_true, List.isEmpty_iff, Bool.or_eq_true, beq_iff_eq,
        Bool.not_eq_true'] at h
      obtain ⟨hmarks, hclosed⟩ := h
      have hsingle := single_outcome (r := ⟨text, {}⟩) tokens (List.Subset.refl tokens)
      rw [hatom] at hsingle
      have hsingle : (Reading.mk text {}).Derives (.single atom) tokens rest := hsingle
      refine ⟨tokens, (arrayMarks atom rest).value, htokens, ?_, hsingle.single_start.2, ?_⟩
      · rw [Bool.eq_false_iff]
        intro htest
        have hrest := hsingle.single_test htest
        obtain ⟨_, hsame⟩ := @arrayMarks_of_ne rest atom (by rw [hrest]; simp)
        rw [hsame] at hmarks
        simp only at hmarks
        rw [hmarks] at hrest
        cases hrest
      · intro r z n hscope hz
        have hplaced : Resembles True z tokens (placed n z tokens) := resembles_placed n z tokens
        obtain ⟨atom', rest', hsingle', hrest, hsame⟩ :=
          hsingle.single_resembling hscope hz hplaced hclosed
        obtain ⟨hvalue, hleft⟩ := hrest.arrayMarks hz hsame
        rw [hmarks] at hleft
        exact .part (hplaced.kindAt_ne hsingle.single_start.1 fun _ =>
          isFollower_ne hz _ (by decide)) hsingle' (hvalue trivial) hleft.eq_of_nil

section
variable {x y : String} {xs ys : List Token} {t u : TypeExpr}

theorem OperandOf.ne_nil (h : OperandOf x xs t) : xs ≠ [] := by
  rintro rfl
  obtain ⟨hlt, -⟩ := (h.part (r := ⟨x, {}⟩) (z := []) 0 rfl rfl).read
  cases hlt

theorem OperandOf.parse (h : OperandOf x xs t) : parse x = .ok t := by
  have hpart := h.part (r := ⟨x, {}⟩) (z := []) 0 rfl rfl
  rw [placed, moved_zero, append_nil] at hpart
  exact parse_eq_ok_iff.mpr ⟨xs, h.cut, .plain h.plain (derives_union_nil hpart)⟩

theorem tokenize_ampersand (hx : OperandOf x xs t) (hy : OperandOf y ys u) :
    tokenize (x ++ "&" ++ y) = .ok (xs ++ ⟨.ampersand, "&", x.toList.length⟩ ::
      ys.map (Token.moved (x.toList.length + 1))) := by
  have hmoved := tokensFrom_moved (x.toList.length + 1) hy.cut
  rw [Nat.zero_add] at hmoved
  have hsign := tokensFrom_sign (c := '&') rfl (by decide) hmoved
  have hboth := tokensFrom_append (z := '&' :: y.toList) hx.cut rfl fun _ => by simp
  rw [Nat.zero_add, hsign] at hboth
  rw [tokenize, String.toList_append, String.toList_append, append_assoc]
  exact hboth

/-- **An ampersand between two single types** combines them, unless the second one is `$this`: then
the ampersand is left over. -/
theorem parse_ampersand (hx : OperandOf x xs t) (hy : OperandOf y ys u) :
    parse (x ++ "&" ++ y) = if kindAt ys = some .variable then
      .error (.malformed (.trailing "&") x.toList.length (x ++ "&" ++ y))
      else .ok (intersectionOf [t, u]) := by
  have htokens := tokenize_ampersand hx hy
  generalize hsign : (⟨.ampersand, "&", x.toList.length⟩ : Token) = sign at htokens
  generalize hothers : ys.map (Token.moved (x.toList.length + 1)) = others at htokens
  have hkind : kindAt others = kindAt ys := by
    rw [← hothers]
    cases ys <;> rfl
  have hfollower : isFollower (sign :: others) := by
    rw [← hsign]
    rfl
  have hpipe : kindAt (sign :: others) ≠ some .pipe :=
    isFollower_ne hfollower _ (by decide)
  have hplain : startsTest (xs ++ sign :: others) = false := by
    have hplaced : Resembles True (sign :: others) xs (placed 0 (sign :: others) xs) :=
      resembles_placed 0 _ xs
    rw [placed, moved_zero] at hplaced
    exact (hplaced.startsTest_eq hfollower hx.ne_nil).trans hx.plain
  have hfirst := hx.part (r := ⟨x ++ "&" ++ y, {}⟩) 0 rfl hfollower
  rw [placed, moved_zero] at hfirst
  split
  · next hvariable =>
    have hend : kindAt (sign :: others) = some .ampersand →
        startsType (kindAt (sign :: others).tail) = false := by
      intro _
      rw [tail_cons, hkind, hvariable]
      rfl
    have hleft := parse_eq_trailing htokens
      (.plain hplain (.union (.items .pipe (.intersection (.items .ampersand hfirst (.last hend)))
        (.last fun h => absurd h hpipe))))
    rw [hleft, ← hsign]
  · next hvariable =>
    have hsecond := hy.part (r := ⟨x ++ "&" ++ y, {}⟩) (z := []) (x.toList.length + 1) rfl rfl
    rw [placed, append_nil, hothers] at hsecond
    have hstarts : startsType (kindAt others) := by
      rw [hkind]
      exact hy.starts hvariable
    have hboth := Derives.items .ampersand hfirst
      (.more (show sign.kind = .ampersand by rw [← hsign]) hstarts hsecond further_nil)
    exact parse_eq_ok_iff.mpr ⟨_, htokens,
      .plain hplain (.union (.items .pipe (.intersection hboth) further_nil))⟩

theorem OperandOf.startsWithVariable (h : OperandOf x xs t) :
    startsWithVariable x = (kindAt xs == some .variable) := by
  rw [TypeExpr.startsWithVariable, h.cut]

end

theorem ordinary_of_parse {text : String} {t : TypeExpr} (h : parse text = .ok t) : Ordinary t := by
  have hread : ∀ u, IsReadNode (fun _ => True) (fun _ => True) u →
      u.isRegularNode ∧ u.isNumberNode := fun u hu => ⟨hu.regular, hu.number⟩
  refine formed_of_parse hread ?_ (fun _ _ _ _ => ⟨trivial, trivial⟩) h
  simp [Table.get?]

/-- **The operands of an ampersand in either order.** Two single types are read in both orders, with
equal results, if and only if neither starts with `$this`. -/
theorem parse_ampersand_comm_iff {x y : String} (hx : isOperand x = true)
    (hy : isOperand y = true) :
    ∃ t u, parse x = .ok t ∧ parse y = .ok u ∧
      ((∃ v w, parse (x ++ "&" ++ y) = .ok v ∧ parse (y ++ "&" ++ x) = .ok w ∧ v.same w = true) ↔
        startsWithVariable x = false ∧ startsWithVariable y = false) := by
  obtain ⟨xs, t, hx⟩ := exists_operandOf hx
  obtain ⟨ys, u, hy⟩ := exists_operandOf hy
  refine ⟨t, u, hx.parse, hy.parse, ?_⟩
  rw [hx.startsWithVariable, hy.startsWithVariable, parse_ampersand hx hy, parse_ampersand hy hx,
    beq_eq_false_iff_ne, beq_eq_false_iff_ne]
  constructor
  · rintro ⟨v, w, hv, hw, -⟩
    constructor
    · intro hvariable
      rw [if_pos hvariable] at hw
      cases hw
    · intro hvariable
      rw [if_pos hvariable] at hv
      cases hv
  · rintro ⟨hxs, hys⟩
    rw [if_neg hxs, if_neg hys]
    refine ⟨_, _, rfl, rfl, ?_⟩
    have ht := ordinary_of_parse hx.parse
    have hu := ordinary_of_parse hy.parse
    have htu : ∀ a ∈ [t, u], Ordinary a := by simp [ht, hu]
    have hut : ∀ a ∈ [u, t], Ordinary a := by simp [ht, hu]
    have hamong : ∀ {a b : TypeExpr}, Ordinary a → Ordinary b → Among [a, b] [b, a] := by
      intro a b ha hb c hc
      refine ⟨c, ?_, ?_⟩
      · simpa [or_comm] using hc
      · rcases mem_pair.mp hc with rfl | rfl
        · exact ha.same_self
        · exact hb.same_self
    exact same_intersectionOf htu hut (hamong ht hu) (hamong hu ht)

/-- A shape and a callable in parentheses. -/
theorem parse_ampersand_comm_iff_shape :
    isOperand "array\x7ba?: int\x7d" = true ∧ isOperand "(callable(): int)" = true ∧
      ∃ v w, parse "array\x7ba?: int\x7d&(callable(): int)" = .ok v ∧
        parse "(callable(): int)&array\x7ba?: int\x7d" = .ok w ∧ v.same w = true := by
  have hx : isOperand "array\x7ba?: int\x7d" = true := by decide +kernel
  have hy : isOperand "(callable(): int)" = true := by decide +kernel
  obtain ⟨_, _, -, -, hiff⟩ := parse_ampersand_comm_iff hx hy
  exact ⟨hx, hy, hiff.mpr ⟨by decide +kernel, by decide +kernel⟩⟩

/-- `$this` is an operand in front of an ampersand but not behind it. -/
theorem parse_this_behind_ampersand : isOperand "A" = true ∧ isOperand "$this" = true ∧
      parse "$this&A" = .ok (.intersection [.keyword "$this", .named "A"]) ∧
      parse "A&$this" = .error (.malformed (.trailing "&") 1 "A&$this") := by
  refine ⟨by decide +kernel, by decide +kernel, ?_, ?_⟩
  · with_unfolding_all rfl
  · with_unfolding_all rfl

end StubCatalog.TypeExpr
