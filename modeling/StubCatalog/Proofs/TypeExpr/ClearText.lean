import StubCatalog.Proofs.TypeExpr.TextEdges

/-! # Types whose text is clear

The text of a type reads back unless one of its nodes is written in a way that is read otherwise
(`isClearNode`): `$this` behind an ampersand or at the start of a parameter, a key with a line feed
behind it, a relative class in upper case, or a conditional whose target starts with the word for a
negation or whose first branch ends in a callable without a result. -/

namespace StubCatalog.TypeExpr

open List Reading

variable {name : String} {t : TypeExpr} {kind : TokenKind} {z : List Token}
  {key value : Option TypeExpr}

/-! ### Clear types -/

/-- The key that is read for a written one: without the line feed behind a key without quotes. -/
def readKey : ShapeKey → ShapeKey
  | .str k => .str (if isBareKey k.toList then bareWord k else k)
  | key => key

/-- The key is read as it is written. -/
def isClearKey : ShapeKey → Bool
  | .str k => !isBareKey k.toList || bareWord k == k
  | _ => true

/-- What stands directly in a type is read as it is written. -/
def isClearNode : TypeExpr → Bool
  | .intersection ts => ts.tail.all (!·.isThis)
  | .shape _ fields .. => fields.all fun f => f.key.all isClearKey
  | .callable _ params _ => params.all (!·.type.startsThis)
  | .memberReference owner _ =>
    !Keyword.relatives.contains (Text.lower owner) || Text.lower owner == owner
  | .conditional _ target whenTrue _ negated =>
    (negated.isSet || !target.startsNot) && !whenTrue.endsOpen
  | _ => true

/-- The text of the type is clear: every node of it is read as it is written. -/
def isClear (t : TypeExpr) : Bool := t.nodes.all isClearNode

theorem isClear_iff : t.isClear ↔ t.isClearNode ∧ ∀ u ∈ t.children, u.isClear :=
  all_nodes_iff

theorem readKey_eq {key : ShapeKey} (h : isClearKey key) : readKey key = key := by
  cases key with
  | str k =>
    simp only [isClearKey, Bool.or_eq_true, Bool.not_eq_true', beq_iff_eq] at h
    rw [readKey]
    split
    · next hbare => rw [h.resolve_left (by simp [hbare])]
    · rfl
  | _ => rfl

/-! ### What stands behind a type -/

/-- The sorts of tokens that may stand behind a written type, which may end in a callable without a
result. -/
def mayClose (isOpen : Bool) (kind : Option TokenKind) : Bool :=
  match kind with
  | none | some .comma | some .greater | some .rightParen | some .rightBrace | some .ellipsis
  | some .equals | some .pipe | some .ampersand | some .question => true
  | some .colon => !isOpen
  | _ => false

/-- The tokens behind a part of a type. -/
def ClosesPart (isOpen : Bool) (z : List Token) : Prop := mayClose isOpen (kindAt z)

/-- The tokens behind an intersection: no further member follows. -/
structure ClosesIntersection (isOpen : Bool) (z : List Token) : Prop where
  part : ClosesPart isOpen z
  apart : kindAt z = some .ampersand → startsType (kindAt z.tail) = false

/-- The tokens behind alternatives: no further alternative follows. -/
structure ClosesUnion (isOpen : Bool) (z : List Token) : Prop where
  intersection : ClosesIntersection isOpen z
  bar : kindAt z ≠ some .pipe

section
variable {isOpen : Bool} {z : List Token}

theorem ClosesPart.ne (h : ClosesPart isOpen z)
    (hkind : mayClose isOpen (some kind) = false) : kindAt z ≠ some kind := by
  intro hz
  rw [ClosesPart, hz, hkind] at h
  cases h

theorem closesPart_of_kindAt (hz : kindAt z = some kind)
    (h : mayClose isOpen (some kind)) : ClosesPart isOpen z := by
  rw [ClosesPart, hz]
  exact h

theorem closesUnion_of_kindAt (hz : kindAt z = some kind)
    (h : (mayClose isOpen (some kind) && kind != .pipe && kind != .ampersand) = true) :
    ClosesUnion isOpen z := by
  simp only [Bool.and_eq_true, bne_iff_ne] at h
  refine ⟨⟨closesPart_of_kindAt hz h.1.1, ?_⟩, ?_⟩
  · rw [hz, Option.some.injEq]
    exact fun hkind => absurd hkind h.2
  · rw [hz, ne_eq, Option.some.injEq]
    exact h.1.2

/-- The tokens behind a parameter. -/
def EndsParameter (s : List Token) : Prop := kindAt s = some .comma ∨ kindAt s = some .rightParen

theorem closesUnion_markTokens {byReference variadic optional : Bool} {a b c : Token}
    (ha : a.kind = .ampersand) (hb : b.kind = .ellipsis) (hc : c.kind = .equals)
    (hz : EndsParameter z) :
    ClosesUnion isOpen (markTokens byReference variadic optional a b c ++ z) := by
  have hbehind : ∀ kind, kind = .comma ∨ kind = .rightParen → kindAt z = some kind →
      ClosesUnion isOpen z ∧ startsType (kindAt z) = false := by
    intro kind hkind hz
    rw [hz]
    rcases hkind with rfl | rfl <;> exact ⟨closesUnion_of_kindAt hz rfl, rfl⟩
  obtain ⟨hcloses, hstarts⟩ : ClosesUnion isOpen z ∧ startsType (kindAt z) = false :=
    hz.elim (hbehind _ (Or.inl rfl)) (hbehind _ (Or.inr rfl))
  have hequals : ∀ s, ClosesUnion isOpen (c :: s) := fun s =>
    closesUnion_of_kindAt (congrArg some hc) rfl
  have hdots : ∀ s, ClosesUnion isOpen (b :: s) := fun s =>
    closesUnion_of_kindAt (congrArg some hb) rfl
  cases byReference with
  | false =>
    cases variadic with
    | true => exact hdots _
    | false =>
      cases optional with
      | true => exact hequals _
      | false => exact hcloses
  | true =>
    refine ⟨⟨closesPart_of_kindAt (congrArg some ha) rfl, fun _ => ?_⟩, ?_⟩
    · cases variadic <;> cases optional <;> simp [markTokens, kindAt_cons, hb, hc, startsType]
      exact hstarts
    · simp [markTokens, kindAt_cons, ha]

theorem ClosesPart.opens {r : Reading} (h : ClosesPart isOpen z) (name : String) :
    r.opens name (kindAt z) = false := by
  have hcolons : kindAt z ≠ some .doubleColon := h.ne rfl
  have hparen : kindAt z ≠ some .leftParen := h.ne rfl
  have hbrace : kindAt z ≠ some .leftBrace := h.ne rfl
  have hless : kindAt z ≠ some .less := h.ne rfl
  unfold Reading.opens
  split
  · exact absurd ‹_› hcolons
  · exact absurd ‹_› hparen
  · exact absurd ‹_› hbrace
  · exact absurd ‹_› hless
  · rfl

end

/-! ### Reading back -/

/-- The type is written without signs between members and does not end in a result. -/
def isSimple : TypeExpr → Bool
  | .union _ | .intersection _ => false
  | .nullable t => !t.isCompound
  | t => !t.endsInResult

/-- **The tokens are read as the type** in normal case, on each level on which they can stand: as a
part, as an alternative, and on their own. -/
structure ReadsAs (r : Reading) (t : TypeExpr) (ts : List Token) : Prop where
  headed : Headed t ts
  part : t.isSimple → ∀ z, ClosesPart t.endsOpen z → r.Derives (.part t.normalCase) (ts ++ z) z
  intersection : t.isUnionLike = false → t.endsInResult = false → ∀ z,
    ClosesIntersection t.endsOpen z → r.Derives (.intersection t.normalCase) (ts ++ z) z
  union : ∀ z, ClosesUnion t.endsOpen z → r.Derives (.union t.normalCase) (ts ++ z) z

section
variable {r : Reading} {t : TypeExpr} {v : TypeExpr} {ts s z : List Token} {a : Token}
  {isOpen : Bool}

theorem derives_part (hs : kindAt s ≠ some .question) (h : r.Derives (.single v) s z)
    (hz : ClosesPart isOpen z) : r.Derives (.part v) s z := by
  obtain ⟨hlt, hmarks⟩ := @arrayMarks_of_ne z v (hz.ne rfl)
  exact .part hs h (by rw [hmarks]) (by rw [hmarks])

theorem derives_intersection (h : r.Derives (.part v) s z) (hz : ClosesIntersection isOpen z) :
    r.Derives (.intersection v) s z :=
  .intersection (.items .ampersand h (.last hz.apart))

theorem derives_union (h : r.Derives (.intersection v) s z) (hz : ClosesUnion isOpen z) :
    r.Derives (.union v) s z :=
  .union (.items .pipe h (.last fun hkind => absurd hkind hz.bar))

theorem derives_name (ha : a.kind = .identifier) (h : r.Derives (.named a.value v) s z)
    (hz : ClosesPart isOpen z) : r.Derives (.part v) (a :: s) z :=
  derives_part (by rw [kindAt_cons, ha]; simp) (.name ha h) hz

theorem ReadsAs.of_part (hheaded : Headed t ts)
    (h : ∀ z, ClosesPart t.endsOpen z → r.Derives (.part t.normalCase) (ts ++ z) z) :
    ReadsAs r t ts where
  headed := hheaded
  part _ := h
  intersection _ _ z hz := derives_intersection (h z hz.part) hz
  union z hz := derives_union (derives_intersection (h z hz.intersection.part) hz.intersection) hz

theorem ReadsAs.type (h : ReadsAs r t ts) (hz : ClosesUnion t.endsOpen z) :
    r.Derives (.type t.normalCase) (ts ++ z) z :=
  .plain (h.headed.startsTest (hz.intersection.part.ne rfl)) (h.union z hz)

theorem ReadsAs.paren {b : Token} (h : ReadsAs r t ts) (ha : a.kind = .leftParen)
    (hb : b.kind = .rightParen) (hz : ClosesPart isOpen z) :
    r.Derives (.part t.normalCase) (a :: (ts ++ [b]) ++ z) z := by
  have hclose : ClosesUnion t.endsOpen (b :: z) := closesUnion_of_kindAt (congrArg some hb) rfl
  rw [cons_append, append_assoc, singleton_append]
  exact derives_part (by rw [kindAt_cons, ha]; simp) (.paren ha (h.type hclose) hb) hz

end
/-! ### Lists of types -/

section
variable {r : Reading} {t : TypeExpr} {us : List TypeExpr} {ts z : List Token}

/-- **The members of a list are read one after the other**, each with the sign behind it or, at the
end, with what follows the list. -/
theorem derives_joined {α : Type} (sep : Separator) (value : α → TypeExpr)
    {P : α → List Token → Prop} {us : List α} (h : Joined sep.kind P us ts)
    (hend : kindAt z = some sep.kind → sep.goesOn (kindAt z.tail) = false)
    (hopens : ∀ u ∈ us.tail, ∀ vs, P u vs → ∀ s, sep.goesOn (kindAt (vs ++ s)))
    (hbetween : ∀ u ∈ us, ∀ vs, P u vs → ∀ s, kindAt s = some sep.kind →
      r.Derives (sep.item (value u)) (vs ++ s) s)
    (hlast : ∀ u ∈ us.getLast?, ∀ vs, P u vs → r.Derives (sep.item (value u)) (vs ++ z) z) :
    r.Derives (.items sep (us.map value)) (ts ++ z) z := by
  induction h with
  | @one u ts h => exact .items sep (hlast u rfl ts h) (.last hend)
  | @more u us a ts rest h ha hrest ih =>
    obtain ⟨w, others, ws, behind, rfl, rfl, hw, -⟩ := hrest.exists_first
    have hitems := ih (fun x hx => hopens x (mem_of_mem_tail hx))
      (fun x hx => hbetween x (mem_cons_of_mem _ hx)) fun x hx => hlast x hx
    rw [append_assoc, cons_append]
    refine .items sep (hbetween u (by simp) ts h _ (by rw [kindAt_cons, ha])) ?_
    cases hitems with
    | items _ hnext hmore =>
      refine .more ha ?_ hnext hmore
      rw [append_assoc]
      exact hopens w (by simp) ws hw _

omit r t us ts z in
theorem combined_map {α : Type} {f : α → TypeExpr} {as : List α}
    (combine : List TypeExpr → TypeExpr) (hmany : 2 ≤ as.length) :
    Reading.combined combine (as.map f) = combine (as.map f) := by
  obtain ⟨a, b, others, rfl⟩ := exists_cons_cons hmany
  rfl

theorem derives_arguments {c : Token} (h : Joined .comma (ReadsAs r) us ts) (hc : c.kind = .greater) :
    r.Derives (.arguments (us.map TypeExpr.normalCase)) (ts ++ c :: z) z := by
  have htype : ∀ u vs, ReadsAs r u vs → ∀ s kind, kindAt s = some kind →
      kind = .comma ∨ kind = .greater → r.Derives (.type u.normalCase) (vs ++ s) s := by
    intro u vs hvs s kind hs hkind
    refine hvs.type ?_
    rcases hkind with rfl | rfl <;> exact closesUnion_of_kindAt hs rfl
  have hcomma : c.kind ≠ .comma := by simp [hc]
  have hitems := derives_joined .comma TypeExpr.normalCase (z := c :: z) h
    (fun hkind => absurd (Option.some.inj hkind) hcomma)
    (fun u _ vs hvs s => bne_iff_ne.mpr (hvs.headed.kindAt_ne (by simp) s))
    (fun u _ vs hvs s hs => htype u vs hvs s _ hs (Or.inl rfl))
    fun u _ vs hvs => htype u vs hvs (c :: z) _ (congrArg some hc) (Or.inr rfl)
  exact .arguments hitems (by rw [accept_cons_rest, if_neg hcomma]) hc

theorem derives_member (h : MemberTokens (ReadsAs r) t ts) (ht : t.isUnionLike = false)
    (hz : ClosesIntersection (t.endsOpen && !t.endsInResult) z) :
    r.Derives (.intersection t.normalCase) (ts ++ z) z := by
  cases h with
  | plain hwanted h =>
    rw [hwanted, Bool.not_false, Bool.and_true] at hz
    exact h.intersection ht hwanted z hz
  | paren hwanted ha h hb => exact derives_intersection (h.paren ha hb hz.part) hz

theorem derives_factor (h : FactorTokens (ReadsAs r) t ts) (ht : t.isIntersection = false)
    (hz : ClosesPart (t.endsOpen && !t.isLoose) z) :
    r.Derives (.part t.normalCase) (ts ++ z) z := by
  cases h with
  | plain hwanted h =>
    rw [hwanted, Bool.not_false, Bool.and_true] at hz
    refine h.part ?_ z hz
    cases t <;> simp_all [isLoose, isSimple, isIntersection]
  | paren hwanted ha h hb => exact h.paren ha hb hz

theorem derives_members (h : Joined .pipe (MemberTokens (ReadsAs r)) us ts)
    (hus : ∀ u ∈ us, u.isUnionLike = false)
    (hz : ∀ u ∈ us.getLast?, ClosesUnion (u.endsOpen && !u.endsInResult) z) :
    r.Derives (.items .pipe (us.map TypeExpr.normalCase)) (ts ++ z) z := by
  obtain ⟨last, hlast⟩ := h.exists_last
  refine derives_joined .pipe TypeExpr.normalCase h (fun hkind => absurd hkind (hz last hlast).bar)
    (fun _ _ _ _ _ => rfl) (fun u hu vs hvs s hs => ?_) fun u hu vs hvs => ?_
  · exact derives_member hvs (hus u hu) ⟨closesPart_of_kindAt hs rfl, by rw [hs]; simp [Separator.kind]⟩
  · exact derives_member hvs (hus u (mem_of_getLast? hu)) (hz u hu).intersection

theorem derives_factors (h : Joined .ampersand (FactorTokens (ReadsAs r)) us ts)
    (hus : ∀ u ∈ us, u.isIntersection = false) (hthis : ∀ u ∈ us.tail, u.isThis = false)
    (hz : ∀ u ∈ us.getLast?, ClosesIntersection (u.endsOpen && !u.isLoose) z) :
    r.Derives (.items .ampersand (us.map TypeExpr.normalCase)) (ts ++ z) z := by
  obtain ⟨last, hlast⟩ := h.exists_last
  refine derives_joined .ampersand TypeExpr.normalCase h (hz last hlast).apart
    (fun u hu vs hvs s => ?_) (fun u hu vs hvs s hs => ?_) fun u hu vs hvs => ?_
  · cases hvs with
    | plain hwanted hvs =>
      refine (hvs.headed.starts ?_).startsType s
      have hu' : u.isUnionLike = false := by cases u <;> first | rfl | cases hwanted
      rw [startsThis, firstPart_eq_self hu' (hus u (mem_of_mem_tail hu))]
      exact hthis u hu
    | paren hwanted ha hvs hb =>
      rw [cons_append, kindAt_cons, ha]
      rfl
  · exact derives_factor hvs (hus u hu) (closesPart_of_kindAt hs rfl)
  · exact derives_factor hvs (hus u (mem_of_getLast? hu)) (hz u hu).part

end

/-! ### Texts that are read back -/

/-- The text of the type is read as the type. -/
abbrev ReadsBack (r : Reading) (t : TypeExpr) : Prop := Spells t.text.toList (ReadsAs r t)

section
variable {r : Reading} {t : TypeExpr} {word : String} {cs : List Char}

theorem readsBack_of_named (htext : t.text.toList = word.toList ++ cs) (hword : IsNameText word)
    (hcs : isBoundary cs) (hthis : t.startsThis = false)
    (hnot : (Text.lower word == "not") = t.startsNot)
    (h : Spells cs fun us => goesOn (kindAt us) ∧ ∀ z, ClosesPart t.endsOpen z →
      r.Derives (.named word t.normalCase) (us ++ z) z) : ReadsBack r t := by
  rw [ReadsBack, htext]
  refine (h.name hword hcs).mono ?_
  rintro _ ⟨a, us, rfl, ha, rfl, hgoes, hus⟩
  exact .of_part (headed_name ha hgoes hthis hnot) fun z hz => derives_name ha (hus z hz) hz

theorem readsBack_of_alone (htext : t.text = word) (hword : IsNameText word)
    (hthis : t.startsThis = false) (hnot : (Text.lower word == "not") = t.startsNot)
    (hvalue : r.nameAlone word = t.normalCase) : ReadsBack r t := by
  refine readsBack_of_named (by rw [htext, append_nil]) hword rfl hthis hnot (spells_nil.mono ?_)
  rintro _ rfl
  exact ⟨rfl, fun z hz => hvalue ▸ .alone (hz.opens word)⟩

theorem readsBack_keyword {k : String} (hk : k ∈ Keyword.builtins) : ReadsBack r (.keyword k) := by
  have htext : (TypeExpr.keyword k).text = k := by rw [text, Label.text_str]
  by_cases hthis : k = "$this"
  · subst hthis
    have hword : IsVariableWord "$this" :=
      ⟨'t', ['h', 'i', 's'], rfl, rfl, all_eq_true.mp rfl⟩
    rw [ReadsBack, htext]
    refine (leads_variable hword rfl).spells.mono ?_
    rintro _ ⟨a, rfl, ha, hvalue⟩
    refine .of_part ⟨by rintro ⟨⟩, fun _ => ⟨_, [], rfl, ha, rfl⟩, ?_⟩ fun z hz => ?_
    · simp [isWord, ha, startsNot, firstPart, unionParts, intersectionParts, isNotName]
    · simp only [TypeExpr.normalCase]
      refine derives_part ?_ (.this ha (by rw [hvalue, String.ofList_toList])) hz
      rw [cons_append, kindAt_cons, ha]
      simp
  · have hfacts : ∀ k ∈ Keyword.builtins, Text.lower k ≠ "not" := by decide
    refine readsBack_of_alone htext (isNameText_of_isClassName (isClassName_builtin hk hthis))
      (beq_eq_false_iff_ne.mpr hthis) (beq_eq_false_iff_ne.mpr (hfacts k hk)) ?_
    simp only [nameAlone_builtin hk, TypeExpr.normalCase]

theorem readsBack_int {n : Int} (hn : Numeral.isWritable n) : ReadsBack r (.literal (.int n)) := by
  refine (spells_number hn).mono fun ts hts => .of_part ?_ fun z hz => ?_
  · have hstarts : Starts (ts ++ []) := .number hts rfl
    rw [append_nil] at hstarts
    refine ⟨fun _ => hstarts, by rintro ⟨⟩, ?_⟩
    obtain ⟨a, us, rfl, ha⟩ := hts.exists_cons
    rcases ha with ha | ha <;>
      simp [isWord, ha, startsNot, firstPart, unionParts, intersectionParts, isNotName]
  · have hyields := hts.yields (r := r) (s := z)
    obtain ⟨a, us, rfl, ha⟩ := hts.exists_cons
    simp only [TypeExpr.normalCase]
    refine derives_part ?_ (.number ?_ hyields) hz
    · rw [cons_append, kindAt_cons]
      rcases ha with ha | ha <;> rw [ha] <;> simp
    · rcases ha with ha | ha <;> rw [ha] <;> rfl

theorem readsBack_str (s : String) : ReadsBack r (.literal (.str s)) := by
  refine (leads_quoteText s []).spells.mono ?_
  rintro _ ⟨a, rfl, ha, hvalue⟩
  obtain rfl : unquote a.value = s := by rw [hvalue, String.ofList_toList, unquote_quoteText]
  refine .of_part ⟨fun _ => .string ha rfl, by rintro ⟨⟩, ?_⟩ fun z hz => ?_
  · simp [isWord, ha, startsNot, firstPart, unionParts, intersectionParts, isNotName]
  · simp only [TypeExpr.normalCase]
    refine derives_part ?_ (.string ha) hz
    rw [cons_append, kindAt_cons, ha]
    simp

theorem spells_bound {word : String} (hword : word = "min" ∨ word = "max") {b : Option Int}
    (hb : (Bound.ofInt? b).stored.isWritable) :
    Spells (boundText word (.ofInt? b)).toList fun ts => ∀ z, Yields (r.intBound (ts ++ z)) b z := by
  cases b with
  | none =>
    have hname : isClassName word := by rcases hword with rfl | rfl <;> decide
    refine (isNameText_of_isClassName hname [] rfl).spells.mono ?_
    rintro _ ⟨t, rfl, ht, hvalue⟩ z
    refine yields_intBound_word ?_
    simp only [isWord, ht, hvalue, String.ofList_toList, beq_self_eq_true, Bool.true_and, beq_iff_eq]
    rcases hword with rfl | rfl
    · exact Or.inl lower_min
    · exact Or.inr lower_max
  | some n =>
    have hn : Numeral.isWritable n := by simpa [Bound.ofInt?, Json.isWritable] using hb
    refine (spells_number hn).mono fun ts hts z => ?_
    have hyields := hts.yields (r := r) (s := z)
    obtain ⟨t, ts, rfl, ht⟩ := hts.exists_cons
    exact yields_intBound_number (by rcases ht with ht | ht <;> rw [ht] <;> simp) hyields

theorem readsBack_range {low high : Option Int} (hlow : (Bound.ofInt? low).stored.isWritable)
    (hhigh : (Bound.ofInt? high).stored.isWritable) :
    ReadsBack r (.intRange (.ofInt? low) (.ofInt? high)) := by
  have hbehind := (spells_bound (r := r) (Or.inr rfl) hhigh).close (c := '>') rfl (by decide) rfl
  have hbounds := (spells_bound (r := r) (Or.inl rfl) hlow).append
    (isSeparator_comma.spells hbehind) rfl (by simp)
  have hname : IsNameText "int" := isNameText_of_isClassName (by decide)
  refine readsBack_of_named (by rw [text, toList_rangeText]) hname rfl rfl
    (by decide : (Text.lower "int" == "not") = false) ((hbounds.sign (c := '<') rfl
      (by decide)).mono ?_)
  rintro _ ⟨b, _, rfl, hb, ls, _, rfl, hls, c, _, rfl, hc, hs, d, rfl, hhs, hd⟩
  refine ⟨by rw [kindAt_cons, hb]; rfl, fun z hz => ?_⟩
  simp only [TypeExpr.normalCase, cons_append, append_assoc, nil_append]
  exact .range (by decide) hb (yields_intRange hb (hls _) hc (hhs _) hd)

end

/-! ### Alternatives and members -/

section
variable {r : Reading} {t : TypeExpr} {us : List TypeExpr}

theorem readsBack_union (hus : Alternatives us) (h : ∀ u ∈ us, ReadsBack r u) :
    ReadsBack r (.union us) := by
  have hplain : ∀ u ∈ us, u.isUnionLike = false := fun u hu =>
    (isAlternative_iff.mp (hus.plain u hu)).1
  obtain ⟨first, second, others, hcons⟩ := exists_cons_cons hus.many
  rw [ReadsBack, toList_text_union]
  refine (spells_listed isSeparator_pipe (by rw [hcons]; simp) fun u hu =>
    spells_parenthesized (h u hu) u.endsInResult).mono fun ts hts => ?_
  have hheaded : Headed (.union us) ts := by
    subst hcons
    have hfirst := hplain first (by simp)
    refine headed_joined (fun _ _ h => h.headed) (Or.inl rfl) hts ?_ ?_
    · rintro _ ⟨⟩ _
      exact firstPart_union hfirst
    · rintro _ ⟨⟩ hwanted
      rw [startsThis, startsNot, firstPart_union hfirst]
      cases first <;> first | exact ⟨rfl, rfl⟩ | cases hwanted
  refine ⟨hheaded, by rintro ⟨⟩, by rintro ⟨⟩, fun z hz => ?_⟩
  have hunion := Derives.union <| derives_members hts hplain (z := z) fun u hu => by
    rw [← endsOpen_union (hplain u (mem_of_getLast? hu)) hu]
    exact hz
  rw [combined_map _ hus.many, unionOf_eq_union hus.normalCase] at hunion
  rw [TypeExpr.normalCase, normalCaseList_eq_map]
  exact hunion

theorem readsBack_question (ht : t.isCompound = false) (htakes : t.takesNull)
    (h : ReadsBack r t) : ReadsBack r (.nullable t) := by
  have hlike : t.isUnionLike = false := by
    cases t <;> simp_all [isUnionLike, isCompound, takesNull]
  have hnull : t.isNull = false := by
    cases t <;> simp_all [takesNull, isNull]
  have hsimple : t.isSimple := by
    cases t <;> simp_all [isSimple, isCompound, isUnionLike, endsInResult]
  have hvalue : nullableOf t.normalCase = .nullable t.normalCase :=
    nullableOf_eq (by rw [isUnionLike_normalCase, hlike]) (by rw [isNull_normalCase, hnull])
  rw [ReadsBack, toList_text_question ht]
  refine (h.sign rfl (by decide)).mono ?_
  rintro _ ⟨a, ts, rfl, ha, hts⟩
  refine .of_part (headed_sign (Or.inr ha) rfl rfl) fun z hz => ?_
  rw [endsOpen_question ht htakes] at hz
  rw [TypeExpr.normalCase, ← hvalue]
  exact .question ha (hts.part hsimple z hz)

theorem readsBack_orNull (ht : t.isCompound) (htakes : t.takesNull)
    (hnode : t.IsCanonicalNode) (h : ∀ u ∈ unionParts t, ReadsBack r u) :
    ReadsBack r (.nullable t) := by
  have hne : unionParts t ≠ [] := unionParts_ne_nil hnode
  have hplain : ∀ u ∈ unionParts t, u.isUnionLike = false := fun u hu => by
    cases t with
    | union us => exact (isAlternative_iff.mp (Alternatives.plain hnode u hu)).1
    | nullable => cases htakes
    | _ =>
      obtain rfl : u = _ := by simpa [unionParts] using hu
      rfl
  have hmembers := spells_listed isSeparator_pipe hne fun u hu =>
    spells_parenthesized (h u hu) u.endsInResult
  obtain ⟨u, us, hus⟩ := exists_cons_of_ne_nil hne
  have hname : IsNameText "null" := isNameText_of_isClassName (by decide)
  rw [ReadsBack, toList_text_nullable ht hne, hus, listed_cons_cons, ← hus]
  refine ((isSeparator_pipe.spells hmembers).name hname rfl).mono ?_
  rintro _ ⟨a, _, rfl, ha, hvalue, b, ts, rfl, hb, hts⟩
  refine ⟨headed_name ha (by rw [kindAt_cons, hb]; rfl) rfl ?_,
    fun hsimple => by simp [isSimple, ht] at hsimple, by rintro ⟨⟩, fun z hz => ?_⟩
  · rw [hvalue]
    exact (by decide : (Text.lower "null" == "not") = false)
  have hitems := derives_members hts hplain (z := z) fun u hu => by
    rw [← endsOpen_nullable (hplain u (mem_of_getLast? hu)) hu]
    exact hz
  have hclose : ClosesIntersection false (b :: (ts ++ z)) :=
    ⟨closesPart_of_kindAt (congrArg some hb) rfl, by rw [kindAt_cons, hb]; simp⟩
  have hnull : r.Derives (.intersection null) (a :: b :: (ts ++ z)) (b :: (ts ++ z)) := by
    have halone : r.nameAlone a.value = null := by rw [hvalue, nameAlone_builtin (by decide)]
    rw [← halone]
    exact derives_intersection (derives_name ha (.alone (hclose.part.opens _)) hclose.part) hclose
  rw [TypeExpr.normalCase, ← unionOf_null_normalCase htakes hnode]
  rw [hus, map_cons] at hitems ⊢
  cases hitems with
  | items _ hfirst hrest => exact .union (.items .pipe hnull (.more hb rfl hfirst hrest))

theorem readsBack_intersection (hus : Combination us) (hthis : ∀ u ∈ us.tail, u.isThis = false)
    (h : ∀ u ∈ us, ReadsBack r u) : ReadsBack r (.intersection us) := by
  obtain ⟨first, second, others, hcons⟩ := exists_cons_cons hus.many
  rw [ReadsBack, toList_text_intersection]
  refine (spells_listed isSeparator_ampersand (by rw [hcons]; simp) fun u hu =>
    spells_parenthesized (h u hu) u.isLoose).mono fun ts hts => ?_
  have hheaded : Headed (.intersection us) ts := by
    subst hcons
    refine headed_joined (fun _ _ h => h.headed) (Or.inr rfl) hts ?_ ?_
    · rintro _ ⟨⟩ hwanted
      refine (firstPart_eq_self ?_ (hus.plain first (by simp))).symm
      cases first <;> first | rfl | cases hwanted
    · rintro _ ⟨⟩ hwanted
      cases first <;> first | exact ⟨rfl, rfl⟩ | cases hwanted
  have hintersection : ∀ z, ClosesIntersection (TypeExpr.intersection us).endsOpen z →
      r.Derives (.intersection (TypeExpr.intersection us).normalCase) (ts ++ z) z := by
    intro z hz
    have hderives := Derives.intersection <| derives_factors hts hus.plain hthis (z := z)
      fun u hu => by
        rw [← endsOpen_intersection (hus.plain u (mem_of_getLast? hu)) hu]
        exact hz
    rw [combined_map _ hus.many, intersectionOf_eq hus.normalCase] at hderives
    rw [TypeExpr.normalCase, normalCaseList_eq_map]
    exact hderives
  exact ⟨hheaded, by rintro ⟨⟩, fun _ _ => hintersection, fun z hz =>
    derives_union (hintersection z hz.intersection) hz⟩

theorem spells_arguments (hne : us ≠ []) (h : ∀ t ∈ us, ReadsBack r t) :
    Spells ('<' :: (listed [',', ' '] (fun t => t.text.toList) us ++ ['>'])) fun ts =>
      ∃ a vs, ts = a :: vs ∧ a.kind = .less ∧
        ∀ z, r.Derives (.arguments (us.map TypeExpr.normalCase)) (vs ++ z) z := by
  have hargs := spells_listed isSeparator_comma hne h
  refine ((hargs.close rfl (by decide) rfl).sign rfl (by decide)).mono ?_
  rintro _ ⟨a, _, rfl, ha, vs, c, rfl, hvs, hc⟩
  refine ⟨a, _, rfl, ha, fun z => ?_⟩
  rw [append_assoc]
  exact derives_arguments hvs hc

end

/-! ### Shapes -/

section
variable {r : Reading} {t : TypeExpr} {ts : List Token}

/-- The field that is read for a written one. -/
def readField (f : ShapeField TypeExpr) : ShapeField TypeExpr :=
  ⟨f.key.map readKey, f.value.normalCase, f.optional⟩

/-- The tokens are read as the field. -/
def ReadsField (r : Reading) (f : ShapeField TypeExpr) (ts : List Token) : Prop :=
  ∀ z, kindAt z = some .comma ∨ kindAt z = some .rightBrace →
    r.Derives (.field (readField f)) (ts ++ z) z ∧ kindAt (ts ++ z) ≠ some .rightBrace ∧
      kindAt (ts ++ z) ≠ some .ellipsis

theorem closesUnion_field {isOpen : Bool}
    (hz : kindAt z = some .comma ∨ kindAt z = some .rightBrace) : ClosesUnion isOpen z := by
  rcases hz with hz | hz <;> exact closesUnion_of_kindAt hz rfl

theorem ReadsAs.positional (h : ReadsAs r t ts) : ReadsField r ⟨none, t, false⟩ ts := by
  intro z hz
  have hgoes : goesOn (kindAt z) := by rcases hz with hz | hz <;> rw [hz] <;> rfl
  exact ⟨.positional (h.headed.shapeKey? hgoes) (h.type (closesUnion_field hz)),
    h.headed.kindAt_ne (by simp) z, h.headed.kindAt_ne (by simp) z⟩

theorem ReadsAs.keyed {key : ShapeKey} {optional : Bool} {ks ms : List Token} (h : ReadsAs r t ts)
    (hks : ∃ a us, ks = a :: us ∧ a.kind ≠ .rightBrace ∧ a.kind ≠ .ellipsis)
    (hkey : ∀ {s s1 : List Token} {hlt : s1.length < s.length},
      keyEnd? s = some ⟨optional, s1, hlt⟩ →
        ∃ hlt', shapeKey? (ks ++ s) = .ok (some ⟨(readKey key, optional), s1, hlt'⟩))
    (hms : ∀ z, ∃ hlt, keyEnd? (ms ++ z) = some ⟨optional, z, hlt⟩) :
    ReadsField r ⟨some key, t, optional⟩ (ks ++ (ms ++ ts)) := by
  intro z hz
  obtain ⟨hlt, hend⟩ := hms (ts ++ z)
  obtain ⟨hlt', hshapeKey⟩ := hkey hend
  obtain ⟨a, us, rfl, hbrace, hdots⟩ := hks
  rw [append_assoc, append_assoc]
  refine ⟨.keyed hshapeKey (h.type (closesUnion_field hz)), ?_, ?_⟩
  · rw [cons_append, kindAt_cons_ne]
    exact hbrace
  · rw [cons_append, kindAt_cons_ne]
    exact hdots

theorem spells_field {f : ShapeField TypeExpr} (hf : SpelledField f)
    (hkey : f.key.all (·.toJson.isWritable)) (h : ReadsBack r f.value) :
    Spells (fieldText f).toList (ReadsField r f) := by
  cases hf with
  | positional t => exact h.mono fun ts hts => hts.positional
  | int n t optional =>
    have hn : Numeral.isWritable n := by simpa [ShapeKey.toJson, Json.isWritable] using hkey
    rw [toList_fieldText]
    refine ((spells_keyMark h optional).number hn (isBoundary_keyMark optional _)).mono ?_
    rintro _ ⟨ks, _, rfl, hks, ms, us, rfl, hus, hms⟩
    refine hus.keyed ?_ (fun hend => hks.shapeKey? hend) hms
    obtain ⟨a, us, rfl, ha⟩ := hks.exists_cons
    exact ⟨a, us, rfl, by rcases ha with ha | ha <;> simp [ha]⟩
  | str k t optional =>
    have hmarks := spells_keyMark h optional
    rw [toList_fieldText, keyText]
    split
    · next hk =>
      refine (spells_bareKey hk hmarks (isBoundary_keyMark optional _)).mono ?_
      rintro _ ⟨a, _, rfl, ha, hvalue, ms, us, rfl, hus, hms⟩
      rw [← singleton_append]
      refine hus.keyed ⟨a, [], rfl, by simp [ha]⟩ (fun hend => ?_) hms
      refine ⟨by simp only [length_append, length_cons] at *; omega, ?_⟩
      simp only [singleton_append, Reading.shapeKey?, ha, hend, hvalue, readKey, hk, if_true]
    · next hk =>
      refine (hmarks.lead (leads_quoteText k _)).mono ?_
      rintro _ ⟨a, _, rfl, ha, hvalue, ms, us, rfl, hus, hms⟩
      have hvalue : unquote a.value = k := by rw [hvalue, String.ofList_toList, unquote_quoteText]
      rw [← singleton_append]
      refine hus.keyed ⟨a, [], rfl, by simp [ha]⟩ (fun hend => ?_) hms
      refine ⟨by simp only [length_append, length_cons] at *; omega, ?_⟩
      simp only [singleton_append, Reading.shapeKey?, ha, hend, hvalue, readKey, hk, if_false,
        Bool.false_eq_true]

/-- How the text of a shape ends. -/
inductive SpellsTail (r : Reading) :
    List (List Char) → Flag → Option TypeExpr → Option TypeExpr → Prop
  | closed : SpellsTail r [] true none none
  | more {cs : List Char} {key value : Option TypeExpr}
      (h : Spells cs fun ts => ∀ z, kindAt z = some .rightBrace →
        r.Derives (.tail (normalCaseOption key, normalCaseOption value)) (ts ++ z) z) :
      SpellsTail r ['.' :: '.' :: '.' :: cs] false key value

theorem spellsTail_typed {args : List TypeExpr} (hne : args ≠ [])
    (h : ∀ t ∈ args, ReadsBack r t) (htail : tailTypes? (args.map TypeExpr.normalCase) =
      some (normalCaseOption key, normalCaseOption value)) :
    SpellsTail r ['.' :: '.' :: '.' :: '<' ::
      (listed [',', ' '] (fun t => t.text.toList) args ++ ['>'])] false key value := by
  refine .more ((spells_arguments hne h).mono ?_)
  rintro _ ⟨a, us, rfl, ha, hus⟩ z -
  exact .tail ha (hus z) htail

theorem spellsTail_tailText {s : Flag} (h : PlainTail s key value)
    (hkey : ∀ t ∈ key, ReadsBack r t) (hvalue : ∀ t ∈ value, ReadsBack r t) :
    SpellsTail r ((tailText s.isSet (optionText key) (optionText value)).map String.toList) s key
      value := by
  cases h with
  | closed =>
    simp only [optionText]
    exact .closed
  | bare =>
    simp only [optionText]
    refine .more (spells_nil.mono ?_)
    rintro _ rfl z hz
    rw [normalCaseOption]
    exact .tailEnd (by rw [nil_append, hz]; simp)
  | valued v =>
    have htail := @spellsTail_typed none (some v) r [v] (by simp) (by simpa using hvalue)
      (by simp [tailTypes?, normalCaseOption])
    simpa [optionText, tailText, listed] using htail
  | keyed k v =>
    have htail := @spellsTail_typed (some k) (some v) r [k, v] (by simp)
      (by simpa using ⟨hkey k rfl, hvalue v rfl⟩) (by simp [tailTypes?, normalCaseOption])
    simpa [optionText, tailText, listed] using htail

theorem spells_body (kind : String) {tail : List (List Char)} {s : Flag}
    (htail : SpellsTail r tail s key value)
    {fields : List (ShapeField TypeExpr)}
    (h : ∀ f ∈ fields, Spells (fieldText f).toList (ReadsField r f)) :
    Spells (listed [',', ' '] id (fields.map (fun f => (fieldText f).toList) ++ tail) ++ ['}'])
      fun ts => ∀ acc z, r.Derives (.body kind acc (.shape kind
        (acc.reverse ++ fields.map readField) s (normalCaseOption key) (normalCaseOption value)))
          (ts ++ z) z := by
  induction fields with
  | nil =>
    cases htail with
    | closed =>
      refine (spells_nil.sign (c := '}') rfl (by decide)).mono ?_
      rintro _ ⟨b, _, rfl, hb, rfl⟩ acc z
      rw [normalCaseOption, map_nil, append_nil]
      exact .bodyEnd hb
    | @more cs _ _ hcs =>
      have hspells := (hcs.close (c := '}') rfl (by decide) rfl).lead (leads_ellipsis _)
      have htext : listed [',', ' '] id (([] : List (ShapeField TypeExpr)).map
          (fun f => (fieldText f).toList) ++ ['.' :: '.' :: '.' :: cs]) ++ ['}'] =
          ['.', '.', '.'] ++ (cs ++ ['}']) := by
        simp [listed]
      rw [htext]
      refine hspells.mono ?_
      rintro _ ⟨d, _, rfl, hd, -, us, b, rfl, hus, hb⟩ acc z
      have hrest : (accept .comma (b :: z)).rest = b :: z := by
        rw [accept_cons_rest, if_neg (by rw [hb]; simp)]
      rw [cons_append, append_assoc, singleton_append, map_nil, append_nil]
      exact .bodyTail hd (hus (b :: z) (congrArg some hb)) hrest hb
  | cons f fs ih =>
    have hfield := h f (by simp)
    have hrest := ih fun g hg => h g (by simp [hg])
    rw [map_cons, cons_append]
    cases hmore : fs.map (fun f => (fieldText f).toList) ++ tail with
    | nil =>
      obtain ⟨hfs, rfl⟩ := append_eq_nil_iff.mp hmore
      obtain rfl := map_eq_nil_iff.mp hfs
      cases htail
      rw [listed, flatMap_nil, append_nil]
      refine (hfield.close rfl (by decide) rfl).mono ?_
      rintro _ ⟨us, b, rfl, hus, hb⟩ acc z
      obtain ⟨hfield, hbrace, hdots⟩ := hus (b :: z) (Or.inr (congrArg some hb))
      have hlast : r.Derives (.body kind acc _) _ z := .bodyLast hbrace hdots hfield hb
      rw [append_assoc, singleton_append, normalCaseOption]
      simpa using hlast
    | cons next others =>
      rw [hmore] at hrest
      rw [listed_cons_cons, append_assoc, append_assoc]
      refine (hfield.append (isSeparator_comma.spells hrest) rfl (by simp)).mono ?_
      rintro _ ⟨us, _, rfl, hus, c, vs, rfl, hc, hvs⟩ acc z
      obtain ⟨hfield, hbrace, hdots⟩ := hus (c :: (vs ++ z)) (Or.inl (congrArg some hc))
      have hrest := hvs (readField f :: acc) z
      rw [reverse_cons, append_assoc, singleton_append] at hrest
      rw [append_assoc, cons_append, map_cons]
      exact .bodyMore hbrace hdots hfield hc hrest

section
variable {kind : String} {fields : List (ShapeField TypeExpr)} {s : Flag}
  {key value : Option TypeExpr} (hkind : kind ∈ Keyword.shapes)
  (hfields : ∀ f ∈ fields, Spells (fieldText f).toList (ReadsField r f))
  (htail : PlainTail s key value) (hkey : ∀ t ∈ key, ReadsBack r t)
  (hvalue : ∀ t ∈ value, ReadsBack r t)
include hkind hfields htail hkey hvalue

theorem spells_braces :
    Spells ('{' :: (listed [',', ' '] id (fields.map (fun f => (fieldText f).toList) ++
      (tailText s.isSet (optionText key) (optionText value)).map String.toList) ++ ['}']))
      fun us => kindAt us = some .leftBrace ∧ ∀ z, r.Derives (.named kind (.shape kind
        (fields.map readField) s (normalCaseOption key) (normalCaseOption value))) (us ++ z) z := by
  have hlower : Text.lower kind = kind := by
    have hfacts : ∀ kind ∈ Keyword.shapes, Text.lower kind = kind := by decide
    exact hfacts kind hkind
  refine ((spells_body kind (spellsTail_tailText htail hkey hvalue) hfields).sign rfl
    (by decide)).mono ?_
  rintro _ ⟨b, ts, rfl, hb, hts⟩
  refine ⟨congrArg some hb, fun z => .shape (by rw [hlower]; simpa using hkind) hb ?_⟩
  rw [hlower]
  exact hts [] z

theorem readsBack_shape (hclear : ∀ f ∈ fields, f.key.all isClearKey) :
    ReadsBack r (.shape kind fields s key value) := by
  have hfacts : ∀ kind ∈ Keyword.shapes, isClassName kind ∧
      (Text.lower kind == "not") = false := by decide
  have hread : fields.map readField = normalCaseFields fields := by
    rw [normalCaseFields_eq_map]
    refine map_congr_left fun f hf => ?_
    have hkey := hclear f hf
    obtain ⟨key, t, optional⟩ := f
    cases key with
    | none => rfl
    | some key => simp only [readField, Option.map_some, readKey_eq (by simpa using hkey)]
  refine readsBack_of_named (toList_text_shape ..) (isNameText_of_isClassName (hfacts kind hkind).1)
    rfl rfl (hfacts kind hkind).2 ((spells_braces hkind hfields htail hkey hvalue).mono ?_)
  rintro us ⟨hbrace, hus⟩
  refine ⟨by rw [hbrace]; rfl, fun z hz => ?_⟩
  rw [TypeExpr.normalCase, ← hread]
  exact hus z

end

end

/-! ### Callables, members and conditionals -/

section
variable {r : Reading} {t : TypeExpr} {ts : List Token}

/-- The tokens are read as the parameter. -/
def ReadsParameter (r : Reading) (p : CallableParameter TypeExpr) (ts : List Token) : Prop :=
  ∀ z, EndsParameter z → r.Derives (.parameter { p with type := p.type.normalCase }) (ts ++ z) z ∧
    kindAt (ts ++ z) ≠ some .rightParen

theorem spells_parameter {p : CallableParameter TypeExpr} (hp : PlainParameter p)
    (hthis : p.type.startsThis = false) (h : ReadsBack r p.type) :
    Spells (parameterText p).toList (ReadsParameter r p) := by
  cases hp with
  | intro t optional variadic byReference =>
    simp only [parameterText, String.toList_append, Flag.isSet_bool]
    refine (h.append (spells_marks byReference variadic optional) ?_ ?_).mono ?_
    · cases byReference <;> cases variadic <;> cases optional <;> rfl
    · cases byReference <;> cases variadic <;> cases optional <;> decide
    · rintro _ ⟨ts, _, rfl, hts, a, b, c, rfl, ha, hb, hc⟩ z hz
      have htype := hts.type (z := markTokens byReference variadic optional a b c ++ z)
        (closesUnion_markTokens ha hb hc hz)
      have hstarts := (hts.headed.starts hthis).startsType
        (markTokens byReference variadic optional a b c ++ z)
      have hparen : kindAt (ts ++ (markTokens byReference variadic optional a b c ++ z)) ≠
          some .rightParen := hts.headed.kindAt_ne (by simp) _
      obtain ⟨d, us, rfl⟩ := hts.headed.exists_cons
      cases z with
      | nil => rcases hz with hz | hz <;> cases hz
      | cons e z =>
        obtain ⟨hlt, hmarks⟩ := @parameterMarks_eq z e t.normalCase a b c byReference variadic
          optional ha hb hc (by simpa [EndsParameter, kindAt_cons] using hz)
        rw [append_assoc]
        refine ⟨.typed ?_ htype (by rw [hmarks]) (by rw [hmarks]), hparen⟩
        obtain ⟨kind, value, position⟩ := d
        cases kind <;> first | rfl | cases hstarts

theorem derives_parameters {ps : List (CallableParameter TypeExpr)}
    (h : Joined .comma (ReadsParameter r) ps ts) (hz : kindAt z = some .rightParen) :
    r.Derives (.parameters (normalCaseParameters ps)) (ts ++ z) z := by
  rw [normalCaseParameters_eq_map]
  induction h with
  | @one p ts h =>
    obtain ⟨hparameter, hparen⟩ := h z (Or.inr hz)
    refine .parametersLast ?_ hparen hparameter (by rw [hz]; simp)
    rintro hnil
    rw [append_eq_nil_iff] at hnil
    rw [hnil.2] at hz
    cases hz
  | @more p ps sep ts us h hsep _ ih =>
    obtain ⟨hparameter, hparen⟩ := h (sep :: (us ++ z)) (Or.inl (congrArg some hsep))
    rw [append_assoc, cons_append]
    exact .parametersMore hparen hparameter hsep ih

theorem spells_parameters {ps : List (CallableParameter TypeExpr)} (hplain : ∀ p ∈ ps, PlainParameter p)
    (hthis : ∀ p ∈ ps, p.type.startsThis = false) (h : ∀ p ∈ ps, ReadsBack r p.type) :
    Spells (listed [',', ' '] (fun p => (parameterText p).toList) ps) fun ts =>
      ∀ z, kindAt z = some .rightParen →
        r.Derives (.parameters (normalCaseParameters ps)) (ts ++ z) z := by
  cases ps with
  | nil =>
    refine spells_nil.mono ?_
    rintro _ rfl z hz
    cases z with
    | nil => cases hz
    | cons a z => exact .parametersEnd (by simpa [kindAt_cons] using hz)
  | cons p ps =>
    refine (spells_listed isSeparator_comma (by simp) fun q hq => ?_).mono fun _ hts z hz =>
      derives_parameters hts hz
    exact spells_parameter (hplain q hq) (hthis q hq) (h q hq)

theorem readsBack_callable {kind : String} {params : List (CallableParameter TypeExpr)}
    {result : Option TypeExpr} (hkind : kind ∈ Keyword.callables.map Prod.snd)
    (hplain : ∀ p ∈ params, PlainParameter p) (hthis : ∀ p ∈ params, p.type.startsThis = false)
    (hparams : ∀ p ∈ params, ReadsBack r p.type) (hresult : ∀ t ∈ result, ReadsBack r t) :
    ReadsBack r (.callable kind params result) := by
  obtain ⟨hclass, hlookup⟩ := callableKind_facts hkind
  have hname := isNameText_of_isClassName hclass
  have hfacts : ∀ kind ∈ Keyword.callables.map Prod.snd, (Text.lower kind == "not") = false := by
    decide
  have hlist := spells_parameters hplain hthis hparams
  cases result with
  | none =>
    refine readsBack_of_named (toList_text_callable ..) hname rfl rfl (hfacts kind hkind)
      (hlist.enclose.mono ?_)
    rintro _ ⟨b, ts, c, rfl, hb, hts, hc⟩
    refine ⟨by rw [kindAt_cons, hb]; rfl, fun z hz => ?_⟩
    simp only [TypeExpr.normalCase, normalCaseOption, cons_append, append_assoc,
      nil_append]
    exact .callable hlookup hb (hts (c :: z) (congrArg some hc)) hc (hz.ne rfl)
  | some t =>
    have hclose := (hresult t rfl).colon.sign (c := ')') rfl (by decide)
    rw [ReadsBack, toList_text_callableResult]
    refine (((hlist.append hclose rfl (by simp)).sign rfl (by decide)).name hname rfl).mono ?_
    rintro _ ⟨a, _, rfl, ha, rfl, b, _, rfl, hb, ts, _, rfl, hts, c, _, rfl, hc, d, us, rfl, hd, hus⟩
    -- A callable with a result ends where its result ends.
    refine ⟨headed_name ha (by rw [kindAt_cons, hb]; rfl) rfl (hfacts _ hkind), by rintro ⟨⟩,
      fun _ => by rintro ⟨⟩, fun z hz => ?_⟩
    have hnamed := Derives.callableResult hlookup hb (hts (c :: d :: (us ++ z)) (congrArg some hc))
      hc hd (hus.union z hz)
    simp only [TypeExpr.normalCase, normalCaseOption, cons_append, append_assoc]
    exact derives_union (derives_intersection (derives_name ha hnamed hz.intersection.part)
      hz.intersection) hz

theorem exists_memberParts {parts : List String} (h : IsMemberParts parts) (start : Nat) :
    ∃ ts, tokensFrom start (parts.flatMap String.toList) = .ok ts ∧
      ∀ z, kindAt z ≠ some .identifier → kindAt z ≠ some .star →
        (memberParts start (ts ++ z)).value = parts ∧ (memberParts start (ts ++ z)).rest = z := by
  have hcons : ∀ {t : Token} {parts : List String} {ts : List Token},
      t.kind = .identifier ∨ t.kind = .star →
      (∀ z, kindAt z ≠ some .identifier → kindAt z ≠ some .star →
        (memberParts t.stop (ts ++ z)).value = parts ∧ (memberParts t.stop (ts ++ z)).rest = z) →
      ∀ z, kindAt z ≠ some .identifier → kindAt z ≠ some .star →
        (memberParts t.position (t :: ts ++ z)).value = t.value :: parts ∧
          (memberParts t.position (t :: ts ++ z)).rest = z := by
    intro t parts ts ht h z hname hstar
    obtain ⟨hvalue, hrest⟩ := h z hname hstar
    rw [cons_append, Reading.memberParts, if_pos (by simpa using ht)]
    exact ⟨congrArg (t.value :: ·) hvalue, hrest⟩
  induction h generalizing start with
  | nil =>
    refine ⟨[], by rw [flatMap_nil, tokensFrom], fun z hname hstar => ?_⟩
    cases z with
    | nil => exact ⟨rfl, rfl⟩
    | cons a z =>
      rw [kindAt_cons_ne] at hname hstar
      rw [nil_append, Reading.memberParts, if_neg (by simp [hname, hstar])]
      exact ⟨rfl, rfl⟩
  | @star parts _ ih =>
    obtain ⟨ts, htokens, hts⟩ := ih (start + 1)
    refine ⟨_, tokensFrom_sign (c := '*') rfl (by decide) htokens, ?_⟩
    have hstop : Token.stop ⟨.star, "*", start⟩ = start + 1 := by
      rw [Token.stop, show "*".length = 1 by decide]
    rw [← hstop] at hts
    exact hcons (t := ⟨.star, "*", start⟩) (Or.inr rfl) hts
  | @name word parts hword hnext _ ih =>
    obtain ⟨ts, htokens, hts⟩ := ih (start + word.toList.length)
    have hboundary : isBoundary (parts.flatMap String.toList) := by
      cases parts with
      | nil => rfl
      | cons next parts =>
        obtain rfl := hnext next rfl
        rfl
    have hlead := (isNameText_of_isNameWord hword _ hboundary).tokensFrom_eq_ok htokens
    rw [String.ofList_toList] at hlead
    rw [String.length_toList] at hts
    exact ⟨_, hlead, hcons (t := ⟨.identifier, word, start⟩) (Or.inl rfl) hts⟩

theorem spells_member (owner : String) {member : String} (h : IsMemberName member) :
    Spells (':' :: ':' :: member.toList) fun ts => ∃ b us, ts = b :: us ∧ b.kind = .doubleColon ∧
      ∀ z, kindAt z ≠ some .identifier → kindAt z ≠ some .star →
        Yields (r.memberReference owner b (us ++ z)) (.memberReference
          (if Keyword.relatives.contains (Text.lower owner) then Text.lower owner
            else r.scope.resolveClass owner) member) z := by
  intro start
  obtain ⟨parts, hne, hparts, rfl⟩ := h
  obtain ⟨ts, htokens, hts⟩ := exists_memberParts hparts (start + 2)
  have hlead : Leads .doubleColon [':', ':'] (parts.flatMap String.toList) :=
    leads_of_tokenAt? rfl rfl
  have hstop : Token.stop ⟨.doubleColon, "::", start⟩ = start + 2 := by
    rw [Token.stop, show "::".length = 2 by decide]
  rw [show (parts.foldl (· ++ ·) "").toList = parts.flatMap String.toList from String.toList_join]
  refine ⟨_, hlead.tokensFrom_eq_ok htokens, _, ts, rfl, rfl, fun z hname hstar => ?_⟩
  obtain ⟨hvalue, hrest⟩ := hts z hname hstar
  rw [← hstop] at hvalue hrest
  unfold Reading.memberReference
  generalize memberParts _ (ts ++ z) = found at hvalue hrest
  obtain ⟨parts', rest, hlt⟩ := found
  obtain rfl : parts' = parts := hvalue
  obtain rfl : rest = z := hrest
  simp only
  rw [if_neg (by simpa using hne)]
  exact ⟨hlt, rfl⟩

/-- The tokens of a negation. -/
inductive NotTokens : Bool → List Token → Prop
  | no : NotTokens false []
  | yes {t : Token} (ht : isWord t "not") : NotTokens true [t]

theorem spells_not {cs : List Char} {Q : List Token → Prop} (h : Spells cs Q) (negated : Bool) :
    Spells ((if negated then ['n', 'o', 't', ' '] else []) ++ cs) fun ts => ∃ ns us, ts = ns ++ us ∧
      NotTokens negated ns ∧ Q us := by
  cases negated with
  | false => exact h.mono fun ts hts => ⟨[], ts, rfl, .no, hts⟩
  | true =>
    have hname : IsNameText "not" := isNameText_of_isClassName (by decide)
    refine (h.blank.name hname rfl).mono ?_
    rintro _ ⟨a, us, rfl, ha, hvalue, hus⟩
    exact ⟨[a], us, rfl, .yes (by rw [isWord, ha, hvalue]; decide), hus⟩

theorem NotTokens.acceptWord {negated : Bool} {ns : List Token} (h : NotTokens negated ns)
    (ht : Headed t ts) (hnot : negated ∨ t.startsNot = false) :
    (acceptWord "not" (ns ++ (ts ++ z))).value = negated ∧
      (acceptWord "not" (ns ++ (ts ++ z))).rest = ts ++ z := by
  cases h with
  | yes ha =>
    rw [cons_append, Reading.acceptWord, if_pos ha]
    exact ⟨rfl, rfl⟩
  | no =>
    have hword := ht.word
    obtain ⟨a, us, rfl⟩ := ht.exists_cons
    have ha : isWord a "not" = false := by
      rw [hnot.resolve_left Bool.false_ne_true] at hword
      simpa using hword
    rw [nil_append, cons_append, Reading.acceptWord,
      if_neg (by rw [ha]; exact Bool.false_ne_true)]
    exact ⟨rfl, rfl⟩

theorem readsBack_conditional {subject : String} {target whenTrue whenFalse : TypeExpr}
    {negated : Bool} (hsubject : IsSubject subject)
    (hclear : (TypeExpr.conditional subject target whenTrue whenFalse negated).isClearNode)
    (htarget : ReadsBack r target) (htrue : ReadsBack r whenTrue) (hfalse : ReadsBack r whenFalse) :
    ReadsBack r (.conditional subject target whenTrue whenFalse negated) := by
  simp only [isClearNode, Flag.isSet_bool, Bool.and_eq_true, Bool.or_eq_true,
    Bool.not_eq_true'] at hclear
  have hclose := hfalse.close (c := ')') rfl (by decide) rfl
  have hbranches := htrue.append hclose.colon.blank rfl (by simp)
  have hrest := htarget.append (hbranches.blank.sign (c := '?') rfl (by decide)).blank rfl (by simp)
  rw [ReadsBack, toList_text_conditional]
  refine ((spells_test hsubject (spells_not hrest negated)).sign rfl (by decide)).mono ?_
  rintro _ ⟨a, _, rfl, ha, first, second, _, rfl, htest, rfl, ns, _, rfl, hns, ts, _, rfl, hts, q,
    _, rfl, hq, us, _, rfl, hus, c, _, rfl, hc, vs, b, rfl, hvs, hb⟩
  refine .of_part (headed_sign (Or.inl ha) rfl rfl) fun z hz => ?_
  have hcondition : r.Derives (.type (TypeExpr.conditional first.value target.normalCase
      whenTrue.normalCase whenFalse.normalCase negated))
      (first :: second :: (ns ++ (ts ++ q :: (us ++ c :: (vs ++ b :: z))))) (b :: z) := by
    obtain ⟨hvalue, hrest⟩ := hns.acceptWord hts.headed hclear.1
    refine .conditional htest hvalue hrest (hts.union _ ?_) hq (hus.type ?_) hc (hvs.type ?_)
    · exact closesUnion_of_kindAt (congrArg some hq) rfl
    · exact closesUnion_of_kindAt (congrArg some hc) (by rw [hclear.2]; rfl)
    · exact closesUnion_of_kindAt (congrArg some hb) rfl
  simp only [TypeExpr.normalCase, cons_append, append_assoc, nil_append]
  exact derives_part (by rw [kindAt_cons, ha]; simp) (.paren ha hcondition hb) hz

end

/-! ### One layer -/

section
variable {r : Reading} (hr : r.scope = {})
include hr

theorem readsBack_class (hname : isClassName name) : ReadsBack r (.named name) := by
  refine readsBack_of_alone (by rw [text]) (isNameText_classText hname) rfl (lower_classText name) ?_
  simp only [nameAlone_classText hr hname, TypeExpr.normalCase]

theorem genericName_written (hname : isClassName name) :
    Text.lower (if Keyword.isGeneric name then name else classText name) ≠ "int" ∧
      r.opens (if Keyword.isGeneric name then name else classText name) (some .less) ∧
      r.genericName (if Keyword.isGeneric name then name else classText name) =
        Keyword.normalCase name := by
  rw [Keyword.normalCase]
  split
  · next hgeneric =>
    have hmem : Text.lower name ∈ Keyword.generics := by simpa [Keyword.isGeneric] using hgeneric
    have hfacts : ∀ word ∈ Keyword.generics, word ≠ "int" ∧ Keyword.aliases.lookup word = none := by
      decide
    obtain ⟨hint, halias⟩ := hfacts _ hmem
    have hbuiltin : builtin name = Text.lower name := by rw [builtin, halias, Option.getD_none]
    have hcontains : Keyword.generics.contains (builtin name) := by
      rw [hbuiltin]
      simpa using hmem
    exact ⟨hint, by simp only [opens, hcontains, Bool.or_true, Bool.true_or], by
      rw [genericName, if_pos hcontains, hbuiltin]⟩
  · have hfree := isReserved_classText name
    have hgenerics := generics_of_isReserved hfree
    refine ⟨lower_ne_int_of_isReserved hfree, ?_, ?_⟩
    · simp only [opens, builtins_of_isReserved hfree, template?_eq_none hr, Option.isSome_none,
        Bool.or_self, Bool.not_false, Bool.or_true]
    · rw [genericName, if_neg (by rw [hgenerics]; exact Bool.false_ne_true),
        resolveClass_classText hr hname]

theorem readsBack_generic {us : List TypeExpr}
    (hname : name ∈ Keyword.generics ∨ isClassName name) (hne : us ≠ [])
    (h : ∀ u ∈ us, ReadsBack r u) : ReadsBack r (.generic name us) := by
  have hclass : isClassName name := by
    have hgenerics : ∀ name ∈ Keyword.generics, isClassName name := by decide
    exact hname.elim (hgenerics name) id
  obtain ⟨hint, hopens, hgeneric⟩ := genericName_written hr hclass
  refine readsBack_of_named (toList_text_generic name us) ?_ rfl rfl ?_
    ((spells_arguments hne h).mono ?_)
  · split
    · exact isNameText_of_isClassName hclass
    · exact isNameText_classText hclass
  · split
    · rfl
    · exact lower_classText name
  · rintro _ ⟨b, us, rfl, hb, hus⟩
    refine ⟨by rw [kindAt_cons, hb]; rfl, fun z hz => ?_⟩
    simp only [TypeExpr.normalCase, normalCaseList_eq_map, ← hgeneric]
    exact .generic hint hopens hb (hus z)

theorem readsBack_member {owner member : String} (howner : isClassName owner)
    (hmember : IsMemberName member)
    (hclear : (TypeExpr.memberReference owner member).isClearNode) :
    ReadsBack r (.memberReference owner member) := by
  have hread : (if Keyword.relatives.contains (Text.lower (ownerText owner)) then
      Text.lower (ownerText owner) else r.scope.resolveClass (ownerText owner)) = owner := by
    simp only [isClearNode, Bool.or_eq_true, Bool.not_eq_true', beq_iff_eq] at hclear
    unfold ownerText
    split
    · next hrelative => exact hclear.resolve_left (ne_false_of_eq_true hrelative)
    · have hclass : Keyword.relatives.contains (Text.lower (classText owner)) = false := by
        have hbuiltin := builtins_of_isReserved (isReserved_classText owner)
        rw [builtin_of_isReserved (isReserved_classText owner)] at hbuiltin
        have hsub : ∀ word ∈ Keyword.relatives, word ∈ Keyword.builtins := by decide
        rw [← Bool.not_eq_true, contains_iff_mem] at hbuiltin ⊢
        exact fun hmem => hbuiltin (hsub _ hmem)
      rw [hclass, if_neg Bool.false_ne_true, resolveClass_classText hr howner]
  refine readsBack_of_named (toList_text_memberReference owner member) ?_ rfl rfl ?_
    ((spells_member (r := r) (ownerText owner) hmember).mono ?_)
  · unfold ownerText
    split
    · exact isNameText_of_isClassName howner
    · exact isNameText_classText howner
  · unfold ownerText
    split
    · rfl
    · exact lower_classText owner
  · rintro _ ⟨b, us, rfl, hb, hus⟩
    refine ⟨by rw [kindAt_cons, hb]; rfl, fun z hz => ?_⟩
    have hyields := hus z (hz.ne rfl) (hz.ne rfl)
    rw [hread] at hyields
    simp only [TypeExpr.normalCase]
    exact .member hb hyields

/-- **One layer of a clear type is read back** once its parts, and their alternatives, are. -/
theorem readsBack_layer (ht : WrittenForm t) (hclear : t.isClearNode)
    (h : ∀ u ∈ parts t, ∀ v ∈ u :: unionParts u, ReadsBack r v) : ReadsBack r t := by
  obtain ⟨hcanonical, hspelled, hwritable, hexact⟩ := ht.here
  have hparts : ∀ u ∈ parts t, ReadsBack r u := fun u hu => h u hu u (by simp)
  cases hspelled with
  | keyword hk => exact readsBack_keyword hk
  | named hname => exact readsBack_class hr hname
  | nullable t =>
    have hmem : t ∈ parts (.nullable t) := by simp [parts, children]
    cases hcompound : t.isCompound with
    | false => exact readsBack_question hcompound hcanonical (hparts t hmem)
    | true =>
      exact readsBack_orNull hcompound hcanonical (ht.inside hmem).here.1 fun u hu =>
        h t hmem u (by simp [hu])
  | union ts => exact readsBack_union hcanonical hparts
  | intersection ts =>
    simp only [isClearNode, all_eq_true, Bool.not_eq_true'] at hclear
    exact readsBack_intersection hcanonical hclear hparts
  | generic hname => exact readsBack_generic hr hname hcanonical hparts
  | shape hkind hfields htail =>
    simp only [isWritableNode, all_eq_true] at hwritable
    simp only [isClearNode, all_eq_true] at hclear
    refine readsBack_shape hkind (fun f hf => ?_) htail
      (fun u hu => hparts u (mem_parts_of_extraKey hu))
      (fun u hu => hparts u (mem_parts_of_extraValue hu)) hclear
    exact spells_field (hfields f hf) (hwritable f hf) (hparts _ (mem_parts_of_field hf))
  | conditional hsubject =>
    exact readsBack_conditional hsubject hclear (hparts _ (by simp [parts, children]))
      (hparts _ (by simp [parts, children])) (hparts _ (by simp [parts, children]))
  | literal value =>
    cases value with
    | int n => exact readsBack_int hwritable
    | float d => cases hexact
    | str s => exact readsBack_str s
  | intRange low high =>
    simp only [isWritableNode, Bool.and_eq_true] at hwritable
    exact readsBack_range hwritable.1 hwritable.2
  | callable hkind hplain =>
    simp only [isClearNode, all_eq_true, Bool.not_eq_true'] at hclear
    exact readsBack_callable hkind hplain hclear (fun p hp => hparts _ (mem_parts_of_parameter hp))
      fun u hu => hparts u (mem_parts_of_result hu)
  | memberReference howner hmember => exact readsBack_member hr howner hmember hclear

end

/-! ### Whole texts -/

/-- **The text of a clear type is read back**, wherever it stands. -/
theorem readsBack_of_isClear {r : Reading} (hr : r.scope = {}) (ht : WrittenForm t)
    (hclear : t.isClear) : ReadsBack r t := by
  -- The alternatives of a type are kept in the induction: behind a question mark a union is
  -- written as its alternatives.
  suffices ∀ u ∈ t :: unionParts t, ReadsBack r u from this t (by simp)
  induction t using partsInduction with
  | step t ih =>
    have hparts := fun u hu => ih u hu (ht.inside hu)
      ((isClear_iff.mp hclear).2 u (parts_of_isSpelled ht.here.2.spelled ▸ hu))
    have hlayer := readsBack_layer hr ht (isClear_iff.mp hclear).1 hparts
    intro u hu
    rcases mem_cons.mp hu with rfl | hu
    · exact hlayer
    · cases t with
      | union ts => exact hparts u hu u (by simp)
      | _ =>
        obtain rfl : u = _ := by simpa [unionParts] using hu
        exact hlayer

theorem parse_text_of_isClear (ht : WrittenForm t) (hclear : t.isClear) :
    parse t.text = .ok t.normalCase := by
  obtain ⟨ts, htokens, hreads⟩ := readsBack_of_isClear (r := ⟨t.text, {}⟩) rfl ht hclear 0
  have hderives := hreads.type (z := []) ⟨⟨rfl, by simp [kindAt]⟩, by simp [kindAt]⟩
  rw [append_nil] at hderives
  exact parse_eq_ok_iff.mpr ⟨ts, htokens, hderives⟩

/-- **A type that is read reads back** if it can be written, has no floats and its text is clear; a
conditional, for one. -/
theorem parse_written_of_isClear {text : String} (h : parse text = .ok t) (hexact : t.isExact = true)
    (hwritable : t.isWritable = true) (hclear : t.isClear = true) :
    ∃ s u, t.written = .ok s ∧ parse s = .ok u ∧ u.same t = true := by
  have hform := writtenForm_of_spelledForm (spelledForm_of_parse h) hwritable hexact
  exact ⟨t.text, t.normalCase, by rw [written, if_pos hwritable], parse_text_of_isClear hform hclear,
    same_normalCase_self (same_self_of_writtenForm hform)⟩

/-- A conditional with a callable in its first branch. -/
def callbackTest : TypeExpr :=
  .conditional "$x" (.named "not") (.callable "callable" [] (some (.keyword "void")))
    (.shape "array" [⟨some (.str "a b"), .keyword "$this", true⟩] true none none) true

theorem parse_written_callbackTest :
    parse "$x is not \\not ? (callable(): void) : array\x7b'a b'?: $this\x7d" = .ok callbackTest ∧
      callbackTest.isConditional = true ∧ callbackTest.isExact = true ∧
      callbackTest.isWritable = true ∧ callbackTest.isClear = true ∧
      ∃ s u, callbackTest.written = .ok s ∧ parse s = .ok u ∧ u.same callbackTest = true := by
  have hparse : parse "$x is not \\not ? (callable(): void) : array\x7b'a b'?: $this\x7d" =
      .ok callbackTest := by
    with_unfolding_all rfl
  refine ⟨hparse, rfl, by decide, by decide, by decide, ?_⟩
  exact parse_written_of_isClear hparse (by decide) (by decide) (by decide)

/-- A callable without a result in the first branch takes the second branch for its result. -/
theorem parse_written_openCallable :
    ∃ c, parse "$x is int ? (callable()) : string" = .ok c ∧ c.isConditional = true ∧
      c.isExact = true ∧ c.written = .ok "($x is int ? callable() : string)" ∧
      parse "($x is int ? callable() : string)" =
        .error (.malformed (.expected .colon (some ")")) 32 "($x is int ? callable() : string)") := by
  refine ⟨.conditional "$x" (.keyword "int") (.callable "callable" [] none) (.keyword "string") false,
    ?_, rfl, by decide, ?_, ?_⟩
  · with_unfolding_all rfl
  · with_unfolding_all rfl
  · with_unfolding_all rfl

/-! ### Keys of shapes -/

/-- An ASCII name with a line feed behind it is written without quotes, and the line feed is lost. -/
theorem bareWord_lineFeed (h : isAsciiName name) :
    isBareKey (name ++ "\n").toList ∧ bareWord (name ++ "\n") = name := by
  have hparts := isKeyPart_of_isAsciiName h
  have htext : (name ++ "\n").toList = name.toList ++ ['\n'] := by rw [String.toList_append]; rfl
  constructor
  · unfold isAsciiName at h
    cases hcs : name.toList with
    | nil => simp [hcs] at h
    | cons c cs =>
      simp only [hcs, Bool.and_eq_true, all_eq_true] at h
      have hdrop : (cs ++ ['\n']).dropWhile (fun d => d.isAlphanum || d == '_') = ['\n'] := by
        rw [dropWhile_append_of_pos h.2]
        rfl
      simp [htext, hcs, isBareKey, h.1, hdrop]
  · have htake : (name.toList ++ ['\n']).takeWhile (fun d => d.isAlphanum || d == '_') =
        name.toList := by
      rw [takeWhile_append_of_pos hparts]
      exact append_nil _
    rw [bareWord, htext, htake, String.ofList_toList]

theorem isWritable_of_writtenForm (h : WrittenForm t) : t.isWritable := by
  induction h with
  | intro here _ ih =>
    exact isWritable_iff.mpr ⟨here.2.writable, fun u hu => ih u (mem_parts_of_mem_children hu)⟩

/-- A shape with one field, for integers. -/
def oneField (k : String) (optional : Bool) : TypeExpr :=
  .shape "array" [⟨some (.str k), .keyword "int", optional⟩] true none none

theorem writtenForm_int : WrittenForm (.keyword "int") :=
  .intro ⟨trivial, .keyword (by decide), rfl, rfl⟩ (by simp [parts, children])

theorem writtenForm_oneField (k : String) (optional : Bool) :
    WrittenForm (oneField k optional) := by
  refine .intro ⟨trivial, .shape (by decide) ?_ .closed, ?_, rfl⟩ ?_
  · simpa using SpelledField.str k (.keyword "int") optional
  · simp [oneField, isWritableNode, ShapeKey.toJson, Json.isWritable]
  · intro u hu
    obtain rfl : u = .keyword "int" := by simpa [oneField, parts, children] using hu
    exact writtenForm_int

theorem parse_text_oneField (k : String) (optional : Bool) : parse (oneField k optional).text =
      .ok (oneField (if isBareKey k.toList then bareWord k else k) optional) := by
  have hint : ReadsBack ⟨(oneField k optional).text, {}⟩ (.keyword "int") :=
    readsBack_keyword (by decide)
  have hfield := spells_field (.str k (.keyword "int") optional)
    (by simp [ShapeKey.toJson, Json.isWritable]) hint
  have hbraces := @spells_braces _ "array" [⟨some (.str k), .keyword "int", optional⟩] true none none
    (by decide) (by simpa using hfield) .closed (by simp) (by simp)
  have hname : IsNameText "array" := isNameText_of_isClassName (by decide)
  obtain ⟨ts, htokens, a, us, rfl, ha, hvalue, hbrace, hus⟩ := hbraces.name hname rfl 0
  have hcloses : ClosesUnion false [] := ⟨⟨rfl, by simp [kindAt]⟩, by simp [kindAt]⟩
  have hunion := derives_union (derives_intersection (derives_name ha (hvalue ▸ hus [])
    hcloses.intersection.part) hcloses.intersection) hcloses
  rw [append_nil] at hunion
  rw [← toList_text_shape] at htokens
  have hparsed := parse_eq_ok_iff.mpr
    ⟨_, htokens, .plain (startsTest_eq_false (by rw [hbrace]; simp)) hunion⟩
  simpa [oneField, readField, readKey, TypeExpr.normalCase, normalCaseOption, hvalue] using hparsed

/-- **A key survives writing and reading** unless it is an ASCII name with a line feed behind it,
which is read as the name alone. -/
theorem parse_written_oneField (k : String) (optional : Bool) :
    ∃ k', (oneField k optional).written = .ok (oneField k optional).text ∧
      parse (oneField k optional).text = .ok (oneField k' optional) ∧
      ((¬ ∃ name, isAsciiName name = true ∧ k = name ++ "\n") ∧ k' = k ∨
        ∃ name, isAsciiName name = true ∧ k = name ++ "\n" ∧ k' = name) := by
  have hwritable := isWritable_of_writtenForm (writtenForm_oneField k optional)
  refine ⟨_, by rw [written, if_pos hwritable], parse_text_oneField k optional, ?_⟩
  by_cases hname : ∃ name, isAsciiName name = true ∧ k = name ++ "\n"
  · obtain ⟨name, hname, rfl⟩ := hname
    obtain ⟨hbare, hword⟩ := bareWord_lineFeed hname
    exact Or.inr ⟨name, hname, rfl, by rw [if_pos hbare, hword]⟩
  · refine Or.inl ⟨hname, ?_⟩
    split
    · next hbare =>
      obtain ⟨hascii, hsame | hfeed⟩ := bareWord_facts hbare
      · exact (String.toList_inj.mp hsame).symm
      · refine absurd ⟨bareWord k, hascii, String.toList_inj.mp ?_⟩ hname
        rw [hfeed, String.toList_append]
        rfl
    · rfl

/-- The line feed behind a key without quotes is lost. -/
theorem parse_written_oneField_lineFeed :
    (oneField "a\n" false).written = .ok "array\x7ba\n: int\x7d" ∧
      parse "array\x7ba\n: int\x7d" = .ok (oneField "a" false) ∧
      (oneField "a" false).same (oneField "a\n" false) = false := by
  refine ⟨?_, ?_, by decide +kernel⟩
  · with_unfolding_all rfl
  · with_unfolding_all rfl

end StubCatalog.TypeExpr
