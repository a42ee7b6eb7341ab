import StubCatalog.Proofs.TypeExpr.Spelled

/-! # The tokens of a written text

`Spells cs P` says that the tokens of the text `cs` have the property `P` wherever the text stands.
A piece in front of a sign or a blank is cut as it is on its own. -/

namespace StubCatalog.TypeExpr

open List Reading

variable {text : String} {t : TypeExpr}

/-! ### Texts and their tokens -/

/-- Wherever the text stands, its tokens have the property. -/
def Spells (cs : List Char) (P : List Token → Prop) : Prop :=
  ∀ start, ∃ ts, tokensFrom start cs = .ok ts ∧ P ts

section
variable {cs ds : List Char} {P Q : List Token → Prop} {kind : TokenKind}

theorem Spells.mono (h : Spells cs P) (hPQ : ∀ ts, P ts → Q ts) : Spells cs Q := by
  intro start
  obtain ⟨ts, htokens, hts⟩ := h start
  exact ⟨ts, htokens, hPQ ts hts⟩

theorem spells_nil : Spells [] (· = []) := fun start => ⟨[], by rw [tokensFrom], rfl⟩

theorem Spells.blankChar {c : Char} (h : Spells cs P) (hc : Text.isBlank c) :
    Spells (c :: cs) P := by
  intro start
  rw [tokensFrom, if_pos hc]
  exact h (start + 1)

theorem Spells.blank (h : Spells cs P) : Spells (' ' :: cs) P := h.blankChar rfl

theorem Spells.lead (h : Spells ds P) (hlead : Leads kind cs ds) :
    Spells (cs ++ ds) fun ts => ∃ t us, ts = t :: us ∧ t.kind = kind ∧
      t.value = String.ofList cs ∧ P us := by
  intro start
  obtain ⟨us, htokens, hus⟩ := h (start + cs.length)
  exact ⟨_, hlead.tokensFrom_eq_ok htokens, _, us, rfl, rfl, rfl, hus⟩

theorem Spells.sign {c : Char} (h : Spells cs P) (hkind : signKind? c = some kind) (hc : c ≠ ':') :
    Spells (c :: cs) fun ts => ∃ t us, ts = t :: us ∧ t.kind = kind ∧ P us :=
  (h.lead (leads_sign hkind hc cs)).mono fun _ ⟨t, us, hts, ht, _, hus⟩ => ⟨t, us, hts, ht, hus⟩

theorem Leads.spells (h : Leads kind cs []) :
    Spells cs fun ts => ∃ t, ts = [t] ∧ t.kind = kind ∧ t.value = String.ofList cs := by
  have hspells := spells_nil.lead h
  rw [append_nil] at hspells
  refine hspells.mono ?_
  rintro _ ⟨t, _, rfl, ht, hvalue, rfl⟩
  exact ⟨t, rfl, ht, hvalue⟩

theorem Spells.colon (h : Spells cs P) :
    Spells (':' :: ' ' :: cs) fun ts => ∃ t us, ts = t :: us ∧ t.kind = .colon ∧ P us :=
  (h.blank.lead (leads_colon cs)).mono fun _ ⟨t, us, hts, ht, _, hus⟩ => ⟨t, us, hts, ht, hus⟩

theorem Spells.name (h : Spells ds P) (htext : IsNameText text) (hds : isBoundary ds) :
    Spells (text.toList ++ ds) fun ts => ∃ t us, ts = t :: us ∧ t.kind = .identifier ∧
      t.value = text ∧ P us := by
  refine (h.lead (htext ds hds)).mono fun _ ⟨t, us, hts, ht, hvalue, hus⟩ => ?_
  exact ⟨t, us, hts, ht, by rw [hvalue, String.ofList_toList], hus⟩

theorem Spells.append (h : Spells cs P) (hds : Spells ds Q) (hboundary : isBoundary ds)
    (hcolon : ds.head? ≠ some ':') :
    Spells (cs ++ ds) fun ts => ∃ us vs, ts = us ++ vs ∧ P us ∧ Q vs := by
  intro start
  obtain ⟨us, htokens, hus⟩ := h start
  obtain ⟨vs, htokens', hvs⟩ := hds (start + cs.length)
  refine ⟨us ++ vs, ?_, us, vs, rfl, hus, hvs⟩
  rw [tokensFrom_append htokens hboundary fun _ => hcolon, htokens']
  rfl

theorem Spells.close {c : Char} (h : Spells cs P) (hkind : signKind? c = some kind) (hc : c ≠ ':')
    (hboundary : isBoundary [c]) :
    Spells (cs ++ [c]) fun ts => ∃ us b, ts = us ++ [b] ∧ P us ∧ b.kind = kind := by
  refine (h.append (spells_nil.sign hkind hc) hboundary (by simpa using hc)).mono ?_
  rintro _ ⟨us, _, rfl, hus, b, _, rfl, hb, rfl⟩
  exact ⟨us, b, rfl, hus, hb⟩

theorem Spells.enclose (h : Spells cs P) : Spells ('(' :: (cs ++ [')'])) fun ts =>
    ∃ a us b, ts = a :: (us ++ [b]) ∧ a.kind = .leftParen ∧ P us ∧ b.kind = .rightParen := by
  refine ((h.close rfl (by decide) rfl).sign rfl (by decide)).mono ?_
  rintro _ ⟨a, _, rfl, ha, us, b, rfl, hus, hb⟩
  exact ⟨a, us, b, rfl, ha, hus, hb⟩

end

/-! ### Lists -/

/-- The tokens of the members of a list, with tokens of the given sort between them. -/
inductive Joined {α : Type} (kind : TokenKind) (P : α → List Token → Prop) :
    List α → List Token → Prop
  | one {a : α} {ts : List Token} (h : P a ts) : Joined kind P [a] ts
  | more {a : α} {as : List α} {sep : Token} {ts us : List Token} (h : P a ts)
      (hsep : sep.kind = kind) (hrest : Joined kind P as us) :
      Joined kind P (a :: as) (ts ++ sep :: us)

/-- The characters between the members of a list are cut off as one token. -/
structure IsSeparator (sep : List Char) (kind : TokenKind) : Prop where
  boundary (rest : List Char) : isBoundary (sep ++ rest)
  head (rest : List Char) : (sep ++ rest).head? ≠ some ':'
  spells {rest : List Char} {P : List Token → Prop} (h : Spells rest P) :
    Spells (sep ++ rest) fun ts => ∃ t us, ts = t :: us ∧ t.kind = kind ∧ P us

theorem isSeparator_pipe : IsSeparator ['|'] .pipe :=
  ⟨fun _ => rfl, fun _ => by simp, fun h => h.sign rfl (by decide)⟩

theorem isSeparator_ampersand : IsSeparator ['&'] .ampersand :=
  ⟨fun _ => rfl, fun _ => by simp, fun h => h.sign rfl (by decide)⟩

theorem isSeparator_comma : IsSeparator [',', ' '] .comma :=
  ⟨fun _ => rfl, fun _ => by simp, fun h => h.blank.sign rfl (by decide)⟩

theorem spells_listed {α : Type} {sep : List Char} {kind : TokenKind} {f : α → List Char}
    {P : α → List Token → Prop} (hsep : IsSeparator sep kind) {as : List α} (hne : as ≠ [])
    (h : ∀ a ∈ as, Spells (f a) (P a)) : Spells (listed sep f as) (Joined kind P as) := by
  induction as with
  | nil => exact absurd rfl hne
  | cons a as ih =>
    have hfirst := h a (by simp)
    cases as with
    | nil =>
      rw [listed, flatMap_nil, append_nil]
      exact hfirst.mono fun ts hts => .one hts
    | cons b bs =>
      have hrest := hsep.spells (ih (by simp) fun c hc => h c (by simp [hc]))
      rw [listed_cons_cons]
      refine (hfirst.append hrest (hsep.boundary _) (hsep.head _)).mono ?_
      rintro _ ⟨us, _, rfl, hus, t, vs, rfl, ht, hvs⟩
      exact .more hus ht hvs

/-! ### Parentheses and numbers -/

/-- The tokens, in parentheses if wanted. -/
inductive Enclosed (wanted : Bool) (P : List Token → Prop) : List Token → Prop
  | plain {ts : List Token} (hwanted : wanted = false) (h : P ts) : Enclosed wanted P ts
  | paren {a b : Token} {ts : List Token} (hwanted : wanted) (ha : a.kind = .leftParen)
      (h : P ts) (hb : b.kind = .rightParen) : Enclosed wanted P (a :: (ts ++ [b]))

/-- The tokens of an alternative. -/
abbrev MemberTokens (P : TypeExpr → List Token → Prop) (t : TypeExpr) : List Token → Prop :=
  Enclosed t.endsInResult (P t)

/-- The tokens of a member of an intersection. -/
abbrev FactorTokens (P : TypeExpr → List Token → Prop) (t : TypeExpr) : List Token → Prop :=
  Enclosed t.isLoose (P t)

theorem spells_parenthesized {P : List Token → Prop} (h : Spells text.toList P) (wanted : Bool) :
    Spells (parenthesized wanted text).toList (Enclosed wanted P) := by
  cases wanted with
  | false => exact h.mono fun ts hts => .plain rfl hts
  | true =>
    rw [toList_parenthesized]
    refine h.enclose.mono ?_
    rintro _ ⟨a, us, b, rfl, ha, hus, hb⟩
    exact .paren rfl ha hus hb

theorem Spells.number {n : Int} {cs : List Char} {P : List Token → Prop} (h : Spells cs P)
    (hn : Numeral.isWritable n) (hcs : isBoundary cs) :
    Spells ((toString n).toList ++ cs) fun ts => ∃ us vs, ts = us ++ vs ∧ IsNumber n us ∧ P vs := by
  intro start
  obtain ⟨vs, htokens, hvs⟩ := h (start + (toString n).toList.length)
  obtain ⟨us, hus, htokens'⟩ := exists_isNumber hn hcs htokens
  exact ⟨us ++ vs, htokens', us, vs, rfl, hus, hvs⟩

theorem spells_number {n : Int} (hn : Numeral.isWritable n) :
    Spells (toString n).toList (IsNumber n) := by
  have hspells := spells_nil.number hn rfl
  rw [append_nil] at hspells
  refine hspells.mono ?_
  rintro _ ⟨us, _, rfl, hus, rfl⟩
  rw [append_nil]
  exact hus

theorem isNameText_of_isNameWord (h : IsNameWord text) : IsNameText text := by
  intro rest hrest
  obtain ⟨name, hname, rfl | rfl⟩ := h
  · exact leads_name hname hrest
  · rw [String.toList_append]
    exact leads_markedName hname hrest

theorem leads_variable {rest : List Char} (h : IsVariableWord text)
    (hrest : isBoundary rest) : Leads .variable text.toList rest := by
  obtain ⟨c, cs, htext, hc, hcs⟩ := h
  have hrun : run Text.isWord (cs ++ rest) = cs.length :=
    run_append hcs fun d others hd => isWord_boundary d (head_of_isBoundary hrest hd)
  have hlength : variableLength ('$' :: c :: (cs ++ rest)) = cs.length + 2 := by
    rw [variableLength, if_pos hc, hrun]
  rw [htext]
  refine leads_of_tokenAt? rfl ?_
  rw [cons_append, cons_append, length_cons]
  unfold tokenAt? longTokens
  simp [markLength, floatLength, digits, fraction, intLength, markedLength, firstLength, hlength,
    show Text.isDigit '$' = false from rfl]

/-! ### Keys, marks and words -/

/-- The word that a key is written as if it stands without quotes. -/
def bareWord (k : String) : String :=
  String.ofList (k.toList.takeWhile fun c => c.isAlphanum || c == '_')

theorem bareWord_facts {k : String} (h : isBareKey k.toList) : isAsciiName (bareWord k) ∧
      (k.toList = (bareWord k).toList ∨ k.toList = (bareWord k).toList ++ ['\n']) := by
  unfold isBareKey at h
  cases hcs : k.toList with
  | nil => simp [hcs] at h
  | cons c cs =>
    simp only [hcs, Bool.and_eq_true, Bool.or_eq_true, beq_iff_eq] at h
    have hc := isKeyPart_of_isKeyStart h.1
    have hword : (bareWord k).toList = c :: cs.takeWhile fun d => d.isAlphanum || d == '_' := by
      rw [bareWord, String.toList_ofList, hcs, takeWhile_cons, if_pos hc]
    refine ⟨?_, ?_⟩
    · simp only [isAsciiName, hword, h.1, Bool.true_and, all_eq_true]
      exact fun d hd => Evaluation.of_mem_takeWhile hd
    · have hsplit := takeWhile_append_dropWhile (p := fun d : Char => d.isAlphanum || d == '_')
        (l := cs)
      rw [hword]
      rcases h.2 with hbehind | hbehind <;> rw [hbehind] at hsplit
      · exact Or.inl (by rw [append_nil] at hsplit; rw [hsplit])
      · exact Or.inr (by rw [cons_append, hsplit])

section
variable {cs : List Char} {Q : List Token → Prop}

theorem spells_keyMark (h : Spells cs Q) (optional : Bool) :
    Spells (keyMark optional ++ cs) fun ts => ∃ ms us, ts = ms ++ us ∧ Q us ∧
      ∀ z, ∃ hlt, keyEnd? (ms ++ z) = some ⟨optional, z, hlt⟩ := by
  cases optional with
  | false =>
    refine h.colon.mono ?_
    rintro _ ⟨a, us, rfl, ha, hus⟩
    exact ⟨[a], us, rfl, hus, fun z => ⟨by simp, by simp [keyEnd?, ha]⟩⟩
  | true =>
    refine (h.colon.sign (c := '?') rfl (by decide)).mono ?_
    rintro _ ⟨a, _, rfl, ha, b, us, rfl, hb, hus⟩
    exact ⟨[a, b], us, rfl, hus, fun z => ⟨by simp only [length_append, length_cons]; omega,
      by simp [keyEnd?, ha, hb]⟩⟩

theorem spells_bareKey {k : String} (hk : isBareKey k.toList) (h : Spells cs Q)
    (hcs : isBoundary cs) :
    Spells (k.toList ++ cs) fun ts => ∃ t us, ts = t :: us ∧ t.kind = .identifier ∧
      t.value = bareWord k ∧ Q us := by
  obtain ⟨hname, hword⟩ := bareWord_facts hk
  have hname := isNameText_of_isClassName (isClassName_of_isAsciiName hname)
  rcases hword with hword | hword <;> rw [hword]
  · exact h.name hname hcs
  · rw [append_assoc]
    exact (h.blankChar (c := '\n') rfl).name hname rfl

theorem Spells.mark {ds : List Char} {kind : TokenKind} (h : Spells ds Q)
    (hlead : Leads kind cs ds) (wanted : Bool) :
    Spells ((if wanted then cs else []) ++ ds) fun ts => ∃ t us,
      ts = (if wanted then [t] else []) ++ us ∧ t.kind = kind ∧ Q us := by
  cases wanted with
  | false => exact h.mono fun ts hts => ⟨⟨kind, "", 0⟩, ts, rfl, rfl, hts⟩
  | true => exact (h.lead hlead).mono fun _ ⟨t, us, hts, ht, _, hus⟩ => ⟨t, us, hts, ht, hus⟩

theorem spells_marks (byReference variadic optional : Bool) :
    Spells (TypeExpr.parameterMarks byReference variadic optional).toList fun ts =>
      ∃ a b c : Token, ts = markTokens byReference variadic optional a b c ∧
        a.kind = .ampersand ∧ b.kind = .ellipsis ∧ c.kind = .equals := by
  have htext : (TypeExpr.parameterMarks byReference variadic optional).toList =
      (if byReference then ['&'] else []) ++ ((if variadic then ['.', '.', '.'] else []) ++
        ((if optional then ['='] else []) ++ [])) := by
    cases byReference <;> cases variadic <;> cases optional <;> rfl
  have hequals := spells_nil.mark (leads_sign (c := '=') rfl (by decide) []) optional
  have hdots := hequals.mark (leads_ellipsis _) variadic
  rw [htext]
  refine (hdots.mark (leads_sign (c := '&') rfl (by decide) _) byReference).mono ?_
  rintro _ ⟨a, _, rfl, ha, b, _, rfl, hb, c, _, rfl, hc, rfl⟩
  exact ⟨a, b, c, by simp [markTokens], ha, hb, hc⟩

theorem spells_test {subject : String} (hsubject : IsSubject subject) {cs : List Char}
    {Q : List Token → Prop} (h : Spells cs Q) :
    Spells (subject.toList ++ ' ' :: 'i' :: 's' :: ' ' :: cs) fun ts => ∃ first second us,
      ts = first :: second :: us ∧ isTest first second ∧ first.value = subject ∧ Q us := by
  have hname : IsNameText "is" := isNameText_of_isClassName (by decide)
  have hword := (h.blank.name hname rfl).blank
  have his : ∀ t : Token, t.kind = .identifier → t.value = "is" → isWord t "is" := by
    intro t ht hvalue
    rw [isWord, ht, hvalue]
    decide
  cases hsubject with
  | dollar hdollar =>
    refine (hword.lead (leads_variable hdollar rfl)).mono ?_
    rintro _ ⟨a, _, rfl, ha, hvalue, b, us, rfl, hb, hvalue', hus⟩
    exact ⟨a, b, us, rfl, by simp [isTest, his b hb hvalue', ha], by
      rw [hvalue, String.ofList_toList], hus⟩
  | name hclass hbackslash =>
    refine (hword.name (isNameText_of_isClassName hclass) rfl).mono ?_
    rintro _ ⟨a, _, rfl, ha, hvalue, b, us, rfl, hb, hvalue', hus⟩
    exact ⟨a, b, us, rfl, by simp [isTest, his b hb hvalue', ha, hvalue, hbackslash], hvalue, hus⟩

end

/-! ### What is read and written -/

/-- The type is a number with a fraction. -/
def isFloat : TypeExpr → Bool
  | .literal (.float _) => true
  | _ => false

/-- What stands directly in a type that is read is written, and is no number with a fraction. -/
structure IsWritten (t : TypeExpr) : Prop where
  spelled : IsSpelled t
  writable : t.isWritableNode
  exact : t.isFloat = false

/-- The type is in canonical form everywhere and made of what a text can spell exactly. -/
abbrev WrittenForm : TypeExpr → Prop := Formed IsWritten

theorem parts_of_isSpelled (h : IsSpelled t) : parts t = t.children := by
  cases h <;> rfl

theorem IsSpelled.isRegularNode (h : IsSpelled t) : t.isRegularNode := by
  cases h with
  | shape _ hfields htail =>
    simp only [TypeExpr.isRegularNode, Bool.and_eq_true, all_eq_true]
    refine ⟨⟨rfl, by cases htail <;> rfl⟩, fun f hf => ?_⟩
    cases hfields f hf <;> exact ⟨rfl, rfl⟩
  | callable _ hparams =>
    simp only [TypeExpr.isRegularNode, Bool.and_eq_true, all_eq_true]
    refine ⟨rfl, fun p hp => ?_⟩
    cases hparams p hp
    exact ⟨⟨rfl, rfl⟩, rfl⟩
  | intRange low high => cases low <;> cases high <;> rfl
  | _ => rfl

theorem same_self_of_writtenForm (h : WrittenForm t) : t.same t := by
  refine same_refl (h.mono fun u hu => hu.2.spelled.isRegularNode) (h.mono fun u hu => ?_)
  have hexact := hu.2.exact
  match u with
  | .literal (.float _) => cases hexact
  | .literal (.int _) | .literal (.str _) => rfl
  | .keyword .. | .named .. | .nullable .. | .union .. | .intersection .. | .generic .. | .shape ..
  | .conditional .. | .template .. | .intRange .. | .callable .. | .memberReference ..
  | .unknown .. => rfl

/-- The type has no number with a fraction in it. -/
def isExact (t : TypeExpr) : Bool := t.nodes.all fun u => !u.isFloat

theorem writtenForm_of_spelledForm (h : SpelledForm t) (hw : t.isWritable)
    (hexact : t.isExact) : WrittenForm t := by
  induction h with
  | @intro t here _ ih =>
    have hparts := parts_of_isSpelled here.2
    obtain ⟨hwritable, hinside⟩ := isWritable_iff.mp hw
    obtain ⟨hfloat, hinside'⟩ := all_nodes_iff.mp hexact
    refine .intro ⟨here.1, here.2, hwritable, by simpa using hfloat⟩ fun u hu => ?_
    rw [hparts] at hu
    exact ih u (hparts ▸ hu) (hinside u hu) (hinside' u hu)

end StubCatalog.TypeExpr