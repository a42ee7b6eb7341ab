import StubCatalog.Docblock.TagBody
import StubCatalog.Proofs.TypeExpr.Context
import StubCatalog.Proofs.TypeExpr.ReadForm

/-! # Types in collapsed texts

A type in a doc comment is collapsed before it is read: every run of blanks becomes one space
(`Text.squeezed`). The tokens of the collapsed text resemble those of the text; a quoted text,
though, is collapsed inside as well. -/

namespace StubCatalog

open List

namespace Text

/-- The text with every run of blanks replaced by one space, and none at its end. -/
def squeezed : List Char → List Char
  | [] => []
  | c :: rest =>
    if isBlank c then
      if (squeezed rest).head?.all isBlank then squeezed rest else ' ' :: squeezed rest
    else c :: squeezed rest

section
variable {c : Char} {cs rest : List Char}

theorem squeezed_cons (hc : isBlank c = false) : squeezed (c :: rest) = c :: squeezed rest := by
  rw [squeezed, if_neg (by simp [hc])]

theorem squeezed_blank (hc : isBlank c) : squeezed (c :: rest) = ' ' :: squeezed rest ∨
      squeezed (c :: rest) = squeezed rest ∧ (squeezed rest).head?.all isBlank := by
  rw [squeezed, if_pos hc]
  split
  · next h => exact .inr ⟨rfl, h⟩
  · exact .inl rfl

theorem head?_squeezed_blank (hc : isBlank c) (rest : List Char) :
    (squeezed (c :: rest)).head?.all isBlank := by
  rcases squeezed_blank hc with h | ⟨h, hall⟩ <;> rw [h]
  · rfl
  · exact hall

theorem exists_word (cs : List Char) : ∃ word rest, cs = word ++ rest ∧
    (∀ c ∈ word, isBlank c = false) ∧ rest.head?.all isBlank ∧
      (squeezed rest).head?.all isBlank := by
  induction cs with
  | nil => exact ⟨[], [], rfl, by simp, rfl, rfl⟩
  | cons c cs ih =>
    cases hc : isBlank c with
    | true => exact ⟨[], c :: cs, rfl, by simp, by simpa using hc, head?_squeezed_blank hc _⟩
    | false =>
      obtain ⟨word, rest, rfl, hword, hrest⟩ := ih
      exact ⟨c :: word, rest, rfl, forall_mem_cons.mpr ⟨hc, hword⟩, hrest⟩

theorem squeezed_append_of_forall (h : ∀ c ∈ cs, isBlank c = false) (rest : List Char) :
    squeezed (cs ++ rest) = cs ++ squeezed rest := by
  induction cs with
  | nil => rfl
  | cons c cs ih =>
    rw [forall_mem_cons] at h
    rw [cons_append, squeezed_cons h.1, ih h.2, cons_append]

theorem squeezed_append (hc : isBlank c = false) (cs rest : List Char) :
    squeezed (cs ++ c :: rest) = squeezed (cs ++ [c]) ++ squeezed rest ∧
      squeezed (cs ++ [c]) ≠ [] := by
  induction cs with
  | nil => simp [squeezed_cons hc, squeezed]
  | cons d cs ih =>
    obtain ⟨happend, hne⟩ := ih
    obtain ⟨e, es, hes⟩ := exists_cons_of_ne_nil hne
    simp only [cons_append, squeezed, happend, hes, head?_cons]
    split
    · split <;> simp
    · simp

/-! ### Collapsed texts -/

theorem isBlank_of_fieldsBy {field : List Char} {fields : List (List Char)}
    (h : fieldsBy isBlank cs = (c :: field) :: fields) : isBlank c = false := by
  cases cs with
  | nil => cases h
  | cons d rest =>
    rw [fieldsBy] at h
    split at h
    · cases h
    · next hd =>
      split at h <;> cases h <;> simpa using hd

theorem join_cons_cons (sep part : List Char) (parts : List (List Char)) :
    join sep ((c :: part) :: parts) = c :: join sep (part :: parts) := by
  cases parts <;> rfl

theorem squeezed_of_fieldsBy {field : List Char} {fields : List (List Char)}
    (h : fieldsBy isBlank cs = field :: fields) :
    squeezed cs = join [' '] (field :: fields.filter fun word => !word.isEmpty) := by
  induction cs generalizing field fields with
  | nil =>
    cases h
    rfl
  | cons c cs ih =>
    obtain ⟨first, others, hfields⟩ := exists_cons_of_ne_nil (fieldsBy_ne_nil isBlank cs)
    have hsqueezed := ih hfields
    rw [fieldsBy, hfields] at h
    split at h
    · next hc =>
      cases h
      rw [squeezed, if_pos hc, hsqueezed]
      cases first with
      | nil =>
        rw [filter_cons_of_neg (by simp)]
        cases others.filter fun word => !word.isEmpty <;> rfl
      | cons d first =>
        rw [join_cons_cons, head?_cons, if_neg (by simp [isBlank_of_fieldsBy hfields]),
          filter_cons_of_pos (by simp), ← join_cons_cons]
        rfl
    · next hc =>
      cases h
      rw [squeezed, if_neg hc, hsqueezed, join_cons_cons]

theorem join_words (cs : List Char) : join [' '] (words cs) = squeezed (cs.dropWhile isBlank) := by
  induction cs with
  | nil => rfl
  | cons c cs ih =>
    cases hc : isBlank c with
    | true =>
      rw [dropWhile_cons_of_pos hc, ← ih, words, fieldsBy, if_pos hc]
      rfl
    | false =>
      obtain ⟨first, others, hfields⟩ := exists_cons_of_ne_nil (fieldsBy_ne_nil isBlank cs)
      have hcons : fieldsBy isBlank (c :: cs) = (c :: first) :: others := by
        rw [fieldsBy, if_neg (by simp [hc]), hfields]
      rw [dropWhile_cons_of_neg (by simp [hc]), squeezed_of_fieldsBy hcons, words, hcons]
      rfl

theorem toList_collapse (text : String) :
    (TagBody.collapse text).toList = squeezed (text.toList.dropWhile isBlank) := by
  rw [TagBody.collapse, String.toList_ofList, join_words]

end

end Text

namespace TypeExpr

open Text (squeezed squeezed_cons squeezed_blank)

variable {position n : Nat} {c : Char} {cs rest z : List Char} {kind : TokenKind}
  {tokens : List Token}

theorem markLength_blank {mark : List Char} (hmark : mark.all (!Text.isBlank ·))
    (hz : z.head?.all Text.isBlank) (cs : List Char) :
    markLength mark (cs ++ z) = markLength mark cs := by
  by_cases hcs : markLength mark cs = 0
  · rw [hcs]
    by_contra happend
    obtain ⟨hfront, ⟨others, rfl⟩, hne⟩ := prefix_of_markLength hcs happend
    rw [prefix_append_right_inj] at hfront
    cases others with
    | nil => exact hne (append_nil cs).symm
    | cons d others =>
      obtain ⟨more, rfl⟩ := hfront
      have hd := all_eq_true.mp hmark d (by simp)
      simp_all
  · exact (markLength_append z hcs).1

theorem tokenAt?_blank (hc : ¬ (c = '\'' ∨ c = '"')) (hz : z.head?.all Text.isBlank) :
    tokenAt? (c :: (cs ++ z)) = tokenAt? (c :: cs) := by
  have hboundary := isBoundary_of_blank hz
  have hstring : ∀ others, stringLength (c :: others) = 0 := by
    intro others
    rw [stringLength, if_neg (by simpa using hc)]
  refine tokenAt?_congr ?_
  rw [← cons_append]
  simp only [longTokens, forall_mem_cons, not_mem_nil, false_implies, implies_true,
    and_true]
  exact ⟨markLength_blank rfl hz _, markLength_blank rfl hz _,
    stops_floatLength.append _ hboundary, stops_intLength.append _ hboundary,
    stops_variableLength.append _ hboundary, stops_identifierLength.append _ hboundary,
    (hstring _).trans (hstring _).symm⟩

/-! ### Quoted texts -/

section
variable {quote : Char} (hquote : quote = '\'' ∨ quote = '"')
include hquote

theorem quotedRest_blank (hc : Text.isBlank c) : quotedRest quote (c :: rest) =
      if quotedRest quote rest == 0 then 0 else quotedRest quote rest + 1 := by
  have hback : c ≠ '\\' := by rintro rfl; cases hc
  have hne : c ≠ quote := by rintro rfl; rcases hquote with rfl | rfl <;> cases hc
  rw [quotedRest_cons hback, if_neg (by simpa using hne)]

theorem quotedRest_escaped (h : quotedRest quote (squeezed rest) = (squeezed rest).length)
    (hne : squeezed rest ≠ []) : quotedRest quote ('\\' :: squeezed (c :: rest)) =
      ('\\' :: squeezed (c :: rest)).length := by
  have hpos := length_pos_of_ne_nil hne
  have hkept : ∀ d, quotedRest quote ('\\' :: d :: squeezed rest) = (squeezed rest).length + 2 := by
    intro d
    rw [quotedRest, h]
    exact if_neg (by simpa using hne)
  cases hc : Text.isBlank c with
  | false => rw [squeezed_cons hc, hkept c]; rfl
  | true =>
    rcases squeezed_blank hc with heq | ⟨heq, hhead⟩ <;> rw [heq]
    · rw [hkept ' ']; rfl
    · obtain ⟨d, ds, hds⟩ := exists_cons_of_ne_nil hne
      rw [hds] at h hhead ⊢
      rw [quotedRest_blank hquote (by simpa using hhead)] at h
      rw [quotedRest]
      simp only [length_cons] at h ⊢
      split at h
      · omega
      · next hn => simp only [hn, Bool.false_eq_true, if_false]; omega

theorem exists_quoted (h : quotedRest quote cs ≠ 0) :
    ∃ body rest, cs = body ++ quote :: rest ∧ quotedRest quote cs = body.length + 1 ∧
      quotedRest quote (squeezed (body ++ [quote])) = (squeezed (body ++ [quote])).length := by
  have hblank : Text.isBlank quote = false := by rcases hquote with rfl | rfl <;> rfl
  fun_induction quotedRest quote cs with
  | case1 => exact absurd rfl h
  | case2 => exact absurd rfl h
  | case3 c rest n hn => exact absurd rfl h
  | case4 c rest n hn ih =>
    obtain ⟨body, behind, rfl, hlength, hsqueezed⟩ := ih (by simpa using hn)
    refine ⟨'\\' :: c :: body, behind, rfl, by simp [n, hlength], ?_⟩
    rw [cons_append, squeezed_cons rfl]
    exact quotedRest_escaped hquote hsqueezed (Text.squeezed_append hblank body []).2
  | case5 c rest hlone hback hclose =>
    obtain rfl := beq_iff_eq.mp hclose
    refine ⟨[], rest, rfl, rfl, ?_⟩
    rw [nil_append, squeezed_cons hblank, squeezed, quotedRest_cons (ne_backslash hlone hback),
      if_pos hclose]
    rfl
  | case6 => exact absurd rfl h
  | case7 c rest hlone hback hclose n hn ih =>
    obtain ⟨body, behind, rfl, hlength, hsqueezed⟩ := ih (by simpa using hn)
    refine ⟨c :: body, behind, rfl, by simp [n, hlength], ?_⟩
    have hne := (Text.squeezed_append hblank body []).2
    have hkept : ∀ d, d ≠ '\\' → d ≠ quote → quotedRest quote (d :: squeezed (body ++ [quote])) =
          (d :: squeezed (body ++ [quote])).length := by
      intro d hd hd'
      rw [quotedRest_cons hd, if_neg (by simpa using hd'), hsqueezed]
      exact if_neg (by simpa using hne)
    rw [cons_append]
    cases hc : Text.isBlank c with
    | false =>
      rw [squeezed_cons hc]
      exact hkept c (ne_backslash hlone hback) (by simpa using hclose)
    | true =>
      rcases squeezed_blank hc with heq | ⟨heq, -⟩ <;> rw [heq]
      · exact hkept ' ' (by decide) (by rcases hquote with rfl | rfl <;> decide)
      · exact hsqueezed

end

/-! ### Tokens of collapsed texts -/

/-- **The token in front of a text** stays in front, squeezed if it is a quoted text. -/
theorem leads_squeezed (hc : Text.isBlank c = false) (h : tokenAt? (c :: rest) = some (kind, n)) :
    ∃ token behind, rest = token ++ behind ∧ n = token.length + 1 ∧
      squeezed rest = squeezed token ++ squeezed behind ∧
      Leads kind (c :: squeezed token) (squeezed behind) ∧
      (kind = .string ∨ squeezed token = token) := by
  by_cases hquote : c = '\'' ∨ c = '"'
  · have hstring : ∀ cs, stringLength (c :: cs) =
        if quotedRest c cs == 0 then 0 else quotedRest c cs + 1 := by
      intro cs
      rw [stringLength, if_pos (by simpa using hquote)]
    rw [tokenAt?_quote hquote, hstring] at h
    have hne : quotedRest c rest ≠ 0 := by
      intro hzero
      simp [hzero] at h
    obtain ⟨body, behind, rfl, hlength, hsqueezed⟩ := exists_quoted hquote hne
    obtain ⟨happend, hbody⟩ := Text.squeezed_append hc body behind
    simp only [hlength, Nat.add_one_ne_zero, beq_iff_eq, if_false, Option.some.injEq,
      Prod.mk.injEq] at h
    obtain ⟨rfl, rfl⟩ := h
    refine ⟨body ++ [c], behind, by simp, by simp, happend, leads_of_tokenAt? hc ?_, .inl rfl⟩
    have hne : quotedRest c (squeezed (body ++ [c])) ≠ 0 := by rw [hsqueezed]; simpa using hbody
    have hclosed := (quotedRest_append (squeezed behind) hne).1
    rw [cons_append, tokenAt?_quote hquote, hstring, hclosed, hsqueezed]
    simp [hbody]
  · obtain ⟨word, others, rfl, hword, hothers, hsqueezed⟩ := Text.exists_word rest
    rw [tokenAt?_blank hquote hothers] at h
    obtain ⟨m, rfl⟩ : ∃ m, n = m + 1 := Nat.exists_eq_add_one.mpr (tokenAt?_le h).1
    have hlength : (word.take m).length = m :=
      length_take_of_le (by simpa using (tokenAt?_le h).2)
    have hfront : ∀ d ∈ word.take m, Text.isBlank d = false :=
      fun d hd => hword d (mem_of_mem_take hd)
    have hback : ∀ d ∈ word.drop m, Text.isBlank d = false :=
      fun d hd => hword d (mem_of_mem_drop hd)
    have hsame : squeezed (word.take m) = word.take m := by
      simpa [squeezed] using Text.squeezed_append_of_forall hfront []
    have hbehind := Text.squeezed_append_of_forall hback others
    refine ⟨word.take m, word.drop m ++ others, ?_, by rw [hlength], ?_, leads_of_tokenAt? hc ?_,
      .inr hsame⟩
    · rw [← append_assoc, take_append_drop]
    · rw [hsame, hbehind, ← append_assoc, take_append_drop,
        Text.squeezed_append_of_forall hword]
    · rw [hsame, hbehind, cons_append, ← append_assoc, take_append_drop, hlength,
        tokenAt?_blank hquote hsqueezed, h]

theorem le_position (h : tokensFrom position cs = .ok tokens) : ∀ t ∈ tokens, position ≤ t.position := by
  fun_induction tokensFrom position cs generalizing tokens with
  | case1 => cases h; simp
  | case2 position c rest _ ih => exact fun t ht => Nat.le_of_succ_le (ih h t ht)
  | case3 => cases h
  | case4 => cases h
  | case5 position c rest _ kind length _ found hfound ih =>
    cases h
    refine forall_mem_cons.mpr ⟨le_rfl, fun t ht => ?_⟩
    have := ih hfound t ht
    omega

theorem startsAt_tokensFrom (h : tokensFrom position cs = .ok tokens) :
    Reading.StartsAt position tokens ↔ cs.head?.any (fun c => !Text.isBlank c) := by
  cases cs with
  | nil =>
    rw [tokensFrom] at h
    cases h
    simp [Reading.StartsAt]
  | cons c rest =>
    rw [tokensFrom] at h
    split at h
    · next hc =>
      have hlater := le_position h
      cases tokens with
      | nil => simp [Reading.StartsAt, hc]
      | cons t tokens =>
        have := hlater t (by simp)
        rw [Reading.startsAt_cons]
        simp only [head?_cons, Option.any_some, hc]
        simp; omega
    · next hc =>
      split at h
      · cases h
      · split at h <;> cases h
        rw [Reading.startsAt_cons]
        simpa using hc

theorem any_head?_squeezed (cs : List Char) :
    (squeezed cs).head?.any (fun c => !Text.isBlank c) = cs.head?.any fun c => !Text.isBlank c := by
  cases cs with
  | nil => rfl
  | cons c rest =>
    cases hc : Text.isBlank c with
    | false => rw [squeezed_cons hc]; rfl
    | true =>
      have hhead := Text.head?_squeezed_blank hc rest
      cases hs : squeezed (c :: rest) with
      | nil => simp [hc]
      | cons d ds =>
        rw [hs] at hhead
        simp_all

theorem stop_ofList : (⟨kind, String.ofList cs, position⟩ : Token).stop = position + cs.length := by
  simp [Token.stop]

theorem exists_squeezed (exact : Prop) (h : tokensFrom position cs = .ok tokens)
    (hexact : exact → ∀ t ∈ tokens, t.kind = .string → TagBody.collapse t.value = t.value)
    (start : Nat) :
    ∃ tokens', tokensFrom start (squeezed cs) = .ok tokens' ∧
      Reading.Resembles exact [] tokens tokens' := by
  fun_induction tokensFrom position cs generalizing tokens start with
  | case1 position =>
    cases h
    exact ⟨[], by rw [squeezed, tokensFrom], .nil⟩
  | case2 position c rest hblank ih =>
    rcases squeezed_blank hblank with heq | ⟨heq, -⟩ <;> rw [heq]
    · rw [tokensFrom_blank]
      exact ih h hexact (start + 1)
    · exact ih h hexact start
  | case3 => cases h
  | case4 => cases h
  | case5 position c rest hblank kind length htoken found hfound ih =>
    cases h
    have hc : Text.isBlank c = false := by simpa using hblank
    obtain ⟨token, behind, rfl, rfl, hsqueezed, hleads, hsame⟩ := leads_squeezed hc htoken
    simp only [Nat.add_sub_cancel, drop_left, take_left] at hfound ih hexact ⊢
    obtain ⟨found', hfound', hresembles⟩ := ih hfound
      (fun h t ht => hexact h t (mem_cons_of_mem _ ht)) (start + (c :: squeezed token).length)
    have hcollapsed : TagBody.collapse (String.ofList (c :: token)) =
        String.ofList (c :: squeezed token) := by
      rw [← String.toList_inj, Text.toList_collapse, String.toList_ofList, String.toList_ofList,
        dropWhile_cons_of_neg (by simp [hc]), squeezed_cons hc]
    have hcut := hleads.tokensFrom_eq_ok hfound'
    rw [cons_append, ← hsqueezed, ← squeezed_cons hc] at hcut
    refine ⟨_, hcut, .cons rfl (fun hvalue => ?_) (fun _ => ?_) hresembles⟩
    · rcases hsame with rfl | hsame
      · have hkept := hexact (hvalue.resolve_left fun hkind => hkind rfl) _ mem_cons_self rfl
        exact hcollapsed.symm.trans hkept
      · simp only [hsame]
    · rw [stop_ofList, stop_ofList, startsAt_tokensFrom hfound', any_head?_squeezed]
      exact (startsAt_tokensFrom hfound).symm

/-! ### Reading collapsed texts -/

theorem tokensFrom_dropWhile (h : tokensFrom position cs = .ok tokens) :
    ∃ start, tokensFrom start (cs.dropWhile Text.isBlank) = .ok tokens := by
  induction cs generalizing position with
  | nil => exact ⟨position, h⟩
  | cons c rest ih =>
    cases hc : Text.isBlank c with
    | false => exact ⟨position, by rwa [dropWhile_cons_of_neg (by simp [hc])]⟩
    | true =>
      rw [dropWhile_cons_of_pos hc]
      rw [tokensFrom, if_pos hc] at h
      exact ih h

/-- The quoted texts among the tokens of a text are as they were once it is collapsed. -/
def KeepsQuotes (text : String) : Prop :=
  ∀ tokens, tokenize text = .ok tokens →
    ∀ token ∈ tokens, token.kind = .string → TagBody.collapse token.value = token.value

/-- **Collapsing keeps types.** What is read as a type is still read as one when its blanks are
collapsed; it is the same type if no quoted text in it holds a run of blanks or another blank than
the space. -/
theorem parse_collapse {text : String} {scope : Scope} {t : TypeExpr}
    (h : parse text scope = .ok t) :
    ∃ u, parse (TagBody.collapse text) scope = .ok u ∧ (KeepsQuotes text → u = t) := by
  obtain ⟨tokens, htokens, hderives⟩ := parse_eq_ok_iff.mp h
  obtain ⟨start, hstart⟩ := tokensFrom_dropWhile htokens
  obtain ⟨tokens', htokens', hresembles⟩ := exists_squeezed (KeepsQuotes text) hstart
    (fun hkeeps => hkeeps tokens htokens) 0
  rw [← Text.toList_collapse] at htokens'
  let r : Reading := ⟨TagBody.collapse text, scope⟩
  obtain ⟨u, rest, hderives', hrest, hsame⟩ := hderives.resembling
    (show r.scope = scope from rfl) rfl hresembles fun _ => by simp [Reading.MayEnd, Reading.kindAt]
  obtain rfl := hrest.eq_of_nil
  exact ⟨u, parse_eq_ok_iff.mpr ⟨tokens', htokens', hderives'⟩, hsame⟩

/-- A shape over two lines, with a blank in a quoted key. -/
def spreadShape : String := "array\x7b\n    'a b' :  Mode::B_* ,\n    ...\n\x7d "

theorem keepsQuotes_spreadShape : KeepsQuotes spreadShape := by
  intro tokens htokens
  have hall : (tokenize spreadShape).toOption.all (fun tokens => tokens.all fun token =>
      token.kind != .string || TagBody.collapse token.value == token.value) := by
    decide +kernel
  rw [htokens] at hall
  intro token htoken hkind
  have := all_eq_true.mp hall token htoken
  simpa [hkind] using this

theorem parse_collapse_spreadShape : KeepsQuotes spreadShape ∧ ∃ t, parse spreadShape = .ok t ∧
      parse "array\x7b 'a b' : Mode::B_* , ... \x7d" = .ok t := by
  obtain ⟨t, ht⟩ : ∃ t, parse spreadShape = .ok t := ⟨_, by with_unfolding_all rfl⟩
  obtain ⟨u, hu, hsame⟩ := parse_collapse ht
  have hcollapse : TagBody.collapse spreadShape =
      "array\x7b 'a b' : Mode::B_* , ... \x7d" := by decide
  exact ⟨keepsQuotes_spreadShape, t, ht, hcollapse ▸ hsame keepsQuotes_spreadShape ▸ hu⟩

/-- Two blanks in a quoted text become one, and the type another one. -/
theorem parse_collapse_twoBlanks :
    ∃ t u, parse "'a  b'" = .ok t ∧ parse (TagBody.collapse "'a  b'") = .ok u ∧ u.same t = false :=
  ⟨.literal (.str "a  b"), .literal (.str "a b"), by with_unfolding_all rfl,
    by with_unfolding_all rfl, by decide +kernel⟩

end TypeExpr

end StubCatalog
