import StubCatalog.Docblock.TagBody
import StubCatalog.Proofs.TypeExpr.ValueLiterals

/-! # Where the type of a tag ends

A piece of text *passes* if it is taken as part of the type, whatever stands around it (`Passes`). A
written type passes as a whole, and the blank behind it ends it (`split?_written`). -/

namespace StubCatalog.TagBody

open List TypeExpr

variable {inside whole : Bool} {c : Char} {cs ds rest taken stack : List Char} {last : Option Char}

/-! ### Characters -/

/-- The character is no blank, quote or bracket. -/
def isPlain (c : Char) : Bool :=
  !Text.isBlank c && !(['\'', '"', '(', '<', '{', '[', ')', '>', '}', ']'].contains c)

/-- The character belongs to the type, and a blank behind it ends the type. -/
def isSolid (c : Char) : Bool := isPlain c && !continues (some c)

theorem splitFrom_plain (h : isPlain c) : splitFrom stack none last taken (c :: rest) =
    splitFrom stack none (some c) (c :: taken) rest := by
  simp only [isPlain, Bool.and_eq_true, Bool.not_eq_true', contains_eq_mem,
    decide_eq_false_iff_not, mem_cons, not_or] at h
  have hopen : closer? c = none := by
    fun_cases closer? c <;> simp_all
  rw [splitFrom.eq_def]
  simp [h, hopen, isCloser]

theorem isSolid_of_isWord (h : Text.isWord c) : isSolid c := by
  have hsigns : ['\'', '"', '(', '<', '{', '[', ')', '>', '}', ']', '|', '&', ':'].all
      fun d => !Text.isWord d := by
    decide
  have hne : c ∉ ['\'', '"', '(', '<', '{', '[', ')', '>', '}', ']', '|', '&', ':'] := fun hmem => by
    simpa [h] using all_eq_true.mp hsigns c hmem
  simp only [mem_cons, not_mem_nil, or_false, not_or] at hne
  simp [isSolid, isPlain, continues, Text.isBlank_of_isWord h, hne]

/-! ### Pieces of a type -/

/-- The characters are taken as part of the type; after a *whole* piece a blank ends it. -/
structure Passes (inside whole : Bool) (cs : List Char) : Prop where
  head : inside = false → ∃ c, cs.head? = some c ∧ Text.isBlank c = false
  run : ∀ stack last taken rest, (inside → stack ≠ []) →
    ∃ last', (whole → continues last' = false) ∧ splitFrom stack none last taken (cs ++ rest) =
      splitFrom stack none last' (cs.reverse ++ taken) rest

theorem Passes.append {whole' : Bool} (h : Passes inside whole cs) (hds : Passes inside whole' ds) :
    Passes inside whole' (cs ++ ds) where
  head hinside := by
    obtain ⟨c, hc, hblank⟩ := h.head hinside
    exact ⟨c, by rw [head?_append, hc, Option.some_or], hblank⟩
  run stack last taken rest hstack := by
    obtain ⟨last₁, -, hfirst⟩ := h.run stack last taken (ds ++ rest) hstack
    obtain ⟨last₂, hwhole, hsecond⟩ := hds.run stack last₁ (cs.reverse ++ taken) rest hstack
    refine ⟨last₂, hwhole, ?_⟩
    rw [append_assoc, hfirst, hsecond, reverse_append, append_assoc]

theorem Passes.inner (h : Passes inside whole cs) : Passes true false cs where
  head h := by cases h
  run stack last taken rest hstack := by
    obtain ⟨last', -, hrun⟩ := h.run stack last taken rest fun _ => hstack rfl
    exact ⟨last', by simp, hrun⟩

theorem passes_nil : Passes true false [] :=
  ⟨by simp, fun _ last _ _ _ => ⟨last, by simp, rfl⟩⟩

theorem passes_plain (h : isPlain c) : Passes false (!continues (some c)) [c] where
  head _ := ⟨c, rfl, by simp_all [isPlain]⟩
  run _ _ _ _ _ := ⟨some c, by simp, splitFrom_plain h⟩

theorem passes_blank (h : c = ' ' ∨ c = '\n') : Passes true false [c] where
  head h := by cases h
  run stack last taken rest hstack := by
    refine ⟨last, by simp, ?_⟩
    have hstack : stack.isEmpty = false := by simpa using hstack rfl
    rw [singleton_append, splitFrom.eq_def]
    rcases h with rfl | rfl <;> simp [hstack, closer?, isCloser, Text.isBlank]

theorem Passes.result (h : Passes false whole cs) : Passes false whole (':' :: ' ' :: cs) where
  head _ := ⟨':', rfl, rfl⟩
  run stack last taken rest hstack := by
    obtain ⟨c, hhead, hblank⟩ := h.head rfl
    obtain ⟨ds, rfl⟩ := head?_eq_some_iff.mp hhead
    have hspace : Text.isBlank ' ' := rfl
    have hcolon : splitFrom stack none last taken (':' :: ' ' :: c :: ds ++ rest) =
        splitFrom stack none (some ':') (' ' :: ':' :: taken) (c :: ds ++ rest) := by
      rw [cons_append, splitFrom_plain rfl, cons_append, splitFrom.eq_def]
      cases stack with
      | cons close stack => simp [closer?, isCloser, hspace]
      | nil => simp [closer?, isCloser, hspace, continues, hblank]
    obtain ⟨last', hwhole, hrun⟩ := h.run stack (some ':') (' ' :: ':' :: taken) rest hstack
    refine ⟨last', hwhole, ?_⟩
    rw [hcolon, hrun]
    simp

theorem passes_bracketed {close : Char} (hc : closer? c = some close) (h : Passes true false cs) :
    Passes false true (c :: (cs ++ [close])) := by
  have hfacts : c ≠ '\'' ∧ c ≠ '"' ∧ Text.isBlank c = false ∧ closer? close = none ∧
      isCloser close ∧ close ≠ '\'' ∧ close ≠ '"' ∧ continues (some close) = false := by
    fun_cases closer? c <;> simp_all [closer?] <;> subst hc <;> decide
  obtain ⟨hsingle, hdouble, hblank, hopen, hcloser, hsingle', hdouble', hcontinues⟩ := hfacts
  refine ⟨fun _ => ⟨c, rfl, hblank⟩, fun stack last taken rest _ =>
    ⟨some close, fun _ => hcontinues, ?_⟩⟩
  obtain ⟨last', -, hrun⟩ := h.run (close :: stack) (some c) (c :: taken) (close :: rest) (by simp)
  rw [cons_append, splitFrom.eq_def]
  simp only [hsingle, hdouble, hc, append_assoc, singleton_append, hrun, beq_iff_eq,
    Bool.or_eq_true, or_self, if_false]
  rw [splitFrom.eq_def]
  simp [hsingle', hdouble', hopen, hcloser]

theorem passes_solid (hne : cs ≠ []) (h : ∀ c ∈ cs, isSolid c) : Passes false true cs := by
  have hchar : ∀ c, isSolid c → Passes false true [c] := fun c hc => by
    simp only [isSolid, Bool.and_eq_true] at hc
    exact hc.2 ▸ passes_plain hc.1
  induction cs with
  | nil => exact absurd rfl hne
  | cons c cs ih =>
    have hc := hchar c (h c (by simp))
    cases cs with
    | nil => exact hc
    | cons d ds => exact hc.append (ih (by simp) fun e he => h e (by simp [he]))

theorem passes_word (hne : cs ≠ []) (h : cs.all isSolid) : Passes false true cs :=
  passes_solid hne (all_eq_true.mp h)

theorem splitFrom_quoted (cs : List Char) : splitFrom stack (some '\'') last taken
    (cs.flatMap quoteChar ++ '\'' :: rest) =
      splitFrom stack none (some '\'') ('\'' :: ((cs.flatMap quoteChar).reverse ++ taken)) rest := by
  induction cs generalizing last taken with
  | nil =>
    rw [flatMap_nil, nil_append, splitFrom.eq_def]
    simp
  | cons c cs ih =>
    rw [flatMap_cons, quoteChar]
    split
    · rw [append_assoc, cons_append, splitFrom.eq_def]
      simp [ih]
    · next hc =>
      simp only [Bool.or_eq_true, beq_iff_eq, not_or] at hc
      rw [append_assoc, cons_append, splitFrom.eq_def]
      simp [ih, hc]

theorem passes_quoteText (s : String) : Passes false true (quoteText s).toList where
  head _ := ⟨'\'', by rw [quoteText, String.toList_ofList]; rfl, rfl⟩
  run stack last taken rest _ := by
    refine ⟨some '\'', fun _ => rfl, ?_⟩
    have hquoted := @splitFrom_quoted rest ('\'' :: taken) stack (some '\'') s.toList
    rw [quoteText, String.toList_ofList, cons_append, cons_append, splitFrom.eq_def]
    simpa using hquoted

/-! ### Names and numbers -/

theorem isSolid_of_isNamePart (h : isNamePart c) : isSolid c := by
  rw [isNamePart, Bool.or_eq_true, beq_iff_eq] at h
  rcases h with h | rfl
  · exact isSolid_of_isWord h
  · rfl

theorem isSolid_of_isKeyPart (h : c.isAlphanum || c == '_') : isSolid c := by
  refine isSolid_of_isWord ?_
  rw [Text.isWord, if_pos (toNat_lt_of_isKeyPart h)]
  exact h

theorem isSolid_of_isShortName (h : isShortName cs) : ∀ c ∈ cs, isSolid c := by
  cases cs with
  | nil => simp
  | cons c cs =>
    rw [isShortName, Bool.and_eq_true, all_eq_true] at h
    exact forall_mem_cons.mpr ⟨isSolid_of_isWord (Text.isWord_of_isNameStart h.1),
      fun d hd => isSolid_of_isNamePart (h.2 d hd)⟩

theorem isSolid_className {name : String} (h : isClassName name) :
    name.toList ≠ [] ∧ ∀ c ∈ name.toList, isSolid c := by
  obtain ⟨c, cs, parts, -, hfirst, hparts, hname⟩ := exists_path_of_isClassName h
  rw [hname, forall_mem_append]
  refine ⟨by simp, isSolid_of_isShortName hfirst, fun d hd => ?_⟩
  obtain ⟨part, hpart, hd⟩ := mem_flatMap.mp hd
  rcases mem_cons.mp hd with rfl | hd
  · rfl
  · exact isSolid_of_isShortName (hparts part hpart) d hd

theorem isSolid_nameWord {word : String} (h : IsNameWord word) :
    word.toList ≠ [] ∧ ∀ c ∈ word.toList, isSolid c := by
  obtain ⟨name, hname, rfl | rfl⟩ := h
  · exact isSolid_className hname
  · rw [String.toList_append]
    exact ⟨by simp, forall_mem_append.mpr
      ⟨all_eq_true.mp (by decide), (isSolid_className hname).2⟩⟩

theorem passes_nameWord {word : String} (h : IsNameWord word) : Passes false true word.toList :=
  passes_solid (isSolid_nameWord h).1 (isSolid_nameWord h).2

theorem isNameWord_classText {name : String} (h : isClassName name) :
    IsNameWord (classText name) := by
  unfold classText
  split
  · exact ⟨name, h, Or.inr rfl⟩
  · exact ⟨name, h, Or.inl rfl⟩

theorem passes_member {member : String} (h : IsMemberName member) :
    Passes false true member.toList := by
  obtain ⟨parts, hne, hparts, rfl⟩ := h
  rw [show (parts.foldl (· ++ ·) "").toList = parts.flatMap String.toList from String.toList_join]
  have hsolid : ∀ part ∈ parts, part.toList ≠ [] ∧ ∀ c ∈ part.toList, isSolid c := by
    clear hne
    induction hparts with
    | nil => simp
    | star _ ih =>
      exact forall_mem_cons.mpr ⟨⟨by decide, all_eq_true.mp (by decide)⟩, ih⟩
    | name hword _ _ ih => exact forall_mem_cons.mpr ⟨isSolid_nameWord hword, ih⟩
  obtain ⟨part, parts, rfl⟩ := exists_cons_of_ne_nil hne
  refine passes_solid ?_ fun c hc => ?_
  · simp [(hsolid part (by simp)).1]
  · obtain ⟨part, hpart, hc⟩ := mem_flatMap.mp hc
    exact (hsolid part hpart).2 c hc

theorem isSolid_digits (n : Nat) : ∀ c ∈ (toString n).toList, isSolid c := by
  intro c hc
  have hdigit := Numeral.isDigit_of_mem_digits c (by simpa using hc)
  exact isSolid_of_isKeyPart (by simp [Char.isAlphanum, hdigit])

theorem passes_int (n : Int) : Passes false true (toString n).toList := by
  have hdigits : ∀ m : Nat, Passes false true (toString m).toList := fun m =>
    passes_solid (by simp) (isSolid_digits m)
  cases n with
  | ofNat m => exact hdigits m
  | negSucc m =>
    rw [show toString (Int.negSucc m) = "-" ++ toString (m + 1) from rfl, String.toList_append]
    exact (passes_plain (c := '-') rfl).append (hdigits (m + 1))

theorem isSolid_significantDigits (n : Nat) : ∀ c ∈ Double.significantDigits n, isSolid c := by
  intro c hc
  refine isSolid_digits n c ?_
  rw [Double.significantDigits, mem_reverse] at hc
  exact mem_reverse.mp ((dropWhile_sublist _).subset hc)

theorem isSolid_zeros (k : Nat) : ∀ c ∈ List.replicate k '0', isSolid c := by
  intro c hc
  rw [eq_of_mem_replicate hc]
  rfl

theorem passes_positiveText (m : Nat) (e : Int) :
    Passes false true (Double.positiveText m e).toList := by
  unfold Double.positiveText
  generalize Double.shortest m e = pair
  obtain ⟨d, power⟩ := pair
  have hdigits := isSolid_significantDigits d
  simp only
  generalize Double.significantDigits d = ds at hdigits
  split
  · rw [String.toList_ofList]
    unfold Double.positionalText
    split
    · refine passes_solid (by simp) ?_
      simp only [cons_append, forall_mem_cons, forall_mem_append]
      exact ⟨rfl, rfl, isSolid_zeros _, hdigits⟩
    · refine passes_solid (by simp) ?_
      simp only [forall_mem_cons, forall_mem_append]
      refine ⟨⟨fun c hc => hdigits c (mem_of_mem_take hc), isSolid_zeros _⟩, rfl, ?_⟩
      split
      · exact all_eq_true.mp rfl
      · exact fun c hc => hdigits c (mem_of_mem_drop hc)
  · have hexponent : ∀ c ∈ (Double.exponentText 2 (power + (toString d).length - 1)).toList,
        isSolid c := by
      unfold Double.exponentText
      simp only [String.toList_append, forall_mem_append, String.toList_ofList]
      refine ⟨⟨?_, isSolid_zeros _⟩, isSolid_digits _⟩
      split <;> exact all_eq_true.mp (by decide)
    refine passes_solid (by simp) ?_
    simp only [String.toList_append, forall_mem_append, String.toList_ofList]
    refine ⟨⟨?_, all_eq_true.mp (by decide)⟩, hexponent⟩
    split
    · simp
    · exact hdigits
    · simp only [forall_mem_cons] at hdigits ⊢
      exact ⟨hdigits.1, rfl, hdigits.2⟩

theorem passes_double (d : Double) : Passes false true d.text.toList := by
  cases d with
  | nan => exact passes_word (by decide) (by decide)
  | infinite negative => cases negative <;> exact passes_word (by decide) (by decide)
  | finite negative m e =>
    have hbody : Passes false true (if m == 0 then "0.0" else Double.positiveText m e).toList := by
      split
      · exact passes_word (by decide) (by decide)
      · exact passes_positiveText m e
    rw [Double.text, String.toList_append]
    cases negative with
    | false => exact hbody
    | true => exact (passes_plain (c := '-') rfl).append hbody

/-! ### Types -/

/-- The text of the type passes. -/
abbrev PassesText (t : TypeExpr) : Prop := Passes false true t.text.toList

theorem passes_signs (h : cs.all fun c => isPlain c || c == ' ') : Passes true false cs := by
  simp only [all_eq_true, Bool.or_eq_true, beq_iff_eq] at h
  induction cs with
  | nil => exact passes_nil
  | cons c cs ih =>
    have hc : Passes true false [c] := by
      rcases h c (by simp) with hc | hc
      · exact (passes_plain hc).inner
      · exact passes_blank (Or.inl hc)
    exact hc.append (ih fun d hd => h d (by simp [hd]))

section
variable {α : Type} {f : α → List Char} {as : List α}

theorem passes_listed {sep : List Char} (hsep : Passes inside false sep) (hne : as ≠ [])
    (h : ∀ a ∈ as, Passes inside whole (f a)) : Passes inside whole (listed sep f as) := by
  induction as with
  | nil => exact absurd rfl hne
  | cons a as ih =>
    have ha := h a (by simp)
    cases as with
    | nil => simpa [listed] using ha
    | cons b as =>
      rw [listed_cons_cons]
      exact ha.append (hsep.append (ih (by simp) fun c hc => h c (by simp [hc])))

theorem passes_commas (h : ∀ a ∈ as, Passes true false (f a)) :
    Passes true false (listed [',', ' '] f as) := by
  cases as with
  | nil => exact passes_nil
  | cons a as => exact passes_listed (passes_signs (by decide)) (by simp) h

end

section
variable {t : TypeExpr} {ts : List TypeExpr}

theorem passes_parenthesized (h : PassesText t) (wanted : Bool) :
    Passes false true (parenthesized wanted t.text).toList := by
  cases wanted with
  | false => exact h
  | true =>
    rw [toList_parenthesized]
    exact passes_bracketed rfl h.inner

theorem passes_nullable (h : PassesText t) : PassesText (.nullable t) := by
  cases hcompound : t.isCompound with
  | false =>
    rw [PassesText, toList_text_question hcompound]
    exact (passes_plain (c := '?') rfl).append h
  | true =>
    have htext : (TypeExpr.nullable t).text = "null|" ++ memberText t := by
      cases t with
      | union ts => simp [text, memberText, endsInResult, parenthesized]
      | _ => rw [text, if_pos hcompound, memberText]; simp
    rw [PassesText, htext, String.toList_append]
    have hnull : Passes false true ['n', 'u', 'l', 'l'] := passes_word (by decide) (by decide)
    exact (hnull.append (passes_plain (c := '|') rfl)).append (passes_parenthesized h t.endsInResult)

theorem passes_conditional {subject : String} {target whenTrue whenFalse : TypeExpr}
    {negated : Bool} (hsubject : IsSubject subject) (htarget : PassesText target)
    (htrue : PassesText whenTrue) (hfalse : PassesText whenFalse) :
    PassesText (.conditional subject target whenTrue whenFalse negated) := by
  have hname : Passes true false subject.toList := by
    cases hsubject with
    | dollar h =>
      obtain ⟨c, rest, htext, hc, hrest⟩ := h
      rw [htext]
      refine (passes_solid (by simp) ?_).inner
      simp only [forall_mem_cons]
      exact ⟨rfl, isSolid_of_isKeyPart (isKeyPart_of_isKeyStart hc),
        fun d hd => isSolid_of_isWord (hrest d hd)⟩
    | name h _ => exact (passes_nameWord ⟨subject, h, Or.inl rfl⟩).inner
  have hbranches := htrue.inner.append
    ((@passes_signs [' ', ':', ' '] (by decide)).append hfalse.inner)
  have hrest := htarget.inner.append
    ((@passes_signs [' ', '?', ' '] (by decide)).append hbranches)
  have hnot : Passes true false (if negated then ['n', 'o', 't', ' '] else []) :=
    passes_signs (by cases negated <;> decide)
  have hall := hname.append
    ((@passes_signs [' ', 'i', 's', ' '] (by decide)).append (hnot.append hrest))
  have hbracketed := passes_bracketed (c := '(') rfl hall
  rw [PassesText, toList_text_conditional]
  simpa using hbracketed

theorem passes_generic {name : String} (hname : name ∈ Keyword.generics ∨ isClassName name)
    (h : ∀ t ∈ ts, PassesText t) : PassesText (.generic name ts) := by
  have hclass : isClassName name := by
    have hgenerics : ∀ name ∈ Keyword.generics, isClassName name := by decide
    exact hname.elim (hgenerics name) id
  have hword : IsNameWord (if Keyword.isGeneric name then name else classText name) := by
    split
    · exact ⟨name, hclass, Or.inl rfl⟩
    · exact isNameWord_classText hclass
  rw [PassesText, toList_text_generic]
  exact (passes_nameWord hword).append
    (passes_bracketed rfl (passes_commas fun t ht => (h t ht).inner))

theorem passes_range (low high : Option Int) :
    PassesText (.intRange (.ofInt? low) (.ofInt? high)) := by
  have hbound : ∀ (word : String) (b : Option Int), isClassName word →
      Passes true false (boundText word (.ofInt? b)).toList := by
    intro word b hword
    cases b with
    | none => exact (passes_nameWord ⟨word, hword, Or.inl rfl⟩).inner
    | some n => exact (passes_int n).inner
  have hbounds := (hbound "min" low (by decide)).append
    ((@passes_signs [',', ' '] (by decide)).append (hbound "max" high (by decide)))
  have hint : Passes false true "int".toList := passes_word (by decide) (by decide)
  rw [PassesText, text, toList_rangeText]
  simpa using hint.append (passes_bracketed (c := '<') rfl hbounds)

theorem passes_memberReference {owner member : String} (howner : isClassName owner)
    (hmember : IsMemberName member) : PassesText (.memberReference owner member) := by
  have hword : IsNameWord (ownerText owner) := by
    unfold ownerText
    split
    · exact ⟨owner, howner, Or.inl rfl⟩
    · exact isNameWord_classText howner
  have hcolon : Passes false false [':'] := passes_plain (c := ':') rfl
  rw [PassesText, toList_text_memberReference]
  exact (passes_nameWord hword).append (hcolon.append (hcolon.append (passes_member hmember)))

theorem passes_callable {kind : String} {params : List (CallableParameter TypeExpr)}
    {result : Option TypeExpr} (hkind : kind ∈ Keyword.callables.map Prod.snd)
    (hparams : ∀ p ∈ params, PassesText p.type) (hresult : ∀ t ∈ result, PassesText t) :
    PassesText (.callable kind params result) := by
  have hmarks : ∀ a b c, Passes true false (parameterMarks a b c).toList := fun a b c =>
    passes_signs (by cases a <;> cases b <;> cases c <;> decide)
  have hlist : Passes true false (listed [',', ' '] (fun p => (parameterText p).toList) params) :=
    passes_commas fun p hp => by
      rw [parameterText, String.toList_append]
      exact (hparams p hp).inner.append (hmarks _ _ _)
  have hcall := (passes_nameWord ⟨kind, (callableKind_facts hkind).1, Or.inl rfl⟩).append
    (passes_bracketed (c := '(') rfl hlist)
  cases result with
  | none =>
    rw [PassesText, toList_text_callable]
    exact hcall
  | some t =>
    rw [PassesText, toList_text_callableResult]
    simpa using hcall.append (hresult t rfl).result

theorem passes_bareKey {k : String} (hk : isBareKey k.toList) : Passes true false k.toList := by
  obtain ⟨hname, hword⟩ := bareWord_facts hk
  have hbare := passes_nameWord ⟨bareWord k, isClassName_of_isAsciiName hname, Or.inl rfl⟩
  rcases hword with hword | hword <;> rw [hword]
  · exact hbare.inner
  · exact hbare.inner.append (passes_blank (Or.inr rfl))

theorem passes_field {f : ShapeField TypeExpr} (hf : SpelledField f) (h : PassesText f.value) :
    Passes true false (fieldText f).toList := by
  have hmark : ∀ optional, Passes true false (keyMark optional) := fun optional =>
    passes_signs (by cases optional <;> decide)
  cases hf with
  | positional t => exact h.inner
  | int n t optional =>
    rw [toList_fieldText]
    exact (passes_int n).inner.append ((hmark optional).append h.inner)
  | str k t optional =>
    have hkey : Passes true false (keyText (.str k)).toList := by
      rw [keyText]
      split
      · next hk => exact passes_bareKey hk
      · exact (passes_quoteText k).inner
    rw [toList_fieldText]
    exact hkey.append ((hmark optional).append h.inner)

theorem passes_tail {s : Flag} {key value : Option TypeExpr} (h : PlainTail s key value)
    (hkey : ∀ t ∈ key, PassesText t) (hvalue : ∀ t ∈ value, PassesText t) :
    ∀ cs ∈ (tailText s.isSet (optionText key) (optionText value)).map String.toList,
      Passes true false cs := by
  have hdots : Passes true false ['.', '.', '.'] := passes_signs (by decide)
  have htyped : ∀ us : List TypeExpr, (∀ u ∈ us, PassesText u) →
      Passes true false (['.', '.', '.'] ++
        '<' :: (listed [',', ' '] (fun t => t.text.toList) us ++ ['>'])) := fun us hus =>
    hdots.append (passes_bracketed rfl (passes_commas fun u hu => (hus u hu).inner)).inner
  cases h with
  | closed => simp [tailText]
  | bare => simpa [optionText, tailText] using hdots
  | valued v => simpa [optionText, tailText, listed] using htyped [v] (by simpa using hvalue)
  | keyed k v =>
    simpa [optionText, tailText, listed] using
      htyped [k, v] (by simpa using ⟨hkey k rfl, hvalue v rfl⟩)

theorem passes_shape {kind : String} {fields : List (ShapeField TypeExpr)} {s : Flag}
    {key value : Option TypeExpr} (hkind : kind ∈ Keyword.shapes)
    (hfields : ∀ f ∈ fields, Passes true false (fieldText f).toList)
    (htail : ∀ cs ∈ (tailText s.isSet (optionText key) (optionText value)).map String.toList,
      Passes true false cs) : PassesText (.shape kind fields s key value) := by
  have hshapes : ∀ kind ∈ Keyword.shapes, isClassName kind := by decide
  rw [PassesText, toList_text_shape]
  refine (passes_nameWord ⟨kind, hshapes kind hkind, Or.inl rfl⟩).append
    (passes_bracketed rfl (passes_commas (forall_mem_append.mpr ⟨fun cs hcs => ?_, htail⟩)))
  obtain ⟨f, hf, rfl⟩ := mem_map.mp hcs
  exact hfields f hf

theorem passes_keyword {k : String} (hk : k ∈ Keyword.builtins) : PassesText (.keyword k) := by
  rw [PassesText, text]
  by_cases hthis : k = "$this"
  · subst hthis
    exact passes_word (by decide) (by decide)
  · exact passes_nameWord ⟨k, isClassName_builtin hk hthis, Or.inl rfl⟩

theorem passes_literal (v : LiteralValue) : PassesText (.literal v) := by
  rw [PassesText, text]
  cases v with
  | int n => exact passes_int n
  | float d => exact passes_double d
  | str s => exact passes_quoteText s

theorem passes_members {sep : Char} {wanted : TypeExpr → Bool} (hsep : Passes false false [sep])
    (hmany : 1 < ts.length) (h : ∀ t ∈ ts, PassesText t) :
    Passes false true (listed [sep] (fun t => (parenthesized (wanted t) t.text).toList) ts) :=
  passes_listed hsep (by rintro rfl; simp at hmany) fun t ht => passes_parenthesized (h t ht) _

theorem passesText_of_spelledForm (ht : SpelledForm t) : PassesText t := by
  induction t using partsInduction with
  | step t ih =>
    have hparts : ∀ u ∈ parts t, PassesText u := fun u hu => ih u hu (ht.inside hu)
    obtain ⟨hcanonical, hspelled⟩ := ht.here
    cases hspelled with
    | keyword hk => exact passes_keyword hk
    | named hname =>
      rw [PassesText, text]
      exact passes_nameWord (isNameWord_classText hname)
    | nullable t => exact passes_nullable (hparts t (by simp [parts, children]))
    | union ts =>
      rw [PassesText, toList_text_union]
      exact passes_members (passes_plain (c := '|') rfl) (Alternatives.many hcanonical) hparts
    | intersection ts =>
      rw [PassesText, toList_text_intersection]
      exact passes_members (passes_plain (c := '&') rfl) (Combination.many hcanonical) hparts
    | generic hname => exact passes_generic hname hparts
    | shape hkind hfields htail =>
      exact passes_shape hkind
        (fun f hf => passes_field (hfields f hf) (hparts _ (mem_parts_of_field hf)))
        (passes_tail htail (fun u hu => hparts u (mem_parts_of_extraKey hu))
          fun u hu => hparts u (mem_parts_of_extraValue hu))
    | conditional hsubject =>
      exact passes_conditional hsubject (hparts _ (by simp [parts, children]))
        (hparts _ (by simp [parts, children])) (hparts _ (by simp [parts, children]))
    | literal value => exact passes_literal value
    | intRange low high => exact passes_range low high
    | callable hkind _ =>
      exact passes_callable hkind (fun p hp => hparts _ (mem_parts_of_parameter hp))
        fun u hu => hparts u (mem_parts_of_result hu)
    | memberReference howner hmember => exact passes_memberReference howner hmember

end

/-! ### The end of the type -/

/-- The text starts with a parameter: a dollar sign behind the marks a parameter may have. -/
def startsParameter (text : String) : Bool :=
  ["$", "&$", "...$", "&...$"].any fun mark => mark.toList.isPrefixOf text.toList

theorem startsParameter_facts {text : String} (h : startsParameter text) :
    resumes text.toList = false ∧ ∃ c cs, text.toList = c :: cs ∧ Text.isBlank c = false := by
  simp only [startsParameter, any_eq_true, isPrefixOf_iff_prefix] at h
  obtain ⟨mark, hmark, cs, hcs⟩ := h
  rw [← hcs]
  simp only [mem_cons, not_mem_nil, or_false] at hmark
  rcases hmark with rfl | rfl | rfl | rfl <;> exact ⟨rfl, _, _, rfl, rfl⟩

/-- **A written type is split off whole.** -/
theorem split?_written {text r : String} {t : TypeExpr} (h : parse text = .ok t)
    (hwritable : t.isWritable) (hr : startsParameter r) :
    ∃ s, t.written = .ok s ∧ split? (s ++ " " ++ r) = some (s, r) := by
  obtain ⟨hhead, hrun⟩ := passesText_of_spelledForm (spelledForm_of_parse h)
  obtain ⟨hresumes, d, ds, hrest, hblank⟩ := startsParameter_facts hr
  refine ⟨t.text, if_pos hwritable, ?_⟩
  obtain ⟨c, hc, hcblank⟩ := hhead rfl
  obtain ⟨last', hlast, hsplit⟩ := hrun [] none [] (' ' :: r.toList) (by simp)
  have hdrop : (t.text ++ " " ++ r).toList.dropWhile Text.isBlank =
      t.text.toList ++ ' ' :: r.toList := by
    obtain ⟨cs, hcs⟩ := head?_eq_some_iff.mp hc
    simp [hcs, hcblank]
  have hend : splitFrom [] none last' (t.text.toList.reverse ++ []) (' ' :: r.toList) =
      some (t.text.toList, r.toList) := by
    rw [splitFrom.eq_def]
    have hspace : Text.isBlank ' ' := rfl
    rw [hrest] at hresumes ⊢
    simp [closer?, isCloser, hspace, hblank, hlast rfl, hresumes]
  rw [split?, hdrop, hsplit, hend]
  simp

theorem split?_written_callable : split? "callable(int, 'a b'&...): array\x7bk?: A\x7d &$x" =
      some ("callable(int, 'a b'&...): array\x7bk?: A\x7d", "&$x") := by
  obtain ⟨s, hwritten, hsplit⟩ := @split?_written
    "callable ( int , 'a b' & ... ) : array\x7b k? : A \x7d" "&$x"
    (.callable "callable" [⟨.keyword "int", false, false, false⟩,
      ⟨.literal (.str "a b"), false, true, true⟩]
        (some (.shape "array" [⟨some (.str "k"), .named "A", true⟩] true none none)))
    (by with_unfolding_all rfl) (by decide) (by decide)
  obtain rfl : _ = s := Except.ok.inj (Eq.trans (by with_unfolding_all rfl) hwritten)
  exact hsplit

/-- An integer with too many digits is read, and it has no text to be split off. -/
theorem not_split?_of_tooLong : ¬ ∀ text r t, parse text = .ok t → startsParameter r →
    ∃ s, t.written = .ok s ∧ split? (s ++ " " ++ r) = some (s, r) := by
  intro h
  -- The value is given a name, lest its digits be worked out.
  obtain ⟨text, n, hparse, hn⟩ : ∃ text, ∃ n : Nat, parse text = .ok (.literal (.int n)) ∧
      Numeral.writableBound ≤ n :=
    ⟨_, _, parse_powerLiteral _, Evaluation.writableBound_le_pow⟩
  obtain ⟨s, hwritten, -⟩ := h text "$x" _ hparse (by decide)
  rw [written_of_le hn] at hwritten
  cases hwritten

end StubCatalog.TagBody
