import StubCatalog.Proofs.Decimal.Literals
import StubCatalog.Proofs.TypeExpr.ClearText

/-! # Literals as types and as values

The text of a literal is read as a type, token by token, and as the value of a constant, by the form
of the whole text. Both take the same texts for integers and for quoted texts. -/

namespace StubCatalog.TypeExpr

open List Reading Evaluation

variable {c : Char} {cs : List Char} {text marker : String} {v : Scalar}

/-! ### Single tokens -/

theorem hexValue?_facts {d : Nat} (h : Numeral.hexValue? c = some d) :
    isHexDigit c ∧ (d < 8 → '0' ≤ c ∧ c ≤ '7') ∧ (d < 2 → c = '0' ∨ c = '1') := by
  have hascii : c.toNat < 128 := by
    unfold Numeral.hexValue? at h
    grind
  exact Text.forall_ascii (P := fun c => ∀ d ∈ Numeral.hexValue? c, isHexDigit c ∧
    (d < 8 → '0' ≤ c ∧ c ≤ '7') ∧ (d < 2 → c = '0' ∨ c = '1')) (by decide) c hascii d h

theorem leads_isInteger (h : isInteger cs) : Leads .int cs [] := by
  rcases Numeral.isInteger_cases h with
    ⟨c, rest, rfl, hc, hrest⟩ | ⟨base, mark, rest, rfl, hmark, hne, hrest⟩
  · refine leads_digits ⟨fun d hd => ?_, by rintro _ ⟨⟩; exact hc⟩ rfl (by simp)
    rcases mem_cons.mp hd with rfl | hd
    · simp [isDigitPart, hc]
    · simpa [isDigitPart] using hrest d hd
  · have hrun : ∀ p : Char → Bool, (∀ c, ∀ d < base, Numeral.hexValue? c = some d → p c) →
        run (fun c => p c || c == '_') rest = rest.length := by
      intro p hp
      have hall : ∀ c ∈ rest, (p c || c == '_') = true := by
        intro c hc
        rcases hrest c hc with ⟨d, hd, hvalue⟩ | rfl
        · rw [hp c d hd hvalue, Bool.true_or]
        · simp
      simpa using @run_append _ [] rest hall (by simp)
    simp only [Numeral.baseMarks, mem_cons, Prod.mk.injEq, not_mem_nil, or_false] at hmark
    refine leads_int (by decide) ?_ ?_
    · rcases hmark with ⟨rfl, rfl⟩ | ⟨rfl, rfl⟩ | ⟨rfl, rfl⟩ | ⟨rfl, rfl⟩ | ⟨rfl, rfl⟩ | ⟨rfl, rfl⟩ <;>
        rfl
    · rcases hmark with ⟨rfl, rfl⟩ | ⟨rfl, rfl⟩ | ⟨rfl, rfl⟩ | ⟨rfl, rfl⟩ | ⟨rfl, rfl⟩ | ⟨rfl, rfl⟩
      case inl | inr.inl =>
        have := hrun isHexDigit fun c d _ h => (hexValue?_facts h).1
        simp [intLength, markedLength, firstLength, this, hne]
      case inr.inr.inl | inr.inr.inr.inl =>
        have := hrun (fun c => c == '0' || c == '1') fun c d hd h => by
          simpa using (hexValue?_facts h).2.2 hd
        simp [intLength, markedLength, firstLength, this, hne]
      all_goals
        have := hrun (fun c => '0' ≤ c && c ≤ '7') fun c d hd h => by
          simpa using (hexValue?_facts h).2.1 hd
        simp [intLength, markedLength, firstLength, this, hne]

theorem quotedRest_of_isQuotedRest {quote : Char} {refused : Char → Bool} (hquote : quote ≠ '\\')
    (h : isQuotedRest quote refused cs) : quotedRest quote cs = cs.length := by
  fun_induction isQuotedRest quote refused cs with
  | case1 => cases h
  | case2 c =>
    obtain rfl := beq_iff_eq.mp h
    rw [quotedRest_cons hquote, if_pos h]
    rfl
  | case3 d rest ih =>
    have hpos : rest ≠ [] := by rintro rfl; simp [isQuotedRest] at h
    rw [quotedRest, ih h]
    simp [hpos]
  | case4 c rest hone hback ih =>
    simp only [Bool.and_eq_true, bne_iff_ne, ne_eq] at h
    have hpos : rest ≠ [] := by rintro rfl; simp [isQuotedRest] at h
    rw [quotedRest_cons h.1.1.2, if_neg (by simpa using h.1.1.1), ih h.2]
    simp [hpos]

theorem leads_isQuoted (h : isQuoted cs) : Leads .string cs [] := by
  have hlead : ∀ quote refused, quote = '\'' ∨ quote = '"' → ∀ rest,
      isQuotedRest quote refused rest → Leads .string (quote :: rest) [] := by
    intro quote refused hquote rest hrest
    have hback : quote ≠ '\\' := by rcases hquote with rfl | rfl <;> decide
    have hlength : stringLength (quote :: rest) = rest.length + 1 := by
      have hpos : rest ≠ [] := by rintro rfl; simp [isQuotedRest] at hrest
      rw [stringLength, if_pos (by simpa using hquote), quotedRest_of_isQuotedRest hback hrest]
      simp [hpos]
    refine leads_of_tokenAt? (by rcases hquote with rfl | rfl <;> rfl) ?_
    rw [append_nil, tokenAt?_quote hquote, hlength, if_neg (Nat.succ_ne_zero _)]
  unfold isQuoted at h
  split at h
  · exact hlead _ _ (Or.inl rfl) _ h
  · exact hlead _ _ (Or.inr rfl) _ h
  · cases h

/-! ### Around a literal -/

section
variable {bs : List Char} {P : List Token → Prop} (hbs : ∀ c ∈ bs, Text.isBlank c)
include hbs

theorem Spells.behindBlanks (h : Spells cs P) : Spells (bs ++ cs) P := by
  induction bs with
  | nil => exact h
  | cons b bs ih => exact (ih fun c hc => hbs c (by simp [hc])).blankChar (hbs b (by simp))

theorem Spells.beforeBlanks (h : Spells cs P) : Spells (cs ++ bs) P := by
  have hblanks := spells_nil.behindBlanks hbs
  rw [append_nil] at hblanks
  have hhead : ∀ b ∈ bs.head?, Text.isBlank b := fun b hb => hbs b (mem_of_head? hb)
  have hcolon : bs.head? ≠ some ':' := fun hb => absurd (hhead ':' hb) (by decide)
  have hboundary : isBoundary bs := isBoundary_of_blank (by cases bs <;> simp_all)
  refine (h.append hblanks hboundary hcolon).mono ?_
  rintro _ ⟨us, _, rfl, hus, rfl⟩
  rwa [append_nil]

end

theorem Spells.of_trimBlanks {P : List Token → Prop} (h : Spells (Text.trimBlanks cs) P) :
    Spells cs P := by
  have hfront : ∀ c ∈ cs.takeWhile Text.isBlank, Text.isBlank c := fun c hc => of_mem_takeWhile hc
  have hback : ∀ c ∈ ((cs.dropWhile Text.isBlank).reverse.takeWhile Text.isBlank).reverse,
      Text.isBlank c := fun c hc => of_mem_takeWhile (mem_reverse.mp hc)
  have hspells := (h.beforeBlanks hback).behindBlanks hfront
  rwa [Text.trimBlanks, Text.trimBy, Text.dropEndWhile, ← reverse_append,
    takeWhile_append_dropWhile, reverse_reverse, takeWhile_append_dropWhile] at hspells

/-- The tokens are read as the type, with nothing behind them that belongs to it. -/
def ReadsAlone (t : TypeExpr) (ts : List Token) : Prop :=
  ∀ (r : Reading) z, ClosesUnion false z → r.Derives (.type t) (ts ++ z) z

theorem readsAlone_of_single {t : TypeExpr} {a : Token} {us : List Token}
    (ha : a.kind ∉ [.question, .variable, .identifier])
    (h : ∀ (r : Reading) z, ClosesPart false z → r.Derives (.single t) (a :: us ++ z) z) :
    ReadsAlone t (a :: us) := by
  intro r z hz
  have hquestion : kindAt (a :: us ++ z) ≠ some .question := by
    rw [cons_append, kindAt_cons]
    simp_all
  have hpart := derives_part hquestion (h r z hz.intersection.part) hz.intersection.part
  refine .plain ?_ (derives_union (derives_intersection hpart hz.intersection) hz)
  cases hus : us ++ z <;> simp_all [startsTest, isTest]

theorem parse_of_readsAlone {t : TypeExpr} (h : Spells text.toList (ReadsAlone t)) :
    parse text = .ok t := by
  obtain ⟨ts, htokens, hts⟩ := h 0
  have hderives := hts ⟨text, {}⟩ [] ⟨⟨rfl, by simp [kindAt]⟩, by simp [kindAt]⟩
  rw [append_nil] at hderives
  exact parse_eq_ok_iff.mpr ⟨ts, htokens, hderives⟩

theorem Spells.of_dropParentheses {t : TypeExpr} (h : Spells (dropParentheses cs) (ReadsAlone t)) :
    Spells cs (ReadsAlone t) := by
  unfold dropParentheses at h
  split at h
  · next hparens =>
    simp only [Bool.and_eq_true, beq_iff_eq] at hparens
    obtain ⟨⟨hopen, hclose⟩, -⟩ := hparens
    have hcs : cs = '(' :: ((cs.drop 1).dropLast ++ [')']) := by
      obtain ⟨ds, rfl⟩ := getLast?_eq_some_iff.mp hclose
      cases ds with
      | nil => cases hopen
      | cons d ds =>
        obtain rfl : d = '(' := by simpa using hopen
        simp
    rw [hcs]
    refine h.of_trimBlanks.enclose.mono ?_
    rintro _ ⟨a, ts, b, rfl, ha, hts, hb⟩
    refine readsAlone_of_single (by rw [ha]; decide) fun r z hz => ?_
    have hclose : ClosesUnion false (b :: z) := closesUnion_of_kindAt (congrArg some hb) rfl
    rw [cons_append, append_assoc, singleton_append]
    exact .paren ha (hts r (b :: z) hclose) hb
  · exact h

theorem readsAlone_number {a b : Token} {us : List Token} {negative : Bool} {n : Int}
    (ha : a.kind = .int) (hn : Numeral.readLiteral a.value = .ok n) (hb : startsNumber b.kind)
    (hus : ∀ z, unsigned (b :: (us ++ z)) = (negative, a :: z)) :
    ReadsAlone (.literal (.int (if negative then -n else n))) (b :: us) := by
  refine readsAlone_of_single ?_ fun r z _ => ?_
  · intro hmem
    simp only [mem_cons, not_mem_nil, or_false] at hmem
    rcases hmem with hkind | hkind | hkind <;> rw [hkind] at hb <;> cases hb
  · rw [cons_append]
    refine .number hb (yields_number_iff.mpr ⟨a, by rw [hus], ?_⟩)
    rw [hus]
    simp [numeral?, ha, hn, Except.toOption]

theorem spells_integer {n : Int} (h : isInteger (dropSign cs))
    (hn : Numeral.readLiteral (String.ofList (dropSign cs)) = .ok n) :
    Spells cs (ReadsAlone (.literal (.int (if cs.head? == some '-' then -n else n)))) := by
  have hdigits := (leads_isInteger h).spells
  fun_cases dropSign cs with
  | case1 rest =>
    refine (hdigits.sign (c := '+') rfl (by decide)).mono ?_
    rintro _ ⟨b, _, rfl, hb, a, rfl, ha, hvalue⟩
    exact readsAlone_number ha (hvalue ▸ hn) (by rw [hb]; rfl) fun z => by simp [unsigned, hb]
  | case2 rest =>
    refine (hdigits.sign (c := '-') rfl (by decide)).mono ?_
    rintro _ ⟨b, _, rfl, hb, a, rfl, ha, hvalue⟩
    exact readsAlone_number ha (hvalue ▸ hn) (by rw [hb]; rfl) fun z => by simp [unsigned, hb]
  | case3 _ hplus hminus =>
    rw [dropSign.eq_3 cs hplus hminus] at hdigits hn
    refine hdigits.mono ?_
    rintro _ ⟨a, rfl, ha, hvalue⟩
    have hhead : (cs.head? == some '-') = false := by
      cases cs with
      | nil => rfl
      | cons c rest => simpa using fun hc => hminus rest (by rw [hc])
    rw [hhead]
    exact readsAlone_number ha (hvalue ▸ hn) (by rw [ha]; rfl) fun z => by simp [unsigned, ha]

theorem parse_powerLiteral (k : Nat) :
    parse (String.ofList (powerLiteral k)) = .ok (.literal (.int ((16 ^ k : Nat) : Int))) := by
  refine parse_of_readsAlone ?_
  rw [String.toList_ofList]
  exact spells_integer isInteger_powerLiteral readLiteral_powerLiteral

theorem spells_ofAtom (h : ofAtom cs = .ok (.literal v)) (hv : (∃ n, v = .int n) ∨ ∃ s, v = .str s) :
    Spells cs (ReadsAlone v.type) := by
  unfold ofAtom at h
  simp only at h
  split at h
  · next hinteger =>
    cases hn : Numeral.readLiteral (String.ofList (dropSign cs)) with
    | error e =>
      rw [hn] at h
      cases h
    | ok n =>
      rw [hn] at h
      cases h
      exact spells_integer hinteger hn
  · split at h
    · split at h
      · cases h
        simp at hv
      · cases h
    · split at h
      · next hquoted =>
        cases h
        refine (leads_isQuoted hquoted).spells.mono ?_
        rintro _ ⟨a, rfl, ha, hvalue⟩
        rw [← hvalue]
        exact readsAlone_of_single (by rw [ha]; decide) fun r z hz => .string ha
      · split at h
        · cases h
        · split at h <;> cases h

/-- **A literal means the same as a type and as a value.** A text with an integer or a text as its
value is read as the type of that value alone. -/
theorem parse_eq_type_of_ofText (hv : (∃ n, v = .int n) ∨ ∃ s, v = .str s)
    (h : Evaluation.ofText (some text) marker = .ok (.literal v)) :
    parse text = .ok v.type ∧ ∀ t, parse text = .ok t → t.same v.type := by
  have hatom : ofAtom (dropParentheses (Text.trimBlanks text.toList)) = .ok (.literal v) := by
    unfold ofText at h
    simp only at h
    split at h
    · cases h
    split at h
    · cases h
    split at h
    · next hword =>
      cases h
      unfold word? at hword
      split at hword <;> cases hword <;> simp at hv
    · exact h
  have hparse : parse text = .ok v.type :=
    parse_of_readsAlone (spells_ofAtom hatom hv).of_dropParentheses.of_trimBlanks
  refine ⟨hparse, fun t ht => ?_⟩
  obtain rfl := Except.ok.inj (hparse.symm.trans ht)
  rcases hv with ⟨n, rfl⟩ | ⟨s, rfl⟩ <;> simp [Scalar.type, same, LiteralValue.same]

/-- A negative number in parentheses, and a text with an escape. -/
theorem parse_eq_type_of_ofText_samples : parse " ( -0x1_F )\t" = .ok (.literal (.int (-31))) ∧
      parse "'it\\'s'" = .ok (.literal (.str "it's")) :=
  ⟨(@parse_eq_type_of_ofText _ "UNKNOWN" (.int (-31)) (Or.inl ⟨_, rfl⟩)
      (by with_unfolding_all rfl)).1,
    (@parse_eq_type_of_ofText _ "UNKNOWN" (.str "it's") (Or.inr ⟨_, rfl⟩)
      (by with_unfolding_all rfl)).1⟩

end StubCatalog.TypeExpr
