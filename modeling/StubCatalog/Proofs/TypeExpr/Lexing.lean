import StubCatalog.Proofs.Decimal.Digits
import StubCatalog.Proofs.Text.Names
import StubCatalog.TypeExpr.Printer
import StubCatalog.TypeExpr.Token

/-! # Tokens of written texts

A piece of text *leads* as a token if, whatever stands behind it, it is cut off as one token of its
sort (`Leads`): names and numbers in front of a text that cannot prolong them (`isBoundary`). -/

namespace StubCatalog.TypeExpr

open List

variable {kind : TokenKind} {c : Char} {p : Char → Bool} {parts : List (List Char)} {name : String}
  {rest cs : List Char}

/-- The text `cs` in front of `rest` is cut off as one token. -/
def Leads (kind : TokenKind) (cs rest : List Char) : Prop :=
  ∀ position, tokensFrom position (cs ++ rest) =
    (tokensFrom (position + cs.length) rest).map (⟨kind, String.ofList cs, position⟩ :: ·)

theorem leads_of_tokenAt? (hblank : Text.isBlank c = false)
    (h : tokenAt? (c :: cs ++ rest) = some (kind, cs.length + 1)) : Leads kind (c :: cs) rest := by
  intro position
  rw [cons_append] at h
  rw [cons_append, tokensFrom, h]
  simp only [hblank, Bool.false_eq_true, if_false, Nat.add_sub_cancel, drop_left,
    take_left, length_cons, Nat.add_assoc]
  cases tokensFrom (position + (cs.length + 1)) rest with
  | error e => rfl
  | ok tokens => rfl

theorem Leads.tokensFrom_eq_ok {position : Nat} {tokens : List Token}
    (h : Leads kind cs rest) (hrest : tokensFrom (position + cs.length) rest = .ok tokens) :
    tokensFrom position (cs ++ rest) = .ok (⟨kind, String.ofList cs, position⟩ :: tokens) := by
  rw [h position, hrest]
  rfl

theorem tokensFrom_blank (position : Nat) (rest : List Char) :
    tokensFrom position (' ' :: rest) = tokensFrom (position + 1) rest := by
  rw [tokensFrom]
  rfl

/-! ### Signs -/

theorem tokenAt?_sign (h : signKind? c = some kind) (hc : c ≠ ':') (rest : List Char) :
    tokenAt? (c :: rest) = some (kind, 1) ∧ Text.isBlank c = false := by
  unfold signKind? at h
  split at h
  case h_5 => exact absurd rfl hc
  case h_18 => cases h
  all_goals cases h; exact ⟨rfl, rfl⟩

theorem leads_sign (h : signKind? c = some kind) (hc : c ≠ ':') (rest : List Char) :
    Leads kind [c] rest := by
  obtain ⟨hat, hblank⟩ := tokenAt?_sign h hc rest
  exact leads_of_tokenAt? hblank hat

theorem tokensFrom_sign {start : Nat} {s : List Token}
    (h : signKind? c = some kind) (hc : c ≠ ':') (hrest : tokensFrom (start + 1) rest = .ok s) :
    tokensFrom start (c :: rest) = .ok (⟨kind, String.ofList [c], start⟩ :: s) :=
  (leads_sign h hc rest).tokensFrom_eq_ok hrest

theorem leads_colon (rest : List Char) : Leads .colon [':'] (' ' :: rest) :=
  leads_of_tokenAt? rfl rfl

theorem leads_ellipsis (rest : List Char) : Leads .ellipsis ['.', '.', '.'] rest :=
  leads_of_tokenAt? rfl rfl

/-! ### Where names and numbers end -/

/-- The signs that may follow a name or a number. -/
def boundarySigns : List Char :=
  ['|', '&', '?', ',', ':', '<', '>', '{', '}', '(', ')', '[', ']', '=', '*'] ++ Text.blanks

/-- No name and no number goes on into the text. -/
def isBoundary : List Char → Bool
  | [] => true
  | '.' :: rest => rest.head? == some '.'
  | c :: _ => boundarySigns.contains c

theorem isBoundary_cases (h : isBoundary rest) :
    rest = [] ∨ (∃ others, rest = '.' :: '.' :: others) ∨
      ∃ c others, rest = c :: others ∧ c ∈ boundarySigns := by
  unfold isBoundary at h
  split at h
  · exact Or.inl rfl
  · next others =>
    cases others with
    | nil => simp at h
    | cons d others =>
      rw [head?_cons, beq_iff_eq, Option.some.injEq] at h
      exact Or.inr (Or.inl ⟨others, by rw [h]⟩)
  · next c others _ => exact Or.inr (Or.inr ⟨c, others, rfl, by simpa using h⟩)

theorem isBoundary_of_blank {z : List Char} (h : z.head?.all Text.isBlank) : isBoundary z := by
  cases z with
  | nil => rfl
  | cons c z =>
    have hc : c ∈ boundarySigns :=
      mem_append_right _ (Text.mem_blanks (by simpa using h))
    unfold isBoundary
    split
    · rfl
    · next heq =>
      cases heq
      exact absurd hc (by decide)
    · next heq =>
      cases heq
      simpa using hc

theorem head_of_isBoundary {others : List Char} (h : isBoundary rest)
    (hrest : rest = c :: others) : c ∈ '.' :: boundarySigns := by
  rcases isBoundary_cases h with rfl | ⟨ds, rfl⟩ | ⟨d, ds, rfl, hd⟩
  · cases hrest
  · cases hrest
    simp
  · cases hrest
    exact mem_cons_of_mem _ hd

theorem run_append (hcs : ∀ c ∈ cs, p c)
    (hrest : ∀ c others, rest = c :: others → p c = false) : run p (cs ++ rest) = cs.length := by
  induction cs with
  | nil =>
    cases rest with
    | nil => rfl
    | cons c others => simp [run, hrest c others rfl]
  | cons c cs ih =>
    have hc := hcs c (by simp)
    have := ih fun d hd => hcs d (by simp [hd])
    simp only [run, cons_append, takeWhile_cons, hc, if_true, length_cons] at this ⊢
    omega

/-! ### Names -/

/-- The text is a short name. -/
def isShortName : List Char → Bool
  | [] => false
  | c :: rest => Text.isNameStart c && rest.all isNamePart

/-- The name of a class: short names with backslashes between them. -/
def isClassName (name : String) : Bool := (Text.fields '\\' name.toList).all isShortName

theorem forall_boundary (h : ('.' :: boundarySigns).all (fun c => !p c)) :
    ∀ c ∈ '.' :: boundarySigns, p c = false := by
  simpa only [all_eq_true, Bool.not_eq_true'] using h

theorem isNamePart_boundary : ∀ c ∈ '\\' :: '.' :: boundarySigns, isNamePart c = false := by
  have h : ('\\' :: '.' :: boundarySigns).all (fun c => Text.isBlank c || !isNamePart c) := by
    decide +kernel
  intro c hc
  have hcheck := all_eq_true.mp h c hc
  cases hpart : isNamePart c with
  | false => rfl
  | true =>
    have hblank : Text.isBlank c = false := by
      simp only [isNamePart, Bool.or_eq_true, beq_iff_eq] at hpart
      rcases hpart with hword | rfl
      · exact Text.isBlank_of_isWord hword
      · rfl
    simp [hpart, hblank] at hcheck

theorem shortNameLength_append (h : isShortName cs)
    (hrest : ∀ c others, rest = c :: others → isNamePart c = false) :
    shortNameLength (cs ++ rest) = cs.length := by
  cases cs with
  | nil => simp [isShortName] at h
  | cons c cs =>
    simp only [isShortName, Bool.and_eq_true, all_eq_true] at h
    rw [cons_append, shortNameLength, if_pos h.1, run_append h.2 hrest, length_cons]

theorem length_pos_of_isShortName (h : isShortName cs) : 0 < cs.length := by
  cases cs with
  | nil => simp [isShortName] at h
  | cons c cs => simp

theorem backslash_notMem_boundary : '\\' ∉ '.' :: boundarySigns := by decide

theorem isNamePart_behind (hrest : isBoundary rest) (c : Char)
    (others : List Char) (h : parts.flatMap ('\\' :: ·) ++ rest = c :: others) :
    isNamePart c = false := by
  refine isNamePart_boundary c ?_
  cases parts with
  | nil => exact mem_cons_of_mem _ (head_of_isBoundary hrest h)
  | cons part parts =>
    cases h
    simp

theorem pathLength_append (hparts : ∀ part ∈ parts, isShortName part) (hrest : isBoundary rest) :
    pathLength (parts.flatMap ('\\' :: ·) ++ rest) = (parts.flatMap ('\\' :: ·)).length := by
  induction parts with
  | nil =>
    rw [flatMap_nil, nil_append, pathLength]
    · rfl
    · exact fun others h => backslash_notMem_boundary (head_of_isBoundary hrest h)
  | cons part parts ih =>
    have hpart := hparts part (by simp)
    have hlength := shortNameLength_append hpart (@isNamePart_behind parts rest hrest)
    have hpos := length_pos_of_isShortName hpart
    rw [flatMap_cons, append_assoc, cons_append, pathLength]
    simp only [hlength, drop_left, ih fun p hp => hparts p (by simp [hp])]
    rw [if_neg (by rw [beq_iff_eq]; omega)]
    simp only [length_append, length_cons]

theorem identifierLength_append {first : List Char}
    (hfirst : isShortName first) (hparts : ∀ part ∈ parts, isShortName part)
    (hrest : isBoundary rest) :
    identifierLength (first ++ parts.flatMap ('\\' :: ·) ++ rest) =
      (first ++ parts.flatMap ('\\' :: ·)).length := by
  have hlength := shortNameLength_append hfirst (@isNamePart_behind parts rest hrest)
  have hpos := length_pos_of_isShortName hfirst
  rw [append_assoc]
  unfold identifierLength
  split
  · next others heq =>
    cases first with
    | nil => simp at hpos
    | cons c cs =>
      cases heq
      revert hfirst
      simp [isShortName, show Text.isNameStart '\\' = false from rfl]
  · simp only [hlength, drop_left, pathLength_append hparts hrest, length_append]
    rw [if_neg (by rw [beq_iff_eq]; omega)]

theorem nameStart_ne : ∀ c ∈ ['.', ':', '0', '$', '\\'], Text.isNameStart c = false := by
  have h : ['.', ':', '0', '$', '\\'].all (fun c => !Text.isNameStart c) := by
    decide
  simpa only [all_eq_true, Bool.not_eq_true'] using h

/-- In front of a character that starts a name, or of a backslash, no other sort of token is tried
before a name. -/
theorem tokenAt?_name {n : Nat} (hc : Text.isNameStart c ∨ c = '\\')
    (h : identifierLength (c :: cs) = n + 1) : tokenAt? (c :: cs) = some (.identifier, n + 1) := by
  have hdigit : Text.isDigit c = false := by
    rcases hc with hc | rfl
    · exact Text.isDigit_of_isNameStart hc
    · rfl
  have hne : c ≠ '.' ∧ c ≠ ':' ∧ c ≠ '0' ∧ c ≠ '$' := by
    rcases hc with hc | rfl
    · refine ⟨?_, ?_, ?_, ?_⟩ <;> rintro rfl <;> rw [nameStart_ne _ (by simp)] at hc <;> cases hc
    · decide
  obtain ⟨hpoint, hcolon, hzero, hdollar⟩ := hne
  have hdigits : digits (c :: cs) = 0 := by simp [digits, hdigit]
  have hfraction : fraction (c :: cs) = 0 := by
    unfold fraction
    split
    · next heq => cases heq; exact absurd rfl hpoint
    · rfl
  have hmarked : ∀ l u p, markedLength l u p (c :: cs) = 0 := by
    intro l u p
    unfold markedLength
    split
    · next heq => cases heq; exact absurd rfl hzero
    · rfl
  have hvariable : variableLength (c :: cs) = 0 := by
    unfold variableLength
    split
    · next heq => cases heq; exact absurd rfl hdollar
    · rfl
  have hellipsis : markLength ['.', '.', '.'] (c :: cs) = 0 := by
    simp [markLength, Ne.symm hpoint]
  have hdouble : markLength [':', ':'] (c :: cs) = 0 := by
    simp [markLength, Ne.symm hcolon]
  unfold tokenAt? longTokens
  simp [hellipsis, hdouble, floatLength, hdigits, hfraction, intLength, hmarked, firstLength,
    hvariable, h]

theorem isBlank_of_isNameStart (h : Text.isNameStart c) : Text.isBlank c = false :=
  Text.isBlank_of_isWord (Text.isWord_of_isNameStart h)

theorem exists_path_of_isClassName (h : isClassName name) : ∃ c cs, ∃ parts : List (List Char),
    Text.isNameStart c ∧ isShortName (c :: cs) ∧ (∀ part ∈ parts, isShortName part) ∧
      name.toList = c :: cs ++ parts.flatMap ('\\' :: ·) := by
  obtain ⟨first, parts, hfields⟩ := exists_cons_of_ne_nil (Text.fields_ne_nil '\\' name.toList)
  rw [isClassName, hfields, all_cons, Bool.and_eq_true, all_eq_true] at h
  cases first with
  | nil => simp [isShortName] at h
  | cons c cs =>
    have hc := h.1
    simp only [isShortName, Bool.and_eq_true] at hc
    exact ⟨c, cs, parts, hc.1, h.1, h.2, Text.eq_of_fields hfields⟩

theorem leads_name (h : isClassName name)
    (hrest : isBoundary rest) : Leads .identifier name.toList rest := by
  obtain ⟨c, cs, parts, hc, hfirst, hparts, hname⟩ := exists_path_of_isClassName h
  rw [hname]
  exact leads_of_tokenAt? (isBlank_of_isNameStart hc)
    (tokenAt?_name (Or.inl hc) (identifierLength_append hfirst hparts hrest))

theorem leads_markedName (h : isClassName name)
    (hrest : isBoundary rest) : Leads .identifier ('\\' :: name.toList) rest := by
  obtain ⟨c, cs, parts, -, hfirst, hparts, hname⟩ := exists_path_of_isClassName h
  rw [hname]
  exact leads_of_tokenAt? rfl (tokenAt?_name (Or.inr rfl)
    (pathLength_append (forall_mem_cons.mpr ⟨hfirst, hparts⟩) hrest))

theorem head?_ne_of_isClassName (h : isClassName name) : name.toList.head? ≠ some '\\' := by
  obtain ⟨c, cs, parts, hc, -, -, hname⟩ := exists_path_of_isClassName h
  rw [hname, cons_append, head?_cons, ne_eq, Option.some.injEq]
  rintro rfl
  rw [nameStart_ne _ (by simp)] at hc
  cases hc

/-! ### Numbers -/

theorem isDigit_text (h : c.isDigit) : Text.isDigit c := by
  have hc := Numeral.isDigit_iff.mp h
  unfold Text.isDigit Text.digitValue?
  simp only
  rw [if_pos (by omega), if_pos (by simp; omega)]
  rfl

theorem boundary_facts : ∀ c ∈ '.' :: boundarySigns, isDigitPart c = false ∧ c ≠ 'e' ∧ c ≠ 'E' ∧
    c ∉ ['x', 'X', 'b', 'B', 'o', 'O'] := by
  have h : ('.' :: boundarySigns).all (fun c => !isDigitPart c && decide (c ≠ 'e') &&
      decide (c ≠ 'E') && decide (c ∉ ['x', 'X', 'b', 'B', 'o', 'O'])) := by decide
  simpa only [all_eq_true, Bool.and_eq_true, Bool.not_eq_true', decide_eq_true_eq,
    and_assoc] using h

/-- Digits of any script with underscores among them, or nothing. -/
structure IsDigits (cs : List Char) : Prop where
  part : ∀ c ∈ cs, isDigitPart c
  first : ∀ c ∈ cs.head?, Text.isDigit c

theorem isDigits_nil : IsDigits [] := ⟨by simp, by simp⟩

section Number
variable {cs rest : List Char} (hcs : IsDigits cs) (hrest : isBoundary rest)
include hcs hrest

theorem digits_append : digits (cs ++ rest) = cs.length := by
  cases cs with
  | nil =>
    cases rest with
    | nil => rfl
    | cons c others =>
      have := (boundary_facts c (head_of_isBoundary hrest rfl)).1
      simp only [isDigitPart, Bool.or_eq_false_iff] at this
      simp [digits, this.1]
  | cons c cs =>
    rw [cons_append, digits, if_pos (hcs.first c rfl),
      run_append (fun d hd => hcs.part d (by simp [hd]))
        fun d others h => (boundary_facts d (head_of_isBoundary hrest h)).1,
      length_cons]

omit hcs in
theorem fraction_boundary : fraction rest = 0 := by
  rcases isBoundary_cases hrest with rfl | ⟨ds, rfl⟩ | ⟨d, ds, rfl, hd⟩
  · rfl
  · rfl
  · unfold fraction
    split
    · next heq =>
      cases heq
      exact absurd hd (by decide)
    · rfl

omit hcs in
theorem exponent_boundary : exponent rest = 0 := by
  cases rest with
  | nil => rfl
  | cons c others =>
    obtain ⟨-, he, hE, -⟩ := boundary_facts c (head_of_isBoundary hrest rfl)
    simp [exponent, he, hE]

theorem floatLength_append : floatLength (cs ++ rest) = 0 := by
  unfold floatLength
  simp only [digits_append hcs hrest, drop_left, fraction_boundary hrest, Nat.add_zero,
    exponent_boundary hrest]
  simp

/-- Behind the first digit stands a digit or the boundary, never the mark of a base. -/
theorem markedLength_append {l u : Char} (hl : l ∈ ['x', 'X', 'b', 'B', 'o', 'O'])
    (hu : u ∈ ['x', 'X', 'b', 'B', 'o', 'O']) : markedLength l u p (cs ++ rest) = 0 := by
  unfold markedLength
  split
  · next mark others heq =>
    have hmark : mark ∉ ['x', 'X', 'b', 'B', 'o', 'O'] := by
      rcases cs with _ | ⟨c, _ | ⟨d, cs⟩⟩
      · have := (boundary_facts '0' (head_of_isBoundary hrest heq)).1
        exact absurd this (by decide)
      · cases heq
        exact (boundary_facts mark (head_of_isBoundary hrest rfl)).2.2.2
      · cases heq
        have := hcs.part mark (by simp)
        intro hmem
        simp only [mem_cons, not_mem_nil, or_false] at hmem
        rcases hmem with rfl | rfl | rfl | rfl | rfl | rfl <;> exact absurd this (by decide)
    have hml : mark ≠ l := by rintro rfl; exact hmark hl
    have hmu : mark ≠ u := by rintro rfl; exact hmark hu
    simp [hml, hmu]
  · rfl

theorem intLength_append : intLength (cs ++ rest) = cs.length := by
  unfold intLength
  rw [markedLength_append hcs hrest (by decide) (by decide),
    markedLength_append hcs hrest (by decide) (by decide),
    markedLength_append hcs hrest (by decide) (by decide), digits_append hcs hrest]
  simp only [firstLength]
  cases cs <;> rfl

omit hcs hrest in
theorem leads_int (hc : Text.isDigit c) (hfloat : floatLength (c :: cs ++ rest) = 0)
    (hint : intLength (c :: cs ++ rest) = cs.length + 1) : Leads .int (c :: cs) rest := by
  have hsign : c ∉ '.' :: boundarySigns := by
    intro hmem
    have hpart := (boundary_facts c hmem).1
    simp [isDigitPart, hc] at hpart
  have hpoint : '.' ≠ c := by rintro rfl; exact hsign (by simp)
  have hcolon : ':' ≠ c := by rintro rfl; exact hsign (by simp [boundarySigns])
  have hblank : Text.isBlank c = false := by
    rw [← Bool.not_eq_true]
    exact fun hblank => hsign (by simp [boundarySigns, Text.mem_blanks hblank])
  refine leads_of_tokenAt? hblank ?_
  rw [cons_append] at hfloat hint ⊢
  unfold tokenAt? longTokens
  simp [markLength, hpoint, hcolon, hfloat, hint]

theorem leads_digits (hne : cs ≠ []) : Leads .int cs rest := by
  have hfloat := floatLength_append hcs hrest
  have hint := intLength_append hcs hrest
  obtain ⟨c, cs, rfl⟩ := exists_cons_of_ne_nil hne
  exact leads_int (hcs.first c rfl) hfloat hint

end Number

theorem leads_number (n : Nat) (hrest : isBoundary rest) : Leads .int n.repr.toList rest := by
  rw [Nat.toList_repr]
  have hdigit : ∀ c ∈ Nat.toDigits 10 n, Text.isDigit c := fun c hc =>
    isDigit_text (Numeral.isDigit_of_mem_digits c hc)
  refine leads_digits ⟨fun c hc => ?_, fun c hc => ?_⟩ hrest Nat.toDigits_ne_nil
  · rw [isDigitPart, hdigit c hc, Bool.true_or]
  · exact hdigit c (mem_of_head? hc)

/-! ### Quoted texts -/

theorem quoteChar_cases (c : Char) : (c = '\\' ∨ c = '\'') ∧ quoteChar c = ['\\', c] ∨
    (c ≠ '\\' ∧ c ≠ '\'') ∧ quoteChar c = [c] := by
  unfold quoteChar
  split
  · next h =>
    simp only [Bool.or_eq_true, beq_iff_eq] at h
    exact Or.inl ⟨h, rfl⟩
  · next h =>
    simp only [Bool.or_eq_true, beq_iff_eq, not_or] at h
    exact Or.inr ⟨h, rfl⟩

theorem quotedRest_flatMap (cs rest : List Char) :
    quotedRest '\'' (cs.flatMap quoteChar ++ '\'' :: rest) = (cs.flatMap quoteChar).length + 1 := by
  induction cs with
  | nil => rfl
  | cons c cs ih =>
    rw [flatMap_cons, append_assoc, length_append]
    rcases quoteChar_cases c with ⟨-, hq⟩ | ⟨⟨hback, hquote⟩, hq⟩ <;> rw [hq]
    · rw [cons_append, cons_append, nil_append, quotedRest]
      simp only [ih]
      rw [if_neg (by simp)]
      simp only [length_cons, length_nil]
      omega
    · rw [cons_append, nil_append, quotedRest.eq_4]
      · simp only [ih]
        rw [if_neg (by simpa using hquote), if_neg (by simp), length_singleton]
        omega
      · exact fun h _ => hback h
      · exact fun _ _ h _ => hback h

theorem unescapeSingle_flatMap (cs : List Char) : unescapeSingle (cs.flatMap quoteChar) = cs := by
  induction cs with
  | nil => rfl
  | cons c cs ih =>
    rw [flatMap_cons]
    rcases quoteChar_cases c with ⟨hc, hq⟩ | ⟨⟨hback, -⟩, hq⟩ <;> rw [hq]
    · rw [cons_append, cons_append, nil_append, unescapeSingle,
        if_pos (by simpa using hc), ih]
    · rw [cons_append, nil_append, unescapeSingle, ih]
      exact fun _ _ h _ => hback h

theorem leads_quoteText (s : String) (rest : List Char) :
    Leads .string (quoteText s).toList rest := by
  rw [quoteText, String.toList_ofList, cons_append]
  refine leads_of_tokenAt? rfl ?_
  have hlength := quotedRest_flatMap s.toList rest
  have hstring : stringLength ('\'' :: (s.toList.flatMap quoteChar ++ '\'' :: rest)) =
      (s.toList.flatMap quoteChar).length + 2 := by
    unfold stringLength
    simp [hlength]
  rw [cons_append, append_assoc, singleton_append, length_append,
    length_singleton]
  unfold tokenAt? longTokens
  simp [markLength, floatLength, digits, fraction, intLength, markedLength, firstLength,
    variableLength, identifierLength, shortNameLength, hstring,
    show Text.isDigit '\'' = false from rfl, show Text.isNameStart '\'' = false from rfl]

theorem unquote_quoteText (s : String) : unquote (quoteText s) = s := by
  unfold unquote quoteText
  simp only [String.toList_ofList, cons_append, drop_succ_cons, drop_zero,
    dropLast_concat, unescapeSingle_flatMap, String.ofList_toList]

end StubCatalog.TypeExpr
