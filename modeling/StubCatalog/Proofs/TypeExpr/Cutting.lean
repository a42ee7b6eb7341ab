import StubCatalog.Proofs.TypeExpr.Lexing
import StubCatalog.Proofs.TypeExpr.Literals
import Mathlib.Data.List.Find

/-! # Tokens of texts that are put together

No token looks behind its own end, except that it takes as many characters as it can. So what is put
behind a text does not change its tokens, unless it can prolong the last one (`isBoundary`). -/

namespace StubCatalog.TypeExpr

open List

variable {cs z : List Char} {c : Char}

/-! ### Places -/

/-- The token `n` characters further on. -/
def Token.moved (n : Nat) (t : Token) : Token := { t with position := t.position + n }

@[simp] theorem Token.moved_kind (n : Nat) (t : Token) : (t.moved n).kind = t.kind := rfl

@[simp] theorem Token.moved_value (n : Nat) (t : Token) : (t.moved n).value = t.value := rfl

@[simp] theorem Token.moved_stop (n : Nat) (t : Token) : (t.moved n).stop = t.stop + n := by
  simp only [Token.stop, Token.moved]
  omega

theorem tokensFrom_moved {position : Nat} {tokens : List Token} (n : Nat)
    (h : tokensFrom position cs = .ok tokens) :
    tokensFrom (position + n) cs = .ok (tokens.map (Token.moved n)) := by
  fun_induction tokensFrom position cs generalizing tokens with
  | case1 =>
    cases h
    rw [tokensFrom]
    rfl
  | case2 position c rest hblank ih =>
    rw [tokensFrom, if_pos hblank, ← ih h]
    congr 1
    omega
  | case3 => cases h
  | case4 => cases h
  | case5 position c rest hblank kind length htoken found hfound ih =>
    cases h
    have hrest := ih hfound
    rw [show position + (length - 1) + 1 + n = position + n + (length - 1) + 1 by omega] at hrest
    rw [tokensFrom, if_neg hblank, htoken]
    simp only [hrest]
    rfl

/-! ### Lengths at a boundary -/

/-- The length lies within the text, and a boundary behind the text does not change it. -/
structure Stops (f : List Char → Nat) : Prop where
  le (cs : List Char) : f cs ≤ cs.length
  append (cs : List Char) {z : List Char} (hz : isBoundary z) : f (cs ++ z) = f cs

theorem Stops.drop_append {f : List Char → Nat} (h : Stops f) (cs z : List Char) :
    (cs ++ z).drop (f cs) = cs.drop (f cs) ++ z :=
  drop_append_of_le_length (h.le cs)

theorem stops_run {p : Char → Bool} (hp : ∀ c ∈ '.' :: boundarySigns, p c = false) :
    Stops (run p) where
  le cs := ( takeWhile_prefix p).length_le
  append cs z hz := by
    induction cs with
    | nil =>
      cases z with
      | nil => rfl
      | cons c others => simp [run, hp c (head_of_isBoundary hz rfl)]
    | cons c cs ih =>
      unfold run at ih ⊢
      rw [cons_append, takeWhile_cons, takeWhile_cons]
      split
      · rw [length_cons, length_cons, ih]
      · rfl

theorem isDigit_boundary : ∀ c ∈ '.' :: boundarySigns, Text.isDigit c = false := by
  intro c hc
  have := (boundary_facts c hc).1
  simp only [isDigitPart, Bool.or_eq_false_iff] at this
  exact this.1

theorem isWord_boundary : ∀ c ∈ '.' :: boundarySigns, Text.isWord c = false := by
  intro c hc
  have := isNamePart_boundary c (mem_cons_of_mem _ hc)
  simp only [isNamePart, Bool.or_eq_false_iff] at this
  exact this.1

theorem isNameStart_boundary : ∀ c ∈ '.' :: boundarySigns, Text.isNameStart c = false := by
  intro c hc
  cases h : Text.isNameStart c with
  | false => rfl
  | true => rw [← Text.isWord_of_isNameStart h, isWord_boundary c hc]

theorem stops_digits : Stops digits where
  le cs := by
    cases cs with
    | nil => exact le_rfl
    | cons c rest =>
      rw [digits, length_cons]
      have := (stops_run fun c hc => (boundary_facts c hc).1).le rest
      split <;> omega
  append cs z hz := by
    cases cs with
    | nil => exact digits_append isDigits_nil hz
    | cons c rest =>
      rw [cons_append, digits, digits,
        (stops_run fun c hc => (boundary_facts c hc).1).append rest hz]

theorem stops_fraction : Stops fraction where
  le cs := by
    unfold fraction
    split
    · next rest =>
      have := stops_digits.le rest
      rw [length_cons]
      split <;> omega
    · omega
  append cs z hz := by
    cases cs with
    | nil => exact fraction_boundary hz
    | cons c rest =>
      unfold fraction
      by_cases hc : c = '.'
      · subst hc
        simp only [cons_append, stops_digits.append rest hz]
      · split
        · next heq =>
          cases heq
          exact absurd rfl hc
        · split
          · next heq =>
            cases heq
            exact absurd rfl hc
          · rfl

/-- The sign of an exponent. -/
def signLength : List Char → Nat
  | s :: _ => if s == '+' || s == '-' then 1 else 0
  | [] => 0

theorem stops_signLength : Stops signLength where
  le cs := by
    cases cs with
    | nil => exact le_rfl
    | cons s rest =>
      rw [signLength, length_cons]
      split <;> omega
  append cs z hz := by
    cases cs with
    | nil =>
      cases z with
      | nil => rfl
      | cons c others =>
        have hne : (c == '+' || c == '-') = false :=
          forall_boundary (p := fun c => c == '+' || c == '-') (by decide) c (head_of_isBoundary hz rfl)
        rw [nil_append, signLength, hne]
        rfl
    | cons s rest => rfl

theorem exponent_cons (e : Char) (rest : List Char) :
    exponent (e :: rest) = if e == 'e' || e == 'E' then
      if run Text.isDigit (rest.drop (signLength rest)) == 0 then 0
      else 1 + signLength rest + run Text.isDigit (rest.drop (signLength rest))
    else 0 := by
  cases rest <;> rfl

theorem stops_exponent : Stops exponent where
  le cs := by
    cases cs with
    | nil => exact le_rfl
    | cons e rest =>
      have hsign := stops_signLength.le rest
      have hcount := (stops_run isDigit_boundary).le (rest.drop (signLength rest))
      rw [length_drop] at hcount
      rw [exponent_cons, length_cons]
      split
      · split <;> omega
      · omega
  append cs z hz := by
    cases cs with
    | nil => exact exponent_boundary hz
    | cons e rest =>
      rw [cons_append, exponent_cons, exponent_cons, stops_signLength.append rest hz,
        stops_signLength.drop_append, (stops_run isDigit_boundary).append _ hz]

theorem stops_floatLength : Stops floatLength where
  le cs := by
    have hwhole := stops_digits.le cs
    have hpart := stops_fraction.le (cs.drop (digits cs))
    have hpower := stops_exponent.le (cs.drop (digits cs + fraction (cs.drop (digits cs))))
    rw [length_drop] at hpart hpower
    unfold floatLength
    simp only
    split <;> omega
  append cs z hz := by
    have hpart := stops_fraction.le (cs.drop (digits cs))
    have hwhole := stops_digits.le cs
    rw [length_drop] at hpart
    unfold floatLength
    simp only [stops_digits.append cs hz, stops_digits.drop_append, stops_fraction.append _ hz]
    rw [drop_append_of_le_length (by omega), stops_exponent.append _ hz]

theorem stops_markedLength {lower upper : Char} {isDigit : Char → Bool}
    (hmarks : lower ∈ ['x', 'X', 'b', 'B', 'o', 'O'] ∧ upper ∈ ['x', 'X', 'b', 'B', 'o', 'O'])
    (hdigit : ∀ c ∈ '.' :: boundarySigns, isDigit c = false) :
    Stops (markedLength lower upper isDigit) := by
  have hrun : Stops (run fun c => isDigit c || c == '_') := by
    refine stops_run fun c hc => ?_
    have hne := (boundary_facts c hc).1
    simp only [isDigitPart, Bool.or_eq_false_iff] at hne
    rw [hdigit c hc, hne.2]
    rfl
  refine ⟨fun cs => ?_, fun cs z hz => ?_⟩
  · unfold markedLength
    split
    · next mark rest =>
      have := hrun.le rest
      simp only [length_cons]
      split <;> omega
    · omega
  · cases cs with
    | nil => exact markedLength_append isDigits_nil hz hmarks.1 hmarks.2
    | cons c rest =>
      by_cases hc : c = '0'
      · subst hc
        cases rest with
        | nil =>
          have hzero : IsDigits ['0'] := ⟨all_eq_true.mp rfl, by rintro _ ⟨⟩; rfl⟩
          rw [@markedLength_append _ ['0'] z hzero hz _ _ hmarks.1 hmarks.2]
          rfl
        | cons mark rest => simp only [cons_append, markedLength, hrun.append rest hz]
      · have hzero : ∀ others, markedLength lower upper isDigit (c :: others) = 0 := by
          intro others
          unfold markedLength
          split
          · next heq =>
            cases heq
            exact absurd rfl hc
          · rfl
        rw [cons_append, hzero, hzero]

theorem stops_intLength : Stops intLength := by
  have hhex : Stops (markedLength 'x' 'X' isHexDigit) := by
    exact stops_markedLength (by decide) (forall_boundary (by decide))
  have hbinary : Stops (markedLength 'b' 'B' fun c => c == '0' || c == '1') := by
    exact stops_markedLength (by decide) (forall_boundary (by decide))
  have hoctal : Stops (markedLength 'o' 'O' fun c => '0' ≤ c && c ≤ '7') := by
    exact stops_markedLength (by decide) (forall_boundary (by decide))
  refine ⟨fun cs => ?_, fun cs z hz => ?_⟩
  · have h1 := hhex.le cs
    have h2 := hbinary.le cs
    have h3 := hoctal.le cs
    have h4 := stops_digits.le cs
    simp only [intLength, firstLength]
    grind
  · rw [intLength, hhex.append cs hz, hbinary.append cs hz, hoctal.append cs hz,
      stops_digits.append cs hz, intLength]

theorem stops_variableLength : Stops variableLength where
  le cs := by
    unfold variableLength
    split
    · next c rest =>
      have := (stops_run isWord_boundary).le rest
      simp only [length_cons]
      split <;> omega
    · omega
  append cs z hz := by
    have hstart : ∀ c ∈ '.' :: boundarySigns, (c.isAlpha || c == '_') = false :=
      forall_boundary (by decide)
    have hzero : ∀ c others, c ≠ '$' → variableLength (c :: others) = 0 := by
      intro c others hc
      unfold variableLength
      split
      · next heq =>
        cases heq
        exact absurd rfl hc
      · rfl
    cases cs with
    | nil =>
      cases z with
      | nil => rfl
      | cons c others =>
        have hc : (c == '$') = false :=
          forall_boundary (p := (· == '$')) (by decide) c (head_of_isBoundary hz rfl)
        exact hzero c others (by simpa using hc)
    | cons c rest =>
      by_cases hc : c = '$'
      · subst hc
        cases rest with
        | nil =>
          cases z with
          | nil => rfl
          | cons d others =>
            rw [singleton_append, variableLength, hstart d (head_of_isBoundary hz rfl)]
            rfl
        | cons d rest =>
          simp only [cons_append, variableLength, (stops_run isWord_boundary).append rest hz]
      · rw [cons_append, hzero _ _ hc, hzero _ _ hc]

/-! ### Names at a boundary -/

theorem stops_shortNameLength : Stops shortNameLength := by
  have hrun : Stops (run isNamePart) :=
    stops_run fun c hc => isNamePart_boundary c (mem_cons_of_mem _ hc)
  refine ⟨fun cs => ?_, fun cs z hz => ?_⟩
  · cases cs with
    | nil => exact le_rfl
    | cons c rest =>
      have := hrun.le rest
      rw [shortNameLength, length_cons]
      split <;> omega
  · cases cs with
    | nil =>
      cases z with
      | nil => rfl
      | cons c others =>
        have hc := isNameStart_boundary c (head_of_isBoundary hz rfl)
        simp [shortNameLength, hc]
    | cons c rest => rw [cons_append, shortNameLength, shortNameLength, hrun.append rest hz]

theorem pathLength_of_ne (hc : c ≠ '\\') (rest : List Char) : pathLength (c :: rest) = 0 := by
  rw [pathLength]
  exact fun others h => hc (List.cons.inj h).1

theorem stops_pathLength : Stops pathLength where
  le cs := by
    fun_induction pathLength cs with
    | case1 => omega
    | case2 rest n hn ih =>
      have hshort : n ≤ rest.length := stops_shortNameLength.le rest
      rw [length_drop] at ih
      rw [length_cons]
      omega
    | case3 => omega
  append cs z hz := by
    fun_induction pathLength cs with
    | case1 rest n hn =>
      rw [cons_append, pathLength, stops_shortNameLength.append rest hz]
      exact if_pos hn
    | case2 rest n hn ih =>
      rw [cons_append, pathLength, stops_shortNameLength.append rest hz,
        stops_shortNameLength.drop_append, ih]
      exact if_neg hn
    | case3 cs hcs =>
      cases cs with
      | nil =>
        rw [nil_append, pathLength]
        exact fun others h => backslash_notMem_boundary (head_of_isBoundary hz h)
      | cons c rest => exact pathLength_of_ne (fun h => hcs rest (by rw [h])) _

theorem identifierLength_of_ne (hc : c ≠ '\\') (rest : List Char) :
    identifierLength (c :: rest) = if shortNameLength (c :: rest) == 0 then 0 else
      shortNameLength (c :: rest) +
        pathLength ((c :: rest).drop (shortNameLength (c :: rest))) := by
  unfold identifierLength
  split
  · next heq =>
    cases heq
    exact absurd rfl hc
  · rfl

theorem stops_identifierLength : Stops identifierLength where
  le cs := by
    cases cs with
    | nil => exact le_rfl
    | cons c rest =>
      by_cases hc : c = '\\'
      · subst hc
        exact stops_pathLength.le _
      · have hshort := stops_shortNameLength.le (c :: rest)
        have hpath := stops_pathLength.le ((c :: rest).drop (shortNameLength (c :: rest)))
        rw [length_drop] at hpath
        rw [identifierLength_of_ne hc]
        split <;> omega
  append cs z hz := by
    cases cs with
    | nil =>
      cases z with
      | nil => rfl
      | cons c others =>
        have hc := head_of_isBoundary hz rfl
        have hne : c ≠ '\\' := by
          rintro rfl
          exact backslash_notMem_boundary hc
        rw [nil_append, identifierLength_of_ne hne, shortNameLength, isNameStart_boundary c hc]
        rfl
    | cons c rest =>
      by_cases hc : c = '\\'
      · subst hc
        exact stops_pathLength.append ('\\' :: rest) hz
      · have hdrop := stops_shortNameLength.drop_append (c :: rest) z
        have hshort := stops_shortNameLength.append (c :: rest) hz
        rw [cons_append] at hdrop hshort
        rw [cons_append, identifierLength_of_ne hc, identifierLength_of_ne hc, hshort, hdrop,
          stops_pathLength.append _ hz]

/-! ### Quoted texts and signs -/

theorem quotedRest_cons {quote : Char} (hc : c ≠ '\\') (rest : List Char) :
    quotedRest quote (c :: rest) = if c == quote then 1 else
      if quotedRest quote rest == 0 then 0 else quotedRest quote rest + 1 := by
  rw [quotedRest.eq_4]
  · exact fun h _ => hc h
  · exact fun _ _ h _ => hc h

theorem ne_backslash {rest : List Char} (hlone : c = '\\' → rest = [] → False)
    (hback : ∀ head tail, c = '\\' → rest = head :: tail → False) : c ≠ '\\' := by
  intro hc
  cases rest with
  | nil => exact hlone hc rfl
  | cons d rest => exact hback d rest hc rfl

theorem quotedRest_append {quote : Char} (z : List Char) (h : quotedRest quote cs ≠ 0) :
    quotedRest quote (cs ++ z) = quotedRest quote cs ∧ quotedRest quote cs ≤ cs.length := by
  fun_induction quotedRest quote cs with
  | case1 => exact absurd rfl h
  | case2 => exact absurd rfl h
  | case3 c rest n hn => exact absurd rfl h
  | case4 c rest n hn ih =>
    obtain ⟨happend, hle⟩ := ih (by simpa using hn)
    refine ⟨?_, by simp only [length_cons]; omega⟩
    rw [cons_append, cons_append, quotedRest, happend]
    exact if_neg hn
  | case5 c rest hlone hback hquote =>
    have hc := ne_backslash hlone hback
    rw [cons_append, quotedRest_cons hc, if_pos hquote]
    exact ⟨rfl, by simp⟩
  | case6 => exact absurd rfl h
  | case7 c rest hlone hback hquote n hn ih =>
    have hc := ne_backslash hlone hback
    obtain ⟨happend, hle⟩ := ih (by simpa using hn)
    refine ⟨?_, by simp only [length_cons]; omega⟩
    rw [cons_append, quotedRest_cons hc, if_neg hquote, happend]
    exact if_neg hn

theorem stringLength_append (z : List Char) (h : stringLength cs ≠ 0) :
    stringLength (cs ++ z) = stringLength cs ∧ stringLength cs ≤ cs.length := by
  cases cs with
  | nil => exact absurd rfl h
  | cons c rest =>
    rw [stringLength] at h ⊢
    rw [cons_append, stringLength]
    split at h
    · next hquote =>
      simp only [hquote, if_true] at h ⊢
      have hrest : quotedRest c rest ≠ 0 := fun hzero => h (by simp [hzero])
      obtain ⟨happend, hle⟩ := quotedRest_append z hrest
      rw [happend, length_cons]
      split <;> omega
    · exact absurd rfl h

theorem markLength_append {mark : List Char} (z : List Char) (h : markLength mark cs ≠ 0) :
    markLength mark (cs ++ z) = markLength mark cs ∧ markLength mark cs ≤ cs.length := by
  unfold markLength at h ⊢
  split at h
  · next hfront =>
    have hfront := isPrefixOf_iff_prefix.mp hfront
    rw [if_pos ( isPrefixOf_iff_prefix.mpr hfront),
      if_pos ( isPrefixOf_iff_prefix.mpr (hfront.trans (prefix_append cs z)))]
    exact ⟨rfl, hfront.length_le⟩
  · exact absurd rfl h

/-- A mark that only shows with the text behind starts inside the text. -/
theorem prefix_of_markLength {mark : List Char} (h : markLength mark cs = 0)
    (happend : markLength mark (cs ++ z) ≠ 0) : mark <+: cs ++ z ∧ cs <+: mark ∧ cs ≠ mark := by
  have hmark : mark <+: cs ++ z := by
    unfold markLength at happend
    split at happend
    · next hmark => exact isPrefixOf_iff_prefix.mp hmark
    · exact absurd rfl happend
  have hlength : mark.length ≠ 0 := by
    rintro hnil
    rw [length_eq_zero_iff.mp hnil] at happend
    exact happend rfl
  have hnot : ¬ mark <+: cs := by
    intro hcs
    rw [markLength, if_pos ( isPrefixOf_iff_prefix.mpr hcs)] at h
    exact hlength h
  refine ⟨hmark, ?_, fun heq => hnot (heq ▸ prefix_rfl)⟩
  exact ( prefix_or_prefix_of_prefix hmark (prefix_append cs z)).resolve_left hnot

/-! ### Tokens at a boundary -/

theorem tokenAt?_quote (hc : c = '\'' ∨ c = '"') (rest : List Char) :
    tokenAt? (c :: rest) = if stringLength (c :: rest) = 0 then none else
      some (.string, stringLength (c :: rest)) := by
  have hclass : Text.isDigit c = false ∧ Text.isNameStart c = false := by
    rcases hc with rfl | rfl <;> exact ⟨rfl, rfl⟩
  unfold tokenAt? longTokens
  by_cases h : stringLength (c :: rest) = 0
  all_goals rcases hc with rfl | rfl <;>
      simp [markLength, floatLength, digits, fraction, intLength, markedLength, firstLength,
        variableLength, identifierLength, shortNameLength, signKind?, hclass, h]

/-- The ellipsis does not go on into a boundary: its first points are no token. -/
theorem ellipsis_append (z : List Char) (h : tokenAt? cs ≠ none) :
    markLength ['.', '.', '.'] (cs ++ z) = markLength ['.', '.', '.'] cs := by
  by_cases hcs : markLength ['.', '.', '.'] cs = 0
  · rw [hcs]
    by_contra happend
    obtain ⟨-, hpart, hne⟩ := prefix_of_markLength hcs happend
    obtain rfl | ⟨_, rfl, htwo⟩ := prefix_cons_iff.mp hpart
    · exact h rfl
    obtain rfl | ⟨_, rfl, hone⟩ := prefix_cons_iff.mp htwo
    · exact h rfl
    obtain rfl | ⟨_, rfl, hnil⟩ := prefix_cons_iff.mp hone
    · exact h rfl
    · exact hne (by rw [prefix_nil.mp hnil])
  · exact (markLength_append z hcs).1

/-- Two colons are one token only if they stand together. -/
theorem doubleColon_append (h : tokenAt? cs ≠ none)
    (hcolon : cs.getLast? = some ':' → z.head? ≠ some ':') :
    markLength [':', ':'] (cs ++ z) = markLength [':', ':'] cs := by
  by_cases hcs : markLength [':', ':'] cs = 0
  · rw [hcs]
    by_contra happend
    obtain ⟨hfront, hpart, hne⟩ := prefix_of_markLength hcs happend
    obtain rfl | ⟨_, rfl, hone⟩ := prefix_cons_iff.mp hpart
    · exact h rfl
    obtain rfl | ⟨_, rfl, hnil⟩ := prefix_cons_iff.mp hone
    · obtain ⟨others, hothers⟩ := hfront
      have hz : ':' :: others = z := (List.cons.inj hothers).2
      exact hcolon rfl (by rw [← hz]; rfl)
    · exact hne (by rw [prefix_nil.mp hnil])
  · exact (markLength_append z hcs).1

theorem stringLength_boundary (z : List Char) (h : tokenAt? cs ≠ none) :
    stringLength (cs ++ z) = stringLength cs := by
  by_cases hcs : stringLength cs = 0
  · cases cs with
    | nil => exact absurd rfl h
    | cons c rest =>
      by_cases hc : c = '\'' ∨ c = '"'
      · exact absurd ((tokenAt?_quote hc rest).trans (if_pos hcs)) h
      · have hnone : ∀ others, stringLength (c :: others) = 0 := by
          intro others
          rw [stringLength, if_neg (by simpa using hc)]
        rw [cons_append, hnone, hnone]
  · exact (stringLength_append z hcs).1

theorem tokenAt?_congr {rest rest' : List Char}
    (h : ∀ sort ∈ longTokens, sort.2 (c :: rest) = sort.2 (c :: rest')) :
    tokenAt? (c :: rest) = tokenAt? (c :: rest') := by
  have hfind : (longTokens.find? fun sort => sort.2 (c :: rest) != 0) =
      longTokens.find? fun sort => sort.2 (c :: rest') != 0 :=
    find?_congr fun sort hsort => by rw [h sort hsort]
  unfold tokenAt?
  rw [hfind]
  split
  · next kind length hfound =>
    have hlength : length (c :: rest) = length (c :: rest') :=
      h _ (mem_of_find?_eq_some hfound)
    rw [hlength]
  · rfl

theorem tokenAt?_append (h : tokenAt? cs ≠ none) (hz : isBoundary z)
    (hcolon : cs.getLast? = some ':' → z.head? ≠ some ':') : tokenAt? (cs ++ z) = tokenAt? cs := by
  have hlengths : ∀ sort ∈ longTokens, sort.2 (cs ++ z) = sort.2 cs := by
    simp only [longTokens, forall_mem_cons, not_mem_nil, false_implies, implies_true,
      and_true]
    exact ⟨ellipsis_append z h, doubleColon_append h hcolon, stops_floatLength.append cs hz,
      stops_intLength.append cs hz, stops_variableLength.append cs hz,
      stops_identifierLength.append cs hz, stringLength_boundary z h⟩
  cases cs with
  | nil => exact absurd rfl h
  | cons c rest => exact tokenAt?_congr hlengths

theorem tokenAt?_le {kind : TokenKind} {n : Nat} (h : tokenAt? cs = some (kind, n)) :
    0 < n ∧ n ≤ cs.length := by
  refine ⟨Nat.pos_of_ne_zero (tokenAt?_cases h).1, ?_⟩
  unfold tokenAt? at h
  split at h
  · next length hfound =>
    cases h
    have hne : length cs ≠ 0 := by simpa using find?_some hfound
    have hmem := mem_of_find?_eq_some hfound
    simp only [longTokens, mem_cons, Prod.mk.injEq, not_mem_nil, or_false] at hmem
    rcases hmem with ⟨-, rfl⟩ | ⟨-, rfl⟩ | ⟨-, rfl⟩ | ⟨-, rfl⟩ | ⟨-, rfl⟩ | ⟨-, rfl⟩ | ⟨-, rfl⟩
    · exact (markLength_append [] hne).2
    · exact (markLength_append [] hne).2
    · exact stops_floatLength.le cs
    · exact stops_intLength.le cs
    · exact stops_variableLength.le cs
    · exact stops_identifierLength.le cs
    · exact (stringLength_append [] hne).2
  · split at h
    · obtain ⟨_, -, hpair⟩ := Option.map_eq_some_iff.mp h
      cases hpair
      simp
    · cases h

theorem getLast?_drop {n : Nat} (h : (cs.drop n).getLast? = some c) : cs.getLast? = some c := by
  rw [← take_append_drop n cs, getLast?_append, h]
  rfl

theorem tokensFrom_append {position : Nat} {tokens : List Token}
    (h : tokensFrom position cs = .ok tokens) (hz : isBoundary z)
    (hcolon : cs.getLast? = some ':' → z.head? ≠ some ':') :
    tokensFrom position (cs ++ z) = (tokensFrom (position + cs.length) z).map (tokens ++ ·) := by
  fun_induction tokensFrom position cs generalizing tokens with
  | case1 position =>
    cases h
    rw [nil_append, length_nil, Nat.add_zero]
    cases tokensFrom position z with
    | error e => rfl
    | ok others => rfl
  | case2 position c rest hblank ih =>
    rw [cons_append, tokensFrom, if_pos hblank,
      ih h fun hlast => hcolon (getLast?_drop (n := 1) hlast), length_cons]
    congr 2
    omega
  | case3 => cases h
  | case4 => cases h
  | case5 position c rest hblank kind length htoken found hfound ih =>
    cases h
    obtain ⟨hpos, hle⟩ := tokenAt?_le htoken
    rw [length_cons] at hle
    have hsame := tokenAt?_append (by rw [htoken]; simp) hz hcolon
    rw [htoken, cons_append] at hsame
    have hbehind := ih hfound fun hlast => hcolon (getLast?_drop (n := length - 1 + 1) hlast)
    rw [length_drop] at hbehind
    rw [cons_append, tokensFrom, if_neg hblank, hsame]
    simp only [drop_append_of_le_length (show length - 1 ≤ rest.length by omega),
      take_append_of_le_length (show length - 1 ≤ rest.length by omega), hbehind,
      length_cons]
    rw [show position + (length - 1) + 1 + (rest.length - (length - 1)) =
      position + (rest.length + 1) by omega]
    cases tokensFrom (position + (rest.length + 1)) z with
    | error e => rfl
    | ok others => rfl

end StubCatalog.TypeExpr
