import StubCatalog.Proofs.Decimal.Literals

/-! # Literals in types

The tokens that are integers or decimals are literals (`isInteger_of_token`), so decimals are always
read, and the integers that are not read are those that lack a value. -/

namespace StubCatalog

open List Numeral

variable {cs : List Char} {tokens : List Token} {t : Token} {text : String}

namespace TypeExpr

/-! ### Tokens -/

theorem tokenAt?_cases {kind : TokenKind} {n : Nat} (h : tokenAt? cs = some (kind, n)) :
    n ≠ 0 ∧ ((∃ length, (kind, length) ∈ longTokens ∧ n = length cs) ∨
      ∃ c, signKind? c = some kind) := by
  unfold tokenAt? at h
  split at h
  · next length hfind =>
    cases h
    exact ⟨by simpa using find?_some hfind,
      Or.inl ⟨length, mem_of_find?_eq_some hfind, rfl⟩⟩
  · split at h
    · next c _ _ =>
      obtain ⟨_, hsign, hpair⟩ := Option.map_eq_some_iff.mp h
      cases hpair
      exact ⟨by decide, Or.inr ⟨c, hsign⟩⟩
    · cases h

theorem exists_tokenAt? {position : Nat} (h : tokensFrom position cs = .ok tokens)
    (ht : t ∈ tokens) :
    ∃ k n, t.position = position + k ∧ tokenAt? (cs.drop k) = some (t.kind, n) ∧
      t.value = String.ofList ((cs.drop k).take n) := by
  fun_induction tokensFrom position cs generalizing tokens with
  | case1 =>
    cases h
    cases ht
  | case2 position c rest _ ih =>
    obtain ⟨k, n, hposition, hrest⟩ := ih h ht
    exact ⟨k + 1, n, by rw [hposition]; omega, hrest⟩
  | case3 => cases h
  | case4 => cases h
  | case5 position c rest _ kind n htoken found hfound ih =>
    cases h
    obtain ⟨m, rfl⟩ := Nat.exists_eq_succ_of_ne_zero (tokenAt?_cases htoken).1
    rcases mem_cons.mp ht with rfl | ht
    · exact ⟨0, m + 1, rfl, htoken, rfl⟩
    · obtain ⟨k, n, hposition, hrest⟩ := ih hfound ht
      refine ⟨m + k + 1, n, by rw [hposition]; omega, ?_⟩
      rw [drop_succ_cons, ← drop_drop]
      exact hrest

theorem exists_length {position : Nat} {f : List Char → Nat}
    (h : tokensFrom position cs = .ok tokens) (ht : t ∈ tokens) (hlong : (t.kind, f) ∈ longTokens) :
    ∃ k, t.position = position + k ∧ f (cs.drop k) ≠ 0 ∧
      t.value = String.ofList ((cs.drop k).take (f (cs.drop k))) := by
  obtain ⟨k, n, hposition, htoken, hvalue⟩ := exists_tokenAt? h ht
  obtain ⟨hn, ⟨other, hother, rfl⟩ | ⟨c, hc⟩⟩ := tokenAt?_cases htoken
  · obtain rfl : other = f := by
      simp only [longTokens, mem_cons, Prod.mk.injEq, not_mem_nil, or_false] at hother hlong
      grind
    exact ⟨k, hposition, hn, hvalue⟩
  · generalize t.kind = kind at hc hlong
    unfold signKind? at hc
    split at hc <;> cases hc <;> simp [longTokens] at hlong

theorem take_run (p : Char → Bool) (cs : List Char) : cs.take (run p cs) = cs.takeWhile p :=
  (prefix_iff_eq_take.mp ( takeWhile_prefix p)).symm

theorem take_digits (h : digits cs ≠ 0) :
    ∃ c rest, cs.take (digits cs) = c :: rest ∧ Text.isDigit c ∧
      ∀ d ∈ rest, Text.isDigit d ∨ d = '_' := by
  unfold digits at h ⊢
  split at h
  · exact absurd rfl h
  · next c rest =>
    split at h
    · next hc =>
      refine ⟨c, rest.takeWhile isDigitPart, ?_, hc, fun d hd => ?_⟩
      · simp only [hc, if_true]
        rw [take_succ_cons, take_run]
      · simpa [isDigitPart] using Evaluation.of_mem_takeWhile hd
    · exact absurd rfl h

theorem take_markedLength {lower upper : Char} {p : Char → Bool}
    (h : markedLength lower upper p cs ≠ 0) :
    ∃ mark rest, cs.take (markedLength lower upper p cs) = '0' :: mark :: rest ∧
      (mark = lower ∨ mark = upper) ∧ rest ≠ [] ∧ ∀ c ∈ rest, p c ∨ c = '_' := by
  unfold markedLength at h ⊢
  split at h
  · next mark rest =>
    simp only at h ⊢
    split at h
    · next hmark =>
      simp only [hmark, if_true]
      simp only [Bool.and_eq_true, Bool.or_eq_true, beq_iff_eq, bne_iff_ne] at hmark
      refine ⟨mark, rest.takeWhile fun c => p c || c == '_', ?_, hmark.1, ?_, fun c hc => ?_⟩
      · rw [take_succ_cons, take_succ_cons, take_run]
      · exact ne_nil_of_length_pos (Nat.pos_of_ne_zero hmark.2)
      · simpa using Evaluation.of_mem_takeWhile hc
    · exact absurd rfl h
  · exact absurd rfl h

theorem isSome_hexValue? {c : Char} (h : isHexDigit c) : (hexValue? c).isSome := by
  simp only [isHexDigit, Bool.or_eq_true, isDigit_iff, Bool.and_eq_true, decide_eq_true_eq] at h
  have hle : ∀ {a b : Char}, a ≤ b → a.toNat ≤ b.toNat := fun hab => hab
  unfold hexValue?
  rcases h with (⟨h1, h2⟩ | ⟨h1, h2⟩) | ⟨h1, h2⟩
  · simp [h1, h2]
  · have h1 : 97 ≤ c.toNat := hle h1
    have h2 : c.toNat ≤ 102 := hle h2
    grind
  · have h1 : 65 ≤ c.toNat := hle h1
    have h2 : c.toNat ≤ 70 := hle h2
    grind

theorem take_intLength (h : intLength cs ≠ 0) : Evaluation.isInteger (cs.take (intLength cs)) := by
  have hrun : ∀ {p q : Char → Bool} {rest : List Char}, (∀ c, p c → q c) → rest ≠ [] →
      (∀ c ∈ rest, p c ∨ c = '_') → Evaluation.isDigitRun q rest := by
    intro p q rest hpq hne hrest
    simp only [Evaluation.isDigitRun, Bool.and_eq_true, Bool.not_eq_true',
      isEmpty_eq_false_iff,
      all_eq_true, Bool.or_eq_true, beq_iff_eq]
    exact ⟨hne, fun c hc => (hrest c hc).imp_left (hpq c)⟩
  simp only [intLength, firstLength] at h ⊢
  by_cases h1 : markedLength 'x' 'X' isHexDigit cs = 0
  case neg =>
    obtain ⟨mark, rest, htake, hmark, hne, hrest⟩ := take_markedLength h1
    have hdigits := hrun (fun c => isSome_hexValue?) hne hrest
    simp [h1, htake, Evaluation.isInteger, hdigits, hmark]
  by_cases h2 : markedLength 'b' 'B' (fun c => c == '0' || c == '1') cs = 0
  case neg =>
    obtain ⟨mark, rest, htake, hmark, hne, hrest⟩ := take_markedLength h2
    have hdigits := hrun (fun c hc => hc) hne hrest
    simp [h1, h2, htake, Evaluation.isInteger, hdigits, hmark]
  by_cases h3 : markedLength 'o' 'O' (fun c => '0' ≤ c && c ≤ '7') cs = 0
  case neg =>
    obtain ⟨mark, rest, htake, hmark, hne, hrest⟩ := take_markedLength h3
    have hdigits := hrun (q := Evaluation.isOctal) (fun c hc => hc) hne hrest
    simp [h1, h2, h3, htake, Evaluation.isInteger, hdigits, hmark]
  simp only [h1, h2, h3, beq_self_eq_true, if_true] at h ⊢
  have hdigits : digits cs ≠ 0 := by simpa using h
  obtain ⟨c, rest, htake, hc, hrest⟩ := take_digits hdigits
  have hrun : Evaluation.isDecimalRun (c :: rest) := by
    simpa [Evaluation.isDecimalRun, hc] using hrest
  simp [hdigits, htake, Evaluation.isInteger, hrun]

theorem isInteger_of_token (h : tokenize text = .ok tokens) (ht : t ∈ tokens)
    (hkind : t.kind = .int) : Evaluation.isInteger t.value.toList := by
  obtain ⟨k, -, hne, hvalue⟩ := exists_length h ht (f := intLength) (by simp [hkind, longTokens])
  rw [hvalue, String.toList_ofList]
  exact take_intLength hne

/-- The integer literals in a text. -/
def integerLiterals (text : String) : List String :=
  match tokenize text with
  | .ok tokens => (tokens.filter (·.kind = .int)).map Token.value
  | .error _ => []

theorem mem_integerLiterals (h : tokenize text = .ok tokens) {l : String} :
    l ∈ integerLiterals text ↔ ∃ t ∈ tokens, t.kind = .int ∧ t.value = l := by
  unfold integerLiterals
  simp only [h, mem_map, mem_filter, decide_eq_true_eq, and_assoc]

theorem exists_readLiteral_of_mem {l : String} (h : l ∈ integerLiterals text) :
    (∃ n, readLiteral l = .ok n) ↔ lacksValue l = false := by
  cases htokens : tokenize text with
  | error e => simp [integerLiterals, htokens] at h
  | ok tokens =>
    obtain ⟨t, ht, hkind, rfl⟩ := (mem_integerLiterals htokens).mp h
    have hliteral := exists_readLiteral_iff (isInteger_of_token htokens ht hkind)
    rwa [String.ofList_toList] at hliteral

/-! ### Decimals -/

theorem isPower_take_exponent (cs : List Char) : IsPower Text.isDigit (cs.take (exponent cs)) := by
  unfold exponent
  split
  · exact Or.inl rfl
  · next mark rest =>
    split
    · next hmark =>
      have hpower : ∀ sign, IsSign (rest.take sign) → IsPower Text.isDigit ((mark :: rest).take
          (if run Text.isDigit (rest.drop sign) == 0 then 0
            else 1 + sign + run Text.isDigit (rest.drop sign))) := by
        intro sign hsign
        split
        · exact Or.inl rfl
        · next hcount =>
          refine Or.inr ⟨mark, rest.take sign, (rest.drop sign).takeWhile Text.isDigit, ?_, ?_,
            hsign,
            ?_, fun c hc => Evaluation.of_mem_takeWhile hc⟩
          · rw [show 1 + sign + run Text.isDigit (rest.drop sign) =
              (sign + run Text.isDigit (rest.drop sign)) + 1 by omega, take_succ_cons,
              take_add, take_run]
          · simpa using hmark
          · exact ne_nil_of_length_pos (Nat.pos_of_ne_zero (by simpa [run] using hcount))
      cases rest with
      | nil => exact hpower 0 (Or.inl rfl)
      | cons s rest =>
        simp only
        by_cases hs : (s == '+' || s == '-')
        · rw [if_pos hs]
          refine hpower 1 (Or.inr ?_)
          simpa using hs
        · rw [if_neg hs]
          exact hpower 0 (Or.inl rfl)
    · exact Or.inl rfl

theorem filter_take_digits (cs : List Char) :
    (∀ c ∈ (cs.take (digits cs)).filter (· != '_'), Text.isDigit c) ∧
      (digits cs ≠ 0 → (cs.take (digits cs)).filter (· != '_') ≠ []) := by
  by_cases h : digits cs = 0
  · simp [h]
  · obtain ⟨c, rest, htake, hc, hrest⟩ := take_digits h
    have hne : c ≠ '_' := by
      rintro rfl
      exact absurd hc (by decide)
    rw [htake]
    exact ⟨filter_underscore (forall_mem_cons.mpr ⟨Or.inl hc, hrest⟩), by simp [hne]⟩

theorem filter_take_fraction (cs : List Char) :
    ∃ point behind, (point = ['.'] ∨ point = [] ∧ behind = []) ∧
      (cs.take (fraction cs)).filter (· != '_') = point ++ behind ∧
      (∀ c ∈ behind, Text.isDigit c) ∧ (fraction cs ≠ 0 → behind ≠ []) := by
  unfold fraction
  split
  · next rest =>
    obtain ⟨hdigits, hne⟩ := filter_take_digits rest
    split
    · exact ⟨[], [], by simp⟩
    · next hcount =>
      refine ⟨['.'], _, Or.inl rfl, ?_, hdigits, fun _ => hne (by simpa using hcount)⟩
      rw [take_succ_cons]
      rfl
  · exact ⟨[], [], by simp⟩

theorem take_floatLength (h : floatLength cs ≠ 0) :
    ∃ whole point fraction power, (cs.take (floatLength cs)).filter (· != '_') =
      whole ++ point ++ fraction ++ power ∧
      DecimalParts Text.isDigit whole point fraction power := by
  have hlength : floatLength cs = digits cs + fraction (cs.drop (digits cs)) +
      exponent (cs.drop (digits cs + fraction (cs.drop (digits cs)))) ∧
      ¬ (fraction (cs.drop (digits cs)) = 0 ∧ digits cs = 0) := by
    unfold floatLength at h ⊢
    grind
  obtain ⟨hlength, hsome⟩ := hlength
  obtain ⟨hwhole, hwholeNe⟩ := filter_take_digits cs
  have hpower := isPower_take_exponent (cs.drop (digits cs + fraction (cs.drop (digits cs))))
  rw [hlength, take_add, take_add, filter_append, filter_append,
    hpower.filter_eq]
  obtain ⟨point, fractionDigits, hpoint, htake, hdigits, hne⟩ :=
    filter_take_fraction (cs.drop (digits cs))
  rw [htake, ← append_assoc]
  refine ⟨_, _, _, _, rfl, fun hnil => hsome ⟨?_, ?_⟩, hwhole, hdigits, hpoint, hpower⟩
  · exact Decidable.not_not.mp fun hfraction => hne hfraction (append_eq_nil_iff.mp hnil).2
  · exact Decidable.not_not.mp fun hdigit => hwholeNe hdigit (append_eq_nil_iff.mp hnil).1

theorem exists_readDouble_of_token (h : tokenize text = .ok tokens) (ht : t ∈ tokens)
    (hkind : t.kind = .float) :
    ∃ d, readDouble? (String.ofList (t.value.toList.filter (· != '_'))) = some d ∧ d ≠ .nan := by
  obtain ⟨k, -, hne, hvalue⟩ := exists_length h ht (f := floatLength) (by simp [hkind, longTokens])
  rw [hvalue, String.toList_ofList]
  obtain ⟨whole, point, fraction, power, hfilter, hparts⟩ := take_floatLength hne
  have hread := exists_readDouble? (Or.inl rfl : IsSign []) hparts
  rwa [nil_append, ← hfilter] at hread

end TypeExpr

end StubCatalog
