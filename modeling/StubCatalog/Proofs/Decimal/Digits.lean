import StubCatalog.Decimal.Numeral

/-! # Decimal digits read back

The digits of a natural number are ASCII digits without a leading zero, so they are read in base ten
and have that number as their value (`readLiteral_repr`), unless there are too many. -/

namespace StubCatalog.Numeral

open List

variable {c : Char} {n : Nat}

/-! ### ASCII digits -/

theorem isDigit_iff : c.isDigit ↔ 48 ≤ c.toNat ∧ c.toNat ≤ 57 := by
  simp only [Char.isDigit, Bool.and_eq_true, decide_eq_true_eq]
  exact Iff.rfl

theorem plainChar_digit (h : c.isDigit) : plainChar c = c := by
  have := (isDigit_iff.mp h).2
  unfold plainChar
  rw [if_pos (by omega)]

theorem isSpacing_digit (h : c.isDigit) : isSpacing c = false := by
  have hc := isDigit_iff.mp h
  have hne : c ≠ ' ' := by rintro rfl; revert h; decide
  simp only [isSpacing, Bool.or_eq_false_iff, beq_eq_false_iff_ne, Bool.and_eq_false_iff,
    decide_eq_false_iff_not]
  exact ⟨hne, Or.inr (by omega)⟩

theorem hexValue?_digit (h : c.isDigit) : hexValue? c = some (c.toNat - 48) := by
  have hc := isDigit_iff.mp h
  unfold hexValue?
  simp only
  rw [if_pos (by simp; omega)]

/-! ### Lists of digits -/

variable {cs : List Char}

theorem dropWhile_isSpacing (h : ∀ c ∈ cs, c.isDigit) : cs.dropWhile isSpacing = cs := by
  cases cs with
  | nil => rfl
  | cons c cs => simp [isSpacing_digit (h c (by simp))]

theorem plain_digits (h : ∀ c ∈ cs, c.isDigit) : plain (String.ofList cs) = cs := by
  have hmap : cs.map plainChar = cs := by
    refine (map_congr_left fun c hc => plainChar_digit (h c hc)).trans ?_
    simp
  have hrev : ∀ c ∈ cs.reverse, c.isDigit := fun c hc => h c (mem_reverse.mp hc)
  unfold plain Text.trimBy Text.dropEndWhile
  rw [String.toList_ofList, hmap, dropWhile_isSpacing h, dropWhile_isSpacing hrev,
    reverse_reverse]

theorem splitSign_digits (h : ∀ c ∈ cs, c.isDigit) : splitSign cs = (false, cs) := by
  unfold splitSign
  split
  · exact absurd (h '-' (by simp)) (by decide)
  · exact absurd (h '+' (by simp)) (by decide)
  · rfl

theorem isMarked_digits (h : ∀ c ∈ cs, c.isDigit) : isMarked cs = false := by
  unfold isMarked
  split
  · next mark rest =>
    have hm := h mark (by simp)
    rw [contains_eq_mem, decide_eq_false_iff_not]
    intro hmem
    simp only [mem_cons, not_mem_nil, or_false] at hmem
    rcases hmem with rfl | rfl | rfl | rfl | rfl | rfl <;> exact absurd hm (by decide)
  · rfl

theorem digitsValue?_digits (h : ∀ c ∈ cs, c.isDigit) (acc : Nat) :
    digitsValue? 10 acc cs = some (Nat.ofDigitChars 10 cs acc) := by
  induction cs generalizing acc with
  | nil => simp [digitsValue?]
  | cons c cs ih =>
    have hc := h c (by simp)
    have hlt : c.toNat - 48 < 10 := by have := isDigit_iff.mp hc; omega
    unfold digitsValue?
    rw [hexValue?_digit hc]
    simp only
    rw [if_pos hlt, ih (fun d hd => h d (by simp [hd])), Nat.ofDigitChars_cons, Nat.mul_comm]
    rfl

/-! ### Written numbers -/

theorem isDigit_of_mem_digits : ∀ c ∈ Nat.toDigits 10 n, c.isDigit := fun _ hc =>
  Nat.isDigit_of_mem_toDigits (by decide) (by decide) hc

theorem length_toDigits_le {k : Nat} (hk : 0 < k) (h : n < Nat.pow 10 k) :
    (Nat.toDigits 10 n).length ≤ k :=
  (Nat.length_toDigits_le_iff (by decide) hk).mpr h

theorem head?_toDigits_ne (h : 1 < (Nat.toDigits 10 n).length) :
    (Nat.toDigits 10 n).head? ≠ some '0' := by
  -- by induction on the number without its last digit, which has the same head
  have key : ∀ n : Nat, 0 < n → (Nat.toDigits 10 n).head? ≠ some '0' := by
    intro n
    induction n using Nat.base_induction 10 (by decide) with
    | single m hm =>
      intro hpos
      rw [Nat.toDigits_of_lt_base hm]
      have : ∀ m < 10, 0 < m → [Nat.digitChar m].head? ≠ some '0' := by decide
      exact this m hm hpos
    | digit m k hk hm ih =>
      intro _
      rw [← Nat.toDigits_append_toDigits (by decide) hm hk,
        head?_append]
      obtain ⟨c, cs, hcs⟩ := exists_cons_of_ne_nil (Nat.toDigits_ne_nil (n := m) (b := 10))
      have hne := ih hm
      rw [hcs] at hne ⊢
      exact hne
  refine key n (Nat.pos_of_ne_zero ?_)
  rintro rfl
  simp at h

theorem readLiteral_repr (h : n < writableBound) : readLiteral n.repr = .ok (n : Int) := by
  have hdigits := isDigit_of_mem_digits (n := n)
  have hfilter : (Nat.toDigits 10 n).filter (· != '_') = Nat.toDigits 10 n := by
    refine filter_eq_self.mpr fun c hc => ?_
    have : c ≠ '_' := by rintro rfl; exact absurd (hdigits _ hc) (by decide)
    simpa using this
  have hlength : ¬ (Nat.toDigits 10 n).length > maxDecimalDigits := by
    unfold writableBound at h
    exact Nat.not_lt.mpr (length_toDigits_le (by decide) h)
  unfold readLiteral
  simp only [Nat.toList_repr, hfilter]
  rw [if_neg (by rw [isMarked_digits hdigits]; decide), if_neg ?_]
  · unfold readDecimal
    rw [plain_digits hdigits, splitSign_digits hdigits]
    simp only [digitsValue?_digits hdigits, Nat.ofDigitChars_ten_toDigits]
    split
    · next heq => exact absurd heq Nat.toDigits_ne_nil
    · next hnone _ => cases hnone
    · next hsome _ =>
      cases hsome
      rw [if_neg hlength]
      rfl
  · simp only [Bool.and_eq_true, decide_eq_true_eq, beq_iff_eq]
    rintro ⟨⟨hlong, hzero⟩, -⟩
    exact head?_toDigits_ne hlong hzero

end StubCatalog.Numeral
