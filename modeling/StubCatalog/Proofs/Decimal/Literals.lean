import Mathlib.Algebra.Group.Nat.Defs
import StubCatalog.Evaluation
import StubCatalog.Proofs.Decimal.Digits
import StubCatalog.Proofs.Text.Names

/-! # Literals and their values

An integer literal is a run of decimal digits of any script or a base mark with digits of its base,
with underscores among them. Not every literal has a value (`lacksValue`). -/

namespace StubCatalog

open List Numeral

variable {c : Char} {cs : List Char}

/-! ### Digits of every script -/

namespace Text

theorem digitRanges_apart : ∀ d ∈ digitRanges.toList, ∀ b ∈ blankRanges.toList,
    b.2 < d.1 ∨ d.2 < b.1 := by
  decide

theorem digitValue?_of_isDigit (h : isDigit c) (hc : ¬ c.toNat < 128) :
    isBlank c = false ∧ ∃ d < 10, digitValue? c = some d := by
  unfold isDigit digitValue? at h
  unfold digitValue? isBlank
  simp only [hc, if_false] at h ⊢
  rw [Option.isSome_map] at h
  obtain ⟨range, hrange⟩ := Option.isSome_iff_exists.mp h
  refine ⟨?_, (c.toNat - range.1) % 10, Nat.mod_lt _ (by decide), by rw [hrange]; rfl⟩
  have hmem := Array.mem_toList_iff.mpr (Array.mem_of_find?_eq_some hrange)
  have hwithin := Array.find?_some hrange
  simp only [Bool.and_eq_true, decide_eq_true_eq] at hwithin
  rw [← Bool.not_eq_true, inRanges_iff]
  rintro ⟨blank, hblank, hlow, hhigh⟩
  rcases digitRanges_apart range hmem blank hblank with hlt | hlt <;> omega

end Text

namespace Numeral

theorem isDigit_plainChar (h : Text.isDigit c) : (plainChar c).isDigit := by
  by_cases hc : c.toNat < 128
  · unfold Text.isDigit Text.digitValue? at h
    unfold plainChar
    simp only [hc, if_true] at h ⊢
    split at h
    · next hrange => exact isDigit_iff.mpr (by simpa using hrange)
    · cases h
  · obtain ⟨hblank, d, hd, hvalue⟩ := Text.digitValue?_of_isDigit h hc
    unfold plainChar
    rw [if_neg hc, hblank, if_neg (by decide), hvalue]
    have : ∀ d < 10, (Char.ofNat (48 + d)).isDigit := by decide
    exact this d hd

theorem plain_eq_map (h : ∀ c ∈ cs, isSpacing (plainChar c) = false) :
    plain (String.ofList cs) = cs.map plainChar := by
  have hmap : ∀ c ∈ cs.map plainChar, isSpacing c = false := by
    simpa using h
  rw [plain, String.toList_ofList, Text.trimBy_eq_self hmap]

/-! ### Integers -/

/-- The digits are read in base eight: a zero in front and no digit above seven. -/
def isOctalNumeral (digits : List Char) : Bool :=
  digits.length > 1 && digits.head? == some '0' && digits.all fun c => 48 ≤ c.toNat && c.toNat ≤ 55

/-- The integer literal has no value: there is no digit behind its base mark, or it is decimal and
has more digits than are converted. -/
def lacksValue (text : String) : Bool :=
  let digits := text.toList.filter (· != '_')
  if isMarked digits then digits.length == 2
  else !isOctalNumeral digits && digits.length > maxDecimalDigits

theorem exists_readDecimal_iff (hne : cs ≠ []) (h : ∀ c ∈ cs, Text.isDigit c) :
    (∃ n, readDecimal (String.ofList cs) = .ok n) ↔ cs.length ≤ maxDecimalDigits := by
  have hdigits : ∀ c ∈ cs.map plainChar, c.isDigit := by
    simpa using fun c hc => isDigit_plainChar (h c hc)
  have hplain : plain (String.ofList cs) = cs.map plainChar :=
    plain_eq_map fun c hc => isSpacing_digit (isDigit_plainChar (h c hc))
  unfold readDecimal
  rw [hplain, splitSign_digits hdigits]
  simp only [digitsValue?_digits hdigits, length_map]
  split
  · next heq => simp [hne] at heq
  · next hnone _ => cases hnone
  · next heq =>
    split
    · next hlong => simp; omega
    · next hshort => simp; omega

theorem exists_digitsValue? {base : Nat} (acc : Nat)
    (h : ∀ c ∈ cs, ∃ d < base, hexValue? c = some d) : ∃ n, digitsValue? base acc cs = some n := by
  induction cs generalizing acc with
  | nil => exact ⟨acc, rfl⟩
  | cons c cs ih =>
    obtain ⟨d, hd, hvalue⟩ := h c (by simp)
    rw [digitsValue?, hvalue]
    simp only [hd, if_true]
    exact ih _ fun c hc => h c (by simp [hc])

theorem plainChar_of_hexValue? {d : Nat} (h : hexValue? c = some d) :
    plainChar c = c ∧ Text.isBlank c = false ∧ isSpacing c = false ∧ c ≠ '_' := by
  have hc : c.toNat < 128 := by
    unfold hexValue? at h
    grind
  refine ⟨if_pos hc, ?_⟩
  revert h
  refine Text.forall_ascii (P := fun c => hexValue? c = some d →
    Text.isBlank c = false ∧ isSpacing c = false ∧ c ≠ '_') (fun n hn hvalue => ?_) c hc
  have hascii : ∀ n < 128, (hexValue? (Char.ofNat n)).isSome →
      Text.isBlank (Char.ofNat n) = false ∧ isSpacing (Char.ofNat n) = false ∧
        Char.ofNat n ≠ '_' := by
    decide
  exact hascii n hn (by simp [hvalue])

/-- The bases with their marks. -/
def baseMarks : List (Nat × Char) := [(16, 'x'), (16, 'X'), (2, 'b'), (2, 'B'), (8, 'o'), (8, 'O')]

theorem isMarked_of_baseMark {base : Nat} {mark : Char} {rest : List Char}
    (h : (base, mark) ∈ baseMarks) : isMarked ('0' :: mark :: rest) := by
  have hmarks : ∀ pair ∈ baseMarks, ['x', 'X', 'b', 'B', 'o', 'O'].contains pair.2 := by
    decide
  exact hmarks _ h

section
variable {base : Nat} {mark : Char} {rest : List Char}

theorem plain_marked (hmark : (base, mark) ∈ baseMarks)
    (h : ∀ c ∈ rest, ∃ d < base, hexValue? c = some d) :
    plain (String.ofList ('0' :: mark :: rest)) = '0' :: mark :: rest := by
  have hmarks : ∀ pair ∈ baseMarks, plainChar pair.2 = pair.2 ∧ isSpacing pair.2 = false := by
    decide
  have hself : ('0' :: mark :: rest).map plainChar = '0' :: mark :: rest := by
    rw [map_cons, map_cons, (hmarks _ hmark).1, show plainChar '0' = '0' by decide,
      map_congr_left fun c hc => ?_, map_id]
    obtain ⟨d, -, hd⟩ := h c hc
    exact (plainChar_of_hexValue? hd).1
  refine (plain_eq_map fun c hc => ?_).trans hself
  rcases mem_cons.mp hc with rfl | hc
  · decide
  rcases mem_cons.mp hc with rfl | hc
  · rw [(hmarks _ hmark).1]
    exact (hmarks _ hmark).2
  · obtain ⟨d, -, hd⟩ := h c hc
    rw [(plainChar_of_hexValue? hd).1]
    exact (plainChar_of_hexValue? hd).2.2.1

theorem readMarked_eq (hmark : (base, mark) ∈ baseMarks)
    (h : ∀ c ∈ rest, ∃ d < base, hexValue? c = some d) (hne : rest ≠ []) {n : Nat}
    (hn : digitsValue? base 0 rest = some n) :
    readMarked (String.ofList ('0' :: mark :: rest)) = .ok n := by
  unfold readMarked
  rw [plain_marked hmark h]
  simp only [baseMarks, mem_cons, Prod.mk.injEq, not_mem_nil, or_false] at hmark
  rcases hmark with ⟨rfl, rfl⟩ | ⟨rfl, rfl⟩ | ⟨rfl, rfl⟩ | ⟨rfl, rfl⟩ | ⟨rfl, rfl⟩ | ⟨rfl, rfl⟩ <;>
    simp [hn]

theorem exists_readMarked_iff (hmark : (base, mark) ∈ baseMarks)
    (h : ∀ c ∈ rest, ∃ d < base, hexValue? c = some d) :
    (∃ n, readMarked (String.ofList ('0' :: mark :: rest)) = .ok n) ↔ rest ≠ [] := by
  constructor
  · rintro ⟨n, hn⟩ rfl
    rw [readMarked, plain_marked hmark h] at hn
    simp only [baseMarks, mem_cons, Prod.mk.injEq, not_mem_nil, or_false] at hmark
    rcases hmark with
      ⟨rfl, rfl⟩ | ⟨rfl, rfl⟩ | ⟨rfl, rfl⟩ | ⟨rfl, rfl⟩ | ⟨rfl, rfl⟩ | ⟨rfl, rfl⟩ <;> simp at hn
  · intro hne
    obtain ⟨n, hn⟩ := exists_digitsValue? 0 h
    exact ⟨n, readMarked_eq hmark h hne hn⟩

end

theorem filter_underscore {p : Char → Bool} (h : ∀ c ∈ cs, p c ∨ c = '_') :
    ∀ c ∈ cs.filter (· != '_'), p c := by
  intro c hc
  obtain ⟨hmem, hne⟩ := mem_filter.mp hc
  rcases h c hmem with hp | rfl
  · exact hp
  · simp at hne

theorem isInteger_cases (h : Evaluation.isInteger cs) : (∃ c rest, cs = c :: rest ∧ Text.isDigit c ∧
        ∀ d ∈ rest, Text.isDigit d ∨ d = '_') ∨
      ∃ base mark rest, cs = '0' :: mark :: rest ∧ (base, mark) ∈ baseMarks ∧ rest ≠ [] ∧
        ∀ c ∈ rest, (∃ d < base, hexValue? c = some d) ∨ c = '_' := by
  -- The digits of each base among the characters that the literal allows.
  have hhex : ∀ {c : Char}, (hexValue? c).isSome → ∃ d < 16, hexValue? c = some d := by
    intro c hc
    unfold hexValue? at hc ⊢
    grind
  have hoctal : ∀ {c : Char}, Evaluation.isOctal c → ∃ d < 8, hexValue? c = some d := by
    intro c hc
    simp only [Evaluation.isOctal, Bool.and_eq_true, decide_eq_true_eq] at hc
    exact ⟨c.toNat - 48, by omega, hexValue?_digit (isDigit_iff.mpr (by omega))⟩
  have hdecimal : ∀ {c : Char}, Evaluation.isOctal c → Text.isDigit c := by
    intro c hc
    unfold Evaluation.isOctal at hc
    unfold Text.isDigit Text.digitValue?
    grind
  unfold Evaluation.isInteger at h
  rw [Bool.or_eq_true] at h
  rcases h with h | h
  · unfold Evaluation.isDecimalRun at h
    split at h
    · cases h
    · next c rest =>
      simp only [Bool.and_eq_true, all_eq_true, Bool.or_eq_true, beq_iff_eq] at h
      exact Or.inl ⟨c, rest, rfl, h⟩
  · split at h
    · next mark rest =>
      simp only [Bool.or_eq_true, Bool.and_eq_true, beq_iff_eq, Evaluation.isDigitRun,
        all_eq_true, Bool.not_eq_true', isEmpty_eq_false_iff] at h
      rcases h with ((⟨-, h⟩ | ⟨hmark, hne, h⟩) | ⟨hmark, hne, h⟩) | ⟨hmark, hne, h⟩
      · refine Or.inl ⟨'0', mark :: rest, rfl, by decide, fun d hd => ?_⟩
        exact (h d hd).imp_left hdecimal
      · refine Or.inr ⟨16, mark, rest, rfl, ?_, hne, fun c hc => (h c hc).imp_left hhex⟩
        rcases hmark with rfl | rfl <;> decide
      · refine Or.inr ⟨2, mark, rest, rfl, ?_, hne, fun c hc => (h c hc).imp_left ?_⟩
        · rcases hmark with rfl | rfl <;> decide
        · rintro (rfl | rfl)
          · exact ⟨0, by decide, by decide⟩
          · exact ⟨1, by decide, by decide⟩
      · refine Or.inr ⟨8, mark, rest, rfl, ?_, hne, fun c hc => (h c hc).imp_left hoctal⟩
        rcases hmark with rfl | rfl <;> decide
    · cases h

theorem exists_readLiteral_iff (h : Evaluation.isInteger cs) :
    (∃ n, readLiteral (String.ofList cs) = .ok n) ↔ lacksValue (String.ofList cs) = false := by
  unfold readLiteral lacksValue
  rw [String.toList_ofList]
  rcases isInteger_cases h with ⟨c, rest, rfl, hc, hrest⟩ | ⟨base, mark, rest, rfl, hmark, -, hrest⟩
  · have hne : c ≠ '_' := by
      rintro rfl
      revert hc
      decide
    have hdigits : ∀ d ∈ (c :: rest).filter (· != '_'), Text.isDigit d :=
      filter_underscore (forall_mem_cons.mpr ⟨Or.inl hc, hrest⟩)
    have hnil : (c :: rest).filter (· != '_') ≠ [] := by simp [hne]
    generalize (c :: rest).filter (· != '_') = digits at hdigits hnil
    have hmarked : isMarked digits = false := by
      unfold isMarked
      split
      · next mark others =>
        have hmark := hdigits mark (by simp)
        have hmarks : ∀ m ∈ ['x', 'X', 'b', 'B', 'o', 'O'], Text.isDigit m = false := by
          -- the list is opened first: characters are finitely many, and `decide` would try them all
          simp only [forall_mem_cons, not_mem_nil, false_imp_iff, implies_true]
          decide
        rw [contains_eq_mem, decide_eq_false_iff_not]
        exact fun hmem => by simp [hmarks mark hmem] at hmark
      · rfl
    have hoctal : (digits.length > 1 && digits.head? == some '0' &&
        digits.all fun c => 48 ≤ c.toNat && c.toNat ≤ 55) = isOctalNumeral digits := rfl
    simp only [hmarked, hoctal, Bool.false_eq_true, if_false]
    cases isOctalNumeral digits with
    | true => simp
    | false => simpa using exists_readDecimal_iff hnil hdigits
  · have hmarks : ∀ pair ∈ baseMarks, pair.2 ≠ '_' := by decide
    have hdigits : ∀ c ∈ rest.filter (· != '_'), ∃ d < base, hexValue? c = some d := by
      intro c hc
      obtain ⟨hmem, hne⟩ := mem_filter.mp hc
      exact (hrest c hmem).resolve_right (by simpa using hne)
    have hfilter : ('0' :: mark :: rest).filter (· != '_') =
        '0' :: mark :: rest.filter (· != '_') := by
      simp [hmarks _ hmark]
    simp only [hfilter, isMarked_of_baseMark hmark, if_true]
    rw [exists_readMarked_iff hmark hdigits]
    simp

/-! ### Decimals -/

/-- A sign that may be missing. -/
def IsSign (cs : List Char) : Prop := cs = [] ∨ cs = ['+'] ∨ cs = ['-']

/-- An exponent that may be missing, with digits of the given class. -/
def IsPower (isDigit : Char → Bool) (cs : List Char) : Prop :=
  cs = [] ∨ ∃ mark sign digits, cs = mark :: (sign ++ digits) ∧ (mark = 'e' ∨ mark = 'E') ∧
    IsSign sign ∧ digits ≠ [] ∧ ∀ c ∈ digits, isDigit c

/-- The parts of an unsigned decimal with digits of the given class. -/
structure DecimalParts (isDigit : Char → Bool) (whole point fraction power : List Char) : Prop where
  someDigit : whole ++ fraction ≠ []
  wholeDigits : ∀ c ∈ whole, isDigit c
  fractionDigits : ∀ c ∈ fraction, isDigit c
  pointed : point = ['.'] ∨ point = [] ∧ fraction = []
  isPower : IsPower isDigit power

theorem ofDecimal_ne_nan (negative : Bool) (digits count : Nat) (power : Int) :
    Double.ofDecimal negative digits count power ≠ .nan := by
  have hquotient : ∀ num den, Double.ofQuotient negative num den ≠ .nan := by
    intro num den
    unfold Double.ofQuotient Double.zero
    grind
  unfold Double.ofDecimal Double.zero
  grind

theorem DecimalParts.map {whole point fraction power : List Char}
    (h : DecimalParts Text.isDigit whole point fraction power) :
    DecimalParts Char.isDigit (whole.map plainChar) point (fraction.map plainChar)
      (power.map plainChar) where
  someDigit := by simpa using h.someDigit
  wholeDigits := by simpa using fun c hc => isDigit_plainChar (h.wholeDigits c hc)
  fractionDigits := by simpa using fun c hc => isDigit_plainChar (h.fractionDigits c hc)
  pointed := by simpa using h.pointed
  isPower := by
    rcases h.isPower with rfl | ⟨mark, sign, digits, rfl, hmark, hsign, hne, hdigits⟩
    · exact Or.inl rfl
    · refine Or.inr ⟨mark, sign, digits.map plainChar, ?_, hmark, hsign, by simpa using hne, ?_⟩
      · have hmark : plainChar mark = mark := by rcases hmark with rfl | rfl <;> decide
        have hsign : sign.map plainChar = sign := by rcases hsign with rfl | rfl | rfl <;> decide
        rw [map_cons, map_append, hmark, hsign]
      · simpa using fun c hc => isDigit_plainChar (hdigits c hc)

section
variable {whole point fraction power : List Char}
  (h : DecimalParts Char.isDigit whole point fraction power)
include h

theorem DecimalParts.of_mem (hc : c ∈ whole ++ point ++ fraction ++ power) :
    c.isDigit ∨ c ∈ ['.', 'e', 'E', '+', '-'] := by
  simp only [mem_append] at hc
  rcases hc with ((hc | hc) | hc) | hc
  · exact Or.inl (h.wholeDigits c hc)
  · rcases h.pointed with rfl | ⟨rfl, -⟩
    · exact Or.inr (by simp_all)
    · cases hc
  · exact Or.inl (h.fractionDigits c hc)
  · rcases h.isPower with rfl | ⟨mark, sign, digits, rfl, hmark, hsign, -, hdigits⟩
    · cases hc
    · rcases mem_cons.mp hc with rfl | hc
      · rcases hmark with rfl | rfl <;> simp
      · rcases mem_append.mp hc with hc | hc
        · rcases hsign with rfl | rfl | rfl <;> simp_all
        · exact Or.inl (hdigits c hc)

theorem DecimalParts.head : ∃ c rest, whole ++ point ++ fraction ++ power = c :: rest ∧
    (c.isDigit ∨ c = '.') := by
  cases whole with
  | cons c rest =>
    exact ⟨c, rest ++ point ++ fraction ++ power, by simp, Or.inl (h.wholeDigits c (by simp))⟩
  | nil =>
    rcases h.pointed with rfl | ⟨rfl, rfl⟩
    · exact ⟨'.', fraction ++ power, by simp, Or.inr rfl⟩
    · exact absurd rfl h.someDigit

theorem DecimalParts.exponent : ∃ n, exponent? power = some n := by
  rcases h.isPower with rfl | ⟨mark, sign, digits, rfl, hmark, hsign, hne, hdigits⟩
  · exact ⟨0, rfl⟩
  · have hsplit : ∃ negative, splitSign (sign ++ digits) = (negative, digits) := by
      rcases hsign with rfl | rfl | rfl
      · exact ⟨false, splitSign_digits hdigits⟩
      · exact ⟨false, rfl⟩
      · exact ⟨true, rfl⟩
    obtain ⟨negative, hsplit⟩ := hsplit
    have hmark : (mark == 'e' || mark == 'E') := by rcases hmark with rfl | rfl <;> rfl
    unfold exponent?
    simp only [hmark, if_true, hsplit, digitsValue?_digits hdigits]
    cases digits with
    | nil => exact absurd rfl hne
    | cons c rest => exact ⟨_, rfl⟩

theorem DecimalParts.unsignedDecimal (negative : Bool) :
    ∃ d, unsignedDecimal? negative (whole ++ point ++ fraction ++ power) = some d ∧ d ≠ .nan := by
  have hspan : ∀ ds rest : List Char, (∀ c ∈ ds, c.isDigit) →
      (∀ c ∈ rest.head?, c.isDigit = false) →
      (ds ++ rest).takeWhile Char.isDigit = ds ∧ (ds ++ rest).dropWhile Char.isDigit = rest := by
    intro ds rest hds hrest
    rw [takeWhile_append_of_pos hds, dropWhile_append_of_pos hds]
    cases rest with
    | nil => simp
    | cons c rest =>
      have hc := hrest c rfl
      simp [hc]
  have hpower : ∀ c ∈ power.head?, c.isDigit = false ∧ c ≠ '.' := by
    rcases h.isPower with rfl | ⟨mark, sign, digits, rfl, hmark, -⟩
    · simp
    · rintro _ ⟨⟩
      rcases hmark with rfl | rfl <;> decide
  have hdigits : ∀ c ∈ whole ++ fraction, c.isDigit := by
    simpa [or_imp, forall_and] using And.intro h.wholeDigits h.fractionDigits
  obtain ⟨n, hn⟩ := h.exponent
  obtain ⟨c, cs, hcs⟩ := exists_cons_of_ne_nil h.someDigit
  have hvalue := digitsValue?_digits hdigits
  rw [hcs] at hvalue
  unfold unsignedDecimal?
  rcases h.pointed with rfl | ⟨rfl, rfl⟩
  · have hlist : whole ++ ['.'] ++ fraction ++ power = whole ++ '.' :: (fraction ++ power) := by
      simp
    obtain ⟨htake, hdrop⟩ := hspan whole ('.' :: (fraction ++ power)) h.wholeDigits
      (by rintro _ ⟨⟩; decide)
    obtain ⟨htake', hdrop'⟩ := hspan fraction power h.fractionDigits fun c hc => (hpower c hc).1
    simp only [hlist, htake, hdrop, htake', hdrop', hcs, hvalue, hn]
    exact ⟨_, rfl, ofDecimal_ne_nan _ _ _ _⟩
  · have hlist : whole ++ [] ++ [] ++ power = whole ++ power := by simp
    obtain ⟨htake, hdrop⟩ := hspan whole power h.wholeDigits fun c hc => (hpower c hc).1
    simp only [hlist, htake, hdrop]
    rw [append_nil] at hcs
    -- There is no point in front of the exponent.
    rcases h.isPower with rfl | ⟨mark, sign, digits, rfl, rfl | rfl, -⟩
    · simp [hcs, hvalue, hn, ofDecimal_ne_nan]
    · simp [hcs, hvalue, hn, ofDecimal_ne_nan]
    · simp [hcs, hvalue, hn, ofDecimal_ne_nan]

end

theorem dropUnderscores?_eq {last : Char} (hlast : last ≠ '_') (h : '_' ∉ cs) :
    dropUnderscores? last cs = some cs := by
  induction cs generalizing last with
  | nil => simp [dropUnderscores?, hlast]
  | cons c cs ih =>
    have hc : c ≠ '_' := by
      rintro rfl
      simp at h
    rw [dropUnderscores?]
    · simp [hlast, ih hc fun hmem => h (by simp [hmem])]
    · exact hc

theorem exists_readDouble? {sign whole point fraction power : List Char} (hsign : IsSign sign)
    (h : DecimalParts Text.isDigit whole point fraction power) :
    ∃ d, readDouble? (String.ofList (sign ++ (whole ++ point ++ fraction ++ power))) = some d ∧
      d ≠ .nan := by
  have hplain := h.map
  have hpoint : point.map plainChar = point := by
    rcases h.pointed with rfl | ⟨rfl, -⟩ <;> decide
  have hsignMap : sign.map plainChar = sign := by rcases hsign with rfl | rfl | rfl <;> decide
  have hmap : (sign ++ (whole ++ point ++ fraction ++ power)).map plainChar =
      sign ++ (whole.map plainChar ++ point ++ fraction.map plainChar ++ power.map plainChar) := by
    simp only [map_append, hpoint, hsignMap]
  generalize whole.map plainChar = whole' at hplain hmap
  generalize fraction.map plainChar = fraction' at hplain hmap
  generalize power.map plainChar = power' at hplain hmap
  have hchar : ∀ c ∈ sign ++ (whole' ++ point ++ fraction' ++ power'),
      isSpacing c = false ∧ c ≠ '_' := by
    have hsigns : ∀ c ∈ ['.', 'e', 'E', '+', '-'], isSpacing c = false ∧ c ≠ '_' := by
      simp only [forall_mem_cons, not_mem_nil, false_imp_iff, implies_true]
      decide
    intro c hc
    rcases mem_append.mp hc with hc | hc
    · rcases hsign with rfl | rfl | rfl
      · cases hc
      · exact hsigns c (by simp_all)
      · exact hsigns c (by simp_all)
    · rcases hplain.of_mem hc with hdigit | hc
      · refine ⟨isSpacing_digit hdigit, ?_⟩
        rintro rfl
        revert hdigit
        decide
      · exact hsigns c hc
  have hread : plain (String.ofList (sign ++ (whole ++ point ++ fraction ++ power))) =
      sign ++ (whole' ++ point ++ fraction' ++ power') := by
    rw [← hmap]
    refine plain_eq_map fun c hc => (hchar _ ?_).1
    rw [← hmap]
    exact mem_map_of_mem hc
  have hunderscores := dropUnderscores?_eq (show '\x00' ≠ '_' by decide) fun hmem =>
    (hchar '_' hmem).2 rfl
  obtain ⟨c, rest, hcons, hc⟩ := hplain.head
  obtain ⟨negative, hsplit⟩ :
      ∃ negative, splitSign (sign ++ (c :: rest)) = (negative, c :: rest) := by
    rcases hsign with rfl | rfl | rfl
    · refine ⟨false, ?_⟩
      unfold splitSign
      split
      · next heq =>
        cases heq
        exact absurd hc (by decide)
      · next heq =>
        cases heq
        exact absurd hc (by decide)
      · rfl
    · exact ⟨false, rfl⟩
    · exact ⟨true, rfl⟩
  -- A word for infinity or for no number starts with a letter.
  have hword : ∀ d word, d.isAlpha →
      String.ofList ((c :: rest).map Char.toLower) ≠ String.ofList (d :: word) := by
    intro d word hd heq
    have hhead : c.toLower = d := by
      have := congrArg String.toList heq
      simp only [String.toList_ofList, map_cons, List.cons.injEq] at this
      exact this.1
    have hlower : c.toLower.isAlpha = false := by
      rcases hc with hc | rfl
      · have hascii : ∀ n < 128, (Char.ofNat n).isDigit →
            (Char.ofNat n).toLower.isAlpha = false := by decide
        have hrange := isDigit_iff.mp hc
        have := hascii c.toNat (by omega)
        rw [Char.ofNat_toNat] at this
        exact this hc
      · decide
    rw [hhead, hd] at hlower
    cases hlower
  obtain ⟨d, hd, hnan⟩ := hplain.unsignedDecimal negative
  refine ⟨d, ?_, hnan⟩
  rw [hcons] at hread hunderscores hd
  have hinf := hword 'i' ['n', 'f'] (by decide)
  have hinfinity := hword 'i' ['n', 'f', 'i', 'n', 'i', 't', 'y'] (by decide)
  have hnanWord := hword 'n' ['a', 'n'] (by decide)
  have hne : ¬ (String.ofList ((c :: rest).map Char.toLower) == "inf" ||
      String.ofList ((c :: rest).map Char.toLower) == "infinity") := by
    simpa using And.intro hinf hinfinity
  have hne' : ¬ (String.ofList ((c :: rest).map Char.toLower) == "nan") := by
    simpa using hnanWord
  obtain ⟨x, xs, hx⟩ := exists_cons_of_ne_nil (show sign ++ c :: rest ≠ [] by simp)
  rw [hx] at hread hunderscores hsplit
  unfold readDouble?
  rw [hread]
  simp only [hunderscores, hsplit, Option.bind_eq_bind, Option.bind_some]
  rw [if_neg hne, if_neg hne', hd]

theorem filter_digits (h : ∀ c ∈ cs, Text.isDigit c) : cs.filter (· != '_') = cs := by
  refine filter_eq_self.mpr fun c hc => ?_
  have hne : c ≠ '_' := by
    rintro rfl
    exact absurd (h _ hc) (by decide)
  simpa using hne

theorem IsPower.filter_eq (h : IsPower Text.isDigit cs) : cs.filter (· != '_') = cs := by
  rcases h with rfl | ⟨mark, sign, digits, rfl, hmark, hsign, -, hdigits⟩
  · rfl
  · have hmark : (mark != '_') := by rcases hmark with rfl | rfl <;> rfl
    have hsign : sign.filter (· != '_') = sign := by rcases hsign with rfl | rfl | rfl <;> rfl
    rw [filter_cons, if_pos hmark, filter_append, hsign, filter_digits hdigits]

end Numeral

/-! ### Literals in values -/

namespace Evaluation

theorem exists_sign (cs : List Char) : ∃ sign, IsSign sign ∧ cs = sign ++ dropSign cs := by
  unfold dropSign
  split
  · exact ⟨['+'], Or.inr (Or.inl rfl), rfl⟩
  · exact ⟨['-'], Or.inr (Or.inr rfl), rfl⟩
  · exact ⟨[], Or.inl rfl, rfl⟩

theorem isPower_of_isExponent (h : isExponent cs) : IsPower Text.isDigit cs := by
  unfold isExponent at h
  split at h
  · exact Or.inl rfl
  · next mark rest =>
    simp only [Bool.and_eq_true, Bool.or_eq_true, beq_iff_eq, Bool.not_eq_true',
      isEmpty_eq_false_iff, all_eq_true] at h
    obtain ⟨sign, hsign, hrest⟩ := exists_sign rest
    exact Or.inr ⟨mark, sign, dropSign rest, by rw [← hrest], h.1.1, hsign, h.1.2, h.2⟩

theorem of_mem_takeWhile {p : Char → Bool} (h : c ∈ cs.takeWhile p) : p c :=
  all_eq_true.mp all_takeWhile c h

theorem filter_span (p q : Char → Bool) (cs : List Char) :
    cs.filter p = (cs.takeWhile q).filter p ++ (cs.dropWhile q).filter p := by
  rw [← filter_append, takeWhile_append_dropWhile]

theorem filter_fraction (h : isExponent (cs.dropWhile Text.isDigit)) :
    cs.filter (· != '_') = cs.takeWhile Text.isDigit ++ cs.dropWhile Text.isDigit := by
  rw [filter_span _ Text.isDigit cs, filter_digits fun c hc => of_mem_takeWhile hc,
    (isPower_of_isExponent h).filter_eq]

theorem exists_decimalParts (h : isDecimal cs) :
    ∃ whole point fraction power, cs.filter (· != '_') = whole ++ point ++ fraction ++ power ∧
      DecimalParts Text.isDigit whole point fraction power := by
  unfold isDecimal at h
  split at h
  · next rest =>
    rw [Bool.and_eq_true] at h
    refine ⟨[], ['.'], rest.takeWhile Text.isDigit, rest.dropWhile Text.isDigit, ?_, ?_⟩
    · simpa using filter_fraction h.2
    · refine ⟨?_, nofun, fun c hc => of_mem_takeWhile hc, Or.inl rfl, isPower_of_isExponent h.2⟩
      cases rest with
      | nil => simp at h
      | cons c rest => simp_all
  · next c rest _ =>
    rw [Bool.and_eq_true] at h
    obtain ⟨hc, h⟩ := h
    have hne : c ≠ '_' := by
      rintro rfl
      exact absurd hc (by decide)
    generalize hbehind : rest.dropWhile (fun d => Text.isDigit d || d == '_') = behind at h
    generalize hrun : (rest.takeWhile fun d => Text.isDigit d || d == '_').filter (· != '_') = run
    have hdigits : ∀ d ∈ c :: run, Text.isDigit d := by
      refine forall_mem_cons.mpr ⟨hc, fun d hd => ?_⟩
      refine filter_underscore (fun d hd => ?_) d (hrun ▸ hd)
      simpa using of_mem_takeWhile hd
    have hfilter : (c :: rest).filter (· != '_') = c :: run ++ behind.filter (· != '_') := by
      rw [filter_cons, if_pos (by simpa using hne),
        filter_span _ (fun d => Text.isDigit d || d == '_') rest, hrun, hbehind, cons_append]
    split at h
    · next fraction =>
      refine ⟨c :: run, ['.'], fraction.takeWhile Text.isDigit, fraction.dropWhile Text.isDigit, ?_,
        by simp, hdigits, fun c hc => of_mem_takeWhile hc, Or.inl rfl, isPower_of_isExponent h⟩
      rw [hfilter]
      simpa using filter_fraction h
    · refine ⟨c :: run, [], [], behind, ?_, by simp, hdigits, nofun, Or.inr ⟨rfl, rfl⟩,
        isPower_of_isExponent h⟩
      rw [hfilter, (isPower_of_isExponent h).filter_eq]
      simp
  · cases h

theorem exists_readDouble_of_isDecimal (h : isDecimal (dropSign cs)) :
    ∃ d, readDouble? (String.ofList (cs.filter (· != '_'))) = some d ∧ d ≠ .nan := by
  obtain ⟨sign, hsign, hcs⟩ := exists_sign cs
  obtain ⟨whole, point, fraction, power, hfilter, hparts⟩ := exists_decimalParts h
  have hkeep : sign.filter (· != '_') = sign := by rcases hsign with rfl | rfl | rfl <;> rfl
  rw [hcs, filter_append, hkeep, hfilter]
  exact exists_readDouble? hsign hparts

/-- The integer literal that a value is, without its sign, if it is one. -/
def valueLiteral? (text : String) : Option String :=
  let cs := dropSign (dropParentheses (Text.trimBlanks text.toList))
  if isInteger cs then some (String.ofList cs) else none

/-- **A value is evaluated**, unless it is an integer literal that lacks a value. -/
theorem exists_ofText {text : Option String} {marker : String}
    (h : ∀ t ∈ text, ∀ l ∈ valueLiteral? t, lacksValue l = false) :
    ∃ v, ofText text marker = .ok v := by
  unfold ofText
  split
  · exact ⟨_, rfl⟩
  · next t =>
    have hvalue := h t rfl
    unfold valueLiteral? at hvalue
    generalize dropParentheses (Text.trimBlanks t.toList) = cs at hvalue ⊢
    simp only at hvalue ⊢
    split
    · exact ⟨_, rfl⟩
    split
    · exact ⟨_, rfl⟩
    split
    · exact ⟨_, rfl⟩
    unfold ofAtom
    simp only
    split
    · next hinteger =>
      obtain ⟨n, hn⟩ := (exists_readLiteral_iff hinteger).mpr (hvalue _ (if_pos hinteger))
      rw [hn]
      exact ⟨_, rfl⟩
    split
    · next hdecimal =>
      obtain ⟨d, hd, -⟩ := exists_readDouble_of_isDecimal hdecimal
      rw [hd]
      exact ⟨_, rfl⟩
    split
    · exact ⟨_, rfl⟩
    split
    · exact ⟨_, rfl⟩
    split
    · exact ⟨_, rfl⟩
    · exact ⟨_, rfl⟩

theorem word?_zero (cs : List Char) : word? (String.ofList ('0' :: cs)) = none := by
  have hlower : ∃ ds, (Text.lower (String.ofList ('0' :: cs))).toList = '0' :: ds := by
    rw [Text.lower, String.toList_ofList, String.toList_ofList]
    exact ⟨_, rfl⟩
  obtain ⟨ds, hds⟩ := hlower
  rw [word?, Name.bare_of_head? (by rw [hds]; simp)]
  split
  · next heq => rw [heq] at hds; simp at hds
  · next heq => rw [heq] at hds; simp at hds
  · next heq => rw [heq] at hds; simp at hds
  · rfl

/-! ### Powers of sixteen -/

/-- The hexadecimal literal of a power of sixteen. -/
def powerLiteral (k : Nat) : List Char := '0' :: 'x' :: '1' :: List.replicate k '0'

section
variable {k : Nat}

theorem hexValue?_zeros : ∀ c ∈ '1' :: List.replicate k '0', ∃ d < 16, hexValue? c = some d := by
  refine forall_mem_cons.mpr ⟨⟨1, by decide⟩, fun c hc => ?_⟩
  obtain rfl := eq_of_mem_replicate hc
  exact ⟨0, by decide⟩

theorem digitsValue?_zeros (acc : Nat) :
    digitsValue? 16 acc (List.replicate k '0') = some (acc * 16 ^ k) := by
  induction k generalizing acc with
  | zero => simp [digitsValue?]
  | succ k ih =>
    have hzero : hexValue? '0' = some 0 := by decide
    rw [replicate_succ, digitsValue?, hzero]
    simp [ih, Nat.pow_succ, Nat.mul_assoc, Nat.mul_comm 16]

theorem isInteger_powerLiteral : isInteger (powerLiteral k) := by
  have hdigits : isDigitRun (hexValue? · |>.isSome) ('1' :: List.replicate k '0') := by
    simp only [isDigitRun, Bool.and_eq_true, all_eq_true]
    refine ⟨rfl, fun c hc => ?_⟩
    obtain ⟨d, -, hd⟩ := hexValue?_zeros c hc
    simp [hd]
  simp [powerLiteral, isInteger, hdigits]

theorem readLiteral_powerLiteral :
    readLiteral (String.ofList (powerLiteral k)) = .ok ((16 ^ k : Nat) : Int) := by
  have hfilter : (powerLiteral k).filter (· != '_') = powerLiteral k := by
    simp [powerLiteral]
  rw [readLiteral, String.toList_ofList, hfilter]
  refine readMarked_eq (by decide : (16, 'x') ∈ baseMarks) hexValue?_zeros (by simp) ?_
  exact (digitsValue?_zeros 1).trans (by rw [Nat.one_mul])

theorem ofText_powerLiteral {marker : String} (hmarker : marker.toList.head? ≠ some '0') :
    ofText (some (String.ofList (powerLiteral k))) marker =
      .ok (.literal (.int ((16 ^ k : Nat) : Int))) := by
  have hself : dropParentheses (Text.trimBlanks (powerLiteral k)) = powerLiteral k := by
    have hblank : ∀ c ∈ powerLiteral k, Text.isBlank c = false := by
      simp only [powerLiteral, forall_mem_cons]
      refine ⟨by decide, by decide, by decide, fun c hc => ?_⟩
      rw [eq_of_mem_replicate hc]
      decide
    rw [Text.trimBlanks, Text.trimBy_eq_self hblank]
    simp [dropParentheses, powerLiteral]
  have hnot : String.ofList (powerLiteral k) ≠ marker := by
    rintro rfl
    rw [String.toList_ofList] at hmarker
    exact hmarker rfl
  simp only [ofText, String.toList_ofList, hself, beq_false_of_ne hnot,
    show word? (String.ofList (powerLiteral k)) = none from word?_zero _,
    show (powerLiteral k).isEmpty = false from rfl]
  rw [ofAtom, show dropSign (powerLiteral k) = powerLiteral k from rfl,
    if_pos isInteger_powerLiteral, readLiteral_powerLiteral]
  rfl

theorem writableBound_le_pow : writableBound ≤ 16 ^ maxDecimalDigits := by
  unfold writableBound
  generalize maxDecimalDigits = k
  exact Nat.pow_le_pow_left (by decide) k

end

end Evaluation

end StubCatalog
