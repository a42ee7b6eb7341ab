import StubCatalog.Name
import StubCatalog.Text.Basic
import StubCatalog.Text.Word

/-! # Characters of names

A character of a name is no blank (`isBlank_of_isWord`). The parts of a path can be written in lower
case on their own (`lower_append_backslash`), although the lower-case form of a character may depend
on its neighbours; so keys can be told from namespace and short name (`symbolKey_eq_join`,
`constantKey_eq_join`). -/

namespace StubCatalog.Text

open List

variable {cs : List Char} {c sep : Char}

theorem forall_ascii {P : Char → Prop} (h : ∀ n < 128, P (Char.ofNat n)) :
    ∀ c : Char, c.toNat < 128 → P c := by
  intro c hc
  rw [← Char.ofNat_toNat c]
  exact h c.toNat hc

theorem inRanges_eq (table : Array (Nat × Nat)) (n : Nat) : inRanges table n =
      table.toList.any fun range => decide (range.1 ≤ n) && decide (n ≤ range.2) := by
  rw [inRanges, ← Array.any_toList]

theorem inRanges_iff {table : Array (Nat × Nat)} {n : Nat} :
    inRanges table n ↔ ∃ range ∈ table.toList, range.1 ≤ n ∧ n ≤ range.2 := by
  rw [inRanges_eq, any_eq_true]
  simp only [Bool.and_eq_true, decide_eq_true_eq]

theorem trimBy_eq_self {p : Char → Bool} (h : ∀ c ∈ cs, p c = false) : trimBy p cs = cs := by
  have hdrop : ∀ xs : List Char, (∀ c ∈ xs, p c = false) → xs.dropWhile p = xs := by
    rintro (_ | ⟨x, xs⟩) hxs
    · rfl
    · simp [hxs x (by simp)]
  rw [trimBy, dropEndWhile, hdrop cs h, hdrop _ fun c hc => h c (mem_reverse.mp hc),
    reverse_reverse]

theorem blankRanges_apart : ∀ b ∈ blankRanges.toList, ∀ w ∈ wordRanges.toList,
    b.2 < w.1 ∨ w.2 < b.1 := by
  decide +kernel

theorem isBlank_of_isWord (h : isWord c) : isBlank c = false := by
  by_cases hc : c.toNat < 128
  · revert h
    refine forall_ascii (P := fun c => isWord c → isBlank c = false) ?_ c hc
    decide
  · unfold isWord at h
    rw [if_neg hc] at h
    unfold isBlank
    simp only
    rw [if_neg hc, ← Bool.not_eq_true, inRanges_iff]
    rintro ⟨b, hb, hb1, hb2⟩
    obtain ⟨w, hw, hw1, hw2⟩ := inRanges_iff.mp h
    rcases blankRanges_apart b hb w hw with hlt | hlt <;> omega

/-- The blank characters. -/
def blanks : List Char :=
  [' ', '\t', '\n', '\x0b', '\x0c', '\r', '\x1c', '\x1d', '\x1e', '\x1f', '\x85', '\xa0', '\u1680',
    '\u2000', '\u2001', '\u2002', '\u2003', '\u2004', '\u2005', '\u2006', '\u2007', '\u2008',
    '\u2009', '\u200a', '\u2028', '\u2029', '\u202f', '\u205f', '\u3000']

theorem mem_blanks (h : isBlank c) : c ∈ blanks := by
  have hcode : c.toNat ∈ blanks.map Char.toNat := by
    simp only [isBlank] at h
    split at h
    · simp only [Bool.or_eq_true, Bool.and_eq_true, decide_eq_true_eq] at h
      simp [blanks]
      omega
    · obtain ⟨range, hrange, hlow, hhigh⟩ := inRanges_iff.mp h
      simp only [blankRanges, mem_cons, not_mem_nil, or_false] at hrange
      rcases hrange with rfl | rfl | rfl | rfl | rfl | rfl | rfl | rfl
      all_goals simp [blanks] at hlow hhigh ⊢; omega
  obtain ⟨d, hd, heq⟩ := mem_map.mp hcode
  rwa [← Char.toNat_inj.mp heq]

theorem isWord_of_isNameStart (h : isNameStart c) : isWord c :=
  (Bool.and_eq_true_iff.mp h).1

theorem isDigit_of_isNameStart (h : isNameStart c) : isDigit c = false := by
  have := (Bool.and_eq_true_iff.mp h).2
  simpa using this

/-! ### Lower case -/

theorem toList_lower_backslash (s : String) : ∃ cs, (lower ("\\" ++ s)).toList = '\\' :: cs := by
  refine ⟨lowerFrom ['\\'] s.toList, ?_⟩
  rw [lower, String.toList_ofList, String.toList_append]
  rfl

/-- A backslash has no case, and it is not skipped either. -/
theorem nearCased_append_backslash (cs ds : List Char) :
    nearCased (cs ++ '\\' :: ds) = nearCased cs := by
  obtain ⟨hskipped, hcased⟩ : inRanges caseIgnorableRanges '\\'.toNat = false ∧
      inRanges casedRanges '\\'.toNat = false := by
    rw [inRanges_eq, inRanges_eq]
    decide +kernel
  unfold nearCased
  generalize inRanges caseIgnorableRanges = skipped at hskipped
  generalize inRanges casedRanges = cased at hcased
  induction cs with
  | nil =>
    rw [nil_append, dropWhile_cons_of_neg (by rw [hskipped]; exact Bool.false_ne_true)]
    exact hcased
  | cons c cs ih =>
    rw [cons_append, dropWhile_cons, dropWhile_cons]
    cases skipped c.toNat with
    | true => exact ih
    | false => rfl

theorem lowerFrom_before_backslash (before before' cs : List Char) :
    lowerFrom (before ++ '\\' :: before') cs = lowerFrom before cs := by
  induction cs generalizing before with
  | nil => rfl
  | cons c cs ih =>
    unfold lowerFrom
    rw [nearCased_append_backslash, ← cons_append, ih]

theorem lowerFrom_append_backslash (before cs ds : List Char) :
    lowerFrom before (cs ++ '\\' :: ds) = lowerFrom before cs ++ '\\' :: lowerFrom [] ds := by
  induction cs generalizing before with
  | nil => exact congrArg ('\\' :: ·) (lowerFrom_before_backslash [] before ds)
  | cons c cs ih =>
    rw [cons_append, lowerFrom, lowerFrom, nearCased_append_backslash, ih, append_assoc]

theorem lower_append_backslash (s t : String) :
    lower (s ++ "\\" ++ t) = lower s ++ "\\" ++ lower t := by
  rw [← String.toList_inj]
  simp only [lower, String.toList_append, String.toList_ofList, append_assoc]
  exact lowerFrom_append_backslash [] s.toList t.toList

theorem lower_eq_empty_iff {s : String} : lower s = "" ↔ s = "" := by
  rw [← String.toList_inj, ← String.toList_inj, lower, String.toList_ofList]
  cases s.toList with
  | nil => simp [lowerFrom]
  | cons c cs =>
    unfold lowerFrom
    simp only [String.toList_empty, append_eq_nil_iff, reduceCtorEq, iff_false, not_and]
    intro h
    split at h
    · cases h
    · split at h <;> cases h

/-! ### Fields between separators -/

theorem fieldsBy_ne_nil (p : Char → Bool) (cs : List Char) : fieldsBy p cs ≠ [] := by
  cases cs with
  | nil => simp [fieldsBy]
  | cons c cs =>
    unfold fieldsBy
    split
    · simp
    · split <;> simp

theorem fields_ne_nil (sep : Char) (cs : List Char) : fields sep cs ≠ [] :=
  fieldsBy_ne_nil _ cs

theorem fields_of_notMem (h : sep ∉ cs) : fields sep cs = [cs] := by
  induction cs with
  | nil => rfl
  | cons c cs ih =>
    rw [mem_cons, not_or] at h
    have hrest : fieldsBy (· == sep) cs = [cs] := ih h.2
    simp [fields, fieldsBy, hrest, Ne.symm h.1]

theorem fields_append (h : sep ∉ cs) (rest : List Char) :
    fields sep (cs ++ sep :: rest) = cs :: fields sep rest := by
  induction cs with
  | nil => simp [fields, fieldsBy]
  | cons c cs ih =>
    rw [mem_cons, not_or] at h
    have hrest : fieldsBy (· == sep) (cs ++ sep :: rest) = cs :: fields sep rest := ih h.2
    simp [fields, fieldsBy, hrest, Ne.symm h.1]

theorem eq_of_fields : ∀ {field : List Char}
    {others : List (List Char)}, fields sep cs = field :: others →
      cs = field ++ others.flatMap (sep :: ·) := by
  induction cs with
  | nil =>
    intro field others h
    simp only [fields, fieldsBy, List.cons.injEq] at h
    obtain ⟨rfl, rfl⟩ := h
    rfl
  | cons c cs ih =>
    intro field others h
    obtain ⟨first, rest, hrest⟩ := exists_cons_of_ne_nil (fields_ne_nil sep cs)
    have hcs := ih hrest
    unfold fields at hrest h
    unfold fieldsBy at h
    rw [hrest] at h
    split at h
    · next hc =>
      cases h
      rw [beq_iff_eq.mp hc, hcs]
      rfl
    · cases h
      rw [hcs]
      rfl

end StubCatalog.Text

namespace StubCatalog.Name

open List

theorem head?_bare (name : String) : (bare name).toList.head? ≠ some '\\' := by
  rw [bare, String.toList_ofList]
  intro h
  have := head?_dropWhile_not (· == '\\') name.toList
  rw [h] at this
  simp at this

theorem bare_of_head? {name : String} (h : name.toList.head? ≠ some '\\') : bare name = name := by
  rw [bare, ← String.toList_inj, String.toList_ofList]
  cases hcs : name.toList with
  | nil => rfl
  | cons c cs =>
    rw [hcs, head?_cons] at h
    have hc : ¬ c = '\\' := fun e => h (by rw [e])
    simp [hc]

theorem bare_bare (name : String) : bare (bare name) = bare name := bare_of_head? (head?_bare name)

theorem bare_backslash {name : String} (h : name.toList.head? ≠ some '\\') :
    bare ("\\" ++ name) = name := by
  have hbare : bare ("\\" ++ name) = bare name := by rw [bare, bare, String.toList_append]; rfl
  rw [hbare, bare_of_head? h]

/-! ### Namespaces and short names -/

theorem splitLast_cases (path : List Char) : splitLast path = ([], path) ∨
      ∃ space short, splitLast path = (space, short) ∧ path = space ++ '\\' :: short := by
  have hpath : path = (path.reverse.dropWhile (· != '\\')).reverse ++
      (path.reverse.takeWhile (· != '\\')).reverse := by
    rw [← reverse_append, takeWhile_append_dropWhile, reverse_reverse]
  have hhead := head?_dropWhile_not (· != '\\') path.reverse
  unfold splitLast
  generalize (path.reverse.takeWhile (· != '\\')).reverse = short at hpath
  cases hrest : path.reverse.dropWhile (· != '\\') with
  | nil =>
    left
    rw [hrest] at hpath
    simp [hpath]
  | cons c rest =>
    right
    rw [hrest] at hpath hhead
    obtain rfl : c = '\\' := by simpa using hhead
    have hspace : path = rest.reverse ++ '\\' :: short := by simpa using hpath
    refine ⟨rest.reverse, short, ?_, hspace⟩
    have hlength : path.length - short.length - 1 = rest.reverse.length := by
      rw [hspace, length_append, length_cons]
      omega
    show (path.take (path.length - short.length - 1), short) = _
    rw [hlength, hspace, take_left]

theorem join_split (name : String) : join (split name).1 (split name).2 = bare name := by
  unfold split
  have hbare := head?_bare name
  rcases splitLast_cases (bare name).toList with hsplit | ⟨space, short, hsplit, hpath⟩
  · rw [hsplit]
    simp [join]
  · rw [hsplit]
    cases space with
    | nil => simp [hpath] at hbare
    | cons c cs =>
      rw [← String.toList_inj, hpath, join, if_neg]
      · simp
      · simp [← String.toList_inj]

theorem lower_join (space name : String) :
    Text.lower (join space name) = join (Text.lower space) (Text.lower name) := by
  unfold join
  by_cases h : space = ""
  · simp [h, Text.lower_eq_empty_iff]
  · simp [h, Text.lower_eq_empty_iff, Text.lower_append_backslash]

theorem symbolKey_eq_join (name : String) :
    symbolKey name = join (Text.lower (split name).1) (Text.lower (split name).2) := by
  rw [symbolKey, ← join_split, lower_join]

theorem constantKey_eq_join (name : String) :
    constantKey name = join (Text.lower (split name).1) (split name).2 := by
  unfold constantKey join
  by_cases h : (split name).1 = ""
  · simp [h, Text.lower_eq_empty_iff]
  · simp [h, Text.lower_eq_empty_iff]

end StubCatalog.Name
