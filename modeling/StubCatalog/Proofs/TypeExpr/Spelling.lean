import StubCatalog.Proofs.TypeExpr.Reading
import StubCatalog.TypeExpr.Written

/-! # Spelling of names and numbers

How class names, which are marked with a backslash if they would read as a built-in type
(`isReserved_classText`), and integers (`exists_isNumber`) are cut and read. -/

namespace StubCatalog.TypeExpr

open List Reading

variable {name : String}

/-! ### Reserved words -/

theorem head?_reserved : ∀ word ∈ Keyword.builtins ++ Keyword.aliases.map Prod.fst ++
    Keyword.callables.map Prod.fst, word.toList.head? ≠ some '\\' := by
  decide

theorem lookup_eq_none_of_notMem {words : List (String × String)} {word : String}
    (h : word ∉ words.map Prod.fst) : words.lookup word = none := by
  induction words with
  | nil => rfl
  | cons pair words ih =>
    simp only [map_cons, mem_cons, not_or] at h
    rw [lookup_cons, beq_eq_false_iff_ne.mpr h.1]
    exact ih h.2

theorem isReserved_backslash (name : String) : Keyword.isReserved ("\\" ++ name) = false := by
  obtain ⟨cs, hcs⟩ := Text.toList_lower_backslash name
  have hne : Text.lower ("\\" ++ name) ∉ Keyword.builtins ++ Keyword.aliases.map Prod.fst ++
      Keyword.callables.map Prod.fst := by
    intro hmem
    refine head?_reserved _ hmem ?_
    rw [hcs, head?_cons]
  simp only [mem_append, not_or] at hne
  obtain ⟨⟨hbuiltin, halias⟩, hcallable⟩ := hne
  simp [Keyword.isReserved, hbuiltin, lookup_eq_none_of_notMem halias,
    lookup_eq_none_of_notMem hcallable]

theorem isReserved_classText (name : String) : Keyword.isReserved (classText name) = false := by
  unfold classText
  split
  · exact isReserved_backslash name
  · next h => simpa using h

section Reserved
variable {word : String} (h : Keyword.isReserved word = false)
include h

theorem builtin_of_isReserved : builtin word = Text.lower word := by
  simp only [Keyword.isReserved, Bool.or_eq_false_iff, Option.isSome_eq_false_iff,
    Option.isNone_iff_eq_none] at h
  rw [builtin, h.1.2, Option.getD_none]

theorem builtins_of_isReserved : Keyword.builtins.contains (builtin word) = false := by
  rw [builtin_of_isReserved h]
  simp only [Keyword.isReserved, Bool.or_eq_false_iff] at h
  exact h.1.1

theorem generics_of_isReserved : Keyword.generics.contains (builtin word) = false := by
  have hbuiltin := builtins_of_isReserved h
  rw [← Bool.not_eq_true, contains_iff_mem] at hbuiltin ⊢
  have hsub : ∀ g ∈ Keyword.generics, g ∈ Keyword.builtins := by decide
  exact fun hmem => hbuiltin (hsub _ hmem)

theorem lower_ne_int_of_isReserved : Text.lower word ≠ "int" := by
  intro hint
  have hbuiltin := builtins_of_isReserved h
  rw [builtin_of_isReserved h, hint] at hbuiltin
  exact absurd hbuiltin (by decide)

end Reserved

/-! ### Names -/

/-- The text is cut off as one name. -/
def IsNameText (text : String) : Prop :=
  ∀ rest, isBoundary rest → Leads .identifier text.toList rest

theorem isNameText_of_isClassName (h : isClassName name) : IsNameText name :=
  fun _ hrest => leads_name h hrest

theorem isNameText_classText (h : isClassName name) : IsNameText (classText name) := by
  intro rest hrest
  unfold classText
  split
  · rw [String.toList_append]
    exact leads_markedName h hrest
  · exact leads_name h hrest

theorem bare_classText (h : isClassName name) : Name.bare (classText name) = name := by
  unfold classText
  split
  · exact Name.bare_backslash (head?_ne_of_isClassName h)
  · exact Name.bare_of_head? (head?_ne_of_isClassName h)

theorem template?_eq_none {r : Reading} (hr : r.scope = {}) (name : String) :
    r.template? name = none := by
  unfold template?
  split
  · rfl
  · rw [hr]
    rfl

theorem resolveClass_classText {r : Reading} (hr : r.scope = {}) (h : isClassName name) :
    r.scope.resolveClass (classText name) = name := by
  rw [hr]
  exact bare_classText h

/-! ### Numbers -/

/-- The tokens of an integer: its digits, with a minus sign in front if it is negative. -/
def IsNumber (n : Int) (ts : List Token) : Prop :=
  (∃ t, ts = [t] ∧ t.kind = .int ∧ Numeral.readLiteral t.value = .ok n) ∨
    ∃ t u m, ts = [t, u] ∧ t.kind = .minus ∧ u.kind = .int ∧
      Numeral.readLiteral u.value = .ok m ∧ n = -m

theorem exists_isNumber {n : Int} {start : Nat} {rest : List Char} {s : List Token}
    (hn : Numeral.isWritable n) (hrest : isBoundary rest)
    (htokens : tokensFrom (start + (toString n).toList.length) rest = .ok s) :
    ∃ ts, IsNumber n ts ∧ tokensFrom start ((toString n).toList ++ rest) = .ok (ts ++ s) := by
  unfold Numeral.isWritable at hn
  cases n with
  | ofNat m =>
    have hread := Numeral.readLiteral_repr (n := m) (by simpa using hn)
    have htext : toString (Int.ofNat m) = m.repr := rfl
    rw [htext] at htokens ⊢
    refine ⟨_, Or.inl ⟨_, rfl, rfl, ?_⟩, (leads_number m hrest).tokensFrom_eq_ok htokens⟩
    rw [String.ofList_toList]
    exact hread
  | negSucc m =>
    have hread := Numeral.readLiteral_repr (n := m + 1) (by simpa using hn)
    have htext : (toString (Int.negSucc m)).toList = '-' :: (m + 1).repr.toList := by
      rw [show toString (Int.negSucc m) = "-" ++ (m + 1).repr from rfl, String.toList_append]
      rfl
    rw [htext, length_cons, Nat.add_comm _ 1, ← Nat.add_assoc] at htokens
    rw [htext, cons_append]
    have hdigits := (leads_number (m + 1) hrest).tokensFrom_eq_ok htokens
    refine ⟨_, Or.inr ⟨_, _, ((m + 1 : Nat) : Int), rfl, rfl, rfl, ?_, rfl⟩,
      tokensFrom_sign (c := '-') rfl (by decide) hdigits⟩
    rw [String.ofList_toList]
    exact hread

section Numbers
variable {r : Reading} {n : Int} {ts s : List Token}

theorem IsNumber.yields (h : IsNumber n ts) : Yields (r.number (ts ++ s)) (.int n) s := by
  rcases h with ⟨t, rfl, ht, hread⟩ | ⟨t, u, m, rfl, ht, hu, hread, rfl⟩
  · exact yields_number_int ht hread
  · exact yields_number_minus ht hu hread

theorem IsNumber.exists_cons (h : IsNumber n ts) :
    ∃ t ts', ts = t :: ts' ∧ (t.kind = .int ∨ t.kind = .minus) := by
  rcases h with ⟨t, rfl, ht, -⟩ | ⟨t, u, m, rfl, ht, -⟩
  · exact ⟨t, [], rfl, Or.inl ht⟩
  · exact ⟨t, [u], rfl, Or.inr ht⟩

theorem IsNumber.opening (h : IsNumber n ts) (hs : goesOn (kindAt s)) : Opening (ts ++ s) := by
  rcases h with ⟨t, rfl, ht, -⟩ | ⟨t, u, m, rfl, ht, -⟩
  · simpa [Opening, ht] using hs
  · simpa [Opening, ht] using hs

theorem IsNumber.shapeKey? (h : IsNumber n ts) {optional : Bool} {s1 : List Token}
    {hlt : s1.length < s.length} (hs : keyEnd? s = some ⟨optional, s1, hlt⟩) :
    ∃ hlt', Reading.shapeKey? (ts ++ s) = .ok (some ⟨(.int n, optional), s1, hlt'⟩) := by
  rcases h with ⟨t, rfl, ht, hread⟩ | ⟨t, u, m, rfl, ht, hu, hread, rfl⟩
  · refine ⟨by simp only [length_append]; omega, ?_⟩
    simp only [singleton_append, Reading.shapeKey?, ht, hs, hread]
  · refine ⟨by simp only [length_append]; omega, ?_⟩
    simp only [cons_append, nil_append, Reading.shapeKey?, ht, hu, hs, hread, if_true]

end Numbers

/-! ### Ranges of integers -/

theorem lower_min : Text.lower "min" = "min" := by decide

theorem lower_max : Text.lower "max" = "max" := by decide

theorem toList_rangeText (low high : Bound) : (rangeText low high).toList = "int".toList ++ '<' ::
    ((boundText "min" low).toList ++ ([',', ' '] ++ ((boundText "max" high).toList ++ ['>']))) := by
  simp only [rangeText, String.toList_append, append_assoc]
  rfl

/-- The characters between a key and the type of its field. -/
def keyMark (optional : Bool) : List Char := if optional then ['?', ':', ' '] else [':', ' ']

theorem isBoundary_keyMark (optional : Bool) (rest : List Char) :
    isBoundary (keyMark optional ++ rest) := by
  cases optional <;> rfl

theorem callableKind_facts {kind : String} (hkind : kind ∈ Keyword.callables.map Prod.snd) :
    isClassName kind ∧ Keyword.callables.lookup (Text.lower kind) = some kind := by
  have h : ∀ kind ∈ Keyword.callables.map Prod.snd,
      isClassName kind ∧ Keyword.callables.lookup (Text.lower kind) = some kind := by
    decide
  exact h kind hkind

end StubCatalog.TypeExpr
