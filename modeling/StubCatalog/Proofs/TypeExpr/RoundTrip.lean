import StubCatalog.Proofs.TypeExpr.ClearText

/-! # Written types read back

A type is *expressible* if it is built from built-in types, classes, integers, texts and ranges with
alternatives, combinations, arguments, plain fields and parameters (`Expressible`). Such a type is
clear, so its text reads back (`Expressible.formed`). -/

namespace StubCatalog.TypeExpr

open List

/-- A field that is written plainly: by its position, or under an integer or an ASCII name. -/
inductive PlainField : ShapeField TypeExpr → Prop
  | positional (t : TypeExpr) : PlainField ⟨none, t, false⟩
  | numbered (n : Int) (t : TypeExpr) (optional : Bool) : PlainField ⟨some (.int n), t, optional⟩
  | named {k : String} (hk : isAsciiName k) (t : TypeExpr) (optional : Bool) :
      PlainField ⟨some (.str k), t, optional⟩

/-- The types built from built-in types, classes, integers, texts and ranges by alternatives,
combinations, arguments, fields and parameters. -/
inductive Expressible : TypeExpr → Prop
  | keyword {k : String} (hk : k ∈ Keyword.builtins) (hthis : k ≠ "$this") :
    Expressible (.keyword k)
  | named {n : String} (hn : isClassName n) : Expressible (.named n)
  | int (n : Int) : Expressible (.literal (.int n))
  | str (s : String) : Expressible (.literal (.str s))
  | intRange (low high : Option Int) : Expressible (.intRange (.ofInt? low) (.ofInt? high))
  | unionOf {ts : List TypeExpr} (hne : ts ≠ []) (hts : ∀ t ∈ ts, Expressible t) :
      Expressible (unionOf ts)
  | intersectionOf {ts : List TypeExpr} (hne : ts ≠ []) (hts : ∀ t ∈ ts, Expressible t) :
      Expressible (intersectionOf ts)
  | nullableOf {t : TypeExpr} (ht : Expressible t) : Expressible (nullableOf t)
  | generic {name : String} {args : List TypeExpr}
      (hname : name ∈ Keyword.generics ∨ isClassName name) (hne : args ≠ [])
      (hargs : ∀ t ∈ args, Expressible t) : Expressible (.generic name args)
  | shape {kind : String} {fields : List (ShapeField TypeExpr)} {s : Flag}
      {key value : Option TypeExpr} (hkind : kind ∈ Keyword.shapes)
      (hplain : ∀ f ∈ fields, PlainField f) (htail : PlainTail s key value)
      (hfields : ∀ f ∈ fields, Expressible f.value) (hkey : ∀ t ∈ key, Expressible t)
      (hvalue : ∀ t ∈ value, Expressible t) : Expressible (.shape kind fields s key value)
  | callable {kind : String} {params : List (CallableParameter TypeExpr)} {result : Option TypeExpr}
      (hkind : kind ∈ Keyword.callables.map Prod.snd) (hplain : ∀ p ∈ params, PlainParameter p)
      (hparams : ∀ p ∈ params, Expressible p.type) (hresult : ∀ t ∈ result, Expressible t) :
      Expressible (.callable kind params result)

/-! ### Clear nodes -/

/-- What stands directly in an expressible type. -/
structure IsPlain (t : TypeExpr) : Prop where
  spelled : IsSpelled t
  exact : t.isFloat = false
  clear : t.isClearNode
  other : t.isThis = false

section
variable {t : TypeExpr}

theorem isPlain_keyword {k : String} (hk : k ∈ Keyword.builtins) (hthis : k ≠ "$this") :
    IsPlain (.keyword k) :=
  ⟨.keyword hk, rfl, rfl, beq_eq_false_iff_ne.mpr hthis⟩

theorem isPlain_intersection {ts : List TypeExpr} (h : ∀ t ∈ ts, Formed IsPlain t) :
    IsPlain (.intersection ts) := by
  refine ⟨.intersection ts, rfl, ?_, rfl⟩
  simp only [isClearNode, all_eq_true, Bool.not_eq_true']
  exact fun t ht => (h t (mem_of_mem_tail ht)).here.2.other

theorem canonicalClass_plain : CanonicalClass (Formed IsPlain) :=
  canonicalClass_everywhere (isPlain_keyword (by decide) (by decide))
    (isPlain_keyword (by decide) (by decide)) (isPlain_keyword (by decide) (by decide))
    (fun t _ _ => ⟨.nullable t, rfl, rfl, rfl⟩) (fun ts _ _ => ⟨.union ts, rfl, rfl, rfl⟩)
    fun _ _ h => isPlain_intersection h

theorem startsThis_of_formed (h : Formed IsPlain t) : t.startsThis = false := by
  rw [startsThis, Option.any_eq_false]
  intro u hu
  obtain ⟨v, hv, hu⟩ := Option.bind_eq_some_iff.mp hu
  have hinside : Formed IsPlain u :=
    (h.of_mem_unionParts (mem_of_head? hv)).of_mem_intersectionParts (mem_of_head? hu)
  simpa using hinside.here.2.other

theorem bareWord_of_isAsciiName {k : String} (hk : isAsciiName k) : bareWord k = k := by
  have htake : (k.toList ++ []).takeWhile (fun c => c.isAlphanum || c == '_') = k.toList ++ [] :=
    takeWhile_append_of_pos (isKeyPart_of_isAsciiName hk)
  rw [append_nil] at htake
  rw [bareWord, htake, String.ofList_toList]

theorem PlainField.spelled {f : ShapeField TypeExpr} (h : PlainField f) :
    SpelledField f ∧ f.key.all isClearKey := by
  cases h with
  | positional t => exact ⟨.positional t, rfl⟩
  | numbered n t optional => exact ⟨.int n t optional, rfl⟩
  | @named k hk t optional =>
    refine ⟨.str k t optional, ?_⟩
    simp [isClearKey, bareWord_of_isAsciiName hk]

/-- **An expressible type is in canonical form and plain everywhere**, whatever it is put together
from. -/
theorem Expressible.formed (h : Expressible t) : Formed IsPlain t := by
  induction h with
  | keyword hk hthis =>
    exact .intro ⟨trivial, isPlain_keyword hk hthis⟩ (by simp [parts, children])
  | named hn => exact .intro ⟨trivial, .named hn, rfl, rfl, rfl⟩ (by simp [parts, children])
  | int n => exact .intro ⟨trivial, .literal _, rfl, rfl, rfl⟩ (by simp [parts, children])
  | str s => exact .intro ⟨trivial, .literal _, rfl, rfl, rfl⟩ (by simp [parts, children])
  | intRange low high =>
    exact .intro ⟨trivial, .intRange low high, rfl, rfl, rfl⟩ (by simp [parts, children])
  | unionOf _ _ ih => exact canonicalClass_plain.unionOf ih
  | intersectionOf _ _ ih => exact canonicalClass_plain.intersectionOf ih
  | nullableOf _ ih => exact canonicalClass_plain.nullableOf ih
  | generic hname hne _ ih => exact .intro ⟨hne, .generic hname, rfl, rfl, rfl⟩ ih
  | shape hkind hplain htail _ _ _ ihfields ihkey ihvalue =>
    refine .intro ⟨trivial, .shape hkind (fun f hf => (hplain f hf).spelled.1) htail, rfl, ?_, rfl⟩
      (forall_parts_shape.mpr ⟨ihfields, ihkey, ihvalue⟩)
    simp only [isClearNode, all_eq_true]
    exact fun f hf => (hplain f hf).spelled.2
  | callable hkind hplain _ _ ihparams ihresult =>
    refine .intro ⟨trivial, .callable hkind hplain, rfl, ?_, rfl⟩
      (forall_parts_callable.mpr ⟨ihparams, ihresult⟩)
    simp only [isClearNode, all_eq_true, Bool.not_eq_true']
    exact fun p hp => startsThis_of_formed (ihparams p hp)

end

/-! ### Reading back -/

/-- **Writing and then reading gives the type back.** An expressible type whose integers have few
enough digits is written, and its text is read as the same type; one with a longer integer is not
written. -/
theorem parse_written {t : TypeExpr} (h : Expressible t) :
    (t.isWritable = true → ∃ u, t.written = .ok t.text ∧ parse t.text = .ok u ∧ u.same t = true) ∧
      (t.isWritable = false → t.written = .error .unwritable) := by
  have hform := h.formed
  constructor
  · intro hw
    have hspelled : SpelledForm t := hform.mono fun u hu => ⟨hu.1, hu.2.spelled⟩
    have hexact : t.isExact = true :=
      all_eq_true.mpr fun u hu => by simp [(hform.of_mem_nodes hu).2.exact]
    have hwritten := writtenForm_of_spelledForm hspelled hw hexact
    have hclear : t.isClear = true :=
      all_eq_true.mpr fun u hu => (hform.of_mem_nodes hu).2.clear
    exact ⟨t.normalCase, by rw [written, if_pos hw], parse_text_of_isClear hwritten hclear,
      same_normalCase_self (same_self_of_writtenForm hwritten)⟩
  · intro hw
    rw [written, if_neg (by simp [hw])]

/-- A closure or null, with an optional parameter by reference of a class named `int`. -/
def callback : TypeExpr :=
  nullableOf (.callable "Closure" [⟨.named "int", true, false, true⟩] (some (.keyword "void")))

theorem parse_written_callback : callback.Expressible ∧
    ∃ u, callback.written = .ok "null|(Closure(\\int&=): void)" ∧
      parse "null|(Closure(\\int&=): void)" = .ok u ∧ u.same callback = true := by
  have hexpressible : callback.Expressible := by
    refine .nullableOf (.callable (by decide) ?_ ?_ ?_)
    · simpa using PlainParameter.intro (.named "int") true false true
    · simpa using Expressible.named (n := "int") (by decide)
    · simpa using Expressible.keyword (k := "void") (by decide) (by decide)
  have htext : callback.text = "null|(Closure(\\int&=): void)" := by decide
  refine ⟨hexpressible, ?_⟩
  rw [← htext]
  exact (parse_written hexpressible).1 (by decide)

/-- An integer with one digit too many has no text, so no text reads back as it. -/
theorem not_written_of_tooLong : ¬ ∀ t, Expressible t →
    ∃ s u, t.written = .ok s ∧ parse s = .ok u ∧ u.same t = true := by
  intro h
  -- The bound is given a name, lest its digits be worked out.
  obtain ⟨n, hn⟩ : ∃ n : Nat, Numeral.writableBound ≤ n := ⟨_, Nat.le_refl _⟩
  obtain ⟨s, u, hwritten, -⟩ := h _ (.int n)
  rw [written_of_le hn] at hwritten
  cases hwritten

end StubCatalog.TypeExpr
