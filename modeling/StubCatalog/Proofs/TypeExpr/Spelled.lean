import StubCatalog.Proofs.TypeExpr.Context
import StubCatalog.Proofs.TypeExpr.Words
import StubCatalog.Proofs.TypeExpr.WrittenText

/-! # Types that are read without a scope

What a type that is read in the empty scope is made of, node by node (`IsSpelled`). Together with
canonical form this is all that writing the type back has to count on (`SpelledForm`). -/

namespace StubCatalog.TypeExpr

open Reading

/-! ### Nodes -/

/-- The subject of a conditional: a variable, or a name without a backslash. -/
inductive IsSubject (subject : String) : Prop
  | dollar (h : IsVariableWord subject)
  | name (h : isClassName subject) (hbackslash : '\\' ∉ subject.toList)

/-- A field that is read: by its position, or under an integer or a text. -/
inductive SpelledField : ShapeField TypeExpr → Prop
  | positional (t : TypeExpr) : SpelledField ⟨none, t, false⟩
  | int (n : Int) (t : TypeExpr) (optional : Bool) : SpelledField ⟨some (.int n), t, optional⟩
  | str (k : String) (t : TypeExpr) (optional : Bool) : SpelledField ⟨some (.str k), t, optional⟩

theorem IsFieldOf.spelled {tokens : List Token} {f : ShapeField TypeExpr} (h : IsFieldOf tokens f) :
    SpelledField f := by
  cases h with
  | positional t => exact .positional t
  | int _ t optional => exact .int _ t optional
  | str k t optional => exact .str k t optional

/-- What stands directly in a type that is read in the empty scope. -/
inductive IsSpelled : TypeExpr → Prop
  | keyword {k : String} (hk : k ∈ Keyword.builtins) : IsSpelled (.keyword k)
  | named {name : String} (hname : isClassName name) : IsSpelled (.named name)
  | nullable (t : TypeExpr) : IsSpelled (.nullable t)
  | union (ts : List TypeExpr) : IsSpelled (.union ts)
  | intersection (ts : List TypeExpr) : IsSpelled (.intersection ts)
  | generic {name : String} {args : List TypeExpr}
      (hname : name ∈ Keyword.generics ∨ isClassName name) : IsSpelled (.generic name args)
  | shape {kind : String} {fields : List (ShapeField TypeExpr)} {s : Flag}
      {key value : Option TypeExpr} (hkind : kind ∈ Keyword.shapes)
      (hfields : ∀ f ∈ fields, SpelledField f) (htail : PlainTail s key value) :
      IsSpelled (.shape kind fields s key value)
  | conditional {subject : String} {target whenTrue whenFalse : TypeExpr} {negated : Bool}
      (hsubject : IsSubject subject) :
      IsSpelled (.conditional subject target whenTrue whenFalse negated)
  | literal (value : LiteralValue) : IsSpelled (.literal value)
  | intRange (low high : Option Int) : IsSpelled (.intRange (.ofInt? low) (.ofInt? high))
  | callable {kind : String} {params : List (CallableParameter TypeExpr)} {result : Option TypeExpr}
      (hkind : kind ∈ Keyword.callables.map Prod.snd) (hparams : ∀ p ∈ params, PlainParameter p) :
      IsSpelled (.callable kind params result)
  | memberReference {owner member : String} (howner : isClassName owner)
      (hmember : IsMemberName member) : IsSpelled (.memberReference owner member)

/-- The type is in canonical form everywhere and made of what a text can spell. -/
abbrev SpelledForm : TypeExpr → Prop := Formed IsSpelled

theorem canonicalClass_spelled : CanonicalClass SpelledForm :=
  canonicalClass_everywhere (.keyword (by decide)) (.keyword (by decide)) (.keyword (by decide))
    (fun t _ _ => .nullable t) (fun ts _ _ => .union ts) fun ts _ _ => .intersection ts

/-! ### What the rules put together -/

section
variable {r : Reading} {s s1 : List Token} {v : TypeExpr} {name : String}

theorem spelledForm_nameAlone (hr : r.scope = {}) (hname : IsNameWord name) :
    SpelledForm (r.nameAlone name) := by
  unfold nameAlone
  split
  · next hbuiltin => exact formed_leaf rfl trivial (.keyword (by simpa using hbuiltin))
  · rw [template?_eq_none hr]
    refine formed_leaf rfl trivial (.named ?_)
    rw [hr]
    exact hname.isClassName_bare

theorem isClassName_genericName (hr : r.scope = {}) (hname : IsNameWord name) :
    r.genericName name ∈ Keyword.generics ∨ isClassName (r.genericName name) := by
  unfold genericName
  split
  · next hgeneric => exact Or.inl (by simpa using hgeneric)
  · rw [hr]
    exact Or.inr hname.isClassName_bare

theorem spelledForm_memberReference {t : Token} (hr : r.scope = {}) (hs : WellCut s)
    (h : Yields (r.memberReference name t s) v s1) (hname : IsNameWord name) : SpelledForm v := by
  obtain ⟨member, hmember, -, rfl⟩ := isMemberName_of_memberReference hs h
  refine formed_leaf rfl trivial (.memberReference ?_ hmember)
  split
  · next hrelative =>
    have hfacts : ∀ word ∈ Keyword.relatives, isClassName word := by decide
    exact hfacts _ (by simpa using hrelative)
  · rw [hr]
    exact hname.isClassName_bare

theorem isSubject_of_isTest {first second : Token} (htest : isTest first second)
    (hfirst : first ∈ s) (hs : WellCut s) : IsSubject first.value := by
  simp only [isTest, Bool.and_eq_true, Bool.or_eq_true, decide_eq_true_eq, Bool.not_eq_true',
    List.contains_eq_mem, decide_eq_false_iff_not] at htest
  rcases htest.2 with hkind | ⟨hkind, hbackslash⟩
  · exact .dollar (hs.dollar first hfirst hkind)
  · obtain ⟨name, hname, hvalue | hvalue⟩ := hs.name first hfirst hkind
    · exact .name (hvalue ▸ hname) hbackslash
    · exact absurd (by rw [hvalue, String.toList_append]; simp) hbackslash

theorem readNodes_spelled {tokens : List Token} (hr : r.scope = {}) (htokens : WellCut tokens) :
    ReadNodes r tokens IsSpelled where
  canonical := canonicalClass_spelled
  this := .keyword (by decide)
  string _ := .literal _
  number _ _ := .literal _
  range _ h := by
    obtain ⟨_, _, _, _, _, low, high, -, -, -, -, -, -, rfl⟩ := yields_intRange_cases h
    exact formed_leaf rfl trivial (.intRange low high)
  alone ht hkind := spelledForm_nameAlone hr (htokens.name _ ht hkind)
  member ht hkind hs h :=
    spelledForm_memberReference hr (htokens.of_subset hs) h (htokens.name _ ht hkind)
  array _ := .generic (Or.inl (by decide))
  generic _ ht hkind := .generic (isClassName_genericName hr (htokens.name _ ht hkind))
  conditional _ _ _ _ ht htest := .conditional (isSubject_of_isTest htest ht htokens)
  shape hkind hfields htail := .shape hkind (fun f hf => (hfields f hf).spelled) htail
  callable _ hkind hparams := .callable hkind hparams

end

theorem spelledForm_of_parse {text : String} {t : TypeExpr} (h : parse text = .ok t) :
    SpelledForm t := by
  obtain ⟨tokens, htokens, hderives⟩ := parse_eq_ok_iff.mp h
  exact hderives.formed (readNodes_spelled rfl (wellCut_of_tokensFrom htokens)) (List.Subset.refl _)

end StubCatalog.TypeExpr
