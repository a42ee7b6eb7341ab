import StubCatalog.Proofs.TypeExpr.Tables

/-! # Chains of containment

Whether one plain type (`Plain`) lies within another is settled by what the two are about
(`Head.LiesBelow`), and by their arguments. A type in the middle of a chain that names no keys hides
the keys of the outer two from each other; the pairs that stay hidden (`keyGaps`) are all that is
missing. -/

namespace StubCatalog

open List Keyword

/-! ### The order of built-in types -/

namespace TypeExpr

/-- What lies above what among the built-in types, so far as chains rely on it. -/
structure OrderTables : Prop where
  above : ∀ x ∈ parents.map Prod.fst, ∀ y ∈ ancestors x, ∀ z ∈ ancestors y, z ∈ ancestors x
  never : ∀ x ∈ parents.map Prod.fst, "never" ∉ ancestors x
  mixed : ∀ y ∈ ancestors "mixed", y = "mixed"
  object : ∀ y ∈ ancestors "object", y = "object" ∨ y = "mixed"
  callable : ∀ y ∈ ancestors "callable", y = "callable" ∨ y = "mixed"
  iterable : ∀ y ∈ ancestors "iterable", y = "iterable" ∨ y = "mixed"
  generics : ∀ x ∈ ["never", "mixed", "object", "callable"], x ∉ Keyword.generics

/-- The facts are decided once, here. -/
theorem orderTables : OrderTables where
  above := by decide
  never := by decide
  mixed := by decide
  object := by decide
  callable := by decide
  iterable := by decide
  generics := by decide

end TypeExpr

namespace Keyword

theorem mem_ancestors_trans {x y z : String} (hy : y ∈ ancestors x) (hz : z ∈ ancestors y) :
    z ∈ ancestors x := by
  cases h : parents.lookup x with
  | some above =>
    exact TypeExpr.orderTables.above x (mem_map_of_mem (mem_of_lookup h)) y hy z hz
  | none =>
    rw [ancestors_of_not_listed h, mem_singleton] at hy
    exact hy ▸ hz

theorem eq_never_of_mem_ancestors {x : String} (h : "never" ∈ ancestors x) : x = "never" := by
  cases hlookup : parents.lookup x with
  | some above =>
    exact absurd h (TypeExpr.orderTables.never x (mem_map_of_mem (mem_of_lookup hlookup)))
  | none =>
    rw [ancestors_of_not_listed hlookup, mem_singleton] at h
    exact h.symm

end Keyword

namespace TypeExpr

/-! ### Plain types -/

/-- The type is a built-in type, a class, or a built-in type with arguments. -/
def isPlainNode : TypeExpr → Bool
  | .keyword name => name.isText
  | .named _ => true
  | .generic name _ => Keyword.isGeneric name
  | _ => false

/-- The type is made of built-in types, classes and built-in types with arguments only. -/
def Plain : TypeExpr → Prop := Everywhere fun t => t.isPlainNode

instance : DecidablePred Plain := fun t =>
  inferInstanceAs (Decidable (Everywhere (fun t => t.isPlainNode) t))

variable {a b c : TypeExpr} {m n : String} {args args' args'' : List TypeExpr}

theorem Plain.cases (h : Plain a) : (∃ x : String, a = .keyword x) ∨ (∃ name, a = .named name) ∨
      ∃ name args, a = .generic name args ∧ Keyword.isGeneric name := by
  have here := h.here
  cases a with
  | keyword name =>
    obtain ⟨x, rfl⟩ := Label.exists_of_isText here
    exact Or.inl ⟨x, rfl⟩
  | named name => exact Or.inr (Or.inl ⟨name, rfl⟩)
  | generic name args => exact Or.inr (Or.inr ⟨name, args, rfl, here⟩)
  | _ => cases here

theorem Plain.isAtom (h : Plain a) : a.isAtom := by
  rcases h.cases with ⟨x, rfl⟩ | ⟨name, rfl⟩ | ⟨name, args, rfl, -⟩ <;> rfl

/-- The type of the keys, if the arguments name one. -/
def keyType? (args : List TypeExpr) : Option TypeExpr := (keyArgument? args).map Subtype.val

theorem mem_of_keyType? {key : TypeExpr} (h : keyType? args = some key) : key ∈ args := by
  obtain ⟨⟨first, hfirst⟩, -, rfl⟩ := Option.map_eq_some_iff.mp h
  exact hfirst

/-! ### Heads -/

/-- What a plain type is about: a class, in any case, or a built-in type. -/
inductive Head where
  | ofClass (name : String)
  | builtin (name : String)

def head : TypeExpr → Head
  | .named name => .ofClass (Text.lower name)
  | .generic name _ => .builtin (Text.lower name)
  | t => .builtin ((baseName? t).getD "")

/-- The order of heads: the one of the built-in types, extended by classes. -/
def Head.LiesBelow : Head → Head → Prop
  | .builtin x, .builtin y => y = "mixed" ∨ x = "never" ∨ y ∈ ancestors x
  | .builtin x, .ofClass _ => x = "never"
  | .ofClass m, .ofClass n => m = n
  | .ofClass m, .builtin y => y = "object" ∨ y = "mixed" ∨ y = "callable" ∧ m = "closure" ∨
      y = "iterable" ∧ m = "traversable"

theorem Head.LiesBelow.trans {x y z : Head} (hxy : x.LiesBelow y) (hyz : y.LiesBelow z) :
    x.LiesBelow z := by
  have htrans := @mem_ancestors_trans
  have hnever := @eq_never_of_mem_ancestors
  have hmixed := orderTables.mixed
  have hobject := orderTables.object
  have hcallable := orderTables.callable
  have hiterable := orderTables.iterable
  cases x <;> cases y <;> cases z <;> simp only [LiesBelow] at hxy hyz ⊢ <;> grind

theorem lower_ne_of_isGeneric {x : String} (h : Keyword.isGeneric m)
    (hx : x ∈ ["never", "mixed", "object", "callable"]) : Text.lower m ≠ x := by
  rintro rfl
  exact orderTables.generics _ hx (contains_iff_mem.mp h)

/-! ### Containment of two types -/

theorem within_iff_atom (ha : a.isAtom) (hb : b.isAtom) :
    Within a b ↔ b.isMixed ∨ a.isMixed = false ∧ (a.isNever ∨ a.same b ∨
      atomContained .unknown a b (fun x y _ => isContainedBy x y) = .ok true) := by
  obtain ⟨hunknownA, hlikeA, -⟩ := apart_of_isAtom ha
  obtain ⟨hunknownB, hlikeB, -⟩ := apart_of_isAtom hb
  rw [Within, isContainedBy_eq, normalized_of_isAtom ha, normalized_of_isAtom hb]
  unfold containedStep
  rw [hunknownA, hunknownB, Bool.false_or, Bool.false_or]
  by_cases hmixedB : b.isMixed
  · rw [if_pos hmixedB]
    exact iff_of_true rfl (Or.inl hmixedB)
  rw [if_neg hmixedB, or_iff_right hmixedB]
  by_cases hmixedA : a.isMixed
  · rw [if_pos hmixedA]
    exact iff_of_false (by simp) fun h => by simp [hmixedA] at h
  rw [if_neg hmixedA, and_iff_right (Bool.not_eq_true _ ▸ hmixedA)]
  by_cases hnever : a.isNever
  · rw [if_pos hnever]
    exact iff_of_true rfl (Or.inl hnever)
  rw [if_neg hnever, or_iff_right hnever]
  by_cases hsame : a.same b
  · rw [if_pos hsame]
    exact iff_of_true rfl (Or.inl hsame)
  rw [if_neg hsame, or_iff_right hsame, dif_neg (by simp [hlikeA])]
  split
  · cases ha
  · rw [dif_neg (by simp [hlikeB])]
    split
    · cases hb
    · rfl

section Heads

attribute [local simp] atomContained className? baseName? literal? bounds? argumentsContained head
  Head.LiesBelow isMixed isNever TypeExpr.same Hierarchy.related Hierarchy.unknown

/-- Unless both types have arguments, their heads decide, except that a built-in type without
arguments lies within one with arguments only if it is empty. -/
theorem within_iff_heads (ha : Plain a) (hb : Plain b)
    (hflat : ∀ m n args args', a = .generic m args → b ≠ .generic n args') :
    Within a b ↔ a.head.LiesBelow b.head ∧
      (a.isNever ∨ className? a ≠ none ∨ ∀ n args', b ≠ .generic n args') := by
  have hself := mem_ancestors_self
  have hmixed := orderTables.mixed
  have htraversable : Text.lower "Traversable" = "traversable" := by decide
  rw [within_iff_atom ha.isAtom hb.isAtom]
  rcases ha.cases with ⟨x, rfl⟩ | ⟨m, rfl⟩ | ⟨m, args, rfl, hm⟩
  · have hsame : ∀ y : String, Label.same x y ↔ x = y := fun y => beq_iff_eq
    rcases hb.cases with ⟨y, rfl⟩ | ⟨n, rfl⟩ | ⟨n, args', rfl, hn⟩
    · simp
      grind
    · simp
      grind
    · simp [hn]
      grind
  · rcases hb.cases with ⟨y, rfl⟩ | ⟨n, rfl⟩ | ⟨n, args', rfl, hn⟩
    · simp [htraversable]
      grind
    · simp
    · simp [htraversable, hn]
      grind
  · have hne := lower_ne_of_isGeneric hm (mem_cons_self)
    rcases hb.cases with ⟨y, rfl⟩ | ⟨n, rfl⟩ | ⟨n, args', rfl, hn⟩
    · simp [hm]
      grind
    · simp [hm, hne]
    · exact absurd rfl (hflat m n args args' rfl)

end Heads

/-- The types of values lie within each other, and so do the types of keys where both lists name
one. -/
@[mk_iff]
structure ArgumentsWithin (args args' : List TypeExpr) : Prop where
  values : ∃ last ∈ args.getLast?, ∃ last' ∈ args'.getLast?, Within last last'
  keys : ∀ key ∈ keyType? args, ∀ key' ∈ keyType? args', Within key key'

theorem argumentsContained_iff (hm : Keyword.isGeneric m) (hn : Keyword.isGeneric n) :
    argumentsContained (.generic m args) (.generic n args') (fun x y _ => isContainedBy x y) =
      .ok true ↔ ArgumentsWithin args args' := by
  unfold argumentsContained
  simp only [hm, hn]
  split
  · next h => exact iff_of_false (by simp) (by rintro ⟨⟨_, _, _, hlast', _⟩, _⟩; simp [h] at hlast')
  · next last' h' =>
    simp only [bne_self_eq_false, Bool.false_eq_true, if_false, Bool.not_true]
    split
    · next h => exact iff_of_false (by simp) (by rintro ⟨⟨_, hlast, _⟩, _⟩; simp [h] at hlast)
    · next last h =>
      have hvalues : (∃ u ∈ args.getLast?, ∃ u' ∈ args'.getLast?, Within u u') ↔
          Within last last' := by simp [h, h']
      rw [argumentsWithin_iff, hvalues, Within]
      cases isContainedBy last last' with
      | error e => simp [bind, Except.bind]
      | ok r =>
        cases r with
        | false => simp [bind, Except.bind, pure, Except.pure]
        | true =>
          unfold keyType?
          simp only [bind, Except.bind, if_true, true_and]
          split
          · next first _ first' _ hfirst hfirst' => simp [hfirst, hfirst', Within]
          · next hnot =>
            refine iff_of_true rfl fun key hkey key' hkey' => ?_
            obtain ⟨⟨first, hfirst⟩, hfirstEq, -⟩ := Option.map_eq_some_iff.mp hkey
            obtain ⟨⟨first', hfirst'⟩, hfirstEq', -⟩ := Option.map_eq_some_iff.mp hkey'
            exact absurd hfirstEq' (hnot first hfirst first' hfirst' hfirstEq)

theorem within_of_same (ha : Plain a) (hb : Plain b) (h : a.same b) : Within a b := by
  rw [within_iff_atom ha.isAtom hb.isAtom]
  by_cases hmixed : b.isMixed
  · exact Or.inl hmixed
  refine Or.inr ⟨?_, Or.inr (Or.inl h)⟩
  rcases ha.cases with ⟨x, rfl⟩ | ⟨_, rfl⟩ | ⟨_, _, rfl, -⟩
  · rcases hb.cases with ⟨y, rfl⟩ | ⟨_, rfl⟩ | ⟨_, _, rfl, -⟩
    · rw [TypeExpr.same] at h
      rw [Label.eq_of_same rfl rfl h]
      exact Bool.not_eq_true _ ▸ hmixed
    · simp [TypeExpr.same] at h
    · simp [TypeExpr.same] at h
  · rfl
  · rfl

/-- Lists of the same types end with the same type and name the same keys. -/
theorem argumentsWithin_of_paired (h : Paired args args') (hargs : ∀ u ∈ args, Plain u)
    (hargs' : ∀ u ∈ args', Plain u) : args = [] ∧ args' = [] ∨ ArgumentsWithin args args' := by
  have hwithin : ∀ {u v}, u ∈ args → v ∈ args' → u.same v → Within u v :=
    fun hu hv => within_of_same (hargs _ hu) (hargs' _ hv)
  have hreverse := List.forall₂_reverse_iff.mpr h
  cases h with
  | nil => exact Or.inl ⟨rfl, rfl⟩
  | @cons u v us vs huv hrest =>
    refine Or.inr ⟨?_, fun key hkey key' hkey' => ?_⟩
    · rw [← head?_reverse, ← head?_reverse]
      cases hus : (u :: us).reverse with
      | nil => simp at hus
      | cons last =>
        cases hvs : (v :: vs).reverse with
        | nil => simp at hvs
        | cons last' =>
          rw [hus, hvs, List.forall₂_cons] at hreverse
          refine ⟨last, rfl, last', rfl, hwithin ?_ ?_ hreverse.1⟩
          · exact mem_reverse.mp (hus ▸ mem_cons_self)
          · exact mem_reverse.mp (hvs ▸ mem_cons_self)
    · cases hrest with
      | nil => cases hkey
      | cons =>
        cases hkey
        cases hkey'
        exact hwithin (by simp) (by simp) huv

theorem generic_within_iff (ha : Plain (.generic m args)) (hb : Plain (.generic n args')) :
    Within (.generic m args) (.generic n args') ↔
      Text.lower m = Text.lower n ∧ args = [] ∧ args' = [] ∨
      Text.lower n ∈ ancestors (Text.lower m) ∧ ArgumentsWithin args args' := by
  have hm : Keyword.isGeneric m := ha.here
  have hn : Keyword.isGeneric n := hb.here
  have hatom : atomContained .unknown (.generic m args) (.generic n args')
      (fun x y _ => isContainedBy x y) = .ok true ↔
      Text.lower n ∈ ancestors (Text.lower m) ∧ ArgumentsWithin args args' := by
    rw [← argumentsContained_iff hm hn, ← contains_iff_mem]
    simp only [atomContained, className?, baseName?, hm, hn, if_true, literal?, bounds?]
    cases (ancestors (Text.lower m)).contains (Text.lower n) <;> simp
  rw [within_iff_atom rfl rfl, hatom, TypeExpr.same]
  simp only [isMixed, isNever, Bool.false_eq_true, false_or, true_and, Bool.and_eq_true, beq_iff_eq]
  constructor
  · rintro (⟨hname, hsame⟩ | hrule)
    · rcases argumentsWithin_of_paired (sameList_iff.mp hsame) (fun u hu => ha.inside hu)
        fun u hu => hb.inside hu with hnil | hargs
      · exact Or.inl ⟨hname, hnil⟩
      · exact Or.inr ⟨hname ▸ mem_ancestors_self _, hargs⟩
    · exact Or.inr hrule
  · rintro (⟨hname, rfl, rfl⟩ | hrule)
    · exact Or.inl ⟨hname, by rw [sameList]⟩
    · exact Or.inr hrule

theorem liesBelow_of_within (ha : Plain a) (hb : Plain b) (h : Within a b) :
    a.head.LiesBelow b.head := by
  by_cases hflat : ∀ m n args args', a = .generic m args → b ≠ .generic n args'
  · exact ((within_iff_heads ha hb hflat).mp h).1
  · push Not at hflat
    obtain ⟨m, n, args, args', rfl, rfl⟩ := hflat
    rcases (generic_within_iff ha hb).mp h with ⟨hname, -⟩ | ⟨habove, -⟩
    · exact Or.inr (Or.inr (hname ▸ mem_ancestors_self _))
    · exact Or.inr (Or.inr habove)

/-! ### Chains of three types -/

/-- The pairs of key types that a chain of three types leaves uncompared, as the one in the middle
names no keys. -/
def keyGaps (a b c : TypeExpr) : List (TypeExpr × TypeExpr) :=
  match a, b, c with
  | .generic m args, .generic _ args', .generic _ args'' =>
    let values := match h : args.getLast?, args'.getLast?, args''.getLast? with
      | some last, some last', some last'' =>
        have := size_lt_of_mem_parts (t := .generic m args) (mem_of_getLast? h)
        keyGaps last last' last''
      | _, _, _ => []
    let keys := match h : keyType? args, keyType? args', keyType? args'' with
      | some key, some key', some key'' =>
        have := size_lt_of_mem_parts (t := .generic m args) (mem_of_keyType? h)
        keyGaps key key' key''
      | some key, none, some key'' => [(key, key'')]
      | _, _, _ => []
    values ++ keys
  | _, _, _ => []
termination_by a.size

theorem keyGaps_generic {k : String}
    {last last' last'' : TypeExpr} (hlast : args.getLast? = some last)
    (hlast' : args'.getLast? = some last') (hlast'' : args''.getLast? = some last'') :
    keyGaps (.generic m args) (.generic n args') (.generic k args'') = keyGaps last last' last'' ++
        match keyType? args, keyType? args', keyType? args'' with
        | some key, some key', some key'' => keyGaps key key' key''
        | some key, none, some key'' => [(key, key'')]
        | _, _, _ => [] := by
  rw [keyGaps]
  congr 1
  · split <;> simp_all
  · split <;> simp_all

theorem cases_of_within_generic (ha : Plain a) (hb : Plain (.generic n args'))
    (h : Within a (.generic n args')) :
    a = never ∨ (∃ m, a = .named m) ∨ ∃ m args, a = .generic m args := by
  rcases ha.cases with ⟨x, rfl⟩ | ⟨m, rfl⟩ | ⟨m, args, rfl, -⟩
  · have hnever := ((within_iff_heads ha hb (by simp)).mp h).2
    simp only [className?, isNever] at hnever
    simp_all [never]
  · exact Or.inr (Or.inl ⟨m, rfl⟩)
  · exact Or.inr (Or.inr ⟨m, args, rfl⟩)

theorem cases_of_within (ha : Plain a) (hb : Plain b) (h : Within a b)
    (hsort : b = never ∨ ∃ n, b = .named n) : a = never ∨ ∃ m, a = .named m := by
  have hempty : ∀ x, a.head = .builtin x → x = "never" := by
    intro x hx
    have hbelow := liesBelow_of_within ha hb h
    rw [hx] at hbelow
    rcases hsort with rfl | ⟨n, rfl⟩
    · rcases hbelow with hmixed | hx | habove
      · exact absurd hmixed (by decide)
      · exact hx
      · exact eq_never_of_mem_ancestors habove
    · exact hbelow
  rcases ha.cases with ⟨x, rfl⟩ | ⟨m, rfl⟩ | ⟨m, args, rfl, hm⟩
  · exact Or.inl (by rw [hempty x rfl, never])
  · exact Or.inr ⟨m, rfl⟩
  · exact absurd (hempty _ rfl) (lower_ne_of_isGeneric hm mem_cons_self)

theorem within_trans_of_flat (ha : Plain a) (hb : Plain b) (hc : Plain c) (hab : Within a b)
    (hbc : Within b c)
    (hflat : ¬ ∃ m n k args args' args'', a = .generic m args ∧ b = .generic n args' ∧
      c = .generic k args'') : Within a c := by
  have hheads := (liesBelow_of_within ha hb hab).trans (liesBelow_of_within hb hc hbc)
  by_cases hgeneric : ∃ k args'', c = .generic k args''
  · obtain ⟨k, args'', rfl⟩ := hgeneric
    have hsort : a = never ∨ ∃ m, a = .named m := by
      rcases cases_of_within_generic hb hc hbc with rfl | ⟨n, rfl⟩ | ⟨n, args', rfl⟩
      · exact cases_of_within ha hb hab (Or.inl rfl)
      · exact cases_of_within ha hb hab (Or.inr ⟨n, rfl⟩)
      · rcases cases_of_within_generic ha hb hab with h | h | ⟨m, args, rfl⟩
        · exact Or.inl h
        · exact Or.inr h
        · exact absurd ⟨m, n, k, args, args', args'', rfl, rfl, rfl⟩ hflat
    rcases hsort with rfl | ⟨m, rfl⟩
    · exact (within_iff_heads ha hc (by rintro _ _ _ _ ⟨⟩)).mpr ⟨hheads, Or.inl rfl⟩
    · exact (within_iff_heads ha hc (by rintro _ _ _ _ ⟨⟩)).mpr
        ⟨hheads, Or.inr (Or.inl (by simp [className?]))⟩
  · push Not at hgeneric
    exact (within_iff_heads ha hc fun _ k _ args'' _ => hgeneric k args'').mpr
      ⟨hheads, Or.inr (Or.inr hgeneric)⟩

theorem within_trans_iff (ha : Plain a) (hb : Plain b) (hc : Plain c) (hab : Within a b)
    (hbc : Within b c) : Within a c ↔ ∀ gap ∈ keyGaps a b c, Within gap.1 gap.2 := by
  induction a using partsInduction generalizing b c with
  | _ a ih =>
  by_cases hgeneric : ∃ m n k args args' args'', a = .generic m args ∧ b = .generic n args' ∧
      c = .generic k args''
  case neg =>
    have hgaps : keyGaps a b c = [] := by
      rw [keyGaps]
      exact fun m args n args' k args'' ha hb hc =>
        hgeneric ⟨m, n, k, args, args', args'', ha, hb, hc⟩
    rw [hgaps]
    exact iff_of_true (within_trans_of_flat ha hb hc hab hbc hgeneric) (by simp)
  obtain ⟨m, n, k, args, args', args'', rfl, rfl, rfl⟩ := hgeneric
  rw [generic_within_iff ha hc]
  rcases (generic_within_iff ha hb).mp hab with
    ⟨hmn, rfl, rfl⟩ | ⟨habove, ⟨last, hlast, last', hlast', hvalue⟩, hkeys⟩
  · rcases (generic_within_iff hb hc).mp hbc with ⟨hnk, -, rfl⟩ | ⟨-, ⟨_, hmid, _⟩, -⟩
    · rw [keyGaps]
      exact iff_of_true (Or.inl ⟨hmn.trans hnk, rfl, rfl⟩) (by simp [keyType?, keyArgument?])
    · cases hmid
  · rcases (generic_within_iff hb hc).mp hbc with
      ⟨-, rfl, -⟩ | ⟨habove', ⟨mid, hmid, last'', hlast'', hvalue'⟩, hkeys'⟩
    · cases hlast'
    · obtain rfl := Option.some.inj (hlast'.symm.trans hmid)
      have hmem := mem_of_getLast? hlast
      have hvalues : (∃ u ∈ args.getLast?, ∃ u'' ∈ args''.getLast?, Within u u'') ↔
          Within last last'' := by simp [Option.mem_def.mp hlast, Option.mem_def.mp hlast'']
      rw [keyGaps_generic hlast hlast' hlast'', forall_mem_append, argumentsWithin_iff,
        and_iff_right (mem_ancestors_trans habove habove'), hvalues,
        or_iff_right fun h => by simp [h] at hlast]
      refine and_congr (ih last hmem (ha.inside hmem) (hb.inside (mem_of_getLast? hlast'))
        (hc.inside (mem_of_getLast? hlast'')) hvalue hvalue') ?_
      -- The keys: compared through the type in the middle, or hidden by it.
      cases hkey : keyType? args with
      | none => simp
      | some key =>
        cases hkey'' : keyType? args'' with
        | none => cases keyType? args' <;> simp
        | some key'' =>
          cases hkey' : keyType? args' with
          | none => simp
          | some key' =>
            simpa using ih key (mem_of_keyType? hkey) (ha.inside (mem_of_keyType? hkey))
              (hb.inside (mem_of_keyType? hkey')) (hc.inside (mem_of_keyType? hkey''))
              (hkeys key hkey key' hkey') (hkeys' key' hkey' key'' hkey'')

/-- **Containment along a chain of three types** built from built-in types, classes and built-in
types with arguments. The first lies within the last exactly if the types of keys do that the one in
the middle leaves uncompared, as it names none. -/
theorem isContainedBy_trans_iff {a b c : TypeExpr} (ha : Plain a) (hb : Plain b) (hc : Plain c)
    (hab : isContainedBy a b = .ok true) (hbc : isContainedBy b c = .ok true) :
    isContainedBy a c = .ok true ↔ ∀ gap ∈ keyGaps a b c, isContainedBy gap.1 gap.2 = .ok true :=
  within_trans_iff ha hb hc hab hbc

/-- The inner keys of a nested array are hidden and fit, so the chain closes. -/
theorem isContainedBy_trans_iff_nested :
    let a :=
      .generic "array" [.keyword "string", .generic "array" [.keyword "int", .named "Closure"]]
    let b := .generic "iterable" [.keyword "string", .generic "array" [.keyword "callable"]]
    let c := .generic "iterable" [.keyword "scalar",
      .generic "iterable" [.keyword "scalar", .keyword "callable"]]
    isContainedBy a b = .ok true ∧ isContainedBy b c = .ok true ∧
      (keyGaps a b c).length = 1 ∧ isContainedBy a c = .ok true := by
  refine ⟨by decide +kernel, by decide +kernel, by decide +kernel, ?_⟩
  refine (isContainedBy_trans_iff (b := .generic "iterable" [.keyword "string",
    .generic "array" [.keyword "callable"]]) (by decide +kernel) (by decide +kernel)
    (by decide +kernel) (by decide +kernel) (by decide +kernel)).mpr ?_
  decide +kernel

/-- A chain does not close in general: an array that names no keys lies between arrays whose keys
have nothing in common. -/
theorem not_isContainedBy_trans :
    let a := .generic "array" [.keyword "int", .keyword "int"]
    let b := .generic "array" [.keyword "int"]
    let c := .generic "array" [.keyword "string", .keyword "int"]
    Plain a ∧ Plain b ∧ Plain c ∧ isContainedBy a b = .ok true ∧ isContainedBy b c = .ok true ∧
      isContainedBy a c = .ok false := by
  decide +kernel

end TypeExpr

end StubCatalog
