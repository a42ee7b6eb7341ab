import StubCatalog.Proofs.TypeExpr.Canonical
import StubCatalog.Proofs.TypeExpr.Grammar
import StubCatalog.Proofs.TypeExpr.Literals

/-! # What reading comes to

A condition that holds of what each rule of the grammar puts together holds everywhere in a type
that is read (`ReadNodes`, `Derives.formed`). So such a type is made of words and truth values,
integers of the text and template parameters in scope (`ReadForm`). -/

namespace StubCatalog.TypeExpr

open List

variable {t : TypeExpr} {key value : Option TypeExpr} {kind : String} {names : String → Prop}
  {ints : Int → Prop} {q : TypeExpr → Prop} {s : List Token}

/-! ### Types that are read -/

/-- The integer that a bound is. -/
def boundInteger? (b : Bound) : Option Int :=
  match b.stored with
  | .int n => some n
  | _ => none

/-- The integer that the key of a field is. -/
def keyInteger? (f : ShapeField TypeExpr) : Option Int :=
  match f.key with
  | some (.int n) => some n
  | _ => none

/-- The integers that stand directly in a type. -/
def integers : TypeExpr → List Int
  | .literal (.int n) => [n]
  | .intRange low high => [low, high].filterMap boundInteger?
  | .shape _ fields .. => fields.filterMap keyInteger?
  | _ => []

/-- What stands directly in a type that is read, where `names` are the template parameters and
`ints` the integers that may stand in it. -/
structure IsReadNode (names : String → Prop) (ints : Int → Prop) (t : TypeExpr) : Prop where
  regular : t.isRegularNode
  number : t.isNumberNode
  integers : ∀ n ∈ t.integers, ints n
  template : ∀ name bound, t = .template name bound → names name.text

/-- The type is in canonical form everywhere, and the condition `q` holds everywhere in it. -/
def Formed (q : TypeExpr → Prop) : TypeExpr → Prop :=
  Everywhere fun t => t.IsCanonicalNode ∧ q t

/-- The type is in canonical form everywhere and made of nothing but what a text can hold. -/
abbrev ReadForm (names : String → Prop) (ints : Int → Prop) : TypeExpr → Prop :=
  Formed (IsReadNode names ints)

theorem formed_leaf (hparts : parts t = []) (hcanonical : t.IsCanonicalNode)
    (h : q t) : Formed q t :=
  .intro ⟨hcanonical, h⟩ (by simp [hparts])

section
variable {names : String → Prop} {ints : Int → Prop} {q : TypeExpr → Prop}
  (hq : ∀ t, IsReadNode names ints t → q t)
include hq

theorem of_isReadNode (hregular : t.isRegularNode) (hnumber : t.isNumberNode)
    (hints : t.integers = []) (htemplate : ∀ name bound, t ≠ .template name bound) : q t :=
  hq t ⟨hregular, hnumber, by simp [hints], fun name bound h => absurd h (htemplate name bound)⟩

theorem canonicalClass_formed : CanonicalClass (Formed q) := by
  have hplain : ∀ {t : TypeExpr}, t.isRegularNode → t.isNumberNode →
      t.integers = [] → (∀ name bound, t ≠ .template name bound) → q t :=
    of_isReadNode hq
  exact canonicalClass_everywhere (hplain rfl rfl rfl nofun) (hplain rfl rfl rfl nofun)
    (hplain rfl rfl rfl nofun) (fun _ _ _ => hplain rfl rfl rfl nofun)
    (fun _ _ _ => hplain rfl rfl rfl nofun) fun _ _ _ => hplain rfl rfl rfl nofun

theorem formed_keyword (name : String) : Formed q (.keyword name) :=
  formed_leaf rfl trivial (of_isReadNode hq rfl rfl rfl nofun)

theorem formed_unknown (reason : Label) : Formed q (.unknown reason) :=
  formed_leaf rfl trivial (of_isReadNode hq rfl rfl rfl nofun)

end

/-! ### Conditions on what is read -/

/-- The integer is that of a token, up to its sign. -/
def IsIntegerOf (tokens : List Token) (n : Int) : Prop :=
  ∃ t ∈ tokens, t.kind = .int ∧ ∃ k, Numeral.readLiteral t.value = .ok k ∧ (n = k ∨ n = -k)

/-- A field that is read: by its position, or under an integer of the tokens or a text. -/
inductive IsFieldOf (tokens : List Token) : ShapeField TypeExpr → Prop
  | positional (t : TypeExpr) : IsFieldOf tokens ⟨none, t, false⟩
  | int {n : Int} (hn : IsIntegerOf tokens n) (t : TypeExpr) (optional : Bool) :
      IsFieldOf tokens ⟨some (.int n), t, optional⟩
  | str (k : String) (t : TypeExpr) (optional : Bool) :
      IsFieldOf tokens ⟨some (.str k), t, optional⟩

/-- How a plain shape ends: sealed, or open with no type, a value type, or a key and a value type
for further fields. -/
inductive PlainTail : Flag → Option TypeExpr → Option TypeExpr → Prop
  | closed : PlainTail true none none
  | bare : PlainTail false none none
  | valued (v : TypeExpr) : PlainTail false none (some v)
  | keyed (k v : TypeExpr) : PlainTail false (some k) (some v)

/-- A parameter with truth values for its marks. -/
inductive PlainParameter : CallableParameter TypeExpr → Prop
  | intro (t : TypeExpr) (optional variadic byReference : Bool) :
      PlainParameter ⟨t, optional, variadic, byReference⟩

open Reading in
/-- The condition `q` holds of whatever a rule of the grammar puts together from the tokens. -/
structure ReadNodes (r : Reading) (tokens : List Token) (q : TypeExpr → Prop) : Prop where
  canonical : CanonicalClass (Formed q)
  this : q (.keyword "$this")
  string (text : String) : q (.literal (.str text))
  number {s s1 : List Token} {value : LiteralValue} : s ⊆ tokens →
    Yields (r.number s) value s1 → q (.literal value)
  range {s s1 : List Token} {v : TypeExpr} : s ⊆ tokens → Yields (r.intRange s) v s1 → Formed q v
  alone {t : Token} : t ∈ tokens → t.kind = .identifier → Formed q (r.nameAlone t.value)
  member {t u : Token} {s s1 : List Token} {v : TypeExpr} : t ∈ tokens → t.kind = .identifier →
    s ⊆ tokens → Yields (r.memberReference t.value u s) v s1 → Formed q v
  array (t : TypeExpr) : q (.generic "array" [t])
  generic {t : Token} (args : List TypeExpr) : t ∈ tokens → t.kind = .identifier →
    q (.generic (r.genericName t.value) args)
  conditional {first second : Token} (target whenTrue whenFalse : TypeExpr) (negated : Bool) :
    first ∈ tokens → isTest first second →
      q (.conditional first.value target whenTrue whenFalse negated)
  shape {kind : String} {fields : List (ShapeField TypeExpr)} {s : Bool}
    {key value : Option TypeExpr} : kind ∈ Keyword.shapes → (∀ f ∈ fields, IsFieldOf tokens f) →
      PlainTail s key value → q (.shape kind fields s key value)
  callable {kind : String} {params : List (CallableParameter TypeExpr)}
    (result : Option TypeExpr) : kind ∈ Keyword.callables.map Prod.snd →
      (∀ p ∈ params, PlainParameter p) → q (.callable kind params result)

/-- The value of a phrase that is read from the tokens is made of types with the condition `q`. -/
def Phrase.IsMade (tokens : List Token) (q : TypeExpr → Prop) : Phrase → Prop
  | .type t | .union t | .intersection t | .part t | .single t => Formed q t
  | .items _ ts | .arguments ts => ts ≠ [] ∧ ∀ t ∈ ts, Formed q t
  | .further _ ts => ∀ t ∈ ts, Formed q t
  | .named name t => ∀ a ∈ tokens, a.kind = .identifier → a.value = name → Formed q t
  | .body kind acc t => kind ∈ Keyword.shapes →
      (∀ f ∈ acc, IsFieldOf tokens f ∧ Formed q f.value) → Formed q t
  | .field f => IsFieldOf tokens f ∧ Formed q f.value
  | .tail (key, value) => PlainTail false key value ∧ (∀ t ∈ key, Formed q t) ∧
      ∀ t ∈ value, Formed q t
  | .parameters ps => ∀ p ∈ ps, PlainParameter p ∧ Formed q p.type
  | .parameter p => PlainParameter p ∧ Formed q p.type

section
variable {r : Reading} {tokens : List Token} {q : TypeExpr → Prop}

theorem Phrase.isMade_item {sep : Reading.Separator} {v : TypeExpr} :
    (sep.item v).IsMade tokens q ↔ Formed q v := by
  cases sep <;> rfl

theorem combined_holds {combine : List TypeExpr → TypeExpr} {ts : List TypeExpr}
    (hcombine : (∀ t ∈ ts, q t) → q (combine ts)) (h : ∀ t ∈ ts, q t) :
    q (Reading.combined combine ts) := by
  unfold Reading.combined
  split
  · exact h _ (by simp)
  · exact hcombine h

theorem isFieldOf_of_shapeKey? {s1 : List Token} {key : ShapeKey} {optional : Bool}
    {hlt : s1.length < s.length} (hs : s ⊆ tokens)
    (h : Reading.shapeKey? s = .ok (some ⟨(key, optional), s1, hlt⟩)) (v : TypeExpr) :
    IsFieldOf tokens ⟨some key, v, optional⟩ := by
  obtain ⟨behind, -, hstart, -⟩ := Reading.shapeKey?_eq_some.mp ⟨hlt, h⟩
  obtain ⟨-, ⟨text, ht⟩ | ⟨t, ht, hkind, sign, hsign, hkey⟩⟩ := Reading.keyStart?_cases hstart
  · cases ht
    exact .str ..
  · cases hread : Numeral.readLiteral t.value with
    | error e =>
      rw [hread] at hkey
      cases hkey
    | ok n =>
      rw [hread] at hkey
      cases hkey
      exact .int ⟨t, hs ht, hkind, n, hread, hsign n⟩ v optional

theorem ReadNodes.shapeOf (hq : ReadNodes r tokens q) {fields : List (ShapeField TypeExpr)}
    {s : Bool} (hkind : kind ∈ Keyword.shapes)
    (hfields : ∀ f ∈ fields, IsFieldOf tokens f ∧ Formed q f.value) (htail : PlainTail s key value)
    (hkey : ∀ t ∈ key, Formed q t) (hvalue : ∀ t ∈ value, Formed q t) :
    Formed q (.shape kind fields.reverse s key value) := by
  have hfields : ∀ f ∈ fields.reverse, IsFieldOf tokens f ∧ Formed q f.value :=
    fun f hf => hfields f (mem_reverse.mp hf)
  exact .intro ⟨trivial, hq.shape hkind (fun f hf => (hfields f hf).1) htail⟩
    (forall_parts_shape.mpr ⟨fun f hf => (hfields f hf).2, hkey, hvalue⟩)

theorem ReadNodes.callableOf (hq : ReadNodes r tokens q) {word : String}
    {params : List (CallableParameter TypeExpr)} {result : Option TypeExpr}
    (hkind : Keyword.callables.lookup word = some kind)
    (hparams : ∀ p ∈ params, PlainParameter p ∧ Formed q p.type)
    (hresult : ∀ t ∈ result, Formed q t) : Formed q (.callable kind params result) :=
  .intro ⟨trivial, hq.callable result (mem_map_of_mem (mem_of_lookup hkind))
      fun p hp => (hparams p hp).1⟩
    (forall_parts_callable.mpr ⟨fun p hp => (hparams p hp).2, hresult⟩)

theorem tailTypes?_made {vs : List TypeExpr} (hvs : ∀ t ∈ vs, Formed q t)
    (h : Reading.tailTypes? vs = some (key, value)) :
    Phrase.IsMade tokens q (.tail (key, value)) := by
  rcases Reading.tailTypes?_cases h with ⟨v, rfl, rfl, rfl⟩ | ⟨k, v, rfl, rfl, rfl⟩
  · exact ⟨.valued v, by simp, by simpa using hvs⟩
  · exact ⟨.keyed k v, by simpa using hvs k (by simp), by simpa using hvs v (by simp)⟩

theorem parameterMarks_made {v : TypeExpr} (hv : Formed q v) {variadic : Bool}
    {p : CallableParameter TypeExpr} (hp : (Reading.parameterMarks v variadic s).value = p) :
    Phrase.IsMade tokens q (.parameter p) := by
  rw [Reading.parameterMarks_value] at hp
  subst hp
  exact ⟨.intro .., hv⟩

theorem Reading.Derives.formed {phrase : Phrase} {rest : List Token}
    (h : r.Derives phrase s rest) (hq : ReadNodes r tokens q) (hs : s ⊆ tokens) :
    phrase.IsMade tokens q := by
  induction h with
  | @conditional first _ _ _ s s1 _ _ _ _ _ _ _ htest _ hs1 htarget _ htrue _ _ ihtarget ihtrue
      ihfalse =>
    have hs1 : s1 ⊆ tokens := hs1 ▸ List.Subset.trans (acceptWord_rest "not" s)
      (subset_of_cons_subset (subset_of_cons_subset hs))
    have hs2 := htarget.leaves_cons hs1 rfl
    exact .intro ⟨trivial, hq.conditional _ _ _ _ (hs (by simp)) htest⟩
      (forall_parts_conditional.mpr ⟨ihtarget hs1, ihtrue hs2, ihfalse (htrue.leaves_cons hs2 rfl)⟩)
  | plain _ _ ih => exact ih hs
  | union _ ih => exact combined_holds hq.canonical.unionOf (ih hs).2
  | intersection _ ih => exact combined_holds hq.canonical.intersectionOf (ih hs).2
  | items _ hfirst _ ihfirst ihrest =>
    have hmade := Phrase.isMade_item.mp (ihfirst hs)
    exact ⟨by simp, forall_mem_cons.mpr ⟨hmade, ihrest (hfirst.leaves hs)⟩⟩
  | last _ | parametersEnd _ => exact nofun
  | more _ _ hnext _ ihnext ihrest =>
    have hs := subset_of_cons_subset hs
    exact forall_mem_cons.mpr ⟨Phrase.isMade_item.mp (ihnext hs), ihrest (hnext.leaves hs)⟩
  | question _ _ ih => exact hq.canonical.nullableOf (ih (subset_of_cons_subset hs))
  | part _ _ hw _ ih =>
    refine hw ▸ (arrayMarks_holds (fun t ht => ?_) (ih hs) _).1
    exact .intro ⟨cons_ne_nil _ _, hq.array t⟩ (forall_mem_singleton.mpr ht)
  | paren _ _ _ ih => exact ih (subset_of_cons_subset hs)
  | this _ _ => exact formed_leaf rfl trivial hq.this
  | number _ hvalue => exact formed_leaf rfl trivial (hq.number hs hvalue)
  | string _ => exact formed_leaf rfl trivial (hq.string _)
  | name ht _ ih => exact ih (subset_of_cons_subset hs) _ (hs (by simp)) ht rfl
  | alone _ =>
    rintro a ha hkind rfl
    exact hq.alone ha hkind
  | member _ hmember =>
    rintro a ha hkind rfl
    exact hq.member ha hkind (subset_of_cons_subset hs) hmember
  | callable hkind _ _ _ _ ih =>
    exact fun _ _ _ _ => hq.callableOf hkind (ih (subset_of_cons_subset hs)) nofun
  | callableResult hkind _ hparams _ _ _ ihparams ihresult =>
    have hs := subset_of_cons_subset hs
    have hresult : Formed q _ :=
      ihresult (subset_of_cons_subset (hparams.leaves_cons hs rfl))
    exact fun _ _ _ _ => hq.callableOf hkind (ihparams hs) (by simpa using hresult)
  | shape hshape _ _ ih =>
    exact fun _ _ _ _ => ih (subset_of_cons_subset hs) (by simpa using hshape) nofun
  | range _ _ hrange => exact fun _ _ _ _ => hq.range hs hrange
  | generic _ _ _ _ ih =>
    obtain ⟨hne, hargs⟩ := ih (subset_of_cons_subset hs)
    rintro a ha hkind rfl
    exact .intro ⟨hne, hq.generic _ ha hkind⟩ hargs
  | arguments _ _ _ ih => exact ih hs
  | bodyEnd _ => exact fun hkind hacc => hq.shapeOf hkind hacc .closed nofun nofun
  | bodyTail _ _ _ _ ih =>
    obtain ⟨htail, hkey, hvalue⟩ := ih (subset_of_cons_subset hs)
    exact fun hkind hacc => hq.shapeOf hkind hacc htail hkey hvalue
  | bodyMore _ _ hfield _ _ ihfield ihrest =>
    exact fun hkind hacc => ihrest (hfield.leaves_cons hs rfl) hkind
      (forall_mem_cons.mpr ⟨ihfield hs, hacc⟩)
  | bodyLast _ _ _ _ ih =>
    exact fun hkind hacc => hq.shapeOf hkind (forall_mem_cons.mpr ⟨ih hs, hacc⟩) .closed nofun
      nofun
  | keyed hkey _ ih =>
    exact ⟨isFieldOf_of_shapeKey? hs hkey _, ih (List.Subset.trans (shapeKey?_subset hkey) hs)⟩
  | positional _ _ ih => exact ⟨.positional _, ih hs⟩
  | tailEnd _ => exact ⟨.bare, nofun, nofun⟩
  | tail _ _ htail ih => exact tailTypes?_made (ih (subset_of_cons_subset hs)).2 htail
  | parametersMore _ hparam _ _ ihparam ihrest =>
    exact forall_mem_cons.mpr ⟨ihparam hs, ihrest (hparam.leaves_cons hs rfl)⟩
  | parametersLast _ _ _ _ ih => exact forall_mem_singleton.mpr (ih hs)
  | dots _ _ _ hp _ ih => exact parameterMarks_made (ih (subset_of_cons_subset hs)) hp
  | marks _ _ hp _ => exact parameterMarks_made hq.canonical.mixed hp
  | typed _ _ hp _ ih => exact parameterMarks_made (ih hs) hp

end

/-! ### What a text can hold -/

/-- The decimals among the tokens are numbers. -/
def DecimalsRead (tokens : List Token) : Prop :=
  ∀ t ∈ tokens, t.kind = .float →
    ∃ d, Numeral.readDouble? (String.ofList (t.value.toList.filter (· != '_'))) = some d ∧ d ≠ .nan

section
variable {r : Reading} {tokens s s1 : List Token}

theorem number_cases (hdecimals : DecimalsRead tokens) (hs : s ⊆ tokens) {value : LiteralValue}
    (h : Yields (r.number s) value s1) :
    (∃ n, value = .int n ∧ IsIntegerOf tokens n) ∨ ∃ d, value = .float d ∧ d ≠ .nan := by
  obtain ⟨t, hplain, hvalue⟩ := Reading.yields_number_iff.mp h
  have ht : t ∈ tokens := hs (Reading.unsigned_subset (hplain ▸ mem_cons_self))
  rw [Reading.numeral?] at hvalue
  split at hvalue
  · next hkind =>
    cases hread : Numeral.readLiteral t.value with
    | error e =>
      rw [hread] at hvalue
      cases hvalue
    | ok k =>
      rw [hread] at hvalue
      cases hvalue
      refine Or.inl ⟨_, rfl, t, ht, hkind, k, hread, ?_⟩
      cases (Reading.unsigned s).1 <;> simp
  · split at hvalue
    · next hkind =>
      obtain ⟨d, hd, hnan⟩ := hdecimals t ht hkind
      rw [hd] at hvalue
      cases hvalue
      refine Or.inr ⟨_, rfl, ?_⟩
      cases (Reading.unsigned s).1
      · exact hnan
      · cases d <;> simp_all [Double.neg]
    · cases hvalue

theorem intBound_cases (hdecimals : DecimalsRead tokens) (hs : s ⊆ tokens) {bound : Option Int}
    (h : Yields (r.intBound s) bound s1) : ∀ n ∈ bound, IsIntegerOf tokens n := by
  rcases Reading.yields_intBound_cases h with ⟨t, -, -, rfl⟩ | ⟨m, rfl, -, hnumber⟩
  · exact nofun
  · rintro n ⟨⟩
    rcases number_cases hdecimals hs hnumber with ⟨n, hn, hinteger⟩ | ⟨d, hd, -⟩
    · cases hn
      exact hinteger
    · cases hd

theorem intRange_cases (hdecimals : DecimalsRead tokens) (hs : s ⊆ tokens) {v : TypeExpr}
    (h : Yields (r.intRange s) v s1) : ∃ low high : Option Int,
      v = .intRange (.ofInt? low) (.ofInt? high) ∧ (∀ n ∈ low, IsIntegerOf tokens n) ∧
        ∀ n ∈ high, IsIntegerOf tokens n := by
  obtain ⟨a, b, c, s2, s3, low, high, rfl, -, hlow, -, hhigh, -, rfl⟩ :=
    Reading.yields_intRange_cases h
  have hs2 := subset_of_cons_subset hs
  have hs3 : s3 ⊆ tokens := List.Subset.trans
    (subset_of_cons_subset (Reading.intBound_subset hlow)) hs2
  exact ⟨low, high, rfl, intBound_cases hdecimals hs2 hlow, intBound_cases hdecimals hs3 hhigh⟩

theorem boundInteger?_ofInt? (n : Option Int) : boundInteger? (.ofInt? n) = n := by
  cases n <;> rfl

theorem isReadNode_intRange {low high : Option Int}
    (hlow : ∀ n ∈ low, ints n) (hhigh : ∀ n ∈ high, ints n) :
    IsReadNode names ints (.intRange (.ofInt? low) (.ofInt? high)) := by
  refine ⟨?_, rfl, fun n hn => ?_, nofun⟩
  · cases low <;> cases high <;> rfl
  · simp only [TypeExpr.integers, mem_filterMap, mem_cons, not_mem_nil, or_false]
      at hn
    obtain ⟨b, rfl | rfl, hb⟩ := hn
    · exact hlow n (boundInteger?_ofInt? low ▸ hb)
    · exact hhigh n (boundInteger?_ofInt? high ▸ hb)

theorem isReadNode_shape
    {fields : List (ShapeField TypeExpr)} {s : Bool} (hints : ∀ n, IsIntegerOf tokens n → ints n)
    (hfields : ∀ f ∈ fields, IsFieldOf tokens f) :
    IsReadNode names ints (.shape kind fields s key value) := by
  refine ⟨?_, rfl, fun n hn => ?_, nofun⟩
  · simp only [isRegularNode, Bool.and_eq_true, all_eq_true]
    refine ⟨⟨rfl, rfl⟩, fun f hf => ?_⟩
    cases hfields f hf <;> exact ⟨rfl, rfl⟩
  · obtain ⟨f, hf, hfn⟩ := mem_filterMap.mp hn
    cases hfields f hf with
    | positional => cases hfn
    | int hinteger =>
      cases hfn
      exact hints n hinteger
    | str => cases hfn

theorem isReadNode_callable {params : List (CallableParameter TypeExpr)} {result : Option TypeExpr}
    (hparams : ∀ p ∈ params, PlainParameter p) :
    IsReadNode names ints (.callable kind params result) := by
  refine ⟨?_, rfl, by simp [TypeExpr.integers], nofun⟩
  simp only [isRegularNode, Bool.and_eq_true, all_eq_true]
  refine ⟨rfl, fun p hp => ?_⟩
  cases hparams p hp
  exact ⟨⟨rfl, rfl⟩, rfl⟩

theorem readNodes_of_isReadNode (hq : ∀ t, IsReadNode names ints t → q t)
    (hscope : ∀ name bound, r.scope.templates.get? name = some bound →
      names name ∧ ∀ t ∈ bound, Formed q t)
    (hints : ∀ n, IsIntegerOf tokens n → ints n) (hdecimals : DecimalsRead tokens) :
    ReadNodes r tokens q where
  canonical := canonicalClass_formed hq
  this := of_isReadNode hq rfl rfl rfl (by simp)
  string _ := of_isReadNode hq rfl rfl rfl (by simp)
  number hs h := by
    rcases number_cases hdecimals hs h with ⟨n, rfl, hn⟩ | ⟨d, rfl, hd⟩
    · exact hq _ ⟨rfl, rfl, by simpa [TypeExpr.integers] using hints n hn, by simp⟩
    · exact of_isReadNode hq rfl (by simpa [isNumberNode] using hd) rfl (by simp)
  range hs h := by
    obtain ⟨low, high, rfl, hlow, hhigh⟩ := intRange_cases hdecimals hs h
    exact formed_leaf rfl trivial (hq _ (isReadNode_intRange (fun n hn => hints n (hlow n hn))
      fun n hn => hints n (hhigh n hn)))
  alone {t} _ _ := by
    unfold Reading.nameAlone
    split
    · exact formed_keyword hq _
    · split
      · next bound hbound =>
        unfold Reading.template? at hbound
        split at hbound
        · cases hbound
        · obtain ⟨hname, hbound⟩ := hscope t.value bound hbound
          refine .intro ⟨trivial, hq _ ⟨rfl, rfl, by simp [TypeExpr.integers], ?_⟩⟩ fun u hu => ?_
          · rintro _ _ ⟨⟩
            exact hname
          · exact hbound u (by simpa [parts] using hu)
      · exact formed_leaf rfl trivial (of_isReadNode hq rfl rfl rfl (by simp))
  member _ _ _ h := by
    obtain ⟨_, h⟩ := h
    unfold Reading.memberReference at h
    simp only at h
    split at h
    · cases h
    · cases h
      exact formed_leaf rfl trivial (of_isReadNode hq rfl rfl rfl (by simp))
  array _ := of_isReadNode hq rfl rfl rfl (by simp)
  generic _ _ _ := of_isReadNode hq rfl rfl rfl (by simp)
  conditional _ _ _ _ _ _ := of_isReadNode hq rfl rfl rfl (by simp)
  shape _ hfields _ := hq _ (isReadNode_shape hints hfields)
  callable _ _ hparams := hq _ (isReadNode_callable hparams)

end

/-! ### Whole texts -/

theorem parse_eq_ok_iff {text : String} {scope : Scope} :
    parse text scope = .ok t ↔ ∃ tokens, tokenize text = .ok tokens ∧
      (Reading.mk text scope).Derives (.type t) tokens [] := by
  unfold parse
  cases tokenize text with
  | error stray => simp
  | ok tokens =>
    simp only [Except.ok.injEq, exists_eq_left']
    cases tokens with
    | nil => exact ⟨nofun, fun h => absurd rfl h.ne_nil⟩
    | cons first others =>
      simp only
      constructor
      · intro h
        have houtcome := Reading.type_outcome (r := ⟨text, scope⟩) _
          (List.Subset.refl (first :: others))
        split at h
        · cases h
        · next hread =>
          cases h
          rw [hread] at houtcome
          exact houtcome
        · cases h
      · intro h
        obtain ⟨hlt, hread⟩ := h.read
        rw [hread]

theorem parse_eq_trailing {text : String} {scope : Scope} {u : Token} {tokens rest : List Token}
    (htokens : tokenize text = .ok tokens)
    (h : (Reading.mk text scope).Derives (.type t) tokens (u :: rest)) :
    parse text scope = .error (.malformed (.trailing u.value) u.position text) := by
  unfold parse
  rw [htokens]
  cases tokens with
  | nil => exact absurd rfl h.ne_nil
  | cons first others =>
    obtain ⟨hlt, hread⟩ := h.read
    simp only [hread]
    rfl

section
variable {text : String} {scope : Scope}

/-- **What a text is read as.** With the template parameters of the scope and the integers of the
text, a type is in the form of types that are read. -/
theorem formed_of_parse (hq : ∀ t, IsReadNode names ints t → q t)
    (hscope : ∀ name bound, scope.templates.get? name = some bound →
      names name ∧ ∀ t ∈ bound, Formed q t)
    (hints : ∀ l ∈ integerLiterals text, ∀ n, Numeral.readLiteral l = .ok n → ints n ∧ ints (-n))
    (h : parse text scope = .ok t) : Formed q t := by
  obtain ⟨tokens, htokens, hderives⟩ := parse_eq_ok_iff.mp h
  refine hderives.formed (readNodes_of_isReadNode hq hscope ?_
    fun t ht hkind => exists_readDouble_of_token htokens ht hkind) (List.Subset.refl _)
  rintro n ⟨t, ht, hkind, k, hk, hn⟩
  obtain ⟨hpos, hneg⟩ := hints t.value ((mem_integerLiterals htokens).mpr ⟨t, ht, hkind, rfl⟩) k hk
  rcases hn with rfl | rfl
  · exact hpos
  · exact hneg

theorem exists_integer_of_parse {e : Numeral.Error} (h : parse text scope = .error (.numeral e)) :
    ∃ l ∈ integerLiterals text, Numeral.readLiteral l = .error e := by
  unfold parse at h
  split at h
  · cases h
  · cases h
  · next tokens _ htokens =>
    have houtcome := Reading.type_outcome (r := ⟨text, scope⟩) _ (List.Subset.refl tokens)
    simp only at h
    split at h
    · next hread =>
      cases h
      rw [hread] at houtcome
      obtain ⟨t, ht, hkind, he⟩ := houtcome
      exact ⟨t.value, (mem_integerLiterals htokens).mpr ⟨t, ht, hkind, rfl⟩, he⟩
    · cases h
    · cases h

end

end StubCatalog.TypeExpr
