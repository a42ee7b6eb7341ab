import Mathlib.Data.List.Forall2
import StubCatalog.TypeExpr.Rebuild

/-! # Types part by part

A condition holds *everywhere* in a type if it holds for the type and for everything inside it
(`Everywhere`). A type is *regular* if the words, truth values, bounds and keys inside it are what
their names say (`isRegularNode`). Equality is equality of *frames*, which have nothing of note
inside, and of what is inside them (`same_iff_frame`). -/

namespace StubCatalog

open List

variable {l kind : Label} {a b key value result : Option TypeExpr}
  {fields as bs : List (ShapeField TypeExpr)} {s : Flag}
  {params : List (CallableParameter TypeExpr)} {t u : TypeExpr}

/-- The word is a text. -/
def Label.isText (l : Label) : Bool := l.stored.str?.isSome

/-- The truth value is a truth value. -/
def Flag.isBool (f : Flag) : Bool :=
  match f.stored with
  | .bool _ => true
  | _ => false

/-- The bound is an integer or absent. -/
def Bound.isInteger (b : Bound) : Bool :=
  match b.stored with
  | .int _ | .null => true
  | _ => false

/-- The key is an integer or a text. -/
def ShapeKey.isPlain : ShapeKey → Bool
  | .stored _ => false
  | _ => true

theorem Label.exists_of_isText (h : l.isText) : ∃ s : String, l = ⟨.str s⟩ := by
  obtain ⟨j⟩ := l
  cases j <;> simp [isText, Json.str?] at h ⊢

theorem Flag.exists_of_isBool {f : Flag} (h : f.isBool) : ∃ b : Bool, f = ⟨.bool b⟩ := by
  obtain ⟨j⟩ := f
  cases j <;> simp [isBool] at h ⊢

theorem Bound.exists_of_isInteger {b : Bound} (h : b.isInteger) :
    ∃ n : Option Int, b = .ofInt? n := by
  obtain ⟨j⟩ := b
  cases j with
  | null => exact ⟨none, rfl⟩
  | int n => exact ⟨some n, rfl⟩
  | _ => simp [isInteger] at h

/-! ### Equality of the small parts -/

theorem Label.same_iff {m : Label} (hl : l.isText) (hm : m.isText) : l.same m ↔ l = m := by
  obtain ⟨s, rfl⟩ := exists_of_isText hl
  obtain ⟨t, rfl⟩ := exists_of_isText hm
  show (s == t) ↔ _
  rw [beq_iff_eq, Label.mk.injEq, Json.str.injEq]

theorem Flag.same_iff {f g : Flag} (hf : f.isBool) (hg : g.isBool) : f.same g ↔ f = g := by
  obtain ⟨b, rfl⟩ := exists_of_isBool hf
  obtain ⟨c, rfl⟩ := exists_of_isBool hg
  have hsame : Flag.same ⟨.bool b⟩ ⟨.bool c⟩ = (b == c) := by cases b <;> cases c <;> rfl
  rw [hsame, beq_iff_eq, Flag.mk.injEq, Json.bool.injEq]

theorem Bound.same_iff {b c : Bound} (hb : b.isInteger) (hc : c.isInteger) : b.same c ↔ b = c := by
  obtain ⟨m, rfl⟩ := exists_of_isInteger hb
  obtain ⟨n, rfl⟩ := exists_of_isInteger hc
  cases m with
  | none =>
    cases n with
    | none => exact iff_of_true rfl rfl
    | some n => exact iff_of_false nofun nofun
  | some m =>
    cases n with
    | none => exact iff_of_false nofun nofun
    | some n =>
      show (decide (m ≤ n) && decide (n ≤ m)) ↔ Bound.mk (.int m) = ⟨.int n⟩
      rw [Bool.and_eq_true, decide_eq_true_eq, decide_eq_true_eq, Bound.mk.injEq, Json.int.injEq]
      omega

theorem ShapeKey.same_iff {k l : ShapeKey} (hk : k.isPlain) (hl : l.isPlain) :
    k.same l ↔ k = l := by
  cases k with
  | int m =>
    cases l with
    | int n =>
      show (decide (m ≤ n) && decide (n ≤ m)) ↔ _
      rw [Bool.and_eq_true, decide_eq_true_eq, decide_eq_true_eq, ShapeKey.int.injEq]
      omega
    | str t => exact iff_of_false nofun nofun
    | stored j => cases hl
  | str s =>
    cases l with
    | int n => exact iff_of_false nofun nofun
    | str t =>
      show (s == t) ↔ _
      rw [beq_iff_eq, ShapeKey.str.injEq]
    | stored j => cases hl
  | stored j => cases hk

theorem Label.eq_of_same {m : Label} (hl : l.isText) (hm : m.isText) (h : l.same m) : l = m :=
  (same_iff hl hm).mp h

theorem Bound.eq_of_same {b c : Bound} (hb : b.isInteger) (hc : c.isInteger)
    (h : b.same c) : b = c :=
  (same_iff hb hc).mp h

theorem sameKeys_iff {k l : Option ShapeKey} (hk : k.all ShapeKey.isPlain)
    (hl : l.all ShapeKey.isPlain) : sameKeys k l ↔ k = l := by
  cases k with
  | none => cases l <;> simp [sameKeys]
  | some k =>
    cases l with
    | none => simp [sameKeys]
    | some l =>
      rw [sameKeys, Option.some.injEq]
      exact ShapeKey.same_iff hk hl

/-- The value with one zero in place of both. -/
def LiteralValue.folded : LiteralValue → LiteralValue
  | .float d => .float (if d.isZero then .finite false 0 0 else d)
  | v => v

theorem LiteralValue.same_iff {a b : LiteralValue} :
    a.same b ↔ a.folded = b.folded ∧ a ≠ .float .nan := by
  cases a with
  | float x =>
    cases b with
    | float y =>
      simp only [same, Double.same, folded, Bool.or_eq_true, Bool.and_eq_true, beq_iff_eq,
        bne_iff_ne, LiteralValue.float.injEq, ne_eq]
      have hnan : Double.nan.isZero = false := rfl
      have hzero : (Double.finite false 0 0).isZero := rfl
      grind
    | _ => simp [same, folded]
  | _ => cases b <;> simp [same, folded]

theorem LiteralValue.same_comm (a b : LiteralValue) : a.same b = b.same a := by
  have hnan : ∀ {a b : LiteralValue}, a.folded = b.folded → b = .float .nan → a = .float .nan := by
    rintro a _ h rfl
    cases a with
    | float x =>
      have hzero : Double.nan.isZero = false := rfl
      simp only [folded, hzero, LiteralValue.float.injEq] at h ⊢
      split at h
      · cases h
      · exact h
    | _ => cases h
  rw [Bool.eq_iff_iff, same_iff, same_iff]
  exact ⟨fun h => ⟨h.1.symm, fun hb => h.2 (hnan h.1 hb)⟩,
    fun h => ⟨h.1.symm, fun ha => h.2 (hnan h.1 ha)⟩⟩

namespace TypeExpr

/-! ### Parts -/

/-- The types directly inside a type, the bound of a template parameter included. -/
def parts : TypeExpr → List TypeExpr
  | .template _ bound => bound.toList
  | t => t.children

theorem mem_parts_of_mem_children (h : u ∈ t.children) : u ∈ parts t := by
  cases t with
  | template => simp [children] at h
  | _ => exact h

theorem mem_parts_of_field {f : ShapeField TypeExpr} (hf : f ∈ fields) :
    f.value ∈ parts (.shape kind fields s key value) :=
  mem_append_left _ (mem_append_left _ (mem_map_of_mem hf))

theorem mem_parts_of_extraKey (ht : t ∈ key) : t ∈ parts (.shape kind fields s key value) :=
  mem_append_left _ (mem_append_right _ (Option.mem_toList.mpr ht))

theorem mem_parts_of_extraValue (ht : t ∈ value) : t ∈ parts (.shape kind fields s key value) :=
  mem_append_right _ (Option.mem_toList.mpr ht)

theorem mem_parts_of_parameter {p : CallableParameter TypeExpr} (hp : p ∈ params) :
    p.type ∈ parts (.callable kind params result) :=
  mem_append_left _ (mem_map_of_mem hp)

theorem mem_parts_of_result (ht : t ∈ result) : t ∈ parts (.callable kind params result) :=
  mem_append_right _ (Option.mem_toList.mpr ht)

section
variable {P : TypeExpr → Prop}

theorem forall_parts_shape : (∀ u ∈ parts (.shape kind fields s key value), P u) ↔
      (∀ f ∈ fields, P f.value) ∧ (∀ t ∈ key, P t) ∧ ∀ t ∈ value, P t := by
  refine ⟨fun h => ⟨fun f hf => h _ (mem_parts_of_field hf),
    fun t ht => h t (mem_parts_of_extraKey ht), fun t ht => h t (mem_parts_of_extraValue ht)⟩, ?_⟩
  rintro ⟨hfields, hkey, hvalue⟩ u hu
  simp only [parts, children, mem_append, mem_map, Option.mem_toList] at hu
  rcases hu with (⟨f, hf, rfl⟩ | hu) | hu
  · exact hfields f hf
  · exact hkey u hu
  · exact hvalue u hu

theorem forall_parts_callable : (∀ u ∈ parts (.callable kind params result), P u) ↔
      (∀ p ∈ params, P p.type) ∧ ∀ t ∈ result, P t := by
  refine ⟨fun h => ⟨fun p hp => h _ (mem_parts_of_parameter hp),
    fun t ht => h t (mem_parts_of_result ht)⟩, ?_⟩
  rintro ⟨hparams, hresult⟩ u hu
  simp only [parts, children, mem_append, mem_map, Option.mem_toList] at hu
  rcases hu with ⟨p, hp, rfl⟩ | hu
  · exact hparams p hp
  · exact hresult u hu

theorem forall_parts_conditional {subject : Label} {target whenTrue whenFalse : TypeExpr}
    {negated : Flag} :
    (∀ u ∈ parts (.conditional subject target whenTrue whenFalse negated), P u) ↔
      P target ∧ P whenTrue ∧ P whenFalse := by
  simp [parts, children]

end

theorem size_le_sizeParameters {p : CallableParameter TypeExpr} :
    ∀ {ps : List (CallableParameter TypeExpr)}, p ∈ ps → p.type.size ≤ sizeParameters ps
  | ⟨t, _, _, _⟩ :: qs, h => by
    rcases mem_cons.mp h with rfl | h
    · simp [sizeParameters]
    · have := size_le_sizeParameters h
      simp only [sizeParameters]
      omega

theorem size_lt_of_mem_parts (h : u ∈ parts t) : u.size < t.size := by
  cases t with
  | nullable t =>
    obtain rfl : u = t := by simpa [parts, children] using h
    simp [size]
  | union ts | intersection ts | generic _ ts =>
    have := size_le_sizeList (show u ∈ ts from h)
    simp only [size]
    omega
  | shape kind fields s key value =>
    simp only [parts, children, mem_append, mem_map, Option.mem_toList] at h
    simp only [size]
    rcases h with (⟨f, hf, rfl⟩ | rfl) | rfl
    · have := size_le_sizeFields hf
      omega
    · simp only [sizeOption]
      omega
    · simp only [sizeOption]
      omega
  | conditional subject target whenTrue whenFalse negated =>
    simp only [parts, children, mem_cons, not_mem_nil, or_false] at h
    simp only [size]
    rcases h with rfl | rfl | rfl <;> omega
  | template name bound =>
    obtain rfl : bound = some u := by simpa [parts] using h
    simp [size, sizeOption]
  | callable kind params result =>
    simp only [parts, children, mem_append, mem_map, Option.mem_toList] at h
    simp only [size]
    rcases h with ⟨p, hp, rfl⟩ | rfl
    · have := size_le_sizeParameters hp
      omega
    · simp only [sizeOption]
      omega
  | keyword | named | literal | intRange | memberReference | unknown =>
    simp [parts, children] at h

theorem partsInduction {P : TypeExpr → Prop} (step : ∀ t, (∀ u ∈ parts t, P u) → P t)
    (t : TypeExpr) : P t :=
  step t fun u hu =>
    have := size_lt_of_mem_parts hu
    partsInduction step u
termination_by t.size

/-- The condition holds for a type and for everything inside it. -/
inductive Everywhere (p : TypeExpr → Prop) : TypeExpr → Prop
  | intro {t : TypeExpr} (here : p t) (inside : ∀ u ∈ parts t, Everywhere p u) : Everywhere p t

section Everywhere
variable {p q : TypeExpr → Prop} {t u : TypeExpr}

theorem Everywhere.here (h : Everywhere p t) : p t := by
  cases h with
  | intro h _ => exact h

theorem Everywhere.inside (h : Everywhere p t) (hu : u ∈ parts t) : Everywhere p u := by
  cases h with
  | intro _ h => exact h u hu

theorem Everywhere.mono (h : Everywhere p t) (hpq : ∀ u, p u → q u) : Everywhere q t := by
  induction h with
  | intro here _ ih => exact .intro (hpq _ here) ih

theorem everywhere_iff : Everywhere p t ↔ p t ∧ ∀ u ∈ parts t, Everywhere p u :=
  ⟨fun h => ⟨h.here, fun _ hu => h.inside hu⟩, fun h => .intro h.1 h.2⟩

theorem Everywhere.of_mem_unionParts (h : Everywhere p t) (hu : u ∈ unionParts t) :
    Everywhere p u := by
  cases t with
  | union ts => exact h.inside hu
  | _ => exact mem_singleton.mp hu ▸ h

theorem Everywhere.of_mem_intersectionParts (h : Everywhere p t) (hu : u ∈ intersectionParts t) :
    Everywhere p u := by
  cases t with
  | intersection ts => exact h.inside hu
  | _ => exact mem_singleton.mp hu ▸ h

instance decidableEverywhere [DecidablePred p] (t : TypeExpr) : Decidable (Everywhere p t) :=
  have : ∀ u : { u // u ∈ parts t }, Decidable (Everywhere p u.1) := fun u =>
    have := size_lt_of_mem_parts u.2
    decidableEverywhere u.1
  decidable_of_iff (p t ∧ ∀ u ∈ (parts t).attach, Everywhere p u.1) (by
    rw [everywhere_iff]
    simp)
termination_by t.size

end Everywhere

/-! ### Alternatives as sets -/

theorem sameTable_eq_map (as bs : List TypeExpr) :
    sameTable as bs = as.map fun a => bs.map fun b => a.same b := by
  induction as with
  | nil => rw [sameTable, map_nil]
  | cons a as ih => rw [sameTable, ih, map_cons]

theorem foldl_sameTable (f : TypeExpr → Bool) (as bs : List TypeExpr) :
    (sameTable as bs).foldl (List.zipWith (· || ·)) (bs.map f) =
      bs.map fun b => f b || as.any fun a => a.same b := by
  induction as generalizing f with
  | nil => simp [sameTable]
  | cons a as ih =>
    have hzip : List.zipWith (· || ·) (bs.map f) (bs.map fun b => a.same b) =
        bs.map fun b => f b || a.same b := by
      rw [zipWith_map, zipWith_self]
    rw [sameTable, foldl_cons, hzip, ih]
    simp only [any_cons, Bool.or_assoc]

theorem isCovering_sameTable (as bs : List TypeExpr) : isCovering bs.length (sameTable as bs) =
      ((as.all fun a => bs.any fun b => a.same b) && bs.all fun b => as.any fun a => a.same b) := by
  have hcolumns : List.replicate bs.length false = bs.map fun _ => false := by
    rw [map_const']
  rw [isCovering, hcolumns, foldl_sameTable, sameTable_eq_map]
  simp only [all_map, Bool.false_or]
  congr 1
  simp only [Function.comp_def, any_map, id]

/-! ### Regular types -/

/-- The words, truth values, bounds and keys that stand directly in a type are what they should
be. -/
def isRegularNode : TypeExpr → Bool
  | .keyword name => name.isText
  | .shape kind fields s _ _ =>
    kind.isText && s.isBool && fields.all fun f => f.optional.isBool && f.key.all ShapeKey.isPlain
  | .conditional subject _ _ _ negated => subject.isText && negated.isBool
  | .template name _ => name.isText
  | .intRange low high => low.isInteger && high.isInteger
  | .callable kind params _ =>
    kind.isText && params.all fun p => p.optional.isBool && p.variadic.isBool &&
      p.byReference.isBool
  | .memberReference _ member => member.isText
  | _ => true

/-- The words, truth values, bounds and keys anywhere in the type are what they should be. -/
def Regular : TypeExpr → Prop := Everywhere fun t => t.isRegularNode

/-- The type is no decimal that is no number. -/
def isNumberNode : TypeExpr → Bool
  | .literal (.float d) => d != .nan
  | _ => true

/-! ### Frames -/

/-- The field without its type. -/
def hollowField (f : ShapeField TypeExpr) : ShapeField TypeExpr := { f with value := mixed }

/-- The parameter without its type. -/
def hollowParameter (p : CallableParameter TypeExpr) : CallableParameter TypeExpr :=
  { p with type := mixed }

/-- The type with nothing of note inside it. -/
def frame : TypeExpr → TypeExpr
  | .nullable _ => .nullable mixed
  | .union _ => .union []
  | .intersection _ => .intersection []
  | .generic name ts => .generic name (List.replicate ts.length mixed)
  | .shape kind fields s key value =>
    .shape kind (fields.map hollowField) s (key.map fun _ => mixed) (value.map fun _ => mixed)
  | .conditional subject _ _ _ negated => .conditional subject mixed mixed mixed negated
  | .callable kind params result =>
    .callable kind (params.map hollowParameter) (result.map fun _ => mixed)
  | t => t

theorem eq_of_maps {α β γ : Type} {f : α → β} {g : α → γ} {xs ys : List α}
    (hinj : ∀ a b, f a = f b → g a = g b → a = b) (hf : xs.map f = ys.map f)
    (hg : xs.map g = ys.map g) : xs = ys := by
  have hpair : Function.Injective fun a => (f a, g a) := fun a b h =>
    hinj a b (Prod.mk.inj h).1 (Prod.mk.inj h).2
  refine map_injective_iff.mpr hpair ?_
  rw [← zip_map', ← zip_map', hf, hg]

theorem hollowField_inj (f g : ShapeField TypeExpr) (hframe : hollowField f = hollowField g)
    (hvalue : f.value = g.value) : f = g := by
  cases f
  cases g
  simp_all [hollowField]

theorem hollowParameter_inj (p q : CallableParameter TypeExpr)
    (hframe : hollowParameter p = hollowParameter q) (htype : p.type = q.type) : p = q := by
  cases p
  cases q
  simp_all [hollowParameter]

theorem option_ext (h : a.toList = b.toList) : a = b := by
  cases a <;> cases b <;> simp_all

theorem length_of_hollow (h : a.map (fun _ => mixed) = b.map fun _ => mixed) :
    a.toList.length = b.toList.length := by
  cases a <;> cases b <;> simp_all

theorem eq_of_frame (hframe : t.frame = u.frame) (hchildren : t.children = u.children) : t = u := by
  cases t with
  | shape kind fields s key value =>
    cases u with
    | shape kind' fields' s' key' value' =>
      simp only [frame, TypeExpr.shape.injEq] at hframe
      obtain ⟨rfl, hfields, rfl, hkey, hvalue⟩ := hframe
      simp only [children, append_assoc] at hchildren
      have hlength := congrArg List.length hfields
      obtain ⟨hvalues, hrest⟩ := append_inj hchildren (by simpa using hlength)
      obtain ⟨hkeys, hvalues'⟩ := append_inj hrest (length_of_hollow hkey)
      rw [eq_of_maps hollowField_inj hfields hvalues, option_ext hkeys, option_ext hvalues']
    | _ => cases hframe
  | callable kind params result =>
    cases u with
    | callable kind' params' result' =>
      simp only [frame, TypeExpr.callable.injEq] at hframe
      obtain ⟨rfl, hparams, hresult⟩ := hframe
      have hlength := congrArg List.length hparams
      obtain ⟨htypes, hresults⟩ := append_inj hchildren (by simpa using hlength)
      rw [eq_of_maps hollowParameter_inj hparams htypes, option_ext hresults]
    | _ => cases hframe
  | _ => cases u <;> simp_all [frame, children]

/-- The types inside are compared as a set. -/
def isBag : TypeExpr → Bool
  | .union _ | .intersection _ => true
  | _ => false

/-- Every type of the first list equals one of the second. -/
def Among (ts us : List TypeExpr) : Prop := ∀ t ∈ ts, ∃ u ∈ us, t.same u

theorem isCovering_iff {ts us : List TypeExpr} : isCovering us.length (sameTable ts us) ↔
      Among ts us ∧ ∀ u ∈ us, ∃ t ∈ ts, t.same u := by
  simp only [isCovering_sameTable, Bool.and_eq_true, all_eq_true, any_eq_true, Among]

theorem isCovering_nil : isCovering 0 (sameTable [] []) := by simp [sameTable, isCovering]

/-- The types of the two lists equal one another, in order. -/
abbrev Paired : List TypeExpr → List TypeExpr → Prop := List.Forall₂ fun t u => t.same u

theorem paired_append_iff {as bs cs ds : List TypeExpr} (h : as.length = bs.length) :
    Paired (as ++ cs) (bs ++ ds) ↔ Paired as bs ∧ Paired cs ds := by
  induction as generalizing bs with
  | nil => simp [eq_nil_of_length_eq_zero h.symm, Paired]
  | cons a as ih =>
    cases bs with
    | nil => cases h
    | cons b bs =>
      simp only [cons_append, Paired, List.forall₂_cons, and_assoc] at ih ⊢
      rw [ih (Nat.succ.inj h)]

/-- The types inside two types equal one another, as sets or in order. -/
def Matched (bag : Bool) (ts us : List TypeExpr) : Prop :=
  if bag then Among ts us ∧ ∀ u ∈ us, ∃ t ∈ ts, t.same u else Paired ts us

theorem sameList_iff {as bs : List TypeExpr} : sameList as bs ↔ Paired as bs := by
  induction as generalizing bs with
  | nil => cases bs <;> simp [sameList, Paired]
  | cons a as ih => cases bs <;> simp [sameList, Paired, ih]

theorem same_mixed : mixed.same mixed := by
  rw [same]
  exact (Label.same_iff rfl rfl).mpr rfl

theorem sameList_hollow {m n : Nat} :
    sameList (List.replicate m mixed) (List.replicate n mixed) ↔ m = n := by
  induction m generalizing n with
  | zero => cases n <;> simp [sameList, replicate_succ]
  | succ m ih => cases n <;> simp [sameList, replicate_succ, same_mixed, ih]

theorem sameOption_iff : sameOption a b ↔ sameOption (a.map fun _ => mixed) (b.map fun _ => mixed) ∧
      Paired a.toList b.toList := by
  cases a <;> cases b <;> simp [sameOption, Paired, same_mixed]

theorem sameFields_iff : sameFields as bs ↔ sameFields (as.map hollowField) (bs.map hollowField) ∧
      Paired (as.map ShapeField.value) (bs.map ShapeField.value) := by
  induction as generalizing bs with
  | nil => cases bs <;> simp [sameFields, Paired]
  | cons f as ih =>
    cases bs with
    | nil => simp [sameFields]
    | cons g bs =>
      obtain ⟨k, a, o⟩ := f
      obtain ⟨l, b, p⟩ := g
      simp only [map_cons, hollowField, sameFields, Bool.and_eq_true, same_mixed, ih, Paired,
        List.forall₂_cons]
      tauto

theorem sameParameters_iff {as bs : List (CallableParameter TypeExpr)} : sameParameters as bs ↔
      sameParameters (as.map hollowParameter) (bs.map hollowParameter) ∧
        Paired (as.map CallableParameter.type) (bs.map CallableParameter.type) := by
  induction as generalizing bs with
  | nil => cases bs <;> simp [sameParameters, Paired]
  | cons p as ih =>
    cases bs with
    | nil => simp [sameParameters]
    | cons q bs =>
      obtain ⟨a, o, v, r⟩ := p
      obtain ⟨b, o', v', r'⟩ := q
      simp only [map_cons, hollowParameter, sameParameters, Bool.and_eq_true, same_mixed, ih,
        Paired, List.forall₂_cons]
      tauto

theorem length_of_sameFields (h : sameFields (as.map hollowField) (bs.map hollowField)) :
    (as.map ShapeField.value).length = (bs.map ShapeField.value).length := by
  simpa using (sameFields_iff.mp h).2.length_eq

theorem length_of_sameParameters {as bs : List (CallableParameter TypeExpr)}
    (h : sameParameters (as.map hollowParameter) (bs.map hollowParameter)) :
    (as.map CallableParameter.type).length = (bs.map CallableParameter.type).length := by
  simpa using (sameParameters_iff.mp h).2.length_eq

theorem length_of_sameOption (h : sameOption (a.map fun _ => mixed) (b.map fun _ => mixed)) :
    a.toList.length = b.toList.length := by
  cases a <;> cases b <;> simp_all [sameOption]

/-- **Two types are equal** if and only if they look alike from outside and the types inside them
are equal. -/
theorem same_iff_frame : t.same u ↔
    t.frame.same u.frame ∧ Matched t.isBag t.children u.children := by
  cases t with
  | nullable t =>
    cases u with
    | nullable u => simp [same, frame, Matched, isBag, children, same_mixed]
    | _ => simp only [same, frame, Bool.false_eq_true, false_and]
  | union ts | intersection ts =>
    cases u with
    | union us | intersection us =>
      first
        | simp only [same, frame, Bool.false_eq_true, false_and]; done
        | simp [same, frame, isCovering_iff, Matched, isBag, children, Among, isCovering_nil]
    | _ => simp only [same, frame, Bool.false_eq_true, false_and]
  | generic name ts =>
    cases u with
    | generic name' us =>
      simp only [same, frame, sameList_hollow, Bool.and_eq_true, @sameList_iff ts]
      exact ⟨fun h => ⟨⟨h.1, h.2.length_eq⟩, h.2⟩, fun h => ⟨h.1.1, h.2⟩⟩
    | _ => simp only [same, frame, Bool.false_eq_true, false_and]
  | shape kind fields s key value =>
    cases u with
    | shape kind' fields' s' key' value' =>
      have hsplit : sameFields (fields.map hollowField) (fields'.map hollowField) →
          sameOption (key.map fun _ => mixed) (key'.map fun _ => mixed) →
          (Matched false (TypeExpr.shape kind fields s key value).children
            (TypeExpr.shape kind' fields' s' key' value').children ↔
          (Paired (fields.map ShapeField.value) (fields'.map ShapeField.value) ∧
            Paired key.toList key'.toList) ∧ Paired value.toList value'.toList) := by
        intro hfields hkey
        have hfields := length_of_sameFields hfields
        have hboth : (fields.map ShapeField.value ++ key.toList).length =
            (fields'.map ShapeField.value ++ key'.toList).length := by
          rw [length_append, length_append, hfields, length_of_sameOption hkey]
        rw [← paired_append_iff hfields, ← paired_append_iff hboth]
        exact Iff.rfl
      simp only [same, frame, isBag, Bool.and_eq_true, @sameFields_iff fields,
        @sameOption_iff key, @sameOption_iff value]
      grind
    | _ => simp only [same, frame, Bool.false_eq_true, false_and]
  | conditional subject target whenTrue whenFalse negated =>
    cases u with
    | conditional =>
      simp [same, frame, Matched, isBag, children, same_mixed]
      tauto
    | _ => simp only [same, frame, Bool.false_eq_true, false_and]
  | callable kind params result =>
    cases u with
    | callable kind' params' result' =>
      have hsplit : sameParameters (params.map hollowParameter) (params'.map hollowParameter) =
          true → (Matched false (TypeExpr.callable kind params result).children
            (TypeExpr.callable kind' params' result').children ↔
          Paired (params.map CallableParameter.type) (params'.map CallableParameter.type) ∧
            Paired result.toList result'.toList) := by
        intro hparams
        rw [← paired_append_iff (length_of_sameParameters hparams)]
        exact Iff.rfl
      simp only [same, frame, isBag, Bool.and_eq_true, @sameParameters_iff params,
        @sameOption_iff result]
      grind
    | _ => simp only [same, frame, Bool.false_eq_true, false_and]
  | _ => cases u <;> simp [same, frame, Matched, isBag, children]

/-- The frame without what equality does not look at. -/
def folded : TypeExpr → TypeExpr
  | .named name => .named (Text.lower name)
  | .generic name ts => .generic (Text.lower name) ts
  | .template name _ => .template name none
  | .literal value => .literal value.folded
  | .unknown _ => .unknown ""
  | t => t

theorem sameFields_hollow (has : ∀ f ∈ as, f.optional.isBool ∧ f.key.all ShapeKey.isPlain)
    (hbs : ∀ f ∈ bs, f.optional.isBool ∧ f.key.all ShapeKey.isPlain) :
    sameFields (as.map hollowField) (bs.map hollowField) ↔
      as.map hollowField = bs.map hollowField := by
  induction as generalizing bs with
  | nil => cases bs <;> simp [sameFields]
  | cons f as ih =>
    cases bs with
    | nil => simp [sameFields]
    | cons g bs =>
      obtain ⟨⟨hf, hfkey⟩, has⟩ := forall_mem_cons.mp has
      obtain ⟨⟨hg, hgkey⟩, hbs⟩ := forall_mem_cons.mp hbs
      simp [hollowField, sameFields, same_mixed, sameKeys_iff hfkey hgkey, Flag.same_iff hf hg,
        ih has hbs]

theorem sameParameters_hollow {as bs : List (CallableParameter TypeExpr)}
    (has : ∀ p ∈ as, (p.optional.isBool ∧ p.variadic.isBool) ∧ p.byReference.isBool)
    (hbs : ∀ p ∈ bs, (p.optional.isBool ∧ p.variadic.isBool) ∧ p.byReference.isBool) :
    sameParameters (as.map hollowParameter) (bs.map hollowParameter) ↔
      as.map hollowParameter = bs.map hollowParameter := by
  induction as generalizing bs with
  | nil => cases bs <;> simp [sameParameters]
  | cons p as ih =>
    cases bs with
    | nil => simp [sameParameters]
    | cons q bs =>
      obtain ⟨⟨⟨hp1, hp2⟩, hp3⟩, has⟩ := forall_mem_cons.mp has
      obtain ⟨⟨⟨hq1, hq2⟩, hq3⟩, hbs⟩ := forall_mem_cons.mp hbs
      simp [hollowParameter, sameParameters, same_mixed, Flag.same_iff hp1 hq1,
        Flag.same_iff hp2 hq2, Flag.same_iff hp3 hq3, ih has hbs, and_assoc]

theorem sameOption_hollow : sameOption (a.map fun _ => mixed) (b.map fun _ => mixed) ↔
      a.map (fun _ => mixed) = b.map fun _ => mixed := by
  cases a <;> cases b <;> simp [sameOption, same_mixed]

theorem same_frame_iff (ht : t.isRegularNode) (hu : u.isRegularNode) :
    t.frame.same u.frame ↔ t.frame.folded = u.frame.folded ∧ t.isNumberNode := by
  cases t with
  | keyword name | template name =>
    cases u with
    | keyword name' | template name' =>
      first
        | simp [frame, folded, same]; done
        | simp only [frame, folded, same, Label.same_iff ht hu, isNumberNode, and_true,
            TypeExpr.keyword.injEq, TypeExpr.template.injEq]
    | _ => simp [frame, folded, same]
  | shape kind fields s key value =>
    cases u with
    | shape kind' fields' s' key' value' =>
      simp only [isRegularNode, Bool.and_eq_true, all_eq_true] at ht hu
      simp [frame, folded, same, isNumberNode, Label.same_iff ht.1.1 hu.1.1,
        Flag.same_iff ht.1.2 hu.1.2, sameFields_hollow ht.2 hu.2, sameOption_hollow, and_assoc]
    | _ => simp [frame, folded, same]
  | conditional subject target whenTrue whenFalse negated =>
    cases u with
    | conditional =>
      simp only [isRegularNode, Bool.and_eq_true] at ht hu
      simp [frame, folded, same, isNumberNode, same_mixed, Label.same_iff ht.1 hu.1,
        Flag.same_iff ht.2 hu.2]
    | _ => simp [frame, folded, same]
  | literal v =>
    cases u with
    | literal w =>
      have hnumber : (TypeExpr.literal v).isNumberNode ↔ v ≠ .float .nan := by
        cases v <;> simp [isNumberNode]
      simp only [frame, folded, same, LiteralValue.same_iff, hnumber, TypeExpr.literal.injEq]
    | _ => simp [frame, folded, same]
  | intRange low high =>
    cases u with
    | intRange =>
      simp only [isRegularNode, Bool.and_eq_true] at ht hu
      simp [frame, folded, same, isNumberNode, Bound.same_iff ht.1 hu.1, Bound.same_iff ht.2 hu.2]
    | _ => simp [frame, folded, same]
  | callable kind params result =>
    cases u with
    | callable =>
      simp only [isRegularNode, Bool.and_eq_true, all_eq_true] at ht hu
      simp [frame, folded, same, isNumberNode, Label.same_iff ht.1 hu.1,
        sameParameters_hollow ht.2 hu.2, sameOption_hollow, and_assoc]
    | _ => simp [frame, folded, same]
  | memberReference owner member =>
    cases u with
    | memberReference =>
      simp only [frame, folded, same, Bool.and_eq_true, beq_iff_eq, isNumberNode, and_true,
        TypeExpr.memberReference.injEq, Label.same_iff ht hu]
    | _ => simp [frame, folded, same]
  | _ =>
    cases u <;>
      simp [frame, folded, same, isNumberNode, sameList_hollow, same_mixed, isCovering_nil]

theorem isNumberNode_folded (t : TypeExpr) : t.frame.folded.isNumberNode = t.isNumberNode := by
  cases t with
  | literal v =>
    cases v with
    | float d =>
      have hzero : d.isZero → d ≠ .nan := by
        rintro h rfl
        cases h
      simp only [frame, folded, LiteralValue.folded, isNumberNode]
      split
      · next h =>
        rw [bne_iff_ne.mpr (hzero h)]
        rfl
      · rfl
    | _ => rfl
  | _ => rfl

theorem isBag_folded (t : TypeExpr) : t.frame.folded.isBag = t.isBag := by
  cases t <;> rfl

/-! ### An equivalence -/

section
variable {ts us vs : List TypeExpr} {bag : Bool}

theorem matched_refl (h : ∀ t ∈ ts, t.same t) : Matched bag ts ts := by
  cases bag with
  | true => exact ⟨fun t ht => ⟨t, ht, h t ht⟩, fun t ht => ⟨t, ht, h t ht⟩⟩
  | false => exact List.forall₂_same.mpr h

theorem matched_map_iff {f : TypeExpr → TypeExpr}
    (hf : ∀ t ∈ ts, ∀ u, (f t).same (f u) = t.same u) :
    Matched bag (ts.map f) (us.map f) ↔ Matched bag ts us := by
  cases bag with
  | true =>
    have hright : ∀ u, (∃ t ∈ ts, t.same u) ↔ ∃ t ∈ ts, (f t).same (f u) :=
      fun u => exists_congr fun t => and_congr_right fun ht => by rw [hf t ht]
    simp only [Matched, if_true, Among, mem_map, exists_exists_and_eq_and, forall_exists_index,
      and_imp, forall_apply_eq_imp_iff₂, hright]
    refine and_congr_left fun _ => forall₂_congr fun t ht => ?_
    simp only [hf t ht]
  | false =>
    change Paired (ts.map f) (us.map f) ↔ Paired ts us
    induction ts generalizing us with
    | nil => cases us <;> simp [Paired]
    | cons t ts ih =>
      cases us with
      | nil => simp [Paired]
      | cons u us =>
        simp only [Paired, map_cons, List.forall₂_cons, hf t (by simp)] at ih ⊢
        rw [ih fun v hv => hf v (by simp [hv])]

theorem Matched.imp (h : Matched bag ts us) {f g : TypeExpr → TypeExpr}
    (hf : ∀ t ∈ ts, ∀ u ∈ us, t.same u → (f t).same (g u)) :
    Matched bag (ts.map f) (us.map g) := by
  cases bag with
  | true =>
    refine ⟨forall_mem_map.mpr fun t ht => ?_, forall_mem_map.mpr fun u hu => ?_⟩
    · obtain ⟨u, hu, htu⟩ := h.1 t ht
      exact ⟨g u, mem_map_of_mem hu, hf t ht u hu htu⟩
    · obtain ⟨t, ht, htu⟩ := h.2 u hu
      exact ⟨f t, mem_map_of_mem ht, hf t ht u hu htu⟩
  | false =>
    change Paired ts us at h
    change Paired (ts.map f) (us.map g)
    induction h with
    | nil => exact .nil
    | cons htu _ ih =>
      exact .cons (hf _ (by simp) _ (by simp) htu)
        (ih fun t ht u hu => hf t (by simp [ht]) u (by simp [hu]))

theorem Matched.symm (h : Matched bag ts us)
    (hsymm : ∀ t ∈ ts, ∀ u ∈ us, t.same u → u.same t) : Matched bag us ts := by
  cases bag with
  | true =>
    refine ⟨fun u hu => ?_, fun t ht => ?_⟩
    · obtain ⟨t, ht, htu⟩ := h.2 u hu
      exact ⟨t, ht, hsymm t ht u hu htu⟩
    · obtain ⟨u, hu, htu⟩ := h.1 t ht
      exact ⟨u, hu, hsymm t ht u hu htu⟩
  | false =>
    change Paired ts us at h
    change Paired us ts
    induction h with
    | nil => exact .nil
    | cons htu _ ih =>
      exact .cons (hsymm _ (by simp) _ (by simp) htu)
        (ih fun t ht u hu => hsymm t (by simp [ht]) u (by simp [hu]))

theorem Matched.trans (h : Matched bag ts us) (h' : Matched bag us vs)
    (htrans : ∀ t ∈ ts, ∀ u ∈ us, ∀ v ∈ vs, t.same u → u.same v →
      t.same v) : Matched bag ts vs := by
  cases bag with
  | true =>
    refine ⟨fun t ht => ?_, fun v hv => ?_⟩
    · obtain ⟨u, hu, htu⟩ := h.1 t ht
      obtain ⟨v, hv, huv⟩ := h'.1 u hu
      exact ⟨v, hv, htrans t ht u hu v hv htu huv⟩
    · obtain ⟨u, hu, huv⟩ := h'.2 v hv
      obtain ⟨t, ht, htu⟩ := h.2 u hu
      exact ⟨t, ht, htrans t ht u hu v hv htu huv⟩
  | false =>
    change Paired ts us at h
    change Paired us vs at h'
    change Paired ts vs
    induction h generalizing vs with
    | nil => exact h'
    | cons htu _ ih =>
      cases h' with
      | cons huv hrest =>
        exact .cons (htrans _ (by simp) _ (by simp) _ (by simp) htu huv)
          (ih (fun t ht u hu v hv => htrans t (by simp [ht]) u (by simp [hu]) v (by simp [hv]))
            hrest)

end

theorem same_refl (hregular : Regular t)
    (hnumber : Everywhere (fun t => t.isNumberNode) t) : t.same t := by
  induction hregular with
  | @intro t here _ ih =>
    refine same_iff_frame.mpr ⟨(same_frame_iff here here).mpr ⟨rfl, hnumber.here⟩,
      matched_refl fun u hu => ?_⟩
    have hu := mem_parts_of_mem_children hu
    exact ih u hu (hnumber.inside hu)

theorem same_symm {a b : TypeExpr} (ha : Regular a) (hb : Regular b) (h : a.same b) : b.same a := by
  induction ha generalizing b with
  | @intro a here _ ih =>
    obtain ⟨hframe, hinside⟩ := same_iff_frame.mp h
    obtain ⟨hfolded, hnumber⟩ := (same_frame_iff here hb.here).mp hframe
    refine same_iff_frame.mpr ⟨(same_frame_iff hb.here here).mpr ⟨hfolded.symm, ?_⟩, ?_⟩
    · rw [← isNumberNode_folded, ← hfolded, isNumberNode_folded, hnumber]
    · rw [← isBag_folded b, ← hfolded, isBag_folded]
      exact hinside.symm fun t ht u hu =>
        ih t (mem_parts_of_mem_children ht) (hb.inside (mem_parts_of_mem_children hu))

theorem same_comm {a b : TypeExpr} (ha : Regular a) (hb : Regular b) : a.same b = b.same a :=
  Bool.eq_iff_iff.mpr ⟨same_symm ha hb, same_symm hb ha⟩

theorem same_trans {a b c : TypeExpr} (ha : Regular a) (hb : Regular b) (hc : Regular c)
    (hab : a.same b) (hbc : b.same c) : a.same c := by
  induction ha generalizing b c with
  | @intro a here _ ih =>
    obtain ⟨hframe, hinside⟩ := same_iff_frame.mp hab
    obtain ⟨hframe', hinside'⟩ := same_iff_frame.mp hbc
    obtain ⟨hfolded, hnumber⟩ := (same_frame_iff here hb.here).mp hframe
    obtain ⟨hfolded', -⟩ := (same_frame_iff hb.here hc.here).mp hframe'
    refine same_iff_frame.mpr
      ⟨(same_frame_iff here hc.here).mpr ⟨hfolded.trans hfolded', hnumber⟩, ?_⟩
    rw [← isBag_folded b, ← hfolded, isBag_folded] at hinside'
    exact hinside.trans hinside' fun t ht u hu v hv =>
      ih t (mem_parts_of_mem_children ht) (hb.inside (mem_parts_of_mem_children hu))
        (hc.inside (mem_parts_of_mem_children hv))

end TypeExpr

end StubCatalog
