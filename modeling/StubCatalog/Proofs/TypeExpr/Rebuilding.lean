import StubCatalog.Proofs.TypeExpr.Same

/-! # Rebuilding types

A *solid* type, which is no template parameter and not put together of members, is rebuilt with the
same frame from what becomes of the types inside it (`holds_rebuild`), in any sort of computation
(`Carries`). -/

namespace StubCatalog.TypeExpr

open List

/-! ### Conditions on what is computed -/

/-- A sense in which what a computation comes to may have a property, such that a value with the
property has it and one step passes it on to the next. -/
structure Carries (m : Type → Type) [Monad m] where
  holds {α : Type} : (α → Prop) → m α → Prop
  pure {α : Type} {P : α → Prop} {a : α} : P a → holds P (pure a)
  bind {α β : Type} {P : α → Prop} {Q : β → Prop} {x : m α} {f : α → m β} :
    holds P x → (∀ a, P a → holds Q (f a)) → holds Q (x >>= f)
  mono {α : Type} {P Q : α → Prop} {x : m α} : holds P x → (∀ a, P a → Q a) → holds Q x

/-- The result has the property. -/
def Carries.result : Carries Id where
  holds P x := P x.run
  pure h := h
  bind hx hf := hf _ hx
  mono hx h := h _ hx

/-- The result has the property, or there is an error that is allowed. -/
def Carries.orError {ε : Type} (allowed : ε → Prop) : Carries (Except ε) where
  holds P
    | .ok a => P a
    | .error e => allowed e
  pure h := h
  bind {_ _ _ _ x _} hx hf := by
    cases x with
    | ok a => exact hf a hx
    | error e => exact hx
  mono {_ _ _ x} hx h := by
    cases x with
    | ok a => exact h a hx
    | error e => exact hx

/-- There is a result for certain, and it has the property. -/
def Carries.value {m : Type → Type} [Monad m] [LawfulMonad m] : Carries m where
  holds P x := ∃ a, x = Pure.pure a ∧ P a
  pure h := ⟨_, rfl, h⟩
  bind hx hf := by
    obtain ⟨a, rfl, ha⟩ := hx
    rw [pure_bind]
    exact hf a ha
  mono hx h := by
    obtain ⟨a, rfl, ha⟩ := hx
    exact ⟨a, rfl, h a ha⟩

/-! ### Solid types -/

/-- The type is no template parameter and not put together of members. -/
def isSolid : TypeExpr → Bool
  | .nullable _ | .union _ | .intersection _ | .template .. => false
  | _ => true

theorem isSolid_frame (t : TypeExpr) : t.frame.isSolid = t.isSolid := by cases t <;> rfl

theorem isRegularNode_frame (t : TypeExpr) : t.frame.isRegularNode = t.isRegularNode := by
  cases t <;>
    simp [frame, isRegularNode, all_map, Function.comp_def, hollowField, hollowParameter]

theorem isNumberNode_frame (t : TypeExpr) : t.frame.isNumberNode = t.isNumberNode := by
  cases t <;> rfl

theorem isRegularNode_of_frame {t u : TypeExpr} (h : t.frame = u.frame)
    (ht : t.isRegularNode) : u.isRegularNode := by
  rw [← isRegularNode_frame, ← h, isRegularNode_frame, ht]

theorem parts_of_isSolid {t : TypeExpr} (h : t.isSolid) : parts t = t.children := by
  cases t with
  | template => cases h
  | _ => rfl

theorem Everywhere.of_frame {p : TypeExpr → Prop} {t u : TypeExpr} (hsolid : t.isSolid)
    (hframe : u.frame = t.frame) (here : p u) (h : ∀ v ∈ u.children, Everywhere p v) :
    Everywhere p u := by
  refine .intro here ?_
  rwa [parts_of_isSolid (by rw [← isSolid_frame, hframe, isSolid_frame, hsolid])]

section
variable {m : Type → Type} [Monad m] (c : Carries m) {w : Treatment m}
  {P : TypeExpr → TypeExpr → Prop}

theorem holds_rebuildList {ts : List TypeExpr} (h : ∀ t ∈ ts, c.holds (P t) (rebuild w t)) :
    c.holds (List.Forall₂ P ts) (rebuildList w ts) := by
  induction ts with
  | nil => exact c.pure .nil
  | cons t ts ih =>
    refine c.bind (h t (by simp)) fun u hu => ?_
    exact c.bind (ih fun v hv => h v (by simp [hv])) fun us hus => c.pure (.cons hu hus)

theorem holds_rebuildOption {t : Option TypeExpr} (h : ∀ u ∈ t, c.holds (P u) (rebuild w u)) :
    c.holds (fun u => u.map (fun _ => mixed) = t.map (fun _ => mixed) ∧
      List.Forall₂ P t.toList u.toList) (rebuildOption w t) := by
  cases t with
  | none => exact c.pure ⟨rfl, .nil⟩
  | some t => exact c.bind (h t rfl) fun u hu => c.pure ⟨rfl, .cons hu .nil⟩

theorem holds_rebuildFields {fs : List (ShapeField TypeExpr)}
    (h : ∀ f ∈ fs, c.holds (P f.value) (rebuild w f.value)) :
    c.holds (fun gs => gs.map hollowField = fs.map hollowField ∧
      List.Forall₂ P (fs.map ShapeField.value) (gs.map ShapeField.value)) (rebuildFields w fs) := by
  induction fs with
  | nil => exact c.pure ⟨rfl, .nil⟩
  | cons f fs ih =>
    refine c.bind (h f (by simp)) fun u hu => ?_
    refine c.bind (ih fun g hg => h g (by simp [hg])) fun gs hgs => ?_
    exact c.pure ⟨by simp [hgs.1, hollowField], .cons hu hgs.2⟩

theorem holds_rebuildParameters {ps : List (CallableParameter TypeExpr)}
    (h : ∀ p ∈ ps, c.holds (P p.type) (rebuild w p.type)) :
    c.holds (fun rs => rs.map hollowParameter = ps.map hollowParameter ∧
      List.Forall₂ P (ps.map CallableParameter.type) (rs.map CallableParameter.type))
      (rebuildParameters w ps) := by
  induction ps with
  | nil => exact c.pure ⟨rfl, .nil⟩
  | cons p ps ih =>
    refine c.bind (h p (by simp)) fun u hu => ?_
    refine c.bind (ih fun r hr => h r (by simp [hr])) fun rs hrs => ?_
    exact c.pure ⟨by simp [hrs.1, hollowParameter], .cons hu hrs.2⟩

/-- **A solid type is rebuilt part by part**, if conditionals are kept where it is one. -/
theorem holds_rebuild {t : TypeExpr} (hsolid : t.isSolid)
    (hconditional : t.isConditional → w.onConditional = keepConditional)
    (h : ∀ u ∈ t.children, c.holds (P u) (rebuild w u)) :
    c.holds (fun r => r.frame = t.frame ∧ List.Forall₂ P t.children r.children) (rebuild w t) := by
  have hparts : ∀ u ∈ parts t, c.holds (P u) (rebuild w u) := by rwa [parts_of_isSolid hsolid]
  cases t with
  | nullable | union | intersection | template => cases hsolid
  | generic name ts =>
    refine c.bind (holds_rebuildList c hparts) fun us hus => c.pure ⟨?_, hus⟩
    simp only [frame, hus.length_eq]
  | shape kind fields s key value =>
    refine c.bind (holds_rebuildFields c fun f hf => hparts _ (mem_parts_of_field hf))
      fun gs hgs => ?_
    refine c.bind (holds_rebuildOption c fun u hu => hparts u (mem_parts_of_extraKey hu))
      fun key' hkey => ?_
    refine c.bind (holds_rebuildOption c fun u hu => hparts u (mem_parts_of_extraValue hu))
      fun value' hvalue => c.pure ⟨?_, rel_append (rel_append hgs.2 hkey.2) hvalue.2⟩
    simp only [frame, hgs.1, hkey.1, hvalue.1]
  | conditional subject target whenTrue whenFalse negated =>
    rw [rebuild, hconditional rfl]
    refine c.bind (hparts target (by simp [parts, children])) fun t ht => ?_
    refine c.bind (hparts whenTrue (by simp [parts, children])) fun a ha => ?_
    exact c.bind (hparts whenFalse (by simp [parts, children])) fun b hb =>
      c.pure ⟨rfl, .cons ht (.cons ha (.cons hb .nil))⟩
  | callable kind params result =>
    refine c.bind (holds_rebuildParameters c fun p hp => hparts _ (mem_parts_of_parameter hp))
      fun rs hrs => ?_
    refine c.bind (holds_rebuildOption c fun u hu => hparts u (mem_parts_of_result hu))
      fun result' hresult => c.pure ⟨?_, rel_append hrs.2 hresult.2⟩
    simp only [frame, hrs.1, hresult.1]
  | keyword | named | literal | intRange | memberReference | unknown => exact c.pure ⟨rfl, .nil⟩

end

theorem exists_of_forall₂ {α β : Type} {R : α → β → Prop} {xs : List α} {ys : List β}
    (h : List.Forall₂ R xs ys) : ∀ y ∈ ys, ∃ x ∈ xs, R x y := by
  induction h with
  | nil => simp
  | @cons x y xs ys hxy _ ih =>
    refine forall_mem_cons.mpr ⟨⟨x, by simp, hxy⟩, fun y' hy' => ?_⟩
    obtain ⟨x', hx', h⟩ := ih y' hy'
    exact ⟨x', by simp [hx'], h⟩

theorem forall_of_forall₂ {α β : Type} {Q : β → Prop} {xs : List α} {ys : List β}
    (h : List.Forall₂ (fun _ y => Q y) xs ys) : ∀ y ∈ ys, Q y := fun y hy => by
  obtain ⟨_, _, h⟩ := exists_of_forall₂ h y hy
  exact h

theorem eq_map_of_forall₂ {α β : Type} {f : α → β} {xs : List α} {ys : List β}
    (h : List.Forall₂ (fun x y => y = f x) xs ys) : ys = xs.map f := by
  induction h with
  | nil => rfl
  | cons hxy _ ih => rw [hxy, ih, map_cons]

end StubCatalog.TypeExpr
