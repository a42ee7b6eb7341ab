import StubCatalog.Build.Finish
import StubCatalog.Proofs.Table

/-! # Following one reference

A reference that is followed changes the constant at its site and no other (`get?_follow`). What can
happen while a constant is settled is said once (`Settles`). -/

namespace StubCatalog.Build

open List

/-! ### Related options -/

section
variable {α : Type} {r : α → α → Prop} {x y z : Option α} {f : α → α}

theorem rel_refl (h : ∀ a, r a a) (x : Option α) : Option.Rel r x x := by
  cases x with
  | none => exact .none
  | some a => exact .some (h a)

theorem rel_trans (h : ∀ a b c, r a b → r b c → r a c) (hxy : Option.Rel r x y)
    (hyz : Option.Rel r y z) : Option.Rel r x z := by
  cases hxy with
  | none => exact hyz
  | some hab =>
    cases hyz with
    | some hbc => exact .some (h _ _ _ hab hbc)

theorem rel_map (h : ∀ a, r a (f a)) (x : Option α) : Option.Rel r x (x.map f) := by
  cases x with
  | none => exact .none
  | some a => exact .some (h a)

theorem rel_map_left (h : Option.Rel r x y) (hf : ∀ a b, y = some b → r a b → r (f a) b) :
    Option.Rel r (x.map f) y := by
  cases h with
  | none => exact .none
  | some hab => exact .some (hf _ _ rfl hab)

end

section
variable {α β γ δ : Type} {r : α → β → Prop} {x : Option α} {y : Option β} {a : α} {b : β}

theorem rel_bind {s : γ → δ → Prop} {f : α → Option γ} {g : β → Option δ}
    (hxy : Option.Rel r x y) (h : ∀ a b, r a b → Option.Rel s (f a) (g b)) :
    Option.Rel s (x.bind f) (y.bind g) := by
  cases hxy with
  | none => exact .none
  | some hab => exact h _ _ hab

theorem bind_eq_of_rel {f : α → Option γ} {g : β → Option γ} (hxy : Option.Rel r x y)
    (h : ∀ a b, r a b → f a = g b) : x.bind f = y.bind g := by
  cases hxy with
  | none => rfl
  | some hab => exact h _ _ hab

theorem any_eq_of_rel {p : α → Bool} {q : β → Bool} (hxy : Option.Rel r x y)
    (h : ∀ a b, r a b → p a = q b) : x.any p = y.any q := by
  cases hxy with
  | none => rfl
  | some hab => exact h _ _ hab

theorem rel_mono {s : α → β → Prop} (hxy : Option.Rel r x y) (h : ∀ a b, r a b → s a b) :
    Option.Rel s x y := by
  cases hxy with
  | none => exact .none
  | some hab => exact .some (h _ _ hab)

theorem exists_of_rel (h : Option.Rel r x (some b)) : ∃ a, x = some a ∧ r a b := by
  cases h with
  | some hab => exact ⟨_, rfl, hab⟩

theorem exists_of_rel_left (h : Option.Rel r (some a) y) : ∃ b, y = some b ∧ r a b := by
  cases h with
  | some hab => exact ⟨_, rfl, hab⟩

theorem eq_none_of_rel (h : Option.Rel r none y) : y = none := by
  cases h
  rfl

theorem isSome_eq_of_rel (h : Option.Rel r x y) : x.isSome = y.isSome := by
  cases h <;> rfl

end

namespace Constants

variable {state : Constants}

/-! ### Changing a constant -/

theorem get?_modify (state : Constants) (site other : ConstantSite)
    (f : ConstantEntry → ConstantEntry) :
    (state.modify site f).get? other =
      if other = site then (state.get? other).map f else state.get? other := by
  cases site with
  | global key =>
    cases other with
    | global key' => simp [modify, get?, Table.get?_modify]
    | member owner name => simp [modify, get?]
  | member owner name =>
    cases other with
    | global key' => simp [modify, get?]
    | member owner' name' =>
      by_cases howner : owner' = owner
      · subst howner
        cases hentry : state.classes.get? owner' with
        | none => simp [modify, get?, Table.get?_modify, hentry]
        | some entry => simp [modify, get?, Table.get?_modify, hentry]
      · simp [modify, get?, Table.get?_modify, howner]

/-- What a reference makes of its constant, where `found` is the constant that it refers to. -/
def takeFrom (reference : OpenReference) (found : Option ConstantEntry) (entry : ConstantEntry) :
    ConstantEntry :=
  match found with
  | some target => takeOver reference.hasDeclaredType target entry
  | none => entry

/-- The constant at the site of a reference takes over what is known about the one at another
site. -/
def follow (state : Constants) (p : Pending) (site : ConstantSite) : Constants :=
  match state.get? site with
  | some target => state.modify p.site (takeOver p.target.hasDeclaredType target)
  | none => state

theorem get?_follow (p : Pending) (site other : ConstantSite) :
    (state.follow p site).get? other =
      if other = p.site then (state.get? other).map (takeFrom p.target (state.get? site))
      else state.get? other := by
  unfold follow
  split
  · next target htarget =>
    rw [htarget]
    exact get?_modify state p.site other _
  · next hnone =>
    rw [hnone]
    split
    · exact Option.map_id_apply.symm
    · rfl

/-! ### Settling a constant -/

/-- How a constant is settled, with the state behind and the references that are left: its reference
leads nowhere, or it is followed, after the constant that it leads to is settled if a reference is
left there. -/
inductive Settles (state : Constants) :
    Pending → List Pending → Constants → List Pending → Prop
  | unresolved {p : Pending} {others : List Pending} (htarget : state.target? p.target = none) :
      Settles state p others state others
  | ready {p : Pending} {others : List Pending} {site : ConstantSite}
      (htarget : state.target? p.target = some site) (hfree : ∀ q ∈ others, q.site ≠ site) :
      Settles state p others (state.follow p site) others
  | waits {p next : Pending} {others rest : List Pending} {after : Constants}
      (htarget : state.target? p.target = some next.site) (hnext : next ∈ others)
      (hsettles : Settles state next (others.filter (·.site != next.site)) after rest) :
      Settles state p others (after.follow p next.site) rest

theorem settles_settle (state : Constants) (p : Pending) (others : List Pending) :
    Settles state p others (state.settle p others).1 (state.settle p others).2.1 := by
  fun_induction settle state p others with
  | case1 p others htarget => exact .unresolved htarget
  | case2 p others site htarget after hget ih
  | case3 p others site htarget after _ hget ih =>
    have hsettles : Settles state p others (after.1.follow p site) after.2.1 := by
      unfold after
      split
      · next hfind =>
        exact .ready htarget fun q hq => by simpa using find?_eq_none.mp hfind q hq
      · next next hfind =>
        obtain rfl : next.site = site := by simpa using find?_some hfind
        exact .waits htarget (mem_of_find?_eq_some hfind) (ih next hfind)
    simpa only [follow, hget] using hsettles

section
variable {P : Constants → Prop} {pending : List Pending}
  (hfollow : ∀ before state p site, p ∈ pending → P before → before.target? p.target = some site →
    P state → P (state.follow p site))
include hfollow

theorem Settles.keeps {after : Constants} {p : Pending} {others rest : List Pending}
    (hsettles : Settles state p others after rest) (hp : p ∈ pending)
    (hothers : ∀ q ∈ others, q ∈ pending) (h : P state) :
    P after ∧ ∀ q ∈ rest, q ∈ pending := by
  induction hsettles with
  | unresolved => exact ⟨h, hothers⟩
  | ready htarget => exact ⟨hfollow _ _ _ _ hp h htarget h, hothers⟩
  | waits htarget hnext _ ih =>
    obtain ⟨hafter, hrest⟩ :=
      ih (hothers _ hnext) fun q hq => hothers q (mem_filter.mp hq).1
    exact ⟨hfollow _ _ _ _ hp h htarget hafter, hrest⟩

theorem settleAll_keeps {left : List Pending} (hleft : ∀ p ∈ left, p ∈ pending) (h : P state) :
    P (state.settleAll left) := by
  fun_induction settleAll state left with
  | case1 => exact h
  | case2 state first others next rest _ hsettle ih =>
    obtain ⟨hfirst, hothers⟩ := forall_mem_cons.mp hleft
    have hsettles := settles_settle state first others
    rw [hsettle] at hsettles
    obtain ⟨hnext, hrest⟩ := hsettles.keeps hfollow hfirst hothers h
    exact ih hrest hnext

end

end Constants

end StubCatalog.Build
