import Mathlib.Data.List.Basic
import StubCatalog.Proofs.TypeExpr.ReadForm

/-! # Equality of ordinary types

An *ordinary* type is canonical, regular, and without decimals that are no numbers (`Ordinary`). On
these, equality is an equivalence, and repetitions may be dropped early. -/

namespace StubCatalog.TypeExpr

open List

variable {t : TypeExpr} {g : TypeExpr → List TypeExpr}

/-! ### Ordinary types -/

/-- The type is in canonical form, regular, and has no decimals that are no numbers. -/
def Ordinary : TypeExpr → Prop :=
  Formed fun t => t.isRegularNode ∧ t.isNumberNode

theorem ordinary_of_readForm {names : String → Prop} {ints : Int → Prop}
    (h : ReadForm names ints t) : Ordinary t :=
  h.mono fun _ hu => ⟨hu.1, hu.2.regular, hu.2.number⟩

theorem canonicalClass_ordinary : CanonicalClass Ordinary :=
  canonicalClass_formed fun _ (h : IsReadNode (fun _ => True) (fun _ => True) _) =>
    ⟨h.regular, h.number⟩

namespace Ordinary
variable {a b c : TypeExpr}

theorem induct {P : ∀ t, Ordinary t → Prop}
    (step : ∀ t (ht : Ordinary t), (∀ u hu, P u (ht.inside hu)) → P t ht) (ht : Ordinary t) :
    P t ht := by
  induction t using partsInduction with
  | step t ih => exact step t ht fun u hu => ih u hu _

theorem regular (h : Ordinary a) : Regular a := h.mono fun _ hu => hu.2.1

theorem same_self (h : Ordinary a) : a.same a :=
  TypeExpr.same_refl h.regular (h.mono fun _ hu => hu.2.2)

theorem same_symm (ha : Ordinary a) (hb : Ordinary b) (h : a.same b) : b.same a := by
  rwa [TypeExpr.same_comm hb.regular ha.regular]

theorem same_trans (ha : Ordinary a) (hb : Ordinary b) (hc : Ordinary c) (hab : a.same b)
    (hbc : b.same c) : a.same c :=
  TypeExpr.same_trans ha.regular hb.regular hc.regular hab hbc

end Ordinary

/-- A way to take types apart that gives equal types for equal ones. -/
structure Respects (g : TypeExpr → List TypeExpr) : Prop where
  ordinary {t u : TypeExpr} : Ordinary t → u ∈ g t → Ordinary u
  among {t u : TypeExpr} : Ordinary t → Ordinary u → t.same u → Among (g t) (g u)

theorem respects_singleton : Respects fun t => [t] where
  ordinary ht hu := by simp_all
  among {t u} _ _ h x hx := ⟨u, by simp, by simp_all⟩

theorem Respects.comp {f : TypeExpr → TypeExpr} (hg : Respects g) (hf : Respects fun t => [f t]) :
    Respects fun t => g (f t) where
  ordinary ht hu := hg.ordinary (hf.ordinary ht (by simp)) hu
  among {t u} ht hu h := by
    obtain ⟨v, hv, hsame⟩ := hf.among ht hu h (f t) (by simp)
    obtain rfl : v = f u := by simpa using hv
    exact hg.among (hf.ordinary ht (by simp)) (hf.ordinary hu (by simp)) hsame

theorem Respects.among_flatMap (hg : Respects g) {ts us : List TypeExpr}
    (hts : ∀ t ∈ ts, Ordinary t) (hus : ∀ u ∈ us, Ordinary u) (h : Among ts us) :
    Among (ts.flatMap g) (us.flatMap g) := by
  intro x hx
  obtain ⟨t, ht, hx⟩ := mem_flatMap.mp hx
  obtain ⟨u, hu, htu⟩ := h t ht
  obtain ⟨y, hy, hxy⟩ := hg.among (hts t ht) (hus u hu) htu x hx
  exact ⟨y, mem_flatMap.mpr ⟨u, hu, hy⟩, hxy⟩

theorem Respects.filter (hg : Respects g) {p : TypeExpr → Bool}
    (hp : ∀ t u, t.same u → Ordinary t → Ordinary u → p t = p u) :
    Respects fun t => (g t).filter p where
  ordinary ht hu := hg.ordinary ht (mem_filter.mp hu).1
  among {t u} ht hu h x hx := by
    obtain ⟨hx, hpx⟩ := mem_filter.mp hx
    obtain ⟨y, hy, hxy⟩ := hg.among ht hu h x hx
    have hpy : p y := by
      rw [← hp x y hxy (hg.ordinary ht hx) (hg.ordinary hu hy), hpx]
    exact ⟨y, mem_filter.mpr ⟨hy, hpy⟩, hxy⟩

/-! ### Repetitions -/

section
variable {seen ts us : List TypeExpr}

theorem distinctFrom_cons_known (h : ∃ u ∈ seen, u.same t) :
    distinctFrom seen (t :: ts) = distinctFrom seen ts := by
  rw [distinctFrom, if_pos (any_eq_true.mpr h)]

theorem distinctFrom_cons_new (h : ¬ ∃ u ∈ seen, u.same t) :
    distinctFrom seen (t :: ts) = t :: distinctFrom (t :: seen) ts := by
  rw [distinctFrom, if_neg fun hany => h (any_eq_true.mp hany)]

theorem distinctFrom_congr {seen' : List TypeExpr}
    (h : ∀ t ∈ ts, (∃ u ∈ seen, u.same t) ↔ ∃ u ∈ seen', u.same t) :
    distinctFrom seen ts = distinctFrom seen' ts := by
  induction ts generalizing seen seen' with
  | nil => rfl
  | cons t ts ih =>
    have hts := fun v hv => h v (mem_cons_of_mem t hv)
    by_cases hknown : ∃ u ∈ seen, u.same t
    · rw [distinctFrom_cons_known hknown,
        distinctFrom_cons_known ((h t (by simp)).mp hknown), ih hts]
    · rw [distinctFrom_cons_new hknown,
        distinctFrom_cons_new fun h' => hknown ((h t (by simp)).mpr h')]
      refine congrArg _ (ih fun v hv => ?_)
      simp only [exists_mem_cons_iff, hts v hv]

theorem distinctFrom_known_append (h : ∀ t ∈ ts, ∃ u ∈ seen, u.same t) :
    distinctFrom seen (ts ++ us) = distinctFrom seen us := by
  induction ts with
  | nil => rfl
  | cons t ts ih =>
    rw [cons_append, distinctFrom_cons_known (h t (by simp)),
      ih fun v hv => h v (by simp [hv])]

theorem distinctFrom_append (hseen : ∀ t ∈ seen, Ordinary t) (hts : ∀ t ∈ ts, Ordinary t)
    (hus : ∀ t ∈ us, Ordinary t) :
    distinctFrom seen (ts ++ us) = distinctFrom seen ts ++ distinctFrom (ts ++ seen) us := by
  induction ts generalizing seen with
  | nil => rfl
  | cons t ts ih =>
    obtain ⟨ht, hts⟩ := forall_mem_cons.mp hts
    rw [cons_append]
    by_cases hknown : ∃ u ∈ seen, u.same t
    · rw [distinctFrom_cons_known hknown, distinctFrom_cons_known hknown, ih hseen hts]
      obtain ⟨u, hu, hut⟩ := hknown
      refine congrArg _ (distinctFrom_congr fun v hv => ?_)
      rw [cons_append, exists_mem_cons_iff]
      refine ⟨Or.inr, fun h => h.elim (fun htv => ?_) id⟩
      exact ⟨u, by simp [hu], (hseen u hu).same_trans ht (hus v hv) hut htv⟩
    · rw [distinctFrom_cons_new hknown, distinctFrom_cons_new hknown,
        ih (forall_mem_cons.mpr ⟨ht, hseen⟩) hts]
      refine congrArg _ (congrArg _ (distinctFrom_congr fun v hv => exists_congr fun u => ?_))
      simp only [mem_append, mem_cons, cons_append, or_left_comm]

theorem exists_same_distinctFrom (ht : Ordinary t) (h : t ∈ ts) :
    (∃ u ∈ seen, u.same t) ∨ ∃ u ∈ distinctFrom seen ts, u.same t := by
  induction ts generalizing seen with
  | nil => simp at h
  | cons v ts ih =>
    by_cases hknown : ∃ u ∈ seen, u.same v
    · rw [distinctFrom_cons_known hknown]
      rcases mem_cons.mp h with rfl | h
      · exact Or.inl hknown
      · exact ih h
    · rw [distinctFrom_cons_new hknown]
      rcases mem_cons.mp h with rfl | h
      · exact Or.inr ⟨t, by simp, ht.same_self⟩
      · rcases @ih (v :: seen) h with ⟨u, hu, hut⟩ | ⟨u, hu, hut⟩
        · rcases mem_cons.mp hu with rfl | hu
          · exact Or.inr ⟨u, by simp, hut⟩
          · exact Or.inl ⟨u, hu, hut⟩
        · exact Or.inr ⟨u, by simp [hu], hut⟩

theorem exists_same_distinct (hts : ∀ t ∈ ts, Ordinary t) (h : t ∈ ts) :
    ∃ u ∈ distinct ts, u.same t :=
  (exists_same_distinctFrom (hts t h) h).resolve_left (by simp)

theorem among_distinct (hts : ∀ t ∈ ts, Ordinary t) : Among ts (distinct ts) := by
  intro t ht
  obtain ⟨u, hu, hut⟩ := exists_same_distinct hts ht
  exact ⟨u, hu, (hts u (mem_of_mem_distinct hu)).same_symm (hts t ht) hut⟩

theorem Respects.among_distinct (hg : Respects g) (hts : ∀ t ∈ ts, Ordinary t)
    (hus : ∀ u ∈ us, Ordinary u) (h : Among ts us) :
    Among (distinct (ts.flatMap g)) (distinct (us.flatMap g)) := by
  have hordinary : ∀ {vs : List TypeExpr}, (∀ v ∈ vs, Ordinary v) →
      ∀ x ∈ vs.flatMap g, Ordinary x := by
    intro vs hvs x hx
    obtain ⟨v, hv, hx⟩ := mem_flatMap.mp hx
    exact hg.ordinary (hvs v hv) hx
  intro x hx
  have hx := mem_of_mem_distinct hx
  obtain ⟨y, hy, hxy⟩ := hg.among_flatMap hts hus h x hx
  obtain ⟨z, hz, hyz⟩ := TypeExpr.among_distinct (hordinary hus) y hy
  have hz' := hordinary hus z (mem_of_mem_distinct hz)
  exact ⟨z, hz, (hordinary hts x hx).same_trans (hordinary hus y hy) hz' hxy hyz⟩

theorem filter_distinctFrom {p : TypeExpr → Bool} (hts : ∀ t ∈ ts, Ordinary t)
    (hp : ∀ t u, t.same u → Ordinary t → Ordinary u → p t = p u) :
    (distinctFrom seen ts).filter p = distinctFrom seen (ts.filter p) := by
  induction ts generalizing seen with
  | nil => rfl
  | cons t ts ih =>
    obtain ⟨ht, hts⟩ := forall_mem_cons.mp hts
    by_cases hknown : ∃ u ∈ seen, u.same t
    · rw [distinctFrom_cons_known hknown, ih hts]
      cases hpt : p t with
      | true => rw [filter_cons_of_pos hpt, distinctFrom_cons_known hknown]
      | false => rw [filter_cons_of_neg (by simp [hpt])]
    · rw [distinctFrom_cons_new hknown]
      cases hpt : p t with
      | true =>
        rw [filter_cons_of_pos hpt, filter_cons_of_pos hpt, ih hts,
          distinctFrom_cons_new hknown]
      | false =>
        rw [filter_cons_of_neg (by simp [hpt]), filter_cons_of_neg (by simp [hpt]),
          ih hts]
        refine distinctFrom_congr fun v hv => ?_
        obtain ⟨hv, hpv⟩ := mem_filter.mp hv
        rw [exists_mem_cons_iff]
        refine ⟨fun h => h.resolve_left fun htv => ?_, Or.inr⟩
        rw [hp t v htv ht (hts v hv), hpv] at hpt
        cases hpt

theorem distinctFrom_flatMap_distinctFrom {met : List TypeExpr} (hg : Respects g)
    (hseen : ∀ t ∈ seen, Ordinary t) (hmet : ∀ t ∈ met, Ordinary t)
    (hknown : ∀ t ∈ met, ∀ x ∈ g t, ∃ y ∈ seen, y.same x) (hts : ∀ t ∈ ts, Ordinary t)
    (hus : ∀ t ∈ us, Ordinary t) :
    distinctFrom seen ((distinctFrom met ts).flatMap g ++ us) =
      distinctFrom seen (ts.flatMap g ++ us) := by
  induction ts generalizing seen met with
  | nil => rfl
  | cons t ts ih =>
    obtain ⟨ht, hts⟩ := forall_mem_cons.mp hts
    have hgt : ∀ x ∈ g t, Ordinary x := fun x hx => hg.ordinary ht hx
    rw [flatMap_cons, append_assoc]
    by_cases hold : ∃ r ∈ met, r.same t
    · rw [distinctFrom_cons_known hold, ih hseen hmet hknown hts]
      obtain ⟨r, hr, hrt⟩ := hold
      have hr' := hmet r hr
      refine (distinctFrom_known_append fun x hx => ?_).symm
      obtain ⟨y, hy, hxy⟩ := hg.among ht hr' (hr'.same_symm ht hrt) x hx
      obtain ⟨z, hz, hzy⟩ := hknown r hr y hy
      have hyo := hg.ordinary hr' hy
      exact ⟨z, hz, (hseen z hz).same_trans hyo (hgt x hx) hzy ((hgt x hx).same_symm hyo hxy)⟩
    · have hrest : ∀ vs : List TypeExpr, (∀ v ∈ vs, Ordinary v) →
          ∀ x ∈ vs.flatMap g ++ us, Ordinary x := by
        intro vs hvs x hx
        rcases mem_append.mp hx with hx | hx
        · obtain ⟨v, hv, hx⟩ := mem_flatMap.mp hx
          exact hg.ordinary (hvs v hv) hx
        · exact hus x hx
      rw [distinctFrom_cons_new hold, flatMap_cons, append_assoc,
        distinctFrom_append hseen hgt (hrest _ hts),
        distinctFrom_append hseen hgt (hrest _ fun v hv => hts v (mem_of_mem_distinctFrom hv).1)]
      refine congrArg _ (ih ?_ (forall_mem_cons.mpr ⟨ht, hmet⟩) ?_ hts)
      · exact fun x hx => (mem_append.mp hx).elim (hgt x) (hseen x)
      · intro r hr x hx
        rcases mem_cons.mp hr with rfl | hr
        · exact ⟨x, by simp [hx], (hgt x hx).same_self⟩
        · obtain ⟨y, hy, hyx⟩ := hknown r hr x hx
          exact ⟨y, by simp [hy], hyx⟩

/-- **Repetitions may be dropped early**, before the types are taken apart. -/
theorem distinctFrom_flatMap_distinct (hg : Respects g) (hseen : ∀ t ∈ seen, Ordinary t)
    (hts : ∀ t ∈ ts, Ordinary t) (hus : ∀ t ∈ us, Ordinary t) :
    distinctFrom seen ((distinct ts).flatMap g ++ us) = distinctFrom seen (ts.flatMap g ++ us) :=
  distinctFrom_flatMap_distinctFrom hg hseen (by simp) (by simp) hts hus

theorem distinct_flatMap_distinct (hg : Respects g) (hts : ∀ t ∈ ts, Ordinary t) :
    distinct ((distinct ts).flatMap g) = distinct (ts.flatMap g) := by
  have h := @distinctFrom_flatMap_distinct g [] ts [] hg (by simp) hts (by simp)
  rwa [append_nil, append_nil] at h

theorem distinctFrom_flatten_map_distinct {tss : List (List TypeExpr)}
    (hseen : ∀ t ∈ seen, Ordinary t) (htss : ∀ ts ∈ tss, ∀ t ∈ ts, Ordinary t) :
    distinctFrom seen (tss.map distinct).flatten = distinctFrom seen tss.flatten := by
  induction tss generalizing seen with
  | nil => rfl
  | cons ts tss ih =>
    obtain ⟨hts, htss⟩ := forall_mem_cons.mp htss
    have hall : ∀ t ∈ tss.flatten, Ordinary t := by
      intro t ht
      obtain ⟨us, hus, ht⟩ := mem_flatten.mp ht
      exact htss us hus t ht
    have hdistinct : ∀ t ∈ (tss.map distinct).flatten, Ordinary t := by
      intro t ht
      obtain ⟨us, hus, ht⟩ := mem_flatten.mp ht
      obtain ⟨vs, hvs, rfl⟩ := mem_map.mp hus
      exact htss vs hvs t (mem_of_mem_distinct ht)
    have hearly := distinctFrom_flatMap_distinct respects_singleton hseen hts hdistinct
    rw [flatMap_singleton', flatMap_singleton'] at hearly
    rw [map_cons, flatten_cons, flatten_cons, hearly,
      distinctFrom_append hseen hts hdistinct, distinctFrom_append hseen hts hall, ih _ htss]
    exact fun t ht => (mem_append.mp ht).elim (hts t) (hseen t)

end

end StubCatalog.TypeExpr
