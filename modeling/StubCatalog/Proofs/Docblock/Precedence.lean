import Mathlib.Data.List.Basic
import StubCatalog.Docblock.Parser
import StubCatalog.Proofs.Table

/-! # Precedence of tags

Of the tags about one thing a docblock keeps the first of the highest rank, in whatever order they
stand. A tag is read on its own (`meaning`). -/

namespace StubCatalog.Docblock

open List

/-! ### What a tag says -/

/-- What a tag says on its own. -/
inductive Meaning where
  | parameter (found : TypedTag)
  | output (found : TypedTag)
  | result (found : TypedTag)
  | var (found : TypedTag)
  | template (found : TemplateTag)
  | malformed (flaw : Malformed)
  | unknown
  /-- Anything else, and a parameter's name without a type. -/
  | other

/-- The meaning of a body that may be malformed. -/
def Meaning.of {α : Type} (say : α → Meaning) : Except Malformed α → Meaning
  | .ok found => say found
  | .error flaw => .malformed flaw

/-- The meaning of a tag with the given plain name and body, addressed to the given tool. -/
def meaningOf (name : String) (source : TagSource) (body : String) : Meaning :=
  match name with
  | "param" => .of (·.elim .other .parameter) (parameterTag source body)
  | "param-out" => .of (·.elim .other .output) (parameterTag source body)
  | "return" => .of .result (typedTag source body)
  | "var" => .of .var (varTag source body)
  | "template" => .of .template (templateTag source .invariant body)
  | "template-covariant" => .of .template (templateTag source .covariant body)
  | "template-contravariant" => .of .template (templateTag source .contravariant body)
  | "throws" | "extends" | "template-extends" | "implements" | "template-implements" | "use"
  | "template-use" => .of (fun _ => .other) (typedTag source body)
  | "assert" => .of (fun _ => .other) (assertionTag .always body)
  | "assert-if-true" => .of (fun _ => .other) (assertionTag .ifTrue body)
  | "assert-if-false" => .of (fun _ => .other) (assertionTag .ifFalse body)
  | "deprecated" | "since" => .other
  | name => if (setMark {} name).isSome then .other else .unknown

def meaning (tag : PlainTag) : Meaning :=
  meaningOf (plainName tag.name).1 (plainName tag.name).2 tag.body

namespace Meaning

def parameter? : Meaning → Option TypedTag
  | parameter found => some found
  | _ => none

def output? : Meaning → Option TypedTag
  | output found => some found
  | _ => none

def result? : Meaning → Option TypedTag
  | result found => some found
  | _ => none

def var? : Meaning → Option TypedTag
  | var found => some found
  | _ => none

def template? : Meaning → Option TemplateTag
  | template found => some found
  | _ => none

def flaw? : Meaning → Option Malformed
  | malformed flaw => some flaw
  | _ => none

/-- The tag is unknown or malformed. -/
def isRefused : Meaning → Bool
  | malformed _ => true
  | unknown => true
  | _ => false

end Meaning

/-! ### One tag -/

/-- The warning about a malformed tag. -/
def warning (tag : PlainTag) (flaw : Malformed) : String :=
  "@" ++ tag.name ++ ": " ++ flaw.message

def putNamed (tags : Table TypedTag) (tag : TypedTag) : Table TypedTag :=
  putTag tags (tag.name.getD "") tag

def putResult (result : Option TypedTag) (tag : TypedTag) : Option TypedTag :=
  if prevails tag.source (result.map TypedTag.source) then some tag else result

def putFirst {α κ : Type} [BEq κ] (key : α → κ) (source : α → TagSource) (tags : List α) (tag : α) :
    List α :=
  mergeTag key source tag tags

/-- What taking up a tag does to the tags that are kept by precedence or as they are. -/
structure Takes (block : Docblock) (tag : PlainTag) (m : Meaning) (after : Docblock) : Prop where
  params : after.params = m.parameter?.elim block.params (putNamed block.params)
  paramOuts : after.paramOuts = m.output?.elim block.paramOuts (putNamed block.paramOuts)
  result : after.result = m.result?.elim block.result (putResult block.result)
  vars : after.vars = m.var?.elim block.vars (putFirst TypedTag.name TypedTag.source block.vars)
  templates : after.templates = m.template?.elim block.templates
    (putFirst TemplateTag.name TemplateTag.source block.templates)
  others : after.others =
    (if m.isRefused then some tag else none).elim block.others (block.others ++ [·])
  warnings : after.warnings =
    (m.flaw?.map (warning tag)).elim block.warnings (block.warnings ++ [·])

/-- A tag either changes the docblock or is refused with its flaw. -/
def Answers (block : Docblock) (tag : PlainTag) (m : Meaning) : Except Malformed Docblock → Prop
  | .ok after => Takes block tag m after
  | .error flaw => m = .malformed flaw

theorem answers_of {α : Type} {block : Docblock} {tag : PlainTag} {say : α → Meaning}
    {f : α → Except Malformed Docblock} (x : Except Malformed α)
    (h : ∀ found, x = .ok found → Answers block tag (say found) (f found)) :
    Answers block tag (.of say x) (x >>= f) := by
  cases x with
  | error flaw => exact rfl
  | ok found => exact h found rfl

theorem source_typedTag {source : TagSource} {body : String} {found : TypedTag}
    (h : typedTag source body = .ok found) : found.source = source := by
  unfold typedTag at h
  cases hsplit : splitType body with
  | error flaw => simp [hsplit] at h
  | ok parts =>
    rw [hsplit] at h
    cases h
    rfl

theorem takes_setMark {block after : Docblock} {tag : PlainTag} {name : String}
    (h : setMark block name = some after) : Takes block tag .other after := by
  unfold setMark at h
  split at h
  all_goals cases h
  all_goals exact ⟨rfl, rfl, rfl, rfl, rfl, rfl, rfl⟩

theorem isSome_setMark (block : Docblock) (name : String) :
    (setMark block name).isSome = (setMark {} name).isSome := by
  unfold setMark
  split <;> rfl

theorem answers_applyTag (block : Docblock) (tag : PlainTag) (name : String) (source : TagSource) :
    Answers block tag (meaningOf name source tag.body) (applyTag block tag name source) := by
  unfold applyTag
  split
  case h_1 | h_2 =>
    refine answers_of (parameterTag source tag.body) fun found _ => ?_
    cases found <;> exact ⟨rfl, rfl, rfl, rfl, rfl, rfl, rfl⟩
  case h_3 =>
    refine answers_of (typedTag source tag.body) fun found hfound => ?_
    rw [← source_typedTag hfound]
    by_cases hprevails : prevails found.source (block.result.map TypedTag.source)
    · rw [if_pos hprevails]
      exact ⟨rfl, rfl, (if_pos hprevails).symm, rfl, rfl, rfl, rfl⟩
    · rw [if_neg hprevails]
      exact ⟨rfl, rfl, (if_neg hprevails).symm, rfl, rfl, rfl, rfl⟩
  case h_4 => exact answers_of (varTag source tag.body) fun _ _ => ⟨rfl, rfl, rfl, rfl, rfl, rfl, rfl⟩
  case h_6 | h_7 | h_8 =>
    exact answers_of (templateTag source _ tag.body) fun _ _ => ⟨rfl, rfl, rfl, rfl, rfl, rfl, rfl⟩
  case h_15 | h_16 | h_17 =>
    exact answers_of (assertionTag _ tag.body) fun _ _ => ⟨rfl, rfl, rfl, rfl, rfl, rfl, rfl⟩
  case h_18 | h_19 => exact ⟨rfl, rfl, rfl, rfl, rfl, rfl, rfl⟩
  case h_20 =>
    simp only [meaningOf, ← isSome_setMark block]
    cases hmark : setMark block name with
    | some marked => exact takes_setMark hmark
    | none => exact ⟨rfl, rfl, rfl, rfl, rfl, rfl, rfl⟩
  all_goals
    exact answers_of (typedTag source tag.body) fun _ _ => ⟨rfl, rfl, rfl, rfl, rfl, rfl, rfl⟩

theorem takes_takeTag (block : Docblock) (tag : PlainTag) :
    Takes block tag (meaning tag) (takeTag block tag) := by
  unfold takeTag meaning
  obtain ⟨name, source⟩ := plainName tag.name
  have h := answers_applyTag block tag name source
  dsimp only
  cases hresult : applyTag block tag name source with
  | ok after => rwa [hresult] at h
  | error flaw =>
    rw [hresult] at h
    rw [show meaningOf name source tag.body = .malformed flaw from h]
    exact ⟨rfl, rfl, rfl, rfl, rfl, rfl, rfl⟩

/-! ### Tag after tag -/

section
variable {σ α β κ : Type} (source : α → TagSource)

/-- The tag is the first one of the highest rank; there is none if there are no tags. -/
def IsPreferred (tags : List α) : Option α → Prop
  | none => tags = []
  | some tag => ∃ before behind, tags = before ++ tag :: behind ∧
      (∀ other ∈ before, (source other).rank < (source tag).rank) ∧
      ∀ other ∈ behind, (source other).rank ≤ (source tag).rank

variable {source}

theorem IsPreferred.append {tags : List α} {kept : Option α} (h : IsPreferred source tags kept)
    (tag : α) : IsPreferred source (tags ++ [tag])
      (if prevails (source tag) (kept.map source) then some tag else kept) := by
  cases kept with
  | none => exact ⟨tags, [], rfl, by simp [show tags = [] from h], by simp⟩
  | some old =>
    obtain ⟨before, behind, rfl, hbefore, hbehind⟩ := h
    by_cases hrank : (source old).rank < (source tag).rank
    · rw [if_pos (by simpa [prevails] using hrank)]
      refine ⟨_, [], rfl, fun other hother => ?_, by simp⟩
      rcases mem_append.mp hother with hother | hother
      · exact Nat.lt_trans (hbefore other hother) hrank
      · rcases mem_cons.mp hother with rfl | hother
        · exact hrank
        · exact Nat.lt_of_le_of_lt (hbehind other hother) hrank
    · rw [if_neg (by simpa [prevails] using hrank)]
      refine ⟨before, behind ++ [tag], by simp, hbefore, fun other hother => ?_⟩
      rcases mem_append.mp hother with hother | hother
      · exact hbehind other hother
      · rw [mem_singleton.mp hother]
        exact Nat.le_of_not_lt hrank

variable (source) in
/-- A tag displaces the kept one if it is about the same thing and prevails. -/
def Displaces (put : σ → α → σ) (kept : σ → Option α) (isAbout : α → Bool) : Prop :=
  ∀ s tag, kept (put s tag) =
    if isAbout tag && prevails (source tag) ((kept s).map source) then some tag else kept s

theorem Displaces.isPreferred {put : σ → α → σ} {kept : σ → Option α} {isAbout : α → Bool}
    (hput : Displaces source put kept isAbout) {before : List α} {s : σ}
    (h : IsPreferred source (before.filter isAbout) (kept s)) (tags : List α) :
    IsPreferred source ((before ++ tags).filter isAbout) (kept (tags.foldl put s)) := by
  induction tags generalizing before s with
  | nil => rwa [append_nil]
  | cons tag tags ih =>
    rw [foldl_cons, ← singleton_append, ← append_assoc]
    refine ih ?_
    rw [hput]
    by_cases habout : isAbout tag
    · rw [filter_append, filter_cons_of_pos habout]
      simpa [habout] using h.append tag
    · simpa [habout] using h

/-- A field that each tag changes on its own account. -/
def Accounts (field : Docblock → σ) (account : PlainTag → Option β) (put : σ → β → σ) : Prop :=
  ∀ block tag, field (takeTag block tag) = (account tag).elim (field block) (put (field block))

theorem Accounts.foldl {field : Docblock → σ} {account : PlainTag → Option β} {put : σ → β → σ}
    (h : Accounts field account put) (tags : List PlainTag) (block : Docblock) :
    field (tags.foldl takeTag block) = (tags.filterMap account).foldl put (field block) := by
  induction tags generalizing block with
  | nil => rfl
  | cons tag tags ih =>
    rw [foldl_cons, ih, h]
    cases haccount : account tag with
    | none => rw [filterMap_cons_none haccount, Option.elim_none]
    | some found => rw [filterMap_cons_some haccount, Option.elim_some, foldl_cons]

theorem Accounts.eq_filterMap {field : Docblock → List β} {account : PlainTag → Option β}
    (h : Accounts field account fun kept found => kept ++ [found]) {block : Docblock}
    (hnil : field block = []) (tags : List PlainTag) :
    field (tags.foldl takeTag block) = tags.filterMap account := by
  rw [h.foldl, hnil, foldl_append_eq_append, ← flatMap_def, flatMap_singleton',
    nil_append]

theorem Accounts.isPreferred {field : Docblock → σ} {account : PlainTag → Option α}
    {put : σ → α → σ} {kept : σ → Option α} {isAbout : α → Bool} (h : Accounts field account put)
    (hput : Displaces source put kept isAbout) {block : Docblock} (hnone : kept (field block) = none)
    (tags : List PlainTag) :
    IsPreferred source ((tags.filterMap account).filter isAbout)
      (kept (field (tags.foldl takeTag block))) := by
  have hfresh : IsPreferred source (([] : List α).filter isAbout) (kept (field block)) := by
    rw [hnone]
    exact rfl
  rw [h.foldl]
  exact hput.isPreferred hfresh _

/-! ### Places for kept tags -/

theorem displaces_putNamed (name : String) :
    Displaces TypedTag.source putNamed (·.get? name) (·.name.getD "" == name) := by
  intro tags tag
  unfold putNamed putTag
  beta_reduce
  by_cases hname : tag.name.getD "" = name
  · subst hname
    split
    · next hprevails => simp [Table.get?_insert, hprevails]
    · next hprevails => simp [hprevails]
  · rw [beq_false_of_ne hname, Bool.false_and, if_neg Bool.false_ne_true]
    split
    · rw [Table.get?_insert, if_neg (Ne.symm hname)]
    · rfl

variable [BEq κ] [LawfulBEq κ] {key : α → κ}

theorem mergeTag_of_eq {tag old : α} (h : key old = key tag) (tags : List α) :
    mergeTag key source tag (old :: tags) =
      (if prevails (source tag) (some (source old)) then tag else old) :: tags := by
  rw [mergeTag, if_pos (by simp [h])]

theorem mergeTag_of_ne {tag old : α} (h : key old ≠ key tag) (tags : List α) :
    mergeTag key source tag (old :: tags) = old :: mergeTag key source tag tags := by
  rw [mergeTag, if_neg (by simp [h])]

theorem displaces_putFirst (k : κ) :
    Displaces source (putFirst key source) (·.find? (key · == k)) (key · == k) := by
  intro tags tag
  unfold putFirst
  beta_reduce
  induction tags with
  | nil => by_cases hk : key tag = k <;> simp [mergeTag, prevails, hk]
  | cons old tags ih =>
    by_cases hold : key old = key tag
    · rw [mergeTag_of_eq hold]
      by_cases hk : key tag = k
      · by_cases hprevails : prevails (source tag) (some (source old)) <;>
          simp [hold, hk, hprevails]
      · by_cases hprevails : prevails (source tag) (some (source old)) <;>
          simp [hold, hk, hprevails]
    · rw [mergeTag_of_ne hold]
      by_cases hk : key old = k
      · have htag : key tag ≠ k := fun h => hold (hk.trans h.symm)
        simp [hk, htag]
      · rw [find?_cons_of_neg (by simp [hk]), find?_cons_of_neg (by simp [hk]), ih]

theorem mem_map_mergeTag {k : κ} {tag : α} {tags : List α}
    (h : k ∈ (mergeTag key source tag tags).map key) : k = key tag ∨ k ∈ tags.map key := by
  induction tags with
  | nil => simpa [mergeTag] using h
  | cons old tags ih =>
    by_cases hold : key old = key tag
    · rw [mergeTag_of_eq hold, map_cons, apply_ite key, hold, ite_self] at h
      exact mem_cons.mp h |>.imp_right (mem_cons_of_mem _)
    · rw [mergeTag_of_ne hold] at h
      rcases mem_cons.mp h with rfl | h
      · exact .inr mem_cons_self
      · exact (ih h).imp_right (mem_cons_of_mem _)

theorem nodup_mergeTag (tag : α) {tags : List α} (h : (tags.map key).Nodup) :
    ((mergeTag key source tag tags).map key).Nodup := by
  induction tags with
  | nil => simp [mergeTag]
  | cons old tags ih =>
    obtain ⟨hfresh, htags⟩ := nodup_cons.mp h
    by_cases hold : key old = key tag
    · rwa [mergeTag_of_eq hold, map_cons, apply_ite key, ← hold, ite_self]
    · rw [mergeTag_of_ne hold]
      exact nodup_cons.mpr ⟨fun hmem => (mem_map_mergeTag hmem).elim hold hfresh, ih htags⟩

theorem nodup_foldl_putFirst (found : List α) {tags : List α} (h : (tags.map key).Nodup) :
    ((found.foldl (putFirst key source) tags).map key).Nodup := by
  induction found generalizing tags with
  | nil => exact h
  | cons tag found ih => exact ih (nodup_mergeTag tag h)

end

/-! ### Whole comments -/

/-- Of the tags about one thing, the docblock keeps the first of the highest rank; the refused tags
stay as they are, with a warning for each malformed one. -/
structure HasPrecedence (tags : List PlainTag) (block : Docblock) : Prop where
  params : ∀ name, IsPreferred TypedTag.source
    ((tags.filterMap (meaning · |>.parameter?)).filter (·.name.getD "" == name))
    (block.params.get? name)
  paramOuts : ∀ name, IsPreferred TypedTag.source
    ((tags.filterMap (meaning · |>.output?)).filter (·.name.getD "" == name))
    (block.paramOuts.get? name)
  result : IsPreferred TypedTag.source (tags.filterMap (meaning · |>.result?)) block.result
  vars : ∀ name, IsPreferred TypedTag.source
    ((tags.filterMap (meaning · |>.var?)).filter (·.name == name))
    (block.vars.find? (·.name == name))
  varNames : (block.vars.map TypedTag.name).Nodup
  templates : ∀ name, IsPreferred TemplateTag.source
    ((tags.filterMap (meaning · |>.template?)).filter (·.name == name))
    (block.templates.find? (·.name == name))
  templateNames : (block.templates.map TemplateTag.name).Nodup
  others : block.others = tags.filter (meaning · |>.isRefused)
  warnings : block.warnings = tags.filterMap fun tag => (meaning tag).flaw?.map (warning tag)

theorem accounts_vars : Accounts vars (meaning · |>.var?) (putFirst TypedTag.name TypedTag.source) :=
  fun block tag => (takes_takeTag block tag).vars

theorem accounts_templates : Accounts templates (meaning · |>.template?)
    (putFirst TemplateTag.name TemplateTag.source) :=
  fun block tag => (takes_takeTag block tag).templates

theorem hasPrecedence_foldl (prose : List (List Char)) (tags : List PlainTag) :
    HasPrecedence tags (tags.foldl takeTag (ofProse prose)) where
  params name :=
    Accounts.isPreferred (fun b tag => (takes_takeTag b tag).params) (displaces_putNamed name) rfl tags
  paramOuts name :=
    Accounts.isPreferred (fun b tag => (takes_takeTag b tag).paramOuts) (displaces_putNamed name) rfl
      tags
  result := by
    have haccounts : Accounts Docblock.result (meaning · |>.result?) putResult := fun b tag =>
      (takes_takeTag b tag).result
    have hput : Displaces TypedTag.source putResult id fun _ => true := fun s tag => by
      simp [putResult]
    simpa using haccounts.isPreferred hput (show (ofProse prose).result = none from rfl) tags
  vars name := accounts_vars.isPreferred (displaces_putFirst name) rfl tags
  varNames := by
    rw [accounts_vars.foldl]
    exact nodup_foldl_putFirst _ nodup_nil
  templates name := accounts_templates.isPreferred (displaces_putFirst name) rfl tags
  templateNames := by
    rw [accounts_templates.foldl]
    exact nodup_foldl_putFirst _ nodup_nil
  others := by
    have haccounts : Accounts others (fun tag => if (meaning tag).isRefused then some tag else none)
        fun kept tag => kept ++ [tag] := fun b tag => (takes_takeTag b tag).others
    rw [haccounts.eq_filterMap rfl, ← filterMap_eq_filter]
    simp [Option.guard_def]
  warnings := by
    have haccounts : Accounts warnings (fun tag => (meaning tag).flaw?.map (warning tag))
        fun kept text => kept ++ [text] := fun b tag => (takes_takeTag b tag).warnings
    exact haccounts.eq_filterMap rfl tags

/-- **The tags addressed to a tool take precedence in any order.** Of the tags about one thing a
comment keeps the first of the highest rank among the well-formed ones. Unknown and malformed tags
stay as they are, in order, and each malformed one gives one warning. -/
theorem parse_hasPrecedence (text : String) :
    HasPrecedence (splitTags (commentLines text)).2 (parse (some text)) := by
  by_cases h : text = ""
  · subst h
    exact hasPrecedence_foldl [] []
  · rw [parse]
    · exact hasPrecedence_foldl _ _
    · exact h

end StubCatalog.Docblock
