import StubCatalog.Proofs.TypeExpr.LetterCase
import StubCatalog.Proofs.TypeExpr.Nodes
import StubCatalog.Proofs.TypeExpr.Spelling

/-! # Texts of types as characters

The text of a type, one layer at a time, as a list of characters. -/

namespace StubCatalog.TypeExpr

open List Reading

variable {k : String} {c : Char} {t : TypeExpr}

theorem isWritable_iff : t.isWritable ↔ t.isWritableNode ∧ ∀ u ∈ t.children, u.isWritable :=
  all_nodes_iff

/-! ### Texts as characters -/

/-- The text of a list: its first member, and the others behind separators. -/
def listed {α : Type} (sep : List Char) (f : α → List Char) : List α → List Char
  | [] => []
  | t :: ts => f t ++ ts.flatMap fun u => sep ++ f u

theorem listed_cons_cons {α : Type} (sep : List Char) (f : α → List Char) (t u : α) (ts : List α) :
    listed sep f (t :: u :: ts) = f t ++ (sep ++ listed sep f (u :: ts)) := by
  simp [listed]

theorem listed_map {α β : Type} (sep : List Char) (f : β → List Char) (g : α → β) (ts : List α) :
    listed sep f (ts.map g) = listed sep (fun t => f (g t)) ts := by
  cases ts with
  | nil => rfl
  | cons t ts => rw [map_cons, listed, listed, flatMap_map]

theorem toList_joined (sep : String) (texts : List String) :
    (Text.joined sep texts).toList = listed sep.toList String.toList texts := by
  match texts with
  | [] => rfl
  | [text] => simp [Text.joined, listed]
  | text :: next :: others =>
    rw [Text.joined, String.toList_append, String.toList_append, toList_joined, listed_cons_cons,
      append_assoc]
    simp

theorem toList_text_union (ts : List TypeExpr) :
    (TypeExpr.union ts).text.toList = listed ['|'] (fun t => (memberText t).toList) ts := by
  rw [text, toList_joined, unionTexts_eq_map, listed_map]
  rfl

theorem toList_text_intersection (ts : List TypeExpr) :
    (TypeExpr.intersection ts).text.toList = listed ['&'] (fun t => (factorText t).toList) ts := by
  rw [text, toList_joined, intersectionTexts_eq_map, listed_map]
  rfl

theorem toList_text_nullable (h : t.isCompound) (hne : unionParts t ≠ []) :
    (TypeExpr.nullable t).text.toList =
      listed ['|'] (fun t => (memberText t).toList) (null :: unionParts t) := by
  obtain ⟨u, us, hus⟩ := exists_cons_of_ne_nil hne
  rw [text_nullable h, String.toList_append, toList_joined, listed_map, hus, listed_cons_cons]
  rfl

theorem unionParts_ne_nil (h : t.IsCanonicalNode) : unionParts t ≠ [] := by
  cases t with
  | union ts =>
    obtain ⟨u, v, us, rfl⟩ := exists_cons_cons (Alternatives.many h)
    simp [unionParts]
  | _ => simp [unionParts]

theorem toList_text_question (h : t.isCompound = false) :
    (TypeExpr.nullable t).text.toList = '?' :: t.text.toList := by
  rw [text, if_neg (by simp [h]), String.toList_append]
  · rfl
  · rintro ts rfl
    simp [isCompound] at h

theorem toList_text_conditional (subject : String) (target whenTrue whenFalse : TypeExpr)
    (negated : Bool) :
    (TypeExpr.conditional subject target whenTrue whenFalse negated).text.toList =
      '(' :: (subject.toList ++ ' ' :: 'i' :: 's' :: ' ' ::
        ((if negated then ['n', 'o', 't', ' '] else []) ++ (target.text.toList ++ ' ' :: '?' :: ' ' ::
          (whenTrue.text.toList ++ ' ' :: ':' :: ' ' :: (whenFalse.text.toList ++ [')']))))) := by
  rw [text]
  cases negated <;> simp [String.toList_append, Label.text_str, Flag.isSet_bool, append_assoc]

theorem toList_text_generic (name : String) (args : List TypeExpr) :
    (TypeExpr.generic name args).text.toList =
      (if Keyword.isGeneric name then name else classText name).toList ++
        '<' :: (listed [',', ' '] (fun t => t.text.toList) args ++ ['>']) := by
  rw [text]
  simp only [String.toList_append, toList_joined, texts_eq_map, listed_map, append_assoc]
  rfl

theorem toList_text_memberReference (owner member : String) :
    (TypeExpr.memberReference owner member).text.toList =
      (ownerText owner).toList ++ ':' :: ':' :: member.toList := by
  rw [text]
  simp only [String.toList_append, Label.text_str, append_assoc]
  rfl

theorem toList_parenthesized (s : String) :
    (parenthesized true s).toList = '(' :: (s.toList ++ [')']) := by
  simp only [parenthesized, if_true, String.toList_append, append_assoc]
  rfl

/-! ### Names and null -/

section Steps
variable {r : Reading} {t : TypeExpr}

theorem unionOf_null_normalCase (ht : t.takesNull) (hnode : t.IsCanonicalNode) :
    unionOf (null :: (unionParts t).map TypeExpr.normalCase) = .nullable t.normalCase := by
  cases t with
  | union ts =>
    rw [TypeExpr.normalCase, normalCaseList_eq_map]
    exact unionOf_null_cons (Alternatives.normalCase hnode)
  | nullable t => simp [takesNull] at ht
  | _ =>
    refine unionOf_eq_nullable (Or.inl rfl) ?_ ?_
    · rw [isUnionLike_normalCase]
      rfl
    · rw [isNull_normalCase]
      simpa [takesNull] using ht

theorem isClassName_builtin (hk : k ∈ Keyword.builtins) (hthis : k ≠ "$this") : isClassName k := by
  have hfacts : ∀ k ∈ Keyword.builtins, k ≠ "$this" → isClassName k := by decide
  exact hfacts k hk hthis

theorem nameAlone_builtin (hk : k ∈ Keyword.builtins) : r.nameAlone k = .keyword k := by
  have hfacts : ∀ k ∈ Keyword.builtins, builtin k = k := by decide
  rw [nameAlone, hfacts k hk, if_pos (by simpa using hk)]

theorem nameAlone_classText (hr : r.scope = {}) {n : String} (hn : isClassName n) :
    r.nameAlone (classText n) = .named n := by
  have hfree := builtins_of_isReserved (isReserved_classText n)
  rw [nameAlone, if_neg (by rw [hfree]; simp), template?_eq_none hr]
  exact congrArg _ (resolveClass_classText hr hn)

end Steps

/-! ### Fields and parameters -/

/-- A name of ASCII letters, digits and underscores that does not start with a digit. -/
def isAsciiName (name : String) : Bool :=
  match name.toList with
  | [] => false
  | c :: rest => isKeyStart c && rest.all fun d => d.isAlphanum || d == '_'

theorem toNat_lt_of_isKeyPart (h : (c.isAlphanum || c == '_')) : c.toNat < 128 := by
  rw [Bool.or_eq_true, beq_iff_eq] at h
  rcases h with h | rfl
  · delta Char.isAlphanum Char.isAlpha Char.isUpper Char.isLower Char.isDigit at h
    simp only [Bool.or_eq_true, Bool.and_eq_true, decide_eq_true_eq, ge_iff_le,
      UInt32.le_iff_toNat_le] at h
    have : c.val.toNat = c.toNat := rfl
    simp at h
    omega
  · decide

theorem isKeyPart_facts (h : (c.isAlphanum || c == '_')) :
    isNamePart c ∧ c ≠ '\\' ∧ (isKeyStart c → Text.isNameStart c) := by
  have hascii := toNat_lt_of_isKeyPart h
  revert h
  refine Text.forall_ascii (P := fun c => (c.isAlphanum || c == '_') →
    isNamePart c ∧ c ≠ '\\' ∧ (isKeyStart c → Text.isNameStart c)) ?_ c ?_
  · decide
  · exact hascii

theorem isKeyPart_of_isKeyStart (h : isKeyStart c) : (c.isAlphanum || c == '_') := by
  simp only [isKeyStart, Char.isAlphanum, Bool.or_eq_true] at h ⊢
  rcases h with h | h
  · exact Or.inl (Or.inl h)
  · exact Or.inr h

theorem isKeyPart_of_isAsciiName (hk : isAsciiName k) :
    ∀ d ∈ k.toList, (d.isAlphanum || d == '_') := by
  unfold isAsciiName at hk
  cases hcs : k.toList with
  | nil => simp
  | cons c cs =>
    simp only [hcs, Bool.and_eq_true, all_eq_true] at hk
    exact forall_mem_cons.mpr ⟨isKeyPart_of_isKeyStart hk.1, hk.2⟩

theorem isClassName_of_isAsciiName (hk : isAsciiName k) : isClassName k := by
  have hparts := isKeyPart_of_isAsciiName hk
  unfold isAsciiName at hk
  cases hcs : k.toList with
  | nil => simp [hcs] at hk
  | cons c cs =>
    simp only [hcs, Bool.and_eq_true] at hk
    rw [hcs, forall_mem_cons] at hparts
    have hnot : '\\' ∉ c :: cs := by
      rw [mem_cons, not_or]
      exact ⟨(isKeyPart_facts hparts.1).2.1.symm,
        fun hmem => (isKeyPart_facts (hparts.2 _ hmem)).2.1 rfl⟩
    rw [isClassName, hcs, Text.fields_of_notMem hnot, all_cons, all_nil, Bool.and_true,
      isShortName, (isKeyPart_facts hparts.1).2.2 hk.1, Bool.true_and, all_eq_true]
    exact fun d hd => (isKeyPart_facts (hparts.2 d hd)).1

/-- A field as it is written. -/
def fieldText (f : ShapeField TypeExpr) : String :=
  match f.key with
  | none => f.value.text
  | some key => keyText key ++ (if f.optional.isSet then "?: " else ": ") ++ f.value.text

theorem fieldTexts_eq_map (fs : List (ShapeField TypeExpr)) : fieldTexts fs = fs.map fieldText := by
  induction fs with
  | nil => simp [fieldTexts]
  | cons f fs ih =>
    obtain ⟨key, t, optional⟩ := f
    cases key with
    | none => rw [fieldTexts, ih, map_cons, fieldText]
    | some key => rw [fieldTexts, ih, map_cons, fieldText]

/-- A parameter as it is written. -/
def parameterText (p : CallableParameter TypeExpr) : String :=
  p.type.text ++ TypeExpr.parameterMarks p.byReference.isSet p.variadic.isSet p.optional.isSet

theorem parameterTexts_eq_map (ps : List (CallableParameter TypeExpr)) :
    parameterTexts ps = ps.map parameterText := by
  induction ps with
  | nil => simp [parameterTexts]
  | cons p ps ih => rw [parameterTexts, ih, map_cons, parameterText]

theorem toList_text_shape (kind : String) (fields : List (ShapeField TypeExpr)) (s : Flag)
    (key value : Option TypeExpr) :
    (TypeExpr.shape kind fields s key value).text.toList = kind.toList ++
      '{' :: (listed [',', ' '] id (fields.map (fun f => (fieldText f).toList) ++
        (tailText s.isSet (optionText key) (optionText value)).map String.toList) ++ ['}']) := by
  have hmap : fields.map (fun f => (fieldText f).toList) ++
      (tailText s.isSet (optionText key) (optionText value)).map String.toList =
      (fields.map fieldText ++ tailText s.isSet (optionText key) (optionText value)).map
        String.toList := by
    rw [map_append, map_map]
    rfl
  rw [text, fieldTexts_eq_map, hmap, listed_map]
  simp only [String.toList_append, toList_joined, Label.text_str, append_assoc]
  rfl

section
variable (kind : String) (params : List (CallableParameter TypeExpr))

theorem toList_joined_parameters : (Text.joined ", " (parameterTexts params)).toList =
    listed [',', ' '] (fun p => (parameterText p).toList) params := by
  rw [toList_joined, parameterTexts_eq_map, listed_map]
  rfl

theorem toList_text_callable : (TypeExpr.callable kind params none).text.toList = kind.toList ++
    '(' :: (listed [',', ' '] (fun p => (parameterText p).toList) params ++ [')']) := by
  rw [text]
  simp only [optionText, String.toList_append, toList_joined_parameters, Label.text_str,
    append_assoc]
  rfl

theorem toList_text_callableResult (t : TypeExpr) :
    (TypeExpr.callable kind params (some t)).text.toList = kind.toList ++
      '(' :: (listed [',', ' '] (fun p => (parameterText p).toList) params ++
        ([')', ':', ' '] ++ t.text.toList)) := by
  rw [text]
  simp only [optionText, String.toList_append, toList_joined_parameters, Label.text_str,
    append_assoc]
  rfl

end

theorem toList_fieldText (key : ShapeKey) (t : TypeExpr) (optional : Bool) :
    (fieldText ⟨some key, t, optional⟩).toList =
      (keyText key).toList ++ (keyMark optional ++ t.text.toList) := by
  have hmark : (if optional then "?: " else ": ").toList = keyMark optional := by
    cases optional <;> rfl
  rw [fieldText, String.toList_append, String.toList_append, append_assoc, Flag.isSet_bool,
    hmark]

theorem isWritable_of_le {n : Nat} (h : Numeral.writableBound ≤ n) :
    Numeral.isWritable n = false := by
  rw [Numeral.isWritable, Int.natAbs_natCast, decide_eq_false_iff_not]
  exact Nat.not_lt.mpr h

theorem written_of_le {n : Nat} (h : Numeral.writableBound ≤ n) :
    (TypeExpr.literal (.int n)).written = .error .unwritable := by
  refine if_neg fun hwritable => ?_
  have hnode := (isWritable_iff.mp hwritable).1
  rw [isWritableNode, isWritable_of_le h] at hnode
  cases hnode

end StubCatalog.TypeExpr
