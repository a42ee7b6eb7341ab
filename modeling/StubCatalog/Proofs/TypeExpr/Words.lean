import StubCatalog.Proofs.TypeExpr.Cutting
import StubCatalog.Proofs.TypeExpr.ReadForm

/-! # Words of a text

A name is a path of short names that may have a backslash in front (`IsNameWord`), a variable a
dollar sign and a word (`IsVariableWord`), and two names never stand side by side without a gap.
These facts hold of every token of a text (`WellCut`). -/

namespace StubCatalog.TypeExpr

open List

variable {cs : List Char} {s tokens : List Token} {t : Token}

/-! ### Lengths and characters of names -/

/-- No name goes on into the text. -/
def EndsName (cs : List Char) : Prop := ∀ c others, cs = c :: others → isNamePart c = false

theorem endsName_drop_run (cs : List Char) : EndsName (cs.drop (run isNamePart cs)) := by
  intro c others h
  have hdrop : cs.drop (run isNamePart cs) = cs.dropWhile isNamePart := calc
    cs.drop (run isNamePart cs)
      = (cs.takeWhile isNamePart ++ cs.dropWhile isNamePart).drop (run isNamePart cs) := by
        rw [takeWhile_append_dropWhile]
    _ = cs.dropWhile isNamePart := drop_left
  have hhead := head?_dropWhile_not isNamePart cs
  rw [← hdrop, h] at hhead
  simpa using hhead

theorem endsName_drop_shortNameLength (h : shortNameLength cs ≠ 0) :
    EndsName (cs.drop (shortNameLength cs)) := by
  unfold shortNameLength at h ⊢
  split at h
  · exact absurd rfl h
  · next c rest =>
    split at h
    · next hc =>
      simp only [hc, if_true]
      exact endsName_drop_run rest
    · exact absurd rfl h

theorem isShortName_take (h : shortNameLength cs ≠ 0) :
    isShortName (cs.take (shortNameLength cs)) := by
  unfold shortNameLength at h ⊢
  split at h
  · exact absurd rfl h
  · next c rest =>
    split at h
    · next hc =>
      simp only [hc, if_true]
      rw [take_succ_cons, take_run, isShortName, hc, Bool.true_and, all_eq_true]
      exact fun d hd => Evaluation.of_mem_takeWhile hd
    · exact absurd rfl h

theorem endsName_drop_pathLength (h : EndsName cs) : EndsName (cs.drop (pathLength cs)) := by
  fun_induction pathLength cs with
  | case1 => exact h
  | case2 rest n hn ih =>
    have hne : shortNameLength rest ≠ 0 := fun hzero => hn (by rw [beq_iff_eq]; exact hzero)
    rw [Nat.add_assoc, Nat.add_comm 1, ← Nat.add_assoc, drop_succ_cons, ← drop_drop]
    exact ih (endsName_drop_shortNameLength hne)
  | case3 => exact h

theorem pathLength_drop (cs : List Char) : pathLength (cs.drop (pathLength cs)) = 0 := by
  fun_induction pathLength cs with
  | case1 rest n hn =>
    rw [drop_zero, pathLength]
    exact if_pos hn
  | case2 rest n hn ih =>
    rw [Nat.add_assoc, Nat.add_comm 1, ← Nat.add_assoc, drop_succ_cons, ← drop_drop]
    exact ih
  | case3 cs hcs =>
    rw [drop_zero, pathLength]
    exact hcs

theorem exists_take_pathLength (cs : List Char) : ∃ parts : List (List Char),
    (∀ part ∈ parts, isShortName part) ∧ cs.take (pathLength cs) = parts.flatMap ('\\' :: ·) := by
  fun_induction pathLength cs with
  | case1 => exact ⟨[], by simp, rfl⟩
  | case2 rest n hn ih =>
    have hne : shortNameLength rest ≠ 0 := fun hzero => hn (by rw [beq_iff_eq]; exact hzero)
    obtain ⟨parts, hparts, htake⟩ := ih
    refine ⟨rest.take n :: parts, forall_mem_cons.mpr ⟨isShortName_take hne, hparts⟩, ?_⟩
    rw [Nat.add_assoc, Nat.add_comm 1, ← Nat.add_assoc, take_succ_cons, take_add, htake]
    rfl
  | case3 => exact ⟨[], by simp, rfl⟩

theorem identifierLength_eq_zero (hends : EndsName cs) (hpath : pathLength cs = 0) :
    identifierLength cs = 0 := by
  cases cs with
  | nil => rfl
  | cons c rest =>
    by_cases hc : c = '\\'
    · rw [hc] at hpath ⊢
      exact hpath
    · have hshort : shortNameLength (c :: rest) = 0 := by
        rw [shortNameLength, if_neg]
        intro hstart
        have hword := hends c rest rfl
        rw [isNamePart, Text.isWord_of_isNameStart hstart] at hword
        cases hword
      rw [identifierLength_of_ne hc, hshort]
      rfl

/-- **A name is as long as it can be**: no other name stands right behind it. -/
theorem identifierLength_drop (h : identifierLength cs ≠ 0) :
    identifierLength (cs.drop (identifierLength cs)) = 0 := by
  cases cs with
  | nil => exact absurd rfl h
  | cons c rest =>
    by_cases hc : c = '\\'
    · subst hc
      have hpath : identifierLength ('\\' :: rest) = pathLength ('\\' :: rest) := rfl
      have hends : EndsName ('\\' :: rest) := by
        rintro _ _ ⟨⟩
        exact isNamePart_boundary '\\' (by simp)
      rw [hpath]
      exact identifierLength_eq_zero (endsName_drop_pathLength hends) (pathLength_drop _)
    · rw [identifierLength_of_ne hc] at h ⊢
      split at h
      · exact absurd rfl h
      · next hne =>
        rw [if_neg hne, ← drop_drop]
        have hends := endsName_drop_shortNameLength fun hzero => hne (by rw [beq_iff_eq, hzero])
        exact identifierLength_eq_zero (endsName_drop_pathLength hends) (pathLength_drop _)

/-! ### Names and variables -/

theorem backslash_notMem_of_isShortName (h : isShortName cs) : '\\' ∉ cs := by
  cases cs with
  | nil => simp
  | cons c rest =>
    simp only [isShortName, Bool.and_eq_true, all_eq_true] at h
    rw [mem_cons, not_or]
    constructor
    · rintro rfl
      rw [nameStart_ne _ (by simp)] at h
      exact absurd h.1 (by decide)
    · intro hmem
      have := h.2 _ hmem
      rw [isNamePart_boundary _ (by simp)] at this
      cases this

theorem fields_path {first : List Char} {parts : List (List Char)}
    (hfirst : isShortName first) (hparts : ∀ part ∈ parts, isShortName part) :
    Text.fields '\\' (first ++ parts.flatMap ('\\' :: ·)) = first :: parts := by
  induction parts generalizing first with
  | nil =>
    rw [flatMap_nil, append_nil]
    exact Text.fields_of_notMem (backslash_notMem_of_isShortName hfirst)
  | cons part parts ih =>
    rw [forall_mem_cons] at hparts
    rw [flatMap_cons, cons_append,
      Text.fields_append (backslash_notMem_of_isShortName hfirst), ih hparts.1 hparts.2]

theorem isClassName_path {first : List Char} {parts : List (List Char)}
    (hfirst : isShortName first) (hparts : ∀ part ∈ parts, isShortName part) :
    isClassName (String.ofList (first ++ parts.flatMap ('\\' :: ·))) := by
  rw [isClassName, String.toList_ofList, fields_path hfirst hparts, all_cons, hfirst,
    Bool.true_and, all_eq_true]
  exact hparts

/-- The text of a name that is read: a class name, with or without a backslash in front. -/
def IsNameWord (text : String) : Prop :=
  ∃ name, isClassName name ∧ (text = name ∨ text = "\\" ++ name)

theorem isNameWord_take (h : identifierLength cs ≠ 0) :
    IsNameWord (String.ofList (cs.take (identifierLength cs))) := by
  cases cs with
  | nil => exact absurd rfl h
  | cons c rest =>
    by_cases hc : c = '\\'
    · subst hc
      have hpath : identifierLength ('\\' :: rest) = pathLength ('\\' :: rest) := rfl
      rw [hpath] at h ⊢
      obtain ⟨parts, hparts, htake⟩ := exists_take_pathLength ('\\' :: rest)
      rw [htake]
      cases parts with
      | nil =>
        have hlength := congrArg List.length htake
        rw [length_take, Nat.min_eq_left (stops_pathLength.le _)] at hlength
        exact absurd hlength h
      | cons first parts =>
        rw [forall_mem_cons] at hparts
        refine ⟨_, isClassName_path hparts.1 hparts.2, Or.inr ?_⟩
        rw [← String.toList_inj, String.toList_append]
        simp
    · rw [identifierLength_of_ne hc] at h ⊢
      split at h
      · exact absurd rfl h
      · next hne =>
        have hshort := isShortName_take fun hzero => hne (by rw [beq_iff_eq, hzero])
        obtain ⟨parts, hparts, htake⟩ :=
          exists_take_pathLength ((c :: rest).drop (shortNameLength (c :: rest)))
        rw [if_neg hne, take_add, htake]
        exact ⟨_, isClassName_path hshort hparts, Or.inl rfl⟩

theorem IsNameWord.isClassName_bare {text : String} (h : IsNameWord text) :
    isClassName (Name.bare text) := by
  obtain ⟨name, hname, rfl | rfl⟩ := h
  · rw [Name.bare_of_head? (head?_ne_of_isClassName hname)]
    exact hname
  · rw [Name.bare_backslash (head?_ne_of_isClassName hname)]
    exact hname

/-- The text of a variable. -/
def IsVariableWord (text : String) : Prop :=
  ∃ c rest, text.toList = '$' :: c :: rest ∧ (c.isAlpha || c == '_') ∧ ∀ d ∈ rest, Text.isWord d

theorem isVariableWord_take (h : variableLength cs ≠ 0) :
    IsVariableWord (String.ofList (cs.take (variableLength cs))) := by
  unfold variableLength at h ⊢
  split at h
  · next c rest =>
    split at h
    · next hc =>
      refine ⟨c, rest.takeWhile Text.isWord, ?_, hc, fun d hd => Evaluation.of_mem_takeWhile hd⟩
      simp only [hc, if_true, String.toList_ofList]
      rw [take_succ_cons, take_succ_cons, take_run]
    · exact absurd rfl h
  · exact absurd rfl h

theorem take_star {n : Nat} (h : tokenAt? cs = some (.star, n)) : cs.take n = ['*'] := by
  unfold tokenAt? at h
  split at h
  · next kind length hfind =>
    cases h
    have hmem := mem_of_find?_eq_some hfind
    simp [longTokens] at hmem
  · split at h
    · next c rest _ =>
      obtain ⟨kind, hsign, hpair⟩ := Option.map_eq_some_iff.mp h
      cases hpair
      unfold signKind? at hsign
      split at hsign <;> cases hsign
      rfl
    · cases h

/-! ### Tokens of a text -/

/-- The tokens are those of a text: names and variables are well formed, and no two names stand side
by side. -/
structure WellCut (tokens : List Token) : Prop where
  name : ∀ t ∈ tokens, t.kind = .identifier → IsNameWord t.value
  dollar : ∀ t ∈ tokens, t.kind = .variable → IsVariableWord t.value
  star : ∀ t ∈ tokens, t.kind = .star → t.value = "*"
  apart : ∀ t ∈ tokens, ∀ u ∈ tokens, t.kind = .identifier → u.kind = .identifier →
    u.position ≠ t.stop

theorem WellCut.of_subset (h : WellCut tokens) (hs : s ⊆ tokens) : WellCut s where
  name t ht := h.name t (hs ht)
  dollar t ht := h.dollar t (hs ht)
  star t ht := h.star t (hs ht)
  apart t ht u hu := h.apart t (hs ht) u (hs hu)

theorem WellCut.tail (h : WellCut (t :: s)) : WellCut s :=
  h.of_subset (subset_cons_self t s)

theorem wellCut_of_tokensFrom {position : Nat} (h : tokensFrom position cs = .ok tokens) :
    WellCut tokens := by
  have hname : ∀ t ∈ tokens, t.kind = .identifier → (t.kind, identifierLength) ∈ longTokens := by
    simp +contextual [longTokens]
  refine ⟨fun t ht hkind => ?_, fun t ht hkind => ?_, fun t ht hkind => ?_,
    fun t ht u hu hkind hkind' hstop => ?_⟩
  · obtain ⟨k, -, hne, hvalue⟩ := exists_length h ht (hname t ht hkind)
    rw [hvalue]
    exact isNameWord_take hne
  · obtain ⟨k, -, hne, hvalue⟩ :=
      exists_length h ht (f := variableLength) (by simp [hkind, longTokens])
    rw [hvalue]
    exact isVariableWord_take hne
  · obtain ⟨k, n, -, htoken, hvalue⟩ := exists_tokenAt? h ht
    rw [hkind] at htoken
    rw [hvalue, take_star htoken]
  · obtain ⟨k, hposition, hne, hvalue⟩ := exists_length h ht (hname t ht hkind)
    obtain ⟨k', hposition', hne', -⟩ := exists_length h hu (hname u hu hkind')
    have hlength : t.value.length = identifierLength (cs.drop k) := by
      rw [hvalue, String.length_ofList, length_take,
        Nat.min_eq_left (stops_identifierLength.le _)]
    rw [Token.stop, hposition, hposition', hlength, Nat.add_assoc] at hstop
    rw [Nat.add_left_cancel hstop, ← drop_drop] at hne'
    exact hne' (identifierLength_drop hne)

/-! ### Names of members -/

/-- Names and stars, no two names side by side. -/
inductive IsMemberParts : List String → Prop
  | nil : IsMemberParts []
  | star {parts : List String} (h : IsMemberParts parts) : IsMemberParts ("*" :: parts)
  | name {word : String} {parts : List String} (hword : IsNameWord word)
      (hnext : ∀ next ∈ parts.head?, next = "*") (h : IsMemberParts parts) :
      IsMemberParts (word :: parts)

/-- The text is the name of a member: names and stars without gaps between them. -/
def IsMemberName (member : String) : Prop :=
  ∃ parts, parts ≠ [] ∧ IsMemberParts parts ∧ member = parts.foldl (· ++ ·) ""

theorem isMemberParts_memberParts (h : WellCut s) (stop : Nat) :
    IsMemberParts (Reading.memberParts stop s).value ∧
      ∀ part ∈ (Reading.memberParts stop s).value.head?, part ≠ "*" →
        ∃ t ∈ s, t.kind = .identifier ∧ t.position = stop := by
  induction s generalizing stop with
  | nil => exact ⟨.nil, by rintro _ ⟨⟩⟩
  | cons t rest ih =>
    rw [Reading.memberParts]
    split
    · next hpart =>
      simp only [Bool.and_eq_true, Bool.or_eq_true, decide_eq_true_eq] at hpart
      obtain ⟨hkind, hposition⟩ := hpart
      obtain ⟨hparts, hfirst⟩ := ih h.tail t.stop
      generalize Reading.memberParts t.stop rest = behind at hparts hfirst ⊢
      obtain ⟨parts, left, hlt⟩ := behind
      rcases hkind with hkind | hkind
      · refine ⟨.name (h.name t (by simp) hkind) (fun next hnext => ?_) hparts, ?_⟩
        · by_contra hne
          obtain ⟨u, hu, hukind, huposition⟩ := hfirst next hnext hne
          exact h.apart t (by simp) u (by simp [hu]) hkind hukind huposition
        · exact fun _ _ _ => ⟨t, by simp, hkind, hposition⟩
      · rw [h.star t (by simp) hkind]
        refine ⟨.star hparts, fun part hpart hne => absurd ?_ hne⟩
        simpa using hpart.symm
    · exact ⟨.nil, by rintro _ ⟨⟩⟩

theorem isMemberName_of_memberReference {r : Reading} {owner : String} {s1 : List Token}
    {v : TypeExpr} (hs : WellCut s) (h : Yields (r.memberReference owner t s) v s1) :
    ∃ member : String, IsMemberName member ∧ s1 ⊆ s ∧
      v = .memberReference (if Keyword.relatives.contains (Text.lower owner) then Text.lower owner
        else r.scope.resolveClass owner) member := by
  obtain ⟨hlt, h⟩ := h
  have hparts := (isMemberParts_memberParts hs t.stop).1
  have hrest := Reading.memberParts_rest (s := s) t.stop
  unfold Reading.memberReference at h
  simp only at h
  generalize Reading.memberParts t.stop s = behind at h hparts hrest
  obtain ⟨parts, left, hlt'⟩ := behind
  split at h
  · cases h
  · next hne =>
    cases h
    exact ⟨_, ⟨parts, by simpa using hne, hparts, rfl⟩, hrest, rfl⟩

end StubCatalog.TypeExpr
