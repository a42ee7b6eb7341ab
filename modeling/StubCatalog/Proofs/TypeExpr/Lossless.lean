import StubCatalog.Proofs.TypeExpr.Cutting
import StubCatalog.TypeExpr.Written

/-! # Nothing is lost between tokens

The tokens are slices of the text, one behind the other, and blanks fill the gaps between them
(`Covered`), up to the character that is reported if there is one (`IsStray`). -/

namespace StubCatalog.TypeExpr

open List

variable {cs : List Char} {start stop : Nat} {tokens : List Token}

/-- The tokens are those of the text between two places, one behind the other, each where it stands,
and every other character is blank. -/
structure Covered (cs : List Char) (start stop : Nat) (tokens : List Token) : Prop where
  le : start ≤ stop
  inside : ∀ t ∈ tokens, start ≤ t.position ∧ t.stop ≤ stop
  slice : ∀ t ∈ tokens, t.value ≠ "" ∧ (cs.take t.stop).drop t.position = t.value.toList
  first : ∀ t ∈ tokens, tokenAt? (cs.drop t.position) = some (t.kind, t.value.length)
  ordered : tokens.Pairwise fun t u => t.position < u.position ∧ t.stop ≤ u.position
  blank : ∀ i c, start ≤ i → i < stop → cs[i]? = some c →
    (∀ t ∈ tokens, i < t.position ∨ t.stop ≤ i) → Text.isBlank c

/-- The character stands in the text, and neither a blank nor a token of any sort starts there. -/
structure IsStray (cs : List Char) (stray : StrayCharacter) : Prop where
  char : cs[stray.position]? = some stray.char
  blank : Text.isBlank stray.char = false
  long : ∀ sort ∈ longTokens, sort.2 (cs.drop stray.position) = 0
  sign : signKind? stray.char = none

/-! ### One step -/

theorem covered_nil (cs : List Char) (start : Nat) : Covered cs start start [] where
  le := le_rfl
  inside := by simp
  slice := by simp
  first := by simp
  ordered := .nil
  blank i c hle hlt := by omega

theorem Covered.skip {c : Char} (hc : cs[start]? = some c) (hblank : Text.isBlank c)
    (h : Covered cs (start + 1) stop tokens) : Covered cs start stop tokens where
  le := by have := h.le; omega
  inside t ht := by have := h.inside t ht; omega
  slice := h.slice
  first := h.first
  ordered := h.ordered
  blank i d hle hlt hd hout := by
    rcases Nat.eq_or_lt_of_le hle with rfl | hle
    · cases hc.symm.trans hd
      exact hblank
    · exact h.blank i d hle hlt hd hout

theorem Covered.take {t : Token}
    (hat : tokenAt? (cs.drop t.position) = some (t.kind, t.value.length))
    (hvalue : t.value.toList = (cs.drop t.position).take t.value.length)
    (h : Covered cs t.stop stop tokens) : Covered cs t.position stop (t :: tokens) := by
  have hpos := (tokenAt?_le hat).1
  have hstop : t.stop = t.position + t.value.length := rfl
  have hbound := h.le
  refine ⟨by omega, ?_, ?_, ?_, ?_, ?_⟩
  · refine forall_mem_cons.mpr ⟨⟨le_rfl, hbound⟩, fun u hu => ?_⟩
    have := h.inside u hu
    omega
  · refine forall_mem_cons.mpr ⟨⟨fun hempty => ?_, ?_⟩, h.slice⟩
    · rw [hempty] at hpos
      exact absurd hpos (by decide)
    · rw [hstop, drop_take, Nat.add_sub_cancel_left, ← hvalue]
  · exact forall_mem_cons.mpr ⟨hat, h.first⟩
  · refine pairwise_cons.mpr ⟨fun u hu => ?_, h.ordered⟩
    have := (h.inside u hu).1
    omega
  · intro i c hle hlt hc hout
    obtain ⟨hfirst, hrest⟩ := forall_mem_cons.mp hout
    exact h.blank i c (by omega) hlt hc hrest

theorem of_tokenAt?_eq_none {c : Char} {rest : List Char} (h : tokenAt? (c :: rest) = none) :
    (∀ sort ∈ longTokens, sort.2 (c :: rest) = 0) ∧ signKind? c = none := by
  unfold tokenAt? at h
  split at h
  · cases h
  · next hfind =>
    exact ⟨by simpa using find?_eq_none.mp hfind, Option.map_eq_none_iff.mp h⟩

section
variable {c : Char} {rest : List Char} (hdrop : cs.drop start = c :: rest)
include hdrop

theorem of_drop_eq_cons :
    cs[start]? = some c ∧ cs.drop (start + 1) = rest ∧ cs.length = start + (rest.length + 1) := by
  have hlength := congrArg List.length hdrop
  rw [length_drop, length_cons] at hlength
  exact ⟨by rw [← head?_drop, hdrop]; rfl, by rw [← drop_drop, hdrop]; rfl, by omega⟩

theorem covered_token {kind : TokenKind} {n : Nat} (hat : tokenAt? (c :: rest) = some (kind, n)) :
    (cs.drop (start + (n - 1) + 1) = rest.drop (n - 1) ∧ start + (n - 1) + 1 ≤ cs.length) ∧
      ∀ {stop : Nat} {tokens : List Token}, Covered cs (start + (n - 1) + 1) stop tokens →
        Covered cs start stop (⟨kind, String.ofList (c :: rest.take (n - 1)), start⟩ :: tokens) := by
  obtain ⟨-, hnext, hlength⟩ := of_drop_eq_cons hdrop
  obtain ⟨hpos, hn⟩ := tokenAt?_le hat
  rw [length_cons] at hn
  obtain ⟨m, rfl⟩ := Nat.exists_eq_succ_of_ne_zero hpos.ne'
  rw [Nat.succ_sub_one]
  refine ⟨⟨?_, by omega⟩, fun {stop tokens} h => ?_⟩
  · rw [← hnext, drop_drop]
    congr 1
    omega
  · have hvalue : (String.ofList (c :: rest.take m)).length = m + 1 := by
      simp only [String.length_ofList, length_cons, length_take]
      omega
    refine @Covered.take cs stop tokens ⟨kind, _, start⟩ ?_ ?_ ?_
    · rw [hdrop, hat, hvalue]
    · rw [hdrop, hvalue, String.toList_ofList, take_succ_cons]
    · rwa [Token.stop, hvalue]

end

/-! ### Whole texts -/

theorem covered_tokensFrom {rest : List Char} (hrest : cs.drop start = rest)
    (hle : start ≤ cs.length) :
    (∀ tokens, tokensFrom start rest = .ok tokens → Covered cs start cs.length tokens) ∧
      ∀ stray, tokensFrom start rest = .error stray →
        IsStray cs stray ∧ ∃ tokens, Covered cs start stray.position tokens := by
  fun_induction tokensFrom start rest with
  | case1 start =>
    have hstart : start = cs.length := le_antisymm hle (drop_eq_nil_iff.mp hrest)
    refine ⟨?_, by rintro _ ⟨⟩⟩
    rintro _ ⟨⟩
    exact hstart ▸ covered_nil cs start
  | case2 start c rest hblank ih =>
    obtain ⟨hc, hnext, hlength⟩ := of_drop_eq_cons hrest
    obtain ⟨hok, herror⟩ := ih hnext (by omega)
    refine ⟨fun tokens h => (hok tokens h).skip hc hblank, fun stray h => ?_⟩
    obtain ⟨hstray, tokens, hcovered⟩ := herror stray h
    exact ⟨hstray, tokens, hcovered.skip hc hblank⟩
  | case3 start c rest hblank hnone =>
    obtain ⟨hlong, hsign⟩ := of_tokenAt?_eq_none hnone
    refine ⟨by rintro _ ⟨⟩, ?_⟩
    rintro _ ⟨⟩
    refine ⟨⟨(of_drop_eq_cons hrest).1, by simpa using hblank, ?_, hsign⟩, [], covered_nil cs start⟩
    rwa [hrest]
  | case4 start c rest hblank kind n htoken stray hfound ih =>
    obtain ⟨⟨hdrop, hbound⟩, htake⟩ := covered_token hrest htoken
    obtain ⟨hstray, tokens, hcovered⟩ := (ih hdrop hbound).2 stray hfound
    refine ⟨by rintro _ ⟨⟩, ?_⟩
    rintro _ ⟨⟩
    exact ⟨hstray, _, htake hcovered⟩
  | case5 start c rest hblank kind n htoken found hfound ih =>
    obtain ⟨⟨hdrop, hbound⟩, htake⟩ := covered_token hrest htoken
    refine ⟨?_, by rintro _ ⟨⟩⟩
    rintro _ ⟨⟩
    exact htake ((ih hdrop hbound).1 found hfound)

/-- **Cutting a text loses nothing but blanks.** The tokens cover the text, and the mark behind them
stands at its end. A text that cannot be cut has tokens up to the first place behind them where
neither a blank nor a token starts, and that place is reported. -/
theorem markedTokens_lossless (text : String) :
    (∀ marked, markedTokens text = .ok marked → ∃ tokens,
      marked = tokens ++ [⟨.eof, "", text.length⟩] ∧ Covered text.toList 0 text.length tokens) ∧
    ∀ stray, markedTokens text = .error stray →
      IsStray text.toList stray ∧ ∃ tokens, Covered text.toList 0 stray.position tokens := by
  obtain ⟨hok, herror⟩ := covered_tokensFrom (drop_zero (l := text.toList)) (Nat.zero_le _)
  rw [String.length_toList] at hok
  unfold markedTokens tokenize
  cases h : tokensFrom 0 text.toList with
  | error stray =>
    refine ⟨by rintro _ ⟨⟩, ?_⟩
    rintro _ ⟨⟩
    exact herror stray h
  | ok tokens =>
    refine ⟨?_, by rintro _ ⟨⟩⟩
    rintro _ ⟨⟩
    exact ⟨tokens, rfl, hok tokens h⟩

/-- Tokens without a gap and with blanks between them, and a lone point behind a name. -/
theorem markedTokens_lossless_member :
    (∃ tokens, markedTokens "\t?A::B_*  " = .ok (tokens ++ [⟨.eof, "", 10⟩]) ∧
      Covered "\t?A::B_*  ".toList 0 10 tokens) ∧
    IsStray "A .5. ".toList ⟨'.', 4⟩ ∧ ∃ tokens, Covered "A .5. ".toList 0 4 tokens := by
  obtain ⟨marked, hmarked⟩ : ∃ marked, markedTokens "\t?A::B_*  " = .ok marked :=
    ⟨_, by with_unfolding_all rfl⟩
  obtain ⟨tokens, rfl, hcovered⟩ := (markedTokens_lossless "\t?A::B_*  ").1 marked hmarked
  exact ⟨⟨tokens, hmarked, hcovered⟩,
    (markedTokens_lossless "A .5. ").2 ⟨'.', 4⟩ (by with_unfolding_all rfl)⟩

/-- **Quoting is undone.** The text of a text literal is a single token, and without its quotes it is
the literal's value again. -/
theorem markedTokens_quoted (s : String) : ∃ text, (TypeExpr.literal (.str s)).written = .ok text ∧
    markedTokens text = .ok [⟨.string, text, 0⟩, ⟨.eof, "", text.length⟩] ∧ unquote text = s := by
  refine ⟨quoteText s, rfl, ?_, unquote_quoteText s⟩
  have hend : tokensFrom (0 + (quoteText s).toList.length) [] = .ok [] := by rw [tokensFrom]
  have htokens := (leads_quoteText s []).tokensFrom_eq_ok hend
  rw [append_nil, String.ofList_toList] at htokens
  rw [markedTokens, tokenize, htokens]
  rfl

end StubCatalog.TypeExpr
