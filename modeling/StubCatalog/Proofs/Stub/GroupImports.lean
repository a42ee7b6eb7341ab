import Mathlib.Data.List.Basic
import Mathlib.Data.List.TakeWhile
import StubCatalog.Proofs.Text.Names
import StubCatalog.Stub.Import

/-! # Group imports

A statement that imports a group of names (`Group.written`) adds to a context what the statements
add that import the names one by one (`Group.single`), unless a name that is itself a word for a
kind has an alias. -/

namespace StubCatalog.Stub.Import

open List

variable {cs rest : List Char} {kind localName : Option String} {c : Char} {given : String}

/-! ### Names -/

/-- The signs of an import statement. -/
def signs : List Char := [',', ';', '{', '}']

/-- The text holds neither blanks nor signs. -/
def isPlain (cs : List Char) : Bool := cs.all fun c => !Text.isBlank c && !signs.contains c

/-- The text can be written in front of a group: it is not empty, holds neither blanks nor signs, and
does not end in a backslash. -/
def isStart (cs : List Char) : Bool := !cs.isEmpty && isPlain cs && cs.getLast? != some '\\'

/-- The text can be written as a name: it does not start with a backslash either. Identifiers with
backslashes between them are such texts. -/
def isName (cs : List Char) : Bool := isStart cs && cs.head? != some '\\'

/-- The name is a word for a kind, in any case. -/
def isKindWord (cs : List Char) : Bool :=
  kindWords.any fun word => cs.map Text.foldLetter == word.toList

theorem isPlain_append {ds : List Char} : isPlain (cs ++ ds) ↔ isPlain cs ∧ isPlain ds := by
  rw [isPlain, all_append, Bool.and_eq_true]
  rfl

theorem isBlank_of_isPlain (h : isPlain cs) : ∀ c ∈ cs, Text.isBlank c = false := by
  simp only [isPlain, all_eq_true, Bool.and_eq_true, Bool.not_eq_true'] at h
  exact fun c hc => (h c hc).1

theorem notMem_of_isPlain (h : isPlain cs) (hc : c ∈ signs) : c ∉ cs := by
  simp only [isPlain, all_eq_true, Bool.and_eq_true, Bool.not_eq_true'] at h
  intro hmem
  have hnot := (h c hmem).2
  rw [contains_iff_mem.mpr hc] at hnot
  cases hnot

theorem trimBlanks_of_ends (hhead : cs.head?.all (!Text.isBlank ·))
    (hlast : cs.getLast?.all (!Text.isBlank ·)) : Text.trimBlanks cs = cs := by
  have hdrop : ∀ ds : List Char, ds.head?.all (!Text.isBlank ·) →
      ds.dropWhile Text.isBlank = ds := by
    rintro (_ | ⟨d, ds⟩) hd
    · rfl
    · simp_all
  rw [Text.trimBlanks, Text.trimBy, hdrop cs hhead, Text.dropEndWhile,
    hdrop cs.reverse (by simpa using hlast), reverse_reverse]

theorem trimBlanks_of_isPlain (h : isPlain cs) : Text.trimBlanks cs = cs :=
  Text.trimBy_eq_self (isBlank_of_isPlain h)

theorem of_isName (h : isName cs) : cs ≠ [] ∧ isPlain cs ∧ cs.head? ≠ some '\\' := by
  simp only [isName, isStart, Bool.and_eq_true, Bool.not_eq_true', isEmpty_eq_false_iff,
    bne_iff_ne] at h
  exact ⟨h.1.1.1, h.1.1.2, h.2⟩

theorem of_isStart (h : isStart cs) : isPlain cs ∧ ∃ front c, cs = front ++ [c] ∧ c ≠ '\\' := by
  simp only [isStart, Bool.and_eq_true, Bool.not_eq_true', isEmpty_eq_false_iff,
    bne_iff_ne] at h
  obtain ⟨front, c, rfl⟩ := (eq_nil_or_concat cs).resolve_left h.1.1
  rw [concat_eq_append] at *
  exact ⟨h.1.2, front, c, rfl, by simpa using h.2⟩

/-! ### Words for kinds -/

theorem notMem_of_all {chars : List Char} (h : chars.all (!cs.contains ·))
    (hc : c ∈ chars) : c ∉ cs := by
  simpa using all_eq_true.mp h c hc

theorem fold_notMem {word : String} (hword : word ∈ kindWords)
    (hc : c ∈ '\\' :: Text.blanks) : Text.foldLetter c ∉ word.toList := by
  have h : ∀ word ∈ kindWords,
      (('\\' :: Text.blanks).map Text.foldLetter).all (!word.toList.contains ·) := by
    decide +kernel
  exact notMem_of_all (h word hword) (mem_map_of_mem hc)

theorem isKindWord_of_mem (h : '\\' ∈ cs) : isKindWord cs = false := by
  rw [isKindWord, any_eq_false]
  intro word hword hfold
  refine fold_notMem hword mem_cons_self ?_
  rw [← beq_iff_eq.mp hfold]
  exact mem_map_of_mem h

theorem of_takeKind? (h : takeKind? cs ≠ none) :
    isKindWord (cs.takeWhile (!Text.isBlank ·)) ∧ ∃ c ∈ cs, Text.isBlank c := by
  obtain ⟨found, hfound⟩ := Option.ne_none_iff_exists'.mp h
  obtain ⟨word, hword, hsome⟩ := exists_of_findSome?_eq_some hfound
  unfold Text.takeFolded? at hsome
  by_cases hfold : ((cs.take word.toList.length).map Text.foldLetter == word.toList)
  case neg =>
    rw [if_neg hfold] at hsome
    cases hsome
  rw [if_pos hfold] at hsome
  rw [beq_iff_eq] at hfold
  cases hdrop : cs.drop word.toList.length with
  | nil => simp [hdrop] at hsome
  | cons c behind =>
    have hc : Text.isBlank c := by
      by_contra hc
      simp [hdrop, hc] at hsome
    have hfront : ∀ d ∈ cs.take word.toList.length, (!Text.isBlank d) := by
      intro d hd
      rw [Bool.not_eq_true']
      by_contra hblank
      have hmem := Text.mem_blanks (by simpa using hblank)
      refine fold_notMem hword (mem_cons_of_mem _ hmem) ?_
      rw [← hfold]
      exact mem_map_of_mem hd
    have hcs : cs = cs.take word.toList.length ++ c :: behind := by
      rw [← hdrop, take_append_drop]
    refine ⟨any_eq_true.mpr ⟨word, hword, ?_⟩, c, by rw [hcs]; simp, hc⟩
    rw [hcs, takeWhile_append_of_pos hfront, takeWhile_cons_of_neg (by simp [hc]),
      append_nil, hfold, beq_self_eq_true]

theorem takeKind?_word {word : String} (h : word ∈ kindWords) (rest : List Char) :
    takeKind? (word.toList ++ ' ' :: rest) = some (word, rest.dropWhile Text.isBlank) := by
  have hself : ∀ word ∈ kindWords, word.toList.map Text.foldLetter = word.toList ∧
      Text.lower (String.ofList word.toList) = word := by decide
  have htake : ∀ word ∈ kindWords, ∀ rest,
      Text.takeFolded? word.toList (word.toList ++ rest) = some (word.toList, rest) := by
    intro word hword rest
    simp [Text.takeFolded?, (hself word hword).1]
  have hother : Text.takeFolded? "function".toList ("const".toList ++ ' ' :: rest) = none := by
    have hfirst : Text.foldLetter 'c' ≠ 'f' := by decide
    simp [Text.takeFolded?, hfirst]
  have hfound := hself word h
  simp only [kindWords, mem_cons, not_mem_nil, or_false] at h
  rcases h with rfl | rfl
  · simp only [takeKind?, kindWords, findSome?_cons, htake "function" (by decide), hfound.2]
    rfl
  · simp only [takeKind?, kindWords, findSome?_cons, hother, htake "const" (by decide),
      hfound.2]
    rfl

/-! ### Entries -/

/-- The word for a kind with a blank behind it, if there is one. -/
def kindText : Option String → List Char
  | none => []
  | some word => word.toList ++ [' ']

/-- The alias with the word in front of it, if there is one. -/
def aliasText : Option String → List Char
  | none => []
  | some name => [' ', 'a', 's', ' '] ++ name.toList

theorem splitKind_entry (hkind : ∀ word ∈ kind, word ∈ kindWords)
    (hhead : cs.head?.all (!Text.isBlank ·)) (hnone : kind = none → takeKind? cs = none) :
    splitKind given (kindText kind ++ cs) = (kind.getD given, cs) := by
  cases kind with
  | none => rw [kindText, nil_append, splitKind, hnone rfl]; rfl
  | some word =>
    rw [kindText, append_assoc, singleton_append, splitKind,
      takeKind?_word (hkind word rfl)]
    cases cs with
    | nil => rfl
    | cons c cs => simp_all

theorem cutAlias_append (h : isPlain cs) (before rest : List Char) :
    cutAlias before (cs ++ rest) = cutAlias (cs.reverse ++ before) rest := by
  have hblank := isBlank_of_isPlain h
  clear h
  induction cs generalizing before with
  | nil => rfl
  | cons c cs ih =>
    rw [forall_mem_cons] at hblank
    have hnone : afterAs? (c :: (cs ++ rest)) = none := by simp [afterAs?, hblank.1]
    rw [cons_append, cutAlias, hnone]
    simp only
    rw [ih _ hblank.2, reverse_cons, append_assoc]
    rfl

theorem ofItem_written {kind : String} (hname : isPlain cs)
    (halias : ∀ a ∈ localName, isPlain a.toList) :
    ofItem kind (cs ++ aliasText localName) =
      ⟨kind, Name.bare (String.ofList cs), localName⟩ := by
  rw [ofItem, cutAlias_append hname, append_nil]
  cases localName with
  | none => simp [aliasText, cutAlias, trimBlanks_of_isPlain hname]
  | some a =>
    have hfold : ['a', 's'].map Text.foldLetter = ['a', 's'] := by decide
    have hafter : afterAs? (aliasText (some a)) = some a.toList := by
      simp [aliasText, afterAs?, Text.takeFolded?, hfold, show Text.isBlank ' ' from rfl,
        show Text.isBlank 'a' = false from rfl]
    rw [aliasText, cons_append] at hafter ⊢
    rw [cutAlias, hafter]
    simp [trimBlanks_of_isPlain hname, trimBlanks_of_isPlain (halias a rfl)]

theorem items_join {texts : List (List Char)}
    (h : ∀ text ∈ texts, text ≠ [] ∧ ',' ∉ text ∧ Text.trimBlanks text = text) :
    items (Text.join [',', ' '] texts) = texts ∧
      items (' ' :: Text.join [',', ' '] texts) = texts := by
  induction texts with
  | nil => exact ⟨rfl, rfl⟩
  | cons text texts ih =>
    rw [forall_mem_cons] at h
    obtain ⟨⟨hne, hnot, htrim⟩, hrest⟩ := h
    have hspace : Text.trimBlanks (' ' :: text) = text := htrim
    cases texts with
    | nil =>
      rw [Text.join, items, items, Text.fields_of_notMem hnot,
        Text.fields_of_notMem (show ',' ∉ ' ' :: text by simpa using hnot)]
      simp [hspace, htrim, hne]
    | cons next texts =>
      have hjoin : Text.join [',', ' '] (text :: next :: texts) =
          text ++ ',' :: ' ' :: Text.join [',', ' '] (next :: texts) := by simp [Text.join]
      have hnext := (ih hrest).2
      rw [items] at hnext
      rw [hjoin, items, items, ← cons_append, Text.fields_append hnot,
        Text.fields_append (show ',' ∉ ' ' :: text by simpa using hnot)]
      simp [hspace, htrim, hne, hnext]

theorem forall_mem_none : ∀ word ∈ (none : Option String), word ∈ kindWords := by simp

section
variable (hkind : ∀ word ∈ kind, word ∈ kindWords) (hcs : isPlain cs) (hne : cs ≠ [])
  (halias : ∀ a ∈ localName, isName a.toList)
include hcs

include hkind hne in
theorem head_entry (rest : List Char) :
    (kindText kind ++ (cs ++ rest)).head?.all (!Text.isBlank ·) := by
  obtain ⟨c, cs, rfl⟩ := exists_cons_of_ne_nil hne
  cases kind with
  | none => simp [kindText, isBlank_of_isPlain hcs c (by simp)]
  | some word =>
    have hword := hkind word rfl
    simp only [kindWords, mem_cons, not_mem_nil, or_false] at hword
    rcases hword with rfl | rfl <;> rfl

include hne halias in
theorem last_entry (front : List Char) :
    (front ++ (cs ++ aliasText localName)).getLast?.all (!Text.isBlank ·) := by
  have hlast : ∀ {ds : List Char} (front : List Char), isPlain ds → ds ≠ [] →
      (front ++ ds).getLast?.all (!Text.isBlank ·) := by
    intro ds front hds hne
    obtain ⟨ds, d, rfl⟩ := (eq_nil_or_concat ds).resolve_left hne
    rw [concat_eq_append] at hds ⊢
    simp [isBlank_of_isPlain hds d (by simp)]
  cases localName with
  | none =>
    rw [aliasText, append_nil]
    exact hlast _ hcs hne
  | some a =>
    obtain ⟨hane, haplain, -⟩ := of_isName (halias a rfl)
    rw [aliasText, ← append_assoc, ← append_assoc]
    exact hlast _ haplain hane

include hkind halias in
theorem signs_notMem (hc : c ∈ signs) : c ∉ kindText kind ++ (cs ++ aliasText localName) := by
  have hkindText : c ∉ kindText kind := by
    cases kind with
    | none => simp [kindText]
    | some word =>
      have h : ∀ word ∈ kindWords, signs.all (!(word.toList ++ [' ']).contains ·) := by
        decide
      exact notMem_of_all (h word (hkind word rfl)) hc
  have haliasText : c ∉ aliasText localName := by
    cases localName with
    | none => simp [aliasText]
    | some a =>
      rw [aliasText, mem_append, not_or]
      exact ⟨notMem_of_all (by decide) hc,
        notMem_of_isPlain (of_isName (halias a rfl)).2.1 hc⟩
  simp [hkindText, haliasText, notMem_of_isPlain hcs hc]

end

/-! ### Statements -/

/-- One of the names of a group, with the word for its kind and its alias. -/
structure GroupItem where
  kind : Option String
  name : String
  localName : Option String

/-- Names with a common start that are imported together. -/
structure Group where
  kind : Option String
  start : String
  items : List GroupItem

def GroupItem.written (i : GroupItem) : List Char :=
  kindText i.kind ++ (i.name.toList ++ aliasText i.localName)

/-- A statement with the given text between its first word and its last sign. -/
def statement (text : List Char) : String := String.ofList (['u', 's', 'e', ' '] ++ text ++ [';'])

/-- The statement that imports the group. -/
def Group.written (g : Group) : String :=
  statement (kindText g.kind ++ (g.start.toList ++ ['\\'] ++
    '{' :: (Text.join [',', ' '] (g.items.map GroupItem.written) ++ ['}'])))

/-- The statement that imports one of the names on its own. -/
def Group.single (g : Group) (i : GroupItem) : String :=
  statement (kindText (i.kind <|> g.kind) ++
    (g.start.toList ++ '\\' :: i.name.toList ++ aliasText i.localName))

/-- Adds the imports of the names to a context, one statement after the other. -/
def Group.addSingles (g : Group) (ctx : NamingContext) : NamingContext :=
  g.items.foldl (fun ctx i => addAll ctx (parse (g.single i))) ctx

/-- The words for kinds are such words and the names are names; one that is a word for a kind itself
has another such word in front or no alias. -/
structure Group.IsClear (g : Group) : Prop where
  kind : ∀ word ∈ g.kind, word ∈ kindWords
  start : isStart g.start.toList
  kinds : ∀ i ∈ g.items, ∀ word ∈ i.kind, word ∈ kindWords
  names : ∀ i ∈ g.items, isName i.name.toList
  aliases : ∀ i ∈ g.items, ∀ a ∈ i.localName, isName a.toList
  clear : ∀ i ∈ g.items, i.kind = none → i.localName ≠ none → isKindWord i.name.toList = false

theorem body_statement (hhead : cs.head?.all (!Text.isBlank ·))
    (hlast : cs.getLast?.all (!Text.isBlank ·)) (hne : cs ≠ [])
    (hsign : cs.getLast? ≠ some ';') :
    body (statement cs) = cs := by
  obtain ⟨front, c, rfl⟩ := (eq_nil_or_concat cs).resolve_left hne
  rw [concat_eq_append] at *
  rw [getLast?_concat] at hlast hsign
  have hword : Text.lower (String.ofList ['u', 's', 'e']) = "use" := by decide
  have hrest : Text.trimBlanks (' ' :: (front ++ [c])) = front ++ [c] :=
    show Text.trimBlanks (front ++ [c]) = _ from
      trimBlanks_of_ends hhead (by rwa [getLast?_concat])
  have hdrop : Text.dropEndWhile (· == ';') (['u', 's', 'e', ' '] ++ (front ++ [c]) ++ [';']) =
      ['u', 's', 'e', ' '] ++ (front ++ [c]) := by
    have hc : c ≠ ';' := by simpa using hsign
    simp [Text.dropEndWhile, hc]
  have hwhole : Text.trimBlanks (['u', 's', 'e', ' '] ++ (front ++ [c]) ++ [';']) = _ :=
    trimBlanks_of_ends rfl (by rw [getLast?_concat]; rfl)
  have hfront : Text.trimBlanks (['u', 's', 'e', ' '] ++ (front ++ [c])) = _ :=
    trimBlanks_of_ends rfl (by rw [← append_assoc, getLast?_concat]; exact hlast)
  rw [body, statement, String.toList_ofList, hwhole, hdrop, hfront]
  simp [hword, hrest]

theorem parse_of_braces {text : String} {inner : List Char}
    (hbody : body text = cs) (hsplit : splitKind defaultKind cs = (given, rest))
    (hrest : rest.dropWhile (· != '{') = c :: inner) :
    parse text = ofGroup given (rest.takeWhile (· != '{')) inner := by
  unfold parse
  rw [hbody, hsplit]
  simp only [hrest]

theorem parse_of_no_braces {text : String} (hbody : body text = cs)
    (hsplit : splitKind defaultKind cs = (given, rest)) (hrest : '{' ∉ rest) :
    parse text = (items rest).map (ofItem given) := by
  have hdrop : rest.dropWhile (· != '{') = [] := by
    refine dropWhile_eq_nil_iff.mpr fun c hc => ?_
    rw [bne_iff_ne]
    rintro rfl
    exact hrest hc
  unfold parse
  rw [hbody, hsplit]
  simp only [hdrop]

section
variable (hcs : isPlain cs)
include hcs

theorem takeWhile_plain (rest : List Char) :
    (cs ++ rest).takeWhile (!Text.isBlank ·) = cs ++ rest.takeWhile (!Text.isBlank ·) :=
  takeWhile_append_of_pos fun c hc => by rw [isBlank_of_isPlain hcs c hc]; rfl

theorem takeKind?_name (hclear : localName ≠ none → isKindWord cs = false) :
    takeKind? (cs ++ aliasText localName) = none := by
  by_contra h
  obtain ⟨hword, c, hc, hblank⟩ := of_takeKind? h
  cases localName with
  | none =>
    rw [aliasText, append_nil] at hc
    rw [isBlank_of_isPlain hcs c hc] at hblank
    cases hblank
  | some a =>
    rw [takeWhile_plain hcs, show (aliasText (some a)).takeWhile _ = [] from rfl, append_nil,
      hclear (by simp)] at hword
    cases hword

theorem takeKind?_path (hslash : '\\' ∈ cs) (rest : List Char) : takeKind? (cs ++ rest) = none := by
  by_contra h
  have hword := (of_takeKind? h).1
  rw [takeWhile_plain hcs, isKindWord_of_mem (mem_append_left _ hslash)] at hword
  cases hword

variable (hkind : ∀ word ∈ kind, word ∈ kindWords) (hslash : '\\' ∈ cs)
include hkind hslash

theorem parse_group (inner : List Char) :
    parse (statement (kindText kind ++ (cs ++ '{' :: (inner ++ ['}'])))) =
      ofGroup (kind.getD defaultKind) cs (inner ++ ['}']) := by
  have hne := ne_nil_of_mem hslash
  have hlast : (kindText kind ++ (cs ++ '{' :: (inner ++ ['}']))).getLast? = some '}' := by
    rw [← append_assoc, ← cons_append, ← append_assoc, getLast?_concat]
  have hbrace : ∀ c ∈ cs, (c != '{') := by
    intro c hc
    rw [bne_iff_ne]
    rintro rfl
    exact notMem_of_isPlain hcs (by decide) hc
  have hrest : (cs ++ '{' :: (inner ++ ['}'])).dropWhile (· != '{') = '{' :: (inner ++ ['}']) := by
    rw [dropWhile_append_of_pos hbrace]
    rfl
  rw [parse_of_braces
      (body_statement (head_entry hkind hcs hne _) (by rw [hlast]; rfl) (by simp)
        (by rw [hlast]; decide))
      (splitKind_entry hkind (head_entry forall_mem_none hcs hne _)
        fun _ => takeKind?_path hcs hslash _) hrest,
    takeWhile_append_of_pos hbrace, takeWhile_cons_of_neg (by simp), append_nil]

theorem parse_entry (halias : ∀ a ∈ localName, isName a.toList) :
    parse (statement (kindText kind ++ (cs ++ aliasText localName))) =
      [⟨kind.getD defaultKind, Name.bare (String.ofList cs), localName⟩] := by
  have hne := ne_nil_of_mem hslash
  have hitems : items (Text.join [',', ' '] [cs ++ aliasText localName]) =
      [cs ++ aliasText localName] := by
    refine (items_join fun text htext => ?_).1
    obtain rfl := mem_singleton.mp htext
    exact ⟨by simp [hne], signs_notMem forall_mem_none hcs halias (by decide),
      trimBlanks_of_ends (head_entry forall_mem_none hcs hne _) (last_entry hcs hne halias [])⟩
  rw [parse_of_no_braces
      (body_statement (head_entry hkind hcs hne _) (last_entry hcs hne halias _) (by simp [hne])
        fun hsign => signs_notMem hkind hcs halias (by decide) (mem_of_getLast? hsign))
      (splitKind_entry hkind (head_entry forall_mem_none hcs hne _)
        fun _ => takeKind?_path hcs hslash _)
      (signs_notMem forall_mem_none hcs halias (by decide)),
    show items (cs ++ aliasText localName) = _ from hitems, map_singleton,
    ofItem_written hcs fun a ha => (of_isName (halias a ha)).2.1]

end

section
variable {g : Group} (hg : g.IsClear)
include hg

theorem parse_of_isClear : parse g.written = g.items.map fun i =>
    ⟨(i.kind <|> g.kind).getD defaultKind, g.start ++ "\\" ++ i.name, i.localName⟩ := by
  obtain ⟨hplain, front, c, hstart, hc⟩ := of_isStart hg.start
  have hfront : isPlain (g.start.toList ++ ['\\']) := isPlain_append.mpr ⟨hplain, rfl⟩
  have hcommon : Text.dropEndWhile (· == '\\') (g.start.toList ++ ['\\']) = g.start.toList := by
    simp [hstart, Text.dropEndWhile, hc]
  have hitems : items (Text.join [',', ' '] (g.items.map GroupItem.written)) =
      g.items.map GroupItem.written := by
    refine (items_join fun text htext => ?_).1
    obtain ⟨i, hi, rfl⟩ := mem_map.mp htext
    obtain ⟨hne, hname, -⟩ := of_isName (hg.names i hi)
    exact ⟨by simp [GroupItem.written, hne],
      signs_notMem (hg.kinds i hi) hname (hg.aliases i hi) (by decide),
      trimBlanks_of_ends (head_entry (hg.kinds i hi) hname hne _)
        (last_entry hname hne (hg.aliases i hi) _)⟩
  rw [Group.written, parse_group hfront hg.kind (by simp), ofGroup, trimBlanks_of_isPlain hfront,
    hcommon, String.ofList_toList]
  generalize Text.join [',', ' '] (g.items.map GroupItem.written) = inner at hitems ⊢
  have hinner : beforeLastBrace (inner ++ ['}']) = inner := by simp [beforeLastBrace]
  rw [hinner, hitems, map_map]
  refine map_congr_left fun i hi => ?_
  obtain ⟨hne, hname, hhead⟩ := of_isName (hg.names i hi)
  have hsplit : splitKind (g.kind.getD defaultKind) i.written = _ :=
    splitKind_entry (hg.kinds i hi)
      (head_entry forall_mem_none hname hne _)
      fun hnone => takeKind?_name hname (hg.clear i hi hnone)
  simp only [Function.comp, hsplit]
  rw [ofItem_written hname fun a ha => (of_isName (hg.aliases i hi a ha)).2.1,
    String.ofList_toList, Name.bare_of_head? hhead]
  cases i.kind <;> rfl

theorem parse_single {i : GroupItem} (hi : i ∈ g.items) : parse (g.single i) =
    [⟨(i.kind <|> g.kind).getD defaultKind, Name.bare (g.start ++ "\\" ++ i.name),
      i.localName⟩] := by
  have hplain : isPlain (g.start.toList ++ '\\' :: i.name.toList) := by
    refine isPlain_append.mpr ⟨(of_isStart hg.start).1, ?_⟩
    exact (@isPlain_append ['\\'] _).mpr ⟨rfl, (of_isName (hg.names i hi)).2.1⟩
  have hkind : ∀ word ∈ i.kind <|> g.kind, word ∈ kindWords := by
    intro word hword
    cases hi' : i.kind with
    | none => exact hg.kind word (by simpa [hi'] using hword)
    | some w => exact hg.kinds i hi word (by simpa [hi'] using hword)
  have hname : String.ofList (g.start.toList ++ '\\' :: i.name.toList) =
      g.start ++ "\\" ++ i.name := by
    rw [← String.toList_inj]
    simp
  rw [Group.single, parse_entry hplain hkind (by simp) (hg.aliases i hi), hname]

end

/-- **A group import means the same as its expansion.** For each item of a group one import is read
from its statement, in order. To a context it adds what the statements add that import the names one
by one. -/
theorem group_eq_singles {g : Group} (hg : g.IsClear) (ctx : NamingContext) :
    parse g.written = g.items.map (fun i =>
      ⟨(i.kind <|> g.kind).getD defaultKind, g.start ++ "\\" ++ i.name, i.localName⟩) ∧
    addAll ctx (parse g.written) = g.addSingles ctx := by
  refine ⟨parse_of_isClear hg, ?_⟩
  rw [parse_of_isClear hg, addAll, foldl_map]
  refine foldl_ext _ _ ctx fun ctx i hi => ?_
  rw [parse_single hg hi, addAll, foldl_cons, foldl_nil]
  simp only [NamingContext.addImport, Name.bare_bare]
  rfl

/-- A function under an alias and a constant, in a group behind a complete name. -/
def mixedGroup : Group :=
  ⟨some "function", "\\A", [⟨none, "f", some "g"⟩, ⟨some "const", "B\\C", none⟩]⟩

theorem group_eq_singles_mixed :
    mixedGroup.written = "use function \\A\\\x7bf as g, const B\\C\x7d;" ∧
    addAll {} (parse mixedGroup.written) =
      addAll (addAll {} (parse "use function \\A\\f as g;")) (parse "use const \\A\\B\\C;") := by
  have hclear : mixedGroup.IsClear := by
    refine ⟨?_, by decide, ?_, ?_, ?_, ?_⟩ <;> simp [mixedGroup] <;> decide
  refine ⟨by decide, ?_⟩
  rw [(group_eq_singles hclear _).2]
  have hsingle : mixedGroup.items.map mixedGroup.single =
      ["use function \\A\\f as g;", "use const \\A\\B\\C;"] := by decide
  calc mixedGroup.addSingles {}
      = (mixedGroup.items.map mixedGroup.single).foldl (fun ctx text => addAll ctx (parse text))
          {} := foldl_map.symm
    _ = _ := by rw [hsingle]; rfl

/-- The name `function` is taken for the word for a kind where an alias follows. -/
theorem group_takes_name_for_kind : ∃ g : Group, g = ⟨none, "A", [⟨none, "function", some "f"⟩]⟩ ∧
      parse g.written = [⟨"function", "A\\as f", none⟩] ∧
      g.items.flatMap (fun i => parse (g.single i)) = [⟨"class", "A\\function", some "f"⟩] ∧
      addAll {} (parse g.written) ≠ g.addSingles {} := by
  refine ⟨_, rfl, by decide, by decide, fun h => ?_⟩
  have hclasses := congrArg (fun ctx => ctx.classes.pairs.isEmpty) h
  revert hclasses
  decide

end StubCatalog.Stub.Import
