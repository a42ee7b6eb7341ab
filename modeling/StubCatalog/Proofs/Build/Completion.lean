import StubCatalog.Proofs.Build.Declarations
import StubCatalog.Proofs.TypeExpr.WrittenText

/-! # Builds that have a result

Malformed declarations are reported and do not stop a build. What stops it are integers without a
value, and those with too many digits for a message. -/

namespace StubCatalog

open List

/-- The value of the literal has too many digits to be written in base ten. -/
def Numeral.isOversized (literal : String) : Bool :=
  match readLiteral literal with
  | .ok n => !isWritable n
  | .error _ => false

namespace TypeExpr

/-- Every integer in the text of a type has a value. -/
def HasValues (text : String) : Prop :=
  ∀ l ∈ integerLiterals text, Numeral.lacksValue l = false

/-- No integer in the text of a type has too many digits to be written. -/
def HasWritableValues (text : String) : Prop :=
  ∀ l ∈ integerLiterals text, Numeral.isOversized l = false

instance : DecidablePred HasValues := fun text =>
  inferInstanceAs (Decidable (∀ l ∈ integerLiterals text, Numeral.lacksValue l = false))

instance : DecidablePred HasWritableValues := fun text =>
  inferInstanceAs (Decidable (∀ l ∈ integerLiterals text, Numeral.isOversized l = false))

theorem isWritableNode_of_integers {t : TypeExpr} (hregular : t.isRegularNode)
    (h : ∀ n ∈ t.integers, Numeral.isWritable n) : t.isWritableNode := by
  cases t with
  | literal value =>
    cases value with
    | int n => exact h n (by simp [TypeExpr.integers])
    | _ => rfl
  | intRange low high =>
    have hbound : ∀ b : Bound, b.isInteger → (∀ n ∈ boundInteger? b, n ∈
        (TypeExpr.intRange low high).integers) → b.stored.isWritable := by
      intro b hb hn
      obtain ⟨n, rfl⟩ := Bound.exists_of_isInteger hb
      cases n with
      | none => rfl
      | some n => exact h n (hn n rfl)
    simp only [isRegularNode, Bool.and_eq_true] at hregular
    rw [isWritableNode, Bool.and_eq_true]
    refine ⟨hbound low hregular.1 fun n hn => ?_, hbound high hregular.2 fun n hn => ?_⟩
    · exact mem_filterMap.mpr ⟨low, by simp, hn⟩
    · exact mem_filterMap.mpr ⟨high, by simp, hn⟩
  | shape kind fields s key value =>
    simp only [isRegularNode, Bool.and_eq_true, all_eq_true] at hregular
    refine all_eq_true.mpr fun f hf => ?_
    have hplain := (hregular.2 f hf).2
    cases hkey : f.key with
    | none => rfl
    | some k =>
      cases k with
      | int n =>
        have hn := h n (mem_filterMap.mpr ⟨f, hf, by simp [keyInteger?, hkey]⟩)
        simpa only [Option.all_some, ShapeKey.toJson, Json.isWritable] using hn
      | str _ => rfl
      | stored _ => simp [hkey, ShapeKey.isPlain] at hplain
  | _ => rfl

theorem isWritable_of_readForm {names : String → Prop} {ints : Int → Prop} {t : TypeExpr}
    (h : ReadForm names ints t) (hints : ∀ n, ints n → Numeral.isWritable n) :
    t.isWritable := by
  unfold ReadForm Formed at h
  induction h with
  | @intro t here inside ih =>
    have hnode := isWritableNode_of_integers here.2.regular fun n hn =>
      hints n (here.2.integers n hn)
    refine isWritable_iff.mpr ⟨hnode, fun u hu => ih u ?_⟩
    cases t with
    | template name bound => simp [children] at hu
    | _ => exact hu

theorem parse_ne_numeral {text : String} (h : HasValues text) (scope : Scope) (e : Numeral.Error) :
    parse text scope ≠ .error (.numeral e) := by
  intro he
  obtain ⟨l, hl, herror⟩ := exists_integer_of_parse he
  obtain ⟨n, hn⟩ := (exists_readLiteral_of_mem hl).mpr (h l hl)
  rw [hn] at herror
  cases herror

theorem exists_parseLenient {text : String} (h : HasValues text) (scope : Scope) :
    ∃ t, parseLenient text scope = .ok t := by
  unfold parseLenient
  split
  · exact ⟨_, rfl⟩
  · next e he => exact absurd he (parse_ne_numeral h scope e)
  · exact ⟨_, rfl⟩

end TypeExpr

/-- The value is no integer literal without a value. -/
def Evaluation.HasValue (text : String) : Prop :=
  ∀ l ∈ Evaluation.valueLiteral? text, Numeral.lacksValue l = false

instance : DecidablePred Evaluation.HasValue := fun text =>
  inferInstanceAs (Decidable (∀ l ∈ Evaluation.valueLiteral? text, Numeral.lacksValue l = false))

/-- The integers in a file have values, and those in its types can be written if they may have to be
named in a message. -/
structure Stub.File.HasValues (settings : Settings) (file : Stub.File) : Prop where
  types : ∀ text ∈ file.typeTexts, TypeExpr.HasValues text
  messages : settings.reportAnnotationConflicts →
    ∀ text ∈ file.typeTexts, TypeExpr.HasWritableValues text
  values : ∀ text ∈ file.valueTexts, Evaluation.HasValue text

namespace Build

/-- The terms of a build that nothing may stop. -/
def unstoppable (settings : Settings) : Terms where
  settings := settings
  ints n := settings.reportAnnotationConflicts → Numeral.isWritable n
  fault _ := False
  type text := TypeExpr.HasValues text ∧
    (settings.reportAnnotationConflicts → TypeExpr.HasWritableValues text)
  value := Evaluation.HasValue
  read {text l} h hl := by
    obtain ⟨n, hn⟩ := (TypeExpr.exists_readLiteral_of_mem hl).mpr (h.1 l hl)
    refine ⟨fun k hk => ?_, fun e he => ?_⟩
    · have hwritable : settings.reportAnnotationConflicts → Numeral.isWritable k :=
        fun hreport => by simpa [Numeral.isOversized, hk] using h.2 hreport l hl
      refine ⟨hwritable, fun hreport => ?_⟩
      simpa [Numeral.isWritable] using hwritable hreport
    · rw [hn] at he
      cases he
  write {names t e} hreport ht he := by
    have hwritable := TypeExpr.isWritable_of_readForm ht fun n hn => hn hreport
    rw [TypeExpr.written, if_pos hwritable] at he
    cases he
  evaluate {text e} h he := by
    obtain ⟨v, hv⟩ : ∃ v, Evaluation.ofText (some text) settings.unknownMarker = .ok v := by
      refine Evaluation.exists_ofText ?_
      rintro _ ⟨⟩
      exact h
    rw [hv] at he
    cases he

theorem exists_build {settings : Settings} {files : List Stub.File} (earlier : List Diagnostic)
    (h : ∀ file ∈ files, isSkipped settings file = false → file.HasValues settings) :
    ∃ catalog, Catalog.build settings files earlier = .ok catalog := by
  have hmeets : Checked.Meets (collect settings files) (fun _ => False)
      (IsReadDraft (unstoppable settings)) := by
    refine meets_addFiles (d := unstoppable settings) fun file hfile hskipped => ?_
    have hvalues := h file hfile hskipped
    exact ⟨fun text htext => ⟨hvalues.types text htext, fun hreport =>
      hvalues.messages hreport text htext⟩, hvalues.values⟩
  unfold Catalog.build
  unfold Checked.Meets at hmeets
  split at hmeets
  · next draft found hrun =>
    rw [hrun]
    exact ⟨_, rfl⟩
  · exact hmeets.elim

/-- **Only integers stop a build.** Unless some integer in the text lacks a value, a type is read or
the text is malformed, and the lenient reading gives a type; unless a value is such an integer, it
is evaluated; and a build of files without such integers, in which no integer that may have to be
named in a message has too many digits, returns a catalog, whatever else is wrong. Files that are
skipped may hold anything. -/
theorem build_returns (text : String) (scope : Scope) (value : Option String) (marker : String)
    (settings : Settings) (files : List Stub.File) (earlier : List Diagnostic) :
    (TypeExpr.HasValues text →
      (∀ e, TypeExpr.parse text scope = .error e →
        ∃ flaw position source, e = .malformed flaw position source) ∧
      ∃ t, TypeExpr.parseLenient text scope = .ok t) ∧
    ((∀ s ∈ value, Evaluation.HasValue s) → ∃ v, Evaluation.ofText value marker = .ok v) ∧
    ((∀ file ∈ files, isSkipped settings file = false → file.HasValues settings) →
      ∃ catalog, Catalog.build settings files earlier = .ok catalog) := by
  refine ⟨fun h => ⟨fun e he => ?_, TypeExpr.exists_parseLenient h scope⟩,
    fun h => Evaluation.exists_ofText h, fun h => exists_build earlier h⟩
  cases e with
  | malformed flaw position source => exact ⟨flaw, position, source, rfl⟩
  | numeral e => exact absurd he (TypeExpr.parse_ne_numeral h scope e)

/-- A function with a parameter of the given type and default and the given docblock. -/
def oneFunction (typeText defaultText docblock : String) : Stub.File where
  path := "a.php"
  functions := [
    { name := "f", context := { file := "a.php" }, location := { file := "a.php", line := 2 }
      parameters := [{ name := "x", typeText := some typeText, defaultText := some defaultText }]
      docblock := some docblock }]

/-- Integers in every base in a declared type, a default and a docblock. The declared type and the
second tag are malformed. -/
def mixedBases : Stub.File :=
  oneFunction "0x1F|?(0b1" "-0o17"
    "/** @param int<0, 0X_ff>|array\x7b7: Foo\x7d $x\n * @return |int */"

/-- The integers have values, so the type and the value are read and the build returns a catalog. -/
theorem build_returns_mixedBases :
    TypeExpr.HasValues "0x1F|?(0b1" ∧ Evaluation.HasValue "-0o17" ∧ mixedBases.HasValues {} ∧
      (∃ t, TypeExpr.parseLenient "0x1F|?(0b1" {} = .ok t) ∧
      (∃ v, Evaluation.ofText (some "-0o17") "" = .ok v) ∧
      ∃ catalog, Catalog.build {} [mixedBases] = .ok catalog := by
  have htext : TypeExpr.HasValues "0x1F|?(0b1" := by decide +kernel
  have hvalue : Evaluation.HasValue "-0o17" := by decide
  have hvalues : mixedBases.HasValues {} :=
    ⟨by decide +kernel, fun _ => by decide +kernel, by decide +kernel⟩
  obtain ⟨hread, hevaluated, hbuilt⟩ :=
    build_returns "0x1F|?(0b1" {} (some "-0o17") "" {} [mixedBases] []
  exact ⟨htext, hvalue, hvalues, (hread htext).2, hevaluated (by simpa using hvalue),
    hbuilt (by simpa using fun _ => hvalues)⟩

/-- A base mark without a digit: neither the type nor the value is read, and the build stops. -/
theorem build_stops_without_digit : TypeExpr.parse "0x_" = .error (.numeral (.malformed 0 "0x")) ∧
      Evaluation.ofText (some "0x_") "" = .error (.malformed 0 "0x") ∧
      Catalog.build {} [oneFunction "0x_" "1" ""] = .error (.numeral (.malformed 0 "0x")) := by
  refine ⟨by with_unfolding_all rfl, by decide, by with_unfolding_all rfl⟩

end Build

end StubCatalog
