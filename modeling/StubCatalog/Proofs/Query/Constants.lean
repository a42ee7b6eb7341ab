import StubCatalog.Proofs.Build.Composition
import StubCatalog.Query.Member

/-! # Looking up constants of a class

A name with a double colon is taken apart (`splitMember?_joined`), and the search starts at the
class itself (`exists_ancestry_eq`). There a method hides a constant (`constant?_method`), and
nothing else does. -/

namespace StubCatalog

open List

/-! ### Names with a double colon -/

namespace Text

theorem isPrefixOf_colons_cons (c : Char) (rest after : List Char) :
    [':', ':'].isPrefixOf (c :: (rest ++ ':' :: after)) =
      [':', ':'].isPrefixOf (c :: (rest ++ [':'])) := by
  cases rest <;> simp [List.isPrefixOf]

theorem cutAt?_colons {before : List Char} (after : List Char)
    (h : contains [':', ':'] (before ++ [':']) = false) :
    cutAt? [':', ':'] (before ++ ':' :: ':' :: after) = some (before, after) := by
  induction before with
  | nil => rfl
  | cons c rest ih =>
    rw [contains, cons_append, cutAt?, dropStart?] at h
    rw [cons_append, cutAt?, dropStart?, isPrefixOf_colons_cons]
    cases hstart : [':', ':'].isPrefixOf (c :: (rest ++ [':'])) with
    | true => simp [hstart] at h
    | false =>
      have hrest : contains [':', ':'] (rest ++ [':']) = false := by
        simpa [hstart, contains] using h
      simp [ih hrest]

end Text

namespace Catalog

theorem splitMember?_joined {owner : String} (name : String)
    (h : Text.contains [':', ':'] (owner ++ ":").toList = false) :
    splitMember? (owner ++ "::" ++ name) = some (owner, name) := by
  rw [String.toList_append] at h
  have htext : (owner ++ "::" ++ name).toList = owner.toList ++ ':' :: ':' :: name.toList := by
    rw [String.toList_append, String.toList_append, append_assoc]
    rfl
  simp [splitMember?, htext, Text.cutAt?_colons _ h]

/-! ### The class itself comes first -/

section
variable {catalog : Catalog} {entry : ClassEntry} {name member : String}

theorem exists_ancestry_eq (h : catalog.class? name = some entry) :
    ∃ rest, catalog.ancestry name = ⟨entry, {}⟩ :: rest := by
  have hsize : 0 < catalog.classes.size := length_pos_of_mem (Table.mem_pairs_iff.mpr h)
  obtain ⟨n, hn⟩ := Nat.exists_eq_add_one.mpr hsize
  rw [ancestry, h]
  simp only [hn, parentChain]
  exact ⟨_, rfl⟩

theorem member?_eq_own (h : catalog.class? name = some entry) {found : Member}
    (hfound : ownMember? ⟨entry, {}⟩ member = some found) :
    catalog.member? name member = some found := by
  obtain ⟨rest, hrest⟩ := exists_ancestry_eq h
  rw [member?, hrest, findSome?_cons, hfound]

theorem member?_dollar {found : Member} (hdollar : member.toList.head? = some '$')
    (hfound : catalog.member? name member = some found) :
    ∃ property, found.entry = .property property := by
  obtain ⟨ancestor, -, hown⟩ := exists_of_findSome?_eq_some hfound
  obtain ⟨rest, hrest⟩ : ∃ rest, member.toList = '$' :: rest :=
    head?_eq_some_iff.mp hdollar
  rw [ownMember?, hrest] at hown
  obtain ⟨property, -, rfl⟩ := Option.map_eq_some_iff.mp hown
  exact ⟨property, rfl⟩

theorem ownMember?_of_head? (entry : ClassEntry) (hdollar : member.toList.head? ≠ some '$') :
    ownMember? ⟨entry, {}⟩ member =
      ((entry.method? member).map fun method => ⟨entry.name, .method method, {}⟩).or
        ((entry.constants.get? member).map fun constant =>
          ⟨entry.name, .constant constant, {}⟩) := by
  rw [ownMember?]
  split
  · next rest hrest =>
    rw [hrest] at hdollar
    exact absurd rfl hdollar
  · rfl

end

/-! ### Constants and what hides them -/

section
variable {catalog : Catalog} {entry : ClassEntry} {name : String}
  (hcolons : Text.contains [':', ':'] (entry.name ++ ":").toList = false)
include hcolons

theorem constant?_dollar (hdollar : name.toList.head? = some '$') :
    catalog.constant? (entry.name ++ "::" ++ name) = none := by
  rw [constant?, splitMember?_joined name hcolons]
  cases hmember : catalog.member? entry.name name with
  | none => simp [hmember]
  | some found =>
    obtain ⟨property, hproperty⟩ := member?_dollar hdollar hmember
    obtain ⟨owner, member, bindings⟩ := found
    obtain rfl : member = .property property := hproperty
    simp [hmember]

variable (hclass : catalog.class? entry.name = some entry)
include hclass

theorem constant?_method {method : MethodEntry} (hdollar : name.toList.head? ≠ some '$')
    (hmethod : entry.method? name = some method) :
    catalog.constant? (entry.name ++ "::" ++ name) = none := by
  have hown := ownMember?_of_head? entry hdollar
  rw [hmethod, Option.map_some, Option.some_or] at hown
  simp [constant?, splitMember?_joined name hcolons, member?_eq_own hclass hown]

theorem constant?_unhidden {constant : ConstantEntry} (hdollar : name.toList.head? ≠ some '$')
    (hmethod : entry.method? name = none) (hconstant : entry.constants.get? name = some constant) :
    catalog.constant? (entry.name ++ "::" ++ name) = some constant ∧
      catalog.lookup? (entry.name ++ "::" ++ name) (some constant.declaration.kind) =
        some constant.declaration := by
  have hown := ownMember?_of_head? entry hdollar
  rw [hmethod, hconstant, Option.map_none, Option.none_or, Option.map_some] at hown
  rw [constant?, lookup?, splitMember?_joined name hcolons]
  simp [member?_eq_own hclass hown, isWanted, Member.kind, Member.declaration,
    MemberEntry.declaration]

end

section
variable {settings : Settings} {files : List Stub.File} {earlier : List Diagnostic}
  {catalog : Catalog}

theorem class?_name (hbuild : Catalog.build settings files earlier = .ok catalog) {key : String}
    {entry : ClassEntry} (hentry : catalog.classes.get? key = some entry) :
    catalog.class? entry.name = some entry := by
  obtain ⟨-, hkey⟩ := Build.isRead_build hbuild key entry hentry
  rw [class?, show Name.symbolKey entry.name = key from hkey, hentry]

/-- **A constant of a class** is found under the name of the class and its own, as a constant and as
a declaration of its kind, if and only if the class has no method of that name in any case of its
letters, and the name is not that of a property. -/
theorem constant?_own_iff (hbuild : Catalog.build settings files earlier = .ok catalog)
    {key : String} {entry : ClassEntry} (hentry : catalog.classes.get? key = some entry)
    (hcolons : Text.contains [':', ':'] (entry.name ++ ":").toList = false) {name : String}
    {constant : ConstantEntry} (hconstant : entry.constants.get? name = some constant) :
    (catalog.constant? (entry.name ++ "::" ++ name) = some constant ∧
      catalog.lookup? (entry.name ++ "::" ++ name) (some constant.declaration.kind) =
        some constant.declaration) ↔
      entry.method? name = none ∧ name.toList.head? ≠ some '$' := by
  have hclass := class?_name hbuild hentry
  constructor
  · rintro ⟨hfound, -⟩
    have hdollar : name.toList.head? ≠ some '$' := by
      intro hdollar
      rw [constant?_dollar hcolons hdollar] at hfound
      cases hfound
    refine ⟨?_, hdollar⟩
    cases hmethod : entry.method? name with
    | none => rfl
    | some method =>
      rw [constant?_method hcolons hclass hdollar hmethod] at hfound
      cases hfound
  · rintro ⟨hmethod, hdollar⟩
    exact constant?_unhidden hcolons hclass hdollar hmethod hconstant

end

/-- An enumeration with a method that has the name of one of its cases in small letters. -/
def suits : Stub.File where
  path := "a.php"
  classes := [
    { kind := .enumeration, name := "Suit", context := { file := "a.php" }
      location := { file := "a.php", line := 2 }
      methods := [{
        name := "clubs"
        context := { file := "a.php" }
        location := { file := "a.php", line := 3 } }]
      cases := [
        { name := "Hearts", location := { file := "a.php", line := 4 } },
        { name := "Clubs", location := { file := "a.php", line := 5 } }] }]

theorem catalog_suits : ∃ catalog, Catalog.build {} [suits] = .ok catalog ∧
    ∃ suit ∈ catalog.classes.get? "suit", suit.name = "Suit" ∧
      ∃ hearts ∈ suit.constants.get? "Hearts", ∃ clubs ∈ suit.constants.get? "Clubs",
        ∃ method ∈ suit.method? "Clubs", suit.method? "Hearts" = none :=
  Build.exists_catalog (by decide +kernel)

theorem contains_suit : Text.contains [':', ':'] ("Suit" ++ ":").toList = false := by
  decide

theorem constant?_own_iff_hearts : ∃ catalog, Catalog.build {} [suits] = .ok catalog ∧
      ∃ suit hearts, catalog.classes.get? "suit" = some suit ∧
        suit.constants.get? "Hearts" = some hearts ∧
        catalog.constant? "Suit::Hearts" = some hearts ∧
        catalog.lookup? "Suit::Hearts" (some hearts.declaration.kind) =
          some hearts.declaration := by
  obtain ⟨catalog, hbuild, suit, hsuit, hname, hearts, hhearts, -, -, -, -, hnone⟩ := catalog_suits
  have hfound := (constant?_own_iff hbuild hsuit (hname ▸ contains_suit) hhearts).mpr
    ⟨hnone, by decide⟩
  rw [hname] at hfound
  exact ⟨catalog, hbuild, suit, hearts, hsuit, hhearts, hfound⟩

/-- The case is not found, since a method has its name in small letters. -/
theorem constant?_hidden_by_method : ∃ catalog, Catalog.build {} [suits] = .ok catalog ∧
      ∃ suit clubs, catalog.classes.get? "suit" = some suit ∧ suit.name = "Suit" ∧
        suit.constants.get? "Clubs" = some clubs ∧ catalog.constant? "Suit::Clubs" = none := by
  obtain ⟨catalog, hbuild, suit, hsuit, hname, -, -, clubs, hclubs, method, hmethod, -⟩ :=
    catalog_suits
  have hnone := constant?_method (hname ▸ contains_suit) (class?_name hbuild hsuit) (by decide)
    hmethod
  rw [hname] at hnone
  exact ⟨catalog, hbuild, suit, clubs, hsuit, hname, hclubs, hnone⟩

end Catalog

end StubCatalog
