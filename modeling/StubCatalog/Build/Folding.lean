import StubCatalog.Build.Draft

/-! # Following references between constants

A constant whose value is another constant takes over its value, and its type unless one is
declared. A reference back to a constant on the way gives no value. -/

namespace StubCatalog.Build

/-- The constants of classes and the global ones. -/
structure Constants where
  classes : Table ClassEntry
  globals : Table ConstantEntry

namespace Constants

/-- The constant at a place. -/
def get? (state : Constants) : ConstantSite → Option ConstantEntry
  | .global key => state.globals.get? key
  | .member owner name => (state.classes.get? owner).bind fun entry => entry.constants.get? name

/-- Changes the constant at a place. -/
def modify (state : Constants) (site : ConstantSite) (f : ConstantEntry → ConstantEntry) :
    Constants :=
  match site with
  | .global key => { state with globals := state.globals.modify key f }
  | .member owner name =>
    { state with
      classes := state.classes.modify owner fun entry =>
        { entry with constants := entry.constants.modify name f } }

/-! ### Finding the target -/

/-- Where the class or one of its interfaces has the constant. -/
def ownMember? (state : Constants) (entry : ClassEntry) (name : String) : Option ConstantSite :=
  if entry.constants.contains name then some (.member entry.key name)
  else (entry.interfaces.find? fun interface =>
      (state.classes.get? (Name.symbolKey interface)).any (·.constants.contains name)).map
    fun interface => .member (Name.symbolKey interface) name

/-- Where the class or one of its parents has the constant. -/
def memberFrom? (state : Constants) (name : String) :
    Nat → List String → ClassEntry → Option ConstantSite
  | 0, _, _ => none
  | depth + 1, visited, entry =>
    if visited.contains entry.key then none
    else (state.ownMember? entry name).or
      (match entry.parentName?.bind fun parent => state.classes.get? (Name.symbolKey parent) with
        | some parent => state.memberFrom? name depth (entry.key :: visited) parent
        | none => none)

/-- The class that a reference names. -/
def referencedClass? (state : Constants) (target : OpenReference) (written : String) :
    Option ClassEntry :=
  let owner := (target.owner.filter (· != "")).bind fun name =>
    state.classes.get? (Name.symbolKey name)
  match Text.lower written with
  | "self" => owner
  | "static" => owner
  | "parent" =>
    (owner.bind (·.parentName?)).bind fun name => state.classes.get? (Name.symbolKey name)
  | _ => state.classes.get? (Name.symbolKey (target.context.resolveClass written))

/-- Where the constant is that a reference names. -/
def target? (state : Constants) (target : OpenReference) : Option ConstantSite :=
  match target.reference with
  | .constant name =>
    ((target.context.resolveConstant name).map Name.constantKey).find? state.globals.contains
      |>.map .global
  | .classConstant owner member =>
    (state.referencedClass? target owner).bind fun entry =>
      state.memberFrom? member state.classes.size [] entry

/-! ### Following references -/

/-- The constant takes over what is known about the target. The case of an enumeration is an object
and not its value. -/
def takeOver (hasDeclaredType : Bool) (target entry : ConstantEntry) : ConstantEntry :=
  let valued :=
    if target.isValueKnown && target.declaration.kind ≠ .enumCase then
      { entry with value := target.value, isValueKnown := true }
    else entry
  if hasDeclaredType then valued else { valued with type := target.type }

/-- Settles a constant after the constants that its value depends on. Gives the constants that are
still to be settled among `others`. -/
def settle (state : Constants) (pending : Pending) (others : List Pending) :
    Constants × { rest : List Pending // rest.length ≤ others.length } :=
  match state.target? pending.target with
  | none => (state, ⟨others, Nat.le_refl _⟩)
  | some site =>
    let after : Constants × { rest : List Pending // rest.length ≤ others.length } :=
      match h : others.find? (·.site == site) with
      | none => (state, ⟨others, Nat.le_refl _⟩)
      | some next =>
        have : (others.filter (·.site != site)).length < others.length :=
          List.length_filter_lt_length_iff_exists.2
            ⟨next, List.mem_of_find?_eq_some h, by simpa using List.find?_some h⟩
        let inner := settle state next (others.filter (·.site != site))
        (inner.1, ⟨inner.2.1, Nat.le_trans inner.2.2 (Nat.le_of_lt this)⟩)
    match after.1.get? site with
    | none => after
    | some target =>
      (after.1.modify pending.site (takeOver pending.target.hasDeclaredType target), after.2)
termination_by others.length
decreasing_by exact this

/-- Fills in the values of all open constants. -/
def settleAll (state : Constants) (pending : List Pending) : Constants :=
  match pending with
  | [] => state
  | first :: others =>
    match state.settle first others with
    | (next, ⟨rest, _h⟩) => settleAll next rest
termination_by pending.length
decreasing_by exact Nat.lt_succ_of_le _h

end Constants

end StubCatalog.Build
