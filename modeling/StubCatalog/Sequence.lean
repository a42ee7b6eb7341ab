/-! # Running a fallible function along a list

The function is called on one member after the other, and the first error ends the run. It may use
that its argument is a member of the list. -/

namespace StubCatalog

variable {ε α β : Type}

/-- Applies a function to all members, up to the first error. -/
def forEach : (xs : List α) → ((x : α) → x ∈ xs → Except ε β) → Except ε (List β)
  | [], _ => .ok []
  | x :: xs, f =>
    match f x (List.mem_cons_self ..) with
    | .error e => .error e
    | .ok y =>
      match forEach xs fun z h => f z (List.mem_cons_of_mem _ h) with
      | .error e => .error e
      | .ok ys => .ok (y :: ys)

/-- Whether the test holds for every member; the run ends at the first one for which it does not. -/
def allHold : (xs : List α) → ((x : α) → x ∈ xs → Except ε Bool) → Except ε Bool
  | [], _ => .ok true
  | x :: xs, p =>
    match p x (List.mem_cons_self ..) with
    | .error e => .error e
    | .ok false => .ok false
    | .ok true => allHold xs fun z h => p z (List.mem_cons_of_mem _ h)

/-- Whether the test holds for some member; the run ends at the first one for which it does. -/
def someHolds : (xs : List α) → ((x : α) → x ∈ xs → Except ε Bool) → Except ε Bool
  | [], _ => .ok false
  | x :: xs, p =>
    match p x (List.mem_cons_self ..) with
    | .error e => .error e
    | .ok true => .ok true
    | .ok false => someHolds xs fun z h => p z (List.mem_cons_of_mem _ h)

theorem allHold_eq_ok_true {xs : List α} {p : (x : α) → x ∈ xs → Except ε Bool} :
    allHold xs p = .ok true ↔ ∀ x h, p x h = .ok true := by
  induction xs with
  | nil => simp [allHold]
  | cons x xs ih =>
    unfold allHold
    split
    · next h => simpa using ⟨x, .inl rfl, by simp [h]⟩
    · next h => simpa using ⟨x, .inl rfl, by simp [h]⟩
    · next h =>
      rw [ih]
      constructor
      · intro hp y hy
        rcases List.mem_cons.1 hy with rfl | hy'
        · exact h
        · exact hp y hy'
      · intro hp y hy
        exact hp y (List.mem_cons_of_mem _ hy)

theorem someHolds_eq_ok_true {xs : List α} {p : (x : α) → x ∈ xs → Except ε Bool}
    (hp : ∀ x h, ∃ b, p x h = .ok b) :
    someHolds xs p = .ok true ↔ ∃ x h, p x h = .ok true := by
  induction xs with
  | nil => simp [someHolds]
  | cons x xs ih =>
    unfold someHolds
    split
    · next h =>
      obtain ⟨b, hb⟩ := hp x (List.mem_cons_self ..)
      simp [hb] at h
    · next h => simpa using ⟨x, .inl rfl, h⟩
    · next h =>
      rw [ih fun y hy => hp y (List.mem_cons_of_mem _ hy)]
      constructor
      · rintro ⟨y, hy, h'⟩
        exact ⟨y, List.mem_cons_of_mem _ hy, h'⟩
      · rintro ⟨y, hy, h'⟩
        rcases List.mem_cons.1 hy with rfl | hy'
        · simp [h] at h'
        · exact ⟨y, hy', h'⟩

end StubCatalog
