import StuffScript.Session

/-!
# Scopes under change

What binding a name and making a scope do to the scopes there are, scope by scope and name by name.
Later proofs read scopes through these equations only.
-/

namespace StuffScript

/-- Looking a name up tries the first entry and then the rest. -/
theorem Scope.lookup_entry (m : String) (b : Binding) (rest : List (String × Binding)) (n : String) :
    ((m, b) :: rest).lookup n = if n = m then some b else rest.lookup n := by
  by_cases h : n = m
  · simp [h]
  · have hbeq : (n == m) = false := beq_false_of_ne h
    rw [if_neg h, List.lookup_cons, hbeq]

/-- A list of bindings answers for the name just put as told, and for every other name as before. -/
theorem Scope.lookup_put (name : String) (b : Binding) (bs : List (String × Binding)) (n : String) :
    (Scope.put name b bs).lookup n = if n = name then some b else bs.lookup n := by
  induction bs with
  | nil => exact Scope.lookup_entry name b [] n
  | cons entry rest ih =>
    obtain ⟨m, old⟩ := entry
    by_cases hm : m = name
    · rw [Scope.put, if_pos hm, Scope.lookup_entry, Scope.lookup_entry, hm]
      split <;> rfl
    · rw [Scope.put, if_neg hm, Scope.lookup_entry, Scope.lookup_entry, ih]
      by_cases hn : n = m
      · rw [if_pos hn, if_pos hn, if_neg (hn ▸ hm)]
      · rw [if_neg hn, if_neg hn]

/-- Binding a name gives it its new binding and leaves the other names alone. -/
theorem Scope.find?_bind (s : Scope) (name : String) (b : Binding) (n : String) :
    (s.bind name b).find? n = if n = name then some b else s.find? n :=
  Scope.lookup_put name b s.bindings n

namespace Scopes

/-- How many scopes there are; the next one made gets this number. -/
def size (ss : Scopes) : Nat := ss.scopes.size

/-- Numbers beyond the last scope stand for none. -/
theorem get?_eq_none {ss : Scopes} {id : ScopeId} (h : ss.size ≤ id) : ss.get? id = none :=
  Array.getElem?_eq_none h

/-- A scope that exists is among those made. -/
theorem lt_size {ss : Scopes} {id : ScopeId} {sc : Scope} (h : ss.get? id = some sc) :
    id < ss.size := by
  obtain ⟨hlt, _⟩ := Array.getElem?_eq_some_iff.mp h
  exact hlt

/-- Every number below the count stands for a scope. -/
theorem get?_of_lt {ss : Scopes} {id : ScopeId} (h : id < ss.size) : ∃ sc, ss.get? id = some sc :=
  ⟨_, Array.getElem?_eq_getElem h⟩

/-- Writing a binding makes no scope. -/
@[simp] theorem size_put (ss : Scopes) (id : ScopeId) (name : String) (b : Binding) :
    (ss.put id name b).size = ss.size := by
  simp [put, size]

/-- A new outermost scope is one more. -/
@[simp] theorem size_root (ss : Scopes) : ss.root.2.size = ss.size + 1 := by
  simp [root, size]

/-- A new scope within another is one more. -/
@[simp] theorem size_extend (ss : Scopes) (parent : ScopeId) :
    (ss.extend parent).2.size = ss.size + 1 := by
  simp [extend, size]

/-- Binding a name changes the scope it is bound in and no other. -/
theorem get?_put (ss : Scopes) (id : ScopeId) (name : String) (b : Binding) (j : ScopeId) :
    (ss.put id name b).get? j =
      if j = id then (ss.get? id).map (·.bind name b) else ss.get? j := by
  simp only [put, get?, Array.getElem?_modify]
  by_cases h : j = id
  · simp [h]
  · simp [h, Ne.symm h]

/-- Making a scope without a parent leaves the others as they are. -/
theorem get?_root (ss : Scopes) (j : ScopeId) :
    ss.root.2.get? j = if j = ss.size then some {} else ss.get? j :=
  Array.getElem?_push

/-- Making a scope leaves the others as they are. -/
theorem get?_extend (ss : Scopes) (parent : ScopeId) (j : ScopeId) :
    (ss.extend parent).2.get? j =
      if j = ss.size then some { parent := some parent } else ss.get? j :=
  Array.getElem?_push

end Scopes

end StuffScript
