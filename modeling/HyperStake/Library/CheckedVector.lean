import Mathlib.Data.List.Basic

/-!
# Vectors with checked access

Element access that fails with a given error outside of the vector, assignment to one element, and
assignment to many.  The rule for the last one is `setAll_eq`: it succeeds exactly when every index
is inside the vector.
-/

namespace CheckedVector

variable {ε α : Type*}

/-- The element at an index, or the error. -/
def get (e : ε) (v : List α) (i : ℕ) : Except ε α :=
  match v[i]? with
  | some a => .ok a
  | none => .error e

/-- Assign to the element at an index, or fail with the error. -/
def set (e : ε) (a : α) (v : List α) (i : ℕ) : Except ε (List α) :=
  if i < v.length then .ok (v.set i a) else .error e

/-- Assign the same value at every index of a list, in its order. -/
def setAll (e : ε) (a : α) (v : List α) (indices : List ℕ) : Except ε (List α) :=
  indices.foldlM (set e a) v

lemma get_of_lt {e : ε} {v : List α} {i : ℕ} (h : i < v.length) : get e v i = .ok v[i] := by
  simp [get, h]

/-- What many assignments do when every index is inside the vector. -/
def setEach (a : α) (v : List α) (indices : List ℕ) : List α :=
  indices.foldl (fun v i => v.set i a) v

@[simp]
lemma length_setEach (a : α) (v : List α) (indices : List ℕ) :
    (setEach a v indices).length = v.length := by
  induction indices generalizing v with
  | nil => rfl
  | cons i indices ih => exact (ih (v.set i a)).trans List.length_set

/-- The elements after many assignments. -/
lemma getElem?_setEach (a : α) (v : List α) (indices : List ℕ) {i : ℕ} (hi : i < v.length) :
    (setEach a v indices)[i]? = if i ∈ indices then some a else v[i]? := by
  induction indices generalizing v with
  | nil => rfl
  | cons j indices ih =>
    have hstep : setEach a v (j :: indices) = setEach a (v.set j a) indices := rfl
    rw [hstep, ih (v.set j a) (by rwa [List.length_set]), List.getElem?_set]
    by_cases hmem : i ∈ indices
    · rw [if_pos hmem, if_pos (List.mem_cons_of_mem j hmem)]
    · rw [if_neg hmem]
      by_cases heq : j = i
      · rw [if_pos heq, if_pos (by omega), if_pos (by rw [heq]; exact List.mem_cons_self)]
      · rw [if_neg heq, if_neg]
        rintro (_ | ⟨_, htail⟩)
        · exact heq rfl
        · exact hmem htail

/-- Many assignments succeed exactly when every index is inside the vector. -/
lemma setAll_eq (e : ε) (a : α) (v : List α) (indices : List ℕ) :
    setAll e a v indices =
      if ∀ i ∈ indices, i < v.length then .ok (setEach a v indices) else .error e := by
  induction indices generalizing v with
  | nil => rfl
  | cons i indices ih =>
    have hstep : setAll e a v (i :: indices) = set e a v i >>= fun v' => setAll e a v' indices := by
      rw [setAll, List.foldlM_cons]
      rfl
    rw [hstep, set]
    by_cases hlt : i < v.length
    · rw [if_pos hlt]
      have hih := ih (v.set i a)
      rw [List.length_set] at hih
      simp only [List.forall_mem_cons, hlt, true_and]
      exact hih
    · rw [if_neg hlt]
      simp only [List.forall_mem_cons, hlt, false_and, if_false]
      rfl

/-- Assigning for one item of a list after another is assigning for all of them. -/
lemma foldlM_setAll {β : Type*} (e : ε) (a : α) (v : List α) (items : List β) (f : β → List ℕ) :
    items.foldlM (fun v item => setAll e a v (f item)) v = setAll e a v (items.flatMap f) := by
  induction items generalizing v with
  | nil => rfl
  | cons item items ih =>
    rw [List.foldlM_cons, List.flatMap_cons]
    simp only [ih]
    exact List.foldlM_append.symm

end CheckedVector
