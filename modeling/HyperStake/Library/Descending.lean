import Mathlib.Algebra.Order.Ring.Int
import Mathlib.Data.List.Chain

/-!
# Lists that are numbered downwards

The numbers of the items of a list go down by one (`Descends`).  From any position in such a list, a
walk that goes back while the number is too high, and then on while it is too low, ends at the item
with a given number, if there is one, and otherwise runs off the list (`Position.seek_spec`).

A predicate that holds of a prefix of such a list holds of as many items as the numbers say
(`Descends.countP_eq_iff`).
-/

namespace Descending

variable {α : Type*} {num : α → ℤ}

/-- The numbers of the items go down by one. -/
def Descends (num : α → ℤ) (l : List α) : Prop := l.IsChain fun a b => num a = num b + 1

namespace Descends

variable {a b : α} {l l' : List α}

lemma tail (h : Descends num (a :: l)) : Descends num l := List.IsChain.tail h

lemma head (h : Descends num (a :: b :: l)) : num a = num b + 1 :=
  (List.isChain_cons_cons.mp h).1

/-- The later items have lower numbers. -/
lemma lt_of_mem (h : Descends num (a :: l)) (hb : b ∈ l) : num b < num a := by
  induction l generalizing a with
  | nil => cases hb
  | cons c l ih =>
    have hstep := h.head
    rcases List.mem_cons.mp hb with rfl | hb
    · omega
    · have hlt := ih h.tail hb
      omega

lemma le_of_mem (h : Descends num (a :: l)) (hb : b ∈ a :: l) : num b ≤ num a := by
  rcases List.mem_cons.mp hb with rfl | hb
  · exact le_rfl
  · exact (h.lt_of_mem hb).le

/-- The number of the first item, from that of the last one. -/
lemma num_eq_of_getLast? (h : Descends num (a :: l)) (hb : (a :: l).getLast? = some b) :
    num a = num b + l.length := by
  induction l generalizing a with
  | nil =>
    cases hb
    simp
  | cons c l ih =>
    rw [List.getLast?_cons_cons] at hb
    have hstep := h.head
    have hrest := ih h.tail hb
    rw [List.length_cons]
    push_cast
    omega

lemma pairwise (h : Descends num l) : l.Pairwise fun a b => num b < num a := by
  induction l with
  | nil => exact .nil
  | cons a l ih => exact .cons (fun b hb => h.lt_of_mem hb) (ih h.tail)

/-- The items before an item have higher numbers. -/
lemma lt_of_mem_append (h : Descends num (l ++ a :: l')) (hb : b ∈ l) : num a < num b := by
  induction l with
  | nil => cases hb
  | cons c l ih =>
    rcases List.mem_cons.mp hb with rfl | hb
    · exact lt_of_mem h (List.mem_append_right _ List.mem_cons_self)
    · exact ih (tail h) hb

/-- A list with items numbered `n + 1` and below has one numbered `n`, unless it ends there. -/
lemma exists_of_le {n : ℤ} (h : Descends num (a :: l)) (hb : b ∈ a :: l) (hlo : num b ≤ n)
    (hhi : n ≤ num a) : ∃ c ∈ a :: l, num c = n := by
  induction l generalizing a with
  | nil =>
    obtain rfl := List.mem_singleton.mp hb
    exact ⟨b, hb, by omega⟩
  | cons c l ih =>
    by_cases heq : num a = n
    · exact ⟨a, List.mem_cons_self, heq⟩
    · have hstep := h.head
      rcases List.mem_cons.mp hb with rfl | hb
      · omega
      · obtain ⟨d, hd, hnum⟩ := ih h.tail hb (by omega)
        exact ⟨d, List.mem_cons_of_mem _ hd, hnum⟩

/-- Without the items whose numbers are too high, the list starts with the item with a number. -/
lemma dropWhile_eq {c : α} {n : ℤ} (h : Descends num l) (hc : c ∈ l) (hn : num c = n) :
    ∃ rest, (l.dropWhile fun x => decide (n < num x)) = c :: rest := by
  induction l with
  | nil => cases hc
  | cons a l ih =>
    rcases List.mem_cons.mp hc with rfl | hc
    · rw [List.dropWhile_cons_of_neg (by simp [hn])]
      exact ⟨l, rfl⟩
    · have hlt := h.lt_of_mem hc
      rw [List.dropWhile_cons_of_pos (by simp only [decide_eq_true_eq]; omega)]
      exact ih h.tail hc

/-- The other way round, the numbers go down if they are negated. -/
lemma reverse (h : Descends num l) : Descends (fun x => -num x) l.reverse := by
  apply List.isChain_reverse.mpr
  refine List.IsChain.imp (fun a b hab => ?_) h
  change -num b = -num a + 1
  omega

/-- A predicate that holds of a prefix, and not of the first item, holds of no item. -/
lemma forall_of_head {p : α → Bool}
    (hp : (a :: l).Pairwise fun x y => p y = true → p x = true) (ha : p a = false) :
    ∀ x ∈ a :: l, p x = false := by
  intro x hx
  rcases List.mem_cons.mp hx with rfl | hx
  · exact ha
  · refine Bool.eq_false_iff.mpr fun hpx => ?_
    rw [(List.pairwise_cons.mp hp).1 x hx hpx] at ha
    cases ha

/-- A predicate that holds of a prefix holds of as many items as there are numbers above `n`,
exactly if it ends to hold between the items numbered `n + 1` and `n`. -/
lemma countP_eq_iff {p : α → Bool} {n : ℤ} (h : Descends num (a :: l))
    (hp : (a :: l).Pairwise fun x y => p y = true → p x = true) (hlt : n < num a) :
    ((a :: l).countP p : ℤ) = num a - n ↔
      (∃ x ∈ a :: l, num x = n + 1 ∧ p x = true) ∧ ∀ x ∈ a :: l, num x = n → p x = false := by
  induction l generalizing a with
  | nil =>
    rw [List.countP_singleton]
    constructor
    · intro hcount
      split_ifs at hcount with hpa
      · refine ⟨⟨a, List.mem_singleton_self a, by push_cast at hcount; omega, hpa⟩, ?_⟩
        intro x hx hn
        rw [List.mem_singleton.mp hx] at hn
        omega
      · push_cast at hcount
        omega
    · rintro ⟨⟨x, hx, hn, hpx⟩, -⟩
      rw [List.mem_singleton] at hx
      subst hx
      rw [if_pos hpx]
      push_cast
      omega
  | cons b l ih =>
    have hstep := h.head
    have hp' := (List.pairwise_cons.mp hp).2
    cases hpa : p a with
    | false =>
      have hnone := forall_of_head hp hpa
      have hcount : (a :: b :: l).countP p = 0 := List.countP_eq_zero.mpr fun x hx => by
        rw [hnone x hx]
        exact Bool.false_ne_true
      refine iff_of_false (by omega) ?_
      rintro ⟨⟨x, hx, -, hpx⟩, -⟩
      rw [hnone x hx] at hpx
      cases hpx
    | true =>
      rw [List.countP_cons_of_pos hpa]
      by_cases hb : n < num b
      · -- the two items are further down
        have hrest := ih h.tail hp' hb
        have hne : num a ≠ n + 1 ∧ num a ≠ n := by omega
        rw [List.forall_mem_cons]
        simp only [List.exists_mem_cons_iff, hne, false_and, false_or, false_imp_iff, true_and]
          at hrest ⊢
        rw [← hrest]
        push_cast
        omega
      · -- they are the first two
        have hbn : num b = n := by omega
        constructor
        · intro hcount
          have hzero : (b :: l).countP p = 0 := by
            push_cast at hcount
            omega
          refine ⟨⟨a, List.mem_cons_self, by omega, hpa⟩, fun x hx hn => ?_⟩
          rcases List.mem_cons.mp hx with rfl | hx
          · omega
          · exact Bool.eq_false_iff.mpr (List.countP_eq_zero.mp hzero x hx)
        · rintro ⟨-, hnot⟩
          have hnone := forall_of_head hp' (hnot b (by simp) hbn)
          have hzero : (b :: l).countP p = 0 := List.countP_eq_zero.mpr fun x hx => by
            rw [hnone x hx]
            exact Bool.false_ne_true
          rw [hzero]
          push_cast
          omega

end Descends

/-! ## Walks -/

/-- A position in a list: the item there, the items before it, the nearest one first, and the items
after it. -/
structure Position (α : Type*) where
  before : List α := []
  current : α
  after : List α := []

namespace Position

/-- The whole list. -/
def items (pos : Position α) : List α := pos.before.reverse ++ pos.current :: pos.after

/-- Go on to later items while the number is above `n`. -/
def goDown (num : α → ℤ) (n : ℤ) : List α → α → List α → Option (Position α)
  | before, a, [] => if n < num a then none else some ⟨before, a, []⟩
  | before, a, b :: after =>
    if n < num a then goDown num n (a :: before) b after else some ⟨before, a, b :: after⟩

/-- Go back to earlier items while the number is below `n`. -/
def goUp (num : α → ℤ) (n : ℤ) : List α → α → List α → Option (Position α)
  | [], a, after => if num a < n then none else some ⟨[], a, after⟩
  | b :: before, a, after =>
    if num a < n then goUp num n before b (a :: after) else some ⟨b :: before, a, after⟩

/-- Go down to a number, and then up to it. -/
def seek (num : α → ℤ) (n : ℤ) (pos : Position α) : Option (Position α) :=
  (goDown num n pos.before pos.current pos.after).bind fun pos =>
    goUp num n pos.before pos.current pos.after

/-- The position of the last item. -/
def last : List α → α → List α → Position α
  | before, a, [] => ⟨before, a, []⟩
  | before, a, b :: after => last (a :: before) b after

variable {before after : List α} {a : α} {n : ℤ}

lemma items_last (before : List α) (a : α) (after : List α) :
    (last before a after).items = before.reverse ++ a :: after := by
  induction after generalizing before a with
  | nil => rfl
  | cons b after ih => simp [last, ih]

/-- A walk is at the item with the number, or there is none. -/
structure Found (num : α → ℤ) (n : ℤ) (l : List α) (found : Option (Position α)) : Prop where
  here : ∀ {pos : Position α}, found = some pos → pos.items = l ∧ num pos.current = n
  absent : found = none → ∀ b ∈ l, num b ≠ n

lemma Found.of_some {l : List α} {pos : Position α} (hitems : pos.items = l)
    (hat : num pos.current = n) : Found num n l (some pos) where
  here h := Option.some.inj h ▸ ⟨hitems, hat⟩
  absent h := by cases h

lemma Found.of_none {l : List α} (h : ∀ b ∈ l, num b ≠ n) :
    Found num n l (none : Option (Position α)) where
  here h' := by cases h'
  absent _ := h

lemma goDown_of_le (hle : num a ≤ n) : goDown num n before a after = some ⟨before, a, after⟩ := by
  cases after <;> exact if_neg hle.not_gt

lemma goUp_of_le (hle : n ≤ num a) : goUp num n before a after = some ⟨before, a, after⟩ := by
  cases before <;> exact if_neg hle.not_gt

/-- Going down from an item whose number is high enough. -/
lemma goDown_spec (h : Descends num (before.reverse ++ a :: after)) (hle : n ≤ num a) :
    Found num n (before.reverse ++ a :: after) (goDown num n before a after) := by
  induction after generalizing before a with
  | nil =>
    by_cases hlt : n < num a
    · rw [goDown, if_pos hlt]
      refine .of_none fun b hb => ?_
      rcases List.mem_append.mp hb with hb | hb
      · have habove := h.lt_of_mem_append hb
        omega
      · rw [List.mem_singleton.mp hb]
        omega
    · rw [goDown, if_neg hlt]
      have hat : num a = n := by omega
      exact .of_some rfl hat
  | cons b after ih =>
    by_cases hlt : n < num a
    · have hitems : (a :: before).reverse ++ b :: after = before.reverse ++ a :: b :: after := by
        simp
      have hstep : num a = num b + 1 := (List.IsChain.right_of_append h).rel
      rw [goDown, if_pos hlt, ← hitems]
      rw [← hitems] at h
      exact ih h (by omega)
    · rw [goDown, if_neg hlt]
      have hat : num a = n := by omega
      exact .of_some rfl hat

/-- Going up from an item whose number is low enough. -/
lemma goUp_spec (h : Descends num (before.reverse ++ a :: after)) (hle : num a ≤ n) :
    Found num n (before.reverse ++ a :: after) (goUp num n before a after) := by
  induction before generalizing a after with
  | nil =>
    by_cases hlt : num a < n
    · rw [goUp, if_pos hlt]
      refine .of_none fun b hb => ?_
      have hbelow := Descends.le_of_mem h hb
      omega
    · rw [goUp, if_neg hlt]
      have hat : num a = n := by omega
      exact .of_some rfl hat
  | cons b before ih =>
    by_cases hlt : num a < n
    · have hitems : (b :: before).reverse ++ a :: after = before.reverse ++ b :: a :: after := by
        simp
      rw [hitems] at h ⊢
      have hstep : num b = num a + 1 := (List.IsChain.right_of_append h).rel
      rw [goUp, if_pos hlt]
      exact ih h (by omega)
    · rw [goUp, if_neg hlt]
      have hat : num a = n := by omega
      exact .of_some rfl hat

/-- From any position, the walk ends at the item with the number, or runs off a list without one. -/
lemma seek_spec {pos : Position α} (h : Descends num pos.items) :
    Found num n pos.items (pos.seek num n) := by
  rw [seek]
  rcases le_or_gt n (num pos.current) with hle | hlt
  · have hdown := goDown_spec (n := n) h hle
    cases hfound : goDown num n pos.before pos.current pos.after with
    | none => exact .of_none (hdown.absent hfound)
    | some pos' =>
      obtain ⟨hitems, hat⟩ := hdown.here hfound
      rw [Option.bind_some, goUp_of_le hat.ge]
      exact .of_some hitems hat
  · rw [goDown_of_le hlt.le, Option.bind_some]
    exact goUp_spec h hlt.le

end Position

end Descending
