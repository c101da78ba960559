import Mathlib.Data.Finset.Lattice.Fold
import Mathlib.Logic.Relation

/-!
# Sets that are merged when they overlap

Finite sets come one after another, and each of them is merged with the sets that it has an element
in common with (`absorb`).  At every moment the merged sets are the classes of the elements that the
sets so far connect (`Merged.absorb`).  There is only one family of such classes (`Merged.eq`), so it
does not matter in which order the sets come.
-/

namespace MergedSets

variable {α : Type*}

/-- Two elements are in one set of a family. -/
def Together (P : Finset (Finset α)) (x y : α) : Prop := ∃ s ∈ P, x ∈ s ∧ y ∈ s

/-- The sets of `P` are the classes of the elements that the sets of `gs` connect. -/
structure Merged (gs P : Finset (Finset α)) : Prop where
  eq_of_mem : ∀ {s t : Finset α} {x : α}, s ∈ P → t ∈ P → x ∈ s → x ∈ t → s = t
  together_iff : ∀ {x y : α}, Together P x y ↔ Relation.TransGen (Together gs) x y
  empty_mem_iff : ∅ ∈ P ↔ ∅ ∈ gs

variable {gs P P' : Finset (Finset α)} {g s : Finset α} {x y : α}

lemma Together.mono (hsub : gs ⊆ P) (h : Together gs x y) : Together P x y := by
  obtain ⟨s, hs, hx, hy⟩ := h
  exact ⟨s, hsub hs, hx, hy⟩

namespace Merged

lemma empty : Merged (∅ : Finset (Finset α)) ∅ where
  eq_of_mem := fun hs => absurd hs (Finset.notMem_empty _)
  together_iff := by
    intro x y
    constructor
    · rintro ⟨s, hs, -⟩
      exact absurd hs (Finset.notMem_empty s)
    · intro h
      obtain ⟨z, ⟨s, hs, -⟩, -⟩ := Relation.TransGen.head'_iff.mp h
      exact absurd hs (Finset.notMem_empty s)
  empty_mem_iff := Iff.rfl

/-- The class of an element. -/
lemma mem_iff (h : Merged gs P) (hs : s ∈ P) (hx : x ∈ s) :
    y ∈ s ↔ Relation.TransGen (Together gs) x y := by
  rw [← h.together_iff]
  constructor
  · exact fun hy => ⟨s, hs, hx, hy⟩
  · rintro ⟨t, ht, hxt, hyt⟩
    rwa [h.eq_of_mem hs ht hx hxt]

/-- An element of some set is in exactly one class. -/
lemma existsUnique (h : Merged gs P) (hx : Together gs x x) : ∃! s, s ∈ P ∧ x ∈ s := by
  obtain ⟨s, hs, hxs, -⟩ := h.together_iff.mpr (.single hx)
  exact ⟨s, ⟨hs, hxs⟩, fun t ht => h.eq_of_mem ht.1 hs ht.2 hxs⟩

lemma subset (h : Merged gs P) (h' : Merged gs P') : P ⊆ P' := by
  intro s hs
  rcases s.eq_empty_or_nonempty with rfl | ⟨x, hx⟩
  · exact h'.empty_mem_iff.mpr (h.empty_mem_iff.mp hs)
  · obtain ⟨t, ht, hxt, -⟩ := h'.together_iff.mpr (h.together_iff.mp ⟨s, hs, hx, hx⟩)
    have heq : s = t := by
      ext y
      rw [h.mem_iff hs hx, h'.mem_iff ht hxt]
    rwa [heq]

/-- There is only one family of classes. -/
lemma eq (h : Merged gs P) (h' : Merged gs P') : P = P' :=
  Finset.Subset.antisymm (h.subset h') (h'.subset h)

end Merged

/-! ## One more set -/

variable [DecidableEq α]

/-- A set takes in the sets of a family that it meets. -/
def absorb (P : Finset (Finset α)) (g : Finset α) : Finset (Finset α) :=
  insert (g ∪ (P.filter fun s => ¬ Disjoint g s).sup id) (P.filter fun s => Disjoint g s)

lemma mem_absorb : s ∈ absorb P g ↔
    s = g ∪ (P.filter fun t => ¬ Disjoint g t).sup id ∨ s ∈ P ∧ Disjoint g s := by
  rw [absorb, Finset.mem_insert, Finset.mem_filter]

/-- The elements of the set that has taken in others. -/
lemma mem_absorbing : x ∈ g ∪ (P.filter fun t => ¬ Disjoint g t).sup id ↔
    x ∈ g ∨ ∃ t ∈ P, ¬ Disjoint g t ∧ x ∈ t := by
  simp only [Finset.mem_union, Finset.mem_sup, Finset.mem_filter, id, and_assoc]

/-- The classes after one more set has come. -/
lemma Merged.absorb (h : Merged gs P) (g : Finset α) : Merged (insert g gs) (absorb P g) := by
  -- a class that the new set leaves out has no element of the set that is formed
  have hout : ∀ {s x}, s ∈ P → Disjoint g s → x ∈ s →
      x ∉ g ∪ (P.filter fun t => ¬ Disjoint g t).sup id := by
    intro s x hs hdisj hx hmem
    rcases mem_absorbing.mp hmem with hg | ⟨t, ht, hmeets, hxt⟩
    · exact Finset.disjoint_left.mp hdisj hg hx
    · exact hmeets (h.eq_of_mem hs ht hx hxt ▸ hdisj)
  have hunique : ∀ {s t : Finset α} {x : α}, s ∈ MergedSets.absorb P g →
      t ∈ MergedSets.absorb P g → x ∈ s → x ∈ t → s = t := by
    intro s t x hs ht hxs hxt
    rcases mem_absorb.mp hs with rfl | ⟨hs, hs'⟩ <;> rcases mem_absorb.mp ht with rfl | ⟨ht, ht'⟩
    · rfl
    · exact absurd hxs (hout ht ht' hxt)
    · exact absurd hxt (hout hs hs' hxs)
    · exact h.eq_of_mem hs ht hxs hxt
  have hmono : ∀ {x y}, Relation.TransGen (Together gs) x y →
      Relation.TransGen (Together (insert g gs)) x y :=
    fun {x y} => Relation.TransGen.mono (fun _ _ => Together.mono (Finset.subset_insert g gs)) x y
  have hnew : ∀ {x y}, x ∈ g → y ∈ g → Relation.TransGen (Together (insert g gs)) x y :=
    fun hx hy => .single ⟨g, Finset.mem_insert_self g gs, hx, hy⟩
  -- every element of the set that is formed is connected with the new set
  have hformed : ∀ {x}, x ∈ g ∪ (P.filter fun t => ¬ Disjoint g t).sup id →
      ∃ z ∈ g, Relation.TransGen (Together (insert g gs)) x z ∧
        Relation.TransGen (Together (insert g gs)) z x := by
    intro x hx
    rcases mem_absorbing.mp hx with hg | ⟨t, ht, hmeets, hxt⟩
    · exact ⟨x, hg, hnew hg hg, hnew hg hg⟩
    · obtain ⟨z, hz, hzt⟩ := Finset.not_disjoint_iff.mp hmeets
      exact ⟨z, hz, hmono ((h.mem_iff ht hxt).mp hzt), hmono ((h.mem_iff ht hzt).mp hxt)⟩
  refine ⟨hunique, ?_, ?_⟩
  · intro x y
    constructor
    · rintro ⟨s, hs, hx, hy⟩
      rcases mem_absorb.mp hs with rfl | ⟨hs, -⟩
      · obtain ⟨z, hz, hxz, -⟩ := hformed hx
        obtain ⟨w, hw, -, hwy⟩ := hformed hy
        exact (hxz.trans (hnew hz hw)).trans hwy
      · exact hmono ((h.mem_iff hs hx).mp hy)
    · intro hxy
      -- being in one of the classes is transitive, and what each of the sets connects is in one
      refine Relation.TransGen.trans_induction_on hxy ?_ ?_
      · rintro x y ⟨s, hs, hx, hy⟩
        rcases Finset.mem_insert.mp hs with rfl | hs
        · exact ⟨_, mem_absorb.mpr (.inl rfl), mem_absorbing.mpr (.inl hx),
            mem_absorbing.mpr (.inl hy)⟩
        · obtain ⟨t, ht, hx, hy⟩ := h.together_iff.mpr (.single ⟨s, hs, hx, hy⟩)
          by_cases hdisj : Disjoint g t
          · exact ⟨t, mem_absorb.mpr (.inr ⟨ht, hdisj⟩), hx, hy⟩
          · exact ⟨_, mem_absorb.mpr (.inl rfl), mem_absorbing.mpr (.inr ⟨t, ht, hdisj, hx⟩),
              mem_absorbing.mpr (.inr ⟨t, ht, hdisj, hy⟩)⟩
      · rintro x y z - - ⟨s, hs, hxs, hys⟩ ⟨t, ht, hyt, hzt⟩
        exact ⟨s, hs, hxs, hunique ht hs hyt hys ▸ hzt⟩
  · rw [Finset.mem_insert, ← h.empty_mem_iff]
    constructor
    · intro hmem
      rcases mem_absorb.mp hmem with hempty | ⟨hempty, -⟩
      · exact .inl (Finset.union_eq_empty.mp hempty.symm).1.symm
      · exact .inr hempty
    · rintro (rfl | hempty)
      · refine mem_absorb.mpr (.inl ?_)
        symm
        rw [Finset.eq_empty_iff_forall_notMem]
        intro x hx
        rcases mem_absorbing.mp hx with hx | ⟨t, -, hmeets, -⟩
        · exact Finset.notMem_empty x hx
        · exact hmeets (Finset.disjoint_empty_left t)
      · exact mem_absorb.mpr (.inr ⟨hempty, Finset.disjoint_empty_right g⟩)

/-- Any sets have a family of classes. -/
lemma exists_merged (gs : Finset (Finset α)) : ∃ P, Merged gs P := by
  induction gs using Finset.induction_on with
  | empty => exact ⟨∅, .empty⟩
  | insert g gs _ ih =>
    obtain ⟨P, hP⟩ := ih
    exact ⟨_, hP.absorb g⟩

end MergedSets
