import HyperStake.Library.Ledger

/-!
# The index of a chain of transactions

An index has a record for every transaction of a chain, with a slot for every output: the slot is
free, or it has the mark of the transaction that claims the output.  Recording a transaction marks
the slots of the outputs that it claims, and adds its own record with free slots; undoing it frees
the slots and takes the record away.
-/

namespace Ledger

open SlotMap

/-- How the transactions of a chain are recorded. -/
structure Indexing (τ κ β σ : Type*) extends Scheme τ κ where
  lens : Lens β σ
  new : τ → β
  mark : τ → σ
  free : σ
  slots_new : ∀ t, lens.slots (new t) = List.replicate (width t) free

variable {τ κ β σ : Type*} {cmp : κ → κ → Ordering} [Std.TransCmp cmp] (I : Indexing τ κ β σ)

/-- Write a value to the slots of some outputs. -/
def writeAll (v : σ) (os : List (κ × ℕ)) (m : Std.ExtTreeMap κ β cmp) : Std.ExtTreeMap κ β cmp :=
  os.foldl (fun m o => write I.lens m o.1 o.2 v) m

/-- Record a transaction. -/
def record (t : τ) (m : Std.ExtTreeMap κ β cmp) : Std.ExtTreeMap κ β cmp :=
  (writeAll I (I.mark t) (I.claims t) m).insert (I.id t) (I.new t)

/-- Undo the record of a transaction. -/
def undo (t : τ) (m : Std.ExtTreeMap κ β cmp) : Std.ExtTreeMap κ β cmp :=
  (writeAll I I.free (I.claims t) m).erase (I.id t)

/-- The index of a chain. -/
def index (cmp : κ → κ → Ordering) [Std.TransCmp cmp] (chain : List τ) :
    Std.ExtTreeMap κ β cmp :=
  chain.foldr (record I) ∅

@[simp] lemma index_cons (t : τ) (chain : List τ) :
    index I cmp (t :: chain) = record I t (index I cmp chain) := rfl

variable {I} [Std.LawfulEqCmp cmp] {m : Std.ExtTreeMap κ β cmp} {v w : σ} {os : List (κ × ℕ)}
  {o : κ × ℕ} {k : κ} {n : ℕ} {t : τ} {b : β}

/-! ## Writing to several slots -/

omit [Std.LawfulEqCmp cmp] in
lemma writeAll_concat : writeAll I v (os ++ [o]) m = write I.lens (writeAll I v os m) o.1 o.2 v :=
  List.foldl_append

lemma mem_writeAll : k ∈ writeAll I v os m ↔ k ∈ m := by
  induction os generalizing m with
  | nil => rfl
  | cons o os ih =>
    change k ∈ writeAll I v os (write I.lens m o.1 o.2 v) ↔ k ∈ m
    rw [ih, mem_write]

lemma slot_writeAll [DecidableEq κ] : slot I.lens (writeAll I v os m) k n =
    if (k, n) ∈ os then (slot I.lens m k n).map fun _ => v else slot I.lens m k n := by
  induction os generalizing m with
  | nil => rfl
  | cons o os ih =>
    obtain ⟨k', n'⟩ := o
    change slot I.lens (writeAll I v os (write I.lens m k' n' v)) k n = _
    rw [ih, slot_write]
    by_cases heq : k' = k ∧ n' = n
    · obtain ⟨rfl, rfl⟩ := heq
      cases slot I.lens m k' n' <;> simp
    · have hne : ¬ (k, n) = (k', n') := fun h => heq ⟨(Prod.mk.inj h).1.symm, (Prod.mk.inj h).2.symm⟩
      simp only [if_neg heq, List.mem_cons, or_iff_right hne]

/-- A write to another slot can be done before or after. -/
lemma writeAll_write (h : o ∉ os) :
    writeAll I v os (write I.lens m o.1 o.2 w) = write I.lens (writeAll I v os m) o.1 o.2 w := by
  induction os generalizing m with
  | nil => rfl
  | cons o' os ih =>
    rw [List.mem_cons, not_or] at h
    have hne : ¬ (o.1 = o'.1 ∧ o.2 = o'.2) := fun heq => h.1 (Prod.ext heq.1 heq.2)
    change writeAll I v os (write I.lens (write I.lens m o.1 o.2 w) o'.1 o'.2 v) =
      write I.lens (writeAll I v os (write I.lens m o'.1 o'.2 v)) o.1 o.2 w
    rw [write_comm hne, ih h.2]

/-- A record under another key can be added before or after. -/
lemma writeAll_insert (h : ∀ o ∈ os, o.1 ≠ k) :
    writeAll I v os (m.insert k b) = (writeAll I v os m).insert k b := by
  induction os generalizing m with
  | nil => rfl
  | cons o os ih =>
    change writeAll I v os (write I.lens (m.insert k b) o.1 o.2 v) =
      (writeAll I v os (write I.lens m o.1 o.2 v)).insert k b
    rw [write_insert (h o List.mem_cons_self), ih fun o' ho' => h o' (List.mem_cons_of_mem _ ho')]

/-- Freeing slots that were free before they were marked. -/
lemma writeAll_free (hnodup : os.Nodup) (hfree : ∀ o ∈ os, slot I.lens m o.1 o.2 = some I.free) :
    writeAll I I.free os (writeAll I v os m) = m := by
  induction os generalizing m with
  | nil => rfl
  | cons o os ih =>
    obtain ⟨ho, hos⟩ := List.nodup_cons.mp hnodup
    change writeAll I I.free os
      (write I.lens (writeAll I v os (write I.lens m o.1 o.2 v)) o.1 o.2 I.free) = m
    rw [← writeAll_write ho, write_write, write_self (hfree o List.mem_cons_self)]
    exact ih hos fun o' ho' => hfree o' (List.mem_cons_of_mem _ ho')

/-- Undoing a transaction that was new, and whose claims were of free outputs. -/
lemma undo_record (hid : I.id t ∉ m) (hnodup : (I.claims t).Nodup)
    (hfree : ∀ o ∈ I.claims t, slot I.lens m o.1 o.2 = some I.free) :
    undo I t (record I t m) = m := by
  have hother : ∀ o ∈ I.claims t, o.1 ≠ I.id t := by
    rintro o ho heq
    obtain ⟨b, hb, -⟩ := slot_eq_some.mp (hfree o ho)
    exact hid (heq ▸ MapLoop.mem_iff.mpr ⟨b, hb⟩)
  rw [undo, record, writeAll_insert hother, writeAll_free hnodup hfree,
    MapLoop.erase_insert hid]

/-! ## What the index has -/

variable {chain : List τ}

lemma mem_index : k ∈ index I cmp chain ↔ k ∈ chain.map I.id := by
  induction chain with
  | nil => simp [index]
  | cons t chain ih =>
    rw [index_cons, record, Std.ExtTreeMap.mem_insert, mem_writeAll, ih, List.map_cons,
      List.mem_cons, Std.LawfulEqCmp.compare_eq_iff_eq, eq_comm]

/-- Writing to slots keeps a record up to its slots. -/
lemma exists_of_getElem?_writeAll (h : (writeAll I v os m)[k]? = some b) :
    ∃ b', m[k]? = some b' ∧ I.lens.put b [] = I.lens.put b' [] := by
  induction os generalizing m with
  | nil => exact ⟨b, h, rfl⟩
  | cons o os ih =>
    obtain ⟨b', hb', hput⟩ := ih (m := write I.lens m o.1 o.2 v) h
    by_cases hk : o.1 = k
    · subst hk
      rw [getElem?_write_self] at hb'
      obtain ⟨b'', hb'', rfl⟩ := Option.map_eq_some_iff.mp hb'
      exact ⟨b'', hb'', by rw [hput, I.lens.put_put]⟩
    · rw [getElem?_write_of_ne hk] at hb'
      exact ⟨b', hb', hput⟩

/-- A record is the one that was added for a transaction, up to its slots. -/
lemma exists_of_getElem?_index [DecidableEq κ] (h : (index I cmp chain)[k]? = some b) :
    ∃ p ∈ chain, I.id p = k ∧ I.lens.put b [] = I.lens.put (I.new p) [] := by
  induction chain generalizing b with
  | nil => simp [index] at h
  | cons t chain ih =>
    rw [index_cons, record, MapLoop.getElem?_insert_eq] at h
    split_ifs at h with hk
    · cases h
      exact ⟨t, List.mem_cons_self, hk, rfl⟩
    · obtain ⟨b', hb', hput⟩ := exists_of_getElem?_writeAll h
      obtain ⟨p, hp, hid, hput'⟩ := ih hb'
      exact ⟨p, List.mem_cons_of_mem _ hp, hid, hput.trans hput'⟩

/-- The slots of the index of a valid chain: they are those of its outputs, and each has the mark of
the transaction that claims the output, or is free. -/
lemma slot_index_iff [DecidableEq κ] (hvalid : Valid I.toScheme chain) :
    slot I.lens (index I cmp chain) k n = some v ↔
      (∃ p ∈ chain, I.id p = k ∧ n < I.width p) ∧
        ((k, n) ∉ claimed I.toScheme chain ∧ v = I.free ∨
          ∃ t ∈ chain, (k, n) ∈ I.claims t ∧ v = I.mark t) := by
  induction hvalid generalizing v with
  | nil => simp [index, slot]
  | @cons t chain hchain hfresh hnodup hfound hfree ih =>
    have hother : ∀ p ∈ chain, I.id p ≠ I.id t := fun p hp hid =>
      hfresh (List.mem_map.mpr ⟨p, hp, hid⟩)
    rw [index_cons, record, slot_insert]
    simp only [List.exists_mem_cons_iff, claimed_cons, List.mem_append]
    by_cases hk : I.id t = k
    · -- the slots of the transaction itself, which nothing claims yet
      subst hk
      have hclaims : (I.id t, n) ∉ I.claims t := fun hmem => by
        obtain ⟨p, hp, hid, -⟩ := hfound _ hmem
        exact hother p hp hid
      have hclaimed : (I.id t, n) ∉ claimed I.toScheme chain := fun hmem => by
        obtain ⟨p, hp, hid, -⟩ := hchain.found hmem
        exact hother p hp hid
      have hclaimant : ¬ ∃ p ∈ chain, (I.id t, n) ∈ I.claims p ∧ v = I.mark p := by
        rintro ⟨p, hp, hmem, -⟩
        exact hclaimed (mem_claimed.mpr ⟨p, hp, hmem⟩)
      have hsame : ¬ ∃ p ∈ chain, I.id p = I.id t ∧ n < I.width p := by
        rintro ⟨p, hp, hid, -⟩
        exact hother p hp hid
      rw [if_pos rfl, I.slots_new, List.getElem?_replicate]
      simp only [hclaims, hclaimed, hclaimant, hsame, or_self, not_false_eq_true, true_and,
        false_and, or_false]
      split_ifs with hlt
      · simp [hlt, eq_comm]
      · simp [hlt]
    · rw [if_neg hk, slot_writeAll]
      simp only [hk, false_and, false_or]
      by_cases hclaims : (k, n) ∈ I.claims t
      · -- a slot that the transaction marks, which was free
        have hclaimed : (k, n) ∉ claimed I.toScheme chain := hfree _ hclaims
        have hclaimant : ¬ ∃ p ∈ chain, (k, n) ∈ I.claims p ∧ v = I.mark p := by
          rintro ⟨p, hp, hmem, -⟩
          exact hclaimed (mem_claimed.mpr ⟨p, hp, hmem⟩)
        have hthere : ∃ p ∈ chain, I.id p = k ∧ n < I.width p := hfound _ hclaims
        have hslot : slot I.lens (index I cmp chain) k n = some I.free :=
          ih.mpr ⟨hthere, Or.inl ⟨hclaimed, rfl⟩⟩
        rw [if_pos hclaims, hslot, and_iff_right hthere]
        simp [hclaims, hclaimant, eq_comm]
      · rw [if_neg hclaims, ih]
        simp only [hclaims, false_or, false_and]

/-- The outputs that the newest transaction claims were free before it. -/
lemma Valid.slot_eq_free [DecidableEq κ] (h : Valid I.toScheme (t :: chain))
    (ho : o ∈ I.claims t) : slot I.lens (index I cmp chain) o.1 o.2 = some I.free := by
  cases h with
  | cons hchain _ _ hfound hfree =>
    exact (slot_index_iff hchain).mpr ⟨hfound o ho, Or.inl ⟨hfree o ho, rfl⟩⟩

/-- Undoing the newest transaction of a valid chain gives the index of the others. -/
lemma Valid.undo_index [DecidableEq κ] (h : Valid I.toScheme (t :: chain)) :
    undo I t (index I cmp (t :: chain)) = index I cmp chain := by
  have hslots : ∀ o ∈ I.claims t, slot I.lens (index I cmp chain) o.1 o.2 = some I.free :=
    fun o ho => h.slot_eq_free ho
  cases h with
  | cons _ hfresh hnodup _ _ =>
    have hid : I.id t ∉ index I cmp chain := fun hmem => hfresh (mem_index.mp hmem)
    exact undo_record hid hnodup hslots

end Ledger
