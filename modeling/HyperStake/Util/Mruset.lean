import Mathlib.Data.Finset.Card
import Mathlib.Data.List.Basic

/-!
# The set of the most recent elements

An `mruset` is a set beside the queue of its elements in the order of their insertion.  A maximum
that is not zero is the number of elements that it keeps.

What it is for is a `History`: the elements that were newly inserted, and every maximum with the
number of them by then.  An element is retained as long as there were never more of them, counted
from that element on, than the maximum was.  The set refines this (`runs_spec`).
-/

namespace HyperStake

variable {T : Type*}

/-- A container for the elements that were inserted last. -/
structure Mruset (T : Type*) where
  set : Finset T
  queue : List T
  nMaxSize : ℕ

/-- The calls that change the container. -/
inductive MrusetCall (T : Type*) where
  | insert (x : T)
  | maxSize (s : ℕ)

namespace Mruset

/-- The constructor. -/
def create (nMaxSizeIn : ℕ) : Mruset T := ⟨∅, [], nMaxSizeIn⟩

variable [DecidableEq T]

/-- The front of the queue is erased from the set and taken off the queue. -/
def popFront (m : Mruset T) : Mruset T :=
  match m.queue with
  | [] => m
  | x :: queue => { m with set := m.set.erase x, queue := queue }

/-- `insert`, with whether the element is new. -/
def insert (m : Mruset T) (x : T) : Bool × Mruset T :=
  if x ∈ m.set then (false, m)
  else
    let m' := { m with set := Insert.insert x m.set }
    let m'' := if m'.nMaxSize ≠ 0 ∧ m'.queue.length = m'.nMaxSize then popFront m' else m'
    (true, { m'' with queue := m''.queue ++ [x] })

/-- The loop of `max_size` over the queue and the set. -/
def shrink (s : ℕ) : List T → Finset T → List T × Finset T
  | [], set => ([], set)
  | x :: queue, set =>
    if s < (x :: queue).length then shrink s queue (set.erase x) else (x :: queue, set)

/-- `max_size(s)`. -/
def maxSize (m : Mruset T) (s : ℕ) : Mruset T :=
  let kept := if s ≠ 0 then shrink s m.queue m.set else (m.queue, m.set)
  ⟨kept.2, kept.1, s⟩

/-- A call. -/
def step (m : Mruset T) : MrusetCall T → Mruset T
  | .insert x => (m.insert x).2
  | .maxSize s => m.maxSize s

/-- Some calls, one after the other. -/
def run (m : Mruset T) (calls : List (MrusetCall T)) : Mruset T := calls.foldl step m

end Mruset

/-! ## What is retained -/

/-- The elements in the order in which they were newly inserted, and the maxima, each with the
number of elements that had been inserted when it was in force. -/
structure History (T : Type*) where
  news : List T
  limits : List (ℕ × ℕ)

namespace History

/-- There were never more elements, from the one with this number on, than the maximum was. -/
def Allows (h : History T) (i : ℕ) : Prop := ∀ p ∈ h.limits, p.2 ≠ 0 → p.1 ≤ i + p.2

/-- The elements that the maxima allow. -/
def retained (h : History T) : Set T := {x | ∃ i, h.news[i]? = some x ∧ h.Allows i}

/-- The maximum that is in force. -/
def maximum (h : History T) : ℕ := (h.limits.getLast?.map Prod.snd).getD 0

/-- Nothing has been inserted. -/
def start (nMaxSizeIn : ℕ) : History T := ⟨[], [(0, nMaxSizeIn)]⟩

open Classical in
/-- An element that is retained is not new.  Any other element is, and counts for the maximum that
is in force. -/
noncomputable def step (h : History T) : MrusetCall T → History T
  | .insert x =>
    if x ∈ h.retained then h
    else ⟨h.news ++ [x], h.limits ++ [(h.news.length + 1, h.maximum)]⟩
  | .maxSize s => ⟨h.news, h.limits ++ [(h.news.length, s)]⟩

/-- Some calls, one after the other. -/
noncomputable def run (h : History T) (calls : List (MrusetCall T)) : History T :=
  calls.foldl step h

lemma maximum_concat (news : List T) (limits : List (ℕ × ℕ)) (p : ℕ × ℕ) :
    maximum ⟨news, limits ++ [p]⟩ = p.2 := by
  simp [maximum]

lemma allows_concat (news : List T) (limits : List (ℕ × ℕ)) (p : ℕ × ℕ) (i : ℕ) :
    Allows ⟨news, limits ++ [p]⟩ i ↔
      Allows ⟨news, limits⟩ i ∧ (p.2 ≠ 0 → p.1 ≤ i + p.2) := by
  simp [Allows, or_imp, forall_and]

end History

/-! ## The refinement -/

namespace Mruset

variable [DecidableEq T] {m : Mruset T} {h : History T}

/-- The queue and the set are the elements that are retained. -/
structure Refines (m : Mruset T) (h : History T) : Prop where
  nodup : m.queue.Nodup
  set_eq : m.set = m.queue.toFinset
  maximum : m.nMaxSize = h.maximum
  bound : m.nMaxSize ≠ 0 → m.queue.length ≤ m.nMaxSize
  kept : ∃ d ≤ h.news.length, m.queue = h.news.drop d ∧ ∀ i, h.Allows i ↔ d ≤ i

lemma refines_create (nMaxSizeIn : ℕ) :
    Refines (create nMaxSizeIn : Mruset T) (.start nMaxSizeIn) where
  nodup := List.nodup_nil
  set_eq := rfl
  maximum := rfl
  bound _ := Nat.zero_le _
  kept := ⟨0, le_rfl, rfl, fun i => by simp [History.Allows, History.start]⟩

/-- An element is in the set if it is retained. -/
lemma Refines.mem_set (hm : m.Refines h) (x : T) : x ∈ m.set ↔ x ∈ h.retained := by
  obtain ⟨d, -, hqueue, hallows⟩ := hm.kept
  rw [hm.set_eq, List.mem_toFinset, hqueue, List.mem_iff_getElem?]
  constructor
  · rintro ⟨i, hi⟩
    rw [List.getElem?_drop] at hi
    exact ⟨d + i, hi, (hallows _).mpr (Nat.le_add_right d i)⟩
  · rintro ⟨i, hi, hallowed⟩
    refine ⟨i - d, ?_⟩
    rw [List.getElem?_drop, Nat.add_sub_cancel' ((hallows i).mp hallowed)]
    exact hi

/-- A new element is put behind the others, of which the front goes if the queue is full. -/
lemma insert_new (hset : m.set = m.queue.toFinset) (hnodup : m.queue.Nodup) {x : T}
    (hx : x ∉ m.queue) : (m.insert x).2 =
      let queue := m.queue.drop (if m.nMaxSize ≠ 0 ∧ m.queue.length = m.nMaxSize then 1 else 0)
        ++ [x]
      ⟨queue.toFinset, queue, m.nMaxSize⟩ := by
  obtain ⟨set, queue, nMaxSize⟩ := m
  obtain rfl : set = queue.toFinset := hset
  have hmem : x ∉ queue.toFinset := by rwa [List.mem_toFinset]
  have hpush : ∀ queue : List T, (queue ++ [x]).toFinset = Insert.insert x queue.toFinset := by
    intro queue
    rw [List.toFinset_append, Finset.union_comm]
    rfl
  rw [Mruset.insert, if_neg hmem]
  dsimp only
  split_ifs with hfull
  · cases queue with
    | nil => exact absurd hfull.2.symm hfull.1
    | cons y queue =>
      obtain ⟨hy, -⟩ := List.nodup_cons.mp hnodup
      have hxy := List.ne_of_not_mem_cons hx
      have herase : (Insert.insert x (y :: queue).toFinset).erase y
          = Insert.insert x queue.toFinset := by
        rw [List.toFinset_cons, Finset.insert_comm, Finset.erase_insert]
        simp [Ne.symm hxy, hy]
      rw [popFront, List.drop_one, List.tail_cons, hpush]
      dsimp only
      rw [herase]
  · rw [List.drop_zero, hpush]

lemma Refines.insert (hm : m.Refines h) (x : T) : (m.insert x).2.Refines (h.step (.insert x)) := by
  by_cases hx : x ∈ m.set
  · rw [Mruset.insert, if_pos hx, History.step, if_pos ((hm.mem_set x).mp hx)]
    exact hm
  · obtain ⟨d, hd, hqueue, hallows⟩ := hm.kept
    have hnot : x ∉ m.queue := by rwa [hm.set_eq, List.mem_toFinset] at hx
    have hlength : m.queue.length = h.news.length - d := by rw [hqueue, List.length_drop]
    rw [insert_new hm.set_eq hm.nodup hnot, History.step,
      if_neg fun hmem => hx ((hm.mem_set x).mpr hmem)]
    -- the number of elements that go
    generalize hk : (if m.nMaxSize ≠ 0 ∧ m.queue.length = m.nMaxSize then 1 else 0) = k
    have hroom : k ≤ m.queue.length ∧ (m.nMaxSize ≠ 0 → m.queue.length - k < m.nMaxSize) ∧
        (k ≠ 0 → k = 1 ∧ m.nMaxSize ≠ 0 ∧ m.queue.length = m.nMaxSize) := by
      have hbound := hm.bound
      split_ifs at hk with hfull
      · omega
      · have hopen : m.nMaxSize ≠ 0 → m.queue.length ≠ m.nMaxSize := fun hne hlength =>
          hfull ⟨hne, hlength⟩
        omega
    have hsuffix : (m.queue.drop k).length + 1 = m.queue.length - k + 1 := by
      rw [List.length_drop]
    refine ⟨?_, rfl, ?_, fun hne => ?_, d + k, ?_, ?_, fun i => ?_⟩
    · refine List.nodup_append.mpr ⟨hm.nodup.sublist (List.drop_sublist k _),
        List.nodup_singleton x, fun a ha b hb hab => ?_⟩
      rw [hab, List.mem_singleton.mp hb] at ha
      exact hnot (List.mem_of_mem_drop ha)
    · rw [History.maximum_concat]
      exact hm.maximum
    · have hlow := hroom.2.1 hne
      simp only [List.length_append, List.length_singleton, List.length_drop]
      omega
    · simp only [List.length_append, List.length_singleton]
      omega
    · rw [List.drop_append_of_le_length (by omega), ← List.drop_drop, ← hqueue]
    · have hbefore : History.Allows ⟨h.news ++ [x], h.limits⟩ i ↔ d ≤ i := hallows i
      have hbound := hm.bound
      rw [History.allows_concat, hbefore, ← hm.maximum]
      dsimp only
      omega

/-- The loop takes the elements off the front that are too many. -/
lemma shrink_eq (s : ℕ) {queue : List T} (hnodup : queue.Nodup) :
    shrink s queue queue.toFinset
      = (queue.drop (queue.length - s), (queue.drop (queue.length - s)).toFinset) := by
  induction queue with
  | nil => rw [shrink, List.drop_nil]
  | cons x queue ih =>
    rw [List.nodup_cons] at hnodup
    rw [shrink]
    split_ifs with hlong
    · have herase : (x :: queue).toFinset.erase x = queue.toFinset := by
        rw [List.toFinset_cons, Finset.erase_insert (by simpa using hnodup.1)]
      have hdrop : (x :: queue).length - s = queue.length - s + 1 := by
        rw [List.length_cons] at hlong ⊢
        omega
      rw [herase, ih hnodup.2, hdrop, List.drop_succ_cons]
    · rw [Nat.sub_eq_zero_of_le (not_lt.mp hlong), List.drop_zero]

lemma Refines.maxSize (hm : m.Refines h) (s : ℕ) : (m.maxSize s).Refines (h.step (.maxSize s)) := by
  obtain ⟨d, hd, hqueue, hallows⟩ := hm.kept
  have hlength : m.queue.length = h.news.length - d := by rw [hqueue, List.length_drop]
  have hmaximum : s = History.maximum ⟨h.news, h.limits ++ [(h.news.length, s)]⟩ :=
    (History.maximum_concat h.news h.limits (h.news.length, s)).symm
  rw [Mruset.maxSize, History.step]
  split_ifs with hs
  · rw [hm.set_eq, shrink_eq s hm.nodup]
    refine ⟨hm.nodup.sublist (List.drop_sublist _ _), rfl, hmaximum,
      fun _ => ?_, d + (m.queue.length - s), ?_, ?_, fun i => ?_⟩
    · simp only [List.length_drop]
      omega
    · simp only
      omega
    · rw [← List.drop_drop, ← hqueue]
    · rw [History.allows_concat, hallows i]
      simp only
      omega
  · refine ⟨hm.nodup, hm.set_eq, hmaximum, fun hne => absurd hne hs, d,
      hd, hqueue, fun i => ?_⟩
    rw [History.allows_concat, hallows i]
    simp only
    omega

lemma Refines.run (hm : m.Refines h) (calls : List (MrusetCall T)) :
    (m.run calls).Refines (h.run calls) := by
  induction calls generalizing m h with
  | nil => exact hm
  | cons call calls ih =>
    cases call with
    | insert x => exact ih (hm.insert x)
    | maxSize s => exact ih (hm.maxSize s)

/-- After any calls the set and the queue have the same elements, none of them twice and not more
than the maximum, and they are the last ones that were newly inserted, as far back as the maxima
have allowed. -/
theorem runs_spec (nMaxSizeIn : ℕ) (calls : List (MrusetCall T)) :
    let m := (create nMaxSizeIn : Mruset T).run calls
    let h := (History.start nMaxSizeIn : History T).run calls
    m.queue.Nodup ∧ m.set = m.queue.toFinset ∧ m.nMaxSize = h.maximum ∧
      (m.nMaxSize ≠ 0 → m.set.card ≤ m.nMaxSize) ∧ m.queue <:+ h.news ∧
      ∀ x, x ∈ m.set ↔ x ∈ h.retained := by
  intro m h
  have hm : m.Refines h := (refines_create nMaxSizeIn).run calls
  obtain ⟨d, -, hqueue, -⟩ := hm.kept
  refine ⟨hm.nodup, hm.set_eq, hm.maximum, fun hne => ?_, ?_, hm.mem_set⟩
  · rw [hm.set_eq, List.toFinset_card_of_nodup hm.nodup]
    exact hm.bound hne
  · rw [hqueue]
    exact List.drop_suffix d h.news

/-- An element that is inserted again does not become more recent. -/
example : ((create 2 : Mruset ℕ).run [.insert 1, .insert 2, .insert 1, .insert 3]).queue = [2, 3] :=
  rfl

end Mruset

end HyperStake
