import Mathlib.Data.List.Induction
import Mathlib.Data.List.Sort
import HyperStake.Basic

/-!
# Requesting inventory

What a node asks a peer for waits in a queue, ordered by the times from which on the requests can be
sent; a request of an item that has been asked for before, of whichever peer, is put off by two
minutes.  `SendMessages` sends the requests that are due, unless the node has got the item by then.

However the calls for the peers alternate, no request is lost or sent twice (`accounts_run`).
-/

namespace HyperStake

/-- An item of inventory. -/
structure CInv where
  type : Int32
  hash : UInt256
  deriving DecidableEq

/-- What a node keeps of the requests of a peer: the queue, the `getdata` messages, and what was not
requested any more. -/
structure AskPeer where
  mapAskFor : List (Int64 × CInv) := []
  messages : List (List CInv) := []
  skipped : List CInv := []

structure AskNode (τ : Type*) where
  /-- An item that the map does not have is at zero. -/
  mapAlreadyAskedFor : CInv → Int64 := fun _ => 0
  nLastTime : Int64 := 0
  peers : τ → AskPeer := fun _ => {}

/-- The calls that concern requests, with the clock in seconds. -/
inductive AskCall (τ : Type*) where
  | askFor (t : τ) (inv : CInv) (getTime : Int64)
  | sendMessages (t : τ) (getTime : Int64) (alreadyHave : CInv → Bool)
  /-- The item arrives, and is erased from `mapAlreadyAskedFor`. -/
  | received (inv : CInv)

/-- The order of the queue. -/
def Earlier (e e' : Int64 × CInv) : Prop := e.1 < e'.1

instance : DecidableRel Earlier := fun e e' => inferInstanceAs (Decidable (e.1 < e'.1))

/-- The end of `SendMessages`. -/
def AskPeer.push (vGetData : List CInv) (p : AskPeer) : AskPeer :=
  if vGetData.isEmpty then p else { p with messages := p.messages ++ [vGetData] }

/-- The loop of `SendMessages` over the requests that are due. -/
def getDataLoop (nNow : Int64) (alreadyHave : CInv → Bool) : List (Int64 × CInv) →
    List CInv → (CInv → Int64) × AskPeer → (CInv → Int64) × AskPeer
  | [], vGetData, (asked, p) => (asked, { p.push vGetData with mapAskFor := [] })
  | e :: queue, vGetData, (asked, p) =>
    if e.1 ≤ nNow then
      if alreadyHave e.2 then
        getDataLoop nNow alreadyHave queue vGetData
          (asked, { p with skipped := p.skipped ++ [e.2] })
      else
        let asked := Function.update asked e.2 nNow
        if 1000 ≤ (vGetData ++ [e.2]).length then
          getDataLoop nNow alreadyHave queue [] (asked, p.push (vGetData ++ [e.2]))
        else getDataLoop nNow alreadyHave queue (vGetData ++ [e.2]) (asked, p)
    else (asked, { p.push vGetData with mapAskFor := e :: queue })

namespace AskNode

variable {τ : Type*} [DecidableEq τ]

/-- `CNode::AskFor`. -/
def askFor (t : τ) (inv : CInv) (getTime : Int64) (s : AskNode τ) : AskNode τ :=
  let p := s.peers t
  -- make sure not to reuse time indexes
  let nNow := max ((getTime - 1) * 1000000) (s.nLastTime + 1)
  -- each retry is 2 minutes after the last
  let nRequestTime := max (s.mapAlreadyAskedFor inv + 2 * 60 * 1000000) nNow
  { mapAlreadyAskedFor := Function.update s.mapAlreadyAskedFor inv nRequestTime
    nLastTime := nNow
    peers := Function.update s.peers t
      { p with mapAskFor := p.mapAskFor.orderedInsert Earlier (nRequestTime, inv) } }

/-- The part of `SendMessages` for the requests. -/
def sendMessages (t : τ) (getTime : Int64) (alreadyHave : CInv → Bool) (s : AskNode τ) :
    AskNode τ :=
  let (mapAlreadyAskedFor, p) := getDataLoop (getTime * 1000000) alreadyHave (s.peers t).mapAskFor
    [] (s.mapAlreadyAskedFor, s.peers t)
  { s with mapAlreadyAskedFor, peers := Function.update s.peers t p }

/-- A call. -/
def step (s : AskNode τ) : AskCall τ → AskNode τ
  | .askFor t inv getTime => s.askFor t inv getTime
  | .sendMessages t getTime alreadyHave => s.sendMessages t getTime alreadyHave
  | .received inv =>
    { s with mapAlreadyAskedFor := Function.update s.mapAlreadyAskedFor inv 0 }

/-- Some calls, in the order in which they are made. -/
def run (calls : List (AskCall τ)) : AskNode τ := calls.foldl step {}

end AskNode

/-- What a peer is asked for with a call. -/
def AskCall.asks {τ : Type*} [DecidableEq τ] (t : τ) : AskCall τ → List CInv
  | .askFor t' inv _ => if t' = t then [inv] else []
  | .sendMessages _ _ _ | .received _ => []

namespace AskPeer

/-- Every request that a peer was to be sent is queued, sent, or has been dropped; those that are
queued are in the order of their times, and the messages have their size. -/
structure Accounts (asked : List CInv) (p : AskPeer) : Prop where
  perm : (p.mapAskFor.map Prod.snd ++ p.messages.flatten ++ p.skipped).Perm asked
  sorted : p.mapAskFor.Pairwise fun e e' => e.1 ≤ e'.1
  size : ∀ vGetData ∈ p.messages, vGetData ≠ [] ∧ vGetData.length ≤ 1000

variable {asked vGetData : List CInv} {p : AskPeer} {queue : List (Int64 × CInv)} {nNow : Int64}

lemma pairwise_orderedInsert (h : queue.Pairwise fun e e' => e.1 ≤ e'.1) (e : Int64 × CInv) :
    (queue.orderedInsert Earlier e).Pairwise fun e e' => e.1 ≤ e'.1 := by
  induction queue with
  | nil => exact List.pairwise_singleton _ _
  | cons e' queue ih =>
    obtain ⟨hle, hrest⟩ := List.pairwise_cons.mp h
    rw [List.orderedInsert_cons]
    split_ifs with hlt
    · have hle' : e.1 ≤ e'.1 := Int64.le_of_lt hlt
      exact List.pairwise_cons.mpr ⟨List.forall_mem_cons.mpr
        ⟨hle', fun x hx => Int64.le_trans hle' (hle x hx)⟩, h⟩
    · refine List.pairwise_cons.mpr ⟨fun x hx => ?_, ih hrest⟩
      rcases (List.mem_orderedInsert _).mp hx with rfl | hx
      · exact Int64.not_lt.mp hlt
      · exact hle x hx

lemma Accounts.askFor (h : Accounts asked p) (e : Int64 × CInv) :
    Accounts (asked ++ [e.2])
      { p with mapAskFor := p.mapAskFor.orderedInsert Earlier e } where
  perm := by
    have hperm := ((List.perm_orderedInsert Earlier e p.mapAskFor).map Prod.snd).append_right
      (p.messages.flatten ++ p.skipped)
    rw [List.append_assoc]
    refine hperm.trans (.trans ?_ (List.perm_append_singleton e.2 asked).symm)
    exact (List.append_assoc _ _ _ ▸ h.perm).cons e.2
  sorted := pairwise_orderedInsert h.sorted e
  size := h.size

lemma push_spec (h : ∀ m ∈ p.messages, m ≠ [] ∧ m.length ≤ 1000) (hle : vGetData.length ≤ 1000) :
    (p.push vGetData).messages.flatten = p.messages.flatten ++ vGetData ∧
      (p.push vGetData).skipped = p.skipped ∧
      ∀ m ∈ (p.push vGetData).messages, m ≠ [] ∧ m.length ≤ 1000 := by
  unfold push
  split_ifs with hnil
  · rw [List.isEmpty_iff.mp hnil, List.append_nil]
    exact ⟨rfl, rfl, h⟩
  · refine ⟨by simp, rfl, List.forall_mem_append.mpr ⟨h, List.forall_mem_singleton.mpr ⟨?_, hle⟩⟩⟩
    exact fun heq => hnil (List.isEmpty_iff.mpr heq)

/-- What the loop does with a queue, when the requests of an unfinished message are in order. -/
lemma getDataLoop_spec (alreadyHave : CInv → Bool) {already : CInv → Int64}
    (hsorted : queue.Pairwise fun e e' => e.1 ≤ e'.1) (hlt : vGetData.length < 1000)
    (hsize : ∀ m ∈ p.messages, m ≠ [] ∧ m.length ≤ 1000)
    (hperm : (queue.map Prod.snd ++ (p.messages.flatten ++ vGetData) ++ p.skipped).Perm asked) :
    Accounts asked (getDataLoop nNow alreadyHave queue vGetData (already, p)).2 ∧
      ∀ e ∈ (getDataLoop nNow alreadyHave queue vGetData (already, p)).2.mapAskFor, nNow < e.1 := by
  induction queue generalizing vGetData p already with
  | nil =>
    obtain ⟨hflatten, hskipped, hsize⟩ := push_spec hsize hlt.le
    refine ⟨⟨?_, .nil, hsize⟩, fun e he => absurd he List.not_mem_nil⟩
    rw [← hflatten, ← hskipped] at hperm
    exact hperm
  | cons e queue ih =>
    obtain ⟨hle, hrest⟩ := List.pairwise_cons.mp hsorted
    have hmoved : (queue.map Prod.snd ++ (p.messages.flatten ++ (vGetData ++ [e.2])) ++
        p.skipped).Perm asked := by
      refine .trans (List.perm_iff_count.mpr fun inv => ?_) hperm
      simp [List.count_cons]
      omega
    have hlength : (vGetData ++ [e.2]).length = vGetData.length + 1 := by simp
    rw [getDataLoop]
    split_ifs with hdue hhave hfull
    · refine ih hrest hlt hsize (.trans ?_ hperm)
      rw [← List.append_assoc]
      exact List.perm_append_singleton _ _
    · have hle' : (vGetData ++ [e.2]).length ≤ 1000 := by omega
      obtain ⟨hflatten, hskipped, hsize⟩ := push_spec hsize hle'
      refine ih hrest (Nat.succ_pos _) hsize ?_
      rwa [hflatten, hskipped, List.append_nil]
    · exact ih hrest (Nat.not_le.mp hfull) hsize hmoved
    · obtain ⟨hflatten, hskipped, hsize⟩ := push_spec hsize hlt.le
      have hlater : nNow < e.1 := Int64.not_le.mp hdue
      rw [← hflatten, ← hskipped] at hperm
      exact ⟨⟨hperm, hsorted, hsize⟩, List.forall_mem_cons.mpr
        ⟨hlater, fun x hx => Int64.lt_of_lt_of_le hlater (hle x hx)⟩⟩

end AskPeer

namespace AskNode

variable {τ : Type*} [DecidableEq τ] {s : AskNode τ} {t : τ} {asked : List CInv}

/-- `SendMessages` sends every request that is due. -/
lemma accounts_sendMessages (h : (s.peers t).Accounts asked) (getTime : Int64)
    (alreadyHave : CInv → Bool) :
    ((s.sendMessages t getTime alreadyHave).peers t).Accounts asked ∧
      ∀ e ∈ ((s.sendMessages t getTime alreadyHave).peers t).mapAskFor,
        getTime * 1000000 < e.1 := by
  have hperm := h.perm
  rw [← List.append_nil (s.peers t).messages.flatten] at hperm
  unfold sendMessages
  dsimp only
  rw [Function.update_self]
  exact AskPeer.getDataLoop_spec alreadyHave h.sorted (Nat.succ_pos _) h.size hperm

/-- One call keeps the accounts of every peer. -/
lemma accounts_step (h : (s.peers t).Accounts asked) (call : AskCall τ) :
    ((s.step call).peers t).Accounts (asked ++ call.asks t) := by
  cases call with
  | askFor t' inv getTime =>
    by_cases heq : t' = t
    · subst heq
      rw [AskCall.asks, if_pos rfl, step, askFor]
      dsimp only
      rw [Function.update_self]
      exact h.askFor (_, inv)
    · rw [AskCall.asks, if_neg heq, List.append_nil, step, askFor]
      dsimp only
      rwa [Function.update_of_ne (Ne.symm heq)]
  | sendMessages t' getTime alreadyHave =>
    rw [AskCall.asks, List.append_nil, step]
    by_cases heq : t' = t
    · subst heq
      exact (accounts_sendMessages h getTime alreadyHave).1
    · unfold sendMessages
      dsimp only
      rwa [Function.update_of_ne (Ne.symm heq)]
  | received inv =>
    rw [AskCall.asks, List.append_nil]
    exact h

/-- Whatever calls there are for the peers, no request to one of them is lost or sent twice, and a
call of `SendMessages` leaves none that is due. -/
theorem accounts_run (calls : List (AskCall τ)) (t : τ) :
    ((run calls).peers t).Accounts (calls.flatMap (AskCall.asks t)) ∧ ∀ getTime alreadyHave,
      ∀ e ∈ ((run (calls ++ [.sendMessages t getTime alreadyHave])).peers t).mapAskFor,
        getTime * 1000000 < e.1 := by
  have hall : ((run calls).peers t).Accounts (calls.flatMap (AskCall.asks t)) := by
    induction calls using List.reverseRecOn with
    | nil => exact ⟨.nil, .nil, fun m hm => absurd hm List.not_mem_nil⟩
    | append_singleton calls call ih =>
      rw [run, List.foldl_append, List.flatMap_append, List.flatMap_singleton]
      exact accounts_step ih call
  refine ⟨hall, fun getTime alreadyHave => ?_⟩
  rw [run, List.foldl_append]
  exact (accounts_sendMessages hall getTime alreadyHave).2

end AskNode

end HyperStake
