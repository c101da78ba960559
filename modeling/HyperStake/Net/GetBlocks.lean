import Mathlib.Algebra.BigOperators.Group.List.Basic
import Mathlib.Data.List.TakeWhile
import HyperStake.Chain.CheckBlock
import HyperStake.Chain.Kernel

/-!
# Requests for blocks

A peer asks with the message `getblocks` for the hashes of the blocks after the last one that it
has.  In the strict mode the node keeps for every peer the height at which its requests start and a
count, in a map that is cleared when nothing was counted for three minutes, and it disconnects a
peer whose count is above 100.

The count is kept in the loop over the blocks, so it is one of blocks and not of messages.  A peer
is marked only after more than 100 messages with the same start exactly if the blocks that these
messages have asked for are not more than 100 (`disconnects_iff`).
-/

namespace HyperStake

open LinkWalk

/-! ## The message -/

/-- What the node remembers of the requests for blocks. -/
structure GetBlocksState where
  /-- The start of the requests of a peer, and their count. -/
  mapGetBlocksRequests : Std.ExtTreeMap Bytes (Int32 × Int32) := ∅
  nLastMapGetBlocksClear : UInt32 := 0

/-- A message `getblocks` of a peer, with the block index and the clock when it is processed. -/
structure GetBlocks where
  addrName : Bytes
  /-- The hashes of the block locator. -/
  vHave : List UInt256
  hashStop : UInt256
  tree : BlockTree
  pindexGenesisBlock : UInt256
  pindexBest : UInt256
  /-- The times that the calls of `GetTime` return, one after the other. -/
  getTime : ℕ → Int64

/-- What processing a message leaves behind. -/
structure GetBlocksOutcome where
  state : GetBlocksState
  /-- The hashes that were passed to `PushInventory`. -/
  inventory : List UInt256 := []
  hashContinue : Option UInt256 := none
  fDisconnect : Bool := false

namespace GetBlocks

/-- `CBlockLocator::GetBlockIndex`: the first block of the locator in the main chain. -/
def getBlockIndex (tree : BlockTree) (pindexGenesisBlock pindexBest : UInt256) :
    List UInt256 → Option CBlockIndex
  | [] => tree.find pindexGenesisBlock
  | hash :: vHave =>
    match tree.mapBlockIndex[hash]? with
    | some pindex =>
      -- `IsInMainChain`
      if pindex.pnext != 0 || hash == pindexBest then some pindex
      else getBlockIndex tree pindexGenesisBlock pindexBest vHave
    | none => getBlockIndex tree pindexGenesisBlock pindexBest vHave

/-- The blocks after the last one that the peer has. -/
def blocks (m : GetBlocks) : List CBlockIndex :=
  match getBlockIndex m.tree m.pindexGenesisBlock m.pindexBest m.vHave with
  | some pindex => m.tree.following pindex.pnext
  | none => []

/-- The height at which the request starts. -/
def nFirst (m : GetBlocks) : Int32 :=
  match m.blocks with
  | pindex :: _ => pindex.nHeight
  | [] => -1

/-- The part of the loop that counts a request.  Returns the map, and whether the peer is to be
disconnected. -/
def countRequest (strFrom : Bytes) (nFirst : Int32)
    (mapGetBlocksRequests : Std.ExtTreeMap Bytes (Int32 × Int32)) :
    Std.ExtTreeMap Bytes (Int32 × Int32) × Bool :=
  match mapGetBlocksRequests[strFrom]? with
  | some request =>
    let request := if request.1 == nFirst then (request.1, request.2 + 1) else (nFirst, 1)
    (mapGetBlocksRequests.insert strFrom request, request.1 != -1 && decide (request.2 > 100))
  | none => (mapGetBlocksRequests.insert strFrom (nFirst, 1), false)

/-- What a turn of the loop does in the strict mode. -/
def countTurn (m : GetBlocks) (i : ℕ) (out : GetBlocksOutcome) : GetBlocksOutcome :=
  let counted := countRequest m.addrName m.nFirst out.state.mapGetBlocksRequests
  { out with
    state := ⟨counted.1, (m.getTime i).toUInt64.toUInt32⟩
    fDisconnect := counted.2 }

/-- The loop over the blocks that are left, at most as many as the limit. -/
def loop (fStrictIncoming : Bool) (m : GetBlocks) :
    ℕ → ℕ → List CBlockIndex → GetBlocksOutcome → GetBlocksOutcome
  | _, _, [], out => out
  | i, nLimit, pindex :: rest, out =>
    let out := if fStrictIncoming then m.countTurn i out else out
    if out.fDisconnect then out
    else if pindex.phashBlock == m.hashStop then out
    else
      let out := { out with inventory := out.inventory ++ [pindex.phashBlock] }
      if nLimit - 1 ≤ 0 then { out with hashContinue := some pindex.phashBlock }
      else loop fStrictIncoming m (i + 1) (nLimit - 1) rest out

/-- The map of requests is cleared when the message comes in. -/
def clears (m : GetBlocks) (s : GetBlocksState) : Bool :=
  s.nLastMapGetBlocksClear != 0 && decide (m.getTime 0 - timeOf s.nLastMapGetBlocksClear > 180)

/-- The part of `ProcessMessage` for the message `getblocks`. -/
def process (fStrictIncoming : Bool) (m : GetBlocks) (s : GetBlocksState) : GetBlocksOutcome :=
  let s := if m.clears s then { s with mapGetBlocksRequests := ∅ } else s
  m.loop fStrictIncoming 1 1000 m.blocks { state := s }

/-! ## Messages one after the other -/

/-- Process a message in the strict mode.  Beside the state, the messages since the map was last
cleared are kept, the newest one first. -/
def receive (s : GetBlocksState × List GetBlocks) (m : GetBlocks) :
    GetBlocksState × List GetBlocks :=
  ((m.process true s.1).state, m :: if m.clears s.1 then [] else s.2)

/-- The state after messages, and those of them since the map was last cleared. -/
def received (ms : List GetBlocks) : GetBlocksState × List GetBlocks := ms.foldl receive ({}, [])

/-- The number of messages from a peer with a start. -/
def sent (addrName : Bytes) (nFirst : Int32) (since : List GetBlocks) : ℕ :=
  since.countP fun m => m.addrName == addrName && m.nFirst == nFirst

/-- The number of blocks up to the one at which to stop, and not more than the limit. -/
def turns (hashStop : UInt256) (nLimit : ℕ) (blocks : List CBlockIndex) : ℕ :=
  min (min (blocks.findIdx (fun pindex => pindex.phashBlock == hashStop) + 1) blocks.length) nLimit

/-- The number of blocks that a message asks for: up to the one at which to stop, and not more than
the limit. -/
def asked (m : GetBlocks) : ℕ := turns m.hashStop 1000 m.blocks

/-- The last messages of a peer that ask for blocks, as long as they have a start. -/
def lastWith (addrName : Bytes) (nFirst : Int32) (since : List GetBlocks) : List GetBlocks :=
  (since.filter fun m => m.addrName == addrName && m.asked != 0).takeWhile
    fun m => m.nFirst == nFirst

/-- The number of blocks that they ask for. -/
def askedWith (addrName : Bytes) (nFirst : Int32) (since : List GetBlocks) : ℕ :=
  ((lastWith addrName nFirst since).map asked).sum

/-! ## The count of a peer -/

/-- The count of a peer for a start. -/
def count (addrName : Bytes) (nFirst : Int32)
    (mapGetBlocksRequests : Std.ExtTreeMap Bytes (Int32 × Int32)) : Int32 :=
  match mapGetBlocksRequests[addrName]? with
  | some request => if request.1 == nFirst then request.2 else 0
  | none => 0

variable {mapGetBlocksRequests : Std.ExtTreeMap Bytes (Int32 × Int32)} {strFrom addrName : Bytes}
  {n nFirst : Int32}

/-- A request makes the count of the peer for its start one higher. -/
lemma countRequest_eq : countRequest strFrom nFirst mapGetBlocksRequests =
    (mapGetBlocksRequests.insert strFrom (nFirst, count strFrom nFirst mapGetBlocksRequests + 1),
      nFirst != -1 && decide (count strFrom nFirst mapGetBlocksRequests + 1 > 100)) := by
  unfold countRequest count
  cases mapGetBlocksRequests[strFrom]? with
  | none => simp
  | some request =>
    by_cases hsame : request.1 = nFirst
    · simp [hsame]
    · simp [hsame]

/-- The counts after a request is recorded. -/
lemma count_insert (c : Int32) :
    count addrName nFirst (mapGetBlocksRequests.insert strFrom (n, c)) =
      if strFrom = addrName then if n = nFirst then c else 0
      else count addrName nFirst mapGetBlocksRequests := by
  rw [count, count, MapLoop.getElem?_insert_eq]
  by_cases hpeer : strFrom = addrName
  · rw [if_pos hpeer, if_pos hpeer]
    simp
  · rw [if_neg hpeer, if_neg hpeer]

/-! ## The loop -/

/-- A block is one turn of the loop, and the last one if it is the one at which to stop, or if the
limit is reached. -/
lemma turns_cons {hashStop : UInt256} {nLimit : ℕ} (hlimit : 0 < nLimit) (pindex : CBlockIndex)
    (rest : List CBlockIndex) :
    turns hashStop nLimit (pindex :: rest) =
      if (pindex.phashBlock == hashStop) = true ∨ nLimit - 1 ≤ 0 then 1
      else turns hashStop (nLimit - 1) rest + 1 := by
  rw [turns, turns, List.findIdx_cons, List.length_cons]
  cases pindex.phashBlock == hashStop with
  | true => simp; omega
  | false => simp; split_ifs <;> omega

/-- The counting of the loop: a number of turns, up to the one that disconnects the peer. -/
def countTurns (strFrom : Bytes) (nFirst : Int32) :
    ℕ → Std.ExtTreeMap Bytes (Int32 × Int32) → Std.ExtTreeMap Bytes (Int32 × Int32) × Bool
  | 0, mapGetBlocksRequests => (mapGetBlocksRequests, false)
  | k + 1, mapGetBlocksRequests =>
    let counted := countRequest strFrom nFirst mapGetBlocksRequests
    if counted.2 then counted else countTurns strFrom nFirst k counted.1

variable {m : GetBlocks} {since : List GetBlocks}

/-- The loop counts its turns. -/
lemma loop_counts {out : GetBlocksOutcome} {blocks : List CBlockIndex} {i nLimit : ℕ}
    (hlimit : 0 < nLimit) (hout : out.fDisconnect = false) :
    ((m.loop true i nLimit blocks out).state.mapGetBlocksRequests,
      (m.loop true i nLimit blocks out).fDisconnect) =
        countTurns m.addrName m.nFirst (turns m.hashStop nLimit blocks)
          out.state.mapGetBlocksRequests := by
  induction blocks generalizing i nLimit out with
  | nil =>
    have hturns : turns m.hashStop nLimit [] = 0 := by simp [turns]
    rw [hturns, loop, countTurns, hout]
  | cons pindex rest ih =>
    -- the turn that counts, and then the three ways to go on
    have hloop : m.loop true i nLimit (pindex :: rest) out =
        if (m.countTurn i out).fDisconnect = true then m.countTurn i out
        else if (pindex.phashBlock == m.hashStop) = true then m.countTurn i out
        else if nLimit - 1 ≤ 0 then
          { m.countTurn i out with
            inventory := (m.countTurn i out).inventory ++ [pindex.phashBlock]
            hashContinue := some pindex.phashBlock }
        else m.loop true (i + 1) (nLimit - 1) rest
          { m.countTurn i out with
            inventory := (m.countTurn i out).inventory ++ [pindex.phashBlock] } := rfl
    have hcounted : countRequest m.addrName m.nFirst out.state.mapGetBlocksRequests
        = ((m.countTurn i out).state.mapGetBlocksRequests, (m.countTurn i out).fDisconnect) := rfl
    rw [hloop, turns_cons hlimit]
    generalize m.countTurn i out = out' at *
    by_cases hmark : out'.fDisconnect = true
    · rw [if_pos hmark]
      have hpos : ∃ k, (if (pindex.phashBlock == m.hashStop) = true ∨ nLimit - 1 ≤ 0 then 1
          else turns m.hashStop (nLimit - 1) rest + 1) = k + 1 := by
        split_ifs
        · exact ⟨0, rfl⟩
        · exact ⟨_, rfl⟩
      obtain ⟨k, hk⟩ := hpos
      rw [hk, countTurns, hcounted, if_pos hmark]
    · rw [if_neg hmark]
      rw [Bool.not_eq_true] at hmark
      by_cases hstop : (pindex.phashBlock == m.hashStop) = true
      · rw [if_pos hstop, if_pos (Or.inl hstop), countTurns, hcounted, hmark]
        rfl
      · rw [if_neg hstop]
        by_cases hlast : nLimit - 1 ≤ 0
        · rw [if_pos hlast, if_pos (Or.inr hlast), countTurns, hcounted, hmark]
          rfl
        · rw [if_neg hlast, if_neg (not_or.mpr ⟨hstop, hlast⟩), countTurns, hcounted, hmark]
          exact ih (Nat.pos_of_ne_zero fun h0 => hlast h0.le) hmark

/-- The turns change what the map has of the peer, which then has the start of the request. -/
lemma exists_countTurns (k : ℕ) (mapGetBlocksRequests : Std.ExtTreeMap Bytes (Int32 × Int32)) :
    ∃ c, (countTurns strFrom nFirst (k + 1) mapGetBlocksRequests).1
      = mapGetBlocksRequests.insert strFrom (nFirst, c) := by
  induction k generalizing mapGetBlocksRequests with
  | zero =>
    rw [countTurns, countRequest_eq]
    split_ifs <;> exact ⟨_, rfl⟩
  | succ k ih =>
    rw [countTurns, countRequest_eq]
    split_ifs with hmark
    · exact ⟨_, rfl⟩
    · obtain ⟨c, hc⟩ := ih (mapGetBlocksRequests.insert strFrom
        (nFirst, count strFrom nFirst mapGetBlocksRequests + 1))
      exact ⟨c, by rw [hc, MapLoop.insert_insert]⟩

section

variable (hstart : nFirst ≠ -1) (hnonneg : 0 ≤ (count strFrom nFirst mapGetBlocksRequests).toInt)

include hstart hnonneg

/-- A turn at a count that does not leave the integers. -/
lemma countRequest_spec (hsmall : (count strFrom nFirst mapGetBlocksRequests).toInt + 1 < 2 ^ 31) :
    ((countRequest strFrom nFirst mapGetBlocksRequests).2 = true ↔
      100 < (count strFrom nFirst mapGetBlocksRequests).toInt + 1) ∧
    (count strFrom nFirst (countRequest strFrom nFirst mapGetBlocksRequests).1).toInt =
      (count strFrom nFirst mapGetBlocksRequests).toInt + 1 := by
  rw [countRequest_eq, count_insert, if_pos rfl, if_pos rfl]
  dsimp only
  generalize count strFrom nFirst mapGetBlocksRequests = c at hnonneg hsmall ⊢
  have hone : (1 : Int32).toInt = 1 := by decide
  have hhundred : (100 : Int32).toInt = 100 := by decide
  have hnext : (c + 1).toInt = c.toInt + 1 := by
    rw [Int32.toInt_add, hone, Int.bmod_eq_of_le] <;> omega
  rw [bne_iff_ne.mpr hstart, Bool.true_and, decide_eq_true_iff, gt_iff_lt, Int32.lt_iff_toInt_lt,
    hnext, hhundred]
  exact ⟨Iff.rfl, rfl⟩

/-- A count that does not leave the integers goes up by the turns, and stops above 100 with the peer
disconnected. -/
lemma countTurns_spec {k : ℕ}
    (hsmall : (count strFrom nFirst mapGetBlocksRequests).toInt + (k + 1) < 2 ^ 31) :
    ((countTurns strFrom nFirst (k + 1) mapGetBlocksRequests).2 = true ↔
      100 < (count strFrom nFirst mapGetBlocksRequests).toInt + (k + 1)) ∧
    (count strFrom nFirst (countTurns strFrom nFirst (k + 1) mapGetBlocksRequests).1).toInt =
      if (count strFrom nFirst mapGetBlocksRequests).toInt + (k + 1) ≤ 100 then
        (count strFrom nFirst mapGetBlocksRequests).toInt + (k + 1)
      else max 101 ((count strFrom nFirst mapGetBlocksRequests).toInt + 1) := by
  induction k generalizing mapGetBlocksRequests with
  | zero =>
    obtain ⟨hmark, hnext⟩ := countRequest_spec hstart hnonneg (by omega)
    rw [countTurns]
    split_ifs with hover hle
    · rw [hmark] at hover
      omega
    · exact ⟨hmark, by omega⟩
    · rw [countTurns, hnext]
      exact ⟨iff_of_false Bool.false_ne_true (by omega), by omega⟩
    · rw [hmark] at hover
      omega
  | succ k ih =>
    obtain ⟨hmark, hnext⟩ := countRequest_spec hstart hnonneg (by omega)
    rw [countTurns]
    by_cases hover : (countRequest strFrom nFirst mapGetBlocksRequests).2 = true
    · rw [if_pos hover]
      have hlt := hmark.mp hover
      refine ⟨iff_of_true hover (by push_cast; omega), ?_⟩
      rw [hnext, if_neg (by push_cast; omega)]
      omega
    · have hle := mt hmark.mpr hover
      rw [if_neg hover]
      obtain ⟨hdisconnect, hrest⟩ := @ih (countRequest strFrom nFirst mapGetBlocksRequests).1
        (by omega) (by rw [hnext]; push_cast at hsmall; omega)
      rw [hdisconnect, hrest, hnext]
      push_cast
      constructor
      · omega
      · split_ifs <;> omega

end

/-- A peer is not disconnected for a request without a start. -/
lemma countTurns_neg (k : ℕ) (mapGetBlocksRequests : Std.ExtTreeMap Bytes (Int32 × Int32)) :
    (countTurns strFrom (-1) k mapGetBlocksRequests).2 = false := by
  induction k generalizing mapGetBlocksRequests with
  | zero => rfl
  | succ k ih =>
    have hmark : (countRequest strFrom (-1) mapGetBlocksRequests).2 = false := by
      rw [countRequest_eq]
      rfl
    rw [countTurns, if_neg (by rw [hmark]; exact Bool.false_ne_true)]
    exact ih _

/-! ## Runs -/

/-- A request without blocks has no start. -/
lemma asked_ne_zero (hstart : m.nFirst ≠ -1) : m.asked ≠ 0 := by
  unfold nFirst at hstart
  unfold asked turns
  cases hblocks : m.blocks with
  | nil => simp [hblocks] at hstart
  | cons pindex rest =>
    rw [List.length_cons]
    omega

lemma asked_le (m : GetBlocks) : m.asked ≤ 1000 := min_le_right _ _

/-- Processing a message counts the blocks that it asks for. -/
lemma process_counts (m : GetBlocks) (s : GetBlocksState) :
    ((m.process true s).state.mapGetBlocksRequests, (m.process true s).fDisconnect) =
      countTurns m.addrName m.nFirst m.asked
        (if m.clears s then ∅ else s.mapGetBlocksRequests) := by
  have hmap : (if m.clears s then { s with mapGetBlocksRequests := ∅ } else s).mapGetBlocksRequests
      = if m.clears s then ∅ else s.mapGetBlocksRequests := by
    split_ifs <;> rfl
  rw [← hmap]
  exact loop_counts (by decide) rfl

lemma received_concat (ms : List GetBlocks) (m : GetBlocks) :
    received (ms ++ [m]) = receive (received ms) m := by
  rw [received, received, List.foldl_concat]

/-- The last messages with a start, after one more message. -/
lemma lastWith_cons (m : GetBlocks) (since : List GetBlocks) :
    lastWith addrName n (m :: since) =
      if m.addrName = addrName ∧ m.asked ≠ 0 then
        if m.nFirst = n then m :: lastWith addrName n since else []
      else lastWith addrName n since := by
  unfold lastWith
  by_cases hpeer : m.addrName = addrName ∧ m.asked ≠ 0
  · rw [List.filter_cons_of_pos (by simpa using hpeer), if_pos hpeer, List.takeWhile_cons]
    simp
  · rw [List.filter_cons_of_neg (by simpa using hpeer), if_neg hpeer]

/-- There are not more of them than messages with the start. -/
lemma length_lastWith_le (addrName : Bytes) (n : Int32) (since : List GetBlocks) :
    (lastWith addrName n since).length ≤ sent addrName n since := by
  have hall : ∀ m ∈ lastWith addrName n since, (m.nFirst == n) = true := by
    intro m hm
    exact List.mem_takeWhile_imp (p := fun m : GetBlocks => m.nFirst == n) hm
  calc (lastWith addrName n since).length
      = (lastWith addrName n since).countP fun m => m.nFirst == n :=
        (List.countP_eq_length.mpr hall).symm
    _ ≤ (since.filter fun m => m.addrName == addrName && m.asked != 0).countP
          fun m => m.nFirst == n := (List.takeWhile_sublist _).countP_le
    _ ≤ sent addrName n since := by
        rw [List.countP_filter, sent]
        refine List.countP_mono_left fun m _ hm => ?_
        rw [Bool.and_eq_true, Bool.and_eq_true] at hm
        rw [Bool.and_eq_true]
        exact ⟨hm.2.1, hm.1⟩

/-- The count of a peer, as far as the blocks that some messages have asked for determine it. -/
structure Counts (c : ℤ) (askedWith messages : ℕ) : Prop where
  exact : askedWith ≤ 100 → c = askedWith
  above : 100 < askedWith → 101 ≤ c ∧ c ≤ 101 + messages

/-- Of every peer and start, the count is that of the blocks that the last messages have asked for,
up to the one that disconnects, if these messages are not more than 100. -/
def Counted (mapGetBlocksRequests : Std.ExtTreeMap Bytes (Int32 × Int32)) (since : List GetBlocks) :
    Prop :=
  ∀ (addrName : Bytes) (n : Int32), n ≠ -1 → (lastWith addrName n since).length ≤ 100 →
    Counts (count addrName n mapGetBlocksRequests).toInt (askedWith addrName n since)
      (lastWith addrName n since).length

/-- As long as the messages are not many, the count is small. -/
lemma Counts.range {c : ℤ} {askedWith messages : ℕ} (h : Counts c askedWith messages) :
    0 ≤ c ∧ c ≤ 101 + messages := by
  rcases Nat.lt_or_ge 100 askedWith with hover | hexact
  · have hbounds := h.above hover
    omega
  · have heq := h.exact hexact
    omega

/-- The turns of one more message. -/
lemma Counts.turns {c c' : ℤ} {askedWith messages k : ℕ} (h : Counts c askedWith messages)
    (hc' : c' = if c + (k + 1) ≤ 100 then c + (k + 1) else max 101 (c + 1)) :
    Counts c' (k + 1 + askedWith) (messages + 1) := by
  have hrange := h.range
  constructor
  · intro htotal
    have heq := h.exact (by omega)
    rw [hc', if_pos (by omega), heq]
    push_cast
    omega
  · intro htotal
    rcases Nat.lt_or_ge 100 askedWith with hover | hexact
    · have hbounds := h.above hover
      rw [hc', if_neg (by omega)]
      push_cast
      omega
    · have heq := h.exact hexact
      rw [hc', if_neg (by omega), heq]
      push_cast
      omega

/-- A message keeps the counts. -/
lemma Counted.countTurns (h : Counted mapGetBlocksRequests since) (m : GetBlocks) :
    Counted (countTurns m.addrName m.nFirst m.asked mapGetBlocksRequests).1 (m :: since) := by
  intro addrName n hn hlen
  unfold askedWith
  rw [lastWith_cons] at hlen ⊢
  cases hasked : m.asked with
  | zero =>
    -- nothing is counted
    rw [if_neg (by simp [hasked])] at hlen ⊢
    exact h addrName n hn hlen
  | succ k =>
    obtain ⟨c, hmap⟩ := @exists_countTurns m.addrName m.nFirst k mapGetBlocksRequests
    by_cases hpeer : m.addrName = addrName
    · subst hpeer
      rw [if_pos ⟨rfl, by omega⟩] at hlen ⊢
      by_cases hstart : m.nFirst = n
      · subst hstart
        rw [if_pos rfl] at hlen ⊢
        rw [List.length_cons] at hlen
        have hbefore := h m.addrName m.nFirst hn (by omega)
        have hle := m.asked_le
        unfold askedWith at hbefore
        rw [List.map_cons, List.sum_cons, List.length_cons, hasked]
        generalize ((lastWith m.addrName m.nFirst since).map asked).sum = total at hbefore ⊢
        generalize (lastWith m.addrName m.nFirst since).length = messages at hbefore hlen ⊢
        have hrange := hbefore.range
        exact hbefore.turns (countTurns_spec hn hrange.1 (by omega)).2
      · rw [if_neg hstart] at hlen ⊢
        rw [hmap, count_insert, if_pos rfl, if_neg hstart]
        exact ⟨fun _ => rfl, fun h0 => absurd h0 (by decide)⟩
    · rw [if_neg (fun hboth => hpeer hboth.1)] at hlen ⊢
      rw [hmap, count_insert, if_neg hpeer]
      exact h addrName n hn hlen

lemma counted_empty : Counted ∅ [] := by
  intro addrName n _ _
  have hcount : count addrName n ∅ = 0 := by simp [count]
  rw [hcount]
  exact ⟨fun _ => rfl, fun h0 => absurd h0 (Nat.not_lt_zero 100)⟩

/-- What the node has when it processes a message: the map of requests, and the messages since it
was cleared. -/
lemma Counted.cleared {s : GetBlocksState} (h : Counted s.mapGetBlocksRequests since)
    (m : GetBlocks) :
    Counted (if m.clears s then ∅ else s.mapGetBlocksRequests)
      (if m.clears s then [] else since) := by
  split_ifs
  · exact counted_empty
  · exact h

/-- The counts are right after every run. -/
lemma counted_received (ms : List GetBlocks) :
    Counted (received ms).1.mapGetBlocksRequests (received ms).2 := by
  induction ms using List.reverseRecOn with
  | nil => exact counted_empty
  | append_singleton ms m ih =>
    rw [received_concat, receive]
    have hmap := congrArg Prod.fst (process_counts m (received ms).1)
    dsimp only at hmap ⊢
    rw [hmap]
    exact (ih.cleared m).countTurns m

/-- A message of a peer that has not sent more than 100 messages with its start marks the peer
exactly if the last ones of them have asked for more than 100 blocks. -/
lemma Counted.marks_iff (h : Counted mapGetBlocksRequests since) (hstart : m.nFirst ≠ -1)
    (hsent : sent m.addrName m.nFirst (m :: since) ≤ 100) :
    (GetBlocks.countTurns m.addrName m.nFirst m.asked mapGetBlocksRequests).2 = true ↔
      100 < askedWith m.addrName m.nFirst (m :: since) := by
  have hpos := asked_ne_zero hstart
  have hlimit := m.asked_le
  obtain ⟨k, hasked⟩ := Nat.exists_eq_succ_of_ne_zero hpos
  have hlen := (length_lastWith_le m.addrName m.nFirst (m :: since)).trans hsent
  unfold askedWith
  rw [lastWith_cons, if_pos ⟨rfl, hpos⟩, if_pos rfl] at hlen ⊢
  rw [List.length_cons] at hlen
  have hbefore := h m.addrName m.nFirst hstart (by omega)
  have hrange := hbefore.range
  rw [List.map_cons, List.sum_cons, hasked, ← askedWith]
  rw [(countTurns_spec hstart hrange.1 (by omega)).1]
  rcases Nat.lt_or_ge 100 (askedWith m.addrName m.nFirst since) with hover | hexact
  · have hbounds := hbefore.above hover
    omega
  · have heq := hbefore.exact hexact
    omega

/-- In every run, a message disconnects the peer only if the peer has sent more than 100 messages
with its start since the map was cleared, exactly if the last ones of these have not asked for more
than 100 blocks, or there are more than 100 of them, or the message has no start. -/
theorem disconnects_iff (ms : List GetBlocks) (m : GetBlocks) :
    ((m.process true (received ms).1).fDisconnect = true →
        100 < sent m.addrName m.nFirst (received (ms ++ [m])).2) ↔
      m.nFirst = -1 ∨ askedWith m.addrName m.nFirst (received (ms ++ [m])).2 ≤ 100 ∨
        100 < sent m.addrName m.nFirst (received (ms ++ [m])).2 := by
  have hdisconnect := congrArg Prod.snd (process_counts m (received ms).1)
  have hsince : (received (ms ++ [m])).2
      = m :: if m.clears (received ms).1 then [] else (received ms).2 := by
    rw [received_concat]
    rfl
  dsimp only at hdisconnect
  rw [hdisconnect]
  by_cases hsent : 100 < sent m.addrName m.nFirst (received (ms ++ [m])).2
  · exact iff_of_true (fun _ => hsent) (Or.inr (Or.inr hsent))
  · by_cases hstart : m.nFirst = -1
    · refine iff_of_true (fun hmark => ?_) (Or.inl hstart)
      rw [hstart, countTurns_neg] at hmark
      cases hmark
    · have hmark := ((counted_received ms).cleared m).marks_iff hstart (hsince ▸ not_lt.mp hsent)
      rw [← hsince] at hmark
      rw [imp_iff_not hsent, hmark, not_lt]
      exact ⟨fun hle => Or.inr (Or.inl hle),
        fun hcond => (hcond.resolve_left hstart).resolve_right hsent⟩

/-! ## A peer that asks once -/

/-- The index of the block at a height of a chain. -/
def longIndex (n k : ℕ) : CBlockIndex :=
  { phashBlock := BitVec.ofNat 256 (k + 1), nHeight := Int32.ofNat k,
    pnext := if k < n then BitVec.ofNat 256 (k + 2) else 0 }

/-- A chain up to a height. -/
def longTree (n : ℕ) : BlockTree where
  mapBlockIndex := (List.range (n + 1)).foldl
    (fun mapBlockIndex k => mapBlockIndex.insert (BitVec.ofNat 256 (k + 1)) (longIndex n k)) ∅

/-- A message of a peer that has only the first block of a chain with 101 blocks after it. -/
def longRequest : GetBlocks where
  addrName := [0x31]
  vHave := []
  hashStop := 0
  tree := longTree 101
  pindexGenesisBlock := 1
  pindexBest := 102
  getTime _ := 1700000000

/-- The first message disconnects the peer. -/
theorem not_disconnects :
    ¬ ∀ (ms : List GetBlocks) (m : GetBlocks),
      (m.process true (received ms).1).fDisconnect = true →
        100 < sent m.addrName m.nFirst (received (ms ++ [m])).2 := by
  intro h
  have hsent := h [] longRequest (by decide +kernel)
  revert hsent
  decide +kernel

end GetBlocks

end HyperStake
