import HyperStake.Chain.BlockFile
import HyperStake.Chain.OrphanBlocks
import HyperStake.Formats

/-!
# Loading an external file of blocks

`LoadExternalBlockFile` looks for the message start in a file, in windows of 65536 bytes, reads the
size and the block after it, and gives the block to `ProcessBlock`, except for as many of the first
ones as the node has blocks.  After a block that is taken it goes on behind it, and after one that is
not taken behind the message start before it.

The position in the file is a number of 32 bits.  As long as the file is short enough for all
additions to it, the position gets higher in every turn and the loops end, whatever is in the file
(`FileLoader.exists_load`), and of a file of records the blocks are given to `ProcessBlock` in their
order (`FileLoader.offers_load`).  In a file of more than `2 ^ 32` bytes without the first byte of the
message start the search comes back to bytes that it has already seen, for ever
(`FileLoader.load_endless`).
-/

namespace HyperStake

open FieldReader

/-! ## The loops -/

/-- The serialisation type for a file. -/
def SER_DISK : UInt32 := 2 ^ 1

/-- A call of `LoadExternalBlockFile`: the height of the node before it, the rest of the node at each
call of `ProcessBlock`, and whether a shutdown is requested each time that the loops look. -/
structure FileLoader where
  hash : Bytes → UInt256
  hash9 : Bytes → UInt256
  fTestNet : Bool
  nBestHeight : Int32
  node : ℕ → BlockNode
  fRequestShutdown : ℕ → Bool

/-- The store, and the blocks that `ProcessBlock` has been called with. -/
structure Offers where
  store : BlockStore
  blocks : List CBlock := []

/-- The loops of `LoadExternalBlockFile`: the position, the number of blocks that are loaded, the
number of times that `fRequestShutdown` has been looked at, and the calls of `ProcessBlock`. -/
structure LoadState where
  nPos : UInt32 := 0
  nLoaded : Int32 := 0
  looks : ℕ := 0
  offers : Offers

/-- The position after which the loops end. -/
def noPos : UInt32 := 0xffffffff

/-- A turn of the search for the message start in a window of the file: whether the loop is left, and
the position. -/
def searchTurn (start file : Bytes) (nPos : UInt32) : Bool × UInt32 :=
  let pchData := (file.drop nPos.toNat).take 65536
  if pchData.length ≤ 8 then (true, noPos)
  else
    match (pchData.take (pchData.length + 1 - 4)).findIdx? fun c => start.head? == some c with
    | some nFind =>
      if (pchData.drop nFind).take 4 == start then (true, nPos + UInt32.ofNat (nFind + 4))
      else (false, nPos + UInt32.ofNat (nFind + 1))
    | none => (false, nPos + (65536 - 4 + 1))

/-- The search for the message start, in a number of turns at most. -/
def searchLoop (start file : Bytes) (fRequestShutdown : ℕ → Bool) :
    ℕ → ℕ → UInt32 → Option (ℕ × UInt32)
  | 0, _, _ => none
  | fuel + 1, looks, nPos =>
    match searchTurn start file nPos with
    | (true, nPos) => some (looks, nPos)
    | (false, nPos) =>
      if fRequestShutdown looks then some (looks + 1, nPos)
      else searchLoop start file fRequestShutdown fuel (looks + 1) nPos

namespace FileLoader

/-- Give a block to `ProcessBlock`, and once more after the signal for a reorganisation. -/
def offer (l : FileLoader) (block : CBlock) (o : Offers) : Offers × Except Fault Bool :=
  let first := processBlock l.hash l.hash9 (l.node o.blocks.length) block o.store
  let o := { store := first.store, blocks := o.blocks ++ [block] : Offers }
  match first.result with
  | .ok false =>
    if first.strErr = "reorg" then
      let second := processBlock l.hash l.hash9 (l.node o.blocks.length) block o.store
      ({ store := second.store, blocks := o.blocks ++ [block] }, second.result)
    else (o, .ok false)
  | result => (o, result)

/-- What is done with a block of a size that has been read.  The flag says whether the loop goes on;
an exception ends it. -/
def loadBlock (l : FileLoader) (nSize : UInt32) (block : CBlock) (s : LoadState) :
    Bool × LoadState :=
  let taken := { s with nLoaded := s.nLoaded + 1, nPos := s.nPos + (4 + nSize) }
  if s.nLoaded < l.nBestHeight then (true, taken)
  else
    match l.offer block s.offers with
    | (offers, .ok true) => (true, { taken with offers })
    | (offers, .ok false) => (true, { s with offers })
    | (offers, .error _) => (false, { s with offers })

/-- The part of a turn after the message start has been found: read the size and the block.  A read
that fails throws, and ends the loop. -/
def loadRecord (l : FileLoader) (file : Bytes) (s : LoadState) : Bool × LoadState :=
  match unserializeUInt32 0 (file.drop s.nPos.toNat) with
  | (_, .error _) => (false, s)
  | (nSize, .ok rest) =>
    if nSize > 0 ∧ nSize ≤ MAX_BLOCK_SIZE then
      match (Format.block SER_DISK).unserialize {} rest with
      | (_, .error _) => (false, s)
      | (block, .ok _) => l.loadBlock nSize block s
    else (true, s)

/-- The loop of `LoadExternalBlockFile`, in a number of turns at most. -/
def loadLoop (l : FileLoader) (file : Bytes) : ℕ → LoadState → Option LoadState
  | 0, _ => none
  | fuel + 1, s =>
    if s.nPos = noPos then some s
    else if l.fRequestShutdown s.looks then some { s with looks := s.looks + 1 }
    else
      match searchLoop (pchMessageStart l.fTestNet) file l.fRequestShutdown fuel (s.looks + 1)
        s.nPos with
      | none => none
      | some (looks, nPos) =>
        let s := { s with looks, nPos }
        if nPos = noPos then some s
        else
          match l.loadRecord file s with
          | (true, s) => loadLoop l file fuel s
          | (false, s) => some s

/-- `LoadExternalBlockFile`: whether blocks have been loaded, and the calls of `ProcessBlock`, if the
loops end in a number of turns. -/
def loadExternalBlockFile (l : FileLoader) (file : Bytes) (store : BlockStore) (fuel : ℕ) :
    Option (Bool × Offers) :=
  (l.loadLoop file fuel { offers := { store } }).map fun s => (decide (s.nLoaded > 0), s.offers)

end FileLoader

/-! ## A turn of the search -/

section Search

variable {start file gap next : Bytes} {nPos : UInt32} {fRequestShutdown : ℕ → Bool}

/-- The bytes of a file that are read at a position. -/
def window (file : Bytes) (nPos : UInt32) : Bytes := (file.drop nPos.toNat).take 65536

lemma length_window (file : Bytes) (nPos : UInt32) :
    (window file nPos).length = min 65536 (file.length - nPos.toNat) := by
  rw [window, List.length_take, List.length_drop]

/-- The two ways to go on from a window: at the first place of the first byte of the message start, or
behind all places that are searched. -/
lemma searchTurn_cases (start : Bytes) (hlength : 8 < (window file nPos).length) :
    (∃ i, i + 4 ≤ (window file nPos).length ∧ (window file nPos)[i]? = start.head? ∧
        (∀ j < i, (window file nPos)[j]? ≠ start.head?) ∧
        searchTurn start file nPos =
          if ((window file nPos).drop i).take 4 == start then (true, nPos + UInt32.ofNat (i + 4))
          else (false, nPos + UInt32.ofNat (i + 1))) ∨
      (∀ j, j + 4 ≤ (window file nPos).length → (window file nPos)[j]? ≠ start.head?) ∧
        searchTurn start file nPos = (false, nPos + (65536 - 4 + 1)) := by
  have hturn : searchTurn start file nPos =
      match ((window file nPos).take ((window file nPos).length + 1 - 4)).findIdx?
          fun c => start.head? == some c with
      | some nFind =>
        if ((window file nPos).drop nFind).take 4 == start then
          (true, nPos + UInt32.ofNat (nFind + 4))
        else (false, nPos + UInt32.ofNat (nFind + 1))
      | none => (false, nPos + (65536 - 4 + 1)) := if_neg (not_le.mpr hlength)
  rw [hturn]
  generalize window file nPos = w at hlength ⊢
  cases hfind : (w.take (w.length + 1 - 4)).findIdx? fun c => start.head? == some c with
  | some i =>
    obtain ⟨hi, hat, hbefore⟩ := List.findIdx?_eq_some_iff_getElem.mp hfind
    rw [List.length_take] at hi
    rw [List.getElem_take, beq_iff_eq] at hat
    refine Or.inl ⟨i, by omega, ?_, fun j hj heq => ?_, rfl⟩
    · rw [List.getElem?_eq_getElem (by omega), hat]
    · have hne := hbefore j hj
      rw [List.getElem_take, beq_iff_eq, ← heq, List.getElem?_eq_getElem (by omega)] at hne
      exact hne rfl
  | none =>
    refine Or.inr ⟨fun j hj heq => ?_, rfl⟩
    have hnone := List.findIdx?_eq_none_iff.mp hfind
    have hlt : j < w.length := by omega
    have hmem : w[j] ∈ w.take (w.length + 1 - 4) := by
      rw [List.mem_take_iff_getElem]
      exact ⟨j, by omega, rfl⟩
    have hne := hnone _ hmem
    rw [← heq, List.getElem?_eq_getElem hlt, beq_self_eq_true] at hne
    cases hne

/-- Adding to a position. -/
lemma toNat_nPos_add {k : ℕ} (hlt : nPos.toNat + k < 2 ^ 32) :
    (nPos + UInt32.ofNat k).toNat = nPos.toNat + k := by
  rw [UInt32.toNat_add, UInt32.toNat_ofNat_of_lt' (by rw [UInt32.size]; omega),
    Nat.mod_eq_of_lt hlt]

/-- No message start begins in some bytes that others come after. -/
def NoStart (start gap rest : Bytes) : Prop :=
  ∀ i < gap.length, ¬ start <+: (gap ++ rest).drop i

instance instDecidableNoStart (start gap rest : Bytes) : Decidable (NoStart start gap rest) :=
  inferInstanceAs (Decidable (∀ i < gap.length, ¬ start <+: (gap ++ rest).drop i))

variable {tail : Bytes}

/-- What comes after a message start makes no difference. -/
lemma NoStart.append (h : NoStart start gap start) : NoStart start gap (start ++ tail) := by
  intro i hi hprefix
  refine h i hi ?_
  rw [List.drop_append_of_le_length hi.le] at hprefix ⊢
  rw [← List.append_assoc] at hprefix
  refine List.prefix_of_prefix_length_le hprefix (List.prefix_append _ tail) ?_
  rw [List.length_append]
  exact Nat.le_add_left _ _

lemma NoStart.drop (h : NoStart start gap next) (k : ℕ) : NoStart start (gap.drop k) next := by
  intro i hi hprefix
  rw [List.length_drop] at hi
  refine h (k + i) (by omega) ?_
  rw [← List.drop_drop, List.drop_append_of_le_length (by omega)]
  exact hprefix

/-- A turn that goes on has gone forward in the file. -/
lemma searchTurn_progress {leaves : Bool} {nPos' : UInt32} (hfile : file.length + 65536 < 2 ^ 32)
    (hturn : searchTurn start file nPos = (leaves, nPos')) :
    leaves = true ∧ nPos' = noPos ∨
      nPos.toNat < nPos'.toNat ∧ nPos.toNat + 8 < file.length := by
  by_cases hshort : (window file nPos).length ≤ 8
  · have hend : searchTurn start file nPos = (true, noPos) := if_pos hshort
    rw [hend] at hturn
    cases hturn
    exact Or.inl ⟨rfl, rfl⟩
  · rw [not_le] at hshort
    have hinside : nPos.toNat + 8 < file.length := by
      rw [length_window] at hshort
      omega
    refine Or.inr ⟨?_, hinside⟩
    have hw := length_window file nPos
    rcases searchTurn_cases start hshort with ⟨i, hi, -, -, heq⟩ | ⟨-, heq⟩
    · rw [heq] at hturn
      split_ifs at hturn
      · cases hturn
        rw [toNat_nPos_add (by omega)]
        omega
      · cases hturn
        rw [toNat_nPos_add (by omega)]
        omega
    · rw [heq] at hturn
      cases hturn
      have hstep : (65536 - 4 + 1 : UInt32) = UInt32.ofNat 65533 := by decide
      rw [hstep, toNat_nPos_add (by omega)]
      omega

/-- A turn in front of a message start: it is found, or the place is not yet behind the bytes before
it. -/
lemma searchTurn_before (hstart : start.length = 4)
    (hdrop : file.drop nPos.toNat = gap ++ (start ++ tail)) (htail : 5 ≤ tail.length)
    (hgap : NoStart start gap (start ++ tail)) :
    searchTurn start file nPos = (true, nPos + UInt32.ofNat (gap.length + 4)) ∨
      ∃ k, 0 < k ∧ k ≤ gap.length ∧ searchTurn start file nPos = (false, nPos + UInt32.ofNat k) := by
  have hlength := congrArg List.length hdrop
  rw [List.length_append, List.length_append, List.length_drop, hstart] at hlength
  have hw := length_window file nPos
  have hwindow : window file nPos = (gap ++ (start ++ tail)).take 65536 := by rw [window, hdrop]
  have hfirst : gap.length + 4 ≤ (window file nPos).length →
      (window file nPos)[gap.length]? = start.head? := by
    intro hle
    rw [hwindow, List.getElem?_take_of_lt (by omega), List.getElem?_append_right le_rfl,
      Nat.sub_self, List.getElem?_append_left (by omega), List.head?_eq_getElem?]
  rcases searchTurn_cases start (by rw [hw]; omega) with
    ⟨i, hi, -, hbefore, heq⟩ | ⟨hnone, heq⟩
  · have hle : i ≤ gap.length := by
      by_contra hgt
      exact hbefore gap.length (by omega) (hfirst (by omega))
    rcases Nat.lt_or_eq_of_le hle with hlt | rfl
    · -- the first byte is there, but not the others
      refine Or.inr ⟨i + 1, by omega, by omega, ?_⟩
      rw [heq, if_neg]
      intro hsame
      rw [beq_iff_eq, hwindow, List.drop_take, List.take_take] at hsame
      have hprefix := List.take_prefix (min 4 (65536 - i)) ((gap ++ (start ++ tail)).drop i)
      rw [hsame] at hprefix
      exact hgap i hlt hprefix
    · refine Or.inl ?_
      have hsame : ((window file nPos).drop gap.length).take 4 = start := by
        rw [hwindow, List.drop_take, List.drop_left, List.take_take,
          List.take_append_of_le_length (by omega), List.take_of_length_le (by omega)]
      rw [heq, hsame, beq_self_eq_true, if_pos rfl]
  · refine Or.inr ⟨65533, by omega, ?_, heq⟩
    by_contra hgt
    exact hnone gap.length (by omega) (hfirst (by omega))

/-- A turn in bytes without a message start. -/
lemma searchTurn_last (hdrop : file.drop nPos.toNat = gap) (hgap : NoStart start gap []) :
    searchTurn start file nPos = (true, noPos) ∨ nPos.toNat + 8 < file.length ∧
      ∃ k ≤ 65533, searchTurn start file nPos = (false, nPos + UInt32.ofNat k) := by
  by_cases hshort : (window file nPos).length ≤ 8
  · exact Or.inl (if_pos hshort)
  · rw [not_le] at hshort
    have hw := length_window file nPos
    refine Or.inr ⟨by omega, ?_⟩
    have hlength := congrArg List.length hdrop
    rw [List.length_drop] at hlength
    rcases searchTurn_cases start hshort with ⟨i, hi, -, -, heq⟩ | ⟨-, heq⟩
    · refine ⟨i + 1, by omega, ?_⟩
      rw [heq, if_neg]
      intro hsame
      rw [beq_iff_eq, window, hdrop] at hsame
      refine hgap i (by omega) ?_
      rw [← hsame, List.append_nil, List.drop_take, List.take_take]
      exact List.take_prefix _ _
    · exact ⟨65533, le_rfl, heq⟩

/-! ## The loops end -/

lemma exists_fuel {n fuel : ℕ} (h : n < fuel) : ∃ m, fuel = m + 1 :=
  Nat.exists_eq_add_one_of_ne_zero (Nat.ne_zero_of_lt h)

/-- The search ends, and if it does not end at the end of the file, it has gone forward. -/
lemma exists_searchLoop (hfile : file.length + 65536 < 2 ^ 32) (looks : ℕ) :
    ∃ looks' nPos', (∀ fuel, file.length - nPos.toNat < fuel →
        searchLoop start file fRequestShutdown fuel looks nPos = some (looks', nPos')) ∧
      (nPos' = noPos ∨ nPos.toNat < nPos'.toNat ∧ nPos.toNat < file.length) := by
  induction hn : file.length - nPos.toNat using Nat.strong_induction_on generalizing nPos looks with
  | _ n ih =>
  rcases hturn : searchTurn start file nPos with ⟨leaves, nPos'⟩
  have hprogress := searchTurn_progress hfile hturn
  cases leaves with
  | true =>
    refine ⟨looks, nPos', fun fuel hfuel => ?_, ?_⟩
    · obtain ⟨fuel, rfl⟩ := exists_fuel hfuel
      rw [searchLoop, hturn]
    · rcases hprogress with ⟨-, hend⟩ | ⟨hforward, hinside⟩
      · exact Or.inl hend
      · exact Or.inr ⟨hforward, by omega⟩
  | false =>
    obtain ⟨hforward, hinside⟩ := hprogress.resolve_left fun h => Bool.false_ne_true h.1
    cases hshutdown : fRequestShutdown looks with
    | true =>
      refine ⟨looks + 1, nPos', fun fuel hfuel => ?_, Or.inr ⟨hforward, by omega⟩⟩
      obtain ⟨fuel, rfl⟩ := exists_fuel hfuel
      rw [searchLoop, hturn]
      exact if_pos hshutdown
    | false =>
      have hless : file.length - nPos'.toNat < n := by omega
      obtain ⟨looks', nPos'', hloop, hend⟩ := ih _ hless (looks + 1) rfl
      refine ⟨looks', nPos'', fun fuel hfuel => ?_, hend.imp_right fun h => ⟨by omega, by omega⟩⟩
      obtain ⟨fuel, rfl⟩ := exists_fuel hfuel
      rw [searchLoop, hturn]
      have hnot : ¬ fRequestShutdown looks = true := by
        rw [hshutdown]
        exact Bool.false_ne_true
      exact (if_neg hnot).trans (hloop fuel (by omega))

/-! ## What the search finds -/

variable {looks looks' fuel : ℕ} {nPos' : UInt32}

section

variable (hfile : file.length + 65536 < 2 ^ 32) (hrun : ∀ i, fRequestShutdown i = false)

include hfile hrun

/-- In front of a message start, the search ends behind it. -/
lemma searchLoop_before (hstart : start.length = 4)
    (hdrop : file.drop nPos.toNat = gap ++ (start ++ tail)) (htail : 5 ≤ tail.length)
    (hgap : NoStart start gap (start ++ tail))
    (hloop : searchLoop start file fRequestShutdown fuel looks nPos = some (looks', nPos')) :
    nPos'.toNat = nPos.toNat + gap.length + 4 := by
  induction fuel generalizing looks nPos gap with
  | zero => cases hloop
  | succ fuel ih =>
    have hlength := congrArg List.length hdrop
    rw [List.length_append, List.length_append, List.length_drop, hstart] at hlength
    rcases searchTurn_before hstart hdrop htail hgap with hturn | ⟨k, hpos, hk, hturn⟩
    · rw [searchLoop, hturn] at hloop
      cases hloop
      rw [toNat_nPos_add (by omega)]
      omega
    · have hnext : (nPos + UInt32.ofNat k).toNat = nPos.toNat + k := toNat_nPos_add (by omega)
      rw [searchLoop, hturn] at hloop
      dsimp only at hloop
      rw [hrun, if_neg Bool.false_ne_true] at hloop
      have hdrop' : file.drop (nPos + UInt32.ofNat k).toNat = gap.drop k ++ (start ++ tail) := by
        rw [hnext, ← List.drop_drop, hdrop, List.drop_append_of_le_length hk]
      have hrest := ih hdrop' (hgap.drop k) hloop
      rw [hnext, List.length_drop] at hrest
      omega

/-- In bytes without a message start, the search ends at the end of the file. -/
lemma searchLoop_last (hgap : NoStart start (file.drop nPos.toNat) [])
    (hloop : searchLoop start file fRequestShutdown fuel looks nPos = some (looks', nPos')) :
    nPos' = noPos := by
  induction fuel generalizing looks nPos with
  | zero => cases hloop
  | succ fuel ih =>
    rcases searchTurn_last rfl hgap with hturn | ⟨hinside, k, hk, hturn⟩
    · rw [searchLoop, hturn] at hloop
      cases hloop
      rfl
    · rw [searchLoop, hturn] at hloop
      dsimp only at hloop
      rw [hrun, if_neg Bool.false_ne_true] at hloop
      refine ih ?_ hloop
      rw [toNat_nPos_add (by omega), ← List.drop_drop]
      exact hgap.drop k

end

/-- In a long file without the first byte of the message start, the search does not end: the position
goes through all numbers of 32 bits again and again. -/
lemma searchLoop_endless (hlength : 2 ^ 32 + 8 ≤ file.length)
    (hnone : ∀ c ∈ file, start.head? ≠ some c) (hrun : ∀ i, fRequestShutdown i = false)
    (fuel looks : ℕ) (nPos : UInt32) :
    searchLoop start file fRequestShutdown fuel looks nPos = none := by
  induction fuel generalizing looks nPos with
  | zero => rfl
  | succ fuel ih =>
    have hw := length_window file nPos
    have hpos := nPos.toNat_lt
    rcases searchTurn_cases start (by rw [hw]; omega) with
      ⟨i, hi, hat, -⟩ | ⟨-, hturn⟩
    · rw [List.getElem?_eq_getElem (by omega)] at hat
      have hmem : (window file nPos)[i] ∈ file :=
        List.mem_of_mem_drop (List.mem_of_mem_take (List.getElem_mem _))
      exact absurd hat.symm (hnone _ hmem)
    · rw [searchLoop, hturn]
      dsimp only
      rw [hrun, if_neg Bool.false_ne_true]
      exact ih _ _

end Search

section Load

variable {l : FileLoader} {file : Bytes} {s s' : LoadState}

/-- A block that is taken moves the position behind it, and one that is not leaves it. -/
lemma loadBlock_progress {nSize : UInt32} {block : CBlock} {goes : Bool}
    (hturn : l.loadBlock nSize block s = (goes, s')) :
    s'.nPos = s.nPos ∨ s'.nPos = s.nPos + (4 + nSize) := by
  unfold FileLoader.loadBlock at hturn
  by_cases hskip : s.nLoaded < l.nBestHeight
  · rw [if_pos hskip] at hturn
    cases hturn
    exact Or.inr rfl
  · rw [if_neg hskip] at hturn
    rcases hoffer : l.offer block s.offers with ⟨offers, e | fTaken⟩
    · rw [hoffer] at hturn
      cases hturn
      exact Or.inl rfl
    · rw [hoffer] at hturn
      cases fTaken
      · cases hturn
        exact Or.inl rfl
      · cases hturn
        exact Or.inr rfl

/-- Four bytes are there if a size is read. -/
lemma length_of_unserializeUInt32 {vch rest : Bytes} {nSize : UInt32}
    (hread : unserializeUInt32 0 vch = (nSize, .ok rest)) : 4 ≤ vch.length := by
  unfold unserializeUInt32 unserializeInt CDataStream.read at hread
  by_contra hshort
  rw [if_neg hshort] at hread
  cases hread

/-- A turn that goes on after the message start has been found does not go back. -/
lemma loadRecord_progress {goes : Bool} (hfile : file.length + MAX_BLOCK_SIZE.toNat < 2 ^ 32)
    (hturn : l.loadRecord file s = (goes, s')) : goes = false ∨ s.nPos.toNat ≤ s'.nPos.toNat := by
  unfold FileLoader.loadRecord at hturn
  rcases hread : unserializeUInt32 0 (file.drop s.nPos.toNat) with ⟨nSize, e | rest⟩
  · rw [hread] at hturn
    cases hturn
    exact Or.inl rfl
  · rw [hread] at hturn
    dsimp only at hturn
    split_ifs at hturn with hsize
    · rcases hblock : (Format.block SER_DISK).unserialize {} rest with ⟨block, e | rest'⟩
      · rw [hblock] at hturn
        cases hturn
        exact Or.inl rfl
      · rw [hblock] at hturn
        refine Or.inr ?_
        rcases loadBlock_progress hturn with heq | heq
        · exact heq.symm ▸ le_rfl
        · have hfour := length_of_unserializeUInt32 hread
          rw [List.length_drop] at hfour
          have hle := UInt32.le_iff_toNat_le.mp hsize.2
          have hsum : (4 + nSize).toNat = 4 + nSize.toNat := by
            have hmax : MAX_BLOCK_SIZE.toNat = 1000000 := by decide
            have hfour' : (4 : UInt32).toNat = 4 := rfl
            rw [UInt32.toNat_add, hfour', Nat.mod_eq_of_lt (by omega)]
          rw [heq, UInt32.toNat_add, hsum, Nat.mod_eq_of_lt (by omega)]
          exact Nat.le_add_right _ _
    · cases hturn
      exact Or.inr le_rfl

/-- The loops end, whatever is in the file. -/
lemma exists_loadLoop (hfile : file.length + MAX_BLOCK_SIZE.toNat < 2 ^ 32) (s : LoadState) :
    ∃ s', ∀ fuel, file.length - s.nPos.toNat + 1 < fuel → l.loadLoop file fuel s = some s' := by
  induction hn : file.length - s.nPos.toNat using Nat.strong_induction_on generalizing s with
  | _ n ih =>
  have hmax : MAX_BLOCK_SIZE.toNat = 1000000 := by decide
  by_cases hend : s.nPos = noPos
  · refine ⟨s, fun fuel hfuel => ?_⟩
    obtain ⟨fuel, rfl⟩ := exists_fuel hfuel
    exact if_pos hend
  by_cases hshutdown : l.fRequestShutdown s.looks = true
  · refine ⟨{ s with looks := s.looks + 1 }, fun fuel hfuel => ?_⟩
    obtain ⟨fuel, rfl⟩ := exists_fuel hfuel
    exact (if_neg hend).trans (if_pos hshutdown)
  obtain ⟨looks, nPos, hsearch, hnPos⟩ :
      ∃ looks nPos, (∀ fuel, file.length - s.nPos.toNat < fuel →
          searchLoop (pchMessageStart l.fTestNet) file l.fRequestShutdown fuel (s.looks + 1)
            s.nPos = some (looks, nPos)) ∧
        (nPos = noPos ∨ s.nPos.toNat < nPos.toNat ∧ s.nPos.toNat < file.length) :=
    exists_searchLoop (by omega) (s.looks + 1)
  have hloop : ∀ fuel, file.length - s.nPos.toNat < fuel → l.loadLoop file (fuel + 1) s =
      if nPos = noPos then some { s with looks, nPos }
      else
        match l.loadRecord file { s with looks, nPos } with
        | (true, s) => l.loadLoop file fuel s
        | (false, s) => some s := by
    intro fuel hfuel
    rw [FileLoader.loadLoop, if_neg hend, if_neg hshutdown, hsearch fuel hfuel]
  by_cases hlast : nPos = noPos
  · refine ⟨{ s with looks, nPos }, fun fuel hfuel => ?_⟩
    obtain ⟨fuel, rfl⟩ := exists_fuel hfuel
    rw [hloop fuel (by omega), if_pos hlast]
  · obtain ⟨hforward, hinside⟩ := hnPos.resolve_left hlast
    rcases hrecord : l.loadRecord file { s with looks, nPos } with ⟨goes, s₁⟩
    cases goes with
    | false =>
      refine ⟨s₁, fun fuel hfuel => ?_⟩
      obtain ⟨fuel, rfl⟩ := exists_fuel hfuel
      rw [hloop fuel (by omega), if_neg hlast, hrecord]
    | true =>
      have hkept : nPos.toNat ≤ s₁.nPos.toNat :=
        (loadRecord_progress hfile hrecord).resolve_left fun h => (by cases h)
      have hless : file.length - s₁.nPos.toNat < n := by omega
      obtain ⟨s', hs'⟩ := ih _ hless s₁ rfl
      refine ⟨s', fun fuel hfuel => ?_⟩
      obtain ⟨fuel, rfl⟩ := exists_fuel hfuel
      rw [hloop fuel (by omega), if_neg hlast, hrecord]
      exact hs' fuel (by omega)

end Load

/-! ## Files of records -/

/-- A block in a file, with a size within the limits.  The bytes are not always those that the block
is serialised to. -/
structure BlockRecord where
  block : CBlock
  body : Bytes
  size_pos : 0 < body.length
  size_le : body.length ≤ MAX_BLOCK_SIZE.toNat
  complete : ∀ rest, ∃ rest', (Format.block SER_DISK).unserialize {} (body ++ rest) =
    (block, .ok rest')

namespace BlockRecord

/-- The bytes of a block in a file. -/
lemma serialize_block (block : CBlock) : (Format.block SER_DISK).serialize block =
    Format.serializeHeader block ++ (serializeVector CTransaction.serialize block.vtx ++
      Format.script.serialize block.vchBlockSig) := by
  have hbody : SER_DISK &&& (Format.SER_GETHASH ||| Format.SER_BLOCKHEADERONLY) = 0 := by decide
  rw [Format.block, if_pos hbody]

/-- A block that is not too large is read back from its bytes. -/
lemma fits_block {block : CBlock}
    (hle : ((Format.block SER_DISK).serialize block).length ≤ MAX_BLOCK_SIZE.toNat) :
    (Format.block SER_DISK).Fits block := by
  have hbody : SER_DISK &&& (Format.SER_GETHASH ||| Format.SER_BLOCKHEADERONLY) = 0 := by decide
  have hmax : MAX_BLOCK_SIZE.toNat = 1000000 := by decide
  have hsize : MAX_SIZE = 0x02000000 := rfl
  have hvtx : (block.vtx.flatMap CTransaction.serialize).length ≤ MAX_SIZE ∧
      (block.vchBlockSig.flatMap Fundamental.char.bytes).length ≤ MAX_SIZE := by
    rw [serialize_block] at hle
    simp only [Format.script, Fundamental.vectorFormat, serializeVector, List.length_append] at hle
    omega
  rw [Format.block, if_pos hbody]
  refine ⟨⟨?_, fun tx hmem => ?_⟩, ?_⟩
  · refine (length_le_length_flatMap (fun tx => ?_) block.vtx).trans hvtx.1
    simp only [CTransaction.serialize, serializeInt32, List.length_append,
      LittleEndian.leBytes_length]
    omega
  · exact CTransaction.fits_of_length_le ((length_serialize_le hmem).trans hvtx.1)
  · refine (length_le_length_flatMap (fun c => ?_) block.vchBlockSig).trans hvtx.2
    simp [Fundamental.bytes, Fundamental.char]

/-- The record of a block with the bytes that it is serialised to. -/
def ofBlock (block : CBlock)
    (hle : ((Format.block SER_DISK).serialize block).length ≤ MAX_BLOCK_SIZE.toNat) :
    BlockRecord where
  block := block
  body := (Format.block SER_DISK).serialize block
  size_pos := by
    rw [serialize_block, List.length_append, Format.length_serializeHeader]
    exact Nat.lt_of_lt_of_le (by decide) (Nat.le_add_right 80 _)
  size_le := hle
  complete rest := ⟨rest, (Format.lawful_block SER_DISK).consumes block (fits_block hle) {} rest⟩

/-- The size and the block. -/
def sized (r : BlockRecord) : Bytes := serializeUInt32 (UInt32.ofNat r.body.length) ++ r.body

/-- Records, each with the bytes after it, behind some bytes. -/
def join (start gap : Bytes) : List (BlockRecord × Bytes) → Bytes
  | [] => gap
  | (r, after) :: rest => gap ++ (start ++ (r.sized ++ join start after rest))

/-- No message start begins in the bytes between the records. -/
def Separated (start gap : Bytes) : List (BlockRecord × Bytes) → Prop
  | [] => NoStart start gap []
  | (_, after) :: rest => NoStart start gap start ∧ Separated start after rest

end BlockRecord

/-- The calls of `ProcessBlock` for the blocks of records do not throw, and if the last call for a
block does not take it, no message start begins in the rest of the record and the bytes after it. -/
def FileLoader.GoesOn (l : FileLoader) : Offers → List (BlockRecord × Bytes) → Prop
  | _, [] => True
  | o, (r, after) :: rest =>
    ((l.offer r.block o).2 = .ok true ∨ (l.offer r.block o).2 = .ok false ∧
      BlockRecord.Separated (pchMessageStart l.fTestNet) (r.sized ++ after) rest) ∧
    l.GoesOn (l.offer r.block o).1 rest

/-- The calls of `ProcessBlock` for blocks in their order. -/
def FileLoader.offerAll (l : FileLoader) (blocks : List CBlock) (o : Offers) : Offers :=
  blocks.foldl (fun o block => (l.offer block o).1) o

section Records

variable {l : FileLoader} {s s' : LoadState} {file gap after : Bytes} {r : BlockRecord}
  {rest : List (BlockRecord × Bytes)}

/-- Reading a record. -/
lemma loadRecord_eq {tail : Bytes} (hdrop : file.drop s.nPos.toNat = r.sized ++ tail) :
    l.loadRecord file s = l.loadBlock (UInt32.ofNat r.body.length) r.block s := by
  have hmax : MAX_BLOCK_SIZE.toNat = 1000000 := by decide
  have hle := r.size_le
  have hpos := r.size_pos
  have hsize : (UInt32.ofNat r.body.length).toNat = r.body.length :=
    UInt32.toNat_ofNat_of_lt' (by rw [UInt32.size]; omega)
  obtain ⟨rest', hread⟩ := r.complete tail
  have hn := consumes_unserializeUInt32 (UInt32.ofNat r.body.length) 0 (r.body ++ tail)
  unfold FileLoader.loadRecord
  rw [hdrop, BlockRecord.sized, List.append_assoc, hn]
  dsimp only
  rw [hread, if_pos]
  rw [gt_iff_lt, UInt32.lt_iff_toNat_lt, UInt32.le_iff_toNat_le, hsize]
  exact ⟨hpos, hle⟩

variable {nSize : UInt32} {block : CBlock}

/-- A block that the node has is passed. -/
lemma loadBlock_skip (hskip : s.nLoaded < l.nBestHeight) :
    ∃ s₁, l.loadBlock nSize block s = (true, s₁) ∧ s₁.nPos = s.nPos + (4 + nSize) ∧
      s₁.nLoaded = s.nLoaded + 1 ∧ s₁.offers = s.offers := by
  rw [FileLoader.loadBlock, if_pos hskip]
  exact ⟨_, rfl, rfl, rfl, rfl⟩

/-- A block that is taken is passed. -/
lemma loadBlock_taken (hskip : ¬ s.nLoaded < l.nBestHeight)
    (htaken : (l.offer block s.offers).2 = .ok true) :
    ∃ s₁, l.loadBlock nSize block s = (true, s₁) ∧ s₁.nPos = s.nPos + (4 + nSize) ∧
      s₁.nLoaded = s.nLoaded + 1 ∧ s₁.offers = (l.offer block s.offers).1 := by
  rw [FileLoader.loadBlock, if_neg hskip]
  rcases hoffer : l.offer block s.offers with ⟨offers, result⟩
  rw [hoffer] at htaken
  cases htaken
  exact ⟨_, rfl, rfl, rfl, rfl⟩

/-- A block that is not taken leaves the position. -/
lemma loadBlock_refused (hskip : ¬ s.nLoaded < l.nBestHeight)
    (hrefused : (l.offer block s.offers).2 = .ok false) :
    ∃ s₁, l.loadBlock nSize block s = (true, s₁) ∧ s₁.nPos = s.nPos ∧ s₁.nLoaded = s.nLoaded ∧
      s₁.offers = (l.offer block s.offers).1 := by
  rw [FileLoader.loadBlock, if_neg hskip]
  rcases hoffer : l.offer block s.offers with ⟨offers, result⟩
  rw [hoffer] at hrefused
  cases hrefused
  exact ⟨_, rfl, rfl, rfl, rfl⟩

lemma BlockRecord.length_sized (r : BlockRecord) : r.sized.length = 4 + r.body.length := by
  rw [sized, List.length_append, serializeUInt32, LittleEndian.leBytes_length]

/-- Bytes in front of a file of records belong to the first gap. -/
lemma BlockRecord.join_append (start before gap : Bytes) (records : List (BlockRecord × Bytes)) :
    join start (before ++ gap) records = before ++ join start gap records := by
  cases records with
  | nil => rfl
  | cons record rest => exact List.append_assoc _ _ _

/-- A record has more than eight bytes. -/
lemma BlockRecord.length_le_join {start : Bytes} (hstart : start.length = 4) (gap : Bytes)
    (records : List (BlockRecord × Bytes)) :
    9 * records.length ≤ (join start gap records).length := by
  induction records generalizing gap with
  | nil => exact Nat.zero_le _
  | cons record rest ih =>
    have hrest := ih record.2
    have hpos := record.1.size_pos
    have hsized := record.1.length_sized
    simp only [join, List.length_append, List.length_cons]
    omega

lemma length_pchMessageStart (fTestNet : Bool) : (pchMessageStart fTestNet).length = 4 := by
  cases fTestNet <;> rfl

/-- The number of loaded blocks, one higher. -/
lemma toInt_add_one {n : Int32} (hlow : 0 ≤ n.toInt) (hhigh : n.toInt + 1 < 2 ^ 31) :
    (n + 1).toInt = n.toInt + 1 := by
  have hone : (1 : Int32).toInt = 1 := by decide
  rw [Int32.toInt_add, hone, Int.bmod_eq_of_le] <;> omega

section

variable (hfile : file.length + MAX_BLOCK_SIZE.toNat < 2 ^ 32)

include hfile

variable {fuel : ℕ}

section

variable (hrun : ∀ i, l.fRequestShutdown i = false) (hinside : s.nPos.toNat ≤ file.length)

include hrun hinside

/-- A turn of the loop after which it has ended: there is a search that has ended. -/
lemma loadLoop_eq_some (hloop : l.loadLoop file fuel s = some s') :
    ∃ fuel' looks nPos, fuel = fuel' + 1 ∧
      searchLoop (pchMessageStart l.fTestNet) file l.fRequestShutdown fuel' (s.looks + 1) s.nPos =
        some (looks, nPos) ∧
      (if nPos = noPos then some { s with looks, nPos }
      else
        match l.loadRecord file { s with looks, nPos } with
        | (true, s) => l.loadLoop file fuel' s
        | (false, s) => some s) = some s' := by
  have hmax : MAX_BLOCK_SIZE.toNat = 1000000 := by decide
  have hno : noPos.toNat = 4294967295 := rfl
  cases fuel with
  | zero => cases hloop
  | succ fuel =>
    have hne : s.nPos ≠ noPos := by
      intro heq
      rw [heq] at hinside
      omega
    have hnot : ¬ l.fRequestShutdown s.looks = true := by
      rw [hrun]
      exact Bool.false_ne_true
    rw [FileLoader.loadLoop, if_neg hne, if_neg hnot] at hloop
    cases hsearch : searchLoop (pchMessageStart l.fTestNet) file l.fRequestShutdown fuel
        (s.looks + 1) s.nPos with
    | none =>
      rw [hsearch] at hloop
      cases hloop
    | some found =>
      rw [hsearch] at hloop
      exact ⟨fuel, found.1, found.2, rfl, hsearch, hloop⟩

/-- The turn of the loop for a record. -/
lemma loadLoop_record
    (hdrop : file.drop s.nPos.toNat =
      BlockRecord.join (pchMessageStart l.fTestNet) gap ((r, after) :: rest))
    (hgap : NoStart (pchMessageStart l.fTestNet) gap (pchMessageStart l.fTestNet))
    (hloop : l.loadLoop file fuel s = some s') :
    ∃ fuel' looks nPos, fuel = fuel' + 1 ∧ nPos.toNat ≤ file.length ∧
      file.drop nPos.toNat = r.sized ++ BlockRecord.join (pchMessageStart l.fTestNet) after rest ∧
      (match l.loadBlock (UInt32.ofNat r.body.length) r.block { s with looks, nPos } with
        | (true, s) => l.loadLoop file fuel' s
        | (false, s) => some s) = some s' := by
  have hmax : MAX_BLOCK_SIZE.toNat = 1000000 := by decide
  have hno : noPos.toNat = 4294967295 := rfl
  obtain ⟨fuel', looks, nPos, hfuel, hsearch, hrest⟩ := loadLoop_eq_some hfile hrun hinside hloop
  have hpos := r.size_pos
  have hsized := r.length_sized
  have hfour := length_pchMessageStart l.fTestNet
  have hlength := congrArg List.length hdrop
  rw [BlockRecord.join] at hdrop hlength
  rw [List.length_drop, List.length_append, List.length_append, List.length_append] at hlength
  have hfound := searchLoop_before (by omega) hrun hfour hdrop
    (by rw [List.length_append]; omega) hgap.append hsearch
  have hnext : nPos ≠ noPos := by
    intro heq
    rw [heq] at hfound
    omega
  have hrecord : file.drop nPos.toNat =
      r.sized ++ BlockRecord.join (pchMessageStart l.fTestNet) after rest := by
    rw [hfound, Nat.add_assoc, ← List.drop_drop, hdrop, ← List.drop_drop, List.drop_left,
      ← hfour, List.drop_left]
  rw [if_neg hnext, loadRecord_eq hrecord] at hrest
  exact ⟨fuel', looks, nPos, hfuel, by omega, hrecord, hrest⟩

end

/-- The position behind a record. -/
lemma drop_behind {nPos : UInt32} {tail : Bytes} (hinside : nPos.toNat ≤ file.length)
    (hrecord : file.drop nPos.toNat = r.sized ++ tail) :
    (nPos + (4 + UInt32.ofNat r.body.length)).toNat ≤ file.length ∧
      file.drop (nPos + (4 + UInt32.ofNat r.body.length)).toNat = tail := by
  have hsized := r.length_sized
  have hlength := congrArg List.length hrecord
  rw [List.length_drop, List.length_append] at hlength
  have hsize : (nPos + (4 + UInt32.ofNat r.body.length)).toNat =
      nPos.toNat + (4 + r.body.length) := by
    have hsum : 4 + UInt32.ofNat r.body.length = UInt32.ofNat (4 + r.body.length) := by
      rw [UInt32.ofNat_add]
      rfl
    rw [hsum, toNat_nPos_add (by omega)]
  rw [hsize, ← List.drop_drop, hrecord, ← hsized, List.drop_left]
  exact ⟨by omega, rfl⟩

/-- What the loop does with the file from a record on. -/
lemma offers_loadLoop {records : List (BlockRecord × Bytes)}
    (hrun : ∀ i, l.fRequestShutdown i = false) (hinside : s.nPos.toNat ≤ file.length)
    (hdrop : file.drop s.nPos.toNat = BlockRecord.join (pchMessageStart l.fTestNet) gap records)
    (hgap : BlockRecord.Separated (pchMessageStart l.fTestNet) gap records)
    (hlow : 0 ≤ s.nLoaded.toInt) (hhigh : s.nLoaded.toInt + records.length < 2 ^ 31)
    (hgoes : l.GoesOn s.offers
      (records.drop (l.nBestHeight.toInt - s.nLoaded.toInt).toNat))
    (hloop : l.loadLoop file fuel s = some s') :
    s'.offers = l.offerAll ((records.drop (l.nBestHeight.toInt - s.nLoaded.toInt).toNat).map
      fun record => record.1.block) s.offers := by
  induction fuel generalizing s gap records with
  | zero => cases hloop
  | succ fuel ih =>
  cases records with
  | nil =>
    obtain ⟨fuel', looks, nPos, -, hsearch, hrest⟩ := loadLoop_eq_some hfile hrun hinside hloop
    have hmax : MAX_BLOCK_SIZE.toNat = 1000000 := by decide
    rw [BlockRecord.join] at hdrop
    rw [BlockRecord.Separated, ← hdrop] at hgap
    rw [if_pos (searchLoop_last (by omega) hrun hgap hsearch)] at hrest
    cases hrest
    rw [List.drop_nil]
    rfl
  | cons record rest =>
    obtain ⟨r, after⟩ := record
    obtain ⟨hstart, hrest⟩ := hgap
    obtain ⟨fuel', looks, nPos, hfuel, hat, hrecord, hturn⟩ :=
      loadLoop_record hfile hrun hinside hdrop hstart hloop
    obtain rfl := Nat.succ.inj hfuel
    obtain ⟨hbehind, htail⟩ := drop_behind hfile hat hrecord
    rw [List.length_cons] at hhigh
    push_cast at hhigh
    have hloaded := toInt_add_one hlow (by omega)
    by_cases hskip : s.nLoaded < l.nBestHeight
    · -- the node has as many blocks
      have hlt := Int32.lt_iff_toInt_lt.mp hskip
      obtain ⟨s₁, hblock, hs₁, hn, ho⟩ : ∃ s₁, l.loadBlock (UInt32.ofNat r.body.length) r.block
          { s with looks, nPos } = (true, s₁) ∧
          s₁.nPos = nPos + (4 + UInt32.ofNat r.body.length) ∧
          s₁.nLoaded = s.nLoaded + 1 ∧ s₁.offers = s.offers := loadBlock_skip hskip
      rw [hblock] at hturn
      have hone : (l.nBestHeight.toInt - s.nLoaded.toInt).toNat =
          (l.nBestHeight.toInt - s₁.nLoaded.toInt).toNat + 1 := by
        rw [hn]
        omega
      rw [hone, List.drop_succ_cons, ← ho] at hgoes ⊢
      rw [← hs₁] at htail hbehind
      exact ih hbehind htail hrest (by rw [hn]; omega) (by rw [hn]; omega) hgoes hturn
    · have hle := not_lt.mp (mt Int32.lt_iff_toInt_lt.mpr hskip)
      have hzero : (l.nBestHeight.toInt - s.nLoaded.toInt).toNat = 0 := by omega
      rw [hzero, List.drop_zero] at hgoes ⊢
      obtain ⟨htaken | ⟨hrefused, hclear⟩, hgoes⟩ := hgoes
      · obtain ⟨s₁, hblock, hs₁, hn, ho⟩ : ∃ s₁, l.loadBlock (UInt32.ofNat r.body.length) r.block
            { s with looks, nPos } = (true, s₁) ∧
            s₁.nPos = nPos + (4 + UInt32.ofNat r.body.length) ∧
            s₁.nLoaded = s.nLoaded + 1 ∧ s₁.offers = (l.offer r.block s.offers).1 :=
          loadBlock_taken hskip htaken
        rw [hblock] at hturn
        have hzero' : (l.nBestHeight.toInt - s₁.nLoaded.toInt).toNat = 0 := by
          rw [hn]
          omega
        rw [← hs₁] at htail hbehind
        rw [← ho] at hgoes
        have hall := ih hbehind htail hrest (by rw [hn]; omega) (by rw [hn]; omega)
          (by rw [hzero']; exact hgoes) hturn
        rw [hall, hzero', List.drop_zero, ho]
        rfl
      · -- the search goes on in the record
        obtain ⟨s₁, hblock, hs₁, hn, ho⟩ : ∃ s₁, l.loadBlock (UInt32.ofNat r.body.length) r.block
            { s with looks, nPos } = (true, s₁) ∧ s₁.nPos = nPos ∧
            s₁.nLoaded = s.nLoaded ∧ s₁.offers = (l.offer r.block s.offers).1 :=
          loadBlock_refused hskip hrefused
        rw [hblock] at hturn
        rw [← BlockRecord.join_append, ← hs₁] at hrecord
        rw [← hs₁] at hat
        rw [← ho] at hgoes
        have hall := ih hat hrecord hclear (by rw [hn]; omega) (by rw [hn]; omega)
          (by rw [hn, hzero]; exact hgoes) hturn
        rw [hall, hn, hzero, List.drop_zero, ho]
        rfl

end

end Records

/-! ## A load -/

namespace FileLoader

variable (l : FileLoader)

/-- Every block is offered once, or twice. -/
lemma exists_calls_offerAll (blocks : List CBlock) (o : Offers) :
    ∃ calls : List (List CBlock), (l.offerAll blocks o).blocks = o.blocks ++ calls.flatten ∧
      List.Forall₂ (fun block call => call = [block] ∨ call = [block, block]) blocks calls := by
  induction blocks generalizing o with
  | nil => exact ⟨[], (List.append_nil _).symm, .nil⟩
  | cons block blocks ih =>
    have hone : ∃ call, (l.offer block o).1.blocks = o.blocks ++ call ∧
        (call = [block] ∨ call = [block, block]) := by
      unfold offer
      dsimp only
      rcases (processBlock l.hash l.hash9 (l.node o.blocks.length) block o.store).result
        with e | fTaken
      · exact ⟨[block], rfl, Or.inl rfl⟩
      · cases fTaken with
        | true => exact ⟨[block], rfl, Or.inl rfl⟩
        | false =>
          dsimp only
          split_ifs
          · exact ⟨[block, block], List.append_assoc _ _ _, Or.inr rfl⟩
          · exact ⟨[block], rfl, Or.inl rfl⟩
    obtain ⟨call, hcall, hblock⟩ := hone
    obtain ⟨calls, hcalls, hall⟩ := ih (l.offer block o).1
    refine ⟨call :: calls, ?_, .cons hblock hall⟩
    rw [List.flatten_cons, ← List.append_assoc, ← hcall]
    exact hcalls

/-- The load of a file that is short enough for the position ends. -/
lemma exists_load {file : Bytes} (store : BlockStore)
    (hfile : file.length + MAX_BLOCK_SIZE.toNat < 2 ^ 32) :
    ∃ fLoaded o, ∀ fuel, file.length + 1 < fuel →
      l.loadExternalBlockFile file store fuel = some (fLoaded, o) := by
  obtain ⟨s', hloop⟩ : ∃ s', ∀ fuel, file.length + 1 < fuel →
      l.loadLoop file fuel { offers := { store } } = some s' :=
    exists_loadLoop hfile { offers := { store } }
  refine ⟨decide (s'.nLoaded > 0), s'.offers, fun fuel hfuel => ?_⟩
  rw [loadExternalBlockFile, hloop fuel hfuel, Option.map_some]

/-- What is offered of a file of records. -/
lemma offers_load {store : BlockStore} {gap : Bytes}
    {records : List (BlockRecord × Bytes)} {fuel : ℕ} {fLoaded : Bool} {o : Offers}
    (hfile : (BlockRecord.join (pchMessageStart l.fTestNet) gap records).length +
      MAX_BLOCK_SIZE.toNat < 2 ^ 32)
    (hgap : BlockRecord.Separated (pchMessageStart l.fTestNet) gap records)
    (hrun : ∀ i, l.fRequestShutdown i = false)
    (hgoes : l.GoesOn { store } (records.drop l.nBestHeight.toInt.toNat))
    (hload : l.loadExternalBlockFile (BlockRecord.join (pchMessageStart l.fTestNet) gap records)
      store fuel = some (fLoaded, o)) :
    o = l.offerAll ((records.drop l.nBestHeight.toInt.toNat).map fun r => r.1.block) { store } := by
  obtain ⟨s', hloop, heq⟩ := Option.map_eq_some_iff.mp hload
  obtain ⟨-, rfl⟩ := Prod.mk.inj heq
  have hcount := BlockRecord.length_le_join (length_pchMessageStart l.fTestNet) gap records
  have hzero : (0 : Int32).toInt = 0 := by decide
  have hdrop : (l.nBestHeight.toInt - (0 : Int32).toInt).toNat = l.nBestHeight.toInt.toNat := by
    rw [hzero, sub_zero]
  have hall := offers_loadLoop (s := { offers := { store } }) hfile hrun (Nat.zero_le _) rfl
    hgap hzero.ge (by rw [hzero]; omega) (by rw [hdrop]; exact hgoes) hloop
  rw [hdrop] at hall
  exact hall

/-- The load of a long file without the first byte of the message start does not end. -/
lemma load_endless {file : Bytes} (store : BlockStore) (hlength : 2 ^ 32 + 8 ≤ file.length)
    (hnone : ∀ c ∈ file, (pchMessageStart l.fTestNet).head? ≠ some c)
    (hrun : ∀ i, l.fRequestShutdown i = false) (fuel : ℕ) :
    l.loadExternalBlockFile file store fuel = none := by
  cases fuel with
  | zero => rfl
  | succ fuel =>
    have hne : ({ offers := { store } } : LoadState).nPos ≠ noPos := by
      change (0 : UInt32) ≠ 0xffffffff
      decide
    have hnot : ¬ l.fRequestShutdown 0 = true := by
      rw [hrun]
      exact Bool.false_ne_true
    rw [loadExternalBlockFile, loadLoop, if_neg hne, if_neg hnot,
      searchLoop_endless hlength hnone hrun]
    rfl

/-- The load of a file that is short enough for the position ends, whatever is in it.  If the file is
one of records and no shutdown is requested, the blocks after the first ones are offered in their
order, each of them once, or twice if the first call signals a reorganisation, as long as no call
throws and no message start begins in a record that is not taken. -/
theorem loadExternalBlockFile_spec (l : FileLoader) {file : Bytes} (store : BlockStore)
    (hfile : file.length + MAX_BLOCK_SIZE.toNat < 2 ^ 32) :
    ∃ fLoaded o, (∀ fuel, file.length + 1 < fuel →
        l.loadExternalBlockFile file store fuel = some (fLoaded, o)) ∧
      ∀ gap records, file = BlockRecord.join (pchMessageStart l.fTestNet) gap records →
        BlockRecord.Separated (pchMessageStart l.fTestNet) gap records →
        (∀ i, l.fRequestShutdown i = false) →
        l.GoesOn { store } (records.drop l.nBestHeight.toInt.toNat) →
        o = l.offerAll ((records.drop l.nBestHeight.toInt.toNat).map fun r => r.1.block) { store } ∧
        ∃ calls : List (List CBlock), o.blocks = calls.flatten ∧
          List.Forall₂ (fun block call => call = [block] ∨ call = [block, block])
            ((records.drop l.nBestHeight.toInt.toNat).map fun r => r.1.block) calls := by
  obtain ⟨fLoaded, o, hload⟩ := l.exists_load store hfile
  refine ⟨fLoaded, o, hload, ?_⟩
  rintro gap records rfl hgap hrun hgoes
  have hall := l.offers_load hfile hgap hrun hgoes (hload _ (Nat.lt_succ_self _))
  obtain ⟨calls, hcalls, honce⟩ := l.exists_calls_offerAll
    ((records.drop l.nBestHeight.toInt.toNat).map fun r => r.1.block) { store }
  refine ⟨hall, calls, ?_, honce⟩
  rw [hall]
  exact hcalls

end FileLoader

/-- A node on the main network that takes any stake. -/
def testLoader : FileLoader where
  hash := sampleHash
  hash9 := nonceHash
  fTestNet := false
  nBestHeight := 0
  node _ := testBlockNode
  fRequestShutdown _ := false

/-- The record of the first block after the genesis block. -/
def firstRecord : BlockRecord := .ofBlock testFirst (by decide +kernel)

/-- The block in a file with some bytes before its record is offered. -/
theorem loadExternalBlockFile_firstRecord : ∃ fLoaded o,
    testLoader.loadExternalBlockFile
      (BlockRecord.join (pchMessageStart false) [1, 2, 3] [(firstRecord, [])]) testStart 200 =
        some (fLoaded, o) ∧
      ∃ calls : List (List CBlock), o.blocks = calls.flatten ∧
        List.Forall₂ (fun block call => call = [block] ∨ call = [block, block]) [testFirst]
          calls := by
  have hlength : (BlockRecord.join (pchMessageStart false) [1, 2, 3]
      [(firstRecord, [])]).length = 159 := by decide +kernel
  have hmax : MAX_BLOCK_SIZE.toNat = 1000000 := by decide
  obtain ⟨fLoaded, o, hload, hoffers⟩ := testLoader.loadExternalBlockFile_spec testStart
    (show (BlockRecord.join (pchMessageStart false) [1, 2, 3] [(firstRecord, [])]).length +
      MAX_BLOCK_SIZE.toNat < 2 ^ 32 by omega)
  have htaken : (testLoader.offer testFirst { store := testStart }).2.toOption = some true := by
    decide +kernel
  have hgoes : testLoader.GoesOn { store := testStart } [(firstRecord, [])] :=
    ⟨Or.inl (ExceptLoop.eq_ok_of_toOption htaken), trivial⟩
  have hgap : NoStart (pchMessageStart false) [1, 2, 3] (pchMessageStart false) := by
    decide +kernel
  obtain ⟨-, hcalls⟩ := hoffers [1, 2, 3] [(firstRecord, [])] rfl
    ⟨hgap, fun i hi => absurd hi (Nat.not_lt_zero i)⟩ (fun _ => rfl) hgoes
  exact ⟨fLoaded, o, hload 200 (by omega), hcalls⟩

/-- A block with a stake that has been seen, on top of the genesis block. -/
def seenBlock : CBlock := testStakeBlock 1 3 1424304835 0 1

/-- The record of the block. -/
def seenRecord : BlockRecord := .ofBlock seenBlock (by decide +kernel)

/-- The store with the genesis block, in which the stake has been seen. -/
def seenStore : BlockStore :=
  { testStart with
    tree := { testStart.tree with setStakeSeen := {seenBlock.getProofOfStake} } }

/-- The position of a file with more than `2 ^ 32` bytes goes round and round, and a block whose stake
has been seen is offered twice. -/
theorem not_loadExternalBlockFile :
    (∀ fuel, testLoader.loadExternalBlockFile (List.replicate (2 ^ 32 + 8) 0) testStart fuel =
      none) ∧
    ¬ ∀ (l : FileLoader) (store : BlockStore) (gap : Bytes) (records : List (BlockRecord × Bytes)),
      BlockRecord.Separated (pchMessageStart l.fTestNet) gap records →
      (∀ i, l.fRequestShutdown i = false) → ∀ fuel fLoaded o,
      l.loadExternalBlockFile (BlockRecord.join (pchMessageStart l.fTestNet) gap records) store
          fuel = some (fLoaded, o) →
        o.blocks = (records.drop l.nBestHeight.toInt.toNat).map fun r => r.1.block := by
  constructor
  · apply testLoader.load_endless testStart
    · rw [List.length_replicate]
    · intro c hc
      rw [List.eq_of_mem_replicate hc]
      decide
    · exact fun _ => rfl
  · intro hall
    have hgap : BlockRecord.Separated (pchMessageStart false) [] [(seenRecord, [])] :=
      ⟨fun i hi => absurd hi (Nat.not_lt_zero i), fun i hi => absurd hi (Nat.not_lt_zero i)⟩
    have hfile : (BlockRecord.join (pchMessageStart testLoader.fTestNet) []
        [(seenRecord, [])]).length + MAX_BLOCK_SIZE.toNat < 2 ^ 32 := by decide +kernel
    have htaken : (testLoader.offer seenBlock { store := seenStore }).2.toOption = some true := by
      decide +kernel
    have htwice : (testLoader.offerAll [seenBlock] { store := seenStore }).blocks.length = 2 := by
      decide +kernel
    obtain ⟨fLoaded, o, hload⟩ := testLoader.exists_load seenStore hfile
    have hoffers := testLoader.offers_load hfile hgap (fun _ => rfl)
      ⟨Or.inl (ExceptLoop.eq_ok_of_toOption htaken), trivial⟩ (hload _ (Nat.lt_succ_self _))
    have hblocks := hall testLoader seenStore [] [(seenRecord, [])] hgap (fun _ => rfl) _ fLoaded o
      (hload _ (Nat.lt_succ_self _))
    rw [hoffers] at hblocks
    have hlength := congrArg List.length hblocks
    rw [List.length_map] at hlength
    exact absurd (htwice.symm.trans hlength) (by decide)

end HyperStake
