import HyperStake.Wallet.AddressGroupings

/-!
# What the groups of addresses do to the wallet

`GetAddressGroupings` goes through the transactions of the wallet and looks up those that their
inputs spend with the subscript of the same map, which inserts a transaction without outputs under a
key that is not there.  Here the wallet is a state of the loops, and an insertion can be seen by the
rest of the loop.

The wallet stays as it is and every output that is read exists exactly when the wallet has the
outputs that its spenders spend (`keepsWallet_iff`): it is only the first input of which the loop
knows that its output is there.
-/

namespace HyperStake.WalletTx

open ExceptLoop

namespace Books

/-- `mapWallet[h]`: a transaction that the wallet does not have is inserted without outputs. -/
def subscript (h : UInt256) (books : Books) : CWalletTx × Books :=
  match books.wallet.mapWallet[h]? with
  | some prev => (prev, books)
  | none => ({}, { books with wallet := books.wallet.put h {} })

/-- `mapWallet[txin.prevout.hash].vout[txin.prevout.n]`. -/
def readOutput (txin : CTxIn) (books : Books) : Except Fault CTxOut × Books :=
  let (prev, books) := books.subscript txin.prevout.hash
  match prev.vout[txin.prevout.n.toNat]? with
  | none => (.error .undefined, books)
  | some txout => (.ok txout, books)

/-- The loop that groups all input addresses with each other. -/
def groupInputs : List CTxIn → Finset CTxDestination → Books →
    Except Fault (Finset CTxDestination) × Books
  | [], grouping, books => (.ok grouping, books)
  | txin :: vin, grouping, books =>
    match books.readOutput txin with
    | (.error e, books) => (.error e, books)
    | (.ok txout, books) => groupInputs vin (books.insertAddress grouping txout) books

/-- The loop that groups change with input addresses.  The transaction of the first input is copied
and not used. -/
def groupChange (first : CTxIn) : List CTxOut → Finset CTxDestination → Books →
    Finset CTxDestination × Books
  | [], grouping, books => (grouping, books)
  | txout :: vout, grouping, books =>
    if books.isChange txout then
      let books := (books.subscript first.prevout.hash).2
      groupChange first vout (books.insertAddress grouping txout) books
    else groupChange first vout grouping books

/-- A round of the first loop of `GetAddressGroupings`. -/
def visitEntry (groupings : Finset (Finset CTxDestination)) (wtx : CWalletTx) (books : Books) :
    Except Fault (Finset (Finset CTxDestination)) × Books :=
  match wtx.vin with
  | [] => (.ok (wtx.vout.foldl books.insertLone groupings), books)
  | first :: _ =>
    if (books.wallet.ownOutput first.prevout.hash first.prevout.n.toNat).isSome then
      match groupInputs wtx.vin ∅ books with
      | (.error e, books) => (.error e, books)
      | (.ok grouping, books) =>
        let (grouping, books) := groupChange first wtx.vout grouping books
        (.ok (wtx.vout.foldl books.insertLone (insert grouping groupings)), books)
    else (.ok (wtx.vout.foldl books.insertLone groupings), books)

/-- The first loop of `GetAddressGroupings` after an entry of the wallet, with a bound on its
rounds.  The next entry is looked for in the wallet as it is then. -/
def visitEntries : ℕ → Option UInt256 → Finset (Finset CTxDestination) → Books →
    Except Fault (Finset (Finset CTxDestination)) × Books
  | 0, _, _, books => (.error .endless, books)
  | rounds + 1, it, groupings, books =>
    match MapLoop.next books.wallet.mapWallet it with
    | none => (.ok groupings, books)
    | some (h, wtx) =>
      match visitEntry groupings wtx books with
      | (.error e, books) => (.error e, books)
      | (.ok groupings, books) => visitEntries rounds (some h) groupings books

/-- `GetAddressGroupings`: what it returns, and the wallet then. -/
def runGroupings (alloc : Allocator) (rounds : ℕ) (books : Books) :
    Except Fault (Finset (Finset CTxDestination) × Heap) × Books :=
  match visitEntries rounds none ∅ books with
  | (.error e, books) => (.error e, books)
  | (.ok groupings, books) =>
    (((groupings.sort CTxDestination.SetLe).foldlM (Groups.mergeGrouping alloc) {}).bind
      fun groups => groups.uniqueGroupings.sort.foldlM Groups.takeGrouping (∅, groups.heap), books)

/-! ## As long as every output is there -/

variable {books : Books}

/-- A subscript inserts nothing if the transaction is there. -/
lemma subscript_of_some {h : UInt256} {prev : CWalletTx}
    (hget : books.wallet.mapWallet[h]? = some prev) : books.subscript h = (prev, books) := by
  rw [subscript, hget]

/-- What is read is the output, and the wallet stays as it is if there is one. -/
lemma readOutput_spec (books : Books) (txin : CTxIn) :
    (books.readOutput txin).1 = books.outputOf txin ∧
      ((books.previousOutput txin).isSome = true → (books.readOutput txin).2 = books) := by
  rw [readOutput, subscript, outputOf, previousOutput]
  cases books.wallet.mapWallet[txin.prevout.hash]? with
  | none => exact ⟨rfl, fun h => by cases h⟩
  | some prev =>
    simp only [Option.getD_some, Option.bind_some]
    cases prev.vout[txin.prevout.n.toNat]? with
    | none => exact ⟨rfl, fun h => by cases h⟩
    | some txout => exact ⟨rfl, fun _ => rfl⟩

/-- The loop over the inputs returns what it does in a wallet that is not touched, and if it returns
it has not touched it. -/
lemma groupInputs_spec (books : Books) (vin : List CTxIn) (grouping : Finset CTxDestination) :
    (groupInputs vin grouping books).1 = vin.foldlM (fun grouping txin =>
        (books.outputOf txin).map (books.insertAddress grouping)) grouping ∧
      ∀ r, (groupInputs vin grouping books).1 = .ok r →
        (groupInputs vin grouping books).2 = books := by
  induction vin generalizing grouping with
  | nil => exact ⟨rfl, fun _ _ => rfl⟩
  | cons txin vin ih =>
    obtain ⟨hfst, hsnd⟩ := readOutput_spec books txin
    rw [groupInputs, List.foldlM_cons, ← hfst]
    cases hread : books.readOutput txin with
    | mk r books' =>
      rw [hread] at hfst hsnd
      cases r with
      | error e => exact ⟨rfl, fun _ h => by cases h⟩
      | ok txout =>
        have hknown : books.previousOutput txin = some txout := outputOf_eq_ok.mp hfst.symm
        obtain rfl : books' = books := hsnd (by rw [hknown]; rfl)
        exact ih (books'.insertAddress grouping txout)

/-- The loop over the outputs, if the transaction of the first input is there. -/
lemma groupChange_eq_foldl {first : CTxIn} {prev : CWalletTx}
    (hget : books.wallet.mapWallet[first.prevout.hash]? = some prev) (vout : List CTxOut)
    (grouping : Finset CTxDestination) :
    groupChange first vout grouping books = (vout.foldl (fun grouping txout =>
      if books.isChange txout then books.insertAddress grouping txout else grouping) grouping,
        books) := by
  induction vout generalizing grouping with
  | nil => rfl
  | cons txout vout ih =>
    rw [groupChange, List.foldl_cons, subscript_of_some hget]
    dsimp only
    rw [ih, ih]
    split_ifs <;> rfl

/-- A round of the loop over the transactions. -/
lemma visitEntry_spec (books : Books) (groupings : Finset (Finset CTxDestination))
    (wtx : CWalletTx) :
    (visitEntry groupings wtx books).1 = books.collectGroupings groupings wtx ∧
      ∀ r, (visitEntry groupings wtx books).1 = .ok r →
        (visitEntry groupings wtx books).2 = books := by
  rw [visitEntry, collectGroupings, isSpender, spendGrouping]
  cases hvin : wtx.vin with
  | nil => exact ⟨rfl, fun _ _ => rfl⟩
  | cons first vin =>
    dsimp only
    by_cases hown : (books.wallet.ownOutput first.prevout.hash first.prevout.n.toNat).isSome = true
    · obtain ⟨hfst, hsnd⟩ := groupInputs_spec books (first :: vin) ∅
      rw [if_pos hown, if_pos hown, ← hfst]
      cases hinputs : groupInputs (first :: vin) ∅ books with
      | mk r books' =>
        rw [hinputs] at hsnd
        cases r with
        | error e => exact ⟨rfl, fun _ h => by cases h⟩
        | ok grouping =>
          obtain rfl : books' = books := hsnd grouping rfl
          -- the output of the first input is the wallet's, and so its transaction is there
          have hget : ∃ prev, books'.wallet.mapWallet[first.prevout.hash]? = some prev := by
            cases hprev : books'.wallet.mapWallet[first.prevout.hash]? with
            | none =>
              rw [CWallet.ownOutput, hprev] at hown
              cases hown
            | some prev => exact ⟨prev, rfl⟩
          obtain ⟨prev, hprev⟩ := hget
          dsimp only
          rw [groupChange_eq_foldl hprev]
          exact ⟨rfl, fun _ _ => rfl⟩
    · rw [if_neg hown, if_neg hown]
      exact ⟨rfl, fun _ _ => rfl⟩

/-- The loop over the transactions after some of them. -/
lemma visitEntries_spec (books : Books) {rounds : ℕ} (front rest : List (UInt256 × CWalletTx))
    (hentries : books.wallet.mapWallet.toList = front ++ rest) (hrounds : rest.length < rounds)
    (groupings : Finset (Finset CTxDestination)) :
    (visitEntries rounds (front.getLast?.map Prod.fst) groupings books).1 = rest.foldlM
        (fun groupings it => books.collectGroupings groupings it.2) groupings ∧
      ∀ r, (visitEntries rounds (front.getLast?.map Prod.fst) groupings books).1 = .ok r →
        (visitEntries rounds (front.getLast?.map Prod.fst) groupings books).2 = books := by
  induction rest generalizing front rounds groupings with
  | nil =>
    cases rounds with
    | zero => exact absurd hrounds (Nat.not_lt_zero _)
    | succ rounds =>
      rw [visitEntries, MapLoop.next_getLast? hentries]
      exact ⟨rfl, fun _ _ => rfl⟩
  | cons it rest ih =>
    cases rounds with
    | zero => exact absurd hrounds (Nat.not_lt_zero _)
    | succ rounds =>
      obtain ⟨hfst, hsnd⟩ := visitEntry_spec books groupings it.2
      rw [visitEntries, MapLoop.next_getLast? hentries, List.foldlM_cons, ← hfst]
      dsimp only [List.head?_cons]
      cases hvisit : visitEntry groupings it.2 books with
      | mk r books' =>
        rw [hvisit] at hsnd
        cases r with
        | error e => exact ⟨rfl, fun _ h => by cases h⟩
        | ok groupings' =>
          obtain rfl : books' = books := hsnd groupings' rfl
          have hnext := ih (front ++ [it]) (by rw [hentries, List.append_assoc]; rfl)
            (Nat.lt_of_succ_lt_succ hrounds) groupings'
          rw [List.getLast?_concat] at hnext
          exact hnext

/-- With rounds for all transactions the function returns what it does in a wallet that is not
touched, and if it returns it has not touched it. -/
lemma runGroupings_spec (books : Books) (alloc : Allocator) {rounds : ℕ}
    (hrounds : books.wallet.mapWallet.size < rounds) :
    (runGroupings alloc rounds books).1 = books.getAddressGroupings alloc ∧
      ∀ r, (runGroupings alloc rounds books).1 = .ok r →
        (runGroupings alloc rounds books).2 = books := by
  rw [← Std.ExtTreeMap.length_toList] at hrounds
  obtain ⟨hfst, hsnd⟩ := visitEntries_spec books [] books.wallet.mapWallet.toList rfl
    hrounds ∅
  rw [List.getLast?_nil, Option.map_none] at hfst hsnd
  rw [runGroupings, getAddressGroupings, groupAddresses, ← hfst]
  cases hvisit : visitEntries rounds none ∅ books with
  | mk r books' =>
    rw [hvisit] at hsnd
    cases r with
    | error e => exact ⟨rfl, fun _ h => by cases h⟩
    | ok groupings => exact ⟨rfl, fun _ _ => hsnd groupings rfl⟩

/-! ## The wallet stays as it is -/

/-- Every output that is read exists, and the transactions of the wallet are the same afterwards. -/
def KeepsWallet (books : Books) : Prop :=
  ∀ (alloc : Allocator) (rounds : ℕ), books.wallet.mapWallet.size < rounds →
    (∃ ret, (runGroupings alloc rounds books).1 = .ok ret) ∧
      (runGroupings alloc rounds books).2.wallet.mapWallet = books.wallet.mapWallet

/-- The function returns if the wallet has the outputs that its spenders spend. -/
lemma exists_getAddressGroupings_iff (alloc : Allocator) :
    (∃ ret, books.getAddressGroupings alloc = .ok ret) ↔
      ∀ (h : UInt256) (wtx : CWalletTx),
        books.wallet.mapWallet[h]? = some wtx → books.KnowsInputs wtx := by
  constructor
  · rintro ⟨ret, hret⟩ h wtx hget
    exact (groupAddresses_eq_ok.mp hret).1 (h, wtx)
      (Std.ExtTreeMap.mem_toList_iff_getElem?_eq_some.mpr hget)
  · intro hknown
    obtain ⟨ret, hmerged⟩ :=
      MergedSets.exists_merged (books.allGroupings books.wallet.mapWallet.toList)
    refine ⟨(ret, ∅), groupAddresses_eq_ok.mpr ⟨fun it hit => ?_, hmerged, rfl⟩⟩
    exact hknown it.1 it.2 (Std.ExtTreeMap.mem_toList_iff_getElem?_eq_some.mp hit)

/-- The wallet is kept if and only if it has the outputs that its spenders spend. -/
theorem keepsWallet_iff (books : Books) :
    books.KeepsWallet ↔ ∀ (h : UInt256) (wtx : CWalletTx),
      books.wallet.mapWallet[h]? = some wtx → books.KnowsInputs wtx := by
  constructor
  · intro hkeeps
    have hrounds := Nat.lt_succ_self books.wallet.mapWallet.size
    obtain ⟨ret, hret⟩ := (hkeeps .next _ hrounds).1
    rw [(runGroupings_spec books .next hrounds).1] at hret
    exact (exists_getAddressGroupings_iff .next).mp ⟨ret, hret⟩
  · intro hknown alloc rounds hrounds
    obtain ⟨hfst, hsnd⟩ := runGroupings_spec books alloc hrounds
    obtain ⟨ret, hret⟩ := (exists_getAddressGroupings_iff alloc).mpr hknown
    rw [← hfst] at hret
    exact ⟨⟨ret, hret⟩, by rw [hsnd ret hret]⟩

/-- The transaction that somebody else's input spends is looked up and put into the wallet, and an
output that it does not have is read. -/
theorem not_keepsWallet :
    (¬ ∀ (books : Books) (alloc : Allocator) (rounds : ℕ), books.wallet.mapWallet.size < rounds →
      ∃ ret, (runGroupings alloc rounds books).1 = .ok ret) ∧
    ¬ ∀ (books : Books) (alloc : Allocator) (rounds : ℕ), books.wallet.mapWallet.size < rounds →
      (runGroupings alloc rounds books).2.wallet.mapWallet = books.wallet.mapWallet := by
  have hrounds : sharedBooks.wallet.mapWallet.size < 3 := by decide +kernel
  refine ⟨fun hall => ?_, fun hall => ?_⟩
  · have hfault : (runGroupings .next 3 sharedBooks).1.toOption.isSome = false := by
      decide +kernel
    obtain ⟨ret, hret⟩ := hall sharedBooks .next 3 hrounds
    rw [hret] at hfault
    cases hfault
  · have hnew : (runGroupings .next 3 sharedBooks).2.wallet.mapWallet.contains 5 = true := by
      decide +kernel
    have hmissing : sharedBooks.wallet.mapWallet.contains 5 = false := by decide +kernel
    rw [hall sharedBooks .next 3 hrounds, hmissing] at hnew
    cases hnew

end Books

end HyperStake.WalletTx
