import HyperStake.Voting.Proposal

/-!
# Recognising and decoding a proposal transaction

`IsProposal` scans the outputs of a transaction for the marker "PROP", while
`ProposalFromTransaction` decodes the first output whatever the scan found.  This module says what
the scan does on every transaction (`isProposal_eq`), and from it when the two are safe to run and
when they speak of the same output.

The test for the marker reads the bytes two to five of a data carrier that may have only five
bytes, so a script that ends right after "PRO" makes it read past its end.
-/

namespace HyperStake

open FieldReader

namespace CScript

/-- The script starts with `OP_RETURN` and has "PROP" in its bytes two to five. -/
def HasMarker (s : CScript) : Prop :=
  s[0]? = some OP_RETURN ∧ s[2]? = some 0x70 ∧ s[3]? = some 0x72 ∧ s[4]? = some 0x6f ∧
    s[5]? = some 0x70

/-- The script starts with `OP_RETURN`, has "PRO" in its bytes two to four, and ends there. -/
def CutMarker (s : CScript) : Prop :=
  s.length = 5 ∧ s[0]? = some OP_RETURN ∧ s[2]? = some 0x70 ∧ s[3]? = some 0x72 ∧
    s[4]? = some 0x6f

instance (s : CScript) : Decidable (HasMarker s) := inferInstanceAs (Decidable (_ ∧ _))

instance (s : CScript) : Decidable (CutMarker s) := inferInstanceAs (Decidable (_ ∧ _))

/-- A script with the whole marker has at least six bytes. -/
lemma HasMarker.length_ge {s : CScript} (h : HasMarker s) : 6 ≤ s.length := by
  obtain ⟨-, -, -, -, h5⟩ := h
  obtain ⟨hlt, -⟩ := List.getElem?_eq_some_iff.mp h5
  omega

/-- No script both has the marker and is cut off inside it. -/
lemma HasMarker.not_cutMarker {s : CScript} (h : HasMarker s) : ¬ CutMarker s := by
  intro hcut
  have hlen := h.length_ge
  have hcutlen := hcut.1
  omega

/-- The test of one output: true on the marker, false without it, and out of range on a script that
is cut off inside it. -/
lemma carriesProp_eq (s : CScript) :
    carriesProp s = if HasMarker s then .ok true
      else if CutMarker s then .error .outOfRange else .ok false := by
  have hand : ∀ (b : Bool) (x : Except Fault Bool),
      (((Except.ok b : Except Fault Bool) <&&> x) = if b then x else .ok false) := by
    intro b x
    cases b <;> rfl
  rw [carriesProp, isDataCarrier_eq]
  rcases s with _ | ⟨b0, _ | ⟨b1, _ | ⟨b2, _ | ⟨b3, _ | ⟨b4, _ | ⟨b5, rest⟩⟩⟩⟩⟩⟩ <;>
    simp [HasMarker, CutMarker, byteIs, byteAt, bind, Except.bind, pure, Except.pure, hand] <;>
    grind

end CScript

namespace CTransaction

open CScript

/-- The output at which the scan of `IsProposal` stops: the first one whose script has the marker
or is cut off inside it. -/
def scanStop (tx : CTransaction) : Option CTxOut :=
  tx.vout.find? fun txout => HasMarker txout.scriptPubKey ∨ CutMarker txout.scriptPubKey

/-- What `IsProposal` does: it answers at the output where the scan stops, by an exception if the
marker is cut off there. -/
lemma isProposal_eq (tx : CTransaction) :
    tx.isProposal = match tx.scanStop with
      | none => .ok false
      | some txout =>
        if HasMarker txout.scriptPubKey then .ok true else .error .outOfRange := by
  rw [isProposal, scanStop]
  induction tx.vout with
  | nil => rfl
  | cons txout vout ih =>
    rw [isProposalLoop, carriesProp_eq, List.find?_cons]
    by_cases hmark : HasMarker txout.scriptPubKey
    · simp [hmark, bind, Except.bind, pure, Except.pure]
    · by_cases hcut : CutMarker txout.scriptPubKey
      · simp [hmark, hcut, bind, Except.bind]
      · simp only [hmark, hcut, if_false, or_self, decide_false]
        exact ih

/-- `IsProposal` returns true exactly when the scan stops at a whole marker. -/
lemma isProposal_eq_true_iff (tx : CTransaction) :
    tx.isProposal = .ok true ↔
      ∃ txout, tx.scanStop = some txout ∧ HasMarker txout.scriptPubKey := by
  rw [isProposal_eq]
  cases tx.scanStop with
  | none => simp
  | some txout => by_cases h : HasMarker txout.scriptPubKey <;> simp [h]

/-- When the first output has the marker, the scan stops there. -/
lemma scanStop_of_hasMarker_head {tx : CTransaction} {txout : CTxOut}
    (h0 : tx.vout[0]? = some txout) (hmark : HasMarker txout.scriptPubKey) :
    tx.scanStop = some txout := by
  cases hvout : tx.vout with
  | nil => simp [hvout] at h0
  | cons o vout =>
    rw [hvout, List.getElem?_cons_zero, Option.some.injEq] at h0
    subst h0
    simp [scanStop, hvout, hmark]

end CTransaction

/-! ## Safety of the accesses -/

open CScript

/-- The accesses of `IsProposal` all succeed, and if it returns true then so do those of
`ProposalFromTransaction`: there is a first output, and its script has a byte range from position
six to the end. -/
def ReadsInRange (tx : CTransaction) : Prop :=
  (∃ b, tx.isProposal = .ok b) ∧
    (tx.isProposal = .ok true →
      ∃ txout, tx.vout[0]? = some txout ∧ 6 ≤ txout.scriptPubKey.length)

/-- The accesses are in range exactly when decoding ends without a fault. -/
lemma readsInRange_iff_proposalFromTransaction (tx : CTransaction) (proposal : CVoteProposal) :
    ReadsInRange tx ↔ ∃ r, proposalFromTransaction tx proposal = .ok r := by
  unfold ReadsInRange proposalFromTransaction
  cases hprop : tx.isProposal with
  | error e => simp [bind, Except.bind]
  | ok b =>
    cases b with
    | false => simp [bind, Except.bind, pure, Except.pure]
    | true =>
      cases h0 : tx.vout[0]? with
      | none => simp [bind, Except.bind]
      | some txout =>
        by_cases hlen : 6 ≤ txout.scriptPubKey.length
        · simp only [true_implies, Except.ok.injEq, exists_eq', true_and, Option.some.injEq,
            exists_eq_left', hlen, true_iff]
          simp only [bind, Except.bind, Bool.not_true, Bool.false_eq_true, if_false, sliceFrom,
            hlen, if_true]
          rcases proposal.unserialize 0 (txout.scriptPubKey.drop 6) with ⟨p, _ | _⟩
          · exact ⟨_, rfl⟩
          · exact ⟨_, rfl⟩
        · simp [hlen, bind, Except.bind, sliceFrom]

/-- Recognising and decoding stay in range exactly when the scan stops at no output that is cut off
inside the marker and, if it stops, the script of the first output has at least six bytes. -/
theorem readsInRange_iff (tx : CTransaction) :
    ReadsInRange tx ↔ ∀ txout, tx.scanStop = some txout →
      ¬ CutMarker txout.scriptPubKey ∧
        ∃ txout₀, tx.vout[0]? = some txout₀ ∧ 6 ≤ txout₀.scriptPubKey.length := by
  have hstop : ∀ txout, tx.scanStop = some txout →
      HasMarker txout.scriptPubKey ∨ CutMarker txout.scriptPubKey := by
    intro txout h
    simpa using List.find?_some h
  rw [ReadsInRange, CTransaction.isProposal_eq_true_iff, CTransaction.isProposal_eq]
  cases hscan : tx.scanStop with
  | none => simp
  | some txout =>
    have hor := hstop txout hscan
    by_cases hmark : HasMarker txout.scriptPubKey
    · simp [hmark, hmark.not_cutMarker]
    · simp [hmark, hor.resolve_left hmark]

/-- A data carrier of five bytes that ends after "PRO". -/
def txCutMarker : CTransaction :=
  { vout := [{ nValue := 10, scriptPubKey := [0x6a, 0x03, 0x70, 0x72, 0x6f] }] }

/-- On a data carrier that ends after "PRO", `IsProposal` reads past the end of the script. -/
theorem not_readsInRange_txCutMarker : ¬ ReadsInRange txCutMarker := by
  rintro ⟨⟨b, hb⟩, -⟩
  have hfault : txCutMarker.isProposal = .error .outOfRange := by decide
  rw [hfault] at hb
  cases hb

/-! ## Agreement of the two output choices -/

/-- The proposal that a byte string decodes to, read into a new object. -/
def decodedProposal (vchProposal : Bytes) : Option CVoteProposal :=
  match CVoteProposal.unserialize 0 {} vchProposal with
  | (proposal, .ok _) => some proposal
  | (_, .error _) => none

/-- The proposal that a script carries: an `OP_RETURN` and one push, by whatever opcode, of "PROP"
followed by the bytes of a proposal. -/
def carriedProposal (scriptPubKey : CScript) : Option CVoteProposal :=
  match getOp2 scriptPubKey with
  | some (opcode, _, pc) =>
    match getOp2 pc with
    | some (_, vch, []) =>
      if opcode = OP_RETURN ∧ vch.take 4 = [0x70, 0x72, 0x6f, 0x70] then
        decodedProposal (vch.drop 4)
      else none
    | _ => none
  | none => none

/-- The recogniser and the decoder speak of the same output. -/
structure RecogniserAgrees (tx : CTransaction) : Prop where
  /-- The output that makes `IsProposal` true is the first one, which is decoded. -/
  same_output : tx.isProposal = .ok true →
    tx.vout.findIdx? (fun txout => carriesProp txout.scriptPubKey = .ok true) = some 0
  /-- A proposal carried in any output is the one that is decoded. -/
  decodes : ∀ txout ∈ tx.vout, ∀ proposal, carriedProposal txout.scriptPubKey = some proposal →
    proposalFromTransaction tx {} = .ok (true, proposal)
  /-- The output that is decoded has the marker. -/
  marked : tx.isProposal = .ok true →
    ∃ txout, tx.vout[0]? = some txout ∧ HasMarker txout.scriptPubKey

variable {tx : CTransaction} {txout : CTxOut}

/-- On a first output with the marker, the decoder returns what the bytes after it decode to. -/
lemma proposalFromTransaction_of_hasMarker_head
    (h0 : tx.vout[0]? = some txout) (hmark : HasMarker txout.scriptPubKey)
    (proposal : CVoteProposal) :
    proposalFromTransaction tx {} = .ok (true, proposal) ↔
      decodedProposal (txout.scriptPubKey.drop 6) = some proposal := by
  have htrue : tx.isProposal = .ok true :=
    tx.isProposal_eq_true_iff.mpr ⟨txout, CTransaction.scanStop_of_hasMarker_head h0 hmark, hmark⟩
  have hslice : sliceFrom 6 txout.scriptPubKey = .ok (txout.scriptPubKey.drop 6) :=
    if_pos hmark.length_ge
  rw [proposalFromTransaction, htrue, h0, decodedProposal]
  simp only [bind, Except.bind, Bool.not_true, Bool.false_eq_true, if_false, hslice]
  rcases CVoteProposal.unserialize 0 {} (txout.scriptPubKey.drop 6) with ⟨p, _ | _⟩ <;>
    simp [pure, Except.pure]

/-- Only a transaction that is recognised is decoded. -/
lemma isProposal_of_proposalFromTransaction {old proposal : CVoteProposal}
    (h : proposalFromTransaction tx old = .ok (true, proposal)) : tx.isProposal = .ok true := by
  unfold proposalFromTransaction at h
  cases hprop : tx.isProposal with
  | error e => simp [hprop, bind, Except.bind] at h
  | ok b =>
    cases b with
    | true => rfl
    | false => simp [hprop, bind, Except.bind, pure, Except.pure] at h

/-- A first output with the marker is the first one that the test of `IsProposal` finds. -/
lemma findIdx?_carriesProp_of_hasMarker_head
    (h0 : tx.vout[0]? = some txout) (hmark : HasMarker txout.scriptPubKey) :
    tx.vout.findIdx? (fun txout => carriesProp txout.scriptPubKey = .ok true) = some 0 := by
  cases hvout : tx.vout with
  | nil => simp [hvout] at h0
  | cons o vout =>
    rw [hvout, List.getElem?_cons_zero, Option.some.injEq] at h0
    subst h0
    have htest : carriesProp o.scriptPubKey = .ok true := by simp [carriesProp_eq, hmark]
    simp [List.findIdx?_cons, htest]

/-- The recogniser and the decoder agree exactly when the scan never stops at a marker while the
first output has none, and every carried proposal is also what the bytes after the marker of the
first output decode to. -/
theorem recogniserAgrees_iff (tx : CTransaction) :
    RecogniserAgrees tx ↔
      (∀ txout, tx.scanStop = some txout → HasMarker txout.scriptPubKey →
        ∃ txout₀, tx.vout[0]? = some txout₀ ∧ HasMarker txout₀.scriptPubKey) ∧
      ∀ txout ∈ tx.vout, ∀ proposal, carriedProposal txout.scriptPubKey = some proposal →
        ∃ txout₀, tx.vout[0]? = some txout₀ ∧ HasMarker txout₀.scriptPubKey ∧
          decodedProposal (txout₀.scriptPubKey.drop 6) = some proposal := by
  constructor
  · intro hagree
    refine ⟨fun txout hscan hmark => ?_, fun txout hmem proposal hcarried => ?_⟩
    · exact hagree.marked (tx.isProposal_eq_true_iff.mpr ⟨txout, hscan, hmark⟩)
    · have hdecode := hagree.decodes txout hmem proposal hcarried
      obtain ⟨txout₀, h0, hmark⟩ := hagree.marked (isProposal_of_proposalFromTransaction hdecode)
      exact ⟨txout₀, h0, hmark, (proposalFromTransaction_of_hasMarker_head h0 hmark _).mp hdecode⟩
  · rintro ⟨hfirst, hcarry⟩
    have hmarked : tx.isProposal = .ok true →
        ∃ txout, tx.vout[0]? = some txout ∧ HasMarker txout.scriptPubKey := by
      intro htrue
      obtain ⟨txout, hscan, hmark⟩ := tx.isProposal_eq_true_iff.mp htrue
      exact hfirst txout hscan hmark
    refine ⟨fun htrue => ?_, fun txout hmem proposal hcarried => ?_, hmarked⟩
    · obtain ⟨txout, h0, hmark⟩ := hmarked htrue
      exact findIdx?_carriesProp_of_hasMarker_head h0 hmark
    · obtain ⟨txout₀, h0, hmark, hdecode⟩ := hcarry txout hmem proposal hcarried
      exact (proposalFromTransaction_of_hasMarker_head h0 hmark proposal).mpr hdecode

/-- A transaction that pays to a public key hash in its first output and carries a proposal in its
second one. -/
def txProposalSecond : CTransaction :=
  { vout :=
      [{ nValue := 10, scriptPubKey := [0x76, 0xa9, 0x14] ++ List.replicate 20 0 ++ [0x88, 0xac] },
        { nValue := 10
          scriptPubKey := CVoteProposal.script
            { strName := [0x61], nStartHeight := 100, nCheckSpan := 10, strDescription := [0x62]
              bitLocation := { nMostSignificantBit := 27, nLeastSignificantBit := 26 } } }] }

/-- A proposal in the second output is recognised, but the first output is decoded. -/
theorem not_recogniserAgrees_txProposalSecond : ¬ RecogniserAgrees txProposalSecond := by
  intro hagree
  have htrue : txProposalSecond.isProposal = .ok true := by decide
  obtain ⟨txout, h0, hmark⟩ := hagree.marked htrue
  have hnone : ∀ o, txProposalSecond.vout[0]? = some o → ¬ HasMarker o.scriptPubKey := by decide
  exact hnone txout h0 hmark

end HyperStake
