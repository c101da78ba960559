import HyperStake.Wallet.MultiSend

/-!
# MultiSend after a restart

What `LoadWallet` makes of the records of MultiSend, and when it is what was in memory.  The entries
and the disabled addresses are read in the order of the database, which is that of the lists as long
as there are at most 256 items (`strictMonoOn_recordKey`); the entries never are more than a hundred.
The flag has a record of its own, which `clear` does not write.
-/

namespace HyperStake

open NumberedRecords MultiSendCall

/-- `CWalletDB::LoadWallet` into a new wallet, as far as `ReadKeyValue` is about MultiSend. -/
def loadMultiSend (get : String → CTxDestination) (db : MultiSendDB) : MultiSendWallet where
  vMultiSend := (db.multisend.toList.map Prod.snd).filter fun pMultiSend =>
    get pMultiSend.1 ≠ .CNoDestination
  fMultiSend := (db.msettings.map Prod.fst).getD false
  fMultiSendCoinStake := db.mcoinstake.getD false
  nLastMultiSendHeight := (db.msettings.map Prod.snd).getD 0
  vDisabledAddresses := db.mdisabled.toList.map Prod.snd
  db := db

variable {get : String → CTxDestination} {call : MultiSendCall} {w w' : MultiSendWallet}
  {strAddress : String} {nPercent : UInt32} {del : Int32}

/-- The wallet is backed by a file, and all operations on its records succeed. -/
structure MultiSendCall.Succeeds (call : MultiSendCall) : Prop where
  fFileBacked : call.fFileBacked = true
  writesMultiSend : ∀ i, call.writesMultiSend i = true
  erasesMultiSend : ∀ i, call.erasesMultiSend i = true
  writesMSettings : call.writesMSettings = true
  writesMCoinStake : call.writesMCoinStake = true
  writesMDisabled : ∀ i, call.writesMDisabled i = true
  erasesMDisabled : ∀ i, call.erasesMDisabled i = true

/-- The records are those of the lists and of the flag. -/
structure MultiSendRecorded (get : String → CTxDestination) (w : MultiSendWallet) : Prop where
  shares : Shares w.vMultiSend
  valid : ∀ ms ∈ w.vMultiSend, get ms.1 ≠ .CNoDestination
  multisend : Stores recordKey w.vMultiSend w.db.multisend
  msettings : (w.db.msettings.map Prod.fst).getD false = w.fMultiSend
  length_le : w.vDisabledAddresses.length ≤ 256
  mdisabled : Stores recordKey w.vDisabledAddresses w.db.mdisabled

/-! ## The order of the records -/

/-- Below 256 the first byte of a number is the number. -/
lemma recordKey_eq {i : ℕ} (hi : i < 256) : recordKey i = i * 2 ^ 24 := by
  unfold recordKey
  omega

lemma strictMonoOn_recordKey {n : ℕ} (hn : n ≤ 256) : StrictMonoOn recordKey {i | i < n} := by
  intro i hi j hj hij
  rw [recordKey_eq (lt_of_lt_of_le hi hn), recordKey_eq (lt_of_lt_of_le hj hn)]
  omega

/-! ## Loading -/

/-- Loading what is recorded gives what is in memory. -/
lemma MultiSendRecorded.load_eq (h : MultiSendRecorded get w) :
    (loadMultiSend get w.db).vMultiSend = w.vMultiSend ∧
      (loadMultiSend get w.db).fMultiSend = w.fMultiSend ∧
      (loadMultiSend get w.db).vDisabledAddresses = w.vDisabledAddresses := by
  refine ⟨?_, h.msettings, map_snd_toList_of_stores (strictMonoOn_recordKey h.length_le) h.mdisabled⟩
  have hlength := h.shares.length_le
  have hlist := map_snd_toList_of_stores (strictMonoOn_recordKey (by omega)) h.multisend
  change (w.db.multisend.toList.map Prod.snd).filter _ = _
  rw [hlist, List.filter_eq_self]
  intro ms hms
  exact decide_eq_true (h.valid ms hms)

lemma MultiSendRecorded.load (h : MultiSendRecorded get w) : MultiSendRecorded get (loadMultiSend get w.db) := by
  obtain ⟨hvector, hflag, hdisabled⟩ := h.load_eq
  refine ⟨?_, ?_, ?_, rfl, ?_, ?_⟩
  · rw [hvector]
    exact h.shares
  · rw [hvector]
    exact h.valid
  · rw [hvector]
    exact h.multisend
  · rw [hdisabled]
    exact h.length_le
  · rw [hdisabled]
    exact h.mdisabled

/-! ## The records after a call -/

namespace MultiSendCall

section

variable (hcall : call.Succeeds)

include hcall

/-- All records of the entries are erased. -/
lemma Succeeds.eraseMultiSend (h : MultiSendRecorded get w) :
    (call.eraseMultiSend w).1 = true ∧ Stores recordKey [] (call.eraseMultiSend w).2.db.multisend :=
  h.multisend.eraseAll hcall.erasesMultiSend le_rfl

/-- Writing a new vector into no records. -/
lemma Succeeds.writeMultiSend (hshares : Shares w.vMultiSend)
    (h : Stores recordKey [] w.db.multisend) :
    Stores recordKey w.vMultiSend (call.writeMultiSend w).2.db.multisend := by
  have hlength := hshares.length_le
  have hinj : Set.InjOn recordKey {i | i < w.vMultiSend.length} :=
    (strictMonoOn_recordKey (by omega)).injOn
  exact (stores_writeAll hinj hcall.writesMultiSend h).2

/-- All records of the disabled addresses are erased, also if the list has become longer. -/
lemma Succeeds.eraseMSDisabledAddresses {l : List String}
    (h : Stores recordKey l w.db.mdisabled) (hlength : l.length ≤ w.vDisabledAddresses.length) :
    (call.eraseMSDisabledAddresses w).1 = true ∧
      Stores recordKey [] (call.eraseMSDisabledAddresses w).2.db.mdisabled :=
  h.eraseAll hcall.erasesMDisabled hlength

lemma db_writeMSettings (fEnable : Bool) :
    (call.writeMSettings fEnable w).2
      = { w with db := { w.db with msettings := some (fEnable, w.nLastMultiSendHeight) } } := by
  rw [writeMSettings, if_pos hcall.writesMSettings]

section

variable (h : MultiSendRecorded get w)

include h

lemma recorded_clear (hoff : w.fMultiSend = false) : MultiSendRecorded get (call.clear w).2 := by
  unfold clear
  rw [if_pos hcall.fFileBacked]
  exact ⟨shares_nil, by simp, (hcall.eraseMultiSend h).2, h.msettings.trans hoff, h.length_le,
    h.mdisabled⟩

lemma recorded_enable : MultiSendRecorded get (call.enable get w).2 := by
  unfold enable
  split
  · exact h
  · split_ifs
    · change MultiSendRecorded get (call.writeMSettings true { w with fMultiSend := true }).2
      rw [db_writeMSettings hcall]
      exact ⟨h.shares, h.valid, h.multisend, rfl, h.length_le, h.mdisabled⟩
    · exact h

lemma recorded_disable : MultiSendRecorded get (call.disable w).2 := by
  change MultiSendRecorded get (call.writeMSettings false { w with fMultiSend := false }).2
  rw [db_writeMSettings hcall]
  exact ⟨h.shares, h.valid, h.multisend, rfl, h.length_le, h.mdisabled⟩

lemma recorded_enableall : MultiSendRecorded get (call.enableall w).2 := by
  obtain ⟨hsucceeds, hempty⟩ := hcall.eraseMSDisabledAddresses h.mdisabled le_rfl
  rw [enableall_snd, if_pos hsucceeds]
  exact ⟨h.shares, h.valid, h.multisend, h.msettings, Nat.zero_le _, hempty⟩

lemma recorded_disableAddress
    {disAddress : String} (hlt : get disAddress ≠ .CNoDestination →
      w.vDisabledAddresses.length < 256) :
    MultiSendRecorded get (call.disableAddress get disAddress w).2 := by
  by_cases hvalid : get disAddress = .CNoDestination
  · rw [disableAddress, if_pos hvalid]
    exact h
  · have hlength : (w.vDisabledAddresses ++ [disAddress]).length ≤ 256 := by
      rw [List.length_append, List.length_singleton]
      exact hlt hvalid
    let w₀ : MultiSendWallet :=
      { w with vDisabledAddresses := w.vDisabledAddresses ++ [disAddress] }
    have hle : w.vDisabledAddresses.length ≤ w₀.vDisabledAddresses.length := by
      simp [w₀]
    obtain ⟨hsucceeds, hempty⟩ :=
      Succeeds.eraseMSDisabledAddresses (w := w₀) hcall h.mdisabled hle
    have hinj : Set.InjOn recordKey {i | i < w₀.vDisabledAddresses.length} :=
      (strictMonoOn_recordKey hlength).injOn
    have hwritten := (stores_writeAll hinj hcall.writesMDisabled hempty).2
    rw [disableAddress_snd hvalid, if_pos hsucceeds]
    exact ⟨h.shares, h.valid, h.multisend, h.msettings, hlength, hwritten⟩

lemma recorded_coinstake
    (strCoinStake : String) : MultiSendRecorded get (call.coinstake strCoinStake w).2 := by
  unfold coinstake writeMCoinStake
  rw [if_pos hcall.writesMCoinStake, if_pos hcall.writesMCoinStake]
  split_ifs
  all_goals exact ⟨h.shares, h.valid, h.multisend, h.msettings, h.length_le, h.mdisabled⟩

lemma recorded_delete {r : MultiSendReply × MultiSendWallet} (hr : call.delete del w = .ok r) :
    MultiSendRecorded get r.2 := by
  obtain ⟨hsucceeds, hempty⟩ := hcall.eraseMultiSend h
  rw [delete_eq, if_pos hsucceeds] at hr
  split_ifs at hr
  obtain rfl := Except.ok.inj hr
  have hsub : (w.vMultiSend.eraseIdx del.toInt.toNat).Sublist w.vMultiSend :=
    List.eraseIdx_sublist _ _
  have hshares := h.shares.of_sublist hsub
  exact ⟨hshares, fun ms hms => h.valid ms (hsub.subset hms),
    hcall.writeMultiSend (w := { (call.eraseMultiSend w).2 with vMultiSend := _ }) hshares hempty,
    h.msettings, h.length_le, h.mdisabled⟩

lemma recorded_add (hadds : call.Adds get strAddress nPercent) :
    MultiSendRecorded get (call.add strAddress nPercent w).2 := by
  by_cases haccepts : Rejects strAddress nPercent w
  · rw [add_of_rejects haccepts]
    exact h
  · have hshares := shares_append_of_adds h.shares hadds haccepts
    obtain ⟨-, hempty⟩ := hcall.eraseMultiSend h
    rw [add_of_not_rejects haccepts, if_pos hcall.fFileBacked]
    refine ⟨hshares, ?_, Succeeds.writeMultiSend (w := { (call.eraseMultiSend w).2 with
      vMultiSend := _ }) hcall hshares hempty, h.msettings, h.length_le, h.mdisabled⟩
    intro ms hms
    rcases List.mem_append.mp hms with hms | hms
    · exact h.valid ms hms
    · obtain ⟨-, -, -, -, -, hvalid, -⟩ := hadds
      rw [List.mem_singleton.mp hms]
      exact hvalid

end

end

/-- MultiSend is off when the vector is cleared, and there are fewer than 256 disabled addresses when
one is added. -/
structure Recordable (call : MultiSendCall) (get : String → CTxDestination) (w : MultiSendWallet) :
    Prop where
  clear_off : call.params = [some "clear"] → w.fMultiSend = false
  disable_lt : ∀ disAddress, call.params = [some "disable", some disAddress] →
    get disAddress ≠ .CNoDestination → w.vDisabledAddresses.length < 256

lemma recorded_after (hcall : call.Succeeds) (hmeets : call.Recordable get w)
    (h : MultiSendRecorded get w) (hafter : call.after get w = .ok w') :
    MultiSendRecorded get w' := by
  have houtcome : call.Outcome get w (call.multisend get w) := outcome_multisend
  unfold after at hafter
  generalize call.multisend get w = result at houtcome hafter
  cases houtcome with
  | quits e he =>
    cases e with
    | fault f => cases hafter
    | _ =>
      cases hafter
      exact h
  | shows reply =>
    cases hafter
    exact h
  | clear hparams =>
    cases hafter
    exact recorded_clear hcall h (hmeets.clear_off hparams)
  | enable =>
    cases hafter
    exact recorded_enable hcall h
  | disable =>
    cases hafter
    exact recorded_disable hcall h
  | enableall =>
    cases hafter
    exact recorded_enableall hcall h
  | delete del hdel =>
    cases hr : call.delete del w with
    | error e =>
      rw [hr] at hafter
      cases e with
      | fault f => cases hafter
      | _ =>
        cases hafter
        exact h
    | ok r =>
      rw [hr] at hafter
      cases hafter
      exact recorded_delete hcall h hr
  | disableAddress disAddress hparams =>
    cases hafter
    exact recorded_disableAddress hcall h (hmeets.disable_lt disAddress hparams)
  | coinstake strCoinStake =>
    cases hafter
    exact recorded_coinstake hcall h strCoinStake
  | add strAddress nPercent hadds =>
    cases hafter
    exact recorded_add hcall h hadds

/-- The wallets that come of a new one by calls whose operations on the records succeed, each as the
wallet is then, and by closing and loading. -/
inductive Reached (get : String → CTxDestination) (meets : MultiSendCall → MultiSendWallet → Prop) :
    MultiSendWallet → Prop
  | new : Reached get meets {}
  | call {w w' : MultiSendWallet} (h : Reached get meets w) (call : MultiSendCall)
    (hcall : call.Succeeds) (hmeets : meets call w) (hafter : call.after get w = .ok w') :
    Reached get meets w'
  | load {w : MultiSendWallet} (h : Reached get meets w) :
    Reached get meets (loadMultiSend get w.db)

lemma recorded_of_reached (h : Reached get (fun call w => call.Recordable get w) w) :
    MultiSendRecorded get w := by
  induction h with
  | new => exact ⟨shares_nil, by simp, stores_nil_iff.mpr rfl, rfl, by simp, stores_nil_iff.mpr rfl⟩
  | call _ call hcall hmeets hafter ih => exact recorded_after hcall hmeets ih hafter
  | load _ ih => exact ih.load

/-- What is loaded is what was in memory. -/
theorem load_of_reached (h : Reached get (fun call w => call.Recordable get w) w) :
    (loadMultiSend get w.db).vMultiSend = w.vMultiSend ∧
      (loadMultiSend get w.db).fMultiSend = w.fMultiSend ∧
      (loadMultiSend get w.db).vDisabledAddresses = w.vDisabledAddresses :=
  (recorded_of_reached h).load_eq

/-- A new wallet with one entry, which is there after loading. -/
theorem load_of_reached_add :
    let get : String → CTxDestination := fun s => if s = "a" then .CKeyID 1 else .CNoDestination
    let w := (({ params := [some "a", some "40"] } : MultiSendCall).add "a" 40 {}).2
    (loadMultiSend get w.db).vMultiSend = w.vMultiSend ∧
      (loadMultiSend get w.db).fMultiSend = w.fMultiSend ∧
      (loadMultiSend get w.db).vDisabledAddresses = w.vDisabledAddresses := by
  intro get w
  have hadds : Adds { params := [some "a", some "40"] } get "a" 40 :=
    ⟨"40", 40, rfl, by decide, rfl, by decide, by decide, by decide, rfl, by decide⟩
  refine load_of_reached (.call .new { params := [some "a", some "40"] } ?_ ?_ ?_)
  · exact ⟨rfl, fun _ => rfl, fun _ => rfl, rfl, rfl, fun _ => rfl, fun _ => rfl⟩
  · exact ⟨by simp, by simp⟩
  · rw [after, multisend_eq_add hadds]

/-- MultiSend is turned on and the vector is cleared: after loading MultiSend is on. -/
theorem not_load_of_reached :
    ¬ ∀ (get : String → CTxDestination) (w : MultiSendWallet), Reached get (fun _ _ => True) w →
      (loadMultiSend get w.db).vMultiSend = w.vMultiSend ∧
        (loadMultiSend get w.db).fMultiSend = w.fMultiSend ∧
        (loadMultiSend get w.db).vDisabledAddresses = w.vDisabledAddresses := by
  intro h
  let get : String → CTxDestination := fun s => if s = "a" then .CKeyID 1 else .CNoDestination
  let w₁ := (({ params := [some "a", some "40"] } : MultiSendCall).add "a" 40 {}).2
  let w₂ := (({ params := [some "enable"] } : MultiSendCall).enable get w₁).2
  let w₃ := (({ params := [some "clear"] } : MultiSendCall).clear w₂).2
  have hsucceeds : ∀ params, Succeeds { params := params } := fun params =>
    ⟨rfl, fun _ => rfl, fun _ => rfl, rfl, rfl, fun _ => rfl, fun _ => rfl⟩
  have hadds : Adds { params := [some "a", some "40"] } get "a" 40 :=
    ⟨"40", 40, rfl, by decide, rfl, by decide, by decide, by decide, rfl, by decide⟩
  have h₁ : Reached get (fun _ _ => True) w₁ :=
    .call .new { params := [some "a", some "40"] } (hsucceeds _) trivial (by
      rw [after, multisend_eq_add hadds])
  have h₂ : Reached get (fun _ _ => True) w₂ :=
    .call h₁ { params := [some "enable"] } (hsucceeds _) trivial (by
      simp [after, multisend, getStr, bind, Except.bind, pure, Except.pure, w₂])
  have h₃ : Reached get (fun _ _ => True) w₃ :=
    .call h₂ { params := [some "clear"] } (hsucceeds _) trivial (by
      simp [after, multisend, getStr, bind, Except.bind, pure, Except.pure, w₃])
  have hloaded : (loadMultiSend get w₃.db).fMultiSend = true := by
    decide +kernel
  have hmemory : w₃.fMultiSend = false := by
    decide +kernel
  have hflag := (h get w₃ h₃).2.1
  rw [hloaded, hmemory] at hflag
  cases hflag

end MultiSendCall

end HyperStake
