import HyperStake.Net.Alert

/-!
# The alert about the key itself

The largest number is reserved for the alert that the alert key is compromised, which "must never
expire" and must not be overridden.  `ProcessAlert` checks the fields of an alert with this number,
but not whether an alert with a smaller number cancels it, and it takes the alerts that the new one
cancels out of `mapAlerts` before it looks whether the new one is cancelled itself.  In a history of
calls the alert is kept, and no alert with a smaller number is accepted, exactly as long as none of
the alerts that are considered cancels the largest number (`standsFirm_iff`).
-/

namespace HyperStake.Net

/-- A call of `ProcessAlert` and the adjusted time at which it is made. -/
structure AlertCall where
  nAdjustedTime : Int64
  alert : CAlert

namespace AlertCall

variable (hash : Bytes → UInt256) (verify : UInt256 → Bytes → Bool)

/-- The call. -/
def process (call : AlertCall) (mapAlerts : Alerts) : Alerts × Except Fault CAlert.Outcome :=
  call.alert.processAlert hash verify call.nAdjustedTime mapAlerts

/-- The alerts that are held after some calls. -/
def runFrom (mapAlerts : Alerts) (calls : List AlertCall) : Alerts :=
  calls.foldl (fun mapAlerts call => (call.process hash verify mapAlerts).1) mapAlerts

/-- The signature is verified, the data can be read, and the alert is in effect. -/
def IsConsidered (call : AlertCall) : Prop :=
  verify (hash call.alert.vchMsg) call.alert.vchSig = true ∧
    (CUnsignedAlert.unserialize call.alert.toCUnsignedAlert call.alert.vchMsg).2.isOk = true ∧
    call.alert.decoded.isInEffect call.nAdjustedTime = true

/-- An alert with a smaller number that is considered does not cancel the largest number, and is
considered before the largest time that the alert about the key can have expires. -/
def SparesUrgent (call : AlertCall) : Prop :=
  call.IsConsidered hash verify → call.alert.decoded.nID < CAlert.maxInt →
    call.nAdjustedTime < CAlert.maxInt.toInt64 ∧ call.alert.decoded.nCancel < CAlert.maxInt ∧
      call.alert.decoded.setCancel.contains CAlert.maxInt = false

end AlertCall

/-- An alert with the largest number is held. -/
def HoldsUrgent (mapAlerts : Alerts) : Prop :=
  ∃ (h : UInt256) (alert : CAlert), mapAlerts[h]? = some alert ∧ alert.nID = CAlert.maxInt

/-- After every one of some calls an alert with the largest number is held, and no call accepts an
alert with a smaller number. -/
def StandsFirm (hash : Bytes → UInt256) (verify : UInt256 → Bytes → Bool) (mapAlerts : Alerts)
    (calls : List AlertCall) : Prop :=
  ∀ before call after, calls = before ++ call :: after →
    HoldsUrgent (AlertCall.runFrom hash verify mapAlerts (before ++ [call])) ∧
      (call.alert.decoded.nID < CAlert.maxInt →
        (call.process hash verify (AlertCall.runFrom hash verify mapAlerts before)).2 ≠
          .ok .accepted)

namespace CAlert

variable {hash : Bytes → UInt256} {verify : UInt256 → Bytes → Bool} {nAdjustedTime : Int64}
  {self alert : CAlert} {mapAlerts : Alerts} {h : UInt256}

lemma toInt_maxInt : maxInt.toInt = 2147483647 := by decide

lemma lt_maxInt_iff {x : Int32} : x < maxInt ↔ x ≠ maxInt := by
  have hle := x.toInt_lt
  rw [Int32.lt_iff_toInt_lt, Ne, ← Int32.toInt_inj, toInt_maxInt]
  omega

lemma lt_maxInt_iff_le {x : Int32} : x < maxInt ↔ x ≤ maxInt - 1 := by
  rw [Int32.lt_iff_toInt_lt, Int32.le_iff_toInt_le, toInt_maxInt, show (maxInt - 1).toInt =
    2147483646 by decide]
  omega

lemma not_maxInt_le_iff {x : Int32} : ¬ maxInt ≤ x ↔ x < maxInt := by
  rw [Int32.not_le]

/-- An alert with the largest number that has the fields it has to have is in effect until the
largest time. -/
lemma isInEffect_iff_of_isUrgent (hid : alert.nID = maxInt) (hurgent : alert.isUrgent = true) :
    alert.isInEffect nAdjustedTime = true ↔ nAdjustedTime < maxInt.toInt64 := by
  have hexpiration : alert.nExpiration = maxInt.toInt64 := by
    simp only [isUrgent, Bool.and_eq_true, decide_eq_true_eq] at hurgent
    exact hurgent.1.1.1.1.1.1
  rw [isInEffect, hid, if_neg (by decide), hexpiration, decide_eq_true_eq]

lemma nCancel_of_isUrgent (hurgent : alert.isUrgent = true) : alert.nCancel = maxInt - 1 := by
  simp only [isUrgent, Bool.and_eq_true, decide_eq_true_eq] at hurgent
  exact hurgent.1.1.1.1.1.2

/-- It cancels every alert with a smaller number. -/
lemma cancels_of_isUrgent (hid : alert.nID = maxInt) (hurgent : alert.isUrgent = true)
    (htime : nAdjustedTime < maxInt.toInt64) (hlt : self.nID < maxInt) :
    alert.cancels nAdjustedTime self = true := by
  rw [cancels, (isInEffect_iff_of_isUrgent hid hurgent).mpr htime, nCancel_of_isUrgent hurgent,
    decide_eq_true (lt_maxInt_iff_le.mp hlt)]
  rfl

/-- When an alert that is in effect cancels the largest number. -/
lemma cancels_iff_of_maxInt (hid : alert.nID = maxInt)
    (heffect : self.isInEffect nAdjustedTime = true) :
    self.cancels nAdjustedTime alert = false ↔
      self.nCancel < maxInt ∧ self.setCancel.contains maxInt = false := by
  rw [cancels, heffect, hid]
  simp only [Bool.not_true, Bool.false_eq_true, if_false, Bool.or_eq_false_iff,
    decide_eq_false_iff_not, not_maxInt_le_iff]

/-- Every alert with the largest number that is held has the fields that it has to have. -/
def OnlyUrgent (mapAlerts : Alerts) : Prop :=
  ∀ (h : UInt256) (alert : CAlert), mapAlerts[h]? = some alert → alert.nID = maxInt →
    alert.isUrgent = true

/-- What a call does with an alert: it leaves all as it is, or it drops the alerts that the new one
cancels and then refuses or accepts the new one. -/
lemma consider_cases (hash : Bytes → UInt256) (nAdjustedTime : Int64) (self : CAlert)
    (mapAlerts : Alerts) :
    ((self.consider hash nAdjustedTime mapAlerts).1 = mapAlerts ∧
        (self.consider hash nAdjustedTime mapAlerts).2 ≠ .accepted ∧
        (self.isInEffect nAdjustedTime = true → self.nID = maxInt)) ∨
      self.isInEffect nAdjustedTime = true ∧ (self.nID = maxInt → self.isUrgent = true) ∧
        (self.consider hash nAdjustedTime mapAlerts =
            (self.dropCancelled nAdjustedTime mapAlerts, .alreadyCancelled) ∧
            self.isCancelled nAdjustedTime (self.dropCancelled nAdjustedTime mapAlerts) = true ∨
          self.consider hash nAdjustedTime mapAlerts =
            ((self.dropCancelled nAdjustedTime mapAlerts).insertIfNew (hash self.vchMsg) self,
              .accepted) ∧
            self.isCancelled nAdjustedTime (self.dropCancelled nAdjustedTime mapAlerts) = false) := by
  unfold consider
  dsimp only
  split_ifs with heffect hreserved hcancelled
  · refine Or.inl ⟨rfl, by simp, fun h => ?_⟩
    rw [h] at heffect
    exact absurd heffect (by decide)
  · exact Or.inl ⟨rfl, by simp, fun _ => hreserved.1⟩
  · refine Or.inr ⟨by simpa using heffect, fun hid => ?_, Or.inl ⟨rfl, hcancelled⟩⟩
    simpa [hid] using hreserved
  · refine Or.inr ⟨by simpa using heffect, fun hid => ?_, Or.inr ⟨rfl, by simpa using hcancelled⟩⟩
    simpa [hid] using hreserved

/-- A refused alert is cancelled by one that is held. -/
lemma exists_cancels_of_isCancelled (hcancelled : self.isCancelled nAdjustedTime mapAlerts = true) :
    ∃ (h : UInt256) (alert : CAlert), mapAlerts[h]? = some alert ∧
      alert.cancels nAdjustedTime self = true := by
  obtain ⟨⟨h, alert⟩, hmem, hcancels⟩ := List.any_eq_true.mp hcancelled
  exact ⟨h, alert, Std.ExtTreeMap.mem_toList_iff_getElem?_eq_some.mp hmem, hcancels⟩

/-- What is held after an alert has been accepted was held before, or is the new alert. -/
lemma eq_or_getElem?_of_insertIfNew {k : UInt256}
    (hget : (mapAlerts.insertIfNew k self)[h]? = some alert) :
    alert = self ∨ mapAlerts[h]? = some alert := by
  rw [MapLoop.getElem?_insertIfNew_eq] at hget
  split_ifs at hget with hkey
  · cases hold : mapAlerts[h]? with
    | none =>
      rw [hold] at hget
      exact Or.inl (Option.some.inj hget).symm
    | some old =>
      rw [hold] at hget
      exact Or.inr hget
  · exact Or.inr hget

lemma OnlyUrgent.dropCancelled (honly : OnlyUrgent mapAlerts) :
    OnlyUrgent (self.dropCancelled nAdjustedTime mapAlerts) :=
  fun h alert hget => honly h alert (getElem?_dropCancelled.mp hget).1

/-- Only alerts with the fields they have to have are accepted under the largest number. -/
lemma OnlyUrgent.consider (honly : OnlyUrgent mapAlerts) :
    OnlyUrgent (self.consider hash nAdjustedTime mapAlerts).1 := by
  rcases consider_cases hash nAdjustedTime self mapAlerts with
    ⟨hsame, -, -⟩ | ⟨-, hurgent, ⟨heq, -⟩ | ⟨heq, -⟩⟩
  · rw [hsame]
    exact honly
  · rw [heq]
    exact honly.dropCancelled
  · rw [heq]
    intro h alert hget hid
    obtain rfl | hold := eq_or_getElem?_of_insertIfNew hget
    · exact hurgent hid
    · exact honly.dropCancelled h alert hold hid

section

variable (hid : self.nID = maxInt) (hurgent : self.isUrgent = true)
  (heffect : self.isInEffect nAdjustedTime = true)

include hid hurgent heffect

/-- An alert with the largest number that is in effect drops all alerts with smaller numbers. -/
lemma nID_of_dropCancelled (hget : (self.dropCancelled nAdjustedTime mapAlerts)[h]? = some alert) :
    alert.nID = maxInt := by
  by_contra hne
  have hcancels := cancels_of_isUrgent hid hurgent
    ((isInEffect_iff_of_isUrgent hid hurgent).mp heffect) (lt_maxInt_iff.mpr hne)
  rw [(getElem?_dropCancelled.mp hget).2.1] at hcancels
  cases hcancels

/-- After the new alert has been refused or accepted, one with the largest number is held if the new
one has it. -/
lemma holdsUrgent_of_considered :
    (self.isCancelled nAdjustedTime (self.dropCancelled nAdjustedTime mapAlerts) = true →
      HoldsUrgent (self.dropCancelled nAdjustedTime mapAlerts)) ∧
    HoldsUrgent ((self.dropCancelled nAdjustedTime mapAlerts).insertIfNew (hash self.vchMsg)
      self) := by
  constructor
  · intro hcancelled
    obtain ⟨h, alert, hget, -⟩ := exists_cancels_of_isCancelled hcancelled
    exact ⟨h, alert, hget, nID_of_dropCancelled hid hurgent heffect hget⟩
  · have hget := MapLoop.getElem?_insertIfNew_eq (self.dropCancelled nAdjustedTime mapAlerts)
      (hash self.vchMsg) (hash self.vchMsg) self
    rw [if_pos rfl] at hget
    refine ⟨_, _, hget, ?_⟩
    obtain heq | hold := eq_or_getElem?_of_insertIfNew hget
    · rw [heq, hid]
    · exact nID_of_dropCancelled hid hurgent heffect hold

end

section

variable (honly : OnlyUrgent mapAlerts) (hholds : HoldsUrgent mapAlerts)

include honly hholds

/-- An alert with a smaller number leaves an alert with the largest number if and only if it does
not cancel that number and is considered in time.  It is refused then. -/
lemma holdsUrgent_dropCancelled_iff (heffect : self.isInEffect nAdjustedTime = true) :
    HoldsUrgent (self.dropCancelled nAdjustedTime mapAlerts) ↔
      nAdjustedTime < maxInt.toInt64 ∧ self.nCancel < maxInt ∧
        self.setCancel.contains maxInt = false := by
  constructor
  · rintro ⟨h, alert, hget, hid⟩
    obtain ⟨hheld, hnot, halive⟩ := getElem?_dropCancelled.mp hget
    exact ⟨(isInEffect_iff_of_isUrgent hid (honly h alert hheld hid)).mp halive,
      (cancels_iff_of_maxInt hid heffect).mp hnot⟩
  · rintro ⟨htime, hspared⟩
    obtain ⟨h, alert, hheld, hid⟩ := hholds
    refine ⟨h, alert, getElem?_dropCancelled.mpr ⟨hheld, ?_, ?_⟩, hid⟩
    · exact (cancels_iff_of_maxInt hid heffect).mpr hspared
    · exact (isInEffect_iff_of_isUrgent hid (honly h alert hheld hid)).mpr htime

/-- An alert with a smaller number is refused while one with the largest number is held. -/
lemma isCancelled_of_holdsUrgent
    (htime : nAdjustedTime < maxInt.toInt64) (hlt : self.nID < maxInt) :
    self.isCancelled nAdjustedTime mapAlerts = true := by
  obtain ⟨h, alert, hget, hid⟩ := hholds
  refine List.any_eq_true.mpr ⟨(h, alert), ?_, ?_⟩
  · exact Std.ExtTreeMap.mem_toList_iff_getElem?_eq_some.mpr hget
  · exact cancels_of_isUrgent hid (honly h alert hget hid) htime hlt

/-- One call, when the signature has been checked. -/
lemma consider_iff :
    (HoldsUrgent (self.consider hash nAdjustedTime mapAlerts).1 ∧ (self.nID < maxInt →
        (self.consider hash nAdjustedTime mapAlerts).2 ≠ .accepted)) ↔
      (self.isInEffect nAdjustedTime = true → self.nID < maxInt →
        nAdjustedTime < maxInt.toInt64 ∧ self.nCancel < maxInt ∧
          self.setCancel.contains maxInt = false) := by
  rcases consider_cases hash nAdjustedTime self mapAlerts with
    ⟨hsame, hrefused, hlargest⟩ | ⟨heffect, hurgent, hcases⟩
  · rw [hsame]
    refine iff_of_true ⟨hholds, fun _ => hrefused⟩ fun heffect hlt => ?_
    exact absurd (hlargest heffect) (lt_maxInt_iff.mp hlt)
  by_cases hid : self.nID = maxInt
  · have hnot : ¬ self.nID < maxInt := fun hlt => lt_maxInt_iff.mp hlt hid
    refine iff_of_true ⟨?_, fun hlt => absurd hlt hnot⟩ fun _ hlt => absurd hlt hnot
    obtain ⟨hrefused, haccepted⟩ := @holdsUrgent_of_considered hash nAdjustedTime self mapAlerts
      hid (hurgent hid) heffect
    rcases hcases with ⟨heq, hcancelled⟩ | ⟨heq, -⟩
    · rw [heq]
      exact hrefused hcancelled
    · rw [heq]
      exact haccepted
  · have hlt := lt_maxInt_iff.mpr hid
    have hdropped := @holdsUrgent_dropCancelled_iff nAdjustedTime self mapAlerts honly hholds heffect
    rcases hcases with ⟨heq, -⟩ | ⟨heq, hcancelled⟩
    · rw [heq]
      constructor
      · exact fun hheld _ _ => hdropped.mp hheld.1
      · exact fun hspares => ⟨hdropped.mpr (hspares heffect hlt), fun _ => by simp⟩
    · -- an alert with a smaller number is accepted only after the urgent ones have been dropped
      rw [heq]
      refine iff_of_false (fun hheld => hheld.2 hlt rfl) fun hspares => ?_
      have hspared := hspares heffect hlt
      have hrefused := isCancelled_of_holdsUrgent honly.dropCancelled
        (hdropped.mpr hspared) hspared.1 hlt
      rw [hcancelled] at hrefused
      cases hrefused

end

end CAlert

namespace AlertCall

open CAlert

variable {hash : Bytes → UInt256} {verify : UInt256 → Bytes → Bool} {call : AlertCall}
  {mapAlerts : Alerts}

/-- An alert that is not read leaves all as it is; one that is read is considered. -/
lemma process_cases (hash : Bytes → UInt256) (verify : UInt256 → Bytes → Bool) (call : AlertCall)
    (mapAlerts : Alerts) :
    ((call.process hash verify mapAlerts).1 = mapAlerts ∧
        (call.process hash verify mapAlerts).2 ≠ .ok .accepted ∧
        ¬ call.IsConsidered hash verify) ∨
      verify (hash call.alert.vchMsg) call.alert.vchSig = true ∧
        (CUnsignedAlert.unserialize call.alert.toCUnsignedAlert call.alert.vchMsg).2.isOk = true ∧
        call.process hash verify mapAlerts =
          ((call.alert.decoded.consider hash call.nAdjustedTime mapAlerts).1,
            .ok (call.alert.decoded.consider hash call.nAdjustedTime mapAlerts).2) := by
  unfold process processAlert IsConsidered
  split_ifs with hsigned
  · refine Or.inl ⟨rfl, by simp, fun hconsidered => ?_⟩
    rw [hconsidered.1] at hsigned
    cases hsigned
  · cases (CUnsignedAlert.unserialize call.alert.toCUnsignedAlert call.alert.vchMsg).2 with
    | error e =>
      refine Or.inl ⟨rfl, by simp, fun hconsidered => ?_⟩
      cases hconsidered.2.1
    | ok rest => exact Or.inr ⟨by simpa using hsigned, rfl, rfl⟩

lemma onlyUrgent_process (honly : OnlyUrgent mapAlerts) :
    OnlyUrgent (call.process hash verify mapAlerts).1 := by
  rcases process_cases hash verify call mapAlerts with ⟨hsame, -, -⟩ | ⟨-, -, heq⟩
  · rw [hsame]
    exact honly
  · rw [heq]
    exact honly.consider

lemma onlyUrgent_runFrom (honly : OnlyUrgent mapAlerts) (calls : List AlertCall) :
    OnlyUrgent (runFrom hash verify mapAlerts calls) := by
  induction calls generalizing mapAlerts with
  | nil => exact honly
  | cons call calls ih => exact ih (onlyUrgent_process honly)

/-- One call. -/
lemma process_iff (honly : OnlyUrgent mapAlerts) (hholds : HoldsUrgent mapAlerts) :
    (HoldsUrgent (call.process hash verify mapAlerts).1 ∧ (call.alert.decoded.nID < maxInt →
        (call.process hash verify mapAlerts).2 ≠ .ok .accepted)) ↔
      call.SparesUrgent hash verify := by
  rcases process_cases hash verify call mapAlerts with ⟨hsame, hrefused, hnot⟩ | ⟨hsigned, hread, heq⟩
  · rw [hsame]
    exact iff_of_true ⟨hholds, fun _ => hrefused⟩ fun hconsidered => absurd hconsidered hnot
  · rw [heq, SparesUrgent, IsConsidered, Ne, Except.ok.injEq]
    refine (consider_iff honly hholds).trans ?_
    simp only [hsigned, hread, true_and]

/-- An alert with the largest number is held after one has been accepted. -/
lemma holdsUrgent_of_accepted (haccepted : (call.process hash verify mapAlerts).2 = .ok .accepted)
    (hid : call.alert.decoded.nID = maxInt) :
    HoldsUrgent (call.process hash verify mapAlerts).1 := by
  rcases process_cases hash verify call mapAlerts with ⟨-, hrefused, -⟩ | ⟨-, -, heq⟩
  · exact absurd haccepted hrefused
  rw [heq] at haccepted ⊢
  rcases consider_cases hash call.nAdjustedTime call.alert.decoded mapAlerts with
    ⟨-, hrefused, -⟩ | ⟨heffect, hurgent, ⟨hout, -⟩ | ⟨hout, -⟩⟩
  · exact absurd (Except.ok.inj haccepted) hrefused
  · rw [hout] at haccepted
    cases haccepted
  · rw [hout]
    exact (holdsUrgent_of_considered hid (hurgent hid) heffect).2

end AlertCall

/-! ## Any calls -/

section Run

open CAlert AlertCall

variable {hash : Bytes → UInt256} {verify : UInt256 → Bytes → Bool} {mapAlerts : Alerts}

lemma standsFirm_nil : StandsFirm hash verify mapAlerts [] := by
  intro before call after heq
  cases before <;> cases heq

lemma standsFirm_cons {call : AlertCall} {calls : List AlertCall} :
    StandsFirm hash verify mapAlerts (call :: calls) ↔
      (HoldsUrgent (call.process hash verify mapAlerts).1 ∧ (call.alert.decoded.nID < maxInt →
        (call.process hash verify mapAlerts).2 ≠ .ok .accepted)) ∧
      StandsFirm hash verify (call.process hash verify mapAlerts).1 calls := by
  constructor
  · intro hfirm
    refine ⟨hfirm [] call calls rfl, fun before call' after heq => ?_⟩
    exact hfirm (call :: before) call' after (congrArg (call :: ·) heq)
  · rintro ⟨hcall, hfirm⟩ before call' after heq
    rcases List.cons_eq_append_iff.mp heq with ⟨rfl, heq⟩ | ⟨before', rfl, htail⟩
    · cases heq
      exact hcall
    · exact hfirm before' call' after htail

/-- From alerts with an urgent one on. -/
lemma standsFirm_iff_of_holdsUrgent (honly : OnlyUrgent mapAlerts) (hholds : HoldsUrgent mapAlerts)
    (calls : List AlertCall) :
    StandsFirm hash verify mapAlerts calls ↔ ∀ call ∈ calls, call.SparesUrgent hash verify := by
  induction calls generalizing mapAlerts with
  | nil => exact iff_of_true standsFirm_nil (List.forall_mem_nil _)
  | cons call calls ih =>
    rw [standsFirm_cons, List.forall_mem_cons, ← process_iff honly hholds]
    exact and_congr_right fun hcall => ih (onlyUrgent_process honly) hcall.1

/-- Once an alert with the largest number has been accepted, one is held after every later call, and
no later call accepts an alert with a smaller number, if and only if no alert with a smaller number
that is considered cancels the largest number, and none is considered after the largest time. -/
theorem standsFirm_iff (hash : Bytes → UInt256) (verify : UInt256 → Bytes → Bool)
    (before : List AlertCall) (call : AlertCall) (after : List AlertCall)
    (haccepted : (call.process hash verify (runFrom hash verify ∅ before)).2 = .ok .accepted)
    (hid : call.alert.decoded.nID = maxInt) :
    StandsFirm hash verify (runFrom hash verify ∅ (before ++ [call])) after ↔
      ∀ call ∈ after, call.SparesUrgent hash verify := by
  have honly : OnlyUrgent (runFrom hash verify ∅ before) := by
    refine onlyUrgent_runFrom (fun h alert hget => ?_) before
    simp at hget
  rw [runFrom, List.foldl_append]
  exact standsFirm_iff_of_holdsUrgent (onlyUrgent_process honly)
    (holdsUrgent_of_accepted haccepted hid) after

end Run

/-! ## An alert that the key is compromised is overridden -/

/-- The alert that the key is compromised, with the fields it has to have. -/
def compromised : CAlert where
  vchMsg := serializeInt32 1 ++ serializeInt64 0 ++ serializeInt64 CAlert.maxInt.toInt64 ++
    serializeInt32 CAlert.maxInt ++ serializeInt32 (CAlert.maxInt - 1) ++ [0] ++ serializeInt32 0 ++
    serializeInt32 CAlert.maxInt ++ [0] ++ serializeInt32 CAlert.maxInt ++ [0] ++
    serializeString CAlert.urgent ++ [0]

/-- It is received at the time 50. -/
def compromisedCall : AlertCall := { nAdjustedTime := 50, alert := compromised }

lemma accepted_compromised :
    (compromisedCall.process CAlert.testHash (fun _ _ => true) ∅).2 = .ok .accepted := by
  have haccepted : (compromisedCall.process CAlert.testHash (fun _ _ => true) ∅).2.toOption =
      some .accepted := by decide +kernel
  generalize (compromisedCall.process CAlert.testHash (fun _ _ => true) ∅).2 = result at haccepted
  cases result with
  | error e => cases haccepted
  | ok outcome => exact congrArg Except.ok (Option.some.inj haccepted)

lemma nID_compromised : compromised.decoded.nID = CAlert.maxInt := by decide +kernel

/-- Another alert that cancels the numbers up to 250 and the number 400. -/
theorem standsFirm_compromised :
    StandsFirm CAlert.testHash (fun _ _ => true)
      (AlertCall.runFrom CAlert.testHash (fun _ _ => true) ∅ ([] ++ [compromisedCall]))
      [{ nAdjustedTime := 60, alert := CAlert.testAlert 300 250 [400] }] := by
  refine (standsFirm_iff CAlert.testHash (fun _ _ => true) [] compromisedCall _
    accepted_compromised nID_compromised).mpr fun call hcall => ?_
  obtain rfl := List.mem_singleton.mp hcall
  exact fun _ _ => ⟨by decide +kernel, by decide +kernel, by decide +kernel⟩

/-- An alert with the number 200 that cancels all numbers takes the alert about the key away. -/
theorem not_standsFirm : ¬ ∀ (hash : Bytes → UInt256) (verify : UInt256 → Bytes → Bool)
    (before : List AlertCall) (call : AlertCall) (after : List AlertCall),
    (call.process hash verify (AlertCall.runFrom hash verify ∅ before)).2 = .ok .accepted →
    call.alert.decoded.nID = CAlert.maxInt →
    StandsFirm hash verify (AlertCall.runFrom hash verify ∅ (before ++ [call])) after := by
  intro hall
  have hfirm := hall CAlert.testHash (fun _ _ => true) [] compromisedCall
    [{ nAdjustedTime := 60, alert := CAlert.testAlert 200 CAlert.maxInt [] }] accepted_compromised
    nID_compromised
  have honly : CAlert.OnlyUrgent (∅ : Alerts) := by
    intro h alert hget
    simp at hget
  have hspares := (standsFirm_iff_of_holdsUrgent (AlertCall.onlyUrgent_process honly)
    (AlertCall.holdsUrgent_of_accepted accepted_compromised nID_compromised) _).mp hfirm
  have hspared := hspares _ (List.mem_singleton_self _)
    ⟨rfl, by decide +kernel, by decide +kernel⟩ (by decide +kernel)
  revert hspared
  decide +kernel

end HyperStake.Net
