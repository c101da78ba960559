import HyperStake.Formats
import HyperStake.Library.MapLoop

/-!
# Alerts

A signed message to the users of the node.  An alert cancels others by their numbers, and it is in
effect until it expires.  `ProcessAlert` takes the alerts that the new one cancels, and those that
have expired, out of `mapAlerts`, and only then looks whether the new one is cancelled itself: no
alert that is held cancels another one (`processAlert_run`), but alerts get lost to one that is
refused (`not_keeps_processAlert`).

The notifications of the user interface are left out.
-/

namespace HyperStake.Net

open FieldReader

/-- The data of an alert. -/
structure CUnsignedAlert where
  nVersion : Int32 := 1
  nRelayUntil : Int64 := 0
  nExpiration : Int64 := 0
  nID : Int32 := 0
  nCancel : Int32 := 0
  setCancel : Std.ExtTreeSet Int32 := ∅
  /-- The lowest version, inclusive. -/
  nMinVer : Int32 := 0
  /-- The highest version, inclusive. -/
  nMaxVer : Int32 := 0
  /-- If it is empty, all match. -/
  setSubVer : Std.ExtTreeSet Bytes := ∅
  nPriority : Int32 := 0
  strComment : Bytes := []
  strStatusBar : Bytes := []
  strReserved : Bytes := []

def CUnsignedAlert.unserialize : Reader Fault UInt8 CUnsignedAlert :=
  andThen (field nVersion (fun x a => { a with nVersion := x }) unserializeInt32) <|
  andThen (field nRelayUntil (fun x a => { a with nRelayUntil := x }) unserializeInt64) <|
  andThen (field nExpiration (fun x a => { a with nExpiration := x }) unserializeInt64) <|
  andThen (field nID (fun x a => { a with nID := x }) unserializeInt32) <|
  andThen (field nCancel (fun x a => { a with nCancel := x }) unserializeInt32) <|
  andThen (field setCancel (fun x a => { a with setCancel := x })
    (Format.set compare Fundamental.signedInt.format).unserialize) <|
  andThen (field nMinVer (fun x a => { a with nMinVer := x }) unserializeInt32) <|
  andThen (field nMaxVer (fun x a => { a with nMaxVer := x }) unserializeInt32) <|
  andThen (field setSubVer (fun x a => { a with setSubVer := x })
    (Format.set compare Format.string).unserialize) <|
  andThen (field nPriority (fun x a => { a with nPriority := x }) unserializeInt32) <|
  andThen (field strComment (fun x a => { a with strComment := x }) unserializeString) <|
  andThen (field strStatusBar (fun x a => { a with strStatusBar := x }) unserializeString)
    (field strReserved (fun x a => { a with strReserved := x }) unserializeString)

/-- An alert: the bytes of its data and a signature. -/
structure CAlert extends CUnsignedAlert where
  vchMsg : Bytes := []
  vchSig : Bytes := []

/-- The alerts that are held, by their hashes. -/
abbrev Alerts := Std.ExtTreeMap UInt256 CAlert

namespace CAlert

def isInEffect (nAdjustedTime : Int64) (alert : CAlert) : Bool :=
  if alert.nID < 200 then false else decide (nAdjustedTime < alert.nExpiration)

def cancels (nAdjustedTime : Int64) (self alert : CAlert) : Bool :=
  if !self.isInEffect nAdjustedTime then false
  else decide (alert.nID ≤ self.nCancel) || self.setCancel.contains alert.nID

/-- How `ProcessAlert` ends: it returns whether the alert is accepted, and it prints why not. -/
inductive Outcome where
  | signatureFailed
  | notInEffect
  /-- The number is reserved for an alert about the key itself. -/
  | reserved
  | alreadyCancelled
  | accepted
  deriving DecidableEq

/-- `std::numeric_limits<int>::max()`. -/
def maxInt : Int32 := 0x7fffffff

/-- The message of an alert about the key itself. -/
def urgent : Bytes :=
  "URGENT: Alert key compromised, upgrade required".toList.map fun c => UInt8.ofNat c.toNat

/-- What an alert with the largest number has to be. -/
def isUrgent (alert : CAlert) : Bool :=
  decide (alert.nExpiration = maxInt.toInt64) && decide (alert.nCancel = maxInt - 1) &&
    decide (alert.nMinVer = 0) && decide (alert.nMaxVer = maxInt) && alert.setSubVer.isEmpty &&
    decide (alert.nPriority = maxInt) && decide (alert.strStatusBar = urgent)

/-- The alert with the data that `CheckSignature` reads from its bytes. -/
def decoded (alert : CAlert) : CAlert :=
  { alert with toCUnsignedAlert :=
      (CUnsignedAlert.unserialize alert.toCUnsignedAlert alert.vchMsg).1 }

/-- The loop of `ProcessAlert` that cancels previous alerts. -/
def dropCancelled (nAdjustedTime : Int64) (self : CAlert) (mapAlerts : Alerts) : Alerts :=
  mapAlerts.filter fun _ alert =>
    !(self.cancels nAdjustedTime alert || !alert.isInEffect nAdjustedTime)

/-- The loop of `ProcessAlert` that checks if the alert has been cancelled. -/
def isCancelled (nAdjustedTime : Int64) (self : CAlert) (mapAlerts : Alerts) : Bool :=
  mapAlerts.toList.any fun item => item.2.cancels nAdjustedTime self

variable (hash : Bytes → UInt256) (verify : UInt256 → Bytes → Bool) (nAdjustedTime : Int64)

/-- `ProcessAlert`, when the signature has been checked. -/
def consider (self : CAlert) (mapAlerts : Alerts) : Alerts × Outcome :=
  if !self.isInEffect nAdjustedTime then (mapAlerts, .notInEffect)
  else if self.nID = maxInt ∧ !self.isUrgent then (mapAlerts, .reserved)
  else
    let mapAlerts := self.dropCancelled nAdjustedTime mapAlerts
    if self.isCancelled nAdjustedTime mapAlerts then (mapAlerts, .alreadyCancelled)
    else (mapAlerts.insertIfNew (hash self.vchMsg) self, .accepted)

/-- `ProcessAlert`; `verify` is the verification with the public key of the network. -/
def processAlert (self : CAlert) (mapAlerts : Alerts) : Alerts × Except Fault Outcome :=
  if !verify (hash self.vchMsg) self.vchSig then (mapAlerts, .ok .signatureFailed)
  else
    match (CUnsignedAlert.unserialize self.toCUnsignedAlert self.vchMsg).2 with
    | .error e => (mapAlerts, .error e)
    | .ok _ =>
      let (mapAlerts, outcome) := self.decoded.consider hash nAdjustedTime mapAlerts
      (mapAlerts, .ok outcome)

/-- The alerts that are held after some calls of `ProcessAlert`, from none on. -/
def run (alerts : List CAlert) : Alerts :=
  alerts.foldl (fun mapAlerts alert => (alert.processAlert hash verify nAdjustedTime mapAlerts).1) ∅

/-- No alert that is held cancels another one. -/
def Consistent (mapAlerts : Alerts) : Prop :=
  ∀ (h h' : UInt256) (alert alert' : CAlert), mapAlerts[h]? = some alert → mapAlerts[h']? = some alert' → h ≠ h' →
    alert.cancels nAdjustedTime alert' = false

/-- Every alert that is in effect is still held. -/
def Keeps (mapAlerts mapAlerts' : Alerts) : Prop :=
  ∀ (h : UInt256) (alert : CAlert), mapAlerts[h]? = some alert → alert.isInEffect nAdjustedTime = true →
    mapAlerts'[h]? = some alert

variable {hash verify nAdjustedTime} {self alert : CAlert} {mapAlerts : Alerts} {h : UInt256}

lemma getElem?_dropCancelled : (self.dropCancelled nAdjustedTime mapAlerts)[h]? = some alert ↔
    mapAlerts[h]? = some alert ∧ self.cancels nAdjustedTime alert = false ∧
      alert.isInEffect nAdjustedTime = true := by
  rw [dropCancelled, Std.ExtTreeMap.getElem?_filter', Option.filter_eq_some_iff, Bool.not_or,
    Bool.not_not, Bool.and_eq_true, Bool.not_eq_true']

lemma isCancelled_eq_false (hnot : self.isCancelled nAdjustedTime mapAlerts = false)
    (hget : mapAlerts[h]? = some alert) : alert.cancels nAdjustedTime self = false := by
  have hall := List.any_eq_false.mp hnot (h, alert)
    (Std.ExtTreeMap.mem_toList_iff_getElem?_eq_some.mpr hget)
  simpa using hall

/-! ## One call -/

section

variable (hheld : Consistent nAdjustedTime mapAlerts)

include hheld

/-- Taking alerts away leaves those that are held consistent. -/
lemma Consistent.dropCancelled :
    Consistent nAdjustedTime (self.dropCancelled nAdjustedTime mapAlerts) :=
  fun h h' alert alert' hget hget' => hheld h h' alert alert' (getElem?_dropCancelled.mp hget).1
    (getElem?_dropCancelled.mp hget').1

/-- No alert that is held cancels another one after an alert has been accepted or refused. -/
lemma Consistent.consider :
    Consistent nAdjustedTime (self.consider hash nAdjustedTime mapAlerts).1 := by
  unfold CAlert.consider
  dsimp only
  split_ifs with heffect hreserved hcancelled
  · exact hheld
  · exact hheld
  · exact hheld.dropCancelled
  · have hnot : self.isCancelled nAdjustedTime (self.dropCancelled nAdjustedTime mapAlerts) = false :=
      Bool.not_eq_true _ ▸ hcancelled
    intro h h' alert alert' hget hget' hne
    rw [MapLoop.getElem?_insertIfNew_eq] at hget hget'
    split_ifs at hget hget' with heq heq' heq'
    · exact absurd (heq.symm.trans heq') hne
    · -- the new alert, or the one that is held under its hash
      subst heq
      cases hold : (self.dropCancelled nAdjustedTime mapAlerts)[hash self.vchMsg]? with
      | none =>
        rw [hold] at hget
        cases hget
        exact (getElem?_dropCancelled.mp hget').2.1
      | some old =>
        rw [hold] at hget
        cases hget
        exact hheld.dropCancelled _ _ _ _ hold hget' hne
    · subst heq'
      cases hold : (self.dropCancelled nAdjustedTime mapAlerts)[hash self.vchMsg]? with
      | none =>
        rw [hold] at hget'
        cases hget'
        exact isCancelled_eq_false hnot hget
      | some old =>
        rw [hold] at hget'
        cases hget'
        exact hheld.dropCancelled _ _ _ _ hget hold hne
    · exact hheld.dropCancelled _ _ _ _ hget hget' hne

lemma Consistent.processAlert :
    Consistent nAdjustedTime (self.processAlert hash verify nAdjustedTime mapAlerts).1 := by
  unfold CAlert.processAlert
  split_ifs
  · exact hheld
  · cases (CUnsignedAlert.unserialize self.toCUnsignedAlert self.vchMsg).2 with
    | error e => exact hheld
    | ok rest => exact hheld.consider

end

lemma consistent_run (alerts : List CAlert) :
    Consistent nAdjustedTime (run hash verify nAdjustedTime alerts) := by
  have hfold : ∀ mapAlerts, Consistent nAdjustedTime mapAlerts →
      Consistent nAdjustedTime (alerts.foldl (fun mapAlerts alert =>
        (alert.processAlert hash verify nAdjustedTime mapAlerts).1) mapAlerts) := by
    induction alerts with
    | nil => exact fun _ hheld => hheld
    | cons alert alerts ih => exact fun mapAlerts hheld => ih _ hheld.processAlert
  refine hfold ∅ fun h h' alert alert' hget => ?_
  simp at hget

/-- What is left when an alert is refused because it is cancelled. -/
lemma processAlert_of_alreadyCancelled
    (hrefused : (self.processAlert hash verify nAdjustedTime mapAlerts).2 = .ok .alreadyCancelled) :
    (self.processAlert hash verify nAdjustedTime mapAlerts).1 =
      self.decoded.dropCancelled nAdjustedTime mapAlerts := by
  unfold processAlert at hrefused ⊢
  split_ifs at hrefused ⊢
  · cases hrefused
  · cases hread : (CUnsignedAlert.unserialize self.toCUnsignedAlert self.vchMsg).2 with
    | error e =>
      rw [hread] at hrefused
      cases hrefused
    | ok rest =>
      rw [hread] at hrefused
      have houtcome : (self.decoded.consider hash nAdjustedTime mapAlerts).2 = .alreadyCancelled :=
        Except.ok.inj hrefused
      unfold consider at houtcome ⊢
      dsimp only at houtcome ⊢
      split_ifs at houtcome ⊢
      rfl

/-- Nothing is lost exactly if the alert that is refused cancels no alert that is in effect. -/
lemma keeps_dropCancelled_iff :
    Keeps nAdjustedTime mapAlerts (self.dropCancelled nAdjustedTime mapAlerts) ↔
      ∀ (h : UInt256) (alert : CAlert), mapAlerts[h]? = some alert →
        alert.isInEffect nAdjustedTime = true → self.cancels nAdjustedTime alert = false := by
  constructor
  · intro hkeeps h alert hget heffect
    exact (getElem?_dropCancelled.mp (hkeeps h alert hget heffect)).2.1
  · intro hnone h alert hget heffect
    exact getElem?_dropCancelled.mpr ⟨hget, hnone h alert hget heffect, heffect⟩

/-! ## Any calls -/

/-- After any calls no alert that is held cancels another one.  A call that refuses an alert because
it is cancelled keeps every alert that is in effect exactly if the refused alert cancels none of
them. -/
theorem processAlert_run (hash : Bytes → UInt256) (verify : UInt256 → Bytes → Bool)
    (nAdjustedTime : Int64) (alerts : List CAlert) :
    Consistent nAdjustedTime (run hash verify nAdjustedTime alerts) ∧
      ∀ self : CAlert, (self.processAlert hash verify nAdjustedTime
          (run hash verify nAdjustedTime alerts)).2 = .ok .alreadyCancelled →
        (Keeps nAdjustedTime (run hash verify nAdjustedTime alerts)
            (self.processAlert hash verify nAdjustedTime (run hash verify nAdjustedTime alerts)).1 ↔
          ∀ (h : UInt256) (alert : CAlert),
            (run hash verify nAdjustedTime alerts)[h]? = some alert →
            alert.isInEffect nAdjustedTime = true →
            self.decoded.cancels nAdjustedTime alert = false) := by
  refine ⟨consistent_run alerts, fun self hrefused => ?_⟩
  rw [processAlert_of_alreadyCancelled hrefused]
  exact keeps_dropCancelled_iff

/-! ## An alert that is refused -/

/-- An alert that expires at the time 100, with the numbers that it cancels. -/
def testAlert (nID nCancel : Int32) (setCancel : List Int32) : CAlert where
  vchMsg := serializeInt32 1 ++ serializeInt64 100 ++ serializeInt64 100 ++ serializeInt32 nID ++
    serializeInt32 nCancel ++ serializeVector serializeInt32 setCancel ++ serializeInt32 0 ++
    serializeInt32 0 ++ [0] ++ serializeInt32 0 ++ [0, 0, 0]

/-- A hash that keeps the number of an alert. -/
def testHash (vch : Bytes) : UInt256 := BitVec.ofNat 256 (LittleEndian.leValue vch)

/-- The alert with the number 400 cancels the one with 300, and is cancelled by the one with 500. -/
lemma processAlert_testAlert :
    ((testAlert 400 300 []).processAlert testHash (fun _ _ => true) 50
      (run testHash (fun _ _ => true) 50 [testAlert 300 0 [], testAlert 500 0 [400]])).2.toOption =
        some .alreadyCancelled := by decide +kernel

/-- An alert that is refused because it is cancelled takes away another one that is in effect. -/
theorem not_keeps_processAlert : ¬ ∀ (hash : Bytes → UInt256) (verify : UInt256 → Bytes → Bool)
    (nAdjustedTime : Int64) (alerts : List CAlert) (self : CAlert),
    (self.processAlert hash verify nAdjustedTime (run hash verify nAdjustedTime alerts)).2 =
      .ok .alreadyCancelled →
    Keeps nAdjustedTime (run hash verify nAdjustedTime alerts)
      (self.processAlert hash verify nAdjustedTime (run hash verify nAdjustedTime alerts)).1 := by
  intro hall
  have hkeeps := hall testHash (fun _ _ => true) 50 [testAlert 300 0 [], testAlert 500 0 [400]]
    (testAlert 400 300 [])
  have hbefore : ((run testHash (fun _ _ => true) 50 [testAlert 300 0 [], testAlert 500 0 [400]])[
      testHash (testAlert 300 0 []).vchMsg]?.map (isInEffect 50)) = some true := by decide +kernel
  have hafter : ((testAlert 400 300 []).processAlert testHash (fun _ _ => true) 50
      (run testHash (fun _ _ => true) 50 [testAlert 300 0 [], testAlert 500 0 [400]])).1[
        testHash (testAlert 300 0 []).vchMsg]?.isSome = false := by decide +kernel
  have hrefused := processAlert_testAlert
  generalize (testAlert 400 300 []).processAlert testHash (fun _ _ => true) 50
    (run testHash (fun _ _ => true) 50 [testAlert 300 0 [], testAlert 500 0 [400]]) = call
    at hkeeps hafter hrefused
  obtain ⟨alert, hget, heffect⟩ := Option.map_eq_some_iff.mp hbefore
  rcases call with ⟨mapAlerts, e | outcome⟩
  · cases hrefused
  · have houtcome : outcome = .alreadyCancelled := Option.some.inj hrefused
    have hlost := hkeeps (congrArg Except.ok houtcome) _ alert hget heffect
    rw [hlost] at hafter
    cases hafter

end CAlert

end HyperStake.Net
