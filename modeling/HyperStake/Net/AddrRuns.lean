import HyperStake.Net.AddrCheck

/-!
# Runs of the address manager

Whatever calls are made, in whatever order, with whatever addresses, times and random choices: as
long as there are numbers for new entries, the containers belong together after every call and no
assertion fails; and if the calls of `Good` and `Attempt` that meet a known service are made after
the epoch, `Check_` finds nothing (`run_keeps`).
-/

namespace HyperStake.Net

namespace CAddrMan

variable {Hash : Bytes → UInt256} {am am' : CAddrMan} {n : ℕ} {info : CAddrInfo}

/-! ## What is true of every record -/

/-- Something is true of every record. -/
def Records (P : ℕ → CAddrInfo → Prop) (am : CAddrMan) : Prop :=
  ∀ (n : ℕ) (info : CAddrInfo), am.mapInfo[n]? = some info → P n info

/-- Something that does not depend on the position, the references and the time last seen. -/
structure Lasting (P : ℕ → CAddrInfo → Prop) : Prop where
  pos : ∀ n info p, P n info → P n { info with nRandomPos := p }
  refs : ∀ n info k, P n info → P n { info with nRefCount := k }
  seen : ∀ n info t s, P n info → P n { info with nTime := t, nServices := s }

variable {P : ℕ → CAddrInfo → Prop}

/-- What is true of every record stays so when one is changed in a way that keeps it. -/
lemma Records.modify (h : Records P am) {f : CAddrInfo → CAddrInfo}
    (hf : ∀ info, P n info → P n (f info)) : Records P (am.modify n f) := by
  intro m info hinfo
  rw [CAddrMan.modify, MapLoop.getElem?_modify_eq] at hinfo
  split at hinfo
  · next hm =>
    subst hm
    obtain ⟨old, hold, rfl⟩ := Option.map_eq_some_iff.mp hinfo
    exact hf old (h n old hold)
  · exact h m info hinfo

lemma Records.swapRandom (h : Records P am) (hP : Lasting P) {p q : ℕ}
    (hswap : am.swapRandom p q = some am') : Records P am' := by
  rw [CAddrMan.swapRandom] at hswap
  split at hswap
  · cases hswap
    exact h
  split at hswap
  · split at hswap
    · cases hswap
      exact (h.modify fun info => hP.pos _ info _).modify fun info => hP.pos _ info _
    · cases hswap
  · cases hswap

lemma Records.dropReference (h : Records P am) (hP : Lasting P)
    (hdrop : am.dropReference n = some am') : Records P am' := by
  rw [CAddrMan.dropReference] at hdrop
  split at hdrop
  · cases hdrop
  dsimp only at hdrop
  have h1 : Records P (am.modify n fun info => { info with nRefCount := info.nRefCount - 1 }) :=
    h.modify fun info => hP.refs _ info _
  split at hdrop
  · split at hdrop
    · cases hdrop
    obtain ⟨am2, hswap, hlast⟩ := Option.bind_eq_some_iff.mp hdrop
    have h2 := h1.swapRandom hP hswap
    split at hlast
    · cases hlast
    · cases hlast
      intro m info hinfo
      rw [MapLoop.getElem?_erase_eq] at hinfo
      split at hinfo
      · cases hinfo
      · exact h2 m info hinfo
  · cases hdrop
    exact h1

variable {env : Env} {r : Bool × CAddrMan} {rand : ℕ → ℕ}

lemma Records.shrinkNew (h : Records P am) (hP : Lasting P) {b : Fin ADDRMAN_NEW_BUCKET_COUNT}
    {r : ℤ × CAddrMan} (hshrink : am.shrinkNew env b = some r) : Records P r.2 := by
  obtain ⟨choice, -, hmap⟩ := Option.bind_eq_some_iff.mp hshrink
  obtain ⟨am', hdrop, rfl⟩ := Option.map_eq_some_iff.mp hmap
  have hdropped : Records P am' := h.dropReference hP hdrop
  exact hdropped

variable {source : CNetAddr}

lemma Records.addToNew (h : Records P am) (hP : Lasting P) {fNew : Bool}
    (hadd : am.addToNew Hash env n source fNew = some r) : Records P r.2 := by
  rw [CAddrMan.addToNew] at hadd
  split at hadd
  · cases hadd
  dsimp only at hadd
  split at hadd
  · cases hadd
    exact h
  have h1 : Records P (am.modify n fun info => { info with nRefCount := info.nRefCount + 1 }) :=
    h.modify fun info => hP.refs _ info _
  obtain ⟨am2, hshrunk, rfl⟩ := Option.map_eq_some_iff.mp hadd
  split at hshrunk
  · obtain ⟨r', hshrink, rfl⟩ := Option.map_eq_some_iff.mp hshrunk
    exact h1.shrinkNew hP hshrink
  · cases hshrunk
    exact h1

variable {nTimePenalty : Int64}

lemma Records.add (h : Records P am) (hP : Lasting P)
    (hnew : ∀ n (addr : CAddress) (source : CNetAddr), P n (CAddrInfo.ofAddress addr source))
    {addr : CAddress}
    (hadd : am.add Hash env addr source nTimePenalty = some r) : Records P r.2 := by
  rw [CAddrMan.add] at hadd
  split at hadd
  · cases hadd
    exact h
  dsimp only at hadd
  split at hadd
  · split at hadd
    · cases hadd
    · have h1 : ∀ nId now, Records P
          (am.modify nId fun info => refresh info addr nTimePenalty now) := fun nId now =>
        h.modify fun info hinfo => hP.seen _ info _ _ hinfo
      split at hadd
      · cases hadd
        exact h1 _ _
      · exact (h1 _ _).addToNew hP hadd
  · obtain ⟨⟨nId, am1⟩, hcreate, hrest⟩ := Option.bind_eq_some_iff.mp hadd
    have h1 : Records P am1 := by
      rw [create] at hcreate
      split at hcreate
      · cases hcreate
        intro m info hinfo
        rw [MapLoop.getElem?_insert_eq] at hinfo
        split at hinfo
        · cases hinfo
          exact hP.pos _ _ _ (hnew _ addr source)
        · exact h m info hinfo
      · cases hcreate
    refine Records.addToNew (fun m info hinfo => ?_) hP hrest
    exact (h1.modify (n := nId) fun info hinfo => hP.seen _ info _ info.nServices hinfo) m info hinfo

/-- `MakeTried` changes no record but in its position and its references, and marks one as tried. -/
lemma Records.makeTried (h : Records P am) (hP : Lasting P)
    (htried : ∀ info, P n info → P n { info with fInTried := true })
    (hnotTried : ∀ m info, P m info → P m { info with fInTried := false })
    {nOrigin : Fin ADDRMAN_NEW_BUCKET_COUNT} (hmake : am.makeTried Hash rand n nOrigin = some am') :
    Records P am' := by
  have h1 : Records P (am.removeFromNew n) :=
    fun m info hinfo => (h.modify (n := n) fun info => hP.refs _ info _) m info hinfo
  rw [CAddrMan.makeTried] at hmake
  split at hmake
  · cases hmake
  dsimp only at hmake
  split at hmake
  · cases hmake
  split at hmake
  · cases hmake
  split at hmake
  · cases hmake
    exact fun m info hinfo => (h1.modify (n := n) htried) m info hinfo
  · obtain ⟨⟨nPos, vTried⟩, -, hrest⟩ := Option.bind_eq_some_iff.mp hmake
    dsimp only at hrest
    rcases hold : vTried[nPos]? with _ | nOld
    · rw [hold] at hrest
      cases hrest
    rw [hold] at hrest
    dsimp only at hrest
    rcases hinfoOld : (am.removeFromNew n).mapInfo[nOld]? with _ | infoOld
    · rw [hinfoOld] at hrest
      cases hrest
    rw [hinfoOld] at hrest
    cases hrest
    have h2 : Records P ((am.removeFromNew n).modify nOld fun info =>
        { info with fInTried := false, nRefCount := 1 }) :=
      h1.modify fun info hinfo => hP.refs _ _ 1 (hnotTried _ info hinfo)
    exact fun m info hinfo => (h2.modify (n := n) htried) m info hinfo

lemma Records.shuffle (h : Records P am) (hP : Lasting P) {is : List ℕ}
    {r : List CAddress × CAddrMan} (hshuffle : CAddrMan.shuffle rand is am = some r) :
    Records P r.2 := by
  induction is generalizing am r with
  | nil =>
    cases hshuffle
    exact h
  | cons i is ih =>
    rw [CAddrMan.shuffle] at hshuffle
    obtain ⟨am1, hswap, hrest⟩ := Option.bind_eq_some_iff.mp hshuffle
    obtain ⟨info, -, hmap⟩ := Option.bind_eq_some_iff.mp hrest
    obtain ⟨r', hr', rfl⟩ := Option.map_eq_some_iff.mp hmap
    have hrecords : Records P r'.2 := ih (h.swapRandom hP hswap) hr'
    exact hrecords

/-! ## The times of the records -/

/-- The times of a record are not before the epoch, and those of an entry that is tried, or is about
to be, are after it. -/
def TimesOk (tried : ℕ → Prop) (n : ℕ) (info : CAddrInfo) : Prop :=
  0 ≤ info.nLastTry ∧ 0 ≤ info.nLastSuccess ∧
    (info.fInTried = true ∨ tried n → info.nLastSuccess ≠ 0)

lemma lasting_timesOk (tried : ℕ → Prop) : Lasting (TimesOk tried) where
  pos _ _ _ h := h
  refs _ _ _ h := h
  seen _ _ _ _ h := h

lemma timed_iff : Timed am ↔ Records (TimesOk fun _ => False) am := by
  simp only [Timed, Records, TimesOk, or_false]

section

variable (h : Timed am)

include h

lemma Timed.attempt {addr : CService} {nTime : Int64}
    (hTime : am.findService addr ≠ none → 0 ≤ nTime) : Timed (am.attempt addr nTime) := by
  rw [CAddrMan.attempt]
  rcases hfind : am.findService addr with _ | ⟨nId, info⟩
  · exact h
  · rw [timed_iff] at h ⊢
    exact h.modify fun info hinfo => ⟨hTime (by rw [hfind]; simp), hinfo.2⟩

lemma Timed.connected (addr : CService) (nTime : Int64) : Timed (am.connected addr nTime) := by
  rw [CAddrMan.connected]
  rcases am.findService addr with _ | ⟨nId, info⟩
  · exact h
  · rw [timed_iff] at h
    dsimp only
    split
    · exact timed_iff.mpr (h.modify fun info hinfo => hinfo)
    · exact timed_iff.mpr h

lemma Timed.good {addr : CService} {nTime : Int64} (hTime : am.findService addr ≠ none → 0 < nTime)
    (hgood : am.good Hash rand addr nTime = some am') : Timed am' := by
  rw [CAddrMan.good] at hgood
  rcases hfind : am.findService addr with _ | ⟨nId, info⟩
  · rw [hfind] at hgood
    cases hgood
    exact h
  rw [hfind] at hgood
  have hpos : 0 < nTime := hTime (by rw [hfind]; simp)
  dsimp only at hgood
  -- the entry is timed as a tried one before it becomes one
  have h1 : Records (TimesOk fun m => m = nId) (am.modify nId fun info => { info with
      nLastSuccess := nTime, nLastTry := nTime, nTime := nTime.toUInt64.toUInt32,
      nAttempts := 0 }) := by
    intro m info hinfo
    rw [CAddrMan.modify, MapLoop.getElem?_modify_eq] at hinfo
    split at hinfo
    · obtain ⟨old, -, rfl⟩ := Option.map_eq_some_iff.mp hinfo
      exact ⟨Int64.le_of_lt hpos, Int64.le_of_lt hpos, fun _ => (Int64.ne_of_lt hpos).symm⟩
    · next hm =>
      obtain ⟨htry, hsuccess, hne⟩ := h m info hinfo
      exact ⟨htry, hsuccess, fun hor => hne (hor.resolve_right (Ne.symm hm))⟩
  have hweaken : ∀ {am' : CAddrMan}, Records (TimesOk fun m => m = nId) am' → Timed am' :=
    fun hrec => timed_iff.mpr fun m info hinfo =>
      ⟨(hrec m info hinfo).1, (hrec m info hinfo).2.1,
        fun hor => (hrec m info hinfo).2.2 (Or.inl (hor.resolve_right id))⟩
  split at hgood
  · cases hgood
    exact hweaken h1
  split at hgood
  · cases hgood
    exact hweaken h1
  · refine hweaken (h1.makeTried (lasting_timesOk _) (fun info hinfo => ?_) (fun m info hinfo => ?_)
      hgood)
    · exact ⟨hinfo.1, hinfo.2.1, fun _ => hinfo.2.2 (Or.inr rfl)⟩
    · exact ⟨hinfo.1, hinfo.2.1, fun hor => hinfo.2.2 (Or.inr (hor.resolve_left (by simp)))⟩

lemma Timed.add {addr : CAddress}
    (hadd : am.add Hash env addr source nTimePenalty = some r) : Timed r.2 := by
  rw [timed_iff] at h ⊢
  refine h.add (lasting_timesOk _) (fun m addr source => ?_) hadd
  exact ⟨Int64.le_refl 0, Int64.le_refl 0, fun hor => by simp [CAddrInfo.ofAddress] at hor⟩

lemma Timed.addAll {adds : List (Env × CAddress)} {r : ℕ × CAddrMan}
    (hadd : CAddrMan.addAll Hash source nTimePenalty adds am = some r) : Timed r.2 := by
  induction adds generalizing am r with
  | nil =>
    cases hadd
    exact h
  | cons it adds ih =>
    obtain ⟨⟨fRet, am1⟩, hone, hrest⟩ := Option.bind_eq_some_iff.mp hadd
    obtain ⟨⟨nAdd, am2⟩, hr, rfl⟩ := Option.map_eq_some_iff.mp hrest
    have htimed : Timed am2 := ih (h.add hone) hr
    exact htimed

lemma Timed.getAddr {r : List CAddress × CAddrMan}
    (hget : am.getAddr rand = some r) : Timed r.2 := by
  rw [timed_iff] at h ⊢
  exact h.shuffle (lasting_timesOk _) hget

end

/-! ## Calls and runs -/

/-- A call, with all that it is told from outside. -/
inductive Op where
  | add (env : Env) (addr : CAddress) (source : CNetAddr) (nTimePenalty : Int64)
  | addAll (source : CNetAddr) (nTimePenalty : Int64) (adds : List (Env × CAddress))
  | good (rand : ℕ → ℕ) (addr : CService) (nTime : Int64)
  | attempt (addr : CService) (nTime : Int64)
  | connected (addr : CService) (nTime : Int64)
  | select (useTried : ℤ → ℤ → Bool) (rounds : List Round)
  | getAddr (rand : ℕ → ℕ)

variable (Hash) in
/-- The manager after a call. -/
def step (am : CAddrMan) : Op → Option CAddrMan
  | .add env addr source nTimePenalty => (am.add Hash env addr source nTimePenalty).map Prod.snd
  | .addAll source nTimePenalty adds =>
    (CAddrMan.addAll Hash source nTimePenalty adds am).map Prod.snd
  | .good rand addr nTime => am.good Hash rand addr nTime
  | .attempt addr nTime => some (am.attempt addr nTime)
  | .connected addr nTime => some (am.connected addr nTime)
  | .select useTried rounds => (am.select useTried rounds).map fun _ => am
  | .getAddr rand => (am.getAddr rand).map Prod.snd

/-- An address that needs an entry gets a number that an `int` can hold. -/
def NumberLeft (am : CAddrMan) (addr : CAddress) : Prop :=
  CNetAddr.isRoutable addr.ip = true → am.find addr.ip = none → am.nIdCount + 1 < 2 ^ 31

variable (Hash) in
/-- Every address that needs an entry gets a number that an `int` can hold, one after the other. -/
def NumbersLeft (source : CNetAddr) (nTimePenalty : Int64) :
    List (Env × CAddress) → CAddrMan → Prop
  | [], _ => True
  | (env, addr) :: rest, am => am.NumberLeft addr ∧
    ∀ r, am.add Hash env addr source nTimePenalty = some r →
      NumbersLeft source nTimePenalty rest r.2

variable (Hash) in
/-- The counter does not run out in a call. -/
def Op.Numbered (am : CAddrMan) : Op → Prop
  | .add _ addr _ _ => am.NumberLeft addr
  | .addAll source nTimePenalty adds => NumbersLeft Hash source nTimePenalty adds am
  | _ => True

/-- A call that writes its time into a record is made at the epoch or later, or, if it says that
the node is good, after it. -/
def Op.TimeOk (am : CAddrMan) : Op → Prop
  | .good _ addr nTime => am.findService addr ≠ none → 0 < nTime
  | .attempt addr nTime => am.findService addr ≠ none → 0 ≤ nTime
  | _ => True

lemma Sound.addAll {adds : List (Env × CAddress)}
    (h : Settled Hash am) (hleft : NumbersLeft Hash source nTimePenalty adds am) :
    ∃ r, CAddrMan.addAll Hash source nTimePenalty adds am = some r ∧ Settled Hash r.2 := by
  induction adds generalizing am with
  | nil => exact ⟨(0, am), rfl, h⟩
  | cons it adds ih =>
    obtain ⟨env, addr⟩ := it
    obtain ⟨⟨fRet, am1⟩, hone, h1⟩ := h.add env source nTimePenalty hleft.1
    obtain ⟨⟨nAdd, am2⟩, hrest, h2⟩ := ih h1 (hleft.2 _ hone)
    refine ⟨((if fRet then 1 else 0) + nAdd, am2), ?_, h2⟩
    rw [CAddrMan.addAll, hone, Option.bind_some]
    exact Option.map_eq_some_iff.mpr ⟨_, hrest, rfl⟩

/-- A call for which there are numbers fails no assertion, and the containers belong together after
it. -/
lemma Sound.step (h : Settled Hash am) {op : Op} (hop : op.Numbered Hash am) :
    ∃ am', am.step Hash op = some am' ∧ Settled Hash am' := by
  cases op with
  | add env addr source nTimePenalty =>
    obtain ⟨r, hr, h'⟩ := h.add env source nTimePenalty hop
    exact ⟨r.2, Option.map_eq_some_iff.mpr ⟨r, hr, rfl⟩, h'⟩
  | addAll source nTimePenalty adds =>
    obtain ⟨r, hr, h'⟩ := h.addAll hop
    exact ⟨r.2, Option.map_eq_some_iff.mpr ⟨r, hr, rfl⟩, h'⟩
  | good rand addr nTime => exact h.good rand addr nTime
  | attempt addr nTime => exact ⟨_, rfl, h.attempt addr nTime⟩
  | connected addr nTime => exact ⟨_, rfl, h.connected addr nTime⟩
  | select useTried rounds =>
    obtain ⟨r, hr⟩ := h.select useTried rounds
    exact ⟨am, Option.map_eq_some_iff.mpr ⟨r, hr, rfl⟩, h⟩
  | getAddr rand =>
    obtain ⟨r, hr, h'⟩ := h.getAddr rand
    exact ⟨r.2, Option.map_eq_some_iff.mpr ⟨r, hr, rfl⟩, h'⟩

/-- A call at a time after the epoch leaves the times of the records right. -/
lemma Timed.step (h : Timed am) {op : Op} (hop : op.TimeOk am)
    (hstep : am.step Hash op = some am') : Timed am' := by
  cases op with
  | add env addr source nTimePenalty =>
    obtain ⟨r, hr, rfl⟩ := Option.map_eq_some_iff.mp hstep
    exact h.add hr
  | addAll source nTimePenalty adds =>
    obtain ⟨r, hr, rfl⟩ := Option.map_eq_some_iff.mp hstep
    exact h.addAll hr
  | good rand addr nTime => exact h.good hop hstep
  | attempt addr nTime =>
    cases hstep
    exact h.attempt hop
  | connected addr nTime =>
    cases hstep
    exact h.connected addr nTime
  | select useTried rounds =>
    obtain ⟨r, -, rfl⟩ := Option.map_eq_some_iff.mp hstep
    exact h
  | getAddr rand =>
    obtain ⟨r, hr, rfl⟩ := Option.map_eq_some_iff.mp hstep
    exact h.getAddr hr

variable (Hash) in
/-- Calls, one after the other. -/
def run (ops : List Op) (am : CAddrMan) : Option CAddrMan := ops.foldlM (CAddrMan.step Hash) am

variable (Hash) in
/-- Something is true of every call when it is made. -/
def Along (P : CAddrMan → Op → Prop) : List Op → CAddrMan → Prop
  | [], _ => True
  | op :: rest, am => P am op ∧ ∀ am', am.step Hash op = some am' → Along P rest am'

/-- While there are numbers, calls fail no assertion and keep the containers together, whatever the
times and the random choices; and if the times of the records are right and stay so, `Check_` finds
nothing after them. -/
theorem run_keeps (h : Settled Hash am) (ops : List Op)
    (hleft : Along Hash (fun am op => op.Numbered Hash am) ops am) :
    ∃ am', run Hash ops am = some am' ∧ Settled Hash am' ∧
      (Timed am → Along Hash (fun am op => op.TimeOk am) ops am →
        Timed am' ∧ am'.check = 0) := by
  induction ops generalizing am with
  | nil => exact ⟨am, rfl, h, fun ht _ => ⟨ht, check_eq_zero h ht⟩⟩
  | cons op ops ih =>
    obtain ⟨am1, hstep, h1⟩ := h.step hleft.1
    obtain ⟨am2, hrun, h2, hcheck⟩ := ih h1 (hleft.2 am1 hstep)
    refine ⟨am2, ?_, h2, fun ht htimes => hcheck (ht.step htimes.1 hstep) (htimes.2 am1 hstep)⟩
    rw [run, List.foldlM_cons, hstep]
    exact hrun

/-- An address on the standard port. -/
def someAddress : CAddress where
  ip := 0xffff08080808#128
  port := 8333
  nServices := 1
  nTime := 100
  nLastTry := 0

/-- A generator and a clock that stand still. -/
def still : Env := ⟨fun _ => 0, fun _ => 0⟩

/-- An address is added, tried and found good, chosen and handed out. -/
theorem run_keeps_good : ∃ am', run (fun _ => 0#256)
    [.add still someAddress someAddress.ip 0, .attempt someAddress.toCService 5,
      .good (fun _ => 0) someAddress.toCService 5,
      .select (fun _ _ => true) [⟨0, 0, fun _ => true⟩], .getAddr fun _ => 0] (init [])
      = some am' ∧ am'.check = 0 := by
  have h : Settled (fun _ => 0#256) (init []) := settled_init []
  obtain ⟨am', hrun, -, hcheck⟩ := run_keeps h
    [.add still someAddress someAddress.ip 0, .attempt someAddress.toCService 5,
      .good (fun _ => 0) someAddress.toCService 5,
      .select (fun _ _ => true) [⟨0, 0, fun _ => true⟩], .getAddr fun _ => 0]
    ⟨fun _ _ => by decide, fun _ _ => ⟨trivial, fun _ _ => ⟨trivial, fun _ _ => ⟨trivial, fun _ _ =>
      ⟨trivial, fun _ _ => trivial⟩⟩⟩⟩⟩
  refine ⟨am', hrun, (hcheck (fun n info hinfo => by simp [init] at hinfo) ?_).2⟩
  exact ⟨trivial, fun _ _ => ⟨fun _ => by decide, fun _ _ => ⟨fun _ => by decide, fun _ _ =>
    ⟨trivial, fun _ _ => ⟨trivial, fun _ _ => trivial⟩⟩⟩⟩⟩

/-- A node that is found good at the epoch is a tried entry without a time of success, which
`Check_` objects to; and the last number that an `int` can count to cannot be given away. -/
theorem not_run_keeps :
    (run (fun _ => 0#256) [.add still someAddress someAddress.ip 0,
      .good (fun _ => 0) someAddress.toCService 0] (init [])).map check = some (-1) ∧
    Settled (fun _ => 0#256) { init [] with nIdCount := 2 ^ 31 - 1 } ∧
    (CAddrMan.step (fun _ => 0#256) { init [] with nIdCount := 2 ^ 31 - 1 }
      (.add still someAddress someAddress.ip 0)).isNone := by
  refine ⟨by decide +kernel, ?_, by decide +kernel⟩
  have h : Settled (fun _ => 0#256) (init []) := settled_init []
  exact { h with lt_count := fun n hn => absurd hn Std.ExtTreeMap.not_mem_empty }

end CAddrMan

end HyperStake.Net
