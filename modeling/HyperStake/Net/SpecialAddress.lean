import HyperStake.Net.AddrFormat
import HyperStake.Text.BaseCode

/-!
# The names of overlay addresses

An address of Tor or I2P is a prefix of six bytes and a payload of ten.  `ToStringIP` prints the
payload in Base32 with the suffix of the network, and `SetSpecial` reads such a name.  But
`SetSpecial` gives the payload of an I2P name the prefix of Tor, so that only the addresses of Tor
are read again (`setSpecial_toStringIP_iff`).
-/

namespace HyperStake.Net.CNetAddr

open BaseCode WalletTx

def onion : Bytes := text ".onion"

/-- `.oc.b32.i2p`. -/
def garli : Bytes := text ".oc.b32.i2p"

/-- What `SetSpecial` does with the part of a name before its suffix: a prefix of some bytes is
copied, and the payload behind it. -/
def setPayload (strPayload pch : Bytes) (size : ℕ) (ip : CNetAddr) : Bool × CNetAddr :=
  let vchAddr := (decodeBase32 (cStr strPayload)).1
  if vchAddr.length ≠ 16 - size then (false, ip)
  else (true, ofBytes (pch.take size ++ vchAddr))

/-- `SetSpecial`, with the address before. -/
def setSpecial (strName : Bytes) (ip : CNetAddr) : Bool × CNetAddr :=
  if 6 < strName.length ∧ strName.drop (strName.length - 6) = onion then
    setPayload (strName.take (strName.length - 6)) pchOnionCat pchOnionCat.length ip
  else if 11 < strName.length ∧ strName.drop (strName.length - 11) = garli then
    -- it is the prefix of Tor that is copied
    setPayload (strName.take (strName.length - 11)) pchOnionCat pchGarliCat.length ip
  else (false, ip)

/-- `ToStringIP`, with the names that the other addresses get. -/
def toStringIP (numeric : CNetAddr → Bytes) (ip : CNetAddr) : Bytes :=
  if isTor ip then encodeBase32 ((bytes ip).drop 6) ++ onion
  else if isI2P ip then encodeBase32 ((bytes ip).drop 6) ++ garli
  else numeric ip

/-! ## Sixteen bytes -/

variable {ip : CNetAddr} {payload : Bytes}

lemma bytes_ofBytes {b : Bytes} (h : b.length = 16) : bytes (ofBytes b) = b := by
  have hlt : LittleEndian.leValue b.reverse < 2 ^ 128 := by
    refine (LittleEndian.leValue_lt b.reverse).trans_eq ?_
    rw [List.length_reverse, h]
    norm_num
  have hlength : b.reverse.length = 16 := by rw [List.length_reverse, h]
  rw [bytes_eq, ofBytes, BitVec.toNat_ofNat, Nat.mod_eq_of_lt hlt, ← hlength,
    LittleEndian.leBytes_leValue, List.reverse_reverse]

/-- An address that starts with a prefix is the prefix and the rest of its bytes. -/
lemma bytes_of_startsWith {pch : Bytes} (h : startsWith ip pch = true) :
    bytes ip = pch ++ (bytes ip).drop pch.length := by
  obtain ⟨rest, hrest⟩ := List.isPrefixOf_iff_prefix.mp h
  rw [← hrest, List.drop_left]

/-! ## Names -/

/-- No character of an encoding ends a C string. -/
lemma zero_notMem_encodeBase32 (v : Bytes) : 0 ∉ encodeBase32 v := by
  obtain ⟨ds, pad, hstr, hregrouped, -⟩ := writes_encodeBase32 v
  rw [hstr, List.mem_append, not_or]
  refine ⟨fun hmem => ?_, fun hmem => ?_⟩
  · obtain ⟨d, hd, hzero⟩ := List.mem_map.mp hmem
    have hread := (alphabet32.read d (hregrouped.taken d hd)).1
    rw [hzero] at hread
    have hnegative : (d : ℤ) = -1 := hread.symm.trans alphabet32.terminator
    exact absurd hnegative (by omega)
  · exact absurd (List.eq_of_mem_replicate hmem) (by decide)

/-- The payload of a name is read again. -/
lemma setPayload_encodeBase32 (pch : Bytes) {size : ℕ} (h : payload.length = 16 - size)
    (ip : CNetAddr) :
    setPayload (encodeBase32 payload) pch size ip = (true, ofBytes (pch.take size ++ payload)) := by
  have hread : decodeBase32 (encodeBase32 payload) = (payload, false) :=
    decode_encode alphabet32 (by decide) writes_encodeBase32 reads_decodeBase32 payload
  rw [setPayload, cStr_eq (zero_notMem_encodeBase32 payload), hread]
  exact if_neg (not_not.mpr h)

lemma encodeBase32_ne_nil (h : payload ≠ []) : encodeBase32 payload ≠ [] := by
  have hread : decodeBase32 (encodeBase32 payload) = (payload, false) :=
    decode_encode alphabet32 (by decide) writes_encodeBase32 reads_decodeBase32 payload
  intro hnil
  rw [hnil] at hread
  exact h (congrArg Prod.fst hread).symm

/-- A name that ends in a suffix. -/
lemma drop_length_sub (str suffix : Bytes) :
    (str ++ suffix).drop ((str ++ suffix).length - suffix.length) = suffix ∧
      (str ++ suffix).take ((str ++ suffix).length - suffix.length) = str := by
  rw [List.length_append, Nat.add_sub_cancel]
  exact ⟨List.drop_left, List.take_left⟩

lemma onion_eq : onion = [46, 111, 110, 105, 111, 110] := by simp [onion, text]

lemma garli_eq : garli = [46, 111, 99, 46, 98, 51, 50, 46, 105, 50, 112] := by simp [garli, text]

/-- `SetSpecial` of the name of a Tor address. -/
lemma setSpecial_onion (h : payload.length = 10) (ip : CNetAddr) :
    setSpecial (encodeBase32 payload ++ onion) ip = (true, ofBytes (pchOnionCat ++ payload)) := by
  have hne : encodeBase32 payload ≠ [] := encodeBase32_ne_nil (by rintro rfl; cases h)
  have hlength : 6 < (encodeBase32 payload ++ onion).length := by
    rw [List.length_append, onion_eq]
    exact Nat.lt_add_of_pos_left (List.length_pos_iff.mpr hne)
  have hsuffix := drop_length_sub (encodeBase32 payload) onion
  have hsize : onion.length = 6 := by rw [onion_eq]; rfl
  rw [hsize] at hsuffix
  rw [setSpecial, if_pos ⟨hlength, hsuffix.1⟩, hsuffix.2, setPayload_encodeBase32 pchOnionCat h]
  rfl

/-- `SetSpecial` of the name of an I2P address. -/
lemma setSpecial_garli (h : payload.length = 10) (ip : CNetAddr) :
    setSpecial (encodeBase32 payload ++ garli) ip = (true, ofBytes (pchOnionCat ++ payload)) := by
  have hne : encodeBase32 payload ≠ [] := encodeBase32_ne_nil (by rintro rfl; cases h)
  have hlength : 11 < (encodeBase32 payload ++ garli).length := by
    rw [List.length_append, garli_eq]
    exact Nat.lt_add_of_pos_left (List.length_pos_iff.mpr hne)
  have hsuffix := drop_length_sub (encodeBase32 payload) garli
  have hsize : garli.length = 11 := by rw [garli_eq]; rfl
  rw [hsize] at hsuffix
  have hother : ¬ (6 < (encodeBase32 payload ++ garli).length ∧ (encodeBase32 payload ++ garli).drop
      ((encodeBase32 payload ++ garli).length - 6) = onion) := by
    rintro ⟨-, honion⟩
    have hend : (encodeBase32 payload ++ garli).drop ((encodeBase32 payload ++ garli).length - 6) =
        garli.drop 5 := by
      rw [List.length_append, hsize, Nat.add_sub_assoc (by decide), List.drop_append,
        List.drop_eq_nil_of_le (Nat.le_add_right _ _), Nat.add_sub_cancel_left]
      rfl
    rw [hend, garli_eq, onion_eq] at honion
    exact absurd honion (by decide)
  rw [setSpecial, if_neg hother, if_pos ⟨hlength, hsuffix.1⟩, hsuffix.2,
    setPayload_encodeBase32 pchOnionCat h]
  rfl

/-- The name of an overlay address is read as the address with the prefix of Tor. -/
lemma setSpecial_toStringIP (numeric : CNetAddr → Bytes) (h : isTor ip = true ∨ isI2P ip = true)
    (old : CNetAddr) : setSpecial (toStringIP numeric ip) old =
      (true, ofBytes (pchOnionCat ++ (bytes ip).drop 6)) := by
  have hlength : ((bytes ip).drop 6).length = 10 := by rw [List.length_drop, length_bytes]
  rw [toStringIP]
  split_ifs with htor hi2p
  · exact setSpecial_onion hlength old
  · exact setSpecial_garli hlength old
  · exact absurd h (by rw [not_or]; exact ⟨htor, hi2p⟩)

/-- The name of an overlay address is read as the address itself if and only if it is one of Tor. -/
theorem setSpecial_toStringIP_iff (numeric : CNetAddr → Bytes) (ip old : CNetAddr)
    (h : isTor ip = true ∨ isI2P ip = true) :
    setSpecial (toStringIP numeric ip) old = (true, ip) ↔ isTor ip = true := by
  have hlength : (pchOnionCat ++ (bytes ip).drop 6).length = 16 := by
    rw [List.length_append, List.length_drop, length_bytes]
    rfl
  rw [setSpecial_toStringIP numeric h, Prod.mk.injEq, eq_self, true_and]
  constructor
  · intro heq
    have hbytes : pchOnionCat ++ (bytes ip).drop 6 = bytes ip :=
      (bytes_ofBytes hlength).symm.trans (congrArg bytes heq)
    rw [isTor, startsWith, List.isPrefixOf_iff_prefix, ← hbytes]
    exact List.prefix_append _ _
  · intro htor
    have hbytes : bytes ip = pchOnionCat ++ (bytes ip).drop 6 := bytes_of_startsWith htor
    rw [← hbytes, ofBytes_bytes]

/-- The address of Tor with a payload of zeros. -/
theorem setSpecial_toStringIP_iff_tor :
    let ip := ofBytes (pchOnionCat ++ List.replicate 10 0)
    setSpecial (toStringIP (fun _ => []) ip) 0 = (true, ip) ↔ isTor ip = true :=
  setSpecial_toStringIP_iff (fun _ => []) _ 0 (Or.inl (by decide +kernel))

/-- The address of I2P with a payload of zeros is read as one of Tor. -/
theorem not_setSpecial_toStringIP :
    ¬ ∀ (numeric : CNetAddr → Bytes) (ip old : CNetAddr), isTor ip = true ∨ isI2P ip = true →
      setSpecial (toStringIP numeric ip) old = (true, ip) := by
  intro hall
  have hi2p : isI2P (ofBytes (pchGarliCat ++ List.replicate 10 0)) = true := by decide +kernel
  have hread := hall (fun _ => []) _ 0 (Or.inr hi2p)
  rw [setSpecial_toStringIP _ (Or.inr hi2p)] at hread
  exact absurd (congrArg Prod.snd hread) (by decide +kernel)

end HyperStake.Net.CNetAddr
