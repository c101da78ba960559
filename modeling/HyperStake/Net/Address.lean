import HyperStake.Serialize

/-!
# Network addresses

`CNetAddr`, `CService` and `CAddress` of `netbase.cpp` and `protocol.h`: an address, an address with
a port, and what is known about a node there.  An address belongs to a group; connections and the
buckets of the address manager are spread over the groups.
-/

namespace HyperStake.Net

open LittleEndian

/-- A `CNetAddr`: the sixteen bytes of `ip`, the first one the most significant, so that `memcmp`
orders the addresses as numbers. -/
abbrev CNetAddr := BitVec 128

instance transOrdCNetAddr : Std.TransOrd CNetAddr := BitVec.instTransOrd

/-- A `CService`. -/
structure CService where
  ip : CNetAddr
  port : UInt16
  deriving DecidableEq

/-- A `CAddress`. -/
structure CAddress extends CService where
  nServices : UInt64
  nTime : UInt32
  nLastTry : Int64
  deriving DecidableEq

namespace CNetAddr

/-- `GetByte`: counted from the last byte. -/
def getByte (ip : CNetAddr) (n : ℕ) : UInt8 := UInt8.ofNat (ip.toNat / 256 ^ n)

/-- The bytes of `ip`. -/
def bytes (ip : CNetAddr) : Bytes := (List.range 16).map fun n => getByte ip (15 - n)

/-- `memcmp(ip, pch, sizeof(pch)) == 0`. -/
def startsWith (ip : CNetAddr) (pch : Bytes) : Bool := pch.isPrefixOf (bytes ip)

/-- The prefix of an IPv4 address. -/
def pchIPv4 : Bytes := [0, 0, 0, 0, 0, 0, 0, 0, 0, 0, 0xff, 0xff]

/-- The prefix of a Tor address. -/
def pchOnionCat : Bytes := [0xFD, 0x87, 0xD8, 0x7E, 0xEB, 0x43]

/-- The prefix of an I2P address. -/
def pchGarliCat : Bytes := [0xFD, 0x60, 0xDB, 0x4D, 0xDD, 0xB5]

def isIPv4 (ip : CNetAddr) : Bool := startsWith ip pchIPv4

def isTor (ip : CNetAddr) : Bool := startsWith ip pchOnionCat

def isI2P (ip : CNetAddr) : Bool := startsWith ip pchGarliCat

/-- `IsRFC1918`: IPv4 private networks. -/
def isRFC1918 (ip : CNetAddr) : Bool :=
  isIPv4 ip && (getByte ip 3 == 10 || (getByte ip 3 == 192 && getByte ip 2 == 168) ||
    (getByte ip 3 == 172 && getByte ip 2 ≥ 16 && getByte ip 2 ≤ 31))

/-- `IsRFC3927`: IPv4 autoconfiguration. -/
def isRFC3927 (ip : CNetAddr) : Bool := isIPv4 ip && getByte ip 3 == 169 && getByte ip 2 == 254

/-- `IsRFC3849`: IPv6 documentation addresses. -/
def isRFC3849 (ip : CNetAddr) : Bool :=
  getByte ip 15 == 0x20 && getByte ip 14 == 0x01 && getByte ip 13 == 0x0D && getByte ip 12 == 0xB8

/-- `IsRFC3964`: IPv6 6to4 tunnelling. -/
def isRFC3964 (ip : CNetAddr) : Bool := getByte ip 15 == 0x20 && getByte ip 14 == 0x02

/-- `IsRFC6052`: the IPv6 well-known prefix. -/
def isRFC6052 (ip : CNetAddr) : Bool := startsWith ip [0, 0x64, 0xFF, 0x9B, 0, 0, 0, 0, 0, 0, 0, 0]

/-- `IsRFC4380`: IPv6 Teredo tunnelling. -/
def isRFC4380 (ip : CNetAddr) : Bool :=
  getByte ip 15 == 0x20 && getByte ip 14 == 0x01 && getByte ip 13 == 0 && getByte ip 12 == 0

/-- `IsRFC4862`: IPv6 autoconfiguration. -/
def isRFC4862 (ip : CNetAddr) : Bool := startsWith ip [0xFE, 0x80, 0, 0, 0, 0, 0, 0]

/-- `IsRFC4193`: IPv6 unique local addresses. -/
def isRFC4193 (ip : CNetAddr) : Bool := getByte ip 15 &&& 0xFE == 0xFC

/-- `IsRFC6145`: IPv6 translations of IPv4 addresses. -/
def isRFC6145 (ip : CNetAddr) : Bool := startsWith ip [0, 0, 0, 0, 0, 0, 0, 0, 0xFF, 0xFF, 0, 0]

/-- `IsRFC4843`: IPv6 ORCHID. -/
def isRFC4843 (ip : CNetAddr) : Bool :=
  getByte ip 15 == 0x20 && getByte ip 14 == 0x01 && getByte ip 13 == 0x00 &&
    getByte ip 12 &&& 0xF0 == 0x10

/-- `IsLocal`: the loopback addresses. -/
def isLocal (ip : CNetAddr) : Bool :=
  (isIPv4 ip && (getByte ip 3 == 127 || getByte ip 3 == 0)) || ip == 1#128

def isValid (ip : CNetAddr) : Bool :=
  -- addresses shifted by three bytes, from the time before messages had checksums
  !startsWith ip (pchIPv4.drop 3) && !(ip == 0#128) && !isRFC3849 ip &&
    !(isIPv4 ip && ((bytes ip).drop 12 == [0xff, 0xff, 0xff, 0xff] ||
      (bytes ip).drop 12 == [0, 0, 0, 0]))

def isRoutable (ip : CNetAddr) : Bool :=
  isValid ip && !(isRFC1918 ip || isRFC3927 ip || isRFC4862 ip ||
    (isRFC4193 ip && !isTor ip && !isI2P ip) || isRFC4843 ip || isLocal ip)

/-- `NET_UNROUTABLE` of `enum Network`. -/
def NET_UNROUTABLE : UInt8 := 0

def NET_IPV4 : UInt8 := 1

def NET_IPV6 : UInt8 := 2

def NET_TOR : UInt8 := 3

def NET_I2P : UInt8 := 4

/-- The end of `GetGroup`: the class, whole bytes from `nStartByte` on, and the bits that are
left. -/
def groupBytes (ip : CNetAddr) (nClass : UInt8) (nStartByte nBits : ℕ) : Bytes :=
  nClass :: (List.range (nBits / 8)).map (fun k => getByte ip (15 - (nStartByte + k))) ++
    if nBits % 8 > 0 then
      [getByte ip (15 - (nStartByte + nBits / 8)) ||| UInt8.ofNat (2 ^ (nBits % 8) - 1)]
    else []

/-- `GetGroup`: no two connections are attempted to addresses of one group. -/
def getGroup (ip : CNetAddr) : Bytes :=
  -- all unroutable addresses belong to the same group, and the local ones are unroutable
  if !isRoutable ip then groupBytes ip NET_UNROUTABLE 0 0
  -- the sixteen higher-order bits of an IPv4 address
  else if isIPv4 ip || isRFC6145 ip || isRFC6052 ip then groupBytes ip NET_IPV4 12 16
  -- the encapsulated IPv4 address
  else if isRFC3964 ip then groupBytes ip NET_IPV4 2 16
  else if isRFC4380 ip then [NET_IPV4, getByte ip 3 ^^^ 0xFF, getByte ip 2 ^^^ 0xFF]
  else if isTor ip then groupBytes ip NET_TOR 6 4
  else if isI2P ip then groupBytes ip NET_I2P 6 4
  -- for he.net, /36 groups
  else if getByte ip 15 == 0x20 && getByte ip 14 == 0x11 && getByte ip 13 == 0x04 &&
      getByte ip 12 == 0x70 then groupBytes ip NET_IPV6 0 36
  else groupBytes ip NET_IPV6 0 32

end CNetAddr

def CService.getKey (addr : CService) : Bytes :=
  CNetAddr.bytes addr.ip ++
    [UInt8.ofNat (addr.port.toNat / 0x100), UInt8.ofNat (addr.port.toNat % 0x100)]

end HyperStake.Net
