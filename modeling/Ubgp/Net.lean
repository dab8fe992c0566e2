import Mathlib.Data.Nat.Basic
import Ubgp.Lib.BigEndian

/-! Addresses and prefixes: the parts of `std::net` and `ipnet` the daemon relies on.

`trunc` clears host bits and `contains` is inclusion of the network/broadcast interval within
one family, as `ipnet` documents them. -/
namespace Ubgp

abbrev Bytes := List UInt8
abbrev Ipv4Addr := BitVec 32
abbrev Ipv6Addr := BitVec 128

inductive IpAddr
  | v4 (a : Ipv4Addr)
  | v6 (a : Ipv6Addr)
deriving DecidableEq

/-- Network-order octets of an address. -/
def octets {w : ℕ} (a : BitVec w) : Bytes := BigEndian.encode (w / 8) a.toNat

def ofOctets (w : ℕ) (b : Bytes) : BitVec w := BitVec.ofNat w (BigEndian.decode b)

@[simp] theorem length_octets {w : ℕ} (a : BitVec w) : (octets a).length = w / 8 :=
  BigEndian.length_encode _ _

theorem ofOctets_octets {w : ℕ} (hw : 8 ∣ w) (a : BitVec w) : ofOctets w (octets a) = a := by
  have hlt : a.toNat < 256 ^ (w / 8) := by
    have ha := a.isLt
    rwa [show (256 : ℕ) = 2 ^ 8 from rfl, ← pow_mul, Nat.mul_div_cancel' hw]
  rw [ofOctets, octets, BigEndian.decode_encode_of_lt hlt]
  simp

namespace Ipv4

def isUnspecified (a : Ipv4Addr) : Bool := a == 0
/-- 224.0.0.0/4. -/
def isMulticast (a : Ipv4Addr) : Bool := a.toNat / 2 ^ 28 == 14
def broadcast : Ipv4Addr := BitVec.allOnes 32
def isLoopback (a : Ipv4Addr) : Bool := a.toNat / 2 ^ 24 == 127

end Ipv4

namespace Ipv6

def isUnspecified (a : Ipv6Addr) : Bool := a == 0
/-- ff00::/8. -/
def isMulticast (a : Ipv6Addr) : Bool := a.toNat / 2 ^ 120 == 255
def isLoopback (a : Ipv6Addr) : Bool := a == 1
/-- fe80::/10. -/
def isUnicastLinkLocal (a : Ipv6Addr) : Bool := a.toNat / 2 ^ 118 == 1018

end Ipv6

namespace IpAddr

def isIpv4 : IpAddr → Bool
  | .v4 _ => true
  | .v6 _ => false

def isLoopback : IpAddr → Bool
  | .v4 a => Ipv4.isLoopback a
  | .v6 a => Ipv6.isLoopback a

end IpAddr

/-- An address with a prefix length its width admits (`Ipv4Net`, `Ipv6Net`). -/
structure Net (w : ℕ) where
  addr : BitVec w
  prefixLen : ℕ
  prefixLen_le : prefixLen ≤ w
deriving DecidableEq

namespace Net
variable {w : ℕ} {p q : Net w}

def hostBits (p : Net w) : ℕ := w - p.prefixLen

/-- The address with its host bits cleared. -/
def network (p : Net w) : BitVec w := (p.addr >>> p.hostBits) <<< p.hostBits

/-- The address with its host bits set. -/
def broadcast (p : Net w) : BitVec w := BitVec.ofNat w (p.network.toNat + (2 ^ p.hostBits - 1))

def trunc (p : Net w) : Net w := { p with addr := p.network }

def contains (p q : Net w) : Bool :=
  decide (p.network ≤ q.network) && decide (q.broadcast ≤ p.broadcast)

theorem network_toNat (p : Net w) :
    p.network.toNat = p.addr.toNat / 2 ^ p.hostBits * 2 ^ p.hostBits := by
  have hle := Nat.div_mul_le_self p.addr.toNat (2 ^ p.hostBits)
  rw [network, BitVec.toNat_shiftLeft, BitVec.toNat_ushiftRight, Nat.shiftRight_eq_div_pow,
    Nat.shiftLeft_eq, Nat.mod_eq_of_lt (Nat.lt_of_le_of_lt hle p.addr.isLt)]

theorem network_dvd (p : Net w) : 2 ^ p.hostBits ∣ p.network.toNat := by
  rw [network_toNat]
  exact Nat.dvd_mul_left _ _

@[simp] theorem trunc_hostBits (p : Net w) : p.trunc.hostBits = p.hostBits := rfl
@[simp] theorem trunc_addr (p : Net w) : p.trunc.addr = p.network := rfl

@[simp] theorem trunc_network (p : Net w) : p.trunc.network = p.network := by
  apply BitVec.eq_of_toNat_eq
  rw [network_toNat, trunc_addr, trunc_hostBits, Nat.div_mul_cancel p.network_dvd]

@[simp] theorem trunc_trunc (p : Net w) : p.trunc.trunc = p.trunc := by
  change Net.mk p.trunc.network p.prefixLen _ = Net.mk p.network p.prefixLen _
  simp only [trunc_network]

end Net

inductive IpNet
  | v4 (p : Net 32)
  | v6 (p : Net 128)
deriving DecidableEq

namespace IpNet

def isIpv6 : IpNet → Bool
  | .v4 _ => false
  | .v6 _ => true

def isIpv4 : IpNet → Bool
  | .v4 _ => true
  | .v6 _ => false

def prefixLen : IpNet → ℕ
  | .v4 p => p.prefixLen
  | .v6 p => p.prefixLen

/-- `IpNet::new`: fails when the family does not admit the length. -/
def new (ip : IpAddr) (len : ℕ) : Option IpNet :=
  match ip with
  | .v4 a => if h : len ≤ 32 then some (.v4 ⟨a, len, h⟩) else none
  | .v6 a => if h : len ≤ 128 then some (.v6 ⟨a, len, h⟩) else none

def trunc : IpNet → IpNet
  | .v4 p => .v4 p.trunc
  | .v6 p => .v6 p.trunc

def contains : IpNet → IpNet → Bool
  | .v4 p, .v4 q => p.contains q
  | .v6 p, .v6 q => p.contains q
  | _, _ => false

@[simp] theorem trunc_trunc (p : IpNet) : p.trunc.trunc = p.trunc := by
  cases p <;> simp [trunc]

end IpNet

end Ubgp
