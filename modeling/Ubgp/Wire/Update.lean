import Ubgp.Wire.Basic

/-! The UPDATE encoder (`wire.rs`). -/
namespace Ubgp

/-- A path attribute, with the extended length field when needed. -/
def attr (flags kind : UInt8) (data : Bytes) : Bytes :=
  (if 255 < data.length then flags ||| 0x10 else flags) :: kind ::
    (if 255 < data.length then BigEndian.encode 2 data.length
      else [UInt8.ofNat data.length]) ++ data

/-- `div_ceil(8)`: the octets that hold a prefix of that length. -/
def prefixOctets (len : ℕ) : ℕ := (len + 7) / 8

/-- A prefix length and the network-address octets it needs. -/
def nlri : IpNet → Bytes
  | .v4 p => UInt8.ofNat p.prefixLen :: (octets p.network).take (prefixOctets p.prefixLen)
  | .v6 p => UInt8.ofNat p.prefixLen :: (octets p.network).take (prefixOctets p.prefixLen)

/-- The value of MP_UNREACH_NLRI, or of MP_REACH_NLRI with its next hops. -/
def mpData (p : Peer) (encoded : Bytes) (withdraw : Bool) : Result Bytes :=
  if withdraw then .ok ([0, 2, 1] ++ encoded)
  else
    match p.nh6 with
    | none => .error .panic
    | some a =>
      let linkLocal := (p.nextHopV6LinkLocal.map octets).getD []
      .ok ([0, 2, 1, if p.nextHopV6LinkLocal.isSome then 32 else 16] ++ octets a ++ linkLocal ++
        [0] ++ encoded)

def pathData (cfg : Config) (p : Peer) (n : Negotiated) : Bytes :=
  if cfg.asn ≠ p.remoteAsn then
    [2, 1] ++ (if n.asn4 then BigEndian.encode 4 cfg.asn.toNat
      else BigEndian.encode 2 (if cfg.asn.toNat < 65536 then cfg.asn.toNat else 23456))
  else []

/-- AS4_PATH is for two-octet peers that cannot see the number in AS_PATH. -/
def needsAs4 (cfg : Config) (p : Peer) (n : Negotiated) : Bool :=
  !n.asn4 && decide (65535 < cfg.asn.toNat) && cfg.asn != p.remoteAsn

/-- NEXT_HOP, for IPv4 only; a missing one panics. -/
def nextHopAttr (p : Peer) (v6 : Bool) : Result Bytes :=
  if v6 then .ok []
  else
    match p.nh4 with
    | none => .error .panic
    | some a => .ok (attr 0x40 3 (octets a))

/-- The attributes of an announcement other than MP_REACH_NLRI. -/
def announceAttrs (cfg : Config) (p : Peer) (n : Negotiated) (v6 : Bool) : Result Bytes := do
  let nextHop ← nextHopAttr p v6
  return attr 0x40 1 [2] ++ attr 0x40 2 (pathData cfg p n) ++
    (if needsAs4 cfg p n then
      attr 0xc0 17 ([2, 1] ++ BigEndian.encode 4 cfg.asn.toNat) else []) ++
    (if cfg.asn = p.remoteAsn then attr 0x40 5 (BigEndian.encode 4 100) else []) ++ nextHop

/-- The multiprotocol attribute of an IPv6 batch. -/
def mpAttr (p : Peer) (v6 : Bool) (encoded : Bytes) (withdraw : Bool) : Result Bytes :=
  if v6 then do
    return attr 0x80 (if withdraw then 15 else 14) (← mpData p encoded withdraw)
  else .ok []

/-- All attributes; MP NLRI first so that it can be located before the others. -/
def updateAttrs (cfg : Config) (p : Peer) (n : Negotiated) (v6 : Bool) (encoded : Bytes)
    (withdraw : Bool) : Result Bytes := do
  let mp ← mpAttr p v6 encoded withdraw
  if withdraw then return mp
  else return mp ++ (← announceAttrs cfg p n v6)

def updateBody (cfg : Config) (p : Peer) (n : Negotiated) (v6 : Bool) (encoded : Bytes)
    (withdraw : Bool) : Result Bytes := do
  let attrs ← updateAttrs cfg p n v6 encoded withdraw
  return (if withdraw && !v6 then BigEndian.encode 2 encoded.length ++ encoded else [0, 0]) ++
    BigEndian.encode 2 attrs.length ++ attrs ++ (if !withdraw && !v6 then encoded else [])

/-- Encode one announcement or withdrawal batch using the peer's next hops and ASN width. Panics
for empty, mixed-family or oversized batches and for a missing required next hop. -/
def update (cfg : Config) (p : Peer) (n : Negotiated) (prefixes : List IpNet) (withdraw : Bool) :
    Result Bytes :=
  match prefixes with
  | [] => .error .panic
  | q :: _ =>
    if prefixes.length ≤ maxUpdatePrefixes ∧ prefixes.all (fun r => r.isIpv6 == q.isIpv6) then do
      frame UPDATE (← updateBody cfg p n q.isIpv6 (prefixes.flatMap nlri) withdraw)
    else .error .panic

/-- An empty UPDATE marking end of RIB for IPv6 when `v6`, otherwise IPv4. -/
def endOfRib (v6 : Bool) : Result Bytes :=
  frame UPDATE (if v6 then [0, 0, 0, 6, 0x80, 15, 3, 0, 2, 1] else [0, 0, 0, 0])

theorem ofNat_prefixLen {k : ℕ} (h : k ≤ 128) : (UInt8.ofNat k).toNat = k := by
  rw [UInt8.toNat_ofNat']
  omega

/-- The octets an NLRI entry keeps determine the network address. -/
theorem network_of_octets {w : ℕ} (hw : 8 ∣ w) (p : Net w) :
    ofOctets w ((octets p.network).take (prefixOctets p.prefixLen) ++
      List.replicate (w / 8 - prefixOctets p.prefixLen) 0) = p.network := by
  obtain ⟨k, rfl⟩ := hw
  have hk : 8 * k / 8 = k := by omega
  have hle : prefixOctets p.prefixLen ≤ k := by
    have := p.prefixLen_le
    unfold prefixOctets
    omega
  have hlt : p.network.toNat < 256 ^ k := by
    have := p.network.isLt
    rwa [show (256 : ℕ) = 2 ^ 8 from rfl, ← pow_mul]
  have hdvd : 256 ^ (k - prefixOctets p.prefixLen) ∣ p.network.toNat := by
    refine dvd_trans ?_ p.network_dvd
    rw [show (256 : ℕ) = 2 ^ 8 from rfl, ← pow_mul]
    apply pow_dvd_pow
    unfold Net.hostBits prefixOctets
    omega
  rw [ofOctets, octets, hk, BigEndian.decode_take_pad hle hlt, Nat.div_mul_cancel hdvd]
  simp

/-- Truncated prefixes of one family are told apart by their NLRI. -/
theorem nlri_injective {p q : IpNet} (hp : p.trunc = p) (hq : q.trunc = q)
    (hf : p.isIpv6 = q.isIpv6) (h : nlri p = nlri q) : p = q := by
  have key : ∀ {w : ℕ} (_ : 8 ∣ w) (_ : w ≤ 128) {p q : Net w}, p.trunc = p → q.trunc = q →
      UInt8.ofNat p.prefixLen :: (octets p.network).take (prefixOctets p.prefixLen) =
        UInt8.ofNat q.prefixLen :: (octets q.network).take (prefixOctets q.prefixLen) →
      p = q := by
    intro w hd hw p q hp hq h
    obtain ⟨hlen, hoct⟩ := List.cons.inj h
    have hlen' : p.prefixLen = q.prefixLen := by
      have hp' := ofNat_prefixLen (p.prefixLen_le.trans hw)
      have hq' := ofNat_prefixLen (q.prefixLen_le.trans hw)
      rw [← hp', hlen, hq']
    have hnet : p.network = q.network := by
      rw [← network_of_octets hd p, hoct, hlen', network_of_octets hd q]
    rw [← hp, ← hq]
    unfold Net.trunc
    simp only [hlen', hnet]
  cases p with
  | v4 p =>
    cases q with
    | v4 q =>
      exact congrArg IpNet.v4 (key (by decide) (by decide) (IpNet.v4.inj hp) (IpNet.v4.inj hq) h)
    | v6 q => cases hf
  | v6 p =>
    cases q with
    | v4 q => cases hf
    | v6 q =>
      exact congrArg IpNet.v6 (key (by decide) (by decide) (IpNet.v6.inj hp) (IpNet.v6.inj hq) h)

end Ubgp
