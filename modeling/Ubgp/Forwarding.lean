import Ubgp.Generation
import Ubgp.Lib.Longest

/-! Forwarding: where a neighbour that chooses the longest match in its table sends packets, in
terms of addresses. -/
namespace Ubgp

namespace Net
variable {w : ℕ} {p q : Net w} {a : BitVec w}

/-- The addresses between the network and the broadcast address. -/
def addresses (p : Net w) : Set (BitVec w) := {a | p.network ≤ a ∧ a ≤ p.broadcast}

theorem pow_hostBits_dvd (p : Net w) : 2 ^ p.hostBits ∣ 2 ^ w :=
  Nat.pow_dvd_pow 2 (Nat.sub_le w p.prefixLen)

/-- The host bits of the network address leave room for the broadcast address. -/
theorem network_add_lt (p : Net w) : p.network.toNat + (2 ^ p.hostBits - 1) < 2 ^ w := by
  obtain ⟨k, hk⟩ := p.network_dvd
  obtain ⟨m, hm⟩ := p.pow_hostBits_dvd
  have hpos : 0 < 2 ^ p.hostBits := Nat.two_pow_pos _
  have hlt := p.network.isLt
  rw [hk, hm] at hlt ⊢
  have hkm : k + 1 ≤ m := Nat.lt_of_mul_lt_mul_left hlt
  have hle := Nat.mul_le_mul_left (2 ^ p.hostBits) hkm
  rw [Nat.mul_add, Nat.mul_one] at hle
  omega

theorem broadcast_toNat (p : Net w) :
    p.broadcast.toNat = p.network.toNat + (2 ^ p.hostBits - 1) := by
  rw [broadcast, BitVec.toNat_ofNat, Nat.mod_eq_of_lt p.network_add_lt]

/-- The addresses of a prefix are those that agree with it above the host bits. -/
theorem mem_addresses :
    a ∈ p.addresses ↔ a.toNat / 2 ^ p.hostBits = p.addr.toNat / 2 ^ p.hostBits := by
  have hpos : 0 < 2 ^ p.hostBits := Nat.two_pow_pos _
  change p.network ≤ a ∧ a ≤ p.broadcast ↔ _
  rw [BitVec.le_def, BitVec.le_def, broadcast_toNat, network_toNat, Nat.div_eq_iff hpos]
  omega

theorem network_mem (p : Net w) : p.network ∈ p.addresses := by
  refine ⟨BitVec.le_refl _, ?_⟩
  rw [BitVec.le_def, broadcast_toNat]
  omega

theorem broadcast_mem (p : Net w) : p.broadcast ∈ p.addresses := by
  refine ⟨?_, BitVec.le_refl _⟩
  rw [BitVec.le_def, broadcast_toNat]
  omega

/-- `contains` is inclusion of the addresses. -/
theorem contains_eq_true : p.contains q = true ↔ q.addresses ⊆ p.addresses := by
  rw [contains, Bool.and_eq_true, decide_eq_true_eq, decide_eq_true_eq]
  constructor
  · rintro ⟨hn, hb⟩ a ⟨hna, hab⟩
    exact ⟨BitVec.le_trans hn hna, BitVec.le_trans hab hb⟩
  · intro hsub
    exact ⟨(hsub q.network_mem).1, (hsub q.broadcast_mem).2⟩

/-- A shorter prefix that meets a longer one contains it. -/
theorem addresses_subset (hp : a ∈ p.addresses) (hq : a ∈ q.addresses)
    (hle : p.prefixLen ≤ q.prefixLen) : q.addresses ⊆ p.addresses := by
  rw [mem_addresses] at hp hq
  intro b hb
  rw [mem_addresses] at hb ⊢
  have hbits : 2 ^ p.hostBits = 2 ^ q.hostBits * 2 ^ (p.hostBits - q.hostBits) := by
    rw [← Nat.pow_add]
    congr 1
    unfold hostBits
    omega
  rw [← hp, hbits, ← Nat.div_div_eq_div_mul, ← Nat.div_div_eq_div_mul, hb, hq]

/-- Prefixes without host bits that have the same length do not meet. -/
theorem eq_of_mem (hp : p.trunc = p) (hq : q.trunc = q) (ha : a ∈ p.addresses)
    (ha' : a ∈ q.addresses) (hlen : p.prefixLen = q.prefixLen) : p = q := by
  have hbits : p.hostBits = q.hostBits := by
    unfold hostBits
    rw [hlen]
  rw [mem_addresses] at ha ha'
  have hnet : p.network = q.network := by
    apply BitVec.eq_of_toNat_eq
    rw [network_toNat, network_toNat, ← ha, ← ha', hbits]
  rw [← hp, ← hq]
  unfold trunc
  simp only [hlen, hnet]

end Net

namespace IpNet
variable {p q : IpNet} {a : IpAddr}

def addresses : IpNet → Set IpAddr
  | .v4 p => IpAddr.v4 '' p.addresses
  | .v6 p => IpAddr.v6 '' p.addresses

theorem mem_addresses_v4 {b : Ipv4Addr} :
    .v4 b ∈ p.addresses ↔ ∃ p', p = .v4 p' ∧ b ∈ p'.addresses := by
  cases p <;> simp [addresses]

theorem mem_addresses_v6 {b : Ipv6Addr} :
    .v6 b ∈ p.addresses ↔ ∃ p', p = .v6 p' ∧ b ∈ p'.addresses := by
  cases p <;> simp [addresses]

theorem contains_eq_true : p.contains q = true ↔ q.addresses ⊆ p.addresses := by
  cases p with
  | v4 p =>
    cases q with
    | v4 q =>
      rw [contains, Net.contains_eq_true]
      exact (Set.image_subset_image_iff (fun _ _ h => IpAddr.v4.inj h)).symm
    | v6 q =>
      refine ⟨fun h => (by cases h), fun h => ?_⟩
      obtain ⟨b, -, hb⟩ := h ⟨q.network, q.network_mem, rfl⟩
      cases hb
  | v6 p =>
    cases q with
    | v4 q =>
      refine ⟨fun h => (by cases h), fun h => ?_⟩
      obtain ⟨b, -, hb⟩ := h ⟨q.network, q.network_mem, rfl⟩
      cases hb
    | v6 q =>
      rw [contains, Net.contains_eq_true]
      exact (Set.image_subset_image_iff (fun _ _ h => IpAddr.v6.inj h)).symm

/-- Prefixes without host bits are nested wherever they meet. -/
theorem laminar : Longest.Laminar {p : IpNet | p.trunc = p} addresses prefixLen where
  nested := by
    intro p q a hp hq ha ha' hle
    cases a with
    | v4 b =>
      obtain ⟨p, rfl, hb⟩ := mem_addresses_v4.mp ha
      obtain ⟨q, rfl, hb'⟩ := mem_addresses_v4.mp ha'
      exact Set.image_mono (Net.addresses_subset hb hb' hle)
    | v6 b =>
      obtain ⟨p, rfl, hb⟩ := mem_addresses_v6.mp ha
      obtain ⟨q, rfl, hb'⟩ := mem_addresses_v6.mp ha'
      exact Set.image_mono (Net.addresses_subset hb hb' hle)
  apart := by
    intro p q a hp hq ha ha' hlen
    cases a with
    | v4 b =>
      obtain ⟨p, rfl, hb⟩ := mem_addresses_v4.mp ha
      obtain ⟨q, rfl, hb'⟩ := mem_addresses_v4.mp ha'
      exact congrArg IpNet.v4 (Net.eq_of_mem (IpNet.v4.inj hp) (IpNet.v4.inj hq) hb hb' hlen)
    | v6 b =>
      obtain ⟨p, rfl, hb⟩ := mem_addresses_v6.mp ha
      obtain ⟨q, rfl, hb'⟩ := mem_addresses_v6.mp ha'
      exact congrArg IpNet.v6 (Net.eq_of_mem (IpNet.v6.inj hp) (IpNet.v6.inj hq) hb hb' hlen)

end IpNet

/-- The rule says something about every address of a prefix, and about its length. -/
def Rule.Governs (r : Rule) (p : IpNet) : Prop :=
  p.addresses ⊆ r.net.addresses ∧ r.low ≤ p.prefixLen ∧ p.prefixLen ≤ r.high

theorem Rule.governs_iff {r : Rule} {p : IpNet} : r.Governs p ↔ r.selects p = true := by
  rw [Rule.Governs, Rule.selects_eq_true, IpNet.contains_eq_true]

/-- What the parser makes of a route has no host bits. -/
theorem Netlink.KernelRoute.dst_trunc {cfg : Config} {r : Netlink.KernelRoute}
    (h : r.eligible cfg = true) : r.dst.trunc = r.dst := by
  simp only [Netlink.KernelRoute.eligible, Bool.and_eq_true, decide_eq_true_eq] at h
  have hroute := r.described cfg.kernel.tables
  rw [if_pos ⟨h.1.1, h.1.2⟩] at hroute
  exact Netlink.route_trunc hroute

namespace Generation
open Longest (Best)

variable {Conn : Type} [DecidableEq Conn] {cfg : Config} {s : State Conn}
  {xs : List (Label Conn × State Conn)} {t₀ q : ℕ} {clock : ℕ → ℕ}
  {routes : Finset Netlink.KernelRoute} {P : Peer}

/-- The longest match for an address in what a neighbour holds. -/
abbrev State.Chooses (s : State Conn) (q : ℕ) (a : IpAddr) (p : IpNet) : Prop :=
  Best (s.table q : Set IpNet) IpNet.addresses IpNet.prefixLen a p

/-- The neighbour of an established session, if it chooses the longest match, chooses without
ambiguity, and the most specific of the prefixes it holds. It sends packets to an address only if
the network of a permit rule that governs its choice holds the address, no rule before it governs
that choice, and the kernel had an eligible route to the address while a snapshot was taken that was
published. -/
theorem forwarding_confined {origin : PeerLoop.Origin} {c : Candidate Conn} {started : ℕ}
    {session : Session.State} {expires : Option ℕ} {w : Option Session.Write}
    (hv : cfg.validate = .ok ()) (hP : cfg.peers[q]? = some P)
    (h : Lts.Trace (Lts.Recorded (Step cfg)) (init cfg clock t₀ routes) xs s)
    (hphase : (s.bgp.loops q).phase = .running origin c started session)
    (hest : session.phase = .established expires w) (a : IpAddr) :
    ((∃ p ∈ s.table q, a ∈ p.addresses) ↔ ∃ p, s.Chooses q a p) ∧
    ∀ p, s.Chooses q a p →
      (∀ p', s.Chooses q a p' → p' = p) ∧
      (∀ p' ∈ s.table q, a ∈ p'.addresses → p.addresses ⊆ p'.addresses) ∧
      (∃ acl before r after, cfg.acls.lookup P.exportAcl = some acl ∧
        acl.rules = before ++ r :: after ∧ r.action = .permit ∧ r.Governs p ∧
        a ∈ r.net.addresses ∧ ∀ r' ∈ before, ¬ r'.Governs p) ∧
      ∃ ys now changed e u zs, kernelRun xs = ys ++ (.publish now changed e, u) :: zs ∧
        ∃ ws, Netlink.sinceBegan ys = some ws ∧
          ∃ v ∈ ws, ∃ r ∈ v.kernel.routes, r.eligible cfg = true ∧ a ∈ r.dst.addresses := by
  have hsound := Sound.of_trace hv h
  have hsource := fun {p} => hsound.source (p := p) hv hP hphase hest
  have hlaminar : Longest.Laminar (s.table q : Set IpNet) IpNet.addresses IpNet.prefixLen := by
    refine IpNet.laminar.mono ?_
    intro p hp
    obtain ⟨-, -, -, -, -, -, -, -, -, -, -, v, -, r, -, hel, rfl⟩ := hsource hp
    exact Netlink.KernelRoute.dst_trunc hel
  refine ⟨⟨Longest.exists_best, fun ⟨p, hp⟩ => ⟨p, hp.mem, hp.covers⟩⟩, ?_⟩
  intro p hp
  obtain ⟨-, ⟨acl, hacl, hpermits⟩, ys, now, changed, e, u, zs, hrun, ws, hws, v, hv, r, hr, hel,
    rfl⟩ := hsource hp.mem
  refine ⟨fun p' hp' => hp'.unique hlaminar hp, fun p' hmem ha => hp.subset hlaminar hmem ha, ?_,
    ys, now, changed, e, u, zs, hrun, ws, hws, v, hv, r, hr, hel, hp.covers⟩
  obtain ⟨before, rule, after, hrules, haction, hselects, hbefore⟩ := hpermits
  have hgoverns : ∀ r' : Rule, r'.Governs r.dst ↔ _ := fun r' =>
    Rule.governs_iff.trans Rule.selects_eq_true
  refine ⟨acl, before, rule, after, hacl, hrules, haction, (hgoverns rule).mpr hselects, ?_, ?_⟩
  · exact IpNet.contains_eq_true.mp hselects.1 hp.covers
  · intro r' hr' hg
    exact hbefore r' hr' ((hgoverns r').mp hg)

/-- 198.51.100.7. -/
def exampleHost : IpAddr := .v4 0xC6336407#32

theorem exampleHost_mem : exampleHost ∈ examplePrefix.addresses :=
  IpNet.mem_addresses_v4.mpr ⟨_, rfl, Net.mem_addresses.mpr (by decide)⟩

theorem example_forwarding_confined :
    ∃ xs s p, Lts.Trace (Lts.Recorded (Step exampleConfig))
        (init exampleConfig id 0 ∅ : State Unit) xs s ∧ s.Chooses 0 exampleHost p ∧
      ∃ acl before r after, exampleConfig.acls.lookup "export" = some acl ∧
        acl.rules = before ++ r :: after ∧ r.action = .permit ∧ exampleHost ∈ r.net.addresses := by
  obtain ⟨⟨ys, s⟩, hr, he⟩ := Option.map_eq_some_iff.mp mirroringMoves_exec
  simp only [Prod.mk.injEq] at he
  obtain ⟨hparked, -, htable⟩ := he
  obtain ⟨origin, c, started, session, expires, armed, hphase, hest, -, -⟩ :=
    parked_eq_true hparked
  obtain ⟨xs, hxs, -⟩ := (Lts.exec_trace hr).recorded
  obtain ⟨hsome, hconfined⟩ := forwarding_confined (P := examplePeer) exampleConfig_valid rfl hxs
    hphase hest exampleHost
  obtain ⟨p, hp⟩ := hsome.mp ⟨examplePrefix, by rw [htable]; simp, exampleHost_mem⟩
  obtain ⟨-, -, ⟨acl, before, r, after, hacl, hrules, haction, -, hmem, -⟩, -⟩ := hconfined p hp
  exact ⟨xs, s, p, hxs, hp, acl, before, r, after, hacl, hrules, haction, hmem⟩

end Generation
end Ubgp
