import Ubgp.Bgp.Session
import Ubgp.Bgp.Sync
import Ubgp.Wire.OpenGrammar
import Ubgp.Wire.RoundTrip

/-! The export path: with a validated configuration no batch, next hop or length makes an encoder
panic or truncate. -/
namespace Ubgp

variable {cfg : Config} {p : Peer} {n : Negotiated} {b : Bytes} {linkLocal : Option Ipv6Addr}
  {v6 withdraw : Bool} {batch : List IpNet}

/-! The session of a validated peer. -/

theorem fill_eq (p : Peer) (linkLocal : Option Ipv6Addr) :
    ∃ l, p.fill linkLocal = { p with nextHopV6LinkLocal := l } := by
  unfold Peer.fill
  split
  · exact ⟨linkLocal, rfl⟩
  · exact ⟨p.nextHopV6LinkLocal, rfl⟩

theorem fill_nh4 (p : Peer) (linkLocal : Option Ipv6Addr) : (p.fill linkLocal).nh4 = p.nh4 := by
  obtain ⟨l, h⟩ := fill_eq p linkLocal
  rw [h]
  rfl

theorem fill_nh6 (p : Peer) (linkLocal : Option Ipv6Addr) : (p.fill linkLocal).nh6 = p.nh6 := by
  obtain ⟨l, h⟩ := fill_eq p linkLocal
  rw [h]
  rfl

theorem fill_remoteAsn (p : Peer) (linkLocal : Option Ipv6Addr) :
    (p.fill linkLocal).remoteAsn = p.remoteAsn := by
  obtain ⟨l, h⟩ := fill_eq p linkLocal
  rw [h]

/-- What `update` relies on: the internal flag, and a next hop for every negotiated family. -/
structure Announcing (cfg : Config) (p : Peer) (n : Negotiated) : Prop where
  internal : n.internal = (cfg.asn == p.remoteAsn)
  nextHop4 : n.ipv4 = true → ∃ a, p.nh4 = some a ∧ validV4 a = true
  nextHop6 : n.ipv6 = true → ∃ a, p.nh6 = some a

theorem announcing_of_open (hp : Config.ValidPeer cfg p) (hn : parseOpen b cfg p = .ok n)
    (linkLocal : Option Ipv6Addr) : Announcing cfg (p.fill linkLocal) n := by
  obtain ⟨o, -, -, -, rfl⟩ := parseOpen_eq_ok.mp hn
  refine ⟨?_, ?_, ?_⟩
  · rw [fill_remoteAsn]
    rfl
  · intro h4
    rw [fill_nh4]
    simp only [OpenFields.session, Bool.and_eq_true] at h4
    exact hp.nextHop4 h4.1
  · intro h6
    rw [fill_nh6]
    simp only [OpenFields.session, Bool.and_eq_true] at h6
    obtain ⟨a, ha, -⟩ := hp.nextHop6 h6.1
    exact ⟨a, ha⟩

theorem frame_length_le {kind : UInt8} {body m : Bytes} (h : frame kind body = .ok m) :
    m.length ≤ maxMessage := by
  obtain ⟨hle, rfl⟩ := frame_eq_ok.mp h
  change (frameOctets kind body).length ≤ maxMessage
  rw [length_frameOctets]
  exact hle

/-! Batches. -/

/-- The sections `update` writes: every length fits its field. -/
structure Untruncated (u : UpdateSections) : Prop where
  attributes : ∀ a ∈ u.attributes, a.Fits
  withdrawn : u.withdrawn.length < 65536
  attrs : (u.attributes.flatMap attributeCode.encode).length < 65536
  body : u.octets.length + 19 < 65536

theorem Sendable.untruncated {u : UpdateSections} (h : Sendable n u) : Untruncated u := by
  have hsize := h.size
  have hlen : u.octets.length ≤ 4077 := hsize
  simp only [UpdateSections.octets, List.length_append, BigEndian.length_encode] at hlen
  refine ⟨h.fits, by omega, by omega, ?_⟩
  simp only [maxMessage] at hsize
  omega

/-- A batch of a family that is withdrawn, or announced with a next hop, is encoded. -/
theorem update_of_batch (ha : Announcing cfg p n) (hb : Plan.Batch v6 batch)
    (hf : withdraw = false → (if v6 then n.ipv6 else n.ipv4) = true) :
    ∃ u m, updateBody cfg p n v6 (batch.flatMap nlri) withdraw = .ok u.octets ∧
      Untruncated u ∧ update cfg p n batch withdraw = .ok m ∧ m.length ≤ maxMessage := by
  have hlen : (batch.flatMap nlri).length ≤ 3400 := by
    have h₁ := length_flatMap_nlri batch
    have h₂ : batch.length ≤ 200 := hb.bounded
    omega
  have hpacked := packed_flatMap hb.family
  obtain ⟨u, hbody, hsend⟩ : ∃ u, updateBody cfg p n v6 (batch.flatMap nlri) withdraw =
      .ok u.octets ∧ Sendable n u := by
    cases withdraw with
    | true => exact ⟨_, updateBody_withdraw cfg p, sendable_withdrawal hpacked hlen⟩
    | false =>
      have hfamily := hf rfl
      cases v6 with
      | true =>
        obtain ⟨nh, hnh⟩ := ha.nextHop6 hfamily
        exact ⟨_, updateBody_announce6 hnh, sendable_announcement6 ha.internal hpacked hlen⟩
      | false =>
        obtain ⟨nh, hnh, hvalid⟩ := ha.nextHop4 hfamily
        exact ⟨_, updateBody_announce4 hnh, sendable_announcement4 hvalid ha.internal hpacked hlen⟩
  obtain ⟨m, hm, hdrop⟩ := hsend.framed
  refine ⟨u, m, hbody, hsend.untruncated, ?_, ?_⟩
  · rw [update_eq hb.ne_nil hb.bounded hb.family, hbody, ok_bind, hm]
  · exact frame_length_le hm

namespace Transmit
variable {acl : String} {s : State} {plan : Plan}

/-- Every batch of a reachable plan is one `update` accepts, and an announced one is of a
negotiated family. -/
theorem Synced.next_batch (h : Synced n acl s) (hn : s.plan.next = some ((withdraw, batch), plan)) :
    ∃ v6, Plan.Batch v6 batch ∧ (withdraw = false → (if v6 then n.ipv6 else n.ipv4) = true) := by
  obtain ⟨v6, hb⟩ := Plan.next_batch hn
  refine ⟨v6, hb, ?_⟩
  rintro rfl
  obtain ⟨-, hsub, -⟩ := (h.plan.batch_mem hn).resolve_left (by simp)
  obtain ⟨q, hq⟩ := List.exists_mem_of_ne_nil batch hb.ne_nil
  have hadd := Reconcile.mem_adds.mp (hsub (List.mem_toFinset.mpr hq))
  have henabled := (Negotiated.mem_gate.mp hadd.1).2
  have hfamily := hb.family q hq
  cases q with
  | v4 q =>
    subst hfamily
    exact henabled
  | v6 q =>
    subst hfamily
    exact henabled

end Transmit

/-! OPEN. -/

/-- OPEN fits a frame, and so do the capabilities their two length octets. -/
structure OpenFits (cfg : Config) (p : Peer) : Prop where
  frame : ∃ m, openMessage cfg p = .ok m ∧ m.length ≤ maxMessage
  caps : ∃ caps, caps.length + 2 < 256 ∧ openBody cfg p =
    [4] ++ BigEndian.encode 2 (asn16 cfg.asn) ++ BigEndian.encode 2 p.holdTimeSecs.toNat ++
      octets cfg.routerId ++ [UInt8.ofNat (caps.length + 2), 2, UInt8.ofNat caps.length] ++ caps

theorem openFits (cfg : Config) (p : Peer) : OpenFits cfg p := by
  refine ⟨?_, _, ?_, rfl⟩
  · obtain ⟨m, hm, -⟩ := openMessage_eq cfg p
    exact ⟨m, hm, frame_length_le hm⟩
  · unfold familyCaps
    cases p.ipv4 <;> cases p.ipv6 <;> simp

/-! The whole path. -/

/-- Whatever the export loop is about to send, its encoder accepts. -/
structure Exportable (cfg : Config) (p : Peer) (n : Negotiated) (s : Transmit.State) : Prop where
  batch : ∀ withdraw batch plan, s.plan.next = some ((withdraw, batch), plan) →
    ∃ v6, Plan.Batch v6 batch ∧
      (withdraw = false → (if v6 then p.nh6.isSome else p.nh4.isSome) = true) ∧
      ∃ u m, updateBody cfg p n v6 (batch.flatMap nlri) withdraw = .ok u.octets ∧
        Untruncated u ∧ update cfg p n batch withdraw = .ok m ∧ m.length ≤ maxMessage
  outgoing : ∀ msg, s.outgoing n = some msg →
    ∃ m, Session.render cfg p n msg = .ok m ∧ m.length ≤ maxMessage

theorem Announcing.nextHop (ha : Announcing cfg p n)
    (hf : (if v6 then n.ipv6 else n.ipv4) = true) :
    (if v6 then p.nh6.isSome else p.nh4.isSome) = true := by
  cases v6 with
  | true =>
    obtain ⟨a, h⟩ := ha.nextHop6 hf
    rw [h]
    rfl
  | false =>
    obtain ⟨a, h, -⟩ := ha.nextHop4 hf
    rw [h]
    rfl

/-- Only a batch needs more than a fixed frame. -/
theorem render_fits {s : Transmit.State} {msg : Transmit.Send} (h : s.outgoing n = some msg)
    (hb : ∀ withdraw batch plan, s.plan.next = some ((withdraw, batch), plan) →
      ∃ m, update cfg p n batch withdraw = .ok m ∧ m.length ≤ maxMessage) :
    ∃ m, Session.render cfg p n msg = .ok m ∧ m.length ≤ maxMessage := by
  have hfixed : ∀ kind body, body.length + 19 ≤ maxMessage →
      ∃ m, frame kind body = .ok m ∧ m.length ≤ maxMessage := by
    intro kind body hle
    have hm : frame kind body = .ok (frameOctets kind body) := frame_eq_ok.mpr ⟨hle, rfl⟩
    exact ⟨_, hm, frame_length_le hm⟩
  cases msg with
  | keepalive => exact hfixed KEEPALIVE [] (by decide)
  | endOfRib v6 =>
    refine hfixed UPDATE _ ?_
    cases v6 <;> decide
  | update withdraw batch =>
    unfold Transmit.State.outgoing at h
    split at h
    case h_2 =>
      obtain ⟨⟨⟨withdraw', batch'⟩, plan⟩, hnext, hmsg⟩ := Option.map_eq_some_iff.mp h
      cases hmsg
      exact hb _ _ plan hnext
    all_goals simp at h

theorem exportable_of_trace {acl : String} {e : Exports} {t₀ : ℕ} {xs : List Transmit.Label}
    {s : Transmit.State} (ha : Announcing cfg p n)
    (h : Lts.Trace (Transmit.Step n acl) (Transmit.init e t₀) xs s) :
    Exportable cfg p n s := by
  have hbatch : ∀ withdraw batch plan, s.plan.next = some ((withdraw, batch), plan) →
      ∃ v6, Plan.Batch v6 batch ∧
        (withdraw = false → (if v6 then n.ipv6 else n.ipv4) = true) := by
    intro withdraw batch plan hn
    exact (Transmit.Synced.of_trace h).next_batch hn
  refine ⟨?_, ?_⟩
  · intro withdraw batch plan hn
    obtain ⟨v6, hb, hf⟩ := hbatch withdraw batch plan hn
    exact ⟨v6, hb, fun hw => ha.nextHop (hf hw), update_of_batch ha hb hf⟩
  · intro msg hmsg
    refine render_fits hmsg ?_
    intro withdraw batch plan hn
    obtain ⟨v6, hb, hf⟩ := hbatch withdraw batch plan hn
    obtain ⟨u, m, -, -, hm, hle⟩ := update_of_batch ha hb hf
    exact ⟨m, hm, hle⟩

/-- A validated configuration never panics the export path: every referenced ACL is found, the
OPEN fits, and in every reachable state of the export loop each batch and each message is
encoded within a frame, no length truncated. -/
theorem export_never_panics (hv : cfg.validate = .ok ()) (hp : p ∈ cfg.peers)
    (hn : parseOpen b cfg p = .ok n) :
    (∀ prefixes, ∃ e, Netlink.filter cfg prefixes = .ok e) ∧
    OpenFits cfg p ∧
    (∀ v6, ∃ m, endOfRib v6 = .ok m ∧ m.length ≤ maxMessage) ∧
    ∀ linkLocal e t₀ xs s,
      Lts.Trace (Transmit.Step n (p.fill linkLocal).exportAcl) (Transmit.init e t₀) xs s →
      Exportable cfg (p.fill linkLocal) n s := by
  have hvalid := Config.validate_eq_ok.mp hv
  refine ⟨?_, openFits cfg p, ?_, ?_⟩
  · intro prefixes
    obtain ⟨e, he, -⟩ := Netlink.filter_spec prefixes (fun q hq => (hvalid.peers q hq).acl)
    exact ⟨e, he⟩
  · intro v6
    cases v6
    · exact ⟨_, rfl, by decide⟩
    · exact ⟨_, rfl, by decide⟩
  · intro linkLocal e t₀ xs s h
    exact exportable_of_trace (announcing_of_open (hvalid.peers p hp) hn linkLocal) h

/-- The example peer, its session negotiated with the OPEN of the other end. -/
theorem example_export_safe :
    ∃ n, parseOpen (openBody remoteConfig remotePeer) exampleConfig examplePeer = .ok n ∧
      ∀ e t₀ xs s, Lts.Trace (Transmit.Step n "export") (Transmit.init e t₀) xs s →
        Exportable exampleConfig examplePeer n s := by
  have hn := (parseOpen_mirrored example_mirrored _).mpr
    ⟨fun he => absurd he.2 (by decide), Or.inl ⟨rfl, rfl⟩, rfl⟩
  obtain ⟨-, -, -, hmain⟩ := export_never_panics exampleConfig_valid (List.mem_singleton.mpr rfl) hn
  refine ⟨_, hn, ?_⟩
  intro e t₀ xs s h
  exact hmain none e t₀ xs s h

end Ubgp
