import Ubgp.Bgp.Choose
import Ubgp.Bgp.Inbound
import Ubgp.Bgp.Rib

/-! The handshake of one connection with its address checks (`check_local_addresses` and
`handshake` in `bgp.rs`), and the next hops of the session that follows. -/
namespace Ubgp

/-- A node of `getifaddrs`. The address is missing for null pointers and other families. -/
structure IfAddr where
  name : String
  address : Option IpAddr

/-- The addresses of the peering interface. -/
def Peer.ips (p : Peer) (nodes : List IfAddr) : List IpAddr :=
  (nodes.filter (fun a => a.name == p.interface)).filterMap IfAddr.address

/-- `ensure!` outside the codec. -/
def demand (ok : Bool) (message : String) : Result Unit :=
  if ok then .ok () else .error (.other message)

theorem demand_bind_eq_ok {α : Type} {ok : Bool} {message : String} {f : Unit → Result α} {r : α} :
    (demand ok message >>= f) = .ok r ↔ ok = true ∧ f () = .ok r := by
  cases ok <;> simp [demand]

def linkLocalOf : IpAddr → Option Ipv6Addr
  | .v6 a => if Ipv6.isUnicastLinkLocal a then some a else none
  | .v4 _ => none

/-- Verify local and next-hop addresses and return an interface link-local address. -/
def checkLocalAddresses (nodes : Result (List IfAddr)) (p : Peer) : Result (Option Ipv6Addr) := do
  let ips := p.ips (← nodes)
  demand (ips.contains p.localAddress) ("local_address is not assigned to " ++ p.interface)
  demand (!p.ipv4 || p.nh4.any (fun a => ips.contains (.v4 a)))
    ("IPv4 next hop is not assigned to " ++ p.interface)
  demand (!p.ipv6 || p.nh6.any (fun a => ips.contains (.v6 a)))
    ("IPv6 next hop is not assigned to " ++ p.interface)
  demand (p.nextHopV6LinkLocal.all (fun a => ips.contains (.v6 a)))
    ("link-local next hop is not assigned to " ++ p.interface)
  return ips.findSome? linkLocalOf

/-- How the calls of a handshake outside the codec turn out: the socket options, the interface
addresses, the write of the OPEN, what the peer sends until the read of its OPEN returns, and
whether the deadline passes first. -/
structure HandshakeIo where
  configured : Result Unit
  nodes : Result (List IfAddr)
  sent : Result Unit
  received : Bytes
  late : Bool

/-- Check local addresses and exchange OPENs within the connection timeout. -/
def handshake {Conn : Type} (cfg : Config) (p : Peer) (io : HandshakeIo) (stream : Conn)
    (incoming : Bool) : Result (Candidate Conn) := do
  io.configured
  let linkLocal ← checkLocalAddresses io.nodes p
  let _ ← openMessage cfg p
  io.sent
  if io.late then throw (.other "OPEN timeout")
  let ((kind, body), _) ← readFrame io.received
  let negotiated ← Inbound.readOpen cfg p kind body
  return ⟨stream, negotiated, incoming, linkLocal⟩

variable {cfg : Config} {p P : Peer} {n : Negotiated} {nodes : List IfAddr}

/-- What the address checks guarantee. -/
structure Owned (p : Peer) (nodes : List IfAddr) (linkLocal : Option Ipv6Addr) : Prop where
  localAddress : p.localAddress ∈ p.ips nodes
  nextHop4 : p.ipv4 = true → ∃ a, p.nh4 = some a ∧ .v4 a ∈ p.ips nodes
  nextHop6 : p.ipv6 = true → ∃ a, p.nh6 = some a ∧ .v6 a ∈ p.ips nodes
  configured : ∀ a ∈ p.nextHopV6LinkLocal, .v6 a ∈ p.ips nodes
  found : ∀ a ∈ linkLocal, .v6 a ∈ p.ips nodes ∧ Ipv6.isUnicastLinkLocal a = true

theorem linkLocalOf_eq_some {ip : IpAddr} {a : Ipv6Addr} :
    linkLocalOf ip = some a ↔ ip = .v6 a ∧ Ipv6.isUnicastLinkLocal a = true := by
  cases ip with
  | v4 b => simp [linkLocalOf]
  | v6 b =>
    simp only [linkLocalOf, Option.ite_none_right_eq_some, Option.some.injEq, IpAddr.v6.injEq]
    constructor
    · rintro ⟨h, rfl⟩
      exact ⟨rfl, h⟩
    · rintro ⟨rfl, h⟩
      exact ⟨h, rfl⟩

theorem checkLocalAddresses_eq_ok {root : Result (List IfAddr)} {linkLocal : Option Ipv6Addr} :
    checkLocalAddresses root p = .ok linkLocal ↔ ∃ nodes, root = .ok nodes ∧
      linkLocal = (p.ips nodes).findSome? linkLocalOf ∧ Owned p nodes linkLocal := by
  unfold checkLocalAddresses
  cases root with
  | error e => simp
  | ok nodes =>
    simp only [ok_bind, demand_bind_eq_ok, pure_eq_ok, Except.ok.injEq, exists_eq_left',
      List.contains_eq_mem, decide_eq_true_eq, Bool.or_eq_true, Bool.not_eq_true',
      Option.any_eq_true, Option.all_eq_true]
    constructor
    · rintro ⟨hl, h4, h6, hc, rfl⟩
      refine ⟨rfl, hl, fun hp => ?_, fun hp => ?_, hc, ?_⟩
      · exact h4.resolve_left (by simp [hp])
      · exact h6.resolve_left (by simp [hp])
      · intro a ha
        obtain ⟨ip, hip, ha⟩ := List.exists_of_findSome?_eq_some ha
        obtain ⟨rfl, hlocal⟩ := linkLocalOf_eq_some.mp ha
        exact ⟨hip, hlocal⟩
    · rintro ⟨rfl, h⟩
      refine ⟨h.localAddress, ?_, ?_, h.configured, rfl⟩
      · cases hp : p.ipv4 with
        | false => exact Or.inl rfl
        | true => exact Or.inr (h.nextHop4 hp)
      · cases hp : p.ipv6 with
        | false => exact Or.inl rfl
        | true => exact Or.inr (h.nextHop6 hp)

/-- A candidate has passed the address checks and the OPEN of its peer. -/
theorem handshake_eq_ok {Conn : Type} {io : HandshakeIo} {stream : Conn} {incoming : Bool}
    {c : Candidate Conn} (h : handshake cfg p io stream incoming = .ok c) :
    c.stream = stream ∧ c.incoming = incoming ∧
      (∃ nodes, io.nodes = .ok nodes ∧ Owned p nodes c.linkLocal) ∧
      ∃ body, parseOpen body cfg p = .ok c.negotiated := by
  unfold handshake at h
  obtain ⟨-, -, h⟩ := bind_eq_ok.mp h
  obtain ⟨linkLocal, hlocal, h⟩ := bind_eq_ok.mp h
  obtain ⟨-, -, h⟩ := bind_eq_ok.mp h
  obtain ⟨-, -, h⟩ := bind_eq_ok.mp h
  split at h
  · cases h
  · obtain ⟨⟨⟨kind, body⟩, rest⟩, -, h⟩ := bind_eq_ok.mp h
    obtain ⟨n, hn, h⟩ := bind_eq_ok.mp h
    cases h
    obtain ⟨nodes, hnodes, -, howned⟩ := checkLocalAddresses_eq_ok.mp hlocal
    refine ⟨rfl, rfl, ⟨nodes, hnodes, howned⟩, body, ?_⟩
    unfold Inbound.readOpen at hn
    split at hn
    · cases hn
    · exact hn

/-! Next hops. -/

theorem frameOctets_inj {kind kind' : UInt8} {body body' : Bytes}
    (h : frameOctets kind body = frameOctets kind' body') : kind = kind' ∧ body = body' := by
  have hdrop : ∀ (k : UInt8) (b : Bytes), (frameOctets k b).drop 18 = k :: b := by
    intro k b
    exact List.drop_left' (by simp [marker])
  have heq := congrArg (List.drop 18) h
  rw [hdrop, hdrop] at heq
  exact List.cons.inj heq

/-- An announcement on a connection is a batch of a reachable place of the export loop. -/
theorem Session.announced {e : Exports} {t₀ : ℕ} {xs : List Session.Label} {s : Session.State}
    {body : Bytes} {d : DecodedUpdate} (ha : Announcing cfg p n)
    (h : Lts.Trace (Session.Step cfg p n) (Session.init e t₀) xs s)
    (hf : frameOctets UPDATE body ∈ Session.frames xs) (hd : decodeUpdate n.asn4 body = some d)
    (hr : d.reachable ≠ []) :
    ∃ v6 batch, (if v6 then n.ipv6 else n.ipv4) = true ∧ d.Announces cfg p n v6 batch := by
  obtain ⟨ys, tx, htrace, hutter⟩ := (Session.uttered_of_trace h).1 _ hf
  generalize hframe : frameOctets UPDATE body = f at hutter
  cases hutter with
  | confirmation => cases (frameOctets_inj hframe).1
  | notification hn => cases (frameOctets_inj (hframe.trans (frame_eq_ok.mp hn).2)).1
  | @message m _ ho hrender =>
    cases m with
    | keepalive => cases (frameOctets_inj (hframe.trans (frame_eq_ok.mp hrender).2)).1
    | endOfRib v6 =>
      obtain ⟨body', d', hm, -, -, hd', -, hnone⟩ := endOfRib_meaning n v6
      have hsame := Except.ok.inj (hrender.symm.trans hm)
      obtain rfl := (frameOctets_inj (hframe.trans hsame)).2
      obtain rfl := Option.some.inj (hd.symm.trans hd')
      exact absurd hnone hr
    | update withdraw batch =>
      have hnext : ∃ plan, tx.plan.next = some ((withdraw, batch), plan) := by
        unfold Transmit.State.outgoing at ho
        split at ho
        case h_2 =>
          obtain ⟨⟨⟨withdraw', batch'⟩, plan⟩, hnext, hmsg⟩ := Option.map_eq_some_iff.mp ho
          cases hmsg
          exact ⟨plan, hnext⟩
        all_goals simp at ho
      obtain ⟨plan, hnext⟩ := hnext
      obtain ⟨v6, hb, hfamily⟩ := (Transmit.Synced.of_trace htrace).next_batch hnext
      obtain ⟨body', d', hm, -, -, hd', hmeans⟩ := update_meaning ha hb hfamily
      have hsame := Except.ok.inj (hrender.symm.trans hm)
      obtain rfl := (frameOctets_inj (hframe.trans hsame)).2
      obtain rfl := Option.some.inj (hd.symm.trans hd')
      cases withdraw with
      | true =>
        have hmeans : d.Withdraws batch := hmeans
        exact absurd hmeans.reachable hr
      | false => exact ⟨v6, batch, hfamily rfl, hmeans⟩

/-- The link-local next hop of a session, configured or found, is one of the interface. -/
theorem Owned.fill {linkLocal : Option Ipv6Addr} (h : Owned p nodes linkLocal)
    (hp : Config.ValidPeer cfg p) : ∀ a ∈ (p.fill linkLocal).nextHopV6LinkLocal,
      .v6 a ∈ p.ips nodes ∧ Ipv6.isUnicastLinkLocal a = true := by
  unfold Peer.fill
  split
  · exact h.found
  · intro a ha
    exact ⟨h.configured a ha, hp.linkLocal a ha⟩

/-- Whatever happens on a connection, every announcement on it names only next hops that the
peering interface had when the connection was made: a valid IPv4 address, or a global IPv6 address
that a link-local one may follow. -/
theorem nextHops_owned {Conn : Type} {io : HandshakeIo} {stream : Conn} {incoming : Bool}
    {c : Candidate Conn} {e : Exports} {t₀ : ℕ} {xs : List Session.Label} {s : Session.State}
    (hv : cfg.validate = .ok ()) (hP : P ∈ cfg.peers)
    (hc : handshake cfg P io stream incoming = .ok c)
    (h : Lts.Trace (Session.Step cfg (P.fill c.linkLocal) c.negotiated) (Session.init e t₀) xs s) :
    ∃ nodes, io.nodes = .ok nodes ∧ ∀ body d, frameOctets UPDATE body ∈ Session.frames xs →
      decodeUpdate c.negotiated.asn4 body = some d → d.reachable ≠ [] →
      (∃ a, d.nextHop = some a ∧ d.mpNextHops = none ∧ validV4 a = true ∧
        .v4 a ∈ P.ips nodes) ∨
      ∃ a rest, d.nextHop = none ∧ d.mpNextHops = some (a :: rest) ∧
        Ipv6.isUnicastLinkLocal a = false ∧ .v6 a ∈ P.ips nodes ∧
        ∀ l ∈ rest, Ipv6.isUnicastLinkLocal l = true ∧ .v6 l ∈ P.ips nodes := by
  have hvalid := (Config.validate_eq_ok.mp hv).peers P hP
  obtain ⟨-, -, ⟨nodes, hnodes, howned⟩, b, hopen⟩ := handshake_eq_ok hc
  refine ⟨nodes, hnodes, ?_⟩
  intro body d hf hd hr
  have ha := announcing_of_open hvalid hopen c.linkLocal
  obtain ⟨v6, batch, hfamily, hmeans⟩ := Session.announced ha h hf hd hr
  obtain ⟨o, -, -, -, hsession⟩ := parseOpen_eq_ok.mp hopen
  rw [hsession] at hfamily
  have h4 := hmeans.nextHop
  have h6 := hmeans.mpNextHops
  cases v6 with
  | false =>
    simp only [OpenFields.session, Bool.false_eq_true, if_false, Bool.and_eq_true] at hfamily
    obtain ⟨a, hnh, hin⟩ := howned.nextHop4 hfamily.1
    obtain ⟨a', hnh', hvalid4⟩ := hvalid.nextHop4 hfamily.1
    obtain rfl : a = a' := Option.some.inj (hnh.symm.trans hnh')
    rw [fill_nh4, hnh] at h4
    exact Or.inl ⟨a, h4, h6, hvalid4, hin⟩
  | true =>
    simp only [OpenFields.session, if_true, Bool.and_eq_true] at hfamily
    obtain ⟨a, hnh, hin⟩ := howned.nextHop6 hfamily.1
    obtain ⟨a', hnh', -, hglobal⟩ := hvalid.nextHop6 hfamily.1
    obtain rfl : a = a' := Option.some.inj (hnh.symm.trans hnh')
    rw [fill_nh6, hnh] at h6
    refine Or.inr ⟨a, _, h4, h6, hglobal, hin, ?_⟩
    intro l hl
    obtain ⟨hin', hlocal⟩ := howned.fill hvalid l (by simpa using hl)
    exact ⟨hlocal, hin'⟩

/-- The OPEN of the other end arrives, and the interface has the local address. -/
def exampleIo : HandshakeIo where
  configured := .ok ()
  nodes := .ok [⟨"lo", some (.v4 0x7f000001#32)⟩, ⟨"eth0", some (.v4 0xC0000201#32)⟩]
  sent := .ok ()
  received := frameOctets OPEN (openBody remoteConfig remotePeer)
  late := false

theorem exampleIo_ok : handshake exampleConfig examplePeer exampleIo () false =
    .ok ⟨(), Transmit.leakSession, false, none⟩ := by
  have hlocal : checkLocalAddresses exampleIo.nodes examplePeer = .ok none := by
    decide +kernel
  obtain ⟨m, hm, -⟩ := openMessage_eq exampleConfig examplePeer
  have hframe : readFrame exampleIo.received = .ok ((OPEN, openBody remoteConfig remotePeer), []) :=
    readFrame_eq_ok.mpr ⟨⟨by decide, by decide +kernel, by decide +kernel⟩, by simp [exampleIo]⟩
  have hopen := (parseOpen_mirrored example_mirrored Transmit.leakSession).mpr
    ⟨fun he => absurd he.2 (by decide), Or.inl ⟨rfl, rfl⟩, rfl⟩
  simp only [handshake, hlocal, hm, hframe, ok_bind, Inbound.readOpen, ne_eq, not_true_eq_false,
    if_false, hopen]
  rfl

/-- The announcement of the example session. -/
def exampleAnnouncement : Bytes :=
  [0, 0, 0, 20, 64, 1, 1, 2, 64, 2, 6, 2, 1, 0, 0, 252, 0, 64, 3, 4, 192, 0, 2, 1, 24, 198, 51, 100]

theorem exampleAnnouncement_frames :
    (Lts.exec (Session.step exampleConfig examplePeer Transmit.leakSession)
        (Session.announcingMoves 1) (Session.init Transmit.permittedExports 0)).map
      (fun r => decide (frameOctets UPDATE exampleAnnouncement ∈ Session.frames r.1)) =
      some true := by
  decide +kernel

theorem example_nextHops_owned :
    ∃ xs s, Lts.Trace (Session.Step exampleConfig examplePeer Transmit.leakSession)
        (Session.init Transmit.permittedExports 0) xs s ∧
      frameOctets UPDATE exampleAnnouncement ∈ Session.frames xs ∧
      ∃ a, ((decodeUpdate true exampleAnnouncement).bind DecodedUpdate.nextHop) = some a ∧
        .v4 a ∈ [IpAddr.v4 0xC0000201#32] := by
  obtain ⟨⟨xs, s⟩, hr, hf⟩ := Option.map_eq_some_iff.mp exampleAnnouncement_frames
  have hf := of_decide_eq_true hf
  have htrace := Lts.exec_trace hr
  obtain ⟨nodes, hnodes, hmain⟩ := nextHops_owned (P := examplePeer) exampleConfig_valid
    (List.mem_singleton.mpr rfl) exampleIo_ok htrace
  obtain ⟨d, hd⟩ := Option.isSome_iff_exists.mp
    (show (decodeUpdate true exampleAnnouncement).isSome = true by decide +kernel)
  have hreach : ((decodeUpdate true exampleAnnouncement).map DecodedUpdate.reachable) =
      some [examplePrefix] := by decide +kernel
  rw [hd] at hreach
  have hne : d.reachable ≠ [] := by
    rw [Option.some.inj hreach]
    simp
  have hips : examplePeer.ips nodes = [IpAddr.v4 0xC0000201#32] := by
    cases hnodes
    decide +kernel
  rw [hd, Option.bind_some, ← hips]
  rcases hmain _ d hf hd hne with ⟨a, ha, -, -, hin⟩ | ⟨a, rest, hnone, -⟩
  · exact ⟨_, s, htrace, hf, a, ha, hin⟩
  · have hsome : ((decodeUpdate true exampleAnnouncement).bind DecodedUpdate.nextHop).isSome =
        true := by decide +kernel
    rw [hd, Option.bind_some, hnone] at hsome
    cases hsome


end Ubgp
