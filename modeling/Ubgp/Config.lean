import Mathlib.Data.List.AList
import Mathlib.Data.Finset.Basic
import Ubgp.Net

/-! The configuration, its ACL semantics and its validation (`config.rs`). -/
namespace Ubgp

/-- Upper bound for configurable wall-clock timeouts, in seconds. -/
def maxTimeoutSecs : ℕ := 24 * 60 * 60

structure SocketAddr where
  ip : IpAddr
  port : UInt16

structure Management where
  enabled : Bool
  listen : SocketAddr

structure Kernel where
  tables : List UInt32
  receiveBufferBytes : ℕ
  refreshIntervalMs : ℕ
  reconcileIntervalSecs : ℕ
  staleTimeoutSecs : ℕ
  dumpTimeoutSecs : ℕ
  maxPrefixes : ℕ

structure Peer where
  address : IpAddr
  localAddress : IpAddr
  interface : String
  remoteAsn : UInt32
  exportAcl : String
  md5Password : Option String
  port : UInt16
  holdTimeSecs : UInt16
  connectTimeoutSecs : ℕ
  writeTimeoutSecs : ℕ
  ipv6 : Bool
  ipv4 : Bool
  nextHopV4 : Option Ipv4Addr
  nextHopV6 : Option Ipv6Addr
  nextHopV6LinkLocal : Option Ipv6Addr

inductive Action
  | permit
  | deny
deriving DecidableEq

structure Rule where
  action : Action
  net : IpNet
  minLength : Option ℕ
  maxLength : Option ℕ

structure Acl where
  rules : List Rule

/-- ACL names are unique because `acls` is a map; its entry order is the iteration order. -/
structure Config where
  asn : UInt32
  routerId : Ipv4Addr
  ipv6 : Bool
  listenPort : UInt16
  kernel : Kernel
  management : Management
  acls : AList (fun _ : String => Acl)
  peers : List Peer

/-- The defaults of an omitted `[management]` section: 127.0.0.1:65090, enabled. -/
def Management.default : Management := ⟨true, ⟨.v4 0x7f000001#32, 65090⟩⟩

/-- The defaults of an omitted `[kernel]` section. -/
def Kernel.default : Kernel where
  tables := [254]
  receiveBufferBytes := 64 * 1024 * 1024
  refreshIntervalMs := 250
  reconcileIntervalSecs := 300
  staleTimeoutSecs := 30
  dumpTimeoutSecs := 10
  maxPrefixes := 2000000

namespace Rule

/-- The length range of a rule: omitted bounds require the rule's exact prefix length. -/
def low (r : Rule) : ℕ := r.minLength.getD r.net.prefixLen
def high (r : Rule) : ℕ := r.maxLength.getD r.net.prefixLen

def selects (r : Rule) (p : IpNet) : Bool :=
  r.net.contains p && decide (r.low ≤ p.prefixLen) && decide (p.prefixLen ≤ r.high)

end Rule

/-- Apply the first matching prefix/length rule, denying when no rule matches. -/
def Acl.permits (a : Acl) (p : IpNet) : Bool :=
  match a.rules.find? (·.selects p) with
  | some r => r.action == .permit
  | none => false

/-- Reject unspecified, multicast, and limited-broadcast IPv4 addresses. -/
def validV4 (a : Ipv4Addr) : Bool :=
  !Ipv4.isUnspecified a && !Ipv4.isMulticast a && a != Ipv4.broadcast

/-- A BGP identifier is a nonzero integer, not necessarily an IPv4 host address. -/
def validRouterId (id : Ipv4Addr) : Bool := !Ipv4.isUnspecified id

/-- Reject unspecified and multicast IPv6 addresses; link-local addresses are allowed. -/
def validV6 (a : Ipv6Addr) : Bool := !Ipv6.isUnspecified a && !Ipv6.isMulticast a

def validAddr : IpAddr → Bool
  | .v4 a => validV4 a
  | .v6 a => validV6 a

namespace Peer

/-- The explicit IPv4 next hop, or an IPv4 local transport address. -/
def nh4 (p : Peer) : Option Ipv4Addr :=
  p.nextHopV4.or (match p.localAddress with | .v4 a => some a | .v6 _ => none)

/-- The explicit IPv6 next hop, or an IPv6 local transport address. -/
def nh6 (p : Peer) : Option Ipv6Addr :=
  p.nextHopV6.or (match p.localAddress with | .v6 a => some a | .v4 _ => none)

def endpoint (p : Peer) : IpAddr × IpAddr × String := (p.address, p.localAddress, p.interface)

end Peer

/-! Error texts keep their interpolated values unrendered. -/

inductive Part
  | text (s : String)
  | addr (a : IpAddr)
  | quoted (s : String)
deriving DecidableEq

abbrev Message := List Part

def ensure (ok : Bool) (m : Message) : Except Message Unit :=
  if ok then .ok () else .error m

theorem ensure_eq_ok {ok : Bool} {m : Message} : ensure ok m = .ok () ↔ ok = true := by
  cases ok <;> simp [ensure]

theorem bind_unit_eq_ok {α : Type} {x : Except Message Unit} {f : Unit → Except Message α}
    {r : α} : (x >>= f) = .ok r ↔ x = .ok () ∧ f () = .ok r := by
  cases x <;> simp [bind, Except.bind]

theorem forM_eq_ok {α : Type} {f : α → Except Message Unit} (l : List α) :
    l.forM f = .ok () ↔ ∀ x ∈ l, f x = .ok () := by
  induction l with
  | nil => simp [List.forM_nil, pure, Except.pure]
  | cons x l ih =>
    rw [List.forM_eq_forM] at ih ⊢
    simp only [List.forM_cons, bind_unit_eq_ok, ih, List.forall_mem_cons]

/-- `seconds` lies in `1..=MAX_TIMEOUT_SECS`. -/
def timeoutOk (seconds : ℕ) : Bool := decide (1 ≤ seconds) && decide (seconds ≤ maxTimeoutSecs)

namespace Config

/-- One ACL rule has no host bits and a length range its family admits. -/
def checkRule (name : String) (r : Rule) : Except Message Unit := do
  ensure (r.net == r.net.trunc)
    [.text "ACL ", .text name, .text ": prefix must have no host bits"]
  ensure (decide (r.net.prefixLen ≤ r.low) && decide (r.low ≤ r.high) &&
      decide (r.high ≤ if r.net.isIpv4 then 32 else 128))
    [.text "ACL ", .text name, .text ": invalid prefix length range"]

def checkAcl (e : Sigma fun _ : String => Acl) : Except Message Unit := do
  ensure (!e.1.isEmpty) [.text "ACL name must not be empty"]
  e.2.rules.forM (checkRule e.1)

def checkKernelTimeout (e : String × ℕ) : Except Message Unit :=
  ensure (timeoutOk e.2) [.text "kernel ", .text e.1, .text " must be 1..=86400 seconds"]

def checkPeerTimeout (p : Peer) (e : String × ℕ) : Except Message Unit :=
  ensure (timeoutOk e.2)
    [.text "peer ", .addr p.address, .text ": ", .text e.1, .text " must be 1..=86400 seconds"]

/-- TCP_MD5SIG_MAXKEYLEN. -/
def md5MaxKeyLen : ℕ := 80
/-- IFNAMSIZ. -/
def ifNameSize : ℕ := 16

def md5Ok (key : String) : Bool :=
  decide (1 ≤ key.utf8ByteSize) && decide (key.utf8ByteSize ≤ md5MaxKeyLen)

def interfaceOk (name : String) : Bool :=
  !name.isEmpty && decide (name.utf8ByteSize < ifNameSize) && !name.toList.contains (Char.ofNat 0)

/-- Check one peer against the endpoints of the peers before it, and add its own. -/
def checkPeer (cfg : Config) (endpoints : List (IpAddr × IpAddr × String)) (p : Peer) :
    Except Message (List (IpAddr × IpAddr × String)) := do
  ensure (p.md5Password.all md5Ok)
    [.text "peer ", .addr p.address, .text ": md5_password must contain 1..=80 UTF-8 bytes; ",
      .text "omit it to disable authentication"]
  ensure (decide (p.exportAcl ∈ cfg.acls))
    [.text "peer ", .addr p.address, .text ": mandatory export ACL ", .quoted p.exportAcl,
      .text " does not exist"]
  ensure (p.remoteAsn != 0 && p.remoteAsn != 23456 && p.port != 0)
    [.text "invalid peer ASN or port"]
  ensure (p.address != p.localAddress && p.address.isIpv4 == p.localAddress.isIpv4)
    [.text "peer/local addresses must differ and use the same transport family"]
  ensure (validAddr p.address) [.text "invalid peer address"]
  ensure (validAddr p.localAddress) [.text "invalid local address"]
  ensure (interfaceOk p.interface) [.text "invalid peer interface"]
  ensure (!endpoints.contains p.endpoint) [.text "duplicate peer endpoint"]
  ensure (p.holdTimeSecs == 0 || decide (3 ≤ p.holdTimeSecs))
    [.text "hold time must be zero or >= 3 seconds"]
  [("connect_timeout_secs", p.connectTimeoutSecs),
    ("write_timeout_secs", p.writeTimeoutSecs)].forM (checkPeerTimeout p)
  ensure (p.ipv4 || p.ipv6) [.text "peer must enable at least one address family"]
  ensure (cfg.ipv6 || (!p.ipv6 && p.address.isIpv4 && p.nextHopV6.isNone &&
      p.nextHopV6LinkLocal.isNone))
    [.text "IPv6 must be enabled globally before using IPv6 settings"]
  ensure (!p.ipv4 || p.nh4.any validV4) [.text "IPv4 export requires a valid local next_hop_v4"]
  ensure (!p.ipv6 || p.nh6.any (fun a => validV6 a && !Ipv6.isUnicastLinkLocal a))
    [.text "IPv6 export requires a non-link-local next_hop_v6"]
  ensure (p.nextHopV6LinkLocal.all Ipv6.isUnicastLinkLocal)
    [.text "next_hop_v6_link_local must be link-local"]
  return p.endpoint :: endpoints

/-- Check configuration bounds, ACL references, peer uniqueness, and address families. -/
def validate (cfg : Config) : Except Message Unit := do
  ensure cfg.management.listen.ip.isLoopback
    [.text "management CLI must bind to a loopback address"]
  ensure (cfg.management.listen.port != 0) [.text "management CLI port must be nonzero"]
  ensure (cfg.asn != 0 && cfg.asn != 23456)
    [.text "local ASN must be nonzero and not AS_TRANS"]
  ensure (validRouterId cfg.routerId) [.text "router_id must be nonzero"]
  ensure (cfg.listenPort != 0) [.text "listen_port must be nonzero"]
  ensure (!cfg.peers.isEmpty) [.text "at least one peer is required"]
  ensure (!cfg.kernel.tables.isEmpty && cfg.kernel.tables.all (· != 0))
    [.text "select at least one nonzero routing table"]
  ensure (decide (65536 ≤ cfg.kernel.receiveBufferBytes) &&
      decide (cfg.kernel.receiveBufferBytes ≤ 1024 * 1024 * 1024))
    [.text "receive_buffer_bytes must be 64 KiB..1 GiB"]
  ensure (decide (10 ≤ cfg.kernel.refreshIntervalMs) &&
      decide (cfg.kernel.refreshIntervalMs ≤ 60000))
    [.text "refresh_interval_ms must be 10..60000"]
  [("reconcile_interval_secs", cfg.kernel.reconcileIntervalSecs),
    ("stale_timeout_secs", cfg.kernel.staleTimeoutSecs),
    ("dump_timeout_secs", cfg.kernel.dumpTimeoutSecs)].forM checkKernelTimeout
  ensure (decide (cfg.kernel.dumpTimeoutSecs < cfg.kernel.staleTimeoutSecs))
    [.text "dump timeout must be shorter than stale timeout"]
  ensure (decide (0 < cfg.kernel.maxPrefixes)) [.text "max_prefixes must be positive"]
  cfg.acls.entries.forM checkAcl
  let _ ← cfg.peers.foldlM (checkPeer cfg) []
  return ()

/-- What `validate` guarantees of a peer. -/
structure ValidPeer (cfg : Config) (p : Peer) : Prop where
  md5 : ∀ key ∈ p.md5Password, md5Ok key = true
  acl : p.exportAcl ∈ cfg.acls
  remoteAsn : p.remoteAsn ≠ 0 ∧ p.remoteAsn ≠ 23456
  port : p.port ≠ 0
  transport : p.address ≠ p.localAddress ∧ p.address.isIpv4 = p.localAddress.isIpv4
  address : validAddr p.address = true
  localAddress : validAddr p.localAddress = true
  interface : interfaceOk p.interface = true
  hold : p.holdTimeSecs = 0 ∨ 3 ≤ p.holdTimeSecs
  connectTimeout : timeoutOk p.connectTimeoutSecs = true
  writeTimeout : timeoutOk p.writeTimeoutSecs = true
  family : p.ipv4 = true ∨ p.ipv6 = true
  globalIpv6 : cfg.ipv6 = true ∨ (p.ipv6 = false ∧ p.address.isIpv4 = true ∧
    p.nextHopV6 = none ∧ p.nextHopV6LinkLocal = none)
  nextHop4 : p.ipv4 = true → ∃ a, p.nh4 = some a ∧ validV4 a = true
  nextHop6 : p.ipv6 = true →
    ∃ a, p.nh6 = some a ∧ validV6 a = true ∧ Ipv6.isUnicastLinkLocal a = false
  linkLocal : ∀ a ∈ p.nextHopV6LinkLocal, Ipv6.isUnicastLinkLocal a = true

/-- What `validate` guarantees of a rule. -/
structure ValidRule (r : Rule) : Prop where
  hostBits : r.net = r.net.trunc
  base_le_low : r.net.prefixLen ≤ r.low
  low_le_high : r.low ≤ r.high
  high_le : r.high ≤ if r.net.isIpv4 then 32 else 128

/-- What `validate` guarantees of the whole configuration. -/
structure Valid (cfg : Config) : Prop where
  managementLoopback : cfg.management.listen.ip.isLoopback = true
  managementPort : cfg.management.listen.port ≠ 0
  asn : cfg.asn ≠ 0 ∧ cfg.asn ≠ 23456
  routerId : validRouterId cfg.routerId = true
  listenPort : cfg.listenPort ≠ 0
  peers_ne : cfg.peers ≠ []
  tables : cfg.kernel.tables ≠ [] ∧ ∀ t ∈ cfg.kernel.tables, t ≠ 0
  receiveBuffer : 65536 ≤ cfg.kernel.receiveBufferBytes ∧
    cfg.kernel.receiveBufferBytes ≤ 1024 * 1024 * 1024
  refreshInterval : 10 ≤ cfg.kernel.refreshIntervalMs ∧ cfg.kernel.refreshIntervalMs ≤ 60000
  reconcileInterval : timeoutOk cfg.kernel.reconcileIntervalSecs = true
  staleTimeout : timeoutOk cfg.kernel.staleTimeoutSecs = true
  dumpTimeout : timeoutOk cfg.kernel.dumpTimeoutSecs = true
  dump_lt_stale : cfg.kernel.dumpTimeoutSecs < cfg.kernel.staleTimeoutSecs
  maxPrefixes : 0 < cfg.kernel.maxPrefixes
  acls : ∀ e ∈ cfg.acls.entries, e.1 ≠ "" ∧ ∀ r ∈ e.2.rules, ValidRule r
  peers : ∀ p ∈ cfg.peers, ValidPeer cfg p
  endpoints : (cfg.peers.map Peer.endpoint).Nodup

theorem checkRule_eq_ok {name : String} {r : Rule} :
    checkRule name r = .ok () ↔ ValidRule r := by
  simp only [checkRule, bind_unit_eq_ok, ensure_eq_ok, beq_iff_eq, Bool.and_eq_true,
    decide_eq_true_eq]
  constructor
  · rintro ⟨hh, ⟨hb, hl⟩, hu⟩
    exact ⟨hh, hb, hl, hu⟩
  · intro h
    exact ⟨h.hostBits, ⟨h.base_le_low, h.low_le_high⟩, h.high_le⟩

theorem checkAcl_eq_ok {e : Sigma fun _ : String => Acl} :
    checkAcl e = .ok () ↔ e.1 ≠ "" ∧ ∀ r ∈ e.2.rules, ValidRule r := by
  simp only [checkAcl, bind_unit_eq_ok, forM_eq_ok, checkRule_eq_ok, ensure_eq_ok]
  simp

theorem checkPeer_eq_ok {cfg : Config} {p : Peer} {es es' : List (IpAddr × IpAddr × String)} :
    checkPeer cfg es p = .ok es' ↔
      ValidPeer cfg p ∧ p.endpoint ∉ es ∧ es' = p.endpoint :: es := by
  simp only [checkPeer, bind_unit_eq_ok, forM_eq_ok, checkPeerTimeout,
    ensure_eq_ok, List.mem_cons, List.not_mem_nil, forall_eq_or_imp]
  constructor
  · rintro ⟨h₁, h₂, h₃, h₄, h₅, h₆, h₇, h₈, h₉, ⟨h₁₀, h₁₁, -⟩, h₁₂, h₁₃, h₁₄, h₁₅, h₁₆, h⟩
    simp only [pure, Except.pure, Except.ok.injEq] at h
    simp only [Bool.and_eq_true, Bool.or_eq_true, bne_iff_ne, beq_iff_eq, decide_eq_true_eq,
      Bool.not_eq_true', Option.isNone_iff_eq_none, Option.any_eq_true, Option.all_eq_true,
      List.contains_eq_mem, decide_eq_false_iff_not] at *
    exact ⟨{ md5 := h₁, acl := h₂, remoteAsn := h₃.1, port := h₃.2, transport := h₄, address := h₅
             localAddress := h₆, interface := h₇, hold := h₉, connectTimeout := h₁₀
             writeTimeout := h₁₁, family := h₁₂
             globalIpv6 := by simpa only [and_assoc] using h₁₃
             nextHop4 := fun hp => by simpa [hp] using h₁₄
             nextHop6 := fun hp => by simpa [hp] using h₁₅
             linkLocal := h₁₆ }, h₈, h.symm⟩
  · rintro ⟨h, hn, rfl⟩
    have h4 := h.nextHop4
    have h6 := h.nextHop6
    refine ⟨?_, ?_, ?_, ?_, h.address, h.localAddress, h.interface, ?_, ?_,
      ⟨h.connectTimeout, h.writeTimeout, by simp⟩, ?_, ?_, ?_, ?_, ?_, rfl⟩
    · simpa [Option.all_eq_true] using h.md5
    · simpa using h.acl
    · simpa [and_assoc] using ⟨h.remoteAsn.1, h.remoteAsn.2, h.port⟩
    · simpa using h.transport
    · simpa using hn
    · simpa using h.hold
    · simpa using h.family
    · simpa [and_assoc] using h.globalIpv6
    · cases hp : p.ipv4
      · rfl
      · simpa [Option.any_eq_true] using h4 hp
    · cases hp : p.ipv6
      · rfl
      · simpa [Option.any_eq_true] using h6 hp
    · simpa [Option.all_eq_true] using h.linkLocal

/-- The fold over the peers accepts exactly valid peers with fresh endpoints. -/
theorem checkPeers_eq_ok (cfg : Config) (ps : List Peer)
    (es : List (IpAddr × IpAddr × String)) :
    (∃ es', ps.foldlM (checkPeer cfg) es = .ok es') ↔
      (∀ p ∈ ps, ValidPeer cfg p) ∧ (ps.map Peer.endpoint).Nodup ∧
        ∀ p ∈ ps, p.endpoint ∉ es := by
  induction ps generalizing es with
  | nil => simp [pure, Except.pure]
  | cons p ps ih =>
    have hbind : (∃ es', (p :: ps).foldlM (checkPeer cfg) es = .ok es') ↔
        ∃ es₁, checkPeer cfg es p = .ok es₁ ∧ ∃ es', ps.foldlM (checkPeer cfg) es₁ = .ok es' := by
      rw [List.foldlM_cons]
      cases checkPeer cfg es p <;> simp [bind, Except.bind]
    rw [hbind]
    simp only [checkPeer_eq_ok, ih, List.forall_mem_cons, List.map_cons, List.nodup_cons,
      List.mem_map, not_exists, not_and]
    constructor
    · rintro ⟨es₁, ⟨hp, hn, rfl⟩, hv, hnd, hf⟩
      simp only [List.mem_cons, not_or] at hf
      exact ⟨⟨hp, hv⟩, ⟨fun q hq he => (hf q hq).1 he, hnd⟩, hn, fun q hq => (hf q hq).2⟩
    · rintro ⟨⟨hp, hv⟩, ⟨hq, hnd⟩, hn, hf⟩
      refine ⟨_, ⟨hp, hn, rfl⟩, hv, hnd, ?_⟩
      intro q hm
      simp only [List.mem_cons, not_or]
      exact ⟨hq q hm, hf q hm⟩

/-- `validate` accepts exactly the valid configurations. -/
theorem validate_eq_ok {cfg : Config} : cfg.validate = .ok () ↔ Valid cfg := by
  have hpeers := checkPeers_eq_ok cfg cfg.peers []
  have hlast : (do let _ ← cfg.peers.foldlM (checkPeer cfg) []; return () : Except Message Unit) =
      .ok () ↔ ∃ es', cfg.peers.foldlM (checkPeer cfg) [] = .ok es' := by
    cases cfg.peers.foldlM (checkPeer cfg) [] <;> simp [bind, Except.bind, pure, Except.pure]
  simp only [validate, bind_unit_eq_ok, forM_eq_ok, checkKernelTimeout,
    ensure_eq_ok, checkAcl_eq_ok, List.mem_cons, List.not_mem_nil, forall_eq_or_imp, hlast, hpeers]
  simp only [Bool.and_eq_true, bne_iff_ne, decide_eq_true_eq, Bool.not_eq_true',
    List.isEmpty_eq_false_iff, List.all_eq_true]
  constructor
  · rintro ⟨h₁, h₂, h₃, h₄, h₅, h₆, h₇, h₈, h₉, ⟨h₁₀, h₁₁, h₁₂, -⟩, h₁₃, h₁₄, h₁₅, h₁₆, h₁₇, -⟩
    exact ⟨h₁, h₂, h₃, h₄, h₅, h₆, h₇, h₈, h₉, h₁₀, h₁₁, h₁₂, h₁₃, h₁₄, h₁₅, h₁₆, h₁₇⟩
  · intro h
    exact ⟨h.managementLoopback, h.managementPort, h.asn, h.routerId, h.listenPort, h.peers_ne,
      h.tables, h.receiveBuffer, h.refreshInterval,
      ⟨h.reconcileInterval, h.staleTimeout, h.dumpTimeout, by simp⟩, h.dump_lt_stale,
      h.maxPrefixes, h.acls, h.peers, h.endpoints, by simp⟩

end Config

/-- The peer of `examples/ubgp.toml`. -/
def examplePeer : Peer where
  address := .v4 0xC0000202#32
  localAddress := .v4 0xC0000201#32
  interface := "eth0"
  remoteAsn := 64513
  exportAcl := "export"
  md5Password := none
  port := 179
  holdTimeSecs := 90
  connectTimeoutSecs := 10
  writeTimeoutSecs := 10
  ipv6 := false
  ipv4 := true
  nextHopV4 := none
  nextHopV6 := none
  nextHopV6LinkLocal := none

/-- 198.51.100.0/24. -/
def examplePrefix : IpNet := .v4 ⟨0xC6336400#32, 24, by decide⟩

/-- 2001:db8::/32. -/
def examplePrefix6 : IpNet := .v6 ⟨0x20010db8000000000000000000000000#128, 32, by decide⟩

/-- The configuration of `examples/ubgp.toml`. -/
def exampleConfig : Config where
  asn := 64512
  routerId := 0xC0000201#32
  ipv6 := false
  listenPort := 179
  kernel := .default
  management := .default
  acls := AList.singleton "export"
    ⟨[⟨.deny, .v4 ⟨0xCB007180#32, 25, by decide⟩, some 25, some 32⟩,
      ⟨.permit, examplePrefix, none, none⟩,
      ⟨.permit, .v4 ⟨0xCB007100#32, 24, by decide⟩, some 26, some 32⟩]⟩
  peers := [examplePeer]

/-- The other end of that session. -/
def remotePeer : Peer :=
  { examplePeer with
    address := .v4 0xC0000201#32
    localAddress := .v4 0xC0000202#32
    remoteAsn := 64512
    holdTimeSecs := 30 }

def remoteConfig : Config :=
  { exampleConfig with asn := 64513, routerId := 0xC0000202#32, peers := [remotePeer] }

theorem exampleConfig_valid : exampleConfig.validate = .ok () := by rfl

theorem remoteConfig_valid : remoteConfig.validate = .ok () := by rfl

end Ubgp
