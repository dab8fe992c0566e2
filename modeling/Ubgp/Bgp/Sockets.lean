import Ubgp.Bgp.Listeners
import Ubgp.Management.Display

/-! The sockets of the peers (`tcp_md5.rs`, `transport.rs`, and `connect` and the second loop of
`run` in `bgp.rs`): in which order they are set up, and which TCP-MD5 keys they end up with.

The kernel keeps the keys of a socket by peer address; each of its calls may fail. -/
namespace Ubgp
namespace Sockets
open Listeners (Key key sharing firstPeer)

structure Endpoint where
  ip : IpAddr
  port : UInt16
  scope : ℕ
deriving DecidableEq

/-- Build a socket address, using the interface index to scope link-local IPv6. -/
def endpoint (ip : IpAddr) (port : UInt16) (index : ℕ) : Endpoint :=
  match ip with
  | .v6 a => ⟨ip, port, if Ipv6.isUnicastLinkLocal a then index else 0⟩
  | .v4 _ => ⟨ip, port, 0⟩

inductive Call
  | new (v6 : Bool)
  | reuseAddress
  | onlyV6
  | bindDevice (name : String)
  | ttlV4 (hops : ℕ)
  | unicastHopsV6 (hops : ℕ)
  | nodelay
  | md5sig (address : Endpoint) (key : Bytes)
  | nonblocking
  | bind (address : Endpoint)
  | listen (backlog : ℕ)
  | connect (address : Endpoint)

abbrev Keys := AList (fun _ : IpAddr => Bytes)

/-- What the kernel knows of a socket. -/
structure Options where
  v6 : Bool
  device : Option String
  hops : Option (Bool × ℕ)
  source : Option Endpoint
  keys : Keys

/-- `opened` is what the kernel knew of the socket when it was to listen or to connect, and in the
second case to which address. -/
structure Socket extends Options where
  opened : Option (Options × Option Endpoint)

/-- A call to listen or to connect is seen on the network, whatever it returns. -/
def Socket.enter (s : Socket) : Call → Socket
  | .listen _ => { s with opened := some (s.toOptions, none) }
  | .connect address => { s with opened := some (s.toOptions, some address) }
  | _ => s

def Socket.apply (s : Socket) : Call → Socket
  | .bindDevice name => { s with device := some name }
  | .ttlV4 hops => { s with hops := some (false, hops) }
  | .unicastHopsV6 hops => { s with hops := some (true, hops) }
  | .md5sig address key => { s with keys := s.keys.insert address.ip key }
  | .bind address => { s with source := some address }
  | .new _ | .reuseAddress | .onlyV6 | .nodelay | .nonblocking | .listen _ | .connect _ => s

/-- The operating system: interface indices, the errors of its calls, and whether a connection takes
longer than its peer allows. -/
structure Os where
  ifIndex : String → ℕ
  fails : Call → Option String
  late : Bool

/-- A setup that fails leaves the socket as far as it came. -/
abbrev Setup (α : Type) := ExceptT String (StateM Socket) α

variable (os : Os) (cfg : Config) (p : Peer) (index : ℕ)

def call (c : Call) : Setup Unit := fun s =>
  match os.fails c with
  | some e => (.error e, s.enter c)
  | none => (.ok (), (s.enter c).apply c)

/-- The chain of an error with its context, as it is logged. -/
def withContext {α : Type} (text : String) (m : Setup α) : Setup α := fun s =>
  match m s with
  | (.error e, t) => (.error (text ++ ": " ++ e), t)
  | (.ok a, t) => (.ok a, t)

/-- `Socket::new`. -/
def create (v6 : Bool) : Except String Socket :=
  match os.fails (.new v6) with
  | some e => .error e
  | none => .ok ⟨⟨v6, none, none, none, ∅⟩, none⟩

/-- Resolve the peering interface to its kernel index, failing if it is absent. -/
def ifIndex : Except String ℕ :=
  if 0 ∈ p.interface.toUTF8.toList then
    .error ("nul byte found in provided data at position: " ++
      toString (p.interface.toUTF8.toList.idxOf 0))
  else if os.ifIndex p.interface = 0 then
    .error ("interface " ++ p.interface ++ " does not exist")
  else .ok (os.ifIndex p.interface)

/-- Bind traffic to the peering interface, limit it to one hop, and disable Nagle. -/
def configure : Setup Unit := do
  withContext "binding BGP socket to interface" (call os (.bindDevice p.interface))
  if p.address.isIpv4 then call os (.ttlV4 1) else call os (.unicastHopsV6 1)
  call os .nodelay

/-- The octets of a key. -/
def keyBytes (key : String) : Bytes := key.toUTF8.toList

/-- Install the peer's TCP-MD5 key before connect or listen; do nothing if none is set. -/
def install : Setup Unit :=
  match p.md5Password with
  | none => pure ()
  | some key =>
    if Config.md5Ok key then
      withContext ("installing TCP-MD5 for peer " ++ Console.showIp p.address ++
        "; kernel TCP_MD5SIG support is required")
        (call os (.md5sig (endpoint p.address 0 index) (keyBytes key)))
    else throw "invalid TCP-MD5 key length"

/-- `socket.connect` under the peer's deadline. -/
def dial : Setup Unit :=
  let connect : Call := .connect (endpoint p.address p.port index)
  if os.late then fun s =>
    (.error ("TCP connect timed out after " ++ toString p.connectTimeoutSecs ++
      "s: deadline has elapsed"), s.enter connect)
  else withContext "TCP connect failed" (call os connect)

/-- What `connect` does to its socket. -/
def connecting : Setup Unit := do
  configure os p
  withContext "binding local TCP address" (call os (.bind (endpoint p.localAddress 0 index)))
  install os p index
  dial os p index

/-- A new socket and its setup; the socket is there unless it could not be created. -/
def setUp (v6 : Bool) (setup : ℕ → Setup Unit) : Except String Unit × Option Socket :=
  match ifIndex os p with
  | .error e => (.error e, none)
  | .ok index =>
    match create os v6 with
    | .error e => (.error e, none)
    | .ok socket =>
      let (result, socket) := setup index socket
      (result, some socket)

/-- Connect from the configured local address with optional TCP-MD5 and a deadline. -/
def connect : Except String Unit × Option Socket :=
  setUp os p (!p.address.isIpv4) (connecting os p)

def onlyV6 (k : Key) : Setup Unit := if k.1.isIpv4 then pure () else call os .onlyV6

/-- What `run` does to the socket of a listener: the options of its first peer, and the keys of all
before it listens. -/
def listening (k : Key) (peers : List Peer) (index : ℕ) : Setup Unit := do
  call os .reuseAddress
  onlyV6 os k
  configure os p
  peers.forM (fun peer => install os peer index)
  call os .nonblocking
  withContext ("binding " ++ Console.showIp k.1 ++ ":" ++ toString cfg.listenPort.toNat ++ " on " ++
    k.2) (call os (.bind (endpoint k.1 cfg.listenPort index)))
  call os (.listen 64)

def listener (k : Key) (peers : List Peer) : Except String Unit × Option Socket :=
  setUp os p (!k.1.isIpv4) (listening os cfg p k peers)

/-- The second loop of `run`: the sockets of its listeners, up to the first that fails. -/
def listenAll : List (Sigma fun _ : Key => Listeners.ListenerPeers) →
    List (Key × Socket) × Option String
  | [] => ([], none)
  | e :: es =>
    match firstPeer cfg e.1 with
    | .error _ => ([], some "called `Option::unwrap()` on a `None` value")
    | .ok p =>
      let (result, socket) := listener os cfg p e.1 (sharing cfg e.1)
      match result with
      | .error text => (socket.toList.map (fun s => (e.1, s)), some text)
      | .ok () =>
        let (sockets, failure) := listenAll es
        (socket.toList.map (fun s => (e.1, s)) ++ sockets, failure)

/-! What each part of the setup does. -/

variable {os cfg p index} {s t socket : Socket} {k : Key} {peers : List Peer} {keys : Keys}

theorem bind_run {α β : Type} (x : Setup α) (f : α → Setup β) (s : Socket) :
    (x >>= f) s = match x s with
      | (.error e, t) => (.error e, t)
      | (.ok a, t) => f a t := by
  change (match x s with | (a, t) => (ExceptT.bindCont f a) t) = _
  rcases x s with ⟨e | a, t⟩ <;> rfl

theorem bind_ok {α β : Type} {x : Setup α} {f : α → Setup β} {b : β}
    (h : (x >>= f) s = (.ok b, t)) : ∃ a u, x s = (.ok a, u) ∧ f a u = (.ok b, t) := by
  rw [bind_run] at h
  rcases hx : x s with ⟨e | a, u⟩
  · rw [hx] at h
    cases h
  · rw [hx] at h
    exact ⟨a, u, rfl, h⟩

theorem call_ok {c : Call} (h : call os c s = (.ok (), t)) : t = (s.enter c).apply c := by
  unfold call at h
  split at h
  · cases h
  · cases h
    rfl

theorem withContext_ok {α : Type} {text : String} {m : Setup α} {a : α}
    (h : withContext text m s = (.ok a, t)) : m s = (.ok a, t) := by
  unfold withContext at h
  split at h
  · cases h
  · rename_i hm
    cases h
    exact hm

theorem configure_ok (h : configure os p s = (.ok (), t)) :
    t = { s with device := some p.interface, hops := some (!p.address.isIpv4, 1) } := by
  obtain ⟨_, u, hdevice, h⟩ := bind_ok h
  have hu : u = s.apply (.bindDevice p.interface) := call_ok (withContext_ok hdevice)
  cases hv : p.address.isIpv4 with
  | true =>
    rw [hv, if_pos rfl] at h
    obtain ⟨_, v, hhops, h⟩ := bind_ok h
    have ht : v = u.apply (.ttlV4 1) := call_ok hhops
    rw [call_ok h, ht, hu]
    rfl
  | false =>
    rw [hv, if_neg (by simp)] at h
    obtain ⟨_, v, hhops, h⟩ := bind_ok h
    have ht : v = u.apply (.unicastHopsV6 1) := call_ok hhops
    rw [call_ok h, ht, hu]
    rfl

/-- The keys with that of one more peer. -/
def installed (keys : Keys) (p : Peer) : Keys :=
  match p.md5Password with
  | none => keys
  | some key => keys.insert p.address (keyBytes key)

theorem endpoint_ip (ip : IpAddr) (port : UInt16) (index : ℕ) :
    (endpoint ip port index).ip = ip := by
  cases ip <;> rfl

theorem install_ok (h : install os p index s = (.ok (), t)) :
    t = { s with keys := installed s.keys p } := by
  unfold install at h
  unfold installed
  cases hkey : p.md5Password with
  | none =>
    rw [hkey] at h
    cases h
    rfl
  | some key =>
    simp only [hkey] at h
    split at h
    · rw [call_ok (withContext_ok h)]
      simp only [Socket.enter, Socket.apply, endpoint_ip]
    · cases h

theorem installAll_ok (h : peers.forM (fun peer => install os peer index) s = (.ok (), t)) :
    t = { s with keys := peers.foldl installed s.keys } := by
  induction peers generalizing s with
  | nil =>
    cases h
    rfl
  | cons q qs ih =>
    obtain ⟨_, u, hq, h⟩ := bind_ok h
    cases install_ok hq
    exact ih h

theorem onlyV6_ok (h : onlyV6 os k s = (.ok (), t)) : t = s := by
  unfold onlyV6 at h
  split at h
  · cases h
    rfl
  · exact call_ok h

/-! Most of it neither listens nor connects. -/

/-- The socket is opened neither by its success nor by its failure. -/
def Quiet {α : Type} (m : Setup α) : Prop := ∀ s, (m s).2.opened = s.opened

theorem quiet_bind {α β : Type} {x : Setup α} {f : α → Setup β} (hx : Quiet x)
    (hf : ∀ a, Quiet (f a)) : Quiet (x >>= f) := by
  intro s
  have hs := hx s
  rw [bind_run]
  rcases hr : x s with ⟨e | a, t⟩ <;> rw [hr] at hs
  · exact hs
  · exact (hf a t).trans hs

theorem quiet_call {c : Call} (hc : ∀ s : Socket, s.enter c = s) : Quiet (call os c) := by
  intro s
  unfold call
  split
  · rw [hc]
  · cases c <;> first | rfl | (simp only [hc]; rfl)

theorem quiet_withContext {α : Type} {text : String} {m : Setup α} (h : Quiet m) :
    Quiet (withContext text m) := by
  intro s
  have hs := h s
  unfold withContext
  rcases hr : m s with ⟨e | a, t⟩ <;> rw [hr] at hs <;> exact hs

theorem quiet_configure : Quiet (configure os p) := by
  refine quiet_bind (quiet_withContext (quiet_call fun _ => rfl)) fun _ => ?_
  cases p.address.isIpv4 with
  | true => exact quiet_bind (quiet_call fun _ => rfl) fun _ => quiet_call fun _ => rfl
  | false => exact quiet_bind (quiet_call fun _ => rfl) fun _ => quiet_call fun _ => rfl

theorem quiet_install (p : Peer) : Quiet (install os p index) := by
  unfold install
  cases p.md5Password with
  | none => exact fun _ => rfl
  | some key =>
    dsimp only
    split
    · exact quiet_withContext (quiet_call fun _ => rfl)
    · exact fun _ => rfl

theorem quiet_installAll : Quiet (peers.forM (fun peer => install os peer index)) := by
  induction peers with
  | nil => exact fun _ => rfl
  | cons q qs ih => exact quiet_bind (quiet_install q) fun _ => ih

theorem quiet_onlyV6 : Quiet (onlyV6 os k) := by
  unfold onlyV6
  split
  · exact fun _ => rfl
  · exact quiet_call fun _ => rfl

/-- A setup that ends with the call that opens the socket: it is opened only after all the rest. -/
theorem opened_last {x : Setup Unit} {f : Unit → Setup Unit} {r : Options × Option Endpoint}
    (hx : Quiet x) (h : ((x >>= f) s).2.opened = some r) (hs : s.opened = none) :
    ∃ u, x s = (.ok (), u) ∧ u.opened = none ∧ (f () u).2.opened = some r := by
  have hquiet := hx s
  rw [bind_run] at h
  rcases hr : x s with ⟨e | a, t⟩ <;> rw [hr] at hquiet h
  · rw [hquiet, hs] at h
    cases h
  · exact ⟨t, rfl, hquiet.trans hs, h⟩

theorem lookup_installed_ne {a : IpAddr} (h : p.address ≠ a) :
    (installed keys p).lookup a = keys.lookup a := by
  unfold installed
  split
  · rfl
  · exact AList.lookup_insert_ne h.symm

theorem lookup_installed (h : keys.lookup p.address = none) :
    (installed keys p).lookup p.address = p.md5Password.map keyBytes := by
  unfold installed
  split
  · rename_i hnone
    rw [hnone, h]
    rfl
  · rename_i hsome
    rw [hsome, AList.lookup_insert]
    rfl

/-- Addresses of no peer have the key they had. -/
theorem lookup_fold_ne {a : IpAddr} (h : ∀ p ∈ peers, p.address ≠ a) :
    (peers.foldl installed keys).lookup a = keys.lookup a := by
  induction peers generalizing keys with
  | nil => rfl
  | cons q qs ih =>
    rw [List.forall_mem_cons] at h
    rw [List.foldl_cons, ih h.2, lookup_installed_ne h.1]

/-- Among peers with different addresses no key replaces another. -/
theorem lookup_fold (hnodup : (peers.map Peer.address).Nodup) (hp : p ∈ peers)
    (h : keys.lookup p.address = none) :
    (peers.foldl installed keys).lookup p.address = p.md5Password.map keyBytes := by
  induction peers generalizing keys with
  | nil => cases hp
  | cons q qs ih =>
    rw [List.map_cons, List.nodup_cons] at hnodup
    rw [List.foldl_cons]
    have hne : ∀ p' ∈ qs, p'.address ≠ q.address := fun p' hp' he =>
      hnodup.1 (List.mem_map.mpr ⟨p', hp', he⟩)
    rcases List.mem_cons.mp hp with rfl | hp
    · rw [lookup_fold_ne hne, lookup_installed h]
    · exact ih hnodup.2 hp (by rw [lookup_installed_ne (hne p hp).symm, h])

/-- A call to connect is made whether it returns in time or not. -/
theorem dial_opened : (dial os p index s).2.opened =
    some (s.toOptions, some (endpoint p.address p.port index)) := by
  simp only [dial]
  split
  · rfl
  · unfold withContext call
    cases os.fails (.connect (endpoint p.address p.port index)) <;> rfl

theorem listen_opened {backlog : ℕ} : (call os (.listen backlog) s).2.opened =
    some (s.toOptions, none) := by
  unfold call
  cases os.fails (.listen backlog) <;> rfl

/-- What is known of a socket that connects. -/
theorem connecting_opened {r : Options × Option Endpoint} (hs : s.opened = none)
    (h : (connecting os p index s).2.opened = some r) :
    r = ({ s.toOptions with
      device := some p.interface
      hops := some (!p.address.isIpv4, 1)
      source := some (endpoint p.localAddress 0 index)
      keys := installed s.keys p }, some (endpoint p.address p.port index)) := by
  obtain ⟨s₁, h₁, hs₁, h⟩ := opened_last quiet_configure h hs
  obtain ⟨s₂, h₂, hs₂, h⟩ :=
    opened_last (quiet_withContext (quiet_call fun _ => rfl)) h hs₁
  obtain ⟨s₃, h₃, -, h⟩ := opened_last (quiet_install p) h hs₂
  cases configure_ok h₁
  cases call_ok (withContext_ok h₂)
  cases install_ok h₃
  exact (Option.some.inj (dial_opened.symm.trans h)).symm

theorem connecting_ok (h : connecting os p index s = (.ok (), t)) : t.opened ≠ none := by
  obtain ⟨_, s₁, -, h⟩ := bind_ok h
  obtain ⟨_, s₂, -, h⟩ := bind_ok h
  obtain ⟨_, s₃, -, h⟩ := bind_ok h
  have hopened : (dial os p index s₃).2.opened ≠ none := by rw [dial_opened]; simp
  rwa [h] at hopened

/-- What is known of a socket that listens. -/
theorem listening_opened {r : Options × Option Endpoint} (hs : s.opened = none)
    (h : (listening os cfg p k peers index s).2.opened = some r) :
    r = ({ s.toOptions with
      device := some p.interface
      hops := some (!p.address.isIpv4, 1)
      source := some (endpoint k.1 cfg.listenPort index)
      keys := peers.foldl installed s.keys }, none) := by
  obtain ⟨s₁, h₁, hs₁, h⟩ := opened_last (quiet_call fun _ => rfl) h hs
  obtain ⟨s₂, h₂, hs₂, h⟩ := opened_last quiet_onlyV6 h hs₁
  obtain ⟨s₃, h₃, hs₃, h⟩ := opened_last quiet_configure h hs₂
  obtain ⟨s₄, h₄, hs₄, h⟩ := opened_last quiet_installAll h hs₃
  obtain ⟨s₅, h₅, hs₅, h⟩ := opened_last (quiet_call fun _ => rfl) h hs₄
  obtain ⟨s₆, h₆, -, h⟩ := opened_last (quiet_withContext (quiet_call fun _ => rfl)) h hs₅
  cases call_ok h₁
  cases onlyV6_ok h₂
  cases configure_ok h₃
  cases installAll_ok h₄
  cases call_ok h₅
  cases call_ok (withContext_ok h₆)
  exact (Option.some.inj (listen_opened.symm.trans h)).symm

theorem listening_ok (h : listening os cfg p k peers index s = (.ok (), t)) : t.opened ≠ none := by
  obtain ⟨_, s₁, -, h⟩ := bind_ok h
  obtain ⟨_, s₂, -, h⟩ := bind_ok h
  obtain ⟨_, s₃, -, h⟩ := bind_ok h
  obtain ⟨_, s₄, -, h⟩ := bind_ok h
  obtain ⟨_, s₅, -, h⟩ := bind_ok h
  obtain ⟨_, s₆, -, h⟩ := bind_ok h
  have hopened : (call os (.listen 64) s₆).2.opened ≠ none := by rw [listen_opened]; simp
  rwa [h] at hopened

theorem ifIndex_ok {n : ℕ} (h : ifIndex os p = .ok n) : n = os.ifIndex p.interface := by
  unfold ifIndex at h
  split at h
  · cases h
  · split at h
    · cases h
    · cases h
      rfl

theorem create_ok {v6 : Bool} (h : create os v6 = .ok s) :
    s = ⟨⟨v6, none, none, none, ∅⟩, none⟩ := by
  unfold create at h
  split at h
  · cases h
  · cases h
    rfl

/-- A socket that was created has gone through its setup. -/
theorem setUp_socket {v6 : Bool} {setup : ℕ → Setup Unit}
    (h : (setUp os p v6 setup).2 = some socket) :
    setup (os.ifIndex p.interface) ⟨⟨v6, none, none, none, ∅⟩, none⟩ =
      ((setUp os p v6 setup).1, socket) := by
  unfold setUp at h ⊢
  split at h
  · cases h
  · rename_i hindex
    split at h
    · cases h
    · rename_i hcreate
      cases ifIndex_ok hindex
      cases create_ok hcreate
      cases h
      rfl

theorem setUp_ok {v6 : Bool} {setup : ℕ → Setup Unit} (h : (setUp os p v6 setup).1 = .ok ()) :
    ∃ socket, (setUp os p v6 setup).2 = some socket := by
  unfold setUp at h ⊢
  split at h
  · cases h
  · split at h
    · cases h
    · exact ⟨_, rfl⟩

/-! The peers of one listener. -/

theorem mem_sharing : p ∈ sharing cfg k ↔ p ∈ cfg.peers ∧ key p = k := by
  unfold sharing key
  rw [List.mem_filter, Bool.and_eq_true, beq_iff_eq, beq_iff_eq, Prod.ext_iff]

theorem sharing_nodup (h : cfg.validate = .ok ()) (k : Key) :
    ((sharing cfg k).map Peer.address).Nodup := by
  have hsub : ((sharing cfg k).map Peer.endpoint).Nodup :=
    (Config.validate_eq_ok.mp h).endpoints.sublist (List.filter_sublist.map _)
  rw [List.Nodup, List.pairwise_map] at hsub ⊢
  refine hsub.imp_of_mem ?_
  intro p q hp hq hne ha
  have hk := (mem_sharing.mp hp).2.trans (mem_sharing.mp hq).2.symm
  exact hne (Listeners.endpoint_eq.mpr ⟨hk, ha⟩)

/-- Where a connection from an address leads, its key is. -/
theorem lookup_sharing {start : Listeners.Start} (h : cfg.validate = .ok ())
    (hbuilt : Listeners.Built cfg.peers start) (k : Key) (remote : IpAddr) :
    ((sharing cfg k).foldl installed ∅).lookup remote =
      ((start.dispatch k remote).bind (fun q => cfg.peers[q]?)).bind
        (fun p => p.md5Password.map keyBytes) := by
  cases hd : start.dispatch k remote with
  | some q =>
    obtain ⟨p, hget, hk, rfl⟩ := (hbuilt.dispatch k remote q).mp hd
    have hp := mem_sharing.mpr ⟨List.mem_of_getElem? hget, hk⟩
    rw [lookup_fold (sharing_nodup h k) hp (AList.lookup_empty _), Option.bind_some, hget,
      Option.bind_some]
  | none =>
    have hne : ∀ p ∈ sharing cfg k, p.address ≠ remote := by
      intro p hp ha
      obtain ⟨hmem, hk⟩ := mem_sharing.mp hp
      obtain ⟨q, hget⟩ := List.getElem?_of_mem hmem
      rw [(hbuilt.dispatch k remote q).mpr ⟨p, hget, hk, ha⟩] at hd
      cases hd
    rw [lookup_fold_ne hne, AList.lookup_empty]
    rfl

/-- Every socket is that of a listener of the configuration. -/
theorem mem_listenAll {es : List (Sigma fun _ : Key => Listeners.ListenerPeers)}
    (h : (k, socket) ∈ (listenAll os cfg es).1) :
    ∃ e ∈ es, e.1 = k ∧ ∃ p, firstPeer cfg k = .ok p ∧
      (listener os cfg p k (sharing cfg k)).2 = some socket := by
  induction es with
  | nil => cases h
  | cons e es ih =>
    rw [listenAll] at h
    cases hfirst : firstPeer cfg e.1 with
    | error f => simp only [hfirst, List.not_mem_nil] at h
    | ok p =>
      have hhead : (k, socket) ∈ (listener os cfg p e.1 (sharing cfg e.1)).2.toList.map
          (fun s => (e.1, s)) → ∃ e' ∈ e :: es, e'.1 = k ∧ ∃ p, firstPeer cfg k = .ok p ∧
            (listener os cfg p k (sharing cfg k)).2 = some socket := by
        intro hmem
        obtain ⟨s, hs, he⟩ := List.mem_map.mp hmem
        cases he
        exact ⟨e, List.mem_cons_self, rfl, p, hfirst, Option.mem_toList.mp hs⟩
      cases hresult : (listener os cfg p e.1 (sharing cfg e.1)).1 with
      | error text =>
        simp only [hfirst, hresult] at h
        exact hhead h
      | ok u =>
        simp only [hfirst, hresult] at h
        rcases List.mem_append.mp h with h | h
        · exact hhead h
        · obtain ⟨e', he', hrest⟩ := ih h
          exact ⟨e', List.mem_cons_of_mem e he', hrest⟩

/-- Without a failure every listener listens. -/
theorem listenAll_ok {es : List (Sigma fun _ : Key => Listeners.ListenerPeers)}
    (h : (listenAll os cfg es).2 = none) {e : Sigma fun _ : Key => Listeners.ListenerPeers}
    (he : e ∈ es) : ∃ socket, (e.1, socket) ∈ (listenAll os cfg es).1 ∧ socket.opened ≠ none := by
  induction es with
  | nil => cases he
  | cons e' es ih =>
    rw [listenAll] at h ⊢
    cases hfirst : firstPeer cfg e'.1 with
    | error f => simp only [hfirst, reduceCtorEq] at h
    | ok p =>
      cases hresult : (listener os cfg p e'.1 (sharing cfg e'.1)).1 with
      | error text => simp only [hfirst, hresult, reduceCtorEq] at h
      | ok u =>
        simp only [hfirst, hresult] at h ⊢
        rcases List.mem_cons.mp he with rfl | he
        · obtain ⟨socket, hsocket⟩ := setUp_ok hresult
          have hlistening := setUp_socket hsocket
          rw [show (setUp os p _ _).1 = .ok () from hresult] at hlistening
          refine ⟨socket, List.mem_append_left _ ?_, listening_ok hlistening⟩
          exact List.mem_map_of_mem (Option.mem_toList.mpr hsocket)
        · obtain ⟨socket, hmem, hopened⟩ := ih h he
          exact ⟨socket, List.mem_append_right _ hmem, hopened⟩

/-- Whatever calls of the kernel fail and in whatever order the listeners are opened: no socket
listens before it has the keys of exactly the peers it dispatches to, each with the key of its own,
and is bound to their address and interface with a hop limit of one; no socket connects, in time or
not, before it has the key of its peer and no other and is bound to the local address and interface
of this peer with a hop limit of one. Without a failure they do listen and connect. -/
theorem authenticated (h : cfg.validate = .ok ()) (clock : ℕ → ℕ) (os : Os)
    {start : Listeners.Start} (hs : start = Listeners.start cfg (Listeners.statuses clock cfg))
    {entries : List (Sigma fun _ : Key => Listeners.ListenerPeers)}
    (hentries : entries.Perm start.listeners.entries) :
    (∀ k socket options target, (k, socket) ∈ (listenAll os cfg entries).1 →
      socket.opened = some (options, target) →
      k ∈ start.listeners ∧ target = none ∧ options.v6 = !k.1.isIpv4 ∧
      options.device = some k.2 ∧ options.hops = some (options.v6, 1) ∧
      options.source = some (endpoint k.1 cfg.listenPort (os.ifIndex k.2)) ∧
      ∀ remote, options.keys.lookup remote =
        ((start.dispatch k remote).bind (fun q => cfg.peers[q]?)).bind
          (fun p => p.md5Password.map keyBytes)) ∧
    ((listenAll os cfg entries).2 = none → ∀ k ∈ start.listeners,
      ∃ socket, (k, socket) ∈ (listenAll os cfg entries).1 ∧ socket.opened ≠ none) ∧
    ∀ p ∈ cfg.peers,
      (∀ socket options target, (connect os p).2 = some socket →
        socket.opened = some (options, target) →
        target = some (endpoint p.address p.port (os.ifIndex p.interface)) ∧
        options.v6 = !p.address.isIpv4 ∧ options.device = some p.interface ∧
        options.hops = some (options.v6, 1) ∧
        options.source = some (endpoint p.localAddress 0 (os.ifIndex p.interface)) ∧
        ∀ remote, options.keys.lookup remote =
          if remote = p.address then p.md5Password.map keyBytes else none) ∧
      ((connect os p).1 = .ok () →
        ∃ socket, (connect os p).2 = some socket ∧ socket.opened ≠ none) := by
  have hbuilt : Listeners.Built cfg.peers start := hs ▸ Listeners.built_start h clock
  refine ⟨?_, ?_, ?_⟩
  · intro k socket options target hsocket hopened
    obtain ⟨e, he, rfl, p, hfirst, hlistener⟩ := mem_listenAll hsocket
    have hmem : e.1 ∈ start.listeners := List.mem_map_of_mem (hentries.mem_iff.mp he)
    obtain ⟨p', hp', hfirst', hk⟩ := Listeners.firstPeer_eq_ok (hbuilt.mem e.1 hmem)
    cases hfirst.symm.trans hfirst'
    have hlocal : p.localAddress = e.1.1 := congrArg Prod.fst hk
    have hinterface : p.interface = e.1.2 := congrArg Prod.snd hk
    have hfamily := ((Config.validate_eq_ok.mp h).peers p hp').transport.2
    rw [hlocal] at hfamily
    have hsetup := congrArg Prod.snd (setUp_socket hlistener)
    rw [← show _ = socket from hsetup] at hopened
    cases listening_opened rfl hopened
    dsimp only
    rw [hinterface, hfamily]
    exact ⟨hmem, rfl, rfl, rfl, rfl, rfl, lookup_sharing h hbuilt e.1⟩
  · intro hnone k hk
    obtain ⟨e, he, rfl⟩ := List.mem_map.mp hk
    exact listenAll_ok hnone (hentries.mem_iff.mpr he)
  · intro p hp
    refine ⟨?_, ?_⟩
    · intro socket options target hconnect hopened
      have hsetup := congrArg Prod.snd (setUp_socket hconnect)
      rw [← show _ = socket from hsetup] at hopened
      cases connecting_opened rfl hopened
      refine ⟨rfl, rfl, rfl, rfl, rfl, ?_⟩
      intro remote
      split
      · rename_i hremote
        rw [hremote, lookup_installed (AList.lookup_empty _)]
      · rename_i hremote
        rw [lookup_installed_ne (fun he => hremote he.symm), AList.lookup_empty]
    · intro hok
      obtain ⟨socket, hsocket⟩ := setUp_ok hok
      have hsetup := setUp_socket hsocket
      rw [show (setUp os p _ _).1 = .ok () from hok] at hsetup
      exact ⟨socket, hsocket, connecting_ok hsetup⟩

/-- Two peers behind one listener, the second with a key. -/
def keyedConfig : Config :=
  { Listeners.sharedConfig with
    peers := [examplePeer, { Listeners.secondPeer with md5Password := some "secret" }] }

theorem keyedConfig_valid : keyedConfig.validate = .ok () := by rfl

def keyedOs : Os := ⟨fun _ => 2, fun _ => none, false⟩

theorem example_authenticated :
    ∃ socket options, (Listeners.key examplePeer, socket) ∈ (listenAll keyedOs keyedConfig
        (Listeners.start keyedConfig (Listeners.statuses id keyedConfig)).listeners.entries).1 ∧
      socket.opened = some (options, none) ∧
      options.keys.lookup Listeners.secondPeer.address = some (keyBytes "secret") ∧
      options.keys.lookup examplePeer.address = none := by
  obtain ⟨hlistening, hall, -⟩ := authenticated keyedConfig_valid id keyedOs rfl (List.Perm.refl _)
  have hmem : Listeners.key examplePeer ∈ (Listeners.start keyedConfig
      (Listeners.statuses id keyedConfig)).listeners := by
    decide +kernel
  obtain ⟨socket, hsocket, hne⟩ := hall (by decide +kernel) _ hmem
  obtain ⟨⟨options, target⟩, hopened⟩ := Option.ne_none_iff_exists'.mp hne
  obtain ⟨-, rfl, -, -, -, -, hkeys⟩ := hlistening _ socket options target hsocket hopened
  refine ⟨socket, options, hsocket, hopened, ?_, ?_⟩
  · rw [hkeys]
    decide +kernel
  · rw [hkeys]
    decide +kernel

end Sockets
end Ubgp
