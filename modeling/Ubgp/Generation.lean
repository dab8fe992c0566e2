import Ubgp.Bgp.Attached
import Ubgp.Bgp.Listeners
import Ubgp.Netlink.Provenance

/-! One generation of workers (`run` in `main.rs`): the netlink worker and the workers of the
peers, with the channel between them and the connections to the neighbours. -/
namespace Ubgp
namespace Generation

/-- `wire` are the octets on the connection of each worker's session in progress; `ended` that the
netlink worker has returned and its channel is closed. -/
structure State (Conn : Type) where
  kernel : Netlink.State
  ended : Bool
  bgp : Listeners.Daemon Conn
  wire : ℕ → Bytes

/-- How the task behind a connection candidate turns out. -/
inductive Attempt (Conn : Type)
  | failed (e : String)
  | shook (io : HandshakeIo) (stream : Conn)

inductive Move (Conn : Type)
  | kernel (m : Netlink.Move)
  | ended
  | tick (d : ℕ)
  | accept (k : Listeners.Key) (remote : IpAddr) (stream : Conn)
  | work (q : ℕ) (m : PeerLoop.Move Conn)
  | joined (q : ℕ) (incoming : Bool) (attempt : Attempt Conn) (jitter : ℕ)
  | handshake (q : ℕ) (attempt : Attempt Conn)

inductive Label (Conn : Type)
  | kernel (a : Netlink.Label)
  | ended
  | tick (d : ℕ)
  | unconfigured (k : Listeners.Key) (remote : IpAddr) (stream : Conn)
  | peer (q : ℕ) (a : PeerLoop.Label Conn)

/-- The workers at their start, with nothing exported yet. -/
def init {Conn : Type} (cfg : Config) (clock : ℕ → ℕ) (t : ℕ)
    (routes : Finset Netlink.KernelRoute) : State Conn where
  kernel := Netlink.init ∅ t routes
  ended := false
  bgp := (Listeners.start cfg (Listeners.statuses clock cfg)).run ∅ t
  wire := fun _ => []

/-- What the task returns; a handshake that fails is a failure. -/
def Attempt.result {Conn : Type} (cfg : Config) (P : Peer) (incoming : Bool) :
    Attempt Conn → Option (Except String (Candidate Conn))
  | .failed e => some (.error e)
  | .shook io stream =>
    match Ubgp.handshake cfg P io stream incoming with
    | .ok c => some (.ok c)
    | .error _ => none

/-- The clock belongs to the whole generation. -/
def kernelMove : Netlink.Move → Bool
  | .tick _ => false
  | _ => true

/-- The moves of a worker that need neither the listeners, the netlink worker nor a handshake. -/
def ownMove {Conn : Type} : PeerLoop.Move Conn → Bool
  | .recv _ | .deadline _ | .session _ | .finish _ | .wake => true
  | _ => false

namespace State
variable {Conn : Type} [DecidableEq Conn] (cfg : Config) (s : State Conn)

/-- Do something to the worker of every peer. -/
def all (f : Peer → PeerLoop.State Conn → PeerLoop.State Conn) : Listeners.Daemon Conn :=
  { s.bgp with loops := fun q =>
    match s.bgp.listeners.workers[q]? with
    | some w => f w.peer (s.bgp.loops q)
    | none => s.bgp.loops q }

/-- A step of the environment of a worker. -/
def after (m : PeerLoop.Move Conn) (P : Peer) (l : PeerLoop.State Conn) : PeerLoop.State Conn :=
  ((PeerLoop.step cfg P l m).map Prod.snd).getD l

/-- A move of one worker. -/
def work (q : ℕ) (m : Peer → Option (PeerLoop.Move Conn)) : Option (Label Conn × State Conn) := do
  let w ← s.bgp.listeners.workers[q]?
  let (a, t) ← PeerLoop.step cfg w.peer (s.bgp.loops q) (← m w.peer)
  return (.peer q a, { s with
    bgp := s.bgp.setLoop q t
    wire := Function.update s.wire q (PeerLoop.carried (s.wire q) a) })

/-- The handshake on the stream accepted during the backoff wait. -/
def backoffHandshake (q : ℕ) (attempt : Attempt Conn) (P : Peer) : Option (PeerLoop.Move Conn) :=
  match (s.bgp.loops q).phase, attempt with
  | .handshaking stream, .shook io _ =>
    ((Attempt.shook io stream).result cfg P true).map .handshake
  | _, attempt => (attempt.result cfg P true).map .handshake

/-- The routes that the neighbour of a worker has heard of on the session in progress; those of a
closed connection are gone. -/
def table (q : ℕ) : Prefixes :=
  match (s.bgp.loops q).phase with
  | .running _ c _ _ => heard c.negotiated.asn4 (s.wire q)
  | _ => ∅

end State

def step {Conn : Type} [DecidableEq Conn] (cfg : Config) (s : State Conn) :
    Move Conn → Option (Label Conn × State Conn)
  | .kernel m =>
    if s.ended || !kernelMove m then none
    else do
      let (a, kernel) ← Netlink.step cfg s.kernel m
      return (.kernel a, { s with
        kernel
        bgp := if kernel.channel.version = s.kernel.channel.version then s.bgp
          else s.all (State.after cfg (.publish kernel.channel.value)) })
  | .ended =>
    match s.kernel.pc with
    | .stopped => some (.ended, { s with
        ended := true
        bgp := s.all (State.after cfg .drop) })
    | _ => none
  | .tick d => some (.tick d, { s with
      kernel := { s.kernel with now := s.kernel.now + d }
      bgp := s.all (State.after cfg (.tick d)) })
  | .accept k remote stream =>
    if k ∈ s.bgp.listeners.listeners then
      match s.bgp.listeners.dispatch k remote with
      | some q => s.work cfg q (fun _ => some (.deliver stream))
      | none => some (.unconfigured k remote stream, s)
    else none
  | .work q m => if ownMove m then s.work cfg q (fun _ => some m) else none
  | .joined q incoming attempt jitter => s.work cfg q (fun P =>
      (attempt.result cfg P incoming).map (fun result => .joined incoming result jitter))
  | .handshake q attempt => s.work cfg q (s.backoffHandshake cfg q attempt)

def Step {Conn : Type} [DecidableEq Conn] (cfg : Config) (s : State Conn) (a : Label Conn)
    (t : State Conn) : Prop :=
  ∃ m, step cfg s m = some (a, t)

variable {Conn : Type} {cfg : Config} {s t : State Conn} {a : Label Conn}
  {xs : List (Label Conn × State Conn)} {t₀ q : ℕ} {clock : ℕ → ℕ}
  {routes : Finset Netlink.KernelRoute} {P : Peer}

/-- What a step is to the netlink worker. -/
def Label.kernel? : Label Conn → Option Netlink.Label
  | .kernel a => some a
  | .tick _ => some .tau
  | _ => none

/-- The run of the netlink worker within a run of the generation. -/
def kernelRun (xs : List (Label Conn × State Conn)) : List (Netlink.Label × Netlink.State) :=
  xs.filterMap (fun x => x.1.kernel?.map (fun a => (a, x.2.kernel)))

theorem kernelRun_snoc : kernelRun (xs ++ [(a, t)]) =
    kernelRun xs ++ (a.kernel?.map (fun a => (a, t.kernel))).toList := by
  rw [kernelRun, List.filterMap_append, ← kernelRun]
  cases h : a.kernel? <;> simp [h]

/-- The netlink worker is in a run of its own; every worker has its exports, and its session is
attached to the wire with nothing but what was offered. -/
structure Sound (cfg : Config) (t₀ : ℕ) (routes : Finset Netlink.KernelRoute)
    (xs : List (Label Conn × State Conn)) (s : State Conn) : Prop where
  built : Listeners.Built cfg.peers s.bgp.listeners
  kernel : Lts.Trace (Lts.Recorded (Netlink.Step cfg)) (Netlink.init ∅ t₀ routes) (kernelRun xs)
    s.kernel
  channel : ∀ q P, cfg.peers[q]? = some P →
    (s.bgp.loops q).channel = (s.kernel.channel.value, s.ended)
  holds : ∀ q P, cfg.peers[q]? = some P →
    PeerLoop.Holds cfg P (Netlink.Offered cfg (kernelRun xs)) (s.bgp.loops q) (s.wire q)

theorem init_sound (hv : cfg.validate = .ok ()) :
    Sound cfg t₀ routes [] (init cfg clock t₀ routes : State Conn) where
  built := Listeners.built_start hv clock
  kernel := .refl
  channel := fun _ _ _ => rfl
  holds := fun _ P _ => PeerLoop.init_holds cfg P _ _ ∅ t₀

/-- What the channel holds was offered. -/
theorem Sound.offered (h : Sound cfg t₀ routes xs s) :
    Netlink.Offered cfg (kernelRun xs) s.kernel.channel.value := by
  rcases Netlink.backed_of_trace h.kernel with he | hb
  · exact Or.inl he
  · exact hb.offered

theorem Sound.worker (h : Sound cfg t₀ routes xs s) (hP : cfg.peers[q]? = some P) :
    ∃ w, s.bgp.listeners.workers[q]? = some w ∧ w.peer = P := by
  rw [← h.built.peers, List.getElem?_map] at hP
  exact Option.map_eq_some_iff.mp hP

theorem Sound.all_loops (h : Sound cfg t₀ routes xs s) (hP : cfg.peers[q]? = some P)
    (f : Peer → PeerLoop.State Conn → PeerLoop.State Conn) :
    (s.all f).loops q = f P (s.bgp.loops q) := by
  obtain ⟨w, hw, rfl⟩ := h.worker hP
  simp only [State.all, hw]

/-- More of a run offers no less. -/
theorem offered_append (zs : List (Netlink.Label × Netlink.State)) (e : Exports)
    (h : Netlink.Offered cfg (kernelRun xs) e) : Netlink.Offered cfg (kernelRun xs ++ zs) e :=
  h.append zs

/-- Workers whose handshakes are those of the model make proper moves. -/
theorem proper_result {attempt : Attempt Conn} {incoming : Bool}
    {result : Except String (Candidate Conn)} (h : attempt.result cfg P incoming = some result)
    (c : Candidate Conn) (hc : result = .ok c) : Shaken cfg P c := by
  cases attempt with
  | failed e =>
    cases h
    cases hc
  | shook io stream =>
    simp only [Attempt.result] at h
    split at h
    · rename_i c' hs
      cases h
      cases hc
      obtain ⟨rfl, rfl, -⟩ := handshake_eq_ok hs
      exact ⟨io, hs⟩
    · cases h

/-- The session of a worker in a reachable state. -/
theorem Sound.attached {origin : PeerLoop.Origin} {c : Candidate Conn} {started : ℕ}
    {session : Session.State} (h : Sound cfg t₀ routes xs s) (hP : cfg.peers[q]? = some P)
    (hphase : (s.bgp.loops q).phase = .running origin c started session) :
    PeerLoop.Attached cfg P (Netlink.Offered cfg (kernelRun xs)) s.kernel.channel.value s.ended c
      session (s.wire q) := by
  obtain ⟨hvalue, hended⟩ := Prod.mk.inj (h.channel q P hP)
  rw [← hvalue, ← hended]
  exact (PeerLoop.holds_running hphase).mp (h.holds q P hP)

theorem table_running {origin : PeerLoop.Origin} {c : Candidate Conn} {started : ℕ}
    {session : Session.State}
    (hphase : (s.bgp.loops q).phase = .running origin c started session) :
    s.table q = heard c.negotiated.asn4 (s.wire q) := by
  unfold State.table
  rw [hphase]

/-- A session parked on a seen channel. -/
def State.parked (s : State Conn) (q : ℕ) : Bool :=
  match (s.bgp.loops q).phase with
  | .running _ _ _ session =>
    match session.phase, session.tx.pc with
    | .established _ none, .select _ => !session.tx.channel.hasChanged
    | _, _ => false
  | _ => false

theorem parked_eq_true (h : s.parked q = true) : ∃ origin c started session expires armed,
    (s.bgp.loops q).phase = .running origin c started session ∧
      session.phase = .established expires none ∧ session.tx.pc = .select armed ∧
      session.tx.channel.hasChanged = false := by
  unfold State.parked at h
  split at h
  · rename_i origin c started session hphase
    split at h
    · rename_i expires armed hest hpc
      exact ⟨origin, c, started, session, expires, armed, hphase, hest, hpc, by simpa using h⟩
    · cases h
  · cases h

variable [DecidableEq Conn]

/-- A move of one worker. -/
theorem Sound.work {m : Peer → Option (PeerLoop.Move Conn)} (h : Sound cfg t₀ routes xs s)
    (hm : ∀ P m', m P = some m' → m'.Proper cfg P) (ha : s.work cfg q m = some (a, t)) :
    Sound cfg t₀ routes (xs ++ [(a, t)]) t := by
  simp only [State.work, Option.bind_eq_bind, Option.bind_eq_some_iff, Option.pure_def,
    Option.some.injEq, Prod.exists, Prod.mk.injEq] at ha
  obtain ⟨w, hw, m', hm', b, l, hl, rfl, rfl⟩ := ha
  have hP : cfg.peers[q]? = some w.peer := by
    rw [← h.built.peers, List.getElem?_map, hw]
    rfl
  have hrun : kernelRun (xs ++ [(Label.peer q b, { s with
      bgp := s.bgp.setLoop q l
      wire := Function.update s.wire q (PeerLoop.carried (s.wire q) b) })]) = kernelRun xs := by
    rw [kernelRun_snoc]
    simp [Label.kernel?]
  have hoffered : Netlink.Offered cfg (kernelRun xs) (s.bgp.loops q).exports := by
    rw [(Prod.mk.inj (h.channel q w.peer hP)).1]
    exact h.offered
  obtain ⟨hholds, hchannel⟩ := (h.holds q w.peer hP).step hoffered (hm w.peer m' hm') hl
  refine ⟨h.built, by rw [hrun]; exact h.kernel, ?_, ?_⟩
  · intro q' P' hP'
    by_cases hq : q' = q
    · subst hq
      rw [Listeners.Daemon.setLoop_self, hchannel]
      exact h.channel q' P' hP'
    · rw [Listeners.Daemon.setLoop_of_ne _ hq]
      exact h.channel q' P' hP'
  · intro q' P' hP'
    rw [hrun]
    dsimp only
    by_cases hq : q' = q
    · subst hq
      obtain rfl : w.peer = P' := Option.some.inj (hP.symm.trans hP')
      rw [Listeners.Daemon.setLoop_self, Function.update_self]
      exact hholds
    · rw [Listeners.Daemon.setLoop_of_ne _ hq, Function.update_of_ne hq]
      exact h.holds q' P' hP'

/-- A snapshot reaches a worker whose channel is open. -/
theorem after_publish {l : PeerLoop.State Conn} {e : Exports} (hl : l.dropped = false) :
    State.after cfg (.publish e) P l = { l with exports := e }.ambient cfg P (.publish e) := by
  simp [State.after, PeerLoop.step, hl]

theorem Sound.kernel_step {b : Netlink.Label} {kernel : Netlink.State}
    (h : Sound cfg t₀ routes xs s) (hend : s.ended = false)
    (hstep : Netlink.Step cfg s.kernel b kernel) (t : State Conn) (ht : t = { s with
      kernel
      bgp := if kernel.channel.version = s.kernel.channel.version then s.bgp
        else s.all (State.after cfg (.publish kernel.channel.value)) }) :
    Sound cfg t₀ routes (xs ++ [(.kernel b, t)]) t := by
  have hkernel : t.kernel = kernel := by rw [ht]
  have hrun : kernelRun (xs ++ [(Label.kernel b, t)]) = kernelRun xs ++ [(b, kernel)] := by
    rw [kernelRun_snoc, hkernel]
    rfl
  have htrace : Lts.Trace (Lts.Recorded (Netlink.Step cfg)) (Netlink.init ∅ t₀ routes)
      (kernelRun xs ++ [(b, kernel)]) kernel := .snoc h.kernel ⟨hstep, rfl⟩
  have hoffered : Netlink.Offered cfg (kernelRun xs ++ [(b, kernel)]) kernel.channel.value := by
    rcases Netlink.backed_of_trace htrace with he | hb
    · exact Or.inl he
    · exact hb.offered
  have hbuilt : Listeners.Built cfg.peers t.bgp.listeners := by
    rw [ht]
    split
    · exact h.built
    · exact h.built
  have hopen : ∀ q P, cfg.peers[q]? = some P → (s.bgp.loops q).dropped = false := by
    intro q P hP
    exact (Prod.mk.inj (h.channel q P hP)).2.trans hend
  refine ⟨hbuilt, by rw [hrun, hkernel]; exact htrace, ?_, ?_⟩
  · intro q P hP
    rw [hkernel, ht]
    rcases hstep.channel_cases with hc | hc
    · rw [if_pos (by rw [hc]), hc]
      exact h.channel q P hP
    · have hne : kernel.channel.version ≠ s.kernel.channel.version := by
        rw [hc]
        simp [Watch.sendReplace]
      rw [if_neg hne, h.all_loops hP, after_publish (hopen q P hP), PeerLoop.ambient_channel]
      exact Prod.ext rfl (Prod.mk.inj (h.channel q P hP)).2
  · intro q P hP
    have hwire : t.wire = s.wire := by rw [ht]
    have hmono := (h.holds q P hP).mono (offered_append [(b, kernel)])
    rw [hrun, hwire, ht]
    rcases hstep.channel_cases with hc | hc
    · rw [if_pos (by rw [hc])]
      exact hmono
    · have hne : kernel.channel.version ≠ s.kernel.channel.version := by
        rw [hc]
        simp [Watch.sendReplace]
      rw [if_neg hne, h.all_loops hP, after_publish (hopen q P hP)]
      exact hmono.publish (hopen q P hP) hoffered

theorem Sound.tick (h : Sound cfg t₀ routes xs s) (d : ℕ) (t : State Conn) (ht : t = { s with
      kernel := { s.kernel with now := s.kernel.now + d }
      bgp := s.all (State.after cfg (.tick d)) }) :
    Sound cfg t₀ routes (xs ++ [(.tick d, t)]) t := by
  have hrun : kernelRun (xs ++ [(Label.tick d, t)]) = kernelRun xs ++ [(.tau, t.kernel)] := by
    rw [kernelRun_snoc]
    rfl
  have hstep : Netlink.Step cfg s.kernel .tau t.kernel := ⟨.tick d, by rw [ht]; rfl⟩
  subst ht
  refine ⟨h.built, by rw [hrun]; exact .snoc h.kernel ⟨hstep, rfl⟩, ?_, ?_⟩
  · intro q P hP
    rw [h.all_loops hP]
    exact (PeerLoop.ambient_channel _ _ _ _).trans (h.channel q P hP)
  · intro q P hP
    rw [hrun, h.all_loops hP]
    exact ((h.holds q P hP).mono (offered_append _)).tick d

theorem Sound.step (h : Sound cfg t₀ routes xs s) (ha : Step cfg s a t) :
    Sound cfg t₀ routes (xs ++ [(a, t)]) t := by
  obtain ⟨m, ha⟩ := ha
  cases m with
  | kernel m =>
    simp only [Generation.step, Option.ite_none_left_eq_some, Bool.or_eq_true, not_or,
      Bool.not_eq_true, Option.bind_eq_bind, Option.bind_eq_some_iff, Option.pure_def,
      Option.some.injEq, Prod.exists, Prod.mk.injEq] at ha
    obtain ⟨⟨hend, -⟩, b, kernel, hstep, rfl, ht⟩ := ha
    exact h.kernel_step hend ⟨m, hstep⟩ t ht.symm
  | ended =>
    simp only [Generation.step] at ha
    split at ha
    · cases ha
      have hrun : kernelRun (xs ++ [(Label.ended, { s with
          ended := true
          bgp := s.all (State.after cfg .drop) })]) = kernelRun xs := by
        rw [kernelRun_snoc]
        simp [Label.kernel?]
      refine ⟨h.built, by rw [hrun]; exact h.kernel, ?_, ?_⟩
      · intro q P hP
        rw [h.all_loops hP]
        refine (PeerLoop.ambient_channel _ _ _ _).trans ?_
        exact Prod.ext (Prod.mk.inj (h.channel q P hP)).1 rfl
      · intro q P hP
        rw [hrun, h.all_loops hP]
        exact (h.holds q P hP).drop
    · cases ha
  | tick d =>
    cases ha
    exact h.tick d _ rfl
  | accept k remote stream =>
    simp only [Generation.step, Option.ite_none_right_eq_some] at ha
    obtain ⟨-, ha⟩ := ha
    split at ha
    · refine h.work ?_ ha
      rintro P m' hm'
      cases hm'
      trivial
    · cases ha
      have hrun : kernelRun (xs ++ [(Label.unconfigured k remote stream, s)]) = kernelRun xs := by
        rw [kernelRun_snoc]
        simp [Label.kernel?]
      exact ⟨h.built, by rw [hrun]; exact h.kernel, h.channel, by rw [hrun]; exact h.holds⟩
  | work q m =>
    simp only [Generation.step, Option.ite_none_right_eq_some] at ha
    obtain ⟨hown, ha⟩ := ha
    refine h.work ?_ ha
    rintro P m' hm'
    cases hm'
    cases m <;> trivial
  | joined q incoming attempt jitter =>
    simp only [Generation.step] at ha
    refine h.work ?_ ha
    rintro P m' hm'
    obtain ⟨result, hresult, rfl⟩ := Option.map_eq_some_iff.mp hm'
    cases hr : result with
    | ok c => exact proper_result hresult c hr
    | error e => trivial
  | handshake q attempt =>
    simp only [Generation.step] at ha
    refine h.work ?_ ha
    intro P m' hm'
    have hproper : ∀ attempt' : Attempt Conn,
        (attempt'.result cfg P true).map PeerLoop.Move.handshake = some m' → m'.Proper cfg P := by
      intro attempt' hmap
      obtain ⟨result, hresult, rfl⟩ := Option.map_eq_some_iff.mp hmap
      cases hr : result with
      | ok c => exact proper_result hresult c hr
      | error e => trivial
    unfold State.backoffHandshake at hm'
    split at hm'
    · exact hproper _ hm'
    · exact hproper _ hm'

theorem Sound.of_trace (hv : cfg.validate = .ok ())
    (h : Lts.Trace (Lts.Recorded (Step cfg)) (init cfg clock t₀ routes) xs s) :
    Sound cfg t₀ routes xs s := by
  refine h.history (init_sound hv) ?_
  rintro xs s ⟨a, u⟩ t hs ⟨ha, rfl⟩
  exact hs.step ha

omit [DecidableEq Conn] in
/-- What a neighbour holds of a parked session. -/
theorem Sound.mirrors {origin : PeerLoop.Origin} {c : Candidate Conn} {started : ℕ}
    {session : Session.State} {expires : Option ℕ} {armed : Bool}
    (hsound : Sound cfg t₀ routes xs s) (hv : cfg.validate = .ok ())
    (hP : cfg.peers[q]? = some P)
    (hphase : (s.bgp.loops q).phase = .running origin c started session)
    (hest : session.phase = .established expires none) (hpc : session.tx.pc = .select armed)
    (hseen : session.tx.channel.hasChanged = false) :
    (s.kernel.pc = .head → s.kernel.dirty = false → s.kernel.kernel.queue = [] →
      s.kernel.kernel.overrun = false →
      ∃ acl, cfg.acls.lookup P.exportAcl = some acl ∧ ∀ p, p ∈ s.table q ↔
        (∃ r ∈ s.kernel.kernel.routes, r.eligible cfg = true ∧ r.dst = p) ∧
          FirstMatchPermits acl p ∧ c.negotiated.enabled p = true) ∧
      (s.kernel.freshness.withdrawn = true → s.table q = ∅) := by
  have hmem : P ∈ cfg.peers := List.mem_of_getElem? hP
  have hparked : s.table q = c.negotiated.gate (desired s.kernel.channel.value P.exportAcl) := by
    rw [table_running hphase]
    exact (hsound.attached hP hphase).parked hv hmem (fun _ he => he.sourced) hest rfl hpc hseen
  have hkernel := hsound.kernel.forget
  refine ⟨?_, ?_⟩
  · intro hhead hdirty hqueue hoverrun
    have hvalid := Config.validate_eq_ok.mp hv
    obtain ⟨acl, hacl⟩ := Option.isSome_iff_exists.mp
      (AList.lookup_isSome.mpr (hvalid.peers P hmem).acl)
    obtain ⟨e, he, hdes⟩ := Netlink.filter_spec
      (Netlink.eligiblePrefixes cfg s.kernel.kernel.routes) (fun q hq => (hvalid.peers q hq).acl)
    have hmirror := (Netlink.consistent_run hkernel).mirrors hhead hdirty hqueue hoverrun
    obtain rfl : e = s.kernel.channel.value := Except.ok.inj (he.symm.trans hmirror)
    refine ⟨acl, hacl, ?_⟩
    intro p
    rw [hparked, hdes P hmem acl hacl, Negotiated.mem_gate, Finset.mem_filter,
      Netlink.mem_eligiblePrefixes, ← Acl.permits_eq_true, and_assoc]
    simp [Netlink.KernelState.eligible, and_assoc]
  · intro hwithdrawn
    rw [hparked, Netlink.withdrawn_empty hkernel hwithdrawn]
    rfl

/-- The whole way from the kernel to a neighbour. When the netlink worker is at rest and the
session parked on a seen channel, the neighbour holds exactly the destinations of the eligible
routes that the ACL permits and whose family was negotiated; after an expiry it holds nothing. -/
theorem neighbour_mirrors_kernel {origin : PeerLoop.Origin} {c : Candidate Conn} {started : ℕ}
    {session : Session.State} {expires : Option ℕ} {armed : Bool} {ys : List (Label Conn)}
    (hv : cfg.validate = .ok ()) (hP : cfg.peers[q]? = some P)
    (h : Lts.Trace (Step cfg) (init cfg clock t₀ routes) ys s)
    (hphase : (s.bgp.loops q).phase = .running origin c started session)
    (hest : session.phase = .established expires none) (hpc : session.tx.pc = .select armed)
    (hseen : session.tx.channel.hasChanged = false) :
    (s.kernel.pc = .head → s.kernel.dirty = false → s.kernel.kernel.queue = [] →
      s.kernel.kernel.overrun = false →
      ∃ acl, cfg.acls.lookup P.exportAcl = some acl ∧ ∀ p, p ∈ s.table q ↔
        (∃ r ∈ s.kernel.kernel.routes, r.eligible cfg = true ∧ r.dst = p) ∧
          FirstMatchPermits acl p ∧ c.negotiated.enabled p = true) ∧
      (s.kernel.freshness.withdrawn = true → s.table q = ∅) := by
  obtain ⟨xs, hxs, -⟩ := h.recorded
  exact (Sound.of_trace hv hxs).mirrors hv hP hphase hest hpc hseen

/-- The worker of the kernel publishes one route; the first peer connects, and its session
announces the route, sends the end-of-RIB marker and parks. -/
def mirroringMoves : List (Move Unit) :=
  let run : Session.Move := .loop (.run 0 ⟨[], []⟩)
  Netlink.quietMoves.map .kernel ++
    [.joined 0 false (.shook exampleIo ()) 0, .work 0 (.deadline 0)] ++
    ([.send, .accept 19, .written 0 ⟨[], []⟩, .receive (frameOctets KEEPALIVE []), .poll,
      .loop (.run 0 ⟨[], [examplePrefix]⟩), run, run, run,
      .send, .accept 47, .written 0 ⟨[], []⟩, run, run, run, run,
      .send, .accept 23, .written 0 ⟨[], []⟩, run, run].map (fun m => .work 0 (.session m)))

theorem mirroringMoves_exec :
    (Lts.exec (step exampleConfig) mirroringMoves (init exampleConfig id 0 ∅)).map
      (fun r => (r.2.parked 0, r.2.kernel.quiet, r.2.table 0)) =
      some (true, true, {examplePrefix}) := by
  decide +kernel

theorem example_neighbour_mirrors_kernel :
    ∃ ys s acl, Lts.Trace (Step exampleConfig) (init exampleConfig id 0 ∅ : State Unit) ys s ∧
      s.table 0 = {examplePrefix} ∧ FirstMatchPermits acl examplePrefix ∧
      ∃ r ∈ s.kernel.kernel.routes, r.eligible exampleConfig = true ∧ r.dst = examplePrefix := by
  obtain ⟨⟨ys, s⟩, hr, he⟩ := Option.map_eq_some_iff.mp mirroringMoves_exec
  simp only [Prod.mk.injEq] at he
  obtain ⟨hparked, hquiet, htable⟩ := he
  obtain ⟨origin, c, started, session, expires, armed, hphase, hest, hpc, hseen⟩ :=
    parked_eq_true hparked
  obtain ⟨hhead, hdirty, hqueue, hoverrun⟩ := Netlink.quiet_pc hquiet
  have htrace := Lts.exec_trace hr
  obtain ⟨acl, -, hmain⟩ := (neighbour_mirrors_kernel (P := examplePeer) exampleConfig_valid rfl
    htrace hphase hest hpc hseen).1 hhead hdirty hqueue hoverrun
  obtain ⟨hroute, hpermit, -⟩ := (hmain examplePrefix).mp (by rw [htable]; simp)
  exact ⟨ys, s, acl, htrace, htable, hpermit, hroute⟩

omit [DecidableEq Conn] in
/-- Where a prefix that a neighbour holds comes from. -/
theorem Sound.source {origin : PeerLoop.Origin} {c : Candidate Conn} {started : ℕ}
    {session : Session.State} {expires : Option ℕ} {w : Option Session.Write} {p : IpNet}
    (hs : Sound cfg t₀ routes xs s) (hv : cfg.validate = .ok ()) (hP : cfg.peers[q]? = some P)
    (hphase : (s.bgp.loops q).phase = .running origin c started session)
    (hest : session.phase = .established expires w) (hp : p ∈ s.table q) :
    c.negotiated.enabled p = true ∧
      (∃ acl, cfg.acls.lookup P.exportAcl = some acl ∧ FirstMatchPermits acl p) ∧
      ∃ ys now changed e u zs, kernelRun xs = ys ++ (.publish now changed e, u) :: zs ∧
        ∃ ws, Netlink.sinceBegan ys = some ws ∧
          ∃ v ∈ ws, ∃ r ∈ v.kernel.routes, r.eligible cfg = true ∧ r.dst = p := by
  have hmem : P ∈ cfg.peers := List.mem_of_getElem? hP
  rw [table_running hphase] at hp
  obtain ⟨hen, e, hoffered, hdes⟩ := (hs.attached hP hphase).granted hv hmem
    (fun _ he => he.sourced) hest hp
  rcases hoffered with rfl | ⟨ys, now, changed, u, zs, hxs, S, hS, hl⟩
  · simp [desired] at hdes
  · obtain ⟨hpS, hacl⟩ := desired_of_filter hv hmem hS hdes
    obtain ⟨ws, hws, v, hvm, hr⟩ := hl p hpS
    obtain ⟨r, hr, hdst⟩ := Netlink.mem_eligiblePrefixes.mp hr
    obtain ⟨hrm, hel⟩ := Finset.mem_filter.mp hr
    exact ⟨hen, hacl, ys, now, changed, e, u, zs, hxs, ws, hws, v, hvm, r, hrm, hel, hdst⟩

/-- Whatever a neighbour holds of an established session is permitted by the ACL of its peer, is
of a negotiated family, and was the destination of an eligible route that the kernel held while a
snapshot was taken that was published. -/
theorem neighbour_provenance {origin : PeerLoop.Origin} {c : Candidate Conn} {started : ℕ}
    {session : Session.State} {expires : Option ℕ} {w : Option Session.Write} {p : IpNet}
    (hv : cfg.validate = .ok ()) (hP : cfg.peers[q]? = some P)
    (h : Lts.Trace (Lts.Recorded (Step cfg)) (init cfg clock t₀ routes) xs s)
    (hphase : (s.bgp.loops q).phase = .running origin c started session)
    (hest : session.phase = .established expires w) (hp : p ∈ s.table q) :
    c.negotiated.enabled p = true ∧
      (∃ acl, cfg.acls.lookup P.exportAcl = some acl ∧ FirstMatchPermits acl p) ∧
      ∃ ys now changed e u zs, kernelRun xs = ys ++ (.publish now changed e, u) :: zs ∧
        ∃ ws, Netlink.sinceBegan ys = some ws ∧
          ∃ v ∈ ws, ∃ r ∈ v.kernel.routes, r.eligible cfg = true ∧ r.dst = p :=
  (Sound.of_trace hv h).source hv hP hphase hest hp

theorem example_neighbour_provenance :
    ∃ xs s, Lts.Trace (Lts.Recorded (Step exampleConfig))
        (init exampleConfig id 0 ∅ : State Unit) xs s ∧ s.table 0 = {examplePrefix} ∧
      ∃ ys now changed e u zs, kernelRun xs = ys ++ (.publish now changed e, u) :: zs ∧
        ∃ ws, Netlink.sinceBegan ys = some ws ∧
          ∃ v ∈ ws, ∃ r ∈ v.kernel.routes, r.dst = examplePrefix := by
  obtain ⟨⟨ys, s⟩, hr, he⟩ := Option.map_eq_some_iff.mp mirroringMoves_exec
  simp only [Prod.mk.injEq] at he
  obtain ⟨hparked, -, htable⟩ := he
  obtain ⟨origin, c, started, session, expires, armed, hphase, hest, -, -⟩ :=
    parked_eq_true hparked
  obtain ⟨xs, hxs, -⟩ := (Lts.exec_trace hr).recorded
  obtain ⟨-, -, ys', now, changed, e, u, zs, hrun, ws, hws, v, hv, r, hrm, -, hdst⟩ :=
    neighbour_provenance (P := examplePeer) (p := examplePrefix) exampleConfig_valid rfl hxs hphase
      hest (by rw [htable]; simp)
  exact ⟨xs, s, hxs, htable, ys', now, changed, e, u, zs, hrun, ws, hws, v, hv, r, hrm, hdst⟩

end Generation
end Ubgp
