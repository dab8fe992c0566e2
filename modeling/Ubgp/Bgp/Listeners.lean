import Ubgp.Bgp.PeerLoop

/-! The workers of all peers and the listeners they share (`run` in `bgp.rs`). -/
namespace Ubgp
namespace Listeners

/-- What the console shows of a peer; times are in milliseconds. -/
structure PeerStatus where
  state : String
  since : ℕ
  lastError : Option String

/-- Create Idle status records in configuration peer order, each with the time it is made at. -/
def statuses (clock : ℕ → ℕ) (cfg : Config) : List PeerStatus :=
  cfg.peers.mapIdx (fun i _ => ⟨"Idle", clock i, none⟩)

/-- The local address and the interface of a listener. -/
abbrev Key := IpAddr × String

def key (p : Peer) : Key := (p.localAddress, p.interface)

/-- The senders of one listener. A queue is named by the position of its worker. -/
abbrev ListenerPeers := AList (fun _ : IpAddr => ℕ)

/-- A spawned `peer_loop` with the receiver it was given. -/
structure Worker where
  status : PeerStatus
  peer : Peer
  queue : ℕ

/-- The first loop of `run`: `dropped` are the queues whose sender was overwritten. -/
structure Start where
  listeners : AList (fun _ : Key => ListenerPeers)
  workers : List Worker
  dropped : List ℕ

namespace Start

def empty : Start := ⟨∅, [], []⟩

/-- Where `peers.get(&remote.ip())` on the listener of a key leads. -/
def dispatch (s : Start) (k : Key) (remote : IpAddr) : Option ℕ :=
  (s.listeners.lookup k).bind (·.lookup remote)

/-- `entry(..).or_default().insert(..)` with the sender of a new queue, and its worker. -/
def spawn (s : Start) (e : Peer × PeerStatus) : Start :=
  let queue := s.workers.length
  let peers := (s.listeners.lookup (key e.1)).getD ∅
  { listeners := s.listeners.insert (key e.1) (peers.insert e.1.address queue)
    workers := s.workers ++ [⟨e.2, e.1, queue⟩]
    dropped := s.dropped ++ (peers.lookup e.1.address).toList }

end Start

def start (cfg : Config) (statuses : List PeerStatus) : Start :=
  (cfg.peers.zip statuses).foldl Start.spawn .empty

/-- The peers of a listener. -/
def sharing (cfg : Config) (k : Key) : List Peer :=
  cfg.peers.filter (fun p => p.localAddress == k.1 && p.interface == k.2)

/-- `find(..).unwrap()`. -/
def firstPeer (cfg : Config) (k : Key) : Result Peer :=
  match cfg.peers.find? (fun p => p.localAddress == k.1 && p.interface == k.2) with
  | some p => .ok p
  | none => .error .panic

/-- The second loop of `run`. The socket calls are `bind`, with the options of the first peer and
the keys of all. -/
def listen (bind : Key → Peer → List Peer → Result Unit) (cfg : Config)
    (listeners : AList (fun _ : Key => ListenerPeers)) : Result Unit :=
  listeners.entries.forM (fun e => do
    let p ← firstPeer cfg e.1
    bind e.1 p (sharing cfg e.1))

/-! The first loop. -/

variable {cfg : Config} {s : Start} {p : Peer} {status : PeerStatus} {k : Key} {remote : IpAddr}
  {ps : List Peer}

theorem dispatch_spawn (s : Start) (p : Peer) (status : PeerStatus) (k : Key) (remote : IpAddr) :
    (s.spawn (p, status)).dispatch k remote =
      if k = key p ∧ remote = p.address then some s.workers.length else s.dispatch k remote := by
  unfold Start.dispatch Start.spawn
  by_cases hk : k = key p
  · subst hk
    rw [AList.lookup_insert, Option.bind_some]
    by_cases hr : remote = p.address
    · subst hr
      rw [AList.lookup_insert, if_pos ⟨rfl, rfl⟩]
    · rw [AList.lookup_insert_ne hr, if_neg (fun h => hr h.2)]
      cases s.listeners.lookup (key p) with
      | none => exact AList.lookup_empty remote
      | some peers => rfl
  · rw [AList.lookup_insert_ne hk, if_neg (fun h => hk h.1)]

theorem dropped_spawn (s : Start) (p : Peer) (status : PeerStatus) :
    (s.spawn (p, status)).dropped = s.dropped ++ (s.dispatch (key p) p.address).toList := by
  unfold Start.dispatch Start.spawn
  cases s.listeners.lookup (key p) with
  | none =>
    change s.dropped ++ ((∅ : ListenerPeers).lookup p.address).toList = _
    rw [AList.lookup_empty]
    rfl
  | some peers => rfl

/-- The peers so far have one entry each. -/
structure Built (ps : List Peer) (s : Start) : Prop where
  peers : s.workers.map Worker.peer = ps
  queues : s.workers.map Worker.queue = List.range ps.length
  dispatch : ∀ k remote q, s.dispatch k remote = some q ↔
    ∃ p, ps[q]? = some p ∧ key p = k ∧ p.address = remote
  mem : ∀ k, k ∈ s.listeners → ∃ p ∈ ps, key p = k
  dropped : s.dropped = []

theorem built_empty : Built [] .empty := by
  refine ⟨rfl, rfl, ?_, ?_, rfl⟩
  · intro k remote q
    simp [Start.dispatch, Start.empty]
  · intro k hk
    simp [Start.empty] at hk

theorem Built.length (h : Built ps s) : s.workers.length = ps.length := by
  rw [← h.peers, List.length_map]

theorem endpoint_eq {p q : Peer} :
    p.endpoint = q.endpoint ↔ key p = key q ∧ p.address = q.address := by
  simp only [Peer.endpoint, key, Prod.mk.injEq]
  exact and_comm

theorem getElem?_concat {p' : Peer} {q : ℕ} :
    (ps ++ [p])[q]? = some p' ↔ ps[q]? = some p' ∨ (q = ps.length ∧ p = p') := by
  rcases Nat.lt_trichotomy q ps.length with hlt | rfl | hgt
  · rw [List.getElem?_append_left hlt]
    simp [Nat.ne_of_lt hlt]
  · simp
  · have hnone : ps[q]? = none := List.getElem?_eq_none (by omega)
    have hnone' : (ps ++ [p])[q]? = none := List.getElem?_eq_none (by simp; omega)
    simp [hnone, hnone', Nat.ne_of_gt hgt]

/-- A peer with an endpoint of its own is added without touching the others. -/
theorem Built.spawn (h : Built ps s) (status : PeerStatus)
    (hp : p.endpoint ∉ ps.map Peer.endpoint) : Built (ps ++ [p]) (s.spawn (p, status)) := by
  have hfresh : s.dispatch (key p) p.address = none := by
    cases hd : s.dispatch (key p) p.address with
    | none => rfl
    | some q =>
      obtain ⟨p', hget, hk, ha⟩ := (h.dispatch _ _ _).mp hd
      have hmem := List.mem_map_of_mem (f := Peer.endpoint) (List.mem_of_getElem? hget)
      rw [endpoint_eq.mpr ⟨hk, ha⟩] at hmem
      exact absurd hmem hp
  constructor
  · simp [Start.spawn, h.peers]
  · simp [Start.spawn, h.queues, h.length, List.range_succ]
  · intro k remote q
    simp only [dispatch_spawn, getElem?_concat, h.length]
    split
    · rename_i hmatch
      constructor
      · intro hq
        cases hq
        exact ⟨p, Or.inr ⟨rfl, rfl⟩, hmatch.1.symm, hmatch.2.symm⟩
      · rintro ⟨p', hget | ⟨rfl, -⟩, hk, ha⟩
        · rw [hmatch.1] at hk
          rw [hmatch.2] at ha
          rw [(h.dispatch _ _ q).mpr ⟨p', hget, hk, ha⟩] at hfresh
          cases hfresh
        · rfl
    · rename_i hmatch
      rw [h.dispatch]
      constructor
      · rintro ⟨p', hget, hk, ha⟩
        exact ⟨p', Or.inl hget, hk, ha⟩
      · rintro ⟨p', hget | ⟨-, rfl⟩, hk, ha⟩
        · exact ⟨p', hget, hk, ha⟩
        · exact absurd ⟨hk.symm, ha.symm⟩ hmatch
  · intro k hk
    rw [Start.spawn, AList.mem_insert] at hk
    obtain rfl | hk := hk
    · exact ⟨p, by simp, rfl⟩
    · obtain ⟨p', hp', rfl⟩ := h.mem k hk
      exact ⟨p', by simp [hp'], rfl⟩
  · rw [dropped_spawn, h.dropped, hfresh]
    rfl

theorem Built.foldl {es : List (Peer × PeerStatus)} (h : Built ps s)
    (hnodup : ((ps ++ es.map Prod.fst).map Peer.endpoint).Nodup) :
    Built (ps ++ es.map Prod.fst) (es.foldl Start.spawn s) := by
  induction es generalizing ps s with
  | nil => simpa using h
  | cons e es ih =>
    have hsplit : ps ++ (e :: es).map Prod.fst = (ps ++ [e.1]) ++ es.map Prod.fst := by simp
    rw [hsplit] at hnodup ⊢
    have hfresh : e.1.endpoint ∉ ps.map Peer.endpoint := by
      have hnodup' := (List.nodup_append.mp (by simpa using hnodup)).2.2
      intro hmem
      exact hnodup' _ hmem _ List.mem_cons_self rfl
    exact ih (h.spawn e.2 hfresh) hnodup

/-- Every peer of a valid configuration gets its worker and its entry. -/
theorem built_start (h : cfg.validate = .ok ()) (clock : ℕ → ℕ) :
    Built cfg.peers (start cfg (statuses clock cfg)) := by
  have hfst : (cfg.peers.zip (statuses clock cfg)).map Prod.fst = cfg.peers :=
    List.map_fst_zip (by simp [statuses])
  have hnodup := (Config.validate_eq_ok.mp h).endpoints
  rw [← hfst] at hnodup
  have hbuilt := built_empty.foldl hnodup
  rwa [List.nil_append, hfst] at hbuilt

/-! The second loop. -/

theorem firstPeer_eq_ok (h : ∃ p ∈ cfg.peers, key p = k) :
    ∃ p ∈ cfg.peers, firstPeer cfg k = .ok p ∧ key p = k := by
  unfold firstPeer
  cases hfind : cfg.peers.find? (fun p => p.localAddress == k.1 && p.interface == k.2) with
  | none =>
    obtain ⟨p, hp, rfl⟩ := h
    exact absurd (List.find?_eq_none.mp hfind p hp) (by simp [key])
  | some p =>
    have hkey := List.find?_some hfind
    simp only [Bool.and_eq_true, beq_iff_eq] at hkey
    exact ⟨p, List.mem_of_find?_eq_some hfind, rfl, Prod.ext hkey.1 hkey.2⟩

theorem forM_error {α : Type} {f : α → Result Unit} {l : List α} {e : Fault}
    (h : l.forM f = .error e) : ∃ x ∈ l, f x = .error e := by
  induction l with
  | nil => cases h
  | cons x l ih =>
    rw [List.forM_eq_forM, List.forM_cons] at h
    cases hx : f x with
    | error e' =>
      rw [hx] at h
      cases h
      exact ⟨x, List.mem_cons_self, hx⟩
    | ok u =>
      rw [hx] at h
      obtain ⟨y, hy, he⟩ := ih h
      exact ⟨y, List.mem_cons_of_mem x hy, he⟩

/-- Opening the listeners panics only where a socket call does. -/
theorem listen_panic {bind : Key → Peer → List Peer → Result Unit} (hb : Built cfg.peers s)
    (h : listen bind cfg s.listeners = .error .panic) : ∃ k p ps, bind k p ps = .error .panic := by
  obtain ⟨e, he, hf⟩ := forM_error h
  obtain ⟨p, -, hfirst, -⟩ := firstPeer_eq_ok (hb.mem e.1 (List.mem_map_of_mem he))
  rw [hfirst] at hf
  exact ⟨e.1, p, _, hf⟩

/-! Workers whose queue has a sender. -/

section Open
open PeerLoop
variable {Conn : Type} {w t : PeerLoop.State Conn} {a : PeerLoop.Label Conn} {jitter : ℕ}

/-- The sender is there and the worker has not stopped. -/
def Open (w : PeerLoop.State Conn) : Prop := w.closed = false ∧ w.phase ≠ .stopped

theorem Open.settle (h : Open w) (jitter : ℕ) (c : Choose.State Conn) :
    Open (w.settle jitter c) := by
  unfold State.settle
  split
  · exact ⟨h.1, by simp⟩
  · exact ⟨h.1, by simp [State.begin]⟩
  · exact ⟨h.1, by simp [State.backoff]⟩

theorem Open.advance {m : Session.Move} {b : Session.Label} (h : Open w)
    (ha : w.advance cfg p m = some (b, t)) : Open t := by
  unfold State.advance at ha
  split at ha
  · simp only [Option.bind_eq_bind, Option.bind_eq_some_iff, Option.pure_def, Option.some.injEq,
      Prod.exists, Prod.mk.injEq] at ha
    obtain ⟨_, _, -, -, rfl⟩ := ha
    exact ⟨h.1, by simp⟩
  · cases ha

theorem Open.ambient (h : Open w) (cfg : Config) (p : Peer) (m : Transmit.Move) :
    Open (w.ambient cfg p m) := by
  unfold State.ambient
  split
  · rename_i ha
    exact h.advance ha
  · exact h

theorem Open.finish (h : Open w) (ha : w.finish jitter = some (a, t)) : Open t := by
  unfold State.finish at ha
  split at ha
  · split at ha
    · cases ha
      exact ⟨h.1, by simp [State.backoff]⟩
    · cases ha
      exact ⟨h.1, by simp⟩
    · cases ha
  · cases ha

theorem Open.handshook {result : Except String (Candidate Conn)} (h : Open w)
    (ha : w.handshook result = some (a, t)) : Open t := by
  unfold State.handshook at ha
  split at ha <;> split at ha
  · cases ha
    exact ⟨h.1, by simp [State.begin]⟩
  · cases ha
  · cases ha
    exact ⟨h.1, by simp⟩
  · cases ha

variable [DecidableEq Conn]

theorem Open.take {stream : Conn} (h : Open w) (ha : w.take cfg p jitter stream = some (a, t)) :
    Open t := by
  unfold State.take at ha
  split at ha
  case h_1 =>
    simp only [Option.bind_eq_bind, Option.bind_eq_some_iff, Option.pure_def, Option.some.injEq,
      Prod.mk.injEq] at ha
    obtain ⟨c, -, -, rfl⟩ := ha
    exact h.settle jitter c
  case h_2 =>
    cases ha
    exact h
  case h_4 =>
    cases ha
    exact ⟨h.1, by simp⟩
  all_goals cases ha

theorem Open.select {e : Choose.Event Conn} (h : Open w)
    (ha : w.select cfg p jitter e = some (a, t)) : Open t := by
  unfold State.select at ha
  split at ha
  · simp only [Option.bind_eq_bind, Option.bind_eq_some_iff, Option.pure_def, Option.some.injEq,
      Prod.mk.injEq] at ha
    obtain ⟨c, -, -, rfl⟩ := ha
    exact h.settle jitter c
  · cases ha

/-- As long as the sender is kept the worker does not stop. -/
theorem Open.step {m : PeerLoop.Move Conn} (h : Open w) (hm : m ≠ .close)
    (ha : PeerLoop.step cfg p w m = some (a, t)) : Open t := by
  cases m with
  | deliver stream =>
    simp only [PeerLoop.step, Option.ite_none_left_eq_some] at ha
    obtain ⟨-, ha⟩ := ha
    split at ha
    · cases ha
      exact h
    · cases ha
      exact h
  | close => exact absurd rfl hm
  | publish e =>
    simp only [PeerLoop.step, Option.ite_none_left_eq_some] at ha
    obtain ⟨-, ha⟩ := ha
    cases ha
    exact Open.ambient (w := { w with exports := e }) h cfg p (.publish e)
  | drop =>
    cases ha
    exact Open.ambient (w := { w with dropped := true }) h cfg p .close
  | tick d =>
    cases ha
    exact Open.ambient (w := { w with now := w.now + d }) h cfg p (.tick d)
  | recv jitter =>
    simp only [PeerLoop.step, State.recv] at ha
    split at ha
    · rename_i stream queue hq
      exact Open.take (w := { w with queue }) h ha
    · rw [h.1] at ha
      cases ha
  | joined incoming result jitter => exact h.select ha
  | deadline jitter => exact h.select ha
  | handshake result => exact h.handshook ha
  | session m =>
    simp only [PeerLoop.step, Option.ite_none_right_eq_some, Option.map_eq_some_iff, Prod.exists,
      Prod.mk.injEq] at ha
    obtain ⟨-, b, u, hu, -, rfl⟩ := ha
    exact h.advance hu
  | finish jitter => exact h.finish ha
  | wake =>
    simp only [PeerLoop.step] at ha
    split at ha
    · simp only [Option.ite_none_right_eq_some] at ha
      obtain ⟨-, ha⟩ := ha
      cases ha
      exact ⟨h.1, by simp⟩
    · cases ha

end Open

/-! The running daemon. -/

/-- The listeners' senders beside the workers. -/
structure Daemon (Conn : Type) where
  listeners : Start
  loops : ℕ → PeerLoop.State Conn

/-- A worker whose sender was overwritten finds its queue closed. -/
def Start.run {Conn : Type} (s : Start) (e : Exports) (now : ℕ) : Daemon Conn :=
  ⟨s, fun q => { PeerLoop.init e now with closed := s.dropped.contains q }⟩

/-- `accept` on one listener, or a step of the worker of one queue. -/
inductive Move (Conn : Type)
  | accept (k : Key) (remote : IpAddr) (stream : Conn)
  | work (q : ℕ) (m : PeerLoop.Move Conn)

inductive Label (Conn : Type)
  | unconfigured (k : Key) (remote : IpAddr) (stream : Conn)
  | work (q : ℕ) (a : PeerLoop.Label Conn)

namespace Daemon
variable {Conn : Type}

def setLoop (d : Daemon Conn) (q : ℕ) (w : PeerLoop.State Conn) : Daemon Conn :=
  { d with loops := Function.update d.loops q w }

variable {d d' : Daemon Conn} {q q' : ℕ}

@[simp] theorem setLoop_self (w : PeerLoop.State Conn) : (d.setLoop q w).loops q = w := by
  simp [setLoop]

theorem setLoop_of_ne (w : PeerLoop.State Conn) (h : q' ≠ q) :
    (d.setLoop q w).loops q' = d.loops q' := by
  simp [setLoop, h]

/-- Every peer has its entry, and every worker its sender. -/
structure Sound (cfg : Config) (d : Daemon Conn) : Prop where
  built : Built cfg.peers d.listeners
  loops : ∀ q, Open (d.loops q)

theorem sound_run {e : Exports} {now : ℕ} (h : Built cfg.peers s) :
    Sound cfg (s.run e now : Daemon Conn) := by
  refine ⟨h, ?_⟩
  intro q
  refine ⟨?_, by simp [Start.run, PeerLoop.init]⟩
  simp [Start.run, h.dropped]

variable [DecidableEq Conn]

/-- A move of the worker of one queue. -/
def work (cfg : Config) (d : Daemon Conn) (q : ℕ) (m : PeerLoop.Move Conn) :
    Option (Label Conn × Daemon Conn) := do
  let w ← d.listeners.workers[q]?
  let (a, t) ← PeerLoop.step cfg w.peer (d.loops q) m
  return (.work q a, d.setLoop q t)

/-- The workers' own moves: their queues are filled by the listeners, which keep the senders. -/
def ownMove : PeerLoop.Move Conn → Bool
  | .deliver _ => false
  | .close => false
  | _ => true

/-- Streams from unconfigured sources are closed, others offered to a queue by `try_send`. -/
def step (cfg : Config) (d : Daemon Conn) : Move Conn → Option (Label Conn × Daemon Conn)
  | .accept k remote stream =>
    if k ∈ d.listeners.listeners then
      match d.listeners.dispatch k remote with
      | some q => d.work cfg q (.deliver stream)
      | none => some (.unconfigured k remote stream, d)
    else none
  | .work q m => if ownMove m then d.work cfg q m else none

def Step (cfg : Config) (d : Daemon Conn) (a : Label Conn) (d' : Daemon Conn) : Prop :=
  ∃ m, step cfg d m = some (a, d')

variable {a : Label Conn} {stream : Conn}

/-- The worker of a queue takes a step and keeps its sender. -/
def Works (cfg : Config) (d d' : Daemon Conn) : Prop :=
  ∃ q m p b t, m ≠ .close ∧ PeerLoop.step cfg p (d.loops q) m = some (b, t) ∧
    d' = d.setLoop q t

theorem works_of_work {m : PeerLoop.Move Conn} (hm : m ≠ .close)
    (h : d.work cfg q m = some (a, d')) : Works cfg d d' := by
  simp only [work, Option.bind_eq_bind, Option.bind_eq_some_iff, Option.pure_def,
    Option.some.injEq, Prod.exists, Prod.mk.injEq] at h
  obtain ⟨w, -, b, t, hstep, -, rfl⟩ := h
  exact ⟨q, m, w.peer, b, t, hm, hstep, rfl⟩

theorem step_cases (ha : Step cfg d a d') : d' = d ∨ Works cfg d d' := by
  obtain ⟨m, ha⟩ := ha
  cases m with
  | accept k remote stream =>
    simp only [Daemon.step, Option.ite_none_right_eq_some] at ha
    obtain ⟨-, ha⟩ := ha
    split at ha
    · exact Or.inr (works_of_work (by simp) ha)
    · cases ha
      exact Or.inl rfl
  | work q m =>
    simp only [Daemon.step, Option.ite_none_right_eq_some] at ha
    obtain ⟨hown, ha⟩ := ha
    refine Or.inr (works_of_work ?_ ha)
    rintro rfl
    cases hown

theorem Sound.step (h : Sound cfg d) (ha : Step cfg d a d') : Sound cfg d' := by
  obtain rfl | ⟨q, m, p, b, t, hm, hstep, rfl⟩ := step_cases ha
  · exact h
  · refine ⟨h.built, ?_⟩
    intro q'
    by_cases hq : q' = q
    · subst hq
      rw [setLoop_self]
      exact (h.loops q').step hm hstep
    · rw [setLoop_of_ne _ hq]
      exact h.loops q'

theorem step_listeners (ha : Step cfg d a d') : d'.listeners = d.listeners := by
  obtain rfl | ⟨q, m, p, b, t, -, -, rfl⟩ := step_cases ha
  · rfl
  · rfl

theorem Sound.work_eq {m : PeerLoop.Move Conn} {b : PeerLoop.Label Conn}
    {t : PeerLoop.State Conn} (h : Sound cfg d) (hp : cfg.peers[q]? = some p)
    (hstep : PeerLoop.step cfg p (d.loops q) m = some (b, t)) :
    d.work cfg q m = some (.work q b, d.setLoop q t) := by
  rw [← h.built.peers, List.getElem?_map] at hp
  obtain ⟨w, hw, rfl⟩ := Option.map_eq_some_iff.mp hp
  simp only [Daemon.work, hw, Option.bind_eq_bind, Option.bind_some, hstep, Option.pure_def]

/-- A stream is offered to the queue of the peer it comes from. -/
theorem Sound.accept (h : Sound cfg d) (hp : cfg.peers[q]? = some p) (stream : Conn) :
    ∃ a d', Daemon.step cfg d (.accept (key p) p.address stream) = some (.work q a, d') ∧
      (d'.loops q).queue = (if (d.loops q).queue.length < PeerLoop.capacity then
        (d.loops q).queue ++ [stream] else (d.loops q).queue) ∧
      ∀ q' ≠ q, d'.loops q' = d.loops q' := by
  have hdispatch := (h.built.dispatch (key p) p.address q).mpr ⟨p, hp, rfl, rfl⟩
  have hmem : key p ∈ d.listeners.listeners := by
    unfold Start.dispatch at hdispatch
    obtain ⟨peers, hpeers, -⟩ := Option.bind_eq_some_iff.mp hdispatch
    exact AList.lookup_isSome.mp (by rw [hpeers]; rfl)
  have hopen : ¬ (d.loops q).closed = true := by simp [(h.loops q).1]
  simp only [Daemon.step, if_pos hmem, hdispatch]
  by_cases hroom : (d.loops q).queue.length < PeerLoop.capacity
  · have hstep : PeerLoop.step cfg p (d.loops q) (.deliver stream) = some (.delivered stream,
        { d.loops q with queue := (d.loops q).queue ++ [stream] }) := by
      rw [PeerLoop.step, if_neg hopen, if_pos hroom]
    refine ⟨_, _, h.work_eq hp hstep, ?_, fun q' hq' => setLoop_of_ne _ hq'⟩
    rw [setLoop_self, if_pos hroom]
  · have hstep : PeerLoop.step cfg p (d.loops q) (.deliver stream) =
        some (.refused stream, d.loops q) := by
      rw [PeerLoop.step, if_neg hopen, if_neg hroom]
    refine ⟨_, _, h.work_eq hp hstep, ?_, fun q' hq' => setLoop_of_ne _ hq'⟩
    rw [setLoop_self, if_neg hroom]

/-- A stream nobody is configured for is closed. -/
theorem Sound.accept_unconfigured (h : Sound cfg d) (hk : k ∈ d.listeners.listeners)
    (hnone : ∀ p ∈ cfg.peers, key p = k → p.address ≠ remote) (stream : Conn) :
    Daemon.step cfg d (.accept k remote stream) = some (.unconfigured k remote stream, d) := by
  have hdispatch : d.listeners.dispatch k remote = none := by
    cases hd : d.listeners.dispatch k remote with
    | none => rfl
    | some q =>
      obtain ⟨p, hp, hpk, hpa⟩ := (h.built.dispatch k remote q).mp hd
      exact absurd hpa (hnone p (List.mem_of_getElem? hp) hpk)
  simp only [Daemon.step, if_pos hk, hdispatch]

theorem Sound.trace {xs : List (Label Conn)} (h : Sound cfg d)
    (ht : Lts.Trace (Step cfg) d xs d') : Sound cfg d' :=
  ht.invariant h (fun _ _ _ hs ha => hs.step ha)

end Daemon

/-- Positions of peers with one key and one address are the same. -/
theorem position_unique {n n' : ℕ} {p' : Peer} (h : cfg.validate = .ok ())
    (hp : cfg.peers[n]? = some p) (hp' : cfg.peers[n']? = some p') (hk : key p' = key p)
    (ha : p'.address = p.address) : n' = n := by
  have hnodup := (Config.validate_eq_ok.mp h).endpoints
  have hget : (cfg.peers.map Peer.endpoint)[n]? = some p.endpoint := by
    rw [List.getElem?_map, hp]
    rfl
  have hget' : (cfg.peers.map Peer.endpoint)[n']? = some p.endpoint := by
    rw [List.getElem?_map, hp', Option.map_some, endpoint_eq.mpr ⟨hk, ha⟩]
  obtain ⟨hlt, -⟩ := List.getElem?_eq_some_iff.mp hget'
  exact (List.getElem?_inj hlt hnodup).mp (hget'.trans hget.symm)

/-- Each peer has exactly one entry at exactly one listener, whatever order they were added in. No
sender is lost, so that no worker ever stops for the lack of one, and every listener has a peer.
In every state reached, an accepted stream is offered to the queue of the one peer it can come
from, which takes it unless it is full. -/
theorem dispatch_bijective {Conn : Type} [DecidableEq Conn] (h : cfg.validate = .ok ())
    (clock : ℕ → ℕ) (bind : Key → Peer → List Peer → Result Unit) (e : Exports) (now : ℕ)
    (hs : s = start cfg (statuses clock cfg)) :
    s.workers.map Worker.peer = cfg.peers ∧
    s.workers.map Worker.queue = List.range cfg.peers.length ∧
    (∀ n p, cfg.peers[n]? = some p → ∀ k remote,
      s.dispatch k remote = some n ↔ k = key p ∧ remote = p.address) ∧
    s.dropped = [] ∧
    (∀ k ∈ s.listeners, ∃ p ∈ cfg.peers, firstPeer cfg k = .ok p ∧ key p = k) ∧
    (listen bind cfg s.listeners = .error .panic → ∃ k p ps, bind k p ps = .error .panic) ∧
    ∀ xs (d : Daemon Conn), Lts.Trace (Daemon.Step cfg) (s.run e now) xs d →
      d.listeners = s ∧ (∀ q, Open (d.loops q)) ∧ ∀ k ∈ s.listeners, ∀ remote stream,
        (∃ n p, cfg.peers[n]? = some p ∧ key p = k ∧ p.address = remote ∧
          (∀ n' p', cfg.peers[n']? = some p' → key p' = k → p'.address = remote → n' = n) ∧
          ∃ a d', Daemon.step cfg d (.accept k remote stream) = some (.work n a, d') ∧
            (d'.loops n).queue = (if (d.loops n).queue.length < PeerLoop.capacity then
              (d.loops n).queue ++ [stream] else (d.loops n).queue) ∧
            ∀ m ≠ n, d'.loops m = d.loops m) ∨
        ((∀ p ∈ cfg.peers, key p = k → p.address ≠ remote) ∧
          Daemon.step cfg d (.accept k remote stream) =
            some (.unconfigured k remote stream, d)) := by
  have hbuilt : Built cfg.peers s := hs ▸ built_start h clock
  refine ⟨hbuilt.peers, hbuilt.queues, ?_, hbuilt.dropped, ?_, listen_panic hbuilt, ?_⟩
  · intro n p hp k remote
    rw [hbuilt.dispatch]
    constructor
    · rintro ⟨p', hp', rfl, rfl⟩
      cases hp.symm.trans hp'
      exact ⟨rfl, rfl⟩
    · rintro ⟨rfl, rfl⟩
      exact ⟨p, hp, rfl, rfl⟩
  · intro k hk
    exact firstPeer_eq_ok (hbuilt.mem k hk)
  · intro xs d ht
    have hsound := (Daemon.sound_run hbuilt).trace ht
    have hlisteners : d.listeners = s :=
      ht.invariant (P := fun d => d.listeners = s) rfl
        (fun _ _ _ hd ha => (Daemon.step_listeners ha).trans hd)
    refine ⟨hlisteners, hsound.loops, ?_⟩
    intro k hk remote stream
    by_cases hpeer : ∃ p ∈ cfg.peers, key p = k ∧ p.address = remote
    · obtain ⟨p, hmem, rfl, rfl⟩ := hpeer
      obtain ⟨n, hn⟩ := List.getElem?_of_mem hmem
      exact Or.inl ⟨n, p, hn, rfl, rfl, fun n' p' => position_unique h hn,
        hsound.accept hn stream⟩
    · have hnone : ∀ p ∈ cfg.peers, key p = k → p.address ≠ remote :=
        fun p hp hk ha => hpeer ⟨p, hp, hk, ha⟩
      exact Or.inr ⟨hnone, hsound.accept_unconfigured (hlisteners.symm ▸ hk) hnone stream⟩

/-- A second peer behind the listener of the first. -/
def secondPeer : Peer := { examplePeer with address := .v4 0xC0000203#32 }

def sharedConfig : Config := { exampleConfig with peers := [examplePeer, secondPeer] }

theorem sharedConfig_valid : sharedConfig.validate = .ok () := by rfl

def sharedStart : Start := start sharedConfig (statuses id sharedConfig)

theorem example_dispatch : sharedStart.dispatch (key secondPeer) secondPeer.address = some 1 ∧
    sharedStart.dropped = [] := by
  obtain ⟨-, -, hdispatch, hdropped, -⟩ := @dispatch_bijective sharedConfig sharedStart ℕ _
    sharedConfig_valid id (fun _ _ _ => .ok ()) ∅ 0 rfl
  exact ⟨(hdispatch 1 secondPeer rfl _ _).mpr ⟨rfl, rfl⟩, hdropped⟩

/-- The sender of a duplicate endpoint would replace the one before it. -/
example : (start { exampleConfig with peers := [examplePeer, examplePeer] }
    (List.replicate 2 ⟨"Idle", 0, none⟩)).dropped = [0] := by
  decide +kernel

theorem sharedStart_exec :
    (Lts.exec (Daemon.step sharedConfig) [.accept (key secondPeer) secondPeer.address 1,
      .accept (key secondPeer) secondPeer.address 2] (sharedStart.run ∅ 0)).map
        (fun r => (r.2.loops 1).queue) = some [1, 2] := by
  decide +kernel

/-- A third stream for a queue that nothing was taken from is closed. -/
theorem full_queue_refuses :
    ¬ ∀ (cfg : Config) (clock : ℕ → ℕ) (e : Exports) (now : ℕ) (xs : List (Label ℕ))
      (d d' : Daemon ℕ) (a : Label ℕ) (n : ℕ) (p : Peer) (stream : ℕ), cfg.validate = .ok () →
        Lts.Trace (Daemon.Step cfg) ((start cfg (statuses clock cfg)).run e now) xs d →
        cfg.peers[n]? = some p →
        Daemon.step cfg d (.accept (key p) p.address stream) = some (a, d') →
          stream ∈ (d'.loops n).queue := by
  intro hall
  obtain ⟨⟨xs, d⟩, hr, hqueue⟩ := Option.map_eq_some_iff.mp sharedStart_exec
  have htrace := Lts.exec_trace hr
  have hsound := (Daemon.sound_run (built_start sharedConfig_valid id)).trace htrace
  obtain ⟨a, d', hstep, hfull, -⟩ := hsound.accept (q := 1) (p := secondPeer) rfl 3
  have hmem := hall _ id ∅ 0 xs d d' _ 1 secondPeer 3 sharedConfig_valid htrace rfl hstep
  rw [hfull, hqueue] at hmem
  exact absurd hmem (by decide)

end Listeners
end Ubgp
