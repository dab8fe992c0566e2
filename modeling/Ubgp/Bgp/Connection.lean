import Ubgp.Bgp.Inbound

/-! A connection from TCP to its end (`handshake`, `choose`, `session`, `receive`, `transmit` and
`report` in `bgp.rs`), message by message.

Sends are atomic: a message is written whole or not at all. Timers may run out at any time. -/
namespace Ubgp
namespace Connection

/-- Where the task that owns the connection stands; `failing` is about to report its error. -/
inductive Phase
  | connected
  | openSent
  | candidate (n : Negotiated)
  | accepted (n : Negotiated) (p : Peer)
  | openConfirm (n : Negotiated) (p : Peer)
  | confirmed (n : Negotiated) (p : Peer)
  | established (n : Negotiated) (p : Peer) (tx : Transmit.State)
  | failing (e : Fault)
  | closed

/-- `stream` is what the peer still sends before it closes the connection. -/
structure State where
  phase : Phase
  stream : Bytes

def init (stream : Bytes) : State := ⟨.connected, stream⟩

inductive Label
  | sent (kind : UInt8) (packet : Bytes)
  | received (kind : UInt8) (body : Bytes)
  | tau

/-- `abort` stands for an I/O error, a failed or late write, the OPEN timeout and a dropped task:
none of them is reported. -/
inductive Move
  | abort
  | sendOpen
  | read
  | expire
  | cease
  | accept (linkLocal : Option Ipv6Addr)
  | sendKeepalive
  | establish (e : Exports) (t : ℕ)
  | loop (m : Transmit.Move)
  | report

/-- The message type of what the export loop sends. -/
def sendKind : Transmit.Send → UInt8
  | .keepalive => KEEPALIVE
  | .update _ _ | .endOfRib _ => UPDATE

/-- `Refresh::request`, if asked for. -/
def request (tx : Transmit.State) : Option Bool → Transmit.State
  | none => tx
  | some v6 => { tx with
      refresh := { tx.refresh with pending := tx.refresh.pending.insert v6, permit := true } }

namespace State
variable (cfg : Config) (p : Peer) (s : State)

/-- Send an encoded message and go on; a panic of the encoder ends the task. -/
def send (kind : UInt8) (packet : Result Bytes) (phase : Phase) : Label × State :=
  match packet with
  | .ok packet => (.sent kind packet, { s with phase })
  | .error _ => (.tau, { s with phase := .closed })

/-- `read_frame`, then what the message leads to. -/
def read (f : UInt8 → Bytes → Result Phase) : Label × State :=
  match readFrame s.stream with
  | .error e => (.tau, { s with phase := .failing e })
  | .ok ((kind, body), rest) =>
    (.received kind body, ⟨match f kind body with
      | .ok phase => phase
      | .error e => .failing e, rest⟩)

/-- The read the connection waits for returns. -/
def receive : Option (Label × State) :=
  match s.phase with
  | .openSent =>
    some (s.read fun kind body => (Inbound.readOpen cfg p kind body).map .candidate)
  | .openConfirm n q =>
    some (s.read fun kind body => (Inbound.readConfirm kind body).map fun _ => .confirmed n q)
  | .established n q tx =>
    some (s.read fun kind body =>
      (Session.handle n kind body).map fun r => .established n q (request tx r.refresh))
  | _ => none

/-- The wait for the confirmation or the hold timer runs out. -/
def expire : Option (Label × State) :=
  match s.phase with
  | .openConfirm n _ => some (.tau, { s with
      phase := .failing (.protocol ⟨if n.hold = 0 then 5 else 4, 0, [], "OpenConfirm timeout"⟩) })
  | .established n _ _ =>
    if n.hold ≠ 0 then some (.tau, { s with
      phase := .failing (.protocol ⟨4, 0, [], "hold timer expired"⟩) })
    else none
  | _ => none

/-- A step of the export loop, other than a refresh request. -/
def loop (m : Transmit.Move) : Option (Label × State) :=
  match s.phase, m with
  | .established _ _ _, .request _ | .established _ _ _, .notify => none
  | .established n q tx, m => do
    let (a, tx) ← Transmit.step n q.exportAcl tx m
    match a with
    | .sent msg =>
      return s.send (sendKind msg) (Session.render cfg q n msg) (.established n q tx)
    | .stop => return (.tau, { s with phase := .closed })
    | _ => return (.tau, { s with phase := .established n q tx })
  | _, _ => none

end State

def step (cfg : Config) (p : Peer) (s : State) : Move → Option (Label × State)
  | .abort => some (.tau, { s with phase := .closed })
  | .sendOpen =>
    match s.phase with
    | .connected => some (s.send OPEN (openMessage cfg p) .openSent)
    | _ => none
  | .read => s.receive cfg p
  | .expire => s.expire
  | .cease =>
    match s.phase with
    | .candidate _ => some (s.send NOTIFICATION (notification 6 7 []) .closed)
    | _ => none
  | .accept linkLocal =>
    match s.phase with
    | .candidate n => some (.tau, { s with phase := .accepted n (p.fill linkLocal) })
    | _ => none
  | .sendKeepalive =>
    match s.phase with
    | .accepted n q => some (s.send KEEPALIVE (frame KEEPALIVE []) (.openConfirm n q))
    | _ => none
  | .establish e t =>
    match s.phase with
    | .confirmed n q => some (.tau, { s with phase := .established n q (Transmit.init e t) })
    | _ => none
  | .loop m => s.loop cfg m
  | .report =>
    match s.phase with
    | .failing (.protocol e) =>
      some (s.send NOTIFICATION (notification e.code e.subcode e.data) .closed)
    | _ => none

def Step (cfg : Config) (p : Peer) (s : State) (a : Label) (t : State) : Prop :=
  ∃ m, step cfg p s m = some (a, t)

/-! What one step can do. -/

/-- The state in which the connection waits for a message. -/
def Phase.waits : Phase → Option FsmState
  | .openSent => some .openSent
  | .openConfirm _ _ => some .openConfirm
  | .established _ _ _ => some .established
  | _ => none

/-- The message types that are expected in a state. -/
def expects : FsmState → UInt8 → Bool
  | .openSent, kind => kind == OPEN
  | .openConfirm, kind => kind == KEEPALIVE
  | .established, kind => kind == KEEPALIVE || kind == UPDATE || kind == ROUTE_REFRESH

inductive Effect (cfg : Config) (p : Peer) (s : State) : Label → State → Prop
  | closed : Effect cfg p s .tau { s with phase := .closed }
  | opened {packet : Bytes} (hp : s.phase = .connected) (hm : openMessage cfg p = .ok packet) :
      Effect cfg p s (.sent OPEN packet) { s with phase := .openSent }
  | failed {e : Fault} {w : FsmState} (hp : s.phase.waits = some w) :
      Effect cfg p s .tau { s with phase := .failing e }
  | candidate {body rest : Bytes} {n : Negotiated} (hp : s.phase = .openSent)
      (hr : readFrame s.stream = .ok ((OPEN, body), rest)) (hn : parseOpen body cfg p = .ok n) :
      Effect cfg p s (.received OPEN body) ⟨.candidate n, rest⟩
  | confirmed {n : Negotiated} {q : Peer} {body rest : Bytes} (hp : s.phase = .openConfirm n q)
      (hr : readFrame s.stream = .ok ((KEEPALIVE, body), rest)) :
      Effect cfg p s (.received KEEPALIVE body) ⟨.confirmed n q, rest⟩
  | handled {n : Negotiated} {q : Peer} {tx tx' : Transmit.State} {kind : UInt8}
      {body rest : Bytes} (hp : s.phase = .established n q tx)
      (hr : readFrame s.stream = .ok ((kind, body), rest)) (hk : expects .established kind = true) :
      Effect cfg p s (.received kind body) ⟨.established n q tx', rest⟩
  | rejected {w : FsmState} {kind : UInt8} {body rest : Bytes} {e : Fault}
      (hp : s.phase.waits = some w) (hr : readFrame s.stream = .ok ((kind, body), rest))
      (he : expects w kind = true ∨ (expects w kind = false ∧ e = unexpected w kind body)) :
      Effect cfg p s (.received kind body) ⟨.failing e, rest⟩
  | ceased {n : Negotiated} {packet : Bytes} (hp : s.phase = .candidate n)
      (hm : notification 6 7 [] = .ok packet) :
      Effect cfg p s (.sent NOTIFICATION packet) { s with phase := .closed }
  | accepted {n : Negotiated} {q : Peer} (hp : s.phase = .candidate n) :
      Effect cfg p s .tau { s with phase := .accepted n q }
  | confirming {n : Negotiated} {q : Peer} {packet : Bytes} (hp : s.phase = .accepted n q)
      (hm : frame KEEPALIVE [] = .ok packet) :
      Effect cfg p s (.sent KEEPALIVE packet) { s with phase := .openConfirm n q }
  | established {n : Negotiated} {q : Peer} {tx : Transmit.State} (hp : s.phase = .confirmed n q) :
      Effect cfg p s .tau { s with phase := .established n q tx }
  | looped {n : Negotiated} {q : Peer} {tx tx' : Transmit.State}
      (hp : s.phase = .established n q tx) :
      Effect cfg p s .tau { s with phase := .established n q tx' }
  | sent {n : Negotiated} {q : Peer} {tx tx' : Transmit.State} {msg : Transmit.Send}
      {packet : Bytes} (hp : s.phase = .established n q tx)
      (hm : Session.render cfg q n msg = .ok packet) :
      Effect cfg p s (.sent (sendKind msg) packet) { s with phase := .established n q tx' }
  | reported {e : ProtocolError} {packet : Bytes} (hp : s.phase = .failing (.protocol e))
      (hm : notification e.code e.subcode e.data = .ok packet) :
      Effect cfg p s (.sent NOTIFICATION packet) { s with phase := .closed }

variable {cfg : Config} {p : Peer} {s t : State} {a : Label}

theorem send_effect {kind : UInt8} {packet : Result Bytes} {phase : Phase}
    (h : s.send kind packet phase = (a, t))
    (hok : ∀ m, packet = .ok m → Effect cfg p s (.sent kind m) { s with phase }) :
    Effect cfg p s a t := by
  unfold State.send at h
  split at h
  · cases h
    exact hok _ rfl
  · cases h
    exact .closed

/-- The handler of a read either accepts an expected message or fails, with the error for
unexpected ones if it is none. -/
theorem read_effect {w : FsmState} {f : UInt8 → Bytes → Result Phase}
    (h : s.read f = (a, t)) (hp : s.phase.waits = some w)
    (hok : ∀ kind body rest phase, readFrame s.stream = .ok ((kind, body), rest) →
      f kind body = .ok phase → Effect cfg p s (.received kind body) ⟨phase, rest⟩)
    (herr : ∀ kind body e, f kind body = .error e →
      expects w kind = true ∨ (expects w kind = false ∧ e = unexpected w kind body)) :
    Effect cfg p s a t := by
  unfold State.read at h
  split at h
  · cases h
    exact .failed hp
  · rename_i kind body rest hr
    cases hf : f kind body with
    | ok phase =>
      rw [hf] at h
      cases h
      exact hok kind body rest phase hr hf
    | error e =>
      rw [hf] at h
      cases h
      exact .rejected hp hr (herr kind body e hf)

theorem readOpen_ok {kind : UInt8} {body : Bytes} {n : Negotiated}
    (h : Inbound.readOpen cfg p kind body = .ok n) :
    kind = OPEN ∧ parseOpen body cfg p = .ok n := by
  unfold Inbound.readOpen at h
  split at h
  · cases h
  · rename_i hk
    exact ⟨not_not.mp hk, h⟩

theorem readOpen_error {kind : UInt8} {body : Bytes} {e : Fault}
    (h : Inbound.readOpen cfg p kind body = .error e) :
    expects .openSent kind = true ∨
      (expects .openSent kind = false ∧ e = unexpected .openSent kind body) := by
  unfold Inbound.readOpen at h
  split at h
  · rename_i hk
    cases h
    exact Or.inr ⟨by simp [expects, hk], rfl⟩
  · rename_i hk
    exact Or.inl (by simpa [expects] using hk)

theorem readConfirm_ok {kind : UInt8} {body : Bytes} (h : Inbound.readConfirm kind body = .ok ()) :
    kind = KEEPALIVE := by
  unfold Inbound.readConfirm at h
  split at h
  · cases h
  · rename_i hk
    exact not_not.mp hk

theorem readConfirm_error {kind : UInt8} {body : Bytes} {e : Fault}
    (h : Inbound.readConfirm kind body = .error e) :
    expects .openConfirm kind = false ∧ e = unexpected .openConfirm kind body := by
  unfold Inbound.readConfirm at h
  split at h
  · rename_i hk
    cases h
    exact ⟨by simp [expects, hk], rfl⟩
  · cases h

/-- Only expected types reach their own handling. -/
theorem handle_unexpected {n : Negotiated} {kind : UInt8} {body : Bytes}
    (hk : expects .established kind = false) :
    Session.handle n kind body = .error (unexpected .established kind body) := by
  simp only [expects, Bool.or_eq_false_iff, beq_eq_false_iff_ne, ne_eq] at hk
  obtain ⟨⟨h₁, h₂⟩, h₃⟩ := hk
  rw [Session.handle, if_neg h₁, if_neg h₂, if_neg h₃]

theorem handle_ok {n : Negotiated} {kind : UInt8} {body : Bytes} {r : Session.Handled}
    (h : Session.handle n kind body = .ok r) : expects .established kind = true := by
  cases hk : expects .established kind with
  | true => rfl
  | false =>
    rw [handle_unexpected hk] at h
    cases h

theorem handle_error {n : Negotiated} {kind : UInt8} {body : Bytes} {e : Fault}
    (h : Session.handle n kind body = .error e) : expects .established kind = true ∨
      (expects .established kind = false ∧ e = unexpected .established kind body) := by
  cases hk : expects .established kind with
  | true => exact Or.inl rfl
  | false =>
    rw [handle_unexpected hk] at h
    cases h
    exact Or.inr ⟨rfl, rfl⟩

theorem map_eq_ok {α β : Type} {x : Result α} {f : α → β} {b : β} (h : x.map f = .ok b) :
    ∃ a, x = .ok a ∧ f a = b := by
  cases x with
  | ok a => exact ⟨a, rfl, Except.ok.inj h⟩
  | error e => cases h

theorem map_eq_error {α β : Type} {x : Result α} {f : α → β} {e : Fault}
    (h : x.map f = .error e) : x = .error e := by
  cases x with
  | ok a => cases h
  | error e' =>
    cases h
    rfl

theorem receive_effect (h : s.receive cfg p = some (a, t)) : Effect cfg p s a t := by
  unfold State.receive at h
  split at h
  case h_1 hp =>
    refine read_effect (Option.some.inj h) (by rw [hp]; rfl) ?_ ?_
    · intro kind body rest phase hr hf
      obtain ⟨n, hn, rfl⟩ := map_eq_ok hf
      obtain ⟨rfl, hparse⟩ := readOpen_ok hn
      exact .candidate hp hr hparse
    · intro kind body e hf
      exact readOpen_error (map_eq_error hf)
  case h_2 n q hp =>
    refine read_effect (Option.some.inj h) (by rw [hp]; rfl) ?_ ?_
    · intro kind body rest phase hr hf
      obtain ⟨_, hk, rfl⟩ := map_eq_ok hf
      obtain rfl := readConfirm_ok hk
      exact .confirmed hp hr
    · intro kind body e hf
      exact Or.inr (readConfirm_error (map_eq_error hf))
  case h_3 n q tx hp =>
    refine read_effect (Option.some.inj h) (by rw [hp]; rfl) ?_ ?_
    · intro kind body rest phase hr hf
      obtain ⟨r, hk, rfl⟩ := map_eq_ok hf
      exact .handled hp hr (handle_ok hk)
    · intro kind body e hf
      exact handle_error (map_eq_error hf)
  case h_4 => cases h

theorem expire_effect (h : s.expire = some (a, t)) : Effect cfg p s a t := by
  unfold State.expire at h
  split at h
  case h_1 n q hp =>
    cases h
    have hw : s.phase.waits = some .openConfirm := by rw [hp]; rfl
    exact .failed hw
  case h_2 n q tx hp =>
    split at h
    · cases h
      have hw : s.phase.waits = some .established := by rw [hp]; rfl
      exact .failed hw
    · cases h
  case h_3 => cases h

theorem loop_effect {m : Transmit.Move} (h : s.loop cfg m = some (a, t)) : Effect cfg p s a t := by
  unfold State.loop at h
  split at h
  case h_1 => cases h
  case h_2 => cases h
  case h_3 n q tx m hp _ _ =>
    obtain ⟨⟨b, tx'⟩, -, h⟩ := Option.bind_eq_some_iff.mp h
    cases b with
    | sent msg =>
      exact send_effect (Option.some.inj h) (fun packet hm => .sent hp hm)
    | stop =>
      cases h
      exact .closed
    | _ =>
      cases h
      exact .looped hp
  case h_4 => cases h

/-- Every step is one of the listed effects. -/
theorem Step.effect (h : Step cfg p s a t) : Effect cfg p s a t := by
  obtain ⟨m, h⟩ := h
  cases m with
  | abort =>
    cases h
    exact .closed
  | sendOpen =>
    simp only [step] at h
    split at h
    · rename_i hp
      exact send_effect (Option.some.inj h) (fun packet hm => .opened hp hm)
    · cases h
  | read => exact receive_effect h
  | expire => exact expire_effect h
  | cease =>
    simp only [step] at h
    split at h
    · rename_i hp
      exact send_effect (Option.some.inj h) (fun packet hm => .ceased hp hm)
    · cases h
  | accept linkLocal =>
    simp only [step] at h
    split at h
    · rename_i hp
      cases h
      exact .accepted hp
    · cases h
  | sendKeepalive =>
    simp only [step] at h
    split at h
    · rename_i hp
      exact send_effect (Option.some.inj h) (fun packet hm => .confirming hp hm)
    · cases h
  | establish e t =>
    simp only [step] at h
    split at h
    · rename_i hp
      cases h
      exact .established hp
    · cases h
  | loop m => exact loop_effect h
  | report =>
    simp only [step] at h
    split at h
    · rename_i hp
      exact send_effect (Option.some.inj h) (fun packet hm => .reported hp hm)
    · cases h

end Connection
end Ubgp
