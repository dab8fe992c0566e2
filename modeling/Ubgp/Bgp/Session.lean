import Ubgp.Bgp.Transmit
import Ubgp.Wire.Frame
import Ubgp.Wire.Validate

/-! A session from OpenConfirm on (`session`, `receive` and `report` in `bgp.rs`).

The transmit half is the export loop; here its writes make progress octet by octet and the receive
half runs beside it. Times are in milliseconds. -/
namespace Ubgp

/-- An omitted link-local next hop is filled from the interface. -/
def Peer.fill (p : Peer) (linkLocal : Option Ipv6Addr) : Peer :=
  if p.ipv6 && p.nextHopV6LinkLocal.isNone then { p with nextHopV6LinkLocal := linkLocal } else p

namespace Session

/-- The octets of a message of the export loop. -/
def render (cfg : Config) (p : Peer) (n : Negotiated) : Transmit.Send → Result Bytes
  | .keepalive => frame KEEPALIVE []
  | .update withdraw batch => update cfg p n batch withdraw
  | .endOfRib v6 => endOfRib v6

/-- What a received message asks for: a refresh, and a restart of the hold timer. -/
structure Handled where
  refresh : Option Bool
  reset : Bool

/-- Handle one message. A recovered UPDATE is decoded again for the log. -/
def handle (n : Negotiated) (kind : UInt8) (body : Bytes) : Result Handled :=
  if kind = KEEPALIVE then .ok ⟨none, true⟩
  else if kind = UPDATE then do
    let action ← validateUpdate body n
    if action = .valid then return ⟨none, true⟩
    else
      let _ ← updatePrefixes body
      let _ ← frame UPDATE body
      return ⟨none, true⟩
  else if kind = ROUTE_REFRESH then do
    return ⟨← refreshFamily body n, false⟩
  else .error (unexpected .established kind body)

/-- No octet is taken beyond the frame that was read. -/
def oneRead (stream : Bytes) : Bool :=
  match readFrame stream with
  | .ok (_, rest) => rest == []
  | .error _ => true

/-- One round of `receive` on what the peer sends before the read returns. -/
def receiveFrame (n : Negotiated) (stream : Bytes) : Result Handled := do
  let ((kind, body), _) ← readFrame stream
  handle n kind body

/-- The wait for the KEEPALIVE that confirms the OPEN. -/
def confirmFrame (stream : Bytes) : Result Unit := do
  let ((kind, body), _) ← readFrame stream
  if kind = KEEPALIVE then return () else throw (unexpected .openConfirm kind body)

/-- A `write_all` under a deadline, with the octets the connection has taken. -/
structure Write where
  packet : Bytes
  done : ℕ
  deadline : ℕ

/-- Some but not all of the frame was written. -/
def Write.cut (w : Write) : Bool := decide (0 < w.done ∧ w.done < w.packet.length)

/-- `expires` is set at the first poll of the receive half. -/
inductive Phase
  | start
  | confirming (w : Write)
  | waiting (deadline : ℕ)
  | established (expires : Option ℕ) (writing : Option Write)
  | reporting (w : Write)
  | closed

namespace Phase

/-- The write in progress. -/
def write : Phase → Option Write
  | .confirming w => some w
  | .established _ w => w
  | .reporting w => some w
  | _ => none

def withWrite (w : Write) : Phase → Phase
  | .confirming _ => .confirming w
  | .established expires _ => .established expires (some w)
  | .reporting _ => .reporting w
  | phase => phase

end Phase

structure State where
  phase : Phase
  tx : Transmit.State

def init (e : Exports) (t : ℕ) : State := ⟨.start, Transmit.init e t⟩

inductive Label
  | wrote (packet : Bytes) (start count : ℕ)
  | received (stream : Bytes)
  | expired
  | loop (a : Transmit.Label)
  | tau

/-- `stream` is what the peer sends until a read returns: a frame, a rejected header, or the
octets before the end of the connection. -/
inductive Move
  | environment (m : Transmit.Move)
  | send
  | accept (count : ℕ)
  | written (d : ℕ) (o : Transmit.Orders)
  | writeExpired
  | writeFailed
  | poll
  | receive (stream : Bytes)
  | readFailed
  | expire
  | loop (m : Transmit.Move)

namespace State
variable (cfg : Config) (p : Peer) (n : Negotiated) (s : State)

def cut : Bool := s.phase.write.any Write.cut

def close : State := { s with phase := .closed }

def newWrite (packet : Bytes) (seconds : ℕ) : Write := ⟨packet, 0, s.tx.now + seconds * 1000⟩

/-- Leave with an error: `report` writes a NOTIFICATION for protocol errors only, within a
second. The half that did not end is dropped wherever it stands. -/
def fail : Fault → State
  | .protocol e =>
    match notification e.code e.subcode e.data with
    | .ok packet => { s with phase := .reporting (s.newWrite packet 1) }
    | .error _ => s.close
  | _ => s.close

/-- Begin to write a packet; a panic of the encoder ends the task. -/
def begin (packet : Result Bytes) (phase : Write → Phase) : State :=
  match packet with
  | .ok packet => { s with phase := phase (s.newWrite packet p.writeTimeoutSecs) }
  | .error _ => s.close

def confirmMs : ℕ := (if n.hold = 0 then p.connectTimeoutSecs else n.hold) * 1000

/-- A step of the export loop that is not its environment's. -/
def loop (m : Transmit.Move) (phase : Phase) : Option (Label × State) := do
  let (a, tx) ← Transmit.step n p.exportAcl s.tx m
  return (.loop a, ⟨match a with | .stop => .closed | _ => phase, tx⟩)

/-- `Refresh::request`. -/
def request : Option Bool → Option Transmit.State
  | none => some s.tx
  | some v6 => do
    let (_, tx) ← Transmit.step n p.exportAcl s.tx (.request v6)
    let (_, tx) ← Transmit.step n p.exportAcl tx .notify
    return tx

/-- A read returned. -/
def receive (stream : Bytes) : Option (Label × State) :=
  match s.phase with
  | .waiting _ =>
    match confirmFrame stream with
    | .ok () => some (.received stream, { s with phase := .established none none })
    | .error e => some (.received stream, s.fail e)
  | .established (some t) w =>
    match receiveFrame n stream with
    | .ok r => do
      let tx ← s.request p n r.refresh
      return (.received stream,
        ⟨.established (some (if r.reset then s.tx.now + n.hold * 1000 else t)) w, tx⟩)
    | .error e => some (.received stream, s.fail e)
  | _ => none

/-- A write returned successfully. -/
def written (d : ℕ) (o : Transmit.Orders) : Option (Label × State) :=
  match s.phase with
  | .confirming _ => some (.tau, { s with phase := .waiting (s.tx.now + confirmMs p n) })
  | .established expires _ => s.loop p n (.run d o) (.established expires none)
  | _ => some (.tau, s.close)

/-- The wait for the confirmation or the hold timer ran out. -/
def expire : Option (Label × State) :=
  match s.phase with
  | .waiting deadline =>
    if deadline ≤ s.tx.now then
      some (.expired, s.fail (.protocol
        ⟨if n.hold = 0 then 5 else 4, 0, [], "OpenConfirm timeout"⟩))
    else none
  | .established (some t) _ =>
    if n.hold ≠ 0 ∧ t ≤ s.tx.now then
      some (.expired, s.fail (.protocol ⟨4, 0, [], "hold timer expired"⟩))
    else none
  | _ => none

end State

variable (cfg : Config) (p : Peer) (n : Negotiated)

def step (s : State) : Move → Option (Label × State)
  | .environment m =>
    match m with
    | .publish _ | .tick _ | .close => s.loop p n m s.phase
    | _ => none
  | .send =>
    match s.phase with
    | .start => some (.tau, s.begin p (frame KEEPALIVE []) .confirming)
    | .established expires none => do
      let m ← s.tx.outgoing n
      return (.tau, s.begin p (render cfg p n m) (fun w => .established expires (some w)))
    | _ => none
  | .accept count => do
    let w ← s.phase.write
    if 0 < count ∧ w.done + count ≤ w.packet.length then
      return (.wrote w.packet w.done count,
        { s with phase := s.phase.withWrite { w with done := w.done + count } })
    else none
  | .written d o => do
    let w ← s.phase.write
    if w.done = w.packet.length then s.written p n d o else none
  | .writeExpired => do
    let w ← s.phase.write
    if w.deadline ≤ s.tx.now ∧ w.done < w.packet.length then return (.tau, s.close) else none
  | .writeFailed => do
    let w ← s.phase.write
    if w.done < w.packet.length then return (.tau, s.close) else none
  | .poll =>
    match s.phase with
    | .established none w =>
      some (.tau, { s with phase := .established (some (s.tx.now + n.hold * 1000)) w })
    | _ => none
  | .receive stream => if oneRead stream then s.receive p n stream else none
  | .readFailed =>
    match s.phase with
    | .waiting _ | .established (some _) _ => some (.tau, s.close)
    | _ => none
  | .expire => s.expire n
  | .loop m =>
    match s.phase, m, s.tx.outgoing n with
    | .established expires none, .run _ _, none | .established expires none, .wake _ _ _, none =>
      s.loop p n m (.established expires none)
    | _, _, _ => none

def Step (s : State) (a : Label) (t : State) : Prop := ∃ m, step cfg p n s m = some (a, t)

/-- The octets a step puts on the connection. -/
def Label.octets : Label → Bytes
  | .wrote packet start count => (packet.drop start).take count
  | _ => []

/-- The frame whose first octets a step puts on the connection. -/
def Label.opened : Label → Option Bytes
  | .wrote packet start _ => if start = 0 then some packet else none
  | _ => none

def Label.Silent (a : Label) : Prop := a.octets = [] ∧ a.opened = none

/-- The receive half ends with a protocol error on this input. -/
def rejects (n : Negotiated) (stream : Bytes) : Bool :=
  match receiveFrame n stream with
  | .error (.protocol _) => true
  | _ => false

/-- What a step does to the connection. -/
inductive Effect (n : Negotiated) (s : State) : Label → State → Prop
  | keep {a : Label} {t : State} (ha : a.Silent) (hw : t.phase.write = s.phase.write)
      (hc : s.phase = .closed → t.phase = .closed) : Effect n s a t
  | wrote {t : State} {w : Write} {k : ℕ} (hw : s.phase.write = some w) (hk : 0 < k)
      (hle : w.done + k ≤ w.packet.length)
      (ht : t.phase.write = some { w with done := w.done + k }) :
      Effect n s (.wrote w.packet w.done k) t
  | finished {a : Label} {t : State} {w : Write} (ha : a.Silent) (hw : s.phase.write = some w)
      (hdone : w.done = w.packet.length) (ht : t.phase.write = none) : Effect n s a t
  | began {a : Label} {t : State} {w : Write} (ha : a.Silent) (hidle : s.phase.write = none)
      (hopen : s.phase ≠ .closed) (ht : t.phase.write = some w) (h₀ : w.done = 0)
      (hf : WellFormedFrame w.packet) : Effect n s a t
  | reported {a : Label} {t : State} {w : Write}
      (ha : a = .expired ∨ ∃ stream, a = .received stream ∧ rejects n stream = true)
      (hopen : s.phase ≠ .closed) (ht : t.phase.write = some w) (h₀ : w.done = 0)
      (hf : WellFormedFrame w.packet) : Effect n s a t
  | closed {a : Label} {t : State} (ha : a.Silent) (ht : t.phase = .closed) : Effect n s a t

variable {cfg p n} {s t : State} {a : Label}

/-- A session that fails has closed, or has begun to write a NOTIFICATION. -/
theorem fail_cases (s : State) (e : Fault) : (s.fail e).phase = .closed ∨
    ∃ w, (s.fail e).phase = .reporting w ∧ w.done = 0 ∧ WellFormedFrame w.packet ∧
      ∃ e', e = .protocol e' := by
  cases e with
  | protocol e =>
    simp only [State.fail]
    split
    · rename_i packet h
      exact Or.inr ⟨_, rfl, rfl, notification_wellFormed h, e, rfl⟩
    · exact Or.inl rfl
  | other | panic => exact Or.inl rfl

theorem render_wellFormed {m : Transmit.Send} {packet : Bytes}
    (h : render cfg p n m = .ok packet) : WellFormedFrame packet := by
  cases m with
  | keepalive => exact keepalive_wellFormed h
  | update withdraw batch => exact update_wellFormed h
  | endOfRib v6 => exact endOfRib_wellFormed h

theorem begin_effect {packet : Result Bytes} {phase : Write → Phase}
    (hp : ∀ w, (phase w).write = some w) (hf : ∀ m, packet = .ok m → WellFormedFrame m)
    (hidle : s.phase.write = none) (hopen : s.phase ≠ .closed) :
    Effect n s .tau (s.begin p packet phase) := by
  unfold State.begin
  split
  · rename_i m
    exact .began ⟨rfl, rfl⟩ hidle hopen (hp _) rfl (hf m rfl)
  · exact .closed ⟨rfl, rfl⟩ rfl

theorem loop_effect {m : Transmit.Move} {phase : Phase} (h : s.loop p n m phase = some (a, t)) :
    a.Silent ∧ (t.phase = .closed ∨ t.phase = phase) := by
  simp only [State.loop, Option.bind_eq_bind, Option.bind_eq_some_iff, Option.pure_def,
    Option.some.injEq, Prod.exists, Prod.mk.injEq] at h
  obtain ⟨b, tx, -, rfl, rfl⟩ := h
  refine ⟨⟨rfl, rfl⟩, ?_⟩
  split
  · exact Or.inl rfl
  · exact Or.inr rfl

theorem receive_effect {stream : Bytes} (h : s.receive p n stream = some (a, t)) :
    Effect n s a t := by
  unfold State.receive at h
  split at h
  case h_1 hphase =>
    split at h
    · cases h
      exact .keep ⟨rfl, rfl⟩ (by rw [hphase]; rfl) (by simp [hphase])
    · rename_i e he
      cases h
      rcases fail_cases s e with hc | ⟨w, hw, h₀, hf, -⟩
      · exact .closed ⟨rfl, rfl⟩ hc
      · exact .began ⟨rfl, rfl⟩ (by rw [hphase]; rfl) (by simp [hphase]) (by rw [hw]; rfl) h₀ hf
  case h_2 hphase =>
    split at h
    · simp only [Option.bind_eq_bind, Option.bind_eq_some_iff, Option.pure_def,
        Option.some.injEq, Prod.mk.injEq] at h
      obtain ⟨tx, -, rfl, rfl⟩ := h
      exact .keep ⟨rfl, rfl⟩ (by rw [hphase]; rfl) (by simp [hphase])
    · rename_i e he
      cases h
      rcases fail_cases s e with hc | ⟨w, hw, h₀, hf, e', rfl⟩
      · exact .closed ⟨rfl, rfl⟩ hc
      · exact .reported (Or.inr ⟨stream, rfl, by simp [rejects, he]⟩) (by simp [hphase])
          (by rw [hw]; rfl) h₀ hf
  case h_3 => cases h

theorem written_effect {w : Write} {d : ℕ} {o : Transmit.Orders} (hw : s.phase.write = some w)
    (hdone : w.done = w.packet.length) (h : s.written p n d o = some (a, t)) :
    Effect n s a t := by
  unfold State.written at h
  split at h
  case h_1 =>
    cases h
    exact .finished ⟨rfl, rfl⟩ hw hdone rfl
  case h_2 =>
    obtain ⟨ha, hc | ht⟩ := loop_effect h
    · exact .closed ha hc
    · exact .finished ha hw hdone (by rw [ht]; rfl)
  case h_3 =>
    cases h
    exact .closed ⟨rfl, rfl⟩ rfl

theorem expire_effect (h : s.expire n = some (a, t)) : Effect n s a t := by
  have key : ∀ e, s.phase ≠ .closed → Effect n s .expired (s.fail e) := by
    intro e hopen
    rcases fail_cases s e with hc | ⟨w, hw, h₀, hf, -⟩
    · exact .closed ⟨rfl, rfl⟩ hc
    · exact .reported (Or.inl rfl) hopen (by rw [hw]; rfl) h₀ hf
  unfold State.expire at h
  split at h
  case h_1 hphase =>
    split at h
    · cases h
      exact key _ (by simp [hphase])
    · cases h
  case h_2 hphase =>
    split at h
    · cases h
      exact key _ (by simp [hphase])
    · cases h
  case h_3 => cases h

theorem write_withWrite {w : Write} {phase : Phase} (h : phase.write = some w) (w' : Write) :
    (phase.withWrite w').write = some w' := by
  cases phase <;> first | rfl | cases h

/-- Every step is one of the listed effects. -/
theorem Step.effect (h : Step cfg p n s a t) : Effect n s a t := by
  obtain ⟨m, h⟩ := h
  cases m with
  | environment m =>
    have hloop : s.loop p n m s.phase = some (a, t) := by
      cases m <;> first | exact h | cases h
    obtain ⟨ha, hc | ht⟩ := loop_effect hloop
    · exact .closed ha hc
    · exact .keep ha (by rw [ht]) (fun hs => by rw [ht, hs])
  | send =>
    simp only [step] at h
    split at h
    case h_1 hphase =>
      cases h
      exact begin_effect (fun _ => rfl) (fun _ hm => keepalive_wellFormed hm) (by rw [hphase]; rfl)
        (by simp [hphase])
    case h_2 hphase =>
      simp only [Option.bind_eq_bind, Option.bind_eq_some_iff, Option.pure_def,
        Option.some.injEq, Prod.mk.injEq] at h
      obtain ⟨m, -, rfl, rfl⟩ := h
      exact begin_effect (fun _ => rfl) (fun _ hm => render_wellFormed hm) (by rw [hphase]; rfl)
        (by simp [hphase])
    case h_3 => cases h
  | accept k =>
    simp only [step, Option.bind_eq_bind, Option.bind_eq_some_iff] at h
    obtain ⟨w, hw, h⟩ := h
    split at h
    · rename_i hk
      cases h
      exact .wrote hw hk.1 hk.2 (write_withWrite hw _)
    · cases h
  | written d o =>
    simp only [step, Option.bind_eq_bind, Option.bind_eq_some_iff,
      Option.ite_none_right_eq_some] at h
    obtain ⟨w, hw, hdone, h⟩ := h
    exact written_effect hw hdone h
  | writeExpired =>
    simp only [step, Option.bind_eq_bind, Option.bind_eq_some_iff] at h
    obtain ⟨w, -, h⟩ := h
    split at h
    · cases h
      exact .closed ⟨rfl, rfl⟩ rfl
    · cases h
  | writeFailed =>
    simp only [step, Option.bind_eq_bind, Option.bind_eq_some_iff] at h
    obtain ⟨w, -, h⟩ := h
    split at h
    · cases h
      exact .closed ⟨rfl, rfl⟩ rfl
    · cases h
  | poll =>
    simp only [step] at h
    split at h
    case h_1 hphase =>
      cases h
      exact .keep ⟨rfl, rfl⟩ (by rw [hphase]; rfl) (by simp [hphase])
    case h_2 => cases h
  | receive stream =>
    simp only [step, Option.ite_none_right_eq_some] at h
    exact receive_effect h.2
  | readFailed =>
    simp only [step] at h
    split at h
    · cases h
      exact .closed ⟨rfl, rfl⟩ rfl
    · cases h
      exact .closed ⟨rfl, rfl⟩ rfl
    · cases h
  | expire => exact expire_effect h
  | loop m =>
    simp only [step] at h
    split at h
    case h_3 => cases h
    all_goals
      rename_i hphase _
      obtain ⟨ha, hc | ht⟩ := loop_effect h
      · exact .closed ha hc
      · exact .keep ha (by rw [ht, hphase]) (by simp [hphase])

end Session
end Ubgp
