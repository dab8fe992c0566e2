import Ubgp.Bgp.Hold
import Ubgp.Bgp.Rib
import Ubgp.Wire.Negotiation

/-! Two routers of this kind at the two ends of one connection, past their handshakes: what either
of them writes is accepted by the other. -/
namespace Ubgp

variable {kind : UInt8} {body rest stream tail b part : Bytes} {fs gs : List (UInt8 × Bytes)}

/-- The octets of frames in a row. -/
def frameStream (fs : List (UInt8 × Bytes)) : Bytes := fs.flatMap (fun f => frameOctets f.1 f.2)

@[simp]
theorem frameStream_nil : frameStream [] = [] := rfl

@[simp]
theorem frameStream_cons (f : UInt8 × Bytes) (fs : List (UInt8 × Bytes)) :
    frameStream (f :: fs) = frameOctets f.1 f.2 ++ frameStream fs := by
  simp [frameStream]

theorem frameStream_append (fs gs : List (UInt8 × Bytes)) :
    frameStream (fs ++ gs) = frameStream fs ++ frameStream gs := by
  simp [frameStream]

/-- A part of a frame, without its last octet. -/
def Cut (part : Bytes) : Prop :=
  ∃ kind body k, FrameOk kind body ∧ k < body.length + 19 ∧ part = (frameOctets kind body).take k

theorem cut_nil : Cut [] := ⟨KEEPALIVE, [], 0, Session.confirmation_ok, by decide, rfl⟩

/-- The header of a frame announces its length. -/
theorem checkHeader_frameOctets (hf : FrameOk kind body) :
    checkHeader ((frameOctets kind body).take 19) = .ok (kind, body.length + 19) := by
  have hread : readFrame (frameOctets kind body) = .ok ((kind, body), []) :=
    readFrame_eq_ok.mpr ⟨hf, by simp⟩
  have hlen := length_frameOctets kind body
  have hheader : readExact (frameOctets kind body) 19 =
      .ok ((frameOctets kind body).take 19, (frameOctets kind body).drop 19) :=
    if_pos (by omega)
  rw [readFrame_split, hheader, ok_bind] at hread
  obtain ⟨⟨k, len⟩, hcheck, hread⟩ := bind_eq_ok.mp hread
  obtain ⟨⟨body', rest'⟩, hbody, hread⟩ := bind_eq_ok.mp hread
  cases hread
  obtain ⟨hl, -⟩ := readExact_eq_ok.mp hbody
  have hwidth : ((frameOctets kind body).take 19).length = 19 := by
    rw [List.length_take]
    omega
  rcases checkHeader_cases hwidth with ⟨k', hok, hge⟩ | ⟨e, he⟩
  · cases hok.symm.trans hcheck
    rw [hcheck, hl, Nat.sub_add_cancel hge]
  · rw [he] at hcheck
    cases hcheck

/-- A read that returns before the end of a well-formed stream returns its first frame. -/
theorem ready_prefix (hf : FrameOk kind body) (hp : stream <+: frameOctets kind body ++ tail)
    (hr : Hold.ready stream = true) : frameOctets kind body <+: stream := by
  simp only [Hold.ready, Bool.and_eq_true, decide_eq_true_eq] at hr
  obtain ⟨hlen, hr⟩ := hr
  have hhead : stream.take 19 = (frameOctets kind body).take 19 := by
    obtain ⟨more, hmore⟩ := hp
    have htake := congrArg (List.take 19) hmore
    rwa [List.take_append_of_le_length hlen, List.take_append_of_le_length
      (by rw [length_frameOctets]; omega)] at htake
  rw [hhead, checkHeader_frameOctets hf] at hr
  refine List.prefix_of_prefix_length_le (List.prefix_append _ tail) hp ?_
  rw [length_frameOctets]
  exact of_decide_eq_true hr

/-- Frames at the start of a stream of frames are its first frames. -/
theorem frames_prefix (hfs : ∀ f ∈ fs, FrameOk f.1 f.2) (hgs : ∀ g ∈ gs, FrameOk g.1 g.2)
    (hpart : Cut part) (h : frameStream gs ++ part = frameStream fs ++ rest) :
    ∃ hs, gs = fs ++ hs ∧ rest = frameStream hs ++ part := by
  induction fs generalizing gs with
  | nil => exact ⟨gs, rfl, by simpa using h.symm⟩
  | cons f fs ih =>
    have hread : readFrame (frameStream gs ++ part) = .ok (f, frameStream fs ++ rest) :=
      readFrame_eq_ok.mpr ⟨hfs f List.mem_cons_self, by rw [h]; simp⟩
    cases gs with
    | nil =>
      obtain ⟨kind, body, k, hf, hk, rfl⟩ := hpart
      obtain ⟨e, he⟩ := readFrame_take hf hk
      rw [frameStream_nil, List.nil_append, he] at hread
      cases hread
    | cons g gs =>
      have hread' : readFrame (frameStream (g :: gs) ++ part) = .ok (g, frameStream gs ++ part) :=
        readFrame_eq_ok.mpr ⟨hgs g List.mem_cons_self, by simp⟩
      have hsame := Except.ok.inj (hread.symm.trans hread')
      simp only [Prod.mk.injEq] at hsame
      obtain ⟨rfl, -⟩ := hsame
      obtain ⟨hs, rfl, hrest⟩ := ih (fun f hf => hfs f (List.mem_cons_of_mem _ hf))
        (fun g hg => hgs g (List.mem_cons_of_mem _ hg)) (by simpa using h)
      exact ⟨hs, rfl, hrest⟩

/-- A read on frames that are followed by a part of one returns the first of them. -/
theorem read_first (hgs : ∀ g ∈ gs, FrameOk g.1 g.2) (hpart : Cut part)
    (hp : stream <+: frameStream gs ++ part) (hr : Hold.ready stream = true)
    (hone : Session.oneRead stream = true) :
    ∃ g gs', gs = g :: gs' ∧ readFrame stream = .ok (g, []) := by
  have hwhole : ∀ {kind : UInt8} {body tail : Bytes}, FrameOk kind body →
      stream <+: frameOctets kind body ++ tail → readFrame stream = .ok ((kind, body), []) := by
    intro kind body tail hf hp
    obtain ⟨more, hmore⟩ := ready_prefix hf hp hr
    have hread : readFrame stream = .ok ((kind, body), more) :=
      readFrame_eq_ok.mpr ⟨hf, hmore.symm⟩
    simp only [Session.oneRead, hread, beq_iff_eq] at hone
    rw [hread, hone]
  cases gs with
  | nil =>
    obtain ⟨kind, body, k, hf, hk, rfl⟩ := hpart
    rw [frameStream_nil, List.nil_append] at hp
    have hp' : stream <+: frameOctets kind body ++ [] := by
      rw [List.append_nil]
      exact hp.trans (List.take_prefix k _)
    have hread := hwhole hf hp'
    obtain ⟨-, rfl⟩ := readFrame_eq_ok.mp hread
    have hle := hp.length_le
    rw [List.append_nil, List.length_take, length_frameOctets] at hle
    omega
  | cons g gs =>
    rw [frameStream_cons, List.append_assoc] at hp
    exact ⟨g, gs, rfl, hwhole (hgs g List.mem_cons_self) hp⟩

/-- What is checked of an UPDATE depends on the ASN width and the kind of session alone. -/
theorem validateUpdate_congr {n n' : Negotiated} (ha : n.asn4 = n'.asn4)
    (hi : n.internal = n'.internal) (body : Bytes) :
    validateUpdate body n = validateUpdate body n' := by
  have hdiscarded : isDiscarded n = isDiscarded n' := by
    funext kind
    simp only [isDiscarded, ha, hi]
  have hvalue : valueOk n = valueOk n' := by
    funext flags kind data raw
    simp only [valueOk, ha]
  have hread : readAttribute n = readAttribute n' := by
    funext flags kind data raw s
    simp only [readAttribute, hdiscarded, hvalue]
  have hbody : attributeBody n = attributeBody n' := by
    funext attrs s
    simp only [attributeBody, hread]
  have hconclude : conclude n = conclude n' := by
    funext tail s
    simp only [conclude, hi]
  simp only [validateUpdate, hbody, hconclude]

namespace Session

variable {cfg : Config} {p : Peer} {n n' : Negotiated} {s t : State} {a : Label}
  {xs : List Label} {e : Exports} {t₀ : ℕ}

/-- A message that asks for nothing is handled alike at both ends. -/
theorem handle_congr (ha : n.asn4 = n'.asn4) (hi : n.internal = n'.internal)
    (h : handle n kind body = .ok ⟨none, true⟩) : handle n' kind body = .ok ⟨none, true⟩ := by
  have hr : kind ≠ ROUTE_REFRESH := by
    rintro rfl
    rw [handle, if_neg (by decide), if_neg (by decide), if_pos rfl] at h
    obtain ⟨r, -, hr⟩ := bind_eq_ok.mp h
    cases hr
  simp only [handle, validateUpdate_congr ha hi body, if_neg hr] at h ⊢
  exact h

/-- The session has neither failed nor ended. -/
def Phase.speaks : Phase → Bool
  | .reporting _ | .closed => false
  | _ => true

def Phase.ended : Phase → Bool
  | .closed => true
  | _ => false

theorem Phase.not_speaks_of_ended {phase : Phase} (h : phase.ended = true) :
    phase.speaks = false := by
  cases phase <;> first | rfl | cases h

/-- The confirmation of the peer has not been read. -/
def Phase.fresh : Phase → Bool
  | .start | .confirming _ | .waiting _ => true
  | _ => false

/-- The octets a step takes from the connection. -/
def Label.taken : Label → Bytes
  | .received stream => stream
  | _ => []

/-- The octets read so far. -/
def taken (xs : List Label) : Bytes := xs.flatMap Label.taken

theorem taken_snoc : taken (xs ++ [a]) = taken xs ++ a.taken := by
  simp [taken]

theorem fail_speaks (s : State) (e : Fault) : (s.fail e).phase.speaks = false := by
  rcases (fail_over s e).2 with h | ⟨w, h⟩ <;> rw [h] <;> rfl

theorem speaks_of_receive (h : s.receive p n stream = some (a, t)) : s.phase.speaks = true := by
  cases hphase : s.phase <;> first | rfl | simp [State.receive, hphase] at h

/-- What a read does to a session that goes on: the confirmation, or a message that was handled. -/
theorem receive_speaks (h : s.receive p n stream = some (a, t)) (ht : t.phase.speaks = true) :
    a = .received stream ∧ ∃ f rest, readFrame stream = .ok (f, rest) ∧ t.phase.fresh = false := by
  unfold State.receive at h
  split at h
  case h_1 hphase =>
    split at h
    · rename_i hconfirm
      cases h
      unfold confirmFrame at hconfirm
      obtain ⟨⟨f, rest⟩, hread, -⟩ := bind_eq_ok.mp hconfirm
      exact ⟨rfl, f, rest, hread, rfl⟩
    · cases h
      rw [fail_speaks] at ht
      cases ht
  case h_2 hphase =>
    split at h
    · rename_i r hr
      simp only [Option.bind_eq_bind, Option.bind_eq_some_iff, Option.pure_def,
        Option.some.injEq, Prod.mk.injEq] at h
      obtain ⟨tx, -, rfl, rfl⟩ := h
      unfold receiveFrame at hr
      obtain ⟨⟨f, rest⟩, hread, -⟩ := bind_eq_ok.mp hr
      exact ⟨rfl, f, rest, hread, rfl⟩
    · cases h
      rw [fail_speaks] at ht
      cases ht
  case h_3 => cases h

theorem loop_speaks {m : Transmit.Move} {phase : Phase} (h : s.loop p n m phase = some (a, t))
    (ht : t.phase.speaks = true) : a.taken = [] ∧ t.phase = phase := by
  obtain ⟨b, -, rfl, hc | hp⟩ := loop_eq h
  · rw [hc] at ht
    cases ht
  · exact ⟨rfl, hp⟩

theorem begin_speaks {packet : Result Bytes} {phase : Write → Phase}
    (ht : (s.begin p packet phase).phase.speaks = true) :
    ∃ w, (s.begin p packet phase).phase = phase w := by
  unfold State.begin at ht ⊢
  split at ht
  · exact ⟨_, rfl⟩
  · cases ht

/-- A step after which a session goes on read one frame, or nothing. -/
theorem step_listen {m : Move} (h : step cfg p n s m = some (a, t)) (ht : t.phase.speaks = true) :
    s.phase.speaks = true ∧
      ((∃ f, readFrame a.taken = .ok (f, []) ∧ t.phase.fresh = false) ∨
        (a.taken = [] ∧ t.phase.fresh = s.phase.fresh)) := by
  cases m with
  | environment m =>
    have hloop : s.loop p n m s.phase = some (a, t) := by
      cases m <;> first | exact h | cases h
    obtain ⟨ha, hp⟩ := loop_speaks hloop ht
    rw [hp] at ht
    exact ⟨ht, Or.inr ⟨ha, by rw [hp]⟩⟩
  | send =>
    simp only [step] at h
    split at h
    case h_1 hphase =>
      cases h
      obtain ⟨w, hw⟩ := begin_speaks ht
      exact ⟨by rw [hphase]; rfl, Or.inr ⟨rfl, by rw [hw, hphase]; rfl⟩⟩
    case h_2 hphase =>
      simp only [Option.bind_eq_bind, Option.bind_eq_some_iff, Option.pure_def,
        Option.some.injEq, Prod.mk.injEq] at h
      obtain ⟨msg, -, rfl, rfl⟩ := h
      obtain ⟨w, hw⟩ := begin_speaks ht
      exact ⟨by rw [hphase]; rfl, Or.inr ⟨rfl, by rw [hw, hphase]; rfl⟩⟩
    case h_3 => cases h
  | accept k =>
    simp only [step, Option.bind_eq_bind, Option.bind_eq_some_iff] at h
    obtain ⟨w, hw, h⟩ := h
    split at h
    · cases h
      cases hphase : s.phase <;> simp_all [Phase.write, Phase.withWrite, Phase.speaks, Phase.fresh,
        Label.taken]
    · cases h
  | written d o =>
    simp only [step, Option.bind_eq_bind, Option.bind_eq_some_iff,
      Option.ite_none_right_eq_some] at h
    obtain ⟨w, hw, -, h⟩ := h
    unfold State.written at h
    split at h
    case h_1 hphase =>
      cases h
      exact ⟨by rw [hphase]; rfl, Or.inr ⟨rfl, by rw [hphase]; rfl⟩⟩
    case h_2 hphase =>
      obtain ⟨ha, hp⟩ := loop_speaks h ht
      exact ⟨by rw [hphase]; rfl, Or.inr ⟨ha, by rw [hp, hphase]; rfl⟩⟩
    case h_3 =>
      cases h
      cases ht
  | writeExpired | writeFailed =>
    simp only [step, Option.bind_eq_bind, Option.bind_eq_some_iff] at h
    obtain ⟨w, -, h⟩ := h
    split at h
    · cases h
      cases ht
    · cases h
  | poll =>
    simp only [step] at h
    split at h
    case h_1 hphase =>
      cases h
      exact ⟨by rw [hphase]; rfl, Or.inr ⟨rfl, by rw [hphase]; rfl⟩⟩
    case h_2 => cases h
  | receive stream =>
    simp only [step, Option.ite_none_right_eq_some] at h
    obtain ⟨hone, h⟩ := h
    obtain ⟨rfl, f, rest, hread, hfresh⟩ := receive_speaks h ht
    simp only [oneRead, hread, beq_iff_eq] at hone
    exact ⟨speaks_of_receive h, Or.inl ⟨f, by rw [← hone]; exact hread, hfresh⟩⟩
  | readFailed =>
    simp only [step] at h
    split at h
    · cases h
      cases ht
    · cases h
      cases ht
    · cases h
  | expire =>
    simp only [step, State.expire] at h
    split at h
    · split at h
      · cases h
        rw [fail_speaks] at ht
        cases ht
      · cases h
    · split at h
      · cases h
        rw [fail_speaks] at ht
        cases ht
      · cases h
    · cases h
  | loop m =>
    simp only [step] at h
    split at h
    case h_3 => cases h
    all_goals
      rename_i hphase _
      obtain ⟨ha, hp⟩ := loop_speaks h ht
      exact ⟨by rw [hphase]; rfl, Or.inr ⟨ha, by rw [hp, hphase]⟩⟩

theorem loop_not_received {m : Transmit.Move} {phase : Phase} :
    s.loop p n m phase ≠ some (.received stream, t) := by
  intro h
  obtain ⟨b, -, hb, -⟩ := loop_eq h
  cases hb

theorem not_received {m : Move} (hm : ∀ stream, m ≠ .receive stream) :
    step cfg p n s m ≠ some (.received stream, t) := by
  intro h
  cases m with
  | receive stream => exact hm stream rfl
  | environment m =>
    have hloop : s.loop p n m s.phase = some (.received stream, t) := by
      cases m <;> first | exact h | cases h
    exact loop_not_received hloop
  | written d o =>
    simp only [step, Option.bind_eq_bind, Option.bind_eq_some_iff,
      Option.ite_none_right_eq_some] at h
    obtain ⟨w, -, -, h⟩ := h
    unfold State.written at h
    split at h
    · cases h
    · exact loop_not_received h
    · cases h
  | loop m =>
    simp only [step] at h
    split at h
    · exact loop_not_received h
    · exact loop_not_received h
    · cases h
  | send | poll | readFailed =>
    simp only [step] at h
    split at h <;> simp [Option.bind_eq_some_iff] at h
  | accept | writeExpired | writeFailed => simp [step, Option.bind_eq_some_iff] at h
  | expire =>
    simp only [step, State.expire] at h
    split at h
    · split at h <;> simp at h
    · split at h <;> simp at h
    · cases h

theorem taken_eq_nil (h : ∀ stream, a ≠ .received stream) : a.taken = [] := by
  cases a with
  | received stream => exact absurd rfl (h stream)
  | _ => rfl

/-- A read is recorded with what it took, and nothing else takes anything. -/
theorem taken_of_step {m : Move} (h : step cfg p n s m = some (a, t)) :
    (∃ stream, m = .receive stream ∧ a = .received stream ∧ oneRead stream = true) ∨
      ((∀ stream, m ≠ .receive stream) ∧ ∀ stream, a ≠ .received stream) := by
  cases m with
  | receive stream =>
    simp only [step, Option.ite_none_right_eq_some] at h
    refine Or.inl ⟨stream, rfl, ?_, h.1⟩
    have hr := h.2
    unfold State.receive at hr
    split at hr
    · split at hr <;> cases hr <;> rfl
    · split at hr
      · simp only [Option.bind_eq_bind, Option.bind_eq_some_iff, Option.pure_def,
          Option.some.injEq, Prod.mk.injEq] at hr
        obtain ⟨-, -, rfl, -⟩ := hr
        rfl
      · cases hr
        rfl
    · cases hr
  | _ =>
    refine Or.inr ⟨by simp, ?_⟩
    rintro stream rfl
    exact not_received (by simp) h

/-- What a session that goes on has read: whole frames, and none before the confirmation. -/
def Listened (xs : List Label) (s : State) : Prop :=
  s.phase.speaks = true → ∃ fs, taken xs = frameStream fs ∧ (∀ f ∈ fs, FrameOk f.1 f.2) ∧
    (s.phase.fresh = true → fs = [])

theorem listened_of_trace (h : Lts.Trace (Step cfg p n) (init e t₀) xs s) : Listened xs s := by
  refine h.history (P := Listened) ?_ ?_
  · intro _
    exact ⟨[], rfl, by simp, fun _ => rfl⟩
  · rintro xs s a t ih ⟨m, ha⟩ ht
    obtain ⟨hs, hstep⟩ := step_listen ha ht
    obtain ⟨fs, htaken, hfs, hfresh⟩ := ih hs
    rcases hstep with ⟨f, hread, hnew⟩ | ⟨hnone, hsame⟩
    · obtain ⟨hok, hstream⟩ := readFrame_eq_ok.mp hread
      refine ⟨fs ++ [f], ?_, ?_, fun hf => by rw [hnew] at hf; cases hf⟩
      · rw [taken_snoc, htaken, frameStream_append, hstream]
        simp
      · exact List.forall_mem_append.mpr ⟨hfs, by simpa using hok⟩
    · refine ⟨fs, by rw [taken_snoc, hnone, List.append_nil, htaken], hfs, ?_⟩
      rw [hsame]
      exact hfresh

/-- The session after a message that asks for nothing: confirmed, or with its hold timer
restarted. -/
def State.renewed (n : Negotiated) (s : State) : State :=
  { s with phase := match s.phase with
      | .waiting _ => .established none none
      | .established _ w => .established (some (s.tx.now + n.hold * 1000)) w
      | phase => phase }

theorem receive_accepted {f : UInt8 × Bytes} (h : s.receive p n stream = some (a, t))
    (hread : readFrame stream = .ok (f, [])) (hf : handle n f.1 f.2 = .ok ⟨none, true⟩)
    (hfresh : s.phase.fresh = true → f = (KEEPALIVE, [])) :
    t = s.renewed n ∧ ∃ expires w, t.phase = .established expires w := by
  unfold State.receive at h
  split at h
  case h_1 hphase =>
    obtain rfl := hfresh (by rw [hphase]; rfl)
    have hconfirm : confirmFrame stream = .ok () := by
      simp only [confirmFrame, hread, ok_bind]
      rfl
    rw [hconfirm] at h
    cases h
    exact ⟨by simp only [State.renewed, hphase], none, none, rfl⟩
  case h_2 w hphase =>
    have hreceive : receiveFrame n stream = .ok ⟨none, true⟩ := by
      simp only [receiveFrame, hread, ok_bind]
      exact hf
    simp only [hreceive, State.request, Option.bind_eq_bind, Option.bind_some, Option.pure_def,
      Option.some.injEq, Prod.mk.injEq, if_true] at h
    obtain ⟨-, rfl⟩ := h
    exact ⟨by simp only [State.renewed, hphase], _, w, rfl⟩
  case h_3 => cases h

/-- Frames that any router accepts without a reply, the first of them the confirmation. -/
structure Accepted (n : Negotiated) (gs : List (UInt8 × Bytes)) : Prop where
  ok : ∀ g ∈ gs, FrameOk g.1 g.2
  handled : ∀ g ∈ gs, handle n g.1 g.2 = .ok ⟨none, true⟩
  confirms : ∀ g ∈ gs.head?, g = (KEEPALIVE, [])

theorem accepted_nil : Accepted n [] := ⟨by simp, by simp, by simp⟩

theorem accepted_cons (h : ∀ f ∈ fs, FrameOk f.1 f.2 ∧ handle n f.1 f.2 = .ok ⟨none, true⟩) :
    Accepted n ((KEEPALIVE, []) :: fs) where
  ok := List.forall_mem_cons.mpr ⟨confirmation_ok, fun f hf => (h f hf).1⟩
  handled := List.forall_mem_cons.mpr ⟨rfl, fun f hf => (h f hf).2⟩
  confirms := by simp

/-- A session that goes on has written accepted frames and a part of the next one. -/
theorem Spoken.sections {ys : List Transmit.Label} (h : Spoken cfg p n e t₀ xs s ys)
    (ha : Announcing cfg p n) (hplain : ∀ m ∈ Transmit.sends ys, m.Plain n)
    (hout : ∀ m, s.tx.outgoing n = some m → m.Plain n) (hs : s.phase.speaks = true) :
    ∃ gs part, octets xs = frameStream gs ++ part ∧ Cut part ∧ Accepted n gs := by
  have hc := h.carries
  generalize hphase : s.phase = phase at hc hs
  generalize octets xs = b at hc
  cases hc with
  | start => exact ⟨[], [], rfl, cut_nil, accepted_nil⟩
  | @confirming w _ hw =>
    rcases Nat.lt_or_ge w.done 19 with hlt | hge
    · refine ⟨[], w.packet.take w.done, rfl, ?_, accepted_nil⟩
      exact ⟨KEEPALIVE, [], w.done, confirmation_ok, hlt, by rw [hw]; rfl⟩
    · refine ⟨[(KEEPALIVE, [])], [], ?_, cut_nil, accepted_cons (by simp)⟩
      have hlen : w.packet.length ≤ w.done := by
        rw [hw]
        exact hge
      rw [List.take_of_length_le hlen, hw]
      simp [confirmation]
  | waiting =>
    exact ⟨[(KEEPALIVE, [])], [], by simp [confirmation], cut_nil, accepted_cons (by simp)⟩
  | @idle _ packets hms =>
    obtain ⟨fs, hflat, hok, -⟩ := hms.heard ha hplain
    refine ⟨(KEEPALIVE, []) :: fs, [], ?_, cut_nil, accepted_cons hok⟩
    rw [hflat]
    simp [confirmation, frameStream]
  | @writing _ w packets m hms hm hr =>
    obtain ⟨fs, hflat, hok, -⟩ := hms.heard ha hplain
    obtain ⟨kind, body, hrender, hframe, hhandle, -⟩ := Transmit.render_meaning ha (hout m hm)
    have hpacket : w.packet = frameOctets kind body := Except.ok.inj (hr.symm.trans hrender)
    rcases Nat.lt_or_ge w.done (body.length + 19) with hlt | hge
    · refine ⟨(KEEPALIVE, []) :: fs, w.packet.take w.done, ?_, ?_, accepted_cons hok⟩
      · rw [hflat]
        simp [confirmation, frameStream]
      · exact ⟨kind, body, w.done, hframe, hlt, by rw [hpacket]⟩
    · refine ⟨(KEEPALIVE, []) :: (fs ++ [(kind, body)]), [], ?_, cut_nil, accepted_cons ?_⟩
      · rw [hflat, hpacket, List.take_of_length_le (by rw [length_frameOctets]; exact hge)]
        simp [confirmation, frameStream]
      · exact List.forall_mem_append.mpr ⟨hok, by simpa using ⟨hframe, hhandle⟩⟩
  | spent hover => rcases hover with rfl | ⟨w, rfl⟩ <;> cases hs

end Session

/-- One end of a connection: its configuration, what its handshake found and agreed on, and the
exports and the time its session starts with. -/
structure End where
  cfg : Config
  peer : Peer
  linkLocal : Option Ipv6Addr
  negotiated : Negotiated
  exports : Exports
  start : ℕ

namespace Adjacency

/-- `flight i` is what side `i` has written and the other side has not read. -/
structure State where
  session : Bool → Session.State
  flight : Bool → Bytes

/-- A step of one of the sides. -/
abbrev Label := Bool × Session.Label

/-- What a move of side `i` leaves of the octets in flight towards it. A read returns a frame or a
refused header, or fails at the end of what the other side wrote before it closed. -/
def State.unread (u : State) (i : Bool) : Session.Move → Option Bytes
  | .receive stream =>
    if stream <+: u.flight (!i) ∧ (Hold.ready stream = true ∨
        ((u.session (!i)).phase.ended = true ∧ stream = u.flight (!i))) then
      some ((u.flight (!i)).drop stream.length)
    else none
  | _ => some (u.flight (!i))

variable (ends : Bool → End)

def init : State where
  session := fun i => Session.init (ends i).exports (ends i).start
  flight := fun _ => []

/-- The steps of the session on side `i`. -/
def SideStep (i : Bool) : Session.State → Session.Label → Session.State → Prop :=
  Session.Step (ends i).cfg ((ends i).peer.fill (ends i).linkLocal) (ends i).negotiated

def step (u : State) (m : Bool × Session.Move) : Option (Label × State) := do
  let rest ← u.unread m.1 m.2
  let (a, s) ← Session.step (ends m.1).cfg ((ends m.1).peer.fill (ends m.1).linkLocal)
    (ends m.1).negotiated (u.session m.1) m.2
  return ((m.1, a), {
    session := Function.update u.session m.1 s
    flight := fun j => if j = m.1 then u.flight j ++ a.octets else rest })

def Step (u : State) (a : Label) (v : State) : Prop := ∃ m, step ends u m = some (a, v)

/-- The steps of one side. -/
def side (i : Bool) (xs : List Label) : List Session.Label :=
  xs.filterMap (fun x => if x.1 = i then some x.2 else none)

/-- The two ends have accepted each other's OPEN, and route snapshots come from their kernels. -/
structure Met (xs : List Label) : Prop where
  mirrored : Mirrored (ends false).cfg (ends true).cfg (ends false).peer (ends true).peer
  opened : ∀ i, parseOpen (openBody (ends (!i)).cfg (ends (!i)).peer) (ends i).cfg (ends i).peer =
    .ok (ends i).negotiated
  sourced : ∀ i e, e = (ends i).exports ∨ (i, .loop (.publish e)) ∈ xs → Sourced (ends i).cfg e

variable {ends} {xs : List Label} {u v : State} {i : Bool} {a : Session.Label}

theorem side_snoc (xs : List Label) (x : Label) (i : Bool) :
    side i (xs ++ [x]) = side i xs ++ if x.1 = i then [x.2] else [] := by
  unfold side
  rw [List.filterMap_append]
  split <;> simp_all

theorem unread_of_ne {m : Session.Move} (hm : ∀ stream, m ≠ .receive stream) :
    u.unread i m = some (u.flight (!i)) := by
  cases m with
  | receive stream => exact absurd rfl (hm stream)
  | _ => rfl

/-- What one step does: one side moves, and what it reads comes from the front of the flight. -/
theorem Step.effect (h : Step ends u (i, a) v) :
    SideStep ends i (u.session i) a (v.session i) ∧ v.session (!i) = u.session (!i) ∧
      v.flight i = u.flight i ++ a.octets ∧ u.flight (!i) = a.taken ++ v.flight (!i) ∧
      ∀ stream, a = .received stream → Session.oneRead stream = true ∧
        (Hold.ready stream = true ∨ (u.session (!i)).phase.speaks = false) := by
  obtain ⟨⟨j, m⟩, h⟩ := h
  simp only [step, Option.bind_eq_bind, Option.bind_eq_some_iff, Option.pure_def,
    Option.some.injEq, Prod.exists, Prod.mk.injEq] at h
  obtain ⟨rest, hrest, b, s, hs, ⟨rfl, rfl⟩, rfl⟩ := h
  have hne : (!j) ≠ j := by cases j <;> decide
  refine ⟨⟨m, by simpa using hs⟩, by simp [hne], by simp, ?_, ?_⟩
  · rcases Session.taken_of_step hs with ⟨stream, rfl, rfl, -⟩ | ⟨hm, ha⟩
    · simp only [State.unread, Option.ite_none_right_eq_some, Option.some.injEq] at hrest
      obtain ⟨⟨⟨more, hmore⟩, -⟩, rfl⟩ := hrest
      simp [hne, Session.Label.taken, ← hmore]
    · rw [unread_of_ne hm] at hrest
      rw [Session.taken_eq_nil ha]
      simpa [hne] using hrest
  · rintro stream rfl
    rcases Session.taken_of_step hs with ⟨stream', rfl, ha, hone⟩ | ⟨-, ha⟩
    · cases ha
      simp only [State.unread, Option.ite_none_right_eq_some] at hrest
      exact ⟨hone, hrest.1.2.imp_right (fun hend => Session.Phase.not_speaks_of_ended hend.1)⟩
    · exact absurd rfl (ha stream)

theorem step_receive {x : Label} (h : step ends u (i, .receive stream) = some (x, v)) :
    x = (i, .received stream) := by
  simp only [step, Option.bind_eq_bind, Option.bind_eq_some_iff, Option.pure_def,
    Option.some.injEq, Prod.exists, Prod.mk.injEq] at h
  obtain ⟨rest, -, a, s, hs, rfl, -⟩ := h
  rcases Session.taken_of_step hs with ⟨stream', hm, rfl, -⟩ | ⟨hm, -⟩
  · cases hm
    rfl
  · exact absurd rfl (hm stream)

/-- The run seen from either side, and the connection between them. -/
structure Joined (ends : Bool → End) (xs : List Label) (u : State) : Prop where
  run : ∀ i, Lts.Trace (SideStep ends i) (Session.init (ends i).exports (ends i).start)
    (side i xs) (u.session i)
  pipe : ∀ i, Session.octets (side i xs) = Session.taken (side (!i) xs) ++ u.flight i

/-- A side that moves, and the one that does not. -/
theorem forall_sides {P : Bool → Prop} (h : P i) (h' : P (!i)) : ∀ j, P j := by
  intro j
  cases i <;> cases j <;> first | exact h | exact h'

theorem joined_of_trace (h : Lts.Trace (Step ends) (init ends) xs u) : Joined ends xs u := by
  refine h.history (P := Joined ends) ?_ ?_
  · exact ⟨fun i => .refl, fun i => rfl⟩
  · rintro xs u ⟨i, a⟩ v ih hstep
    obtain ⟨hside, hother, hflight, htaken, -⟩ := hstep.effect
    have hne : i ≠ !i := by cases i <;> decide
    have hmoved : side i (xs ++ [(i, a)]) = side i xs ++ [a] := by simp [side_snoc]
    have hstill : side (!i) (xs ++ [(i, a)]) = side (!i) xs := by simp [side_snoc, hne]
    refine ⟨forall_sides (i := i) ?_ ?_, forall_sides (i := i) ?_ ?_⟩
    · rw [hmoved]
      exact .snoc (ih.run i) hside
    · rw [hstill, hother]
      exact ih.run (!i)
    · rw [hmoved, hstill, Session.octets_snoc, ih.pipe i, hflight, List.append_assoc]
    · rw [Bool.not_not, hmoved, hstill, ih.pipe (!i), Bool.not_not, Session.taken_snoc, htaken,
        List.append_assoc]

theorem Met.valid (h : Met ends xs) (i : Bool) :
    (ends i).cfg.validate = .ok () ∧ (ends i).peer ∈ (ends i).cfg.peers := by
  cases i
  · exact ⟨h.mirrored.validA, h.mirrored.memA⟩
  · exact ⟨h.mirrored.validB, h.mirrored.memB⟩

/-- The ends agree on the width of AS numbers and on the kind of their session. -/
theorem Met.agree (h : Met ends xs) (i : Bool) :
    (ends (!i)).negotiated.asn4 = (ends i).negotiated.asn4 ∧
      (ends (!i)).negotiated.internal = (ends i).negotiated.internal := by
  obtain ⟨-, -, hfalse⟩ := (parseOpen_mirrored h.mirrored _).mp (h.opened false)
  obtain ⟨-, -, htrue⟩ := (parseOpen_mirrored h.mirrored.symm _).mp (h.opened true)
  cases i <;> simp [hfalse, htrue, mirroredSession, Bool.beq_comm]

/-- While a side goes on, it has written accepted frames and a part of the next one. -/
theorem written_of_trace (hm : Met ends xs) (h : Joined ends xs u) (i : Bool)
    (hs : (u.session i).phase.speaks = true) :
    ∃ gs part, Session.octets (side i xs) = frameStream gs ++ part ∧ Cut part ∧
      Session.Accepted (ends i).negotiated gs := by
  obtain ⟨hvalid, hmem⟩ := hm.valid i
  obtain ⟨ys, hspoken⟩ := Session.spoken_of_trace (h.run i)
  have hpub : ∀ e, e = (ends i).exports ∨ Session.Label.loop (.publish e) ∈ side i xs →
      Sourced (ends i).cfg e := by
    intro e he
    refine hm.sourced i e (he.imp_right ?_)
    intro hmem
    simpa [side] using hmem
  obtain ⟨hplain, hout⟩ := hspoken.plain hvalid hmem hpub
  have hpeer := (Config.validate_eq_ok.mp hvalid).peers _ hmem
  exact hspoken.sections (announcing_of_open hpeer (hm.opened i) _) hplain hout hs

/-- While the other side has neither failed nor ended, every read of a router of this kind returns
a message that it accepts without a reply, whatever the two have published, written and read so
far and however the octets were cut: the read confirms the session or restarts its hold timer. -/
theorem messages_accepted (hm : Met ends xs) (h : Lts.Trace (Step ends) (init ends) xs u)
    (hs : Step ends u (i, .received stream) v) (hspeaks : (u.session (!i)).phase.speaks = true) :
    v.session i = (u.session i).renewed (ends i).negotiated ∧
      ∃ expires w, (v.session i).phase = .established expires w := by
  have hjoined := joined_of_trace h
  obtain ⟨⟨m, hstep⟩, -, -, hflight, hread⟩ := hs.effect
  obtain ⟨hone, hready⟩ := hread stream rfl
  have hready := hready.resolve_right (by simp [hspeaks])
  obtain ⟨gs, part, hgs, hcut, haccepted⟩ := written_of_trace hm hjoined (!i) hspeaks
  obtain ⟨stream', rfl, hsame, -⟩ | ⟨-, hne⟩ := Session.taken_of_step hstep
  swap
  · exact absurd rfl (hne stream)
  cases hsame
  simp only [Session.step, hone, if_true] at hstep
  obtain ⟨fs, htaken, hfs, hfresh⟩ :=
    Session.listened_of_trace (hjoined.run i) (Session.speaks_of_receive hstep)
  have hpipe := hjoined.pipe (!i)
  rw [Bool.not_not, htaken, hgs] at hpipe
  obtain ⟨hs', rfl, hrest⟩ := frames_prefix hfs haccepted.ok hcut hpipe
  have hfront : stream <+: frameStream hs' ++ part := by
    rw [← hrest, hflight]
    exact List.prefix_append _ _
  have hok : ∀ g ∈ hs', FrameOk g.1 g.2 :=
    fun g hg => haccepted.ok g (List.mem_append_right _ hg)
  obtain ⟨g, hs'', rfl, hread⟩ := read_first hok hcut hfront hready hone
  obtain ⟨hasn4, hinternal⟩ := hm.agree i
  have hhandled := Session.handle_congr hasn4 hinternal
    (haccepted.handled g (List.mem_append_right _ List.mem_cons_self))
  refine Session.receive_accepted hstep hread hhandled ?_
  intro hnew
  rw [hfresh hnew] at haccepted
  exact haccepted.confirms g rfl

/-- The routers of the examples; only the first one has something to announce. -/
def exampleEnds : Bool → End
  | false => ⟨exampleConfig, examplePeer, none, Transmit.leakSession, Transmit.permittedExports, 0⟩
  | true => ⟨remoteConfig, remotePeer, none,
      mirroredSession remoteConfig exampleConfig remotePeer examplePeer, ∅, 0⟩

/-- Both sides write their confirmation, the second one octet first. -/
def confirmingMoves : List (Bool × Session.Move) :=
  [(true, .send), (true, .accept 1), (false, .send), (false, .accept 19),
    (false, .written 0 ⟨[], []⟩), (true, .accept 18)]

theorem confirmingMoves_exec :
    (Lts.exec (step exampleEnds) confirmingMoves (init exampleEnds)).map (fun r =>
      ((step exampleEnds r.2 (false, .receive (frameOctets KEEPALIVE []))).isSome,
        (r.2.session true).phase.speaks, r.1.any (fun x => x.2.isPublish))) =
      some (true, true, false) := by
  decide +kernel

theorem example_met {xs : List Label} (h : xs.any (fun x => x.2.isPublish) = false) :
    Met exampleEnds xs where
  mirrored := example_mirrored
  opened := by
    intro i
    cases i with
    | false =>
      exact (parseOpen_mirrored example_mirrored _).mpr
        ⟨fun he => absurd he.2 (by decide), Or.inl ⟨rfl, rfl⟩, rfl⟩
    | true =>
      exact (parseOpen_mirrored example_mirrored.symm _).mpr
        ⟨fun he => absurd he.2 (by decide), Or.inl ⟨rfl, rfl⟩, rfl⟩
  sourced := by
    rintro i e (rfl | hmem)
    · cases i with
      | false => exact Transmit.permittedExports_sourced
      | true => exact Or.inl rfl
    · have hany : xs.any (fun x => x.2.isPublish) = true :=
        List.any_eq_true.mpr ⟨_, hmem, rfl⟩
      rw [h] at hany
      cases hany

theorem example_messages_accepted : ∃ xs u v,
    Lts.Trace (Step exampleEnds) (init exampleEnds) xs u ∧
      Step exampleEnds u (false, .received (frameOctets KEEPALIVE [])) v ∧
      ∃ expires w, (v.session false).phase = .established expires w := by
  obtain ⟨⟨xs, u⟩, hr, he⟩ := Option.map_eq_some_iff.mp confirmingMoves_exec
  simp only [Prod.mk.injEq] at he
  obtain ⟨hsome, hspeaks, hsilent⟩ := he
  obtain ⟨⟨x, v⟩, hv⟩ := Option.isSome_iff_exists.mp hsome
  obtain rfl := step_receive hv
  have htrace : Lts.Trace (Step exampleEnds) (init exampleEnds) xs u := Lts.exec_trace hr
  have hstep : Step exampleEnds u (false, .received (frameOctets KEEPALIVE [])) v := ⟨_, hv⟩
  exact ⟨xs, u, v, htrace, hstep, (messages_accepted (example_met hsilent) htrace hstep hspeaks).2⟩

end Adjacency
end Ubgp
