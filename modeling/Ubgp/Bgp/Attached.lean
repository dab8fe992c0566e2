import Ubgp.Bgp.Handshake
import Ubgp.Bgp.PeerLoop

/-! What the session of a worker has behind it: a handshake with the peer, and a run that its
connection carries. -/
namespace Ubgp
namespace Transmit

variable {n : Negotiated} {acl : String} {s t : State} {a : Label} {d : ℕ} {o : Orders}

/-- The labels of the loop's own sections. -/
def Label.inner : Label → Bool
  | .adopt _ | .swap _ | .sent _ | .tau | .stop => true
  | _ => false

theorem run_inner (h : step n acl s (.run d o) = some (a, t)) : a.inner = true := by
  change s.advance n acl d o = some (a, t) at h
  unfold State.advance at h
  split at h
  case h_1 =>
    simp only [State.begin, Option.bind_eq_bind, Option.bind_eq_some_iff, Option.pure_def,
      Option.some.injEq, Prod.mk.injEq] at h
    obtain ⟨_, -, rfl, -⟩ := h
    rfl
  case h_2 =>
    unfold State.replanSection at h
    split at h
    · cases h
      rfl
    · split at h
      · simp only [Option.bind_eq_bind, Option.bind_eq_some_iff, Option.pure_def,
          Option.some.injEq, Prod.mk.injEq] at h
        obtain ⟨_, -, rfl, -⟩ := h
        rfl
      · cases h
        rfl
  case h_3 =>
    simp only [State.refreshSection] at h
    split at h
    · simp only [Option.bind_eq_bind, Option.bind_eq_some_iff, Option.pure_def, Option.some.injEq,
        Prod.mk.injEq] at h
      obtain ⟨_, -, rfl, -⟩ := h
      rfl
    · cases h
      rfl
  case h_4 =>
    unfold State.keepaliveSection at h
    split at h <;> cases h <;> rfl
  case h_5 =>
    unfold State.batchSection at h
    split at h <;> cases h <;> rfl
  case h_6 =>
    cases h
    split <;> rfl
  case h_7 =>
    cases h
    split <;> rfl
  case h_8 =>
    cases h
    rfl
  case h_9 => cases h
  case h_10 => cases h

theorem wake_inner {branch : Branch} (h : step n acl s (.wake branch d o) = some (a, t)) :
    a.inner = true := by
  simp only [step] at h
  split at h
  · cases branch with
    | changed =>
      simp only [State.wake] at h
      split at h
      · simp only [Option.bind_eq_bind, Option.bind_eq_some_iff, Option.pure_def,
          Option.some.injEq, Prod.mk.injEq] at h
        obtain ⟨_, -, rfl, -⟩ := h
        rfl
      · split at h <;> cases h
        rfl
    | notified | cooldown | keepalive =>
      simp only [State.wake] at h
      split at h <;> cases h
      rfl
  · cases h

/-- The loop's own sections leave the senders of its channel alone. -/
theorem inner_step (ha : a.inner = true) (h : Step n acl s a t) :
    t.channel.value = s.channel.value ∧ t.closed = s.closed := by
  have hvalue : t.channel.value = s.channel.value := by
    rw [channel_step h]
    cases a <;> first | rfl | cases ha
  refine ⟨hvalue, ?_⟩
  cases h.effect with
  | publish | request | notify | tick | close => cases ha
  | begin _ ht | replan _ _ _ _ ht | changed _ _ ht =>
    obtain ⟨plan, -, rfl⟩ := adopt_spec ht
    rfl
  | swap _ _ _ _ ht =>
    obtain ⟨plan, -, rfl⟩ := withPlan_spec ht
    rfl
  | batch => rfl
  | _ => rfl

variable {e : Exports} {t₀ : ℕ} {xs : List Label} {p : IpNet}

/-- The snapshots of a run hold the prefix for this ACL, and its family was negotiated. -/
def Granted (n : Negotiated) (acl : String) (e : Exports) (xs : List Label) (p : IpNet) : Prop :=
  n.enabled p = true ∧ ∃ e', (e' = e ∨ Label.publish e' ∈ xs) ∧ p ∈ desired e' acl

theorem Granted.snoc (h : Granted n acl e xs p) : Granted n acl e (xs ++ [a]) p := by
  obtain ⟨hen, e', he, hp⟩ := h
  exact ⟨hen, e', he.imp_right (List.mem_append_left _), hp⟩

/-- Nothing is targeted before the loop starts. -/
theorem target_start (h : Lts.Trace (Step n acl) (init e t₀) xs s) :
    s.pc = .start → s.target = ∅ := by
  refine h.invariant (P := fun s => s.pc = .start → s.target = ∅) (fun _ => rfl) ?_
  intro s b t hs hb ht
  cases hb.effect with
  | publish | request | notify | tick | close => exact hs ht
  | batch => cases ht
  | _ => cases ht

/-- A prefix of the next announcement comes from a snapshot of the run. -/
theorem granted_next {batch : List IpNet} {plan : Plan}
    (h : Lts.Trace (Step n acl) (init e t₀) xs s)
    (hn : s.plan.next = some ((false, batch), plan)) (hp : p ∈ batch) : Granted n acl e xs p := by
  obtain ⟨-, hsub, -⟩ := ((Synced.of_trace h).plan.batch_mem hn).resolve_left (by simp)
  have hadd := Reconcile.mem_adds.mp (hsub (List.mem_toFinset.mpr hp))
  obtain ⟨htarget, hen⟩ := Negotiated.mem_gate.mp hadd.1
  refine ⟨hen, ?_⟩
  rcases target_of_trace h with hpc | ⟨e', he', ht⟩
  · rw [target_start h hpc] at htarget
    cases htarget
  · exact ⟨e', adopted_mem h he', ht ▸ htarget⟩

/-- Whatever is advertised comes from a snapshot of the run. -/
theorem granted_of_trace (h : Lts.Trace (Step n acl) (init e t₀) xs s) :
    ∀ p ∈ s.advertised, Granted n acl e xs p := by
  induction h with
  | refl => exact fun p hp => by cases hp
  | @snoc s t xs a h ha ih =>
    intro p hp
    rw [advertised_step ha] at hp
    cases a with
    | sent m =>
      cases m with
      | update withdraw batch =>
        cases withdraw with
        | true => exact (ih p (Finset.mem_sdiff.mp hp).1).snoc
        | false =>
          rcases Finset.mem_union.mp hp with hp | hp
          · exact (ih p hp).snoc
          · obtain ⟨-, plan, hn⟩ := update_next ha
            exact (granted_next h hn (List.mem_toFinset.mp hp)).snoc
      | keepalive | endOfRib => exact (ih p hp).snoc
    | _ => exact (ih p hp).snoc

/-- The same with the message that is about to be sent applied. -/
theorem granted_outgoing {m : Send} (h : Lts.Trace (Step n acl) (init e t₀) xs s)
    (hm : s.outgoing n = some m) :
    ∀ p ∈ applyBatch s.advertised (.sent m), Granted n acl e xs p := by
  intro p hp
  have hadv := granted_of_trace h
  cases m with
  | update withdraw batch =>
    cases withdraw with
    | true => exact hadv p (Finset.mem_sdiff.mp hp).1
    | false =>
      rcases Finset.mem_union.mp hp with hp | hp
      · exact hadv p hp
      · unfold State.outgoing at hm
        split at hm
        case h_2 =>
          obtain ⟨⟨⟨withdraw', batch'⟩, plan⟩, hnext, hmsg⟩ := Option.map_eq_some_iff.mp hm
          cases hmsg
          exact granted_next h hnext (List.mem_toFinset.mp hp)
        all_goals simp at hm
  | keepalive | endOfRib => exact hadv p hp

end Transmit

namespace Session

variable {cfg : Config} {p : Peer} {n : Negotiated} {s t : State} {a : Label} {m : Move}

theorem loop_inner {m : Transmit.Move} {phase : Phase}
    (hm : ∀ b tx, Transmit.step n p.exportAcl s.tx m = some (b, tx) → b.inner = true)
    (h : s.loop p n m phase = some (a, t)) :
    t.tx.channel.value = s.tx.channel.value ∧ t.tx.closed = s.tx.closed ∧
      ∀ e, a ≠ .loop (.publish e) := by
  obtain ⟨b, hstep, rfl, -⟩ := loop_eq h
  have hb := hm _ _ hstep
  obtain ⟨hvalue, hclosed⟩ := Transmit.inner_step hb ⟨_, hstep⟩
  refine ⟨hvalue, hclosed, ?_⟩
  rintro e he
  cases he
  cases hb

theorem request_channel {v6 : Option Bool} {tx : Transmit.State} (h : s.request p n v6 = some tx) :
    tx.channel = s.tx.channel ∧ tx.closed = s.tx.closed := by
  cases v6 with
  | none =>
    cases h
    exact ⟨rfl, rfl⟩
  | some v6 =>
    simp only [State.request, Option.bind_eq_bind, Option.bind_eq_some_iff, Option.pure_def,
      Option.some.injEq, Prod.exists] at h
    obtain ⟨_, tx₁, h₁, _, tx₂, h₂, rfl⟩ := h
    simp only [Transmit.step, Option.ite_none_left_eq_some, Option.some.injEq, Prod.mk.injEq] at h₁
    simp only [Transmit.step, Option.ite_none_right_eq_some, Option.some.injEq,
      Prod.mk.injEq] at h₂
    obtain ⟨-, -, rfl⟩ := h₁
    obtain ⟨-, -, rfl⟩ := h₂
    exact ⟨rfl, rfl⟩

theorem begin_tx (s : State) (packet : Result Bytes) (phase : Write → Phase) :
    (s.begin p packet phase).tx = s.tx := by
  unfold State.begin
  split <;> rfl

/-- The steps of a session other than its environment's publish nothing and close nothing. -/
theorem own_step (hm : PeerLoop.ownMove m = true) (h : step cfg p n s m = some (a, t)) :
    t.tx.channel.value = s.tx.channel.value ∧ t.tx.closed = s.tx.closed ∧
      ∀ e, a ≠ .loop (.publish e) := by
  have hsame : t.tx = s.tx → (∀ e, a ≠ .loop (.publish e)) →
      t.tx.channel.value = s.tx.channel.value ∧ t.tx.closed = s.tx.closed ∧
        ∀ e, a ≠ .loop (.publish e) := fun htx ha => ⟨by rw [htx], by rw [htx], ha⟩
  cases m with
  | environment m => cases hm
  | send =>
    simp only [step] at h
    split at h
    case h_1 =>
      cases h
      exact hsame (begin_tx s _ _) (by simp)
    case h_2 =>
      simp only [Option.bind_eq_bind, Option.bind_eq_some_iff, Option.pure_def,
        Option.some.injEq, Prod.mk.injEq] at h
      obtain ⟨m, -, rfl, rfl⟩ := h
      exact hsame (begin_tx s _ _) (by simp)
    case h_3 => cases h
  | accept k =>
    simp only [step, Option.bind_eq_bind, Option.bind_eq_some_iff] at h
    obtain ⟨w, -, h⟩ := h
    split at h <;> cases h
    exact hsame rfl (by simp)
  | written d o =>
    simp only [step, Option.bind_eq_bind, Option.bind_eq_some_iff,
      Option.ite_none_right_eq_some] at h
    obtain ⟨w, -, -, h⟩ := h
    unfold State.written at h
    split at h
    · cases h
      exact hsame rfl (by simp)
    · exact loop_inner (fun _ _ hs => Transmit.run_inner hs) h
    · cases h
      exact hsame rfl (by simp)
  | writeExpired | writeFailed =>
    simp only [step, Option.bind_eq_bind, Option.bind_eq_some_iff] at h
    obtain ⟨w, -, h⟩ := h
    split at h <;> cases h
    exact hsame rfl (by simp)
  | poll | readFailed =>
    simp only [step] at h
    split at h <;> cases h <;> exact hsame rfl (by simp)
  | receive stream =>
    simp only [step, Option.ite_none_right_eq_some] at h
    have hr := h.2
    unfold State.receive at hr
    split at hr
    case h_1 =>
      split at hr
      · cases hr
        exact hsame rfl (by simp)
      · cases hr
        exact hsame (fail_over s _).1 (by simp)
    case h_2 =>
      split at hr
      · simp only [Option.bind_eq_bind, Option.bind_eq_some_iff, Option.pure_def,
          Option.some.injEq, Prod.mk.injEq] at hr
        obtain ⟨tx, htx, rfl, rfl⟩ := hr
        obtain ⟨hchannel, hclosed⟩ := request_channel htx
        exact ⟨by rw [hchannel], hclosed, by simp⟩
      · cases hr
        exact hsame (fail_over s _).1 (by simp)
    case h_3 => cases hr
  | expire =>
    simp only [step] at h
    unfold State.expire at h
    split at h
    case h_1 | h_2 =>
      split at h <;> cases h
      exact hsame (fail_over s _).1 (by simp)
    case h_3 => cases h
  | loop m =>
    simp only [step] at h
    split at h
    case h_1 => exact loop_inner (fun _ _ hs => Transmit.run_inner hs) h
    case h_2 => exact loop_inner (fun _ _ hs => Transmit.wake_inner hs) h
    case h_3 => cases h

/-- No more of a packet is written than there is. -/
theorem write_bounded {e : Exports} {t₀ : ℕ} {xs : List Label}
    (h : Lts.Trace (Step cfg p n) (init e t₀) xs s) :
    ∀ w, s.phase.write = some w → w.done ≤ w.packet.length := by
  refine h.invariant (P := fun s => ∀ w, s.phase.write = some w → w.done ≤ w.packet.length)
    (fun _ hw => by cases hw) ?_
  intro s a t hs ha w hw
  cases ha.effect with
  | keep _ hkeep => exact hs w (hkeep ▸ hw)
  | wrote _ _ hle ht =>
    cases ht.symm.trans hw
    exact hle
  | finished _ _ _ ht => cases ht.symm.trans hw
  | began _ _ _ ht h₀ | reported _ _ ht h₀ =>
    cases ht.symm.trans hw
    rw [h₀]
    exact Nat.zero_le _
  | closed _ ht =>
    rw [ht] at hw
    cases hw

end Session

/-- The candidate came out of a handshake with the peer. -/
def Shaken {Conn : Type} (cfg : Config) (P : Peer) (c : Candidate Conn) : Prop :=
  ∃ io, handshake cfg P io c.stream c.incoming = .ok c

namespace Choose
variable {Conn : Type} [DecidableEq Conn] {cfg : Config} {P : Peer} {s t : State Conn}
  {e : Event Conn} {c : Candidate Conn}

/-- What one round parks or returns was parked before or has just joined. -/
theorem candidate_step (h : step cfg P s e = some t)
    (hc : (t.outcome = none ∧ t.pending = some c) ∨ t.outcome = some (.ok c)) :
    s.pending = some c ∨ ∃ incoming, e = .joined incoming (.ok c) := by
  have hstep : Step cfg P s e t := h
  obtain ⟨hnone, heffect⟩ := hstep.effect
  cases heffect with
  | stopped | accepted =>
    rcases hc with ⟨-, hc⟩ | hc
    · exact Or.inl hc
    · simp [hnone] at hc
  | chosen _ ht _ =>
    rcases hc with ⟨hc, -⟩ | hc
    · simp [ht] at hc
    · cases ht.symm.trans hc
      exact Or.inr ⟨_, rfl⟩
  | parked _ ht hp =>
    rcases hc with ⟨-, hc⟩ | hc
    · cases hp.symm.trans hc
      exact Or.inr ⟨_, rfl⟩
    · simp [ht] at hc
  | failed hp ht =>
    rcases hc with ⟨-, hc⟩ | hc
    · exact Or.inl (hp ▸ hc)
    · rcases ht with ht | ⟨-, e, ht⟩ <;> simp [ht] at hc
  | expired =>
    unfold State.expire at hc
    split at hc
    · rename_i hp
      rcases hc with ⟨hc, -⟩ | hc
      · cases hc
      · cases hc
        exact Or.inl hp
    · rcases hc with ⟨hc, -⟩ | hc
      · cases hc
      · cases hc

end Choose

namespace PeerLoop
variable {Conn : Type} {cfg : Config} {P : Peer} {l t : State Conn} {a : Label Conn}
  {offered offered' : Exports → Prop} {dropped : Bool} {wire : Bytes} {e : Exports}
  {c : Candidate Conn} {session : Session.State} {jitter : ℕ}

/-- A session after a handshake, in a run of whose snapshots all were offered and whose octets are
on the wire. Its channel holds the exports of the worker, and has lost its sender if the worker's
has. -/
structure Attached (cfg : Config) (P : Peer) (offered : Exports → Prop) (e : Exports)
    (dropped : Bool) (c : Candidate Conn) (session : Session.State) (wire : Bytes) : Prop where
  shaken : Shaken cfg P c
  run : ∃ e₀ t₀ xs, Lts.Trace (Session.Step cfg (P.fill c.linkLocal) c.negotiated)
    (Session.init e₀ t₀) xs session ∧ Session.octets xs = wire ∧
    ∀ e', e' = e₀ ∨ Session.Label.loop (.publish e') ∈ xs → offered e'
  value : session.tx.channel.value = e
  closed : session.tx.closed = dropped

/-- The candidates of a worker have shaken hands, and its session is attached to the wire. -/
def Holds (cfg : Config) (P : Peer) (offered : Exports → Prop) (l : State Conn) (wire : Bytes) :
    Prop :=
  match l.phase with
  | .choosing c => (∀ x, c.pending = some x → Shaken cfg P x) ∧ wire = []
  | .running _ c _ session => Attached cfg P offered l.exports l.dropped c session wire
  | _ => wire = []

/-- The octets of the session in progress after a step; those of earlier sessions are gone with
their connections. -/
def carried (wire : Bytes) : Label Conn → Bytes
  | .session a => wire ++ a.octets
  | .delivered _ | .refused _ | .closed | .published _ | .dropped | .tick _ | .ceased _ _ => wire
  | _ => []

theorem init_holds (cfg : Config) (P : Peer) (offered : Exports → Prop) (closed : Bool)
    (e : Exports) (t₀ : ℕ) :
    Holds cfg P offered { (init e t₀ : State Conn) with closed } [] :=
  ⟨(fun _ h => by cases h), rfl⟩

theorem Attached.mono (h : Attached cfg P offered e dropped c session wire)
    (ho : ∀ e, offered e → offered' e) : Attached cfg P offered' e dropped c session wire := by
  obtain ⟨e₀, t₀, xs, htrace, hwire, hoff⟩ := h.run
  exact ⟨h.shaken, ⟨e₀, t₀, xs, htrace, hwire, fun e' he => ho e' (hoff e' he)⟩, h.value, h.closed⟩

theorem Holds.mono (h : Holds cfg P offered l wire) (ho : ∀ e, offered e → offered' e) :
    Holds cfg P offered' l wire := by
  unfold Holds at h ⊢
  split at h
  · exact h
  · exact h.mono ho
  · exact h

/-- The worker's end of the channel of the exports. -/
def State.channel (l : State Conn) : Exports × Bool := (l.exports, l.dropped)

theorem begin_holds (origin : Origin) (hc : Shaken cfg P c) (ho : offered l.exports) :
    Holds cfg P offered (l.begin origin c) [] where
  shaken := hc
  run := by
    cases hd : l.dropped with
    | false =>
      refine ⟨l.exports, l.now, [], .refl, rfl, ?_⟩
      rintro e' (rfl | hm)
      · exact ho
      · cases hm
    | true =>
      refine ⟨l.exports, l.now, [.loop .close], .snoc .refl ⟨.environment .close, rfl⟩, rfl, ?_⟩
      rintro e' (rfl | hm)
      · exact ho
      · simp at hm
  value := rfl
  closed := rfl

theorem settle_holds (ho : offered l.exports) {x : Choose.State Conn}
    (hx : ∀ c, (x.outcome = none ∧ x.pending = some c) ∨ x.outcome = some (.ok c) →
      Shaken cfg P c) : Holds cfg P offered (l.settle jitter x) [] := by
  unfold State.settle
  split
  · rename_i hnone
    exact ⟨fun c hc => hx c (Or.inl ⟨hnone, hc⟩), rfl⟩
  · rename_i hout
    exact begin_holds .choose (hx _ (Or.inr hout)) ho
  · rfl

theorem settle_channel (l : State Conn) (jitter : ℕ) (x : Choose.State Conn) :
    (l.settle jitter x).channel = l.channel := by
  unfold State.settle
  split <;> rfl

/-- A step of the session itself. -/
theorem Attached.own {m : Session.Move} {b : Session.Label} {session' : Session.State}
    (h : Attached cfg P offered e dropped c session wire) (hm : ownMove m = true)
    (hs : Session.step cfg (P.fill c.linkLocal) c.negotiated session m = some (b, session')) :
    Attached cfg P offered e dropped c session' (wire ++ b.octets) := by
  obtain ⟨e₀, t₀, xs, htrace, hwire, hoff⟩ := h.run
  obtain ⟨hvalue, hclosed, hpublish⟩ := Session.own_step hm hs
  refine ⟨h.shaken, ⟨e₀, t₀, xs ++ [b], .snoc htrace ⟨m, hs⟩, ?_, ?_⟩, hvalue.trans h.value,
    hclosed.trans h.closed⟩
  · rw [Session.octets_snoc, hwire]
  · rintro e' (he | he)
    · exact hoff e' (Or.inl he)
    · rcases List.mem_append.mp he with he | he
      · exact hoff e' (Or.inr he)
      · exact absurd (List.mem_singleton.mp he).symm (hpublish e')

/-! The neighbour's side. -/

section Neighbour
variable (hv : cfg.validate = .ok ()) (hP : P ∈ cfg.peers) (ho : ∀ e, offered e → Sourced cfg e)
  (h : Attached cfg P offered e dropped c session wire)
  {expires : Option ℕ} {w : Option Session.Write}
  (hphase : session.phase = .established expires w)
include hv hP ho h hphase

/-- What the neighbour of an established session has heard, and the run of the export loop behind
it. -/
theorem Attached.conversation : ∃ e₀ t₀ ys,
    Lts.Trace (Transmit.Step c.negotiated P.exportAcl) (Transmit.init e₀ t₀) ys session.tx ∧
    (∀ e', e' = e₀ ∨ Transmit.Label.publish e' ∈ ys → offered e') ∧
    ((∀ w', w = some w' → w'.done < w'.packet.length) →
      heard c.negotiated.asn4 wire = session.tx.advertised) ∧
    ∀ w', w = some w' → w'.done = w'.packet.length → ∃ m,
      session.tx.outgoing c.negotiated = some m ∧
      heard c.negotiated.asn4 wire =
        Transmit.applyBatch session.tx.advertised (.sent m) := by
  obtain ⟨io, hio⟩ := h.shaken
  obtain ⟨-, -, -, body, hopen⟩ := handshake_eq_ok hio
  obtain ⟨e₀, t₀, xs, htrace, rfl, hoff⟩ := h.run
  obtain ⟨ys, hspoken⟩ := Session.spoken_of_trace htrace
  have ha := announcing_of_open ((Config.validate_eq_ok.mp hv).peers P hP) hopen c.linkLocal
  obtain ⟨hplain, hout⟩ := hspoken.plain hv hP (fun e' he => ho e' (hoff e' he))
  have hloop := hspoken.trace
  rw [Session.fill_exportAcl] at hloop
  refine ⟨e₀, t₀, ys, hloop, ?_, (hspoken.frames ha hplain hout hphase).2⟩
  intro e' he
  exact hoff e' (he.imp_right (hspoken.published e'))

/-- A parked session that has seen its channel: the neighbour holds what the worker exports, as
far as the families go. -/
theorem Attached.parked {armed : Bool} (hw : w = none) (hpc : session.tx.pc = .select armed)
    (hc : session.tx.channel.hasChanged = false) :
    heard c.negotiated.asn4 wire = c.negotiated.gate (desired e P.exportAcl) := by
  obtain ⟨e₀, t₀, ys, hloop, -, hheard, -⟩ := h.conversation hv hP ho hphase
  have hsync := Transmit.Synced.of_trace hloop
  rw [hheard (fun w' hw' => by rw [hw] at hw'; cases hw'), hsync.settled (by rw [hpc]; rfl),
    hsync.current (by simp [hpc]) hc, h.value]

/-- Whatever the neighbour has heard of was offered for this ACL. -/
theorem Attached.granted {p : IpNet} (hp : p ∈ heard c.negotiated.asn4 wire) :
    c.negotiated.enabled p = true ∧ ∃ e', offered e' ∧ p ∈ desired e' P.exportAcl := by
  obtain ⟨e₀, t₀, ys, hloop, hoff, hpart, hwhole⟩ := h.conversation hv hP ho hphase
  have hbound : ∀ w', w = some w' → w'.done ≤ w'.packet.length := by
    obtain ⟨_, _, _, htrace, -⟩ := h.run
    intro w' hw'
    exact Session.write_bounded htrace w' (by rw [hphase]; exact hw')
  have hgranted : Transmit.Granted c.negotiated P.exportAcl e₀ ys p := by
    by_cases hlt : ∀ w', w = some w' → w'.done < w'.packet.length
    · rw [hpart hlt] at hp
      exact Transmit.granted_of_trace hloop p hp
    · push Not at hlt
      obtain ⟨w', hw', hge⟩ := hlt
      obtain ⟨m, hm, hheard⟩ := hwhole w' hw' (Nat.le_antisymm (hbound w' hw') hge)
      rw [hheard] at hp
      exact Transmit.granted_outgoing hloop hm p hp
  obtain ⟨hen, e', he', hp'⟩ := hgranted
  exact ⟨hen, e', hoff e' he', hp'⟩

end Neighbour

/-! What the environment does to a session. -/

/-- The environment of a session reaches its export loop and nothing else. -/
theorem ambient_running (cfg : Config) {origin : Origin} {started : ℕ} {m : Transmit.Move}
    {b : Transmit.Label} {tx : Transmit.State}
    (hphase : l.phase = .running origin c started session)
    (hm : ∀ s : Session.State, Session.step cfg (P.fill c.linkLocal) c.negotiated s
      (.environment m) = s.loop (P.fill c.linkLocal) c.negotiated m s.phase)
    (hs : Transmit.step c.negotiated (P.fill c.linkLocal).exportAcl session.tx m = some (b, tx))
    (hb : b ≠ .stop) :
    l.ambient cfg P m = { l with phase := .running origin c started { session with tx } } ∧
      Session.Step cfg (P.fill c.linkLocal) c.negotiated session (.loop b) { session with tx } := by
  have hloop : session.loop (P.fill c.linkLocal) c.negotiated m session.phase =
      some (.loop b, { session with tx }) := by
    simp only [Session.State.loop, hs, Option.bind_eq_bind, Option.bind_some, Option.pure_def]
  refine ⟨?_, .environment m, by rw [hm, hloop]⟩
  simp only [State.ambient, State.advance, hphase, hm, hloop, Option.bind_eq_bind,
    Option.bind_some, Option.pure_def]

theorem ambient_idle {m : Transmit.Move} (hl : l.phase.origin = none) : l.ambient cfg P m = l := by
  unfold State.ambient State.advance
  cases hp : l.phase with
  | running =>
    rw [hp] at hl
    cases hl
  | _ => rfl

/-- The run of a session after a step of its environment. -/
theorem Attached.environment {b : Transmit.Label} {tx : Transmit.State}
    (h : Attached cfg P offered e dropped c session wire)
    (hs : Session.Step cfg (P.fill c.linkLocal) c.negotiated session (.loop b)
      { session with tx }) (hb : ∀ e', b = .publish e' → offered e') {e' : Exports}
    {dropped' : Bool} (hv : tx.channel.value = e') (hc : tx.closed = dropped') :
    Attached cfg P offered e' dropped' c { session with tx } wire := by
  obtain ⟨e₀, t₀, xs, htrace, hwire, hoff⟩ := h.run
  refine ⟨h.shaken, ⟨e₀, t₀, xs ++ [.loop b], .snoc htrace hs, ?_, ?_⟩, hv, hc⟩
  · rw [Session.octets_loop, hwire]
  · rintro e'' (he | he)
    · exact hoff e'' (Or.inl he)
    · rcases List.mem_append.mp he with he | he
      · exact hoff e'' (Or.inr he)
      · have hlabel := List.mem_singleton.mp he
        exact hb e'' (by injection hlabel.symm)

theorem running_of_origin {origin : Origin} (h : l.phase.origin = some origin) :
    ∃ c started session, l.phase = .running origin c started session := by
  cases hp : l.phase with
  | running origin' c started session =>
    rw [hp] at h
    cases h
    exact ⟨c, started, session, rfl⟩
  | _ =>
    rw [hp] at h
    cases h

theorem holds_running {origin : Origin} {started : ℕ}
    (hphase : l.phase = .running origin c started session) :
    Holds cfg P offered l wire ↔ Attached cfg P offered l.exports l.dropped c session wire := by
  unfold Holds
  rw [hphase]

/-- Without a session in progress, what holds does not depend on the channel. -/
theorem Holds.of_idle (h : Holds cfg P offered l wire) (hl : l.phase.origin = none)
    (ht : t.phase = l.phase) : Holds cfg P offered t wire := by
  unfold Holds at h ⊢
  rw [ht]
  cases hp : l.phase with
  | running =>
    rw [hp] at hl
    cases hl
  | _ =>
    rw [hp] at h
    exact h

/-- A new snapshot reaches the worker and its session alike. -/
theorem Holds.publish (h : Holds cfg P offered l wire) (hd : l.dropped = false)
    (ho : offered e) :
    Holds cfg P offered ({ l with exports := e }.ambient cfg P (.publish e)) wire := by
  cases hl : l.phase.origin with
  | none =>
    have hidle : ({ l with exports := e } : State Conn).phase.origin = none := hl
    rw [ambient_idle hidle]
    exact h.of_idle (t := { l with exports := e }) hl rfl
  | some origin =>
    obtain ⟨c, started, session, hphase⟩ := running_of_origin hl
    have hrun := (holds_running hphase).mp h
    have hopen : session.tx.closed = false := hrun.closed.trans hd
    have hstep : Transmit.step c.negotiated (P.fill c.linkLocal).exportAcl session.tx
        (.publish e) = some (.publish e, { session.tx with
          channel := session.tx.channel.sendReplace e }) := by
      simp [Transmit.step, hopen]
    obtain ⟨heq, hs⟩ := ambient_running cfg (l := { l with exports := e }) hphase (fun _ => rfl)
      hstep (by simp)
    rw [heq, holds_running rfl]
    refine hrun.environment hs ?_ rfl hrun.closed
    intro e' he
    cases he
    exact ho

theorem Holds.tick (h : Holds cfg P offered l wire) (d : ℕ) :
    Holds cfg P offered ({ l with now := l.now + d }.ambient cfg P (.tick d)) wire := by
  cases hl : l.phase.origin with
  | none =>
    have hidle : ({ l with now := l.now + d } : State Conn).phase.origin = none := hl
    rw [ambient_idle hidle]
    exact h.of_idle hl rfl
  | some origin =>
    obtain ⟨c, started, session, hphase⟩ := running_of_origin hl
    have hrun := (holds_running hphase).mp h
    have hstep : Transmit.step c.negotiated (P.fill c.linkLocal).exportAcl session.tx (.tick d) =
        some (.tick d, { session.tx with now := session.tx.now + d }) := rfl
    obtain ⟨heq, hs⟩ := ambient_running cfg (l := { l with now := l.now + d }) hphase (fun _ => rfl)
      hstep (by simp)
    rw [heq, holds_running rfl]
    exact hrun.environment hs (fun e' he => by cases he) hrun.value hrun.closed

/-- The sender of the channel is gone. -/
theorem Holds.drop (h : Holds cfg P offered l wire) :
    Holds cfg P offered ({ l with dropped := true }.ambient cfg P .close) wire := by
  cases hl : l.phase.origin with
  | none =>
    have hidle : ({ l with dropped := true } : State Conn).phase.origin = none := hl
    rw [ambient_idle hidle]
    exact h.of_idle hl rfl
  | some origin =>
    obtain ⟨c, started, session, hphase⟩ := running_of_origin hl
    have hrun := (holds_running hphase).mp h
    have hstep : Transmit.step c.negotiated (P.fill c.linkLocal).exportAcl session.tx .close =
        some (.close, { session.tx with closed := true }) := rfl
    obtain ⟨heq, hs⟩ := ambient_running cfg (l := { l with dropped := true }) hphase (fun _ => rfl)
      hstep (by simp)
    rw [heq, holds_running rfl]
    exact hrun.environment hs (fun e' he => by cases he) hrun.value rfl

theorem ambient_channel (l : State Conn) (cfg : Config) (P : Peer) (m : Transmit.Move) :
    (l.ambient cfg P m).channel = l.channel := by
  unfold State.ambient
  split
  · rename_i h
    unfold State.advance at h
    split at h
    · simp only [Option.bind_eq_bind, Option.bind_eq_some_iff, Option.pure_def, Option.some.injEq,
        Prod.exists, Prod.mk.injEq] at h
      obtain ⟨_, _, -, -, rfl⟩ := h
      rfl
    · cases h
  · rfl

/-! The worker's own steps. -/

/-- What has joined or come back from a handshake has shaken hands. -/
def Move.Proper (cfg : Config) (P : Peer) : Move Conn → Prop
  | .joined _ (.ok c) _ | .handshake (.ok c) => Shaken cfg P c
  | .publish _ | .drop | .tick _ | .close => False
  | _ => True

theorem finish_holds (ha : l.finish jitter = some (a, t)) :
    Holds cfg P offered t (carried wire a) ∧ t.channel = l.channel := by
  unfold State.finish at ha
  split at ha
  · split at ha
    · cases ha
      exact ⟨rfl, rfl⟩
    · cases ha
      exact ⟨⟨(fun _ hc => by cases hc), rfl⟩, rfl⟩
    · cases ha
  · cases ha

variable [DecidableEq Conn]

theorem Holds.select {ev : Choose.Event Conn} (h : Holds cfg P offered l wire)
    (ho : offered l.exports) (hev : ∀ incoming c, ev = .joined incoming (.ok c) → Shaken cfg P c)
    {x x' : Choose.State Conn} (hphase : l.phase = .choosing x)
    (hx : Choose.step cfg P x ev = some x') :
    Holds cfg P offered (l.settle jitter x') [] := by
  unfold Holds at h
  rw [hphase] at h
  refine settle_holds ho ?_
  intro c hc
  rcases Choose.candidate_step hx hc with hp | ⟨incoming, rfl⟩
  · exact h.1 c hp
  · exact hev incoming c rfl

theorem Holds.take {stream : Conn} (h : Holds cfg P offered l wire) (ho : offered l.exports)
    (ha : l.take cfg P jitter stream = some (a, t)) :
    Holds cfg P offered t (carried wire a) ∧ t.channel = l.channel := by
  unfold State.take at ha
  split at ha
  case h_1 hphase =>
    simp only [Option.bind_eq_bind, Option.bind_eq_some_iff, Option.pure_def, Option.some.injEq,
      Prod.mk.injEq] at ha
    obtain ⟨x, hx, rfl, rfl⟩ := ha
    exact ⟨h.select ho (fun _ _ he => by cases he) hphase hx, settle_channel _ _ _⟩
  case h_2 =>
    cases ha
    exact ⟨h, rfl⟩
  case h_4 hphase =>
    cases ha
    exact ⟨rfl, rfl⟩
  all_goals cases ha

theorem Holds.hangUp (h : Holds cfg P offered l wire) (ho : offered l.exports)
    (ha : l.hangUp cfg P jitter = some (a, t)) :
    Holds cfg P offered t (carried wire a) ∧ t.channel = l.channel := by
  unfold State.hangUp at ha
  split at ha
  case h_1 hphase =>
    simp only [Option.bind_eq_bind, Option.bind_eq_some_iff, Option.pure_def, Option.some.injEq,
      Prod.mk.injEq] at ha
    obtain ⟨x, hx, rfl, rfl⟩ := ha
    exact ⟨h.select ho (fun _ _ he => by cases he) hphase hx, settle_channel _ _ _⟩
  case h_2 | h_4 =>
    cases ha
    exact ⟨rfl, rfl⟩
  all_goals cases ha

theorem Holds.step {m : Move Conn} (h : Holds cfg P offered l wire) (ho : offered l.exports)
    (hm : m.Proper cfg P) (ha : PeerLoop.step cfg P l m = some (a, t)) :
    Holds cfg P offered t (carried wire a) ∧ t.channel = l.channel := by
  have hfresh : ∀ x : State Conn, x.phase = .choosing Choose.init →
      Holds cfg P offered x [] := by
    intro x hx
    unfold Holds
    rw [hx]
    exact ⟨(fun _ hc => by cases hc), rfl⟩
  cases m with
  | deliver stream =>
    simp only [PeerLoop.step, Option.ite_none_left_eq_some] at ha
    obtain ⟨-, ha⟩ := ha
    split at ha
    · cases ha
      exact ⟨h, rfl⟩
    · cases ha
      exact ⟨h, rfl⟩
  | close | publish | drop | tick => exact hm.elim
  | recv jitter =>
    simp only [PeerLoop.step, State.recv] at ha
    split at ha
    · rename_i stream queue hq
      exact Holds.take (l := { l with queue }) h ho ha
    · simp only [Option.ite_none_right_eq_some] at ha
      exact h.hangUp ho ha.2
  | joined incoming result jitter =>
    simp only [PeerLoop.step, State.select] at ha
    split at ha
    · rename_i hphase
      simp only [Option.bind_eq_bind, Option.bind_eq_some_iff, Option.pure_def, Option.some.injEq,
        Prod.mk.injEq] at ha
      obtain ⟨x, hx, rfl, rfl⟩ := ha
      refine ⟨h.select ho ?_ hphase hx, settle_channel _ _ _⟩
      rintro incoming' c he
      cases he
      exact hm
    · cases ha
  | deadline jitter =>
    simp only [PeerLoop.step, State.select] at ha
    split at ha
    · rename_i hphase
      simp only [Option.bind_eq_bind, Option.bind_eq_some_iff, Option.pure_def, Option.some.injEq,
        Prod.mk.injEq] at ha
      obtain ⟨x, hx, rfl, rfl⟩ := ha
      exact ⟨h.select ho (fun _ _ he => by cases he) hphase hx, settle_channel _ _ _⟩
    · cases ha
  | handshake result =>
    cases result with
    | ok c =>
      simp only [PeerLoop.step, State.handshook] at ha
      split at ha
      · cases ha
        exact ⟨begin_holds .backoff hm ho, rfl⟩
      · cases ha
    | error e =>
      simp only [PeerLoop.step, State.handshook] at ha
      split at ha
      · cases ha
        exact ⟨hfresh _ rfl, rfl⟩
      · cases ha
  | session m =>
    simp only [PeerLoop.step, Option.ite_none_right_eq_some, Option.map_eq_some_iff, Prod.exists,
      Prod.mk.injEq] at ha
    obtain ⟨hown, b, u, hu, rfl, rfl⟩ := ha
    unfold State.advance at hu
    split at hu
    · rename_i hphase
      simp only [Option.bind_eq_bind, Option.bind_eq_some_iff, Option.pure_def, Option.some.injEq,
        Prod.exists, Prod.mk.injEq] at hu
      obtain ⟨_, session', hs, rfl, rfl⟩ := hu
      have hrun := (holds_running hphase).mp h
      exact ⟨(holds_running rfl).mpr (hrun.own hown hs), rfl⟩
    · cases hu
  | finish jitter => exact finish_holds ha
  | wake =>
    simp only [PeerLoop.step] at ha
    split at ha
    · simp only [Option.ite_none_right_eq_some] at ha
      obtain ⟨-, ha⟩ := ha
      cases ha
      exact ⟨hfresh _ rfl, rfl⟩
    · cases ha

end PeerLoop
end Ubgp
