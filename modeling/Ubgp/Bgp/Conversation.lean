import Ubgp.Bgp.Connection

/-! The session grammar: what is written on a connection, and after which messages of the peer. -/
namespace Ubgp
namespace Connection

variable {cfg : Config} {p : Peer} {s t : State} {a : Label} {xs : List Label} {phase : Phase}
  {w : FsmState} {kind : UInt8} {body packet stream : Bytes} {rs : List (UInt8 × Bytes)}
  {ks : List UInt8}

/-- The messages written, in order. -/
def sent (xs : List Label) : List (UInt8 × Bytes) :=
  xs.filterMap fun a => match a with
    | .sent kind packet => some (kind, packet)
    | _ => none

/-- Their types. -/
def sentKinds (xs : List Label) : List UInt8 := (sent xs).map Prod.fst

/-- The messages read, in order. -/
def received (xs : List Label) : List (UInt8 × Bytes) :=
  xs.filterMap fun a => match a with
    | .received kind body => some (kind, body)
    | _ => none

/-- OPEN, or OPEN KEEPALIVE (UPDATE | KEEPALIVE)*. -/
def Opening (ks : List UInt8) : Prop :=
  ks = [OPEN] ∨ ∃ rest, ks = OPEN :: KEEPALIVE :: rest ∧ ∀ k ∈ rest, k = UPDATE ∨ k = KEEPALIVE

/-- The language of a connection: an opening, then at most a NOTIFICATION. -/
def Sentence (ks : List UInt8) : Prop :=
  Opening ks ∨ ∃ before, Opening before ∧ ks = before ++ [NOTIFICATION]

/-- The first message read is an OPEN that `parse_open` accepts. -/
def Opened (cfg : Config) (p : Peer) (rs : List (UInt8 × Bytes)) : Prop :=
  ∃ body n tail, rs = (OPEN, body) :: tail ∧ parseOpen body cfg p = .ok n

/-- Moreover the second one is a KEEPALIVE. -/
def Confirmed (cfg : Config) (p : Peer) (rs : List (UInt8 × Bytes)) : Prop :=
  ∃ body n body' tail, rs = (OPEN, body) :: (KEEPALIVE, body') :: tail ∧
    parseOpen body cfg p = .ok n

/-- The state of a connection that has read so many messages. -/
def awaiting : ℕ → FsmState
  | 0 => .openSent
  | 1 => .openConfirm
  | _ => .established

/-- Every message was expected when it was read. -/
def Orderly (rs : List (UInt8 × Bytes)) : Prop :=
  ∀ before kind body after, rs = before ++ (kind, body) :: after →
    expects (awaiting before.length) kind = true

/-! Histories. -/

@[simp] theorem sent_snoc_sent :
    sent (xs ++ [.sent kind packet]) = sent xs ++ [(kind, packet)] := by
  simp [sent]

@[simp] theorem sent_snoc_received : sent (xs ++ [.received kind body]) = sent xs := by
  simp [sent]

@[simp] theorem sent_snoc_tau : sent (xs ++ [.tau]) = sent xs := by
  simp [sent]

@[simp] theorem received_snoc_sent : received (xs ++ [.sent kind packet]) = received xs := by
  simp [received]

@[simp] theorem received_snoc_received :
    received (xs ++ [.received kind body]) = received xs ++ [(kind, body)] := by
  simp [received]

@[simp] theorem received_snoc_tau : received (xs ++ [.tau]) = received xs := by
  simp [received]

theorem mem_sent : (kind, packet) ∈ sent xs ↔ .sent kind packet ∈ xs := by
  simp only [sent, List.mem_filterMap]
  constructor
  · rintro ⟨b, hb, he⟩
    cases b with
    | sent kind' packet' =>
      cases he
      exact hb
    | received | tau => cases he
  · intro h
    exact ⟨_, h, rfl⟩

theorem mem_received : (kind, body) ∈ received xs ↔ .received kind body ∈ xs := by
  simp only [received, List.mem_filterMap]
  constructor
  · rintro ⟨b, hb, he⟩
    cases b with
    | received kind' body' =>
      cases he
      exact hb
    | sent | tau => cases he
  · intro h
    exact ⟨_, h, rfl⟩

/-! The grammar. -/

theorem Opening.snoc (h : Opening ks) (hk : KEEPALIVE ∈ ks) {k : UInt8}
    (hkind : k = UPDATE ∨ k = KEEPALIVE) : Opening (ks ++ [k]) := by
  rcases h with rfl | ⟨rest, rfl, hrest⟩
  · simp [OPEN, KEEPALIVE] at hk
  · refine Or.inr ⟨rest ++ [k], by simp, ?_⟩
    intro k' hm
    rcases List.mem_append.mp hm with hm | hm
    · exact hrest k' hm
    · rw [List.mem_singleton.mp hm]
      exact hkind

theorem Opening.no_notification (h : Opening ks) : NOTIFICATION ∉ ks := by
  rcases h with rfl | ⟨rest, rfl, hrest⟩
  · decide
  · intro hm
    rcases List.mem_cons.mp hm with hm | hm
    · cases hm
    · rcases List.mem_cons.mp hm with hm | hm
      · cases hm
      · rcases hrest _ hm with hm | hm <;> cases hm

/-- Nothing follows a NOTIFICATION. -/
theorem Sentence.notification_last {before after : List UInt8}
    (h : Sentence (before ++ NOTIFICATION :: after)) : after = [] := by
  rcases h with h | ⟨ks, hks, heq⟩
  · exact absurd (by simp) h.no_notification
  · rcases after.eq_nil_or_concat with rfl | ⟨after, k, rfl⟩
    · rfl
    · rw [List.concat_eq_append, ← List.cons_append, ← List.append_assoc] at heq
      obtain ⟨hb, -⟩ := List.append_inj' heq rfl
      exact absurd (by rw [← hb]; simp) hks.no_notification

/-! Expected messages. -/

theorem orderly_nil : Orderly [] := by
  intro before kind body after h
  simp at h

theorem Orderly.snoc (h : Orderly rs) (hk : expects (awaiting rs.length) kind = true) :
    Orderly (rs ++ [(kind, body)]) := by
  intro before kind' body' after hx
  rcases Lts.snoc_eq_append_cons hx with ⟨-, he, rfl⟩ | ⟨after', -, hx'⟩
  · cases he
    exact hk
  · exact h before kind' body' after' hx'

/-- The first unexpected message is where the orderly part ends. -/
theorem Orderly.first_unexpected {before after : List (UInt8 × Bytes)} {kind' : UInt8}
    {body' : Bytes} (h : Orderly rs)
    (heq : rs ++ [(kind', body')] = before ++ (kind, body) :: after)
    (hk : expects (awaiting before.length) kind = false) :
    before = rs ∧ kind = kind' ∧ body = body' := by
  rcases Lts.snoc_eq_append_cons heq with ⟨-, he, rfl⟩ | ⟨after', -, hx⟩
  · cases he
    exact ⟨rfl, rfl, rfl⟩
  · rw [h before kind body after' hx] at hk
    cases hk

theorem expects_notification (w : FsmState) : expects w NOTIFICATION = false := by
  cases w <;> rfl

/-! What was said by the time a phase is reached. -/

/-- The last message read was unexpected, and `e` says so. -/
def Disturbed (rs : List (UInt8 × Bytes)) (e : Fault) : Prop :=
  ∃ before kind body, rs = before ++ [(kind, body)] ∧ Orderly before ∧
    expects (awaiting before.length) kind = false ∧
      e = unexpected (awaiting before.length) kind body

/-- A NOTIFICATION after an unexpected message names the state and the type of that message. -/
def Blamed (xs : List Label) : Prop :=
  ∀ packet, (NOTIFICATION, packet) ∈ sent xs → Orderly (received xs) ∨
    ∃ before kind body, received xs = before ++ [(kind, body)] ∧ Orderly before ∧
      kind ≠ NOTIFICATION ∧ notification 5 (awaiting before.length).code [kind] = .ok packet

def Said (cfg : Config) (p : Peer) (xs : List Label) : Phase → Prop
  | .connected => sentKinds xs = [] ∧ received xs = []
  | .openSent => sentKinds xs = [OPEN] ∧ received xs = []
  | .candidate _ | .accepted _ _ => sentKinds xs = [OPEN] ∧
      ∃ body n, received xs = [(OPEN, body)] ∧ parseOpen body cfg p = .ok n
  | .openConfirm _ _ => sentKinds xs = [OPEN, KEEPALIVE] ∧
      ∃ body n, received xs = [(OPEN, body)] ∧ parseOpen body cfg p = .ok n
  | .confirmed _ _ | .established _ _ _ => KEEPALIVE ∈ sentKinds xs ∧ Opening (sentKinds xs) ∧
      Confirmed cfg p (received xs) ∧ Orderly (received xs)
  | .failing e => Opening (sentKinds xs) ∧ (Orderly (received xs) ∨ Disturbed (received xs) e)
  | .closed => ((sentKinds xs = [] ∧ received xs = []) ∨ Sentence (sentKinds xs)) ∧ Blamed xs

theorem blamed_of_not_mem (h : NOTIFICATION ∉ sentKinds xs) : Blamed xs := by
  intro packet hm
  exact absurd (List.mem_map.mpr ⟨_, hm, rfl⟩) h

theorem orderly_open : Orderly [(OPEN, body)] :=
  orderly_nil.snoc rfl

theorem opening_confirm : Opening [OPEN, KEEPALIVE] :=
  Or.inr ⟨[], rfl, by simp⟩

/-- Up to its failure a connection has said an opening, and heard what it expected. -/
theorem Said.waiting (h : Said cfg p xs phase) (hw : phase.waits = some w) :
    Opening (sentKinds xs) ∧ Orderly (received xs) ∧ awaiting (received xs).length = w := by
  cases phase with
  | openSent =>
    cases hw
    obtain ⟨hk, hr⟩ := h
    rw [hk, hr]
    exact ⟨Or.inl rfl, orderly_nil, rfl⟩
  | openConfirm n q =>
    cases hw
    obtain ⟨hk, body, n, hr, -⟩ := h
    rw [hk, hr]
    exact ⟨opening_confirm, orderly_open, rfl⟩
  | established n q tx =>
    cases hw
    obtain ⟨-, hopening, ⟨body, n, body', tail, hr, -⟩, horderly⟩ := h
    refine ⟨hopening, horderly, ?_⟩
    rw [hr]
    rfl
  | _ => cases hw

/-- A connection may be closed in any phase. -/
theorem Said.finish (h : Said cfg p xs phase) : Said cfg p xs .closed := by
  have hopening : ∀ ks, sentKinds xs = ks → Opening ks → Said cfg p xs .closed := by
    rintro ks rfl hk
    exact ⟨Or.inr (Or.inl hk), blamed_of_not_mem hk.no_notification⟩
  cases phase with
  | connected =>
    refine ⟨Or.inl h, blamed_of_not_mem ?_⟩
    rw [h.1]
    simp
  | openSent => exact hopening _ h.1 (Or.inl rfl)
  | candidate n => exact hopening _ h.1 (Or.inl rfl)
  | accepted n q => exact hopening _ h.1 (Or.inl rfl)
  | openConfirm n q => exact hopening _ h.1 opening_confirm
  | confirmed n q => exact hopening _ rfl h.2.1
  | established n q tx => exact hopening _ rfl h.2.1
  | failing e => exact hopening _ rfl h.1
  | closed => exact h

/-- Silent steps add nothing. -/
theorem said_tau : Said cfg p (xs ++ [.tau]) phase ↔ Said cfg p xs phase := by
  cases phase <;> simp [Said, sentKinds, Blamed]

theorem unexpected_protocol {e : ProtocolError} (h : unexpected w kind body = .protocol e) :
    kind ≠ NOTIFICATION ∧ e.code = 5 ∧ e.subcode = w.code ∧ e.data = [kind] := by
  unfold unexpected at h
  split at h
  · split at h
    · split at h <;> cases h
    · cases h
  · rename_i hk
    cases h
    exact ⟨hk, rfl, rfl, rfl⟩

/-- Closing with a NOTIFICATION. -/
theorem said_notification (hk : Opening (sentKinds xs))
    (hb : Orderly (received xs) ∨ ∃ before kind body, received xs = before ++ [(kind, body)] ∧
      Orderly before ∧ kind ≠ NOTIFICATION ∧
      notification 5 (awaiting before.length).code [kind] = .ok packet) :
    Said cfg p (xs ++ [.sent NOTIFICATION packet]) .closed := by
  refine ⟨Or.inr (Or.inr ⟨sentKinds xs, hk, by simp [sentKinds]⟩), ?_⟩
  intro packet' hm
  rw [sent_snoc_sent] at hm
  rcases List.mem_append.mp hm with hm | hm
  · exact absurd (List.mem_map.mpr ⟨_, hm, rfl⟩) hk.no_notification
  · cases List.mem_singleton.mp hm
    simpa using hb

theorem sendKind_eq (msg : Transmit.Send) : sendKind msg = UPDATE ∨ sendKind msg = KEEPALIVE := by
  cases msg
  · exact Or.inr rfl
  · exact Or.inl rfl
  · exact Or.inl rfl

theorem Confirmed.snoc {f : UInt8 × Bytes} (h : Confirmed cfg p rs) :
    Confirmed cfg p (rs ++ [f]) := by
  obtain ⟨body, n, body', tail, rfl, hn⟩ := h
  exact ⟨body, n, body', tail ++ [f], rfl, hn⟩

theorem Said.step (h : Said cfg p xs s.phase) (ha : Effect cfg p s a t) :
    Said cfg p (xs ++ [a]) t.phase := by
  cases ha with
  | closed => exact said_tau.mpr h.finish
  | opened hp hm =>
    rw [hp] at h
    exact ⟨by rw [sentKinds, sent_snoc_sent, List.map_append, ← sentKinds, h.1]; rfl, by simp [h.2]⟩
  | failed hw =>
    obtain ⟨hk, ho, -⟩ := h.waiting hw
    exact said_tau.mpr ⟨hk, Or.inl ho⟩
  | candidate hp hr hn =>
    rw [hp] at h
    exact ⟨by simpa [sentKinds] using h.1, _, _, by simp [h.2], hn⟩
  | @confirmed _ _ body' rest hp hr =>
    rw [hp] at h
    obtain ⟨hk, body, n, hrs, hn⟩ := h
    have hk' : sentKinds (xs ++ [.received KEEPALIVE body']) = [OPEN, KEEPALIVE] := by
      simpa [sentKinds] using hk
    refine ⟨?_, ?_, ?_, ?_⟩
    · rw [hk']
      simp
    · rw [hk']
      exact opening_confirm
    · exact ⟨body, n, body', [], by simp [hrs], hn⟩
    · rw [received_snoc_received, hrs]
      exact orderly_open.snoc rfl
  | handled hp hr hk =>
    rw [hp] at h
    have hw := (h.waiting rfl).2.2
    obtain ⟨hka, hopening, hconf, ho⟩ := h
    refine ⟨by simpa [sentKinds] using hka, by simpa [sentKinds] using hopening, ?_, ?_⟩
    · rw [received_snoc_received]
      exact hconf.snoc
    · rw [received_snoc_received]
      exact ho.snoc (hw ▸ hk)
  | rejected hp hr he =>
    obtain ⟨hk, ho, hw⟩ := h.waiting hp
    refine ⟨by simpa [sentKinds] using hk, ?_⟩
    rw [received_snoc_received]
    rcases he with he | ⟨he, rfl⟩
    · exact Or.inl (ho.snoc (hw ▸ he))
    · exact Or.inr ⟨_, _, _, rfl, ho, hw ▸ he, by rw [hw]⟩
  | ceased hp hm =>
    rw [hp] at h
    obtain ⟨hk, body, n, hrs, -⟩ := h
    refine said_notification (by rw [hk]; exact Or.inl rfl) (Or.inl ?_)
    rw [hrs]
    exact orderly_open
  | accepted hp =>
    rw [hp] at h
    exact said_tau.mpr h
  | confirming hp hm =>
    rw [hp] at h
    obtain ⟨hk, body, n, hrs, hn⟩ := h
    refine ⟨?_, body, n, by simp [hrs], hn⟩
    rw [sentKinds, sent_snoc_sent, List.map_append, ← sentKinds, hk]
    rfl
  | established hp =>
    rw [hp] at h
    exact said_tau.mpr h
  | looped hp =>
    rw [hp] at h
    exact said_tau.mpr h
  | @sent n q tx tx' msg packet hp hm =>
    rw [hp] at h
    obtain ⟨hka, hopening, hconf, ho⟩ := h
    have hk : sentKinds (xs ++ [.sent (sendKind msg) packet]) = sentKinds xs ++ [sendKind msg] := by
      simp [sentKinds]
    refine ⟨?_, ?_, by simpa using hconf, by simpa using ho⟩
    · rw [hk]
      exact List.mem_append_left _ hka
    · rw [hk]
      exact hopening.snoc hka (sendKind_eq msg)
  | reported hp hm =>
    rw [hp] at h
    obtain ⟨hk, hb⟩ := h
    refine said_notification hk ?_
    rcases hb with ho | ⟨before, kind, body, hrs, ho, -, he⟩
    · exact Or.inl ho
    · obtain ⟨hne, hcode, hsub, hdata⟩ := unexpected_protocol he.symm
      rw [hcode, hsub, hdata] at hm
      exact Or.inr ⟨before, kind, body, hrs, ho, hne, hm⟩

/-! Whole conversations. -/

/-- A message that is sent only after certain messages of the peer. -/
def Due (cfg : Config) (p : Peer) (rs : List (UInt8 × Bytes)) (kind : UInt8) : Prop :=
  (kind = KEEPALIVE → Opened cfg p rs) ∧ (kind = UPDATE → Confirmed cfg p rs)

structure Spoken (cfg : Config) (p : Peer) (stream : Bytes) (xs : List Label) (s : State) :
    Prop where
  read : stream = (received xs).flatMap (fun f => frameOctets f.1 f.2) ++ s.stream
  frames : ∀ kind packet, .sent kind packet ∈ xs → IsFrame kind packet
  due : ∀ ys kind packet zs, xs = ys ++ .sent kind packet :: zs → Due cfg p (received ys) kind
  said : Said cfg p xs s.phase

theorem init_spoken : Spoken cfg p stream [] (init stream) where
  read := rfl
  frames := by simp
  due := by simp
  said := ⟨rfl, rfl⟩

theorem Confirmed.opened (h : Confirmed cfg p rs) : Opened cfg p rs := by
  obtain ⟨body, n, body', tail, rfl, hn⟩ := h
  exact ⟨body, n, _, rfl, hn⟩

theorem render_isFrame {q : Peer} {n : Negotiated} {msg : Transmit.Send}
    (h : Session.render cfg q n msg = .ok packet) : IsFrame (sendKind msg) packet := by
  cases msg with
  | keepalive => exact isFrame_of_frame h (fun _ => by decide)
  | update withdraw batch => exact update_isFrame h
  | endOfRib v6 => exact endOfRib_isFrame h

/-- What is sent is a frame of its type, and due. -/
theorem Said.sends (h : Said cfg p xs s.phase) (ha : Effect cfg p s (.sent kind packet) t) :
    IsFrame kind packet ∧ Due cfg p (received xs) kind := by
  generalize hb : Label.sent kind packet = b at ha
  cases ha with
  | opened hp hm =>
    cases hb
    exact ⟨openMessage_isFrame hm, (fun hk => by cases hk), fun hk => by cases hk⟩
  | ceased hp hm =>
    cases hb
    exact ⟨notification_isFrame hm, (fun hk => by cases hk), fun hk => by cases hk⟩
  | confirming hp hm =>
    cases hb
    rw [hp] at h
    obtain ⟨-, body, n, hrs, hn⟩ := h
    refine ⟨isFrame_of_frame hm (fun _ => by decide), fun _ => ?_, fun hk => by cases hk⟩
    exact ⟨body, n, [], hrs, hn⟩
  | sent hp hm =>
    cases hb
    rw [hp] at h
    exact ⟨render_isFrame hm, fun _ => h.2.2.1.opened, fun _ => h.2.2.1⟩
  | reported hp hm =>
    cases hb
    exact ⟨notification_isFrame hm, (fun hk => by cases hk), fun hk => by cases hk⟩
  | _ => cases hb

/-- What is read is the next frame of the stream. -/
theorem Effect.reads (ha : Effect cfg p s (.received kind body) t) :
    s.stream = frameOctets kind body ++ t.stream ∧ ∃ w, s.phase.waits = some w := by
  generalize hb : Label.received kind body = b at ha
  cases ha with
  | candidate hp hr | confirmed hp hr | handled hp hr =>
    cases hb
    refine ⟨(readFrame_eq_ok.mp hr).2, ?_⟩
    rw [hp]
    exact ⟨_, rfl⟩
  | rejected hp hr =>
    cases hb
    exact ⟨(readFrame_eq_ok.mp hr).2, _, hp⟩
  | _ => cases hb

theorem Effect.keeps_stream (ha : Effect cfg p s a t) (hr : ∀ kind body, a ≠ .received kind body) :
    t.stream = s.stream := by
  cases ha with
  | candidate | confirmed | handled | rejected => exact absurd rfl (hr _ _)
  | _ => rfl

theorem Spoken.step (h : Spoken cfg p stream xs s) (hs : Step cfg p s a t) :
    Spoken cfg p stream (xs ++ [a]) t := by
  have ha := hs.effect
  have hsends : ∀ kind packet, a = .sent kind packet →
      IsFrame kind packet ∧ Due cfg p (received xs) kind := by
    rintro kind packet rfl
    exact h.said.sends ha
  refine ⟨?_, ?_, ?_, h.said.step ha⟩
  · cases a with
    | received kind body =>
      have hread := h.read
      rw [ha.reads.1] at hread
      simpa using hread
    | sent kind packet =>
      rw [ha.keeps_stream (fun _ _ hb => by cases hb), received_snoc_sent]
      exact h.read
    | tau =>
      rw [ha.keeps_stream (fun _ _ hb => by cases hb), received_snoc_tau]
      exact h.read
  · intro kind packet hm
    rcases List.mem_append.mp hm with hm | hm
    · exact h.frames kind packet hm
    · exact (hsends kind packet (List.mem_singleton.mp hm).symm).1
  · intro ys kind packet zs hx
    rcases Lts.snoc_eq_append_cons hx with ⟨-, hb, rfl⟩ | ⟨zs', -, hx'⟩
    · exact (hsends kind packet hb).2
    · exact h.due ys kind packet zs' hx'

theorem Spoken.of_trace (h : Lts.Trace (Step cfg p) (init stream) xs s) :
    Spoken cfg p stream xs s :=
  h.history init_spoken (fun _ _ _ _ hs ha => hs.step ha)

/-- No NOTIFICATION but that for the unexpected message follows one. -/
theorem Blamed.unexpected (h : Blamed xs) {before after : List (UInt8 × Bytes)}
    (hx : received xs = before ++ (kind, body) :: after)
    (hk : expects (awaiting before.length) kind = false) (hm : .sent NOTIFICATION packet ∈ xs) :
    kind ≠ NOTIFICATION ∧ notification 5 (awaiting before.length).code [kind] = .ok packet := by
  rcases h packet (mem_sent.mpr hm) with ho | ⟨rs, kind', body', hrs, ho, hne, hn⟩
  · rw [ho before kind body after hx] at hk
    cases hk
  · obtain ⟨rfl, rfl, rfl⟩ := ho.first_unexpected (hrs.symm.trans hx) hk
    exact ⟨hne, hn⟩

/-- The session grammar. Once its OPEN is out, a connection says OPEN, then KEEPALIVE, then UPDATE
and KEEPALIVE messages, and ends with at most a NOTIFICATION. It says KEEPALIVE only after an
accepted OPEN was read first, UPDATE only after a KEEPALIVE was read second. No NOTIFICATION answers
a NOTIFICATION, and the one for an unexpected message carries code 5 and the subcode of the state
the connection was in. -/
theorem session_grammar (h : Lts.Trace (Step cfg p) (init stream) xs s) :
    ((sentKinds xs = [] ∧ received xs = []) ∨ Sentence (sentKinds xs)) ∧
    (∀ kind packet, .sent kind packet ∈ xs → IsFrame kind packet) ∧
    (∃ rest, stream = (received xs).flatMap (fun f => frameOctets f.1 f.2) ++ rest) ∧
    (∀ ys packet zs, xs = ys ++ .sent KEEPALIVE packet :: zs → Opened cfg p (received ys)) ∧
    (∀ ys packet zs, xs = ys ++ .sent UPDATE packet :: zs → Confirmed cfg p (received ys)) ∧
    (∀ ys packet zs, xs = ys ++ .sent NOTIFICATION packet :: zs → sent zs = []) ∧
    (∀ body packet, .received NOTIFICATION body ∈ xs → .sent NOTIFICATION packet ∉ xs) ∧
    (∀ kind body t, Step cfg p s (.received kind body) t →
      s.phase.waits = some (awaiting (received xs).length)) ∧
    ∀ before kind body after packet, received xs = before ++ (kind, body) :: after →
      expects (awaiting before.length) kind = false → .sent NOTIFICATION packet ∈ xs →
      notification 5 (awaiting before.length).code [kind] = .ok packet := by
  have hspoken := Spoken.of_trace h
  obtain ⟨hgrammar, hblamed⟩ := hspoken.said.finish
  refine ⟨hgrammar, hspoken.frames, ⟨s.stream, hspoken.read⟩, ?_, ?_, ?_, ?_, ?_, ?_⟩
  · intro ys packet zs hx
    exact (hspoken.due ys _ packet zs hx).1 rfl
  · intro ys packet zs hx
    exact (hspoken.due ys _ packet zs hx).2 rfl
  · rintro ys packet zs rfl
    have hsplit : sentKinds (ys ++ .sent NOTIFICATION packet :: zs) =
        sentKinds ys ++ NOTIFICATION :: sentKinds zs := by
      simp [sentKinds, sent]
    rw [hsplit] at hgrammar
    rcases hgrammar with ⟨hnil, -⟩ | hsentence
    · simp at hnil
    · exact List.map_eq_nil_iff.mp hsentence.notification_last
  · intro body packet hr hm
    have hmem : (NOTIFICATION, body) ∈ received xs := mem_received.mpr hr
    obtain ⟨before, after, hx⟩ := List.append_of_mem hmem
    exact (hblamed.unexpected hx (expects_notification _) hm).1 rfl
  · intro kind body t ht
    obtain ⟨w, hw⟩ := ht.effect.reads.2
    rw [(hspoken.said.waiting hw).2.2]
    exact hw
  · intro before kind body after packet hx hk hm
    exact (hblamed.unexpected hx hk hm).2

/-- The peer opens, confirms and then opens again. -/
def reopenStream : Bytes :=
  frameOctets OPEN (openBody remoteConfig remotePeer) ++ frameOctets KEEPALIVE [] ++
    frameOctets OPEN (openBody remoteConfig remotePeer)

/-- The session gets as far as its end-of-RIB marker before it reads the second OPEN. -/
def reopenMoves : List Move :=
  [.sendOpen, .read, .accept none, .sendKeepalive, .read, .establish ∅ 0] ++
    List.replicate 6 (.loop (.run 0 ⟨[], []⟩)) ++ [.read, .report]

theorem reopenMoves_exec :
    (Lts.exec (step exampleConfig examplePeer) reopenMoves (init reopenStream)).map
      (fun r => (sentKinds r.1, (received r.1).map Prod.fst)) =
      some ([OPEN, KEEPALIVE, UPDATE, NOTIFICATION], [OPEN, KEEPALIVE, OPEN]) := by
  decide +kernel

theorem example_session_grammar :
    ∃ xs s packet, Lts.Trace (Step exampleConfig examplePeer) (init reopenStream) xs s ∧
      sentKinds xs = [OPEN, KEEPALIVE, UPDATE, NOTIFICATION] ∧
      .sent NOTIFICATION packet ∈ xs ∧ notification 5 3 [OPEN] = .ok packet := by
  obtain ⟨⟨xs, s⟩, hr, he⟩ := Option.map_eq_some_iff.mp reopenMoves_exec
  simp only [Prod.mk.injEq] at he
  obtain ⟨hkinds, hread⟩ := he
  have htrace : Lts.Trace (Step exampleConfig examplePeer) (init reopenStream) xs s :=
    Lts.exec_trace hr
  obtain ⟨⟨kind, packet⟩, hm, rfl⟩ : ∃ f ∈ sent xs, f.1 = NOTIFICATION := by
    apply List.mem_map.mp
    change NOTIFICATION ∈ sentKinds xs
    rw [hkinds]
    decide
  obtain ⟨f, rs, hx, -, htail⟩ := List.map_eq_cons_iff.mp hread
  obtain ⟨g, rs, rfl, -, htail⟩ := List.map_eq_cons_iff.mp htail
  obtain ⟨⟨k, body⟩, rs, rfl, rfl, -⟩ := List.map_eq_cons_iff.mp htail
  obtain ⟨-, -, -, -, -, -, -, -, hunexpected⟩ := session_grammar htrace
  exact ⟨xs, s, packet, htrace, hkinds, mem_sent.mp hm,
    hunexpected [f, g] _ body rs packet hx rfl (mem_sent.mp hm)⟩

end Connection
end Ubgp
