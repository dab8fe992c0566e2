import Ubgp.Bgp.Stream

/-! What the connection of a session carries: the octets are the encodings of the messages of the
export loop, in order, however the writes were cut. -/
namespace Ubgp
namespace Transmit

variable {n : Negotiated} {acl : String} {s t : State} {a : Label} {xs ys : List Label}
  {d : ℕ} {o : Orders} {msg : Send}

def Label.message : Label → Option Send
  | .sent m => some m
  | _ => none

/-- The messages of a history. -/
def sends (xs : List Label) : List Send := xs.filterMap Label.message

theorem sends_append : sends (xs ++ ys) = sends xs ++ sends ys := List.filterMap_append

theorem sends_singleton : sends [a] = a.message.toList := by
  cases h : a.message <;> simp [sends, h]

theorem replanSection_message (h : s.replanSection n acl d o = some (a, t)) :
    a.message = none := by
  unfold State.replanSection at h
  split at h
  · cases h
    rfl
  · split at h
    · simp only [Option.bind_eq_bind, Option.bind_eq_some_iff, Option.pure_def,
        Option.some.injEq, Prod.mk.injEq] at h
      obtain ⟨_, -, rfl, -⟩ := h
      rfl
    · cases h
      rfl

theorem refreshSection_message (h : s.refreshSection n d o = some (a, t)) :
    a.message = none := by
  simp only [State.refreshSection] at h
  split at h
  · simp only [Option.bind_eq_bind, Option.bind_eq_some_iff, Option.pure_def, Option.some.injEq,
      Prod.mk.injEq] at h
    obtain ⟨_, -, rfl, -⟩ := h
    rfl
  · cases h
    rfl

/-- A section sends what it was about to send. -/
theorem run_message (h : step n acl s (.run d o) = some (a, t)) : a.message = s.outgoing n := by
  change s.advance n acl d o = some (a, t) at h
  unfold State.advance at h
  unfold State.outgoing
  split at h
  case h_1 hpc =>
    rw [hpc]
    simp only [State.begin, Option.bind_eq_bind, Option.bind_eq_some_iff, Option.pure_def,
      Option.some.injEq, Prod.mk.injEq] at h
    obtain ⟨_, -, rfl, -⟩ := h
    rfl
  case h_2 hpc =>
    rw [hpc]
    exact replanSection_message h
  case h_3 hpc =>
    rw [hpc]
    exact refreshSection_message h
  case h_4 hpc =>
    simp only [hpc]
    simp only [State.keepaliveSection, Option.some.injEq] at h
    split at h
    · rename_i hc
      cases h
      rw [if_pos hc]
      rfl
    · rename_i hc
      cases h
      rw [if_neg hc]
      rfl
  case h_5 hpc =>
    simp only [hpc]
    simp only [State.batchSection, Option.some.injEq] at h
    split at h
    · rename_i hn
      cases h
      simp [hn, Label.message]
    · rename_i hn
      cases h
      simp [hn, Label.message]
  case h_6 hpc =>
    cases h
    cases hv : s.eor.v4 <;> simp [hpc, Label.message]
  case h_7 hpc =>
    cases h
    cases hv : s.eor.v6 <;> simp [hpc, Label.message]
  case h_8 hpc =>
    cases h
    simp [hpc, Label.message]
  case h_9 => cases h
  case h_10 => cases h

theorem wake_message {branch : Branch} (h : step n acl s (.wake branch d o) = some (a, t)) :
    a.message = none := by
  simp only [step] at h
  split at h
  · rename_i hpc
    cases wake_effect hpc h with
    | keepalive hpc' | batch hpc' | eor4 hpc' | eor6 hpc' => simp [hpc] at hpc'
    | _ => rfl
  · cases h

/-- The moves of the environment of the loop. -/
def Move.ambient : Move → Bool
  | .run _ _ => false
  | .wake _ _ _ => false
  | _ => true

/-- The environment never takes back what is about to be sent. -/
theorem ambient_message {m : Move} (hm : m.ambient = true) (h : step n acl s m = some (a, t)) :
    a.message = none ∧ ∀ msg, s.outgoing n = some msg → t.outgoing n = some msg := by
  have hkeep : ∀ t : State, t.pc = s.pc → t.plan = s.plan → t.eor = s.eor →
      t.nextKeepalive = s.nextKeepalive → s.now ≤ t.now →
      ∀ msg, s.outgoing n = some msg → t.outgoing n = some msg := by
    intro t hpc hplan heor hnext hnow msg
    unfold State.outgoing
    rw [hpc, hplan, heor, hnext]
    split
    · intro hs
      simp only [Option.ite_none_right_eq_some] at hs ⊢
      exact ⟨⟨hs.1.1, hs.1.2.trans hnow⟩, hs.2⟩
    all_goals exact id
  cases m with
  | publish e =>
    simp only [step, Option.ite_none_left_eq_some] at h
    obtain ⟨-, rfl, rfl⟩ := h
    exact ⟨rfl, hkeep _ rfl rfl rfl rfl (Nat.le_refl _)⟩
  | request v6 =>
    simp only [step, Option.ite_none_left_eq_some] at h
    obtain ⟨-, rfl, rfl⟩ := h
    exact ⟨rfl, hkeep _ rfl rfl rfl rfl (Nat.le_refl _)⟩
  | notify =>
    simp only [step, Option.ite_none_right_eq_some] at h
    obtain ⟨-, rfl, rfl⟩ := h
    exact ⟨rfl, hkeep _ rfl rfl rfl rfl (Nat.le_refl _)⟩
  | tick d =>
    cases h
    exact ⟨rfl, hkeep _ rfl rfl rfl rfl (Nat.le_add_right _ _)⟩
  | close =>
    cases h
    exact ⟨rfl, hkeep _ rfl rfl rfl rfl (Nat.le_refl _)⟩
  | run | wake => cases hm

end Transmit

namespace Session
open Transmit (sends sends_append sends_singleton)

variable {cfg : Config} {p : Peer} {n : Negotiated} {s t : State} {a : Label} {xs : List Label}
  {e : Exports} {t₀ : ℕ} {ms : List Transmit.Send} {tx tx' : Transmit.State} {phase : Phase}
  {b : Bytes}

/-- The KEEPALIVE that confirms the peer's OPEN. -/
def confirmation : Bytes := frameOctets KEEPALIVE []

/-- The encodings of messages, one by one. -/
def Renders (cfg : Config) (p : Peer) (n : Negotiated) (ms : List Transmit.Send)
    (packets : List Bytes) : Prop :=
  List.Forall₂ (fun m f => render cfg p n m = .ok f) ms packets

/-- What the connection carries: the confirmation, the messages the export loop has sent and the
written part of the one it is about to have sent. -/
inductive Carries (cfg : Config) (p : Peer) (n : Negotiated) (ms : List Transmit.Send)
    (tx : Transmit.State) : Phase → Bytes → Prop
  | start (hms : ms = []) : Carries cfg p n ms tx .start []
  | confirming {w : Write} (hms : ms = []) (hw : w.packet = confirmation) :
      Carries cfg p n ms tx (.confirming w) (w.packet.take w.done)
  | waiting {deadline : ℕ} (hms : ms = []) : Carries cfg p n ms tx (.waiting deadline) confirmation
  | idle {expires : Option ℕ} {packets : List Bytes} (hms : Renders cfg p n ms packets) :
      Carries cfg p n ms tx (.established expires none) (confirmation ++ packets.flatten)
  | writing {expires : Option ℕ} {w : Write} {packets : List Bytes} {m : Transmit.Send}
      (hms : Renders cfg p n ms packets) (ho : tx.outgoing n = some m)
      (hr : render cfg p n m = .ok w.packet) :
      Carries cfg p n ms tx (.established expires (some w))
        (confirmation ++ packets.flatten ++ w.packet.take w.done)
  | spent {phase : Phase} {b : Bytes} (h : phase = .closed ∨ ∃ w, phase = .reporting w) :
      Carries cfg p n ms tx phase b

/-- Nothing was sent, and what was about to be sent still is. -/
theorem Carries.listen (h : Carries cfg p n ms tx phase b)
    (ho : ∀ m, tx.outgoing n = some m → tx'.outgoing n = some m) :
    Carries cfg p n ms tx' phase b := by
  cases h with
  | start hms => exact .start hms
  | confirming hms hw => exact .confirming hms hw
  | waiting hms => exact .waiting hms
  | idle hms => exact .idle hms
  | writing hms hm hr => exact .writing hms (ho _ hm) hr
  | spent h => exact .spent h

/-- The export loop of a session so far. -/
structure Spoken (cfg : Config) (p : Peer) (n : Negotiated) (e : Exports) (t₀ : ℕ)
    (xs : List Label) (s : State) (ys : List Transmit.Label) : Prop where
  trace : Lts.Trace (Transmit.Step n p.exportAcl) (Transmit.init e t₀) ys s.tx
  published : ∀ e', Transmit.Label.publish e' ∈ ys → Label.loop (.publish e') ∈ xs
  carries : Carries cfg p n (sends ys) s.tx s.phase (octets xs)

theorem fail_over (s : State) (e : Fault) :
    (s.fail e).tx = s.tx ∧ ((s.fail e).phase = .closed ∨ ∃ w, (s.fail e).phase = .reporting w) := by
  refine ⟨?_, ?_⟩
  · unfold State.fail
    split
    · split <;> rfl
    · rfl
  · rcases fail_cases s e with h | ⟨w, h, -⟩
    · exact Or.inl h
    · exact Or.inr ⟨w, h⟩

theorem loop_eq {m : Transmit.Move} (h : s.loop p n m phase = some (a, t)) :
    ∃ b, Transmit.step n p.exportAcl s.tx m = some (b, t.tx) ∧ a = .loop b ∧
      (t.phase = .closed ∨ t.phase = phase) := by
  simp only [State.loop, Option.bind_eq_bind, Option.bind_eq_some_iff, Option.pure_def,
    Option.some.injEq, Prod.exists, Prod.mk.injEq] at h
  obtain ⟨b, tx, hstep, rfl, rfl⟩ := h
  refine ⟨b, hstep, rfl, ?_⟩
  split
  · exact Or.inl rfl
  · exact Or.inr rfl

theorem octets_loop (c : Transmit.Label) : octets (xs ++ [.loop c]) = octets xs := by
  simp [octets, Label.octets]

variable {ys : List Transmit.Label}

/-- The session is over, whatever it carries. -/
theorem Spoken.ends (h : Spoken cfg p n e t₀ xs s ys) (a : Label) (htx : t.tx = s.tx)
    (ht : t.phase = .closed ∨ ∃ w, t.phase = .reporting w) :
    Spoken cfg p n e t₀ (xs ++ [a]) t ys where
  trace := by
    rw [htx]
    exact h.trace
  published := fun e' he => List.mem_append_left _ (h.published e' he)
  carries := .spent ht

/-- A step that leaves the export loop alone and writes nothing. -/
theorem Spoken.quiet (h : Spoken cfg p n e t₀ xs s ys) (ha : a.octets = []) (htx : t.tx = s.tx)
    (hc : Carries cfg p n (sends ys) s.tx t.phase (octets xs)) :
    Spoken cfg p n e t₀ (xs ++ [a]) t ys where
  trace := by
    rw [htx]
    exact h.trace
  published := fun e' he => List.mem_append_left _ (h.published e' he)
  carries := by
    rw [octets_snoc, ha, List.append_nil, htx]
    exact hc

/-- A step of the export loop. -/
theorem Spoken.looped (h : Spoken cfg p n e t₀ xs s ys) {c : Transmit.Label}
    (hstep : Transmit.Step n p.exportAcl s.tx c t.tx)
    (hc : Carries cfg p n (sends ys ++ c.message.toList) t.tx t.phase (octets xs)) :
    Spoken cfg p n e t₀ (xs ++ [.loop c]) t (ys ++ [c]) where
  trace := .snoc h.trace hstep
  published := by
    intro e' he
    rcases List.mem_append.mp he with he | he
    · exact List.mem_append_left _ (h.published e' he)
    · rw [List.mem_singleton.mp he]
      exact List.mem_append_right _ (List.mem_singleton_self _)
  carries := by
    rw [octets_loop, sends_append, sends_singleton]
    exact hc

/-- A refresh request says nothing. -/
theorem request_trace {refresh : Option Bool} (h : s.request p n refresh = some tx) :
    ∃ zs, Lts.Trace (Transmit.Step n p.exportAcl) s.tx zs tx ∧ sends zs = [] ∧
      (∀ e', Transmit.Label.publish e' ∉ zs) ∧
      ∀ m, s.tx.outgoing n = some m → tx.outgoing n = some m := by
  cases refresh with
  | none =>
    cases h
    exact ⟨[], .refl, rfl, by simp, fun _ hm => hm⟩
  | some v6 =>
    simp only [State.request, Option.bind_eq_bind, Option.bind_eq_some_iff, Prod.exists,
      Option.pure_def, Option.some.injEq] at h
    obtain ⟨c, tx₁, h₁, c', tx₂, h₂, rfl⟩ := h
    have hm₁ : c.message = none := (Transmit.ambient_message rfl h₁).1
    have hm₂ : c'.message = none := (Transmit.ambient_message rfl h₂).1
    refine ⟨[] ++ [c] ++ [c'], .snoc (.snoc .refl ⟨_, h₁⟩) ⟨_, h₂⟩, ?_, ?_, ?_⟩
    · simp [sends, hm₁, hm₂]
    · intro e' he
      simp only [Transmit.step, Option.ite_none_left_eq_some, Option.ite_none_right_eq_some,
        Option.some.injEq, Prod.mk.injEq] at h₁ h₂
      obtain ⟨-, rfl, -⟩ := h₁
      obtain ⟨-, rfl, -⟩ := h₂
      simp at he
    · intro m hm
      exact (Transmit.ambient_message rfl h₂).2 _ ((Transmit.ambient_message rfl h₁).2 _ hm)

theorem Spoken.receive {stream : Bytes} (h : Spoken cfg p n e t₀ xs s ys)
    (hr : s.receive p n stream = some (a, t)) : ∃ ys, Spoken cfg p n e t₀ (xs ++ [a]) t ys := by
  have hc := h.carries
  unfold State.receive at hr
  split at hr
  case h_1 hphase =>
    rw [hphase] at hc
    split at hr
    · cases hr
      refine ⟨ys, h.quiet rfl rfl ?_⟩
      generalize octets xs = b at hc
      cases hc with
      | waiting hms =>
        have hidle : Renders cfg p n (sends ys) [] := by
          rw [hms]
          exact List.Forall₂.nil
        simpa using @Carries.idle cfg p n _ s.tx none _ hidle
      | spent hover => rcases hover with hover | ⟨w, hover⟩ <;> cases hover
    · cases hr
      obtain ⟨htx, hover⟩ := fail_over s _
      exact ⟨ys, h.ends _ htx hover⟩
  case h_2 hphase =>
    split at hr
    · simp only [Option.bind_eq_bind, Option.bind_eq_some_iff, Option.pure_def, Option.some.injEq,
        Prod.mk.injEq] at hr
      obtain ⟨tx, hreq, rfl, rfl⟩ := hr
      obtain ⟨zs, hz, hsends, hpub, ho⟩ := request_trace hreq
      refine ⟨ys ++ zs, h.trace.append hz, ?_, ?_⟩
      · intro e' he
        rcases List.mem_append.mp he with he | he
        · exact List.mem_append_left _ (h.published e' he)
        · exact absurd he (hpub e')
      · have hsilent : octets (xs ++ [.received stream]) = octets xs := octets_silent ⟨rfl, rfl⟩
        rw [hsilent, sends_append, hsends, List.append_nil]
        rw [hphase] at hc
        generalize octets xs = b at hc
        cases hc with
        | idle hms => exact .idle hms
        | writing hms hm hr => exact .writing hms (ho _ hm) hr
        | spent hover => rcases hover with hover | ⟨w, hover⟩ <;> cases hover
    · cases hr
      obtain ⟨htx, hover⟩ := fail_over s _
      exact ⟨ys, h.ends _ htx hover⟩
  case h_3 => cases hr

/-- A write has returned: the export loop accounts for the message. -/
theorem Spoken.written {w : Write} {d : ℕ} {o : Transmit.Orders}
    (h : Spoken cfg p n e t₀ xs s ys) (hw : s.phase.write = some w)
    (hdone : w.done = w.packet.length) (hr : s.written p n d o = some (a, t)) :
    ∃ ys, Spoken cfg p n e t₀ (xs ++ [a]) t ys := by
  have hc := h.carries
  unfold State.written at hr
  split at hr
  case h_1 hphase =>
    cases hr
    rw [hphase] at hw hc
    cases hw
    refine ⟨ys, h.quiet rfl rfl ?_⟩
    generalize octets xs = b at hc
    cases hc with
    | confirming hms hpacket =>
      rw [hdone, List.take_length, hpacket]
      exact .waiting hms
    | spent hover => rcases hover with hover | ⟨w, hover⟩ <;> cases hover
  case h_2 hphase =>
    obtain ⟨c, hstep, rfl, ht⟩ := loop_eq hr
    refine ⟨ys ++ [c], h.looped ⟨_, hstep⟩ ?_⟩
    rcases ht with ht | ht
    · exact .spent (Or.inl ht)
    · rw [ht]
      rw [hphase] at hw hc
      cases hw
      generalize octets xs = b at hc
      cases hc with
      | @writing _ _ packets m hms hm hr =>
        have hmsg := Transmit.run_message hstep
        rw [hmsg, hm, hdone, List.take_length]
        have hnew : Renders cfg p n (sends ys ++ [m]) (packets ++ [w.packet]) :=
          List.rel_append hms (List.Forall₂.cons hr List.Forall₂.nil)
        have hb : confirmation ++ packets.flatten ++ w.packet =
            confirmation ++ (packets ++ [w.packet]).flatten := by simp
        rw [hb]
        exact .idle hnew
      | spent hover => rcases hover with hover | ⟨w, hover⟩ <;> cases hover
  case h_3 hphase hphase' =>
    cases hr
    exact ⟨ys, h.ends _ rfl (Or.inl rfl)⟩

theorem Spoken.loop {m : Transmit.Move} {expires : Option ℕ}
    (h : Spoken cfg p n e t₀ xs s ys) (hphase : s.phase = .established expires none)
    (hm : ∀ c tx, Transmit.step n p.exportAcl s.tx m = some (c, tx) → c.message = none)
    (hr : s.loop p n m (.established expires none) = some (a, t)) :
    ∃ ys, Spoken cfg p n e t₀ (xs ++ [a]) t ys := by
  have hc := h.carries
  obtain ⟨c, hstep, rfl, ht⟩ := loop_eq hr
  refine ⟨ys ++ [c], h.looped ⟨_, hstep⟩ ?_⟩
  rw [hm c _ hstep]
  rcases ht with ht | ht
  · exact .spent (Or.inl ht)
  · rw [ht]
    rw [hphase] at hc
    generalize octets xs = b at hc
    cases hc with
    | idle hms => exact .idle (by simpa using hms)
    | spent hover => rcases hover with hover | ⟨w, hover⟩ <;> cases hover

/-- The connection takes some octets of the packet. -/
theorem Spoken.accept {w : Write} {k : ℕ} (h : Spoken cfg p n e t₀ xs s ys)
    (hw : s.phase.write = some w) :
    Spoken cfg p n e t₀ (xs ++ [.wrote w.packet w.done k])
      { s with phase := s.phase.withWrite { w with done := w.done + k } } ys where
  trace := h.trace
  published := fun e' he => List.mem_append_left _ (h.published e' he)
  carries := by
    have hc := h.carries
    have htake : w.packet.take w.done ++ (w.packet.drop w.done).take k =
        w.packet.take (w.done + k) := List.take_add.symm
    rw [octets_snoc, Label.octets]
    generalize octets xs = b at hc
    generalize hphase : s.phase = phase at hc hw
    cases hc with
    | confirming hms hpacket =>
      cases hw
      rw [htake]
      exact .confirming (w := { w with done := w.done + k }) hms hpacket
    | writing hms hm hr =>
      cases hw
      rw [List.append_assoc, htake]
      exact .writing (w := { w with done := w.done + k }) hms hm hr
    | start | waiting | idle => cases hw
    | spent hover =>
      rcases hover with rfl | ⟨w', rfl⟩
      · cases hw
      · exact .spent (Or.inr ⟨_, rfl⟩)

theorem spoken_step (h : Spoken cfg p n e t₀ xs s ys) (ha : Step cfg p n s a t) :
    ∃ ys, Spoken cfg p n e t₀ (xs ++ [a]) t ys := by
  obtain ⟨m, ha⟩ := ha
  have hc := h.carries
  cases m with
  | environment m =>
    have hloop : m.ambient = true ∧ s.loop p n m s.phase = some (a, t) := by
      cases m <;> first | exact ⟨rfl, ha⟩ | cases ha
    obtain ⟨c, hstep, rfl, ht⟩ := loop_eq hloop.2
    refine ⟨ys ++ [c], h.looped ⟨_, hstep⟩ ?_⟩
    have hmsg : c.message = none :=
      (Transmit.ambient_message hloop.1 hstep).1
    rw [hmsg]
    rcases ht with ht | ht
    · exact .spent (Or.inl ht)
    · rw [ht]
      have hlisten := hc.listen (Transmit.ambient_message hloop.1 hstep).2
      simpa using hlisten
  | send =>
    simp only [step] at ha
    split at ha
    case h_1 hphase =>
      cases ha
      refine ⟨ys, ?_⟩
      unfold State.begin
      split
      · rename_i packet hframe
        refine h.quiet rfl rfl ?_
        rw [hphase] at hc
        generalize octets xs = b at hc
        cases hc with
        | start hms => exact .confirming hms (frame_eq_ok.mp hframe).2
        | spent hover => rcases hover with hover | ⟨w, hover⟩ <;> cases hover
      · exact h.ends _ rfl (Or.inl rfl)
    case h_2 expires hphase =>
      simp only [Option.bind_eq_bind, Option.bind_eq_some_iff, Option.pure_def,
        Option.some.injEq, Prod.mk.injEq] at ha
      obtain ⟨m, hm, rfl, rfl⟩ := ha
      refine ⟨ys, ?_⟩
      unfold State.begin
      split
      · rename_i packet hrender
        refine h.quiet rfl rfl ?_
        rw [hphase] at hc
        generalize octets xs = b at hc
        cases hc with
        | @idle _ packets hms =>
          have hwriting : Carries cfg p n (sends ys) s.tx
              (.established expires (some (s.newWrite packet p.writeTimeoutSecs))) _ :=
            .writing hms hm hrender
          simpa [State.newWrite] using hwriting
        | spent hover => rcases hover with hover | ⟨w, hover⟩ <;> cases hover
      · exact h.ends _ rfl (Or.inl rfl)
    case h_3 => cases ha
  | accept k =>
    simp only [step, Option.bind_eq_bind, Option.bind_eq_some_iff] at ha
    obtain ⟨w, hw, ha⟩ := ha
    split at ha
    · cases ha
      exact ⟨ys, h.accept hw⟩
    · cases ha
  | written d o =>
    simp only [step, Option.bind_eq_bind, Option.bind_eq_some_iff,
      Option.ite_none_right_eq_some] at ha
    obtain ⟨w, hw, hdone, ha⟩ := ha
    exact h.written hw hdone ha
  | writeExpired =>
    simp only [step, Option.bind_eq_bind, Option.bind_eq_some_iff] at ha
    obtain ⟨w, -, ha⟩ := ha
    split at ha
    · cases ha
      exact ⟨ys, h.ends _ rfl (Or.inl rfl)⟩
    · cases ha
  | writeFailed =>
    simp only [step, Option.bind_eq_bind, Option.bind_eq_some_iff] at ha
    obtain ⟨w, -, ha⟩ := ha
    split at ha
    · cases ha
      exact ⟨ys, h.ends _ rfl (Or.inl rfl)⟩
    · cases ha
  | poll =>
    simp only [step] at ha
    split at ha
    case h_1 hphase =>
      cases ha
      refine ⟨ys, h.quiet rfl rfl ?_⟩
      rw [hphase] at hc
      generalize octets xs = b at hc
      cases hc with
      | idle hms => exact .idle hms
      | writing hms hm hr => exact .writing hms hm hr
      | spent hover => rcases hover with hover | ⟨w, hover⟩ <;> cases hover
    case h_2 => cases ha
  | receive stream =>
    simp only [step, Option.ite_none_right_eq_some] at ha
    exact h.receive ha.2
  | readFailed =>
    simp only [step] at ha
    split at ha
    · cases ha
      exact ⟨ys, h.ends _ rfl (Or.inl rfl)⟩
    · cases ha
      exact ⟨ys, h.ends _ rfl (Or.inl rfl)⟩
    · cases ha
  | expire =>
    simp only [step] at ha
    unfold State.expire at ha
    split at ha
    case h_1 | h_2 =>
      split at ha
      · cases ha
        obtain ⟨htx, hover⟩ := fail_over s _
        exact ⟨ys, h.ends _ htx hover⟩
      · cases ha
    case h_3 => cases ha
  | loop m =>
    simp only [step] at ha
    split at ha
    case h_1 hphase hout =>
      refine h.loop hphase ?_ ha
      intro c tx hstep
      rw [Transmit.run_message hstep, hout]
    case h_2 hphase hout =>
      refine h.loop hphase ?_ ha
      intro c tx hstep
      exact Transmit.wake_message hstep
    case h_3 => cases ha

theorem init_spoken : Spoken cfg p n e t₀ [] (init e t₀) [] where
  trace := .refl
  published := by simp
  carries := .start rfl

/-- In every run the session is a run of its export loop, and the connection carries its
messages. -/
theorem spoken_of_trace (h : Lts.Trace (Step cfg p n) (init e t₀) xs s) :
    ∃ ys, Spoken cfg p n e t₀ xs s ys := by
  refine h.history (P := fun xs s => ∃ ys, Spoken cfg p n e t₀ xs s ys) ⟨[], init_spoken⟩ ?_
  rintro xs s a t ⟨ys, hs⟩ ha
  exact spoken_step hs ha

/-! The frames of a session, also of one that has failed. -/

/-- What a session may begin to write where its export loop stands. -/
inductive Utters (cfg : Config) (p : Peer) (n : Negotiated) (tx : Transmit.State) : Bytes → Prop
  | confirmation : Utters cfg p n tx confirmation
  | message {m : Transmit.Send} {f : Bytes} (ho : tx.outgoing n = some m)
      (hr : render cfg p n m = .ok f) : Utters cfg p n tx f
  | notification {code subcode : UInt8} {data f : Bytes}
      (hf : notification code subcode data = .ok f) : Utters cfg p n tx f

theorem fail_utters {w : Write} (s : State) (e : Fault) (h : (s.fail e).phase.write = some w) :
    (∃ w₀, s.phase.write = some w₀ ∧ w₀.packet = w.packet) ∨ Utters cfg p n s.tx w.packet := by
  unfold State.fail at h
  split at h
  · split at h
    · rename_i hn
      cases h
      exact Or.inr (.notification hn)
    · cases h
  · cases h

theorem begin_utters {packet : Result Bytes} {phase : Write → Phase} {w : Write}
    (hphase : ∀ w, (phase w).write = some w) (hp : ∀ f, packet = .ok f → Utters cfg p n s.tx f)
    (h : (s.begin p packet phase).phase.write = some w) : Utters cfg p n s.tx w.packet := by
  unfold State.begin at h
  split at h
  · rw [hphase] at h
    cases h
    exact hp _ rfl
  · cases h

/-- A write goes on, or is begun with something the session may say. -/
theorem write_step {w : Write} (ha : Step cfg p n s a t) (hw : t.phase.write = some w) :
    (∃ w₀, s.phase.write = some w₀ ∧ w₀.packet = w.packet) ∨ Utters cfg p n s.tx w.packet := by
  obtain ⟨m, ha⟩ := ha
  have hsame : t.phase.write = s.phase.write →
      (∃ w₀, s.phase.write = some w₀ ∧ w₀.packet = w.packet) ∨ Utters cfg p n s.tx w.packet :=
    fun h => Or.inl ⟨w, h ▸ hw, rfl⟩
  have hnone : t.phase.write ≠ none := by simp [hw]
  cases m with
  | environment m =>
    have hloop : s.loop p n m s.phase = some (a, t) := by
      cases m <;> first | exact ha | cases ha
    obtain ⟨-, hc | ht⟩ := loop_effect hloop
    · exact absurd (by rw [hc]; rfl) hnone
    · exact hsame (by rw [ht])
  | send =>
    simp only [step] at ha
    split at ha
    case h_1 =>
      cases ha
      refine Or.inr (begin_utters (fun _ => rfl) ?_ hw)
      intro f hf
      obtain rfl : f = confirmation := (frame_eq_ok.mp hf).2
      exact .confirmation
    case h_2 =>
      simp only [Option.bind_eq_bind, Option.bind_eq_some_iff, Option.pure_def,
        Option.some.injEq, Prod.mk.injEq] at ha
      obtain ⟨m, hm, rfl, rfl⟩ := ha
      exact Or.inr (begin_utters (fun _ => rfl) (fun f hf => .message hm hf) hw)
    case h_3 => cases ha
  | accept k =>
    simp only [step, Option.bind_eq_bind, Option.bind_eq_some_iff] at ha
    obtain ⟨w₀, hw₀, ha⟩ := ha
    split at ha
    · cases ha
      rw [write_withWrite hw₀] at hw
      cases hw
      exact Or.inl ⟨w₀, hw₀, rfl⟩
    · cases ha
  | written d o =>
    simp only [step, Option.bind_eq_bind, Option.bind_eq_some_iff,
      Option.ite_none_right_eq_some] at ha
    obtain ⟨w₀, -, -, ha⟩ := ha
    unfold State.written at ha
    split at ha
    · cases ha
      cases hw
    · obtain ⟨-, hc | ht⟩ := loop_effect ha
      · exact absurd (by rw [hc]; rfl) hnone
      · exact absurd (by rw [ht]; rfl) hnone
    · cases ha
      cases hw
  | writeExpired | writeFailed =>
    simp only [step, Option.bind_eq_bind, Option.bind_eq_some_iff] at ha
    obtain ⟨w₀, -, ha⟩ := ha
    split at ha
    · cases ha
      cases hw
    · cases ha
  | poll =>
    simp only [step] at ha
    split at ha
    case h_1 hphase =>
      cases ha
      exact hsame (by rw [hphase]; rfl)
    case h_2 => cases ha
  | receive stream =>
    simp only [step, Option.ite_none_right_eq_some] at ha
    have hr := ha.2
    unfold State.receive at hr
    split at hr
    case h_1 =>
      split at hr
      · cases hr
        cases hw
      · cases hr
        exact fail_utters s _ hw
    case h_2 hphase =>
      split at hr
      · simp only [Option.bind_eq_bind, Option.bind_eq_some_iff, Option.pure_def,
          Option.some.injEq, Prod.mk.injEq] at hr
        obtain ⟨tx, -, -, rfl⟩ := hr
        exact hsame (by rw [hphase]; rfl)
      · cases hr
        exact fail_utters s _ hw
    case h_3 => cases hr
  | readFailed =>
    simp only [step] at ha
    split at ha
    · cases ha
      cases hw
    · cases ha
      cases hw
    · cases ha
  | expire =>
    simp only [step] at ha
    unfold State.expire at ha
    split at ha
    case h_1 | h_2 =>
      split at ha
      · cases ha
        exact fail_utters s _ hw
      · cases ha
    case h_3 => cases ha
  | loop m =>
    simp only [step] at ha
    split at ha
    case h_3 => cases ha
    all_goals
      obtain ⟨-, hc | ht⟩ := loop_effect ha
      · exact absurd (by rw [hc]; rfl) hnone
      · exact absurd (by rw [ht]; rfl) hnone

/-- A frame the session has said or is saying, at a reachable place of its export loop. -/
def Uttered (cfg : Config) (p : Peer) (n : Negotiated) (e : Exports) (t₀ : ℕ) (f : Bytes) : Prop :=
  ∃ ys tx, Lts.Trace (Transmit.Step n p.exportAcl) (Transmit.init e t₀) ys tx ∧
    Utters cfg p n tx f

/-- Whatever octets a session ever puts on its connection belong to a frame it may say. -/
theorem uttered_of_trace (h : Lts.Trace (Step cfg p n) (init e t₀) xs s) :
    (∀ f ∈ frames xs, Uttered cfg p n e t₀ f) ∧
      ∀ w, s.phase.write = some w → Uttered cfg p n e t₀ w.packet := by
  induction h with
  | refl =>
    refine ⟨by simp [frames], ?_⟩
    intro w hw
    cases hw
  | @snoc s t xs a h ha ih =>
    obtain ⟨hframes, hwrite⟩ := ih
    refine ⟨?_, ?_⟩
    · intro f hf
      rw [frames_snoc] at hf
      rcases List.mem_append.mp hf with hf | hf
      · exact hframes f hf
      · have hopened : a.opened = some f := by simpa using hf
        cases ha.effect with
        | @wrote _ w k hw =>
          obtain rfl : w.packet = f := by
            simp only [Label.opened, Option.ite_none_right_eq_some, Option.some.injEq] at hopened
            exact hopened.2
          exact hwrite w hw
        | keep hs | finished hs | began hs | closed hs =>
          rw [hs.2] at hopened
          cases hopened
        | reported hs =>
          rcases hs with rfl | ⟨stream, rfl, -⟩ <;> cases hopened
    · intro w hw
      rcases write_step ha hw with ⟨w₀, hw₀, hpacket⟩ | hnew
      · rw [← hpacket]
        exact hwrite w₀ hw₀
      · obtain ⟨ys, hspoken⟩ := spoken_of_trace h
        exact ⟨ys, s.tx, hspoken.trace, hnew⟩

end Session
end Ubgp
