import Ubgp.Netlink.Message

/-! Notifications: what a datagram says about lost or changed state, and what a dump datagram adds
to a snapshot (`drain` and the callback of `snapshot` in `netlink.rs`). -/
namespace Ubgp
namespace Netlink

open SliceLoop (Control)

variable {bytes : Bytes} {m : Message} {ms : List Message} {r : Option Fault} {len : ℕ}

/-! Datagrams as lists of messages. -/

/-- The messages a walk over a datagram visits, and the error it ends with. -/
inductive Scans : Bytes → List Message → Option Fault → Prop
  | nil : Scans [] [] none
  | bad {bytes : Bytes} {e : Fault} (hb : bytes ≠ []) (hh : header bytes = .error e) :
      Scans bytes [] (some e)
  | last {bytes : Bytes} {m : Message} (hb : bytes ≠ [])
      (hh : header bytes = .ok (m, bytes.length)) : Scans bytes [m] none
  | padding {bytes : Bytes} {m : Message} {len : ℕ} (hb : bytes ≠ [])
      (hh : header bytes = .ok (m, len)) (hl : len ≠ bytes.length)
      (ha : bytes.length < align len) :
      Scans bytes [m] (some (.other "short netlink padding"))
  | next {bytes : Bytes} {m : Message} {ms : List Message} {r : Option Fault} {len : ℕ}
      (hb : bytes ≠ []) (hh : header bytes = .ok (m, len)) (hl : len ≠ bytes.length)
      (ha : align len ≤ bytes.length) (h : Scans (bytes.drop (align len)) ms r) :
      Scans bytes (m :: ms) r

theorem header_length (h : header bytes = .ok (m, len)) : HEADER ≤ len := by
  simp only [header, bind_eq_ok, pure_eq_ok, Except.ok.injEq, Prod.mk.injEq] at h
  obtain ⟨_, _, l, _, _, hl, _, _, _, _, _, _, _, _, _, _, _, _, _, _, _, rfl⟩ := h
  rw [check_eq_ok, Bool.and_eq_true, decide_eq_true_eq] at hl
  exact hl.1

theorem length_drop_align (hb : bytes ≠ []) (h : header bytes = .ok (m, len)) :
    (bytes.drop (align len)).length < bytes.length := by
  have h₁ := header_length h
  have h₂ := le_align len
  have h₃ := List.length_pos_iff.mpr hb
  unfold HEADER at h₁
  rw [List.length_drop]
  omega

theorem exists_scan (bytes : Bytes) : ∃ ms r, Scans bytes ms r := by
  induction hk : bytes.length using Nat.strongRecOn generalizing bytes with
  | _ k ih =>
    subst hk
    by_cases hb : bytes = []
    · exact ⟨[], none, hb ▸ .nil⟩
    · cases hh : header bytes with
      | error e => exact ⟨[], some e, .bad hb hh⟩
      | ok p =>
        obtain ⟨m, len⟩ := p
        by_cases hl : len = bytes.length
        · exact ⟨[m], none, .last hb (hl ▸ hh)⟩
        · rcases Nat.lt_or_ge bytes.length (align len) with ha | ha
          · exact ⟨[m], _, .padding hb hh hl ha⟩
          · obtain ⟨ms, r, h⟩ := ih _ (length_drop_align hb hh) _ rfl
            exact ⟨m :: ms, r, .next hb hh hl ha h⟩

section Messages
variable {σ : Type} {f : Message → σ → Except (σ × Fault) σ} {s : σ}

theorem messageBody_error {e : Fault} (hh : header bytes = .error e) :
    messageBody f bytes s = .error (s, e) := by
  simp only [messageBody, attempt, hh]
  rfl

theorem messageBody_ok (hh : header bytes = .ok (m, len)) :
    messageBody f bytes s = f m s >>= fun s' =>
      if len = bytes.length then .ok (.leave s')
      else if align len ≤ bytes.length then .ok (.next s' (bytes.drop (align len)))
      else .error (s', .other "short netlink padding") := by
  have hattempt : attempt s (header bytes) = .ok (m, len) := by rw [hh]; rfl
  simp only [messageBody, hattempt]
  change (f m s >>= _) = _
  congr 1
  funext s'
  split
  · rfl
  · by_cases ha : align len ≤ bytes.length
    · rw [if_pos ha, sliceFrom_eq_ok ha, check, decide_eq_true ha]
      rfl
    · rw [if_neg ha, check, decide_eq_false ha]
      rfl

theorem messageBody_progress (f : Message → σ → Except (σ × Fault) σ) :
    SliceLoop.Progress (messageBody f) := by
  intro bytes s s' rest hb h
  cases hh : header bytes with
  | error e =>
    rw [messageBody_error hh] at h
    cases h
  | ok p =>
    obtain ⟨m, len⟩ := p
    rw [messageBody_ok hh] at h
    cases hf : f m s with
    | error e =>
      rw [hf] at h
      cases h
    | ok s₁ =>
      rw [hf] at h
      simp only [bind, Except.bind] at h
      split at h
      · cases h
      · split at h
        · cases h
          exact length_drop_align hb hh
        · cases h

/-- The walk folds its callback over the messages it visits. -/
theorem messages_of_scans (h : Scans bytes ms r) (f : Message → σ → Except (σ × Fault) σ) (s : σ) :
    messages bytes f s = ms.foldlM (fun s m => f m s) s >>= fun s' =>
      match r with
      | none => .ok s'
      | some e => .error (s', e) := by
  have hp := messageBody_progress f
  induction h generalizing s with
  | nil => rfl
  | bad hb hh =>
    rw [messages, SliceLoop.loop_error hp hb (messageBody_error hh)]
    rfl
  | @last bytes m hb hh =>
    have hbody := messageBody_ok (f := f) (s := s) hh
    rw [messages, SliceLoop.loop_eq hp hb, hbody]
    cases hf : f m s <;> simp [bind, Except.bind, hf, pure, Except.pure]
  | @padding bytes m len hb hh hl ha =>
    have hbody := messageBody_ok (f := f) (s := s) hh
    rw [messages, SliceLoop.loop_eq hp hb, hbody]
    cases hf : f m s with
    | error e => simp [bind, Except.bind, hf]
    | ok s' => simp [bind, Except.bind, hf, hl, Nat.not_le.mpr ha, pure, Except.pure]
  | @next bytes m ms r len hb hh hl ha h ih =>
    have hbody := messageBody_ok (f := f) (s := s) hh
    rw [messages, SliceLoop.loop_eq hp hb, hbody]
    cases hf : f m s with
    | error e => simp [bind, Except.bind, hf]
    | ok s' => simpa [bind, Except.bind, hf, hl, ha, messages] using ih s'

end Messages

/-- The messages of a well-formed datagram. -/
def parse (bytes : Bytes) : Result (List Message) :=
  match messages bytes (fun m ms => .ok (ms ++ [m])) [] with
  | .ok ms => .ok ms
  | .error (_, e) => .error e

theorem foldlM_collect (l acc : List Message) :
    l.foldlM (fun acc m => (.ok (acc ++ [m]) : Except (List Message × Fault) (List Message))) acc =
      .ok (acc ++ l) := by
  induction l generalizing acc with
  | nil => simp [pure, Except.pure]
  | cons m l ih => simp [List.foldlM_cons, bind, Except.bind, ih]

theorem parse_of_scans (h : Scans bytes ms none) : parse bytes = .ok ms := by
  simp [parse, messages_of_scans h, foldlM_collect, bind, Except.bind]

theorem scans_of_parse (h : parse bytes = .ok ms) : Scans bytes ms none := by
  obtain ⟨ms', r, hs⟩ := exists_scan bytes
  simp only [parse, messages_of_scans hs, foldlM_collect] at h
  cases r with
  | none =>
    cases h
    exact hs
  | some e => cases h

/-! Events. -/

/-- What a pass over the notifications has found. -/
structure Events where
  changed : Bool
  lost : Bool
deriving DecidableEq

def Events.none : Events := ⟨false, false⟩

def Message.isLoss (m : Message) : Bool := m.kind == NLMSG_OVERRUN || m.kind == NLMSG_ERROR

/-- The notifications of links, addresses, routes and next hops. -/
def Message.isChange (m : Message) : Bool :=
  (decide (16 ≤ m.kind) && decide (m.kind ≤ 28)) ||
    (decide (104 ≤ m.kind) && decide (m.kind ≤ 106))

namespace Events

def note (m : Message) (ev : Events) : Events :=
  if m.isLoss then { ev with lost := true }
  else if m.isChange then { ev with changed := true }
  else ev

/-- One received datagram; an empty or malformed one counts as loss. -/
def absorb (ev : Events) (bytes : Bytes) : Events :=
  if bytes = [] then { ev with lost := true }
  else
    match messages bytes (fun m ev => .ok (ev.note m)) ev with
    | .ok ev => ev
    | .error (ev, _) => { ev with lost := true }

/-- A change or a loss was seen. -/
def alert (ev : Events) : Bool := ev.changed || ev.lost

end Events

/-- A datagram that raises an alert. -/
def alarming (bytes : Bytes) : Bool := (Events.none.absorb bytes).alert

/-- A well-formed datagram that announces a change. -/
def notifies (bytes : Bytes) : Bool :=
  match parse bytes with
  | .ok ms => ms.any Message.isChange
  | .error _ => false

theorem note_alert (ev : Events) (m : Message) :
    (ev.note m).alert = (ev.alert || m.isLoss || m.isChange) := by
  unfold Events.note Events.alert
  cases m.isLoss <;> cases m.isChange <;> simp

theorem absorb_alert_scans (h : Scans bytes ms r) (ev : Events) : (ev.absorb bytes).alert =
    (ev.alert || decide (bytes = []) || ms.any (fun m => m.isLoss || m.isChange) || r.isSome) := by
  have hfold : ∀ (l : List Message) (ev : Events), ∃ ev', l.foldlM (fun ev m =>
      (.ok (Events.note m ev) : Except (Events × Fault) Events)) ev = .ok ev' ∧
        ev'.alert = (ev.alert || l.any (fun m => m.isLoss || m.isChange)) := by
    intro l
    induction l with
    | nil => exact fun ev => ⟨ev, rfl, by simp⟩
    | cons m l ih =>
      intro ev
      obtain ⟨ev', hfold, halert⟩ := ih (ev.note m)
      refine ⟨ev', hfold, ?_⟩
      rw [halert, note_alert, List.any_cons]
      simp only [Bool.or_assoc]
  unfold Events.absorb
  by_cases hb : bytes = []
  · simp [hb, Events.alert]
  · obtain ⟨ev', hfold, halert⟩ := hfold ms ev
    rw [if_neg hb, messages_of_scans h, hfold]
    cases r with
    | none => simp [bind, Except.bind, hb, halert]
    | some e => simp [bind, Except.bind, Events.alert]

/-- A datagram raises an alert whatever was seen before it. -/
theorem absorb_alert (ev : Events) (bytes : Bytes) :
    (ev.absorb bytes).alert = (ev.alert || alarming bytes) := by
  obtain ⟨ms, r, h⟩ := exists_scan bytes
  rw [alarming, absorb_alert_scans h, absorb_alert_scans h]
  simp [Events.none, Events.alert, Bool.or_assoc]

theorem alarming_of_notifies (h : notifies bytes = true) : alarming bytes = true := by
  unfold notifies at h
  split at h
  · rename_i ms hms
    obtain ⟨m, hm, hc⟩ := List.any_eq_true.mp h
    rw [alarming, absorb_alert_scans (scans_of_parse hms)]
    have hany : ms.any (fun m => m.isLoss || m.isChange) = true :=
      List.any_eq_true.mpr ⟨m, hm, by simp [hc]⟩
    simp [hany]
  · cases h

end Netlink
end Ubgp
