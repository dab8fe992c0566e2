import Ubgp.Bgp.Choose
import Ubgp.Lib.Trace

/-! Every order of the events `choose` sees: a usable connection is never thrown away. -/
namespace Ubgp
namespace Choose

variable {Conn : Type}

/-- A round of the loop; the labels of a run are the events it observed. -/
def Step [DecidableEq Conn] (cfg : Config) (p : Peer) (s : State Conn) (e : Event Conn)
    (t : State Conn) : Prop :=
  step cfg p s e = some t

/-- The candidate is in the direction the collision rule keeps. -/
def preferred (cfg : Config) (p : Peer) (c : Candidate Conn) : Bool :=
  c.incoming == preferIncoming cfg p c.negotiated

/-- The handshake of this candidate succeeded and was joined. -/
def Joined (es : List (Event Conn)) (c : Candidate Conn) : Prop :=
  ∃ incoming, .joined incoming (.ok c) ∈ es

/-- What `choose` itself has written: Cease, connection collision resolution. -/
def State.written (s : State Conn) : List (Conn × Result Bytes) :=
  s.ceased.map (·, notification 6 7 [])

variable {cfg : Config} {p : Peer} {s t : State Conn} {e : Event Conn} {es : List (Event Conn)}
  {c : Candidate Conn}

/-- What one round can do. -/
inductive Effect (cfg : Config) (p : Peer) (s : State Conn) : Event Conn → State Conn → Prop
  | stopped : Effect cfg p s (.recv none)
      { s with outcome := some (.error "incoming listener stopped") }
  | accepted {stream : Conn} (hs : s.incomingStarted = false) : Effect cfg p s (.recv (some stream))
      { s with incomingStarted := true, accepted := some stream }
  | chosen {incoming : Bool} {c : Candidate Conn} {t : State Conn}
      (hp : preferred cfg p c = true) (ht : t.outcome = some (.ok c))
      (hc : t.ceased = s.ceased ++ (s.pending.map Candidate.stream).toList) :
      Effect cfg p s (.joined incoming (.ok c)) t
  | parked {incoming : Bool} {c : Candidate Conn} {t : State Conn}
      (hp : preferred cfg p c = false) (ht : t.outcome = none) (hc : t.pending = some c) :
      Effect cfg p s (.joined incoming (.ok c)) t
  | failed {incoming : Bool} {message : String} {t : State Conn} (hp : t.pending = s.pending)
      (ht : t.outcome = none ∨ (s.pending = none ∧ ∃ e, t.outcome = some (.error e))) :
      Effect cfg p s (.joined incoming (.error message)) t
  | expired : Effect cfg p s .deadline s.expire

theorem finished_pending (s : State Conn) (incoming : Bool) :
    (s.finished incoming).pending = s.pending ∧ (s.finished incoming).outcome = s.outcome := by
  cases incoming <;> exact ⟨rfl, rfl⟩

/-- The check after a join changes nothing but the outcome, and only with nothing parked. -/
theorem bailIfExhausted_cases (s : State Conn) : s.bailIfExhausted = s ∨
    (s.pending = none ∧ ∃ e, s.bailIfExhausted = { s with outcome := some (.error e) }) := by
  unfold State.bailIfExhausted
  split
  · rename_i h
    simp only [Bool.and_eq_true, Option.isNone_iff_eq_none] at h
    exact Or.inr ⟨h.1.2, _, rfl⟩
  · exact Or.inl rfl

theorem Step.effect [DecidableEq Conn] (h : Step cfg p s e t) :
    s.outcome = none ∧ Effect cfg p s e t := by
  unfold Step step at h
  split at h
  case h_1 stream =>
    simp only [Option.ite_none_left_eq_some, Bool.or_eq_true, not_or, Bool.not_eq_true,
      Option.isSome_eq_false_iff, Option.isNone_iff_eq_none] at h
    obtain ⟨⟨ho, hs⟩, h⟩ := h
    cases stream with
    | none =>
      cases h
      exact ⟨ho, .stopped⟩
    | some stream =>
      cases h
      exact ⟨ho, .accepted hs⟩
  case h_2 incoming c =>
    simp only [Option.ite_none_left_eq_some, Bool.or_eq_true, not_or, Bool.not_eq_true,
      Option.isSome_eq_false_iff, Option.isNone_iff_eq_none] at h
    obtain ⟨⟨⟨ho, -⟩, -⟩, h⟩ := h
    refine ⟨ho, ?_⟩
    split at h
    · rename_i hp
      cases h
      exact .chosen hp rfl rfl
    · rename_i hp
      cases h
      have hbail := bailIfExhausted_cases { s.finished incoming with pending := some c }
      obtain hkeep | ⟨hnone, -⟩ := hbail
      · rw [hkeep]
        exact .parked (by simpa [preferred] using hp) ((finished_pending s incoming).2.trans ho) rfl
      · cases hnone
  case h_3 incoming message =>
    simp only [Option.ite_none_left_eq_some, Bool.or_eq_true, not_or, Bool.not_eq_true,
      Option.isSome_eq_false_iff, Option.isNone_iff_eq_none] at h
    obtain ⟨⟨ho, -⟩, h⟩ := h
    cases h
    obtain ⟨hpending, houtcome⟩ := finished_pending s incoming
    have hbail := bailIfExhausted_cases
      { s.finished incoming with errors := s.errors ++ [message] }
    obtain hkeep | ⟨hnone, e, hfail⟩ := hbail
    · rw [hkeep]
      exact ⟨ho, .failed hpending (Or.inl (houtcome.trans ho))⟩
    · rw [hfail]
      exact ⟨ho, .failed hpending (Or.inr ⟨hpending.symm.trans hnone, e, rfl⟩)⟩
  case h_4 =>
    simp only [Option.ite_none_left_eq_some, Bool.not_eq_true, Option.isSome_eq_false_iff,
      Option.isNone_iff_eq_none] at h
    obtain ⟨ho, h⟩ := h
    cases h
    exact ⟨ho, .expired⟩

/-- What was joined is parked or returned, and a failure means that nothing was. -/
inductive Kept (cfg : Config) (p : Peer) (es : List (Event Conn)) (s : State Conn) : Prop
  | empty (ho : s.outcome = none) (hp : s.pending = none) (hn : ∀ c, ¬ Joined es c)
  | parked {c : Candidate Conn} (ho : s.outcome = none) (hp : s.pending = some c)
      (hc : Joined es c) (hn : ∀ c', Joined es c' → preferred cfg p c' = false)
  | chosen {c : Candidate Conn} (ho : s.outcome = some (.ok c)) (hc : Joined es c)
      (hd : preferred cfg p c = false →
        es.getLast? = some .deadline ∧ ∀ c', Joined es c' → preferred cfg p c' = false)
  | failed {e : String} (ho : s.outcome = some (.error e)) (hn : ∀ c, ¬ Joined es c)

theorem joined_snoc :
    Joined (es ++ [e]) c ↔ Joined es c ∨ ∃ incoming, e = .joined incoming (.ok c) := by
  constructor
  · rintro ⟨incoming, h⟩
    rcases List.mem_append.mp h with h | h
    · exact Or.inl ⟨incoming, h⟩
    · exact Or.inr ⟨incoming, (List.mem_singleton.mp h).symm⟩
  · rintro (⟨incoming, h⟩ | ⟨incoming, rfl⟩)
    · exact ⟨incoming, List.mem_append_left _ h⟩
    · exact ⟨incoming, List.mem_append_right _ (List.mem_singleton_self _)⟩

/-- A round that joins no success and neither ends nor parks keeps the bookkeeping. -/
theorem Kept.moved (h : Kept cfg p es s) (ho : s.outcome = none) (ht : t.outcome = none)
    (hp : t.pending = s.pending) (he : ∀ incoming c, e ≠ .joined incoming (.ok c)) :
    Kept cfg p (es ++ [e]) t := by
  have hj : ∀ c, Joined (es ++ [e]) c → Joined es c := by
    intro c hc
    exact (joined_snoc.mp hc).resolve_right (fun ⟨incoming, hb⟩ => he incoming c hb)
  cases h with
  | empty _ hnone hn => exact .empty ht (hp.trans hnone) (fun c hc => hn c (hj c hc))
  | parked _ hsome hc hn =>
    exact .parked ht (hp.trans hsome) (joined_snoc.mpr (Or.inl hc)) (fun c hc => hn c (hj c hc))
  | chosen hout => cases ho.symm.trans hout
  | failed hout => cases ho.symm.trans hout

/-- When the deadline fires, the parked candidate is returned. -/
theorem Kept.expired (h : Kept cfg p es s) (ho : s.outcome = none) :
    Kept cfg p (es ++ [.deadline]) s.expire := by
  have hj : ∀ c, Joined (es ++ [.deadline]) c → Joined es c := by
    intro c hc
    exact (joined_snoc.mp hc).resolve_right (fun ⟨_, hb⟩ => by cases hb)
  cases h with
  | empty _ hnone hn =>
    unfold State.expire
    rw [hnone]
    exact .failed rfl (fun c hc => hn c (hj c hc))
  | parked _ hsome hc hn =>
    unfold State.expire
    rw [hsome]
    exact .chosen rfl (joined_snoc.mpr (Or.inl hc))
      (fun _ => ⟨List.getLast?_concat, fun c hc => hn c (hj c hc)⟩)
  | chosen hout => cases ho.symm.trans hout
  | failed hout => cases ho.symm.trans hout

theorem Kept.step [DecidableEq Conn] (h : Kept cfg p es s) (ha : Step cfg p s e t)
    (he : e ≠ .recv none) : Kept cfg p (es ++ [e]) t := by
  obtain ⟨ho, heff⟩ := ha.effect
  cases heff with
  | stopped => exact absurd rfl he
  | accepted => exact h.moved ho ho rfl (fun _ _ hb => by cases hb)
  | chosen hp ht =>
    refine .chosen ht (joined_snoc.mpr (Or.inr ⟨_, rfl⟩)) ?_
    intro hnot
    rw [hp] at hnot
    cases hnot
  | @parked incoming c _ hp ht hc =>
    refine .parked ht hc (joined_snoc.mpr (Or.inr ⟨_, rfl⟩)) ?_
    intro c' hc'
    rcases joined_snoc.mp hc' with hold | ⟨incoming, hb⟩
    · cases h with
      | empty _ _ hn => exact absurd hold (hn c')
      | parked _ _ _ hn => exact hn c' hold
      | chosen hout => cases ho.symm.trans hout
      | failed hout => cases ho.symm.trans hout
    · cases hb
      exact hp
  | failed hp ht =>
    rcases ht with ht | ⟨hnone, message, ht⟩
    · exact h.moved ho ht hp (fun _ _ hb => by cases hb)
    · cases h with
      | empty _ _ hn =>
        refine .failed ht (fun c hc => hn c ?_)
        exact (joined_snoc.mp hc).resolve_right (fun ⟨_, hb⟩ => by cases hb)
      | parked _ hsome => cases hnone.symm.trans hsome
      | chosen hout => cases ho.symm.trans hout
      | failed hout => cases ho.symm.trans hout
  | expired => exact h.expired ho

theorem init_kept : Kept cfg p [] (init : State Conn) :=
  .empty rfl rfl (fun _ ⟨_, hc⟩ => by cases hc)

theorem Kept.of_trace [DecidableEq Conn] (h : Lts.Trace (Step cfg p) (init : State Conn) es s)
    (hopen : .recv none ∉ es) : Kept cfg p es s := by
  revert hopen
  refine h.history (P := fun es s => .recv none ∉ es → Kept cfg p es s) (fun _ => init_kept) ?_
  intro es s e t ih ha hopen
  rw [List.mem_append, not_or] at hopen
  exact (ih hopen.1).step ha (fun he => hopen.2 (by simp [he]))

/-- The rounds that are left at most: an arrival, two joins and the deadline. -/
def State.left (s : State Conn) : ℕ :=
  if s.outcome.isSome then 0
  else 1 + s.outgoing.toNat + s.accepted.isSome.toNat + 2 * (!s.incomingStarted).toNat

theorem left_of_finished {incoming : Bool} (hr : s.running incoming = true)
    (ho : s.outcome = none) : (s.finished incoming).left < s.left := by
  cases incoming <;> simp_all [State.running, State.finished, State.left]

theorem left_bail_le (s : State Conn) : s.bailIfExhausted.left ≤ s.left := by
  unfold State.bailIfExhausted
  split
  · exact Nat.zero_le _
  · exact Nat.le_refl _

theorem left_step [DecidableEq Conn] (h : Step cfg p s e t) : t.left < s.left := by
  unfold Step step at h
  have hpos : s.outcome = none → 0 < s.left := by
    intro ho
    simp only [State.left, ho]
    simp
  split at h
  all_goals
    simp only [Option.ite_none_left_eq_some, Bool.or_eq_true, not_or, Bool.not_eq_true,
      Option.isSome_eq_false_iff, Option.isNone_iff_eq_none, Bool.not_eq_false'] at h
  case h_1 stream =>
    obtain ⟨⟨ho, hs⟩, h⟩ := h
    cases stream with
    | none =>
      cases h
      exact hpos ho
    | some stream =>
      cases h
      have hnew : State.left { s with incomingStarted := true, accepted := some stream } =
          1 + s.outgoing.toNat + 1 := by
        simp [State.left, ho]
      have hold : s.left = 1 + s.outgoing.toNat + s.accepted.isSome.toNat + 2 := by
        simp [State.left, ho, hs]
      omega
  case h_2 incoming c =>
    obtain ⟨⟨⟨ho, hr⟩, -⟩, h⟩ := h
    split at h
    · cases h
      exact hpos ho
    · cases h
      refine Nat.lt_of_le_of_lt (left_bail_le _) ?_
      exact left_of_finished hr ho
  case h_3 incoming message =>
    obtain ⟨⟨ho, hr⟩, h⟩ := h
    cases h
    refine Nat.lt_of_le_of_lt (left_bail_le _) ?_
    exact left_of_finished hr ho
  case h_4 =>
    obtain ⟨ho, h⟩ := h
    cases h
    refine Nat.lt_of_le_of_lt (Nat.le_of_eq ?_) (hpos ho)
    unfold State.expire
    split <;> rfl

theorem left_of_trace [DecidableEq Conn] (h : Lts.Trace (Step cfg p) (init : State Conn) es s) :
    es.length + s.left ≤ 4 := by
  refine h.history (P := fun es s => es.length + s.left ≤ 4) (Nat.le_refl 4) ?_
  intro es s e t ih ha
  have hlt := left_step ha
  rw [List.length_append, List.length_singleton]
  omega

/-- Whatever the order of the events, while the listener runs: `choose` ends after at most four
rounds, the deadline ending it at any time; with a joined success it returns such a candidate and
without one it fails; a preferred candidate is returned as it is joined, with Cease to the parked
one; and another candidate only when the deadline fires before a preferred one was joined. -/
theorem choose_keeps_usable [DecidableEq Conn]
    (h : Lts.Trace (Step cfg p) (init : State Conn) es s) (hopen : .recv none ∉ es) :
    (es.length ≤ 4 ∧ (s.outcome = none →
      ∃ t, Step cfg p s .deadline t ∧ t.outcome.isSome = true)) ∧
    (∀ r, s.outcome = some r →
      ((∃ c, Joined es c) → ∃ c, r = .ok c ∧ Joined es c) ∧
      ((∀ c, ¬ Joined es c) → ∃ e, r = .error e)) ∧
    (∀ incoming c t, Step cfg p s (.joined incoming (.ok c)) t → preferred cfg p c = true →
      t.outcome = some (.ok c) ∧ ∀ old, s.pending = some old →
        t.written = s.written ++ [(old.stream, notification 6 7 [])]) ∧
    ∀ c, s.outcome = some (.ok c) → preferred cfg p c = false →
      es.getLast? = some .deadline ∧ ∀ c', Joined es c' → preferred cfg p c' = false := by
  have hkept := Kept.of_trace h hopen
  refine ⟨⟨Nat.le_of_add_right_le (left_of_trace h), ?_⟩, ?_, ?_, ?_⟩
  · intro ho
    refine ⟨s.expire, by simp [Step, step, ho], ?_⟩
    unfold State.expire
    split <;> rfl
  · intro r hr
    cases hkept with
    | empty ho => cases ho.symm.trans hr
    | parked ho => cases ho.symm.trans hr
    | chosen ho hc =>
      cases ho.symm.trans hr
      exact ⟨fun _ => ⟨_, rfl, hc⟩, fun hn => absurd hc (hn _)⟩
    | failed ho hn =>
      cases ho.symm.trans hr
      refine ⟨?_, fun _ => ⟨_, rfl⟩⟩
      rintro ⟨c, hc⟩
      exact absurd hc (hn c)
  · intro incoming c t ha hp
    obtain ⟨-, heff⟩ := ha.effect
    cases heff with
    | chosen _ ht hc =>
      refine ⟨ht, ?_⟩
      intro old hold
      simp [State.written, hc, hold]
    | parked hp' =>
      rw [hp] at hp'
      cases hp'
  · intro c hc hp
    cases hkept with
    | empty ho => cases ho.symm.trans hc
    | parked ho => cases ho.symm.trans hc
    | chosen ho _ hd =>
      cases ho.symm.trans hc
      exact hd hp
    | failed ho => cases ho.symm.trans hc

/-- What the two ends of `examples/ubgp.toml` negotiate; the remote identifier is the larger. -/
def exampleNegotiated : Negotiated := ⟨0xC0000202#32, 30, true, false, true, false⟩

def exampleOutgoing : Candidate Side := ⟨.a, exampleNegotiated, false, none⟩

def exampleIncoming : Candidate Side := ⟨.b, exampleNegotiated, true, none⟩

/-- The outgoing connection is ready first and parked, the incoming one is returned. -/
theorem example_choose :
    ∃ s t, Lts.Trace (Step exampleConfig examplePeer) init
        ([] ++ [.joined false (.ok exampleOutgoing)] ++ [.recv (some Side.b)]) s ∧
      Step exampleConfig examplePeer s (.joined true (.ok exampleIncoming)) t ∧
      t.outcome = some (.ok exampleIncoming) ∧
      t.written = [(Side.a, notification 6 7 [])] := by
  have hparked : Step exampleConfig examplePeer init (.joined false (.ok exampleOutgoing))
      ⟨false, none, false, [], some exampleOutgoing, [], none⟩ := rfl
  have haccepted : Step exampleConfig examplePeer
      ⟨false, none, false, [], some exampleOutgoing, [], none⟩ (.recv (some Side.b))
      ⟨false, some .b, true, [], some exampleOutgoing, [], none⟩ := rfl
  have htrace := (Lts.Trace.refl.snoc hparked).snoc haccepted
  obtain ⟨-, -, hjoin, -⟩ := choose_keeps_usable htrace (by simp)
  obtain ⟨hout, hcease⟩ := hjoin true exampleIncoming _ rfl rfl
  exact ⟨_, _, htrace, rfl, hout, hcease _ rfl⟩

end Choose
end Ubgp
