import Ubgp.Netlink.Run

/-! The worker beside a kernel that puts anything on its sockets, with what it sees there. -/
namespace Ubgp
namespace Netlink

/-- What the worker sees and does; `began` is a call of `snapshot`. -/
inductive Seen
  | began (freshness : Freshness) (channel : Watch Exports)
  | request (key : Bool × UInt32) (seq : ℕ)
  | datagram (bytes : Bytes)
  | notice (bytes : Bytes)
  | loss
  | expire (now : ℕ)
  | tau

/-- What the worker sees in its next step. -/
def State.seen (s : State) (io : Io) : Seen :=
  match s.pc, io with
  | .choose now, _ =>
    if s.dirty && decide (s.due ≤ now) then .began s.freshness s.channel else .tau
  | .request _, .error _ => .tau
  | .request snap, _ =>
    match snap.todo with
    | [] => .tau
    | key :: _ => .request key (max ((s.seq + 1) % 2 ^ 32) 1)
  | .drain (_ + 1) _ _, .done =>
    if s.kernel.overrun then .loss
    else
      match s.kernel.queue with
      | [] => .tau
      | bytes :: _ => .notice bytes
  | .drain (_ + 1) _ _, .error _ => .loss
  | .receive (_ + 1) _ _, .done =>
    match s.kernel.datagrams with
    | [] => .tau
    | bytes :: _ => .datagram bytes
  | _, _ => .tau

/-- A step of the worker, or of a kernel that puts anything on the two sockets. -/
inductive Stimulus
  | kernel (kernel : KernelState)
  | tick (d : ℕ)
  | halt
  | expire
  | work (io : Io)

def observe (cfg : Config) (s : State) : Stimulus → Option (Seen × State)
  | .kernel kernel => some (.tau, { s with kernel })
  | .tick d => some (.tau, { s with now := s.now + d })
  | .halt => some (.tau, { s with stop := true })
  | .expire =>
    let r := s.freshness.expire s.now (limitMs cfg) s.channel
    some (.expire s.now, { s with freshness := r.1, channel := r.2 })
  | .work io => (s.work cfg io).map (fun r => (s.seen io, r.2))

def Observed (cfg : Config) (s : State) (o : Seen) (t : State) : Prop :=
  ∃ m, observe cfg s m = some (o, t)

variable {cfg : Config} {s t : State} {xs seen : List Seen} {o : Seen} {io : Io} {pc pc' : Pc}
  {seq : ℕ} {snap : Snap} {cur : Current} {bytes : Bytes} {changed lost : Bool}

/-- A step beside the kernel of the model is a step beside any kernel. -/
theorem Step.observed {a : Label} (h : Step cfg s a t) : ∃ o, Observed cfg s o t := by
  obtain ⟨m, h⟩ := h
  cases m with
  | change routes notice =>
    simp only [step, Option.map_eq_some_iff, Prod.mk.injEq] at h
    obtain ⟨kernel, -, -, rfl⟩ := h
    exact ⟨.tau, .kernel kernel, rfl⟩
  | traffic bytes =>
    cases h
    exact ⟨.tau, .kernel _, rfl⟩
  | read m =>
    simp only [step, Option.map_eq_some_iff, Prod.mk.injEq] at h
    obtain ⟨kernel, -, -, rfl⟩ := h
    exact ⟨.tau, .kernel kernel, rfl⟩
  | pack bytes =>
    simp only [step, Option.map_eq_some_iff, Prod.mk.injEq] at h
    obtain ⟨kernel, -, -, rfl⟩ := h
    exact ⟨.tau, .kernel kernel, rfl⟩
  | tick d =>
    cases h
    exact ⟨.tau, .tick d, rfl⟩
  | halt =>
    cases h
    exact ⟨.tau, .halt, rfl⟩
  | expire =>
    cases h
    exact ⟨.expire s.now, .expire, rfl⟩
  | work io =>
    refine ⟨s.seen io, .work io, ?_⟩
    change (s.work cfg io).map _ = _
    rw [show s.work cfg io = some (a, t) from h]
    rfl

/-- A run beside the kernel of the model is a run beside any kernel. -/
theorem trace_observed {as : List Label} (h : Lts.Trace (Step cfg) s as t) :
    ∃ xs, Lts.Trace (Observed cfg) s xs t := by
  induction h with
  | refl => exact ⟨[], .refl⟩
  | snoc _ ha ih =>
    obtain ⟨xs, ih⟩ := ih
    obtain ⟨o, ho⟩ := ha.observed
    exact ⟨xs ++ [o], .snoc ih ho⟩

/-! What one step can do. -/

/-- Within `snapshot`, its drains included, or just returned from it. -/
def Pc.inside : Pc → Bool
  | .request _ | .check _ _ | .receive _ _ _ | .wait _ _ | .filter _ _ | .failed => true
  | .drain _ _ (.dump _ _) | .drain _ _ (.final _) => true
  | _ => false

/-- The exports on their way to the channel. -/
def Pc.exporting : Pc → Option Exports
  | .drain _ _ (.after _ exports) => some exports
  | .publish _ exports => some exports
  | _ => none

/-- A step within `snapshot`. -/
inductive Advance (cfg : Config) : Pc → ℕ → Seen → Pc → ℕ → Prop
  | fail {pc : Pc} {seq seq' : ℕ} {o : Seen} : Advance cfg pc seq o .failed seq'
  | dumping {pc pc' : Pc} {seq : ℕ} {snap : Snap} {cur : Current}
      (h : pc.dumping = some (snap, cur)) (h' : pc'.dumping = some (snap, cur)) :
      Advance cfg pc seq .tau pc' seq
  | drain {pc : Pc} {seq : ℕ} {snap : Snap} {cur : Current} (h : pc.dumping = some (snap, cur)) :
      Advance cfg pc seq .tau (.drain drainRounds Events.none (.dump snap cur)) seq
  | final {snap : Snap} {seq : ℕ} (h : snap.todo = []) :
      Advance cfg (.request snap) seq .tau (.drain drainRounds Events.none (.final snap)) seq
  | request {snap : Snap} {key : Bool × UInt32} {todo : List (Bool × UInt32)} {seq seq' : ℕ}
      (h : snap.todo = key :: todo) :
      Advance cfg (.request snap) seq (.request key seq') (.check { snap with todo } ⟨key, false⟩)
        seq'
  | idle {rounds rounds' : ℕ} {ev : Events} {k : Resume} {seq : ℕ} :
      Advance cfg (.drain rounds ev k) seq .tau (.drain rounds' ev k) seq
  | notice {rounds rounds' : ℕ} {ev : Events} {k : Resume} {seq : ℕ} {bytes : Bytes} :
      Advance cfg (.drain rounds ev k) seq (.notice bytes) (.drain rounds' (ev.absorb bytes) k) seq
  | resumed {rounds : ℕ} {ev : Events} {snap : Snap} {cur : Current} {seq : ℕ}
      (h : ev.lost = false) :
      Advance cfg (.drain rounds ev (.dump snap cur)) seq .tau
        (.receive drainRounds { snap with changed := snap.changed || ev.changed } cur) seq
  | returned {rounds : ℕ} {ev : Events} {snap : Snap} {seq : ℕ} (h : ev.lost = false) :
      Advance cfg (.drain rounds ev (.final snap)) seq .tau
        (.filter snap.result (snap.changed || ev.changed)) seq
  | received {pc : Pc} {rounds seq : ℕ} {snap : Snap} {cur : Current} {bytes : Bytes} {dump : Dump}
      (h : pc.dumping = some (snap, cur)) (hb : bytes ≠ [])
      (hr : dumpDatagram cfg seq bytes ⟨snap.result, cur.sawRoute, false⟩ = .ok dump)
      (hd : dump.done = false) :
      Advance cfg pc seq (.datagram bytes) (.receive rounds { snap with result := dump.result }
        { cur with sawRoute := dump.sawRoute }) seq
  | ended {pc : Pc} {seq : ℕ} {snap : Snap} {cur : Current} {bytes : Bytes} {dump : Dump}
      (h : pc.dumping = some (snap, cur)) (hb : bytes ≠ [])
      (hr : dumpDatagram cfg seq bytes ⟨snap.result, cur.sawRoute, false⟩ = .ok dump)
      (hd : dump.done = true) :
      Advance cfg pc seq (.datagram bytes) (.request { snap with result := dump.result }) seq

/-- Within `snapshot` nothing is on its way to the channel. -/
theorem Advance.exporting {seq' : ℕ} (h : Advance cfg pc seq o pc' seq') (hs : pc.inside = true) :
    pc'.exporting = none := by
  cases h with
  | dumping _ hd => cases pc' <;> simp_all [Pc.dumping, Pc.exporting]
  | @idle _ _ _ k => cases k <;> simp_all [Pc.inside, Pc.exporting]
  | @notice _ _ _ k => cases k <;> simp_all [Pc.inside, Pc.exporting]
  | _ => rfl

/-- A step of the worker, with what it sees. -/
inductive Watched (cfg : Config) (s : State) : Seen → State → Prop
  | outside {o : Seen} {t : State} (ht : t.pc.inside = false)
      (he : ∀ e, t.pc.exporting = some e → s.pc.exporting = some e) : Watched cfg s o t
  | began {pc : Pc} {kernel : KernelState} (hd : s.dirty = true)
      (hpc : pc = .request ⟨∅, false, requests cfg, s.now⟩ ∨ pc = .failed) :
      Watched cfg s (.began s.freshness s.channel) { s with pc, kernel }
  | inside {o : Seen} {pc : Pc} {seq : ℕ} {kernel : KernelState} (hs : s.pc.inside = true)
      (ha : Advance cfg s.pc s.seq o pc seq) : Watched cfg s o { s with pc, seq, kernel }
  | filtered {result : Prefixes} {changed : Bool} {exports : Exports}
      (hpc : s.pc = .filter result changed) (he : Netlink.filter cfg result = .ok exports) :
      Watched cfg s .tau (s.startDrain (.after changed exports))

/-- The worker is not the watchdog, and within `snapshot` it does not call it. -/
theorem seen_worker (s : State) (io : Io) : (∀ now, s.seen io ≠ .expire now) ∧
    (s.pc.inside = true → ∀ freshness channel, s.seen io ≠ .began freshness channel) := by
  unfold State.seen
  split
  case h_1 hpc =>
    refine ⟨?_, ?_⟩
    · intro now
      split <;> simp
    · rw [hpc]
      simp [Pc.inside]
  all_goals
    refine ⟨?_, fun _ => ?_⟩ <;> intros <;> repeat' split
  all_goals simp

/-- A drain returns: undisturbed, or with a loss recorded. -/
theorem resume_watched {rounds : ℕ} {ev ev' : Events} {k : Resume} {kernel : KernelState}
    (hpc : s.pc = .drain rounds ev k) (ho : (o = .tau ∧ ev' = ev) ∨ ev'.lost = true) :
    Watched cfg s o ({ s with kernel }.resume cfg ev' k) := by
  cases k with
  | head => exact .outside rfl (fun e he => by cases he)
  | dump snap cur =>
    have hin : s.pc.inside = true := by rw [hpc]; rfl
    simp only [State.resume]
    split
    · exact .inside hin .fail
    · rename_i hlost
      rcases ho with ⟨rfl, rfl⟩ | hl
      · refine .inside hin ?_
        rw [hpc]
        exact .resumed (by simpa using hlost)
      · exact absurd hl hlost
  | final snap =>
    have hin : s.pc.inside = true := by rw [hpc]; rfl
    simp only [State.resume]
    split
    · exact .inside hin .fail
    · rename_i hlost
      rcases ho with ⟨rfl, rfl⟩ | hl
      · refine .inside hin ?_
        rw [hpc]
        exact .returned (by simpa using hlost)
      · exact absurd hl hlost
  | after changed exports =>
    simp only [State.resume]
    split
    · exact .outside rfl (fun e he => by cases he)
    · refine .outside rfl ?_
      intro e he
      cases he
      rw [hpc]
      rfl

/-- A drain goes on. -/
theorem drain_watched {rounds rounds' : ℕ} {ev ev' : Events} {k : Resume} {kernel : KernelState}
    (hpc : s.pc = .drain rounds ev k)
    (ha : Advance cfg (.drain rounds ev k) s.seq o (.drain rounds' ev' k) s.seq) :
    Watched cfg s o { s with kernel, pc := .drain rounds' ev' k } := by
  have hin : s.pc.inside = true →
      Watched cfg s o { s with kernel, pc := .drain rounds' ev' k } := by
    intro hs
    exact .inside hs (hpc ▸ ha)
  cases k with
  | dump snap cur => exact hin (by rw [hpc]; rfl)
  | final snap => exact hin (by rw [hpc]; rfl)
  | head => exact .outside rfl (fun e he => by cases he)
  | after changed exports =>
    refine .outside rfl ?_
    intro e he
    cases he
    rw [hpc]
    rfl

theorem absorb_nil (ev : Events) : (ev.absorb []).lost = true := rfl

theorem drainReceive_watched {rounds : ℕ} {ev : Events} {k : Resume}
    (hpc : s.pc = .drain (rounds + 1) ev k) :
    Watched cfg s (s.seen .done) (s.drainReceive cfg rounds ev k).2 := by
  simp only [State.seen, hpc]
  unfold State.drainReceive
  by_cases hover : s.kernel.overrun = true
  · rw [if_pos hover, if_pos hover]
    exact resume_watched hpc (Or.inr rfl)
  · rw [if_neg hover, if_neg hover]
    cases hq : s.kernel.queue with
    | nil => exact resume_watched hpc (Or.inl ⟨rfl, rfl⟩)
    | cons bytes queue =>
      by_cases hb : bytes = []
      · subst hb
        exact resume_watched hpc (Or.inr (absorb_nil ev))
      · simp only [hb, if_false]
        exact drain_watched hpc .notice

theorem drainStep_watched {rounds : ℕ} {ev : Events} {k : Resume} (io : Io)
    (hpc : s.pc = .drain rounds ev k) :
    Watched cfg s (s.seen io) (s.drainStep cfg rounds ev k io).2 := by
  cases rounds with
  | zero =>
    have hseen : s.seen io = .tau := by
      cases io <;> simp [State.seen, hpc]
    rw [hseen]
    exact resume_watched hpc (Or.inl ⟨rfl, rfl⟩)
  | succ rounds =>
    cases io with
    | done => exact drainReceive_watched hpc
    | interrupted =>
      have hseen : s.seen .interrupted = .tau := by simp [State.seen, hpc]
      rw [hseen]
      exact drain_watched hpc .idle
    | error consumed => exact resume_watched hpc (Or.inr rfl)

theorem request_watched (io : Io) (hpc : s.pc = .request snap) :
    Watched cfg s (s.seen io) (s.request snap io) := by
  have hin : s.pc.inside = true := by rw [hpc]; rfl
  cases hd : snap.todo with
  | nil =>
    have hseen : s.seen io = .tau := by
      cases io <;> simp [State.seen, hpc, hd]
    rw [hseen]
    simp only [State.request, hd]
    refine .inside hin ?_
    rw [hpc]
    exact .final hd
  | cons key todo =>
    have hsent : s.seen .done = .request key (max ((s.seq + 1) % 2 ^ 32) 1) := by
      simp [State.seen, hpc, hd]
    cases io with
    | error consumed =>
      simp only [State.request, hd]
      exact .inside hin .fail
    | done | interrupted =>
      simp only [State.request, hd]
      refine .inside hin ?_
      simp only [State.seen, hpc, hd]
      exact .request hd

theorem receiveStep_watched {rounds : ℕ} (io : Io) (hpc : s.pc = .receive rounds snap cur) :
    Watched cfg s (s.seen io) (s.receiveStep cfg rounds snap cur io) := by
  have hin : s.pc.inside = true := by rw [hpc]; rfl
  have hd : s.pc.dumping = some (snap, cur) := by rw [hpc]; rfl
  have hwait : Watched cfg s .tau { s with pc := .wait snap cur } :=
    .inside hin (.dumping hd rfl)
  cases rounds with
  | zero =>
    have hseen : s.seen io = .tau := by
      cases io <;> simp [State.seen, hpc]
    rw [hseen]
    exact hwait
  | succ rounds =>
    cases io with
    | interrupted =>
      have hseen : s.seen .interrupted = .tau := by simp [State.seen, hpc]
      rw [hseen]
      exact .inside hin (.dumping hd rfl)
    | error consumed => exact .inside hin .fail
    | done =>
      simp only [State.seen, hpc, State.receiveStep]
      cases hq : s.kernel.datagrams with
      | nil => exact hwait
      | cons bytes datagrams =>
        simp only [State.receiveDatagram]
        split
        · exact .inside hin .fail
        · rename_i hb
          split
          · exact .inside hin .fail
          · rename_i dump hr
            split
            · rename_i hdone
              exact .inside hin (.ended hd hb hr hdone)
            · rename_i hdone
              exact .inside hin (.received hd hb hr (by simpa using hdone))

theorem work_watched {a : Label} (h : s.work cfg io = some (a, t)) :
    Watched cfg s (s.seen io) t := by
  have hout : ∀ u : State, u.pc.inside = false → u.pc.exporting = none →
      Watched cfg s (s.seen io) u := by
    intro u hu he
    refine .outside hu ?_
    intro e he'
    rw [he] at he'
    cases he'
  unfold State.work at h
  split at h
  case h_1 hpc =>
    cases h
    split
    · exact hout _ rfl rfl
    · exact hout _ rfl rfl
  case h_2 hpc =>
    obtain rfl := congrArg Prod.snd (Option.some.inj h)
    exact drainStep_watched io hpc
  case h_3 hpc =>
    cases h
    unfold State.assess
    split
    · exact hout _ rfl rfl
    · exact hout _ rfl rfl
  case h_4 hpc =>
    cases h
    exact hout _ rfl rfl
  case h_5 now hpc =>
    obtain rfl := congrArg Prod.snd (Option.some.inj h)
    unfold State.choose
    simp only [State.seen, hpc]
    split
    · rename_i hd
      rw [Bool.and_eq_true] at hd
      cases io with
      | error consumed => exact .began hd.1 (Or.inr rfl)
      | done | interrupted => exact .began hd.1 (Or.inl rfl)
    · exact .outside rfl (fun e he => by cases he)
  case h_6 hpc =>
    cases h
    exact request_watched io hpc
  case h_7 snap cur hpc =>
    cases h
    have hin : s.pc.inside = true := by rw [hpc]; rfl
    have hd : s.pc.dumping = some (snap, cur) := by rw [hpc]; rfl
    have hseen : s.seen io = .tau := by
      cases io <;> simp [State.seen, hpc]
    rw [hseen]
    unfold State.checkDump
    split
    · exact .inside hin .fail
    · exact .inside hin (.drain hd)
  case h_8 hpc =>
    cases h
    exact receiveStep_watched io hpc
  case h_9 snap cur hpc =>
    cases h
    have hin : s.pc.inside = true := by rw [hpc]; rfl
    have hd : s.pc.dumping = some (snap, cur) := by rw [hpc]; rfl
    have hseen : s.seen io = .tau := by
      cases io <;> simp [State.seen, hpc]
    rw [hseen]
    split
    · exact .inside hin .fail
    · exact .inside hin (.dumping hd rfl)
  case h_10 hpc =>
    cases h
    have hseen : s.seen io = .tau := by
      cases io <;> simp [State.seen, hpc]
    unfold State.filterStep
    split
    · rename_i he
      rw [hseen]
      exact .filtered hpc he
    · exact hout _ rfl rfl
  case h_11 hpc =>
    cases h
    exact hout _ rfl rfl
  case h_12 hpc =>
    cases h
    cases io <;> exact hout _ rfl rfl
  case h_13 hpc =>
    cases h
    unfold State.backOff
    split
    · exact hout _ rfl rfl
    · exact hout _ rfl rfl
  case h_14 hpc =>
    cases h
    split
    · exact hout _ rfl rfl
    · exact hout _ rfl rfl
  case h_15 => cases h

end Netlink
end Ubgp
