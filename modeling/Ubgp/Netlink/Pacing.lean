import Ubgp.Lib.Rate
import Ubgp.Netlink.Run

/-! How often the netlink worker starts a snapshot, whatever the kernel reports and however dumps
end. -/
namespace Ubgp
namespace Netlink

variable {cfg : Config} {s t u : State} {a : Label} {ys zs : List Label} {io : Io}

/-- Snapshots are at least so far apart, in milliseconds: the refresh interval after a complete or a
discarded one, the shortest back-off after a failed one. -/
def gapMs (cfg : Config) : ℕ := min cfg.kernel.refreshIntervalMs 200

/-- The longest time a snapshot is put off. -/
def delayMs (cfg : Config) : ℕ := max cfg.kernel.refreshIntervalMs 3000

def Label.isBegan : Label → Bool
  | .began => true
  | _ => false

/-- From the start of a snapshot until the next one is scheduled; a worker that has stopped
schedules none. -/
def Pc.engaged : Pc → Bool
  | .head | .drain _ _ .head | .assess _ | .invalidate _ | .choose _ | .poll => false
  | _ => true

def Pc.ended : Pc → Bool
  | .stopped => true
  | _ => false

/-- A time that was read before. -/
def Pc.reading : Pc → Option ℕ
  | .invalidate now | .choose now => some now
  | _ => none

/-- When the next snapshot can start at the earliest. -/
def State.earliest (cfg : Config) (s : State) : ℕ :=
  if s.pc.engaged then s.now + gapMs cfg else s.due

theorem earliest_engaged (h : s.pc.engaged = true) : s.earliest cfg = s.now + gapMs cfg := if_pos h

theorem earliest_idle (h : s.pc.engaged = false) : s.earliest cfg = s.due := by
  simp [State.earliest, h]

structure Timely (cfg : Config) (s : State) : Prop where
  reading : ∀ now ∈ s.pc.reading, now ≤ s.now
  soon : s.due ≤ s.now + delayMs cfg

/-- What a step does to the schedule of snapshots. -/
structure Schedules (cfg : Config) (s : State) (a : Label) (t : State) : Prop where
  now : s.now ≤ t.now
  next : s.earliest cfg ≤ t.earliest cfg ∨ s.now + gapMs cfg ≤ t.earliest cfg
  began : a.isBegan = true → s.earliest cfg ≤ s.now ∧ s.now + gapMs cfg ≤ t.earliest cfg
  timely : Timely cfg t

/-- A step that neither starts nor schedules a snapshot. -/
theorem Schedules.still (h : Timely cfg s) (ha : a.isBegan = false) (hnow : s.now ≤ t.now)
    (hdue : t.due = s.due) (hread : ∀ now ∈ t.pc.reading, now ≤ t.now)
    (hpc : t.pc.ended = true ∨ t.pc.engaged = s.pc.engaged) : Schedules cfg s a t where
  now := hnow
  next := by
    cases ht : t.pc.engaged with
    | true =>
      rw [earliest_engaged ht]
      exact Or.inr (Nat.add_le_add_right hnow _)
    | false =>
      rcases hpc with hpc | hpc
      · cases hp : t.pc <;> simp [hp, Pc.ended, Pc.engaged] at hpc ht
      · rw [earliest_idle ht, earliest_idle (hpc.symm.trans ht), hdue]
        exact Or.inl (Nat.le_refl _)
  began := fun hb => by rw [ha] at hb; cases hb
  timely := by
    refine ⟨hread, ?_⟩
    rw [hdue]
    exact h.soon.trans (Nat.add_le_add_right hnow _)

/-- The next snapshot is scheduled. -/
theorem Schedules.reset (ha : a.isBegan = false) (ht : t.pc.engaged = false)
    (hread : t.pc.reading = none) (hnow : t.now = s.now) {d : ℕ} (hdue : t.due = s.now + d)
    (hmin : gapMs cfg ≤ d) (hmax : d ≤ delayMs cfg) : Schedules cfg s a t where
  now := hnow ▸ Nat.le_refl _
  next := by
    rw [earliest_idle ht, hdue]
    exact Or.inr (Nat.add_le_add_left hmin _)
  began := fun hb => by rw [ha] at hb; cases hb
  timely := by
    refine ⟨by simp [hread], ?_⟩
    rw [hdue, hnow]
    exact Nat.add_le_add_left hmax _

/-- A snapshot starts. -/
theorem Schedules.start (h : Timely cfg s) {now : ℕ} (hpc : s.pc = .choose now)
    (hle : s.due ≤ now) (ht : t.pc.engaged = true) (hread : t.pc.reading = none)
    (hnow : t.now = s.now) (hdue : t.due = s.due) : Schedules cfg s .began t := by
  have hclock : s.due ≤ s.now := hle.trans (h.reading now (by rw [hpc]; rfl))
  have hidle : s.earliest cfg = s.due := earliest_idle (by rw [hpc]; rfl)
  have hthen : t.earliest cfg = s.now + gapMs cfg := by rw [earliest_engaged ht, hnow]
  refine ⟨hnow ▸ Nat.le_refl _, Or.inr (by omega), fun _ => ⟨by omega, by omega⟩,
    by simp [hread], ?_⟩
  rw [hdue, hnow]
  exact h.soon

/-! One step of the worker. -/

theorem resume_schedules {rounds : ℕ} {ev ev' : Events} {k : Resume} {kernel : KernelState}
    (h : Timely cfg s) (hpc : s.pc = .drain rounds ev k) (ha : a.isBegan = false) :
    Schedules cfg s a ({ s with kernel }.resume cfg ev' k) := by
  cases k with
  | head =>
    exact .still h ha (Nat.le_refl _) rfl (by simp [State.resume, Pc.reading])
      (Or.inr (by rw [hpc]; rfl))
  | dump snap cur | final snap =>
    unfold State.resume
    simp only
    split
    all_goals
      exact .still h ha (Nat.le_refl _) rfl (by simp [Pc.reading])
        (Or.inr (by rw [hpc]; rfl))
  | after changed exports =>
    unfold State.resume
    simp only
    split
    · exact .reset ha rfl rfl rfl rfl (Nat.min_le_left _ _) (Nat.le_max_left _ _)
    · exact .still h ha (Nat.le_refl _) rfl (by simp [Pc.reading])
        (Or.inr (by rw [hpc]; rfl))

/-- A step within the worker's loop that does not look at the schedule. -/
theorem Schedules.inside (h : Timely cfg s) (hnow : t.now = s.now) (hdue : t.due = s.due)
    (hread : t.pc.reading = none)
    (hpc : t.pc.ended = true ∨ t.pc.engaged = s.pc.engaged) : Schedules cfg s .tau t :=
  .still h rfl (hnow ▸ Nat.le_refl _) hdue (by simp [hread]) hpc

theorem drainStep_schedules {rounds : ℕ} {ev : Events} {k : Resume} (h : Timely cfg s)
    (hpc : s.pc = .drain rounds ev k) (hs : s.drainStep cfg rounds ev k io = (a, t)) :
    Schedules cfg s a t := by
  have hdrain : ∀ {rounds' : ℕ} {ev' : Events} {kernel : KernelState} {b : Label},
      b.isBegan = false → Schedules cfg s b { s with kernel, pc := .drain rounds' ev' k } := by
    intro rounds' ev' kernel b hb
    refine .still h hb (Nat.le_refl _) rfl (by simp [Pc.reading]) (Or.inr ?_)
    rw [hpc]
    cases k <;> rfl
  unfold State.drainStep at hs
  split at hs
  · cases hs
    exact resume_schedules h hpc rfl
  · unfold State.drainReceive at hs
    split at hs
    · cases hs
      exact resume_schedules h hpc rfl
    · split at hs
      · cases hs
        exact resume_schedules h hpc rfl
      · rename_i bytes queue _
        cases hs
        have hb : (if alarming bytes then Label.alarm else .tau).isBegan = false := by
          split <;> rfl
        by_cases hempty : bytes = []
        · rw [if_pos hempty]
          exact resume_schedules h hpc hb
        · rw [if_neg hempty]
          exact hdrain hb
  · cases hs
    exact hdrain rfl
  · cases hs
    exact resume_schedules h hpc rfl

theorem receiveDatagram_schedules {rounds : ℕ} {snap : Snap} {cur : Current} {bytes : Bytes}
    {datagrams : List Bytes} (h : Timely cfg s) (hs : s.pc.engaged = true) :
    Schedules cfg s .tau ({ s with kernel := { s.kernel with datagrams } }.receiveDatagram cfg
      rounds snap cur bytes) := by
  unfold State.receiveDatagram
  split
  · exact .inside h rfl rfl rfl (Or.inr hs.symm)
  · split
    · exact .inside h rfl rfl rfl (Or.inr hs.symm)
    · split
      all_goals exact .inside h rfl rfl rfl (Or.inr hs.symm)

/-- The delay after a failed snapshot. -/
theorem backOff_delay (cfg : Config) {retries : ℕ} (h : 0 < retries) :
    gapMs cfg ≤ min (100 * 2 ^ min retries 5) 3000 ∧
      min (100 * 2 ^ min retries 5) 3000 ≤ delayMs cfg := by
  have hpow : 2 ^ 1 ≤ 2 ^ min retries 5 := Nat.pow_le_pow_right (by decide) (by omega)
  refine ⟨(Nat.min_le_right _ _).trans (by omega), ?_⟩
  exact (Nat.min_le_right _ _).trans (Nat.le_max_right _ _)

theorem work_schedules (h : Timely cfg s) (hs : s.work cfg io = some (a, t)) :
    Schedules cfg s a t := by
  unfold State.work at hs
  split at hs
  case h_1 hpc =>
    cases hs
    split
    · exact .inside h rfl rfl rfl (Or.inl rfl)
    · exact .inside h rfl rfl rfl (Or.inr (by rw [hpc]; rfl))
  case h_2 hpc => exact drainStep_schedules h hpc (Option.some.inj hs)
  case h_3 hpc =>
    cases hs
    unfold State.assess
    split
    all_goals
      exact .still h rfl (Nat.le_refl _) rfl (by simp [Pc.reading])
        (Or.inr (by rw [hpc]; rfl))
  case h_4 now hpc =>
    cases hs
    refine .still h rfl (Nat.le_refl _) rfl ?_ (Or.inr (by rw [hpc]; rfl))
    intro c hc
    cases hc
    exact h.reading now (by rw [hpc]; rfl)
  case h_5 hpc =>
    simp only [State.choose, Option.some.injEq] at hs
    split at hs
    · rename_i hd
      simp only [Bool.and_eq_true, decide_eq_true_eq] at hd
      split at hs
      all_goals
        cases hs
        exact .start h hpc hd.2 rfl rfl rfl rfl
    · cases hs
      exact .inside h rfl rfl rfl (Or.inr (by rw [hpc]; rfl))
  case h_6 hpc =>
    cases hs
    unfold State.request
    split
    · exact .inside h rfl rfl rfl (Or.inr (by rw [hpc]; rfl))
    · split
      all_goals exact .inside h rfl rfl rfl (Or.inr (by rw [hpc]; rfl))
  case h_7 hpc =>
    cases hs
    unfold State.checkDump
    split
    all_goals exact .inside h rfl rfl rfl (Or.inr (by rw [hpc]; rfl))
  case h_8 hpc =>
    cases hs
    unfold State.receiveStep
    split
    · exact .inside h rfl rfl rfl (Or.inr (by rw [hpc]; rfl))
    · split
      · exact .inside h rfl rfl rfl (Or.inr (by rw [hpc]; rfl))
      · exact receiveDatagram_schedules h (by rw [hpc]; rfl)
    · exact .inside h rfl rfl rfl (Or.inr (by rw [hpc]; rfl))
    · exact .inside h rfl rfl rfl (Or.inr (by rw [hpc]; rfl))
  case h_9 hpc =>
    cases hs
    split
    all_goals exact .inside h rfl rfl rfl (Or.inr (by rw [hpc]; rfl))
  case h_10 hpc =>
    cases hs
    unfold State.filterStep
    split
    · exact .inside h rfl rfl rfl (Or.inr (by rw [hpc]; rfl))
    · exact .inside h rfl rfl rfl (Or.inl rfl)
  case h_11 hpc =>
    cases hs
    exact .still h rfl (Nat.le_refl _) rfl (by simp [Pc.reading])
      (Or.inr (by rw [hpc]; rfl))
  case h_12 hpc =>
    cases hs
    unfold State.settle
    split
    · exact .inside h rfl rfl rfl (Or.inl rfl)
    · exact .reset rfl rfl rfl rfl rfl (Nat.min_le_left _ _) (Nat.le_max_left _ _)
  case h_13 hpc =>
    cases hs
    unfold State.backOff
    split
    · exact .inside h rfl rfl rfl (Or.inl rfl)
    · have hpos : 0 < min (s.retries + 1) (2 ^ 32 - 1) := by omega
      obtain ⟨hmin, hmax⟩ := backOff_delay cfg hpos
      exact .reset rfl rfl rfl rfl rfl hmin hmax
  case h_14 hpc =>
    cases hs
    split
    · exact .inside h rfl rfl rfl (Or.inl rfl)
    · exact .inside h rfl rfl rfl (Or.inr (by rw [hpc]; rfl))
  case h_15 => cases hs

theorem Step.schedules (hs : Step cfg s a t) (h : Timely cfg s) : Schedules cfg s a t := by
  obtain ⟨m, hs⟩ := hs
  cases m with
  | change routes notice =>
    simp only [step, Option.map_eq_some_iff, Prod.mk.injEq] at hs
    obtain ⟨kernel, -, rfl, rfl⟩ := hs
    exact .still h rfl (Nat.le_refl _) rfl h.reading (Or.inr rfl)
  | read m =>
    simp only [step, Option.map_eq_some_iff, Prod.mk.injEq] at hs
    obtain ⟨kernel, -, rfl, rfl⟩ := hs
    exact .still h rfl (Nat.le_refl _) rfl h.reading (Or.inr rfl)
  | pack bytes =>
    simp only [step, Option.map_eq_some_iff, Prod.mk.injEq] at hs
    obtain ⟨kernel, -, rfl, rfl⟩ := hs
    exact .still h rfl (Nat.le_refl _) rfl h.reading (Or.inr rfl)
  | traffic | halt | expire =>
    cases hs
    exact .still h rfl (Nat.le_refl _) rfl h.reading (Or.inr rfl)
  | tick d =>
    cases hs
    have hnow : s.now ≤ s.now + d := Nat.le_add_right _ _
    exact .still h rfl hnow rfl (fun c hc => (h.reading c hc).trans hnow) (Or.inr rfl)
  | work io => exact work_schedules h hs

theorem rationed : Lts.Rationed (Step cfg) State.now (State.earliest cfg) Label.isBegan
    (fun _ => false) (gapMs cfg) (Timely cfg) where
  keeps := fun h hs => (hs.schedules h).timely
  clock_le := fun h hs => (hs.schedules h).now
  due := fun h hs he => ((hs.schedules h).began he).1
  waits := fun h hs he => ((hs.schedules h).began he).2
  credits := fun _ _ hc => by cases hc
  others := fun h hs _ _ => (hs.schedules h).next

theorem init_timely (e : Exports) (t₀ : ℕ) (routes : Finset KernelRoute) :
    Timely cfg (init e t₀ routes) where
  reading := by simp [init, Pc.reading]
  soon := by simp [init]

/-- In every stretch of every run, however fast routes change, however often notifications are lost
and however dumps end: a worker with a validated configuration starts its snapshots at least a
refresh interval apart (or 200 ms, if that is shorter), so at most one more than such intervals
pass, and it never puts the next one off by more than the interval or three seconds. -/
theorem snapshots_paced {e : Exports} {t₀ : ℕ} {routes : Finset KernelRoute}
    (hv : cfg.validate = .ok ()) (hu : Lts.Trace (Step cfg) (init e t₀ routes) ys u)
    (h : Lts.Trace (Step cfg) u zs s) :
    zs.countP Label.isBegan ≤ (s.now - u.now) / gapMs cfg + 1 ∧
      (∀ zs' t, zs = .began :: zs' → Step cfg s .began t → u.now + gapMs cfg ≤ s.now) ∧
      s.due ≤ s.now + delayMs cfg := by
  have hgap : 0 < gapMs cfg := by
    have hinterval := (Config.validate_eq_ok.mp hv).refreshInterval.1
    unfold gapMs
    omega
  have htimely : Timely cfg u := rationed.invariant hu (init_timely e t₀ routes)
  refine ⟨?_, ?_, (rationed.invariant h htimely).soon⟩
  · have hbegan := rationed.count_le h htimely hgap
    rwa [List.countP_false, Nat.add_zero] at hbegan
  · rintro zs' t rfl ht
    obtain ⟨v, hbegan, hrest⟩ := h.head
    exact rationed.apart htimely hbegan rfl hrest ht rfl (by simp)

/-- The first snapshot of a worker starts at once. -/
theorem first_snapshot_exec :
    (Lts.exec (step exampleConfig) (List.replicate 5 (.work .done)) (init ∅ 0 ∅)).map (fun r =>
      (r.1.countP Label.isBegan, r.2.now)) = some (1, 0) := by
  decide +kernel

theorem example_snapshots_paced : ∃ xs s, Lts.Trace (Step exampleConfig) (init ∅ 0 ∅) xs s ∧
    xs.countP Label.isBegan = 1 ∧ 1 ≤ s.now / gapMs exampleConfig + 1 := by
  obtain ⟨⟨xs, s⟩, hr, he⟩ := Option.map_eq_some_iff.mp first_snapshot_exec
  simp only [Prod.mk.injEq] at he
  obtain ⟨hcount, -⟩ := he
  have htrace := Lts.exec_trace hr
  obtain ⟨hle, -⟩ := snapshots_paced exampleConfig_valid .refl htrace
  rw [hcount] at hle
  exact ⟨xs, s, htrace, hcount, hle⟩

end Netlink
end Ubgp
