import Ubgp.Bgp.Spoken
import Ubgp.Bgp.Withdraw
import Ubgp.Lib.Rate

/-! How much the export loop sends: nothing twice without a reason, refresh cycles a second apart,
and KEEPALIVEs that a long export does not hold up. -/
namespace Ubgp
namespace Transmit

variable {n : Negotiated} {acl : String} {s t u : State} {a : Label} {xs ys zs : List Label}
  {e : Exports} {t₀ : ℕ} {p : IpNet}

def Label.announces (p : IpNet) : Label → Bool
  | .sent (.update false b) => decide (p ∈ b)
  | _ => false

/-- A refresh cycle of the family of a prefix starts. -/
def Label.replays (p : IpNet) : Label → Bool
  | .swap f => f.covers p
  | _ => false

/-- A refresh cycle starts. -/
def Label.isSwap : Label → Bool
  | .swap _ => true
  | _ => false

def announcements (p : IpNet) (xs : List Label) : ℕ := xs.countP (Label.announces p)
def withdrawals (p : IpNet) (xs : List Label) : ℕ := xs.countP (Label.withdraws p)
def replays (p : IpNet) (xs : List Label) : ℕ := xs.countP (Label.replays p)
def cycles (xs : List Label) : ℕ := xs.countP Label.isSwap

theorem countP_snoc (f : Label → Bool) (xs : List Label) (a : Label) :
    (xs ++ [a]).countP f = xs.countP f + (f a).toNat := by
  rw [List.countP_append, List.countP_singleton]
  cases f a <;> rfl

theorem announcements_snoc (p : IpNet) (xs : List Label) (a : Label) :
    announcements p (xs ++ [a]) = announcements p xs + (a.announces p).toNat :=
  countP_snoc _ _ _

theorem withdrawals_snoc (p : IpNet) (xs : List Label) (a : Label) :
    withdrawals p (xs ++ [a]) = withdrawals p xs + (a.withdraws p).toNat :=
  countP_snoc _ _ _

theorem replays_snoc (p : IpNet) (xs : List Label) (a : Label) :
    replays p (xs ++ [a]) = replays p xs + (a.replays p).toNat :=
  countP_snoc _ _ _

/-- The prefix is in the set, as a number. -/
def held (p : IpNet) (table : Prefixes) : ℕ := (decide (p ∈ table)).toNat

@[simp]
theorem held_eq_one {table : Prefixes} (h : p ∈ table) : held p table = 1 := by
  simp [held, h]

theorem replays_le_cycles (p : IpNet) (xs : List Label) : replays p xs ≤ cycles xs := by
  refine List.countP_mono_left ?_
  intro a _ ha
  cases a <;> first | rfl | cases ha

/-- The prefix may be announced: it is not held, or a refresh cycle asks for it. -/
def owed (p : IpNet) (s : State) : ℕ := (decide (p ∈ s.replay ∨ p ∉ s.advertised)).toNat

theorem owed_le_one (p : IpNet) (s : State) : owed p s ≤ 1 := Bool.toNat_le _

/-- The balance of a prefix since a state `u`: it is withdrawn only when it is held, and announced
only when it is owed, which a withdrawal or a refresh cycle makes it. -/
structure Balanced (p : IpNet) (u : State) (xs : List Label) (s : State) : Prop where
  withdrawn : withdrawals p xs + held p s.advertised ≤ announcements p xs + held p u.advertised
  announced : announcements p xs + owed p s ≤ withdrawals p xs + replays p xs + owed p u

theorem Balanced.refl : Balanced p s [] s :=
  ⟨by simp [withdrawals, announcements], by simp [withdrawals, announcements, replays]⟩

theorem owed_mono (hadv : p ∈ t.advertised ↔ p ∈ s.advertised)
    (hreplay : p ∈ t.replay → p ∈ s.replay) :
    owed p t ≤ owed p s := by
  unfold owed
  by_cases hp : p ∈ t.replay ∨ p ∉ t.advertised
  · have hs : p ∈ s.replay ∨ p ∉ s.advertised := hp.imp hreplay (fun hn => mt hadv.mpr hn)
    simp [hp, hs]
  · simp [hp]

/-- A step that sends no batch and starts no cycle. -/
theorem Balanced.moved (h : Balanced p u xs s) (ha : a.announces p = false)
    (hw : a.withdraws p = false) (hadv : p ∈ t.advertised ↔ p ∈ s.advertised)
    (hreplay : p ∈ t.replay → p ∈ s.replay) : Balanced p u (xs ++ [a]) t := by
  have hbefore := h.announced
  have howed := owed_mono hadv hreplay
  have hheld : held p t.advertised = held p s.advertised := by simp [held, hadv]
  constructor
  · rw [announcements_snoc, withdrawals_snoc, ha, hw, hheld]
    exact h.withdrawn
  · rw [announcements_snoc, withdrawals_snoc, replays_snoc, ha, hw, Bool.toNat_false]
    omega

theorem adopt_balanced {d : ℕ} {o : Orders} (h : Balanced p u xs s)
    (ht : s.adopt n acl d o = some t) {v : State} (hadv : v.advertised = t.advertised)
    (hreplay : v.replay = t.replay) (e' : Exports) : Balanced p u (xs ++ [.adopt e']) v := by
  obtain ⟨plan, -, rfl⟩ := adopt_spec ht
  refine h.moved rfl rfl (by rw [hadv]) ?_
  rw [hreplay]
  exact fun hp => (Finset.mem_filter.mp hp).1

/-- A batch: what is withdrawn was held, and what is announced was owed. -/
theorem Balanced.batch {d : ℕ} {withdraw : Bool} {batch : List IpNet} {plan : Plan}
    (h : Balanced p u xs s) (hsync : Synced n acl s)
    (hn : s.plan.next = some ((withdraw, batch), plan)) :
    Balanced p u (xs ++ [.sent (.update withdraw batch)]) (s.afterBatch d withdraw batch plan) := by
  by_cases hp : p ∈ batch
  swap
  · refine h.moved ?_ ?_ ?_ (fun hr => (Finset.mem_sdiff.mp hr).1)
    · cases withdraw <;> simp [Label.announces, hp]
    · cases withdraw <;> simp [Label.withdraws, hp]
    · cases withdraw <;> simp [State.afterBatch, hp]
  have hw := h.withdrawn
  have ha := h.announced
  have hone := owed_le_one p (s.afterBatch d withdraw batch plan)
  cases withdraw with
  | true =>
    obtain ⟨-, hsub⟩ := (hsync.plan.batch_mem hn).resolve_right (by simp)
    have hheld := (Reconcile.mem_drops.mp (hsub (List.mem_toFinset.mpr hp))).1
    have hgone : held p (s.afterBatch d true batch plan).advertised = 0 := by
      simp [State.afterBatch, held, hp]
    rw [held_eq_one hheld] at hw
    constructor
    · rw [announcements_snoc, withdrawals_snoc, hgone]
      simpa [Label.announces, Label.withdraws, hp] using hw
    · rw [announcements_snoc, withdrawals_snoc, replays_snoc]
      simp only [Label.announces, Label.withdraws, Label.replays, hp, decide_true, Bool.toNat_true,
        Bool.toNat_false]
      omega
  | false =>
    obtain ⟨-, hsub, -⟩ := (hsync.plan.batch_mem hn).resolve_left (by simp)
    have hadd := (Reconcile.mem_adds.mp (hsub (List.mem_toFinset.mpr hp))).2
    have hnow : held p (s.afterBatch d false batch plan).advertised = 1 := by
      simp [State.afterBatch, held, hp]
    have hfree : owed p (s.afterBatch d false batch plan) = 0 := by
      simp [State.afterBatch, owed, hp]
    have hdue : owed p s = 1 := by simp [owed, hadd]
    constructor
    · rw [announcements_snoc, withdrawals_snoc, hnow]
      simp only [Label.announces, Label.withdraws, hp, decide_true, Bool.toNat_true,
        Bool.toNat_false]
      omega
    · rw [announcements_snoc, withdrawals_snoc, replays_snoc, hfree]
      simp only [Label.announces, Label.withdraws, Label.replays, hp, decide_true, Bool.toNat_true,
        Bool.toNat_false]
      omega

/-- A cycle owes the prefixes of its families once more. -/
theorem Balanced.swap {f : Families} (h : Balanced p u xs s)
    (hadv : t.advertised = s.advertised)
    (hreplay : t.replay = s.target.filter (fun p => f.covers p = true)) :
    Balanced p u (xs ++ [.swap f]) t := by
  have ha := h.announced
  have howed : owed p t ≤ owed p s + (f.covers p).toNat := by
    cases hf : f.covers p with
    | true => exact (owed_le_one p t).trans (Nat.le_add_left _ _)
    | false =>
      refine (owed_mono (by rw [hadv]) ?_).trans (Nat.le_add_right _ _)
      intro hp
      rw [hreplay, Finset.mem_filter, hf] at hp
      exact absurd hp.2 (by simp)
  constructor
  · rw [announcements_snoc, withdrawals_snoc, hadv]
    simpa [Label.announces, Label.withdraws] using h.withdrawn
  · rw [announcements_snoc, withdrawals_snoc, replays_snoc]
    simp only [Label.announces, Label.withdraws, Label.replays, Bool.toNat_false]
    omega

theorem Balanced.step (h : Balanced p u xs s) (hsync : Synced n acl s) (ha : Step n acl s a t) :
    Balanced p u (xs ++ [a]) t := by
  cases ha.effect with
  | begin _ ht => refine adopt_balanced h ht ?_ ?_ _ <;> rfl
  | replan _ _ _ _ ht => refine adopt_balanced h ht ?_ ?_ _ <;> rfl
  | changed _ _ ht => refine adopt_balanced h ht ?_ ?_ _ <;> rfl
  | swap _ _ _ _ ht =>
    obtain ⟨plan, -, rfl⟩ := withPlan_spec ht
    exact h.swap rfl rfl
  | batch _ hn => exact h.batch hsync hn
  | eor4 => exact h.moved (by split <;> rfl) (by split <;> rfl) Iff.rfl id
  | eor6 => exact h.moved (by split <;> rfl) (by split <;> rfl) Iff.rfl id
  | _ => exact h.moved rfl rfl Iff.rfl id

/-- The balance of every stretch of a run. -/
theorem balanced_of_trace (hu : Lts.Trace (Step n acl) (init e t₀) ys u)
    (h : Lts.Trace (Step n acl) u zs s) : Balanced p u zs s := by
  induction h with
  | refl => exact .refl
  | snoc h ha ih => exact ih.step (Synced.of_trace (hu.append h)) ha

/-! Refresh cycles. -/

theorem adopt_times {d : ℕ} {o : Orders} (ht : s.adopt n acl d o = some t) :
    t.nextRefresh = s.nextRefresh ∧ t.nextKeepalive = s.nextKeepalive ∧ t.now = s.now + d := by
  obtain ⟨plan, -, rfl⟩ := adopt_spec ht
  exact ⟨rfl, rfl, rfl⟩

/-- Before the loop starts, a cycle would be due. -/
def Primed (s : State) : Prop := s.pc = .start → s.nextRefresh ≤ s.now

/-- What a step does to the time of the next refresh cycle. -/
structure Cools (s : State) (a : Label) (t : State) : Prop where
  now : s.now ≤ t.now
  next : s.nextRefresh ≤ t.nextRefresh
  swap : a.isSwap = true → s.nextRefresh ≤ s.now ∧ s.now + refreshMs ≤ t.nextRefresh
  primed : Primed t

theorem Cools.still (ha : a.isSwap = false) (hnow : s.now ≤ t.now)
    (hnext : t.nextRefresh = s.nextRefresh) (hp : Primed s) (hpc : t.pc = .start → s.pc = .start) :
    Cools s a t where
  now := hnow
  next := hnext ▸ Nat.le_refl _
  swap := fun he => by rw [ha] at he; cases he
  primed := fun ht => hnext ▸ (hp (hpc ht)).trans hnow

theorem Step.cools (ha : Step n acl s a t) (hp : Primed s) : Cools s a t := by
  cases ha.effect with
  | begin hpc ht =>
    obtain ⟨-, -, hnow⟩ := adopt_times ht
    have hdue := hp hpc
    exact ⟨by simp [hnow], by simp only [hnow]; omega, by simp [Label.isSwap], by simp [Primed]⟩
  | replan _ _ _ _ ht =>
    obtain ⟨hnext, -, hnow⟩ := adopt_times ht
    exact .still rfl (by simp [hnow]) hnext hp (by simp)
  | changed _ _ ht =>
    obtain ⟨hnext, -, hnow⟩ := adopt_times ht
    exact .still rfl (by simp [hnow]) hnext hp (by simp)
  | swap _ _ hcool _ _ =>
    exact ⟨by simp, by simp only; omega, fun _ => ⟨hcool, by simp only; omega⟩, by simp [Primed]⟩
  | eor4 => exact .still (by split <;> rfl) (by simp) rfl hp (by simp)
  | eor6 => exact .still (by split <;> rfl) (by simp) rfl hp (by simp)
  | publish | request | notify | close => exact .still rfl (Nat.le_refl _) rfl hp id
  | tick => exact .still rfl (by simp) rfl hp id
  | stop => exact .still rfl (Nat.le_refl _) rfl hp (by simp)
  | batch => exact .still rfl (by simp [State.afterBatch]) rfl hp (by simp [State.afterBatch])
  | _ => exact .still rfl (by simp) rfl hp (by simp)

theorem rationed : Lts.Rationed (Step n acl) State.now State.nextRefresh Label.isSwap
    (fun _ => false) refreshMs Primed where
  keeps := fun hp ha => (ha.cools hp).primed
  clock_le := fun hp ha => (ha.cools hp).now
  due := fun hp ha he => ((ha.cools hp).swap he).1
  waits := fun hp ha he => ((ha.cools hp).swap he).2
  credits := fun _ _ hc => by cases hc
  others := fun hp ha _ _ => Or.inl (ha.cools hp).next

theorem primed_of_trace (h : Lts.Trace (Step n acl) (init e t₀) xs s) : Primed s :=
  rationed.invariant h (fun _ => Nat.le_refl _)

/-- In every stretch of every run: a prefix is announced at most once more than it was withdrawn or
a refresh cycle of its family was started, and such cycles start a second apart, so a neighbour that
asks all the time hears of a prefix once a second. From the start of the loop on, nothing is
withdrawn more often than it was announced. -/
theorem announcements_bounded (hu : Lts.Trace (Step n acl) (init e t₀) ys u)
    (h : Lts.Trace (Step n acl) u zs s) (p : IpNet) :
    announcements p zs ≤ withdrawals p zs + replays p zs + 1 ∧
      withdrawals p (ys ++ zs) ≤ announcements p (ys ++ zs) ∧
      replays p zs ≤ (s.now - u.now) / refreshMs + 1 ∧
      ∀ f g zs' t, zs = .swap f :: zs' → Step n acl s (.swap g) t → u.now + refreshMs ≤ s.now := by
  have hprimed := primed_of_trace hu
  refine ⟨?_, ?_, ?_, ?_⟩
  · have hbalance : Balanced p u zs s := balanced_of_trace hu h
    have ha := hbalance.announced
    have hone := owed_le_one p u
    omega
  · have hbalance : Balanced p (init e t₀) (ys ++ zs) s := balanced_of_trace .refl (hu.append h)
    have hw := hbalance.withdrawn
    have hnone : held p (init e t₀).advertised = 0 := by simp [held, init]
    omega
  · have hcycles := rationed.count_le h hprimed (by decide)
    rw [List.countP_false, Nat.add_zero] at hcycles
    exact (replays_le_cycles p zs).trans hcycles
  · rintro f g zs' t rfl ht
    obtain ⟨v, hf, hrest⟩ := h.head
    exact rationed.apart hprimed hf rfl hrest ht rfl (by simp)

theorem undisturbedMoves_counts :
    (Lts.exec (step dualSession "edge") undisturbedMoves (init dualExports 0)).map (fun r =>
      (announcements examplePrefix r.1, withdrawals examplePrefix r.1, replays examplePrefix r.1)) =
      some (2, 0, 1) := by
  decide +kernel

theorem example_announcements_bounded :
    ∃ xs s, Lts.Trace (Step dualSession "edge") (init dualExports 0) xs s ∧
      announcements examplePrefix xs = 2 ∧ 1 ≤ s.now / refreshMs + 1 := by
  obtain ⟨⟨xs, s⟩, hr, he⟩ := Option.map_eq_some_iff.mp undisturbedMoves_counts
  simp only [Prod.mk.injEq] at he
  obtain ⟨hann, hwd, hrep⟩ := he
  have htrace := Lts.exec_trace hr
  obtain ⟨-, -, hle, -⟩ := announcements_bounded .refl htrace examplePrefix
  rw [hrep] at hle
  exact ⟨xs, s, htrace, hann, hle⟩

/-! KEEPALIVEs. -/

/-- A KEEPALIVE is due. -/
def Due (n : Negotiated) (s : State) : Prop := n.hold ≠ 0 ∧ s.nextKeepalive ≤ s.now

/-- What may be sent before a KEEPALIVE that is due: the batch the loop is at, or the end-of-RIB
markers of the pass. -/
def Overtakes (ms : List Send) : Prop :=
  (∃ withdraw batch, ms = [.update withdraw batch]) ∨
    ms.Sublist [.endOfRib false, .endOfRib true]

/-- The pass of the loop in which a KEEPALIVE became due, while it is not sent. -/
structure Late (n : Negotiated) (zs : List Label) (s : State) : Prop where
  due : Due n s
  started : s.pc ≠ .start
  sent : Overtakes (sends zs)
  batch : s.pc = .batch ∨ s.pc = .eor4 → sends zs = []
  eor6 : s.pc = .eor6 → (sends zs).Sublist [.endOfRib false]

theorem overtakes_nil : Overtakes [] := Or.inr (List.nil_sublist _)

theorem sends_snoc (zs : List Label) (a : Label) :
    sends (zs ++ [a]) = sends zs ++ a.message.toList := by
  rw [sends_append, sends_singleton]

/-- A step that leaves the KEEPALIVE due. -/
theorem Late.moved (h : Late n zs s) (hnow : s.now ≤ t.now)
    (hnext : t.nextKeepalive = s.nextKeepalive) (hstart : t.pc ≠ .start)
    (hsent : Overtakes (sends zs ++ a.message.toList))
    (hbatch : t.pc = .batch ∨ t.pc = .eor4 → sends zs ++ a.message.toList = [])
    (heor : t.pc = .eor6 → (sends zs ++ a.message.toList).Sublist [.endOfRib false]) :
    Late n (zs ++ [a]) t := by
  rw [← sends_snoc] at hsent hbatch heor
  refine ⟨⟨h.due.1, ?_⟩, hstart, hsent, hbatch, heor⟩
  rw [hnext]
  exact h.due.2.trans hnow

/-- A step that sends nothing either. -/
theorem Late.silent (h : Late n zs s) (ha : a.message = none) (hnow : s.now ≤ t.now)
    (hnext : t.nextKeepalive = s.nextKeepalive) (hstart : t.pc ≠ .start)
    (hbatch : t.pc = .batch ∨ t.pc = .eor4 → sends zs = [])
    (heor : t.pc = .eor6 → (sends zs).Sublist [.endOfRib false]) : Late n (zs ++ [a]) t := by
  refine h.moved hnow hnext hstart ?_ ?_ ?_
  all_goals
    rw [ha]
    simp only [Option.toList_none, List.append_nil]
    first | exact h.sent | exact hbatch | exact heor

theorem Late.step (h : Late n zs s) (ha : Step n acl s a t) (hno : a ≠ .sent .keepalive) :
    Late n (zs ++ [a]) t := by
  cases ha.effect with
  | begin hpc => exact absurd hpc h.started
  | publish | request | notify | close =>
    exact h.silent rfl (Nat.le_refl _) rfl h.started h.batch h.eor6
  | tick => exact h.silent rfl (by simp) rfl h.started h.batch h.eor6
  | replan _ _ _ _ ht | changed _ _ ht =>
    obtain ⟨-, hnext, hnow⟩ := adopt_times ht
    exact h.silent rfl (by simp [hnow]) hnext (by simp) (by simp) (by simp)
  | swap _ _ _ _ ht =>
    obtain ⟨plan, -, rfl⟩ := withPlan_spec ht
    exact h.silent rfl (by simp) rfl (by simp) (by simp) (by simp)
  | keep | noSwap | arm | notified | timer =>
    exact h.silent rfl (by simp) rfl (by simp) (by simp) (by simp)
  | stop => exact h.silent rfl (Nat.le_refl _) rfl (by simp) (by simp) (by simp)
  | keepalive => exact absurd rfl hno
  | noKeepalive _ hn => exact absurd h.due.2 (Nat.not_le.mpr (hn h.due.1))
  | drained hpc =>
    have hnil := h.batch (Or.inl hpc)
    exact h.silent rfl (by simp) rfl (by simp) (fun _ => hnil) (by simp)
  | @batch _ withdraw batch _ hpc =>
    have hnil := h.batch (Or.inl hpc)
    refine h.moved (by simp [State.afterBatch]) rfl (by simp [State.afterBatch]) ?_
      (by simp [State.afterBatch]) (by simp [State.afterBatch])
    rw [hnil]
    exact Or.inl ⟨withdraw, batch, rfl⟩
  | eor4 hpc =>
    have hnil := h.batch (Or.inr hpc)
    refine h.moved (by simp) rfl (by simp) ?_ (by simp) ?_
    · rw [hnil]
      refine Or.inr ?_
      split <;> simp [Label.message]
    · intro _
      rw [hnil]
      split <;> simp [Label.message]
  | eor6 hpc =>
    have hsub := h.eor6 hpc
    refine h.moved (by simp) rfl (by simp) (Or.inr ?_) (by simp) (by simp)
    have hmark : (if s.eor.v6 then Label.sent (.endOfRib true) else .tau).message.toList.Sublist
        [Send.endOfRib true] := by
      split <;> simp [Label.message]
    exact hsub.append hmark

/-- Only a KEEPALIVE and the start of the loop set the time of the next one. -/
theorem nextKeepalive_step (ha : Step n acl s a t) (hs : s.pc ≠ .start)
    (hno : a ≠ .sent .keepalive) : t.pc ≠ .start ∧ t.nextKeepalive = s.nextKeepalive := by
  cases ha.effect with
  | begin hpc => exact absurd hpc hs
  | keepalive => exact absurd rfl hno
  | publish | request | notify | close | tick => exact ⟨hs, rfl⟩
  | replan _ _ _ _ ht | changed _ _ ht => exact ⟨by simp, (adopt_times ht).2.1⟩
  | swap _ _ _ _ ht =>
    obtain ⟨plan, -, rfl⟩ := withPlan_spec ht
    exact ⟨by simp, rfl⟩
  | _ => exact ⟨by simp [State.afterBatch], rfl⟩

theorem keepalive_step (ha : Step n acl s (.sent .keepalive) t) :
    s.nextKeepalive ≤ s.now ∧ t.nextKeepalive = t.now + keepaliveMs n := by
  generalize hb : Label.sent .keepalive = b at ha
  cases ha.effect with
  | keepalive _ _ hdue => exact ⟨hdue, rfl⟩
  | eor4 | eor6 => split at hb <;> cases hb
  | _ => cases hb

/-- Runs without a KEEPALIVE. -/
theorem Silent.run {P : List Label → State → Prop} (h : Lts.Trace (Step n acl) s zs t)
    (hno : .sent .keepalive ∉ zs) (h₀ : P [] s)
    (hstep : ∀ zs u a v, P zs u → Step n acl u a v → a ≠ .sent .keepalive → P (zs ++ [a]) v) :
    P zs t := by
  induction h with
  | refl => exact h₀
  | snoc _ ha ih =>
    have hbefore := ih (fun hmem => hno (List.mem_append_left _ hmem))
    have hne : _ ≠ Label.sent .keepalive :=
      fun heq => hno (List.mem_append_right _ (List.mem_singleton.mpr heq.symm))
    exact hstep _ _ _ _ hbefore ha hne

/-- A KEEPALIVE is not sent before its time, and the next one is then set a third of the hold time
later. Once it is due, the loop sends at most the one batch it is about to write, or the end-of-RIB
markers of its current pass, before it: however long the queue of updates, however often it is
planned anew and however many refreshes are asked for. -/
theorem keepalive_punctual (hs : s.pc ≠ .start) (h : Lts.Trace (Step n acl) s zs t)
    (hno : .sent .keepalive ∉ zs) :
    (Due n s → Overtakes (sends zs)) ∧
      ∀ u, Step n acl t (.sent .keepalive) u →
        s.nextKeepalive ≤ t.now ∧ u.nextKeepalive = u.now + keepaliveMs n := by
  refine ⟨?_, ?_⟩
  · intro hdue
    have hlate : Late n zs t := Silent.run h hno
      ⟨hdue, hs, overtakes_nil, fun _ => rfl, fun _ => List.nil_sublist _⟩
      (fun _ _ _ _ hlate ha hne => hlate.step ha hne)
    exact hlate.sent
  · intro u hu
    have hnext : t.pc ≠ .start ∧ t.nextKeepalive = s.nextKeepalive :=
      Silent.run (P := fun _ v => v.pc ≠ .start ∧ v.nextKeepalive = s.nextKeepalive) h hno ⟨hs, rfl⟩
        (fun _ _ _ _ hv ha hne =>
          (nextKeepalive_step ha hv.1 hne).imp_right (fun hsame => hsame.trans hv.2))
    rw [← hnext.2]
    exact keepalive_step hu

theorem enumerates_toList (set : Prefixes) : Enumerates set.toList set :=
  ⟨set.nodup_toList, fun _ => Finset.mem_toList⟩

/-- There is a plan for every target. -/
theorem withPlan_total (n : Negotiated) (s : State) (target replay : Prefixes) :
    ∃ o t, s.withPlan n o target replay = some t :=
  ⟨⟨s.advertised.toList, target.toList⟩, _,
    if_pos ⟨enumerates_toList s.advertised, enumerates_toList target⟩⟩

/-- The sections before the KEEPALIVE can always go on; they send nothing and leave it due. -/
theorem replan_advances (acl : String) (hpc : s.pc = .replan) (hopen : s.closed = false)
    (hdue : Due n s) :
    ∃ a t, Step n acl s a t ∧ a.message = none ∧ t.pc = .refresh ∧ Due n t ∧ t.now = s.now := by
  have hrun : ∀ o, step n acl s (.run 0 o) = s.replanSection n acl 0 o := by
    intro o
    simp only [step, State.advance, hpc]
  by_cases hc : (s.channel.hasChanged && decide (s.lastReplan + replanMs ≤ s.now)) = true
  · obtain ⟨o, t, ht⟩ : ∃ o t, s.adopt n acl 0 o = some t := withPlan_total n _ _ _
    refine ⟨.adopt s.channel.value, { t with pc := .refresh }, ⟨.run 0 o, ?_⟩, rfl, rfl, ?_, ?_⟩
    · rw [hrun, State.replanSection, if_neg (by simp [hopen]), if_pos hc, ht]
      rfl
    · obtain ⟨-, hnext, hnow⟩ := adopt_times ht
      refine ⟨hdue.1, ?_⟩
      simpa only [hnext, hnow, Nat.add_zero] using hdue.2
    · exact (adopt_times ht).2.2
  · refine ⟨.tau, { s with pc := .refresh, now := s.now + 0 }, ⟨.run 0 ⟨[], []⟩, ?_⟩, rfl, rfl,
      hdue, rfl⟩
    rw [hrun, State.replanSection, if_neg (by simp [hopen]), if_neg hc]

theorem refresh_advances (acl : String) (hpc : s.pc = .refresh) (hdue : Due n s) :
    ∃ a t, Step n acl s a t ∧ a.message = none ∧ t.pc = .keepalive ∧ Due n t ∧ t.now = s.now := by
  have hrun : ∀ o, step n acl s (.run 0 o) = s.refreshSection n 0 o := by
    intro o
    simp only [step, State.advance, hpc]
  by_cases hc : s.eor = Families.none ∧ s.nextRefresh ≤ s.now ∧ s.refresh.pending ≠ Families.none
  · obtain ⟨o, t, ht⟩ := withPlan_total n s s.target
      (s.target.filter (fun p => s.refresh.pending.covers p = true))
    obtain ⟨plan, -, rfl⟩ := withPlan_spec ht
    refine ⟨.swap s.refresh.pending, { s with
      pc := .keepalive
      target := s.target
      replay := s.target.filter (fun p => s.refresh.pending.covers p = true)
      plan
      refresh := { s.refresh with pending := Families.none }
      now := s.now + 0
      eor := s.refresh.pending.mask n.families
      nextRefresh := s.now + 0 + refreshMs }, ⟨.run 0 o, ?_⟩, rfl, rfl, hdue, rfl⟩
    rw [hrun, State.refreshSection, if_pos hc, ht]
    rfl
  · refine ⟨.tau, { s with pc := .keepalive, now := s.now + 0 }, ⟨.run 0 ⟨[], []⟩, ?_⟩, rfl, rfl,
      hdue, rfl⟩
    rw [hrun, State.refreshSection, if_neg hc]

/-- A parked loop whose KEEPALIVE is due can wake up and send it before anything else, without any
further input and without waiting, as long as its channel is open. -/
theorem keepalive_wakes {armed : Bool} (acl : String) (hpc : s.pc = .select armed)
    (hopen : s.closed = false) (hdue : Due n s) :
    ∃ zs t u, Lts.Trace (Step n acl) s zs t ∧ sends zs = [] ∧ t.now = s.now ∧
      Step n acl t (.sent .keepalive) u := by
  have hwake : Step n acl s .tau { s with pc := .replan, now := s.now + 0 } := by
    refine ⟨.wake .keepalive 0 ⟨[], []⟩, ?_⟩
    simp [step, hpc, State.wake, hdue.1, hdue.2]
  obtain ⟨a, v, hv, ha, hvpc, hvdue, hvnow⟩ :=
    replan_advances (s := { s with pc := .replan, now := s.now + 0 }) acl rfl hopen hdue
  obtain ⟨b, w, hw, hb, hwpc, hwdue, hwnow⟩ := refresh_advances acl hvpc hvdue
  have hsend : step n acl w (.run 0 ⟨[], []⟩) = some (w.keepaliveSection n 0) := by
    simp only [step, State.advance, hwpc]
  have hrun : Lts.Trace (Step n acl) s [.tau, a, b] w :=
    .snoc (.snoc (.snoc .refl hwake) hv) hw
  refine ⟨_, w, (w.keepaliveSection n 0).2, hrun, ?_, hwnow.trans hvnow, .run 0 ⟨[], []⟩, ?_⟩
  · have htau : Label.tau.message = none := rfl
    rw [sends, List.filterMap_cons_none htau, List.filterMap_cons_none ha,
      List.filterMap_cons_none hb, List.filterMap_nil]
  · rw [hsend, State.keepaliveSection]
    unfold Due at hwdue
    rw [if_pos hwdue]

/-- The loop is about to write its first batch when a KEEPALIVE becomes due. -/
def dueMoves : List Move :=
  .run 0 ⟨[], [examplePrefix]⟩ :: List.replicate 3 (.run 0 ⟨[], []⟩) ++ [.tick 1000]

theorem dueMoves_exec :
    ((Lts.exec (step exampleSession "edge") dueMoves (init exampleExports 0)).bind (fun r =>
      (Lts.exec (step exampleSession "edge") (idle 2) r.2).map (fun q =>
        (r.2.pc, decide (r.2.nextKeepalive ≤ r.2.now), sends q.1)))) =
      some (.batch, true, [.update false [examplePrefix]]) := by
  decide +kernel

theorem example_keepalive_punctual : ∃ s zs t,
    Lts.Trace (Step exampleSession "edge") s zs t ∧ Due exampleSession s ∧
      sends zs = [.update false [examplePrefix]] ∧ Overtakes (sends zs) := by
  obtain ⟨⟨xs, s⟩, -, hq⟩ := Option.bind_eq_some_iff.mp dueMoves_exec
  obtain ⟨⟨zs, t⟩, hr, he⟩ := Option.map_eq_some_iff.mp hq
  simp only [Prod.mk.injEq, decide_eq_true_eq] at he
  obtain ⟨hpc, hdue, hsends⟩ := he
  have htrace := Lts.exec_trace hr
  have hno : Label.sent .keepalive ∉ zs := by
    intro hmem
    have hkeep : Send.keepalive ∈ sends zs := List.mem_filterMap.mpr ⟨_, hmem, rfl⟩
    rw [hsends] at hkeep
    simp at hkeep
  have hlate : Due exampleSession s := ⟨by decide, hdue⟩
  exact ⟨s, zs, t, htrace, hlate, hsends,
    (keepalive_punctual (by simp [hpc]) htrace hno).1 hlate⟩

end Transmit
end Ubgp
