import Ubgp.Bgp.Transmit

/-! Export synchronisation: what was sent, what is targeted and what is still planned. -/
namespace Ubgp
namespace Transmit

variable {n : Negotiated} {acl : String} {s t : State} {a : Label} {xs : List Label}
  {e : Exports} {t₀ : ℕ}

/-- The peer's table after a step: only batches change it. -/
def applyBatch (table : Prefixes) : Label → Prefixes
  | .sent (.update true batch) => table \ batch.toFinset
  | .sent (.update false batch) => table ∪ batch.toFinset
  | _ => table

/-- The table of a peer that applied every batch of a history to the empty table, in order. -/
def peerTable (xs : List Label) : Prefixes := xs.foldl applyBatch ∅

def applyPublish (e : Exports) : Label → Exports
  | .publish e' => e'
  | _ => e

/-- The last snapshot published, `e` being the one the channel started with. -/
def latest (e : Exports) (xs : List Label) : Exports := xs.foldl applyPublish e

/-- The sections that run on a drained plan. -/
def Pc.quiet : Pc → Bool
  | .eor4 | .eor6 | .arm | .select _ => true
  | _ => false

/-- The remaining plan is always the exact diff of what was sent and what is targeted, and an
unchanged channel means the target is current. -/
structure Synced (n : Negotiated) (acl : String) (s : State) : Prop where
  plan : s.plan.Matches s.advertised (n.gate s.target) s.replay
  drained : s.pc.quiet = true → s.plan.next = none
  current : s.pc ≠ .start → s.channel.hasChanged = false →
    s.target = desired s.channel.value acl
  seen : s.channel.seen ≤ s.channel.version

theorem init_synced : Synced n acl (init e t₀) where
  plan := ⟨⟨List.nodup_nil, by simp [init]⟩, ⟨List.nodup_nil, by simp [init]⟩⟩
  drained := fun h => by cases h
  current := fun h => absurd rfl h
  seen := Nat.le_refl _

/-- A section that only moves on keeps the bookkeeping. -/
theorem Synced.moved (h : Synced n acl s) (hp : t.plan = s.plan)
    (ha : t.advertised = s.advertised) (ht : t.target = s.target) (hr : t.replay = s.replay)
    (hc : t.channel = s.channel) (hs : s.pc = .start → t.pc = .start)
    (hq : t.pc.quiet = true → s.plan.next = none) : Synced n acl t where
  plan := by rw [hp, ha, ht, hr]; exact h.plan
  drained := by rw [hp]; exact hq
  current := by
    rw [hc, ht]
    exact fun hne => h.current (fun e => hne (hs e))
  seen := by rw [hc]; exact h.seen

/-- A replanned state is in step with the snapshot it adopted. -/
theorem adopt_synced {d : ℕ} {o : Orders} (ht : s.adopt n acl d o = some t) :
    t.plan.Matches t.advertised (n.gate t.target) t.replay ∧
      t.target = desired t.channel.value acl ∧ t.channel.seen ≤ t.channel.version := by
  obtain ⟨plan, hplan, rfl⟩ := adopt_spec ht
  exact ⟨hplan, rfl, Nat.le_refl _⟩

theorem Synced.step (h : Synced n acl s) (ha : Step n acl s a t) : Synced n acl t := by
  cases ha.effect with
  | publish =>
    refine ⟨h.plan, h.drained, fun _ hc => ?_, Nat.le_succ_of_le h.seen⟩
    rw [Watch.hasChanged_sendReplace _ _ h.seen] at hc
    cases hc
  | request | notify | tick | close =>
    exact h.moved rfl rfl rfl rfl rfl (fun hs => hs) h.drained
  | begin hpc ht | replan hpc _ _ _ ht | changed hpc _ ht =>
    obtain ⟨hplan, htarget, hseen⟩ := adopt_synced ht
    exact ⟨hplan, (fun hq => by cases hq), fun _ _ => htarget, hseen⟩
  | keep hpc | noSwap hpc | keepalive hpc | noKeepalive hpc | notified hpc | timer hpc =>
    exact h.moved rfl rfl rfl rfl rfl (fun hs => by simp [hs] at hpc) (fun hq => by cases hq)
  | swap hpc _ _ _ ht =>
    obtain ⟨plan, hplan, rfl⟩ := withPlan_spec ht
    exact ⟨hplan, (fun hq => by cases hq), fun _ => h.current (by simp [hpc]), h.seen⟩
  | batch hpc hn =>
    exact ⟨h.plan.next hn, (fun hq => by cases hq), fun _ => h.current (by simp [hpc]), h.seen⟩
  | drained hpc hn =>
    exact h.moved rfl rfl rfl rfl rfl (fun hs => by simp [hs] at hpc) (fun _ => hn)
  | eor4 hpc | eor6 hpc | arm hpc =>
    exact h.moved rfl rfl rfl rfl rfl (fun hs => by simp [hs] at hpc)
      (fun _ => h.drained (by rw [hpc]; rfl))
  | stop hpc =>
    refine h.moved rfl rfl rfl rfl rfl (fun hs => ?_) (fun hq => by cases hq)
    rcases hpc with hpc | ⟨armed, hpc⟩ <;> simp [hs] at hpc

theorem Synced.of_trace (h : Lts.Trace (Step n acl) (init e t₀) xs s) : Synced n acl s :=
  h.invariant init_synced (fun _ _ _ hs ha => hs.step ha)

/-- On a drained plan the peer holds the targeted prefixes of the enabled families. -/
theorem Synced.settled (h : Synced n acl s) (hq : s.pc.quiet = true) :
    s.advertised = n.gate s.target := by
  obtain ⟨hd, ha⟩ := h.plan.settled (h.drained hq)
  exact Reconcile.eq_of_settled hd ha

/-- The peer's table moves with `advertised`. -/
theorem advertised_step (ha : Step n acl s a t) :
    t.advertised = applyBatch s.advertised a := by
  cases ha.effect with
  | begin _ ht | replan _ _ _ _ ht | changed _ _ ht =>
    obtain ⟨plan, -, rfl⟩ := adopt_spec ht
    rfl
  | swap _ _ _ _ ht =>
    obtain ⟨plan, -, rfl⟩ := withPlan_spec ht
    rfl
  | @batch d withdraw => cases withdraw <;> rfl
  | eor4 | eor6 => split <;> rfl
  | _ => rfl

theorem channel_step (ha : Step n acl s a t) :
    t.channel.value = applyPublish s.channel.value a := by
  cases ha.effect with
  | begin _ ht | replan _ _ _ _ ht | changed _ _ ht =>
    obtain ⟨plan, -, rfl⟩ := adopt_spec ht
    rfl
  | swap _ _ _ _ ht =>
    obtain ⟨plan, -, rfl⟩ := withPlan_spec ht
    rfl
  | @batch d withdraw => cases withdraw <;> rfl
  | eor4 | eor6 => split <;> rfl
  | _ => rfl

theorem advertised_of_trace (h : Lts.Trace (Step n acl) (init e t₀) xs s) :
    s.advertised = peerTable xs := by
  refine h.history (P := fun xs s => s.advertised = peerTable xs) rfl ?_
  intro xs s a t hs ha
  rw [advertised_step ha, hs, peerTable, peerTable, List.foldl_append]
  rfl

theorem channel_of_trace (h : Lts.Trace (Step n acl) (init e t₀) xs s) :
    s.channel.value = latest e xs := by
  refine h.history (P := fun xs s => s.channel.value = latest e xs) rfl ?_
  intro xs s a t hs ha
  rw [channel_step ha, hs, latest, latest, List.foldl_append]
  rfl

/-- An end-of-RIB marker comes from one of its two sections. -/
theorem endOfRib_pc {v6 : Bool} (ha : Step n acl s (.sent (.endOfRib v6)) t) :
    s.pc.quiet = true := by
  generalize hb : Label.sent (.endOfRib v6) = b at ha
  cases ha.effect with
  | eor4 hpc => rw [hpc]; rfl
  | eor6 hpc => rw [hpc]; rfl
  | _ => cases hb

/-- A batch comes from the batch section, off the front of the plan. -/
theorem update_next {withdraw : Bool} {batch : List IpNet}
    (ha : Step n acl s (.sent (.update withdraw batch)) t) :
    s.pc = .batch ∧ ∃ plan, s.plan.next = some ((withdraw, batch), plan) := by
  generalize hb : Label.sent (.update withdraw batch) = b at ha
  cases ha.effect with
  | batch hpc hn =>
    cases hb
    exact ⟨hpc, _, hn⟩
  | eor4 | eor6 => split at hb <;> cases hb
  | _ => cases hb

/-- In every run the peer's table is `advertised`; a session parked on a seen channel targets the
latest snapshot and has exactly its enabled part advertised, as has every end-of-RIB marker. -/
theorem export_synchronised (h : Lts.Trace (Step n acl) (init e t₀) xs s) :
    s.advertised = peerTable xs ∧
    (∀ armed, s.pc = .select armed → s.channel.hasChanged = false →
      s.target = desired (latest e xs) acl ∧
        s.advertised = s.target.filter (fun p => n.enabled p = true)) ∧
    ∀ v6 t, Step n acl s (.sent (.endOfRib v6)) t →
      s.advertised = s.target.filter (fun p => n.enabled p = true) := by
  have hsync := Synced.of_trace h
  refine ⟨advertised_of_trace h, ?_, ?_⟩
  · intro armed hpc hc
    refine ⟨?_, hsync.settled (by rw [hpc]; rfl)⟩
    rw [hsync.current (by simp [hpc]) hc, channel_of_trace h]
  · intro v6 t ht
    exact hsync.settled (endOfRib_pc ht)

def exampleExports : Exports := Finmap.singleton "edge" {examplePrefix}

def exampleSession : Negotiated := ⟨0xc0000202#32, 3, true, false, true, false⟩

/-- The session announces one prefix, sends its end-of-RIB marker and parks. -/
def exampleMoves : List Move :=
  .run 0 ⟨[], [examplePrefix]⟩ :: List.replicate 11 (.run 0 ⟨[], []⟩)

theorem exampleMoves_exec :
    (Lts.exec (step exampleSession "edge") exampleMoves (init exampleExports 0)).map
      (fun r => (r.2.pc, r.2.channel.hasChanged, peerTable r.1)) =
      some (.select false, false, {examplePrefix}) := by
  decide +kernel

theorem example_export_synchronised :
    ∃ xs s, Lts.Trace (Step exampleSession "edge") (init exampleExports 0) xs s ∧
      s.pc = .select false ∧ s.channel.hasChanged = false ∧ s.advertised = {examplePrefix} ∧
      s.target = desired (latest exampleExports xs) "edge" := by
  obtain ⟨⟨xs, s⟩, hr, he⟩ := Option.map_eq_some_iff.mp exampleMoves_exec
  simp only [Prod.mk.injEq] at he
  obtain ⟨hpc, hc, htable⟩ := he
  have htrace := Lts.exec_trace hr
  have hmain := export_synchronised htrace
  exact ⟨xs, s, htrace, hpc, hc, hmain.1.trans htable, (hmain.2.1 false hpc hc).1⟩

end Transmit
end Ubgp
