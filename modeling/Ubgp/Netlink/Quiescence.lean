import Ubgp.Netlink.Collect
import Ubgp.Netlink.Staleness

/-! Quiescent consistency: a worker at rest has published exactly what the kernel holds. -/
namespace Ubgp
namespace Netlink

variable {cfg : Config} {s t : State} {a : Label} {xs : List Label} {e : Exports} {t₀ : ℕ}
  {routes : Finset KernelRoute} {k : KernelState}

/-- A change or loss that the snapshot in progress has recorded. -/
def Resume.flag : Resume → Bool
  | .head => false
  | .dump snap _ => snap.changed
  | .final snap => snap.changed
  | .after changed _ => changed

/-- A change or loss that the worker has recorded and not yet acted on. -/
def Pc.flag : Pc → Bool
  | .drain _ ev k => ev.alert || k.flag
  | .assess ev => ev.alert
  | .request snap => snap.changed
  | .check snap _ => snap.changed
  | .receive _ snap _ => snap.changed
  | .wait snap _ => snap.changed
  | .filter _ changed => changed
  | .publish changed _ => changed
  | .settle changed => changed
  | _ => false

/-- Within a snapshot, or about to invalidate. -/
def Pc.busy : Pc → Bool
  | .drain _ _ .head => false
  | .drain _ _ _ => true
  | .invalidate _ => true
  | .request _ => true
  | .check _ _ => true
  | .receive _ _ _ => true
  | .wait _ _ => true
  | .filter _ _ => true
  | .publish _ _ => true
  | .failed => true
  | _ => false

/-- These exports are what the eligible routes of the kernel give. -/
def Mirrors (cfg : Config) (k : KernelState) (exports : Exports) : Prop :=
  filter cfg (eligiblePrefixes cfg k.routes) = .ok exports

/-- The bookkeeping of dumps, whether or not anything changed meanwhile. -/
def Tracked (cfg : Config) (s : State) : Prop :=
  match s.pc with
  | .request snap => Between cfg s.kernel snap
  | .drain _ _ (.dump snap cur) => Within cfg s.kernel snap cur
  | .check snap cur => Within cfg s.kernel snap cur
  | .receive _ snap cur => Within cfg s.kernel snap cur
  | .wait snap cur => Within cfg s.kernel snap cur
  | _ => True

/-- What the worker holds agrees with the kernel. -/
def Accurate (cfg : Config) (s : State) : Prop :=
  match s.pc with
  | .request snap => Collected cfg s.kernel snap.result snap.todo
  | .drain _ _ (.dump snap cur) => Collecting cfg s.kernel snap cur
  | .check snap cur => Collecting cfg s.kernel snap cur
  | .receive _ snap cur => Collecting cfg s.kernel snap cur
  | .wait snap cur => Collecting cfg s.kernel snap cur
  | .drain _ _ (.final snap) => snap.result = eligiblePrefixes cfg s.kernel.routes
  | .filter result _ => result = eligiblePrefixes cfg s.kernel.routes
  | .drain _ _ (.after _ exports) => Mirrors cfg s.kernel exports
  | .publish _ exports => Mirrors cfg s.kernel exports
  | .settle _ => Mirrors cfg s.kernel s.channel.value
  | .invalidate _ => True
  | .failed => True
  | .stopped => True
  | _ => s.dirty = true ∨ Mirrors cfg s.kernel s.channel.value

/-- Something on the event socket or recorded by the worker still calls for a refresh. -/
def State.alert (s : State) : Bool := s.kernel.alert || s.pc.flag

/-- The worker is dirty throughout a snapshot, and what it holds is accurate unless a change is
still to be acted on. -/
structure Consistent (cfg : Config) (s : State) : Prop where
  linked : Linked s
  busy : s.pc.busy = true → s.dirty = true
  tracked : Tracked cfg s
  accurate : s.alert = true ∨ Accurate cfg s

theorem init_consistent : Consistent cfg (init e t₀ routes) :=
  ⟨rfl, fun _ => rfl, trivial, Or.inr (Or.inl rfl)⟩

/-! Steps of the environment. -/

theorem tracked_moves (h : Tracked cfg s) (hk : s.kernel.Moves cfg k) :
    Tracked cfg { s with kernel := k } := by
  unfold Tracked at h ⊢
  cases hpc : s.pc with
  | drain rounds ev r =>
    rw [hpc] at h
    cases r with
    | dump => exact Within.moves h hk
    | head | final | after => trivial
  | request =>
    rw [hpc] at h
    exact Between.moves h hk
  | check | receive | wait =>
    rw [hpc] at h
    exact Within.moves h hk
  | _ => trivial

theorem accurate_moves (ht : Tracked cfg s) (h : Accurate cfg s) (hk : s.kernel.Moves cfg k)
    (he : k.eligible cfg = s.kernel.eligible cfg) : Accurate cfg { s with kernel := k } := by
  have hpre := eligiblePrefixes_eq he
  unfold Tracked at ht
  unfold Accurate at h ⊢
  cases hpc : s.pc with
  | drain rounds ev r =>
    rw [hpc] at h ht
    cases r with
    | head =>
      simp only [Mirrors, hpre]
      exact h
    | dump => exact Collecting.moves h ht hk he
    | final =>
      simp only [hpre]
      exact h
    | after =>
      simp only [Mirrors, hpre]
      exact h
  | request =>
    rw [hpc] at h
    exact Collected.congr h he
  | check | receive | wait =>
    rw [hpc] at h ht
    exact Collecting.moves h ht hk he
  | invalidate | failed | stopped => trivial
  | filter =>
    rw [hpc] at h
    simp only [hpre]
    exact h
  | head | assess | choose | publish | settle | poll =>
    rw [hpc] at h
    simp only [Mirrors, hpre]
    exact h

theorem consistent_moves (h : Consistent cfg s) (hk : s.kernel.Moves cfg k) :
    Consistent cfg { s with kernel := k } := by
  refine ⟨h.linked, h.busy, tracked_moves h.tracked hk, ?_⟩
  rcases moves_alert hk with ha | ⟨he, ha⟩
  · exact Or.inl (by simp [State.alert, ha])
  · rcases h.accurate with hs | hs
    · simp only [State.alert, Bool.or_eq_true] at hs
      rcases hs with hs | hs
      · exact Or.inl (by simp [State.alert, ha hs])
      · exact Or.inl (by simp [State.alert, hs])
    · exact Or.inr (accurate_moves h.tracked hs hk he)

theorem expire_idle {f : Freshness} {now limit : ℕ} {tx : Watch Exports}
    (h : f.dirtySince = none) : f.expire now limit tx = (f, tx) := by
  simp [Freshness.expire, Freshness.overdue, h]

theorem consistent_expire (h : Consistent cfg s) (hl : Linked { s with
      freshness := (s.freshness.expire s.now (limitMs cfg) s.channel).1
      channel := (s.freshness.expire s.now (limitMs cfg) s.channel).2 }) :
    Consistent cfg { s with
      freshness := (s.freshness.expire s.now (limitMs cfg) s.channel).1
      channel := (s.freshness.expire s.now (limitMs cfg) s.channel).2 } := by
  refine ⟨hl, h.busy, h.tracked, ?_⟩
  by_cases hd : s.freshness.dirtySince = none
  · rw [expire_idle hd]
    exact h.accurate
  · have hsome : s.freshness.dirtySince.isSome = true := by
      cases hs : s.freshness.dirtySince with
      | none => exact absurd hs hd
      | some start => rfl
    have hlinked := h.linked
    rcases h.accurate with ha | ha
    · exact Or.inl ha
    · unfold Accurate at ha ⊢
      unfold Linked at hlinked
      cases hpc : s.pc with
      | settle changed =>
        rw [hpc] at hlinked
        exact Or.inl (by simp [State.alert, Pc.flag, ← hlinked, hsome])
      | drain rounds ev r =>
        rw [hpc] at ha hlinked
        cases r with
        | head => exact Or.inr (Or.inl (hlinked.trans hsome))
        | dump | final | after => exact Or.inr ha
      | head | assess | choose | poll =>
        rw [hpc] at hlinked
        exact Or.inr (Or.inl (hlinked.trans hsome))
      | _ =>
        rw [hpc] at ha
        exact Or.inr ha

/-! Drains. -/

theorem consistent_drained (rounds' : ℕ) {rounds : ℕ} {ev ev' : Events} {r : Resume}
    {queue : List Bytes} {overrun : Bool} (h : Consistent cfg s) (hpc : s.pc = .drain rounds ev r)
    (hd : Drained s.kernel ev a queue overrun ev') :
    Consistent cfg { s with
      kernel := s.kernel.withEvents queue overrun, pc := .drain rounds' ev' r } := by
  obtain ⟨hlinked, hbusy, htracked, hacc⟩ := h
  unfold Tracked at htracked
  unfold Linked at hlinked
  rw [hpc] at htracked hlinked hbusy
  refine ⟨hlinked, ?_, ?_, ?_⟩
  · intro hb
    refine hbusy ?_
    cases r <;> exact hb
  · cases r with
    | dump => exact ⟨htracked.todo, htracked.key, htracked.readable, htracked.ending⟩
    | head | final | after => trivial
  · cases hd with
    | alarm hev => exact Or.inl (by simp [State.alert, Pc.flag, hev])
    | quiet hev hq =>
      rcases hacc with ha | ha
      · rw [State.alert, hpc, Pc.flag] at ha
        exact Or.inl (by rw [State.alert, hq, Pc.flag, hev]; exact ha)
      · unfold Accurate at ha
        rw [hpc] at ha
        refine Or.inr ?_
        cases r with
        | dump => exact ⟨⟨ha.collected.sound, ha.collected.covered⟩, ha.shown, ha.current⟩
        | head | final | after => exact ha

/-- Without a loss, what a drain has seen and what was recorded before it are joined. -/
theorem Events.alert_or {ev : Events} (hl : ¬ ev.lost = true) (flag : Bool) :
    (ev.alert || flag) = (flag || ev.changed) := by
  simp [Events.alert, hl, Bool.or_comm]

/-- The end of a drain hands what was seen on to the worker. -/
theorem consistent_resume {rounds : ℕ} {ev : Events} {r : Resume}
    (h : Consistent cfg { s with pc := .drain rounds ev r }) :
    Consistent cfg (s.resume cfg ev r) := by
  obtain ⟨hlinked, hbusy, htracked, hacc⟩ := h
  cases r with
  | head =>
    refine ⟨hlinked, (fun hb => by cases hb), trivial, ?_⟩
    rcases hacc with ha | ha
    · simp only [State.alert, Pc.flag, Resume.flag, Bool.or_false] at ha
      exact Or.inl ha
    · exact Or.inr ha
  | dump snap cur =>
    simp only [State.resume]
    split
    · exact ⟨hlinked, hbusy, trivial, Or.inr trivial⟩
    · rename_i hl
      refine ⟨hlinked, hbusy, ⟨htracked.todo, htracked.key, htracked.readable, htracked.ending⟩, ?_⟩
      rcases hacc with ha | ha
      · simp only [State.alert, Pc.flag, Resume.flag, Events.alert_or hl] at ha
        exact Or.inl ha
      · exact Or.inr ⟨ha.collected, ha.shown, ha.current⟩
  | final snap =>
    simp only [State.resume]
    split
    · exact ⟨hlinked, hbusy, trivial, Or.inr trivial⟩
    · rename_i hl
      refine ⟨hlinked, hbusy, trivial, ?_⟩
      rcases hacc with ha | ha
      · simp only [State.alert, Pc.flag, Resume.flag, Events.alert_or hl] at ha
        exact Or.inl ha
      · exact Or.inr ha
  | after changed exports =>
    simp only [State.resume]
    split
    · exact ⟨hlinked, (fun hb => by cases hb), trivial, Or.inr (Or.inl (hbusy rfl))⟩
    · rename_i hl
      refine ⟨hlinked, hbusy, trivial, ?_⟩
      rcases hacc with ha | ha
      · simp only [State.alert, Pc.flag, Resume.flag, Events.alert_or hl] at ha
        exact Or.inl ha
      · exact Or.inr ha

/-! The worker. -/

theorem busy_of_snapping {pc : Pc} (h : pc.snapping = true) : pc.busy = true := by
  cases pc <;> first | rfl | cases h

theorem busy_of_dumping {snap : Snap} {cur : Current} {pc : Pc}
    (h : pc.dumping = some (snap, cur)) : pc.busy = true := by
  cases pc <;> first | rfl | cases h

theorem dumping_flag {snap : Snap} {cur : Current} {pc : Pc}
    (h : pc.dumping = some (snap, cur)) : pc.flag = snap.changed := by
  cases pc <;> cases h <;> rfl

/-- Within a dump, outside its drain, what is known of the state is what the dump knows. -/
theorem dumping_iff (cfg : Config) {snap : Snap} {cur : Current}
    (hpc : s.pc.dumping = some (snap, cur)) :
    (Tracked cfg s ↔ Within cfg s.kernel snap cur) ∧
      (Accurate cfg s ↔ Collecting cfg s.kernel snap cur) := by
  unfold Tracked Accurate
  cases h : s.pc with
  | check | receive | wait =>
    rw [h] at hpc
    cases hpc
    exact ⟨Iff.rfl, Iff.rfl⟩
  | _ =>
    rw [h] at hpc
    cases hpc

theorem consistent_step (h : Consistent cfg s) (hstep : Step cfg s a t) : Consistent cfg t := by
  have hlinked := linked_step h.linked hstep
  cases hstep.effect with
  | kernel hk => exact consistent_moves h hk
  | ambient => exact ⟨h.linked, h.busy, h.tracked, h.accurate⟩
  | expire => exact consistent_expire h hlinked
  | stopped ht =>
    refine ⟨hlinked, ?_, ?_, Or.inr ?_⟩
    · rw [ht]
      intro hb
      cases hb
    · rw [Tracked, ht]
      trivial
    · rw [Accurate, ht]
      trivial
  | drained hpc hd => exact consistent_drained _ h hpc hd
  | resumed hpc hd => exact consistent_resume (consistent_drained 0 h hpc hd)
  | head hpc =>
    refine ⟨hlinked, (fun hb => by cases hb), trivial, ?_⟩
    have hacc := h.accurate
    simp only [State.alert, Accurate, hpc] at hacc
    exact hacc
  | soiled => exact ⟨hlinked, fun _ => rfl, trivial, Or.inr trivial⟩
  | clean hpc hev =>
    refine ⟨hlinked, (fun hb => by cases hb), trivial, ?_⟩
    have hacc := h.accurate
    simp only [State.alert, Accurate, hpc, Pc.flag, hev] at hacc
    exact hacc
  | invalidate hpc =>
    have hd := h.busy (by rw [hpc]; rfl)
    exact ⟨hlinked, (fun hb => by cases hb), trivial, Or.inr (Or.inl hd)⟩
  | began hpc hd =>
    exact ⟨hlinked, fun _ => hd, between_start cfg _ _, Or.inr (collected_start cfg _)⟩
  | refused hpc hd => exact ⟨hlinked, fun _ => hd, trivial, Or.inr trivial⟩
  | skipped hpc =>
    refine ⟨hlinked, (fun hb => by cases hb), trivial, ?_⟩
    have hacc := h.accurate
    simp only [State.alert, Accurate, hpc] at hacc
    exact hacc
  | final hpc hd =>
    have hacc := h.accurate
    simp only [State.alert, Accurate, hpc, Pc.flag, hd] at hacc
    refine ⟨hlinked, fun _ => h.busy (by rw [hpc]; rfl), trivial, ?_⟩
    rcases hacc with ha | ha
    · exact Or.inl ha
    · exact Or.inr ha.complete
  | request hpc hd =>
    have htracked := h.tracked
    have hacc := h.accurate
    simp only [Tracked, hpc] at htracked
    simp only [State.alert, Accurate, hpc, Pc.flag] at hacc
    refine ⟨hlinked, fun _ => h.busy (by rw [hpc]; rfl), htracked.request hd, ?_⟩
    rcases hacc with ha | ha
    · exact Or.inl ha
    · exact Or.inr (ha.request htracked hd)
  | failed hpc =>
    exact ⟨hlinked, fun _ => h.busy (busy_of_snapping hpc), trivial, Or.inr trivial⟩
  | check hpc =>
    obtain ⟨htracked, hacc⟩ := dumping_iff cfg hpc
    have hflag := dumping_flag hpc
    refine ⟨hlinked, fun _ => h.busy (busy_of_dumping hpc), htracked.mp h.tracked, ?_⟩
    rcases h.accurate with ha | ha
    · rw [State.alert, hflag] at ha
      exact Or.inl ha
    · exact Or.inr (hacc.mp ha)
  | dumping hpc ht =>
    obtain ⟨htracked, hacc⟩ := dumping_iff cfg hpc
    have hflag := dumping_flag hpc
    obtain ⟨htracked', hacc'⟩ := dumping_iff (s := { s with pc := _ }) cfg ht
    have hflag' := dumping_flag ht
    refine ⟨hlinked, fun _ => h.busy (busy_of_dumping hpc), htracked'.mpr (htracked.mp h.tracked),
      ?_⟩
    rcases h.accurate with ha | ha
    · rw [State.alert, hflag] at ha
      exact Or.inl (by rw [State.alert, hflag']; exact ha)
    · exact Or.inr (hacc'.mpr (hacc.mp ha))
  | received hpc hq hr hd =>
    obtain ⟨htracked, hacc⟩ := dumping_iff cfg hpc
    have hflag := dumping_flag hpc
    have hw := htracked.mp h.tracked
    refine ⟨hlinked, fun _ => h.busy (busy_of_dumping hpc), hw.received hq hr hd, ?_⟩
    rcases h.accurate with ha | ha
    · rw [State.alert, hflag] at ha
      exact Or.inl ha
    · exact Or.inr ((hacc.mp ha).received hw hq hr)
  | ended hpc hq hr hd =>
    obtain ⟨htracked, hacc⟩ := dumping_iff cfg hpc
    have hflag := dumping_flag hpc
    have hw := htracked.mp h.tracked
    have hb := hw.ended hq hr hd
    refine ⟨hlinked, fun _ => h.busy (busy_of_dumping hpc), hb, ?_⟩
    rcases h.accurate with ha | ha
    · rw [State.alert, hflag] at ha
      exact Or.inl ha
    · exact Or.inr (((hacc.mp ha).received hw hq hr).ended hb)
  | filter hpc he =>
    have hacc := h.accurate
    simp only [State.alert, Accurate, hpc, Pc.flag] at hacc
    refine ⟨hlinked, fun _ => h.busy (by rw [hpc]; rfl), trivial, ?_⟩
    rcases hacc with ha | ha
    · exact Or.inl ha
    · refine Or.inr ?_
      rw [ha] at he
      exact he
  | publish hpc =>
    have hacc := h.accurate
    simp only [State.alert, Accurate, hpc, Pc.flag] at hacc
    refine ⟨hlinked, (fun hb => by cases hb), trivial, ?_⟩
    rcases hacc with ha | ha
    · exact Or.inl ha
    · exact Or.inr (by simpa [Accurate, publish_channel] using ha)
  | settle hpc =>
    have hacc := h.accurate
    simp only [State.alert, Accurate, hpc, Pc.flag, Bool.or_eq_true] at hacc
    refine ⟨hlinked, (fun hb => by cases hb), trivial, ?_⟩
    rcases hacc with (ha | ha) | ha
    · exact Or.inl (by simp [State.alert, ha])
    · exact Or.inr (Or.inl ha)
    · exact Or.inr (Or.inr ha)
  | backOff hpc =>
    have hd := h.busy (by rw [hpc]; rfl)
    exact ⟨hlinked, (fun hb => by cases hb), trivial, Or.inr (Or.inl hd)⟩
  | poll hpc =>
    refine ⟨hlinked, (fun hb => by cases hb), trivial, ?_⟩
    have hacc := h.accurate
    simp only [State.alert, Accurate, hpc] at hacc
    exact hacc

theorem consistent_run (h : Lts.Trace (Step cfg) (init e t₀ routes) xs s) : Consistent cfg s :=
  h.invariant init_consistent (fun _ _ _ hs ha => consistent_step hs ha)

/-! No change that was drained is forgotten. -/

/-- Since then a snapshot was begun and published. -/
def Answered (zs : List Label) : Prop :=
  ∃ ws vs us now changed exports,
    zs = ws ++ .began :: vs ++ .publish now changed exports :: us

inductive Stage
  | waiting
  | refreshing
  | settling
  | stopped

def Pc.stage : Pc → Stage
  | .drain _ _ .head => .waiting
  | .drain _ _ _ => .refreshing
  | .request _ => .refreshing
  | .check _ _ => .refreshing
  | .receive _ _ _ => .refreshing
  | .wait _ _ => .refreshing
  | .filter _ _ => .refreshing
  | .publish _ _ => .refreshing
  | .settle _ => .settling
  | .stopped => .stopped
  | _ => .waiting

/-- A change drained before `zs` happened was answered, or still is bound to be. -/
inductive Due (zs : List Label) (s : State) : Prop
  | answered (h : Answered zs)
  | flagged (h : s.pc.flag = true)
  | waiting (hpc : s.pc.stage = .waiting) (hd : s.dirty = true)
  | refreshing (hpc : s.pc.stage = .refreshing) (hb : Label.began ∈ zs)
  | stopped (hpc : s.pc.stage = .stopped)

section Due
variable {zs : List Label}

theorem Answered.snoc (h : Answered zs) (a : Label) : Answered (zs ++ [a]) := by
  obtain ⟨ws, vs, us, now, changed, exports, rfl⟩ := h
  exact ⟨ws, vs, us ++ [a], now, changed, exports, by simp⟩

theorem answered_publish {now : ℕ} {changed : Bool} {exports : Exports} (h : Label.began ∈ zs) :
    Answered (zs ++ [.publish now changed exports]) := by
  obtain ⟨ws, vs, rfl⟩ := List.append_of_mem h
  exact ⟨ws, vs, [], now, changed, exports, rfl⟩

/-- A step that changes neither the stage nor what the worker has recorded. -/
theorem Due.keep (h : Due zs s) (a : Label) (hf : t.pc.flag = s.pc.flag)
    (hpc : t.pc.stage = s.pc.stage) (hd : t.dirty = s.dirty) : Due (zs ++ [a]) t := by
  cases h with
  | answered h => exact .answered (h.snoc a)
  | flagged h => exact .flagged (hf.trans h)
  | waiting hs h => exact .waiting (hpc.trans hs) (hd.trans h)
  | refreshing hs h => exact .refreshing (hpc.trans hs) (List.mem_append_left _ h)
  | stopped hs => exact .stopped (hpc.trans hs)

/-- Within a snapshot, what is recorded is handed on. -/
theorem Due.advance (h : Due zs s) (hs : s.pc.stage = .refreshing)
    (hf : s.pc.flag = true → t.pc.flag = true) (ht : t.pc.stage = .refreshing) : Due zs t := by
  cases h with
  | answered h => exact .answered h
  | flagged h => exact .flagged (hf h)
  | refreshing _ h => exact .refreshing ht h
  | waiting hpc | stopped hpc =>
    rw [hs] at hpc
    cases hpc

theorem dumping_stage {pc : Pc} {snap : Snap} {cur : Current}
    (h : pc.dumping = some (snap, cur)) : pc.stage = .refreshing := by
  cases pc <;> first | rfl | cases h

/-- The end of a drain keeps a change on the worker's mind, also when the snapshot fails. -/
theorem Due.resume (rounds : ℕ) {ev : Events} {r : Resume}
    (h : Due zs { s with pc := .drain rounds ev r }) (hbusy : r ≠ .head → s.dirty = true) :
    Due zs (s.resume cfg ev r) := by
  have hflag : ∀ flag : Bool, ¬ ev.lost = true → (ev.alert || flag) = true →
      (flag || ev.changed) = true := by
    intro flag hl ha
    rwa [Events.alert_or hl] at ha
  cases r with
  | head =>
    cases h with
    | answered h => exact .answered h
    | flagged h =>
      simp only [Pc.flag, Resume.flag, Bool.or_false] at h
      exact .flagged h
    | waiting _ h => exact .waiting rfl h
    | refreshing hs | stopped hs => cases hs
  | dump snap cur =>
    have hd := hbusy (by simp)
    simp only [State.resume]
    split
    · exact .waiting rfl hd
    · rename_i hl
      exact h.advance rfl (hflag _ hl) rfl
  | final snap =>
    have hd := hbusy (by simp)
    simp only [State.resume]
    split
    · exact .waiting rfl hd
    · rename_i hl
      exact h.advance rfl (hflag _ hl) rfl
  | after changed exports =>
    have hd := hbusy (by simp)
    simp only [State.resume]
    split
    · exact .waiting rfl hd
    · rename_i hl
      exact h.advance rfl (hflag _ hl) rfl

theorem busy_of_resume {rounds : ℕ} {ev : Events} {r : Resume} (h : r ≠ .head) :
    (Pc.drain rounds ev r).busy = true := by
  cases r with
  | head => exact absurd rfl h
  | dump | final | after => rfl

theorem due_drained {rounds rounds' : ℕ} {ev ev' : Events} {r : Resume} {queue : List Bytes}
    {overrun : Bool} (h : Due zs s) (hpc : s.pc = .drain rounds ev r)
    (hd : Drained s.kernel ev a queue overrun ev') :
    Due (zs ++ [a]) { s with
      kernel := s.kernel.withEvents queue overrun, pc := .drain rounds' ev' r } := by
  cases hd with
  | quiet hev =>
    refine h.keep _ ?_ ?_ rfl
    · rw [hpc, Pc.flag, Pc.flag, hev]
    · rw [hpc]
      cases r <;> rfl
  | alarm hev => exact .flagged (by simp [Pc.flag, hev])

theorem due_step (hc : Consistent cfg s) (h : Due zs s) (hstep : Step cfg s a t) :
    Due (zs ++ [a]) t := by
  cases hstep.effect with
  | kernel | ambient | expire => exact h.keep _ rfl rfl rfl
  | stopped ht => exact .stopped (by rw [ht]; rfl)
  | drained hpc hd => exact due_drained h hpc hd
  | resumed hpc hd =>
    refine Due.resume 0 (due_drained h hpc hd) (fun hr => hc.busy ?_)
    rw [hpc]
    exact busy_of_resume hr
  | soiled => exact .waiting rfl rfl
  | invalidate hpc => exact .waiting rfl (hc.busy (by rw [hpc]; rfl))
  | refused hpc hd => exact .waiting rfl hd
  | failed hpc => exact .waiting rfl (hc.busy (busy_of_snapping hpc))
  | backOff hpc => exact .waiting rfl (hc.busy (by rw [hpc]; rfl))
  | began hpc hd => exact .refreshing rfl (by simp)
  | head hpc | skipped hpc | poll hpc => exact h.keep _ (by rw [hpc]; rfl) (by rw [hpc]; rfl) rfl
  | clean hpc hev => exact h.keep _ (by rw [hpc]; exact hev.symm) (by rw [hpc]; rfl) rfl
  | final hpc | request hpc | filter hpc =>
    exact h.keep _ (by rw [hpc]; rfl) (by rw [hpc]; rfl) rfl
  | check hpc | received hpc | ended hpc =>
    exact h.keep _ (dumping_flag hpc).symm (dumping_stage hpc).symm rfl
  | dumping hpc ht =>
    exact h.keep _ ((dumping_flag ht).trans (dumping_flag hpc).symm)
      ((dumping_stage ht).trans (dumping_stage hpc).symm) rfl
  | publish hpc =>
    cases h with
    | answered h => exact .answered (h.snoc _)
    | flagged h =>
      rw [hpc] at h
      exact .flagged h
    | refreshing _ h => exact .answered (answered_publish h)
    | waiting hs | stopped hs =>
      rw [hpc] at hs
      cases hs
  | settle hpc =>
    cases h with
    | answered h => exact .answered (h.snoc _)
    | flagged h =>
      rw [hpc] at h
      exact .waiting rfl h
    | refreshing hs | waiting hs | stopped hs =>
      rw [hpc] at hs
      cases hs

/-- A receive that finds a change leaves it on the worker's mind. -/
theorem due_alarm (hc : Consistent cfg s) (hstep : Step cfg s .alarm t) : Due zs t := by
  cases hstep.effect with
  | drained hpc hd =>
    cases hd with
    | alarm hev => exact .flagged (by simp [Pc.flag, hev])
  | @resumed rounds ev ev' r _ queue overrun hpc hd =>
    have hev : ev'.alert = true := by
      cases hd with
      | alarm hev => exact hev
    refine Due.resume 0 (.flagged (by simp [Pc.flag, hev])) (fun hr => hc.busy ?_)
    rw [hpc]
    exact busy_of_resume hr

end Due

/-- Every change that a drain has found was answered, or is still due. -/
theorem due_run (h : Lts.Trace (Step cfg) (init e t₀ routes) xs s) :
    ∀ ys zs, xs = ys ++ .alarm :: zs → Due zs s := by
  refine (h.history (P := fun xs s => Consistent cfg s ∧
    ∀ ys zs, xs = ys ++ .alarm :: zs → Due zs s) ⟨init_consistent, ?_⟩ ?_).2
  · intro ys zs hxs
    simp at hxs
  · rintro xs s a t ⟨hc, hs⟩ hstep
    refine ⟨consistent_step hc hstep, ?_⟩
    intro ys zs hxs
    rcases List.eq_nil_or_concat zs with rfl | ⟨zs, b, rfl⟩
    · obtain ⟨-, ha⟩ := List.append_inj' hxs rfl
      cases ha
      exact due_alarm hc hstep
    · rw [List.concat_eq_append, ← List.cons_append, ← List.append_assoc] at hxs
      obtain ⟨hinit, ha⟩ := List.append_inj' hxs rfl
      cases ha
      rw [List.concat_eq_append]
      exact due_step hc (hs ys zs hinit) hstep

/-- At the loop head, not dirty and with nothing on the event socket, the published exports are
what the kernel's eligible routes give; every change ever drained was answered by a snapshot. -/
theorem quiescent_consistency (h : Lts.Trace (Step cfg) (init e t₀ routes) xs s)
    (hpc : s.pc = .head) (hd : s.dirty = false) :
    (s.kernel.queue = [] → s.kernel.overrun = false →
      filter cfg (eligiblePrefixes cfg s.kernel.routes) = .ok s.channel.value) ∧
      ∀ ys zs, xs = ys ++ .alarm :: zs → Answered zs := by
  refine ⟨?_, ?_⟩
  · intro hq ho
    have halert : s.alert = false := by
      simp [State.alert, KernelState.alert, Pc.flag, hpc, hq, ho]
    have hacc := (consistent_run h).accurate
    simp only [halert, Accurate, hpc, hd] at hacc
    rcases hacc with ha | ha | ha
    · cases ha
    · cases ha
    · exact ha
  · intro ys zs hxs
    cases due_run h ys zs hxs with
    | answered h => exact h
    | flagged h =>
      rw [hpc] at h
      cases h
    | waiting _ h =>
      rw [hd] at h
      cases h
    | refreshing hs | stopped hs =>
      rw [hpc] at hs
      cases hs

def mainRoute : KernelRoute where
  dst := examplePrefix
  table := 254
  ordinary := true
  payload := exampleRoute
  described := by
    intro tables
    rw [route_exampleRoute]
    by_cases h : 254 ∈ tables <;> simp [h]

/-- A route appears; the worker drains the notification, dumps the table, publishes and is back at
its loop head. -/
def quietMoves : List Move :=
  .change {mainRoute} (.queued (datagram 24 0 exampleRoute)) :: List.replicate 9 (.work .done) ++
    [.read ⟨24, 0, 1, exampleRoute⟩, .read ⟨3, 0, 1, []⟩,
      .pack (datagram 24 1 exampleRoute ++ datagram 3 1 [])] ++ List.replicate 8 (.work .done)

def State.quiet (s : State) : Bool :=
  match s.pc with
  | .head => !s.dirty && s.kernel.queue.isEmpty && !s.kernel.overrun
  | _ => false

def Label.isAlarm : Label → Bool
  | .alarm => true
  | _ => false

theorem quietMoves_exec :
    (Lts.exec (step exampleConfig) quietMoves (init ∅ 0 ∅)).map
      (fun r => (r.2.quiet, r.1.any Label.isAlarm, desired r.2.channel.value "export")) =
      some (true, true, {examplePrefix}) := by
  decide +kernel

theorem quiet_pc (h : s.quiet = true) : s.pc = .head ∧ s.dirty = false ∧
    s.kernel.queue = [] ∧ s.kernel.overrun = false := by
  unfold State.quiet at h
  split at h
  · rename_i hpc
    simp only [Bool.and_eq_true, Bool.not_eq_true', List.isEmpty_iff] at h
    exact ⟨hpc, h.1.1, h.1.2, h.2⟩
  · cases h

theorem example_quiescent_consistency :
    ∃ ys zs s, Lts.Trace (Step exampleConfig) (init ∅ 0 ∅) (ys ++ .alarm :: zs) s ∧ s.pc = .head ∧
      s.dirty = false ∧ desired s.channel.value "export" = {examplePrefix} ∧ Answered zs ∧
      filter exampleConfig (eligiblePrefixes exampleConfig s.kernel.routes) =
        .ok s.channel.value := by
  obtain ⟨⟨xs, s⟩, hr, he⟩ := Option.map_eq_some_iff.mp quietMoves_exec
  simp only [Prod.mk.injEq] at he
  obtain ⟨hquiet, halarm, hvalue⟩ := he
  obtain ⟨hpc, hd, hq, ho⟩ := quiet_pc hquiet
  obtain ⟨a, ha, hlabel⟩ := List.any_eq_true.mp halarm
  obtain ⟨ys, zs, hxs⟩ := List.append_of_mem ha
  cases a <;> cases hlabel
  have htrace := Lts.exec_trace hr
  obtain ⟨hmirror, hanswered⟩ := quiescent_consistency htrace hpc hd
  exact ⟨ys, zs, s, hxs ▸ htrace, hpc, hd, hvalue, hanswered ys zs hxs, hmirror hq ho⟩

end Netlink
end Ubgp
