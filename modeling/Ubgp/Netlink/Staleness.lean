import Ubgp.Netlink.Run

/-! Bounded staleness: the stale deadline over whole runs. -/
namespace Ubgp
namespace Netlink

variable {cfg : Config} {s t : State} {a : Label} {xs ys : List Label} {e : Exports} {t₀ : ℕ}
  {routes : Finset KernelRoute}

/-- Labels of steps that leave the freshness and the channel alone. -/
def Label.Plain (a : Label) : Prop := a = .tau ∨ a = .began ∨ a = .alarm

def applyPublish (acc : Option (ℕ × Bool) × List Label) : Label → Option (ℕ × Bool) × List Label
  | .publish now changed _ => (some (now, changed), [])
  | a => (acc.1, acc.2 ++ [a])

/-- The last publication with its time, and what happened since. -/
def sincePublish (xs : List Label) : Option (ℕ × Bool) × List Label :=
  xs.foldl applyPublish (none, [])

def Label.invalidated : Label → Option ℕ
  | .invalidate now => some now
  | _ => none

/-- What the stale deadline counts from: the start before any publication, the time of the last
publication if state changed during it, and otherwise the first invalidation since. -/
def staleFrom (t₀ : ℕ) (xs : List Label) : Option ℕ :=
  match (sincePublish xs).1 with
  | none => some t₀
  | some (now, true) => some now
  | some (_, false) => (sincePublish xs).2.findSome? Label.invalidated

theorem sincePublish_snoc : sincePublish (xs ++ [a]) = applyPublish (sincePublish xs) a := by
  rw [sincePublish, sincePublish, List.foldl_append]
  rfl

theorem staleFrom_plain (ha : a.Plain ∨ ∃ now, a = .expire now) :
    staleFrom t₀ (xs ++ [a]) = staleFrom t₀ xs := by
  have hnone : a.invalidated = none := by
    rcases ha with (rfl | rfl | rfl) | ⟨now, rfl⟩ <;> rfl
  have hsince : sincePublish (xs ++ [a]) = ((sincePublish xs).1, (sincePublish xs).2 ++ [a]) := by
    rw [sincePublish_snoc]
    rcases ha with (rfl | rfl | rfl) | ⟨now, rfl⟩ <;> rfl
  simp only [staleFrom, hsince]
  split
  · rfl
  · rfl
  · simp [List.findSome?_append, hnone]

theorem staleFrom_invalidate {now : ℕ} :
    staleFrom t₀ (xs ++ [.invalidate now]) = some ((staleFrom t₀ xs).getD now) := by
  have hsince : sincePublish (xs ++ [.invalidate now]) =
      ((sincePublish xs).1, (sincePublish xs).2 ++ [.invalidate now]) := by
    rw [sincePublish_snoc]
    rfl
  simp only [staleFrom, hsince]
  split
  · rfl
  · rfl
  · rw [List.findSome?_append]
    cases (sincePublish xs).2.findSome? Label.invalidated <;> rfl

theorem staleFrom_publish {now : ℕ} {changed : Bool} {exports : Exports} :
    staleFrom t₀ (xs ++ [.publish now changed exports]) = if changed then some now else none := by
  rw [staleFrom, sincePublish_snoc]
  cases changed <;> rfl

/-! What a step does to the freshness and the channel. -/

theorem resume_freshness (s : State) (ev : Events) (k : Resume) :
    (s.resume cfg ev k).freshness = s.freshness ∧ (s.resume cfg ev k).channel = s.channel := by
  cases k with
  | head => exact ⟨rfl, rfl⟩
  | dump | final | after => exact ⟨by simp only [State.resume]; split <;> rfl,
      by simp only [State.resume]; split <;> rfl⟩

theorem Drained.plain {k : KernelState} {ev ev' : Events} {queue : List Bytes} {overrun : Bool}
    (h : Drained k ev a queue overrun ev') : a.Plain := by
  cases h with
  | quiet => exact Or.inl rfl
  | alarm => exact Or.inr (Or.inr rfl)

theorem Step.freshness_cases (h : Step cfg s a t) :
    (∃ now, a = .invalidate now ∧ t.freshness = s.freshness.invalidate now ∧
      t.channel = s.channel) ∨
    (∃ changed exports, a = .publish s.now changed exports ∧
      t.freshness = (Freshness.publish s.now changed s.channel exports).1 ∧
      t.channel = (Freshness.publish s.now changed s.channel exports).2) ∨
    (a = .expire s.now ∧
      t.freshness = (s.freshness.expire s.now (limitMs cfg) s.channel).1 ∧
      t.channel = (s.freshness.expire s.now (limitMs cfg) s.channel).2) ∨
    (a.Plain ∧ t.freshness = s.freshness ∧ t.channel = s.channel) := by
  cases h.effect with
  | invalidate => exact Or.inl ⟨_, rfl, rfl, rfl⟩
  | publish => exact Or.inr (Or.inl ⟨_, _, rfl, rfl, rfl⟩)
  | expire => exact Or.inr (Or.inr (Or.inl ⟨rfl, rfl, rfl⟩))
  | stopped _ hf hc => exact Or.inr (Or.inr (Or.inr ⟨Or.inl rfl, hf, hc⟩))
  | drained _ hd => exact Or.inr (Or.inr (Or.inr ⟨hd.plain, rfl, rfl⟩))
  | resumed _ hd => exact Or.inr (Or.inr (Or.inr ⟨hd.plain, resume_freshness _ _ _⟩))
  | began | refused => exact Or.inr (Or.inr (Or.inr ⟨Or.inr (Or.inl rfl), rfl, rfl⟩))
  | _ => exact Or.inr (Or.inr (Or.inr ⟨Or.inl rfl, rfl, rfl⟩))

theorem expire_dirtySince (f : Freshness) (now limit : ℕ) (tx : Watch Exports) :
    (f.expire now limit tx).1.dirtySince = f.dirtySince := by
  unfold Freshness.expire
  split <;> rfl

theorem expire_empty {f : Freshness} {now limit : ℕ} {tx : Watch Exports} (h : tx.value = ∅) :
    (f.expire now limit tx).2.value = ∅ := by
  unfold Freshness.expire
  split
  · rfl
  · exact h

theorem publish_channel (now : ℕ) (changed : Bool) (tx : Watch Exports) (exports : Exports) :
    (Freshness.publish now changed tx exports).2.value = exports := by
  simp only [Freshness.publish]
  split
  · rfl
  · rename_i h
    exact not_not.mp h

/-- The deadline counts from where the history says. -/
theorem dirtySince_eq (h : Lts.Trace (Step cfg) (init e t₀ routes) xs s) :
    s.freshness.dirtySince = staleFrom t₀ xs := by
  refine h.history (P := fun xs s => s.freshness.dirtySince = staleFrom t₀ xs) rfl ?_
  intro xs s a t hs ha
  rcases ha.freshness_cases with ⟨now, rfl, hf, -⟩ | ⟨changed, exports, rfl, hf, -⟩ |
    ⟨rfl, hf, -⟩ | ⟨hp, hf, -⟩
  · rw [hf, staleFrom_invalidate, ← hs]
    rfl
  · rw [hf, staleFrom_publish]
    rfl
  · rw [hf, expire_dirtySince, hs, staleFrom_plain (Or.inr ⟨_, rfl⟩)]
  · rw [hf, hs, staleFrom_plain (Or.inl hp)]

theorem withdrawn_empty (h : Lts.Trace (Step cfg) (init e t₀ routes) xs s) :
    s.freshness.withdrawn = true → s.channel.value = ∅ := by
  refine h.invariant (P := fun s => s.freshness.withdrawn = true → s.channel.value = ∅)
    (fun hw => by cases hw) ?_
  intro s a t hs ha hw
  rcases ha.freshness_cases with ⟨now, -, hf, hc⟩ | ⟨changed, exports, -, hf, hc⟩ |
    ⟨-, hf, hc⟩ | ⟨-, hf, hc⟩
  · rw [hc]
    exact hs (by rwa [hf] at hw)
  · rw [hf] at hw
    cases hw
  · rw [hc]
    rw [hf] at hw
    unfold Freshness.expire at hw ⊢
    split
    · rfl
    · rename_i hn
      rw [if_neg hn] at hw
      exact hs hw
  · rw [hc]
    exact hs (by rwa [hf] at hw)

/-- An empty channel stays empty until a publication. -/
theorem stays_empty (h : Lts.Trace (Step cfg) s xs t) (hs : s.channel.value = ∅)
    (hp : ∀ now changed exports, Label.publish now changed exports ∉ xs) :
    t.channel.value = ∅ := by
  refine h.history (P := fun xs t => (∀ now changed exports,
    Label.publish now changed exports ∉ xs) → t.channel.value = ∅) (fun _ => hs) ?_ hp
  intro xs u a v hu ha hp
  have hu' := hu (fun now changed exports hm => hp now changed exports (by simp [hm]))
  rcases ha.freshness_cases with ⟨now, -, -, hc⟩ | ⟨changed, exports, rfl, -, -⟩ |
    ⟨-, -, hc⟩ | ⟨-, -, hc⟩
  · rw [hc, hu']
  · exact absurd (by simp) (hp u.now changed exports)
  · rw [hc]
    exact expire_empty hu'
  · rw [hc, hu']

/-! The worker's flag. -/

/-- The local flag and the deadline agree, except between the two halves of an update. -/
def Linked (s : State) : Prop :=
  match s.pc with
  | .invalidate _ => s.dirty = true
  | .settle changed => s.freshness.dirtySince.isSome = changed
  | .stopped => True
  | _ => s.dirty = s.freshness.dirtySince.isSome

theorem resume_linked (h : s.dirty = s.freshness.dirtySince.isSome) (kernel : KernelState)
    (ev : Events) (k : Resume) : Linked ({ s with kernel }.resume cfg ev k) := by
  cases k with
  | head => exact h
  | dump | final | after =>
    simp only [State.resume]
    split <;> exact h

theorem linked_of_dumping {snap : Snap} {cur : Current} (hs : Linked s)
    (h : s.pc.dumping = some (snap, cur)) : s.dirty = s.freshness.dirtySince.isSome := by
  cases hpc : s.pc <;> simp_all [Linked, Pc.dumping]

theorem linked_of_snapping (hs : Linked s) (h : s.pc.snapping = true) :
    s.dirty = s.freshness.dirtySince.isSome := by
  cases hpc : s.pc <;> simp_all [Linked, Pc.dumping, Pc.snapping]

theorem linked_step (hs : Linked s) (h : Step cfg s a t) : Linked t := by
  cases h.effect with
  | kernel | ambient => exact hs
  | expire =>
    unfold Linked at hs ⊢
    simp only [expire_dirtySince]
    exact hs
  | stopped ht =>
    unfold Linked
    rw [ht]
    trivial
  | drained hpc =>
    simp only [Linked, hpc] at hs
    exact hs
  | resumed hpc =>
    simp only [Linked, hpc] at hs
    exact resume_linked hs _ _ _
  | soiled => rfl
  | invalidate hpc =>
    simp only [Linked, hpc] at hs
    simpa [Linked, Freshness.invalidate] using hs
  | publish =>
    simp only [Linked, Freshness.publish]
    split <;> simp_all
  | settle hpc =>
    simp only [Linked, hpc] at hs
    exact hs.symm
  | failed hpc =>
    have hd := linked_of_snapping hs hpc
    exact hd
  | check hpc | received hpc | ended hpc =>
    have hd := linked_of_dumping hs hpc
    exact hd
  | dumping hpc ht =>
    have hd := linked_of_dumping hs hpc
    rename_i pc
    cases pc <;> first | exact hd | cases ht
  | head hpc | clean hpc | began hpc | refused hpc | skipped hpc | final hpc | request hpc
  | filter hpc | backOff hpc | poll hpc =>
    simp only [Linked, hpc] at hs
    exact hs

theorem linked_run (h : Lts.Trace (Step cfg) (init e t₀ routes) xs s) : Linked s :=
  h.invariant (P := Linked) rfl (fun _ _ _ hs ha => linked_step hs ha)

/-- An expiry step that does not withdraw has nothing to withdraw, or is not due. -/
theorem expire_cases {f : Freshness} {now limit : ℕ} {tx : Watch Exports}
    (hw : f.withdrawn = true → tx.value = ∅) :
    (f.expire now limit tx).2.value = ∅ ∨ f.dirtySince = none ∨
      ∃ start, f.dirtySince = some start ∧ now - start < limit := by
  unfold Freshness.expire
  split
  · exact Or.inl rfl
  · rename_i hover
    cases hwith : f.withdrawn with
    | true => exact Or.inl (hw hwith)
    | false =>
      cases hd : f.dirtySince with
      | none => exact Or.inr (Or.inl rfl)
      | some start =>
        refine Or.inr (Or.inr ⟨start, rfl, ?_⟩)
        simpa [Freshness.overdue, hwith, hd] using hover

/-- Staleness is bounded: the deadline is never moved, expiry empties the channel until the next
publication, and the worker's flag follows the deadline at every loop head. -/
theorem bounded_staleness (h : Lts.Trace (Step cfg) (init e t₀ routes) xs s) :
    s.freshness.dirtySince = staleFrom t₀ xs ∧
      (∀ now t, Step cfg s (.expire now) t → t.channel.value = ∅ ∨
        t.freshness.dirtySince = none ∨
        ∃ start, t.freshness.dirtySince = some start ∧ now - start < limitMs cfg) ∧
      (s.freshness.withdrawn = true → s.channel.value = ∅) ∧
      (∀ ys t, Lts.Trace (Step cfg) s ys t → s.channel.value = ∅ →
        (∀ now changed exports, Label.publish now changed exports ∉ ys) → t.channel.value = ∅) ∧
      (∀ now changed exports t, Step cfg s (.publish now changed exports) t →
        t.channel.value = exports) ∧
      (s.pc = .head → (s.dirty = true ↔ ∃ start, s.freshness.dirtySince = some start)) := by
  refine ⟨dirtySince_eq h, ?_, withdrawn_empty h, fun ys t ht hs hp => stays_empty ht hs hp, ?_, ?_⟩
  · intro now t ht
    rcases ht.freshness_cases with ⟨_, ha, -⟩ | ⟨_, _, ha, -⟩ | ⟨ha, hf, hc⟩ | ⟨ha, -⟩
    · cases ha
    · cases ha
    · cases ha
      rw [hf, hc, expire_dirtySince]
      exact expire_cases (withdrawn_empty h)
    · rcases ha with ha | ha | ha <;> cases ha
  · intro now changed exports t ht
    rcases ht.freshness_cases with ⟨_, ha, -⟩ | ⟨_, _, ha, -, hc⟩ | ⟨ha, -⟩ | ⟨ha, -⟩
    · cases ha
    · cases ha
      rw [hc, publish_channel]
    · cases ha
    · rcases ha with ha | ha | ha <;> cases ha
  · intro hpc
    have hl := linked_run h
    simp only [Linked, hpc] at hl
    rw [hl, Option.isSome_iff_exists]

def staleExports : Exports := Finmap.singleton "export" ∅

/-- The stale timeout of the example configuration passes before the first snapshot. -/
def staleMoves : List Move := [.tick 30000, .expire]

theorem staleMoves_exec :
    (Lts.exec (step exampleConfig) staleMoves (init staleExports 0 ∅)).map
      (fun r => (r.2.freshness.withdrawn, staleFrom 0 r.1)) = some (true, some 0) := by
  decide +kernel

theorem example_bounded_staleness :
    ∃ xs s, Lts.Trace (Step exampleConfig) (init staleExports 0 ∅) xs s ∧
      s.freshness.dirtySince = some 0 ∧ s.channel.value = ∅ := by
  obtain ⟨⟨xs, s⟩, hr, he⟩ := Option.map_eq_some_iff.mp staleMoves_exec
  simp only [Prod.mk.injEq] at he
  have htrace := Lts.exec_trace hr
  obtain ⟨hsince, -, hwithdrawn, -⟩ := bounded_staleness htrace
  exact ⟨xs, s, htrace, hsince.trans he.2, hwithdrawn he.1⟩

end Netlink
end Ubgp
