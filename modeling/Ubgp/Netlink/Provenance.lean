import Ubgp.Bgp.Leak
import Ubgp.Netlink.Observe
import Ubgp.Netlink.Quiescence

/-! Where published prefixes come from: routes that the kernel held while the snapshot published
last was being taken. -/
namespace Ubgp
namespace Netlink

variable {cfg : Config} {s t : State} {a : Label} {xs : List (Label × State)} {x : Label × State}
  {e : Exports} {t₀ : ℕ} {routes : Finset KernelRoute} {k k' : KernelState} {p : IpNet} {pc : Pc}
  {S : Prefixes}

def applyBegan (ws : Option (List State)) : Label × State → Option (List State)
  | (.began, w) => some [w]
  | (_, w) => ws.map (fun ws => ws ++ [w])

/-- The states a run went through since its last snapshot began. -/
def sinceBegan (xs : List (Label × State)) : Option (List State) := xs.foldl applyBegan none

/-- Since the last snapshot began the kernel held an eligible route to `p`. -/
def Lately (cfg : Config) (xs : List (Label × State)) (p : IpNet) : Prop :=
  ∃ ws, sinceBegan xs = some ws ∧ ∃ w ∈ ws, p ∈ eligiblePrefixes cfg w.kernel.routes

theorem sinceBegan_snoc : sinceBegan (xs ++ [x]) = applyBegan (sinceBegan xs) x := by
  rw [sinceBegan, sinceBegan, List.foldl_append]
  rfl

theorem sinceBegan_of_ne {ws : List State} (h : sinceBegan xs = some ws) (ha : a ≠ .began) :
    sinceBegan (xs ++ [(a, t)]) = some (ws ++ [t]) := by
  rw [sinceBegan_snoc, h]
  cases a with
  | began => exact absurd rfl ha
  | _ => rfl

theorem Lately.snoc (h : Lately cfg xs p) (ha : a ≠ .began) : Lately cfg (xs ++ [(a, t)]) p := by
  obtain ⟨ws, hws, w, hw, hp⟩ := h
  exact ⟨ws ++ [t], sinceBegan_of_ne hws ha, w, List.mem_append_left _ hw, hp⟩

/-- A route held now is held since the last snapshot began. -/
theorem lately_now {ws : List State} (h : sinceBegan xs = some ws) (ha : a ≠ .began)
    (hp : p ∈ eligiblePrefixes cfg t.kernel.routes) : Lately cfg (xs ++ [(a, t)]) p :=
  ⟨ws ++ [t], sinceBegan_of_ne h ha, t, by simp, hp⟩

/-! What a snapshot in progress holds. -/

/-- What the snapshot in progress has collected. -/
def Pc.collected : Pc → Prefixes
  | .request snap | .check snap _ | .receive _ snap _ | .wait snap _ => snap.result
  | .drain _ _ (.dump snap _) | .drain _ _ (.final snap) => snap.result
  | .filter result _ => result
  | _ => ∅

/-- The dump in progress, its drains included. -/
def Pc.current : Pc → Option (Snap × Current)
  | .drain _ _ (.dump snap cur) => some (snap, cur)
  | pc => pc.dumping

/-- Dumps are being made. -/
def Pc.sampling : Pc → Bool
  | .request _ => true
  | pc => pc.current.isSome

/-- Everything collected, on its way from the kernel or on its way to the channel was held by the
kernel since the snapshot began. -/
structure Sampled (cfg : Config) (xs : List (Label × State)) (s : State) : Prop where
  begun : s.pc.sampling = true → ∃ ws, sinceBegan xs = some ws
  collected : ∀ p ∈ s.pc.collected, Lately cfg xs p
  shown : s.pc.current.isSome = true → ∀ m ∈ s.kernel.flight, ∀ p, m.Shows cfg p → Lately cfg xs p
  exporting : ∀ e, s.pc.exporting = some e → ∃ S, filter cfg S = .ok e ∧ ∀ p ∈ S, Lately cfg xs p

/-- Where nothing is held there is nothing to show. -/
theorem sampled_idle (hs : s.pc.sampling = false) (hc : s.pc.collected = ∅)
    (hd : s.pc.current = none) (he : s.pc.exporting = none) : Sampled cfg xs s where
  begun := by simp [hs]
  collected := by simp [hc]
  shown := by simp [hd]
  exporting := by simp [he]

theorem dumping_collected {snap : Snap} {cur : Current} (h : pc.dumping = some (snap, cur)) :
    pc.sampling = true ∧ pc.collected = snap.result ∧ pc.current = some (snap, cur) ∧
      pc.exporting = none := by
  cases pc <;> cases h <;> exact ⟨rfl, rfl, rfl, rfl⟩

theorem sampling_of_current (h : pc.current.isSome = true) : pc.sampling = true := by
  cases pc <;> first | rfl | exact h

/-- Within a dump the bookkeeping knows which dump it is. -/
theorem Tracked.within {snap : Snap} {cur : Current} (h : Tracked cfg s)
    (hpc : s.pc.current = some (snap, cur)) : Within cfg s.kernel snap cur := by
  unfold Tracked at h
  cases hp : s.pc with
  | drain rounds ev r =>
    rw [hp] at h hpc
    cases r <;> cases hpc
    exact h
  | check | receive | wait =>
    rw [hp] at h hpc
    cases hpc
    exact h
  | _ =>
    rw [hp] at hpc
    cases hpc

theorem Sampled.begun_snoc (h : Sampled cfg xs s) (ha : a ≠ .began) (hs : s.pc.sampling = true) :
    ∃ ws, sinceBegan (xs ++ [(a, t)]) = some ws := by
  obtain ⟨ws, hws⟩ := h.begun hs
  exact ⟨_, sinceBegan_of_ne hws ha⟩

theorem Sampled.keep (h : Sampled cfg xs s) (ha : a ≠ .began)
    (hs : t.pc.sampling = true → s.pc.sampling = true) (hc : t.pc.collected ⊆ s.pc.collected)
    (hd : t.pc.current.isSome = true → s.pc.current.isSome = true ∧
      ∀ m ∈ t.kernel.flight, m ∈ s.kernel.flight)
    (he : ∀ e, t.pc.exporting = some e → s.pc.exporting = some e) :
    Sampled cfg (xs ++ [(a, t)]) t where
  begun := fun ht => h.begun_snoc ha (hs ht)
  collected := fun p hp => (h.collected p (hc hp)).snoc ha
  shown := by
    intro hs m hm p hp
    obtain ⟨hs', hm'⟩ := hd hs
    exact (h.shown hs' m (hm' m hm) p hp).snoc ha
  exporting := by
    intro e' he'
    obtain ⟨S, hS, hl⟩ := h.exporting e' (he e' he')
    exact ⟨S, hS, fun p hp => (hl p hp).snoc ha⟩

/-- A message read from a route of a requested dump shows a prefix the kernel holds. -/
theorem Within.shows {snap : Snap} {cur : Current} {m : Message} (hw : Within cfg k snap cur)
    (hr : k.read m = some k') (hp : m.Shows cfg p) : p ∈ eligiblePrefixes cfg k'.routes := by
  obtain ⟨d, hd, hroutes, -, -, -, hm⟩ := read_cases hr
  rcases hm with ⟨-, ⟨r, hmem, hkey, hpay⟩, -⟩ | ⟨hkind, -⟩ | ⟨hkind, -⟩
  · have hreq : r.key ∈ requests cfg := by
      rcases hw.ending with ⟨d', hd', hkey', -⟩ | ⟨hd', -⟩
      · rw [hd] at hd'
        cases hd'
        rw [hkey, hkey']
        exact hw.key
      · rw [hd] at hd'
        cases hd'
    obtain ⟨hel, hdst⟩ := eligible_of_shows hreq hpay hp
    rw [hroutes]
    exact mem_eligiblePrefixes.mpr ⟨r, by simp [KernelState.eligible, hmem, hel], hdst⟩
  · exact absurd hp.1 hkind
  · exact absurd hp.1 hkind

theorem Sampled.moves (h : Sampled cfg xs s) (ht : Tracked cfg s) (hk : s.kernel.Moves cfg k) :
    Sampled cfg (xs ++ [(.tau, { s with kernel := k })]) { s with kernel := k } := by
  have hne : Label.tau ≠ .began := by simp
  refine ⟨h.begun_snoc hne, fun p hp => (h.collected p hp).snoc hne, ?_, ?_⟩
  · intro hs m hm p hp
    obtain ⟨ws, hws⟩ := h.begun (sampling_of_current hs)
    obtain ⟨⟨snap, cur⟩, hcur⟩ := Option.isSome_iff_exists.mp hs
    cases hk with
    | change hc =>
      obtain ⟨-, hdg, ho, -⟩ := change_cases hc
      rw [KernelState.flight, hdg, ho] at hm
      exact (h.shown hs m hm p hp).snoc hne
    | traffic => exact (h.shown hs m hm p hp).snoc hne
    | read hr =>
      obtain ⟨d, -, -, -, hf, -⟩ := read_cases hr
      rw [hf] at hm
      rcases List.mem_append.mp hm with hm | hm
      · exact (h.shown hs m hm p hp).snoc hne
      · obtain rfl := List.mem_singleton.mp hm
        exact lately_now hws hne ((ht.within hcur).shows hr hp)
    | pack hpack =>
      obtain ⟨-, -, -, hf, -⟩ := pack_cases hpack
      rw [hf] at hm
      exact (h.shown hs m hm p hp).snoc hne
  · intro e' he'
    obtain ⟨S, hS, hl⟩ := h.exporting e' he'
    exact ⟨S, hS, fun p hp => (hl p hp).snoc hne⟩

/-- What a datagram adds was on its way. -/
theorem Sampled.datagram {snap : Snap} {cur : Current} {bytes : Bytes} {datagrams : List Bytes}
    {dump : Dump} (h : Sampled cfg xs s) (ht : Tracked cfg s)
    (hpc : s.pc.dumping = some (snap, cur)) (hq : s.kernel.datagrams = bytes :: datagrams)
    (hr : dumpDatagram cfg s.seq bytes ⟨snap.result, cur.sawRoute, false⟩ = .ok dump) :
    (∀ p ∈ dump.result, Lately cfg xs p) ∧
      ∀ m ∈ { s.kernel with datagrams }.flight, ∀ p, m.Shows cfg p → Lately cfg xs p := by
  obtain ⟨-, hcol, hcur, -⟩ := dumping_collected hpc
  obtain ⟨ms, hms, hf⟩ := (ht.within hcur).next hq
  have hshown := h.shown (by rw [hcur]; rfl)
  rw [hf] at hshown
  refine ⟨?_, fun m hm => hshown m (List.mem_append_right _ hm)⟩
  intro p hp
  rcases ((dumpDatagram_spec hms hr).1 p).mp hp with hp | ⟨m, hm, hs⟩
  · exact h.collected p (hcol ▸ hp)
  · exact hshown m (List.mem_append_left _ hm) p hs

theorem Drained.ne_began {ev ev' : Events} {queue : List Bytes} {overrun : Bool}
    (h : Drained k ev a queue overrun ev') : a ≠ .began := by
  cases h <;> simp

theorem Sampled.drained (rounds' : ℕ) {rounds : ℕ} {ev ev' : Events} {r : Resume}
    {queue : List Bytes} {overrun : Bool} (h : Sampled cfg xs s) (ha : a ≠ .began)
    (hpc : s.pc = .drain rounds ev r) :
    Sampled cfg (xs ++ [(a, { s with
      kernel := s.kernel.withEvents queue overrun, pc := .drain rounds' ev' r })]) { s with
      kernel := s.kernel.withEvents queue overrun, pc := .drain rounds' ev' r } := by
  refine h.keep ha ?_ ?_ ?_ ?_
  · rw [hpc]
    cases r <;> exact id
  · rw [hpc]
    cases r <;> exact Finset.Subset.refl _
  · rw [hpc]
    cases r <;> exact fun hs => ⟨hs, fun _ hm => hm⟩
  · rw [hpc]
    cases r <;> exact fun _ he => he

theorem Sampled.resumed {rounds : ℕ} {ev ev' : Events} {r : Resume} {queue : List Bytes}
    {overrun : Bool} (h : Sampled cfg xs s) (ha : a ≠ .began) (hpc : s.pc = .drain rounds ev r) :
    let t := { s with kernel := s.kernel.withEvents queue overrun }.resume cfg ev' r
    Sampled cfg (xs ++ [(a, t)]) t := by
  intro t
  have hidle : t.pc.sampling = false → t.pc.collected = ∅ → t.pc.current = none →
      t.pc.exporting = none → Sampled cfg (xs ++ [(a, t)]) t := sampled_idle
  cases r with
  | head => exact hidle rfl rfl rfl rfl
  | dump snap cur =>
    by_cases hl : ev'.lost = true
    · simp only [t, State.resume, hl, if_true] at hidle ⊢
      exact hidle rfl rfl rfl rfl
    · simp only [t, State.resume, hl]
      refine h.keep ha ?_ ?_ ?_ ?_ <;> rw [hpc]
      · exact fun _ => rfl
      · exact Finset.Subset.refl _
      · exact fun _ => ⟨rfl, fun _ hm => hm⟩
      · exact fun _ he => he
  | final snap =>
    by_cases hl : ev'.lost = true
    · simp only [t, State.resume, hl, if_true] at hidle ⊢
      exact hidle rfl rfl rfl rfl
    · simp only [t, State.resume, hl]
      refine h.keep ha ?_ ?_ ?_ ?_ <;> rw [hpc]
      · exact fun hs => by cases hs
      · exact Finset.Subset.refl _
      · exact fun hs => by cases hs
      · exact fun _ he => he
  | after changed exports =>
    by_cases hl : ev'.lost = true
    · simp only [t, State.resume, hl, if_true] at hidle ⊢
      exact hidle rfl rfl rfl rfl
    · simp only [t, State.resume, hl]
      refine h.keep ha ?_ ?_ ?_ ?_ <;> rw [hpc]
      · exact fun hs => by cases hs
      · exact Finset.Subset.refl _
      · exact fun hs => by cases hs
      · exact fun _ he => he

theorem Sampled.step (h : Sampled cfg xs s) (ht : Tracked cfg s) (hstep : Step cfg s a t) :
    Sampled cfg (xs ++ [(a, t)]) t := by
  cases hstep.effect with
  | kernel hk => exact h.moves ht hk
  | ambient | expire =>
    exact h.keep (by simp) id (Finset.Subset.refl _) (fun hs => ⟨hs, fun _ hm => hm⟩)
      (fun _ he => he)
  | stopped hpc =>
    exact sampled_idle (by rw [hpc]; rfl) (by rw [hpc]; rfl) (by rw [hpc]; rfl)
      (by rw [hpc]; rfl)
  | drained hpc hd => exact h.drained _ hd.ne_began hpc
  | resumed hpc hd => exact h.resumed hd.ne_began hpc
  | began =>
    refine ⟨fun _ => ⟨_, sinceBegan_snoc⟩, ?_, ?_, ?_⟩
    · exact fun p hp => by cases hp
    · exact fun hs => by cases hs
    · exact fun _ he => by cases he
  | head | soiled | clean | invalidate | refused | skipped | failed | publish | settle
  | backOff | poll => exact sampled_idle rfl rfl rfl rfl
  | final hpc =>
    refine h.keep (by simp) ?_ ?_ ?_ ?_ <;> rw [hpc]
    · exact fun hs => by cases hs
    · exact Finset.Subset.refl _
    · exact fun hs => by cases hs
    · exact fun _ he => by cases he
  | @request snap key todo seq hpc hd =>
    simp only [Tracked, hpc] at ht
    refine ⟨fun _ => h.begun_snoc (by simp) (by rw [hpc]; rfl),
      fun p hp => (h.collected p (by rw [hpc]; exact hp)).snoc (by simp), ?_, ?_⟩
    · intro _ m hm
      have hflight : (s.kernel.request key).flight = [] := ht.flight
      rw [hflight] at hm
      cases hm
    · exact fun _ he => by cases he
  | check hpc =>
    obtain ⟨hsam, hcol, hcur, -⟩ := dumping_collected hpc
    refine h.keep (by simp) (fun _ => hsam) ?_ ?_ ?_
    · rw [hcol]
      exact Finset.Subset.refl _
    · rw [hcur]
      exact fun _ => ⟨rfl, fun _ hm => hm⟩
    · exact fun _ he => by cases he
  | dumping hpc hpc' =>
    obtain ⟨hsam, hcol, hcur, -⟩ := dumping_collected hpc
    obtain ⟨-, hcol', -, hexp'⟩ := dumping_collected hpc'
    refine h.keep (by simp) (fun _ => hsam) ?_ ?_ ?_
    · rw [hcol, hcol']
    · rw [hcur]
      exact fun _ => ⟨rfl, fun _ hm => hm⟩
    · rw [hexp']
      exact fun _ he => by cases he
  | received hpc hq hr =>
    obtain ⟨hresult, hflight⟩ := h.datagram ht hpc hq hr
    refine ⟨fun _ => h.begun_snoc (by simp) (dumping_collected hpc).1,
      fun p hp => (hresult p hp).snoc (by simp),
      fun _ m hm p hp => (hflight m hm p hp).snoc (by simp), ?_⟩
    exact fun _ he => by cases he
  | ended hpc hq hr =>
    obtain ⟨hresult, -⟩ := h.datagram ht hpc hq hr
    refine ⟨fun _ => h.begun_snoc (by simp) (dumping_collected hpc).1,
      fun p hp => (hresult p hp).snoc (by simp), ?_, ?_⟩
    · exact fun hs => by cases hs
    · exact fun _ he => by cases he
  | @filter result changed exports hpc he =>
    refine ⟨(fun hs => by cases hs), (fun p hp => by cases hp), (fun hs => by cases hs), ?_⟩
    intro e' he'
    cases he'
    exact ⟨result, he, fun p hp => (h.collected p (by rw [hpc]; exact hp)).snoc (by simp)⟩

/-! Whole runs. -/

/-- Exports published last, of prefixes the kernel held while the snapshot behind them was taken. -/
def Backed (cfg : Config) (xs : List (Label × State)) (e : Exports) : Prop :=
  ∃ ys now changed w zs, xs = ys ++ (.publish now changed e, w) :: zs ∧
    (∀ now changed e' w', (Label.publish now changed e', w') ∉ zs) ∧
    ∃ S, filter cfg S = .ok e ∧ ∀ p ∈ S, Lately cfg ys p

theorem Backed.snoc (h : Backed cfg xs e) (ha : ∀ now changed e', a ≠ .publish now changed e') :
    Backed cfg (xs ++ [(a, t)]) e := by
  obtain ⟨ys, now, changed, w, zs, rfl, hzs, hS⟩ := h
  refine ⟨ys, now, changed, w, zs ++ [(a, t)], by simp, ?_, hS⟩
  intro now' changed' e' w' hm
  rcases List.mem_append.mp hm with hm | hm
  · exact hzs now' changed' e' w' hm
  · cases List.mem_singleton.mp hm
    exact ha _ _ _ rfl

/-- Exports that were published at some time, of prefixes the kernel held while the snapshot behind
them was taken. -/
def Offered (cfg : Config) (xs : List (Label × State)) (e : Exports) : Prop :=
  e = ∅ ∨ ∃ ys now changed w zs, xs = ys ++ (.publish now changed e, w) :: zs ∧
    ∃ S, filter cfg S = .ok e ∧ ∀ p ∈ S, Lately cfg ys p

theorem Backed.offered (h : Backed cfg xs e) : Offered cfg xs e := by
  obtain ⟨ys, now, changed, w, zs, hxs, -, hS⟩ := h
  exact Or.inr ⟨ys, now, changed, w, zs, hxs, hS⟩

theorem Offered.append (h : Offered cfg xs e) (zs : List (Label × State)) :
    Offered cfg (xs ++ zs) e := by
  rcases h with rfl | ⟨ys, now, changed, w, zs', rfl, hS⟩
  · exact Or.inl rfl
  · exact Or.inr ⟨ys, now, changed, w, zs' ++ zs, by simp, hS⟩

theorem publish_pc {now : ℕ} {changed : Bool} (hstep : Step cfg s (.publish now changed e) t) :
    s.pc = .publish changed e := by
  cases hstep.effect with
  | publish hpc => exact hpc
  | drained _ hd => cases hd
  | resumed _ hd => cases hd

theorem backed_step (hs : Sampled cfg xs s)
    (h : s.channel.value = ∅ ∨ Backed cfg xs s.channel.value)
    (hstep : Step cfg s a t) :
    t.channel.value = ∅ ∨ Backed cfg (xs ++ [(a, t)]) t.channel.value := by
  rcases hstep.freshness_cases with ⟨now, rfl, -, hc⟩ | ⟨changed, exports, rfl, -, hc⟩ |
    ⟨rfl, -, hc⟩ | ⟨hplain, -, hc⟩
  · rw [hc]
    exact h.imp_right (fun hb => hb.snoc (by simp))
  · rw [hc, publish_channel]
    have hpc := publish_pc hstep
    obtain ⟨S, hS, hl⟩ := hs.exporting exports (by rw [hpc]; rfl)
    exact Or.inr ⟨xs, s.now, changed, t, [], rfl, by simp, S, hS, hl⟩
  · rw [hc]
    unfold Freshness.expire
    split
    · exact Or.inl rfl
    · exact h.imp_right (fun hb => hb.snoc (by simp))
  · rw [hc]
    refine h.imp_right (fun hb => hb.snoc ?_)
    rcases hplain with rfl | rfl | rfl <;> simp

/-- What the channel holds is nothing, or backed by the kernel. -/
theorem backed_of_trace (h : Lts.Trace (Lts.Recorded (Step cfg)) (init ∅ t₀ routes) xs s) :
    s.channel.value = ∅ ∨ Backed cfg xs s.channel.value := by
  refine (h.history (P := fun xs s => Consistent cfg s ∧ Sampled cfg xs s ∧
    (s.channel.value = ∅ ∨ Backed cfg xs s.channel.value))
    ⟨init_consistent, sampled_idle rfl rfl rfl rfl, Or.inl rfl⟩ ?_).2.2
  rintro xs s ⟨a, u⟩ t ⟨hc, hs, hb⟩ ⟨hstep, rfl⟩
  exact ⟨consistent_step hc hstep, hs.step hc.tracked hstep, backed_step hs hb hstep⟩

/-- At the loop head, not dirty and with nothing on the event socket, the channel mirrors the
kernel. -/
theorem Consistent.mirrors (h : Consistent cfg s) (hpc : s.pc = .head) (hd : s.dirty = false)
    (hq : s.kernel.queue = []) (ho : s.kernel.overrun = false) :
    Mirrors cfg s.kernel s.channel.value := by
  have halert : s.alert = false := by
    simp [State.alert, KernelState.alert, Pc.flag, hpc, hq, ho]
  have hacc := h.accurate
  simp only [halert, Accurate, hpc, hd] at hacc
  rcases hacc with ha | ha | ha
  · cases ha
  · cases ha
  · exact ha

theorem fromKernel_of_lately (h : ∀ p ∈ S, Lately cfg xs p) : FromKernel cfg S := by
  intro p hp
  obtain ⟨ws, -, w, -, hw⟩ := h p hp
  obtain ⟨r, hr, rfl⟩ := mem_eligiblePrefixes.mp hw
  have hel := (Finset.mem_filter.mp hr).2
  simp only [KernelRoute.eligible, Bool.and_eq_true, decide_eq_true_eq] at hel
  exact ⟨r.payload, by rw [r.described, if_pos ⟨hel.1.1, hel.1.2⟩]⟩

/-- Whatever was on offer is the filter of a kernel set. -/
theorem Offered.sourced (h : Offered cfg xs e) : Sourced cfg e := by
  rcases h with rfl | ⟨_, _, _, _, _, -, S, hS, hl⟩
  · exact Or.inl rfl
  · exact Or.inr ⟨S, fromKernel_of_lately hl, hS⟩

/-- A step keeps the channel or replaces its value. -/
theorem Step.channel_cases (h : Step cfg s a t) :
    t.channel = s.channel ∨ t.channel = s.channel.sendReplace t.channel.value := by
  rcases h.freshness_cases with ⟨_, -, -, hc⟩ | ⟨_, _, -, -, hc⟩ | ⟨-, -, hc⟩ | ⟨-, -, hc⟩
  · exact Or.inl hc
  · rw [hc]
    simp only [Freshness.publish]
    split
    · exact Or.inr rfl
    · exact Or.inl rfl
  · rw [hc]
    unfold Freshness.expire
    split
    · exact Or.inr rfl
    · exact Or.inl rfl
  · exact Or.inl hc

/-- A prefix on offer to a peer is permitted by its ACL and was the destination of an eligible
route that the kernel held while the snapshot published last was being taken. -/
theorem exports_provenance {P : Peer} (hv : cfg.validate = .ok ()) (hP : P ∈ cfg.peers)
    (h : Lts.Trace (Lts.Recorded (Step cfg)) (init ∅ t₀ routes) xs s)
    (hp : p ∈ desired s.channel.value P.exportAcl) :
    (∃ acl, cfg.acls.lookup P.exportAcl = some acl ∧ FirstMatchPermits acl p) ∧
      ∃ ys now changed w zs, xs = ys ++ (.publish now changed s.channel.value, w) :: zs ∧
        (∀ now changed e' w', (Label.publish now changed e', w') ∉ zs) ∧
        ∃ ws, sinceBegan ys = some ws ∧
          ∃ u ∈ ws, ∃ r ∈ u.kernel.routes, r.eligible cfg = true ∧ r.dst = p := by
  rcases backed_of_trace h with hb | ⟨ys, now, changed, w, zs, hxs, hzs, S, hS, hl⟩
  · rw [hb] at hp
    simp [desired] at hp
  · obtain ⟨hpS, hacl⟩ := desired_of_filter hv hP hS hp
    obtain ⟨ws, hws, u, hu, hr⟩ := hl p hpS
    obtain ⟨r, hr, hdst⟩ := mem_eligiblePrefixes.mp hr
    obtain ⟨hmem, hel⟩ := Finset.mem_filter.mp hr
    exact ⟨hacl, ys, now, changed, w, zs, hxs, hzs, ws, hws, u, hu, r, hmem, hel, hdst⟩

theorem example_exports_provenance :
    ∃ xs s, Lts.Trace (Lts.Recorded (Step exampleConfig)) (init ∅ 0 ∅) xs s ∧
      examplePrefix ∈ desired s.channel.value examplePeer.exportAcl ∧
      ∃ ys now changed w zs, xs = ys ++ (.publish now changed s.channel.value, w) :: zs ∧
        ∃ ws, sinceBegan ys = some ws ∧
          ∃ u ∈ ws, ∃ r ∈ u.kernel.routes, r.dst = examplePrefix := by
  obtain ⟨⟨xs, s⟩, hr, he⟩ := Option.map_eq_some_iff.mp quietMoves_exec
  simp only [Prod.mk.injEq] at he
  obtain ⟨ys, hys, -⟩ := (Lts.exec_trace hr).recorded
  have hp : examplePrefix ∈ desired s.channel.value examplePeer.exportAcl := by
    rw [show examplePeer.exportAcl = "export" from rfl, he.2.2]
    simp
  obtain ⟨-, as, now, changed, w, zs, hx, -, ws, hws, u, hu, r, hmem, -, hdst⟩ :=
    exports_provenance exampleConfig_valid (by simp [exampleConfig]) hys hp
  exact ⟨ys, s, hys, hp, as, now, changed, w, zs, hx, ws, hws, u, hu, r, hmem, hdst⟩

end Netlink
end Ubgp
