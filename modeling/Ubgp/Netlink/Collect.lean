import Ubgp.Netlink.Run

/-! What a dump in progress knows about the kernel's routes. -/
namespace Ubgp
namespace Netlink

variable {cfg : Config} {k k' : KernelState} {snap : Snap} {cur : Current} {m : Message}
  {ms : List Message} {r : KernelRoute} {result : Prefixes} {p : IpNet} {bytes : Bytes}

/-- The eligible routes, which are what every step of the kernel must account for. -/
def KernelState.eligible (cfg : Config) (k : KernelState) : Finset KernelRoute :=
  k.routes.filter (fun r => r.eligible cfg)

theorem mem_eligiblePrefixes :
    p ∈ eligiblePrefixes cfg k.routes ↔ ∃ r ∈ k.eligible cfg, r.dst = p := by
  simp [eligiblePrefixes, KernelState.eligible]

theorem eligiblePrefixes_eq (h : k'.eligible cfg = k.eligible cfg) :
    eligiblePrefixes cfg k'.routes = eligiblePrefixes cfg k.routes :=
  congrArg (Finset.image KernelRoute.dst) h

/-- An eligible route is shown by one of the dumps a snapshot requests. -/
theorem key_mem_requests (h : r.eligible cfg = true) : r.key ∈ requests cfg := by
  simp only [KernelRoute.eligible, Bool.and_eq_true, decide_eq_true_eq, Bool.or_eq_true,
    Bool.not_eq_true'] at h
  obtain ⟨⟨-, ht⟩, hv⟩ := h
  simp only [requests, KernelRoute.key, List.mem_append, List.mem_map]
  cases hd : r.dst.isIpv6 with
  | false => exact Or.inl ⟨r.table, ht, rfl⟩
  | true =>
    rw [hd] at hv
    rcases hv with hv | hv
    · cases hv
    · rw [if_pos hv]
      exact Or.inr (List.mem_map.mpr ⟨r.table, ht, rfl⟩)

theorem requests_spec (h : r.key ∈ requests cfg) :
    r.table ∈ cfg.kernel.tables ∧ (r.dst.isIpv6 = true → cfg.ipv6 = true) := by
  simp only [requests, KernelRoute.key, List.mem_append, List.mem_map, Prod.mk.injEq] at h
  rcases h with ⟨t, ht, hv, rfl⟩ | h
  · exact ⟨ht, fun h6 => by rw [h6] at hv; cases hv⟩
  · split at h
    · rename_i h6
      obtain ⟨t, ht, he⟩ := List.mem_map.mp h
      rw [← (Prod.mk.inj he).2]
      exact ⟨ht, fun _ => h6⟩
    · cases h

/-- The message of an eligible route shows its prefix. -/
theorem shows_of_eligible (hr : r.eligible cfg = true) (hk : m.kind = RTM_NEWROUTE)
    (hp : r.payload = m.payload) : m.Shows cfg r.dst := by
  simp only [KernelRoute.eligible, Bool.and_eq_true, decide_eq_true_eq] at hr
  refine ⟨hk, ?_⟩
  rw [← hp, r.described, if_pos ⟨hr.1.1, hr.1.2⟩]

/-- A message shows the prefix of the route it was read from, which is eligible. -/
theorem eligible_of_shows (hkey : r.key ∈ requests cfg) (hp : r.payload = m.payload)
    (h : m.Shows cfg p) : r.eligible cfg = true ∧ r.dst = p := by
  have hroute := h.2
  rw [← hp, r.described] at hroute
  split at hroute
  · rename_i ho
    obtain ⟨ht, h6⟩ := requests_spec hkey
    refine ⟨?_, Option.some.inj (Except.ok.inj hroute)⟩
    simp only [KernelRoute.eligible, ho.1, ht, decide_true, Bool.and_true, Bool.true_and]
    cases hd : r.dst.isIpv6 with
    | false => rfl
    | true => exact h6 hd
  · cases hroute

/-! Messages on their way. -/

theorem flight_snoc (m : Message) (d : Option ActiveDump) :
    { k with dump := d, outbox := k.outbox ++ [m] }.flight = k.flight ++ [m] := by
  simp [KernelState.flight]

/-- Packing moves messages along; they keep their order. -/
theorem pack_cases (h : k.pack bytes = some k') :
    k'.routes = k.routes ∧ k'.dump = k.dump ∧ k'.alert = k.alert ∧ k'.flight = k.flight ∧
      k'.datagrams = k.datagrams ++ [bytes] ∧ ∃ ms, parse bytes = .ok ms := by
  unfold KernelState.pack at h
  split at h
  · rename_i ms hms
    split at h
    · rename_i hpre
      obtain ⟨rest, hrest⟩ := hpre.2
      cases h
      refine ⟨rfl, rfl, rfl, ?_, rfl, ms, hms⟩
      simp [KernelState.flight, hms, ← hrest, Except.toOption]
    · cases h
  · cases h

theorem flight_cons {datagrams : List Bytes} (hq : k.datagrams = bytes :: datagrams)
    (hp : parse bytes = .ok ms) : k.flight = ms ++ { k with datagrams }.flight := by
  simp [KernelState.flight, hq, hp, Except.toOption]

/-- The datagrams of the dump socket are well formed. -/
def KernelState.Readable (k : KernelState) : Prop :=
  ∀ bytes ∈ k.datagrams, ∃ ms, parse bytes = .ok ms

/-- The state between two dumps of a snapshot. -/
structure Between (cfg : Config) (k : KernelState) (snap : Snap) : Prop where
  todo : ∀ key ∈ snap.todo, key ∈ requests cfg
  readable : k.Readable
  dump : k.dump = none
  flight : k.flight = []

/-- The end of a dump: none was sent yet, or it is the last message on its way. -/
def Ending (k : KernelState) (key : Bool × UInt32) : Prop :=
  (∃ d, k.dump = some d ∧ d.key = key ∧ ∀ m ∈ k.flight, m.succeeds = false) ∨
    (k.dump = none ∧ ∃ before last, k.flight = before ++ [last] ∧ last.succeeds = true ∧
      ∀ m ∈ before, m.succeeds = false)

/-- The state within a dump. -/
structure Within (cfg : Config) (k : KernelState) (snap : Snap) (cur : Current) : Prop where
  todo : ∀ key ∈ snap.todo, key ∈ requests cfg
  key : cur.key ∈ requests cfg
  readable : k.Readable
  ending : Ending k cur.key

/-- What was collected is eligible, and every eligible route of a finished dump was collected. -/
structure Collected (cfg : Config) (k : KernelState) (result : Prefixes)
    (todo : List (Bool × UInt32)) : Prop where
  sound : result ⊆ eligiblePrefixes cfg k.routes
  covered : ∀ r ∈ k.eligible cfg, r.key ∈ todo ∨ r.dst ∈ result

/-- The same within a dump, whose routes are collected, on their way or still to be read. -/
structure Collecting (cfg : Config) (k : KernelState) (snap : Snap) (cur : Current) : Prop where
  collected : Collected cfg k snap.result (cur.key :: snap.todo)
  shown : ∀ m ∈ k.flight, ∀ p, m.Shows cfg p → p ∈ eligiblePrefixes cfg k.routes
  current : ∀ r ∈ k.eligible cfg, r.key = cur.key → r.dst ∈ snap.result ∨
    (∃ d, k.dump = some d ∧ r ∈ d.owed) ∨ ∃ m ∈ k.flight, m.Shows cfg r.dst

/-! Steps of the kernel. -/

theorem newroute_succeeds (h : m.kind = RTM_NEWROUTE) : m.succeeds = false := by
  rw [Message.succeeds, h]
  rfl

/-- What a message adds to a dump. -/
theorem read_cases (h : k.read m = some k') :
    ∃ d, k.dump = some d ∧ k'.routes = k.routes ∧ k'.datagrams = k.datagrams ∧
      k'.flight = k.flight ++ [m] ∧ k'.alert = k.alert ∧
      ((m.kind = RTM_NEWROUTE ∧ (∃ r ∈ k.routes, r.key = d.key ∧ r.payload = m.payload) ∧
          k'.dump = some { d with owed := d.owed.filter (fun r => r.payload ≠ m.payload) }) ∨
        (m.kind ≠ RTM_NEWROUTE ∧ m.succeeds = true ∧ d.owed = ∅ ∧ k'.dump = none) ∨
        (m.kind ≠ RTM_NEWROUTE ∧ m.succeeds = false ∧ k'.dump = some d)) := by
  simp only [KernelState.read, Option.bind_eq_bind, Option.bind_eq_some_iff] at h
  obtain ⟨d, hd, h⟩ := h
  refine ⟨d, hd, ?_⟩
  split at h
  · rename_i hk
    split at h
    · rename_i hr
      cases h
      exact ⟨rfl, rfl, flight_snoc _ _, rfl, Or.inl ⟨hk, hr, rfl⟩⟩
    · cases h
  · rename_i hk
    split at h
    · rename_i hs
      split at h
      · rename_i ho
        cases h
        exact ⟨rfl, rfl, flight_snoc _ _, rfl, Or.inr (Or.inl ⟨hk, hs, ho, rfl⟩)⟩
      · cases h
    · rename_i hs
      cases h
      exact ⟨rfl, rfl, flight_snoc _ _, rfl, Or.inr (Or.inr ⟨hk, by simpa using hs, hd⟩)⟩

/-- A change that is noticed raises an alert; one that is not leaves the eligible routes. -/
theorem change_cases {routes : Finset KernelRoute} {notice : Notice}
    (h : k.change cfg routes notice = some k') :
    k'.dump = k.dump.map (fun d => { d with owed := d.owed ∩ k'.routes }) ∧
      k'.datagrams = k.datagrams ∧ k'.outbox = k.outbox ∧
      (k'.alert = true ∨ (k'.eligible cfg = k.eligible cfg ∧ k'.alert = k.alert)) := by
  unfold KernelState.change at h
  split at h
  · split at h
    · rename_i he
      cases h
      exact ⟨rfl, rfl, rfl, Or.inr ⟨he, rfl⟩⟩
    · cases h
  · split at h
    · rename_i hn
      cases h
      exact ⟨rfl, rfl, rfl, Or.inl (by simp [KernelState.alert, alarming_of_notifies hn])⟩
    · cases h
  · cases h
    exact ⟨rfl, rfl, rfl, Or.inl rfl⟩

/-- Whatever the kernel does to eligible routes raises an alert. -/
theorem moves_alert (h : k.Moves cfg k') : k'.alert = true ∨
    (k'.eligible cfg = k.eligible cfg ∧ (k.alert = true → k'.alert = true)) := by
  cases h with
  | change h =>
    rcases (change_cases h).2.2.2 with ha | ⟨he, ha⟩
    · exact Or.inl ha
    · exact Or.inr ⟨he, fun hk => ha.trans hk⟩
  | traffic =>
    refine Or.inr ⟨rfl, fun hk => ?_⟩
    simp only [KernelState.alert, KernelState.traffic, List.any_append, Bool.or_eq_true] at hk ⊢
    rcases hk with hk | hk
    · exact Or.inl hk
    · exact Or.inr (Or.inl hk)
  | read h =>
    obtain ⟨d, -, hr, -, -, ha, -⟩ := read_cases h
    exact Or.inr ⟨by rw [KernelState.eligible, hr]; rfl, fun hk => ha.trans hk⟩
  | pack h =>
    obtain ⟨hr, -, ha, -⟩ := pack_cases h
    exact Or.inr ⟨by rw [KernelState.eligible, hr]; rfl, fun hk => ha.trans hk⟩

theorem Collected.congr {todo : List (Bool × UInt32)} (h : Collected cfg k result todo)
    (he : k'.eligible cfg = k.eligible cfg) : Collected cfg k' result todo where
  sound := by
    rw [eligiblePrefixes_eq he]
    exact h.sound
  covered := by
    rw [he]
    exact h.covered

theorem KernelState.Readable.congr (h : k.Readable) (hd : k'.datagrams = k.datagrams) :
    k'.Readable := by
  rw [Readable, hd]
  exact h

theorem KernelState.Readable.snoc (h : k.Readable) (hd : k'.datagrams = k.datagrams ++ [bytes])
    (hms : ∃ ms, parse bytes = .ok ms) : k'.Readable := by
  rw [Readable, hd]
  intro b hb
  rcases List.mem_append.mp hb with hb | hb
  · exact h b hb
  · rwa [List.mem_singleton.mp hb]

theorem KernelState.Readable.tail {datagrams : List Bytes} (h : k.Readable)
    (hq : k.datagrams = bytes :: datagrams) : { k with datagrams }.Readable :=
  fun b hb => h b (by rw [hq]; exact List.mem_cons_of_mem _ hb)

theorem Between.moves (h : Between cfg k snap) (hk : k.Moves cfg k') : Between cfg k' snap := by
  cases hk with
  | change hc =>
    obtain ⟨hd, hdg, ho, -⟩ := change_cases hc
    refine ⟨h.todo, h.readable.congr hdg, by rw [hd, h.dump]; rfl, ?_⟩
    have := h.flight
    rwa [KernelState.flight, ← hdg, ← ho] at this
  | traffic => exact ⟨h.todo, h.readable, h.dump, h.flight⟩
  | read hr =>
    obtain ⟨d, hd, -⟩ := read_cases hr
    rw [h.dump] at hd
    cases hd
  | pack hp =>
    obtain ⟨-, hd, -, hf, hdg, hms⟩ := pack_cases hp
    exact ⟨h.todo, h.readable.snoc hdg hms, hd.trans h.dump, hf.trans h.flight⟩

theorem Within.moves (h : Within cfg k snap cur) (hk : k.Moves cfg k') :
    Within cfg k' snap cur := by
  cases hk with
  | change hc =>
    obtain ⟨hd, hdg, ho, -⟩ := change_cases hc
    have hf : k'.flight = k.flight := by rw [KernelState.flight, hdg, ho]; rfl
    refine ⟨h.todo, h.key, h.readable.congr hdg, ?_⟩
    rcases h.ending with ⟨d, hdump, hkey, hm⟩ | ⟨hdump, hlast⟩
    · exact Or.inl ⟨{ d with owed := d.owed ∩ k'.routes }, by rw [hd, hdump]; rfl, hkey, hf ▸ hm⟩
    · exact Or.inr ⟨by rw [hd, hdump]; rfl, hf ▸ hlast⟩
  | traffic => exact ⟨h.todo, h.key, h.readable, h.ending⟩
  | read hr =>
    obtain ⟨d, hd, -, hdg, hf, -, hm⟩ := read_cases hr
    refine ⟨h.todo, h.key, h.readable.congr hdg, ?_⟩
    rcases h.ending with ⟨d', hdump, hkey, hall⟩ | ⟨hdump, -⟩
    · rw [hd] at hdump
      cases hdump
      have hsnoc : ∀ m', m'.succeeds = false → ∀ m ∈ k.flight ++ [m'], m.succeeds = false := by
        intro m' hm' m hmem
        rcases List.mem_append.mp hmem with hmem | hmem
        · exact hall m hmem
        · rwa [List.mem_singleton.mp hmem]
      rcases hm with ⟨hkind, -, hdump'⟩ | ⟨-, hs, -, hdump'⟩ | ⟨-, hs, hdump'⟩
      · exact Or.inl ⟨_, hdump', hkey, hf ▸ hsnoc _ (newroute_succeeds hkind)⟩
      · exact Or.inr ⟨hdump', k.flight, _, hf, hs, hall⟩
      · exact Or.inl ⟨d, hdump', hkey, hf ▸ hsnoc _ hs⟩
    · rw [hd] at hdump
      cases hdump
  | pack hp =>
    obtain ⟨-, hd, -, hf, hdg, hms⟩ := pack_cases hp
    refine ⟨h.todo, h.key, h.readable.snoc hdg hms, ?_⟩
    rw [Ending, hd, hf]
    exact h.ending

/-- A step of the kernel that raises no alert keeps what the dump knows. -/
theorem Collecting.moves (h : Collecting cfg k snap cur) (hw : Within cfg k snap cur)
    (hk : k.Moves cfg k') (he : k'.eligible cfg = k.eligible cfg) :
    Collecting cfg k' snap cur := by
  have hpre := eligiblePrefixes_eq he
  refine ⟨h.collected.congr he, ?_, ?_⟩
  · cases hk with
    | change hc =>
      obtain ⟨-, hdg, ho, -⟩ := change_cases hc
      rw [KernelState.flight, hdg, ho, hpre]
      exact h.shown
    | traffic => exact h.shown
    | read hr =>
      obtain ⟨d, hd, -, -, hf, -, hm⟩ := read_cases hr
      rw [hf, hpre]
      intro m' hmem p hp
      rcases List.mem_append.mp hmem with hmem | hmem
      · exact h.shown m' hmem p hp
      · obtain rfl := List.mem_singleton.mp hmem
        rcases hm with ⟨-, ⟨r, hr, hkey, hpay⟩, -⟩ | ⟨hkind, -⟩ | ⟨hkind, -⟩
        · have hreq : r.key ∈ requests cfg := by
            rcases hw.ending with ⟨d', hd', hkey', -⟩ | ⟨hd', -⟩
            · rw [hd] at hd'
              cases hd'
              rw [hkey, hkey']
              exact hw.key
            · rw [hd] at hd'
              cases hd'
          obtain ⟨hel, hdst⟩ := eligible_of_shows hreq hpay hp
          exact mem_eligiblePrefixes.mpr ⟨r, by simp [KernelState.eligible, hr, hel], hdst⟩
        · exact absurd hp.1 hkind
        · exact absurd hp.1 hkind
    | pack hp =>
      obtain ⟨-, -, -, hf, -⟩ := pack_cases hp
      rw [hf, hpre]
      exact h.shown
  · rw [he]
    intro r hr hkey
    have hcur := h.current r hr hkey
    cases hk with
    | change hc =>
      obtain ⟨hd, hdg, ho, -⟩ := change_cases hc
      rw [KernelState.flight, hdg, ho]
      rcases hcur with hres | ⟨d, hdump, howed⟩ | hfl
      · exact Or.inl hres
      · refine Or.inr (Or.inl ⟨{ d with owed := d.owed ∩ k'.routes },
          by rw [hd, hdump]; rfl, ?_⟩)
        rw [← he] at hr
        exact Finset.mem_inter.mpr ⟨howed, (Finset.mem_filter.mp hr).1⟩
      · exact Or.inr (Or.inr hfl)
    | traffic => exact hcur
    | @read _ m' hread =>
      obtain ⟨d, hd, -, -, hf, -, hm⟩ := read_cases hread
      rw [hf]
      rcases hcur with hres | ⟨d', hdump, howed⟩ | ⟨m, hmem, hs⟩
      · exact Or.inl hres
      · rw [hd] at hdump
        cases hdump
        rcases hm with ⟨hkind, -, hdump'⟩ | ⟨-, -, hempty, -⟩ | ⟨-, -, hdump'⟩
        · by_cases hpay : r.payload = m'.payload
          · have hel := (Finset.mem_filter.mp hr).2
            exact Or.inr (Or.inr ⟨m', by simp, shows_of_eligible hel hkind hpay⟩)
          · exact Or.inr (Or.inl ⟨_, hdump', Finset.mem_filter.mpr ⟨howed, hpay⟩⟩)
        · rw [hempty] at howed
          cases howed
        · exact Or.inr (Or.inl ⟨d, hdump', howed⟩)
      · exact Or.inr (Or.inr ⟨m, by simp [hmem], hs⟩)
    | pack hp =>
      obtain ⟨-, hd, -, hf, -⟩ := pack_cases hp
      rw [hd, hf]
      exact hcur

/-! Steps of the snapshot. -/

/-- A snapshot starts with nothing collected and every dump to be made. -/
theorem between_start (cfg : Config) (k : KernelState) (t : ℕ) :
    Between cfg k.openDump ⟨∅, false, requests cfg, t⟩ :=
  ⟨fun _ h => h, by simp [KernelState.Readable, KernelState.openDump], rfl, rfl⟩

theorem collected_start (cfg : Config) (k : KernelState) : Collected cfg k ∅ (requests cfg) where
  sound := Finset.empty_subset _
  covered := fun _ hr => Or.inl (key_mem_requests (Finset.mem_filter.mp hr).2)

section Request
variable {key : Bool × UInt32} {todo : List (Bool × UInt32)}

theorem Between.request (h : Between cfg k snap) (hd : snap.todo = key :: todo) :
    Within cfg (k.request key) { snap with todo } ⟨key, false⟩ := by
  have htodo := h.todo
  rw [hd] at htodo
  have hflight : (k.request key).flight = [] := h.flight
  refine ⟨fun key' hk => htodo key' (List.mem_cons_of_mem _ hk), htodo key (by simp), h.readable,
    Or.inl ⟨_, rfl, rfl, ?_⟩⟩
  rw [hflight]
  simp

theorem Collected.request (h : Collected cfg k snap.result snap.todo) (hb : Between cfg k snap)
    (hd : snap.todo = key :: todo) :
    Collecting cfg (k.request key) { snap with todo } ⟨key, false⟩ := by
  have hflight : (k.request key).flight = [] := hb.flight
  refine ⟨⟨h.sound, hd ▸ h.covered⟩, by rw [hflight]; simp, ?_⟩
  intro r hr hkey
  exact Or.inr (Or.inl ⟨_, rfl, Finset.mem_filter.mpr ⟨(Finset.mem_filter.mp hr).1, hkey⟩⟩)

end Request

section Receive
variable {datagrams : List Bytes} {dump : Dump} {seq : ℕ}

/-- The messages of the datagram that is received next. -/
theorem Within.next (h : Within cfg k snap cur) (hq : k.datagrams = bytes :: datagrams) :
    ∃ ms, parse bytes = .ok ms ∧ k.flight = ms ++ { k with datagrams }.flight := by
  obtain ⟨ms, hms⟩ := h.readable bytes (by rw [hq]; simp)
  exact ⟨ms, hms, flight_cons hq hms⟩

/-- A datagram that does not end the dump. -/
theorem Within.received (h : Within cfg k snap cur) (hq : k.datagrams = bytes :: datagrams)
    (hr : dumpDatagram cfg seq bytes ⟨snap.result, cur.sawRoute, false⟩ = .ok dump)
    (hd : dump.done = false) :
    Within cfg { k with datagrams } { snap with result := dump.result }
      { cur with sawRoute := dump.sawRoute } := by
  obtain ⟨ms, hms, hf⟩ := h.next hq
  have hdone := (dumpDatagram_spec hms hr).2
  have hnone : ∀ m ∈ ms, m.succeeds = false := by
    intro m hm
    by_contra hs
    rw [hdone.mpr (Or.inr ⟨m, hm, by simpa using hs⟩)] at hd
    cases hd
  refine ⟨h.todo, h.key, h.readable.tail hq, ?_⟩
  rcases h.ending with ⟨d, hdump, hkey, hall⟩ | ⟨hdump, before, last, hl, hs, hall⟩
  · refine Or.inl ⟨d, hdump, hkey, fun m hm => hall m ?_⟩
    rw [hf]
    exact List.mem_append_right _ hm
  · refine Or.inr ⟨hdump, ?_⟩
    rw [hf] at hl
    rcases List.eq_nil_or_concat { k with datagrams }.flight with hnil | ⟨rest, m, hm⟩
    · rw [hnil, List.append_nil] at hl
      have := hnone last (by rw [hl]; simp)
      rw [hs] at this
      cases this
    · rw [hm, List.concat_eq_append, ← List.append_assoc] at hl
      obtain ⟨hbefore, hlast⟩ := List.append_inj' hl rfl
      refine ⟨rest, m, by rw [hm, List.concat_eq_append], ?_, ?_⟩
      · rwa [List.singleton_inj.mp hlast]
      · intro m' hm'
        exact hall m' (hbefore ▸ List.mem_append_right _ hm')

theorem Collecting.received (h : Collecting cfg k snap cur) (hw : Within cfg k snap cur)
    (hq : k.datagrams = bytes :: datagrams)
    (hr : dumpDatagram cfg seq bytes ⟨snap.result, cur.sawRoute, false⟩ = .ok dump) :
    Collecting cfg { k with datagrams } { snap with result := dump.result }
      { cur with sawRoute := dump.sawRoute } := by
  obtain ⟨ms, hms, hf⟩ := hw.next hq
  have hres := (dumpDatagram_spec hms hr).1
  refine ⟨⟨?_, ?_⟩, ?_, ?_⟩
  · intro p hp
    rcases (hres p).mp hp with hp | ⟨m, hm, hs⟩
    · exact h.collected.sound hp
    · exact h.shown m (by rw [hf]; exact List.mem_append_left _ hm) p hs
  · intro r hr
    rcases h.collected.covered r hr with hk | hd
    · exact Or.inl hk
    · exact Or.inr ((hres _).mpr (Or.inl hd))
  · intro m hm
    exact h.shown m (by rw [hf]; exact List.mem_append_right _ hm)
  · intro r hr hkey
    rcases h.current r hr hkey with hd | howed | ⟨m, hm, hs⟩
    · exact Or.inl ((hres _).mpr (Or.inl hd))
    · exact Or.inr (Or.inl howed)
    · rw [hf] at hm
      rcases List.mem_append.mp hm with hm | hm
      · exact Or.inl ((hres _).mpr (Or.inr ⟨m, hm, hs⟩))
      · exact Or.inr (Or.inr ⟨m, hm, hs⟩)

/-- The datagram that ends the dump is the last one. -/
theorem Within.ended (h : Within cfg k snap cur) (hq : k.datagrams = bytes :: datagrams)
    (hr : dumpDatagram cfg seq bytes ⟨snap.result, cur.sawRoute, false⟩ = .ok dump)
    (hd : dump.done = true) :
    Between cfg { k with datagrams } { snap with result := dump.result } := by
  obtain ⟨ms, hms, hf⟩ := h.next hq
  obtain ⟨m, hm, hs⟩ : ∃ m ∈ ms, m.succeeds = true := by
    rcases (dumpDatagram_spec hms hr).2.mp hd with hfalse | hm
    · cases hfalse
    · exact hm
  rcases h.ending with ⟨d, -, -, hall⟩ | ⟨hdump, before, last, hl, -, hall⟩
  · rw [hall m (by rw [hf]; exact List.mem_append_left _ hm)] at hs
    cases hs
  · refine ⟨h.todo, h.readable.tail hq, hdump, ?_⟩
    by_contra hne
    rcases List.eq_nil_or_concat { k with datagrams }.flight with hnil | ⟨rest, m', hm'⟩
    · exact hne hnil
    · rw [hf, hm', List.concat_eq_append, ← List.append_assoc] at hl
      have hbefore := (List.append_inj' hl rfl).1
      rw [hall m (hbefore ▸ List.mem_append_left _ hm)] at hs
      cases hs

/-- After the end of a dump all its routes are collected. -/
theorem Collecting.ended (h : Collecting cfg k snap cur) (hb : Between cfg k snap) :
    Collected cfg k snap.result snap.todo := by
  refine ⟨h.collected.sound, fun r hr => ?_⟩
  rcases h.collected.covered r hr with hk | hd
  · rcases List.mem_cons.mp hk with hk | hk
    · rcases h.current r hr hk with hd | ⟨d, hdump, -⟩ | ⟨m, hm, -⟩
      · exact Or.inr hd
      · rw [hb.dump] at hdump
        cases hdump
      · rw [hb.flight] at hm
        cases hm
    · exact Or.inl hk
  · exact Or.inr hd

end Receive

/-- A snapshot with no dump left to make holds exactly the eligible prefixes. -/
theorem Collected.complete (h : Collected cfg k result []) :
    result = eligiblePrefixes cfg k.routes := by
  refine Finset.Subset.antisymm h.sound ?_
  intro p hp
  obtain ⟨r, hr, rfl⟩ := mem_eligiblePrefixes.mp hp
  rcases h.covered r hr with hk | hd
  · cases hk
  · exact hd

end Netlink
end Ubgp
