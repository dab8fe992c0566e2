import Ubgp.Netlink.Observe
import Ubgp.Netlink.Reading

/-! Snapshots: a call of `snapshot` returns what complete dumps showed, or nothing that the worker
uses. -/
namespace Ubgp
namespace Netlink

/-- The messages of datagrams, in order. -/
def messagesOf (ds : List Bytes) : List Message :=
  ds.flatMap (fun bytes => (parse bytes).toOption.getD [])

/-- A dump as it was requested and received. -/
structure Dumped where
  key : Bool × UInt32
  seq : ℕ
  datagrams : List Bytes

namespace Dumped

def messages (d : Dumped) : List Message := messagesOf d.datagrams

def trace (d : Dumped) : List Seen := .request d.key d.seq :: d.datagrams.map .datagram

/-- Every datagram is well formed, every message is accepted where it stands, and one of the last
datagram ends the dump. -/
structure Complete (cfg : Config) (d : Dumped) : Prop where
  readable : ∀ bytes ∈ d.datagrams, bytes ≠ [] ∧ ∃ ms, parse bytes = .ok ms
  accepted : ∀ as m bs, d.messages = as ++ m :: bs → Accepted cfg d.seq as m
  ended : ∃ ds bytes as m bs, d.datagrams = ds ++ [bytes] ∧ parse bytes = .ok (as ++ m :: bs) ∧
    Ends (messagesOf ds ++ as) m

end Dumped

/-- A request for a dump or a datagram of one. -/
def Seen.isDump : Seen → Bool
  | .request _ _ | .datagram _ => true
  | _ => false

/-- A receive on the event socket that brings something. -/
def Seen.isNotice : Seen → Bool
  | .notice _ | .loss => true
  | _ => false

/-- A notification that is no sign of loss. -/
def Harmless (bytes : Bytes) : Prop :=
  bytes ≠ [] ∧ ∃ ms, parse bytes = .ok ms ∧ ∀ m ∈ ms, m.isLoss = false

/-- Some message of the dumps shows the prefix. -/
def Shown (cfg : Config) (dumps : List Dumped) (p : IpNet) : Prop :=
  ∃ d ∈ dumps, ∃ m ∈ d.messages, m.Shows cfg p

/-- A call that saw `seen` and returned `result` and `changed`. -/
structure Complete (cfg : Config) (seen : List Seen) (dumps : List Dumped) (result : Prefixes)
    (changed : Bool) : Prop where
  observed : seen.filter Seen.isDump = dumps.flatMap Dumped.trace
  requested : dumps.map Dumped.key = requests cfg
  complete : ∀ d ∈ dumps, d.Complete cfg
  noLoss : .loss ∉ seen
  notices : ∀ bytes, .notice bytes ∈ seen → Harmless bytes
  union : ∀ p, p ∈ result ↔ Shown cfg dumps p
  bounded : result.card ≤ cfg.kernel.maxPrefixes
  changed : changed = true ↔ ∃ bytes, .notice bytes ∈ seen ∧ notifies bytes = true

/-- The watchdog is the only one to touch freshness and channel. -/
def watchdog (cfg : Config) (r : Freshness × Watch Exports) : Seen → Freshness × Watch Exports
  | .expire now => r.1.expire now (limitMs cfg) r.2
  | _ => r

variable {cfg : Config} {s t : State} {xs seen : List Seen} {o : Seen} {pc pc' : Pc}
  {seq : ℕ} {snap : Snap} {cur : Current} {bytes : Bytes} {changed lost : Bool}
  {dumps : List Dumped} {d : Dumped} {result : Prefixes} {ev : Events}

/-! Notifications. -/

theorem foldlM_note (ms : List Message) (ev : Events) :
    ∃ ev', ms.foldlM (fun ev m => (.ok (Events.note m ev) : Except (Events × Fault) Events)) ev =
      .ok ev' ∧ (ev'.lost = false → ev.lost = false ∧ (∀ m ∈ ms, m.isLoss = false) ∧
        ev'.changed = (ev.changed || ms.any Message.isChange)) := by
  induction ms generalizing ev with
  | nil => exact ⟨ev, rfl, fun h => ⟨h, by simp, by simp⟩⟩
  | cons m ms ih =>
    obtain ⟨ev', hfold, hspec⟩ := ih (ev.note m)
    refine ⟨ev', hfold, ?_⟩
    intro hl
    obtain ⟨hlost, hms, hchanged⟩ := hspec hl
    cases hm : m.isLoss with
    | true => simp [Events.note, hm] at hlost
    | false =>
      cases hc : m.isChange <;> simp_all [Events.note]

/-- A datagram after which no loss is recorded was harmless, and its changes are recorded. -/
theorem absorb_harmless (h : (ev.absorb bytes).lost = false) :
    ev.lost = false ∧ Harmless bytes ∧
      (ev.absorb bytes).changed = (ev.changed || notifies bytes) := by
  obtain ⟨ms, r, hscan⟩ := exists_scan bytes
  obtain ⟨ev', hfold, hspec⟩ := foldlM_note ms ev
  have habsorb : ev.absorb bytes = if bytes = [] then { ev with lost := true } else
      match r with
      | none => ev'
      | some _ => { ev' with lost := true } := by
    rw [Events.absorb, messages_of_scans hscan, hfold]
    cases r <;> rfl
  rw [habsorb] at h ⊢
  by_cases hb : bytes = []
  · simp [hb] at h
  · rw [if_neg hb] at h ⊢
    cases r with
    | some e => simp at h
    | none =>
      obtain ⟨hlost, hms, hchanged⟩ := hspec h
      have hparse := parse_of_scans hscan
      refine ⟨hlost, ⟨hb, ms, hparse, hms⟩, ?_⟩
      rw [hchanged, notifies, hparse]

/-- The notifications of a call so far, if no loss was recorded. -/
def Noticed (seen : List Seen) (changed lost : Bool) : Prop :=
  lost = false → .loss ∉ seen ∧ (∀ bytes, .notice bytes ∈ seen → Harmless bytes) ∧
    (changed = true ↔ ∃ bytes, .notice bytes ∈ seen ∧ notifies bytes = true)

theorem noticed_nil : Noticed [] false false := by
  intro _
  simp

theorem Noticed.snoc (h : Noticed seen changed lost) (ho : o.isNotice = false) :
    Noticed (seen ++ [o]) changed lost := by
  intro hl
  obtain ⟨hloss, hnotices, hchanged⟩ := h hl
  have hmem : ∀ o', o'.isNotice = true → (o' ∈ seen ++ [o] ↔ o' ∈ seen) := by
    intro o' ho'
    rw [List.mem_append, List.mem_singleton]
    constructor
    · rintro (hm | rfl)
      · exact hm
      · rw [ho] at ho'
        cases ho'
    · exact Or.inl
  refine ⟨?_, ?_, ?_⟩
  · rw [hmem .loss rfl]
    exact hloss
  · intro bytes hb
    exact hnotices bytes ((hmem _ rfl).mp hb)
  · rw [hchanged]
    exact exists_congr fun bytes => by rw [hmem _ rfl]

theorem Noticed.notice (h : Noticed seen (changed || ev.changed) ev.lost) :
    Noticed (seen ++ [.notice bytes]) (changed || (ev.absorb bytes).changed)
      (ev.absorb bytes).lost := by
  intro hl
  obtain ⟨hlost, hharmless, hch⟩ := absorb_harmless hl
  obtain ⟨hloss, hnotices, hchanged⟩ := h hlost
  refine ⟨?_, ?_, ?_⟩
  · simpa using hloss
  · intro bytes' hb
    rcases List.mem_append.mp hb with hb | hb
    · exact hnotices bytes' hb
    · cases List.mem_singleton.mp hb
      exact hharmless
  · rw [hch, ← Bool.or_assoc, Bool.or_eq_true, hchanged]
    constructor
    · rintro (⟨bytes', hb, hn⟩ | hn)
      · exact ⟨bytes', List.mem_append_left _ hb, hn⟩
      · exact ⟨bytes, by simp, hn⟩
    · rintro ⟨bytes', hb, hn⟩
      rcases List.mem_append.mp hb with hb | hb
      · exact Or.inl ⟨bytes', hb, hn⟩
      · cases List.mem_singleton.mp hb
        exact Or.inr hn

/-! Dumps. -/

/-- All dumps requested so far are complete, `todo` are the others. -/
structure BetweenDumps (cfg : Config) (seen : List Seen) (dumps : List Dumped) (result : Prefixes)
    (todo : List (Bool × UInt32)) : Prop where
  observed : seen.filter Seen.isDump = dumps.flatMap Dumped.trace
  requested : dumps.map Dumped.key ++ todo = requests cfg
  complete : ∀ d ∈ dumps, d.Complete cfg
  union : ∀ p, p ∈ result ↔ Shown cfg dumps p
  bounded : result.card ≤ cfg.kernel.maxPrefixes

/-- The same within the dump `d`, those before it having shown `start`. -/
structure WithinDump (cfg : Config) (seen : List Seen) (dumps : List Dumped) (d : Dumped)
    (start result : Prefixes) (sawRoute : Bool) (todo : List (Bool × UInt32)) : Prop where
  observed : seen.filter Seen.isDump = dumps.flatMap Dumped.trace ++ d.trace
  requested : dumps.map Dumped.key ++ d.key :: todo = requests cfg
  complete : ∀ d ∈ dumps, d.Complete cfg
  readable : ∀ bytes ∈ d.datagrams, bytes ≠ [] ∧ ∃ ms, parse bytes = .ok ms
  before : ∀ p, p ∈ start ↔ Shown cfg dumps p
  reading : Reading cfg d.seq start d.messages d.messages ⟨result, sawRoute, false⟩

section Dumps
variable {todo : List (Bool × UInt32)} {start : Prefixes} {sawRoute : Bool} {dump : Dump}
  {key : Bool × UInt32}

theorem filter_snoc_quiet (ho : o.isDump = false) :
    (seen ++ [o]).filter Seen.isDump = seen.filter Seen.isDump := by
  simp [ho]

theorem filter_snoc_dump (ho : o.isDump = true) :
    (seen ++ [o]).filter Seen.isDump = seen.filter Seen.isDump ++ [o] := by
  simp [ho]

theorem BetweenDumps.quiet (h : BetweenDumps cfg seen dumps result todo) (ho : o.isDump = false) :
    BetweenDumps cfg (seen ++ [o]) dumps result todo :=
  { h with observed := (filter_snoc_quiet ho).trans h.observed }

theorem WithinDump.quiet (h : WithinDump cfg seen dumps d start result sawRoute todo)
    (ho : o.isDump = false) :
    WithinDump cfg (seen ++ [o]) dumps d start result sawRoute todo :=
  { h with observed := (filter_snoc_quiet ho).trans h.observed }

/-- A dump starts with nothing read. -/
theorem reading_start (hb : result.card ≤ cfg.kernel.maxPrefixes) :
    Reading cfg seq result [] [] ⟨result, false, false⟩ where
  accepted := by simp
  sawRoute := by simp
  result := by simp
  bounded := hb
  extends_earlier := List.nil_prefix
  done := fun h => by cases h

/-- The next datagram starts where the last one ended. -/
theorem Reading.next {earlier ms : List Message} (h : Reading cfg seq start earlier ms dump) :
    Reading cfg seq start ms ms ⟨dump.result, dump.sawRoute, false⟩ where
  accepted := h.accepted
  sawRoute := h.sawRoute
  result := h.result
  bounded := h.bounded
  extends_earlier := List.prefix_rfl
  done := fun h => by cases h

theorem BetweenDumps.request (h : BetweenDumps cfg seen dumps result (key :: todo)) (seq : ℕ) :
    WithinDump cfg (seen ++ [.request key seq]) dumps ⟨key, seq, []⟩ result result false todo where
  observed := by
    rw [filter_snoc_dump rfl, h.observed]
    rfl
  requested := h.requested
  complete := h.complete
  readable := by simp
  before := h.union
  reading := reading_start h.bounded

theorem messagesOf_snoc {ds : List Bytes} {ms : List Message} (h : parse bytes = .ok ms) :
    messagesOf (ds ++ [bytes]) = messagesOf ds ++ ms := by
  simp [messagesOf, h, Except.toOption]

/-- An accepted datagram. -/
theorem WithinDump.datagram (h : WithinDump cfg seen dumps d start result sawRoute todo)
    (hr : dumpDatagram cfg d.seq bytes ⟨result, sawRoute, false⟩ = .ok dump) (hb : bytes ≠ []) :
    ∃ ms, parse bytes = .ok ms ∧ Reading cfg d.seq start d.messages (d.messages ++ ms) dump ∧
      WithinDump cfg (seen ++ [.datagram bytes]) dumps
        { d with datagrams := d.datagrams ++ [bytes] } start dump.result dump.sawRoute todo := by
  obtain ⟨ms, hparse, hread⟩ := h.reading.datagram hr
  have hmessages : ({ d with datagrams := d.datagrams ++ [bytes] } : Dumped).messages =
      d.messages ++ ms := messagesOf_snoc hparse
  refine ⟨ms, hparse, hread, ?_, h.requested, h.complete, ?_, h.before, ?_⟩
  · rw [filter_snoc_dump rfl, h.observed]
    simp [Dumped.trace]
  · intro b hm
    rcases List.mem_append.mp hm with hm | hm
    · exact h.readable b hm
    · cases List.mem_singleton.mp hm
      exact ⟨hb, ms, hparse⟩
  · rw [hmessages]
    exact hread.next

/-- The datagram that ends a dump. -/
theorem WithinDump.ended (h : WithinDump cfg seen dumps d start result sawRoute todo)
    (hr : dumpDatagram cfg d.seq bytes ⟨result, sawRoute, false⟩ = .ok dump) (hb : bytes ≠ [])
    (hd : dump.done = true) :
    BetweenDumps cfg (seen ++ [.datagram bytes])
      (dumps ++ [{ d with datagrams := d.datagrams ++ [bytes] }]) dump.result todo := by
  obtain ⟨ms, hparse, hread, hwithin⟩ := h.datagram hr hb
  obtain ⟨as, m, bs, hx, hends⟩ := hread.done hd
  refine ⟨?_, ?_, ?_, ?_, hread.bounded⟩
  · rw [hwithin.observed]
    simp
  · rw [← hwithin.requested]
    simp
  · intro d' hm
    rcases List.mem_append.mp hm with hm | hm
    · exact h.complete d' hm
    · cases List.mem_singleton.mp hm
      refine ⟨hwithin.readable, hwithin.reading.accepted, ?_⟩
      rw [List.append_cancel_left hx] at hparse
      exact ⟨d.datagrams, bytes, as, m, bs, rfl, hparse, hends⟩
  · intro p
    rw [hwithin.reading.result, hwithin.before]
    simp [Shown, or_and_right, exists_or]

/-- A call that has made all its dumps. -/
theorem BetweenDumps.finished (h : BetweenDumps cfg seen dumps result [])
    (hn : Noticed seen changed false) : Complete cfg seen dumps result changed := by
  obtain ⟨hloss, hnotices, hchanged⟩ := hn rfl
  refine ⟨h.observed, ?_, h.complete, hloss, hnotices, h.union, h.bounded, hchanged⟩
  rw [← h.requested, List.append_nil]

end Dumps

/-! The stages of a call. -/

/-- What a call of `snapshot` has seen when the worker stands at `pc`. -/
def CallStage (cfg : Config) (seen : List Seen) (seq : ℕ) : Pc → Prop
  | .request snap =>
    (∃ dumps, BetweenDumps cfg seen dumps snap.result snap.todo) ∧ Noticed seen snap.changed false
  | .check snap cur | .receive _ snap cur | .wait snap cur =>
    (∃ dumps d start, d.seq = seq ∧
      WithinDump cfg seen dumps d start snap.result cur.sawRoute snap.todo) ∧
      Noticed seen snap.changed false
  | .drain _ ev (.dump snap cur) =>
    (∃ dumps d start, d.seq = seq ∧
      WithinDump cfg seen dumps d start snap.result cur.sawRoute snap.todo) ∧
      Noticed seen (snap.changed || ev.changed) ev.lost
  | .drain _ ev (.final snap) =>
    (∃ dumps, BetweenDumps cfg seen dumps snap.result []) ∧
      Noticed seen (snap.changed || ev.changed) ev.lost
  | .filter result changed =>
    (∃ dumps, BetweenDumps cfg seen dumps result []) ∧ Noticed seen changed false
  | _ => True

theorem callStage_dumping (h : pc.dumping = some (snap, cur)) : CallStage cfg seen seq pc ↔
    (∃ dumps d start, d.seq = seq ∧
      WithinDump cfg seen dumps d start snap.result cur.sawRoute snap.todo) ∧
      Noticed seen snap.changed false := by
  cases pc <;> simp only [Pc.dumping, reduceCtorEq, Option.some.injEq, Prod.mk.injEq] at h
  all_goals
    obtain ⟨rfl, rfl⟩ := h
    exact Iff.rfl

/-- Steps of the watchdog, the clock and the kernel change nothing. -/
theorem CallStage.quiet (h : CallStage cfg seen seq pc) (hd : o.isDump = false)
    (hn : o.isNotice = false) :
    CallStage cfg (seen ++ [o]) seq pc := by
  have hbetween : ∀ {result todo changed lost},
      (∃ dumps, BetweenDumps cfg seen dumps result todo) ∧ Noticed seen changed lost →
      (∃ dumps, BetweenDumps cfg (seen ++ [o]) dumps result todo) ∧
        Noticed (seen ++ [o]) changed lost := by
    rintro result todo changed lost ⟨⟨dumps, hb⟩, hnot⟩
    exact ⟨⟨dumps, hb.quiet hd⟩, hnot.snoc hn⟩
  have hwithin : ∀ {result sawRoute todo changed lost},
      (∃ dumps d start, d.seq = seq ∧ WithinDump cfg seen dumps d start result sawRoute todo) ∧
        Noticed seen changed lost →
      (∃ dumps d start, d.seq = seq ∧
        WithinDump cfg (seen ++ [o]) dumps d start result sawRoute todo) ∧
        Noticed (seen ++ [o]) changed lost := by
    rintro result sawRoute todo changed lost ⟨⟨dumps, d, start, hseq, hw⟩, hnot⟩
    exact ⟨⟨dumps, d, start, hseq, hw.quiet hd⟩, hnot.snoc hn⟩
  cases pc with
  | request snap => exact hbetween h
  | check snap cur => exact hwithin h
  | receive rounds snap cur => exact hwithin h
  | wait snap cur => exact hwithin h
  | filter result changed => exact hbetween h
  | drain rounds ev k =>
    cases k with
    | dump snap cur => exact hwithin h
    | final snap => exact hbetween h
    | head | after => trivial
  | _ => trivial

theorem CallStage.advance {seq' : ℕ} (h : CallStage cfg seen seq pc)
    (ha : Advance cfg pc seq o pc' seq') :
    CallStage cfg (seen ++ [o]) seq' pc' := by
  cases ha with
  | fail => trivial
  | dumping hpc hpc' =>
    have hstage := h.quiet (o := .tau) rfl rfl
    rw [callStage_dumping hpc] at hstage
    rw [callStage_dumping hpc']
    exact hstage
  | drain hpc =>
    have hstage := h.quiet (o := .tau) rfl rfl
    rw [callStage_dumping hpc] at hstage
    refine ⟨hstage.1, ?_⟩
    simpa [Events.none] using hstage.2
  | final htodo =>
    obtain ⟨⟨dumps, hb⟩, hn⟩ := h.quiet (o := .tau) rfl rfl
    refine ⟨⟨dumps, htodo ▸ hb⟩, ?_⟩
    simpa [Events.none] using hn
  | request htodo =>
    obtain ⟨⟨dumps, hb⟩, hn⟩ := h
    exact ⟨⟨dumps, _, _, rfl, (htodo ▸ hb).request _⟩, hn.snoc rfl⟩
  | @idle _ _ ev k =>
    have hstage := h.quiet (o := .tau) rfl rfl
    cases k <;> exact hstage
  | @notice _ _ ev k =>
    cases k with
    | dump snap cur =>
      obtain ⟨⟨dumps, d, start, hseq, hw⟩, hn⟩ := h
      exact ⟨⟨dumps, d, start, hseq, hw.quiet rfl⟩, hn.notice⟩
    | final snap =>
      obtain ⟨⟨dumps, hb⟩, hn⟩ := h
      exact ⟨⟨dumps, hb.quiet rfl⟩, hn.notice⟩
    | head | after => trivial
  | resumed hl =>
    obtain ⟨hw, hn⟩ := h.quiet (o := .tau) rfl rfl
    rw [hl] at hn
    exact ⟨hw, hn⟩
  | returned hl =>
    obtain ⟨hb, hn⟩ := h.quiet (o := .tau) rfl rfl
    rw [hl] at hn
    exact ⟨hb, hn⟩
  | received hpc hb hr hd =>
    rw [callStage_dumping hpc] at h
    obtain ⟨⟨dumps, d, start, rfl, hw⟩, hn⟩ := h
    obtain ⟨ms, -, -, hw'⟩ := hw.datagram hr hb
    exact ⟨⟨dumps, { d with datagrams := d.datagrams ++ [_] }, start, rfl, hw'⟩, hn.snoc rfl⟩
  | ended hpc hb hr hd =>
    rw [callStage_dumping hpc] at h
    obtain ⟨⟨dumps, d, start, rfl, hw⟩, hn⟩ := h
    exact ⟨⟨_, hw.ended hr hb hd⟩, hn.snoc rfl⟩

/-! Whole runs. -/

/-- The call in progress and what it has seen: the worker is dirty and has left freshness and
channel to the watchdog. -/
structure Call (cfg : Config) (xs seen : List Seen) (s : State) : Prop where
  history : ∃ before freshness channel, xs = before ++ .began freshness channel :: seen ∧
    (s.freshness, s.channel) = seen.foldl (watchdog cfg) (freshness, channel)
  only : ∀ freshness channel, .began freshness channel ∉ seen
  dirty : s.dirty = true

/-- Exports made from a complete snapshot of an earlier call. -/
def Exported (cfg : Config) (xs : List Seen) (exports : Exports) : Prop :=
  ∃ before freshness channel seen later dumps result changed,
    xs = before ++ .began freshness channel :: (seen ++ later) ∧
    Complete cfg seen dumps result changed ∧ filter cfg result = .ok exports

structure Calling (cfg : Config) (xs : List Seen) (s : State) : Prop where
  inside : s.pc.inside = true → ∃ seen, Call cfg xs seen s ∧ CallStage cfg seen s.seq s.pc
  exporting : ∀ exports, s.pc.exporting = some exports → Exported cfg xs exports

theorem init_calling {e : Exports} {t₀ : ℕ} {routes : Finset KernelRoute} :
    Calling cfg [] (init e t₀ routes) where
  inside := fun h => by cases h
  exporting := fun _ h => by cases h

theorem Exported.snoc {exports : Exports} (h : Exported cfg xs exports) (o : Seen) :
    Exported cfg (xs ++ [o]) exports := by
  obtain ⟨before, f, c, seen, later, dumps, result, changed, rfl, hc, hf⟩ := h
  exact ⟨before, f, c, seen, later ++ [o], dumps, result, changed, by simp, hc, hf⟩

theorem Call.snoc (h : Call cfg xs seen s) (ho : ∀ f c, o ≠ .began f c) (hd : t.dirty = s.dirty)
    (hw : (t.freshness, t.channel) = watchdog cfg (s.freshness, s.channel) o) :
    Call cfg (xs ++ [o]) (seen ++ [o]) t := by
  obtain ⟨before, f, c, rfl, hfold⟩ := h.history
  refine ⟨⟨before, f, c, by simp, ?_⟩, ?_, hd.trans h.dirty⟩
  · rw [List.foldl_append, ← hfold]
    exact hw
  · intro f' c' hm
    rcases List.mem_append.mp hm with hm | hm
    · exact h.only f' c' hm
    · exact ho f' c' (List.mem_singleton.mp hm).symm

theorem call_began (hd : s.dirty = true) (ht : t.freshness = s.freshness)
    (hc : t.channel = s.channel) (htd : t.dirty = s.dirty) :
    Call cfg (xs ++ [.began s.freshness s.channel]) [] t where
  history := ⟨xs, s.freshness, s.channel, rfl, by rw [ht, hc]; rfl⟩
  only := by simp
  dirty := htd.trans hd

theorem watchdog_worker (cfg : Config) (r : Freshness × Watch Exports)
    (ho : ∀ now, o ≠ .expire now) :
    watchdog cfg r o = r := by
  cases o with
  | expire now => exact absurd rfl (ho now)
  | _ => rfl

/-- A step that stays where it is. -/
theorem Calling.ambient (h : Calling cfg xs s) (hd : o.isDump = false) (hn : o.isNotice = false)
    (ho : ∀ f c, o ≠ .began f c) (hpc : t.pc = s.pc) (hseq : t.seq = s.seq)
    (hdirty : t.dirty = s.dirty)
    (hw : (t.freshness, t.channel) = watchdog cfg (s.freshness, s.channel) o) :
    Calling cfg (xs ++ [o]) t where
  inside := by
    rw [hpc, hseq]
    intro hs
    obtain ⟨seen, hcall, hstage⟩ := h.inside hs
    exact ⟨seen ++ [o], hcall.snoc ho hdirty hw, hstage.quiet hd hn⟩
  exporting := by
    rw [hpc]
    intro e he
    exact (h.exporting e he).snoc o

theorem Calling.work {a : Label} {io : Io} (h : Calling cfg xs s)
    (hw : s.work cfg io = some (a, t)) : Calling cfg (xs ++ [s.seen io]) t := by
  obtain ⟨hexpire, hbegan⟩ := seen_worker s io
  generalize ho : s.seen io = o at hexpire hbegan
  have hwatched : Watched cfg s o t := ho ▸ work_watched hw
  cases hwatched with
  | outside ht he =>
    refine ⟨?_, fun e hx => (h.exporting e (he e hx)).snoc o⟩
    intro hin
    rw [ht] at hin
    cases hin
  | began hd hpc =>
    refine ⟨fun _ => ⟨[], call_began hd rfl rfl rfl, ?_⟩, ?_⟩
    · rcases hpc with rfl | rfl
      · refine ⟨⟨[], rfl, rfl, by simp, by simp [Shown], by simp⟩, noticed_nil⟩
      · trivial
    · intro e he
      rcases hpc with rfl | rfl <;> cases he
  | inside hs ha =>
    obtain ⟨seen, hcall, hstage⟩ := h.inside hs
    have hsame := (watchdog_worker cfg (s.freshness, s.channel) hexpire).symm
    refine ⟨fun _ => ⟨seen ++ [o], hcall.snoc (hbegan hs) rfl hsame, hstage.advance ha⟩, ?_⟩
    intro e he
    rw [show (State.pc _).exporting = none from ha.exporting hs] at he
    cases he
  | filtered hpc he =>
    obtain ⟨seen, hcall, hstage⟩ := h.inside (by rw [hpc]; rfl)
    rw [hpc] at hstage
    obtain ⟨⟨dumps, hb⟩, hn⟩ := hstage
    obtain ⟨before, f, c, hx, -⟩ := hcall.history
    refine ⟨(fun hin => by cases hin), ?_⟩
    intro e hexp
    cases hexp
    exact ⟨before, f, c, seen, [.tau], dumps, _, _, by simp [hx], hb.finished hn, he⟩

theorem Calling.step (h : Calling cfg xs s) (ho : Observed cfg s o t) :
    Calling cfg (xs ++ [o]) t := by
  obtain ⟨m, ho⟩ := ho
  cases m with
  | kernel kernel =>
    cases ho
    exact h.ambient rfl rfl (fun f c hb => by cases hb) rfl rfl rfl rfl
  | tick d =>
    cases ho
    exact h.ambient rfl rfl (fun f c hb => by cases hb) rfl rfl rfl rfl
  | halt =>
    cases ho
    exact h.ambient rfl rfl (fun f c hb => by cases hb) rfl rfl rfl rfl
  | expire =>
    cases ho
    exact h.ambient rfl rfl (fun f c hb => by cases hb) rfl rfl rfl rfl
  | work io =>
    simp only [observe, Option.map_eq_some_iff, Prod.mk.injEq, Prod.exists] at ho
    obtain ⟨a, u, hu, rfl, rfl⟩ := ho
    exact h.work hu

theorem Calling.of_trace {e : Exports} {t₀ : ℕ} {routes : Finset KernelRoute}
    (h : Lts.Trace (Observed cfg) (init e t₀ routes) xs s) : Calling cfg xs s :=
  h.history init_calling (fun _ _ _ _ hs ho => hs.step ho)

/-- After a failed snapshot the worker backs off, or stops, and leaves all else as it is. -/
theorem backOff_keeps (hpc : s.pc = .failed) {io : Io} {a : Label}
    (h : s.work cfg io = some (a, t)) : (t.pc = .poll ∨ t.pc = .stopped) ∧
      t.freshness = s.freshness ∧ t.channel = s.channel ∧ t.dirty = s.dirty := by
  simp only [State.work, hpc, Option.some.injEq, Prod.mk.injEq] at h
  obtain ⟨-, rfl⟩ := h
  unfold State.backOff
  split
  · exact ⟨Or.inr rfl, rfl, rfl, rfl⟩
  · exact ⟨Or.inl rfl, rfl, rfl, rfl⟩

/-- A snapshot is complete or nothing, whatever the sockets bring. A call that returns has read
every requested dump to its end and returns exactly what the dumps showed; one that fails leaves
the worker dirty and freshness and channel to the watchdog; and only the former's results are
published. -/
theorem snapshot_complete_or_nothing {e : Exports} {t₀ : ℕ} {routes : Finset KernelRoute}
    (h : Lts.Trace (Observed cfg) (init e t₀ routes) xs s) :
    (∀ result changed, s.pc = .filter result changed →
      ∃ seen dumps, Call cfg xs seen s ∧ Complete cfg seen dumps result changed) ∧
    (s.pc = .failed → (∃ seen, Call cfg xs seen s) ∧
      ∀ io a t, s.work cfg io = some (a, t) → (t.pc = .poll ∨ t.pc = .stopped) ∧
        t.freshness = s.freshness ∧ t.channel = s.channel ∧ t.dirty = true) ∧
    ∀ changed exports, s.pc = .publish changed exports → Exported cfg xs exports := by
  have hcalling := Calling.of_trace h
  refine ⟨?_, ?_, ?_⟩
  · intro result changed hpc
    obtain ⟨seen, hcall, hstage⟩ := hcalling.inside (by rw [hpc]; rfl)
    rw [hpc] at hstage
    obtain ⟨⟨dumps, hb⟩, hn⟩ := hstage
    exact ⟨seen, dumps, hcall, hb.finished hn⟩
  · intro hpc
    obtain ⟨seen, hcall, -⟩ := hcalling.inside (by rw [hpc]; rfl)
    refine ⟨⟨seen, hcall⟩, ?_⟩
    intro io a t ht
    obtain ⟨hq, hf, hc, hd⟩ := backOff_keeps hpc ht
    exact ⟨hq, hf, hc, hd.trans hcall.dirty⟩
  · intro changed exports hpc
    exact hcalling.exporting exports (by rw [hpc]; rfl)

def Pc.returned : Pc → Option (Prefixes × Bool)
  | .filter result changed => some (result, changed)
  | _ => none

theorem returned_eq_some (h : pc.returned = some (result, changed)) :
    pc = .filter result changed := by
  cases pc <;> simp_all [Pc.returned]

/-- One route is dumped, and announced again on the event socket before the call returns. -/
def dumpStimuli : List Stimulus :=
  List.replicate 8 (.work .done) ++
    [.kernel ⟨∅, [datagram 24 0 exampleRoute], false, none, [],
      [datagram 24 1 exampleRoute ++ datagram 3 1 []]⟩] ++ List.replicate 4 (.work .done)

theorem dumpStimuli_exec :
    (Lts.exec (observe exampleConfig) dumpStimuli (init ∅ 0 ∅)).map (fun r => r.2.pc.returned) =
      some (some ({examplePrefix}, true)) := by
  decide +kernel

theorem example_snapshot_complete :
    ∃ xs s seen dumps, Lts.Trace (Observed exampleConfig) (init ∅ 0 ∅) xs s ∧
      s.pc = .filter {examplePrefix} true ∧ Call exampleConfig xs seen s ∧
      Complete exampleConfig seen dumps {examplePrefix} true := by
  obtain ⟨⟨xs, s⟩, hr, he⟩ := Option.map_eq_some_iff.mp dumpStimuli_exec
  have hpc := returned_eq_some he
  have htrace : Lts.Trace (Observed exampleConfig) (init ∅ 0 ∅) xs s := Lts.exec_trace hr
  obtain ⟨seen, dumps, hcall, hcomplete⟩ := (snapshot_complete_or_nothing htrace).1 _ _ hpc
  exact ⟨xs, s, seen, dumps, htrace, hpc, hcall, hcomplete⟩

end Netlink
end Ubgp
