import Mathlib.Data.Finset.Image
import Ubgp.Netlink.Drain

/-! The kernel's side: routes, notifications and dumps, and the callback of `snapshot` that reads
a dump (`netlink.rs`). -/
namespace Ubgp
namespace Netlink

/-- A route and the `rtmsg` by which the kernel describes it. `ordinary` routes are
destination-only unicast ones. -/
structure KernelRoute where
  dst : IpNet
  table : UInt32
  ordinary : Bool
  payload : Bytes
  described : ∀ tables : List UInt32, route payload tables =
    .ok (if ordinary = true ∧ table ∈ tables then some dst else none)
deriving DecidableEq

namespace KernelRoute

/-- The route belongs to what the daemon mirrors. -/
def eligible (cfg : Config) (r : KernelRoute) : Bool :=
  r.ordinary && decide (r.table ∈ cfg.kernel.tables) && (!r.dst.isIpv6 || cfg.ipv6)

/-- The family and table of the dump that shows the route. -/
def key (r : KernelRoute) : Bool × UInt32 := (r.dst.isIpv6, r.table)

end KernelRoute

/-- The prefixes of the eligible routes. -/
def eligiblePrefixes (cfg : Config) (routes : Finset KernelRoute) : Prefixes :=
  (routes.filter (fun r => r.eligible cfg)).image KernelRoute.dst

/-- The dumps of one snapshot: IPv6 only if configured. -/
def requests (cfg : Config) : List (Bool × UInt32) :=
  cfg.kernel.tables.map (fun t => (false, t)) ++
    if cfg.ipv6 then cfg.kernel.tables.map (fun t => (true, t)) else []

/-- A dump that has not ended. `owed` are the routes that were there from its start on and were
not read yet. -/
structure ActiveDump where
  key : Bool × UInt32
  owed : Finset KernelRoute

/-- The event socket is `queue` and `overrun`; the dump socket is `outbox`, the messages not yet
packed, and `datagrams`. -/
structure KernelState where
  routes : Finset KernelRoute
  queue : List Bytes
  overrun : Bool
  dump : Option ActiveDump
  outbox : List Message
  datagrams : List Bytes

/-- How a change of the routes shows on the event socket. -/
inductive Notice
  | silent
  | queued (bytes : Bytes)
  | overrun

/-- The message ends a dump successfully. -/
def Message.succeeds (m : Message) : Bool :=
  if m.kind = NLMSG_DONE then dumpStatus m.payload false == .ok ()
  else if m.kind = NLMSG_ERROR then u32n m.payload == .ok noEntry
  else false

namespace KernelState
variable (cfg : Config) (k : KernelState)

/-- Replace the routes. A change of eligible routes queues a notification or overruns the queue;
routes that disappear are not owed to a dump any more. -/
def change (routes : Finset KernelRoute) (notice : Notice) : Option KernelState :=
  let k' := { k with
    routes
    dump := k.dump.map (fun d => { d with owed := d.owed ∩ routes }) }
  match notice with
  | .silent =>
    if routes.filter (fun r => r.eligible cfg) = k.routes.filter (fun r => r.eligible cfg) then
      some k'
    else none
  | .queued bytes =>
    if notifies bytes then some { k' with queue := k.queue ++ [bytes] } else none
  | .overrun => some { k' with overrun := true }

/-- Any other datagram on the event socket. -/
def traffic (bytes : Bytes) : KernelState := { k with queue := k.queue ++ [bytes] }

/-- A fresh dump socket. -/
def openDump : KernelState := { k with dump := none, outbox := [], datagrams := [] }

/-- Start a dump of one family and table. -/
def request (key : Bool × UInt32) : KernelState :=
  { k with dump := some ⟨key, k.routes.filter (fun r => r.key = key)⟩ }

/-- Send one message of a dump: a route read now, the end once nothing is owed, or anything that
neither shows a route nor ends the dump successfully. -/
def read (m : Message) : Option KernelState := do
  let d ← k.dump
  if m.kind = RTM_NEWROUTE then
    if ∃ r ∈ k.routes, r.key = d.key ∧ r.payload = m.payload then
      return { k with
        dump := some { d with owed := d.owed.filter (fun r => r.payload ≠ m.payload) }
        outbox := k.outbox ++ [m] }
    else none
  else if m.succeeds then
    if d.owed = ∅ then return { k with dump := none, outbox := k.outbox ++ [m] } else none
  else return { k with outbox := k.outbox ++ [m] }

/-- Pack the next messages into a datagram. -/
def pack (bytes : Bytes) : Option KernelState :=
  match parse bytes with
  | .ok ms =>
    if ms ≠ [] ∧ ms <+: k.outbox then
      some { k with
        outbox := k.outbox.drop ms.length
        datagrams := k.datagrams ++ [bytes] }
    else none
  | .error _ => none

/-- The dump messages on their way, in order. -/
def flight : List Message :=
  k.datagrams.flatMap (fun bytes => (parse bytes).toOption.getD []) ++ k.outbox

end KernelState

/-- What a dump has delivered. -/
structure Dump where
  result : Prefixes
  sawRoute : Bool
  done : Bool

/-- A route of a dump. -/
def dumpRoute (cfg : Config) (m : Message) (s : Dump) : Result Dump := do
  match ← route m.payload cfg.kernel.tables with
  | some p =>
    check (decide ((insert p s.result).card ≤ cfg.kernel.maxPrefixes))
      "max_prefixes exceeded; refusing partial export"
    return { s with result := insert p s.result, sawRoute := true }
  | none => return { s with sawRoute := true }

/-- The callback of a dump datagram. -/
def dumpMessage (cfg : Config) (seq : ℕ) (m : Message) (s : Dump) : Result Dump := do
  check (m.seq == seq) "unexpected dump sequence"
  check (!m.interrupted) "interrupted netlink dump"
  if m.kind = NLMSG_DONE then
    dumpStatus m.payload s.sawRoute
    return { s with done := true }
  else if m.kind = NLMSG_ERROR then
    check (decide (4 ≤ m.payload.length)) "short NLMSG_ERROR"
    let code ← u32n m.payload
    if code = noEntry ∧ s.sawRoute = false then return { s with done := true }
    else if code ≠ 0 then throw (.other "netlink dump")
    else return s
  else if m.kind = NLMSG_OVERRUN then throw (.other "netlink dump overrun")
  else if m.kind = RTM_NEWROUTE then dumpRoute cfg m s
  else return s

/-- One datagram of a dump. -/
def dumpDatagram (cfg : Config) (seq : ℕ) (bytes : Bytes) (s : Dump) :
    Except (Dump × Fault) Dump :=
  messages bytes (fun m s => attempt s (dumpMessage cfg seq m s)) s

variable {cfg : Config} {seq : ℕ} {m : Message} {ms : List Message} {s t : Dump} {bytes : Bytes}

/-- The message shows an eligible prefix. -/
def Message.Shows (cfg : Config) (m : Message) (p : IpNet) : Prop :=
  m.kind = RTM_NEWROUTE ∧ route m.payload cfg.kernel.tables = .ok (some p)

theorem dumpStatus_false {payload : Bytes} {saw : Bool} (h : dumpStatus payload saw = .ok ()) :
    dumpStatus payload false = .ok () := by
  unfold dumpStatus at h ⊢
  split at h
  · rename_i he
    rw [if_pos he]
  · rename_i he
    rw [if_neg he]
    obtain ⟨_, hlen, h⟩ := bind_eq_ok.mp h
    obtain ⟨code, hcode, h⟩ := bind_eq_ok.mp h
    rw [check_eq_ok] at h
    rw [hlen, ok_bind, hcode, ok_bind, check_eq_ok]
    cases saw <;> simp_all

theorem dumpRoute_spec (hkind : m.kind = RTM_NEWROUTE) (h : dumpRoute cfg m s = .ok t) :
    (∀ p, p ∈ t.result ↔ p ∈ s.result ∨ m.Shows cfg p) ∧ t.done = s.done := by
  unfold dumpRoute at h
  obtain ⟨found, hroute, h⟩ := bind_eq_ok.mp h
  cases found with
  | some q =>
    obtain ⟨_, -, h⟩ := bind_eq_ok.mp h
    cases h
    refine ⟨fun p => ?_, rfl⟩
    simp only [Finset.mem_insert, Message.Shows, hkind, true_and, hroute, Except.ok.injEq,
      Option.some.injEq]
    rw [or_comm, eq_comm]
  | none =>
    cases h
    exact ⟨by simp [Message.Shows, hroute], rfl⟩

/-- What one message of a dump adds. -/
theorem dumpMessage_spec (h : dumpMessage cfg seq m s = .ok t) :
    (∀ p, p ∈ t.result ↔ p ∈ s.result ∨ m.Shows cfg p) ∧
      (t.done = true ↔ s.done = true ∨ m.succeeds = true) := by
  unfold dumpMessage at h
  obtain ⟨_, -, h⟩ := bind_eq_ok.mp h
  obtain ⟨_, -, h⟩ := bind_eq_ok.mp h
  have hshow : m.kind ≠ RTM_NEWROUTE → ∀ p, ¬ m.Shows cfg p := fun hk p hp => hk hp.1
  by_cases hdone : m.kind = NLMSG_DONE
  · rw [if_pos hdone] at h
    obtain ⟨_, hstatus, h⟩ := bind_eq_ok.mp h
    cases h
    have := hshow (by rw [hdone]; decide)
    simp [this, Message.succeeds, hdone, dumpStatus_false hstatus]
  by_cases herr : m.kind = NLMSG_ERROR
  · rw [if_neg hdone, if_pos herr] at h
    have := hshow (by rw [herr]; decide)
    obtain ⟨_, -, h⟩ := bind_eq_ok.mp h
    obtain ⟨code, hcode, h⟩ := bind_eq_ok.mp h
    have hsucc : m.succeeds = true ↔ code = noEntry := by
      rw [Message.succeeds, if_neg hdone, if_pos herr, hcode]
      simp
    split at h
    · rename_i hc
      cases h
      simp [this, hsucc, hc.1]
    · split at h
      · cases h
      · rename_i hc
        cases h
        have : code ≠ noEntry := by
          rw [not_not.mp hc]
          decide
        simp_all
  have hsucc : m.succeeds = false := by
    rw [Message.succeeds, if_neg hdone, if_neg herr]
  rw [if_neg hdone, if_neg herr] at h
  split at h
  · cases h
  · split at h
    · rename_i hkind
      obtain ⟨hresult, hd⟩ := dumpRoute_spec hkind h
      exact ⟨hresult, by simp [hd, hsucc]⟩
    · rename_i hkind
      cases h
      exact ⟨by simp [hshow hkind], by simp [hsucc]⟩

/-- What a datagram adds to a dump. -/
theorem dumpDatagram_spec (hp : parse bytes = .ok ms)
    (h : dumpDatagram cfg seq bytes s = .ok t) :
    (∀ p, p ∈ t.result ↔ p ∈ s.result ∨ ∃ m ∈ ms, m.Shows cfg p) ∧
      (t.done = true ↔ s.done = true ∨ ∃ m ∈ ms, m.succeeds = true) := by
  rw [dumpDatagram, messages_of_scans (scans_of_parse hp)] at h
  replace h : ms.foldlM (fun s m => attempt s (dumpMessage cfg seq m s)) s = .ok t := by
    revert h
    cases ms.foldlM (fun s m => attempt s (dumpMessage cfg seq m s)) s <;> exact id
  clear hp
  induction ms generalizing s with
  | nil =>
    cases h
    simp
  | cons m ms ih =>
    rw [List.foldlM_cons] at h
    cases hm : dumpMessage cfg seq m s with
    | error e =>
      rw [hm] at h
      cases h
    | ok u =>
      rw [hm] at h
      obtain ⟨hresult, hdone⟩ := dumpMessage_spec hm
      obtain ⟨hresult', hdone'⟩ := ih h
      refine ⟨fun p => ?_, ?_⟩
      · rw [hresult', hresult]
        simp [or_assoc]
      · rw [hdone', hdone]
        simp [or_assoc]

end Netlink
end Ubgp
