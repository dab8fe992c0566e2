import Ubgp.Lib.Trace
import Ubgp.Lib.Watch
import Ubgp.Netlink.Kernel

/-! The netlink worker and its watchdog (`run`, `snapshot`, `drain` and `Freshness` in
`netlink.rs`) beside the kernel, as a step system.

Every receive, lock and clock reading is a step of its own. Times are in milliseconds. -/
namespace Ubgp
namespace Netlink

structure Freshness where
  dirtySince : Option ℕ
  withdrawn : Bool

namespace Freshness

/-- Start the stale deadline without extending an already pending invalidation. -/
def invalidate (f : Freshness) (now : ℕ) : Freshness :=
  { f with dirtySince := some (f.dirtySince.getD now) }

/-- The pending invalidation has reached the stale limit. -/
def overdue (f : Freshness) (now limit : ℕ) : Bool :=
  !f.withdrawn && f.dirtySince.any (fun start => decide (limit ≤ now - start))

/-- Withdraw exports once the pending invalidation reaches the stale limit. -/
def expire (f : Freshness) (now limit : ℕ) (tx : Watch Exports) : Freshness × Watch Exports :=
  if f.overdue now limit then ({ f with withdrawn := true }, tx.sendReplace ∅) else (f, tx)

/-- Publish a complete export and clear staleness, unless concurrent changes need a refresh. -/
def publish (now : ℕ) (changed : Bool) (tx : Watch Exports) (exports : Exports) :
    Freshness × Watch Exports :=
  (⟨if changed then some now else none, false⟩,
    if tx.value ≠ exports then tx.sendReplace exports else tx)

end Freshness

/-- The locals of `snapshot`; `todo` are the dumps it has not requested yet. -/
structure Snap where
  result : Prefixes
  changed : Bool
  todo : List (Bool × UInt32)
  started : ℕ

/-- The dump in progress. -/
structure Current where
  key : Bool × UInt32
  sawRoute : Bool

/-- Where a drain goes on. -/
inductive Resume
  | head
  | dump (snap : Snap) (cur : Current)
  | final (snap : Snap)
  | after (changed : Bool) (exports : Exports)

/-- Where the worker stands. -/
inductive Pc
  | head
  | drain (rounds : ℕ) (ev : Events) (k : Resume)
  | assess (ev : Events)
  | invalidate (now : ℕ)
  | choose (now : ℕ)
  | request (snap : Snap)
  | check (snap : Snap) (cur : Current)
  | receive (rounds : ℕ) (snap : Snap) (cur : Current)
  | wait (snap : Snap) (cur : Current)
  | filter (result : Prefixes) (changed : Bool)
  | publish (changed : Bool) (exports : Exports)
  | settle (changed : Bool)
  | failed
  | poll
  | stopped

structure State where
  pc : Pc
  kernel : KernelState
  now : ℕ
  stop : Bool
  channel : Watch Exports
  freshness : Freshness
  dirty : Bool
  due : ℕ
  periodic : ℕ
  retries : ℕ
  seq : ℕ

/-- The worker at the top of its loop for the first time. -/
def init (e : Exports) (t : ℕ) (routes : Finset KernelRoute) : State where
  pc := .head
  kernel := ⟨routes, [], false, none, [], []⟩
  now := t
  stop := false
  channel := Watch.start e
  freshness := ⟨some t, false⟩
  dirty := true
  due := t
  periodic := t
  retries := 0
  seq := 0

/-- `alarm` is a receive of the worker that finds a change or a loss. -/
inductive Label
  | alarm
  | invalidate (now : ℕ)
  | began
  | publish (now : ℕ) (changed : Bool) (exports : Exports)
  | expire (now : ℕ)
  | tau

/-- How a system call of the worker turns out. -/
inductive Io
  | done
  | interrupted
  | error (consumed : Bool)

inductive Move
  | change (routes : Finset KernelRoute) (notice : Notice)
  | traffic (bytes : Bytes)
  | read (m : Message)
  | pack (bytes : Bytes)
  | tick (d : ℕ)
  | halt
  | expire
  | work (io : Io)

def drainRounds : ℕ := 128

namespace State
variable (cfg : Config) (s : State)

def startDrain (k : Resume) : State := { s with pc := .drain drainRounds Events.none k }

/-- The drain returns. -/
def resume (ev : Events) : Resume → State
  | .head => { s with pc := .assess ev }
  | .dump snap cur =>
    if ev.lost then { s with pc := .failed }
    else { s with
      pc := .receive drainRounds { snap with changed := snap.changed || ev.changed } cur }
  | .final snap =>
    if ev.lost then { s with pc := .failed }
    else { s with pc := .filter snap.result (snap.changed || ev.changed) }
  | .after changed exports =>
    if ev.lost then { s with pc := .head, due := s.now + cfg.kernel.refreshIntervalMs }
    else { s with pc := .publish (changed || ev.changed) exports }

/-- A receive that returns. An overrun is reported before the datagrams in the queue. -/
def drainReceive (rounds : ℕ) (ev : Events) (k : Resume) : Label × State :=
  if s.kernel.overrun then
    (.alarm, { s with kernel := { s.kernel with overrun := false } }.resume cfg
      { ev with lost := true } k)
  else
    match s.kernel.queue with
    | [] => (.tau, s.resume cfg ev k)
    | bytes :: queue =>
      (if alarming bytes then .alarm else .tau,
        if bytes = [] then
          { s with kernel := { s.kernel with queue } }.resume cfg (ev.absorb bytes) k
        else { s with
          kernel := { s.kernel with queue }
          pc := .drain rounds (ev.absorb bytes) k })

/-- One round of a drain; an error other than an overrun may consume a datagram. -/
def drainStep (rounds : ℕ) (ev : Events) (k : Resume) (io : Io) : Label × State :=
  match rounds, io with
  | 0, _ => (.tau, s.resume cfg ev k)
  | rounds + 1, .done => s.drainReceive cfg rounds ev k
  | rounds + 1, .interrupted => (.tau, { s with pc := .drain rounds ev k })
  | _ + 1, .error consumed =>
    (.alarm, { s with kernel := { s.kernel with
      queue := if consumed then s.kernel.queue.tail else s.kernel.queue } }.resume cfg
        { ev with lost := true } k)

/-- Read the clock; a change, a loss or the periodic deadline makes the state dirty. -/
def assess (ev : Events) : State :=
  if ev.changed || ev.lost || decide (s.periodic ≤ s.now) then
    { s with pc := .invalidate s.now, dirty := true }
  else { s with pc := .choose s.now }

/-- Open a dump socket and begin a snapshot when one is due. -/
def choose (now : ℕ) (io : Io) : Label × State :=
  if s.dirty && decide (s.due ≤ now) then
    match io with
    | .error _ => (.began, { s with pc := .failed })
    | _ => (.began, { s with
        pc := .request ⟨∅, false, requests cfg, s.now⟩
        kernel := s.kernel.openDump })
  else (.tau, { s with pc := .poll })

/-- Request the next dump under a new sequence number; after the last one, capture notifications
up to the publication. -/
def request (snap : Snap) (io : Io) : State :=
  match snap.todo with
  | [] => s.startDrain (.final snap)
  | key :: todo =>
    let seq := max ((s.seq + 1) % 2 ^ 32) 1
    match io with
    | .error _ => { s with seq, pc := .failed }
    | _ => { s with
        seq
        pc := .check { snap with todo } ⟨key, false⟩
        kernel := s.kernel.request key }

def checkDump (snap : Snap) (cur : Current) : State :=
  if s.stop || decide (cfg.kernel.dumpTimeoutSecs * 1000 ≤ s.now - snap.started) then
    { s with pc := .failed }
  else s.startDrain (.dump snap cur)

/-- One datagram of the dump socket. -/
def receiveDatagram (rounds : ℕ) (snap : Snap) (cur : Current) (bytes : Bytes) : State :=
  if bytes = [] then { s with pc := .failed }
  else
    match dumpDatagram cfg s.seq bytes ⟨snap.result, cur.sawRoute, false⟩ with
    | .error _ => { s with pc := .failed }
    | .ok dump =>
      if dump.done then { s with pc := .request { snap with result := dump.result } }
      else { s with
        pc := .receive rounds { snap with result := dump.result }
          { cur with sawRoute := dump.sawRoute } }

def receiveStep (rounds : ℕ) (snap : Snap) (cur : Current) (io : Io) : State :=
  match rounds, io with
  | 0, _ => { s with pc := .wait snap cur }
  | rounds + 1, .done =>
    match s.kernel.datagrams with
    | [] => { s with pc := .wait snap cur }
    | bytes :: datagrams =>
      { s with kernel := { s.kernel with datagrams } }.receiveDatagram cfg rounds snap cur bytes
  | rounds + 1, .interrupted => { s with pc := .receive rounds snap cur }
  | _ + 1, .error _ => { s with pc := .failed }

/-- Filter the snapshot, then drain once more; a missing ACL ends the worker. -/
def filterStep (result : Prefixes) (changed : Bool) : State :=
  match Netlink.filter cfg result with
  | .ok exports => s.startDrain (.after changed exports)
  | .error _ => { s with pc := .stopped }

def publish (changed : Bool) (exports : Exports) : Label × State :=
  let r := Freshness.publish s.now changed s.channel exports
  (.publish s.now changed exports,
    { s with pc := .settle changed, freshness := r.1, channel := r.2 })

/-- After a publication; an overflow of the periodic deadline ends the worker. -/
def settle (changed : Bool) : Io → State
  | .error _ => { s with pc := .stopped, retries := 0, dirty := changed }
  | _ => { s with
      pc := .poll
      retries := 0
      dirty := changed
      periodic := s.now + cfg.kernel.reconcileIntervalSecs * 1000
      due := s.now + cfg.kernel.refreshIntervalMs }

/-- After a failed snapshot: back off, never touching the stale deadline. -/
def backOff : State :=
  if s.stop then { s with pc := .stopped }
  else
    let retries := min (s.retries + 1) (2 ^ 32 - 1)
    { s with pc := .poll, retries, due := s.now + min (100 * 2 ^ min retries 5) 3000 }

/-- One step of the worker. -/
def work (io : Io) : Option (Label × State) :=
  match s.pc with
  | .head =>
    some (.tau, if s.stop then { s with pc := .stopped } else s.startDrain .head)
  | .drain rounds ev k => some (s.drainStep cfg rounds ev k io)
  | .assess ev => some (.tau, s.assess ev)
  | .invalidate now =>
    some (.invalidate now, { s with pc := .choose now, freshness := s.freshness.invalidate now })
  | .choose now => some (s.choose cfg now io)
  | .request snap => some (.tau, s.request snap io)
  | .check snap cur => some (.tau, s.checkDump cfg snap cur)
  | .receive rounds snap cur => some (.tau, s.receiveStep cfg rounds snap cur io)
  | .wait snap cur =>
    some (.tau, match io with
      | .error _ => { s with pc := .failed }
      | _ => { s with pc := .check snap cur })
  | .filter result changed => some (.tau, s.filterStep cfg result changed)
  | .publish changed exports => some (s.publish changed exports)
  | .settle changed => some (.tau, s.settle cfg changed io)
  | .failed => some (.tau, s.backOff)
  | .poll =>
    some (.tau, match io with
      | .error _ => { s with pc := .stopped }
      | _ => { s with pc := .head })
  | .stopped => none

end State

def limitMs (cfg : Config) : ℕ := cfg.kernel.staleTimeoutSecs * 1000

def step (cfg : Config) (s : State) : Move → Option (Label × State)
  | .change routes notice =>
    (s.kernel.change cfg routes notice).map (fun kernel => (.tau, { s with kernel }))
  | .traffic bytes => some (.tau, { s with kernel := s.kernel.traffic bytes })
  | .read m => (s.kernel.read m).map (fun kernel => (.tau, { s with kernel }))
  | .pack bytes => (s.kernel.pack bytes).map (fun kernel => (.tau, { s with kernel }))
  | .tick d => some (.tau, { s with now := s.now + d })
  | .halt => some (.tau, { s with stop := true })
  | .expire =>
    let r := s.freshness.expire s.now (limitMs cfg) s.channel
    some (.expire s.now, { s with freshness := r.1, channel := r.2 })
  | .work io => s.work cfg io

def Step (cfg : Config) (s : State) (a : Label) (t : State) : Prop :=
  ∃ m, step cfg s m = some (a, t)

/-! What one step can do. -/

/-- A step of the kernel. -/
inductive KernelState.Moves (cfg : Config) (k : KernelState) : KernelState → Prop
  | change {k' : KernelState} {routes : Finset KernelRoute} {notice : Notice}
      (h : k.change cfg routes notice = some k') : Moves cfg k k'
  | traffic {bytes : Bytes} : Moves cfg k (k.traffic bytes)
  | read {k' : KernelState} {m : Message} (h : k.read m = some k') : Moves cfg k k'
  | pack {k' : KernelState} {bytes : Bytes} (h : k.pack bytes = some k') : Moves cfg k k'

/-- The event socket holds something that will raise an alert. -/
def KernelState.alert (k : KernelState) : Bool := k.overrun || k.queue.any alarming

/-- The event socket after a receive. -/
def KernelState.withEvents (k : KernelState) (queue : List Bytes) (overrun : Bool) : KernelState :=
  { k with queue, overrun }

/-- One receive of a drain: quiet, or with an alert that is recorded. -/
inductive Drained (k : KernelState) (ev : Events) : Label → List Bytes → Bool → Events → Prop
  | quiet {queue : List Bytes} {ev' : Events} (hev : ev'.alert = ev.alert)
      (hq : (k.withEvents queue k.overrun).alert = k.alert) :
      Drained k ev .tau queue k.overrun ev'
  | alarm {queue : List Bytes} {overrun : Bool} {ev' : Events} (hev : ev'.alert = true) :
      Drained k ev .alarm queue overrun ev'

/-- Within a dump, outside its drain. -/
def Pc.dumping : Pc → Option (Snap × Current)
  | .check snap cur => some (snap, cur)
  | .receive _ snap cur => some (snap, cur)
  | .wait snap cur => some (snap, cur)
  | _ => none

/-- Within `snapshot`, outside its drains. -/
def Pc.snapping : Pc → Bool
  | .request _ => true
  | pc => pc.dumping.isSome

inductive Effect (cfg : Config) (s : State) : Label → State → Prop
  | kernel {kernel : KernelState} (hk : s.kernel.Moves cfg kernel) :
      Effect cfg s .tau { s with kernel }
  | ambient {now : ℕ} {stop : Bool} (hnow : s.now ≤ now) : Effect cfg s .tau { s with now, stop }
  | expire : Effect cfg s (.expire s.now) { s with
      freshness := (s.freshness.expire s.now (limitMs cfg) s.channel).1
      channel := (s.freshness.expire s.now (limitMs cfg) s.channel).2 }
  | stopped {t : State} (ht : t.pc = .stopped) (hf : t.freshness = s.freshness)
      (hc : t.channel = s.channel) : Effect cfg s .tau t
  | head (hpc : s.pc = .head) : Effect cfg s .tau (s.startDrain .head)
  | drained {rounds rounds' : ℕ} {ev ev' : Events} {k : Resume} {a : Label} {queue : List Bytes}
      {overrun : Bool} (hpc : s.pc = .drain rounds ev k)
      (hd : Drained s.kernel ev a queue overrun ev') :
      Effect cfg s a { s with
        kernel := s.kernel.withEvents queue overrun, pc := .drain rounds' ev' k }
  | resumed {rounds : ℕ} {ev ev' : Events} {k : Resume} {a : Label} {queue : List Bytes}
      {overrun : Bool} (hpc : s.pc = .drain rounds ev k)
      (hd : Drained s.kernel ev a queue overrun ev') :
      Effect cfg s a ({ s with kernel := s.kernel.withEvents queue overrun }.resume cfg ev' k)
  | soiled {ev : Events} (hpc : s.pc = .assess ev) :
      Effect cfg s .tau { s with pc := .invalidate s.now, dirty := true }
  | clean {ev : Events} (hpc : s.pc = .assess ev) (hev : ev.alert = false) :
      Effect cfg s .tau { s with pc := .choose s.now }
  | invalidate {now : ℕ} (hpc : s.pc = .invalidate now) :
      Effect cfg s (.invalidate now) { s with
        pc := .choose now, freshness := s.freshness.invalidate now }
  | began {now : ℕ} (hpc : s.pc = .choose now) (hd : s.dirty = true) :
      Effect cfg s .began { s with
        pc := .request ⟨∅, false, requests cfg, s.now⟩, kernel := s.kernel.openDump }
  | refused {now : ℕ} (hpc : s.pc = .choose now) (hd : s.dirty = true) :
      Effect cfg s .began { s with pc := .failed }
  | skipped {now : ℕ} (hpc : s.pc = .choose now) : Effect cfg s .tau { s with pc := .poll }
  | final {snap : Snap} (hpc : s.pc = .request snap) (hd : snap.todo = []) :
      Effect cfg s .tau (s.startDrain (.final snap))
  | request {snap : Snap} {key : Bool × UInt32} {todo : List (Bool × UInt32)} {seq : ℕ}
      (hpc : s.pc = .request snap) (hd : snap.todo = key :: todo) :
      Effect cfg s .tau { s with
        pc := .check { snap with todo } ⟨key, false⟩, seq, kernel := s.kernel.request key }
  | failed {datagrams : List Bytes} {seq : ℕ} (hpc : s.pc.snapping = true) :
      Effect cfg s .tau { s with kernel := { s.kernel with datagrams }, seq, pc := .failed }
  | check {snap : Snap} {cur : Current} (hpc : s.pc.dumping = some (snap, cur)) :
      Effect cfg s .tau (s.startDrain (.dump snap cur))
  | dumping {snap : Snap} {cur : Current} {pc : Pc} (hpc : s.pc.dumping = some (snap, cur))
      (ht : pc.dumping = some (snap, cur)) : Effect cfg s .tau { s with pc }
  | received {rounds : ℕ} {snap : Snap} {cur : Current} {bytes : Bytes} {datagrams : List Bytes}
      {dump : Dump} (hpc : s.pc.dumping = some (snap, cur))
      (hq : s.kernel.datagrams = bytes :: datagrams)
      (hr : dumpDatagram cfg s.seq bytes ⟨snap.result, cur.sawRoute, false⟩ = .ok dump)
      (hd : dump.done = false) :
      Effect cfg s .tau { s with
        kernel := { s.kernel with datagrams }
        pc := .receive rounds { snap with result := dump.result }
          { cur with sawRoute := dump.sawRoute } }
  | ended {snap : Snap} {cur : Current} {bytes : Bytes} {datagrams : List Bytes} {dump : Dump}
      (hpc : s.pc.dumping = some (snap, cur)) (hq : s.kernel.datagrams = bytes :: datagrams)
      (hr : dumpDatagram cfg s.seq bytes ⟨snap.result, cur.sawRoute, false⟩ = .ok dump)
      (hd : dump.done = true) :
      Effect cfg s .tau { s with
        kernel := { s.kernel with datagrams }
        pc := .request { snap with result := dump.result } }
  | filter {result : Prefixes} {changed : Bool} {exports : Exports}
      (hpc : s.pc = .filter result changed) (he : Netlink.filter cfg result = .ok exports) :
      Effect cfg s .tau (s.startDrain (.after changed exports))
  | publish {changed : Bool} {exports : Exports} (hpc : s.pc = .publish changed exports) :
      Effect cfg s (.publish s.now changed exports) { s with
        pc := .settle changed
        freshness := (Freshness.publish s.now changed s.channel exports).1
        channel := (Freshness.publish s.now changed s.channel exports).2 }
  | settle {changed : Bool} {periodic due : ℕ} (hpc : s.pc = .settle changed) :
      Effect cfg s .tau { s with pc := .poll, retries := 0, dirty := changed, periodic, due }
  | backOff {retries due : ℕ} (hpc : s.pc = .failed) :
      Effect cfg s .tau { s with pc := .poll, retries, due }
  | poll (hpc : s.pc = .poll) : Effect cfg s .tau { s with pc := .head }

variable {cfg : Config} {s t : State} {a : Label} {io : Io}

theorem drained_same (k : KernelState) (ev : Events) :
    Drained k ev .tau k.queue k.overrun ev := .quiet rfl rfl

theorem drained_datagram {k : KernelState} {bytes : Bytes} {queue : List Bytes} (ev : Events)
    (hq : k.queue = bytes :: queue) :
    Drained k ev (if alarming bytes then .alarm else .tau) queue k.overrun (ev.absorb bytes) := by
  have hev := absorb_alert ev bytes
  split
  · rename_i ha
    exact .alarm (by simp [hev, ha])
  · rename_i ha
    refine .quiet (by simp [hev, ha]) ?_
    simp [KernelState.alert, KernelState.withEvents, hq, ha]

theorem lost_alert (ev : Events) : ({ ev with lost := true } : Events).alert = true := by
  simp [Events.alert]

theorem drainReceive_effect {rounds rounds' : ℕ} {ev : Events} {k : Resume}
    (hpc : s.pc = .drain rounds ev k) (h : s.drainReceive cfg rounds' ev k = (a, t)) :
    Effect cfg s a t := by
  unfold State.drainReceive at h
  split at h
  · cases h
    have hd : Drained s.kernel ev .alarm s.kernel.queue false { ev with lost := true } :=
      .alarm (lost_alert ev)
    exact .resumed hpc hd
  · split at h
    · cases h
      exact .resumed hpc (drained_same _ _)
    · rename_i bytes queue hq
      have hd := drained_datagram ev hq
      cases h
      by_cases hb : bytes = []
      · rw [if_pos hb]
        exact .resumed hpc hd
      · rw [if_neg hb]
        exact .drained hpc hd

theorem drainStep_effect {rounds : ℕ} {ev : Events} {k : Resume} (hpc : s.pc = .drain rounds ev k)
    (h : s.drainStep cfg rounds ev k io = (a, t)) : Effect cfg s a t := by
  unfold State.drainStep at h
  split at h
  · cases h
    exact .resumed hpc (drained_same _ _)
  · exact drainReceive_effect hpc h
  · cases h
    exact .drained hpc (drained_same _ _)
  · cases h
    have hd : ∀ queue, Drained s.kernel ev .alarm queue s.kernel.overrun { ev with lost := true } :=
      fun _ => .alarm (lost_alert ev)
    exact .resumed hpc (hd _)

theorem receiveDatagram_effect {rounds : ℕ} {snap : Snap} {cur : Current} {bytes : Bytes}
    {datagrams : List Bytes} (hpc : s.pc.dumping = some (snap, cur))
    (hq : s.kernel.datagrams = bytes :: datagrams) :
    Effect cfg s .tau ({ s with kernel := { s.kernel with datagrams } }.receiveDatagram cfg rounds
      snap cur bytes) := by
  have hfailed : Effect cfg s .tau
      { s with kernel := { s.kernel with datagrams }, pc := .failed } :=
    .failed (by cases hp : s.pc <;> simp_all [Pc.snapping, Pc.dumping])
  unfold State.receiveDatagram
  split
  · exact hfailed
  · split
    · exact hfailed
    · rename_i dump hr
      split
      · rename_i hd
        exact .ended hpc hq hr hd
      · rename_i hd
        exact .received hpc hq hr (by simpa using hd)

theorem receiveStep_effect {rounds : ℕ} {snap : Snap} {cur : Current}
    (hpc : s.pc = .receive rounds snap cur) :
    Effect cfg s .tau (s.receiveStep cfg rounds snap cur io) := by
  have hd : s.pc.dumping = some (snap, cur) := by rw [hpc]; rfl
  have hwait : Effect cfg s .tau { s with pc := .wait snap cur } := .dumping hd rfl
  unfold State.receiveStep
  split
  · exact hwait
  · split
    · exact hwait
    · rename_i hq
      exact receiveDatagram_effect hd hq
  · exact .dumping hd rfl
  · exact .failed (by rw [hpc]; rfl)

theorem choose_effect {now : ℕ} (hpc : s.pc = .choose now) (h : s.choose cfg now io = (a, t)) :
    Effect cfg s a t := by
  unfold State.choose at h
  split at h
  · rename_i hd
    rw [Bool.and_eq_true] at hd
    cases io with
    | error consumed =>
      cases h
      exact .refused hpc hd.1
    | done | interrupted =>
      cases h
      exact .began hpc hd.1
  · cases h
    exact .skipped hpc

theorem request_effect {snap : Snap} (hpc : s.pc = .request snap) :
    Effect cfg s .tau (s.request snap io) := by
  unfold State.request
  split
  · rename_i hd
    exact .final hpc hd
  · rename_i hd
    split
    · exact .failed (by rw [hpc]; rfl)
    · exact .request hpc hd

theorem work_effect (h : s.work cfg io = some (a, t)) : Effect cfg s a t := by
  unfold State.work at h
  split at h
  case h_1 hpc =>
    cases h
    split
    · exact .stopped rfl rfl rfl
    · exact .head hpc
  case h_2 hpc => exact drainStep_effect hpc (Option.some.inj h)
  case h_3 hpc =>
    cases h
    unfold State.assess
    split
    · exact .soiled hpc
    · rename_i hev
      refine .clean hpc ?_
      simp only [Bool.or_eq_true, not_or, Bool.not_eq_true] at hev
      rw [Events.alert, hev.1.1, hev.1.2]
      rfl
  case h_4 hpc =>
    cases h
    exact .invalidate hpc
  case h_5 hpc => exact choose_effect hpc (Option.some.inj h)
  case h_6 hpc =>
    cases h
    exact request_effect hpc
  case h_7 hpc =>
    cases h
    unfold State.checkDump
    split
    · exact .failed (by rw [hpc]; rfl)
    · exact .check (by rw [hpc]; rfl)
  case h_8 hpc =>
    cases h
    exact receiveStep_effect hpc
  case h_9 snap cur hpc =>
    cases h
    split
    · exact .failed (by rw [hpc]; rfl)
    · have hd : s.pc.dumping = some (snap, cur) := by rw [hpc]; rfl
      exact .dumping hd rfl
  case h_10 hpc =>
    cases h
    unfold State.filterStep
    split
    · rename_i he
      exact .filter hpc he
    · exact .stopped rfl rfl rfl
  case h_11 hpc =>
    cases h
    exact .publish hpc
  case h_12 hpc =>
    cases h
    cases io with
    | error consumed => exact .stopped rfl rfl rfl
    | done | interrupted => exact .settle hpc
  case h_13 hpc =>
    cases h
    unfold State.backOff
    split
    · exact .stopped rfl rfl rfl
    · exact .backOff hpc
  case h_14 hpc =>
    cases h
    split
    · exact .stopped rfl rfl rfl
    · exact .poll hpc
  case h_15 => cases h

/-- Every step is one of the listed effects. -/
theorem Step.effect (h : Step cfg s a t) : Effect cfg s a t := by
  obtain ⟨m, h⟩ := h
  cases m with
  | change routes notice =>
    simp only [step, Option.map_eq_some_iff, Prod.mk.injEq] at h
    obtain ⟨kernel, hk, rfl, rfl⟩ := h
    exact .kernel (.change hk)
  | traffic bytes =>
    cases h
    exact .kernel .traffic
  | read m =>
    simp only [step, Option.map_eq_some_iff, Prod.mk.injEq] at h
    obtain ⟨kernel, hk, rfl, rfl⟩ := h
    exact .kernel (.read hk)
  | pack bytes =>
    simp only [step, Option.map_eq_some_iff, Prod.mk.injEq] at h
    obtain ⟨kernel, hk, rfl, rfl⟩ := h
    exact .kernel (.pack hk)
  | tick d =>
    cases h
    exact .ambient (Nat.le_add_right _ _)
  | halt =>
    cases h
    exact .ambient (Nat.le_refl _)
  | expire =>
    cases h
    exact .expire
  | work io => exact work_effect h

end Netlink
end Ubgp
