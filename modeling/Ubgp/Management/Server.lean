import Ubgp.Bgp.Plan
import Ubgp.Lib.Trace
import Ubgp.Management.Display
import Ubgp.Management.Status

/-! The management console as a whole (`run` and `console` in `management.rs`): the clients it
serves, beside the tasks that change the status records and the exports under it.

A client that fails in whatever way is gone; its timeouts may come at any time. -/
namespace Ubgp
namespace Console
open Listeners (PeerStatus)
open Terminal (Clean clean_of_isClean)

/-- The states that status records are set to. -/
def stateNames : List String := ["Idle", "Connect", "Active", "OpenConfirm", "Established"]

/-- What other tasks change; times are in milliseconds. -/
structure World where
  statuses : List PeerStatus
  exports : Exports
  now : ℕ

inductive Chunk
  | text (s : String)
  | telnet (reply : Bytes)
deriving DecidableEq

/-- What is left of a response. A line about a peer is made when it is its turn, and the lines about
the ACLs of a summary when the text before them is written. -/
inductive Act
  | write (c : Chunk)
  | peer (q : ℕ)
  | candidates

def say (s : String) : Act := .write (.text s)

/-- One call of `console`. `ending` tells that its last response is that to `quit`. -/
structure Client where
  id : ℕ
  remote : IpAddr
  acts : List Act
  ending : Bool
  line : Line
  skipLf : Bool
  done : Bool

def Client.start (id : ℕ) (remote : IpAddr) : Client :=
  ⟨id, remote, [say greeting], false, .init, false, false⟩

variable (cfg : Config) (parse : String → Option IpNet) (w : World)

/-- The parsed filter, unless it is invalid. -/
def filter : Option String → Option (Option IpNet)
  | none => some none
  | some net => (parse net).map some

/-- At most this many routes are listed. -/
def maxRoutes : ℕ := 100

/-- The routes to list, in some iteration order of the set. -/
def selected (routes : Prefixes) (order : List IpNet) : Option IpNet → List IpNet
  | some net => if net ∈ routes then [net] else []
  | none => order.take maxRoutes

def listing (routes : Prefixes) (order : List IpNet) (net : Option IpNet) : List Act :=
  let selected := selected routes order net
  say routesHeader :: selected.map (fun r => say (routeText r)) ++
    [say (routesTrailer selected.length routes.card)]

/-- `show routes`. -/
def showRoutes (order : List IpNet) (acl : String) (net : Option String) : Option (List Act) :=
  match filter parse net with
  | none => some [say "Invalid prefix\r\nubgp> "]
  | some net =>
    if acl ∈ cfg.acls then
      match w.exports.lookup acl with
      | some routes =>
        if Enumerates order routes then some (listing routes order net ++ [say prompt]) else none
      | none => some [say "No export candidates available\r\n", say prompt]
    else some [say "Unknown ACL; use show summary\r\n", say prompt]

/-- The response to a command. -/
def respond (order : List IpNet) : Command → Option (List Act)
  | .quit => some [say "Bye\r\n"]
  | .nothing => some [say prompt]
  | .help => some [say HELP, say prompt]
  | .summary => some [say (summaryText cfg w.statuses), .candidates, say prompt]
  | .peers => some (say peersHeader ::
      (List.range (min cfg.peers.length w.statuses.length)).map Act.peer ++ [say prompt])
  | .routes acl net => showRoutes cfg parse w order acl net
  | .unknown => some [say "Unknown command; type help\r\n", say prompt]

/-- The lines about the ACLs of one snapshot. -/
def candidateLines : List Act :=
  cfg.acls.keys.map (fun name => say (aclText name ((w.exports.lookup name).elim 0 Finset.card)))

namespace Client
variable (c : Client)

/-- Go on with the response. -/
def perform : Option (Option Chunk × Client) :=
  match c.acts with
  | [] => none
  | .write chunk :: acts => some (some chunk, { c with acts })
  | .peer q :: acts =>
    match cfg.peers[q]?, w.statuses[q]? with
    | some p, some status => some (some (.text (peerText p status w.now)), { c with acts })
    | _, _ => some (none, { c with acts })
  | .candidates :: acts => some (none, { c with acts := candidateLines cfg w ++ acts })

/-- Read a byte, once the response is written. A command is answered with what the world is then. -/
def read (b : UInt8) (order : List IpNet) : Option (Option String × Client) :=
  if c.acts ≠ [] ∨ c.ending then none
  else if c.skipLf ∧ (b = 10 ∨ b = 0) then some (none, { c with skipLf := false })
  else
    match c.line.byte b with
    | .go line reply => some (none, { c with
        line
        skipLf := false
        acts := if reply = [] then [] else [.write (.telnet reply)] })
    | .returned l skipLf => do
      let acts ← respond cfg parse w order (command l)
      return (some l, { c with
        line := .init
        skipLf
        acts
        ending := decide (command l = .quit) })
    | .failed _ => some (none, { c with skipLf := false, done := true })

end Client

/-- `served` counts the clients so far. -/
structure Server where
  clients : List Client
  served : ℕ
  world : World

/-- `JoinSet` holds this many clients at most. -/
def maxClients : ℕ := 16

inductive Label
  | accepted (id : ℕ) (remote : IpAddr)
  | refused (remote : IpAddr)
  | wrote (id : ℕ) (c : Chunk)
  | read (id : ℕ) (b : UInt8) (line : Option String)
  | tau
deriving DecidableEq

inductive Move
  | update (q : ℕ) (state : String) (error : Option String)
  | publish (e : Exports)
  | tick (d : ℕ)
  | accept (remote : IpAddr)
  | perform (i : ℕ)
  | read (i : ℕ) (b : UInt8) (order : List IpNet)
  | leave (i : ℕ)
  | join (i : ℕ)

namespace Server
variable (s : Server)

def setClient (i : ℕ) (c : Client) : Server := { s with clients := s.clients.set i c }

/-- A client that is still served. -/
def serving (i : ℕ) : Option Client := s.clients[i]?.filter (fun c => !c.done)

end Server

def Server.init (statuses : List PeerStatus) (e : Exports) (now : ℕ) : Server :=
  ⟨[], 0, ⟨statuses, e, now⟩⟩

def step (s : Server) : Move → Option (Label × Server)
  | .update q state error => do
    let status ← s.world.statuses[q]?
    if state ∈ stateNames then
      return (.tau, { s with world := { s.world with
        statuses := s.world.statuses.set q (status.update s.world.now state error) } })
    else none
  | .publish e => some (.tau, { s with world := { s.world with exports := e } })
  | .tick d => some (.tau, { s with world := { s.world with now := s.world.now + d } })
  | .accept remote =>
    if !cfg.management.enabled then none
    else if !remote.isLoopback || decide (maxClients ≤ s.clients.length) then
      some (.refused remote, s)
    else some (.accepted s.served remote, { s with
      clients := s.clients ++ [.start s.served remote], served := s.served + 1 })
  | .perform i => do
    let c ← s.serving i
    let (chunk, c') ← c.perform cfg s.world
    return (chunk.elim .tau (.wrote c.id), s.setClient i c')
  | .read i b order => do
    let c ← s.serving i
    let (line, c') ← c.read cfg parse s.world b order
    return (.read c.id b line, s.setClient i c')
  | .leave i => do
    let c ← s.serving i
    return (.tau, s.setClient i { c with done := true })
  | .join i => do
    let c ← s.clients[i]?
    if c.done then return (.tau, { s with clients := s.clients.eraseIdx i }) else none

def Step (s : Server) (a : Label) (t : Server) : Prop := ∃ m, step cfg parse s m = some (a, t)

/-! What is written. -/

/-- Text for a terminal, or the refusal of a Telnet option. -/
def Chunk.Safe : Chunk → Prop
  | .text s => Clean s.toList
  | .telnet reply => ∃ b, reply = [255, 254, b] ∨ reply = [255, 252, b]

def Act.Safe : Act → Prop
  | .write c => c.Safe
  | _ => True

variable {cfg parse w} {s t : Server} {a : Label} {c c' : Client} {order : List IpNet}

theorem clean_stateName {state : String} (h : state ∈ stateNames) : Clean state.toList := by
  revert state
  simp only [stateNames, List.forall_mem_cons, List.not_mem_nil, false_imp_iff, implies_true,
    and_true]
  exact ⟨clean_of_isClean rfl, clean_of_isClean rfl, clean_of_isClean rfl, clean_of_isClean rfl,
    clean_of_isClean rfl⟩

theorem forall_safe_cons {s : String} {acts : List Act} (h : Clean s.toList)
    (hacts : ∀ a ∈ acts, a.Safe) : ∀ a ∈ say s :: acts, a.Safe :=
  List.forall_mem_cons.mpr ⟨h, hacts⟩

theorem forall_safe_append {acts acts' : List Act} (h : ∀ a ∈ acts, a.Safe)
    (h' : ∀ a ∈ acts', a.Safe) : ∀ a ∈ acts ++ acts', a.Safe := fun a ha =>
  (List.mem_append.mp ha).elim (h a) (h' a)

theorem safe_prompt : ∀ a ∈ [say prompt], a.Safe := forall_safe_cons clean_prompt (by simp)

theorem safe_listing (routes : Prefixes) (order : List IpNet) (net : Option IpNet) :
    ∀ a ∈ listing routes order net, a.Safe := by
  refine forall_safe_append (forall_safe_cons clean_routesHeader ?_)
    (forall_safe_cons (clean_routesTrailer _ _) (by simp))
  intro a ha
  obtain ⟨r, -, rfl⟩ := List.mem_map.mp ha
  exact clean_routeText r

theorem safe_showRoutes {acl : String} {net : Option String} {acts : List Act}
    (h : showRoutes cfg parse w order acl net = some acts) : ∀ a ∈ acts, a.Safe := by
  unfold showRoutes at h
  split at h
  · cases h
    exact forall_safe_cons (clean_of_isClean rfl) (by simp)
  · split at h
    · split at h
      · split at h
        · cases h
          exact forall_safe_append (safe_listing _ _ _) safe_prompt
        · cases h
      · cases h
        exact forall_safe_cons (clean_of_isClean rfl) safe_prompt
    · cases h
      exact forall_safe_cons (clean_of_isClean rfl) safe_prompt

theorem safe_respond {k : Command} {acts : List Act}
    (h : respond cfg parse w order k = some acts) : ∀ a ∈ acts, a.Safe := by
  cases k with
  | quit =>
    cases h
    exact forall_safe_cons (clean_of_isClean rfl) (by simp)
  | nothing =>
    cases h
    exact safe_prompt
  | help =>
    cases h
    exact forall_safe_cons clean_HELP safe_prompt
  | summary =>
    cases h
    exact forall_safe_cons (clean_summaryText _ _)
      (List.forall_mem_cons.mpr ⟨trivial, safe_prompt⟩)
  | peers =>
    cases h
    refine forall_safe_append (forall_safe_cons clean_peersHeader ?_) safe_prompt
    intro a ha
    obtain ⟨q, -, rfl⟩ := List.mem_map.mp ha
    trivial
  | routes acl net => exact safe_showRoutes h
  | unknown =>
    cases h
    exact forall_safe_cons (clean_of_isClean rfl) safe_prompt

theorem safe_candidateLines : ∀ a ∈ candidateLines cfg w, a.Safe := by
  intro a ha
  obtain ⟨name, -, rfl⟩ := List.mem_map.mp ha
  exact clean_aclText _ _

theorem answer_safe (command b : UInt8) :
    Line.answer command b = [] ∨ (Chunk.telnet (Line.answer command b)).Safe := by
  unfold Line.answer
  by_cases h₁ : command = 251
  · subst h₁
    exact Or.inr ⟨b, Or.inl rfl⟩
  · by_cases h₂ : command = 253
    · subst h₂
      exact Or.inr ⟨b, Or.inr rfl⟩
    · simp [h₁, h₂]

theorem fromUtf8_reply {bytes reply : Bytes} {skipLf : Bool} {l : Line} :
    fromUtf8 bytes skipLf ≠ .go l reply := by
  unfold fromUtf8
  split <;> simp

theorem text_reply {l l' : Line} {b : UInt8} {reply : Bytes} (h : l.text b = .go l' reply) :
    reply = [] := by
  simp only [Line.text] at h
  repeat' split at h
  all_goals first | exact absurd h fromUtf8_reply | cases h <;> rfl

/-- Every reply of `line` is a refusal. -/
theorem byte_reply {l l' : Line} {b : UInt8} {reply : Bytes} (h : l.byte b = .go l' reply) :
    reply = [] ∨ (Chunk.telnet reply).Safe := by
  simp only [Line.byte] at h
  split at h
  · cases h
  · unfold Line.advance at h
    split at h
    case h_1 =>
      left
      split at h
      · cases h
        rfl
      · split at h <;> cases h <;> rfl
    case h_2 =>
      cases h
      exact answer_safe _ _
    case h_3 =>
      left
      split at h <;> cases h <;> rfl
    case h_4 =>
      cases h
      exact Or.inl rfl
    case h_5 => exact Or.inl (text_reply h)

/-- The console serves few local clients, and will write safe texts only. -/
structure Guarded (s : Server) : Prop where
  bound : s.clients.length ≤ maxClients
  loopback : ∀ c ∈ s.clients, c.remote.isLoopback = true
  acts : ∀ c ∈ s.clients, ∀ a ∈ c.acts, a.Safe
  states : ∀ status ∈ s.world.statuses, status.state ∈ stateNames

theorem perform_safe {chunk : Option Chunk}
    (hw : ∀ status ∈ w.statuses, status.state ∈ stateNames) (hc : ∀ a ∈ c.acts, a.Safe)
    (h : c.perform cfg w = some (chunk, c')) :
    (∀ x, chunk = some x → x.Safe) ∧ (∀ a ∈ c'.acts, a.Safe) ∧ c'.remote = c.remote := by
  unfold Client.perform at h
  split at h
  case h_1 => cases h
  case h_2 hacts =>
    cases h
    rw [hacts, List.forall_mem_cons] at hc
    refine ⟨?_, hc.2, rfl⟩
    rintro x ⟨⟩
    exact hc.1
  case h_3 hacts =>
    rw [hacts, List.forall_mem_cons] at hc
    split at h
    · rename_i status _ hstatus
      cases h
      refine ⟨?_, hc.2, rfl⟩
      rintro x ⟨⟩
      exact clean_peerText _ (clean_stateName (hw _ (List.mem_of_getElem? hstatus))) _
    · cases h
      exact ⟨by simp, hc.2, rfl⟩
  case h_4 hacts =>
    cases h
    rw [hacts, List.forall_mem_cons] at hc
    exact ⟨by simp, forall_safe_append safe_candidateLines hc.2, rfl⟩

theorem read_safe {b : UInt8} {l : Option String}
    (h : c.read cfg parse w b order = some (l, c')) :
    (∀ a ∈ c'.acts, a.Safe) ∧ c'.remote = c.remote := by
  unfold Client.read at h
  split at h
  · cases h
  · rename_i hidle
    have hacts : c.acts = [] := by
      by_contra hne
      exact hidle (Or.inl hne)
    split at h
    · cases h
      exact ⟨by simp [hacts], rfl⟩
    · split at h
      · rename_i hbyte
        cases h
        refine ⟨?_, rfl⟩
        split
        · simp
        · rename_i hreply
          exact List.forall_mem_singleton.mpr ((byte_reply hbyte).resolve_left hreply)
      · simp only [Option.bind_eq_bind, Option.bind_eq_some_iff, Option.pure_def,
          Option.some.injEq, Prod.mk.injEq] at h
        obtain ⟨acts, hrespond, rfl, rfl⟩ := h
        exact ⟨safe_respond hrespond, rfl⟩
      · cases h
        exact ⟨by simp [hacts], rfl⟩

/-- What a step may write. -/
def Label.Safe : Label → Prop
  | .wrote _ c => c.Safe
  | _ => True

theorem serving_mem {i : ℕ} (h : s.serving i = some c) : c ∈ s.clients := by
  obtain ⟨hget, -⟩ := Option.filter_eq_some_iff.mp h
  exact List.mem_of_getElem? hget

/-- One client goes on. -/
theorem Guarded.setClient (h : Guarded s) {i : ℕ} (hc : c ∈ s.clients)
    (hremote : c'.remote = c.remote) (hacts : ∀ a ∈ c'.acts, a.Safe) :
    Guarded (s.setClient i c') where
  bound := by
    rw [Server.setClient, List.length_set]
    exact h.bound
  loopback := fun d hd => by
    rcases List.mem_or_eq_of_mem_set hd with hd | rfl
    · exact h.loopback d hd
    · rw [hremote]
      exact h.loopback c hc
  acts := fun d hd => by
    rcases List.mem_or_eq_of_mem_set hd with hd | rfl
    · exact h.acts d hd
    · exact hacts
  states := h.states

theorem Guarded.step (h : Guarded s) (ha : Step cfg parse s a t) : a.Safe ∧ Guarded t := by
  obtain ⟨m, ha⟩ := ha
  cases m with
  | update q state error =>
    simp only [Console.step, Option.bind_eq_bind, Option.bind_eq_some_iff] at ha
    obtain ⟨status, -, ha⟩ := ha
    split at ha
    · rename_i hstate
      cases ha
      refine ⟨trivial, h.bound, h.loopback, h.acts, fun x hx => ?_⟩
      rcases List.mem_or_eq_of_mem_set hx with hx | rfl
      · exact h.states x hx
      · exact hstate
    · cases ha
  | publish e =>
    cases ha
    exact ⟨trivial, h.bound, h.loopback, h.acts, h.states⟩
  | tick d =>
    cases ha
    exact ⟨trivial, h.bound, h.loopback, h.acts, h.states⟩
  | accept remote =>
    simp only [Console.step, Option.ite_none_left_eq_some] at ha
    obtain ⟨-, ha⟩ := ha
    split at ha
    · cases ha
      exact ⟨trivial, h⟩
    · rename_i hok
      simp only [Bool.or_eq_true, Bool.not_eq_true', decide_eq_true_eq, not_or,
        Bool.not_eq_false, Nat.not_le] at hok
      cases ha
      refine ⟨trivial, ?_, ?_, ?_, h.states⟩
      · rw [List.length_append]
        exact hok.2
      · intro c hc
        rcases List.mem_append.mp hc with hc | hc
        · exact h.loopback c hc
        · rw [List.mem_singleton.mp hc]
          exact hok.1
      · intro c hc
        rcases List.mem_append.mp hc with hc | hc
        · exact h.acts c hc
        · rw [List.mem_singleton.mp hc]
          exact forall_safe_cons clean_greeting (by simp)
  | perform i =>
    simp only [Console.step, Option.bind_eq_bind, Option.bind_eq_some_iff, Option.pure_def,
      Option.some.injEq, Prod.exists, Prod.mk.injEq] at ha
    obtain ⟨c, hc, chunk, c', hperform, rfl, rfl⟩ := ha
    obtain ⟨hchunk, hacts, hremote⟩ :=
      perform_safe h.states (h.acts c (serving_mem hc)) hperform
    refine ⟨?_, h.setClient (serving_mem hc) hremote hacts⟩
    cases chunk with
    | none => trivial
    | some x => exact hchunk x rfl
  | read i b order =>
    simp only [Console.step, Option.bind_eq_bind, Option.bind_eq_some_iff, Option.pure_def,
      Option.some.injEq, Prod.exists, Prod.mk.injEq] at ha
    obtain ⟨c, hc, l, c', hread, rfl, rfl⟩ := ha
    obtain ⟨hacts, hremote⟩ := read_safe hread
    exact ⟨trivial, h.setClient (serving_mem hc) hremote hacts⟩
  | leave i =>
    simp only [Console.step, Option.bind_eq_bind, Option.bind_eq_some_iff, Option.pure_def,
      Option.some.injEq, Prod.mk.injEq] at ha
    obtain ⟨c, hc, rfl, rfl⟩ := ha
    exact ⟨trivial, h.setClient (serving_mem hc) rfl (h.acts c (serving_mem hc))⟩
  | join i =>
    simp only [Console.step, Option.bind_eq_bind, Option.bind_eq_some_iff] at ha
    obtain ⟨c, -, ha⟩ := ha
    split at ha
    · cases ha
      have hsub := List.eraseIdx_sublist s.clients i
      exact ⟨trivial, hsub.length_le.trans h.bound, fun c hc => h.loopback c (hsub.subset hc),
        fun c hc => h.acts c (hsub.subset hc), h.states⟩
    · cases ha

/-- In every run of the console, with any configuration and whatever is typed, published and
reported to it: it serves at most 16 clients, all of them local, and everything it writes to them is
printable text in lines or the refusal of a Telnet option. -/
theorem output_safe {clock : ℕ → ℕ} {e : Exports} {t₀ : ℕ} {xs : List Label}
    (h : Lts.Trace (Step cfg parse) (Server.init (Listeners.statuses clock cfg) e t₀) xs s) :
    (∀ id c, .wrote id c ∈ xs → c.Safe) ∧ s.clients.length ≤ maxClients ∧
      ∀ c ∈ s.clients, c.remote.isLoopback = true := by
  have hall : (∀ a ∈ xs, a.Safe) ∧ Guarded s := by
    refine h.history (P := fun xs s => (∀ a ∈ xs, a.Safe) ∧ Guarded s) ⟨by simp, ?_⟩ ?_
    · refine ⟨Nat.zero_le _, by simp [Server.init], by simp [Server.init], ?_⟩
      intro status hstatus
      obtain ⟨i, _, rfl⟩ := List.mem_mapIdx.mp hstatus
      exact List.mem_cons_self
    · rintro xs s a t ⟨hsafe, hs⟩ ha
      obtain ⟨hlabel, ht⟩ := hs.step ha
      refine ⟨fun b hb => ?_, ht⟩
      rcases List.mem_append.mp hb with hb | hb
      · exact hsafe b hb
      · rw [List.mem_singleton.mp hb]
        exact hlabel
  exact ⟨fun id c hc => hall.1 _ hc, hall.2.bound, hall.2.loopback⟩

/-- A record gets an error with an escape character; a client asks for an option and the peers. -/
def peersMoves : List Move :=
  [.update 0 "Active" (some (String.ofList [Char.ofNat 27, 'c'])), .accept (.v4 0x7f000001#32),
    .perform 0, .read 0 255 [], .read 0 253 [], .read 0 1 [], .perform 0] ++
    ("show peers".toList.map (fun c => .read 0 c.toUInt8 [])) ++ [.read 0 13 [], .perform 0,
    .perform 0]

theorem peersMoves_exec :
    (Lts.exec (step exampleConfig (fun _ => none)) peersMoves
      (Server.init (Listeners.statuses (fun _ => 0) exampleConfig) ∅ 0)).map
      (fun r => r.1.getLast?) =
      some (some (.wrote 0 (.text "192.0.2.2 / eth0  64513  Active  0  false  ?c\r\n"))) := by
  decide +kernel

theorem example_output_safe : ∃ xs s,
    Lts.Trace (Step exampleConfig (fun _ => none))
      (Server.init (Listeners.statuses (fun _ => 0) exampleConfig) ∅ 0) xs s ∧
      (Chunk.text "192.0.2.2 / eth0  64513  Active  0  false  ?c\r\n").Safe := by
  obtain ⟨⟨xs, s⟩, hr, he⟩ := Option.map_eq_some_iff.mp peersMoves_exec
  have htrace := Lts.exec_trace hr
  obtain ⟨hsafe, -⟩ := output_safe htrace
  exact ⟨xs, s, htrace, hsafe 0 _ (List.mem_of_getLast? he)⟩

/-! What is not written. -/

/-- What may be known of a key: that there is one, and that its length is valid. -/
def mark (key : String) : String := if Config.md5Ok key then "<redacted>" else ""

def withoutKey (p : Peer) : Peer := { p with md5Password := p.md5Password.map mark }

/-- The configuration without its keys. -/
def redacted (cfg : Config) : Config := { cfg with peers := cfg.peers.map withoutKey }

theorem md5Ok_mark (key : String) : Config.md5Ok (mark key) = Config.md5Ok key := by
  unfold mark
  split
  · rename_i h
    rw [h]
    rfl
  · rename_i h
    rw [Bool.not_eq_true] at h
    rw [h]
    rfl

theorem checkPeer_redacted (es : List (IpAddr × IpAddr × String)) (p : Peer) :
    (redacted cfg).checkPeer es (withoutKey p) = cfg.checkPeer es p := by
  have hmd5 : (p.md5Password.map mark).all Config.md5Ok = p.md5Password.all Config.md5Ok := by
    cases p.md5Password with
    | none => rfl
    | some key => exact md5Ok_mark key
  unfold Config.checkPeer
  rw [show (withoutKey p).md5Password.all Config.md5Ok = _ from hmd5]
  rfl

theorem validate_redacted : (redacted cfg).validate = cfg.validate := by
  have hpeers : (redacted cfg).peers.foldlM (redacted cfg).checkPeer [] =
      cfg.peers.foldlM cfg.checkPeer [] := by
    rw [redacted, List.foldlM_map]
    congr
    funext es p
    exact checkPeer_redacted es p
  have hempty : (redacted cfg).peers.isEmpty = cfg.peers.isEmpty := by simp [redacted]
  unfold Config.validate
  rw [hpeers, hempty]
  rfl

theorem perform_redacted (c : Client) :
    c.perform (redacted cfg) w = c.perform cfg w := by
  unfold Client.perform
  split
  case h_3 q acts hacts =>
    rw [show (redacted cfg).peers[q]? = _ from List.getElem?_map]
    cases cfg.peers[q]? with
    | none => rfl
    | some p =>
      cases w.statuses[q]? with
      | none => rfl
      | some status => simp [peerText, withoutKey]
  all_goals rfl

theorem respond_redacted (k : Command) :
    respond (redacted cfg) parse w order k = respond cfg parse w order k := by
  cases k with
  | summary => simp [respond, summaryText, redacted]
  | peers => simp [respond, redacted]
  | _ => rfl

theorem step_redacted : step (redacted cfg) parse = step cfg parse := by
  funext s m
  cases m with
  | perform i => simp only [step, perform_redacted]
  | read i b order =>
    have hread : ∀ c : Client, c.read (redacted cfg) parse s.world b order =
        c.read cfg parse s.world b order := by
      intro c
      simp only [Client.read, respond_redacted]
    simp only [step, hread]
  | _ => rfl

/-- Of the keys, neither the validation nor the console tells more than which peers have one and
whether its length is valid: configurations that agree otherwise are accepted alike or rejected with
the same error, and the console has the same runs with the same texts. -/
theorem secrets_hidden {cfg' : Config} (hcfg : redacted cfg = redacted cfg') {xs : List Label} :
    cfg.validate = cfg'.validate ∧
      (Lts.Trace (Step cfg parse) s xs t ↔ Lts.Trace (Step cfg' parse) s xs t) := by
  have hstep : Step cfg parse = Step cfg' parse := by
    funext s a t
    simp only [Step]
    rw [← step_redacted, hcfg, step_redacted]
  refine ⟨?_, by rw [hstep]⟩
  rw [← validate_redacted, hcfg, validate_redacted]

/-- The example with a key. -/
def keyedConfig (key : String) : Config :=
  { exampleConfig with peers := [{ examplePeer with md5Password := some key }] }

theorem keyed_peersMoves_exec :
    (Lts.exec (step (keyedConfig "one") (fun _ => none)) peersMoves
      (Server.init (Listeners.statuses (fun _ => 0) (keyedConfig "one")) ∅ 0)).map
      (fun r => r.1.getLast?) =
      some (some (.wrote 0 (.text "192.0.2.2 / eth0  64513  Active  0  true  ?c\r\n"))) := by
  decide +kernel

theorem example_secrets_hidden : ∃ xs s,
    Lts.Trace (Step (keyedConfig "two") (fun _ => none))
      (Server.init (Listeners.statuses (fun _ => 0) (keyedConfig "two")) ∅ 0) xs s ∧
      .wrote 0 (.text "192.0.2.2 / eth0  64513  Active  0  true  ?c\r\n") ∈ xs := by
  have hcfg : redacted (keyedConfig "one") = redacted (keyedConfig "two") := rfl
  obtain ⟨⟨xs, s⟩, hr, he⟩ := Option.map_eq_some_iff.mp keyed_peersMoves_exec
  have htrace : Lts.Trace (Step (keyedConfig "one") (fun _ => none))
      (Server.init (Listeners.statuses (fun _ => 0) (keyedConfig "two")) ∅ 0) xs s :=
    Lts.exec_trace hr
  exact ⟨xs, s, (secrets_hidden hcfg).2.mp htrace, List.mem_of_getLast? he⟩

end Console
end Ubgp
