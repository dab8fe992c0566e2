import Ubgp.Wire.Negotiation

/-! Connection selection: the collision preference and the `choose` loop (`bgp.rs`). -/
namespace Ubgp

/-- An OPEN-confirmed connection; `Conn` stands for the TCP stream itself. -/
structure Candidate (Conn : Type) where
  stream : Conn
  negotiated : Negotiated
  incoming : Bool
  linkLocal : Option Ipv6Addr

/-- The lexicographic order of `(router_id, asn)` pairs. -/
def idLt (a b : Ipv4Addr × UInt32) : Bool :=
  decide (a.1 < b.1) || (a.1 == b.1 && decide (a.2 < b.2))

/-- Prefer the larger router ID's connection, breaking equal external IDs by ASN. -/
def preferIncoming (cfg : Config) (p : Peer) (n : Negotiated) : Bool :=
  idLt (cfg.routerId, cfg.asn) (n.routerId, p.remoteAsn)

theorem idLt_iff {a b : Ipv4Addr × UInt32} :
    idLt a b = true ↔
      a.1.toNat < b.1.toNat ∨ (a.1.toNat = b.1.toNat ∧ a.2.toNat < b.2.toNat) := by
  simp [idLt, BitVec.lt_def, UInt32.lt_iff_toNat_lt, BitVec.toNat_inj]

/-- Distinct identifiers are strictly ordered one way. -/
theorem idLt_total {a b : Ipv4Addr × UInt32} (h : a ≠ b) : idLt a b = !idLt b a := by
  have hne : a.1.toNat ≠ b.1.toNat ∨ a.2.toNat ≠ b.2.toNat := by
    by_contra hn
    rw [not_or, not_not, not_not] at hn
    exact h (Prod.ext (BitVec.eq_of_toNat_eq hn.1) (UInt32.toNat_inj.mp hn.2))
  have hab := idLt_iff (a := a) (b := b)
  have hba := idLt_iff (a := b) (b := a)
  cases h₁ : idLt a b <;> cases h₂ : idLt b a <;> simp only [h₁, h₂] at hab hba ⊢ <;>
    simp at hab hba ⊢ <;> omega

namespace Choose
variable {Conn : Type}

/-- What one round of the `select!` observes. -/
inductive Event (Conn : Type)
  | recv (stream : Option Conn)
  | joined (incoming : Bool) (result : Except String (Candidate Conn))
  | deadline

/-- The locals of `choose`; `accepted` is the stream the incoming task works on and `ceased`
records the connections that were sent Cease 6/7. -/
structure State (Conn : Type) where
  outgoing : Bool
  accepted : Option Conn
  incomingStarted : Bool
  errors : List String
  pending : Option (Candidate Conn)
  ceased : List Conn
  outcome : Option (Except String (Candidate Conn))

def init : State Conn := ⟨true, none, false, [], none, [], none⟩

namespace State

/-- The task of that direction is still in the set. -/
def running (s : State Conn) (incoming : Bool) : Bool :=
  if incoming then s.accepted.isSome else s.outgoing

def finished (s : State Conn) (incoming : Bool) : State Conn :=
  if incoming then { s with accepted := none } else { s with outgoing := false }

def tasksEmpty (s : State Conn) : Bool := !s.outgoing && s.accepted.isNone

/-- The check after every join: nothing is left to wait for. -/
def bailIfExhausted (s : State Conn) : State Conn :=
  if s.tasksEmpty && s.pending.isNone && s.incomingStarted then
    { s with outcome := some (.error ("both connection candidates failed: " ++
        "; ".intercalate s.errors)) }
  else s

/-- The deadline branch. -/
def expire (s : State Conn) : State Conn :=
  match s.pending with
  | some c => { s with pending := none, outcome := some (.ok c) }
  | none =>
    let status := if s.incomingStarted then "incoming candidate did not establish"
      else "no incoming TCP connection received"
    let errors := if s.errors.isEmpty then
        ["connection attempt still pending at selection deadline"] else s.errors
    { s with errors, outcome := some (.error ("no usable BGP connection: " ++
        "; ".intercalate errors ++ "; " ++ status)) }

end State

/-- A joined candidate is the one its task was started for. -/
def belongs (s : State Conn) [DecidableEq Conn] (incoming : Bool) (c : Candidate Conn) : Bool :=
  c.incoming == incoming && (!incoming || s.accepted == some c.stream)

/-- One round of the loop, `none` where the branch is disabled or the loop has ended. -/
def step [DecidableEq Conn] (cfg : Config) (p : Peer) (s : State Conn) :
    Event Conn → Option (State Conn)
  | .recv stream =>
    if s.outcome.isSome || s.incomingStarted then none
    else match stream with
      | none => some { s with outcome := some (.error "incoming listener stopped") }
      | some c => some { s with incomingStarted := true, accepted := some c }
  | .joined incoming (.ok c) =>
    if s.outcome.isSome || !s.running incoming || !belongs s incoming c then none
    else if c.incoming == preferIncoming cfg p c.negotiated then
      some { s.finished incoming with
        ceased := s.ceased ++ (s.pending.map Candidate.stream).toList
        pending := none
        outcome := some (.ok c) }
    else some ({ s.finished incoming with pending := some c }.bailIfExhausted)
  | .joined incoming (.error e) =>
    if s.outcome.isSome || !s.running incoming then none
    else some ({ s.finished incoming with errors := s.errors ++ [e] }.bailIfExhausted)
  | .deadline => if s.outcome.isSome then none else some s.expire

/-- The loop on a schedule of events; those after the outcome are not observed. -/
def run [DecidableEq Conn] (cfg : Config) (p : Peer) :
    List (Event Conn) → State Conn → Option (State Conn)
  | [], s => some s
  | e :: es, s => if s.outcome.isSome then some s else (step cfg p s e).bind (run cfg p es)

/-- What `choose` returns on a schedule. -/
def chosen [DecidableEq Conn] (cfg : Config) (p : Peer) (es : List (Event Conn)) :
    Option (Except String (Candidate Conn)) :=
  (run cfg p es init).bind State.outcome

/-- Both handshakes of one end complete, in any order, before its deadline fires: the outgoing
completion falls anywhere among the arrival and the completion of the incoming connection, and
whatever follows comes after both. -/
def Completes (n : Negotiated) (mine other : Conn) (es : List (Event Conn)) : Prop :=
  ∃ ll ll' before after later,
    before ++ after = [.recv (some other), .joined true (.ok ⟨other, n, true, ll⟩)] ∧
    es = before ++ .joined false (.ok ⟨mine, n, false, ll'⟩) :: after ++ later

variable [DecidableEq Conn] {cfg : Config} {p : Peer} {n : Negotiated} {mine other : Conn}
  {es : List (Event Conn)}

theorem run_finished {s : State Conn} (h : s.outcome.isSome = true) : run cfg p es s = some s := by
  cases es <;> simp [run, h]

theorem append_eq_pair {α : Type} {x y : α} {l r : List α} (h : l ++ r = [x, y]) :
    (l = [] ∧ r = [x, y]) ∨ (l = [x] ∧ r = [y]) ∨ (l = [x, y] ∧ r = []) := by
  match l, h with
  | [], h => exact Or.inl ⟨rfl, h⟩
  | [_], h => simp_all
  | [_, _], h => simp_all
  | _ :: _ :: _ :: _, h => simp at h

/-- Whatever the order, the preferred direction is returned. -/
theorem chosen_of_completes (cfg : Config) (p : Peer) (h : Completes n mine other es) :
    ∃ c, chosen cfg p es = some (.ok c) ∧
      c.stream = if preferIncoming cfg p n then other else mine := by
  obtain ⟨ll, ll', before, after, later, hsplit, rfl⟩ := h
  rcases append_eq_pair hsplit with ⟨rfl, rfl⟩ | ⟨rfl, rfl⟩ | ⟨rfl, rfl⟩ <;>
    cases hp : preferIncoming cfg p n <;>
    simp [chosen, run, step, init, State.running, State.finished, belongs, hp,
      State.bailIfExhausted, State.tasksEmpty, run_finished]

end Choose

/-- The side that initiated a connection. -/
inductive Side
  | a
  | b
deriving DecidableEq

variable {A B : Config} {pA pB : Peer}

/-- Negotiation succeeds only between distinct identifiers, so exactly one side prefers its
incoming connection. -/
theorem preferIncoming_mirrored (h : Mirrored A B pA pB) {nA nB : Negotiated}
    (hA : parseOpen (openBody B pB) A pA = .ok nA) (hB : parseOpen (openBody A pA) B pB = .ok nB) :
    preferIncoming A pA nA = idLt (A.routerId, A.asn) (B.routerId, B.asn) ∧
      preferIncoming B pB nB = !idLt (A.routerId, A.asn) (B.routerId, B.asn) := by
  obtain ⟨hid, -, rfl⟩ := (parseOpen_mirrored h nA).mp hA
  obtain ⟨-, -, rfl⟩ := (parseOpen_mirrored h.symm nB).mp hB
  have hne : (A.routerId, A.asn) ≠ (B.routerId, B.asn) := by
    intro he
    exact hid ⟨congrArg Prod.fst he, congrArg Prod.snd he⟩
  simp only [preferIncoming, mirroredSession, h.asnA, h.asnB]
  exact ⟨trivial, idLt_total hne.symm⟩

/-- Both ends keep the connection of the side with the larger identifier. -/
theorem collision_agreement (h : Mirrored A B pA pB) {mA mB : Bytes} {nA nB : Negotiated}
    (hmA : openMessage A pA = .ok mA) (hmB : openMessage B pB = .ok mB)
    (hA : parseOpen (mB.drop 19) A pA = .ok nA) (hB : parseOpen (mA.drop 19) B pB = .ok nB) :
    preferIncoming A pA nA = !preferIncoming B pB nB ∧
    ∀ esA esB, Choose.Completes nA Side.a Side.b esA → Choose.Completes nB Side.b Side.a esB →
      ∃ cA cB, Choose.chosen A pA esA = some (.ok cA) ∧ Choose.chosen B pB esB = some (.ok cB) ∧
        cA.stream = cB.stream ∧
        (cA.stream = .a ↔ idLt (B.routerId, B.asn) (A.routerId, A.asn) = true) ∧
        (cA.stream = .b ↔ idLt (A.routerId, A.asn) (B.routerId, B.asn) = true) := by
  rw [frame_drop hmB] at hA
  rw [frame_drop hmA] at hB
  obtain ⟨hpA, hpB⟩ := preferIncoming_mirrored h hA hB
  obtain ⟨hpB', -⟩ := preferIncoming_mirrored h.symm hB hA
  refine ⟨by rw [hpA, hpB, Bool.not_not], ?_⟩
  intro esA esB hesA hesB
  obtain ⟨cA, hcA, hsA⟩ := Choose.chosen_of_completes A pA hesA
  obtain ⟨cB, hcB, hsB⟩ := Choose.chosen_of_completes B pB hesB
  refine ⟨cA, cB, hcA, hcB, ?_⟩
  rw [hpB'] at hpB
  rw [hsA, hsB, hpA, hpB', hpB]
  cases idLt (A.routerId, A.asn) (B.routerId, B.asn) <;> simp

/-- The outgoing handshake completes first at one end and last at the other. -/
theorem example_collision_agreement :
    ∃ nA nB cA cB, parseOpen (openBody remoteConfig remotePeer) exampleConfig examplePeer = .ok nA ∧
      parseOpen (openBody exampleConfig examplePeer) remoteConfig remotePeer = .ok nB ∧
      preferIncoming exampleConfig examplePeer nA =
        !preferIncoming remoteConfig remotePeer nB ∧
      Choose.chosen exampleConfig examplePeer [.joined false (.ok ⟨Side.a, nA, false, none⟩),
        .recv (some .b), .joined true (.ok ⟨.b, nA, true, none⟩)] = some (.ok cA) ∧
      Choose.chosen remoteConfig remotePeer [.recv (some Side.a),
        .joined true (.ok ⟨.a, nB, true, none⟩), .joined false (.ok ⟨.b, nB, false, none⟩)] =
        some (.ok cB) ∧ cA.stream = cB.stream := by
  obtain ⟨mA, hmA, hbA⟩ := openMessage_eq exampleConfig examplePeer
  obtain ⟨mB, hmB, hbB⟩ := openMessage_eq remoteConfig remotePeer
  have hid : ¬ (exampleConfig.routerId = remoteConfig.routerId ∧
      exampleConfig.asn = remoteConfig.asn) := fun he => absurd he.2 (by decide)
  have hA := (parseOpen_mirrored example_mirrored _).mpr ⟨hid, Or.inl ⟨rfl, rfl⟩, rfl⟩
  have hB := (parseOpen_mirrored example_mirrored.symm _).mpr
    ⟨fun he => hid ⟨he.1.symm, he.2.symm⟩, Or.inl ⟨rfl, rfl⟩, rfl⟩
  rw [← hbB] at hA
  rw [← hbA] at hB
  obtain ⟨hprefer, hchosen⟩ := collision_agreement example_mirrored hmA hmB hA hB
  obtain ⟨cA, cB, hcA, hcB, hsame, -⟩ := hchosen _ _
    ⟨none, none, [], _, [], rfl, rfl⟩ ⟨none, none, _, [], [], List.append_nil _, rfl⟩
  rw [hbB] at hA
  rw [hbA] at hB
  exact ⟨_, _, cA, cB, hA, hB, hprefer, hcA, hcB, hsame⟩

end Ubgp
