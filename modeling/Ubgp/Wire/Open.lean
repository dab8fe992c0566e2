import Ubgp.Wire.Basic

/-! The OPEN message: encoder and negotiating parser (`wire.rs`). -/
namespace Ubgp

open SliceLoop (Control)

/-- The two-octet AS number field: AS_TRANS when the number does not fit. -/
def asn16 (asn : UInt32) : ℕ := if asn.toNat < 65536 then asn.toNat else 23456

/-- The MP capability octets for the enabled families, IPv4 first. -/
def familyCaps (ipv4 ipv6 : Bool) : Bytes :=
  (if ipv4 then [1, 4, 0, 1, 0, 1] else []) ++ (if ipv6 then [1, 4, 0, 2, 0, 1] else [])

/-- The body of an OPEN advertising four-octet ASNs, route refresh, and enabled families. -/
def openBody (cfg : Config) (peer : Peer) : Bytes :=
  let caps := [65, 4] ++ BigEndian.encode 4 cfg.asn.toNat ++ [2, 0] ++
    familyCaps peer.ipv4 peer.ipv6
  [4] ++ BigEndian.encode 2 (asn16 cfg.asn) ++ BigEndian.encode 2 peer.holdTimeSecs.toNat ++
    octets cfg.routerId ++ [UInt8.ofNat (caps.length + 2), 2, UInt8.ofNat caps.length] ++ caps

def openMessage (cfg : Config) (peer : Peer) : Result Bytes := frame OPEN (openBody cfg peer)

/-- What the capabilities read so far say. -/
structure Caps where
  as4 : Option UInt32 := none
  mp : Bool := false
  v4 : Bool := false
  v6 : Bool := false
deriving DecidableEq

/-- The effect of one capability; unknown ones are ignored. -/
def readCap (kind : UInt8) (data : Bytes) (s : Caps) : Result Caps :=
  if kind = 1 then do
    require (data.length == 4) 2 0 "invalid multiprotocol capability"
    let safi ← index data 3
    let s := { s with mp := true }
    if safi = 1 then
      let afi ← u16b data
      return { s with v4 := s.v4 || afi == 1, v6 := s.v6 || afi == 2 }
    else return s
  else if kind = 2 then do
    require data.isEmpty 2 0 "invalid route refresh capability"
    return s
  else if kind = 65 then do
    require (data.length == 4) 2 0 "invalid four-octet ASN capability"
    let value := UInt32.ofNat (BigEndian.decode data)
    require (s.as4.all (· == value)) 2 2 "conflicting ASN capabilities"
    return { s with as4 := some value }
  else return s

/-- The guard `caps.len() >= 2 && caps[1] as usize + 2 <= caps.len()`. -/
def capFits (caps : Bytes) : Result Bool :=
  if 2 ≤ caps.length then do
    return decide ((← index caps 1).toNat + 2 ≤ caps.length)
  else return false

/-- One round of the capability loop. -/
def capBody (caps : Bytes) (s : Caps) : Result (Control UInt8 Caps) := do
  require (← capFits caps) 2 0 "invalid capability length"
  let length := (← index caps 1).toNat
  let data ← slice caps 2 (2 + length)
  let s ← readCap (← index caps 0) data s
  return .next s (← sliceFrom caps (2 + length))

theorem capBody_progress : SliceLoop.Progress capBody := by
  intro b s s' rest hb h
  simp only [capBody, bind_eq_ok] at h
  obtain ⟨-, -, -, -, len, -, data, -, k, -, s₁, -, r, hr, h⟩ := h
  simp only [pure_eq_ok, Except.ok.injEq, Control.next.injEq] at h
  obtain ⟨-, rfl⟩ := h
  have hpos := List.length_pos_iff.mpr hb
  rw [sliceFrom_length hr]
  omega

/-- The length field of an optional parameter: one octet, or two in the extended form. -/
def paramLength (extended : Bool) (params : Bytes) : Result ℕ :=
  if extended then do
    u16b (← slice params 1 3)
  else do
    return (← index params 1).toNat

/-- One round of the optional-parameter loop; capability lengths stay one octet even inside
extended parameters. -/
def paramBody (extended : Bool) (params : Bytes) (s : Caps) : Result (Control UInt8 Caps) := do
  let header := if extended then 3 else 2
  require (decide (header ≤ params.length)) 2 0 "short optional parameter header"
  let finish := header + (← paramLength extended params)
  require (decide (finish ≤ params.length)) 2 0 "invalid optional parameter"
  if (← index params 0) ≠ 2 then
    throw (.protocol ⟨2, 4, ← slice params 0 finish, "unsupported optional parameter"⟩)
  let s ← SliceLoop.loop capBody (← slice params header finish) s
  return .next s (← sliceFrom params finish)

theorem paramBody_progress (extended : Bool) : SliceLoop.Progress (paramBody extended) := by
  intro b s s' rest hb h
  simp only [paramBody, bind_eq_ok] at h
  obtain ⟨-, -, len, -, -, -, k, -, h⟩ := h
  split at h
  · simp [bind_eq_ok] at h
  · simp only [bind_eq_ok] at h
    obtain ⟨caps, -, s₁, -, r, hr, h⟩ := h
    simp only [pure_eq_ok, Except.ok.injEq, Control.next.injEq] at h
    obtain ⟨-, rfl⟩ := h
    have hpos := List.length_pos_iff.mpr hb
    rw [sliceFrom_length hr]
    split <;> omega

/-- The parameter section and whether it uses the RFC 9072 lengths. -/
def openParams (b : Bytes) : Result (Bool × Bytes) := do
  if (← index b 9) ≠ 0 && b[10]? == some 255 then
    require (decide (13 ≤ b.length)) 2 0 "short extended OPEN length"
    require ((← u16b (← slice b 11 13)) + 13 == b.length) 2 0
      "invalid extended OPEN parameter length"
    return (true, ← sliceFrom b 13)
  else
    require ((← index b 9).toNat + 10 == b.length) 2 0 "invalid OPEN parameter length"
    return (false, ← sliceFrom b 10)

/-- Compare the ASN and the families with the expected peer. -/
def negotiate (cfg : Config) (p : Peer) (oldAsn hold : ℕ) (routerId : Ipv4Addr) (s : Caps) :
    Result Negotiated := do
  require ((s.as4.map UInt32.toNat).getD oldAsn == p.remoteAsn.toNat) 2 2 "unexpected peer ASN"
  require (oldAsn == asn16 p.remoteAsn) 2 2 "inconsistent two-octet peer ASN"
  let n : Negotiated :=
    { routerId
      hold := min hold p.holdTimeSecs.toNat
      asn4 := s.as4.isSome
      internal := cfg.asn == p.remoteAsn
      ipv4 := p.ipv4 && (s.v4 || !s.mp)
      ipv6 := p.ipv6 && s.v6 }
  if !n.ipv4 && !n.ipv6 then
    throw (.protocol ⟨2, 7, familyCaps p.ipv4 p.ipv6, "no common address family"⟩)
  return n

/-- The BGP identifier field. -/
def openId (b : Bytes) : Result Ipv4Addr := do
  return ofOctets 32 [← index b 5, ← index b 6, ← index b 7, ← index b 8]

/-- Validate an OPEN body against the expected peer and negotiate hold time and families. -/
def parseOpen (b : Bytes) (cfg : Config) (p : Peer) : Result Negotiated := do
  require (decide (10 ≤ b.length)) 2 0 "short OPEN"
  if (← index b 0) ≠ 4 then
    throw (.protocol ⟨2, 1, [0, 4], "unsupported version"⟩)
  let oldAsn ← u16b (← slice b 1 3)
  let hold ← u16b (← slice b 3 5)
  require (hold == 0 || decide (3 ≤ hold)) 2 6 "unacceptable hold time"
  let routerId ← openId b
  require (validRouterId routerId && (cfg.asn != p.remoteAsn || routerId != cfg.routerId)) 2 3
    "invalid or duplicate router ID"
  let (extended, params) ← openParams b
  let s ← SliceLoop.loop (paramBody extended) params {}
  negotiate cfg p oldAsn hold routerId s

/-! IPv6 needs the peer's capability. -/

/-- The octets of an IPv6-unicast multiprotocol capability, with any reserved octet. -/
def Ipv6Capability (b : Bytes) : Prop := ∃ reserved, [1, 4, 0, 2, reserved, 1] <:+: b

/-- Reading one capability turns the IPv6 flag on only for an IPv6-unicast capability. -/
theorem readCap_v6 {kind : UInt8} {data : Bytes} {s s' : Caps} (h : readCap kind data s = .ok s')
    (hv : s'.v6 = true) : s.v6 = true ∨ (kind = 1 ∧ ∃ r, data = [0, 2, r, 1]) := by
  unfold readCap at h
  split at h
  · rename_i hk
    rw [require_bind_eq_ok] at h
    obtain ⟨hlen, h⟩ := h
    obtain ⟨a, b, c, d, rfl⟩ : ∃ a b c d, data = [a, b, c, d] := by
      match data, hlen with
      | [a, b, c, d], _ => exact ⟨a, b, c, d, rfl⟩
    simp only [index_succ, index_zero, ok_bind, u16b_cons, pure_eq_ok] at h
    split at h
    · rename_i hd
      cases h
      simp only [Bool.or_eq_true, beq_iff_eq] at hv
      rcases hv with hv | hv
      · exact Or.inl hv
      · have ha : a = 0 := UInt8.toNat_inj.mp (by have := b.toNat_lt; simp; omega)
        have hb : b = 2 := UInt8.toNat_inj.mp (by subst ha; simpa using hv)
        exact Or.inr ⟨hk, c, by rw [ha, hb, hd]⟩
    · cases h
      exact Or.inl hv
  · split at h
    · rw [require_bind_eq_ok] at h
      obtain ⟨-, h⟩ := h
      cases h
      exact Or.inl hv
    · split at h
      · simp only [require_bind_eq_ok] at h
        obtain ⟨-, -, h⟩ := h
        cases h
        exact Or.inl hv
      · cases h
        exact Or.inl hv

/-- What a round of the capability loop did: it read the capability at the front. -/
theorem capBody_eq_ok {caps : Bytes} {s : Caps} {c : Control UInt8 Caps}
    (h : capBody caps s = .ok c) :
    ∃ kind len data rest s', c = .next s' rest ∧ index caps 0 = .ok kind ∧
      index caps 1 = .ok len ∧ slice caps 2 (2 + len.toNat) = .ok data ∧
      readCap kind data s = .ok s' ∧ rest <:+: caps := by
  simp only [capBody, bind_eq_ok] at h
  obtain ⟨fits, hfits, _, hreq, len, hlen, data, hdata, kind, hkind, s', hs', r, hr, h⟩ := h
  cases h
  exact ⟨kind, len, data, r, s', rfl, hkind, hlen, hdata, hs', (sliceFrom_suffix hr).isInfix⟩

/-- The capability a round of the loop reads starts the rest of the list. -/
theorem capBody_v6 {caps rest : Bytes} {s s' : Caps} (h : capBody caps s = .ok (.next s' rest))
    (hv : s'.v6 = true) : s.v6 = true ∨ Ipv6Capability caps := by
  obtain ⟨kind, len, data, r, s₁, hc, hkind, hlen, hdata, hs₁, -⟩ := capBody_eq_ok h
  cases hc
  rcases readCap_v6 hs₁ hv with hs | ⟨rfl, r, rfl⟩
  · exact Or.inl hs
  · match caps, hlen, hkind, hdata with
    | x :: y :: tail, hlen, hkind, hdata =>
      simp only [index_succ, index_zero, Except.ok.injEq] at hlen hkind
      subst hlen hkind
      rw [Nat.add_comm 2, slice_succ, slice_succ] at hdata
      unfold slice at hdata
      split at hdata
      · rename_i hle
        simp only [List.drop_zero, Except.ok.injEq] at hdata
        have hlen := congrArg List.length hdata
        simp only [List.length_take, List.length_cons, List.length_nil] at hlen
        have hy : y = 4 := UInt8.toNat_inj.mp (by simp; omega)
        refine Or.inr ⟨r, List.IsPrefix.isInfix ?_⟩
        rw [hy, show [1, 4, 0, 2, r, 1] = [1, 4] ++ [0, 2, r, 1] from rfl, ← hdata]
        exact ⟨tail.drop y.toNat, by simp⟩
      · cases hdata

theorem Ipv6Capability.mono {b c : Bytes} (h : Ipv6Capability b) (hbc : b <:+: c) :
    Ipv6Capability c := by
  obtain ⟨r, hr⟩ := h
  exact ⟨r, hr.trans hbc⟩

theorem capLoop_v6 {caps : Bytes} {s s' : Caps} (h : SliceLoop.loop capBody caps s = .ok s')
    (hs : s.v6 = true → Ipv6Capability caps) (hv : s'.v6 = true) : Ipv6Capability caps := by
  revert hv
  refine SliceLoop.loop_invariant capBody_progress
    (I := fun b s => b <:+: caps ∧ (s.v6 = true → Ipv6Capability caps))
    (Q := fun s => s.v6 = true → Ipv6Capability caps) h ⟨List.infix_rfl, hs⟩
    (fun _ hi => hi.2) ?_ ?_
  · intro b s s' hi hl
    obtain ⟨_, _, _, _, _, hc, -⟩ := capBody_eq_ok hl
    cases hc
  · intro b s s' rest hi hn
    have hrest : rest <:+: b := by
      obtain ⟨_, _, _, _, _, hc, -, -, -, -, hrest⟩ := capBody_eq_ok hn
      cases hc
      exact hrest
    refine ⟨hrest.trans hi.1, fun hv => ?_⟩
    rcases capBody_v6 hn hv with hs | hc
    · exact hi.2 hs
    · exact hc.mono hi.1

/-- What a round of the parameter loop did: it read the capabilities of one parameter. -/
theorem paramBody_eq_ok {extended : Bool} {params : Bytes} {s : Caps} {c : Control UInt8 Caps}
    (h : paramBody extended params s = .ok c) :
    ∃ caps rest s', c = .next s' rest ∧ caps <:+: params ∧ rest <:+: params ∧
      SliceLoop.loop capBody caps s = .ok s' := by
  simp only [paramBody, bind_eq_ok] at h
  obtain ⟨-, -, len, -, -, -, k, -, h⟩ := h
  split at h
  · simp [bind_eq_ok] at h
  · simp only [bind_eq_ok] at h
    obtain ⟨caps, hcaps, s', hs', r, hr, h⟩ := h
    cases h
    exact ⟨caps, r, s', rfl, slice_infix hcaps, (sliceFrom_suffix hr).isInfix, hs'⟩

theorem paramLoop_v6 {extended : Bool} {params : Bytes} {s : Caps}
    (h : SliceLoop.loop (paramBody extended) params {} = .ok s) (hv : s.v6 = true) :
    Ipv6Capability params := by
  revert hv
  refine SliceLoop.loop_invariant (paramBody_progress extended)
    (I := fun b s => b <:+: params ∧ (s.v6 = true → Ipv6Capability params))
    (Q := fun s => s.v6 = true → Ipv6Capability params) h ⟨List.infix_rfl, by simp⟩
    (fun _ hi => hi.2) ?_ ?_
  · intro b s s' hi hl
    obtain ⟨_, _, _, hc, -⟩ := paramBody_eq_ok hl
    cases hc
  · intro b s s' rest hi hn
    obtain ⟨caps, rest', s'', hc, hcaps, hrest, hloop⟩ := paramBody_eq_ok hn
    cases hc
    refine ⟨hrest.trans hi.1, fun hv => ?_⟩
    by_cases hs : s.v6 = true
    · exact hi.2 hs
    · exact (capLoop_v6 hloop (fun h => absurd h hs) hv).mono (hcaps.trans hi.1)

theorem openParams_within {b params : Bytes} {extended : Bool}
    (h : openParams b = .ok (extended, params)) : params <:+: b := by
  simp only [openParams, bind_eq_ok] at h
  obtain ⟨x, -, h⟩ := h
  split at h
  · simp only [bind_eq_ok] at h
    obtain ⟨-, -, -, -, -, -, -, -, r, hr, h⟩ := h
    cases h
    exact (sliceFrom_suffix hr).isInfix
  · simp only [bind_eq_ok] at h
    obtain ⟨-, -, -, -, r, hr, h⟩ := h
    cases h
    exact (sliceFrom_suffix hr).isInfix

/-- IPv6 is negotiated only if the peer entry enables it and the OPEN carries the capability. -/
theorem parseOpen_ipv6 {b : Bytes} {cfg : Config} {p : Peer} {n : Negotiated}
    (h : parseOpen b cfg p = .ok n) (hv : n.ipv6 = true) : p.ipv6 = true ∧ Ipv6Capability b := by
  simp only [parseOpen, bind_eq_ok] at h
  obtain ⟨-, -, version, -, h⟩ := h
  split at h
  · cases h
  · simp only [bind_eq_ok] at h
    obtain ⟨-, -, asn, -, -, -, hold, -, -, -, id, -, -, -, ⟨extended, params⟩, hparams, s, hs,
      h⟩ := h
    simp only [negotiate, require_bind_eq_ok] at h
    obtain ⟨-, -, h⟩ := h
    split at h
    · cases h
    · cases h
      simp only [Bool.and_eq_true] at hv
      exact ⟨hv.1, (paramLoop_v6 hs hv.2).mono (openParams_within hparams)⟩

end Ubgp
