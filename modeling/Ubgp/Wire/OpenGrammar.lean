import Ubgp.Wire.Capabilities

/-! The OPEN grammar: what the negotiating parser accepts, and what its result depends on. -/
namespace Ubgp

variable {b : Bytes} {s : Caps} {cs : List Tlv} {extended : Bool} {cfg : Config} {p : Peer}
  {n : Negotiated}

/-! The message. -/

/-- An OPEN whose parameters hold capabilities; `legacy` is the length octet the extended form
ignores. -/
structure OpenFields where
  asn : UInt16
  hold : UInt16
  routerId : Ipv4Addr
  legacy : Option UInt8
  parameters : List (List Tlv)

/-- Version, AS number, hold time and identifier. -/
def openHeader (asn hold : UInt16) (routerId : Ipv4Addr) : Bytes :=
  4 :: (BigEndian.encode 2 asn.toNat ++ (BigEndian.encode 2 hold.toNat ++ octets routerId))

namespace OpenFields

/-- The RFC 9072 form. -/
def long (o : OpenFields) : Bool := o.legacy.isSome

/-- The parameters flattened. -/
def capabilities (o : OpenFields) : List Tlv := o.parameters.flatten

def paramOctets (o : OpenFields) : Bytes :=
  (o.parameters.map capabilityParameter).flatMap (tlvCode o.long).encode

/-- The length of the parameter section, in the one-octet form or that of RFC 9072. -/
def sectionLength (o : OpenFields) : Bytes :=
  match o.legacy with
  | none => [UInt8.ofNat o.paramOctets.length]
  | some l => l :: 255 :: BigEndian.encode 2 o.paramOctets.length

def encode (o : OpenFields) : Bytes :=
  openHeader o.asn o.hold o.routerId ++ (o.sectionLength ++ o.paramOctets)

/-- Every length fits its field; a zero length octet never announces the extended form. -/
structure WellFormed (o : OpenFields) : Prop where
  capabilities : ∀ c ∈ o.capabilities, (tlvCode false).Valid c
  parameters : ∀ cs ∈ o.parameters, (tlvCode o.long).Valid (capabilityParameter cs)
  total : o.paramOctets.length < if o.long then 65536 else 256
  legacy : o.legacy ≠ some 0

/-- A four-octet AS capability is present. -/
def asn4 (o : OpenFields) : Bool := o.capabilities.any (fun c => c.kind == 65)

/-- What the session uses. -/
def session (cfg : Config) (p : Peer) (o : OpenFields) : Negotiated where
  routerId := o.routerId
  hold := min o.hold.toNat p.holdTimeSecs.toNat
  asn4 := o.asn4
  internal := cfg.asn == p.remoteAsn
  ipv4 := p.ipv4 && (o.capabilities.any (Tlv.unicast 1) ||
    !o.capabilities.any (fun c => c.kind == 1))
  ipv6 := p.ipv6 && o.capabilities.any (Tlv.unicast 2)

/-- The conditions on the fields and the capabilities. -/
structure Acceptable (cfg : Config) (p : Peer) (o : OpenFields) : Prop where
  hold : o.hold.toNat = 0 ∨ 3 ≤ o.hold.toNat
  routerId : validRouterId o.routerId = true
  distinct : cfg.asn ≠ p.remoteAsn ∨ o.routerId ≠ cfg.routerId
  lengths : ∀ c ∈ o.capabilities, c.CapabilityOk
  agree : Agree (o.capabilities.filterMap Tlv.asn)
  asn : if o.asn4 then ∀ v ∈ o.capabilities.filterMap Tlv.asn, v = p.remoteAsn
    else o.asn.toNat = p.remoteAsn.toNat
  old : o.asn.toNat = asn16 p.remoteAsn
  family : (o.session cfg p).ipv4 = true ∨ (o.session cfg p).ipv6 = true

end OpenFields

theorem encode_pair (x y : UInt8) :
    BigEndian.encode 2 (UInt16.ofNat (x.toNat * 256 + y.toNat)).toNat = [x, y] := by
  have hx := x.toNat_lt
  have hy := y.toNat_lt
  have hdecode : BigEndian.decode [x, y] = x.toNat * 256 + y.toNat := by simp [BigEndian.decode]
  rw [UInt16.toNat_ofNat', Nat.mod_eq_of_lt (by omega), ← hdecode]
  exact BigEndian.encode_decode [x, y]

theorem octets_ofOctets (a b c d : UInt8) : octets (ofOctets 32 [a, b, c, d]) = [a, b, c, d] := by
  have hlt : BigEndian.decode [a, b, c, d] < 2 ^ 32 := by
    simpa using BigEndian.decode_lt [a, b, c, d]
  rw [octets, ofOctets, BitVec.toNat_ofNat, Nat.mod_eq_of_lt hlt]
  exact BigEndian.encode_decode [a, b, c, d]

/-- Every string of at least ten octets that starts with version 4 has the fixed fields. -/
theorem exists_openHeader (hb : 10 ≤ b.length) (h₀ : index b 0 = .ok 4) :
    ∃ asn hold routerId len tail, b = openHeader asn hold routerId ++ len :: tail := by
  rcases b with - | ⟨b₀, - | ⟨b₁, - | ⟨b₂, - | ⟨b₃, - | ⟨b₄, - | ⟨b₅, - | ⟨b₆, - | ⟨b₇, - |
    ⟨b₈, - | ⟨len, tail⟩⟩⟩⟩⟩⟩⟩⟩⟩⟩
  iterate 10 simp at hb
  rw [index_zero, Except.ok.injEq] at h₀
  refine ⟨UInt16.ofNat (b₁.toNat * 256 + b₂.toNat), UInt16.ofNat (b₃.toNat * 256 + b₄.toNat),
    ofOctets 32 [b₅, b₆, b₇, b₈], len, tail, ?_⟩
  rw [openHeader, encode_pair, encode_pair, octets_ofOctets, h₀]
  rfl

/-- The parameter section is delimited by exactly one of the two forms. -/
def Delimits (len : UInt8) (tail : Bytes) (extended : Bool) (params : Bytes) : Prop :=
  if extended then len ≠ 0 ∧ params.length < 65536 ∧
    tail = 255 :: (BigEndian.encode 2 params.length ++ params)
  else tail = params ∧ len.toNat = params.length ∧ (len = 0 ∨ params.head? ≠ some 255)

theorem openHeader_cons (asn hold : UInt16) (routerId : Ipv4Addr) :
    ∃ b₁ b₂ b₃ b₄ b₅ b₆ b₇ b₈, openHeader asn hold routerId = [4, b₁, b₂, b₃, b₄, b₅, b₆, b₇, b₈] ∧
      u16b [b₁, b₂] = .ok asn.toNat ∧ u16b [b₃, b₄] = .ok hold.toNat ∧
      ofOctets 32 [b₅, b₆, b₇, b₈] = routerId := by
  refine ⟨_, _, _, _, _, _, _, _, rfl, ?_, ?_, ?_⟩
  · exact u16b_encode (by simpa using asn.toNat_lt) []
  · exact u16b_encode (by simpa using hold.toNat_lt) []
  · exact ofOctets_octets (by decide) routerId

/-- The length field of the extended form. -/
theorem extendedLength_iff {x y : UInt8} {r params : Bytes} :
    x.toNat * 256 + y.toNat = r.length ∧ r = params ↔
      params.length < 65536 ∧ x :: y :: r = BigEndian.encode 2 params.length ++ params := by
  constructor
  · rintro ⟨hl, rfl⟩
    have hfield : lengthField true (x :: y :: r) = some (r.length, r) := by
      simp [lengthField, hl]
    exact lengthCode_of_lengthField hfield
  · rintro ⟨hl, hb⟩
    have hfield : lengthField true (lengthCode true params.length ++ params) =
        some (params.length, params) := lengthField_lengthCode hl params
    simp only [lengthCode, if_true, ← hb, lengthField, Option.some.injEq, Prod.mk.injEq] at hfield
    obtain ⟨hlen, rfl⟩ := hfield
    exact ⟨hlen, rfl⟩

section Params

variable {b₀ b₁ b₂ b₃ b₄ b₅ b₆ b₇ b₈ len : UInt8} {tail params : Bytes}

theorem openParams_long (hlen : len ≠ 0) :
    openParams (b₀ :: b₁ :: b₂ :: b₃ :: b₄ :: b₅ :: b₆ :: b₇ :: b₈ :: len :: 255 :: tail) =
      .ok (extended, params) ↔ extended = true ∧ params.length < 65536 ∧
        tail = BigEndian.encode 2 params.length ++ params := by
  rcases tail with - | ⟨x, - | ⟨y, r⟩⟩
  · simp [openParams, hlen, BigEndian.encode]
  · simp [openParams, hlen, BigEndian.encode]
  · rw [← extendedLength_iff]
    simp only [openParams, index_succ, index_zero, ok_bind, sliceFrom_succ, slice,
      sliceFrom_zero]
    simp [hlen, require_bind_eq_ok]
    constructor
    · rintro ⟨hl, rfl, rfl⟩
      exact ⟨rfl, hl, rfl⟩
    · rintro ⟨rfl, hl, rfl⟩
      exact ⟨hl, rfl, rfl⟩

theorem openParams_legacy (h : ¬ (len ≠ 0 ∧ tail.head? = some 255)) :
    openParams (b₀ :: b₁ :: b₂ :: b₃ :: b₄ :: b₅ :: b₆ :: b₇ :: b₈ :: len :: tail) =
      .ok (extended, params) ↔ extended = false ∧ tail = params ∧ len.toNat = params.length := by
  have hform : (decide (len ≠ 0) && (tail[0]? == some 255)) = false := by
    rw [← Bool.not_eq_true]
    simpa [List.head?_eq_getElem?] using h
  simp only [openParams, index_succ, index_zero, ok_bind, sliceFrom_succ, sliceFrom_zero,
    List.getElem?_cons_succ, hform]
  simp [require_bind_eq_ok]
  constructor
  · rintro ⟨hl, rfl, rfl⟩
    exact ⟨rfl, rfl, hl⟩
  · rintro ⟨rfl, rfl, hl⟩
    exact ⟨hl, rfl, rfl⟩

end Params

theorem openParams_eq_ok (asn hold : UInt16) (routerId : Ipv4Addr) {len : UInt8}
    {tail params : Bytes} :
    openParams (openHeader asn hold routerId ++ len :: tail) = .ok (extended, params) ↔
      Delimits len tail extended params := by
  obtain ⟨b₁, b₂, b₃, b₄, b₅, b₆, b₇, b₈, hb, -⟩ := openHeader_cons asn hold routerId
  rw [hb]
  simp only [List.cons_append, List.nil_append]
  by_cases hext : len ≠ 0 ∧ tail.head? = some 255
  · obtain ⟨hlen, htail⟩ := hext
    obtain ⟨rest, rfl⟩ : ∃ rest, tail = 255 :: rest := by
      cases tail with
      | nil => cases htail
      | cons x rest => exact ⟨rest, by simpa using htail⟩
    rw [openParams_long hlen]
    cases extended with
    | true => simp [Delimits, hlen]
    | false =>
      simp only [Bool.false_eq_true, false_and, Delimits, if_false, false_iff, not_and, not_or]
      rintro rfl -
      exact ⟨hlen, by simp⟩
  · rw [openParams_legacy hext]
    cases extended with
    | true =>
      simp only [Bool.true_eq_false, false_and, Delimits, if_true, false_iff, not_and]
      rintro hlen - rfl
      exact hext ⟨hlen, rfl⟩
    | false =>
      simp only [true_and, Delimits, Bool.false_eq_true, if_false]
      constructor
      · rintro ⟨rfl, hl⟩
        refine ⟨rfl, hl, ?_⟩
        by_cases hlen : len = 0
        · exact Or.inl hlen
        · exact Or.inr (fun ht => hext ⟨hlen, ht⟩)
      · rintro ⟨rfl, hl, -⟩
        exact ⟨rfl, hl⟩

/-! The parser. -/

theorem negotiate_eq_ok {oldAsn hold : ℕ} {routerId : Ipv4Addr} :
    negotiate cfg p oldAsn hold routerId s = .ok n ↔
      (s.as4.map UInt32.toNat).getD oldAsn = p.remoteAsn.toNat ∧ oldAsn = asn16 p.remoteAsn ∧
      (n.ipv4 = true ∨ n.ipv6 = true) ∧
      n = { routerId, hold := min hold p.holdTimeSecs.toNat, asn4 := s.as4.isSome,
            internal := cfg.asn == p.remoteAsn, ipv4 := p.ipv4 && (s.v4 || !s.mp),
            ipv6 := p.ipv6 && s.v6 } := by
  simp only [negotiate, require_bind_eq_ok, beq_iff_eq, throw_eq_error, pure_eq_ok]
  constructor
  · rintro ⟨hasn, hold, h⟩
    split at h
    · cases h
    · rename_i hfamily
      cases h
      refine ⟨hasn, hold, ?_, rfl⟩
      simpa [← Bool.not_eq_true, or_iff_not_imp_left] using hfamily
  · rintro ⟨hasn, hold, hfamily, rfl⟩
    refine ⟨hasn, hold, ?_⟩
    have hnot : ¬ ((!(p.ipv4 && (s.v4 || !s.mp)) && !(p.ipv6 && s.v6)) = true) := by
      intro h
      rw [Bool.and_eq_true, Bool.not_eq_true', Bool.not_eq_true'] at h
      rcases hfamily with hf | hf
      · exact Bool.false_ne_true (h.1.symm.trans hf)
      · exact Bool.false_ne_true (h.2.symm.trans hf)
    rw [if_neg hnot]

theorem isSome_findSome : (cs.findSome? Tlv.asn).isSome = cs.any (fun c => c.kind == 65) := by
  induction cs with
  | nil => rfl
  | cons c cs ih =>
    rw [List.findSome?_cons, List.any_cons, ← ih]
    by_cases hk : c.kind = 65
    · simp [Tlv.asn, hk]
    · have hk' : (c.kind == 65) = false := by simpa using hk
      simp [Tlv.asn, hk, hk']

/-- The AS number of the capabilities, else that of the fixed field. -/
theorem asn_eq_iff {remote : UInt32} {k : ℕ} (h : Agree (cs.filterMap Tlv.asn)) :
    ((cs.findSome? Tlv.asn).map UInt32.toNat).getD k = remote.toNat ↔
      if cs.any (fun c => c.kind == 65) then ∀ v ∈ cs.filterMap Tlv.asn, v = remote
      else k = remote.toNat := by
  rw [← isSome_findSome, ← List.head?_filterMap]
  cases hl : cs.filterMap Tlv.asn with
  | nil => simp
  | cons v l =>
    rw [hl] at h
    simp only [List.head?_cons, Option.map_some, Option.getD_some, Option.isSome_some, if_true,
      UInt32.toNat_inj]
    constructor
    · rintro rfl w hw
      exact h w hw v (by simp)
    · intro hall
      exact hall v (by simp)

/-- The parser behind the version octet. -/
theorem parseOpen_openHeader (cfg : Config) (p : Peer) (asn hold : UInt16) (routerId : Ipv4Addr)
    (len : UInt8) (tail : Bytes) :
    parseOpen (openHeader asn hold routerId ++ len :: tail) cfg p = (do
      require (hold.toNat == 0 || decide (3 ≤ hold.toNat)) 2 6 "unacceptable hold time"
      require (validRouterId routerId && (cfg.asn != p.remoteAsn || routerId != cfg.routerId)) 2 3
        "invalid or duplicate router ID"
      let (extended, params) ← openParams (openHeader asn hold routerId ++ len :: tail)
      let s ← SliceLoop.loop (paramBody extended) params {}
      negotiate cfg p asn.toNat hold.toNat routerId s) := by
  obtain ⟨b₁, b₂, b₃, b₄, b₅, b₆, b₇, b₈, hb, hasn, hhold, hid⟩ :=
    openHeader_cons asn hold routerId
  generalize hbody : openHeader asn hold routerId ++ len :: tail = body
  rw [hb] at hbody
  have hlong : decide (10 ≤ body.length) = true := by
    rw [← hbody]
    simp
  have h₀ : index body 0 = .ok 4 := by
    rw [← hbody]
    rfl
  have hasn' : slice body 1 3 = .ok [b₁, b₂] := by
    rw [← hbody]
    simp [slice]
  have hhold' : slice body 3 5 = .ok [b₃, b₄] := by
    rw [← hbody]
    simp [slice]
  have hid' : openId body = .ok routerId := by
    rw [← hbody, ← hid]
    simp only [openId, List.cons_append, index_succ, index_zero, ok_bind, pure_eq_ok]
  simp only [parseOpen, hlong, h₀, hasn', hhold', hid', hasn, hhold, require_true, ok_bind,
    ne_eq, not_true_eq_false, if_false]

theorem parseOpen_header {asn hold : UInt16} {routerId : Ipv4Addr} {len : UInt8} {tail : Bytes} :
    parseOpen (openHeader asn hold routerId ++ len :: tail) cfg p = .ok n ↔
      (hold.toNat = 0 ∨ 3 ≤ hold.toNat) ∧ validRouterId routerId = true ∧
      (cfg.asn ≠ p.remoteAsn ∨ routerId ≠ cfg.routerId) ∧
      ∃ extended params s, Delimits len tail extended params ∧
        SliceLoop.loop (paramBody extended) params {} = .ok s ∧
        negotiate cfg p asn.toNat hold.toNat routerId s = .ok n := by
  have hparams (extended : Bool) (params : Bytes) :
      openParams (openHeader asn hold routerId ++ len :: tail) = .ok (extended, params) ↔
        Delimits len tail extended params := openParams_eq_ok asn hold routerId
  rw [parseOpen_openHeader]
  simp only [require_bind_eq_ok, Bool.or_eq_true, Bool.and_eq_true, beq_iff_eq,
    decide_eq_true_eq, bne_iff_ne]
  simp only [bind_eq_ok, Prod.exists, hparams, exists_and_left, and_assoc]

theorem parseOpen_start (h : parseOpen b cfg p = .ok n) :
    10 ≤ b.length ∧ index b 0 = .ok 4 := by
  rw [parseOpen, require_bind_eq_ok, decide_eq_true_eq, bind_eq_ok] at h
  obtain ⟨hlen, version, hversion, h⟩ := h
  refine ⟨hlen, ?_⟩
  by_cases hv : version = 4
  · rw [hversion, hv]
  · rw [if_pos hv] at h
    cases h

theorem paramOctets_head (o : OpenFields) : o.paramOctets.head? ≠ some 255 := by
  unfold OpenFields.paramOctets
  cases o.parameters with
  | nil => simp
  | cons cs css => simp [capabilityParameter, tlvCode]

/-- The octets of well-formed fields are delimited as the parser expects. -/
theorem OpenFields.WellFormed.delimits {o : OpenFields} (h : o.WellFormed) :
    ∃ len tail, o.sectionLength ++ o.paramOctets = len :: tail ∧
      Delimits len tail o.long o.paramOctets := by
  have htotal := h.total
  cases hl : o.legacy with
  | none =>
    have hlong : o.long = false := by simp [OpenFields.long, hl]
    rw [hlong] at htotal ⊢
    refine ⟨UInt8.ofNat o.paramOctets.length, o.paramOctets, by
      simp [OpenFields.sectionLength, hl], ?_⟩
    exact ⟨rfl, toNat_ofNat_of_lt htotal, Or.inr (paramOctets_head o)⟩
  | some l =>
    have hlong : o.long = true := by simp [OpenFields.long, hl]
    rw [hlong] at htotal ⊢
    refine ⟨l, 255 :: (BigEndian.encode 2 o.paramOctets.length ++ o.paramOctets), by
      simp [OpenFields.sectionLength, hl], ?_⟩
    refine ⟨?_, htotal, rfl⟩
    rintro rfl
    exact h.legacy hl

/-- Delimited parameters determine the length fields. -/
theorem Delimits.fields {o : OpenFields} {len : UInt8} {tail params : Bytes}
    (h : Delimits len tail extended params)
    (hl : o.legacy = if extended then some len else none) (hp : o.paramOctets = params) :
    (o.paramOctets.length < if extended then 65536 else 256) ∧ o.legacy ≠ some 0 ∧
      o.sectionLength ++ o.paramOctets = len :: tail := by
  subst hp
  cases extended with
  | true =>
    obtain ⟨hlen, hfits, rfl⟩ := h
    simp only [if_true] at hl
    refine ⟨hfits, ?_, ?_⟩
    · rw [hl, ne_eq, Option.some.injEq]
      exact hlen
    · simp [OpenFields.sectionLength, hl]
  | false =>
    obtain ⟨rfl, hlen, -⟩ := h
    simp only [Bool.false_eq_true, if_false] at hl
    refine ⟨?_, by simp [hl], ?_⟩
    · rw [← hlen]
      simpa using len.toNat_lt
    · simp [OpenFields.sectionLength, hl, ← hlen]

/-- What the loops make of the capabilities is what the session uses. -/
theorem negotiate_foldl {o : OpenFields} (hagree : Agree (o.capabilities.filterMap Tlv.asn)) :
    negotiate cfg p o.asn.toNat o.hold.toNat o.routerId (o.capabilities.foldl Caps.add {}) =
      .ok n ↔
      (if o.asn4 then ∀ v ∈ o.capabilities.filterMap Tlv.asn, v = p.remoteAsn
        else o.asn.toNat = p.remoteAsn.toNat) ∧ o.asn.toNat = asn16 p.remoteAsn ∧
      (n.ipv4 = true ∨ n.ipv6 = true) ∧ n = o.session cfg p := by
  rw [negotiate_eq_ok, foldl_add]
  simp only [Option.none_or, Bool.false_or, asn_eq_iff hagree, isSome_findSome]
  rfl

/-- The parser accepts exactly the encodings of well-formed, acceptable fields. -/
theorem parseOpen_eq_ok : parseOpen b cfg p = .ok n ↔
    ∃ o : OpenFields, o.WellFormed ∧ b = o.encode ∧ o.Acceptable cfg p ∧ n = o.session cfg p := by
  constructor
  · intro h
    obtain ⟨hlen, hversion⟩ := parseOpen_start h
    obtain ⟨asn, hold, routerId, len, tail, rfl⟩ := exists_openHeader hlen hversion
    obtain ⟨hhold, hid, hdistinct, extended, params, s, hdelimits, hloop, hn⟩ :=
      parseOpen_header.mp h
    obtain ⟨ts, hts, hparams, hread⟩ := paramLoop_eq_ok.mp hloop
    obtain ⟨css, rfl, hcss, hfold⟩ := readParameters_eq_ok.mp hread
    obtain ⟨hlengths, hagree, rfl⟩ := readCapabilities_eq_ok.mp hfold
    obtain ⟨o, rfl, rfl, rfl, hlegacy, rfl⟩ : ∃ o : OpenFields, o.asn = asn ∧ o.hold = hold ∧
        o.routerId = routerId ∧ o.legacy = (if extended then some len else none) ∧
        o.parameters = css := ⟨⟨asn, hold, routerId, _, css⟩, rfl, rfl, rfl, rfl, rfl⟩
    have hlong : o.long = extended := by
      rw [OpenFields.long, hlegacy]
      cases extended <;> rfl
    have hoctets : o.paramOctets = params := by
      rw [hparams, ← hlong]
      rfl
    obtain ⟨htotal, hzero, htail⟩ := hdelimits.fields hlegacy hoctets
    obtain ⟨hasn, hold', hfamily, rfl⟩ := (negotiate_foldl (o := o) hagree).mp hn
    refine ⟨o, ⟨hcss, ?_, ?_, ?_⟩, ?_, ⟨hhold, hid, hdistinct, hlengths, hagree, hasn, hold',
      hfamily⟩, rfl⟩
    · intro cs hcs
      rw [hlong]
      exact hts _ (List.mem_map_of_mem hcs)
    · rw [hlong]
      exact htotal
    · exact hzero
    · rw [OpenFields.encode, htail]
  · rintro ⟨o, hw, rfl, ha, rfl⟩
    obtain ⟨len, tail, htail, hdelimits⟩ := hw.delimits
    rw [OpenFields.encode, htail, parseOpen_header]
    refine ⟨ha.hold, ha.routerId, ha.distinct, o.long, o.paramOctets,
      o.capabilities.foldl Caps.add {}, hdelimits, ?_, ?_⟩
    · refine paramLoop_eq_ok.mpr ⟨_, ?_, rfl, readParameters_eq_ok.mpr
        ⟨o.parameters, rfl, hw.capabilities, ?_⟩⟩
      · intro t ht
        obtain ⟨cs, hcs, rfl⟩ := List.mem_map.mp ht
        exact hw.parameters cs hcs
      · exact readCapabilities_eq_ok.mpr ⟨ha.lengths, ha.agree, rfl⟩
    · exact (negotiate_foldl ha.agree).mpr ⟨ha.asn, ha.old, ha.family, rfl⟩

/-! The encoding determines the fields. -/

theorem parameters_injective {css css' : List (List Tlv)}
    (h : ∀ c ∈ css.flatten, (tlvCode false).Valid c)
    (h' : ∀ c ∈ css'.flatten, (tlvCode false).Valid c)
    (heq : css.map capabilityParameter = css'.map capabilityParameter) : css = css' := by
  induction css generalizing css' with
  | nil => simpa using heq.symm
  | cons cs css ih =>
    cases css' with
    | nil => cases heq
    | cons cs' css' =>
      rw [List.map_cons, List.map_cons, List.cons.injEq] at heq
      rw [List.flatten_cons] at h h'
      have hdata := congrArg Tlv.data heq.1
      have hcs : cs = cs' := Delimited.flatMap_encode_injective
        (fun c hc => h c (List.mem_append_left _ hc))
        (fun c hc => h' c (List.mem_append_left _ hc)) hdata
      have hcss := ih (fun c hc => h c (List.mem_append_right _ hc))
        (fun c hc => h' c (List.mem_append_right _ hc)) heq.2
      rw [hcs, hcss]

theorem openHeader_injective {asn hold asn' hold' : UInt16} {id id' : Ipv4Addr}
    (h : openHeader asn hold id = openHeader asn' hold' id') :
    asn = asn' ∧ hold = hold' ∧ id = id' := by
  obtain ⟨b₁, b₂, b₃, b₄, b₅, b₆, b₇, b₈, hb, hasn, hhold, hid⟩ := openHeader_cons asn hold id
  obtain ⟨c₁, c₂, c₃, c₄, c₅, c₆, c₇, c₈, hc, hasn', hhold', hid'⟩ :=
    openHeader_cons asn' hold' id'
  rw [hb, hc] at h
  cases h
  rw [hasn, Except.ok.injEq] at hasn'
  rw [hhold, Except.ok.injEq] at hhold'
  exact ⟨UInt16.toNat_inj.mp hasn', UInt16.toNat_inj.mp hhold', hid.symm.trans hid'⟩

theorem Delimits.unique {len : UInt8} {tail params params' : Bytes} {extended' : Bool}
    (h : Delimits len tail extended params) (h' : Delimits len tail extended' params') :
    extended = extended' ∧ params = params' := by
  have hok := (openParams_eq_ok 0 0 0).mpr h
  have hok' := (openParams_eq_ok 0 0 0).mpr h'
  rw [hok, Except.ok.injEq, Prod.mk.injEq] at hok'
  exact hok'

theorem OpenFields.encode_injective {o o' : OpenFields} (h : o.WellFormed) (h' : o'.WellFormed)
    (heq : o.encode = o'.encode) : o = o' := by
  obtain ⟨len, tail, htail, hdel⟩ := h.delimits
  obtain ⟨len', tail', htail', hdel'⟩ := h'.delimits
  rw [encode, encode] at heq
  obtain ⟨hhead, hrest⟩ := List.append_inj heq rfl
  obtain ⟨hasn, hhold, hid⟩ := openHeader_injective hhead
  rw [htail, htail'] at hrest
  cases hrest
  obtain ⟨hlong, hoctets⟩ := hdel.unique hdel'
  have hparams : o.parameters = o'.parameters := by
    refine parameters_injective h.capabilities h'.capabilities ?_
    refine Delimited.flatMap_encode_injective (c := tlvCode o.long) ?_ ?_ ?_
    · intro t ht
      obtain ⟨cs, hcs, rfl⟩ := List.mem_map.mp ht
      exact h.parameters cs hcs
    · intro t ht
      obtain ⟨cs, hcs, rfl⟩ := List.mem_map.mp ht
      rw [hlong]
      exact h'.parameters cs hcs
    · rw [paramOctets, paramOctets, ← hlong] at hoctets
      exact hoctets
  have hlegacy : o.legacy = o'.legacy := by
    have hsection : o.sectionLength ++ o.paramOctets = o'.sectionLength ++ o'.paramOctets :=
      htail.trans htail'.symm
    unfold long at hlong
    unfold sectionLength at hsection
    cases hl : o.legacy with
    | none =>
      cases hl' : o'.legacy with
      | none => rfl
      | some l' => simp [hl, hl'] at hlong
    | some l =>
      cases hl' : o'.legacy with
      | none => simp [hl, hl'] at hlong
      | some l' =>
        simp only [hl, hl', List.cons_append, List.cons.injEq] at hsection
        rw [hsection.1]
  cases o
  cases o'
  simp_all

/-- The parser on the encoding of well-formed fields. -/
theorem parseOpen_encode {o : OpenFields} (h : o.WellFormed) :
    parseOpen o.encode cfg p = .ok n ↔ o.Acceptable cfg p ∧ n = o.session cfg p := by
  rw [parseOpen_eq_ok]
  constructor
  · rintro ⟨o', h', heq, ha, hn⟩
    rw [OpenFields.encode_injective h h' heq]
    exact ⟨ha, hn⟩
  · rintro ⟨ha, hn⟩
    exact ⟨o, h, rfl, ha, hn⟩

/-! Order and grouping. -/

section Order

variable {o o' : OpenFields} (hasn : o.asn = o'.asn) (hhold : o.hold = o'.hold)
  (hid : o.routerId = o'.routerId) (hp : o.capabilities.Perm o'.capabilities)

include hp in
theorem capabilities_any (f : Tlv → Bool) : o.capabilities.any f = o'.capabilities.any f := by
  rw [Bool.eq_iff_iff, List.any_eq_true, List.any_eq_true]
  simp only [hp.mem_iff]

include hhold hid hp in
theorem session_perm (cfg : Config) (p : Peer) : o.session cfg p = o'.session cfg p := by
  have hany := capabilities_any hp
  simp only [OpenFields.session, OpenFields.asn4, hhold, hid, hany]

include hasn hhold hid hp in
theorem acceptable_perm (h : o.Acceptable cfg p) : o'.Acceptable cfg p := by
  have hany := capabilities_any hp
  have hsession := session_perm hhold hid hp cfg p
  have hvalues (v : UInt32) : v ∈ o'.capabilities.filterMap Tlv.asn ↔
      v ∈ o.capabilities.filterMap Tlv.asn := (hp.symm.filterMap Tlv.asn).mem_iff
  refine ⟨hhold ▸ h.hold, hid ▸ h.routerId, hid ▸ h.distinct, ?_, ?_, ?_, hasn ▸ h.old, ?_⟩
  · intro c hc
    exact h.lengths c (hp.mem_iff.mpr hc)
  · intro x hx y hy
    exact h.agree x ((hvalues x).mp hx) y ((hvalues y).mp hy)
  · have hold := h.asn
    simp only [OpenFields.asn4, hany, hasn] at hold
    simp only [OpenFields.asn4, hvalues]
    exact hold
  · rw [← hsession]
    exact h.family

end Order

/-- The parser accepts exactly its grammar, and its result depends on the fixed fields and the
capabilities alone: neither on their order nor on how parameters group them. -/
theorem parseOpen_grammar (cfg : Config) (p : Peer) :
    (∀ b n, parseOpen b cfg p = .ok n ↔ ∃ o : OpenFields, o.WellFormed ∧ b = o.encode ∧
      o.Acceptable cfg p ∧ n = o.session cfg p) ∧
    ∀ o o' : OpenFields, o.WellFormed → o'.WellFormed → o.asn = o'.asn → o.hold = o'.hold →
      o.routerId = o'.routerId → o.capabilities.Perm o'.capabilities →
      ∀ n, parseOpen o.encode cfg p = .ok n ↔ parseOpen o'.encode cfg p = .ok n := by
  refine ⟨fun b n => parseOpen_eq_ok, ?_⟩
  intro o o' h h' hasn hhold hid hp n
  rw [parseOpen_encode h, parseOpen_encode h', session_perm hhold hid hp cfg p]
  constructor
  · rintro ⟨ha, hn⟩
    exact ⟨acceptable_perm hasn hhold hid hp ha, hn⟩
  · rintro ⟨ha, hn⟩
    exact ⟨acceptable_perm hasn.symm hhold.symm hid.symm hp.symm ha, hn⟩

/-- One parameter with two capabilities, in the one-octet form. -/
def groupedOpen : OpenFields :=
  ⟨64513, 90, 0xC0000202#32, none, [[⟨65, [0, 0, 252, 1]⟩, ⟨1, [0, 1, 0, 1]⟩]]⟩

/-- The same capabilities in two parameters and the other order, in the extended form. -/
def separateOpen : OpenFields :=
  ⟨64513, 90, 0xC0000202#32, some 7, [[⟨1, [0, 1, 0, 1]⟩], [⟨65, [0, 0, 252, 1]⟩]]⟩

theorem example_open_grammar : parseOpen groupedOpen.encode exampleConfig examplePeer =
      .ok (groupedOpen.session exampleConfig examplePeer) ∧
    parseOpen separateOpen.encode exampleConfig examplePeer =
      .ok (groupedOpen.session exampleConfig examplePeer) := by
  have hok : parseOpen groupedOpen.encode exampleConfig examplePeer =
      .ok (groupedOpen.session exampleConfig examplePeer) := by decide +kernel
  refine ⟨hok, ?_⟩
  refine ((parseOpen_grammar exampleConfig examplePeer).2 groupedOpen separateOpen
    ⟨?_, ?_, ?_, ?_⟩ ⟨?_, ?_, ?_, ?_⟩ rfl rfl rfl (List.Perm.swap _ _ _) _).mp hok
  all_goals decide

end Ubgp
