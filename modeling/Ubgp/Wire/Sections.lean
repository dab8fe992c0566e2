import Ubgp.Wire.Decode

/-! The encoder against the grammar: the sections `update` writes, and that they are valid. -/
namespace Ubgp

variable {cfg : Config} {p : Peer} {n : Negotiated} {prefixes : List IpNet} {encoded data : Bytes}
  {v6 : Bool} {flags kind : UInt8}

/-- The attribute `attr` appends. -/
def mkAttr (flags kind : UInt8) (data : Bytes) : Attribute :=
  ⟨if 255 < data.length then flags ||| 0x10 else flags, kind, data⟩

theorem isExtended_or (flags : UInt8) : isExtended (flags ||| 0x10) = true := by
  obtain ⟨v⟩ := flags
  revert v
  decide +kernel

theorem isExtended_mkAttr (kind : UInt8) (data : Bytes) (h : isExtended flags = false) :
    isExtended (mkAttr flags kind data).flags = decide (255 < data.length) := by
  simp only [mkAttr]
  split
  · rename_i hl
    simp [hl, isExtended_or]
  · rename_i hl
    simp [hl, h]

theorem attr_eq (h : isExtended flags = false) :
    attr flags kind data = attributeCode.encode (mkAttr flags kind data) := by
  have he := isExtended_mkAttr kind data h
  simp only [attr, attributeCode, Attribute.lengthOctets, he]
  by_cases hl : 255 < data.length <;> simp [mkAttr, hl]

theorem mkAttr_fits (h : isExtended flags = false) (hl : data.length < 65536) :
    (mkAttr flags kind data).Fits := by
  unfold Attribute.Fits
  rw [isExtended_mkAttr kind data h]
  simp only [mkAttr]
  by_cases hlen : 255 < data.length <;> simp [hlen] <;> omega

/-! Prefixes. -/

/-- The packed entry of a prefix. -/
def entryOf : IpNet → NlriEntry
  | .v4 p => ⟨UInt8.ofNat p.prefixLen, (octets p.network).take (prefixOctets p.prefixLen)⟩
  | .v6 p => ⟨UInt8.ofNat p.prefixLen, (octets p.network).take (prefixOctets p.prefixLen)⟩

theorem nlri_eq (bits : ℕ) (q : IpNet) : nlri q = (nlriCode bits).encode (entryOf q) := by
  cases q <;> rfl

theorem length_take_octets {w : ℕ} (hw : 8 ∣ w) (q : Net w) :
    ((octets q.network).take (prefixOctets q.prefixLen)).length = prefixOctets q.prefixLen := by
  have hle := q.prefixLen_le
  obtain ⟨k, rfl⟩ := hw
  simp only [List.length_take, length_octets, prefixOctets]
  omega

theorem entryOf_valid (q : IpNet) : (nlriCode (familyBits q.isIpv6)).Valid (entryOf q) := by
  cases q with
  | v4 q =>
    have hlen := ofNat_prefixLen (q.prefixLen_le.trans (by decide : 32 ≤ 128))
    simp only [nlriCode, entryOf, hlen]
    exact ⟨q.prefixLen_le, length_take_octets (by decide) q⟩
  | v6 q =>
    have hlen := ofNat_prefixLen q.prefixLen_le
    simp only [nlriCode, entryOf, hlen]
    exact ⟨q.prefixLen_le, length_take_octets (by decide) q⟩

theorem entryOf_net (q : IpNet) : (entryOf q).net q.isIpv6 = some q.trunc := by
  cases q with
  | v4 q =>
    have hlen := ofNat_prefixLen (q.prefixLen_le.trans (by decide : 32 ≤ 128))
    have hnew : IpNet.new (.v4 q.network) q.prefixLen = some (.v4 q.trunc) :=
      dif_pos q.prefixLen_le
    simp only [NlriEntry.net, entryOf, IpNet.isIpv6, hlen, length_take_octets (by decide) q,
      Bool.false_eq_true, if_false]
    rw [network_of_octets (by decide) q, hnew]
    simp [IpNet.trunc]
  | v6 q =>
    have hlen := ofNat_prefixLen q.prefixLen_le
    have hnew : IpNet.new (.v6 q.network) q.prefixLen = some (.v6 q.trunc) :=
      dif_pos q.prefixLen_le
    simp only [NlriEntry.net, entryOf, IpNet.isIpv6, hlen, length_take_octets (by decide) q,
      if_true]
    rw [network_of_octets (by decide) q, hnew]
    simp [IpNet.trunc]

theorem flatMap_nlri (bits : ℕ) (prefixes : List IpNet) :
    prefixes.flatMap nlri = (prefixes.map entryOf).flatMap (nlriCode bits).encode := by
  rw [List.flatMap_map]
  exact List.flatMap_congr (fun q _ => nlri_eq bits q)

theorem entries_valid (h : ∀ q ∈ prefixes, q.isIpv6 = v6) :
    ∀ e ∈ prefixes.map entryOf, (nlriCode (familyBits v6)).Valid e := by
  intro e he
  obtain ⟨q, hq, rfl⟩ := List.mem_map.mp he
  rw [← h q hq]
  exact entryOf_valid q

theorem walk_flatMap_nlri (h : ∀ q ∈ prefixes, q.isIpv6 = v6) :
    (nlriCode (familyBits v6)).walk (prefixes.flatMap nlri) = (prefixes.map entryOf, []) := by
  rw [flatMap_nlri (familyBits v6)]
  exact Delimited.walk_flatMap (entries_valid h)

theorem mapM_net (h : ∀ q ∈ prefixes, q.isIpv6 = v6) :
    (prefixes.map entryOf).mapM (NlriEntry.net v6) = some (prefixes.map IpNet.trunc) := by
  induction prefixes with
  | nil => rfl
  | cons q qs ih =>
    have hq := entryOf_net q
    rw [h q (by simp)] at hq
    simp [List.mapM_cons, hq, ih (fun r hr => h r (List.mem_cons_of_mem _ hr))]

/-- The encoded prefixes of a family decode to the truncated ones, in order. -/
theorem decodeNlri_flatMap (h : ∀ q ∈ prefixes, q.isIpv6 = v6) :
    decodeNlri v6 (prefixes.flatMap nlri) = some (prefixes.map IpNet.trunc) := by
  simp only [decodeNlri, walk_flatMap_nlri h, if_true, mapM_net h]

theorem packed_flatMap (h : ∀ q ∈ prefixes, q.isIpv6 = v6) :
    (nlriCode (familyBits v6)).Packed (prefixes.flatMap nlri) :=
  ⟨_, entries_valid h, flatMap_nlri _ _⟩

theorem appendNlri_flatMap (h : ∀ q ∈ prefixes, q.isIpv6 = v6) (out : List IpNet) :
    appendNlri v6 (prefixes.flatMap nlri) out = .ok (out ++ prefixes.map IpNet.trunc) := by
  obtain ⟨nets, hmap, happend⟩ := appendNlri_eq v6 (prefixes.flatMap nlri) out
  rw [walk_flatMap_nlri h, mapM_net h] at hmap
  rw [happend, ← Option.some.inj hmap]

theorem length_nlri (q : IpNet) : (nlri q).length ≤ 17 := by
  have hv := (entryOf_valid q).2
  have hb := (entryOf_valid q).1
  have hle := familyBits_le q.isIpv6
  rw [nlri_eq 128]
  simp only [nlriCode, List.length_cons, hv, prefixOctets]
  omega

theorem length_flatMap_nlri (prefixes : List IpNet) :
    (prefixes.flatMap nlri).length ≤ 17 * prefixes.length := by
  induction prefixes with
  | nil => simp
  | cons q qs ih =>
    have := length_nlri q
    rw [List.flatMap_cons, List.length_append, List.length_cons]
    omega

/-! Sections. -/

/-- The octets of an UPDATE body with complete attributes. -/
def UpdateSections.octets (u : UpdateSections) : Bytes :=
  BigEndian.encode 2 u.withdrawn.length ++ u.withdrawn ++
    BigEndian.encode 2 (u.attributes.flatMap attributeCode.encode).length ++
    u.attributes.flatMap attributeCode.encode ++ u.nlri

theorem lengthPrefixed_encode {m : Bytes} (r : Bytes) (h : m.length < 65536) :
    lengthPrefixed (BigEndian.encode 2 m.length ++ (m ++ r)) = some (m, r) := by
  refine lengthPrefixed_eq_some.mpr ⟨UInt8.ofNat (m.length / 256 ^ 1),
    UInt8.ofNat (m.length / 256 ^ 0), rfl, ?_⟩
  rw [UInt8.toNat_ofNat', UInt8.toNat_ofNat']
  omega

theorem parseUpdate_octets {u : UpdateSections} (hf : ∀ a ∈ u.attributes, a.Fits)
    (hr : u.rest = []) (hw : u.withdrawn.length < 65536)
    (ha : (u.attributes.flatMap attributeCode.encode).length < 65536) :
    parseUpdate u.octets = some u := by
  have hwalk : attributeCode.walk (u.attributes.flatMap attributeCode.encode) =
      (u.attributes, []) := Delimited.walk_flatMap hf
  simp only [parseUpdate, UpdateSections.octets, List.append_assoc]
  rw [lengthPrefixed_encode _ hw]
  simp only [Option.bind_eq_bind, Option.bind_some]
  rw [lengthPrefixed_encode _ ha]
  simp only [Option.bind_some, hwalk, ← hr]
  rfl

/-! What `update` writes. -/

/-- A withdrawal: the withdrawn routes, or a single MP_UNREACH_NLRI. -/
def withdrawalOf (v6 : Bool) (encoded : Bytes) : UpdateSections :=
  if v6 then ⟨[], [mkAttr 0x80 15 ([0, 2, 1] ++ encoded)], [], []⟩ else ⟨encoded, [], [], []⟩

/-- The attributes both families share. -/
def commonAttrs (cfg : Config) (p : Peer) (n : Negotiated) : List Attribute :=
  [mkAttr 0x40 1 [2], mkAttr 0x40 2 (pathData cfg p n)] ++
    (if needsAs4 cfg p n then [mkAttr 0xc0 17 ([2, 1] ++ BigEndian.encode 4 cfg.asn.toNat)]
      else []) ++
    (if cfg.asn = p.remoteAsn then [mkAttr 0x40 5 (BigEndian.encode 4 100)] else [])

/-- An IPv4 announcement. -/
def announcement4 (cfg : Config) (p : Peer) (n : Negotiated) (nh : Ipv4Addr) (encoded : Bytes) :
    UpdateSections :=
  ⟨[], commonAttrs cfg p n ++ [mkAttr 0x40 3 (octets nh)], [], encoded⟩

/-- The next hops of an IPv6 announcement. -/
def nextHops6 (p : Peer) (nh : Ipv6Addr) : List Ipv6Addr := nh :: p.nextHopV6LinkLocal.toList

def reachData (p : Peer) (nh : Ipv6Addr) (encoded : Bytes) : Bytes :=
  [0, 2, 1, if p.nextHopV6LinkLocal.isSome then 32 else 16] ++ (nextHops6 p nh).flatMap octets ++
    [0] ++ encoded

/-- An IPv6 announcement. -/
def announcement6 (cfg : Config) (p : Peer) (n : Negotiated) (nh : Ipv6Addr) (encoded : Bytes) :
    UpdateSections :=
  ⟨[], mkAttr 0x80 14 (reachData p nh encoded) :: commonAttrs cfg p n, [], []⟩

theorem updateBody_withdraw (cfg : Config) (p : Peer) :
    updateBody cfg p n v6 encoded true = .ok (withdrawalOf v6 encoded).octets := by
  cases v6 with
  | true =>
    simp only [updateBody, updateAttrs, mpAttr, mpData, withdrawalOf, UpdateSections.octets,
      if_true, ok_bind, pure_eq_ok, Bool.not_true, Bool.and_false, Bool.false_eq_true, if_false,
      List.append_nil, attr_eq (show isExtended 0x80 = false from rfl), List.flatMap_cons,
      List.flatMap_nil]
    rfl
  | false =>
    simp only [updateBody, updateAttrs, mpAttr, withdrawalOf, UpdateSections.octets, if_true,
      ok_bind, pure_eq_ok, Bool.not_false, Bool.and_true, Bool.false_eq_true, if_false,
      List.flatMap_nil]
    simp

theorem announceAttrs_eq {nextHop : Bytes} (h : nextHopAttr p v6 = .ok nextHop) :
    announceAttrs cfg p n v6 =
      .ok ((commonAttrs cfg p n).flatMap attributeCode.encode ++ nextHop) := by
  have h40 : isExtended 0x40 = false := rfl
  have hc0 : isExtended 0xc0 = false := rfl
  simp only [announceAttrs, h, ok_bind, pure_eq_ok, attr_eq h40, attr_eq hc0, commonAttrs]
  congr 1
  cases needsAs4 cfg p n <;> by_cases hi : cfg.asn = p.remoteAsn <;> simp [hi]

theorem updateBody_announce4 {nh : Ipv4Addr} (h : p.nh4 = some nh) :
    updateBody cfg p n false encoded false = .ok (announcement4 cfg p n nh encoded).octets := by
  have hnext : nextHopAttr p false = .ok (attributeCode.encode (mkAttr 0x40 3 (octets nh))) := by
    simp only [nextHopAttr, h, Bool.false_eq_true, if_false,
      attr_eq (show isExtended 0x40 = false from rfl)]
  have hcode : (commonAttrs cfg p n ++ [mkAttr 0x40 3 (octets nh)]).flatMap attributeCode.encode =
      (commonAttrs cfg p n).flatMap attributeCode.encode ++
        attributeCode.encode (mkAttr 0x40 3 (octets nh)) := by simp
  simp only [updateBody, updateAttrs, mpAttr, announceAttrs_eq hnext, announcement4,
    UpdateSections.octets, hcode, Bool.false_eq_true, if_false, ok_bind, pure_eq_ok,
    Bool.not_false, Bool.and_true, if_true, List.nil_append]
  rfl

theorem updateBody_announce6 {nh : Ipv6Addr} (h : p.nh6 = some nh) :
    updateBody cfg p n true encoded false = .ok (announcement6 cfg p n nh encoded).octets := by
  have hdata : mpData p encoded false = .ok (reachData p nh encoded) := by
    simp only [mpData, h, Bool.false_eq_true, if_false, reachData, nextHops6]
    cases p.nextHopV6LinkLocal <;> simp
  simp only [updateBody, updateAttrs, mpAttr, hdata,
    announceAttrs_eq (show nextHopAttr p true = .ok [] from rfl), announcement6,
    UpdateSections.octets, Bool.false_eq_true, if_false, ok_bind, pure_eq_ok, if_true,
    Bool.not_true, Bool.and_false, List.append_nil, List.flatMap_cons,
    attr_eq (show isExtended 0x80 = false from rfl)]
  rfl

/-! Every attribute it writes is clean. -/

theorem clean_mkAttr (hr : Attribute.Recognised kind) (hk : ¬ Attribute.Ignored n kind)
    (h₁ : flagsOk flags kind = true) (h₂ : flagsOk (flags ||| 0x10) kind = true)
    (hv : if isMp kind then (mkAttr flags kind data).MpWellFormed
      else (mkAttr flags kind data).WellFormed n) : (mkAttr flags kind data).Clean n where
  recognised := hr
  kept := hk
  flags := by
    apply flagsOk_iff.mp
    simp only [mkAttr]
    split
    · exact h₂
    · exact h₁
  value := hv

/-- The AS numbers `update` puts into a path are one AS_SEQUENCE segment. -/
def sequenceOf (width asn : ℕ) : PathSegment := ⟨2, 1, BigEndian.encode width asn⟩

theorem walk_sequence (width asn : ℕ) :
    (pathCode width).walk ([2, 1] ++ BigEndian.encode width asn) =
      ([sequenceOf width asn], []) := by
  have hv : ∀ g ∈ [sequenceOf width asn], (pathCode width).Valid g := by
    simp [sequenceOf, pathCode]
  have hcode : [2, 1] ++ BigEndian.encode width asn =
      [sequenceOf width asn].flatMap (pathCode width).encode := by
    simp [pathCode, sequenceOf]
  rw [hcode]
  exact Delimited.walk_flatMap hv

theorem packed_sequence (width asn : ℕ) :
    (pathCode width).Packed ([2, 1] ++ BigEndian.encode width asn) :=
  Delimited.packed_iff.mpr (by rw [walk_sequence])

/-- The number a two-octet or four-octet peer sees in AS_PATH. -/
def visibleAsn (cfg : Config) (n : Negotiated) : ℕ :=
  if n.asn4 then cfg.asn.toNat else if cfg.asn.toNat < 65536 then cfg.asn.toNat else 23456

theorem pathData_eq : pathData cfg p n = if cfg.asn = p.remoteAsn then []
    else [2, 1] ++ BigEndian.encode (if n.asn4 then 4 else 2) (visibleAsn cfg n) := by
  unfold pathData visibleAsn
  by_cases hi : cfg.asn = p.remoteAsn
  · simp [hi]
  · cases n.asn4 <;> simp [hi]

theorem clean_origin : (mkAttr 0x40 1 [2]).Clean n :=
  clean_mkAttr (by decide) (by simp [Attribute.Ignored]) rfl rfl
    (by simp [isMp, Attribute.WellFormed, mkAttr])

theorem clean_path : (mkAttr 0x40 2 (pathData cfg p n)).Clean n := by
  refine clean_mkAttr (by decide) (by simp [Attribute.Ignored]) rfl rfl ?_
  rw [if_neg (by decide)]
  change (pathCode (if n.asn4 then 4 else 2)).Packed (pathData cfg p n)
  rw [pathData_eq]
  by_cases hi : cfg.asn = p.remoteAsn
  · rw [if_pos hi]
    exact ⟨[], by simp, by simp⟩
  · rw [if_neg hi]
    exact packed_sequence _ _

theorem clean_as4 (h : needsAs4 cfg p n = true) :
    (mkAttr 0xc0 17 ([2, 1] ++ BigEndian.encode 4 cfg.asn.toNat)).Clean n := by
  have hasn4 : n.asn4 = false := by
    simp only [needsAs4, Bool.and_eq_true, Bool.not_eq_true'] at h
    exact h.1.1
  refine clean_mkAttr (by decide) (by simp [Attribute.Ignored, hasn4]) rfl rfl ?_
  rw [if_neg (by decide)]
  have hlen : ([2, 1] ++ BigEndian.encode 4 cfg.asn.toNat).length = 6 := by simp
  exact ⟨hlen.ge, by rw [mkAttr, hlen]; decide, packed_sequence 4 _⟩

theorem clean_localPref (h : n.internal = true) :
    (mkAttr 0x40 5 (BigEndian.encode 4 100)).Clean n :=
  clean_mkAttr (by decide) (by simp [Attribute.Ignored, h]) rfl rfl
    (by simp [isMp, Attribute.WellFormed, mkAttr])

theorem clean_nextHop {nh : Ipv4Addr} (h : validV4 nh = true) :
    (mkAttr 0x40 3 (octets nh)).Clean n := by
  refine clean_mkAttr (by decide) (by simp [Attribute.Ignored]) rfl rfl ?_
  rw [if_neg (by decide)]
  change (octets nh).length = 4 ∧ validV4 (ofOctets 32 (octets nh)) = true
  rw [ofOctets_octets (by decide)]
  exact ⟨by simp, h⟩

theorem decodeMpUnreach_sent (encoded : Bytes) :
    decodeMpUnreach ([0, 2, 1] ++ encoded) = some ⟨2, 1, [], encoded⟩ := rfl

theorem length_nextHops6 (p : Peer) (nh : Ipv6Addr) :
    ((nextHops6 p nh).flatMap octets).length =
      (if p.nextHopV6LinkLocal.isSome then 32 else 16 : UInt8).toNat := by
  cases h : p.nextHopV6LinkLocal <;> simp [nextHops6, h]

theorem decodeMpReach_sent (p : Peer) (nh : Ipv6Addr) (encoded : Bytes) :
    decodeMpReach (reachData p nh encoded) =
      some ⟨2, 1, (nextHops6 p nh).flatMap octets, encoded⟩ := by
  have hlen := length_nextHops6 p nh
  unfold reachData
  generalize (if p.nextHopV6LinkLocal.isSome then 32 else 16 : UInt8) = l at hlen ⊢
  simp only [List.cons_append, List.nil_append, List.append_assoc, decodeMpReach, ← hlen]
  rw [if_pos (by simp)]
  simp [List.drop_append]

theorem clean_unreach (h : (nlriCode 128).Packed encoded) :
    (mkAttr 0x80 15 ([0, 2, 1] ++ encoded)).Clean n := by
  refine clean_mkAttr (by decide) (by simp [Attribute.Ignored]) rfl rfl ?_
  rw [if_pos (by decide)]
  change ∃ m, decodeMpUnreach ([0, 2, 1] ++ encoded) = some m ∧ m.NlriOk
  exact ⟨_, decodeMpUnreach_sent encoded, fun _ => h⟩

theorem clean_reach (nh : Ipv6Addr) (h : (nlriCode 128).Packed encoded) :
    (mkAttr 0x80 14 (reachData p nh encoded)).Clean n := by
  refine clean_mkAttr (by decide) (by simp [Attribute.Ignored]) rfl rfl ?_
  rw [if_pos (by decide)]
  change ∃ m, decodeMpReach (reachData p nh encoded) = some m ∧ m.NextHopOk ∧ m.NlriOk
  refine ⟨_, decodeMpReach_sent p nh encoded, fun _ => ?_, fun _ => h⟩
  change _ = 16 ∨ _ = 32
  rw [length_nextHops6]
  split
  · exact Or.inr rfl
  · exact Or.inl rfl

theorem clean_common (hi : n.internal = (cfg.asn == p.remoteAsn)) :
    ∀ a ∈ commonAttrs cfg p n, a.Clean n := by
  intro a ha
  simp only [commonAttrs, List.mem_append, List.mem_cons, List.not_mem_nil, or_false] at ha
  rcases ha with ((rfl | rfl) | ha) | ha
  · exact clean_origin
  · exact clean_path
  · split at ha
    · rename_i h4
      obtain rfl := List.mem_singleton.mp ha
      exact clean_as4 h4
    · cases ha
  · split at ha
    · rename_i hasn
      obtain rfl := List.mem_singleton.mp ha
      exact clean_localPref (by simp [hi, hasn])
    · cases ha

theorem common_kinds : (commonAttrs cfg p n).map Attribute.kind =
    [1, 2] ++ (if needsAs4 cfg p n then [17] else []) ++
      (if cfg.asn = p.remoteAsn then [5] else []) := by
  unfold commonAttrs
  split <;> split <;> rfl

theorem length_mkAttr (flags kind : UInt8) (data : Bytes) :
    (attributeCode.encode (mkAttr flags kind data)).length ≤
    data.length + 4 := by
  simp only [attributeCode, Attribute.lengthOctets, List.length_cons, List.length_append]
  split <;> simp [mkAttr] <;> omega

theorem length_pathData (cfg : Config) (p : Peer) (n : Negotiated) :
    (pathData cfg p n).length ≤ 6 := by
  rw [pathData_eq]
  split
  · simp
  · cases n.asn4 <;> simp

/-- The attributes of an announcement besides the prefixes and next hops are short. -/
theorem common_short : ∀ a ∈ commonAttrs cfg p n, a.data.length ≤ 6 ∧ a.Fits := by
  intro a ha
  have short {flags kind : UInt8} {data : Bytes} (h : data.length ≤ 6)
      (he : isExtended flags = false) :
      (mkAttr flags kind data).data.length ≤ 6 ∧ (mkAttr flags kind data).Fits :=
    ⟨h, mkAttr_fits he (by omega)⟩
  simp only [commonAttrs, List.mem_append, List.mem_cons, List.not_mem_nil, or_false] at ha
  rcases ha with ((rfl | rfl) | ha) | ha
  · exact short (by simp) rfl
  · exact short (length_pathData cfg p n) rfl
  · split at ha
    · obtain rfl := List.mem_singleton.mp ha
      exact short (by simp) rfl
    · cases ha
  · split at ha
    · obtain rfl := List.mem_singleton.mp ha
      exact short (by simp) rfl
    · cases ha

theorem common_length (cfg : Config) (p : Peer) (n : Negotiated) :
    ((commonAttrs cfg p n).flatMap attributeCode.encode).length ≤ 40 := by
  have h₁ := length_mkAttr 0x40 1 [2]
  have h₂ := length_mkAttr 0x40 2 (pathData cfg p n)
  have h₃ := length_mkAttr 0xc0 17 ([2, 1] ++ BigEndian.encode 4 cfg.asn.toNat)
  have h₄ := length_mkAttr 0x40 5 (BigEndian.encode 4 100)
  have hp := length_pathData cfg p n
  simp only [List.length_append, List.length_cons, List.length_nil,
    BigEndian.length_encode] at h₁ h₃ h₄
  unfold commonAttrs
  split <;> split <;>
    simp only [List.flatMap_append, List.flatMap_cons, List.flatMap_nil, List.length_append,
      List.append_nil] <;> omega

/-- What makes a body of sections a message this daemon may send. -/
structure Sendable (n : Negotiated) (u : UpdateSections) : Prop where
  fits : ∀ a ∈ u.attributes, a.Fits
  rest : u.rest = []
  size : u.octets.length ≤ maxMessage - 19
  withdrawn : (nlriCode 32).Packed u.withdrawn
  nlri : (nlriCode 32).Packed u.nlri
  clean : ∀ a ∈ u.attributes, a.Clean n
  nodup : u.kinds.Nodup
  complete : ¬ u.Missing n

namespace Sendable
variable {u : UpdateSections}

theorem parse (h : Sendable n u) : parseUpdate u.octets = some u := by
  have hsize := h.size
  simp only [UpdateSections.octets, List.length_append, BigEndian.length_encode, maxMessage]
    at hsize
  exact parseUpdate_octets h.fits h.rest (by omega) (by omega)

theorem valid (h : Sendable n u) : validateUpdate u.octets n = .ok .valid :=
  validateUpdate_clean h.parse h.withdrawn h.nlri h.clean h.nodup h.rest h.complete

theorem framed (h : Sendable n u) : ∃ m, frame UPDATE u.octets = .ok m ∧ m.drop 19 = u.octets := by
  have hsize := h.size
  have hm : frame UPDATE u.octets = .ok _ :=
    frame_eq_ok.mpr ⟨by simp only [maxMessage] at hsize ⊢; omega, rfl⟩
  exact ⟨_, hm, frame_drop hm⟩

end Sendable

theorem sendable_withdrawal (h : (nlriCode (familyBits v6)).Packed encoded)
    (hl : encoded.length ≤ 3400) : Sendable n (withdrawalOf v6 encoded) := by
  cases v6 with
  | false =>
    refine ⟨by simp [withdrawalOf], rfl, ?_, h, ⟨[], by simp, rfl⟩, by simp [withdrawalOf],
      List.nodup_nil, ?_⟩
    · simp [withdrawalOf, UpdateSections.octets, maxMessage]
      omega
    · simp [UpdateSections.Missing, UpdateSections.Reachable, withdrawalOf]
  | true =>
    have hlen : ([0, 2, 1] ++ encoded : Bytes).length = 3 + encoded.length := by simp; omega
    have hcode := length_mkAttr 0x80 15 ([0, 2, 1] ++ encoded)
    refine ⟨?_, rfl, ?_, ⟨[], by simp, rfl⟩, ⟨[], by simp, rfl⟩, ?_, by simp [withdrawalOf,
      UpdateSections.kinds], ?_⟩
    · intro a ha
      obtain rfl := List.mem_singleton.mp ha
      exact mkAttr_fits rfl (by omega)
    · simp only [withdrawalOf, if_true, UpdateSections.octets, List.flatMap_cons,
        List.flatMap_nil, List.append_nil, List.length_append, BigEndian.length_encode,
        List.length_nil, maxMessage]
      omega
    · intro a ha
      obtain rfl := List.mem_singleton.mp ha
      exact clean_unreach h
    · rintro (⟨hn | ⟨a, ha, hr⟩, -⟩ | ⟨hn, -⟩)
      · exact hn rfl
      · obtain rfl := List.mem_singleton.mp ha
        exact absurd hr.1 (by simp [mkAttr])
      · exact hn rfl

theorem sendable_announcement4 {nh : Ipv4Addr} (hnh : validV4 nh = true)
    (hi : n.internal = (cfg.asn == p.remoteAsn)) (h : (nlriCode 32).Packed encoded)
    (hl : encoded.length ≤ 3400) : Sendable n (announcement4 cfg p n nh encoded) := by
  have hcommon := common_length cfg p n
  have hcode := length_mkAttr 0x40 3 (octets nh)
  have hkinds : (announcement4 cfg p n nh encoded).kinds =
      (commonAttrs cfg p n).map Attribute.kind ++ [3] := by
    simp [UpdateSections.kinds, announcement4, mkAttr]
  refine ⟨?_, rfl, ?_, ⟨[], by simp, rfl⟩, h, ?_, ?_, ?_⟩
  · intro a ha
    rcases List.mem_append.mp ha with ha | ha
    · exact (common_short a ha).2
    · obtain rfl := List.mem_singleton.mp ha
      exact mkAttr_fits rfl (by simp)
  · simp only [length_octets] at hcode
    simp only [announcement4, UpdateSections.octets, List.flatMap_append, List.flatMap_cons,
      List.flatMap_nil, List.append_nil, List.length_append, BigEndian.length_encode,
      List.length_nil, maxMessage]
    omega
  · intro a ha
    rcases List.mem_append.mp ha with ha | ha
    · exact clean_common hi a ha
    · obtain rfl := List.mem_singleton.mp ha
      exact clean_nextHop hnh
  · rw [hkinds, common_kinds]
    split <;> split <;> decide
  · simp only [UpdateSections.Missing, hkinds, common_kinds, hi]
    by_cases hasn : cfg.asn = p.remoteAsn <;> simp [hasn]

theorem sendable_announcement6 {nh : Ipv6Addr}
    (hi : n.internal = (cfg.asn == p.remoteAsn)) (h : (nlriCode 128).Packed encoded)
    (hl : encoded.length ≤ 3400) : Sendable n (announcement6 cfg p n nh encoded) := by
  have hcommon := common_length cfg p n
  have hcode := length_mkAttr 0x80 14 (reachData p nh encoded)
  have hhops : ((nextHops6 p nh).flatMap octets).length ≤ 32 := by
    rw [length_nextHops6]
    split <;> decide
  have hdata : (reachData p nh encoded).length ≤ 37 + encoded.length := by
    simp only [reachData, List.length_append, List.length_cons, List.length_nil]
    omega
  have hkinds : (announcement6 cfg p n nh encoded).kinds =
      14 :: (commonAttrs cfg p n).map Attribute.kind := by
    simp [UpdateSections.kinds, announcement6, mkAttr]
  refine ⟨?_, rfl, ?_, ⟨[], by simp, rfl⟩, ⟨[], by simp, rfl⟩, ?_, ?_, ?_⟩
  · intro a ha
    rcases List.mem_cons.mp ha with rfl | ha
    · exact mkAttr_fits rfl (by omega)
    · exact (common_short a ha).2
  · simp only [announcement6, UpdateSections.octets, List.flatMap_cons, List.length_append,
      BigEndian.length_encode, List.length_nil, maxMessage]
    omega
  · intro a ha
    rcases List.mem_cons.mp ha with rfl | ha
    · exact clean_reach nh h
    · exact clean_common hi a ha
  · rw [hkinds, common_kinds]
    split <;> split <;> decide
  · simp only [UpdateSections.Missing, hkinds, common_kinds, hi]
    by_cases hasn : cfg.asn = p.remoteAsn <;> simp [hasn, announcement6]

end Ubgp
