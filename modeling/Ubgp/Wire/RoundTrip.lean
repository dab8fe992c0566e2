import Ubgp.Wire.Sections

/-! The round trip: what `update` writes is valid and decodes to what it was given. -/
namespace Ubgp

variable {cfg : Config} {p : Peer} {n : Negotiated} {prefixes : List IpNet} {encoded : Bytes}
  {v6 withdraw : Bool}

/-- Nothing but withdrawn routes. -/
structure DecodedUpdate.Withdraws (prefixes : List IpNet) (d : DecodedUpdate) : Prop where
  withdrawn : d.withdrawn = prefixes.map IpNet.trunc
  reachable : d.reachable = []

/-- Nothing but reachable routes, with the attributes this daemon originates them with. -/
structure DecodedUpdate.Announces (cfg : Config) (p : Peer) (n : Negotiated) (v6 : Bool)
    (prefixes : List IpNet) (d : DecodedUpdate) : Prop where
  withdrawn : d.withdrawn = []
  reachable : d.reachable = prefixes.map IpNet.trunc
  origin : d.origin = some 2
  nextHop : d.nextHop = if v6 then none else p.nh4
  mpNextHops : d.mpNextHops =
    if v6 then p.nh6.map (fun a => a :: p.nextHopV6LinkLocal.toList) else none
  localPref : d.localPref = if n.internal then some 100 else none
  path : d.path n.asn4 = some (if n.internal then [] else [cfg.asn.toNat])
  otherKinds : d.otherKinds = []

/-! Fields. -/

theorem fields_single {width : ℕ} {b : Bytes} (h : b.length = width) (hw : 0 < width) :
    fields width b = [b] := by
  subst h
  simp [fields, Nat.div_self hw]

theorem fields_pair {width : ℕ} {b c : Bytes} (hb : b.length = width) (hc : c.length = width)
    (hw : 0 < width) : fields width (b ++ c) = [b, c] := by
  have htwo : (b ++ c).length / width = 2 := by
    rw [List.length_append, hb, hc, ← Nat.two_mul, Nat.mul_div_cancel _ hw]
  have hdrop : (b ++ c).drop width = c := by rw [← hb, List.drop_left]
  have htake : (b ++ c).take width = b := by rw [← hb, List.take_left]
  simp only [fields, htwo, List.range_succ, List.range_zero, List.map_append, List.map_cons,
    List.map_nil, List.nil_append, Nat.zero_mul, List.drop_zero, Nat.one_mul, hdrop, htake]
  rw [List.take_of_length_le hc.le]
  rfl

theorem decodePath_sequence (width : ℕ) {asn : ℕ} (hw : 0 < width) (h : asn < 256 ^ width) :
    decodePath width ([2, 1] ++ BigEndian.encode width asn) = some [asn] := by
  have hfield := fields_single (BigEndian.length_encode width asn) hw
  simp only [decodePath, walk_sequence, sequenceOf, List.flatMap_cons, List.flatMap_nil, hfield]
  simp [Nat.mod_eq_of_lt h]

theorem visibleAsn_lt : visibleAsn cfg n < 256 ^ (if n.asn4 then 4 else 2) := by
  have h := cfg.asn.toNat_lt
  unfold visibleAsn
  split
  · omega
  · split <;> omega

theorem decodePath_pathData : decodePath (if n.asn4 then 4 else 2) (pathData cfg p n) =
    some (if cfg.asn = p.remoteAsn then [] else [visibleAsn cfg n]) := by
  rw [pathData_eq]
  by_cases hi : cfg.asn = p.remoteAsn
  · simp [decodePath, Delimited.walk_of_none Delimited.head_nil, hi]
  · rw [if_neg hi, if_neg hi]
    exact decodePath_sequence _ (by split <;> decide) visibleAsn_lt

/-- The merged path of an announcement is the local AS number, also for a two-octet peer that
sees AS_TRANS. -/
theorem mergePath_sent : mergePath n.asn4
    (some (if cfg.asn = p.remoteAsn then [] else [visibleAsn cfg n]))
    (if needsAs4 cfg p n then some [cfg.asn.toNat] else none) =
      some (if cfg.asn = p.remoteAsn then [] else [cfg.asn.toNat]) := by
  by_cases hi : cfg.asn = p.remoteAsn
  · simp [needsAs4, mergePath, hi]
  · cases h4 : n.asn4 with
    | true => simp [needsAs4, mergePath, hi, visibleAsn, h4]
    | false =>
      by_cases hbig : cfg.asn.toNat < 65536
      · have : ¬ 65535 < cfg.asn.toNat := by omega
        simp [needsAs4, mergePath, hi, visibleAsn, h4, hbig, this]
      · have : 65535 < cfg.asn.toNat := by omega
        simp [needsAs4, mergePath, hi, visibleAsn, h4, this]

/-! The attributes of an announcement, by type. -/

theorem find_mkAttr (flags k kind : UInt8) (data : Bytes) (l : List Attribute) :
    ((mkAttr flags k data :: l).find? (fun a => a.kind == kind)).map Attribute.data =
      if kind = k then some data else (l.find? (fun a => a.kind == kind)).map Attribute.data := by
  by_cases h : kind = k
  · simp [mkAttr, h]
  · simp [mkAttr, h, Ne.symm h]

/-- The value of a type among the common attributes. -/
def commonValue (cfg : Config) (p : Peer) (n : Negotiated) (kind : UInt8) : Option Bytes :=
  if kind = 1 then some [2]
  else if kind = 2 then some (pathData cfg p n)
  else if kind = 17 ∧ needsAs4 cfg p n then some ([2, 1] ++ BigEndian.encode 4 cfg.asn.toNat)
  else if kind = 5 ∧ cfg.asn = p.remoteAsn then some (BigEndian.encode 4 100)
  else none

theorem find_common (kind : UInt8) :
    ((commonAttrs cfg p n).find? (fun a => a.kind == kind)).map Attribute.data =
      commonValue cfg p n kind := by
  unfold commonAttrs commonValue
  cases needsAs4 cfg p n <;> by_cases hi : cfg.asn = p.remoteAsn <;>
    simp only [hi, if_true, if_false, Bool.false_eq_true, List.cons_append, List.nil_append,
      List.append_nil, find_mkAttr, List.find?_nil, Option.map_none, and_true, and_false]

theorem value_announcement4 (nh : Ipv4Addr) (kind : UInt8) :
    (announcement4 cfg p n nh encoded).value kind =
      (commonValue cfg p n kind).or (if kind = 3 then some (octets nh) else none) := by
  simp only [UpdateSections.value, announcement4, List.find?_append, Option.map_or, find_common,
    find_mkAttr, List.find?_nil, Option.map_none]

theorem value_announcement6 (nh : Ipv6Addr) (kind : UInt8) :
    (announcement6 cfg p n nh encoded).value kind =
      if kind = 14 then some (reachData p nh encoded) else commonValue cfg p n kind := by
  simp only [UpdateSections.value, announcement6, find_mkAttr, find_common]

/-- The attributes both families share decode to the same origin, path and preference. -/
theorem commonValue_decodes (hi : n.internal = (cfg.asn == p.remoteAsn)) :
    (commonValue cfg p n 1).map BigEndian.decode = some 2 ∧
      (commonValue cfg p n 5).map BigEndian.decode = (if n.internal then some 100 else none) ∧
      mergePath n.asn4
        ((commonValue cfg p n 2).bind (decodePath (if n.asn4 then 4 else 2)))
        ((commonValue cfg p n 17).bind (decodePath 4)) =
          some (if n.internal then [] else [cfg.asn.toNat]) := by
  have hlt := cfg.asn.toNat_lt
  have h4 : (commonValue cfg p n 17).bind (decodePath 4) =
      if needsAs4 cfg p n then some [cfg.asn.toNat] else none := by
    cases h : needsAs4 cfg p n with
    | true =>
      simp only [commonValue, h]
      exact decodePath_sequence 4 (by decide) (by omega)
    | false => simp [commonValue, h]
  have h2 : (commonValue cfg p n 2).bind (decodePath (if n.asn4 then 4 else 2)) =
      some (if cfg.asn = p.remoteAsn then [] else [visibleAsn cfg n]) :=
    decodePath_pathData
  refine ⟨rfl, ?_, ?_⟩
  · by_cases hasn : cfg.asn = p.remoteAsn <;> simp [commonValue, hi, hasn]
  · rw [h2, h4, mergePath_sent, hi]
    simp

theorem decodeNlri_nil (v6 : Bool) : decodeNlri v6 [] = some [] := by
  have hnone : ∀ q ∈ ([] : List IpNet), q.isIpv6 = v6 := by simp
  exact decodeNlri_flatMap hnone

theorem UpdateSections.decode_eq {u : UpdateSections} {withdrawn nlri unreach reach : List IpNet}
    (hw : decodeNlri false u.withdrawn = some withdrawn) (hn : decodeNlri false u.nlri = some nlri)
    (hu : mpPrefixes decodeMpUnreach (u.value 15) = some unreach)
    (hr : mpPrefixes decodeMpReach (u.value 14) = some reach) (asn4 : Bool) :
    u.decode asn4 = some (u.contents asn4 (withdrawn ++ unreach) (nlri ++ reach)) := by
  simp only [UpdateSections.decode, hw, hn, hu, hr, Option.bind_eq_bind, Option.bind_some]
  rfl

theorem decode_withdrawal (asn4 : Bool) {nets : List IpNet}
    (h : decodeNlri v6 encoded = some nets) :
    (withdrawalOf v6 encoded).decode asn4 =
      some ((withdrawalOf v6 encoded).contents asn4 nets []) := by
  cases v6 with
  | false =>
    rw [UpdateSections.decode_eq (u := withdrawalOf false encoded) h (decodeNlri_nil _) rfl rfl]
    simp
  | true =>
    exact UpdateSections.decode_eq (u := withdrawalOf true encoded) (decodeNlri_nil _)
      (decodeNlri_nil _) h rfl asn4

theorem decode_announcement4 (nh : Ipv4Addr) {nets : List IpNet}
    (h : decodeNlri false encoded = some nets) :
    (announcement4 cfg p n nh encoded).decode n.asn4 =
      some ((announcement4 cfg p n nh encoded).contents n.asn4 [] nets) := by
  have hmp : ∀ kind ∈ [14, 15], (announcement4 cfg p n nh encoded).value kind = none := by
    simp [value_announcement4, commonValue]
  have hu : mpPrefixes decodeMpUnreach ((announcement4 cfg p n nh encoded).value 15) = some [] := by
    rw [hmp 15 (by simp)]
    rfl
  have hr : mpPrefixes decodeMpReach ((announcement4 cfg p n nh encoded).value 14) = some [] := by
    rw [hmp 14 (by simp)]
    rfl
  rw [UpdateSections.decode_eq (decodeNlri_nil _) h hu hr]
  simp

theorem decode_announcement6 (nh : Ipv6Addr) {nets : List IpNet}
    (h : decodeNlri true encoded = some nets) :
    (announcement6 cfg p n nh encoded).decode n.asn4 =
      some ((announcement6 cfg p n nh encoded).contents n.asn4 [] nets) := by
  have hunreach : (announcement6 cfg p n nh encoded).value 15 = none := by
    simp [value_announcement6, commonValue]
  have hreach : (announcement6 cfg p n nh encoded).value 14 = some (reachData p nh encoded) :=
    value_announcement6 nh 14
  refine UpdateSections.decode_eq (u := announcement6 cfg p n nh encoded) (decodeNlri_nil _)
    (decodeNlri_nil _) ?_ ?_ n.asn4
  · rw [hunreach]
    rfl
  · rw [hreach, mpPrefixes, decodeMpReach_sent]
    exact h

theorem common_recognised : ((commonAttrs cfg p n).map Attribute.kind).filter
    (fun k => !([1, 2, 3, 5, 14, 15, 17].contains k)) = [] := by
  rw [common_kinds]
  split <;> split <;> rfl

theorem announces4 {nh : Ipv4Addr} (hi : n.internal = (cfg.asn == p.remoteAsn))
    (h : p.nh4 = some nh) :
    ((announcement4 cfg p n nh encoded).contents n.asn4 [] (prefixes.map IpNet.trunc)).Announces
      cfg p n false prefixes := by
  obtain ⟨horigin, hpref, hpath⟩ := commonValue_decodes (p := p) hi
  have hvalue : ∀ kind, kind ≠ 3 → (announcement4 cfg p n nh encoded).value kind =
      commonValue cfg p n kind := by
    intro kind hkind
    simp [value_announcement4, hkind]
  constructor
  case withdrawn => rfl
  case reachable => rfl
  case origin => rwa [UpdateSections.contents, hvalue 1 (by decide)]
  case nextHop =>
    simp [UpdateSections.contents, value_announcement4, commonValue, h, ofOctets_octets]
  case mpNextHops => simp [UpdateSections.contents, value_announcement4, commonValue]
  case localPref => rwa [UpdateSections.contents, hvalue 5 (by decide)]
  case path =>
    rwa [DecodedUpdate.path, UpdateSections.contents, hvalue 2 (by decide), hvalue 17 (by decide)]
  case otherKinds =>
    simp only [UpdateSections.contents, UpdateSections.kinds, announcement4, List.map_append,
      List.filter_append, common_recognised]
    rfl

theorem nextHops6_fields (p : Peer) (nh : Ipv6Addr) :
    (fields 16 ((nextHops6 p nh).flatMap octets)).map (ofOctets 128) =
      nh :: p.nextHopV6LinkLocal.toList := by
  have hlen (a : Ipv6Addr) : (octets a).length = 16 := by simp
  have hback (a : Ipv6Addr) : ofOctets 128 (octets a) = a := ofOctets_octets (by decide) a
  cases h : p.nextHopV6LinkLocal with
  | none => simp [nextHops6, h, fields_single (hlen nh), hback]
  | some a => simp [nextHops6, h, fields_pair (hlen nh) (hlen a), hback]

theorem announces6 {nh : Ipv6Addr} (hi : n.internal = (cfg.asn == p.remoteAsn))
    (h : p.nh6 = some nh) :
    ((announcement6 cfg p n nh encoded).contents n.asn4 [] (prefixes.map IpNet.trunc)).Announces
      cfg p n true prefixes := by
  obtain ⟨horigin, hpref, hpath⟩ := commonValue_decodes (p := p) hi
  have hvalue : ∀ kind, kind ≠ 14 → (announcement6 cfg p n nh encoded).value kind =
      commonValue cfg p n kind := by
    intro kind hkind
    simp [value_announcement6, hkind]
  constructor
  case withdrawn => rfl
  case reachable => rfl
  case origin => rwa [UpdateSections.contents, hvalue 1 (by decide)]
  case nextHop => simp [UpdateSections.contents, value_announcement6, commonValue]
  case mpNextHops =>
    simp [UpdateSections.contents, value_announcement6, decodeMpReach_sent, nextHops6_fields, h]
  case localPref => rwa [UpdateSections.contents, hvalue 5 (by decide)]
  case path =>
    rwa [DecodedUpdate.path, UpdateSections.contents, hvalue 2 (by decide), hvalue 17 (by decide)]
  case otherKinds =>
    have hkinds : (announcement6 cfg p n nh encoded).kinds =
        14 :: (commonAttrs cfg p n).map Attribute.kind := rfl
    rw [UpdateSections.contents, hkinds, List.filter_cons_of_neg (by decide), common_recognised]

/-! The diagnostic decoder. -/

theorem common_not_reach : ∀ a ∈ commonAttrs cfg p n, a.kind ≠ 14 := by
  intro a ha heq
  have hmem : a.kind ∈ (commonAttrs cfg p n).map Attribute.kind := List.mem_map_of_mem ha
  rw [common_kinds, heq] at hmem
  revert hmem
  split <;> split <;> simp

theorem appendMp_sent (p : Peer) (nh : Ipv6Addr) (out : List IpNet) :
    appendMp 14 (reachData p nh encoded) out = appendNlri true encoded out := by
  exact appendMp_unicast (decodeMpReach_sent p nh encoded) ⟨rfl, Or.inr rfl⟩ out

/-! The encoder. -/

theorem update_eq (hne : prefixes ≠ []) (hlen : prefixes.length ≤ maxUpdatePrefixes)
    (hf : ∀ q ∈ prefixes, q.isIpv6 = v6) :
    update cfg p n prefixes withdraw =
      updateBody cfg p n v6 (prefixes.flatMap nlri) withdraw >>= frame UPDATE := by
  cases prefixes with
  | nil => exact absurd rfl hne
  | cons q qs =>
    have hq := hf q (by simp)
    have hall : (q :: qs).all (fun r => r.isIpv6 == q.isIpv6) = true := by
      simp only [List.all_eq_true, beq_iff_eq]
      intro r hr
      rw [hf r hr, hq]
    rw [update, if_pos ⟨hlen, hall⟩, hq]

/-- A body of sendable sections is framed, valid and decoded section by section. -/
theorem update_sendable {u : UpdateSections} (h : Sendable n u) (hne : prefixes ≠ [])
    (hlen : prefixes.length ≤ maxUpdatePrefixes) (hf : ∀ q ∈ prefixes, q.isIpv6 = v6)
    (hbody : updateBody cfg p n v6 (prefixes.flatMap nlri) withdraw = .ok u.octets) :
    ∃ m, update cfg p n prefixes withdraw = .ok m ∧
      validateUpdate (m.drop 19) n = .ok .valid ∧
      decodeUpdate n.asn4 (m.drop 19) = u.decode n.asn4 ∧
      updatePrefixes (m.drop 19) = appendNlri false u.nlri [] >>= fun out =>
        u.attributes.foldlM (fun out a => appendMp a.kind a.data out) out := by
  obtain ⟨m, hm, hdrop⟩ := h.framed
  refine ⟨m, ?_, ?_, ?_, ?_⟩
  · rw [update_eq hne hlen hf, hbody, ok_bind, hm]
  · rw [hdrop, h.valid]
  · simp [decodeUpdate, hdrop, h.parse, h.rest]
  · rw [hdrop, updatePrefixes_parsed h.parse]

/-- A batch of one family is encoded to a valid UPDATE that decodes to exactly the truncated
prefixes, on the side asked for and with the originated attributes. -/
theorem update_round_trip (hi : n.internal = (cfg.asn == p.remoteAsn)) (hne : prefixes ≠ [])
    (hlen : prefixes.length ≤ 200) (hf : ∀ q ∈ prefixes, q.isIpv6 = v6)
    (h4 : withdraw = false → v6 = false → ∃ nh, p.nh4 = some nh ∧ validV4 nh = true)
    (h6 : withdraw = false → v6 = true → ∃ nh, p.nh6 = some nh) :
    ∃ m d, update cfg p n prefixes withdraw = .ok m ∧
      validateUpdate (m.drop 19) n = .ok .valid ∧
      decodeUpdate n.asn4 (m.drop 19) = some d ∧
      updatePrefixes (m.drop 19) = .ok (if withdraw then [] else prefixes.map IpNet.trunc) ∧
      if withdraw then d.Withdraws prefixes else d.Announces cfg p n v6 prefixes := by
  have hsize : (prefixes.flatMap nlri).length ≤ 3400 :=
    (length_flatMap_nlri prefixes).trans (by omega)
  have hpacked := packed_flatMap hf
  have hdecode := decodeNlri_flatMap hf
  cases withdraw with
  | true =>
    obtain ⟨m, hm, hvalid, hd, hprefixes⟩ :=
      update_sendable (sendable_withdrawal (n := n) hpacked hsize) hne hlen hf
        (updateBody_withdraw cfg p)
    refine ⟨m, _, hm, hvalid, hd.trans (decode_withdrawal n.asn4 hdecode), ?_, ⟨rfl, rfl⟩⟩
    rw [hprefixes]
    cases v6 <;> rfl
  | false =>
    cases v6 with
    | false =>
      obtain ⟨nh, hnh, hvalid4⟩ := h4 rfl rfl
      obtain ⟨m, hm, hvalid, hd, hprefixes⟩ :=
        update_sendable (sendable_announcement4 hvalid4 hi hpacked hsize) hne hlen hf
          (updateBody_announce4 hnh)
      refine ⟨m, _, hm, hvalid, hd.trans (decode_announcement4 nh hdecode), ?_,
        announces4 hi hnh⟩
      have happend := appendNlri_flatMap hf []
      rw [hprefixes]
      change appendNlri false (prefixes.flatMap nlri) [] >>= _ = _
      rw [happend, ok_bind]
      refine appendMp_others _ (fun a ha => ?_)
      rcases List.mem_append.mp ha with ha | ha
      · exact common_not_reach a ha
      · obtain rfl := List.mem_singleton.mp ha
        simp [mkAttr]
    | true =>
      obtain ⟨nh, hnh⟩ := h6 rfl rfl
      obtain ⟨m, hm, hvalid, hd, hprefixes⟩ :=
        update_sendable (sendable_announcement6 hi hpacked hsize) hne hlen hf
          (updateBody_announce6 hnh)
      refine ⟨m, _, hm, hvalid, hd.trans (decode_announcement6 nh hdecode), ?_,
        announces6 hi hnh⟩
      have happend := appendNlri_flatMap hf []
      rw [hprefixes]
      change (.ok [] : Result _) >>= _ = _
      rw [ok_bind]
      change appendMp 14 (reachData p nh _) [] >>= _ = _
      rw [appendMp_sent, happend, ok_bind]
      exact appendMp_others _ common_not_reach

theorem example_update_round_trip :
    ∃ m, update exampleConfig examplePeer ⟨0xC0000202#32, 90, false, false, true, false⟩
        [.v4 ⟨0xC6336407#32, 24, by decide⟩] false = .ok m ∧
      updatePrefixes (m.drop 19) = .ok [examplePrefix] := by
  obtain ⟨m, -, hm, -, -, hprefixes, -⟩ := @update_round_trip exampleConfig examplePeer
    ⟨0xC0000202#32, 90, false, false, true, false⟩ [.v4 ⟨0xC6336407#32, 24, by decide⟩] false false
    (by decide) (by simp) (by simp) (by simp [IpNet.isIpv6]) (fun _ _ => ⟨_, rfl, by decide⟩)
    (fun _ h => absurd h (by decide))
  exact ⟨m, hm, hprefixes.trans rfl⟩

end Ubgp
