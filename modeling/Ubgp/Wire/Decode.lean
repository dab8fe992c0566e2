import Ubgp.Wire.Classify

/-! Decoding an UPDATE by its grammar, and the diagnostic decoder read as a walk over it. -/
namespace Ubgp

open SliceLoop (Control)

variable {b rest : Bytes} {u : UpdateSections} {a : Attribute} {v6 : Bool}

/-- A string cut into fields of equal width. -/
def fields (width : ℕ) (b : Bytes) : List Bytes :=
  (List.range (b.length / width)).map (fun i => (b.drop (i * width)).take width)

def familyBits (v6 : Bool) : ℕ := if v6 then 128 else 32

/-- The prefix a packed entry stands for; host bits of the last octet are cleared. -/
def NlriEntry.net (v6 : Bool) (e : NlriEntry) : Option IpNet :=
  (IpNet.new (if v6 then .v6 (ofOctets 128 (e.octets ++ List.replicate (16 - e.octets.length) 0))
    else .v4 (ofOctets 32 (e.octets ++ List.replicate (4 - e.octets.length) 0))) e.len.toNat).map
    IpNet.trunc

/-- Packed prefixes of one family. -/
def decodeNlri (v6 : Bool) (b : Bytes) : Option (List IpNet) :=
  let (entries, rest) := (nlriCode (familyBits v6)).walk b
  if rest = [] then entries.mapM (NlriEntry.net v6) else none

/-- The AS numbers of a path made of AS_SEQUENCE segments only. -/
def decodePath (width : ℕ) (b : Bytes) : Option (List ℕ) :=
  let (segments, rest) := (pathCode width).walk b
  if rest = [] ∧ segments.all (fun g => g.kind == 2) then
    some (segments.flatMap (fun g => (fields width g.octets).map BigEndian.decode))
  else none

/-- The prefixes of a multiprotocol attribute; unsupported families carry none. -/
def MpNlri.decode (m : MpNlri) : Option (List IpNet) :=
  if m.safi = 1 ∧ m.afi = 1 then decodeNlri false m.nlri
  else if m.safi = 1 ∧ m.afi = 2 then decodeNlri true m.nlri
  else some []

/-- The prefixes of an attribute that may be absent. -/
def mpPrefixes (decodeMp : Bytes → Option MpNlri) : Option Bytes → Option (List IpNet)
  | some data => (decodeMp data).bind MpNlri.decode
  | none => some []

/-- What an UPDATE says. -/
structure DecodedUpdate where
  withdrawn : List IpNet
  reachable : List IpNet
  origin : Option ℕ
  asPath : Option (List ℕ)
  as4Path : Option (List ℕ)
  nextHop : Option Ipv4Addr
  mpNextHops : Option (List Ipv6Addr)
  localPref : Option ℕ
  otherKinds : List UInt8

namespace UpdateSections

/-- The value of the first attribute of a type. -/
def value (u : UpdateSections) (kind : UInt8) : Option Bytes :=
  (u.attributes.find? (fun a => a.kind == kind)).map Attribute.data

/-- Prefixes with the decoded attributes of an UPDATE. -/
def contents (asn4 : Bool) (u : UpdateSections) (withdrawn reachable : List IpNet) :
    DecodedUpdate where
  withdrawn := withdrawn
  reachable := reachable
  origin := (u.value 1).map BigEndian.decode
  asPath := (u.value 2).bind (decodePath (if asn4 then 4 else 2))
  as4Path := (u.value 17).bind (decodePath 4)
  nextHop := (u.value 3).map (ofOctets 32)
  mpNextHops := ((u.value 14).bind decodeMpReach).map
    (fun m => (fields 16 m.nextHop).map (ofOctets 128))
  localPref := (u.value 5).map BigEndian.decode
  otherKinds := u.kinds.filter (fun k => !([1, 2, 3, 5, 14, 15, 17].contains k))

/-- Decode every section; `none` where one does not follow the grammar. -/
def decode (asn4 : Bool) (u : UpdateSections) : Option DecodedUpdate := do
  let withdrawn ← decodeNlri false u.withdrawn
  let nlri ← decodeNlri false u.nlri
  let unreach ← mpPrefixes decodeMpUnreach (u.value 15)
  let reach ← mpPrefixes decodeMpReach (u.value 14)
  return u.contents asn4 (withdrawn ++ unreach) (nlri ++ reach)

end UpdateSections

/-- Decode the body of an UPDATE whose attribute section is complete. -/
def decodeUpdate (asn4 : Bool) (b : Bytes) : Option DecodedUpdate := do
  let u ← parseUpdate b
  if u.rest = [] then u.decode asn4 else none

/-- The path after the merge of AS_PATH with AS4_PATH: the leading hops AS4_PATH does not cover
come from AS_PATH, and a longer AS4_PATH is ignored. -/
def mergePath (asn4 : Bool) (asPath as4Path : Option (List ℕ)) : Option (List ℕ) :=
  match asPath, as4Path with
  | some old, some new =>
    if asn4 ∨ old.length < new.length then some old
    else some (old.take (old.length - new.length) ++ new)
  | path, _ => path

def DecodedUpdate.path (asn4 : Bool) (d : DecodedUpdate) : Option (List ℕ) :=
  mergePath asn4 d.asPath d.as4Path

/-! The diagnostic decoder. -/

theorem familyBits_le (v6 : Bool) : familyBits v6 ≤ 128 := by
  cases v6 <;> decide

theorem prefixOctets_le {len : ℕ} (h : len ≤ familyBits v6) :
    prefixOctets len ≤ if v6 then 16 else 4 := by
  unfold prefixOctets
  cases v6 <;> simp [familyBits] at h ⊢ <;> omega

/-- A valid entry stands for a prefix, the one the diagnostic decoder builds. -/
theorem unwrapNet_eq {e : NlriEntry} (h : (nlriCode (familyBits v6)).Valid e) :
    ∃ net, e.net v6 = some net ∧
      unwrapNet v6 (e.octets ++ List.replicate (16 - prefixOctets e.len.toNat) 0) e.len.toNat =
        .ok net := by
  obtain ⟨hbits, hlen⟩ := h
  have hsize := prefixOctets_le hbits
  cases v6 with
  | true =>
    have hbits' : e.len.toNat ≤ 128 := hbits
    simp [NlriEntry.net, unwrapNet, IpNet.new, hbits', hlen]
  | false =>
    have hbits' : e.len.toNat ≤ 32 := hbits
    simp only [Bool.false_eq_true, if_false] at hsize
    have htake : (e.octets ++ List.replicate (16 - prefixOctets e.len.toNat) 0).take 4 =
        e.octets ++ List.replicate (4 - prefixOctets e.len.toNat) 0 := by
      rw [List.take_append, List.take_of_length_le (by omega), List.take_replicate, hlen]
      congr 2
      omega
    simp [NlriEntry.net, unwrapNet, IpNet.new, hbits', hlen, htake]

/-- Collect the prefix of one entry. -/
def collect (v6 : Bool) (out : List IpNet) (e : NlriEntry) : Result (List IpNet) :=
  match e.net v6 with
  | some net => .ok (out ++ [net])
  | none => .error .panic

theorem appendBody_some {e : NlriEntry} {out : List IpNet}
    (h : (nlriCode (familyBits v6)).head b = some (e, rest)) :
    appendBody v6 b out = (collect v6 out e).map (fun out => Control.next out rest) := by
  obtain ⟨hv, rfl⟩ := ((nlriCode (familyBits v6)).head_eq_some _ _ _).mp h
  obtain ⟨net, hnet, hunwrap⟩ := unwrapNet_eq hv
  obtain ⟨hbits, hlen⟩ := hv
  have hslice : slice (e.len :: (e.octets ++ rest)) 1 (1 + prefixOctets e.len.toNat) =
      .ok e.octets := by
    rw [← hlen]
    exact slice_mid [e.len] e.octets rest
  have hfrom : sliceFrom (e.len :: (e.octets ++ rest)) (1 + prefixOctets e.len.toNat) =
      .ok rest := by
    rw [← hlen, Nat.add_comm]
    exact sliceFrom_append (e.len :: e.octets) rest
  have hin : ¬ ((if v6 then 128 else 32) < e.len.toNat ∨
      (e.len :: (e.octets ++ rest)).length < prefixOctets e.len.toNat + 1) := by
    rintro (h | h)
    · exact absurd hbits (Nat.not_le.mpr h)
    · simp at h
      omega
  change appendBody v6 (e.len :: (e.octets ++ rest)) out = _
  simp only [appendBody, index_zero, ok_bind]
  rw [if_neg hin, hslice]
  simp only [ok_bind, hunwrap, hfrom, collect, hnet, pure_eq_ok]
  rfl

theorem appendBody_none {out : List IpNet} (hb : b ≠ [])
    (h : (nlriCode (familyBits v6)).head b = none) : appendBody v6 b out = .ok (.leave out) := by
  cases b with
  | nil => exact absurd rfl hb
  | cons len tail =>
    simp only [nlriCode, ite_eq_right_iff, reduceCtorEq, imp_false, not_and, not_le] at h
    have hout : (if v6 then 128 else 32) < len.toNat ∨
        (len :: tail).length < prefixOctets len.toNat + 1 := by
      by_cases hl : len.toNat ≤ familyBits v6
      · have := h hl
        exact Or.inr (by simp; omega)
      · exact Or.inl (Nat.lt_of_not_le hl)
    simp only [appendBody, index_zero, ok_bind]
    rw [if_pos hout, pure_eq_ok]

/-- Appending packed prefixes appends what the entries before a malformed one stand for. -/
theorem appendNlri_eq (v6 : Bool) (b : Bytes) (out : List IpNet) :
    ∃ nets, ((nlriCode (familyBits v6)).walk b).1.mapM (NlriEntry.net v6) = some nets ∧
      appendNlri v6 b out = .ok (out ++ nets) := by
  have hfold : ∀ (es : List NlriEntry) (out : List IpNet),
      (∀ e ∈ es, (nlriCode (familyBits v6)).Valid e) →
      ∃ nets, es.mapM (NlriEntry.net v6) = some nets ∧
        es.foldlM (collect v6) out = .ok (out ++ nets) := by
    intro es
    induction es with
    | nil => exact fun out _ => ⟨[], rfl, by simp⟩
    | cons e es ih =>
      intro out hv
      obtain ⟨net, hnet, -⟩ := unwrapNet_eq (hv e (by simp))
      obtain ⟨nets, hmap, hfold⟩ := ih (out ++ [net]) (fun e' h => hv e' (List.mem_cons_of_mem _ h))
      refine ⟨net :: nets, ?_, ?_⟩
      · simp [List.mapM_cons, hnet, hmap]
      · simp only [List.foldlM_cons, collect, hnet, ok_bind, hfold]
        simp
  obtain ⟨nets, hmap, hfold⟩ := hfold _ out ((nlriCode (familyBits v6)).walk_sound b).2.1
  refine ⟨nets, hmap, ?_⟩
  rw [appendNlri, Delimited.loop_walk (c := nlriCode (familyBits v6)) (f := collect v6)
    (fun _ out => .ok out) (fun _ _ _ _ h => appendBody_some h)
    (fun _ _ hb h => appendBody_none hb h), hfold, ok_bind]
  split <;> rfl

theorem prefixesBody_some {out : List IpNet} (h : attributeCode.head b = some (a, rest)) :
    prefixesBody b out = (appendMp a.kind a.data out).map (fun out => Control.next out rest) := by
  have hat := attributeAt_of_some h
  unfold prefixesBody
  rw [if_neg (Nat.not_lt.mpr hat.long), hat.flags, hat.kind]
  simp only [ok_bind]
  generalize (if isExtended a.flags then 4 else 3) = k at hat ⊢
  rw [if_neg (Nat.not_lt.mpr (Nat.le_trans (Nat.le_add_right _ _) hat.fits)), hat.length]
  simp only [ok_bind]
  rw [if_neg (Nat.not_lt.mpr hat.fits), hat.data, hat.rest]
  simp only [ok_bind]
  cases appendMp a.kind a.data out <;> rfl

theorem prefixesBody_none {out : List IpNet} (hb : b ≠ []) (h : attributeCode.head b = none) :
    prefixesBody b out = .ok (.leave out) := by
  unfold prefixesBody
  rcases attribute_cut hb h with hshort | ⟨flags, kind, x, tail, rfl, hcut⟩
  · rw [if_pos hshort, pure_eq_ok]
  · rw [if_neg (by simp)]
    simp only [index_zero, ok_bind]
    rcases hcut with ⟨he, rfl⟩ | ⟨-, l, hl, hlt⟩
    · simp [he]
    · generalize (if isExtended flags then 4 else 3) = k at hl hlt ⊢
      rw [hl, ok_bind, if_pos hlt]
      split <;> rfl

/-- The diagnostic decoder on an MP_REACH_NLRI that has all its fields. -/
theorem appendMp_unicast {data : Bytes} {m : MpNlri} (hm : decodeMpReach data = some m)
    (hu : m.Unicast) (out : List IpNet) :
    appendMp 14 data out = appendNlri (m.afi == 2) m.nlri out := by
  rcases data with - | ⟨x, - | ⟨y, - | ⟨safi, - | ⟨len, rest⟩⟩⟩⟩
  iterate 4 cases hm
  simp only [decodeMpReach, Option.ite_none_right_eq_some, Option.some.injEq] at hm
  obtain ⟨hlen, rfl⟩ := hm
  have hfive : 5 ≤ (x :: y :: safi :: len :: rest).length := by simp; omega
  have hstart : 5 + len.toNat ≤ (x :: y :: safi :: len :: rest).length := by simp; omega
  have hfrom : sliceFrom (x :: y :: safi :: len :: rest) (5 + len.toNat) =
      .ok (rest.drop (len.toNat + 1)) := by
    rw [sliceFrom, if_pos hstart, show 5 + len.toNat = len.toNat + 1 + 4 by omega]
    rfl
  obtain ⟨hs, hafi⟩ := hu
  simp only [appendMp, hfive, and_self, if_true, index_succ, index_zero, ok_bind, u16b_cons, hstart,
    true_and, hfrom]
  rw [if_pos hs, if_pos hafi]

theorem appendMp_not_unicast {data : Bytes} {m : MpNlri} (hm : decodeMpReach data = some m)
    (hu : ¬ m.Unicast) (out : List IpNet) : appendMp 14 data out = .ok out := by
  rcases data with - | ⟨x, - | ⟨y, - | ⟨safi, - | ⟨len, rest⟩⟩⟩⟩
  iterate 4 cases hm
  simp only [decodeMpReach, Option.ite_none_right_eq_some, Option.some.injEq] at hm
  obtain ⟨hlen, rfl⟩ := hm
  have hfive : 5 ≤ (x :: y :: safi :: len :: rest).length := by simp; omega
  simp only [appendMp, hfive, and_self, if_true, index_succ, index_zero, ok_bind, u16b_cons]
  split
  · rename_i hs
    rw [if_neg (fun h => hu ⟨hs, h.2⟩)]
    rfl
  · rfl

/-- Attributes other than MP_REACH_NLRI carry no reachable prefixes. -/
theorem appendMp_others {as : List Attribute} (out : List IpNet) (h : ∀ a ∈ as, a.kind ≠ 14) :
    as.foldlM (fun out a => appendMp a.kind a.data out) out = (.ok out : Result _) := by
  induction as with
  | nil => rfl
  | cons a as ih =>
    have ha : a.kind ≠ 14 := h a (by simp)
    simp only [List.foldlM_cons, appendMp, ha, false_and, if_false, pure_eq_ok, ok_bind]
    exact ih (fun b hb => h b (List.mem_cons_of_mem _ hb))

/-- The diagnostic decoder on a parsed UPDATE. -/
theorem updatePrefixes_parsed (hp : parseUpdate b = some u) :
    updatePrefixes b = appendNlri false u.nlri [] >>= fun out =>
      u.attributes.foldlM (fun out a => appendMp a.kind a.data out) out := by
  obtain ⟨attrs, hat⟩ := updateAt_of_parse hp
  obtain ⟨r, hr, hlen⟩ := hat.attrsLength
  have hfits := hat.fits
  have hloop : ∀ out, SliceLoop.loop prefixesBody attrs out =
      u.attributes.foldlM (fun out a => appendMp a.kind a.data out) out := by
    intro out
    rw [Delimited.loop_walk (c := attributeCode) (f := fun out a => appendMp a.kind a.data out)
      (fun _ out => .ok out) (fun _ _ _ _ h => prefixesBody_some h)
      (fun _ _ hb h => prefixesBody_none hb h), hat.walk]
    simp only [ite_self]
    cases u.attributes.foldlM (fun out a => appendMp a.kind a.data out) out <;> rfl
  unfold updatePrefixes
  rw [if_neg (by omega), hat.withdrawnLength, ok_bind, if_neg (by omega), hr, ok_bind, hlen,
    ok_bind, if_neg (by omega), hat.nlri, ok_bind, hat.attrs]
  simp only [ok_bind, hloop]

end Ubgp
