import Ubgp.Wire.Severity
import Ubgp.Wire.Walk

/-! UPDATE classification: the validator computes the reference severity. -/
namespace Ubgp

variable {b rest : Bytes} {n : Negotiated} {u : UpdateSections} {a : Attribute} {s : Scan}
  {earlier : List UInt8}

/-! The sections as the validator reads them. -/

theorem lengthPrefixed_eq_some {m r : Bytes} : lengthPrefixed b = some (m, r) ↔
    ∃ x y : UInt8, b = x :: y :: (m ++ r) ∧ x.toNat * 256 + y.toNat = m.length := by
  constructor
  · intro h
    match b, h with
    | x :: y :: tail, h =>
      simp only [lengthPrefixed, Option.ite_none_right_eq_some, Option.some.injEq,
        Prod.mk.injEq] at h
      obtain ⟨hle, rfl, rfl⟩ := h
      exact ⟨x, y, by simp, by simpa using hle⟩
  · rintro ⟨x, y, rfl, hl⟩
    simp [lengthPrefixed, hl]

theorem lengthPrefixed_eq_none {x y : UInt8} {tail : Bytes}
    (h : lengthPrefixed (x :: y :: tail) = none) : tail.length < x.toNat * 256 + y.toNat := by
  simpa [lengthPrefixed] using h

theorem parseUpdate_eq_some (h : parseUpdate b = some u) :
    ∃ x y x' y' attrs, b = x :: y :: (u.withdrawn ++ (x' :: y' :: (attrs ++ u.nlri))) ∧
      x.toNat * 256 + y.toNat = u.withdrawn.length ∧ x'.toNat * 256 + y'.toNat = attrs.length ∧
      attributeCode.walk attrs = (u.attributes, u.rest) := by
  simp only [parseUpdate, Option.bind_eq_bind, Option.bind_eq_some_iff, Prod.exists] at h
  obtain ⟨withdrawn, r, hw, attrs, nlri, ha, h⟩ := h
  cases h
  obtain ⟨x, y, rfl, hx⟩ := lengthPrefixed_eq_some.mp hw
  obtain ⟨x', y', rfl, hx'⟩ := lengthPrefixed_eq_some.mp ha
  exact ⟨x, y, x', y', attrs, rfl, hx, hx', rfl⟩

/-- Where the sections of a parsed UPDATE lie. -/
structure UpdateAt (b : Bytes) (u : UpdateSections) (attrs : Bytes) : Prop where
  walk : attributeCode.walk attrs = (u.attributes, u.rest)
  withdrawnLength : u16b b = .ok u.withdrawn.length
  withdrawn : slice b 2 (2 + u.withdrawn.length) = .ok u.withdrawn
  attrsLength : ∃ r, sliceFrom b (2 + u.withdrawn.length) = .ok r ∧ u16b r = .ok attrs.length
  fits : u.withdrawn.length + attrs.length + 4 ≤ b.length
  nlri : sliceFrom b (4 + u.withdrawn.length + attrs.length) = .ok u.nlri
  attrs : slice b (4 + u.withdrawn.length) (4 + u.withdrawn.length + attrs.length) = .ok attrs

theorem updateAt_of_parse (h : parseUpdate b = some u) : ∃ attrs, UpdateAt b u attrs := by
  obtain ⟨x, y, x', y', attrs, rfl, hx, hx', hwalk⟩ := parseUpdate_eq_some h
  have hsplit : x :: y :: (u.withdrawn ++ (x' :: y' :: (attrs ++ u.nlri))) =
      (x :: y :: u.withdrawn ++ [x', y']) ++ (attrs ++ u.nlri) := by simp
  have hlen : (x :: y :: u.withdrawn ++ [x', y']).length = 4 + u.withdrawn.length := by
    simp
    omega
  refine ⟨attrs, hwalk, ?_, slice_mid [x, y] u.withdrawn _,
    ⟨x' :: y' :: (attrs ++ u.nlri), ?_, ?_⟩, ?_, ?_, ?_⟩
  · rw [u16b_cons, hx]
  · rw [Nat.add_comm]
    exact sliceFrom_append (x :: y :: u.withdrawn) _
  · rw [u16b_cons, hx']
  · simp
    omega
  · have := sliceFrom_append ((x :: y :: u.withdrawn ++ [x', y']) ++ attrs) u.nlri
    rw [List.length_append, hlen] at this
    rwa [hsplit, ← List.append_assoc]
  · rw [hsplit, ← hlen]
    exact slice_mid _ _ _

theorem validateUpdate_some (h : parseUpdate b = some u) :
    validateUpdate b n = (do
      validateNlri u.withdrawn 32
      validateNlri u.nlri 32
      let s ← u.attributes.foldlM (readNext n) Scan.start
      let s' ← finishScan u.rest s
      conclude n u.nlri s') := by
  obtain ⟨attrs, hat⟩ := updateAt_of_parse h
  obtain ⟨r, hr, hlen⟩ := hat.attrsLength
  have hfits := hat.fits
  have hlong : decide (4 ≤ b.length) = true := decide_eq_true (by omega)
  have hw : decide (u.withdrawn.length + 4 ≤ b.length) = true := decide_eq_true (by omega)
  simp only [validateUpdate, hlong, hat.withdrawnLength, hw, hat.withdrawn, hr, hlen, hfits,
    decide_true, hat.nlri, hat.attrs, require_true, ok_bind, attributeLoop_eq, hat.walk,
    bind_assoc]

theorem validateNlri_protocol (b : Bytes) (bits : ℕ) :
    validateNlri b bits = .ok () ∨ ∃ e, validateNlri b bits = .error (.protocol e) := by
  rw [validateNlri_eq]
  split
  · exact Or.inl rfl
  · exact Or.inr ⟨_, rfl⟩

/-- The length checks of the code are those of the grammar. -/
theorem validateUpdate_none (h : parseUpdate b = none) :
    ∃ e, validateUpdate b n = .error (.protocol e) := by
  by_cases hlen : 4 ≤ b.length
  · match b, hlen with
    | x :: y :: tail, hlen =>
      have hlen' : decide (4 ≤ (x :: y :: tail).length) = true := by simpa using hlen
      obtain ⟨w, hw⟩ : ∃ w, x.toNat * 256 + y.toNat = w := ⟨_, rfl⟩
      have hu : u16b (x :: y :: tail) = .ok w := by rw [u16b_cons, hw]
      simp only [validateUpdate, hlen', require_true, ok_bind, hu]
      by_cases hfit : w + 4 ≤ (x :: y :: tail).length
      · simp only [hfit, decide_true, require_true, ok_bind]
        simp only [List.length_cons] at hfit
        obtain ⟨m, r, rfl, rfl⟩ : ∃ m r, tail = m ++ r ∧ m.length = w :=
          ⟨tail.take w, tail.drop w, by simp, by simp; omega⟩
        have hfirst : lengthPrefixed (x :: y :: (m ++ r)) = some (m, r) :=
          lengthPrefixed_eq_some.mpr ⟨x, y, rfl, hw⟩
        have hs₁ : slice (x :: y :: (m ++ r)) 2 (2 + m.length) = .ok m := slice_mid [x, y] m r
        have hs₂ : sliceFrom (x :: y :: (m ++ r)) (2 + m.length) = .ok r := by
          rw [Nat.add_comm]
          exact sliceFrom_append (x :: y :: m) r
        simp only [hs₁, hs₂, ok_bind]
        rcases validateNlri_protocol m 32 with hn | ⟨e, hn⟩
        · match r, hfit with
          | x' :: y' :: tail', _ =>
            simp only [parseUpdate, hfirst, Option.bind_eq_bind, Option.bind_some,
              Option.bind_eq_none_iff, Prod.forall] at h
            have hsecond : lengthPrefixed (x' :: y' :: tail') = none := by
              cases hl : lengthPrefixed (x' :: y' :: tail') with
              | none => rfl
              | some p => exact absurd (h p.1 p.2 hl) (by simp)
            have hlt := lengthPrefixed_eq_none hsecond
            have hreq : decide (m.length + (x'.toNat * 256 + y'.toNat) + 4 ≤
                (x :: y :: (m ++ x' :: y' :: tail')).length) = false := by
              simp
              omega
            simp only [hn, ok_bind, u16b_cons, hreq, require_false, error_bind]
            exact ⟨_, rfl⟩
          | [_], hfit => simp at hfit
          | [], hfit => simp at hfit
        · simp only [hn, error_bind]
          exact ⟨e, rfl⟩
      · simp only [hfit, decide_false, require_false, error_bind]
        exact ⟨_, rfl⟩
  · simp only [validateUpdate, hlen, decide_false, require_false, error_bind]
    exact ⟨_, rfl⟩

/-! Single attributes. -/

theorem flags_wellKnown (x : UInt8) :
    (x &&& 0xc0 == 0x40 && (x &&& 0x20 == 0 || (0x40 : UInt8) == 0xc0)) = true ↔
      (x.toNat / 128 % 2 == 1) = false ∧ (x.toNat / 64 % 2 == 1) = true ∧
        (x.toNat / 32 % 2 == 1) = false := by
  obtain ⟨v⟩ := x
  revert v
  decide +kernel

theorem flags_optional (x : UInt8) :
    (x &&& 0xc0 == 0x80 && (x &&& 0x20 == 0 || (0x80 : UInt8) == 0xc0)) = true ↔
      (x.toNat / 128 % 2 == 1) = true ∧ (x.toNat / 64 % 2 == 1) = false ∧
        (x.toNat / 32 % 2 == 1) = false := by
  obtain ⟨v⟩ := x
  revert v
  decide +kernel

theorem flags_optionalTransitive (x : UInt8) :
    (x &&& 0xc0 == 0xc0 && (x &&& 0x20 == 0 || (0xc0 : UInt8) == 0xc0)) = true ↔
      (x.toNat / 128 % 2 == 1) = true ∧ (x.toNat / 64 % 2 == 1) = true := by
  obtain ⟨v⟩ := x
  revert v
  decide +kernel

theorem optional_eq (a : Attribute) : (a.flags &&& 0x80 == 0) = !a.optional := by
  obtain ⟨⟨v⟩, k, d⟩ := a
  revert v
  simp only [Attribute.optional]
  decide +kernel

theorem flagsOk_iff : flagsOk a.flags a.kind = true ↔ a.FlagsRight := by
  unfold flagsOk expectedFlags Attribute.FlagsRight
  generalize a.kind.toNat = k
  split
  all_goals first
    | exact flags_wellKnown a.flags
    | exact flags_optional a.flags
    | exact flags_optionalTransitive a.flags
    | simp [*]

theorem isOk_validatePath (b : Bytes) (width : ℕ) :
    ∃ v, isOk (validatePath b width) = .ok v ∧ (v = true ↔ (pathCode width).Packed b) := by
  rw [validatePath_eq, Delimited.packed_iff]
  split
  · rename_i h
    exact ⟨true, rfl, by simp [h]⟩
  · rename_i h
    exact ⟨false, rfl, by simp [h]⟩

theorem originOk_eq (data : Bytes) :
    ∃ v, originOk data = .ok v ∧ (v = true ↔ data.length = 1 ∧ ∀ o ∈ data, o.toNat ≤ 2) := by
  unfold originOk
  match data with
  | [o] => exact ⟨_, rfl, by simp⟩
  | [] => exact ⟨false, rfl, by simp⟩
  | _ :: _ :: _ => exact ⟨false, by simp, by simp⟩

theorem addressOk_eq (data : Bytes) :
    ∃ v, addressOk data = .ok v ∧
      (v = true ↔ data.length = 4 ∧ validV4 (ofOctets 32 data) = true) := by
  unfold addressOk
  split
  · rename_i hl
    match data, hl with
    | [x, y, z, w], _ => exact ⟨_, rfl, by simp⟩
  · rename_i hl
    exact ⟨false, rfl, by simp [hl]⟩

/-- The value check computes well-formedness. -/
theorem valueOk_recognised (raw : Bytes) (hk : Attribute.Recognised a.kind)
    (hm : isMp a.kind = false) :
    ∃ v, valueOk n a.flags a.kind a.data raw = .ok v ∧ (v = true ↔ a.WellFormed n) := by
  have h14 : a.kind.toNat ≠ 14 := fun h => by
    rw [show a.kind = 14 from UInt8.toNat_inj.mp h] at hm
    cases hm
  have h15 : a.kind.toNat ≠ 15 := fun h => by
    rw [show a.kind = 15 from UInt8.toNat_inj.mp h] at hm
    cases hm
  simp only [Attribute.Recognised, List.mem_cons, List.not_mem_nil, or_false] at hk
  unfold valueOk Attribute.WellFormed
  generalize a.kind.toNat = k at hk h14 h15 ⊢
  split
  · exact originOk_eq a.data
  · exact isOk_validatePath _ _
  · exact addressOk_eq a.data
  case h_12 =>
    dsimp only
    split
    · rename_i hl
      obtain ⟨v, hv, hiff⟩ := isOk_validatePath a.data 4
      refine ⟨v, hv, hiff.trans ?_⟩
      exact ⟨fun hp => ⟨hl.1, Nat.dvd_of_mod_eq_zero hl.2, hp⟩, fun hp => hp.2.2⟩
    · rename_i hl
      refine ⟨false, rfl, ?_⟩
      simp only [Bool.false_eq_true, false_iff]
      exact fun hp => hl ⟨hp.1, Nat.mod_eq_zero_of_dvd hp.2.1⟩
  case h_15 =>
    exfalso
    simp_all
  all_goals exact ⟨_, rfl, by simp [Nat.dvd_iff_mod_eq_zero]⟩

theorem valueOk_unrecognised {raw : Bytes} (hk : ¬ Attribute.Recognised a.kind) :
    valueOk n a.flags a.kind a.data raw = if a.optional then .ok true
      else .error (.protocol ⟨3, 2, raw, "unknown well-known attribute"⟩) := by
  simp only [Attribute.Recognised, List.mem_cons, List.not_mem_nil, or_false, not_or] at hk
  unfold valueOk
  split
  case h_15 =>
    rw [optional_eq]
    cases a.optional <;> rfl
  all_goals omega

theorem unicast_iff (m : MpNlri) : unicast m.afi m.safi = true ↔ m.Unicast := by
  simp [unicast, MpNlri.Unicast]

theorem validateNlri_packed {bits : ℕ} (h : (nlriCode bits).Packed b) :
    validateNlri b bits = .ok () := by
  rw [validateNlri_eq, if_pos (Delimited.packed_iff.mp h)]

theorem validateNlri_unpacked {bits : ℕ} (h : ¬ (nlriCode bits).Packed b) :
    validateNlri b bits = .error (err 3 10 "invalid NLRI") := by
  rw [validateNlri_eq, if_neg (fun hw => h (Delimited.packed_iff.mpr hw))]

/-- The NLRI part of a multiprotocol attribute. -/
def mpTail (kind : UInt8) (m : MpNlri) : Result Bool :=
  if unicast m.afi m.safi then do
    validateNlri m.nlri (if m.afi = 1 then 32 else 128)
    return kind == 14 && !m.nlri.isEmpty
  else return false

theorem mpTail_ok (kind : UInt8) {m : MpNlri} (h : m.NlriOk) :
    ∃ r, mpTail kind m = .ok r ∧ (r = true ↔ kind = 14 ∧ m.Unicast ∧ m.nlri ≠ []) := by
  by_cases hu : m.Unicast
  · have hu' := (unicast_iff m).mpr hu
    refine ⟨kind == 14 && !m.nlri.isEmpty, ?_, by simp [hu]⟩
    simp only [mpTail, hu', if_true, validateNlri_packed (h hu), ok_bind, pure_eq_ok]
  · have hu' : unicast m.afi m.safi = false := by
      rw [← Bool.not_eq_true, unicast_iff]
      exact hu
    exact ⟨false, by simp [mpTail, hu'], by simp [hu]⟩

theorem mpTail_error {kind : UInt8} {m : MpNlri} (h : ¬ m.NlriOk) :
    mpTail kind m = .error (err 3 10 "invalid NLRI") := by
  simp only [MpNlri.NlriOk, Classical.not_imp] at h
  simp only [mpTail, (unicast_iff m).mpr h.1, if_true, validateNlri_unpacked h.2, error_bind]

/-- MP_REACH_NLRI as the validator reads it, past the flags. -/
theorem readMp_reach_eq {flags : UInt8} (hf : flagsOk flags 14 = true) (x y safi len : UInt8)
    (tail : Bytes) : readMp flags 14 (x :: y :: safi :: len :: tail) =
      match decodeMpReach (x :: y :: safi :: len :: tail) with
      | none => .error (err 3 9 "invalid MP_REACH next hop")
      | some m => require (!unicast m.afi m.safi ||
            (if m.afi = 2 then len == 16 || len == 32 else len == 4)) 3 9
            "invalid MP_REACH next-hop size" >>= fun _ => mpTail 14 m := by
  obtain ⟨afi, hafi⟩ : ∃ afi, x.toNat * 256 + y.toNat = afi := ⟨_, rfl⟩
  have hlong : decide (3 ≤ (x :: y :: safi :: len :: tail).length) = true := by simp
  simp only [readMp, hf, hlong, require_true, u16b_cons, decodeMpReach, hafi, mpStart,
    nextHopFits, index_succ, index_zero, ok_bind]
  by_cases hfit : len.toNat + 1 ≤ tail.length
  · have h5 : 5 ≤ (x :: y :: safi :: len :: tail).length := by simp; omega
    have hle : decide (len.toNat + 5 ≤ (x :: y :: safi :: len :: tail).length) = true := by
      simp; omega
    have hfrom : sliceFrom (x :: y :: safi :: len :: tail) (5 + len.toNat) =
        .ok (tail.drop (len.toNat + 1)) := by
      rw [sliceFrom_eq_ok (by simp; omega), show 5 + len.toNat = len.toNat + 1 + 4 by omega]
      rfl
    have hempty : decide (5 + len.toNat < (x :: y :: safi :: len :: tail).length) =
        !(tail.drop (len.toNat + 1)).isEmpty := by
      rw [Bool.eq_iff_iff]
      simp
      omega
    rw [if_pos h5, if_pos hfit]
    simp only [if_true, pure_eq_ok, ok_bind, hle, require_true, mpTail, bind_assoc, hfrom, hempty]
  · rw [if_neg hfit]
    by_cases h5 : 5 ≤ (x :: y :: safi :: len :: tail).length
    · have hle : decide (len.toNat + 5 ≤ (x :: y :: safi :: len :: tail).length) = false := by
        simp; omega
      rw [if_pos h5]
      simp only [if_true, pure_eq_ok, ok_bind, hle, require_false, error_bind]
    · rw [if_neg h5]
      simp only [if_true, pure_eq_ok, ok_bind, require_false, error_bind]

theorem nextHopOk_iff {m : MpNlri} {len : UInt8} (h : m.nextHop.length = len.toNat) :
    (!unicast m.afi m.safi || (if m.afi = 2 then len == 16 || len == 32 else len == 4)) = true ↔
      m.NextHopOk := by
  have hlen (k : UInt8) : (len == k) = true ↔ m.nextHop.length = k.toNat := by
    rw [beq_iff_eq, h, UInt8.toNat_inj]
  rw [Bool.or_eq_true, Bool.not_eq_true', ← Bool.not_eq_true, unicast_iff, ← imp_iff_not_or]
  unfold MpNlri.NextHopOk
  split
  · rw [Bool.or_eq_true, hlen, hlen]
    rfl
  · rw [hlen]
    rfl

theorem decodeMpReach_nextHop {x y safi len : UInt8} {tail : Bytes} {m : MpNlri}
    (h : decodeMpReach (x :: y :: safi :: len :: tail) = some m) :
    m.nextHop.length = len.toNat := by
  simp only [decodeMpReach, Option.ite_none_right_eq_some, Option.some.injEq] at h
  obtain ⟨hle, rfl⟩ := h
  simp
  omega

theorem readMp_reach {flags : UInt8} (data : Bytes) (hf : flagsOk flags 14 = true) :
    ((¬ ∃ m, decodeMpReach data = some m ∧ m.NextHopOk ∧ m.NlriOk) ∧
      ∃ e, readMp flags 14 data = .error (.protocol e)) ∨
    ∃ m, decodeMpReach data = some m ∧ m.NextHopOk ∧ m.NlriOk ∧
      ∃ r, readMp flags 14 data = .ok r ∧ (r = true ↔ m.Unicast ∧ m.nlri ≠ []) := by
  match data with
  | [] | [_] | [_, _] =>
    refine Or.inl ⟨by simp [decodeMpReach], ?_⟩
    simp only [readMp, hf, require_true, ok_bind]
    exact ⟨_, rfl⟩
  | [x, y, safi] =>
    refine Or.inl ⟨by simp [decodeMpReach], ?_⟩
    simp only [readMp, hf, require_true, ok_bind]
    exact ⟨_, rfl⟩
  | x :: y :: safi :: len :: tail =>
    rw [readMp_reach_eq hf]
    cases hm : decodeMpReach (x :: y :: safi :: len :: tail) with
    | none => exact Or.inl ⟨by simp, ⟨_, rfl⟩⟩
    | some m =>
      have hiff := nextHopOk_iff (decodeMpReach_nextHop hm)
      by_cases hn : m.NextHopOk
      · simp only [hiff.mpr hn, require_true, ok_bind]
        by_cases ht : m.NlriOk
        · obtain ⟨r, hr, hriff⟩ := mpTail_ok 14 ht
          exact Or.inr ⟨m, rfl, hn, ht, r, hr, by simpa using hriff⟩
        · rw [mpTail_error ht]
          refine Or.inl ⟨?_, ⟨_, rfl⟩⟩
          rintro ⟨m', hm', -, ht'⟩
          cases hm'
          exact ht ht'
      · have hfalse : (!unicast m.afi m.safi ||
            (if m.afi = 2 then len == 16 || len == 32 else len == 4)) = false := by
          rw [← Bool.not_eq_true, hiff]
          exact hn
        simp only [hfalse, require_false, error_bind]
        refine Or.inl ⟨?_, ⟨_, rfl⟩⟩
        rintro ⟨m', hm', hn', -⟩
        cases hm'
        exact hn hn'

theorem readMp_unreach {flags : UInt8} (data : Bytes) (hf : flagsOk flags 15 = true) :
    ((¬ ∃ m, decodeMpUnreach data = some m ∧ m.NlriOk) ∧
      ∃ e, readMp flags 15 data = .error (.protocol e)) ∨
    ∃ m, decodeMpUnreach data = some m ∧ m.NlriOk ∧ readMp flags 15 data = .ok false := by
  match data with
  | [] | [_] | [_, _] =>
    refine Or.inl ⟨by simp [decodeMpUnreach], ?_⟩
    simp only [readMp, hf, require_true, ok_bind]
    exact ⟨_, rfl⟩
  | x :: y :: safi :: tail =>
    have hlong : decide (3 ≤ (x :: y :: safi :: tail).length) = true := by simp
    obtain ⟨afi, hafi⟩ : ∃ afi, x.toNat * 256 + y.toNat = afi := ⟨_, rfl⟩
    have hread : readMp flags 15 (x :: y :: safi :: tail) = mpTail 15 ⟨afi, safi, [], tail⟩ := by
      simp only [readMp, hf, hlong, require_true, ok_bind, u16b_cons, hafi, index_succ, index_zero,
        mpStart, mpTail, pure_eq_ok]
      rfl
    have hdec : decodeMpUnreach (x :: y :: safi :: tail) = some ⟨afi, safi, [], tail⟩ := by
      simp [decodeMpUnreach, hafi]
    rw [hread, hdec]
    by_cases ht : (⟨afi, safi, [], tail⟩ : MpNlri).NlriOk
    · obtain ⟨r, hr, hriff⟩ := mpTail_ok 15 ht
      have hr' : r = false := by
        rw [← Bool.not_eq_true, hriff]
        exact fun h => absurd h.1 (by decide)
      exact Or.inr ⟨_, rfl, ht, by rw [hr, hr']⟩
    · rw [mpTail_error ht]
      refine Or.inl ⟨?_, ⟨_, rfl⟩⟩
      rintro ⟨m', hm', ht'⟩
      cases hm'
      exact ht ht'

/-- A multiprotocol attribute passes exactly when it is well formed. -/
theorem readMp_eq (hm : isMp a.kind = true) :
    ((¬ a.FlagsRight ∨ ¬ a.MpWellFormed) ∧
      ∃ e, readMp a.flags a.kind a.data = .error (.protocol e)) ∨
    ((a.FlagsRight ∧ a.MpWellFormed) ∧
      ∃ r, readMp a.flags a.kind a.data = .ok r ∧ (r = true ↔ a.Reaches)) := by
  by_cases hf : a.FlagsRight
  · have hf' := flagsOk_iff.mpr hf
    obtain ⟨flags, kind, data⟩ := a
    have hkind : kind = 14 ∨ kind = 15 := by simpa [isMp] using hm
    rcases hkind with rfl | rfl
    · rcases readMp_reach data hf' with ⟨hn, he⟩ | ⟨m, hm, hn, ht, r, hr, hriff⟩
      · exact Or.inl ⟨Or.inr (by simpa [Attribute.MpWellFormed] using hn), he⟩
      · refine Or.inr ⟨⟨hf, ?_⟩, r, hr, ?_⟩
        · simpa [Attribute.MpWellFormed] using ⟨m, hm, hn, ht⟩
        · simp [Attribute.Reaches, hm, hriff]
    · rcases readMp_unreach data hf' with ⟨hn, he⟩ | ⟨m, hm, ht, hr⟩
      · exact Or.inl ⟨Or.inr (by simpa [Attribute.MpWellFormed] using hn), he⟩
      · refine Or.inr ⟨⟨hf, ?_⟩, false, hr, ?_⟩
        · simpa [Attribute.MpWellFormed] using ⟨m, hm, ht⟩
        · simp [Attribute.Reaches]
  · have hf' : flagsOk a.flags a.kind = false := by
      rw [← Bool.not_eq_true, flagsOk_iff]
      exact hf
    refine Or.inl ⟨Or.inl hf, ?_⟩
    simp only [readMp, hf', require_false, error_bind]
    exact ⟨_, rfl⟩

/-! The walk. -/

theorem isDiscarded_iff {kind : UInt8} :
    isDiscarded n kind = true ↔ Attribute.Ignored n kind := by
  have hk (k : UInt8) : (kind == k) = true ↔ kind.toNat = k.toNat := by
    rw [beq_iff_eq, UInt8.toNat_inj]
  simp only [isDiscarded, Bool.or_eq_true, Bool.and_eq_true, hk, Attribute.Ignored,
    List.mem_cons, List.not_mem_nil, or_false, Bool.not_eq_true', or_assoc]
  rfl

theorem malformedAction_eq (kind : UInt8) : malformedAction kind =
    if kind.toNat ∈ [6, 7, 17, 18] then .attributeDiscard else .treatAsWithdraw := by
  have hk (k : UInt8) : kind = k ↔ kind.toNat = k.toNat := UInt8.toNat_inj.symm
  simp only [malformedAction, hk, List.mem_cons, List.not_mem_nil, or_false]
  rfl

theorem isMp_iff {kind : UInt8} : isMp kind = true ↔ kind.toNat = 14 ∨ kind.toNat = 15 := by
  have hk (k : UInt8) : (kind == k) = true ↔ kind.toNat = k.toNat := by
    rw [beq_iff_eq, UInt8.toNat_inj]
  simp only [isMp, Bool.or_eq_true, hk]
  rfl

theorem Attribute.Reaches.isMp (h : a.Reaches) : isMp a.kind = true := by
  rw [h.1]
  rfl

@[simp] theorem max_valid (x : UpdateAction) : max x .valid = x := max_eq_left bot_le

@[simp] theorem valid_max (x : UpdateAction) : max .valid x = x := max_eq_right bot_le

@[simp] theorem seen_mark (k : UInt8) :
    (s.mark a.kind).seen k = true ↔ s.seen k = true ∨ k = a.kind := by
  by_cases hk : k = a.kind
  · simp [Scan.mark, hk]
  · simp [Scan.mark, hk]

/-- What the table, the reachability and the action stand for after the walked types. -/
structure Scanned (n : Negotiated) (s : Scan) (earlier : List UInt8) (a : Attribute)
    (s' : Scan) : Prop where
  seen : ∀ k, s'.seen k = true ↔ k ∈ earlier ++ [a.kind]
  reach : s'.mpReach = true ↔ s.mpReach = true ∨ a.Reaches
  action : s'.action = max s.action (a.severity n earlier)

/-- A first occurrence that costs `c` and is no unicast MP_REACH_NLRI. -/
theorem scanned_mark {c : UpdateAction} (hs : ∀ k, s.seen k = true ↔ k ∈ earlier)
    (hm : isMp a.kind = false) (hc : a.severity n earlier = c) :
    Scanned n s earlier a ((s.mark a.kind).raise c) where
  seen := fun k => by
    simp only [Scan.raise]
    rw [seen_mark, hs]
    simp
  reach := by
    have hr : ¬ a.Reaches := fun h => by
      rw [h.isMp] at hm
      cases hm
    simp [Scan.raise, Scan.mark, hr]
  action := by
    rw [hc]
    rfl

theorem readNext_seen (hs : ∀ k, s.seen k = true ↔ k ∈ earlier) (hk : a.kind ∈ earlier) :
    (a.Fatal earlier ∧ ∃ e, readNext n s a = .error (.protocol e)) ∨
      (¬ a.Fatal earlier ∧ ∃ s', readNext n s a = .ok s' ∧ Scanned n s earlier a s') := by
  have hseen : s.seen a.kind = true := (hs _).mpr hk
  cases hm : isMp a.kind with
  | true =>
    refine Or.inl ⟨Or.inl ⟨hm, Or.inl hk⟩, ?_⟩
    simp only [readNext, readAttribute, hseen, if_true, hm, Bool.not_true, require_false,
      error_bind]
    exact ⟨_, rfl⟩
  | false =>
    refine Or.inr ⟨?_, s.raise .attributeDiscard, ?_, ?_⟩
    · rintro (⟨h, -⟩ | ⟨h, -⟩)
      · rw [hm] at h
        cases h
      · exact h hk
    · simp [readNext, readAttribute, hseen, hm]
    · have hr : ¬ a.Reaches := fun h => by
        rw [h.isMp] at hm
        cases hm
      refine ⟨fun k => ?_, by simp [Scan.raise, hr], ?_⟩
      · rw [List.mem_append, List.mem_singleton, ← hs]
        constructor
        · exact Or.inl
        · rintro (h | rfl)
          · exact h
          · exact hseen
      · simp [Scan.raise, Attribute.severity, hk]

theorem Attribute.Ignored.recognised {kind : UInt8} (h : Attribute.Ignored n kind) :
    isMp kind = false ∧ Attribute.Recognised kind := by
  rw [← Bool.not_eq_true, isMp_iff]
  unfold Attribute.Ignored at h
  unfold Attribute.Recognised
  simp only [List.mem_cons, List.not_mem_nil, or_false] at h ⊢
  omega

theorem flagsRight_of_unrecognised (h : ¬ Attribute.Recognised a.kind) : a.FlagsRight := by
  unfold Attribute.Recognised at h
  simp only [List.mem_cons, List.not_mem_nil, or_false, not_or] at h
  unfold Attribute.FlagsRight
  split
  case h_17 => trivial
  all_goals omega

@[simp] theorem raise_valid : s.raise .valid = s := by
  simp [Scan.raise]

/-- The first occurrence of a multiprotocol attribute. -/
theorem readNext_mp (hs : ∀ k, s.seen k = true ↔ k ∈ earlier) (hk : a.kind ∉ earlier)
    (hm : isMp a.kind = true) :
    (a.Fatal earlier ∧ ∃ e, readNext n s a = .error (.protocol e)) ∨
      (¬ a.Fatal earlier ∧ ∃ s', readNext n s a = .ok s' ∧ Scanned n s earlier a s') := by
  have hseen : s.seen a.kind = false := by
    rw [← Bool.not_eq_true, hs]
    exact hk
  have hi : ¬ Attribute.Ignored n a.kind := fun h => by
    rw [h.recognised.1] at hm
    cases hm
  have hd : isDiscarded n a.kind = false := by
    rw [← Bool.not_eq_true, isDiscarded_iff]
    exact hi
  simp only [readNext, readAttribute, hseen, hd, hm, Bool.false_eq_true, if_false, if_true]
  rcases readMp_eq hm with ⟨hbad, e, he⟩ | ⟨hgood, r, hr, hriff⟩
  · refine Or.inl ⟨Or.inl ⟨hm, Or.inr hbad⟩, e, ?_⟩
    rw [he]
    rfl
  · refine Or.inr ⟨?_, { s.mark a.kind with mpReach := s.mpReach || r }, by rw [hr]; rfl, ?_⟩
    · rintro (⟨-, h | h | h⟩ | ⟨-, h, -⟩)
      · exact hk h
      · exact h hgood.1
      · exact h hgood.2
      · refine h ?_
        have := isMp_iff.mp hm
        simp only [Attribute.Recognised, List.mem_cons, List.not_mem_nil, or_false]
        omega
    · refine ⟨fun k => ?_, by simp [hriff], by simp [Scan.mark, Attribute.severity, hk, hi, hm]⟩
      rw [List.mem_append, List.mem_singleton, ← hs]
      exact seen_mark k

/-- The first occurrence of any other type. -/
theorem readNext_first (hs : ∀ k, s.seen k = true ↔ k ∈ earlier) (hk : a.kind ∉ earlier)
    (hm : isMp a.kind = false) :
    (a.Fatal earlier ∧ ∃ e, readNext n s a = .error (.protocol e)) ∨
      (¬ a.Fatal earlier ∧ ∃ s', readNext n s a = .ok s' ∧ Scanned n s earlier a s') := by
  have hseen : s.seen a.kind = false := by
    rw [← Bool.not_eq_true, hs]
    exact hk
  have fatal_of (h : a.Fatal earlier) : ¬ Attribute.Recognised a.kind ∧ a.optional = false := by
    rcases h with ⟨h, -⟩ | ⟨-, h⟩
    · rw [hm] at h
      cases h
    · exact h
  simp only [readNext, readAttribute, hseen, hm, Bool.false_eq_true, if_false]
  by_cases hi : Attribute.Ignored n a.kind
  · have hd := isDiscarded_iff.mpr hi
    refine Or.inr ⟨fun h => (fatal_of h).1 hi.recognised.2,
      (s.mark a.kind).raise .attributeDiscard, by simp [hd], ?_⟩
    exact scanned_mark hs hm (by simp [Attribute.severity, hi])
  · have hd : isDiscarded n a.kind = false := by
      rw [← Bool.not_eq_true, isDiscarded_iff]
      exact hi
    simp only [hd, Bool.false_eq_true, if_false]
    by_cases hr : Attribute.Recognised a.kind
    · obtain ⟨v, hv, hviff⟩ := valueOk_recognised (n := n) (attributeCode.encode a) hr hm
      rw [hv, ok_bind]
      refine Or.inr ⟨fun h => (fatal_of h).1 hr, ?_⟩
      by_cases hgood : a.FlagsRight ∧ a.WellFormed n
      · have hf := flagsOk_iff.mpr hgood.1
        have hv' := hviff.mpr hgood.2
        refine ⟨s.mark a.kind, by simp [hf, hv'], ?_⟩
        have hscan := scanned_mark (n := n) hs hm (c := .valid)
          (by simp [Attribute.severity, hk, hi, hm, hr, hgood])
        rwa [raise_valid] at hscan
      · have hbad : (!flagsOk a.flags a.kind || !v) = true := by
          rw [Bool.or_eq_true, Bool.not_eq_true', Bool.not_eq_true', ← Bool.not_eq_true,
            ← Bool.not_eq_true, flagsOk_iff, hviff]
          tauto
        refine ⟨(s.mark a.kind).raise (malformedAction a.kind),
          by simp only [hbad, if_true, pure_eq_ok], scanned_mark hs hm ?_⟩
        rw [malformedAction_eq]
        simp only [Attribute.severity, hk, hi, hm, hr, hgood]
        simp
    · rw [valueOk_unrecognised hr]
      cases ho : a.optional with
      | true =>
        have hf := flagsOk_iff.mpr (flagsRight_of_unrecognised hr)
        refine Or.inr ⟨fun h => ?_, s.mark a.kind, by simp [hf], ?_⟩
        · rw [(fatal_of h).2] at ho
          cases ho
        · have hscan := scanned_mark (n := n) hs hm (c := .valid)
            (by simp [Attribute.severity, hk, hi, hm, hr])
          rwa [raise_valid] at hscan
      | false =>
        refine Or.inl ⟨Or.inr ⟨hk, hr, ho⟩, ?_⟩
        simp only [Bool.false_eq_true, if_false, error_bind]
        exact ⟨_, rfl⟩

/-- One attribute of the walk. -/
theorem readNext_eq (hs : ∀ k, s.seen k = true ↔ k ∈ earlier) :
    (a.Fatal earlier ∧ ∃ e, readNext n s a = .error (.protocol e)) ∨
      (¬ a.Fatal earlier ∧ ∃ s', readNext n s a = .ok s' ∧ Scanned n s earlier a s') := by
  by_cases hk : a.kind ∈ earlier
  · exact readNext_seen hs hk
  · cases hm : isMp a.kind with
    | true => exact readNext_mp hs hk hm
    | false => exact readNext_first hs hk hm

theorem fatalIn_cons {as : List Attribute} : FatalIn earlier (a :: as) ↔
    a.Fatal earlier ∨ FatalIn (earlier ++ [a.kind]) as := by
  constructor
  · rintro ⟨before, a', after, heq, hf⟩
    cases before with
    | nil =>
      cases heq
      exact Or.inl (by simpa using hf)
    | cons c before =>
      cases heq
      exact Or.inr ⟨before, a', after, rfl, by simpa using hf⟩
  · rintro (hf | ⟨before, a', after, rfl, hf⟩)
    · exact ⟨[], a, as, rfl, by simpa using hf⟩
    · exact ⟨a :: before, a', after, rfl, by simpa using hf⟩

/-- The whole walk, by induction on the attributes; the types before are the invariant. -/
theorem readAll_eq (as : List Attribute) (hs : ∀ k, s.seen k = true ↔ k ∈ earlier) :
    (FatalIn earlier as ∧ ∃ e, as.foldlM (readNext n) s = .error (.protocol e)) ∨
      (¬ FatalIn earlier as ∧ ∃ s', as.foldlM (readNext n) s = .ok s' ∧
        (∀ k, s'.seen k = true ↔ k ∈ earlier ++ as.map Attribute.kind) ∧
        (s'.mpReach = true ↔ s.mpReach = true ∨ ∃ a ∈ as, a.Reaches) ∧
        s'.action = max s.action (worst n earlier as)) := by
  induction as generalizing s earlier with
  | nil =>
    refine Or.inr ⟨?_, s, rfl, by simpa using hs, by simp, by simp [worst]⟩
    rintro ⟨before, a, after, heq, -⟩
    simp at heq
  | cons a as ih =>
    rw [fatalIn_cons, List.foldlM_cons]
    rcases readNext_eq (n := n) (a := a) hs with ⟨hf, e, he⟩ | ⟨hf, s₁, he, hscan⟩
    · exact Or.inl ⟨Or.inl hf, e, by rw [he]; rfl⟩
    · rw [he, ok_bind]
      rcases ih hscan.seen with ⟨hf', e, he'⟩ | ⟨hf', s', he', hseen, hreach, hact⟩
      · exact Or.inl ⟨Or.inr hf', e, he'⟩
      · refine Or.inr ⟨by tauto, s', he', by simpa using hseen, ?_, ?_⟩
        · rw [hreach, hscan.reach]
          simp [or_assoc]
        · rw [hact, hscan.action, worst, max_assoc]

theorem max_treatAsWithdraw (x : UpdateAction) :
    max x .treatAsWithdraw = .treatAsWithdraw := by
  cases x <;> decide

theorem brokenMp_iff : brokenMp rest = true ↔ BrokenMp rest := by
  unfold brokenMp BrokenMp
  split
  · simp
  · rename_i hn
    simp only [Bool.false_eq_true, false_iff]
    rintro ⟨flags, kind, x, tail, rfl, -⟩
    exact hn flags kind x tail rfl

/-- The state at the end of a walk that met nothing fatal. -/
structure Finished (n : Negotiated) (u : UpdateSections) (s : Scan) : Prop where
  seen : ∀ k, s.seen k = true ↔ k ∈ u.kinds
  reach : s.mpReach = true ↔ ∃ a ∈ u.attributes, a.Reaches
  action : s.action =
    max (worst n [] u.attributes) (if u.rest ≠ [] then .treatAsWithdraw else .valid)

theorem finished_of_walk (hs : ∀ k, s.seen k = true ↔ k ∈ u.kinds)
    (hr : s.mpReach = true ↔ ∃ a ∈ u.attributes, a.Reaches)
    (ha : s.action = worst n [] u.attributes) (hb : brokenMp u.rest = false) :
    ∃ s', finishScan u.rest s = .ok s' ∧ Finished n u s' := by
  by_cases hrest : u.rest = []
  · refine ⟨s, by simp [finishScan, hrest], hs, hr, ?_⟩
    simp [hrest, ha]
  · refine ⟨{ s with action := .treatAsWithdraw }, ?_, hs, hr, ?_⟩
    · simp [finishScan, hrest, stopScan, hb]
    · simp [hrest, max_treatAsWithdraw]

/-- The checks after the loop. -/
theorem conclude_eq (h : Finished n u s) :
    ((u.severity n = .treatAsWithdraw ∧ ¬ u.Reachable) ∧
      ∃ e, conclude n u.nlri s = .error (.protocol e)) ∨
    (¬ (u.severity n = .treatAsWithdraw ∧ ¬ u.Reachable) ∧
      conclude n u.nlri s = .ok (u.severity n)) := by
  have hreach : (!u.nlri.isEmpty || s.mpReach) = true ↔ u.Reachable := by
    simp [UpdateSections.Reachable, h.reach]
  have hseen (k : UInt8) : (!s.seen k) = true ↔ k ∉ u.kinds := by
    rw [Bool.not_eq_true', ← Bool.not_eq_true, h.seen]
  have hmissing : (((!u.nlri.isEmpty || s.mpReach) &&
      (!s.seen 1 || !s.seen 2 || (n.internal && !s.seen 5))) ||
        (!u.nlri.isEmpty && !s.seen 3)) = true ↔ u.Missing n := by
    rw [Bool.or_eq_true, Bool.and_eq_true, hreach, Bool.and_eq_true, hseen, Bool.or_eq_true,
      Bool.or_eq_true, Bool.and_eq_true, hseen, hseen, hseen]
    simp [UpdateSections.Missing, or_assoc]
  have haction : (if (((!u.nlri.isEmpty || s.mpReach) &&
      (!s.seen 1 || !s.seen 2 || (n.internal && !s.seen 5))) ||
        (!u.nlri.isEmpty && !s.seen 3)) = true then .treatAsWithdraw else s.action) =
      u.severity n := by
    by_cases hm : u.Missing n
    · rw [if_pos (hmissing.mpr hm)]
      simp [UpdateSections.severity, hm, max_treatAsWithdraw]
    · rw [if_neg (fun hb => hm (hmissing.mp hb)), h.action]
      simp [UpdateSections.severity, hm]
  simp only [conclude, haction]
  by_cases hr : u.Reachable
  · simp [hreach.mpr hr, hr]
  · have hr' : (!u.nlri.isEmpty || s.mpReach) = false := by
      rw [← Bool.not_eq_true, hreach]
      exact hr
    simp only [hr', hr, Bool.or_false, not_false_eq_true, and_true]
    by_cases hsev : u.severity n = .treatAsWithdraw
    · refine Or.inl ⟨hsev, ?_⟩
      simp only [hsev, bne_self_eq_false, require_false, error_bind]
      exact ⟨_, rfl⟩
    · refine Or.inr ⟨hsev, ?_⟩
      have hne : (u.severity n != .treatAsWithdraw) = true := by simpa using hsev
      simp only [hne, require_true, ok_bind, pure_eq_ok]

/-- A parsed UPDATE is refused exactly when it is fatal, and gets its severity otherwise. -/
theorem validateUpdate_parsed (hp : parseUpdate b = some u) :
    (u.Fatal n ∧ ∃ e, validateUpdate b n = .error (.protocol e)) ∨
      (¬ u.Fatal n ∧ validateUpdate b n = .ok (u.severity n)) := by
  rw [validateUpdate_some hp]
  by_cases hw : (nlriCode 32).Packed u.withdrawn
  swap
  · rw [validateNlri_unpacked hw, error_bind]
    exact Or.inl ⟨Or.inl (Or.inl hw), _, rfl⟩
  by_cases ht : (nlriCode 32).Packed u.nlri
  swap
  · rw [validateNlri_packed hw, ok_bind, validateNlri_unpacked ht, error_bind]
    exact Or.inl ⟨Or.inl (Or.inr (Or.inl ht)), _, rfl⟩
  rw [validateNlri_packed hw, ok_bind, validateNlri_packed ht, ok_bind]
  have hstart : ∀ k, Scan.start.seen k = true ↔ k ∈ ([] : List UInt8) := by
    simp [Scan.start]
  rcases readAll_eq (n := n) u.attributes hstart with
    ⟨hf, e, he⟩ | ⟨hf, s, he, hseen, hreach, hact⟩
  · rw [he, error_bind]
    exact Or.inl ⟨Or.inl (Or.inr (Or.inr (Or.inl hf))), e, rfl⟩
  · rw [he, ok_bind]
    cases hb : brokenMp u.rest with
    | true =>
      have hrest : u.rest ≠ [] := fun h => by
        rw [h] at hb
        cases hb
      refine Or.inl ⟨Or.inl (Or.inr (Or.inr (Or.inr (brokenMp_iff.mp hb)))), ?_⟩
      simp only [finishScan, hrest, if_false, stopScan, hb, if_true, error_bind]
      exact ⟨_, rfl⟩
    | false =>
      obtain ⟨s', hs', hfin⟩ := finished_of_walk (n := n) hseen
        (by simpa [Scan.start] using hreach) (by simpa [Scan.start] using hact) hb
      have hnot : ¬ u.Broken := by
        rintro (h | h | h | h)
        · exact h hw
        · exact h ht
        · exact hf h
        · rw [brokenMp_iff.mpr h] at hb
          cases hb
      rw [hs', ok_bind]
      rcases conclude_eq hfin with ⟨hc, he⟩ | ⟨hc, he⟩
      · exact Or.inl ⟨Or.inr hc, he⟩
      · exact Or.inr ⟨fun h => h.elim hnot hc, he⟩

/-- The validator computes the reference classification of every octet string: a protocol error
exactly on the fatal ones, and the combined severity on all others. -/
theorem validateUpdate_classifies (b : Bytes) (n : Negotiated) :
    match parseUpdate b with
    | none => ∃ e, validateUpdate b n = .error (.protocol e)
    | some u => (u.Fatal n ∧ ∃ e, validateUpdate b n = .error (.protocol e)) ∨
        (¬ u.Fatal n ∧ validateUpdate b n = .ok (u.severity n)) := by
  split
  · rename_i hp
    exact validateUpdate_none hp
  · rename_i u hp
    exact validateUpdate_parsed hp

/-! Messages without a flaw. -/

namespace Attribute

/-- A recognised attribute with nothing to object to. -/
structure Clean (n : Negotiated) (a : Attribute) : Prop where
  recognised : Recognised a.kind
  kept : ¬ Ignored n a.kind
  flags : a.FlagsRight
  value : if isMp a.kind then a.MpWellFormed else a.WellFormed n

theorem Clean.not_fatal (h : a.Clean n) (hk : a.kind ∉ earlier) : ¬ a.Fatal earlier := by
  rintro (⟨hm, hi | hf | hw⟩ | ⟨-, hr, -⟩)
  · exact hk hi
  · exact hf h.flags
  · have hv := h.value
    rw [if_pos hm] at hv
    exact hw hv
  · exact hr h.recognised

theorem Clean.severity_eq (h : a.Clean n) (hk : a.kind ∉ earlier) :
    a.severity n earlier = .valid := by
  have hv := h.value
  cases hm : isMp a.kind with
  | true => simp [severity, hk, h.kept, hm]
  | false =>
    rw [hm] at hv
    simp only [Bool.false_eq_true, if_false] at hv
    simp [severity, hk, h.kept, h.flags, hv]

end Attribute

/-- Clean attributes of distinct types cost nothing. -/
theorem worst_of_clean (earlier : List UInt8) {as : List Attribute} (hc : ∀ a ∈ as, a.Clean n)
    (hn : (as.map Attribute.kind).Nodup) (hd : ∀ a ∈ as, a.kind ∉ earlier) :
    ¬ FatalIn earlier as ∧ worst n earlier as = .valid := by
  induction as generalizing earlier with
  | nil =>
    refine ⟨?_, rfl⟩
    rintro ⟨before, a, after, heq, -⟩
    simp at heq
  | cons a as ih =>
    have ha := hc a (by simp)
    have hk := hd a (by simp)
    rw [List.map_cons, List.nodup_cons] at hn
    have hrest := ih (earlier ++ [a.kind])
      (fun a' h => hc a' (List.mem_cons_of_mem _ h)) hn.2 (by
        intro a' h
        simp only [List.mem_append, List.mem_singleton, not_or]
        refine ⟨hd a' (List.mem_cons_of_mem _ h), fun heq => hn.1 ?_⟩
        rw [← heq]
        exact List.mem_map_of_mem h)
    refine ⟨?_, ?_⟩
    · rw [fatalIn_cons]
      rintro (hf | hf)
      · exact ha.not_fatal hk hf
      · exact hrest.1 hf
    · rw [worst, ha.severity_eq hk, hrest.2, max_valid]

/-- A message of packed prefixes and clean attributes, with the mandatory ones, is valid. -/
theorem validateUpdate_clean (hp : parseUpdate b = some u)
    (hw : (nlriCode 32).Packed u.withdrawn) (ht : (nlriCode 32).Packed u.nlri)
    (hc : ∀ a ∈ u.attributes, a.Clean n) (hn : u.kinds.Nodup) (hr : u.rest = [])
    (hm : ¬ u.Missing n) : validateUpdate b n = .ok .valid := by
  obtain ⟨hfatal, hworst⟩ := worst_of_clean [] hc hn (by simp)
  have hsev : u.severity n = .valid := by
    simp [UpdateSections.severity, hworst, hr, hm]
  rcases validateUpdate_parsed (n := n) hp with ⟨hf, -⟩ | ⟨-, hok⟩
  · exfalso
    rcases hf with (h | h | h | h) | ⟨h, -⟩
    · exact h hw
    · exact h ht
    · exact hfatal h
    · obtain ⟨flags, kind, x, tail, heq, -⟩ := h
      rw [hr] at heq
      cases heq
    · rw [hsev] at h
      cases h
  · rw [hok, hsev]

end Ubgp
