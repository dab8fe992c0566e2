import Ubgp.Wire.Grammar
import Ubgp.Wire.Negotiation

/-! Optional parameters and capabilities: the loops of the negotiating parser as walks. -/
namespace Ubgp

open SliceLoop (Control)

/-- A type, a length and a value: an optional parameter or a capability. -/
structure Tlv where
  kind : UInt8
  data : Bytes
deriving DecidableEq

/-- Entries with a length field of one octet, or of two in the extended form. -/
def tlvCode (extended : Bool) : Delimited UInt8 Tlv where
  encode t := t.kind :: (lengthCode extended t.data.length ++ t.data)
  Valid t := t.data.length < if extended then 65536 else 256
  head
    | kind :: rest =>
      match lengthField extended rest with
      | some (l, rest) => if l ≤ rest.length then some (⟨kind, rest.take l⟩, rest.drop l) else none
      | none => none
    | [] => none
  encode_ne_nil := by simp
  head_eq_some := by
    intro b x rest
    constructor
    · intro h
      cases b with
      | nil => cases h
      | cons kind tail =>
        simp only at h
        split at h
        · rename_i l tail' hl
          simp only [Option.ite_none_right_eq_some, Option.some.injEq, Prod.mk.injEq] at h
          obtain ⟨hle, rfl, rfl⟩ := h
          have hlen : (tail'.take l).length = l := by simpa using hle
          rw [← hlen] at hl
          obtain ⟨hbound, hfield⟩ := lengthCode_of_lengthField hl
          exact ⟨hbound, by rw [hfield]; simp⟩
        · cases h
    · rintro ⟨hfits, rfl⟩
      have hfield := lengthField_lengthCode hfits (x.data ++ rest)
      simp [List.append_assoc, hfield]

instance (extended : Bool) (t : Tlv) : Decidable ((tlvCode extended).Valid t) :=
  inferInstanceAs (Decidable (_ < _))

variable {b rest : Bytes} {s s' : Caps} {t : Tlv} {cs : List Tlv} {extended : Bool}

/-! The capability loop. -/

def readCapability (s : Caps) (t : Tlv) : Result Caps := readCap t.kind t.data s

theorem capBody_some (h : (tlvCode false).head b = some (t, rest)) :
    capBody b s = (readCapability s t).map (fun s' => Control.next s' rest) := by
  obtain ⟨hv, rfl⟩ := ((tlvCode false).head_eq_some _ _ _).mp h
  have hlen : t.data.length < 256 := hv
  have hcode : (tlvCode false).encode t ++ rest =
      t.kind :: UInt8.ofNat t.data.length :: (t.data ++ rest) := by
    simp [tlvCode, lengthCode]
  have hfits : capFits (t.kind :: UInt8.ofNat t.data.length :: (t.data ++ rest)) = .ok true := by
    simp [capFits, toNat_ofNat_of_lt hlen]
  rw [hcode]
  simp only [capBody, hfits, index_succ, index_zero, ok_bind, require_true,
    toNat_ofNat_of_lt hlen, Nat.add_comm 2, slice_succ, sliceFrom_succ, slice_append,
    sliceFrom_append, readCapability]
  cases readCap t.kind t.data s <;> rfl

theorem capBody_none (hb : b ≠ []) (h : (tlvCode false).head b = none) :
    capBody b s = .error (err 2 0 "invalid capability length") := by
  have hfits : capFits b = .ok false := by
    rcases b with - | ⟨kind, - | ⟨len, tail⟩⟩
    · exact absurd rfl hb
    · rfl
    · simp only [tlvCode, lengthField, ite_eq_right_iff, reduceCtorEq, imp_false, not_le] at h
      simp [capFits]
      omega
  simp only [capBody, hfits, ok_bind, require_false, error_bind]

/-- The capability loop succeeds on packed capabilities only, reading one after the other. -/
theorem capLoop_eq_ok : SliceLoop.loop capBody b s = .ok s' ↔
    ∃ cs : List Tlv, (∀ c ∈ cs, (tlvCode false).Valid c) ∧ b = cs.flatMap (tlvCode false).encode ∧
      cs.foldlM readCapability s = .ok s' :=
  Delimited.loop_eq_ok (fun _ => err 2 0 "invalid capability length")
    (fun _ _ _ _ h => capBody_some h) (fun _ _ hb h => capBody_none hb h)

/-! The parameter loop. -/

/-- A parameter of type 2 holds capabilities. -/
def readParameter (extended : Bool) (s : Caps) (t : Tlv) : Result Caps :=
  if t.kind = 2 then SliceLoop.loop capBody t.data s
  else .error (.protocol ⟨2, 4, (tlvCode extended).encode t, "unsupported optional parameter"⟩)

theorem paramLength_encode (h : (tlvCode extended).Valid t) (rest : Bytes) :
    paramLength extended ((tlvCode extended).encode t ++ rest) = .ok t.data.length := by
  have hfield := lengthField_lengthCode h (t.data ++ rest)
  simp only [tlvCode, List.cons_append, List.append_assoc]
  cases extended with
  | true =>
    obtain ⟨x, y, hx, hl⟩ := lengthField_extended hfield
    rw [hx]
    simp [paramLength, slice, hl]
  | false =>
    obtain ⟨x, hx, hl⟩ := lengthField_short hfield
    rw [hx]
    simp [paramLength, hl]

theorem paramBody_some (h : (tlvCode extended).head b = some (t, rest)) :
    paramBody extended b s =
      (readParameter extended s t).map (fun s' => Control.next s' rest) := by
  obtain ⟨hv, rfl⟩ := ((tlvCode extended).head_eq_some _ _ _).mp h
  have hlength := paramLength_encode hv rest
  let hd := t.kind :: lengthCode extended t.data.length
  have hhd : hd.length = if extended then 3 else 2 := by
    simp only [hd, lengthCode]
    cases extended <;> simp
  have hsplit : (tlvCode extended).encode t ++ rest = hd ++ (t.data ++ rest) := by
    simp [tlvCode, hd]
  have hraw : ((tlvCode extended).encode t).length = hd.length + t.data.length := by
    simp [tlvCode, hd]
    omega
  have hlen : ((tlvCode extended).encode t ++ rest).length =
      hd.length + t.data.length + rest.length := by
    rw [List.length_append, hraw]
  have hdata : slice ((tlvCode extended).encode t ++ rest) hd.length
      (hd.length + t.data.length) = .ok t.data := by
    rw [hsplit]
    exact slice_mid _ _ _
  have hall : slice ((tlvCode extended).encode t ++ rest) 0 (hd.length + t.data.length) =
      .ok ((tlvCode extended).encode t) := by
    rw [← hraw]
    exact slice_append _ _
  have hfrom : sliceFrom ((tlvCode extended).encode t ++ rest) (hd.length + t.data.length) =
      .ok rest := by
    rw [← hraw]
    exact sliceFrom_append _ _
  have hkind : index ((tlvCode extended).encode t ++ rest) 0 = .ok t.kind := rfl
  have h₁ : decide (hd.length ≤ ((tlvCode extended).encode t ++ rest).length) = true :=
    decide_eq_true (by omega)
  have h₂ : decide (hd.length + t.data.length ≤
      ((tlvCode extended).encode t ++ rest).length) = true := decide_eq_true (by omega)
  simp only [paramBody, ← hhd, h₁, require_true, ok_bind, hlength, h₂, hkind, hall, hdata, hfrom,
    throw_eq_error, readParameter]
  by_cases hk : t.kind = 2
  · simp only [hk, ne_eq, not_true_eq_false, if_false, if_true]
    cases SliceLoop.loop capBody t.data s <;> rfl
  · simp only [hk, ne_eq, not_false_eq_true, if_false, if_true]
    rfl

/-- The complaint about a rest that starts with no parameter. -/
def parameterReason (extended : Bool) (b : Bytes) : String :=
  if (if extended then 3 else 2) ≤ b.length then "invalid optional parameter"
  else "short optional parameter header"

theorem paramBody_none (hb : b ≠ []) (h : (tlvCode extended).head b = none) :
    paramBody extended b s = .error (err 2 0 (parameterReason extended b)) := by
  by_cases hlen : (if extended then 3 else 2) ≤ b.length
  · obtain ⟨l, hl, hlt⟩ : ∃ l, paramLength extended b = .ok l ∧
        b.length < (if extended then 3 else 2) + l := by
      cases extended with
      | true =>
        rcases b with - | ⟨kind, - | ⟨x, - | ⟨y, tail⟩⟩⟩
        · simp at hlen
        · simp at hlen
        · simp at hlen
        · simp only [tlvCode, lengthField, ite_eq_right_iff, reduceCtorEq, imp_false, not_le] at h
          refine ⟨x.toNat * 256 + y.toNat, by simp [paramLength, slice], ?_⟩
          simp
          omega
      | false =>
        rcases b with - | ⟨kind, - | ⟨x, tail⟩⟩
        · simp at hlen
        · simp at hlen
        · simp only [tlvCode, lengthField, ite_eq_right_iff, reduceCtorEq, imp_false, not_le] at h
          refine ⟨x.toNat, by simp [paramLength], ?_⟩
          simp
          omega
    simp only [paramBody, hlen, decide_true, require_true, ok_bind, hl,
      decide_eq_false (Nat.not_le.mpr hlt), require_false, error_bind, parameterReason, if_true]
  · simp only [paramBody, hlen, decide_false, require_false, error_bind, parameterReason,
      if_false]

theorem paramLoop_eq_ok : SliceLoop.loop (paramBody extended) b s = .ok s' ↔
    ∃ ts : List Tlv, (∀ t ∈ ts, (tlvCode extended).Valid t) ∧
      b = ts.flatMap (tlvCode extended).encode ∧
      ts.foldlM (readParameter extended) s = .ok s' :=
  Delimited.loop_eq_ok (fun b => err 2 0 (parameterReason extended b))
    (fun _ _ _ _ h => paramBody_some h) (fun _ _ hb h => paramBody_none hb h)

/-! What the capabilities say. -/

namespace Tlv

/-- The lengths the recognised capabilities have. -/
def CapabilityOk (c : Tlv) : Prop :=
  (c.kind = 1 → c.data.length = 4) ∧ (c.kind = 2 → c.data = []) ∧
    (c.kind = 65 → c.data.length = 4)

/-- The AS number a four-octet AS capability announces. -/
def asn (c : Tlv) : Option UInt32 :=
  if c.kind = 65 then some (UInt32.ofNat (BigEndian.decode c.data)) else none

/-- A multiprotocol capability for the unicast prefixes of an address family. -/
def unicast (afi : ℕ) (c : Tlv) : Bool :=
  c.kind == 1 && c.data[3]? == some 1 && BigEndian.decode (c.data.take 2) == afi

end Tlv

/-- All elements are equal. -/
def Agree (l : List UInt32) : Prop := ∀ x ∈ l, ∀ y ∈ l, x = y

/-- What is known after one more capability. -/
def Caps.add (s : Caps) (c : Tlv) : Caps where
  as4 := s.as4.or c.asn
  mp := s.mp || c.kind == 1
  v4 := s.v4 || c.unicast 1
  v6 := s.v6 || c.unicast 2

theorem agree_snoc {o o' : Option UInt32} {l : List UInt32} :
    Agree (o.toList ++ o'.toList) ∧ Agree ((o.or o').toList ++ l) ↔
      Agree (o.toList ++ (o'.toList ++ l)) := by
  cases o with
  | none => cases o' <;> simp [Agree]
  | some x =>
    cases o' with
    | none => simp [Agree]
    | some y =>
      simp only [Agree, Option.toList_some, Option.some_or, List.cons_append, List.nil_append,
        List.mem_cons, List.not_mem_nil, or_false]
      constructor
      · rintro ⟨hxy, hl⟩ a ha c hc
        have h := hxy x (Or.inl rfl) y (Or.inr rfl)
        subst h
        exact hl a (by tauto) c (by tauto)
      · intro h
        exact ⟨fun a ha c hc => h a (by tauto) c (by tauto),
          fun a ha c hc => h a (by tauto) c (by tauto)⟩

theorem readCapability_eq_ok : readCapability s t = .ok s' ↔
    t.CapabilityOk ∧ Agree (s.as4.toList ++ t.asn.toList) ∧ s' = s.add t := by
  obtain ⟨kind, data⟩ := t
  obtain ⟨as4, mp, v4, v6⟩ := s
  have hold : Agree as4.toList := by cases as4 <;> simp [Agree]
  simp only [readCapability, readCap, Tlv.CapabilityOk, Tlv.asn, Caps.add, Tlv.unicast]
  by_cases h1 : kind = 1
  · subst h1
    by_cases hlen : data.length = 4
    · obtain ⟨a, b, c, d, rfl⟩ : ∃ a b c d, data = [a, b, c, d] := by
        rcases data with - | ⟨a, - | ⟨b, - | ⟨c, - | ⟨d, - | ⟨e, data⟩⟩⟩⟩⟩ <;> simp at hlen
        exact ⟨a, b, c, d, rfl⟩
      by_cases hd : d = 1
      · simp [hd, hold, BigEndian.decode]
        exact eq_comm
      · have hd' : (d == 1) = false := by simpa using hd
        simp [hd, hd', hold]
        exact eq_comm
    · simp [hlen, require_bind_eq_ok]
  · by_cases h2 : kind = 2
    · subst h2
      by_cases hnil : data = []
      · simp [hnil, hold, eq_comm]
      · simp [hnil, require_bind_eq_ok]
    · by_cases h65 : kind = 65
      · subst h65
        by_cases hlen : data.length = 4
        · cases as4 with
          | none => simp [hlen, Agree, eq_comm]
          | some w =>
            by_cases hw : w = UInt32.ofNat (BigEndian.decode data)
            · simp [hlen, Agree, hw, eq_comm]
            · simp [hlen, Agree, hw, require_bind_eq_ok]
        · simp [hlen, require_bind_eq_ok]
      · have h1' : (kind == 1) = false := by simpa using h1
        simp [h1, h1', h2, h65, hold, eq_comm]

/-- A list of capabilities is read iff each has its length and all AS numbers agree. -/
theorem readCapabilities_eq_ok : cs.foldlM readCapability s = .ok s' ↔
    (∀ c ∈ cs, c.CapabilityOk) ∧ Agree (s.as4.toList ++ cs.filterMap Tlv.asn) ∧
      s' = cs.foldl Caps.add s := by
  induction cs generalizing s with
  | nil =>
    have hold : Agree s.as4.toList := by cases s.as4 <;> simp [Agree]
    simp [hold, eq_comm]
  | cons c cs ih =>
    have hcons : (c :: cs).filterMap Tlv.asn = c.asn.toList ++ cs.filterMap Tlv.asn := by
      cases hc : c.asn <;> simp [hc]
    rw [List.foldlM_cons, bind_eq_ok, hcons, ← agree_snoc]
    constructor
    · rintro ⟨s₁, h₁, h⟩
      obtain ⟨hok, hagree, rfl⟩ := readCapability_eq_ok.mp h₁
      obtain ⟨hall, hrest, rfl⟩ := ih.mp h
      refine ⟨?_, ⟨hagree, hrest⟩, rfl⟩
      simpa using ⟨hok, hall⟩
    · rintro ⟨hall, ⟨hagree, hrest⟩, rfl⟩
      rw [List.forall_mem_cons] at hall
      exact ⟨s.add c, readCapability_eq_ok.mpr ⟨hall.1, hagree, rfl⟩,
        ih.mpr ⟨hall.2, hrest, rfl⟩⟩

/-- What a list of capabilities adds. -/
theorem foldl_add (s : Caps) (cs : List Tlv) : cs.foldl Caps.add s =
    { as4 := s.as4.or (cs.findSome? Tlv.asn)
      mp := s.mp || cs.any (fun c => c.kind == 1)
      v4 := s.v4 || cs.any (Tlv.unicast 1)
      v6 := s.v6 || cs.any (Tlv.unicast 2) } := by
  induction cs generalizing s with
  | nil => simp
  | cons c cs ih =>
    rw [List.foldl_cons, ih]
    simp only [Caps.add, List.any_cons, List.findSome?_cons, Bool.or_assoc, Option.or_assoc]
    cases c.asn <;> simp

/-- The parameter holding a list of capabilities. -/
def capabilityParameter (cs : List Tlv) : Tlv := ⟨2, cs.flatMap (tlvCode false).encode⟩

/-- Parameters are read iff all hold capabilities, and then as one list of them. -/
theorem readParameters_eq_ok {ts : List Tlv} :
    ts.foldlM (readParameter extended) s = .ok s' ↔
      ∃ css : List (List Tlv), ts = css.map capabilityParameter ∧
        (∀ c ∈ css.flatten, (tlvCode false).Valid c) ∧
        css.flatten.foldlM readCapability s = .ok s' := by
  induction ts generalizing s with
  | nil =>
    constructor
    · intro h
      exact ⟨[], rfl, by simp, h⟩
    · rintro ⟨css, hcss, -, h⟩
      obtain rfl : css = [] := by simpa using hcss.symm
      exact h
  | cons t ts ih =>
    rw [List.foldlM_cons, bind_eq_ok]
    constructor
    · rintro ⟨s₁, h₁, h⟩
      obtain ⟨css, rfl, hv, hfold⟩ := ih.mp h
      unfold readParameter at h₁
      split at h₁
      · rename_i hk
        obtain ⟨cs, hcs, hdata, hfold₁⟩ := capLoop_eq_ok.mp h₁
        obtain ⟨kind, data⟩ := t
        obtain rfl : kind = 2 := hk
        obtain rfl : data = _ := hdata
        refine ⟨cs :: css, rfl, ?_, ?_⟩
        · intro c hc
          rw [List.flatten_cons, List.mem_append] at hc
          exact hc.elim (hcs c) (hv c)
        · rw [List.flatten_cons, List.foldlM_append, hfold₁]
          exact hfold
      · cases h₁
    · rintro ⟨css, hcss, hv, hfold⟩
      cases css with
      | nil => cases hcss
      | cons cs css =>
        rw [List.map_cons, List.cons.injEq] at hcss
        obtain ⟨rfl, rfl⟩ := hcss
        rw [List.flatten_cons, List.foldlM_append, bind_eq_ok] at hfold
        obtain ⟨s₁, h₁, h⟩ := hfold
        rw [List.flatten_cons] at hv
        refine ⟨s₁, ?_, ih.mpr ⟨css, rfl, fun c hc => hv c (List.mem_append_right _ hc), h⟩⟩
        rw [readParameter, capabilityParameter, if_pos rfl]
        exact capLoop_eq_ok.mpr ⟨cs, fun c hc => hv c (List.mem_append_left _ hc), rfl, h₁⟩

end Ubgp
