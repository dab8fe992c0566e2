import Ubgp.Lib.Delimited
import Ubgp.Wire.Validate

/-! The UPDATE grammar: packed prefixes, AS path segments, path attributes and the sections. -/
namespace Ubgp

/-- One packed prefix. -/
structure NlriEntry where
  len : UInt8
  octets : Bytes
deriving DecidableEq

/-- Packed prefixes of a family whose addresses have that many bits. -/
def nlriCode (bits : ℕ) : Delimited UInt8 NlriEntry where
  encode e := e.len :: e.octets
  Valid e := e.len.toNat ≤ bits ∧ e.octets.length = prefixOctets e.len.toNat
  head
    | [] => none
    | len :: rest =>
      if len.toNat ≤ bits ∧ prefixOctets len.toNat ≤ rest.length then
        some (⟨len, rest.take (prefixOctets len.toNat)⟩, rest.drop (prefixOctets len.toNat))
      else none
  encode_ne_nil := by simp
  head_eq_some := by
    intro b x rest
    constructor
    · intro h
      cases b with
      | nil => cases h
      | cons len tail =>
        simp only [Option.ite_none_right_eq_some, Option.some.injEq, Prod.mk.injEq] at h
        obtain ⟨⟨hbits, hlen⟩, rfl, rfl⟩ := h
        exact ⟨⟨hbits, by simpa using hlen⟩, by simp⟩
    · rintro ⟨⟨hbits, hlen⟩, rfl⟩
      simp [hbits, ← hlen]

/-- One segment of an AS path. -/
structure PathSegment where
  kind : UInt8
  count : UInt8
  octets : Bytes
deriving DecidableEq

/-- AS path segments with AS numbers of `width` octets. -/
def pathCode (width : ℕ) : Delimited UInt8 PathSegment where
  encode g := g.kind :: g.count :: g.octets
  Valid g := (1 ≤ g.kind.toNat ∧ g.kind.toNat ≤ 4) ∧ 0 < g.count.toNat ∧
    g.octets.length = width * g.count.toNat
  head
    | kind :: count :: rest =>
      if ((1 ≤ kind.toNat ∧ kind.toNat ≤ 4) ∧ 0 < count.toNat) ∧
          width * count.toNat ≤ rest.length then
        some (⟨kind, count, rest.take (width * count.toNat)⟩, rest.drop (width * count.toNat))
      else none
    | _ => none
  encode_ne_nil := by simp
  head_eq_some := by
    intro b x rest
    constructor
    · intro h
      match b, h with
      | kind :: count :: tail, h =>
        simp only [Option.ite_none_right_eq_some, Option.some.injEq, Prod.mk.injEq] at h
        obtain ⟨⟨⟨hkind, hcount⟩, hlen⟩, rfl, rfl⟩ := h
        exact ⟨⟨hkind, hcount, by simpa using hlen⟩, by simp⟩
    · rintro ⟨⟨hkind, hcount, hlen⟩, rfl⟩
      simp [hkind, hcount, ← hlen]

/-- A completely delimited path attribute. -/
structure Attribute where
  flags : UInt8
  kind : UInt8
  data : Bytes
deriving DecidableEq

namespace Attribute

def lengthOctets (a : Attribute) : Bytes :=
  if isExtended a.flags then BigEndian.encode 2 a.data.length else [UInt8.ofNat a.data.length]

/-- The length the length field can hold. -/
def Fits (a : Attribute) : Prop := a.data.length < if isExtended a.flags then 65536 else 256

instance (a : Attribute) : Decidable a.Fits := inferInstanceAs (Decidable (_ < _))

end Attribute

/-- The length field of an attribute and what follows it. -/
def lengthField (extended : Bool) (b : Bytes) : Option (ℕ × Bytes) :=
  match extended, b with
  | true, x :: y :: rest => some (x.toNat * 256 + y.toNat, rest)
  | false, x :: rest => some (x.toNat, rest)
  | _, _ => none

/-- The octets of a length field. -/
def lengthCode (extended : Bool) (l : ℕ) : Bytes :=
  if extended then BigEndian.encode 2 l else [UInt8.ofNat l]

theorem lengthField_lengthCode {extended : Bool} {l : ℕ}
    (h : l < if extended then 65536 else 256) (rest : Bytes) :
    lengthField extended (lengthCode extended l ++ rest) = some (l, rest) := by
  cases extended with
  | true =>
    simp only [if_true] at h
    simp only [lengthCode, if_true, BigEndian.encode, List.cons_append, lengthField,
      List.nil_append, UInt8.toNat_ofNat', Option.some.injEq, Prod.mk.injEq, and_true]
    omega
  | false =>
    simp [lengthCode, lengthField, UInt8.toNat_ofNat']
    exact h

theorem lengthField_lengthOctets {a : Attribute} (h : a.Fits) (rest : Bytes) :
    lengthField (isExtended a.flags) (a.lengthOctets ++ rest) = some (a.data.length, rest) :=
  lengthField_lengthCode h rest

theorem lengthField_extended {b rest : Bytes} {l : ℕ} (h : lengthField true b = some (l, rest)) :
    ∃ x y, b = x :: y :: rest ∧ x.toNat * 256 + y.toNat = l := by
  rcases b with - | ⟨x, - | ⟨y, tail⟩⟩
  · cases h
  · cases h
  · simp only [lengthField, Option.some.injEq, Prod.mk.injEq] at h
    obtain ⟨hl, rfl⟩ := h
    exact ⟨x, y, rfl, hl⟩

theorem lengthField_short {b rest : Bytes} {l : ℕ} (h : lengthField false b = some (l, rest)) :
    ∃ x, b = x :: rest ∧ x.toNat = l := by
  cases b with
  | nil => cases h
  | cons x tail =>
    simp only [lengthField, Option.some.injEq, Prod.mk.injEq] at h
    obtain ⟨hl, rfl⟩ := h
    exact ⟨x, rfl, hl⟩

/-- A length field that reads as a length is the encoding of that length. -/
theorem lengthCode_of_lengthField {extended : Bool} {b rest : Bytes} {l : ℕ}
    (h : lengthField extended b = some (l, rest)) :
    (l < if extended then 65536 else 256) ∧ b = lengthCode extended l ++ rest := by
  cases extended with
  | true =>
    obtain ⟨x, y, rfl, rfl⟩ := lengthField_extended h
    have hx := x.toNat_lt
    have hy := y.toNat_lt
    refine ⟨by simp only [if_true]; omega, ?_⟩
    simp only [lengthCode, if_true, BigEndian.encode, List.cons_append, List.nil_append]
    have hx' : UInt8.ofNat ((x.toNat * 256 + y.toNat) / 256 ^ 1) = x :=
      UInt8.toNat_inj.mp (by rw [UInt8.toNat_ofNat']; omega)
    have hy' : UInt8.ofNat ((x.toNat * 256 + y.toNat) / 256 ^ 0) = y :=
      UInt8.toNat_inj.mp (by rw [UInt8.toNat_ofNat']; omega)
    rw [hx', hy']
  | false =>
    obtain ⟨x, rfl, rfl⟩ := lengthField_short h
    refine ⟨by simpa using x.toNat_lt, ?_⟩
    simp [lengthCode]

theorem lengthOctets_of_lengthField {a : Attribute} {b rest : Bytes}
    (h : lengthField (isExtended a.flags) b = some (a.data.length, rest)) :
    a.Fits ∧ b = a.lengthOctets ++ rest :=
  lengthCode_of_lengthField h

/-- Path attributes. -/
def attributeCode : Delimited UInt8 Attribute where
  encode a := a.flags :: a.kind :: (a.lengthOctets ++ a.data)
  Valid := Attribute.Fits
  head
    | flags :: kind :: rest =>
      match lengthField (isExtended flags) rest with
      | some (l, rest) =>
        if l ≤ rest.length then some (⟨flags, kind, rest.take l⟩, rest.drop l) else none
      | none => none
    | _ => none
  encode_ne_nil := by simp
  head_eq_some := by
    intro b x rest
    constructor
    · intro h
      match b, h with
      | flags :: kind :: tail, h =>
        simp only at h
        split at h
        · rename_i l tail' hl
          simp only [Option.ite_none_right_eq_some, Option.some.injEq, Prod.mk.injEq] at h
          obtain ⟨hle, rfl, rfl⟩ := h
          have hlen : (tail'.take l).length = l := by simpa using hle
          rw [← hlen] at hl
          have hfield := lengthOctets_of_lengthField (a := ⟨flags, kind, tail'.take l⟩) hl
          exact ⟨hfield.1, by rw [hfield.2]; simp⟩
        · cases h
    · rintro ⟨hfits, rfl⟩
      have hfield := lengthField_lengthOctets hfits (x.data ++ rest)
      simp [List.append_assoc, hfield]

/-- The three sections of an UPDATE; `attributes` are those walked over and `rest` is where the
walk stopped. -/
structure UpdateSections where
  withdrawn : Bytes
  attributes : List Attribute
  rest : Bytes
  nlri : Bytes

/-- A two-octet length and the section it delimits. -/
def lengthPrefixed (b : Bytes) : Option (Bytes × Bytes) :=
  match b with
  | x :: y :: rest =>
    let l := x.toNat * 256 + y.toNat
    if l ≤ rest.length then some (rest.take l, rest.drop l) else none
  | _ => none

/-- Split an UPDATE into its sections. -/
def parseUpdate (b : Bytes) : Option UpdateSections := do
  let (withdrawn, rest) ← lengthPrefixed b
  let (attrs, nlri) ← lengthPrefixed rest
  let (attributes, rest) := attributeCode.walk attrs
  return ⟨withdrawn, attributes, rest, nlri⟩

end Ubgp
