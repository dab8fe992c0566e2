import Ubgp.Wire.Grammar

/-! The reference classification of a parsed UPDATE. -/
namespace Ubgp

/-- The value of a multiprotocol attribute. -/
structure MpNlri where
  afi : ℕ
  safi : UInt8
  nextHop : Bytes
  nlri : Bytes

namespace MpNlri

/-- IPv4 or IPv6 unicast. -/
def Unicast (m : MpNlri) : Prop := m.safi = 1 ∧ (m.afi = 1 ∨ m.afi = 2)

/-- The NLRI of a unicast family is packed for its address width. -/
def NlriOk (m : MpNlri) : Prop :=
  m.Unicast → (nlriCode (if m.afi = 1 then 32 else 128)).Packed m.nlri

def NextHopOk (m : MpNlri) : Prop :=
  m.Unicast → if m.afi = 2 then m.nextHop.length = 16 ∨ m.nextHop.length = 32
    else m.nextHop.length = 4

end MpNlri

/-- AFI, SAFI, next-hop length, next hop, a reserved octet, NLRI. -/
def decodeMpReach : Bytes → Option MpNlri
  | x :: y :: safi :: len :: rest =>
    if len.toNat + 1 ≤ rest.length then
      some ⟨x.toNat * 256 + y.toNat, safi, rest.take len.toNat, rest.drop (len.toNat + 1)⟩
    else none
  | _ => none

/-- AFI, SAFI, NLRI. -/
def decodeMpUnreach : Bytes → Option MpNlri
  | x :: y :: safi :: rest => some ⟨x.toNat * 256 + y.toNat, safi, [], rest⟩
  | _ => none

namespace Attribute

def optional (a : Attribute) : Bool := a.flags.toNat / 128 % 2 == 1
def transitive (a : Attribute) : Bool := a.flags.toNat / 64 % 2 == 1
def isPartial (a : Attribute) : Bool := a.flags.toNat / 32 % 2 == 1

/-- The flags of a recognised type: well-known, optional non-transitive, or optional
transitive, where only the last may be partial. -/
def FlagsRight (a : Attribute) : Prop :=
  match a.kind.toNat with
  | 1 | 2 | 3 | 5 | 6 => a.optional = false ∧ a.transitive = true ∧ a.isPartial = false
  | 4 | 9 | 10 | 14 | 15 => a.optional = true ∧ a.transitive = false ∧ a.isPartial = false
  | 7 | 8 | 16 | 17 | 18 | 32 => a.optional = true ∧ a.transitive = true
  | _ => True

/-- The types the validator has a rule for. -/
def Recognised (kind : UInt8) : Prop :=
  kind.toNat ∈ [1, 2, 3, 4, 5, 6, 7, 8, 9, 10, 14, 15, 16, 17, 18, 32]

instance (kind : UInt8) : Decidable (Recognised kind) := inferInstanceAs (Decidable (_ ∈ _))

/-- A multiprotocol attribute that can be decoded for its family. -/
def MpWellFormed (a : Attribute) : Prop :=
  if a.kind = 14 then ∃ m, decodeMpReach a.data = some m ∧ m.NextHopOk ∧ m.NlriOk
  else ∃ m, decodeMpUnreach a.data = some m ∧ m.NlriOk

/-- The value of every other recognised type. -/
def WellFormed (n : Negotiated) (a : Attribute) : Prop :=
  match a.kind.toNat with
  | 1 => a.data.length = 1 ∧ ∀ o ∈ a.data, o.toNat ≤ 2
  | 2 => (pathCode (if n.asn4 then 4 else 2)).Packed a.data
  | 3 => a.data.length = 4 ∧ validV4 (ofOctets 32 a.data) = true
  | 4 | 5 | 9 => a.data.length = 4
  | 6 => a.data.length = 0
  | 7 => a.data.length = if n.asn4 then 8 else 6
  | 8 | 10 => a.data ≠ [] ∧ 4 ∣ a.data.length
  | 16 => a.data ≠ [] ∧ 8 ∣ a.data.length
  | 17 => 6 ≤ a.data.length ∧ 2 ∣ a.data.length ∧ (pathCode 4).Packed a.data
  | 18 => a.data.length = 8
  | 32 => a.data ≠ [] ∧ 12 ∣ a.data.length
  | _ => True

/-- A repeated or malformed multiprotocol attribute, or the first occurrence of an unrecognised
type that is not optional. -/
def Fatal (earlier : List UInt8) (a : Attribute) : Prop :=
  (isMp a.kind = true ∧ (a.kind ∈ earlier ∨ ¬ a.FlagsRight ∨ ¬ a.MpWellFormed)) ∨
    (a.kind ∉ earlier ∧ ¬ Recognised a.kind ∧ a.optional = false)

/-- AS4 attributes between four-octet speakers and internal attributes of external peers are
ignored. -/
def Ignored (n : Negotiated) (kind : UInt8) : Prop :=
  (n.asn4 = true ∧ kind.toNat ∈ [17, 18]) ∨ (n.internal = false ∧ kind.toNat ∈ [5, 9, 10])

open Classical in
/-- What an attribute that is not fatal costs, given the types before it. -/
noncomputable def severity (n : Negotiated) (earlier : List UInt8) (a : Attribute) :
    UpdateAction :=
  if a.kind ∈ earlier ∨ Ignored n a.kind then .attributeDiscard
  else if isMp a.kind = true ∨ ¬ Recognised a.kind ∨ (a.FlagsRight ∧ a.WellFormed n) then .valid
  else if a.kind.toNat ∈ [6, 7, 17, 18] then .attributeDiscard
  else .treatAsWithdraw

/-- An IPv4- or IPv6-unicast MP_REACH_NLRI with a nonempty NLRI. -/
def Reaches (a : Attribute) : Prop :=
  a.kind = 14 ∧ ∃ m, decodeMpReach a.data = some m ∧ m.Unicast ∧ m.nlri ≠ []

end Attribute

/-- Where the walk stopped, the section overruns in a multiprotocol attribute. -/
def BrokenMp (rest : Bytes) : Prop :=
  ∃ flags kind x tail, rest = flags :: kind :: x :: tail ∧ isMp kind = true

/-- Some attribute of the list is fatal where it stands. -/
def FatalIn (earlier : List UInt8) (as : List Attribute) : Prop :=
  ∃ before a after, as = before ++ a :: after ∧
    a.Fatal (earlier ++ before.map Attribute.kind)

/-- The maximum over the walked attributes. -/
noncomputable def worst (n : Negotiated) (earlier : List UInt8) : List Attribute → UpdateAction
  | [] => .valid
  | a :: as => max (a.severity n earlier) (worst n (earlier ++ [a.kind]) as)

namespace UpdateSections

def kinds (u : UpdateSections) : List UInt8 := u.attributes.map Attribute.kind

/-- The message carries reachable NLRI of a supported family. -/
def Reachable (u : UpdateSections) : Prop := u.nlri ≠ [] ∨ ∃ a ∈ u.attributes, a.Reaches

/-- A mandatory attribute is missing. -/
def Missing (n : Negotiated) (u : UpdateSections) : Prop :=
  (u.Reachable ∧ (1 ∉ u.kinds ∨ 2 ∉ u.kinds ∨ (n.internal = true ∧ 5 ∉ u.kinds))) ∨
    (u.nlri ≠ [] ∧ 3 ∉ u.kinds)

open Classical in
/-- The combined severity: the walked attributes, an early stop and missing attributes. -/
noncomputable def severity (n : Negotiated) (u : UpdateSections) : UpdateAction :=
  max (worst n [] u.attributes) (if u.rest ≠ [] ∨ u.Missing n then .treatAsWithdraw else .valid)

/-- The walk reaches something that resets the session. -/
def Broken (u : UpdateSections) : Prop :=
  ¬ (nlriCode 32).Packed u.withdrawn ∨ ¬ (nlriCode 32).Packed u.nlri ∨
    FatalIn [] u.attributes ∨ BrokenMp u.rest

/-- Broken, or in need of a withdrawal it has no prefixes for. -/
def Fatal (n : Negotiated) (u : UpdateSections) : Prop :=
  u.Broken ∨ (u.severity n = .treatAsWithdraw ∧ ¬ u.Reachable)

end UpdateSections
end Ubgp
