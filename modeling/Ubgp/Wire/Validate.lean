import Mathlib.Order.Lattice
import Mathlib.Order.Basic
import Ubgp.Wire.Update

/-! Receiving an UPDATE: validation, recovery classification and the diagnostic decoder
(`wire.rs`). -/
namespace Ubgp

open SliceLoop (Control)

/-- Check packed prefix lengths and available bytes for an address width in bits. -/
def nlriBody (bits : ℕ) (b : Bytes) (_ : Unit) : Result (Control UInt8 Unit) := do
  let len := (← index b 0).toNat
  require (decide (len ≤ bits) && decide (prefixOctets len < b.length)) 3 10 "invalid NLRI"
  return .next () (← sliceFrom b (prefixOctets len + 1))

def validateNlri (b : Bytes) (bits : ℕ) : Result Unit := SliceLoop.loop (nlriBody bits) b ()

/-- The guard `b.len() >= 2 && (1..=4).contains(&b[0]) && b[1] > 0`. -/
def segmentOk (b : Bytes) : Result Bool :=
  if 2 ≤ b.length then do
    let kind ← index b 0
    let count ← index b 1
    return decide (1 ≤ kind.toNat) && decide (kind.toNat ≤ 4) && decide (0 < count.toNat)
  else return false

def pathBody (width : ℕ) (b : Bytes) (_ : Unit) : Result (Control UInt8 Unit) := do
  require (← segmentOk b) 3 11 "invalid AS_PATH segment"
  let len := 2 + width * (← index b 1).toNat
  require (decide (len ≤ b.length)) 3 11 "truncated AS_PATH"
  return .next () (← sliceFrom b len)

/-- Check AS_PATH segment types and lengths using a two- or four-byte ASN width. -/
def validatePath (b : Bytes) (width : ℕ) : Result Unit := SliceLoop.loop (pathBody width) b ()

/-- The strongest nonfatal handling required for a received UPDATE. -/
inductive UpdateAction
  | valid
  | attributeDiscard
  | treatAsWithdraw
deriving DecidableEq

namespace UpdateAction

def rank : UpdateAction → ℕ
  | valid => 0
  | attributeDiscard => 1
  | treatAsWithdraw => 2

instance : LinearOrder UpdateAction :=
  LinearOrder.lift' rank (by intro a b h; cases a <;> cases b <;> first | rfl | cases h)

instance : OrderBot UpdateAction where
  bot := valid
  bot_le := by intro a; cases a <;> decide

end UpdateAction

/-- The locals of the attribute loop; `seen` is the table of attribute types. -/
structure Scan where
  seen : UInt8 → Bool
  mpReach : Bool
  action : UpdateAction

namespace Scan

def start : Scan := ⟨fun _ => false, false, .valid⟩

def mark (s : Scan) (kind : UInt8) : Scan := { s with seen := Function.update s.seen kind true }

def raise (s : Scan) (a : UpdateAction) : Scan := { s with action := max s.action a }

end Scan

/-- MP_REACH_NLRI and MP_UNREACH_NLRI. -/
def isMp (kind : UInt8) : Bool := kind == 14 || kind == 15

/-- The attribute flag octet asks for a two-octet length. -/
def isExtended (flags : UInt8) : Bool := flags &&& 0x10 != 0

/-- Attributes that are discarded regardless of their value or flags. -/
def isDiscarded (n : Negotiated) (kind : UInt8) : Bool :=
  (n.asn4 && (kind == 17 || kind == 18)) ||
    (!n.internal && (kind == 5 || kind == 9 || kind == 10))

/-- The optional and transitive bits a recognised attribute type has. -/
def expectedFlags (kind : UInt8) : Option UInt8 :=
  match kind.toNat with
  | 1 | 2 | 3 | 5 | 6 => some 0x40
  | 4 | 9 | 10 | 14 | 15 => some 0x80
  | 7 | 8 | 16 | 17 | 18 | 32 => some 0xc0
  | _ => none

def flagsOk (flags kind : UInt8) : Bool :=
  (expectedFlags kind).all (fun e => flags &&& 0xc0 == e && (flags &&& 0x20 == 0 || e == 0xc0))

/-- `data[2] == 1 && (afi == 1 || afi == 2)`. -/
def unicast (afi : ℕ) (safi : UInt8) : Bool := safi == 1 && (afi == 1 || afi == 2)

/-- The guard `l >= 5 && data[3] as usize + 5 <= l`. -/
def nextHopFits (data : Bytes) : Result Bool :=
  if 5 ≤ data.length then do
    return decide ((← index data 3).toNat + 5 ≤ data.length)
  else return false

/-- The next-hop checks of MP_REACH_NLRI; the NLRI starts at the returned offset. -/
def mpStart (kind : UInt8) (afi : ℕ) (data : Bytes) : Result ℕ :=
  if kind = 14 then do
    require (← nextHopFits data) 3 9 "invalid MP_REACH next hop"
    let size ← index data 3
    require (!unicast afi (← index data 2) ||
      (if afi = 2 then size == 16 || size == 32 else size == 4)) 3 9
      "invalid MP_REACH next-hop size"
    return 5 + size.toNat
  else return 3

/-- The checks of a multiprotocol attribute; tells whether it carries reachable NLRI. -/
def readMp (flags kind : UInt8) (data : Bytes) : Result Bool := do
  require (flagsOk flags kind) 3 9 "invalid multiprotocol attribute flags"
  require (decide (3 ≤ data.length)) 3 9 "short multiprotocol attribute"
  let afi ← u16b data
  let start ← mpStart kind afi data
  if unicast afi (← index data 2) then
    validateNlri (← sliceFrom data start) (if afi = 1 then 32 else 128)
    return kind == 14 && decide (start < data.length)
  else return false

/-- `is_ok()`: a panic is not caught. -/
def isOk {α : Type} : Result α → Result Bool
  | .ok _ => .ok true
  | .error .panic => .error .panic
  | .error _ => .ok false

/-- The address an attribute of four octets holds. -/
def addressOk (data : Bytes) : Result Bool :=
  if data.length = 4 then do
    return validV4 (ofOctets 32 [← index data 0, ← index data 1, ← index data 2, ← index data 3])
  else return false

def originOk (data : Bytes) : Result Bool :=
  if data.length = 1 then do return decide ((← index data 0).toNat ≤ 2) else return false

/-- The value check of each recognised attribute type; an unrecognised one must be optional. -/
def valueOk (n : Negotiated) (flags kind : UInt8) (data raw : Bytes) : Result Bool :=
  let l := data.length
  match kind.toNat with
  | 1 => originOk data
  | 2 => isOk (validatePath data (if n.asn4 then 4 else 2))
  | 3 => addressOk data
  | 4 | 5 | 9 => return l == 4
  | 6 => return l == 0
  | 7 => return l == if n.asn4 then 8 else 6
  | 8 | 10 => return l != 0 && l % 4 == 0
  | 16 => return l != 0 && l % 8 == 0
  | 17 => if 6 ≤ l ∧ l % 2 = 0 then isOk (validatePath data 4) else return false
  | 18 => return l == 8
  | 32 => return l != 0 && l % 12 == 0
  | _ =>
    if flags &&& 0x80 == 0 then
      throw (.protocol ⟨3, 2, raw, "unknown well-known attribute"⟩)
    else return true

/-- What a malformed attribute of a type costs. -/
def malformedAction (kind : UInt8) : UpdateAction :=
  if kind = 6 ∨ kind = 7 ∨ kind = 17 ∨ kind = 18 then .attributeDiscard else .treatAsWithdraw

/-- The loop body once the attribute is delimited; `raw` is the attribute with its header. -/
def readAttribute (n : Negotiated) (flags kind : UInt8) (data raw : Bytes) (s : Scan) :
    Result Scan :=
  if s.seen kind then do
    require (!isMp kind) 3 1 "duplicate multiprotocol attribute"
    return s.raise .attributeDiscard
  else if isDiscarded n kind then return (s.mark kind).raise .attributeDiscard
  else if isMp kind then do
    let reach ← readMp flags kind data
    return { s.mark kind with mpReach := s.mpReach || reach }
  else do
    let valid ← valueOk n flags kind data raw
    if !flagsOk flags kind || !valid then
      return (s.mark kind).raise (malformedAction kind)
    else return s.mark kind

/-- The length field, of two octets in the extended form. -/
def attributeLength (attrs : Bytes) (h : ℕ) : Result ℕ :=
  if h = 4 then do u16b (← sliceFrom attrs 2) else do return (← index attrs 2).toNat

/-- A broken header or length: the walk stops, which only legacy NLRI can survive. -/
def stopWalk (mp : Bool) (reason : String) (s : Scan) : Result (Control UInt8 Scan) := do
  require (!mp) 3 9 reason
  return .leave { s with action := .treatAsWithdraw }

/-- One round of the attribute loop. -/
def attributeBody (n : Negotiated) (attrs : Bytes) (s : Scan) : Result (Control UInt8 Scan) :=
  if attrs.length < 3 then return .leave { s with action := .treatAsWithdraw }
  else do
    let flags ← index attrs 0
    let kind ← index attrs 1
    let h := if isExtended flags then 4 else 3
    if attrs.length < h then stopWalk (isMp kind) "short multiprotocol attribute header" s
    else
      let l ← attributeLength attrs h
      if attrs.length < h + l then stopWalk (isMp kind) "truncated multiprotocol attribute" s
      else
        let data ← slice attrs h (h + l)
        let raw ← slice attrs 0 (h + l)
        let s ← readAttribute n flags kind data raw s
        return .next s (← sliceFrom attrs (h + l))

/-- The checks after the loop. -/
def conclude (n : Negotiated) (tail : Bytes) (s : Scan) : Result UpdateAction := do
  let reachable := !tail.isEmpty || s.mpReach
  let action := if (reachable && (!s.seen 1 || !s.seen 2 || (n.internal && !s.seen 5))) ||
      (!tail.isEmpty && !s.seen 3) then .treatAsWithdraw else s.action
  require (action != .treatAsWithdraw || reachable) 3 1
    "cannot recover UPDATE without reachable NLRI"
  return action

/-- Check an UPDATE and classify recoverable errors. Checking goes on after a recoverable error,
so that a later fatal one still wins. -/
def validateUpdate (b : Bytes) (n : Negotiated) : Result UpdateAction := do
  require (decide (4 ≤ b.length)) 3 1 "short UPDATE"
  let w ← u16b b
  require (decide (w + 4 ≤ b.length)) 3 1 "invalid withdrawn length"
  validateNlri (← slice b 2 (2 + w)) 32
  let a ← u16b (← sliceFrom b (2 + w))
  require (decide (w + a + 4 ≤ b.length)) 3 1 "invalid attributes length"
  let tail ← sliceFrom b (4 + w + a)
  validateNlri tail 32
  let s ← SliceLoop.loop (attributeBody n) (← slice b (4 + w) (4 + w + a)) Scan.start
  conclude n tail s

/-! The diagnostic decoder. -/

/-- `IpNet::new(ip, bits).unwrap().trunc()` for zero-padded address octets. -/
def unwrapNet (v6 : Bool) (octets : Bytes) (bits : ℕ) : Result IpNet :=
  match IpNet.new (if v6 then .v6 (ofOctets 128 octets) else .v4 (ofOctets 32 (octets.take 4)))
    bits with
  | some net => .ok net.trunc
  | none => .error .panic

def appendBody (v6 : Bool) (b : Bytes) (out : List IpNet) :
    Result (Control UInt8 (List IpNet)) := do
  let bits := (← index b 0).toNat
  let size := prefixOctets bits
  if (if v6 then 128 else 32) < bits ∨ b.length < size + 1 then return .leave out
  else
    let net ← unwrapNet v6 ((← slice b 1 (1 + size)) ++ List.replicate (16 - size) 0) bits
    return .next (out ++ [net]) (← sliceFrom b (1 + size))

/-- Append the packed prefixes up to the first malformed one. -/
def appendNlri (v6 : Bool) (b : Bytes) (out : List IpNet) : Result (List IpNet) :=
  SliceLoop.loop (appendBody v6) b out

/-- The reachable prefixes of one delimited attribute. -/
def appendMp (kind : UInt8) (data : Bytes) (out : List IpNet) : Result (List IpNet) :=
  if kind = 14 ∧ 5 ≤ data.length then do
    if (← index data 2) = 1 then
      let start := 5 + (← index data 3).toNat
      let afi ← u16b data
      if start ≤ data.length ∧ (afi = 1 ∨ afi = 2) then
        appendNlri (afi == 2) (← sliceFrom data start) out
      else return out
    else return out
  else return out

def prefixesBody (attrs : Bytes) (out : List IpNet) : Result (Control UInt8 (List IpNet)) :=
  if attrs.length < 3 then return .leave out
  else do
    let h := if isExtended (← index attrs 0) then 4 else 3
    if attrs.length < h then return .leave out
    else
      let l ← attributeLength attrs h
      if attrs.length < h + l then return .leave out
      else
        let out ← appendMp (← index attrs 1) (← slice attrs h (h + l)) out
        return .next out (← sliceFrom attrs (h + l))

/-- Decode supported reachable NLRI for recovery diagnostics after validation. Stops at malformed
attribute boundaries and never interprets unknown address families. -/
def updatePrefixes (b : Bytes) : Result (List IpNet) :=
  if b.length < 4 then return []
  else do
    let w ← u16b b
    if b.length < w + 4 then return []
    else
      let a ← u16b (← sliceFrom b (2 + w))
      if b.length < w + a + 4 then return []
      else
        let out ← appendNlri false (← sliceFrom b (4 + w + a)) []
        SliceLoop.loop prefixesBody (← slice b (4 + w) (4 + w + a)) out

end Ubgp
