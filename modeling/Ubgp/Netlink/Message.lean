import Ubgp.Netlink.Exports

/-! The rtnetlink parser: messages of a datagram, routes and dump statuses (`netlink.rs`).

Native-endian fields are read as on the little-endian targets. -/
namespace Ubgp
namespace Netlink

open SliceLoop (Control)

def HEADER : ℕ := 16
def NLMSG_ERROR : ℕ := 2
def NLMSG_DONE : ℕ := 3
def NLMSG_OVERRUN : ℕ := 4
def RTM_NEWROUTE : ℕ := 24
def AF_INET : UInt8 := 2
def AF_INET6 : UInt8 := 10
/-- `-ENOENT` as the 32-bit pattern of a status field. -/
def noEntry : ℕ := 2 ^ 32 - 2

/-- `ensure!` with its message. -/
def check (ok : Bool) (message : String) : Result Unit :=
  if ok then .ok () else .error (.other message)

theorem check_eq_ok {ok : Bool} {message : String} : check ok message = .ok () ↔ ok = true := by
  cases ok <;> simp [check]

/-- Round a netlink message or attribute length up to its four-byte boundary. -/
def align (n : ℕ) : ℕ := (n + 3) / 4 * 4

theorem le_align (n : ℕ) : n ≤ align n := by
  unfold align
  omega

def u16n (b : Bytes) : Result ℕ := do
  let x ← index b 0
  let y ← index b 1
  return x.toNat + y.toNat * 256

def u32n (b : Bytes) : Result ℕ := do
  return BigEndian.decode (← slice b 0 4).reverse

/-- One message of a datagram. -/
structure Message where
  kind : ℕ
  flags : ℕ
  seq : ℕ
  payload : Bytes
deriving DecidableEq

/-- `NLM_F_DUMP_INTR`. -/
def Message.interrupted (m : Message) : Bool := m.flags / 16 % 2 == 1

/-- The first message of a nonempty rest of a datagram, with its length field. -/
def header (bytes : Bytes) : Result (Message × ℕ) := do
  check (decide (HEADER ≤ bytes.length)) "short netlink header"
  let len ← u32n bytes
  check (decide (HEADER ≤ len) && decide (len ≤ bytes.length)) "invalid netlink message length"
  let kind ← u16n (← sliceFrom bytes 4)
  let flags ← u16n (← sliceFrom bytes 6)
  let seq ← u32n (← sliceFrom bytes 8)
  return (⟨kind, flags, seq, ← slice bytes HEADER len⟩, len)

section Messages
variable {σ : Type}

/-- A failure that keeps what the callback has recorded so far. -/
def attempt {α : Type} (s : σ) (x : Result α) : Except (σ × Fault) α := x.mapError (s, ·)

def messageBody (f : Message → σ → Except (σ × Fault) σ) (bytes : Bytes) (s : σ) :
    Except (σ × Fault) (Control UInt8 σ) := do
  let (m, len) ← attempt s (header bytes)
  let s ← f m s
  if len = bytes.length then return .leave s
  else
    attempt s (check (decide (align len ≤ bytes.length)) "short netlink padding")
    return .next s (← attempt s (sliceFrom bytes (align len)))

/-- Walk aligned messages in a datagram, rejecting malformed lengths and padding. -/
def messages (bytes : Bytes) (f : Message → σ → Except (σ × Fault) σ) (s : σ) :
    Except (σ × Fault) σ :=
  SliceLoop.loop (messageBody f) bytes s

end Messages

/-- What the attributes of a route have said so far. -/
structure RouteAttrs where
  table : UInt32
  dst : Bytes
  hasDst : Bool

/-- The effect of one attribute of length `n`. -/
def readRouteAttr (width n : ℕ) (attrs : Bytes) (s : RouteAttrs) : Result RouteAttrs := do
  let kind ← u16n (← sliceFrom attrs 2)
  if kind % 0x4000 = 1 then
    check (n == width + 4) "invalid RTA_DST"
    return { s with dst := (← slice attrs 4 n) ++ s.dst.drop width, hasDst := true }
  else if kind % 0x4000 = 15 then
    check (n == 8) "invalid RTA_TABLE"
    return { s with table := UInt32.ofNat (← u32n (← sliceFrom attrs 4)) }
  else return s

def routeAttrBody (width : ℕ) (attrs : Bytes) (s : RouteAttrs) :
    Result (Control UInt8 RouteAttrs) := do
  check (decide (4 ≤ attrs.length)) "short route attribute"
  let n ← u16n attrs
  check (decide (4 ≤ n) && decide (n ≤ attrs.length)) "invalid route attribute length"
  let s ← readRouteAttr width n attrs s
  if n = attrs.length then return .leave s
  else
    check (decide (align n ≤ attrs.length)) "short route attribute padding"
    return .next s (← sliceFrom attrs (align n))

/-- `IpNet::new(ip, len)?.trunc()`. -/
def newNet (width : ℕ) (dst : Bytes) (len : ℕ) : Result IpNet :=
  match IpNet.new (if width = 4 then .v4 (ofOctets 32 (dst.take 4)) else .v6 (ofOctets 128 dst))
    len with
  | some net => .ok net.trunc
  | none => .error (.other "invalid IP prefix length")

/-- Routes other than ordinary, destination-only unicast ones are left out. -/
def excluded (payload : Bytes) : Result Bool := do
  return (← index payload 7) != 1 || (← index payload 2) != 0 ||
    (← u32n (← sliceFrom payload 8)) / 0x200 % 2 == 1

/-- The destination of a route whose family has addresses of `width` octets. -/
def routeDestination (width : ℕ) (payload : Bytes) (tables : List UInt32) :
    Result (Option IpNet) := do
  let len := (← index payload 1).toNat
  check (decide (len ≤ width * 8)) "invalid route prefix length"
  let s ← SliceLoop.loop (routeAttrBody width) (← sliceFrom payload 12)
    ⟨(← index payload 4).toUInt32, List.replicate 16 0, false⟩
  check (len == 0 || s.hasDst) "missing route destination"
  if tables.contains s.table then return some (← newNet width s.dst len)
  else return none

/-- Decode a destination-only unicast prefix from a selected table. Returns `none` for excluded
routes and an error for malformed supported payloads. -/
def route (payload : Bytes) (tables : List UInt32) : Result (Option IpNet) := do
  check (decide (12 ≤ payload.length)) "short rtmsg"
  let family ← index payload 0
  if family ≠ AF_INET ∧ family ≠ AF_INET6 then return none
  else if ← excluded payload then return none
  else routeDestination (if family = AF_INET then 4 else 16) payload tables

/-- Validate dump completion, accepting ENOENT only when no routes were received. -/
def dumpStatus (payload : Bytes) (sawRoute : Bool) : Result Unit :=
  if payload.isEmpty then .ok ()
  else do
    check (decide (4 ≤ payload.length)) "short netlink dump status"
    let code ← u32n payload
    check (code == 0 || (code == noEntry && !sawRoute)) "netlink dump failed"

theorem newNet_trunc {width len : ℕ} {dst : Bytes} {p : IpNet}
    (h : newNet width dst len = .ok p) : p.trunc = p := by
  unfold newNet at h
  split at h
  · cases h
    exact IpNet.trunc_trunc _
  · cases h

/-- Every prefix the parser returns has zero host bits. -/
theorem route_trunc {payload : Bytes} {tables : List UInt32} {p : IpNet}
    (h : route payload tables = .ok (some p)) : p.trunc = p := by
  simp only [route, bind_eq_ok] at h
  obtain ⟨-, -, family, -, h⟩ := h
  split at h
  · cases h
  · simp only [bind_eq_ok] at h
    obtain ⟨out, -, h⟩ := h
    split at h
    · cases h
    · simp only [routeDestination, bind_eq_ok] at h
      obtain ⟨len, -, -, -, tail, -, octet, -, s, -, -, -, h⟩ := h
      split at h
      · simp only [bind_eq_ok, pure_eq_ok, Except.ok.injEq, Option.some.injEq] at h
        obtain ⟨q, hq, rfl⟩ := h
        exact newNet_trunc hq
      · cases h

/-- The main-table unicast route to 198.51.100.0/24. -/
def exampleRoute : Bytes :=
  [2, 24, 0, 0, 254, 0, 0, 1, 0, 0, 0, 0, 8, 0, 1, 0, 198, 51, 100, 0]

set_option maxRecDepth 4096 in
theorem route_exampleRoute (tables : List UInt32) : route exampleRoute tables =
    if tables.contains 254 then .ok (some examplePrefix) else .ok none := by
  rfl

/-- A short datagram with one message. -/
def datagram (kind seq : UInt8) (payload : Bytes) : Bytes :=
  [UInt8.ofNat (16 + payload.length), 0, 0, 0, kind, 0, 0, 0, seq, 0, 0, 0, 0, 0, 0, 0] ++ payload

end Netlink
end Ubgp
