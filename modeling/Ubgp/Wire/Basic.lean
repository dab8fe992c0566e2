import Ubgp.Config
import Ubgp.Lib.SliceLoop

/-! Errors, slices and framing of the BGP codec (`wire.rs`).

Out-of-range indexing, failed assertions and failed `unwrap`s are the explicit outcome
`Fault.panic`, so that their absence is something to prove. -/
namespace Ubgp

structure ProtocolError where
  code : UInt8
  subcode : UInt8
  data : Bytes
  reason : String
deriving DecidableEq

/-- How a fallible function fails: with a reportable error, any other error, or a panic. -/
inductive Fault
  | protocol (e : ProtocolError)
  | other (message : String)
  | panic
deriving DecidableEq

abbrev Result := Except Fault

@[simp] theorem ok_bind {α β : Type} (a : α) (f : α → Result β) :
    ((Except.ok a : Result α) >>= f) = f a := rfl

@[simp] theorem error_bind {α β : Type} (e : Fault) (f : α → Result β) :
    ((Except.error e : Result α) >>= f) = .error e := rfl

@[simp] theorem pure_eq_ok {α : Type} (a : α) : (pure a : Result α) = .ok a := rfl

@[simp] theorem throw_eq_error {α : Type} (e : Fault) : (throw e : Result α) = .error e := rfl

theorem bind_eq_ok {α β : Type} {x : Result α} {f : α → Result β} {r : β} :
    (x >>= f) = .ok r ↔ ∃ a, x = .ok a ∧ f a = .ok r := by
  cases x <;> simp

/-! Checked slice access. -/

def index (b : Bytes) (i : ℕ) : Result UInt8 :=
  match b[i]? with
  | some x => .ok x
  | none => .error .panic

/-- `&b[i..j]`. -/
def slice (b : Bytes) (i j : ℕ) : Result Bytes :=
  if i ≤ j ∧ j ≤ b.length then .ok ((b.take j).drop i) else .error .panic

/-- `&b[i..]`. -/
def sliceFrom (b : Bytes) (i : ℕ) : Result Bytes :=
  if i ≤ b.length then .ok (b.drop i) else .error .panic

/-- A big-endian 16-bit number at the start of a slice. -/
def u16b (b : Bytes) : Result ℕ := do
  let x ← index b 0
  let y ← index b 1
  return x.toNat * 256 + y.toNat

@[simp] theorem index_zero (x : UInt8) (b : Bytes) : index (x :: b) 0 = .ok x := rfl

@[simp] theorem index_succ (x : UInt8) (b : Bytes) (i : ℕ) :
    index (x :: b) (i + 1) = index b i := rfl

theorem index_append_right (l b : Bytes) (i : ℕ) : index (l ++ b) (l.length + i) = index b i := by
  simp [index, List.getElem?_append_right]

@[simp] theorem u16b_cons (x y : UInt8) (b : Bytes) :
    u16b (x :: y :: b) = .ok (x.toNat * 256 + y.toNat) := rfl

theorem slice_eq_ok {b : Bytes} {i j : ℕ} (hi : i ≤ j) (hj : j ≤ b.length) :
    slice b i j = .ok ((b.take j).drop i) := if_pos ⟨hi, hj⟩

theorem sliceFrom_eq_ok {b : Bytes} {i : ℕ} (h : i ≤ b.length) : sliceFrom b i = .ok (b.drop i) :=
  if_pos h

theorem sliceFrom_length {b r : Bytes} {i : ℕ} (h : sliceFrom b i = .ok r) :
    r.length = b.length - i := by
  simp only [sliceFrom] at h
  split at h
  · cases h
    simp
  · cases h

theorem slice_infix {b r : Bytes} {i j : ℕ} (h : slice b i j = .ok r) : r <:+: b := by
  unfold slice at h
  split at h
  · cases h
    exact (List.drop_suffix _ _).isInfix.trans (List.take_prefix _ _).isInfix
  · cases h

theorem sliceFrom_suffix {b r : Bytes} {i : ℕ} (h : sliceFrom b i = .ok r) : r <:+ b := by
  unfold sliceFrom at h
  split at h
  · cases h
    exact List.drop_suffix _ _
  · cases h

@[simp] theorem slice_succ (x : UInt8) (b : Bytes) (i j : ℕ) :
    slice (x :: b) (i + 1) (j + 1) = slice b i j := by
  simp [slice]

@[simp] theorem sliceFrom_succ (x : UInt8) (b : Bytes) (i : ℕ) :
    sliceFrom (x :: b) (i + 1) = sliceFrom b i := by
  simp [sliceFrom]

@[simp] theorem sliceFrom_zero (b : Bytes) : sliceFrom b 0 = .ok b := by simp [sliceFrom]

/-- A slice delimited by the parts it is made of. -/
theorem slice_append (m r : Bytes) : slice (m ++ r) 0 m.length = .ok m := by
  rw [slice_eq_ok (Nat.zero_le _) (by simp)]
  simp

/-- The middle of three parts. -/
theorem slice_mid (l m r : Bytes) :
    slice (l ++ (m ++ r)) l.length (l.length + m.length) = .ok m := by
  rw [slice_eq_ok (Nat.le_add_right _ _) (by simp)]
  simp [List.take_append]

theorem sliceFrom_append (m r : Bytes) : sliceFrom (m ++ r) m.length = .ok r := by
  rw [sliceFrom_eq_ok (by simp)]
  simp

theorem u16b_encode {x : ℕ} (h : x < 65536) (r : Bytes) :
    u16b (BigEndian.encode 2 x ++ r) = .ok x := by
  simp only [BigEndian.encode, List.cons_append, u16b_cons, UInt8.toNat_ofNat']
  congr 1
  omega

/-! Errors. -/

def err (code subcode : UInt8) (reason : String) : Fault := .protocol ⟨code, subcode, [], reason⟩

def require (ok : Bool) (code subcode : UInt8) (reason : String) : Result Unit :=
  if ok then .ok () else .error (err code subcode reason)

@[simp] theorem require_true (code subcode : UInt8) (reason : String) :
    require true code subcode reason = .ok () := rfl

@[simp] theorem require_false (code subcode : UInt8) (reason : String) :
    require false code subcode reason = .error (err code subcode reason) := rfl

theorem require_bind_eq_ok {α : Type} {ok : Bool} {code subcode : UInt8} {reason : String}
    {f : Unit → Result α} {r : α} :
    (require ok code subcode reason >>= f) = .ok r ↔ ok = true ∧ f () = .ok r := by
  cases ok <;> simp

/-- Return early with a protocol error unless a condition holds. -/
def orReturn (ok : Bool) (e : ProtocolError) : Result Unit :=
  if ok then .ok () else .error (.protocol e)

theorem orReturn_bind_eq_ok {α : Type} {ok : Bool} {e : ProtocolError} {f : Unit → Result α}
    {r : α} : (orReturn ok e >>= f) = .ok r ↔ ok = true ∧ f () = .ok r := by
  cases ok <;> simp [orReturn]

/-! Computations without panics. -/

/-- A computation that does not panic. -/
def Safe {α : Type} (x : Result α) : Prop := x ≠ .error .panic

theorem safe_ok {α : Type} (a : α) : Safe (.ok a : Result α) := by simp [Safe]

theorem safe_protocol {α : Type} (e : ProtocolError) : Safe (.error (.protocol e) : Result α) := by
  simp [Safe]

theorem Safe.bind {α β : Type} {x : Result α} {f : α → Result β} (hx : Safe x)
    (hf : ∀ a, x = .ok a → Safe (f a)) : Safe (x >>= f) := by
  cases x with
  | ok a => exact hf a rfl
  | error e =>
    rw [error_bind]
    intro he
    cases he
    exact hx rfl

theorem safe_require (ok : Bool) (code subcode : UInt8) (reason : String) :
    Safe (require ok code subcode reason) := by
  cases ok
  · exact safe_protocol _
  · exact safe_ok ()

theorem Safe.map {α β : Type} {x : Result α} (hx : Safe x) (f : α → β) : Safe (x.map f) := by
  cases x with
  | ok a => exact safe_ok _
  | error e =>
    intro he
    cases he
    exact hx rfl

/-! Framing. -/

def maxMessage : ℕ := 4096
/-- Keep even a full IPv6 batch with both next hops within `maxMessage`. -/
def maxUpdatePrefixes : ℕ := 200

def OPEN : UInt8 := 1
def UPDATE : UInt8 := 2
def NOTIFICATION : UInt8 := 3
def KEEPALIVE : UInt8 := 4
def ROUTE_REFRESH : UInt8 := 5

def marker : Bytes := List.replicate 16 255

/-- Wrap a body in a BGP header, panicking if the message exceeds `maxMessage`. -/
def frame (kind : UInt8) (body : Bytes) : Result Bytes :=
  if body.length + 19 ≤ maxMessage then
    .ok (marker ++ BigEndian.encode 2 (body.length + 19) ++ kind :: body)
  else .error .panic

theorem frame_eq_ok {kind : UInt8} {body m : Bytes} : frame kind body = .ok m ↔
    body.length + 19 ≤ maxMessage ∧
      m = marker ++ BigEndian.encode 2 (body.length + 19) ++ kind :: body := by
  unfold frame
  split
  · rename_i h
    simp [h, eq_comm]
  · rename_i h
    simp [h]

/-- The body of a message starts after the 19-octet header. -/
theorem frame_drop {kind : UInt8} {body m : Bytes} (h : frame kind body = .ok m) :
    m.drop 19 = body := by
  obtain ⟨-, rfl⟩ := frame_eq_ok.mp h
  have hlen : (marker ++ BigEndian.encode 2 (body.length + 19) ++ [kind]).length = 19 := by
    simp [marker]
  rw [show marker ++ BigEndian.encode 2 (body.length + 19) ++ kind :: body =
    (marker ++ BigEndian.encode 2 (body.length + 19) ++ [kind]) ++ body by simp, ← hlen]
  exact List.drop_left

/-- Encode a NOTIFICATION, truncating error data to fit the standard message limit. -/
def notification (code subcode : UInt8) (data : Bytes) : Result Bytes :=
  frame NOTIFICATION (code :: subcode :: data.take (min data.length (maxMessage - 21)))

/-- `read_exact`: an early end of the stream is an I/O error. -/
def readExact (stream : Bytes) (n : ℕ) : Result (Bytes × Bytes) :=
  if n ≤ stream.length then .ok (stream.take n, stream.drop n) else .error (.other "early eof")

/-- The length each message type admits. -/
def validLength (kind : UInt8) (len : ℕ) : Bool :=
  match kind.toNat with
  | 1 => decide (29 ≤ len)
  | 2 => decide (23 ≤ len)
  | 3 => decide (21 ≤ len)
  | 4 => len == 19
  | 5 => len == 23
  | _ => false

/-- Read one frame, validating marker, type and length before the body; the rest of the stream
is returned with it. -/
def readFrame (stream : Bytes) : Result ((UInt8 × Bytes) × Bytes) := do
  let (header, rest) ← readExact stream 19
  require ((← slice header 0 16) == marker) 1 1 "invalid marker"
  let field ← slice header 16 18
  let len ← u16b field
  orReturn (decide (19 ≤ len) && decide (len ≤ maxMessage))
    ⟨1, 2, field, "invalid message length"⟩
  let kind ← index header 18
  orReturn (decide (1 ≤ kind.toNat) && decide (kind.toNat ≤ 5))
    ⟨1, 3, [kind], "invalid message type"⟩
  orReturn (validLength kind len) ⟨1, 2, field, "invalid length for message type"⟩
  let (body, rest) ← readExact rest (len - 19)
  return ((kind, body), rest)

/-- What an OPEN exchange settles for the session. -/
structure Negotiated where
  routerId : Ipv4Addr
  hold : ℕ
  asn4 : Bool
  internal : Bool
  ipv4 : Bool
  ipv6 : Bool
deriving DecidableEq

/-- The family gate of a session. -/
def Negotiated.enabled (n : Negotiated) (p : IpNet) : Bool := if p.isIpv4 then n.ipv4 else n.ipv6

end Ubgp
