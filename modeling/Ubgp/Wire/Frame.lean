import Ubgp.Wire.Update

/-! What `readFrame` accepts, and that the encoders write it; unexpected and refresh messages. -/
namespace Ubgp

variable {b body rest m : Bytes} {kind x y : UInt8}

/-- A message type and a body of a length admitted for it. -/
def FrameOk (kind : UInt8) (body : Bytes) : Prop :=
  (1 ≤ kind.toNat ∧ kind.toNat ≤ 5) ∧ body.length + 19 ≤ maxMessage ∧
    validLength kind (body.length + 19) = true

/-- The octets of a frame. -/
def frameOctets (kind : UInt8) (body : Bytes) : Bytes :=
  marker ++ BigEndian.encode 2 (body.length + 19) ++ kind :: body

theorem length_frameOctets (kind : UInt8) (body : Bytes) :
    (frameOctets kind body).length = body.length + 19 := by
  simp [frameOctets, marker]
  omega

theorem readExact_append (m rest : Bytes) : readExact (m ++ rest) m.length = .ok (m, rest) := by
  simp [readExact]

theorem exists_header (h : 19 ≤ b.length) :
    ∃ m x y kind rest, b = m ++ x :: y :: kind :: rest ∧ m.length = 16 := by
  have hdrop : 3 ≤ (b.drop 16).length := by
    rw [List.length_drop]
    omega
  match hb : b.drop 16, hdrop with
  | x :: y :: kind :: rest, _ =>
    refine ⟨b.take 16, x, y, kind, rest, ?_, by simp; omega⟩
    rw [← hb, List.take_append_drop]

/-- What is read of a stream that holds a whole header. -/
theorem readFrame_header (hm : m.length = 16) :
    readFrame (m ++ x :: y :: kind :: rest) = (do
      require (m == marker) 1 1 "invalid marker"
      orReturn (decide (19 ≤ x.toNat * 256 + y.toNat) &&
        decide (x.toNat * 256 + y.toNat ≤ maxMessage)) ⟨1, 2, [x, y], "invalid message length"⟩
      orReturn (decide (1 ≤ kind.toNat) && decide (kind.toNat ≤ 5))
        ⟨1, 3, [kind], "invalid message type"⟩
      orReturn (validLength kind (x.toNat * 256 + y.toNat))
        ⟨1, 2, [x, y], "invalid length for message type"⟩
      let (body, rest) ← readExact rest (x.toNat * 256 + y.toNat - 19)
      return ((kind, body), rest)) := by
  have hread : readExact (m ++ x :: y :: kind :: rest) 19 = .ok (m ++ [x, y, kind], rest) := by
    have := readExact_append (m ++ [x, y, kind]) rest
    rw [List.append_assoc, List.length_append, hm] at this
    exact this
  have hmarker : slice (m ++ [x, y, kind]) 0 16 = .ok m := by
    have := slice_append m [x, y, kind]
    rwa [hm] at this
  have hfield : slice (m ++ [x, y, kind]) 16 18 = .ok [x, y] := by
    have := slice_mid m [x, y] [kind]
    rwa [hm] at this
  have hkind : index (m ++ [x, y, kind]) 18 = .ok kind := by
    have := index_append_right m [x, y, kind] 2
    rwa [hm] at this
  simp only [readFrame, hread, ok_bind, hmarker, hfield, hkind, u16b_cons]

theorem readFrame_short (h : b.length < 19) : readFrame b = .error (.other "early eof") := by
  simp [readFrame, readExact, Nat.not_le.mpr h]

theorem readExact_eq_ok {k : ℕ} : readExact b k = .ok (body, rest) ↔
    body.length = k ∧ b = body ++ rest := by
  unfold readExact
  split
  · rename_i h
    simp only [Except.ok.injEq, Prod.mk.injEq]
    constructor
    · rintro ⟨rfl, rfl⟩
      exact ⟨by simpa using h, (List.take_append_drop k b).symm⟩
    · rintro ⟨rfl, rfl⟩
      simp
  · rename_i h
    constructor
    · intro h'
      cases h'
    · rintro ⟨rfl, rfl⟩
      exact absurd (by simp) h

theorem encode_two {w : ℕ} (h : x.toNat * 256 + y.toNat = w) : BigEndian.encode 2 w = [x, y] := by
  have := BigEndian.encode_decode [x, y]
  rwa [show BigEndian.decode [x, y] = w by simp [BigEndian.decode, ← h]] at this

/-- Reading succeeds exactly on the octets of an admitted frame. -/
theorem readFrame_eq_ok : readFrame b = .ok ((kind, body), rest) ↔
    FrameOk kind body ∧ b = frameOctets kind body ++ rest := by
  constructor
  · intro h
    rcases Nat.lt_or_ge b.length 19 with hs | hs
    · rw [readFrame_short hs] at h
      cases h
    · obtain ⟨m, x, y, k, r, rfl, hm⟩ := exists_header hs
      rw [readFrame_header hm] at h
      obtain ⟨w, hw⟩ : ∃ w, x.toNat * 256 + y.toNat = w := ⟨_, rfl⟩
      rw [hw] at h
      obtain ⟨hmarker, h⟩ := require_bind_eq_ok.mp h
      obtain ⟨hlen, h⟩ := orReturn_bind_eq_ok.mp h
      obtain ⟨hkind, h⟩ := orReturn_bind_eq_ok.mp h
      obtain ⟨hvalid, h⟩ := orReturn_bind_eq_ok.mp h
      obtain ⟨⟨body', rest'⟩, hbody, hpair⟩ := bind_eq_ok.mp h
      cases hpair
      obtain ⟨hblen, rfl⟩ := readExact_eq_ok.mp hbody
      simp only [Bool.and_eq_true, decide_eq_true_eq] at hlen hkind
      obtain rfl := beq_iff_eq.mp hmarker
      have hw' : body.length + 19 = w := by omega
      refine ⟨⟨hkind, by omega, by rwa [hw']⟩, ?_⟩
      rw [frameOctets, hw', encode_two hw]
      simp
  · rintro ⟨⟨hkind, hmax, hvalid⟩, rfl⟩
    have hmax' : body.length + 19 ≤ 4096 := hmax
    obtain ⟨x, y, hxy⟩ : ∃ x y, BigEndian.encode 2 (body.length + 19) = [x, y] := ⟨_, _, rfl⟩
    have hw : x.toNat * 256 + y.toNat = body.length + 19 := by
      have := BigEndian.decode_encode_of_lt (k := 2) (show body.length + 19 < 256 ^ 2 by omega)
      rw [hxy] at this
      simpa [BigEndian.decode] using this
    have happ : frameOctets kind body ++ rest = marker ++ x :: y :: kind :: (body ++ rest) := by
      simp [frameOctets, hxy]
    have hread := readExact_append body rest
    rw [happ, readFrame_header (by simp [marker]), hw]
    simp [require, orReturn, hkind, hmax, hvalid, hread]

/-- A complete frame: reading it leaves nothing over. -/
def WellFormedFrame (f : Bytes) : Prop := ∃ kind body, readFrame f = .ok ((kind, body), [])

theorem wellFormedFrame_iff {f : Bytes} :
    WellFormedFrame f ↔ ∃ kind body, FrameOk kind body ∧ f = frameOctets kind body := by
  simp [WellFormedFrame, readFrame_eq_ok]

theorem frame_wellFormed (h : frame kind body = .ok m) (hkind : 1 ≤ kind.toNat ∧ kind.toNat ≤ 5)
    (hlen : validLength kind (body.length + 19) = true) : WellFormedFrame m := by
  obtain ⟨hmax, rfl⟩ := frame_eq_ok.mp h
  exact wellFormedFrame_iff.mpr ⟨kind, body, ⟨hkind, hmax, hlen⟩, rfl⟩

theorem keepalive_wellFormed (h : frame KEEPALIVE [] = .ok m) : WellFormedFrame m :=
  frame_wellFormed h (by decide) rfl

theorem validLength_update {l : ℕ} (h : 4 ≤ l) : validLength UPDATE (l + 19) = true := by
  simp [validLength, UPDATE]
  omega

theorem updateBody_length {cfg : Config} {p : Peer} {n : Negotiated} {v6 withdraw : Bool}
    {encoded : Bytes} (h : updateBody cfg p n v6 encoded withdraw = .ok body) :
    4 ≤ body.length := by
  unfold updateBody at h
  obtain ⟨attrs, -, h⟩ := bind_eq_ok.mp h
  cases h
  simp only [List.length_append, BigEndian.length_encode]
  split <;> simp <;> omega

theorem update_wellFormed {cfg : Config} {p : Peer} {n : Negotiated} {prefixes : List IpNet}
    {withdraw : Bool} (h : update cfg p n prefixes withdraw = .ok m) : WellFormedFrame m := by
  unfold update at h
  split at h
  · cases h
  · split at h
    · obtain ⟨body, hbody, hframe⟩ := bind_eq_ok.mp h
      exact frame_wellFormed hframe (by decide) (validLength_update (updateBody_length hbody))
    · cases h

theorem endOfRib_wellFormed {v6 : Bool} (h : endOfRib v6 = .ok m) : WellFormedFrame m := by
  refine frame_wellFormed h (by decide) (validLength_update ?_)
  cases v6 <;> simp

theorem notification_wellFormed {code subcode : UInt8} {data : Bytes}
    (h : notification code subcode data = .ok m) : WellFormedFrame m := by
  refine frame_wellFormed h (by decide) ?_
  simp [validLength, NOTIFICATION]

theorem lengthField_eq {r : Bytes} (hb : b <+: frameOctets kind body ++ r) (hlen : 18 ≤ b.length) :
    (b.drop 16).take 2 = BigEndian.encode 2 (body.length + 19) := by
  obtain ⟨c, hc⟩ := hb
  have hdrop : ((b ++ c).drop 16).take 2 = (b.drop 16).take 2 := by
    rw [List.drop_append_of_le_length (by omega), List.take_append_of_le_length (by simp; omega)]
  have hmarker : marker.length = 16 := by simp [marker]
  have hfield : (BigEndian.encode 2 (body.length + 19)).length = 2 := by simp
  rw [← hdrop, hc, frameOctets, List.append_assoc, List.append_assoc, ← hmarker, List.drop_left]
  exact List.take_left' hfield

/-- A prefix of a stream of frames that reaches beyond the first length field: the field holds an
admitted length, and the stream goes on with a frame after that many octets. -/
theorem stream_head {fs : List Bytes} {l : ℕ} (hf : ∀ f ∈ fs, WellFormedFrame f)
    (hb : b <+: fs.flatten) (hlen : 18 ≤ b.length)
    (hl : BigEndian.decode ((b.drop 16).take 2) = l) :
    l ≤ maxMessage ∧ (l ≤ b.length → b.drop l <+: fs.tail.flatten) := by
  cases fs with
  | nil =>
    rw [List.prefix_nil.mp hb] at hlen
    simp at hlen
  | cons f fs =>
    obtain ⟨kind, body, ⟨-, hmax, -⟩, rfl⟩ := wellFormedFrame_iff.mp (hf f (by simp))
    rw [List.flatten_cons] at hb
    have hmax' : body.length + 19 ≤ 4096 := hmax
    rw [lengthField_eq hb hlen, BigEndian.decode_encode_of_lt (by omega)] at hl
    refine ⟨hl ▸ hmax, fun hle => ?_⟩
    rw [← hl, ← length_frameOctets kind] at hle ⊢
    obtain ⟨c, rfl⟩ := List.prefix_of_prefix_length_le (List.prefix_append _ _) hb hle
    rw [List.drop_left]
    exact (List.prefix_append_right_inj _).mp hb

/-! Unexpected messages and refresh requests. -/

/-- The subcodes of unexpected messages. -/
inductive FsmState
  | openSent
  | openConfirm
  | established

def FsmState.code : FsmState → UInt8
  | .openSent => 1
  | .openConfirm => 2
  | .established => 3

/-- Describe a peer NOTIFICATION without replying, or include state and type in an error. -/
def unexpected (state : FsmState) (kind : UInt8) (body : Bytes) : Fault :=
  if kind = 3 then
    if 2 ≤ body.length then
      match index body 0, index body 1 with
      | .ok code, .ok subcode =>
        .other ("peer sent NOTIFICATION code=" ++ toString code ++ " subcode=" ++ toString subcode)
      | _, _ => .panic
    else .other "peer sent truncated NOTIFICATION"
  else .protocol ⟨5, state.code, [kind], "unexpected message in BGP state"⟩

/-- Decode a basic unicast refresh: `some true` for IPv6, `some false` for IPv4. Unsupported
subtypes and families are ignored. -/
def refreshFamily (b : Bytes) (n : Negotiated) : Result (Option Bool) :=
  if b.length = 4 then do
    let subtype ← index b 2
    let safi ← index b 3
    let afi ← u16b b
    if subtype ≠ 0 ∨ safi ≠ 1 then return none
    else if afi = 1 ∧ n.ipv4 then return some false
    else if afi = 2 ∧ n.ipv6 then return some true
    else return none
  else .error (.other "invalid ROUTE-REFRESH length")

end Ubgp
