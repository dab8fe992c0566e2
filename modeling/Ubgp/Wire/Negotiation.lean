import Ubgp.Wire.Open

/-! Two mirrored configurations negotiate the same session from each other's OPEN. -/
namespace Ubgp


variable {rest : Bytes} {s : Caps}

theorem toNat_ofNat_of_lt {k : ℕ} (h : k < 256) : (UInt8.ofNat k).toNat = k := by
  rw [UInt8.toNat_ofNat', Nat.mod_eq_of_lt h]

/-- A capability whose length octet is right costs exactly one round. -/
theorem capLoop_cons (kind : UInt8) (data : Bytes) (h : data.length < 256) :
    SliceLoop.loop capBody (kind :: UInt8.ofNat data.length :: (data ++ rest)) s =
      (readCap kind data s >>= fun s' => SliceLoop.loop capBody rest s') := by
  have hfits : capFits (kind :: UInt8.ofNat data.length :: (data ++ rest)) = .ok true := by
    simp [capFits, toNat_ofNat_of_lt h]
  have hbody : capBody (kind :: UInt8.ofNat data.length :: (data ++ rest)) s =
      (readCap kind data s >>= fun s' => .ok (.next s' rest)) := by
    simp [capBody, hfits, toNat_ofNat_of_lt h, Nat.add_comm 2, slice_append, sliceFrom_append]
  rw [SliceLoop.loop_eq capBody_progress (by simp), hbody]
  cases readCap kind data s <;> rfl

theorem paramLoop_cons {caps : Bytes} (rest : Bytes) (s : Caps) (h : caps.length < 256) :
    SliceLoop.loop (paramBody false) (2 :: UInt8.ofNat caps.length :: (caps ++ rest)) s =
      (SliceLoop.loop capBody caps s >>= fun s' => SliceLoop.loop (paramBody false) rest s') := by
  have hbody : paramBody false (2 :: UInt8.ofNat caps.length :: (caps ++ rest)) s =
      (SliceLoop.loop capBody caps s >>= fun s' => .ok (.next s' rest)) := by
    simp [paramBody, paramLength, toNat_ofNat_of_lt h, Nat.add_comm 2, slice_append,
      sliceFrom_append]
  rw [SliceLoop.loop_eq (paramBody_progress false) (by simp), hbody]
  cases SliceLoop.loop capBody caps s <;> rfl


/-- The capabilities an OPEN of this daemon carries. -/
def advertisedCaps (cfg : Config) (peer : Peer) : Caps :=
  { as4 := some cfg.asn, mp := peer.ipv4 || peer.ipv6, v4 := peer.ipv4, v6 := peer.ipv6 }

theorem asn16_lt (asn : UInt32) : asn16 asn < 65536 := by
  unfold asn16
  split <;> omega

theorem capLoop_ipv4 : SliceLoop.loop capBody (1 :: 4 :: 0 :: 1 :: 0 :: 1 :: rest) s =
    SliceLoop.loop capBody rest { s with mp := true, v4 := true } := by
  refine (capLoop_cons 1 [0, 1, 0, 1] (by decide)).trans ?_
  simp [readCap]

theorem capLoop_ipv6 : SliceLoop.loop capBody (1 :: 4 :: 0 :: 2 :: 0 :: 1 :: rest) s =
    SliceLoop.loop capBody rest { s with mp := true, v6 := true } := by
  refine (capLoop_cons 1 [0, 2, 0, 1] (by decide)).trans ?_
  simp [readCap]

theorem capLoop_asn4 (asn : UInt32) :
    SliceLoop.loop capBody (65 :: 4 :: (BigEndian.encode 4 asn.toNat ++ rest)) {} =
      SliceLoop.loop capBody rest { as4 := some asn } := by
  have hvalue : UInt32.ofNat (BigEndian.decode (BigEndian.encode 4 asn.toNat)) = asn := by
    rw [BigEndian.decode_encode_of_lt (by simpa using asn.toNat_lt)]
    simp
  refine (capLoop_cons 65 (BigEndian.encode 4 asn.toNat) (by simp)).trans ?_
  simp only [readCap, hvalue]
  simp

theorem capLoop_refresh : SliceLoop.loop capBody (2 :: 0 :: rest) s =
    SliceLoop.loop capBody rest s := by
  refine (capLoop_cons 2 [] (by decide)).trans ?_
  simp [readCap]

theorem openCaps_loop (cfg : Config) (peer : Peer) :
    SliceLoop.loop capBody ([65, 4] ++ BigEndian.encode 4 cfg.asn.toNat ++ [2, 0] ++
      familyCaps peer.ipv4 peer.ipv6) {} = .ok (advertisedCaps cfg peer) := by
  have hassoc : [65, 4] ++ BigEndian.encode 4 cfg.asn.toNat ++ [2, 0] ++
      familyCaps peer.ipv4 peer.ipv6 = 65 :: 4 :: (BigEndian.encode 4 cfg.asn.toNat ++
        (2 :: 0 :: familyCaps peer.ipv4 peer.ipv6)) := by simp
  rw [hassoc, capLoop_asn4, capLoop_refresh]
  cases h4 : peer.ipv4 <;> cases h6 : peer.ipv6 <;>
    simp [familyCaps, capLoop_ipv4, capLoop_ipv6, advertisedCaps, h4, h6]

/-- The fixed fields, the one capability parameter and its lengths. -/
theorem openBody_layout (cfg : Config) (peer : Peer) :
    ∃ b₁ b₂ b₃ b₄ b₅ b₆ b₇ b₈ total length caps,
      openBody cfg peer = 4 :: b₁ :: b₂ :: b₃ :: b₄ :: b₅ :: b₆ :: b₇ :: b₈ ::
        total :: 2 :: length :: caps ∧
      u16b [b₁, b₂] = .ok (asn16 cfg.asn) ∧
      u16b [b₃, b₄] = .ok peer.holdTimeSecs.toNat ∧
      ofOctets 32 [b₅, b₆, b₇, b₈] = cfg.routerId ∧
      total.toNat = caps.length + 2 ∧ length = UInt8.ofNat caps.length ∧ caps.length < 256 ∧
      SliceLoop.loop capBody caps {} = .ok (advertisedCaps cfg peer) := by
  have hcaps : ([65, 4] ++ BigEndian.encode 4 cfg.asn.toNat ++ [2, 0] ++
      familyCaps peer.ipv4 peer.ipv6).length < 253 := by
    unfold familyCaps
    cases peer.ipv4 <;> cases peer.ipv6 <;> simp
  refine ⟨_, _, _, _, _, _, _, _, _, _, _, rfl, ?_, ?_, ?_, ?_, rfl, Nat.lt_trans hcaps (by decide),
    openCaps_loop cfg peer⟩
  · exact u16b_encode (asn16_lt _) []
  · exact u16b_encode (by simpa using peer.holdTimeSecs.toNat_lt) []
  · exact ofOctets_octets (by decide) cfg.routerId
  · exact toNat_ofNat_of_lt (by omega)

theorem openParams_short {b₀ b₁ b₂ b₃ b₄ b₅ b₆ b₇ b₈ total kind : UInt8} {params : Bytes}
    (ht : total.toNat = params.length + 1) (hk : kind ≠ 255) :
    openParams (b₀ :: b₁ :: b₂ :: b₃ :: b₄ :: b₅ :: b₆ :: b₇ :: b₈ :: total :: kind :: params) =
      .ok (false, kind :: params) := by
  simp [openParams, ht, hk]

/-- What the receiving side makes of an OPEN of this daemon. -/
theorem parseOpen_openBody (A B : Config) (pA pB : Peer) (hid : validRouterId B.routerId = true)
    (hhold : pB.holdTimeSecs = 0 ∨ 3 ≤ pB.holdTimeSecs) :
    parseOpen (openBody B pB) A pA =
      (require (A.asn != pA.remoteAsn || B.routerId != A.routerId) 2 3
        "invalid or duplicate router ID" >>= fun _ =>
        negotiate A pA (asn16 B.asn) pB.holdTimeSecs.toNat B.routerId (advertisedCaps B pB)) := by
  obtain ⟨b₁, b₂, b₃, b₄, b₅, b₆, b₇, b₈, total, length, caps, hb, hasn, ht, hr, htotal, rfl,
    hlen, hcaps⟩ := openBody_layout B pB
  have hold : (pB.holdTimeSecs.toNat == 0 || decide (3 ≤ pB.holdTimeSecs.toNat)) = true := by
    rcases hhold with h | h
    · simp [h]
    · simpa using Or.inr (UInt16.le_iff_toNat_le.mp h)
  have hparams : openParams (openBody B pB) =
      .ok (false, 2 :: UInt8.ofNat caps.length :: caps) := by
    rw [hb]
    exact openParams_short (by simpa using htotal) (by decide)
  have hloop := paramLoop_cons [] {} hlen
  rw [List.append_nil, hcaps] at hloop
  have hasn' : slice (openBody B pB) 1 3 = .ok [b₁, b₂] := by rw [hb]; simp [slice_eq_ok]
  have ht' : slice (openBody B pB) 3 5 = .ok [b₃, b₄] := by rw [hb]; simp [slice_eq_ok]
  have hlong : decide (10 ≤ (openBody B pB).length) = true := by rw [hb]; simp
  have h₀ : index (openBody B pB) 0 = .ok 4 := by rw [hb]; rfl
  have hr' : openId (openBody B pB) = .ok B.routerId := by
    rw [hb, ← hr]
    simp only [openId, index_succ, index_zero, ok_bind, pure_eq_ok]
  simp only [parseOpen, hlong, h₀, hr', hasn', ht', hasn, ht, hold, hid, hparams,
    hloop, ok_bind, require_true, ne_eq, not_true_eq_false, if_false, Bool.true_and,
    SliceLoop.loop_nil]

/-- Two validated configurations with one peer entry each for the other side. -/
structure Mirrored (A B : Config) (pA pB : Peer) : Prop where
  validA : A.validate = .ok ()
  validB : B.validate = .ok ()
  memA : pA ∈ A.peers
  memB : pB ∈ B.peers
  asnA : pA.remoteAsn = B.asn
  asnB : pB.remoteAsn = A.asn

variable {A B : Config} {pA pB : Peer}

theorem Mirrored.symm (h : Mirrored A B pA pB) : Mirrored B A pB pA :=
  ⟨h.validB, h.validA, h.memB, h.memA, h.asnB, h.asnA⟩

theorem Mirrored.peerA (h : Mirrored A B pA pB) : Config.ValidPeer A pA :=
  (Config.validate_eq_ok.mp h.validA).peers pA h.memA

/-- A family both sides enable. -/
def SharedFamily (pA pB : Peer) : Prop :=
  (pA.ipv4 = true ∧ pB.ipv4 = true) ∨ (pA.ipv6 = true ∧ pB.ipv6 = true)

theorem SharedFamily.symm (h : SharedFamily pA pB) : SharedFamily pB pA := by
  rcases h with ⟨h₁, h₂⟩ | ⟨h₁, h₂⟩
  · exact Or.inl ⟨h₂, h₁⟩
  · exact Or.inr ⟨h₂, h₁⟩

/-- What A negotiates from B's OPEN when it accepts it. -/
def mirroredSession (A B : Config) (pA pB : Peer) : Negotiated where
  routerId := B.routerId
  hold := min pB.holdTimeSecs.toNat pA.holdTimeSecs.toNat
  asn4 := true
  internal := A.asn == B.asn
  ipv4 := pA.ipv4 && pB.ipv4
  ipv6 := pA.ipv6 && pB.ipv6

theorem negotiate_mirrored (h : Mirrored A B pA pB) (n : Negotiated) :
    negotiate A pA (asn16 B.asn) pB.holdTimeSecs.toNat B.routerId (advertisedCaps B pB) = .ok n ↔
      SharedFamily pA pB ∧ n = mirroredSession A B pA pB := by
  have hf := h.symm.peerA.family
  have hv4 : (pA.ipv4 && (pB.ipv4 || !(pB.ipv4 || pB.ipv6))) = (pA.ipv4 && pB.ipv4) := by
    rcases hf with hf | hf <;> simp [hf]
  simp only [negotiate, advertisedCaps, h.asnA, hv4, Option.map_some, Option.getD_some,
    Option.isSome_some, beq_self_eq_true, require_true, ok_bind, pure_eq_ok, throw_eq_error]
  unfold SharedFamily mirroredSession
  cases pA.ipv4 <;> cases pB.ipv4 <;> cases pA.ipv6 <;> cases pB.ipv6 <;>
    simp [eq_comm]

/-- A accepts B's OPEN exactly when the router IDs do not collide within one AS and a family
is shared. -/
theorem parseOpen_mirrored (h : Mirrored A B pA pB) (n : Negotiated) :
    parseOpen (openBody B pB) A pA = .ok n ↔
      ¬ (A.routerId = B.routerId ∧ A.asn = B.asn) ∧ SharedFamily pA pB ∧
        n = mirroredSession A B pA pB := by
  have hB := Config.validate_eq_ok.mp h.validB
  rw [parseOpen_openBody A B pA pB hB.routerId h.symm.peerA.hold, require_bind_eq_ok]
  simp only [negotiate_mirrored h n, h.asnA, Bool.or_eq_true, bne_iff_ne, ne_eq]
  constructor
  · rintro ⟨hid, hs⟩
    refine ⟨?_, hs⟩
    rintro ⟨hr, ha⟩
    rcases hid with hid | hid
    · exact hid ha
    · exact hid hr.symm
  · rintro ⟨hid, hs⟩
    refine ⟨?_, hs⟩
    by_cases ha : A.asn = B.asn
    · exact Or.inr (fun hr => hid ⟨hr.symm, ha⟩)
    · exact Or.inl ha

theorem openBody_length (cfg : Config) (peer : Peer) : (openBody cfg peer).length ≤ 32 := by
  simp only [openBody, familyCaps]
  cases peer.ipv4 <;> cases peer.ipv6 <;> simp

/-- `open` never exceeds the message limit, and its body starts after the 19-octet header. -/
theorem openMessage_eq (cfg : Config) (peer : Peer) :
    ∃ m, openMessage cfg peer = .ok m ∧ m.drop 19 = openBody cfg peer := by
  have hlen : (openBody cfg peer).length + 19 ≤ maxMessage := by
    have := openBody_length cfg peer
    simp only [maxMessage]
    omega
  have hm : openMessage cfg peer = .ok _ := frame_eq_ok.mpr ⟨hlen, rfl⟩
  exact ⟨_, hm, frame_drop hm⟩

/-- The negotiated hold time is off or long enough. -/
theorem mirroredSession_hold (h : Mirrored A B pA pB) :
    (mirroredSession A B pA pB).hold = 0 ∨ 3 ≤ (mirroredSession A B pA pB).hold := by
  have hA := h.peerA.hold
  have hB := h.symm.peerA.hold
  simp only [mirroredSession]
  have toNat {x : UInt16} (hx : x = 0 ∨ 3 ≤ x) : x.toNat = 0 ∨ 3 ≤ x.toNat := by
    rcases hx with hx | hx
    · exact Or.inl (by simp [hx])
    · exact Or.inr (UInt16.le_iff_toNat_le.mp hx)
  have := toNat hA
  have := toNat hB
  omega

/-- Both sides accept each other's OPEN under one condition, and then agree on the session. -/
theorem open_negotiation_agreement (h : Mirrored A B pA pB) :
    ∃ mA mB, openMessage A pA = .ok mA ∧ openMessage B pB = .ok mB ∧
      ((∃ n, parseOpen (mB.drop 19) A pA = .ok n) ↔ ∃ n, parseOpen (mA.drop 19) B pB = .ok n) ∧
      ((∃ n, parseOpen (mB.drop 19) A pA = .ok n) ↔
        SharedFamily pA pB ∧ ¬ (A.routerId = B.routerId ∧ A.asn = B.asn)) ∧
      ∀ nA nB, parseOpen (mB.drop 19) A pA = .ok nA → parseOpen (mA.drop 19) B pB = .ok nB →
        nA.hold = min pA.holdTimeSecs.toNat pB.holdTimeSecs.toNat ∧ nB.hold = nA.hold ∧
        (nA.hold = 0 ∨ 3 ≤ nA.hold) ∧ nA.asn4 = true ∧ nB.asn4 = true ∧
        nA.internal = nB.internal ∧
        nA.ipv4 = (pA.ipv4 && pB.ipv4) ∧ nB.ipv4 = nA.ipv4 ∧
        nA.ipv6 = (pA.ipv6 && pB.ipv6) ∧ nB.ipv6 = nA.ipv6 ∧
        nA.routerId = B.routerId ∧ nB.routerId = A.routerId := by
  obtain ⟨mA, hmA, hbA⟩ := openMessage_eq A pA
  obtain ⟨mB, hmB, hbB⟩ := openMessage_eq B pB
  have hex : ∀ {C D : Config} {pC pD : Peer}, Mirrored C D pC pD →
      ((∃ n, parseOpen (openBody D pD) C pC = .ok n) ↔
        SharedFamily pC pD ∧ ¬ (C.routerId = D.routerId ∧ C.asn = D.asn)) := by
    intro C D pC pD hm
    simp only [parseOpen_mirrored hm, exists_and_left, exists_eq, and_true]
    exact and_comm
  refine ⟨mA, mB, hmA, hmB, ?_, ?_, ?_⟩
  · rw [hbA, hbB, hex h, hex h.symm]
    constructor
    · rintro ⟨hs, hid⟩
      exact ⟨hs.symm, fun he => hid ⟨he.1.symm, he.2.symm⟩⟩
    · rintro ⟨hs, hid⟩
      exact ⟨hs.symm, fun he => hid ⟨he.1.symm, he.2.symm⟩⟩
  · rw [hbB]
    exact hex h
  · intro nA nB hA hB
    rw [hbB] at hA
    rw [hbA] at hB
    obtain ⟨-, -, rfl⟩ := (parseOpen_mirrored h nA).mp hA
    obtain ⟨-, -, rfl⟩ := (parseOpen_mirrored h.symm nB).mp hB
    refine ⟨Nat.min_comm _ _, Nat.min_comm _ _, mirroredSession_hold h, rfl, rfl, ?_, rfl, ?_, rfl,
      ?_, rfl, rfl⟩
    · exact Bool.beq_comm
    · exact Bool.and_comm _ _
    · exact Bool.and_comm _ _

theorem example_mirrored : Mirrored exampleConfig remoteConfig examplePeer remotePeer :=
  ⟨exampleConfig_valid, remoteConfig_valid, List.mem_singleton.mpr rfl,
    List.mem_singleton.mpr rfl, rfl, rfl⟩

theorem example_negotiation_agreement :
    ∃ m n, openMessage remoteConfig remotePeer = .ok m ∧
      parseOpen (m.drop 19) exampleConfig examplePeer = .ok n ∧ n.hold = 30 := by
  obtain ⟨mA, mB, -, hmB, hiff, hok, hagree⟩ := open_negotiation_agreement example_mirrored
  obtain ⟨n, hn⟩ := hok.mpr ⟨Or.inl ⟨rfl, rfl⟩, fun he => absurd he.2 (by decide)⟩
  obtain ⟨n', hn'⟩ := hiff.mp ⟨n, hn⟩
  exact ⟨mB, n, hmB, hn, (hagree n n' hn hn').1⟩

end Ubgp
