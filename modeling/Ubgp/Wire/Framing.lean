import Ubgp.Lib.Chunked
import Ubgp.Wire.Frame
import Ubgp.Wire.Negotiation

/-! Framing over a fragmented stream: frames are read back one by one, from exactly their octets. -/
namespace Ubgp

variable {b body header : Bytes} {kind : UInt8} {chunks : List Bytes}

/-! Reading from fragments. -/

/-- A connection: the fragments still to arrive and the number of octets asked for so far. -/
structure Reader where
  chunks : List Bytes
  requested : ℕ

namespace Reader

/-- The octets still to be read. -/
def stream (r : Reader) : Bytes := r.chunks.flatten

/-- `read_exact` into a buffer of `k` octets. -/
def readExact (r : Reader) (k : ℕ) : Result Bytes × Reader :=
  (match (Chunked.fill k r.chunks).1 with
    | some b => .ok b
    | none => .error (.other "early eof"),
    ⟨(Chunked.fill k r.chunks).2, r.requested + k⟩)

end Reader

/-- The header checks: the message type and the announced length. -/
def checkHeader (header : Bytes) : Result (UInt8 × ℕ) := do
  require ((← slice header 0 16) == marker) 1 1 "invalid marker"
  let field ← slice header 16 18
  let len ← u16b field
  orReturn (decide (19 ≤ len) && decide (len ≤ maxMessage))
    ⟨1, 2, field, "invalid message length"⟩
  let kind ← index header 18
  orReturn (decide (1 ≤ kind.toNat) && decide (kind.toNat ≤ 5))
    ⟨1, 3, [kind], "invalid message type"⟩
  orReturn (validLength kind len) ⟨1, 2, field, "invalid length for message type"⟩
  return (kind, len)

/-- `read_frame`: the header, its checks, then the body. -/
def Reader.readFrame (r : Reader) : Result (UInt8 × Bytes) × Reader :=
  match r.readExact 19 with
  | (.error e, r) => (.error e, r)
  | (.ok header, r) =>
    match checkHeader header with
    | .error e => (.error e, r)
    | .ok (kind, len) =>
      match r.readExact (len - 19) with
      | (.error e, r) => (.error e, r)
      | (.ok body, r) => (.ok (kind, body), r)

/-- `read_frame` called again and again, up to the first error. -/
def Reader.readFrames : ℕ → Reader → Result (List (UInt8 × Bytes)) × Reader
  | 0, r => (.ok [], r)
  | k + 1, r =>
    match r.readFrame with
    | (.error e, r) => (.error e, r)
    | (.ok f, r) => ((Reader.readFrames k r).1.map (f :: ·), (Reader.readFrames k r).2)

/-! The fragments do not matter. -/

theorem readFrame_split (b : Bytes) : readFrame b = (do
    let (header, rest) ← readExact b 19
    let (kind, len) ← checkHeader header
    let (body, rest) ← readExact rest (len - 19)
    return ((kind, body), rest)) := by
  simp only [readFrame, checkHeader, bind_assoc, pure_bind]

theorem Reader.readExact_spec {r : Reader} (h : Chunked.Proper r.chunks) (k : ℕ) :
    (r.readExact k).2.requested = r.requested + k ∧ Chunked.Proper (r.readExact k).2.chunks ∧
      ((∃ m, (r.readExact k).1 = .ok m ∧
          Ubgp.readExact r.stream k = .ok (m, (r.readExact k).2.stream)) ∨
        ((r.readExact k).1 = .error (.other "early eof") ∧
          Ubgp.readExact r.stream k = .error (.other "early eof"))) := by
  refine ⟨rfl, Chunked.proper_fill h k, ?_⟩
  unfold Ubgp.readExact stream readExact
  rcases Chunked.fill_eq h k with ⟨hle, hsome, hrest⟩ | ⟨hlt, hnone⟩
  · refine Or.inl ⟨r.chunks.flatten.take k, ?_, ?_⟩
    · simp only [hsome]
    · rw [if_pos hle, hrest]
  · exact Or.inr ⟨by simp only [hnone], if_neg (Nat.not_le.mpr hlt)⟩

/-- The length a stream announces. -/
def announced (b : Bytes) : ℕ := BigEndian.decode ((b.drop 16).take 2)

/-- The header checks return the announced length and nothing but protocol errors. -/
theorem checkHeader_cases (h : header.length = 19) :
    (∃ kind, checkHeader header = .ok (kind, announced header) ∧ 19 ≤ announced header) ∨
      ∃ e, checkHeader header = .error (.protocol e) := by
  obtain ⟨m, x, y, kind, rest, rfl, hm⟩ := exists_header (Nat.le_of_eq h.symm)
  obtain rfl : rest = [] := by
    rw [← List.length_eq_zero_iff]
    simp at h
    omega
  have hmarker : slice (m ++ [x, y, kind]) 0 16 = .ok m := by
    have := slice_append m [x, y, kind]
    rwa [hm] at this
  have hfield : slice (m ++ [x, y, kind]) 16 18 = .ok [x, y] := by
    have := slice_mid m [x, y] [kind]
    rwa [hm] at this
  have hkind : index (m ++ [x, y, kind]) 18 = .ok kind := by
    have := index_append_right m [x, y, kind] 2
    rwa [hm] at this
  have hlen : announced (m ++ [x, y, kind]) = x.toNat * 256 + y.toNat := by
    rw [announced, ← hm, List.drop_left]
    simp [BigEndian.decode]
  simp only [checkHeader, hmarker, hfield, hkind, u16b_cons, ok_bind, hlen]
  generalize x.toNat * 256 + y.toNat = l
  by_cases h₁ : m == marker
  swap
  · exact Or.inr ⟨_, by simp only [h₁]; rfl⟩
  by_cases h₂ : (decide (19 ≤ l) && decide (l ≤ maxMessage)) = true
  swap
  · exact Or.inr ⟨_, by simp only [h₁, h₂]; rfl⟩
  by_cases h₃ : (decide (1 ≤ kind.toNat) && decide (kind.toNat ≤ 5)) = true
  swap
  · exact Or.inr ⟨_, by simp only [h₁, h₂, h₃]; rfl⟩
  by_cases h₄ : validLength kind l = true
  swap
  · exact Or.inr ⟨_, by simp only [h₁, h₂, h₃, h₄]; rfl⟩
  · refine Or.inl ⟨kind, by simp only [h₁, h₂, h₃, h₄]; rfl, ?_⟩
    rw [Bool.and_eq_true, decide_eq_true_eq] at h₂
    exact h₂.1

theorem announced_append {rest : Bytes} (h : header.length = 19) :
    announced (header ++ rest) = announced header := by
  rw [announced, announced, List.drop_append_of_le_length (by omega),
    List.take_append_of_le_length (by rw [List.length_drop]; omega)]

/-- A frame read from fragments is the one read from the whole stream; the octets asked for are
those of the frame, or at most the header or the announced length. -/
theorem Reader.readFrame_spec {r : Reader} (h : Chunked.Proper r.chunks) :
    Chunked.Proper r.readFrame.2.chunks ∧
      ((∃ kind body, r.readFrame.1 = .ok (kind, body) ∧
          Ubgp.readFrame r.stream = .ok ((kind, body), r.readFrame.2.stream) ∧
          r.readFrame.2.requested = r.requested + (body.length + 19)) ∨
        (∃ e, r.readFrame.1 = .error e ∧ Ubgp.readFrame r.stream = .error e ∧ e ≠ .panic ∧
          r.readFrame.2.requested ≤ r.requested + max 19 (announced r.stream))) := by
  obtain ⟨hreq, hproper, ⟨header, hok, hread⟩ | ⟨herr, hread⟩⟩ := readExact_spec h 19
  swap
  · have hpair : r.readExact 19 = (.error (.other "early eof"), (r.readExact 19).2) :=
      Prod.ext herr rfl
    have hframe : r.readFrame = (.error (.other "early eof"), (r.readExact 19).2) := by
      rw [readFrame, hpair]
    rw [hframe]
    refine ⟨hproper, Or.inr ⟨_, rfl, ?_, by simp, ?_⟩⟩
    · rw [readFrame_split, hread, error_bind]
    · change (r.readExact 19).2.requested ≤ _
      rw [hreq]
      omega
  have hpair : r.readExact 19 = (.ok header, (r.readExact 19).2) := Prod.ext hok rfl
  obtain ⟨hlen, hstream⟩ := readExact_eq_ok.mp hread
  have hann : announced r.stream = announced header := by rw [hstream, announced_append hlen]
  generalize hr' : (r.readExact 19).2 = r' at hreq hproper hread hstream hpair
  rcases checkHeader_cases hlen with ⟨kind, hcheck, hle⟩ | ⟨e, hcheck⟩
  swap
  · have hframe : r.readFrame = (.error (.protocol e), r') := by
      rw [readFrame, hpair]
      simp only [hcheck]
    rw [hframe]
    refine ⟨hproper, Or.inr ⟨_, rfl, ?_, by simp, ?_⟩⟩
    · rw [readFrame_split, hread, ok_bind]
      simp only [hcheck, error_bind]
    · change r'.requested ≤ _
      omega
  obtain ⟨hreq', hproper', ⟨body, hok', hread'⟩ | ⟨herr', hread'⟩⟩ :=
    readExact_spec hproper (announced header - 19)
  · have hpair' : r'.readExact (announced header - 19) =
        (.ok body, (r'.readExact (announced header - 19)).2) := Prod.ext hok' rfl
    have hframe : r.readFrame = (.ok (kind, body), (r'.readExact (announced header - 19)).2) := by
      rw [readFrame, hpair]
      simp only [hcheck]
      rw [hpair']
    have hbody := (readExact_eq_ok.mp hread').1
    rw [hframe]
    refine ⟨hproper', Or.inl ⟨kind, body, rfl, ?_, ?_⟩⟩
    · rw [readFrame_split, hread, ok_bind]
      simp only [hcheck, ok_bind, hread', pure_eq_ok]
    · change (r'.readExact (announced header - 19)).2.requested = _
      omega
  · have hpair' : r'.readExact (announced header - 19) =
        (.error (.other "early eof"), (r'.readExact (announced header - 19)).2) :=
      Prod.ext herr' rfl
    have hframe : r.readFrame =
        (.error (.other "early eof"), (r'.readExact (announced header - 19)).2) := by
      rw [readFrame, hpair]
      simp only [hcheck]
      rw [hpair']
    rw [hframe]
    refine ⟨hproper', Or.inr ⟨_, rfl, ?_, by simp, ?_⟩⟩
    · rw [readFrame_split, hread, ok_bind]
      simp only [hcheck, ok_bind, hread', error_bind]
    · change (r'.readExact (announced header - 19)).2.requested ≤ _
      omega

/-! Messages. -/

/-- The body lengths a message type admits. -/
def Admitted (kind : UInt8) (l : ℕ) : Prop :=
  l ≤ 4077 ∧ ((kind = OPEN ∧ 10 ≤ l) ∨ (kind = UPDATE ∧ 4 ≤ l) ∨ (kind = NOTIFICATION ∧ 2 ≤ l) ∨
    (kind = KEEPALIVE ∧ l = 0) ∨ (kind = ROUTE_REFRESH ∧ l = 4))

instance (kind : UInt8) (l : ℕ) : Decidable (Admitted kind l) := inferInstanceAs (Decidable (_ ∧ _))

theorem toNat_eq_iff (kind : UInt8) {k : ℕ} (h : k < 256) :
    kind.toNat = k ↔ kind = UInt8.ofNat k := by
  rw [← UInt8.toNat_inj, UInt8.toNat_ofNat', Nat.mod_eq_of_lt h]

/-- The table of the reader and the lengths it admits are the same. -/
theorem frameOk_iff : FrameOk kind body ↔ Admitted kind body.length := by
  have h₁ : kind = OPEN ↔ kind.toNat = 1 := (toNat_eq_iff kind (by decide)).symm
  have h₂ : kind = UPDATE ↔ kind.toNat = 2 := (toNat_eq_iff kind (by decide)).symm
  have h₃ : kind = NOTIFICATION ↔ kind.toNat = 3 := (toNat_eq_iff kind (by decide)).symm
  have h₄ : kind = KEEPALIVE ↔ kind.toNat = 4 := (toNat_eq_iff kind (by decide)).symm
  have h₅ : kind = ROUTE_REFRESH ↔ kind.toNat = 5 := (toNat_eq_iff kind (by decide)).symm
  simp only [FrameOk, Admitted, maxMessage, h₁, h₂, h₃, h₄, h₅, validLength]
  split <;> simp_all

theorem frame_of_admitted (h : Admitted kind body.length) :
    frame kind body = .ok (frameOctets kind body) := by
  refine frame_eq_ok.mpr ⟨?_, rfl⟩
  have hle := h.1
  simp only [maxMessage]
  omega

theorem mapM_frame {ms : List (UInt8 × Bytes)} (h : ∀ f ∈ ms, Admitted f.1 f.2.length) :
    ms.mapM (fun f => frame f.1 f.2) = .ok (ms.map (fun f => frameOctets f.1 f.2)) := by
  induction ms with
  | nil => rfl
  | cons f ms ih =>
    have hf := frame_of_admitted (h f (by simp))
    have hms := ih (fun g hg => h g (List.mem_cons_of_mem _ hg))
    simp only [List.mapM_cons, hf, hms, ok_bind, pure_eq_ok, List.map_cons]

/-- Repeated reading returns the sequence and stops right behind it. -/
theorem Reader.readFrames_spec {ms : List (UInt8 × Bytes)} {rest : Bytes} {r : Reader}
    (hm : ∀ f ∈ ms, Admitted f.1 f.2.length) (h : Chunked.Proper r.chunks)
    (hs : r.stream = ms.flatMap (fun f => frameOctets f.1 f.2) ++ rest) :
    (r.readFrames ms.length).1 = .ok ms ∧ (r.readFrames ms.length).2.stream = rest ∧
      (r.readFrames ms.length).2.requested =
        r.requested + (ms.flatMap (fun f => frameOctets f.1 f.2)).length := by
  induction ms generalizing r with
  | nil => exact ⟨rfl, hs, rfl⟩
  | cons f ms ih =>
    have hf := hm f (by simp)
    have hread : Ubgp.readFrame r.stream =
        .ok ((f.1, f.2), ms.flatMap (fun f => frameOctets f.1 f.2) ++ rest) := by
      refine readFrame_eq_ok.mpr ⟨frameOk_iff.mpr hf, ?_⟩
      rw [hs, List.flatMap_cons, List.append_assoc]
    obtain ⟨hproper, ⟨kind, body, hok, hframe, hreq⟩ | ⟨e, -, herr, -⟩⟩ := readFrame_spec h
    · rw [hread, Except.ok.injEq, Prod.mk.injEq, Prod.mk.injEq] at hframe
      obtain ⟨⟨rfl, rfl⟩, hstream⟩ := hframe
      have hpair : r.readFrame = (.ok f, r.readFrame.2) := Prod.ext hok rfl
      obtain ⟨hfs, hend, htotal⟩ := ih (fun g hg => hm g (List.mem_cons_of_mem _ hg)) hproper
        hstream.symm
      have hframes : r.readFrames (f :: ms).length =
          ((r.readFrame.2.readFrames ms.length).1.map (f :: ·),
            (r.readFrame.2.readFrames ms.length).2) := by
        rw [List.length_cons, readFrames, hpair]
      rw [hframes]
      refine ⟨by rw [hfs]; rfl, hend, ?_⟩
      have hlen := length_frameOctets f.1 f.2
      rw [htotal, hreq, List.flatMap_cons, List.length_append, hlen]
      omega
    · rw [hread] at herr
      cases herr

/-! The encoders. -/

/-- A message of a type with an admitted body. -/
def IsFrame (kind : UInt8) (m : Bytes) : Prop :=
  ∃ body, Admitted kind body.length ∧ frame kind body = .ok m

theorem isFrame_of_frame {m : Bytes} (h : frame kind body = .ok m)
    (ha : body.length ≤ 4077 → Admitted kind body.length) : IsFrame kind m := by
  have hlen := (frame_eq_ok.mp h).1
  simp only [maxMessage] at hlen
  exact ⟨body, ha (by omega), h⟩

theorem openMessage_isFrame {cfg : Config} {p : Peer} {m : Bytes}
    (h : openMessage cfg p = .ok m) : IsFrame OPEN m := by
  refine isFrame_of_frame h (fun hle => ⟨hle, Or.inl ⟨rfl, ?_⟩⟩)
  simp [openBody]
  omega

theorem update_isFrame {cfg : Config} {p : Peer} {n : Negotiated} {prefixes : List IpNet}
    {withdraw : Bool} {m : Bytes} (h : update cfg p n prefixes withdraw = .ok m) :
    IsFrame UPDATE m := by
  unfold update at h
  split at h
  · cases h
  · split at h
    · obtain ⟨body, hbody, hframe⟩ := bind_eq_ok.mp h
      exact isFrame_of_frame hframe
        (fun hle => ⟨hle, Or.inr (Or.inl ⟨rfl, updateBody_length hbody⟩)⟩)
    · cases h

theorem endOfRib_isFrame {v6 : Bool} {m : Bytes} (h : endOfRib v6 = .ok m) :
    IsFrame UPDATE m := by
  refine isFrame_of_frame h (fun hle => ⟨hle, Or.inr (Or.inl ⟨rfl, ?_⟩)⟩)
  cases v6 <;> simp

theorem notification_isFrame {code subcode : UInt8} {data m : Bytes}
    (h : notification code subcode data = .ok m) : IsFrame NOTIFICATION m := by
  refine isFrame_of_frame h (fun hle => ⟨hle, Or.inr (Or.inr (Or.inl ⟨rfl, ?_⟩))⟩)
  simp

/-- Framing is a bijection between sequences of admitted messages and their octets, however these
are fragmented; what is not a frame is an error found before more is asked for than the header or
the announced length. -/
theorem framing_bijection :
    (∀ ms : List (UInt8 × Bytes), (∀ f ∈ ms, Admitted f.1 f.2.length) →
      ∃ frames, ms.mapM (fun f => frame f.1 f.2) = .ok frames ∧
        ∀ r : Reader, Chunked.Proper r.chunks → r.stream = frames.flatten →
          (r.readFrames ms.length).1 = .ok ms ∧ (r.readFrames ms.length).2.stream = [] ∧
          (r.readFrames ms.length).2.requested = r.requested + frames.flatten.length) ∧
    (∀ cfg p m, openMessage cfg p = .ok m → IsFrame OPEN m) ∧
    (∀ cfg p n prefixes withdraw m, update cfg p n prefixes withdraw = .ok m →
      IsFrame UPDATE m) ∧
    (∀ v6 m, endOfRib v6 = .ok m → IsFrame UPDATE m) ∧
    (∀ code subcode data m, notification code subcode data = .ok m → IsFrame NOTIFICATION m) ∧
    ∀ r : Reader, Chunked.Proper r.chunks →
      (∀ kind body, r.readFrame.1 = .ok (kind, body) → Admitted kind body.length ∧
        ∃ m, frame kind body = .ok m ∧ r.stream = m ++ r.readFrame.2.stream ∧
          r.readFrame.2.requested = r.requested + m.length) ∧
      ((¬ ∃ kind body m rest, Admitted kind body.length ∧ frame kind body = .ok m ∧
          r.stream = m ++ rest) →
        ∃ e, r.readFrame.1 = .error e ∧ e ≠ .panic ∧
          r.readFrame.2.requested ≤ r.requested + max 19 (announced r.stream)) := by
  refine ⟨?_, fun _ _ _ => openMessage_isFrame, fun _ _ _ _ _ _ => update_isFrame,
    fun _ _ => endOfRib_isFrame, fun _ _ _ _ => notification_isFrame, ?_⟩
  · intro ms hm
    refine ⟨_, mapM_frame hm, fun r hr hs => ?_⟩
    rw [← List.flatMap_def] at hs ⊢
    exact Reader.readFrames_spec hm hr (by rw [hs, List.append_nil])
  · intro r hr
    obtain ⟨-, ⟨kind, body, hok, hread, hreq⟩ | ⟨e, herr, hread, hne, hreq⟩⟩ :=
      Reader.readFrame_spec hr
    · obtain ⟨hframe, hstream⟩ := readFrame_eq_ok.mp hread
      have ha := frameOk_iff.mp hframe
      constructor
      · intro kind' body' hok'
        rw [hok] at hok'
        cases hok'
        refine ⟨ha, _, frame_of_admitted ha, hstream, ?_⟩
        rw [hreq, length_frameOctets]
      · intro hno
        exact absurd ⟨kind, body, _, _, ha, frame_of_admitted ha, hstream⟩ hno
    · constructor
      · intro kind body hok
        rw [herr] at hok
        cases hok
      · intro _
        exact ⟨e, herr, hne, hreq⟩

/-- A header that announces five octets: nineteen are asked for before the length is known. -/
theorem short_announcement :
    announced (Reader.mk [marker ++ [0, 5, 4]] 0).stream = 5 ∧
      (∃ e, (Reader.mk [marker ++ [0, 5, 4]] 0).readFrame.1 = .error e) ∧
      (Reader.mk [marker ++ [0, 5, 4]] 0).readFrame.2.requested = 19 :=
  ⟨by decide, ⟨_, rfl⟩, by decide⟩

/-- A KEEPALIVE and a NOTIFICATION whose octets arrive in five fragments. -/
def exampleFragments : List Bytes :=
  [marker.take 7, marker.drop 7 ++ [0], [19, 4, 255], marker.drop 1 ++ [0, 21], [3, 6, 7]]

theorem example_framing : ((Reader.mk exampleFragments 0).readFrames 2).1 =
    .ok [(KEEPALIVE, []), (NOTIFICATION, [6, 7])] := by
  obtain ⟨frames, hframes, hread⟩ :=
    framing_bijection.1 [(KEEPALIVE, []), (NOTIFICATION, [6, 7])] (by decide)
  have hoctets : frames.flatten = exampleFragments.flatten := by
    cases hframes
    decide
  have hproper : ∀ x ∈ exampleFragments, x ≠ [] := by decide
  exact (hread ⟨exampleFragments, 0⟩ hproper hoctets.symm).1

end Ubgp
