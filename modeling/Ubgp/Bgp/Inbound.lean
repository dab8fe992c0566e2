import Ubgp.Bgp.Session
import Ubgp.Wire.Diagnostics
import Ubgp.Wire.Framing
import Ubgp.Wire.OpenGrammar

/-! The inbound path: no octets a peer sends make the daemon panic, and every protocol error has
a NOTIFICATION. -/
namespace Ubgp

variable {b body data : Bytes} {n : Negotiated} {cfg : Config} {p : Peer} {kind : UInt8}

/-! OPEN. -/

theorem readCap_safe (kind : UInt8) (data : Bytes) (s : Caps) : Safe (readCap kind data s) := by
  unfold readCap
  split
  · refine (safe_require _ _ _ _).bind fun _ hlen => ?_
    have hfour : data.length = 4 := by
      cases h : data.length == 4 with
      | true => exact beq_iff_eq.mp h
      | false =>
        rw [h] at hlen
        cases hlen
    obtain ⟨x, y, z, w, rfl⟩ : ∃ x y z w, data = [x, y, z, w] := by
      rcases data with - | ⟨x, - | ⟨y, - | ⟨z, - | ⟨w, - | ⟨v, data⟩⟩⟩⟩⟩ <;> simp at hfour
      exact ⟨x, y, z, w, rfl⟩
    simp only [index_succ, index_zero, ok_bind, u16b_cons]
    split
    · exact safe_ok _
    · exact safe_ok _
  · split
    · exact (safe_require _ _ _ _).bind fun _ _ => safe_ok _
    · split
      · refine (safe_require _ _ _ _).bind fun _ _ => ?_
        exact (safe_require _ _ _ _).bind fun _ _ => safe_ok _
      · exact safe_ok _

theorem capBody_safe (s : Caps) (hb : b ≠ []) : Safe (capBody b s) := by
  cases h : (tlvCode false).head b with
  | none =>
    rw [capBody_none hb h]
    exact safe_protocol _
  | some r =>
    rw [capBody_some h]
    exact (readCap_safe _ _ _).map _

theorem capLoop_safe (b : Bytes) (s : Caps) : Safe (SliceLoop.loop capBody b s) :=
  SliceLoop.loop_ne_error capBody_progress (fun _ s hb => capBody_safe s hb)

theorem paramBody_safe (extended : Bool) (s : Caps) (hb : b ≠ []) :
    Safe (paramBody extended b s) := by
  cases h : (tlvCode extended).head b with
  | none =>
    rw [paramBody_none hb h]
    exact safe_protocol _
  | some r =>
    rw [paramBody_some h]
    refine Safe.map ?_ _
    unfold readParameter
    split
    · exact capLoop_safe _ _
    · exact safe_protocol _

theorem negotiate_safe (oldAsn hold : ℕ) (routerId : Ipv4Addr) (s : Caps) :
    Safe (negotiate cfg p oldAsn hold routerId s) := by
  unfold negotiate
  refine (safe_require _ _ _ _).bind fun _ _ => ?_
  refine (safe_require _ _ _ _).bind fun _ _ => ?_
  simp only [throw_eq_error, pure_eq_ok]
  split
  · exact safe_protocol _
  · exact safe_ok _

theorem openParams_safe (asn hold : UInt16) (routerId : Ipv4Addr) (len : UInt8) (tail : Bytes) :
    Safe (openParams (openHeader asn hold routerId ++ len :: tail)) := by
  obtain ⟨b₁, b₂, b₃, b₄, b₅, b₆, b₇, b₈, hb, -⟩ := openHeader_cons asn hold routerId
  rw [hb]
  simp only [openParams, List.cons_append, List.nil_append, index_succ, index_zero, ok_bind,
    sliceFrom_succ, sliceFrom_zero]
  split
  · rename_i hext
    rcases tail with - | ⟨x, - | ⟨y, - | ⟨z, r⟩⟩⟩
    · simp at hext
    · exact safe_protocol _
    · exact safe_protocol _
    · refine (safe_require _ _ _ _).bind fun _ _ => ?_
      simp only [slice, List.length_cons, sliceFrom_succ, sliceFrom_zero, Nat.le_add_left,
        List.take_succ_cons, List.take_zero, ok_bind]
      exact (safe_require _ _ _ _).bind fun _ _ => safe_ok _
  · exact (safe_require _ _ _ _).bind fun _ _ => safe_ok _

theorem parseOpen_safe (b : Bytes) (cfg : Config) (p : Peer) : Safe (parseOpen b cfg p) := by
  by_cases hlen : 10 ≤ b.length
  swap
  · simp only [parseOpen, hlen, decide_false, require_false, error_bind]
    exact safe_protocol _
  obtain ⟨version, hversion⟩ : ∃ x, index b 0 = .ok x := by
    cases b with
    | nil => simp at hlen
    | cons x tail => exact ⟨x, rfl⟩
  by_cases hv : version = 4
  swap
  · simp only [parseOpen, hlen, decide_true, require_true, hversion, ok_bind, hv, ne_eq,
      not_false_eq_true, if_true, throw_eq_error, error_bind]
    exact safe_protocol _
  subst hv
  obtain ⟨asn, hold, routerId, len, tail, rfl⟩ := exists_openHeader hlen hversion
  rw [parseOpen_openHeader]
  refine (safe_require _ _ _ _).bind fun _ _ => ?_
  refine (safe_require _ _ _ _).bind fun _ _ => ?_
  refine (openParams_safe asn hold routerId len tail).bind fun r _ => ?_
  have hloop : Safe (SliceLoop.loop (paramBody r.1) r.2 {}) :=
    SliceLoop.loop_ne_error (paramBody_progress r.1) (fun _ s hb => paramBody_safe r.1 s hb)
  exact hloop.bind fun s _ => negotiate_safe _ _ _ s

/-! UPDATE. -/

theorem validateNlri_safe (b : Bytes) (bits : ℕ) : Safe (validateNlri b bits) := by
  rcases validateNlri_protocol b bits with h | ⟨e, h⟩
  · rw [h]
    exact safe_ok ()
  · rw [h]
    exact safe_protocol e

theorem validatePath_safe (b : Bytes) (width : ℕ) : Safe (validatePath b width) := by
  rw [validatePath_eq]
  split
  · exact safe_ok ()
  · exact safe_protocol _

theorem validateUpdate_safe (b : Bytes) (n : Negotiated) : Safe (validateUpdate b n) := by
  cases hp : parseUpdate b with
  | none =>
    obtain ⟨e, he⟩ := validateUpdate_none (n := n) hp
    rw [he]
    exact safe_protocol e
  | some u =>
    rcases validateUpdate_parsed (n := n) hp with ⟨-, e, he⟩ | ⟨-, hok⟩
    · rw [he]
      exact safe_protocol e
    · rw [hok]
      exact safe_ok _

/-- The diagnostic decoder of an attribute never fails, validated or not. -/
theorem appendMp_ok (kind : UInt8) (data : Bytes) (out : List IpNet) :
    ∃ nets, appendMp kind data out = .ok nets := by
  unfold appendMp
  split
  · rename_i h
    rcases data with - | ⟨x, - | ⟨y, - | ⟨safi, - | ⟨len, rest⟩⟩⟩⟩
    iterate 4 simp at h
    simp only [index_succ, index_zero, ok_bind, u16b_cons]
    split
    · split
      · rename_i hstart
        rw [sliceFrom_eq_ok hstart.1, ok_bind]
        obtain ⟨nets, -, happend⟩ := appendNlri_eq (x.toNat * 256 + y.toNat == 2)
          ((x :: y :: safi :: len :: rest).drop (5 + len.toNat)) out
        exact ⟨_, happend⟩
      · exact ⟨_, rfl⟩
    · exact ⟨_, rfl⟩
  · exact ⟨_, rfl⟩

theorem appendMp_fold_ok (as : List Attribute) (out : List IpNet) :
    ∃ nets, as.foldlM (fun out a => appendMp a.kind a.data out) out = (.ok nets : Result _) := by
  induction as generalizing out with
  | nil => exact ⟨out, rfl⟩
  | cons a as ih =>
    obtain ⟨out', h⟩ := appendMp_ok a.kind a.data out
    rw [List.foldlM_cons, h, ok_bind]
    exact ih out'

/-- The length checks of the diagnostic decoder are those of the grammar. -/
theorem updatePrefixes_none (h : parseUpdate b = none) : updatePrefixes b = .ok [] := by
  unfold updatePrefixes
  split
  · rfl
  rename_i hlen
  rcases b with - | ⟨x, - | ⟨y, tail⟩⟩
  · simp at hlen
  · simp at hlen
  obtain ⟨w, hw⟩ : ∃ w, x.toNat * 256 + y.toNat = w := ⟨_, rfl⟩
  rw [u16b_cons, hw, ok_bind]
  split
  · rfl
  rename_i hfit
  simp only [List.length_cons, not_lt] at hfit
  obtain ⟨m, r, rfl, rfl⟩ : ∃ m r, tail = m ++ r ∧ m.length = w :=
    ⟨tail.take w, tail.drop w, by simp, by simp; omega⟩
  have hfirst : lengthPrefixed (x :: y :: (m ++ r)) = some (m, r) :=
    lengthPrefixed_eq_some.mpr ⟨x, y, rfl, hw⟩
  have hfrom : sliceFrom (x :: y :: (m ++ r)) (2 + m.length) = .ok r := by
    rw [Nat.add_comm]
    exact sliceFrom_append (x :: y :: m) r
  rw [List.length_append] at hfit
  rcases r with - | ⟨x', - | ⟨y', tail'⟩⟩
  · simp at hfit
  · simp at hfit
  rw [hfrom, ok_bind, u16b_cons, ok_bind, if_pos]
  · rfl
  · have hsecond : lengthPrefixed (x' :: y' :: tail') = none := by
      cases hl : lengthPrefixed (x' :: y' :: tail') with
      | none => rfl
      | some q => simp [parseUpdate, hfirst, hl] at h
    have hlt := lengthPrefixed_eq_none hsecond
    simp only [List.length_cons, List.length_append]
    omega

theorem updatePrefixes_ok (b : Bytes) : ∃ nets, updatePrefixes b = .ok nets := by
  cases hp : parseUpdate b with
  | none => exact ⟨[], updatePrefixes_none hp⟩
  | some u =>
    obtain ⟨nets, -, happend⟩ := appendNlri_eq false u.nlri []
    rw [updatePrefixes_parsed hp, happend, ok_bind]
    exact appendMp_fold_ok u.attributes _

/-! Other messages. -/

theorem refreshFamily_safe (b : Bytes) (n : Negotiated) : Safe (refreshFamily b n) := by
  unfold refreshFamily
  split
  · rename_i hlen
    obtain ⟨x, y, z, w, rfl⟩ : ∃ x y z w, b = [x, y, z, w] := by
      rcases b with - | ⟨x, - | ⟨y, - | ⟨z, - | ⟨w, - | ⟨v, b⟩⟩⟩⟩⟩ <;> simp at hlen
      exact ⟨x, y, z, w, rfl⟩
    simp only [index_succ, index_zero, ok_bind, u16b_cons]
    split
    · exact safe_ok _
    · split
      · exact safe_ok _
      · split
        · exact safe_ok _
        · exact safe_ok _
  · simp [Safe]

theorem unexpected_ne_panic (state : FsmState) (kind : UInt8) (body : Bytes) :
    unexpected state kind body ≠ .panic := by
  unfold unexpected
  split
  · split
    · rename_i hlen
      rcases body with - | ⟨x, - | ⟨y, tail⟩⟩
      · simp at hlen
      · simp at hlen
      · simp
    · simp
  · simp

/-- Handling a body that fits a message never panics, the copy for the log included. -/
theorem handle_safe (n : Negotiated) (kind : UInt8) (hb : body.length ≤ 4077) :
    Safe (Session.handle n kind body) := by
  have hframe : frame UPDATE body = .ok (frameOctets UPDATE body) := by
    refine frame_eq_ok.mpr ⟨?_, rfl⟩
    simp only [maxMessage]
    omega
  obtain ⟨nets, hnets⟩ := updatePrefixes_ok body
  unfold Session.handle
  split
  · exact safe_ok _
  · split
    · refine (validateUpdate_safe body n).bind fun action _ => ?_
      split
      · exact safe_ok _
      · rw [hnets, ok_bind, hframe, ok_bind]
        exact safe_ok _
    · split
      · exact (refreshFamily_safe body n).bind fun _ _ => safe_ok _
      · intro h
        rw [Except.error.injEq] at h
        exact unexpected_ne_panic _ _ _ h

/-! The whole connection. -/

namespace Inbound

/-- The wait for the peer's OPEN. -/
def readOpen (cfg : Config) (p : Peer) (kind : UInt8) (body : Bytes) : Result Negotiated :=
  if kind ≠ OPEN then .error (unexpected .openSent kind body) else parseOpen body cfg p

/-- The wait for the KEEPALIVE that confirms the OPEN. -/
def readConfirm (kind : UInt8) (body : Bytes) : Result Unit :=
  if kind ≠ KEEPALIVE then .error (unexpected .openConfirm kind body) else .ok ()

/-- `read_frame`, then a handler. -/
def next {α : Type} (f : UInt8 → Bytes → Result α) (r : Reader) : Result α × Reader :=
  match r.readFrame with
  | (.error e, r) => (.error e, r)
  | (.ok (kind, body), r) => (f kind body, r)

/-- `k` rounds of the receive loop. -/
def receive (n : Negotiated) : ℕ → Reader → Result Unit × Reader
  | 0, r => (.ok (), r)
  | k + 1, r =>
    match next (Session.handle n) r with
    | (.error e, r) => (.error e, r)
    | (.ok _, r) => receive n k r

/-- All that is read on a connection: the OPEN, the confirmation and `k` messages. -/
def read (cfg : Config) (p : Peer) (k : ℕ) (r : Reader) : Result Unit × Reader :=
  match next (readOpen cfg p) r with
  | (.error e, r) => (.error e, r)
  | (.ok n, r) =>
    match next readConfirm r with
    | (.error e, r) => (.error e, r)
    | (.ok _, r) => receive n k r

variable {r : Reader}

theorem next_safe {α : Type} {f : UInt8 → Bytes → Result α} (hr : Chunked.Proper r.chunks)
    (hf : ∀ kind body, body.length ≤ 4077 → Safe (f kind body)) :
    Safe (next f r).1 ∧ Chunked.Proper (next f r).2.chunks := by
  obtain ⟨hproper, ⟨kind, body, hok, hread, -⟩ | ⟨e, herr, -, hne, -⟩⟩ := Reader.readFrame_spec hr
  · have hpair : r.readFrame = (.ok (kind, body), r.readFrame.2) := Prod.ext hok rfl
    have hlen := (frameOk_iff.mp (readFrame_eq_ok.mp hread).1).1
    rw [next, hpair]
    exact ⟨hf kind body hlen, hproper⟩
  · have hpair : r.readFrame = (.error e, r.readFrame.2) := Prod.ext herr rfl
    rw [next, hpair]
    refine ⟨?_, hproper⟩
    intro h
    rw [Except.error.injEq] at h
    exact hne h

theorem readOpen_safe (cfg : Config) (p : Peer) (kind : UInt8) (body : Bytes) :
    Safe (readOpen cfg p kind body) := by
  unfold readOpen
  split
  · intro h
    rw [Except.error.injEq] at h
    exact unexpected_ne_panic _ _ _ h
  · exact parseOpen_safe body cfg p

theorem readConfirm_safe (kind : UInt8) (body : Bytes) : Safe (readConfirm kind body) := by
  unfold readConfirm
  split
  · intro h
    rw [Except.error.injEq] at h
    exact unexpected_ne_panic _ _ _ h
  · exact safe_ok ()

theorem receive_safe (n : Negotiated) (k : ℕ) (hr : Chunked.Proper r.chunks) :
    Safe (receive n k r).1 := by
  induction k generalizing r with
  | zero => exact safe_ok ()
  | succ k ih =>
    obtain ⟨hsafe, hproper⟩ := next_safe hr (fun kind _ hb => handle_safe n kind hb)
    unfold receive
    split
    · rename_i e r' hnext
      rw [hnext] at hsafe
      intro h
      cases h
      exact hsafe rfl
    · rename_i r' hnext
      rw [hnext] at hproper
      exact ih hproper

/-- No inbound stream makes a connection panic, however far it gets. -/
theorem read_safe (cfg : Config) (p : Peer) (k : ℕ) (hr : Chunked.Proper r.chunks) :
    Safe (read cfg p k r).1 := by
  obtain ⟨hsafe, hproper⟩ := next_safe hr (fun kind body _ => readOpen_safe cfg p kind body)
  unfold read
  split
  · rename_i e r' hnext
    rw [hnext] at hsafe
    intro h
    cases h
    exact hsafe rfl
  · rename_i n r' hnext
    rw [hnext] at hproper
    obtain ⟨hsafe', hproper'⟩ := next_safe hproper (fun kind body _ => readConfirm_safe kind body)
    split
    · rename_i e r'' hnext'
      rw [hnext'] at hsafe'
      intro h
      cases h
      exact hsafe' rfl
    · rename_i r'' hnext'
      rw [hnext'] at hproper'
      exact receive_safe n k hproper'

end Inbound

/-! Loops and errors. -/

theorem nlriBody_progress (bits : ℕ) : SliceLoop.Progress (nlriBody bits) :=
  Delimited.progress_of_head (c := nlriCode bits) (f := fun _ _ => .ok ())
    (fun _ _ => .error (err 3 10 "invalid NLRI")) (fun _ _ _ _ h => nlriBody_some h)
    (fun _ _ hb h => nlriBody_none hb h)

theorem pathBody_progress (width : ℕ) : SliceLoop.Progress (pathBody width) :=
  Delimited.progress_of_head (c := pathCode width) (f := fun _ _ => .ok ())
    (fun b _ => .error (err 3 11 (pathReason b))) (fun _ _ _ _ h => pathBody_some h)
    (fun _ _ hb h => pathBody_none hb h)

theorem attributeBody_progress (n : Negotiated) : SliceLoop.Progress (attributeBody n) :=
  Delimited.progress_of_head stopScan (fun _ _ _ _ h => attributeBody_some h)
    (fun _ _ hb h => attributeBody_none hb h)

theorem appendBody_progress (v6 : Bool) : SliceLoop.Progress (appendBody v6) :=
  Delimited.progress_of_head (fun _ out => .ok out) (fun _ _ _ _ h => appendBody_some h)
    (fun _ _ hb h => appendBody_none hb h)

theorem prefixesBody_progress : SliceLoop.Progress prefixesBody :=
  Delimited.progress_of_head (f := fun out a => appendMp a.kind a.data out)
    (fun _ out => .ok out) (fun _ _ _ _ h => prefixesBody_some h)
    (fun _ _ hb h => prefixesBody_none hb h)

/-- Every loop of the inbound parsers consumes its slice. -/
structure LoopsEnd : Prop where
  capabilities : SliceLoop.Progress capBody
  parameters : ∀ extended, SliceLoop.Progress (paramBody extended)
  nlri : ∀ bits, SliceLoop.Progress (nlriBody bits)
  path : ∀ width, SliceLoop.Progress (pathBody width)
  attributes : ∀ n, SliceLoop.Progress (attributeBody n)
  append : ∀ v6, SliceLoop.Progress (appendBody v6)
  prefixes : SliceLoop.Progress prefixesBody

theorem loopsEnd : LoopsEnd :=
  ⟨capBody_progress, paramBody_progress, nlriBody_progress, pathBody_progress,
    attributeBody_progress, appendBody_progress, prefixesBody_progress⟩

/-- The NOTIFICATION of an error is a frame the reader accepts, with as much of the error data as
fits. -/
theorem notification_spec (e : ProtocolError) :
    ∃ m, notification e.code e.subcode e.data = .ok m ∧ m.length ≤ maxMessage ∧
      readFrame m = .ok ((NOTIFICATION, e.code :: e.subcode :: e.data.take 4075), []) := by
  have htake : e.data.take (min e.data.length (maxMessage - 21)) = e.data.take 4075 := by
    rw [Nat.min_comm, ← List.take_take, List.take_length]
    rfl
  have hlen : (e.code :: e.subcode :: e.data.take 4075).length ≤ 4077 := by
    simp only [List.length_cons, List.length_take]
    omega
  have ha : Admitted NOTIFICATION (e.code :: e.subcode :: e.data.take 4075).length :=
    ⟨hlen, Or.inr (Or.inr (Or.inl ⟨rfl, by simp⟩))⟩
  refine ⟨frameOctets NOTIFICATION (e.code :: e.subcode :: e.data.take 4075), ?_, ?_, ?_⟩
  · rw [notification, htake]
    exact frame_of_admitted ha
  · rw [length_frameOctets, maxMessage]
    omega
  · exact readFrame_eq_ok.mpr ⟨frameOk_iff.mpr ha, (List.append_nil _).symm⟩

/-- No inbound octets make a session panic: not over a whole connection, nor in any of the
functions it calls; their loops end, and each protocol error has a NOTIFICATION that carries its
code, subcode and data. -/
theorem inbound_never_panics :
    (∀ cfg p k (r : Reader), Chunked.Proper r.chunks → Safe (Inbound.read cfg p k r).1) ∧
    (∀ r : Reader, Chunked.Proper r.chunks → Safe r.readFrame.1 ∧
      ∀ kind body, r.readFrame.1 = .ok (kind, body) →
        Safe (frame UPDATE body) ∧ ∀ n, Safe (Session.handle n kind body)) ∧
    (∀ b cfg p, Safe (parseOpen b cfg p)) ∧
    (∀ b n, Safe (validateUpdate b n)) ∧
    (∀ b bits, Safe (validateNlri b bits)) ∧
    (∀ b width, Safe (validatePath b width)) ∧
    (∀ b, Safe (updatePrefixes b)) ∧
    (∀ b n, Safe (refreshFamily b n)) ∧
    (∀ state kind body, unexpected state kind body ≠ .panic) ∧
    LoopsEnd ∧
    ∀ e : ProtocolError, ∃ m data, notification e.code e.subcode e.data = .ok m ∧
      m.length ≤ maxMessage ∧ readFrame m = .ok ((NOTIFICATION, e.code :: e.subcode :: data), []) ∧
      data <+: e.data ∧ (e.data.length ≤ 4075 → data = e.data) := by
  refine ⟨fun cfg p k r hr => Inbound.read_safe cfg p k hr, fun r hr => ?_, parseOpen_safe,
    validateUpdate_safe, validateNlri_safe, validatePath_safe, fun b => ?_, refreshFamily_safe,
    unexpected_ne_panic, loopsEnd, fun e => ?_⟩
  · obtain ⟨-, ⟨kind, body, hok, hread, -⟩ | ⟨e, herr, -, hne, -⟩⟩ := Reader.readFrame_spec hr
    · have hlen := (frameOk_iff.mp (readFrame_eq_ok.mp hread).1).1
      have hframe : frame UPDATE body = .ok (frameOctets UPDATE body) :=
        frame_eq_ok.mpr ⟨by simp only [maxMessage]; omega, rfl⟩
      rw [hok]
      refine ⟨safe_ok _, fun kind' body' hok' => ?_⟩
      cases hok'
      rw [hframe]
      exact ⟨safe_ok _, fun n => handle_safe n kind hlen⟩
    · rw [herr]
      refine ⟨?_, fun kind body hok => ?_⟩
      · intro h
        rw [Except.error.injEq] at h
        exact hne h
      · cases hok
  · obtain ⟨nets, hnets⟩ := updatePrefixes_ok b
    rw [hnets]
    exact safe_ok _
  · obtain ⟨m, hm, hlen, hread⟩ := notification_spec e
    refine ⟨m, _, hm, hlen, hread, List.take_prefix _ _, fun hle => ?_⟩
    exact List.take_of_length_le hle

/-- A connection that sends a truncated OPEN. -/
theorem example_inbound : Safe (Inbound.read exampleConfig examplePeer 5
    ⟨[marker, [0, 29, 1, 4, 252, 1, 0, 90], [192, 0, 2, 2, 200]], 0⟩).1 := by
  refine inbound_never_panics.1 _ _ _ _ ?_
  intro x hx
  simp only [List.mem_cons, List.not_mem_nil, or_false] at hx
  rcases hx with rfl | rfl | rfl <;> simp [marker]

end Ubgp
