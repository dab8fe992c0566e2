import Ubgp.Bgp.Leak
import Ubgp.Bgp.Outbound
import Ubgp.Bgp.Spoken
import Ubgp.Wire.Framing

/-! The neighbour's table: what the octets of a session amount to for a router that reads them. -/
namespace Ubgp

variable {cfg : Config} {p P : Peer} {n : Negotiated} {b rest : Bytes} {v6 withdraw : Bool}
  {batch : List IpNet} {kind : UInt8} {body : Bytes} {table : Prefixes}

/-! Reading a stream to its end. -/

/-- Up to `k` complete frames at the start of a stream. -/
def readFrames : ℕ → Bytes → List (UInt8 × Bytes)
  | 0, _ => []
  | k + 1, b =>
    match readFrame b with
    | .ok (f, rest) => f :: readFrames k rest
    | .error _ => []

/-- The complete frames at the start of a stream; no frame is empty. -/
def completeFrames (b : Bytes) : List (UInt8 × Bytes) := readFrames b.length b

/-- One message changes the table of a neighbour if it is an UPDATE. -/
def hear (asn4 : Bool) (table : Prefixes) (f : UInt8 × Bytes) : Prefixes :=
  if f.1 = UPDATE then
    match decodeUpdate asn4 f.2 with
    | some d => (table \ d.withdrawn.toFinset) ∪ d.reachable.toFinset
    | none => table
  else table

/-- The table of a neighbour that started with none and has read a stream. -/
def heard (asn4 : Bool) (b : Bytes) : Prefixes := (completeFrames b).foldl (hear asn4) ∅

theorem readFrames_flatMap {fs : List (UInt8 × Bytes)} {k : ℕ}
    (hf : ∀ f ∈ fs, FrameOk f.1 f.2) (hk : fs.length ≤ k) (hr : ∃ e, readFrame rest = .error e) :
    readFrames k (fs.flatMap (fun f => frameOctets f.1 f.2) ++ rest) = fs := by
  induction fs generalizing k with
  | nil =>
    obtain ⟨e, he⟩ := hr
    cases k with
    | zero => rfl
    | succ k => simp [readFrames, he]
  | cons f fs ih =>
    cases k with
    | zero => simp at hk
    | succ k =>
      have hread : readFrame ((f :: fs).flatMap (fun f => frameOctets f.1 f.2) ++ rest) =
          .ok (f, fs.flatMap (fun f => frameOctets f.1 f.2) ++ rest) :=
        readFrame_eq_ok.mpr ⟨hf f (by simp), by simp⟩
      rw [readFrames, hread]
      simp only [List.cons.injEq, true_and]
      exact ih (fun g hg => hf g (by simp [hg])) (by simpa using hk)

theorem length_le_flatMap (fs : List (UInt8 × Bytes)) :
    fs.length ≤ (fs.flatMap (fun f => frameOctets f.1 f.2)).length := by
  induction fs with
  | nil => simp
  | cons f fs ih =>
    rw [List.flatMap_cons, List.length_append, length_frameOctets, List.length_cons]
    omega

/-- Frames followed by less than a frame are read one by one. -/
theorem completeFrames_flatMap {fs : List (UInt8 × Bytes)} (hf : ∀ f ∈ fs, FrameOk f.1 f.2)
    (hr : ∃ e, readFrame rest = .error e) :
    completeFrames (fs.flatMap (fun f => frameOctets f.1 f.2) ++ rest) = fs := by
  refine readFrames_flatMap hf ?_ hr
  have hle := length_le_flatMap fs
  rw [List.length_append]
  omega

/-- A part of a frame is not read as another one: the length field gives it away. -/
theorem readFrame_take {k : ℕ} (hf : FrameOk kind body) (hk : k < body.length + 19) :
    ∃ e, readFrame ((frameOctets kind body).take k) = .error e := by
  cases hread : readFrame ((frameOctets kind body).take k) with
  | error e => exact ⟨e, rfl⟩
  | ok r =>
    obtain ⟨⟨kind', body'⟩, rest'⟩ := r
    obtain ⟨⟨-, hmax', -⟩, heq⟩ := readFrame_eq_ok.mp hread
    have hlen := congrArg List.length heq
    rw [List.length_append, length_frameOctets, List.length_take, length_frameOctets] at hlen
    have hpre : frameOctets kind' body' <+: frameOctets kind body ++ [] := by
      rw [List.append_nil]
      exact (List.prefix_append _ rest').trans (heq ▸ List.take_prefix k _)
    have hfield := lengthField_eq hpre (by rw [length_frameOctets]; omega)
    have hfield' := lengthField_eq (List.prefix_append (frameOctets kind' body') [])
      (by rw [length_frameOctets]; omega)
    have hmax : body.length + 19 ≤ 4096 := hf.2.1
    have hmax'' : body'.length + 19 ≤ 4096 := hmax'
    have hsame : body.length + 19 = body'.length + 19 := by
      rw [← BigEndian.decode_encode_of_lt (k := 2) (show body.length + 19 < 256 ^ 2 by omega),
        ← hfield, hfield', BigEndian.decode_encode_of_lt (by omega)]
    omega

/-! What the messages mean. -/

theorem drop_frameOctets (kind : UInt8) (body : Bytes) :
    (frameOctets kind body).drop 19 = body := by
  have hsplit : frameOctets kind body =
      (marker ++ BigEndian.encode 2 (body.length + 19) ++ [kind]) ++ body := by
    simp [frameOctets]
  rw [hsplit]
  exact List.drop_left' (by simp [marker])

/-- A batch of a family that is withdrawn, or announced with a next hop, is a valid UPDATE that
says so. -/
theorem update_meaning (ha : Announcing cfg p n) (hb : Plan.Batch v6 batch)
    (hf : withdraw = false → (if v6 then n.ipv6 else n.ipv4) = true) :
    ∃ body d, update cfg p n batch withdraw = .ok (frameOctets UPDATE body) ∧
      FrameOk UPDATE body ∧ validateUpdate body n = .ok .valid ∧
      decodeUpdate n.asn4 body = some d ∧
      if withdraw then d.Withdraws batch else d.Announces cfg p n v6 batch := by
  have hlen : batch.length ≤ 200 := hb.bounded
  have hsize : (batch.flatMap nlri).length ≤ 3400 :=
    (length_flatMap_nlri batch).trans (by omega)
  have hpacked := packed_flatMap hb.family
  have hdecode := decodeNlri_flatMap hb.family
  obtain ⟨m, d, hm, hvalid, hd, hmeans⟩ : ∃ m d, update cfg p n batch withdraw = .ok m ∧
      validateUpdate (m.drop 19) n = .ok .valid ∧ decodeUpdate n.asn4 (m.drop 19) = some d ∧
      if withdraw then d.Withdraws batch else d.Announces cfg p n v6 batch := by
    cases withdraw with
    | true =>
      obtain ⟨m, hm, hvalid, hd, -⟩ := update_sendable
        (sendable_withdrawal (n := n) hpacked hsize) hb.ne_nil hlen hb.family
        (updateBody_withdraw cfg p)
      exact ⟨m, _, hm, hvalid, hd.trans (decode_withdrawal n.asn4 hdecode), rfl, rfl⟩
    | false =>
      have hfamily := hf rfl
      cases v6 with
      | false =>
        obtain ⟨nh, hnh, hvalid4⟩ := ha.nextHop4 hfamily
        obtain ⟨m, hm, hvalid, hd, -⟩ := update_sendable
          (sendable_announcement4 hvalid4 ha.internal hpacked hsize) hb.ne_nil hlen hb.family
          (updateBody_announce4 hnh)
        exact ⟨m, _, hm, hvalid, hd.trans (decode_announcement4 nh hdecode),
          announces4 ha.internal hnh⟩
      | true =>
        obtain ⟨nh, hnh⟩ := ha.nextHop6 hfamily
        obtain ⟨m, hm, hvalid, hd, -⟩ := update_sendable
          (sendable_announcement6 ha.internal hpacked hsize) hb.ne_nil hlen hb.family
          (updateBody_announce6 hnh)
        exact ⟨m, _, hm, hvalid, hd.trans (decode_announcement6 nh hdecode),
          announces6 ha.internal hnh⟩
  obtain ⟨body, hadm, hframe⟩ := update_isFrame hm
  obtain rfl : m = frameOctets UPDATE body := (frame_eq_ok.mp hframe).2
  rw [drop_frameOctets] at hvalid hd
  exact ⟨body, d, hm, frameOk_iff.mpr hadm, hvalid, hd, hmeans⟩

/-- An end-of-RIB marker withdraws nothing. -/
theorem endOfRib_meaning (n : Negotiated) (v6 : Bool) :
    ∃ body d, endOfRib v6 = .ok (frameOctets UPDATE body) ∧ FrameOk UPDATE body ∧
      validateUpdate body n = .ok .valid ∧ decodeUpdate n.asn4 body = some d ∧
      d.Withdraws [] := by
  have hnil := decodeNlri_nil v6
  have hsend : Sendable n (withdrawalOf v6 []) :=
    sendable_withdrawal ⟨[], by simp, rfl⟩ (by simp)
  have hbody : endOfRib v6 = frame UPDATE (withdrawalOf v6 []).octets := by
    cases v6 <;> rfl
  obtain ⟨m, hm, -⟩ := hsend.framed
  obtain ⟨body, hadm, hframe⟩ := endOfRib_isFrame (hbody.trans hm)
  have hoctets : (withdrawalOf v6 []).octets = body := by
    have hsame := (frame_eq_ok.mp hm).2.symm.trans (frame_eq_ok.mp hframe).2
    have hdrop := congrArg (List.drop 19) hsame
    change (frameOctets UPDATE _).drop 19 = (frameOctets UPDATE _).drop 19 at hdrop
    rwa [drop_frameOctets, drop_frameOctets] at hdrop
  subst hoctets
  refine ⟨_, (withdrawalOf v6 []).contents n.asn4 [] [], ?_, frameOk_iff.mpr hadm, hsend.valid,
    ?_, rfl, rfl⟩
  · rw [hbody]
    exact frame_eq_ok.mpr ⟨(frame_eq_ok.mp hm).1, rfl⟩
  · simp [decodeUpdate, hsend.parse, hsend.rest, decode_withdrawal n.asn4 hnil]

namespace Transmit

/-- A message the encoder accepts, of prefixes without host bits. -/
def Send.Plain (n : Negotiated) : Send → Prop
  | .update withdraw batch =>
    (∃ v6, Plan.Batch v6 batch ∧ (withdraw = false → (if v6 then n.ipv6 else n.ipv4) = true)) ∧
      ∀ q ∈ batch, q.trunc = q
  | _ => True

variable {m : Send} {s : State} {xs : List Label} {e : Exports} {t₀ : ℕ}

theorem map_trunc (h : ∀ q ∈ batch, q.trunc = q) : batch.map IpNet.trunc = batch :=
  (List.map_congr_left h).trans (List.map_id batch)

/-- A message is framed, another router of this kind accepts it without a reply, and it changes
the table of its reader by the batch it carries. -/
theorem render_meaning (ha : Announcing cfg p n) (hm : m.Plain n) :
    ∃ kind body, Session.render cfg p n m = .ok (frameOctets kind body) ∧ FrameOk kind body ∧
      Session.handle n kind body = .ok ⟨none, true⟩ ∧
      ∀ table, hear n.asn4 table (kind, body) = applyBatch table (.sent m) := by
  have hupdate : ∀ {body : Bytes}, validateUpdate body n = .ok .valid →
      Session.handle n UPDATE body = .ok ⟨none, true⟩ := by
    intro body hvalid
    simp [Session.handle, hvalid, UPDATE, KEEPALIVE]
  cases m with
  | keepalive =>
    exact ⟨KEEPALIVE, [], rfl, ⟨by decide, by decide, by decide⟩, rfl, fun _ => rfl⟩
  | endOfRib v6 =>
    obtain ⟨body, d, hm, hok, hvalid, hd, hw, hr⟩ := endOfRib_meaning n v6
    refine ⟨UPDATE, body, hm, hok, hupdate hvalid, fun table => ?_⟩
    simp [hear, hd, hw, hr, applyBatch]
  | update withdraw batch =>
    obtain ⟨⟨v6, hb, hf⟩, htrunc⟩ := hm
    obtain ⟨body, d, hm, hok, hvalid, hd, hmeans⟩ := update_meaning ha hb hf
    refine ⟨UPDATE, body, hm, hok, hupdate hvalid, fun table => ?_⟩
    cases withdraw with
    | true =>
      have hmeans : d.Withdraws batch := hmeans
      simp [hear, hd, hmeans.withdrawn, hmeans.reachable, map_trunc htrunc, applyBatch]
    | false =>
      have hmeans : d.Announces cfg p n v6 batch := hmeans
      simp [hear, hd, hmeans.withdrawn, hmeans.reachable, map_trunc htrunc, applyBatch]

/-- Every batch of a run is one the encoder accepts, without host bits. -/
theorem plain_of_next {plan : Plan} (hv : cfg.validate = .ok ()) (hP : P ∈ cfg.peers)
    (hpub : ∀ e', e' = e ∨ Label.publish e' ∈ xs → Sourced cfg e')
    (h : Lts.Trace (Step n P.exportAcl) (init e t₀) xs s) (hpc : s.pc ≠ .start)
    (hn : s.plan.next = some ((withdraw, batch), plan)) : (Send.update withdraw batch).Plain n := by
  have hsync := Synced.of_trace h
  refine ⟨hsync.next_batch hn, ?_⟩
  intro q hq
  rcases hsync.plan.batch_mem hn with ⟨-, hsub⟩ | ⟨-, hsub, -⟩
  · have hheld := Reconcile.mem_drops.mp (hsub (List.mem_toFinset.mpr hq))
    exact advertised_trunc hv hP hpub h q hheld.1
  · have hadd := Reconcile.mem_adds.mp (hsub (List.mem_toFinset.mpr hq))
    obtain ⟨e', hl, htarget⟩ := (target_of_trace h).resolve_left hpc
    have hq' := (Negotiated.mem_gate.mp hadd.1).1
    rw [htarget] at hq'
    exact desired_trunc hv hP (hpub e' (adopted_mem h hl)) hq'

theorem plain_of_outgoing (hv : cfg.validate = .ok ()) (hP : P ∈ cfg.peers)
    (hpub : ∀ e', e' = e ∨ Label.publish e' ∈ xs → Sourced cfg e')
    (h : Lts.Trace (Step n P.exportAcl) (init e t₀) xs s) (ho : s.outgoing n = some m) :
    m.Plain n := by
  cases m with
  | keepalive | endOfRib => trivial
  | update withdraw batch =>
    unfold State.outgoing at ho
    split at ho
    case h_2 hpc =>
      obtain ⟨⟨⟨withdraw', batch'⟩, plan⟩, hnext, hmsg⟩ := Option.map_eq_some_iff.mp ho
      cases hmsg
      exact plain_of_next hv hP hpub h (by simp [hpc]) hnext
    all_goals simp at ho

theorem plain_of_sends (hv : cfg.validate = .ok ()) (hP : P ∈ cfg.peers)
    (hpub : ∀ e', e' = e ∨ Label.publish e' ∈ xs → Sourced cfg e')
    (h : Lts.Trace (Step n P.exportAcl) (init e t₀) xs s) : ∀ m ∈ sends xs, m.Plain n := by
  induction h with
  | refl => simp [sends]
  | @snoc s t xs a h ha ih =>
    have hpub' : ∀ e', e' = e ∨ Label.publish e' ∈ xs → Sourced cfg e' :=
      fun e' he => hpub e' (he.imp_right (List.mem_append_left _))
    intro m hm
    rw [sends_append, sends_singleton] at hm
    rcases List.mem_append.mp hm with hm | hm
    · exact ih hpub' m hm
    · cases a with
      | sent m' =>
        obtain rfl : m = m' := by simpa [Label.message] using hm
        cases m with
        | keepalive | endOfRib => trivial
        | update withdraw batch =>
          obtain ⟨hpc, plan, hnext⟩ := update_next ha
          exact plain_of_next hv hP hpub' h (by simp [hpc]) hnext
      | _ => simp [Label.message] at hm

/-- Only messages change a table. -/
theorem foldl_sends (xs : List Label) (table : Prefixes) :
    xs.foldl applyBatch table =
      (sends xs).foldl (fun table m => applyBatch table (.sent m)) table := by
  induction xs generalizing table with
  | nil => rfl
  | cons a xs ih =>
    cases a with
    | sent m => exact ih _
    | _ => exact ih table

end Transmit

namespace Session
variable {xs : List Label} {s : State} {e : Exports} {t₀ : ℕ} {ms : List Transmit.Send}
  {packets : List Bytes} {linkLocal : Option Ipv6Addr}

/-- A reader of encoded messages accepts them all and ends up with what they carry. -/
theorem Renders.heard (h : Renders cfg p n ms packets) (ha : Announcing cfg p n)
    (hm : ∀ m ∈ ms, m.Plain n) :
    ∃ fs : List (UInt8 × Bytes), packets.flatten = fs.flatMap (fun f => frameOctets f.1 f.2) ∧
      (∀ f ∈ fs, FrameOk f.1 f.2 ∧ handle n f.1 f.2 = .ok ⟨none, true⟩) ∧
      ∀ table, fs.foldl (hear n.asn4) table =
        ms.foldl (fun table m => Transmit.applyBatch table (.sent m)) table := by
  induction h with
  | nil => exact ⟨[], rfl, by simp, fun _ => rfl⟩
  | @cons m f ms packets hr _ ih =>
    obtain ⟨fs, hflat, hok, hfold⟩ := ih (fun m' hm' => hm m' (List.mem_cons_of_mem _ hm'))
    obtain ⟨kind, body, hrender, hframe, hhandle, hhear⟩ :=
      Transmit.render_meaning ha (hm m List.mem_cons_self)
    obtain rfl : f = frameOctets kind body := Except.ok.inj (hr.symm.trans hrender)
    refine ⟨(kind, body) :: fs, ?_, ?_, ?_⟩
    · rw [List.flatten_cons, List.flatMap_cons, hflat]
    · exact List.forall_mem_cons.mpr ⟨⟨hframe, hhandle⟩, hok⟩
    · intro table
      rw [List.foldl_cons, List.foldl_cons, hhear, hfold]

theorem fill_exportAcl (p : Peer) (linkLocal : Option Ipv6Addr) :
    (p.fill linkLocal).exportAcl = p.exportAcl := by
  obtain ⟨l, h⟩ := fill_eq p linkLocal
  rw [h]

theorem confirmation_ok : FrameOk KEEPALIVE [] := ⟨by decide, by decide, by decide⟩

/-- The complete frames on the connection of an established session: each of them is accepted, and
together they are the table of the peer, but for a batch whose write has not returned yet. -/
theorem Spoken.frames {ys : List Transmit.Label} {expires : Option ℕ} {w : Option Write}
    (h : Spoken cfg p n e t₀ xs s ys) (ha : Announcing cfg p n)
    (hplain : ∀ m ∈ Transmit.sends ys, m.Plain n)
    (hout : ∀ m, s.tx.outgoing n = some m → m.Plain n)
    (hphase : s.phase = .established expires w) :
    (∀ f ∈ completeFrames (octets xs), handle n f.1 f.2 = .ok ⟨none, true⟩) ∧
      ((∀ w', w = some w' → w'.done < w'.packet.length) →
        heard n.asn4 (octets xs) = s.tx.advertised) ∧
      ∀ w', w = some w' → w'.done = w'.packet.length → ∃ m, s.tx.outgoing n = some m ∧
        heard n.asn4 (octets xs) = Transmit.applyBatch s.tx.advertised (.sent m) := by
  have hadv : s.tx.advertised = (Transmit.sends ys).foldl
      (fun table m => Transmit.applyBatch table (.sent m)) ∅ := by
    rw [Transmit.advertised_of_trace h.trace, Transmit.peerTable, Transmit.foldl_sends]
  have hnone : ∃ e, readFrame [] = .error e := ⟨_, rfl⟩
  have hc := h.carries
  rw [hphase] at hc
  generalize octets xs = b at hc
  cases hc with
  | @idle _ packets hms =>
    obtain ⟨fs, hflat, hok, hfold⟩ := hms.heard ha hplain
    have hread : completeFrames (confirmation ++ packets.flatten) = (KEEPALIVE, []) :: fs := by
      rw [hflat]
      have hfs : ∀ f ∈ (KEEPALIVE, []) :: fs, FrameOk f.1 f.2 :=
        List.forall_mem_cons.mpr ⟨confirmation_ok, fun f hf => (hok f hf).1⟩
      have hall := completeFrames_flatMap hfs hnone
      simpa [confirmation] using hall
    refine ⟨?_, fun _ => ?_, fun w' hw' => by cases hw'⟩
    · rw [hread]
      exact List.forall_mem_cons.mpr ⟨rfl, fun f hf => (hok f hf).2⟩
    · rw [heard, hread, hadv]
      exact hfold ∅
  | @writing _ w packets m hms hm hr =>
    obtain ⟨fs, hflat, hok, hfold⟩ := hms.heard ha hplain
    obtain ⟨kind, body, hrender, hframe, hhandle, hhear⟩ :=
      Transmit.render_meaning ha (hout m hm)
    have hpacket : w.packet = frameOctets kind body := Except.ok.inj (hr.symm.trans hrender)
    have hfs : ∀ f ∈ (KEEPALIVE, []) :: fs, FrameOk f.1 f.2 :=
      List.forall_mem_cons.mpr ⟨confirmation_ok, fun f hf => (hok f hf).1⟩
    have hlen : w.packet.length = body.length + 19 := by rw [hpacket, length_frameOctets]
    have hpart : w.done < w.packet.length → completeFrames
        (confirmation ++ packets.flatten ++ w.packet.take w.done) = (KEEPALIVE, []) :: fs := by
      intro hlt
      have hall := completeFrames_flatMap hfs (readFrame_take hframe (hlen ▸ hlt))
      rw [hflat, hpacket]
      simpa [confirmation] using hall
    have hwhole : w.packet.length ≤ w.done → completeFrames
        (confirmation ++ packets.flatten ++ w.packet.take w.done) =
          ((KEEPALIVE, []) :: fs) ++ [(kind, body)] := by
      intro hle
      have hfs' : ∀ f ∈ ((KEEPALIVE, []) :: fs) ++ [(kind, body)], FrameOk f.1 f.2 :=
        List.forall_mem_append.mpr ⟨hfs, by simpa using hframe⟩
      have hall := completeFrames_flatMap hfs' hnone
      rw [List.take_of_length_le hle, hflat, hpacket]
      simpa [confirmation] using hall
    refine ⟨?_, ?_, ?_⟩
    · rcases Nat.lt_or_ge w.done w.packet.length with hlt | hge
      · rw [hpart hlt]
        exact List.forall_mem_cons.mpr ⟨rfl, fun f hf => (hok f hf).2⟩
      · rw [hwhole hge]
        refine List.forall_mem_append.mpr ⟨?_, by simpa using hhandle⟩
        exact List.forall_mem_cons.mpr ⟨rfl, fun f hf => (hok f hf).2⟩
    · intro hall
      rw [heard, hpart (hall w rfl), hadv]
      exact hfold ∅
    · intro w' hw' hdone
      cases hw'
      refine ⟨m, hm, ?_⟩
      rw [heard, hwhole (Nat.le_of_eq hdone.symm), List.foldl_append, hadv, ← hfold ∅]
      exact hhear _
  | spent hover => rcases hover with hover | ⟨w, hover⟩ <;> cases hover

/-- The messages of a session and the one it is about to send, for a validated peer and snapshots
of kernel routes. -/
theorem Spoken.plain {ys : List Transmit.Label}
    (h : Spoken cfg (P.fill linkLocal) n e t₀ xs s ys) (hv : cfg.validate = .ok ())
    (hP : P ∈ cfg.peers) (hpub : ∀ e', e' = e ∨ Label.loop (.publish e') ∈ xs → Sourced cfg e') :
    (∀ m ∈ Transmit.sends ys, m.Plain n) ∧ ∀ m, s.tx.outgoing n = some m → m.Plain n := by
  have htrace := h.trace
  rw [fill_exportAcl] at htrace
  have hpub' : ∀ e', e' = e ∨ Transmit.Label.publish e' ∈ ys → Sourced cfg e' :=
    fun e' he => hpub e' (he.imp_right (h.published e'))
  exact ⟨Transmit.plain_of_sends hv hP hpub' htrace,
    fun m hm => Transmit.plain_of_outgoing hv hP hpub' htrace hm⟩

/-- A neighbour that reads the connection of an established session frame by frame holds exactly
what the session believes to have advertised, whatever part of the next message was written; once
a batch is written whole, it holds that too. -/
theorem wire_synchronised (hv : cfg.validate = .ok ()) (hP : P ∈ cfg.peers)
    (hn : parseOpen b cfg P = .ok n)
    (hpub : ∀ e', e' = e ∨ Label.loop (.publish e') ∈ xs → Sourced cfg e')
    (h : Lts.Trace (Step cfg (P.fill linkLocal) n) (init e t₀) xs s) {expires : Option ℕ}
    {w : Option Write} (hphase : s.phase = .established expires w) :
    ((∀ w', w = some w' → w'.done < w'.packet.length) →
        heard n.asn4 (octets xs) = s.tx.advertised) ∧
      ∀ w', w = some w' → w'.done = w'.packet.length → ∃ m, s.tx.outgoing n = some m ∧
        heard n.asn4 (octets xs) = Transmit.applyBatch s.tx.advertised (.sent m) := by
  obtain ⟨ys, hspoken⟩ := spoken_of_trace h
  obtain ⟨hplain, hout⟩ := hspoken.plain hv hP hpub
  have ha := announcing_of_open ((Config.validate_eq_ok.mp hv).peers P hP) hn linkLocal
  exact (hspoken.frames ha hplain hout hphase).2

/-- A session that announces one prefix: the confirmation is exchanged, and of the UPDATE `k`
octets are written. -/
def announcingMoves (k : ℕ) : List Move :=
  [.send, .accept 19, .written 0 ⟨[], []⟩, .receive (frameOctets KEEPALIVE []), .poll,
    .loop (.run 0 ⟨[], [examplePrefix]⟩), .loop (.run 0 ⟨[], []⟩), .loop (.run 0 ⟨[], []⟩),
    .loop (.run 0 ⟨[], []⟩), .send, .accept k]

/-- The write of an established session. -/
def Phase.established? : Phase → Option (Option Write)
  | .established _ w => some w
  | _ => none

theorem established_of_some {phase : Phase} {w : Option Write} (h : phase.established? = some w) :
    ∃ expires, phase = .established expires w := by
  cases phase with
  | established expires w' =>
    cases h
    exact ⟨expires, rfl⟩
  | _ => cases h

def Label.isPublish : Label → Bool
  | .loop (.publish _) => true
  | _ => false

theorem announcingMoves_exec :
    (Lts.exec (step exampleConfig examplePeer Transmit.leakSession) (announcingMoves 47)
        (init Transmit.permittedExports 0)).map
      (fun r => (r.2.phase.established?.any (fun w => w.any
          (fun w => decide (w.done = w.packet.length))),
        r.2.tx.outgoing Transmit.leakSession, r.2.tx.advertised, r.1.any Label.isPublish)) =
      some (true, some (.update false [examplePrefix]), ∅, false) := by
  decide +kernel

theorem example_wire_synchronised :
    ∃ xs s, Lts.Trace (Step exampleConfig examplePeer Transmit.leakSession)
        (init Transmit.permittedExports 0) xs s ∧
      heard Transmit.leakSession.asn4 (octets xs) = {examplePrefix} := by
  obtain ⟨⟨xs, s⟩, hr, he⟩ := Option.map_eq_some_iff.mp announcingMoves_exec
  simp only [Prod.mk.injEq, Option.any_eq_true, decide_eq_true_eq] at he
  obtain ⟨⟨_, hphase, w, rfl, hdone⟩, hout, hadv, hsilent⟩ := he
  obtain ⟨expires, hphase⟩ := established_of_some hphase
  have htrace : Lts.Trace (Step exampleConfig (examplePeer.fill none) Transmit.leakSession)
      (init Transmit.permittedExports 0) xs s := Lts.exec_trace hr
  have hopen := (parseOpen_mirrored example_mirrored Transmit.leakSession).mpr
    ⟨fun he => absurd he.2 (by decide), Or.inl ⟨rfl, rfl⟩, rfl⟩
  have hpub : ∀ e', e' = Transmit.permittedExports ∨ Label.loop (.publish e') ∈ xs →
      Sourced exampleConfig e' := by
    rintro e' (rfl | hmem)
    · exact Transmit.permittedExports_sourced
    · have hany : xs.any Label.isPublish = true := List.any_eq_true.mpr ⟨_, hmem, rfl⟩
      rw [hsilent] at hany
      cases hany
  obtain ⟨m, hm, hheard⟩ := (wire_synchronised (P := examplePeer) exampleConfig_valid
    (List.mem_singleton.mpr rfl) hopen hpub htrace hphase).2 w rfl hdone
  obtain rfl : Transmit.Send.update false [examplePrefix] = m :=
    Option.some.inj (hout.symm.trans hm)
  rw [hadv] at hheard
  exact ⟨xs, s, htrace, hheard⟩

end Session
end Ubgp
