import Ubgp.Lib.Trace
import Ubgp.Netlink.Kernel

/-! Reading a dump: what the messages of accepted datagrams were, whatever the kernel sent. -/
namespace Ubgp
namespace Netlink

variable {cfg : Config} {seq : ℕ} {m : Message} {ms earlier before : List Message} {s t : Dump}
  {bytes : Bytes} {start : Prefixes}

/-- ENOENT before any route of the dump. -/
def Absent (before : List Message) (m : Message) : Prop :=
  u32n m.payload = .ok noEntry ∧ ∀ m' ∈ before, m'.kind ≠ RTM_NEWROUTE

/-- A message `snapshot` accepts in the dump numbered `seq`, after those in `before`. -/
structure Accepted (cfg : Config) (seq : ℕ) (before : List Message) (m : Message) : Prop where
  sequence : m.seq = seq
  uninterrupted : m.interrupted = false
  done : m.kind = NLMSG_DONE → m.payload = [] ∨ u32n m.payload = .ok 0 ∨ Absent before m
  error : m.kind = NLMSG_ERROR → u32n m.payload = .ok 0 ∨ Absent before m
  overrun : m.kind ≠ NLMSG_OVERRUN
  route : m.kind = RTM_NEWROUTE → ∃ r, Netlink.route m.payload cfg.kernel.tables = .ok r

/-- The message ends the dump: NLMSG_DONE with status 0 or none, or ENOENT before any route. -/
def Ends (before : List Message) (m : Message) : Prop :=
  (m.kind = NLMSG_DONE ∧ (m.payload = [] ∨ u32n m.payload = .ok 0)) ∨
    ((m.kind = NLMSG_DONE ∨ m.kind = NLMSG_ERROR) ∧ Absent before m)

/-- A dump after the messages `ms`; the datagrams before the current one brought `earlier`, the
dumps before this one `start`. -/
structure Reading (cfg : Config) (seq : ℕ) (start : Prefixes) (earlier ms : List Message)
    (s : Dump) : Prop where
  accepted : ∀ as m bs, ms = as ++ m :: bs → Accepted cfg seq as m
  sawRoute : s.sawRoute = true ↔ ∃ m ∈ ms, m.kind = RTM_NEWROUTE
  result : ∀ p, p ∈ s.result ↔ p ∈ start ∨ ∃ m ∈ ms, m.Shows cfg p
  bounded : s.result.card ≤ cfg.kernel.maxPrefixes
  extends_earlier : earlier <+: ms
  done : s.done = true → ∃ as m bs, ms = earlier ++ (as ++ m :: bs) ∧ Ends (earlier ++ as) m

theorem dumpStatus_eq_ok {payload : Bytes} {saw : Bool} (h : dumpStatus payload saw = .ok ()) :
    payload = [] ∨ u32n payload = .ok 0 ∨ (u32n payload = .ok noEntry ∧ saw = false) := by
  unfold dumpStatus at h
  split at h
  · rename_i he
    exact Or.inl (List.isEmpty_iff.mp he)
  · obtain ⟨_, -, h⟩ := bind_eq_ok.mp h
    obtain ⟨code, hcode, h⟩ := bind_eq_ok.mp h
    simp only [check_eq_ok, Bool.or_eq_true, Bool.and_eq_true, beq_iff_eq, Bool.not_eq_true'] at h
    rcases h with rfl | ⟨rfl, hsaw⟩
    · exact Or.inr (Or.inl hcode)
    · exact Or.inr (Or.inr ⟨hcode, hsaw⟩)

/-- No route was read if `saw_route` is still unset. -/
theorem absent_of_unseen (hs : s.sawRoute = true ↔ ∃ m ∈ before, m.kind = RTM_NEWROUTE)
    (hsaw : s.sawRoute = false) (hcode : u32n m.payload = .ok noEntry) : Absent before m := by
  refine ⟨hcode, ?_⟩
  intro m' hm hk
  rw [hs.mpr ⟨m', hm, hk⟩] at hsaw
  cases hsaw

theorem dumpRoute_bounded (h : dumpRoute cfg m s = .ok t)
    (hs : s.result.card ≤ cfg.kernel.maxPrefixes) :
    t.result.card ≤ cfg.kernel.maxPrefixes ∧ t.sawRoute = true ∧
      ∃ r, route m.payload cfg.kernel.tables = .ok r := by
  unfold dumpRoute at h
  obtain ⟨found, hroute, h⟩ := bind_eq_ok.mp h
  cases found with
  | some q =>
    obtain ⟨_, hcard, h⟩ := bind_eq_ok.mp h
    cases h
    rw [check_eq_ok, decide_eq_true_eq] at hcard
    exact ⟨hcard, rfl, _, hroute⟩
  | none =>
    cases h
    exact ⟨hs, rfl, _, hroute⟩

/-- What an accepted message was, and what it did to the flags. -/
theorem dumpMessage_accepted (h : dumpMessage cfg seq m s = .ok t)
    (hs : s.sawRoute = true ↔ ∃ m ∈ before, m.kind = RTM_NEWROUTE)
    (hb : s.result.card ≤ cfg.kernel.maxPrefixes) :
    Accepted cfg seq before m ∧ t.result.card ≤ cfg.kernel.maxPrefixes ∧
      (t.sawRoute = true ↔ s.sawRoute = true ∨ m.kind = RTM_NEWROUTE) ∧
      (t.done = true → s.done = true ∨ Ends before m) := by
  unfold dumpMessage at h
  obtain ⟨_, hseq, h⟩ := bind_eq_ok.mp h
  obtain ⟨_, hintr, h⟩ := bind_eq_ok.mp h
  rw [check_eq_ok, beq_iff_eq] at hseq
  rw [check_eq_ok, Bool.not_eq_true'] at hintr
  by_cases hdone : m.kind = NLMSG_DONE
  · have hne : m.kind ≠ NLMSG_ERROR ∧ m.kind ≠ NLMSG_OVERRUN ∧ m.kind ≠ RTM_NEWROUTE := by
      rw [hdone]
      decide
    rw [if_pos hdone] at h
    obtain ⟨_, hstatus, h⟩ := bind_eq_ok.mp h
    cases h
    have hcases : m.payload = [] ∨ u32n m.payload = .ok 0 ∨ Absent before m := by
      rcases dumpStatus_eq_ok hstatus with he | h0 | ⟨hcode, hsaw⟩
      · exact Or.inl he
      · exact Or.inr (Or.inl h0)
      · exact Or.inr (Or.inr (absent_of_unseen hs hsaw hcode))
    refine ⟨⟨hseq, hintr, fun _ => hcases, fun he => absurd he hne.1, hne.2.1,
      fun hk => absurd hk hne.2.2⟩, hb, by simp [hne.2.2], fun _ => Or.inr ?_⟩
    rcases hcases with he | h0 | ha
    · exact Or.inl ⟨hdone, Or.inl he⟩
    · exact Or.inl ⟨hdone, Or.inr h0⟩
    · exact Or.inr ⟨Or.inl hdone, ha⟩
  by_cases herr : m.kind = NLMSG_ERROR
  · have hne : m.kind ≠ NLMSG_OVERRUN ∧ m.kind ≠ RTM_NEWROUTE := by
      rw [herr]
      decide
    rw [if_neg hdone, if_pos herr] at h
    obtain ⟨_, -, h⟩ := bind_eq_ok.mp h
    obtain ⟨code, hcode, h⟩ := bind_eq_ok.mp h
    split at h
    · rename_i hc
      cases h
      have ha := absent_of_unseen hs hc.2 (hc.1 ▸ hcode)
      exact ⟨⟨hseq, hintr, fun hd => absurd hd hdone, fun _ => Or.inr ha, hne.1,
        fun hk => absurd hk hne.2⟩, hb, by simp [hne.2], fun _ => Or.inr (Or.inr ⟨Or.inr herr, ha⟩)⟩
    · split at h
      · cases h
      · rename_i hc
        cases h
        have h0 : u32n m.payload = .ok 0 := by rw [hcode, not_not.mp hc]
        exact ⟨⟨hseq, hintr, fun hd => absurd hd hdone, fun _ => Or.inl h0, hne.1,
          fun hk => absurd hk hne.2⟩, hb, by simp [hne.2], fun hd => Or.inl hd⟩
  rw [if_neg hdone, if_neg herr] at h
  split at h
  · cases h
  · rename_i hover
    split at h
    · rename_i hkind
      obtain ⟨hcard, hsaw, hroute⟩ := dumpRoute_bounded h hb
      have hd := (dumpRoute_spec hkind h).2
      exact ⟨⟨hseq, hintr, fun hd => absurd hd hdone, fun he => absurd he herr, hover,
        fun _ => hroute⟩, hcard, by simp [hsaw, hkind], fun ht => Or.inl (hd ▸ ht)⟩
    · rename_i hkind
      cases h
      exact ⟨⟨hseq, hintr, fun hd => absurd hd hdone, fun he => absurd he herr, hover,
        fun hk => absurd hk hkind⟩, hb, by simp [hkind], fun hd => Or.inl hd⟩

theorem Reading.message (h : Reading cfg seq start earlier ms s)
    (hm : dumpMessage cfg seq m s = .ok t) : Reading cfg seq start earlier (ms ++ [m]) t := by
  obtain ⟨hacc, hcard, hsaw, hdone⟩ := dumpMessage_accepted hm h.sawRoute h.bounded
  have hresult := (dumpMessage_spec hm).1
  obtain ⟨rest, hrest⟩ := h.extends_earlier
  refine ⟨?_, ?_, ?_, hcard, ?_, ?_⟩
  · intro as m' bs hx
    rcases Lts.snoc_eq_append_cons hx with ⟨-, rfl, rfl⟩ | ⟨bs', -, hx'⟩
    · exact hacc
    · exact h.accepted as m' bs' hx'
  · rw [hsaw, h.sawRoute]
    simp [or_and_right, exists_or]
  · intro p
    rw [hresult, h.result]
    simp [or_and_right, exists_or, or_assoc]
  · exact h.extends_earlier.trans (List.prefix_append _ _)
  · intro ht
    rcases hdone ht with hs | hends
    · obtain ⟨as, m', bs, hx, he⟩ := h.done hs
      exact ⟨as, m', bs ++ [m], by simp [hx], he⟩
    · exact ⟨rest, m, [], by simp [← hrest], by rw [hrest]; exact hends⟩

theorem Reading.fold {more : List Message} (h : Reading cfg seq start earlier ms s)
    (hf : more.foldlM (fun s m => attempt s (dumpMessage cfg seq m s)) s = .ok t) :
    Reading cfg seq start earlier (ms ++ more) t := by
  induction more generalizing ms s with
  | nil =>
    cases hf
    rw [List.append_nil]
    exact h
  | cons m more ih =>
    rw [List.foldlM_cons] at hf
    cases hm : dumpMessage cfg seq m s with
    | error e =>
      rw [hm] at hf
      cases hf
    | ok u =>
      rw [hm] at hf
      have hnext := ih (h.message hm) hf
      rwa [List.append_assoc] at hnext

/-- An accepted datagram is well formed, and its messages are read after the earlier ones. -/
theorem Reading.datagram (h : Reading cfg seq start ms ms s)
    (hd : dumpDatagram cfg seq bytes s = .ok t) :
    ∃ more, parse bytes = .ok more ∧ Reading cfg seq start ms (ms ++ more) t := by
  obtain ⟨more, r, hscan⟩ := exists_scan bytes
  rw [dumpDatagram, messages_of_scans hscan] at hd
  cases hf : more.foldlM (fun s m => attempt s (dumpMessage cfg seq m s)) s with
  | error e =>
    rw [hf] at hd
    cases hd
  | ok u =>
    rw [hf] at hd
    cases r with
    | some e => cases hd
    | none =>
      cases hd
      exact ⟨more, parse_of_scans hscan, h.fold hf⟩

end Netlink
end Ubgp
