import Ubgp.Bgp.Session

/-! Stream integrity: what a session leaves on its connection. -/
namespace Ubgp
namespace Session

variable {cfg : Config} {p : Peer} {n : Negotiated} {s t : State} {a : Label} {xs : List Label}
  {w : Write} {e : Exports} {t₀ : ℕ}

/-- The octets written so far. -/
def octets (xs : List Label) : Bytes := xs.flatMap Label.octets

/-- The frames some octet of which was written, in order. -/
def frames (xs : List Label) : List Bytes := xs.filterMap Label.opened

/-- The condition on a step: the receive half does not end with a protocol error while a frame is
written only in part. -/
def uncut (n : Negotiated) (s : State) : Label → Bool
  | .expired => !s.cut
  | .received stream => !(rejects n stream && s.cut)
  | _ => true

theorem octets_snoc : octets (xs ++ [a]) = octets xs ++ a.octets := by
  simp [octets]

theorem frames_snoc : frames (xs ++ [a]) = frames xs ++ a.opened.toList := by
  cases h : a.opened <;> simp [frames, h]

theorem octets_silent (h : a.Silent) : octets (xs ++ [a]) = octets xs := by
  rw [octets_snoc, h.1, List.append_nil]

theorem frames_silent (h : a.Silent) : frames (xs ++ [a]) = frames xs := by
  rw [frames_snoc, h.2]
  simp

/-- The frames before the one being written are complete, and so much of it was written. -/
structure Writing (xs : List Label) (w : Write) : Prop where
  wellFormed : WellFormedFrame w.packet
  bound : w.done ≤ w.packet.length
  split : ∃ before, octets xs = before.flatten ++ w.packet.take w.done ∧
    frames xs = before ++ if w.done = 0 then [] else [w.packet]

/-- Every frame but the one being written is complete, and so is every frame before another one
was begun. -/
structure Intact (xs : List Label) (s : State) : Prop where
  wellFormed : ∀ f ∈ frames xs, WellFormedFrame f
  contained : octets xs <+: (frames xs).flatten
  idle : s.phase.write = none → s.phase ≠ .closed → octets xs = (frames xs).flatten
  writing : ∀ w, s.phase.write = some w → Writing xs w
  whole : ∀ ys f k zs, xs = ys ++ .wrote f 0 k :: zs → octets ys = (frames ys).flatten

/-- A write that has not begun or has ended leaves only complete frames. -/
theorem Writing.complete (h : Writing xs w) (hw : w.cut = false) :
    octets xs = (frames xs).flatten := by
  obtain ⟨before, ho, hf⟩ := h.split
  have hb := h.bound
  rw [ho, hf]
  by_cases h₀ : w.done = 0
  · simp [h₀]
  · have hlen : w.done = w.packet.length := by
      simp only [Write.cut, decide_eq_false_iff_not] at hw
      omega
    rw [if_neg h₀, hlen, List.take_length]
    simp

theorem Writing.contained (h : Writing xs w) : octets xs <+: (frames xs).flatten := by
  obtain ⟨before, ho, hf⟩ := h.split
  rw [ho, hf]
  split
  · rename_i h₀
    simp [h₀]
  · simpa using List.take_prefix _ _

/-- A write about to begin, where only complete frames were written. -/
theorem writing_begun (hf : WellFormedFrame w.packet) (h₀ : w.done = 0)
    (hx : octets xs = (frames xs).flatten) : Writing xs w where
  wellFormed := hf
  bound := by omega
  split := ⟨frames xs, by simp [h₀, hx], by simp [h₀]⟩

theorem writing_wrote {k : ℕ} (h : Writing xs w) (hk : 0 < k)
    (hle : w.done + k ≤ w.packet.length) :
    Writing (xs ++ [.wrote w.packet w.done k]) { w with done := w.done + k } where
  wellFormed := h.wellFormed
  bound := hle
  split := by
    obtain ⟨before, ho, hf⟩ := h.split
    refine ⟨before, ?_, ?_⟩
    · rw [octets_snoc, ho, Label.octets, List.append_assoc, List.take_add]
    · by_cases h₀ : w.done = 0
      · have hk₀ : k ≠ 0 := by omega
        simp [frames_snoc, hf, Label.opened, h₀, hk₀]
      · simp [frames_snoc, hf, Label.opened, h₀]

theorem init_intact : Intact [] (init e t₀) where
  wellFormed := by simp [frames]
  contained := List.nil_prefix
  idle := fun _ _ => rfl
  writing := fun w hw => by cases hw
  whole := by simp

theorem Writing.silent (h : Writing xs w) (ha : a.Silent) : Writing (xs ++ [a]) w where
  wellFormed := h.wellFormed
  bound := h.bound
  split := by
    rw [octets_silent ha, frames_silent ha]
    exact h.split

theorem whole_snoc
    (hs : ∀ ys f k zs, xs = ys ++ .wrote f 0 k :: zs → octets ys = (frames ys).flatten)
    (ha : ∀ f k, a = .wrote f 0 k → octets xs = (frames xs).flatten) :
    ∀ ys f k zs, xs ++ [a] = ys ++ .wrote f 0 k :: zs → octets ys = (frames ys).flatten := by
  intro ys f k zs h
  rcases Lts.snoc_eq_append_cons h with ⟨-, hb, rfl⟩ | ⟨zs', -, hx⟩
  · exact ha f k hb
  · exact hs ys f k zs' hx

/-- A silent step extends the history only. -/
theorem intact_silent (hs : Intact xs s) (ha : a.Silent)
    (hidle : t.phase.write = none → t.phase ≠ .closed → octets xs = (frames xs).flatten)
    (hwriting : ∀ w, t.phase.write = some w → Writing xs w) : Intact (xs ++ [a]) t where
  wellFormed := by
    rw [frames_silent ha]
    exact hs.wellFormed
  contained := by
    rw [octets_silent ha, frames_silent ha]
    exact hs.contained
  idle := by
    rw [octets_silent ha, frames_silent ha]
    exact hidle
  writing := fun w hw => (hwriting w hw).silent ha
  whole := by
    refine whole_snoc hs.whole ?_
    rintro f k rfl
    exact absurd ha.2 (by simp [Label.opened])

/-- Outside a cut frame only complete frames were written. -/
theorem Intact.complete (hs : Intact xs s) (hopen : s.phase ≠ .closed) (hcut : s.cut = false) :
    octets xs = (frames xs).flatten := by
  cases hw : s.phase.write with
  | none => exact hs.idle hw hopen
  | some w =>
    rw [State.cut, hw] at hcut
    exact (hs.writing w hw).complete hcut

theorem intact_begun (hs : Intact xs s) (ha : a.Silent) (hx : octets xs = (frames xs).flatten)
    (ht : t.phase.write = some w) (h₀ : w.done = 0) (hf : WellFormedFrame w.packet) :
    Intact (xs ++ [a]) t := by
  refine intact_silent hs ha (fun _ _ => hx) ?_
  intro w' hw'
  rw [ht] at hw'
  cases hw'
  exact writing_begun hf h₀ hx

theorem intact_step (hs : Intact xs s) (hg : uncut n s a = true) (h : Step cfg p n s a t) :
    Intact (xs ++ [a]) t := by
  cases h.effect with
  | keep ha hw hc =>
    refine intact_silent hs ha ?_ ?_
    · intro hnone hopen
      exact hs.idle (hw ▸ hnone) (fun hclosed => hopen (hc hclosed))
    · intro w hsome
      exact hs.writing w (hw ▸ hsome)
  | @wrote _ w k hw hk hle ht =>
    have hold := hs.writing w hw
    have hnew := writing_wrote hold hk hle
    refine ⟨?_, hnew.contained, ?_, ?_, whole_snoc hs.whole ?_⟩
    · intro f hf
      rw [frames_snoc] at hf
      rcases List.mem_append.mp hf with hf | hf
      · exact hs.wellFormed f hf
      · have hfw : w.packet = f := by
          simp only [Label.opened, Option.mem_toList, Option.ite_none_right_eq_some,
            Option.some.injEq] at hf
          exact hf.2
        exact hfw ▸ hold.wellFormed
    · intro hnone
      rw [ht] at hnone
      cases hnone
    · intro w' hw'
      rw [ht] at hw'
      cases hw'
      exact hnew
    · intro f j hfirst
      have h₀ : w.done = 0 := by
        injection hfirst
      exact hold.complete (by simp [Write.cut, h₀])
  | finished ha hw hdone ht =>
    refine intact_silent hs ha (fun _ _ => ?_) ?_
    · exact (hs.writing _ hw).complete (by simp [Write.cut, hdone])
    · intro w' hw'
      rw [ht] at hw'
      cases hw'
  | began ha hidle hopen ht h₀ hf => exact intact_begun hs ha (hs.idle hidle hopen) ht h₀ hf
  | reported ha hopen ht h₀ hf =>
    have hcut : s.cut = false := by
      rcases ha with rfl | ⟨stream, rfl, hr⟩
      · simpa [uncut] using hg
      · simpa [uncut, hr] using hg
    have hsilent : a.Silent := by
      rcases ha with rfl | ⟨stream, rfl, -⟩ <;> exact ⟨rfl, rfl⟩
    exact intact_begun hs hsilent (hs.complete hopen hcut) ht h₀ hf
  | closed ha ht =>
    refine intact_silent hs ha (fun _ hopen => absurd ht hopen) ?_
    intro w hw
    rw [ht] at hw
    cases hw

/-- As long as the receive half never ends with a protocol error over a partly written frame, the
connection carries complete frames and at most one unfinished one at the end, and no frame is
begun before all earlier ones are complete. -/
theorem stream_intact
    (h : Lts.GuardedTrace (Step cfg p n) (fun _ s a => uncut n s a = true) (init e t₀) xs s) :
    (∀ f ∈ frames xs, WellFormedFrame f) ∧ octets xs <+: (frames xs).flatten ∧
      ∀ ys f k zs, xs = ys ++ .wrote f 0 k :: zs → octets ys = (frames ys).flatten := by
  have hs : Intact xs s :=
    h.history init_intact (fun _ _ _ _ hs hg ha => intact_step hs hg ha)
  exact ⟨hs.wellFormed, hs.contained, hs.whole⟩

def plainSession : Negotiated := ⟨0xC0000202#32, 90, true, false, true, false⟩

/-- A session without routes up to its end-of-RIB marker, of which `k` octets are written; then
the peer sends a header with a bad marker and is notified. -/
def markerMoves (k : ℕ) : List Move :=
  [.send, .accept 19, .written 0 ⟨[], []⟩, .receive (frameOctets KEEPALIVE [])] ++
    List.replicate 5 (.loop (.run 0 ⟨[], []⟩)) ++
    [.send, .accept k, .poll, .receive (List.replicate 19 0), .accept 21]

/-- What the connection carries then. -/
def markerOctets (k : ℕ) : Bytes :=
  frameOctets KEEPALIVE [] ++ (frameOctets UPDATE [0, 0, 0, 0]).take k ++
    frameOctets NOTIFICATION [1, 1]

theorem markerMoves_whole :
    (Lts.execGuarded (step exampleConfig examplePeer plainSession)
        (fun _ s a => uncut plainSession s a) (markerMoves 23) [] (init ∅ 0)).map
      (fun r => octets r.1) = some (markerOctets 23) := by
  decide +kernel

theorem markerMoves_cut :
    (Lts.exec (step exampleConfig examplePeer plainSession) (markerMoves 1) (init ∅ 0)).map
      (fun r => octets r.1) = some (markerOctets 1) := by
  decide +kernel

theorem example_stream_intact :
    ∃ xs s, Lts.Trace (Step exampleConfig examplePeer plainSession) (init ∅ 0) xs s ∧
      octets xs = markerOctets 23 ∧ octets xs <+: (frames xs).flatten := by
  obtain ⟨⟨xs, s⟩, hr, ho⟩ := Option.map_eq_some_iff.mp markerMoves_whole
  have hrun := Lts.execGuarded_trace .refl hr
  exact ⟨xs, s, hrun.trace, ho, (stream_intact hrun).2.1⟩

/-- A NOTIFICATION after one octet of another frame: the second length field reads 65280. -/
theorem stream_cut :
    ¬ ∀ (cfg : Config) (p : Peer) (n : Negotiated) (e : Exports) (t₀ : ℕ) (xs : List Label)
      (s : State), Lts.Trace (Step cfg p n) (init e t₀) xs s →
        ∃ fs : List Bytes, (∀ f ∈ fs, WellFormedFrame f) ∧ octets xs <+: fs.flatten := by
  intro hall
  obtain ⟨⟨xs, s⟩, hr, ho⟩ := Option.map_eq_some_iff.mp markerMoves_cut
  obtain ⟨fs, hf, hx⟩ := hall _ _ _ _ _ _ _ (Lts.exec_trace hr)
  rw [show octets xs = markerOctets 1 from ho] at hx
  have hrest := (stream_head (l := 19) hf hx (by decide +kernel) (by decide +kernel)).2
    (by decide +kernel)
  have hbad := stream_head (l := 65280) (fun f hm => hf f (List.mem_of_mem_tail hm)) hrest
    (by decide +kernel) (by decide +kernel)
  exact absurd hbad.1 (by decide)

end Session
end Ubgp
