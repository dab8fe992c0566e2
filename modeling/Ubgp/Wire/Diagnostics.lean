import Ubgp.Wire.Recovery

/-! The diagnostic decoder agrees with the validator. -/
namespace Ubgp

open SliceLoop (Control)

variable {b data : Bytes} {n : Negotiated} {u : UpdateSections} {m : MpNlri} {v6 : Bool}
  {as before after : List Attribute} {a : Attribute}

theorem nets_ne_nil {es : List NlriEntry} {nets : List IpNet}
    (h : es.mapM (NlriEntry.net v6) = some nets) : nets ≠ [] ↔ es ≠ [] := by
  cases es with
  | nil =>
    cases h
    simp
  | cons e es =>
    simp only [List.mapM_cons, Option.bind_eq_bind, Option.bind_eq_some_iff] at h
    obtain ⟨net, -, rest, -, h⟩ := h
    cases h
    simp

/-- Packed prefixes are appended to the last one, and stand for nothing only when empty. -/
theorem appendNlri_packed (v6 : Bool) (h : (nlriCode (familyBits v6)).Packed b) (out : List IpNet) :
    ∃ nets, decodeNlri v6 b = some nets ∧ appendNlri v6 b out = .ok (out ++ nets) ∧
      (nets ≠ [] ↔ b ≠ []) := by
  obtain ⟨nets, hnets, happend⟩ := appendNlri_eq v6 b out
  have hrest := Delimited.packed_iff.mp h
  refine ⟨nets, ?_, happend, ?_⟩
  · simp only [decodeNlri, hrest, if_true, hnets]
  · rw [nets_ne_nil hnets, Ne, Delimited.walk_eq_nil h]

theorem familyBits_unicast (h : m.Unicast) :
    (if m.afi = 1 then 32 else 128) = familyBits (m.afi == 2) := by
  rcases h.2 with h1 | h2
  · rw [h1]
    rfl
  · rw [h2]
    rfl

theorem decode_unicast (h : m.Unicast) : m.decode = decodeNlri (m.afi == 2) m.nlri := by
  obtain ⟨hs, h1 | h2⟩ := h
  · simp [MpNlri.decode, hs, h1]
  · simp [MpNlri.decode, hs, h2]

/-- The prefixes of a well-formed MP_REACH_NLRI are all appended. -/
theorem appendMp_reach (hm : decodeMpReach data = some m) (hn : m.NlriOk) (out : List IpNet) :
    ∃ nets, m.decode = some nets ∧ appendMp 14 data out = .ok (out ++ nets) ∧
      (nets ≠ [] ↔ m.Unicast ∧ m.nlri ≠ []) := by
  by_cases hu : m.Unicast
  · obtain ⟨nets, hnets, happend, hne⟩ := appendNlri_packed (m.afi == 2)
      (familyBits_unicast hu ▸ hn hu) out
    refine ⟨nets, by rw [decode_unicast hu, hnets], ?_, ?_⟩
    · rw [appendMp_unicast hm hu, happend]
    · rw [hne]
      simp [hu]
  · refine ⟨[], ?_, ?_, by simp [hu]⟩
    · simp only [MpNlri.Unicast, not_and_or, not_or] at hu
      rcases hu with hs | ⟨h1, h2⟩
      · simp [MpNlri.decode, hs]
      · simp [MpNlri.decode, h1, h2]
    · rw [appendMp_not_unicast hm hu, List.append_nil]

/-! At most one attribute carries reachable prefixes. -/

/-- Without a fatal attribute the first MP_REACH_NLRI is well formed and the only one. -/
theorem reach_unique (h : ¬ FatalIn [] (before ++ a :: after)) (ha : a.kind = 14) :
    a.MpWellFormed ∧ (∀ c ∈ before, c.kind ≠ 14) ∧ ∀ c ∈ after, c.kind ≠ 14 := by
  have hmp : isMp a.kind = true := by rw [ha]; rfl
  have hself : ¬ a.Fatal ([] ++ before.map Attribute.kind) := fun hf =>
    h ⟨before, a, after, rfl, hf⟩
  refine ⟨?_, ?_, ?_⟩
  · by_contra hw
    exact hself (Or.inl ⟨hmp, Or.inr (Or.inr hw)⟩)
  · intro c hc hk
    apply hself
    refine Or.inl ⟨hmp, Or.inl ?_⟩
    rw [ha, ← hk]
    exact List.mem_append_right _ (List.mem_map_of_mem hc)
  · intro c hc hk
    obtain ⟨s, t, rfl⟩ := List.append_of_mem hc
    apply h
    refine ⟨before ++ a :: s, c, t, by simp, Or.inl ⟨by rw [hk]; rfl, Or.inl ?_⟩⟩
    rw [hk, ← ha]
    simp

theorem value_eq_none (h : ∀ c ∈ u.attributes, c.kind ≠ 14) : u.value 14 = none := by
  have hfind : u.attributes.find? (fun c => c.kind == 14) = none := by
    rw [List.find?_eq_none]
    intro c hc
    simpa using h c hc
  rw [UpdateSections.value, hfind]
  rfl

theorem value_eq_some (hu : u.attributes = before ++ a :: after) (ha : a.kind = 14)
    (h : ∀ c ∈ before, c.kind ≠ 14) : u.value 14 = some a.data := by
  have hfind : u.attributes.find? (fun c => c.kind == 14) = some a := by
    rw [List.find?_eq_some_iff_append]
    refine ⟨by simpa using ha, before, after, hu, ?_⟩
    intro c hc
    simpa using h c hc
  rw [UpdateSections.value, hfind]
  rfl

/-- The attribute loop of the decoder appends the prefixes of the MP_REACH_NLRI, if any. -/
theorem appendMp_all (h : ¬ FatalIn [] u.attributes) (out : List IpNet) :
    ∃ nets, mpPrefixes decodeMpReach (u.value 14) = some nets ∧
      u.attributes.foldlM (fun out a => appendMp a.kind a.data out) out = .ok (out ++ nets) ∧
      (nets ≠ [] ↔ ∃ a ∈ u.attributes, a.Reaches) ∧
      ∀ a ∈ u.attributes, a.kind = 14 → u.value 14 = some a.data := by
  by_cases hnone : ∀ c ∈ u.attributes, c.kind ≠ 14
  · refine ⟨[], by rw [value_eq_none hnone]; rfl, ?_, ?_, ?_⟩
    · rw [appendMp_others out hnone, List.append_nil]
    · simp only [ne_eq, not_true_eq_false, false_iff]
      rintro ⟨a, ha, hk, -⟩
      exact hnone a ha hk
    · intro a ha hk
      exact absurd hk (hnone a ha)
  · push Not at hnone
    obtain ⟨a, ha, hk⟩ := hnone
    obtain ⟨before, after, hu⟩ := List.append_of_mem ha
    rw [hu] at h
    obtain ⟨hwell, hbefore, hafter⟩ := reach_unique h hk
    rw [Attribute.MpWellFormed, if_pos hk] at hwell
    obtain ⟨m, hm, -, hn⟩ := hwell
    obtain ⟨nets, hnets, happend, hne⟩ := appendMp_reach hm hn out
    have hvalue := value_eq_some hu hk hbefore
    have honly : ∀ c ∈ u.attributes, c.kind = 14 → c = a := by
      intro c hc hck
      rw [hu, List.mem_append, List.mem_cons] at hc
      rcases hc with hc | rfl | hc
      · exact absurd hck (hbefore c hc)
      · rfl
      · exact absurd hck (hafter c hc)
    refine ⟨nets, ?_, ?_, ?_, ?_⟩
    · simp [hvalue, mpPrefixes, hm, hnets]
    · rw [hu, List.foldlM_append, appendMp_others out hbefore, ok_bind, List.foldlM_cons, hk,
        happend, ok_bind]
      exact appendMp_others _ hafter
    · rw [hne]
      constructor
      · rintro ⟨huni, hnlri⟩
        exact ⟨a, ha, hk, m, hm, huni, hnlri⟩
      · rintro ⟨c, hc, hck, m', hm', huni, hnlri⟩
        rw [honly c hc hck, hm, Option.some.injEq] at hm'
        rw [hm']
        exact ⟨huni, hnlri⟩
    · intro c hc hck
      rw [honly c hc hck]
      exact hvalue

/-! The validator's view. -/

/-- The state in which the validator leaves its attribute loop. -/
theorem scan_of_ok {action : UpdateAction} (h : validateUpdate b n = .ok action)
    (hp : parseUpdate b = some u) : ∃ attrs s, UpdateAt b u attrs ∧
      SliceLoop.loop (attributeBody n) attrs Scan.start = .ok s ∧
      ((!u.nlri.isEmpty || s.mpReach) = true ↔ u.Reachable) := by
  obtain ⟨attrs, hat⟩ := updateAt_of_parse hp
  have hfatal : ¬ u.Fatal n := by
    intro hf
    rcases validateUpdate_parsed (n := n) hp with ⟨-, e, he⟩ | ⟨hf', -⟩
    · rw [he] at h
      cases h
    · exact hf' hf
  have hbroken : ¬ u.Broken := fun hb => hfatal (Or.inl hb)
  have hstart : ∀ k, Scan.start.seen k = true ↔ k ∈ ([] : List UInt8) := by
    simp [Scan.start]
  rcases readAll_eq (n := n) u.attributes hstart with
    ⟨hf, -⟩ | ⟨-, s, hs, hseen, hreach, hact⟩
  · exact absurd (Or.inr (Or.inr (Or.inl hf))) hbroken
  · have hmp : brokenMp u.rest = false := by
      rw [← Bool.not_eq_true, brokenMp_iff]
      exact fun hb => hbroken (Or.inr (Or.inr (Or.inr hb)))
    obtain ⟨s', hs', hfin⟩ := finished_of_walk (n := n) hseen
      (by simpa [Scan.start] using hreach) (by simpa [Scan.start] using hact) hmp
    refine ⟨attrs, s', hat, ?_, ?_⟩
    · rw [attributeLoop_eq, hat.walk, hs, ok_bind]
      exact hs'
    · simp [UpdateSections.Reachable, hfin.reach]

/-- For every UPDATE the validator accepts, the diagnostic decoder returns all trailing prefixes
followed by all prefixes of the unicast MP_REACH_NLRI the walk met; there are some exactly when
the validator counts the message as reachable, as it does before it asks for a withdrawal. -/
theorem updatePrefixes_agrees {action : UpdateAction} (h : validateUpdate b n = .ok action) :
    ∃ u attrs s legacy reach, parseUpdate b = some u ∧ UpdateAt b u attrs ∧
      SliceLoop.loop (attributeBody n) attrs Scan.start = .ok s ∧
      decodeNlri false u.nlri = some legacy ∧
      (∀ a ∈ u.attributes, a.kind = 14 → u.value 14 = some a.data) ∧
      mpPrefixes decodeMpReach (u.value 14) = some reach ∧
      updatePrefixes b = .ok (legacy ++ reach) ∧
      (legacy ++ reach ≠ [] ↔ (!u.nlri.isEmpty || s.mpReach) = true) ∧
      (action = .treatAsWithdraw → legacy ++ reach ≠ []) := by
  cases hp : parseUpdate b with
  | none =>
    obtain ⟨e, he⟩ := validateUpdate_none (n := n) hp
    rw [he] at h
    cases h
  | some u =>
    obtain ⟨attrs, s, hat, hs, hreachable⟩ := scan_of_ok h hp
    rcases validateUpdate_parsed (n := n) hp with ⟨-, e, he⟩ | ⟨hfatal, hok⟩
    · rw [he] at h
      cases h
    · have hpacked : (nlriCode (familyBits false)).Packed u.nlri := by
        by_contra hb
        exact hfatal (Or.inl (Or.inr (Or.inl hb)))
      have hnot : ¬ FatalIn [] u.attributes := fun hb =>
        hfatal (Or.inl (Or.inr (Or.inr (Or.inl hb))))
      obtain ⟨legacy, hlegacy, happend, hne⟩ := appendNlri_packed false hpacked []
      obtain ⟨reach, hreach, hfold, hne', honly⟩ := appendMp_all hnot ([] ++ legacy)
      have hiff : legacy ++ reach ≠ [] ↔ u.Reachable := by
        rw [UpdateSections.Reachable, ← hne, ← hne', Ne, List.append_eq_nil_iff]
        tauto
      refine ⟨u, attrs, s, legacy, reach, rfl, hat, hs, hlegacy, honly, hreach, ?_, ?_, ?_⟩
      · rw [updatePrefixes_parsed hp, happend, ok_bind, hfold]
        rfl
      · rw [hreachable]
        exact hiff
      · intro haction
        rw [hiff]
        by_contra hr
        rw [h, Except.ok.injEq] at hok
        exact hfatal (Or.inr ⟨by rw [← hok, haction], hr⟩)

/-- An UPDATE without its mandatory attributes is withdrawn, and its prefix is named. -/
theorem example_update_agrees : ∃ nets, updatePrefixes
    (completeSections [] [24, 198, 51, 100] [⟨0x40, 1, [0]⟩]).octets = .ok nets ∧ nets ≠ [] := by
  have hok : validateUpdate (completeSections [] [24, 198, 51, 100] [⟨0x40, 1, [0]⟩]).octets
      externalSession = .ok .treatAsWithdraw := by decide +kernel
  obtain ⟨-, -, -, legacy, reach, -, -, -, -, -, -, hnets, -, hne⟩ := updatePrefixes_agrees hok
  exact ⟨legacy ++ reach, hnets, hne rfl⟩

end Ubgp
