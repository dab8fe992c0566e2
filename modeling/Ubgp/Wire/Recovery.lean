import Ubgp.Wire.Sections

/-! What the classification of an UPDATE depends on: not the order of its attributes, but the
place where its attribute section is cut. -/
namespace Ubgp

variable {n : Negotiated} {a : Attribute} {as bs : List Attribute} {earlier : List UInt8}

/-! Attributes of distinct types. -/

/-- The types of the list are distinct and none is among the earlier ones. -/
def Distinct (earlier : List UInt8) (as : List Attribute) : Prop :=
  (earlier ++ as.map Attribute.kind).Nodup

theorem Distinct.head_fresh (h : Distinct earlier (a :: as)) : a.kind ∉ earlier := by
  intro hk
  have hd := (List.nodup_append.mp h).2.2
  exact hd a.kind hk a.kind (by simp) rfl

theorem Distinct.tail (h : Distinct earlier (a :: as)) : Distinct (earlier ++ [a.kind]) as := by
  unfold Distinct at h ⊢
  simpa using h

/-- An attribute of a new type is fatal by itself or not at all. -/
theorem Attribute.fatal_iff_alone (hk : a.kind ∉ earlier) : a.Fatal earlier ↔ a.Fatal [] := by
  simp [Attribute.Fatal, hk]

theorem Attribute.severity_alone (hk : a.kind ∉ earlier) :
    a.severity n earlier = a.severity n [] := by
  by_cases hi : Attribute.Ignored n a.kind
  · simp [Attribute.severity, hi]
  · simp [Attribute.severity, hk, hi]

theorem not_fatalIn_nil : ¬ FatalIn earlier [] := by
  rintro ⟨before, a, after, heq, -⟩
  simp at heq

theorem fatalIn_distinct (h : Distinct earlier as) :
    FatalIn earlier as ↔ ∃ a ∈ as, a.Fatal [] := by
  induction as generalizing earlier with
  | nil => simp [not_fatalIn_nil]
  | cons a as ih =>
    have ha := Attribute.fatal_iff_alone h.head_fresh
    have has := ih h.tail
    rw [fatalIn_cons, ha, has]
    simp

theorem worst_le_distinct (h : Distinct earlier as) {c : UpdateAction} :
    worst n earlier as ≤ c ↔ ∀ a ∈ as, a.severity n [] ≤ c := by
  induction as generalizing earlier with
  | nil =>
    have hbot : UpdateAction.valid ≤ c := bot_le
    simp [worst, hbot]
  | cons a as ih =>
    have ha := Attribute.severity_alone (n := n) h.head_fresh
    have has := ih h.tail
    rw [worst, max_le_iff, ha, has]
    simp

theorem distinct_perm (h : as.Perm bs) : Distinct [] as ↔ Distinct [] bs :=
  (h.map Attribute.kind).nodup_iff

theorem fatalIn_perm (hp : as.Perm bs) (hd : Distinct [] as) : FatalIn [] as ↔ FatalIn [] bs := by
  have hd' := (distinct_perm hp).mp hd
  rw [fatalIn_distinct hd, fatalIn_distinct hd']
  simp only [hp.mem_iff]

theorem worst_perm (hp : as.Perm bs) (hd : Distinct [] as) : worst n [] as = worst n [] bs := by
  have hd' := (distinct_perm hp).mp hd
  apply eq_of_forall_ge_iff
  intro c
  rw [worst_le_distinct hd, worst_le_distinct hd']
  simp only [hp.mem_iff]

/-! The message built from a list of attributes. -/

/-- The sections of an UPDATE whose attribute section is complete. -/
def completeSections (withdrawn nlri : Bytes) (as : List Attribute) : UpdateSections :=
  ⟨withdrawn, as, [], nlri⟩

theorem reachable_perm (withdrawn nlri : Bytes) (hp : as.Perm bs) :
    (completeSections withdrawn nlri as).Reachable ↔
      (completeSections withdrawn nlri bs).Reachable := by
  simp only [UpdateSections.Reachable, completeSections, hp.mem_iff]

theorem missing_perm (withdrawn nlri : Bytes) (hp : as.Perm bs) :
    (completeSections withdrawn nlri as).Missing n ↔
      (completeSections withdrawn nlri bs).Missing n := by
  have hr := reachable_perm withdrawn nlri hp
  have hkinds (k : UInt8) : k ∈ (completeSections withdrawn nlri as).kinds ↔
      k ∈ (completeSections withdrawn nlri bs).kinds := (hp.map Attribute.kind).mem_iff
  simp only [UpdateSections.Missing, hr, hkinds]
  rfl

theorem severity_perm (withdrawn nlri : Bytes) (hp : as.Perm bs) (hd : Distinct [] as) :
    (completeSections withdrawn nlri as).severity n =
      (completeSections withdrawn nlri bs).severity n := by
  have hw := worst_perm (n := n) hp hd
  have hm := missing_perm (n := n) withdrawn nlri hp
  have hrest (cs : List Attribute) : (completeSections withdrawn nlri cs).rest = [] := rfl
  have hattrs (cs : List Attribute) : (completeSections withdrawn nlri cs).attributes = cs := rfl
  by_cases h : (completeSections withdrawn nlri as).Missing n
  · have h' := hm.mp h
    simp [UpdateSections.severity, h, h', max_treatAsWithdraw]
  · have h' := mt hm.mpr h
    simp [UpdateSections.severity, h, h', hrest, hattrs, hw]

theorem fatal_perm (withdrawn nlri : Bytes) (hp : as.Perm bs) (hd : Distinct [] as) :
    (completeSections withdrawn nlri as).Fatal n ↔
      (completeSections withdrawn nlri bs).Fatal n := by
  have hf := fatalIn_perm hp hd
  have hs := severity_perm (n := n) withdrawn nlri hp hd
  have hr := reachable_perm withdrawn nlri hp
  simp only [UpdateSections.Fatal, hs, hr, UpdateSections.Broken]
  simp only [completeSections, hf]

theorem length_flatMap_perm (hp : as.Perm bs) :
    (as.flatMap attributeCode.encode).length = (bs.flatMap attributeCode.encode).length :=
  (hp.flatMap_right attributeCode.encode).length_eq

/-- Attribute order does not matter: where the types are distinct, the message and every
reordering of its attributes are both refused or both get the same action. -/
theorem validateUpdate_perm (n : Negotiated) (withdrawn nlri : Bytes) (hp : as.Perm bs)
    (hk : (as.map Attribute.kind).Nodup) (hf : ∀ a ∈ as, a.Fits)
    (hw : withdrawn.length < 65536)
    (ha : (as.flatMap attributeCode.encode).length < 65536) :
    (∃ e e', validateUpdate (completeSections withdrawn nlri as).octets n =
        .error (.protocol e) ∧
      validateUpdate (completeSections withdrawn nlri bs).octets n = .error (.protocol e')) ∨
    ∃ action, validateUpdate (completeSections withdrawn nlri as).octets n = .ok action ∧
      validateUpdate (completeSections withdrawn nlri bs).octets n = .ok action := by
  have hd : Distinct [] as := hk
  have hparse := parseUpdate_octets (u := completeSections withdrawn nlri as) hf rfl hw ha
  have hparse' := parseUpdate_octets (u := completeSections withdrawn nlri bs)
    (fun a h => hf a (hp.mem_iff.mpr h)) rfl hw (by
      rw [length_flatMap_perm hp] at ha
      exact ha)
  have hfatal := fatal_perm (n := n) withdrawn nlri hp hd
  have hsev := severity_perm (n := n) withdrawn nlri hp hd
  rcases validateUpdate_parsed (n := n) hparse with ⟨h, e, he⟩ | ⟨h, hok⟩
  · rcases validateUpdate_parsed (n := n) hparse' with ⟨-, e', he'⟩ | ⟨h', -⟩
    · exact Or.inl ⟨e, e', he, he'⟩
    · exact absurd (hfatal.mp h) h'
  · rcases validateUpdate_parsed (n := n) hparse' with ⟨h', -⟩ | ⟨-, hok'⟩
    · exact absurd (hfatal.mpr h') h
    · refine Or.inr ⟨_, hok, ?_⟩
      rw [hok', hsev]

/-- A session with four-octet AS numbers and an external peer. -/
def externalSession : Negotiated := ⟨0xC0000202#32, 90, true, false, true, true⟩

/-- A malformed MULTI_EXIT_DISC and an ORIGIN, in either order. -/
theorem example_update_perm :
    (∃ e e', validateUpdate (completeSections [] [24, 198, 51, 100]
        [⟨0x40, 1, [0]⟩, ⟨0x80, 4, [0, 0, 0]⟩]).octets externalSession = .error (.protocol e) ∧
      validateUpdate (completeSections [] [24, 198, 51, 100]
        [⟨0x80, 4, [0, 0, 0]⟩, ⟨0x40, 1, [0]⟩]).octets externalSession =
        .error (.protocol e')) ∨
    ∃ action, validateUpdate (completeSections [] [24, 198, 51, 100]
        [⟨0x40, 1, [0]⟩, ⟨0x80, 4, [0, 0, 0]⟩]).octets externalSession = .ok action ∧
      validateUpdate (completeSections [] [24, 198, 51, 100]
        [⟨0x80, 4, [0, 0, 0]⟩, ⟨0x40, 1, [0]⟩]).octets externalSession = .ok action :=
  validateUpdate_perm externalSession [] [24, 198, 51, 100] (List.Perm.swap _ _ _) (by decide)
    (by decide) (by decide) (by decide)

/-! An attribute section cut short. -/

/-- The octets of an UPDATE body, the rest of its attribute section included. -/
def UpdateSections.message (u : UpdateSections) : Bytes :=
  BigEndian.encode 2 u.withdrawn.length ++ (u.withdrawn ++
    (BigEndian.encode 2 (u.attributes.flatMap attributeCode.encode ++ u.rest).length ++
      ((u.attributes.flatMap attributeCode.encode ++ u.rest) ++ u.nlri)))

theorem parseUpdate_message {u : UpdateSections} (hf : ∀ a ∈ u.attributes, a.Fits)
    (hr : attributeCode.head u.rest = none) (hw : u.withdrawn.length < 65536)
    (ha : (u.attributes.flatMap attributeCode.encode ++ u.rest).length < 65536) :
    parseUpdate u.message = some u := by
  have hwalk := Delimited.walk_encode (c := attributeCode) hf hr
  have hfirst := lengthPrefixed_encode (BigEndian.encode 2
    (u.attributes.flatMap attributeCode.encode ++ u.rest).length ++
      ((u.attributes.flatMap attributeCode.encode ++ u.rest) ++ u.nlri)) hw
  have hsecond := lengthPrefixed_encode u.nlri ha
  simp only [parseUpdate, UpdateSections.message, hfirst, Option.bind_eq_bind, Option.bind_some,
    hsecond, hwalk]
  rfl

/-- A proper part of a multiprotocol attribute that still has its flags and type. -/
def CutMp (cut : Bytes) : Prop :=
  2 ≤ cut.length ∧ ∃ (m : Attribute) (tail : Bytes), isMp m.kind = true ∧ m.Fits ∧ tail ≠ [] ∧
    attributeCode.encode m = cut ++ tail

theorem CutMp.head_eq_none {cut : Bytes} (h : CutMp cut) : attributeCode.head cut = none := by
  obtain ⟨-, m, tail, -, hfits, htail, hcut⟩ := h
  exact Delimited.head_cut hfits hcut htail

theorem CutMp.ne_nil {cut : Bytes} (h : CutMp cut) : cut ≠ [] := by
  rintro rfl
  have hlen := h.1
  simp at hlen

/-- The walk recognises the cut attribute when its length field has begun. -/
theorem CutMp.brokenMp_iff {cut : Bytes} (h : CutMp cut) : BrokenMp cut ↔ 3 ≤ cut.length := by
  constructor
  · rintro ⟨flags, kind, x, tail, rfl, -⟩
    simp
  · intro hlen
    obtain ⟨-, m, tail, hm, -, -, hcut⟩ := h
    rcases cut with - | ⟨flags, - | ⟨kind, - | ⟨x, cut⟩⟩⟩
    · simp at hlen
    · simp at hlen
    · simp at hlen
    · simp only [attributeCode, List.cons_append, List.cons.injEq] at hcut
      exact ⟨flags, kind, x, cut, rfl, hcut.2.1 ▸ hm⟩

theorem severity_of_rest {u : UpdateSections} (h : u.rest ≠ []) :
    u.severity n = .treatAsWithdraw := by
  simp [UpdateSections.severity, h, max_treatAsWithdraw]

/-- A cut multiprotocol attribute resets the session exactly when the cut leaves the first octet
of its length field, or the message is broken elsewhere, or has no reachable NLRI to withdraw. -/
theorem validateUpdate_cut_iff (n : Negotiated) {u : UpdateSections} (hc : CutMp u.rest)
    (hf : ∀ a ∈ u.attributes, a.Fits) (hw : u.withdrawn.length < 65536)
    (ha : (u.attributes.flatMap attributeCode.encode ++ u.rest).length < 65536) :
    (∃ e, validateUpdate u.message n = .error e) ↔
      3 ≤ u.rest.length ∨ ¬ (nlriCode 32).Packed u.withdrawn ∨ ¬ (nlriCode 32).Packed u.nlri ∨
        FatalIn [] u.attributes ∨ ¬ u.Reachable := by
  have hparse := parseUpdate_message hf hc.head_eq_none hw ha
  have hbroken := hc.brokenMp_iff
  have hsev := severity_of_rest (n := n) hc.ne_nil
  have hfatal : u.Fatal n ↔ 3 ≤ u.rest.length ∨ ¬ (nlriCode 32).Packed u.withdrawn ∨
      ¬ (nlriCode 32).Packed u.nlri ∨ FatalIn [] u.attributes ∨ ¬ u.Reachable := by
    simp only [UpdateSections.Fatal, UpdateSections.Broken, hbroken, hsev, true_and]
    tauto
  rw [← hfatal]
  rcases validateUpdate_parsed (n := n) hparse with ⟨h, e, he⟩ | ⟨h, hok⟩
  · exact ⟨fun _ => h, fun _ => ⟨_, he⟩⟩
  · refine ⟨fun ⟨e, he⟩ => ?_, fun h' => absurd h' h⟩
    rw [hok] at he
    cases he

/-- A valid announcement of one prefix, followed by the flags and type of an MP_REACH_NLRI. -/
def exampleCut : UpdateSections :=
  ⟨[], [⟨0x40, 1, [0]⟩, ⟨0x40, 2, []⟩, ⟨0x40, 3, [192, 0, 2, 1]⟩], [0x80, 14], [24, 198, 51, 100]⟩

/-- The cut attribute is lost and the announcement is withdrawn, with the session up. -/
theorem exampleCut_recovered : CutMp exampleCut.rest ∧ (∀ a ∈ exampleCut.attributes, a.Fits) ∧
    validateUpdate exampleCut.message externalSession = .ok .treatAsWithdraw := by
  refine ⟨⟨by decide, ⟨0x80, 14, []⟩, [0], by decide, by decide, by simp, rfl⟩, by decide, ?_⟩
  decide +kernel

/-- One octet more of the same attribute. -/
theorem example_update_cut :
    ∃ e, validateUpdate (UpdateSections.message { exampleCut with rest := [0x80, 14, 7] })
      externalSession = .error e :=
  (validateUpdate_cut_iff externalSession (u := { exampleCut with rest := [0x80, 14, 7] })
    ⟨by decide, ⟨0x80, 14, [0, 1, 1, 0, 0, 0, 0]⟩, [0, 1, 1, 0, 0, 0, 0], by decide, by decide,
      by simp, rfl⟩ (by decide) (by decide) (by decide)).mpr (Or.inl (by decide))

end Ubgp
