import Ubgp.Bgp.Sync
import Ubgp.Netlink.Message
import Ubgp.Wire.Negotiation
import Ubgp.Wire.Update

/-! No route leak: what is announced comes from the adopted kernel set, through the peer's own
ACL and the negotiated families. -/
namespace Ubgp

/-- First-match evaluation with implicit deny: a permit rule matches after rules that do not. -/
def FirstMatchPermits (acl : Acl) (p : IpNet) : Prop :=
  ∃ before r after, acl.rules = before ++ r :: after ∧ r.action = .permit ∧
    (r.net.contains p = true ∧ r.low ≤ p.prefixLen ∧ p.prefixLen ≤ r.high) ∧
    ∀ r' ∈ before, ¬ (r'.net.contains p = true ∧ r'.low ≤ p.prefixLen ∧ p.prefixLen ≤ r'.high)

theorem Rule.selects_eq_true {r : Rule} {p : IpNet} : r.selects p = true ↔
    r.net.contains p = true ∧ r.low ≤ p.prefixLen ∧ p.prefixLen ≤ r.high := by
  simp [Rule.selects, and_assoc]

theorem Acl.permits_eq_true {acl : Acl} {p : IpNet} :
    acl.permits p = true ↔ FirstMatchPermits acl p := by
  unfold Acl.permits FirstMatchPermits
  simp only [← Rule.selects_eq_true]
  constructor
  · intro h
    split at h
    · rename_i r hr
      obtain ⟨hs, before, after, heq, hb⟩ := List.find?_eq_some_iff_append.mp hr
      exact ⟨before, r, after, heq, by simpa using h, hs, by simpa using hb⟩
    · cases h
  · rintro ⟨before, r, after, heq, hact, hs, hb⟩
    have hfind : acl.rules.find? (·.selects p) = some r :=
      List.find?_eq_some_iff_append.mpr ⟨hs, before, after, heq, by simpa using hb⟩
    rw [hfind]
    simp [hact]

/-- Kernel prefixes as the parser returns them from the selected tables. -/
def FromKernel (cfg : Config) (S : Prefixes) : Prop :=
  ∀ p ∈ S, ∃ payload, Netlink.route payload cfg.kernel.tables = .ok (some p)

/-- An exports value the worker may publish: nothing, or the filter of a kernel set. -/
def Sourced (cfg : Config) (e : Exports) : Prop :=
  e = ∅ ∨ ∃ S, FromKernel cfg S ∧ Netlink.filter cfg S = .ok e

variable {cfg : Config} {P : Peer} {n : Negotiated} {b : Bytes} {e : Exports} {p : IpNet}

/-- A prefix of the peer's exports is in every kernel set behind them and permitted by its ACL. -/
theorem desired_of_filter (hv : cfg.validate = .ok ()) (hP : P ∈ cfg.peers) {S : Prefixes}
    (hS : Netlink.filter cfg S = .ok e) (hp : p ∈ desired e P.exportAcl) :
    p ∈ S ∧ ∃ acl, cfg.acls.lookup P.exportAcl = some acl ∧ FirstMatchPermits acl p := by
  have hvalid := Config.validate_eq_ok.mp hv
  obtain ⟨e', he', hdes⟩ := Netlink.filter_spec S (fun q hq => (hvalid.peers q hq).acl)
  obtain rfl : e' = e := Except.ok.inj (he'.symm.trans hS)
  obtain ⟨acl, hacl⟩ := Option.isSome_iff_exists.mp
    (AList.lookup_isSome.mpr (hvalid.peers P hP).acl)
  rw [hdes P hP acl hacl, Finset.mem_filter] at hp
  exact ⟨hp.1, acl, hacl, Acl.permits_eq_true.mp hp.2⟩

theorem desired_trunc (hv : cfg.validate = .ok ()) (hP : P ∈ cfg.peers) (he : Sourced cfg e)
    (hp : p ∈ desired e P.exportAcl) : p.trunc = p := by
  rcases he with rfl | ⟨S, hk, hS⟩
  · simp [desired] at hp
  · obtain ⟨payload, hr⟩ := hk p (desired_of_filter hv hP hS hp).1
    exact Netlink.route_trunc hr

namespace Transmit
variable {s t : State} {a : Label} {xs : List Label} {t₀ : ℕ} {acl : String}

def applyAdopt (e : Option Exports) : Label → Option Exports
  | .adopt e' => some e'
  | _ => e

/-- The snapshot adopted last. -/
def lastAdopted (xs : List Label) : Option Exports := xs.foldl applyAdopt none

theorem lastAdopted_snoc : lastAdopted (xs ++ [a]) = applyAdopt (lastAdopted xs) a := by
  rw [lastAdopted, lastAdopted, List.foldl_append]
  rfl

/-- The target is what the adopted snapshot holds for the ACL. -/
theorem target_step (h : s.pc = .start ∨ ∃ e, lastAdopted xs = some e ∧ s.target = desired e acl)
    (ha : Step n acl s a t) :
    t.pc = .start ∨ ∃ e, lastAdopted (xs ++ [a]) = some e ∧ t.target = desired e acl := by
  rw [lastAdopted_snoc]
  have keep (hpc : s.pc ≠ .start) : ∃ e, lastAdopted xs = some e ∧ s.target = desired e acl :=
    h.resolve_left hpc
  cases ha.effect with
  | publish | request | notify | tick | close => exact h
  | begin hpc ht | replan hpc _ _ _ ht | changed hpc _ ht =>
    obtain ⟨plan, -, rfl⟩ := adopt_spec ht
    exact Or.inr ⟨_, rfl, rfl⟩
  | swap hpc _ _ _ ht =>
    obtain ⟨plan, -, rfl⟩ := withPlan_spec ht
    exact Or.inr (keep (by simp [hpc]))
  | eor4 hpc | eor6 hpc =>
    refine Or.inr ?_
    split <;> exact keep (by simp [hpc])
  | stop hpc =>
    refine Or.inr (keep ?_)
    rcases hpc with hpc | ⟨armed, hpc⟩ <;> simp [hpc]
  | keep hpc | noSwap hpc | keepalive hpc | noKeepalive hpc | batch hpc | drained hpc | arm hpc
  | notified hpc | timer hpc =>
    exact Or.inr (keep (by simp [hpc]))

theorem target_of_trace (h : Lts.Trace (Step n acl) (init e t₀) xs s) :
    s.pc = .start ∨ ∃ e, lastAdopted xs = some e ∧ s.target = desired e acl :=
  h.history (P := fun xs s => s.pc = .start ∨
    ∃ e, lastAdopted xs = some e ∧ s.target = desired e acl) (Or.inl rfl)
    (fun _ _ _ _ hs ha => target_step hs ha)

/-- An announced prefix is targeted and of an enabled family. -/
theorem announced_mem {batch : List IpNet} (h : Synced n acl s)
    (ha : Step n acl s (.sent (.update false batch)) t) (hp : p ∈ batch) :
    s.pc = .batch ∧ p ∈ s.target ∧ n.enabled p = true := by
  obtain ⟨hpc, plan, hn⟩ := update_next ha
  obtain ⟨-, hsub, -⟩ := (h.plan.batch_mem hn).resolve_left (by simp)
  have hadd := Reconcile.mem_adds.mp (hsub (List.mem_toFinset.mpr hp))
  exact ⟨hpc, Negotiated.mem_gate.mp hadd.1⟩

/-- The snapshot adopted is the one the channel holds. -/
theorem adopt_value {e' : Exports} (ha : Step n acl s (.adopt e') t) : e' = s.channel.value := by
  generalize hb : Label.adopt e' = b at ha
  cases ha.effect with
  | begin | replan | changed =>
    cases hb
    rfl
  | eor4 | eor6 => split at hb <;> cases hb
  | _ => cases hb

/-- An adopted snapshot was published or the first one. -/
theorem adopted_mem {e' : Exports} (h : Lts.Trace (Step n acl) (init e t₀) xs s)
    (hl : lastAdopted xs = some e') : e' = e ∨ Label.publish e' ∈ xs := by
  have hrun := h.history (P := fun xs s =>
    (s.channel.value = e ∨ Label.publish s.channel.value ∈ xs) ∧
      ∀ e', lastAdopted xs = some e' → e' = e ∨ Label.publish e' ∈ xs)
    ⟨Or.inl rfl, fun e' he => by cases he⟩ (by
      rintro xs s a t ⟨hc, hl⟩ ha
      have hval := channel_step ha
      have mono : ∀ e', e' = e ∨ Label.publish e' ∈ xs → e' = e ∨ Label.publish e' ∈ xs ++ [a] :=
        fun e' h => h.imp_right (List.mem_append_left _)
      refine ⟨?_, ?_⟩
      · rw [hval]
        cases a with
        | publish e' => exact Or.inr (List.mem_append_right _ (List.mem_singleton_self _))
        | _ => exact mono _ hc
      · intro e' he
        rw [lastAdopted_snoc] at he
        cases a with
        | adopt e'' =>
          cases he
          rw [← adopt_value ha] at hc
          exact mono _ hc
        | _ => exact mono _ (hl e' he))
  exact hrun.2 e' hl

/-- Everything the peer holds has zero host bits. -/
theorem advertised_trunc (hv : cfg.validate = .ok ()) (hP : P ∈ cfg.peers)
    (hpub : ∀ e', e' = e ∨ Label.publish e' ∈ xs → Sourced cfg e')
    (h : Lts.Trace (Step n P.exportAcl) (init e t₀) xs s) : ∀ p ∈ s.advertised, p.trunc = p := by
  induction h with
  | refl => simp [init]
  | @snoc s t xs a h ha ih =>
    have hpub' : ∀ e', e' = e ∨ Label.publish e' ∈ xs → Sourced cfg e' :=
      fun e' he => hpub e' (he.imp_right (List.mem_append_left _))
    intro p hp
    rw [advertised_step ha] at hp
    have hold := ih hpub'
    cases a with
    | sent m =>
      cases m with
      | keepalive | endOfRib => exact hold p hp
      | update withdraw batch =>
        cases withdraw with
        | true => exact hold p (Finset.mem_sdiff.mp hp).1
        | false =>
          rcases Finset.mem_union.mp hp with hp | hp
          · exact hold p hp
          · obtain ⟨hpc, ht, -⟩ := announced_mem (Synced.of_trace h) ha (List.mem_toFinset.mp hp)
            obtain ⟨e', hl, htarget⟩ := (target_of_trace h).resolve_left (by simp [hpc])
            exact desired_trunc hv hP (hpub' e' (adopted_mem h hl)) (htarget ▸ ht)
    | _ => exact hold p hp

/-- Every announced prefix is in the kernel set behind the adopted snapshot, permitted by the
peer's own ACL, of a family both sides enable, and without host bits, so that its NLRI is told
apart from that of every other prefix the peer holds. -/
theorem no_route_leak (hv : cfg.validate = .ok ()) (hP : P ∈ cfg.peers)
    (hn : parseOpen b cfg P = .ok n) (hpub : ∀ e', e' = e ∨ Label.publish e' ∈ xs → Sourced cfg e')
    (h : Lts.Trace (Step n P.exportAcl) (init e t₀) xs s) :
    (∀ p ∈ s.advertised, ∀ q ∈ s.advertised, p.isIpv6 = q.isIpv6 → nlri p = nlri q → p = q) ∧
    ∀ batch t, Step n P.exportAcl s (.sent (.update false batch)) t → ∀ p ∈ batch,
      (∃ e', lastAdopted xs = some e' ∧
        (∃ S, FromKernel cfg S ∧ Netlink.filter cfg S = .ok e') ∧
        ∀ S, Netlink.filter cfg S = .ok e' → p ∈ S) ∧
      (∃ acl, cfg.acls.lookup P.exportAcl = some acl ∧ FirstMatchPermits acl p) ∧
      n.enabled p = true ∧
      (p.isIpv6 = true → cfg.ipv6 = true ∧ P.ipv6 = true ∧ Ipv6Capability b) ∧
      p.trunc = p := by
  have htrunc := advertised_trunc hv hP hpub h
  refine ⟨fun p hp q hq => nlri_injective (htrunc p hp) (htrunc q hq), ?_⟩
  intro batch t ha p hp
  obtain ⟨hpc, ht, hen⟩ := announced_mem (Synced.of_trace h) ha hp
  obtain ⟨e', hl, htarget⟩ := (target_of_trace h).resolve_left (by simp [hpc])
  have hsrc := hpub e' (adopted_mem h hl)
  rw [htarget] at ht
  have hset : ∃ S, FromKernel cfg S ∧ Netlink.filter cfg S = .ok e' := by
    rcases hsrc with rfl | hset
    · simp [desired] at ht
    · exact hset
  obtain ⟨S, hk, hS⟩ := hset
  refine ⟨⟨e', hl, ⟨S, hk, hS⟩, fun S hS => (desired_of_filter hv hP hS ht).1⟩,
    (desired_of_filter hv hP hS ht).2, hen, ?_, desired_trunc hv hP hsrc ht⟩
  intro h6
  have hn6 : n.ipv6 = true := by
    cases p <;> simp_all [Negotiated.enabled, IpNet.isIpv6, IpNet.isIpv4]
  obtain ⟨hP6, hcap⟩ := parseOpen_ipv6 hn hn6
  have hglobal := ((Config.validate_eq_ok.mp hv).peers P hP).globalIpv6
  exact ⟨hglobal.resolve_right (by simp [hP6]), hP6, hcap⟩

def permittedExports : Exports := Finmap.singleton "export" {examplePrefix}

theorem permittedExports_sourced : Sourced exampleConfig permittedExports := by
  refine Or.inr ⟨{examplePrefix}, ?_, by rfl⟩
  intro p hp
  obtain rfl := Finset.mem_singleton.mp hp
  exact ⟨Netlink.exampleRoute, by decide +kernel⟩

def leakSession : Negotiated := mirroredSession exampleConfig remoteConfig examplePeer remotePeer

def Label.isPublish : Label → Bool
  | .publish _ => true
  | _ => false

theorem leakMoves_exec :
    (Lts.exec (step leakSession "export")
        (.run 0 ⟨[], [examplePrefix]⟩ :: List.replicate 3 (.run 0 ⟨[], []⟩))
        (init permittedExports 0)).map
      (fun r => (r.2.pc, r.2.plan.next.map Prod.fst, r.1.any Label.isPublish)) =
      some (.batch, some (false, [examplePrefix]), false) := by
  decide +kernel

theorem example_no_route_leak :
    ∃ xs s t, Lts.Trace (Step leakSession "export") (init permittedExports 0) xs s ∧
      Step leakSession "export" s (.sent (.update false [examplePrefix])) t ∧
      ∃ acl, exampleConfig.acls.lookup "export" = some acl ∧
        FirstMatchPermits acl examplePrefix := by
  obtain ⟨⟨xs, s⟩, hr, he⟩ := Option.map_eq_some_iff.mp leakMoves_exec
  simp only [Prod.mk.injEq] at he
  obtain ⟨hpc, hn, hsilent⟩ := he
  have htrace := Lts.exec_trace hr
  obtain ⟨t, ht⟩ := step_batch leakSession "export" hpc hn
  have hopen := (parseOpen_mirrored example_mirrored leakSession).mpr
    ⟨fun he => absurd he.2 (by decide), Or.inl ⟨rfl, rfl⟩, rfl⟩
  have hpub : ∀ e', e' = permittedExports ∨ Label.publish e' ∈ xs → Sourced exampleConfig e' := by
    rintro e' (rfl | hmem)
    · exact permittedExports_sourced
    · have hany : xs.any Label.isPublish = true := List.any_eq_true.mpr ⟨_, hmem, rfl⟩
      rw [hsilent] at hany
      cases hany
  obtain ⟨-, hmain⟩ := no_route_leak (P := examplePeer) exampleConfig_valid
    (List.mem_singleton.mpr rfl) hopen hpub htrace
  obtain ⟨-, hacl, -⟩ := hmain _ t ht examplePrefix (List.mem_singleton.mpr rfl)
  exact ⟨xs, s, t, htrace, ht, hacl⟩

end Transmit
end Ubgp
