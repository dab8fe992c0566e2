import Mathlib.Data.Finmap
import Ubgp.Wire.Basic

/-! Prefix sets, per-ACL exports and the ACL filter (`netlink.rs`). -/
namespace Ubgp

abbrev Prefixes := Finset IpNet
abbrev Exports := Finmap (fun _ : String => Prefixes)

namespace Netlink

/-- The entry of one referenced ACL; an ACL absent from the configuration panics. -/
def filterAcl (cfg : Config) (prefixes : Prefixes) (name : String) :
    Result (Sigma fun _ : String => Prefixes) :=
  match cfg.acls.lookup name with
  | some acl => .ok ⟨name, prefixes.filter (fun p => acl.permits p)⟩
  | none => .error .panic

/-- Build one shared prefix set per referenced export ACL from a kernel snapshot. -/
def filter (cfg : Config) (prefixes : Prefixes) : Result Exports := do
  let entries ← ((cfg.peers.map Peer.exportAcl).dedup).mapM (filterAcl cfg prefixes)
  return entries.toFinmap

end Netlink

/-- The exports of an ACL, defaulting to empty (`desired` after the receiver was marked). -/
def desired (e : Exports) (acl : String) : Prefixes := (e.lookup acl).getD ∅

namespace Netlink
variable {cfg : Config} {names : List String}

theorem mapM_filterAcl (prefixes : Prefixes) (h : ∀ a ∈ names, a ∈ cfg.acls) :
    ∃ entries, names.mapM (filterAcl cfg prefixes) = .ok entries ∧
      ∀ a, entries.dlookup a =
        if a ∈ names then
          (cfg.acls.lookup a).map (fun acl => prefixes.filter (fun p => acl.permits p))
        else none := by
  induction names with
  | nil => exact ⟨[], rfl, by simp⟩
  | cons b names ih =>
    obtain ⟨entries, he, hl⟩ := ih (fun a ha => h a (List.mem_cons_of_mem _ ha))
    obtain ⟨acl, hacl⟩ := Option.isSome_iff_exists.mp (AList.lookup_isSome.mpr (h b (by simp)))
    refine ⟨⟨b, prefixes.filter (fun p => acl.permits p)⟩ :: entries, ?_, ?_⟩
    · simp [List.mapM_cons, filterAcl, hacl, he]
    · intro a
      by_cases hab : b = a
      · subst hab
        simp [hacl]
      · rw [List.dlookup_cons_ne _ _ (fun e => hab e.symm), hl a]
        simp [Ne.symm hab]

/-- With every referenced ACL present, filtering succeeds and each peer's entry holds exactly the
prefixes its ACL permits. -/
theorem filter_spec (prefixes : Prefixes) (h : ∀ p ∈ cfg.peers, p.exportAcl ∈ cfg.acls) :
    ∃ e, filter cfg prefixes = .ok e ∧
      ∀ p ∈ cfg.peers, ∀ acl, cfg.acls.lookup p.exportAcl = some acl →
        desired e p.exportAcl = prefixes.filter (fun q => acl.permits q) := by
  have hn : ∀ a ∈ (cfg.peers.map Peer.exportAcl).dedup, a ∈ cfg.acls := by
    intro a ha
    obtain ⟨p, hp, rfl⟩ := List.mem_map.mp (List.mem_dedup.mp ha)
    exact h p hp
  obtain ⟨entries, he, hl⟩ := mapM_filterAcl prefixes hn
  refine ⟨entries.toFinmap, by simp [filter, he], ?_⟩
  intro p hp acl hacl
  have hmem : p.exportAcl ∈ (cfg.peers.map Peer.exportAcl).dedup :=
    List.mem_dedup.mpr (List.mem_map.mpr ⟨p, hp, rfl⟩)
  simp only [desired, Finmap.dlookup_list_toFinmap, hl, hmem, if_true, hacl, Option.map_some,
    Option.getD_some]

end Netlink
end Ubgp
