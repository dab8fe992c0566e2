import Ubgp.Bgp.Listeners
import Ubgp.Lib.Terminal
import Ubgp.Management.Line

/-! The texts of the console: how values are shown (`Display` of the standard library and `ipnet`),
`safe` and the commands of `console` in `management.rs`. -/
namespace Ubgp
namespace Console

/-! Values. -/

def showBool (b : Bool) : String := if b then "true" else "false"

def showV4 (a : Ipv4Addr) : String := ".".intercalate ((octets a).map (fun b => toString b.toNat))

/-- The eight groups of an address. -/
def segments (a : Ipv6Addr) : List ℕ :=
  (List.range 8).map (fun i => a.toNat / 65536 ^ (7 - i) % 65536)

/-- A run of zero groups. -/
structure Span where
  start : ℕ
  len : ℕ

/-- The loop over the groups: the current run and the first of the longest ones. -/
def zeroes : ℕ → List ℕ → Span → Span → Span
  | _, [], _, longest => longest
  | i, segment :: rest, current, longest =>
    if segment = 0 then
      let current := ⟨if current.len = 0 then i else current.start, current.len + 1⟩
      zeroes (i + 1) rest current (if longest.len < current.len then current else longest)
    else zeroes (i + 1) rest ⟨0, 0⟩ longest

def hex (n : ℕ) : String := String.ofList (Nat.toDigits 16 n)

def showSegments (groups : List ℕ) : String := ":".intercalate (groups.map hex)

/-- IPv4-mapped addresses end in a dotted quad; the longest run of at least two zero groups is
left out. -/
def showV6 (a : Ipv6Addr) : String :=
  if a.toNat / 2 ^ 32 = 65535 then "::ffff:" ++ showV4 (BitVec.ofNat 32 a.toNat)
  else
    let z := zeroes 0 (segments a) ⟨0, 0⟩ ⟨0, 0⟩
    if 1 < z.len then
      showSegments ((segments a).take z.start) ++ "::" ++
        showSegments ((segments a).drop (z.start + z.len))
    else showSegments (segments a)

def showIp : IpAddr → String
  | .v4 a => showV4 a
  | .v6 a => showV6 a

def showNet : IpNet → String
  | .v4 p => showV4 p.addr ++ "/" ++ toString p.prefixLen
  | .v6 p => showV6 p.addr ++ "/" ++ toString p.prefixLen

/-- The `Debug` form of a list of numbers. -/
def showTables (tables : List UInt32) : String :=
  "[" ++ ", ".intercalate (tables.map (fun t => toString t.toNat)) ++ "]"

/-- Replace non-ASCII and control characters with a question mark for terminal-safe output. -/
def safe (text : String) : String :=
  String.ofList (text.toList.map (fun c =>
    if Terminal.isAscii c && !Terminal.isAsciiControl c then c else '?'))

/-! Commands. -/

/-- The Unicode property `White_Space`. -/
def isWhitespace (c : Char) : Bool :=
  let n := c.toNat
  decide (9 ≤ n ∧ n ≤ 13) || decide (8192 ≤ n ∧ n ≤ 8202) ||
    [32, 133, 160, 5760, 8232, 8233, 8239, 8287, 12288].contains n

def splitWhitespace (line : String) : List String :=
  ((line.toList.splitOnP isWhitespace).filter (· ≠ [])).map String.ofList

inductive Command
  | quit
  | nothing
  | help
  | summary
  | peers
  | routes (acl : String) (net : Option String)
  | unknown
deriving DecidableEq

/-- The patterns of `console`. -/
def command (line : String) : Command :=
  match splitWhitespace line with
  | ["quit"] | ["exit"] => .quit
  | [] => .nothing
  | ["help"] | ["?"] => .help
  | ["show", "summary"] => .summary
  | ["show", "peers"] => .peers
  | ["show", "routes", acl] => .routes acl none
  | ["show", "routes", acl, net] => .routes acl (some net)
  | _ => .unknown

/-! Texts. -/

def greeting : String := "ubgp read-only management CLI\r\nType help for commands.\r\nubgp> "
def prompt : String := "ubgp> "
def HELP : String :=
  "help                       Show commands\r\n" ++
  "show summary               Router and session summary\r\n" ++
  "show peers                 Peer state, state age and last error\r\n" ++
  "show routes ACL [PREFIX]    ACL export candidates (maximum 100; not advertised RIB)\r\n" ++
  "quit / exit                Close console\r\n"

open Listeners (PeerStatus)

def established (statuses : List PeerStatus) : ℕ :=
  (statuses.filter (fun s => s.state == "Established")).length

def summaryText (cfg : Config) (statuses : List PeerStatus) : String :=
  String.join ["Router ID ", showV4 cfg.routerId, "  AS ", toString cfg.asn.toNat, "  IPv6 ",
    showBool cfg.ipv6, "\r\nPeers ", toString cfg.peers.length, "  Established ",
    toString (established statuses), "\r\nSelected tables ", showTables cfg.kernel.tables,
    "\r\nACLs: ", toString cfg.acls.keys.length, "\r\n"]

def aclText (name : String) (count : ℕ) : String :=
  String.join ["  ", safe name, ": ", toString count, " export candidates\r\n"]

def peersHeader : String := "Peer / interface  Remote-AS  State  Age(s)  MD5  Last error\r\n"

/-- Times are in milliseconds, the age is in seconds. -/
def peerText (p : Peer) (status : PeerStatus) (now : ℕ) : String :=
  String.join [showIp p.address, " / ", safe p.interface, "  ", toString p.remoteAsn.toNat, "  ",
    status.state, "  ", toString ((now - status.since) / 1000), "  ",
    showBool p.md5Password.isSome, "  ", safe (status.lastError.getD "-"), "\r\n"]

def routesHeader : String := "ACL export candidates; not confirmation of peer advertisement.\r\n"

def routeText (net : IpNet) : String := showNet net ++ "\r\n"

def routesTrailer (shown total : ℕ) : String :=
  String.join ["Shown ", toString shown, "; ACL total ", toString total,
    " (unordered, limit 100)\r\n"]

/-! The texts are clean. -/

open Terminal (Clean clean_of_isClean clean_digits clean_nat)

theorem clean_safe (text : String) : Clean (safe text).toList := by
  rw [safe, String.toList_ofList]
  refine .of_printable fun c hc => ?_
  obtain ⟨d, -, rfl⟩ := List.mem_map.mp hc
  split
  · rename_i h
    exact h
  · rfl

theorem clean_hex (n : ℕ) : Clean (hex n).toList := by
  rw [hex, String.toList_ofList]
  exact clean_digits 16 n

theorem clean_bool (b : Bool) : Clean (showBool b).toList := by
  cases b <;> exact clean_of_isClean rfl

theorem clean_v4 (a : Ipv4Addr) : Clean (showV4 a).toList := by
  refine .intersperse (clean_of_isClean rfl) fun t ht => ?_
  obtain ⟨b, -, rfl⟩ := List.mem_map.mp ht
  exact clean_nat _

theorem clean_segments (groups : List ℕ) : Clean (showSegments groups).toList := by
  refine .intersperse (clean_of_isClean rfl) fun t ht => ?_
  obtain ⟨n, -, rfl⟩ := List.mem_map.mp ht
  exact clean_hex n

theorem clean_v6 (a : Ipv6Addr) : Clean (showV6 a).toList := by
  unfold showV6
  split
  · exact .concat (clean_of_isClean rfl) (clean_v4 _)
  · simp only
    split
    · exact .concat (.concat (clean_segments _) (clean_of_isClean rfl)) (clean_segments _)
    · exact clean_segments _

theorem clean_ip (a : IpAddr) : Clean (showIp a).toList := by
  cases a with
  | v4 a => exact clean_v4 a
  | v6 a => exact clean_v6 a

theorem clean_net (net : IpNet) : Clean (showNet net).toList := by
  cases net with
  | v4 p => exact .concat (.concat (clean_v4 _) (clean_of_isClean rfl)) (clean_nat _)
  | v6 p => exact .concat (.concat (clean_v6 _) (clean_of_isClean rfl)) (clean_nat _)

theorem clean_tables (tables : List UInt32) : Clean (showTables tables).toList := by
  refine .concat (.concat (clean_of_isClean rfl) ?_) (clean_of_isClean rfl)
  refine .intersperse (clean_of_isClean rfl) fun t ht => ?_
  obtain ⟨n, -, rfl⟩ := List.mem_map.mp ht
  exact clean_nat _

theorem clean_greeting : Clean greeting.toList := clean_of_isClean (by decide +kernel)

theorem clean_prompt : Clean prompt.toList := clean_of_isClean rfl

theorem clean_HELP : Clean HELP.toList := by
  refine .concat (.concat (.concat (.concat ?_ ?_) ?_) ?_) ?_
  all_goals exact clean_of_isClean (by decide +kernel)

theorem clean_peersHeader : Clean peersHeader.toList := clean_of_isClean (by decide +kernel)

theorem clean_routesHeader : Clean routesHeader.toList := clean_of_isClean (by decide +kernel)

theorem clean_summaryText (cfg : Config) (statuses : List PeerStatus) :
    Clean (summaryText cfg statuses).toList := by
  apply Clean.join
  simp only [List.forall_mem_cons, List.not_mem_nil, false_imp_iff, implies_true, and_true]
  exact ⟨clean_of_isClean rfl, clean_v4 _, clean_of_isClean rfl, clean_nat _, clean_of_isClean rfl,
    clean_bool _, clean_of_isClean rfl, clean_nat _, clean_of_isClean rfl, clean_nat _,
    clean_of_isClean rfl, clean_tables _, clean_of_isClean rfl, clean_nat _, clean_of_isClean rfl⟩

theorem clean_aclText (name : String) (count : ℕ) : Clean (aclText name count).toList := by
  apply Clean.join
  simp only [List.forall_mem_cons, List.not_mem_nil, false_imp_iff, implies_true, and_true]
  exact ⟨clean_of_isClean rfl, clean_safe _, clean_of_isClean rfl, clean_nat _,
    clean_of_isClean rfl⟩

theorem clean_peerText (p : Peer) {status : PeerStatus} (h : Clean status.state.toList) (now : ℕ) :
    Clean (peerText p status now).toList := by
  apply Clean.join
  simp only [List.forall_mem_cons, List.not_mem_nil, false_imp_iff, implies_true, and_true]
  exact ⟨clean_ip _, clean_of_isClean rfl, clean_safe _, clean_of_isClean rfl, clean_nat _,
    clean_of_isClean rfl, h, clean_of_isClean rfl, clean_nat _, clean_of_isClean rfl, clean_bool _,
    clean_of_isClean rfl, clean_safe _, clean_of_isClean rfl⟩

theorem clean_routeText (net : IpNet) : Clean (routeText net).toList :=
  .concat (clean_net net) (clean_of_isClean rfl)

theorem clean_routesTrailer (shown total : ℕ) : Clean (routesTrailer shown total).toList := by
  apply Clean.join
  simp only [List.forall_mem_cons, List.not_mem_nil, false_imp_iff, implies_true, and_true]
  exact ⟨clean_of_isClean rfl, clean_nat _, clean_of_isClean rfl, clean_nat _,
    clean_of_isClean rfl⟩

end Console
end Ubgp
