import Ubgp.Management.Server

/-! What goes over the connection of one client of the console, beside all others. -/
namespace Ubgp
namespace Console
open Listeners (PeerStatus)

variable {cfg : Config} {parse : String → Option IpNet} {w : World} {s t : Server} {a : Label}
  {c c' : Client} {order : List IpNet} {id n : ℕ} {xs : List Label} {acts acts' : List Act}
  {ls ts : List String}

/-! The history of a client. -/

def Label.input (id : ℕ) : Label → Bytes
  | .read i b _ => if i = id then [b] else []
  | _ => []

def Label.line (id : ℕ) : Label → List String
  | .read i _ (some l) => if i = id then [l] else []
  | _ => []

def Label.refusal (id : ℕ) : Label → Bytes
  | .wrote i (.telnet reply) => if i = id then reply else []
  | _ => []

def Label.text (id : ℕ) : Label → List String
  | .wrote i (.text text) => if i = id then [text] else []
  | _ => []

/-- The bytes read from a client, the lines they were taken for, and the refusals and the texts
written to it. -/
def input (id : ℕ) (xs : List Label) : Bytes := xs.flatMap (Label.input id)
def lines (id : ℕ) (xs : List Label) : List String := xs.flatMap (Label.line id)
def refusals (id : ℕ) (xs : List Label) : Bytes := xs.flatMap (Label.refusal id)
def texts (id : ℕ) (xs : List Label) : List String := xs.flatMap (Label.text id)

theorem input_snoc : input id (xs ++ [a]) = input id xs ++ a.input id := by simp [input]

theorem lines_snoc : lines id (xs ++ [a]) = lines id xs ++ a.line id := by simp [lines]

theorem refusals_snoc : refusals id (xs ++ [a]) = refusals id xs ++ a.refusal id := by
  simp [refusals]

theorem texts_snoc : texts id (xs ++ [a]) = texts id xs ++ a.text id := by simp [texts]

/-- A label that is not about the client. -/
structure Label.Quiet (id : ℕ) (a : Label) : Prop where
  input : a.input id = []
  line : a.line id = []
  refusal : a.refusal id = []
  text : a.text id = []

theorem quiet_read {i : ℕ} {b : UInt8} {l : Option String} (h : i ≠ id) :
    (Label.read i b l).Quiet id := by
  refine ⟨by simp [Label.input, h], ?_, rfl, rfl⟩
  cases l <;> simp [Label.line, h]

theorem quiet_chunk {i : ℕ} {chunk : Option Chunk} (h : i ≠ id) :
    (chunk.elim Label.tau (.wrote i)).Quiet id := by
  match chunk with
  | none => exact ⟨rfl, rfl, rfl, rfl⟩
  | some (.text s) => exact ⟨rfl, rfl, rfl, by simp [Label.text, h]⟩
  | some (.telnet r) => exact ⟨rfl, rfl, by simp [Label.refusal, h], rfl⟩

/-! What is left of a response. -/

def Act.refusal : Act → Bytes
  | .write (.telnet reply) => reply
  | _ => []

def owed (acts : List Act) : Bytes := acts.flatMap Act.refusal

/-- The texts that acts are written as, each when it is its turn. -/
inductive Renders (cfg : Config) : List Act → List String → Prop
  | nil : Renders cfg [] []
  | text {s : String} {acts : List Act} {ts : List String} (h : Renders cfg acts ts) :
      Renders cfg (say s :: acts) (s :: ts)
  | telnet {reply : Bytes} {acts : List Act} {ts : List String} (h : Renders cfg acts ts) :
      Renders cfg (.write (.telnet reply) :: acts) ts
  | peer {q now : ℕ} {p : Peer} {status : PeerStatus} {acts : List Act} {ts : List String}
      (hp : cfg.peers[q]? = some p) (h : Renders cfg acts ts) :
      Renders cfg (.peer q :: acts) (peerText p status now :: ts)
  | candidates {w : World} {acts : List Act} {ts : List String}
      (h : Renders cfg (candidateLines cfg w ++ acts) ts) : Renders cfg (.candidates :: acts) ts

/-- The response to a line, beside `n` status records. -/
def Response (cfg : Config) (parse : String → Option IpNet) (n : ℕ) (l : String)
    (ts : List String) : Prop :=
  ∃ w order acts, w.statuses.length = n ∧ respond cfg parse w order (command l) = some acts ∧
    Renders cfg acts ts

/-- The greeting and the responses to some lines, in full and in their order. -/
inductive Answered (cfg : Config) (parse : String → Option IpNet) (n : ℕ) :
    List String → List String → Prop
  | greeting : Answered cfg parse n [] [Console.greeting]
  | response {ls ts : List String} {l : String} {r : List String} (h : Answered cfg parse n ls ts)
      (hr : Response cfg parse n l r) : Answered cfg parse n (ls ++ [l]) (ts ++ r)

/-- The peers whose lines are still to be written are there. -/
def Known (cfg : Config) (n : ℕ) (acts : List Act) : Prop :=
  ∀ q, .peer q ∈ acts → q < cfg.peers.length ∧ q < n

theorem renders_sayings (names : List String) (f : String → String) (h : Renders cfg acts ts) :
    Renders cfg (names.map (fun name => say (f name)) ++ acts) (names.map f ++ ts) := by
  induction names with
  | nil => exact h
  | cons name names ih => exact .text ih

/-- Whatever is left can be written. -/
theorem renders_total (h : Known cfg n acts) : ∃ ts, Renders cfg acts ts := by
  induction acts with
  | nil => exact ⟨[], .nil⟩
  | cons a acts ih =>
    obtain ⟨ts, hts⟩ := ih (fun q hq => h q (List.mem_cons_of_mem a hq))
    cases a with
    | write chunk =>
      cases chunk with
      | text s => exact ⟨s :: ts, .text hts⟩
      | telnet reply => exact ⟨ts, .telnet hts⟩
    | peer q =>
      obtain ⟨hq, -⟩ := h q List.mem_cons_self
      exact ⟨_, @Renders.peer cfg q 0 _ ⟨"", 0, none⟩ _ _ (List.getElem?_eq_getElem hq) hts⟩
    | candidates => exact ⟨_, .candidates (w := ⟨[], ∅, 0⟩) (renders_sayings _ _ hts)⟩

/-- The text that is said last is written last. -/
theorem renders_last {text : String} (h : Renders cfg (acts ++ [say text]) ts) :
    ts.getLast? = some text := by
  generalize hall : acts ++ [say text] = all at h
  induction h generalizing acts with
  | nil => simp at hall
  | @text s rest ts h ih =>
    cases acts with
    | nil =>
      simp only [List.nil_append, List.cons.injEq] at hall
      obtain ⟨hs, rfl⟩ := hall
      cases hs
      cases h
      rfl
    | cons b acts =>
      simp only [List.cons_append, List.cons.injEq] at hall
      have hlast := ih hall.2
      rw [List.getLast?_cons, hlast]
      rfl
  | @telnet reply rest ts h ih =>
    cases acts with
    | nil => simp [say] at hall
    | cons b acts =>
      simp only [List.cons_append, List.cons.injEq] at hall
      exact ih hall.2
  | @peer q now p status rest ts hp h ih =>
    cases acts with
    | nil => simp [say] at hall
    | cons b acts =>
      simp only [List.cons_append, List.cons.injEq] at hall
      have hlast := ih hall.2
      rw [List.getLast?_cons, hlast]
      rfl
  | @candidates w rest ts h ih =>
    cases acts with
    | nil => simp [say] at hall
    | cons b acts =>
      simp only [List.cons_append, List.cons.injEq] at hall
      exact @ih (candidateLines cfg w ++ acts) (by rw [← hall.2, List.append_assoc])

/-- A text that asks for the next command. -/
def Prompts (text : String) : Prop := prompt.toList <:+ text.toList

instance (text : String) : Decidable (Prompts text) :=
  inferInstanceAs (Decidable (prompt.toList <:+ text.toList))

/-- Every response ends with asking for the next command, but the one to `quit`. -/
theorem respond_prompts {k : Command} (hk : k ≠ .quit)
    (h : respond cfg parse w order k = some acts) :
    ∃ acts' text, acts = acts' ++ [say text] ∧ Prompts text := by
  have hprompt : Prompts prompt := List.suffix_refl _
  cases k with
  | quit => exact absurd rfl hk
  | nothing =>
    cases h
    exact ⟨[], _, rfl, hprompt⟩
  | help =>
    cases h
    exact ⟨[say HELP], _, rfl, hprompt⟩
  | summary =>
    cases h
    exact ⟨[_, .candidates], _, rfl, hprompt⟩
  | peers =>
    cases h
    exact ⟨say peersHeader :: _, _, rfl, hprompt⟩
  | routes acl net =>
    simp only [respond, showRoutes] at h
    split at h
    · cases h
      exact ⟨[], _, rfl, by decide +kernel⟩
    · split at h
      · split at h
        · split at h
          · cases h
            exact ⟨_, _, rfl, hprompt⟩
          · cases h
        · cases h
          exact ⟨[_], _, rfl, hprompt⟩
      · cases h
        exact ⟨[_], _, rfl, hprompt⟩
  | unknown =>
    cases h
    exact ⟨[_], _, rfl, hprompt⟩

/-- So does whatever was answered without `quit`. -/
theorem Answered.prompts (h : Answered cfg parse n ls ts) (hq : ∀ l ∈ ls, command l ≠ .quit) :
    ∃ text, ts.getLast? = some text ∧ Prompts text := by
  cases h with
  | greeting => exact ⟨Console.greeting, rfl, by decide +kernel⟩
  | @response ls ts l r h hr =>
    obtain ⟨w, order, acts, -, hrespond, hrenders⟩ := hr
    obtain ⟨acts', text, rfl, hprompts⟩ := respond_prompts (hq l (by simp)) hrespond
    exact ⟨text, by rw [List.getLast?_append, renders_last hrenders, Option.some_or], hprompts⟩

theorem owed_append (acts acts' : List Act) : owed (acts ++ acts') = owed acts ++ owed acts' := by
  simp [owed]

/-- Texts and the lines about peers and ACLs. -/
def Act.Plain (n : ℕ) (cfg : Config) (a : Act) : Prop :=
  a.refusal = [] ∧ ∀ q, a = .peer q → q < cfg.peers.length ∧ q < n

theorem plain_say (text : String) : (say text).Plain n cfg := ⟨rfl, fun q hq => by cases hq⟩

theorem plain_line (text : String) (h : ∀ a ∈ acts, a.Plain n cfg) :
    ∀ a ∈ say text :: acts, a.Plain n cfg :=
  List.forall_mem_cons.mpr ⟨plain_say text, h⟩

theorem plain_all (h : ∀ a ∈ acts, a.Plain n cfg) : owed acts = [] ∧ Known cfg n acts :=
  ⟨List.flatMap_eq_nil_iff.mpr fun a ha => (h a ha).1, fun q hq => (h _ hq).2 q rfl⟩

theorem plain_sayings {names : List IpNet} {f : IpNet → String} :
    ∀ a ∈ names.map (fun name => say (f name)), a.Plain n cfg := by
  intro a ha
  obtain ⟨name, -, rfl⟩ := List.mem_map.mp ha
  exact plain_say _

theorem plain_respond {k : Command} (h : respond cfg parse w order k = some acts) :
    ∀ a ∈ acts, a.Plain w.statuses.length cfg := by
  cases k with
  | routes acl net =>
    simp only [respond, showRoutes] at h
    split at h
    · cases h
      exact plain_line _ (by simp)
    · split at h
      · split at h
        · split at h
          · cases h
            simp only [listing, List.forall_mem_append, List.forall_mem_cons]
            exact ⟨⟨⟨plain_say _, plain_sayings⟩, plain_say _, by simp⟩, plain_say _, by simp⟩
          · cases h
        · cases h
          exact plain_line _ (plain_line _ (by simp))
      · cases h
        exact plain_line _ (plain_line _ (by simp))
  | peers =>
    cases h
    intro a ha
    rcases List.mem_append.mp ha with ha | ha
    · rcases List.mem_cons.mp ha with rfl | ha
      · exact plain_say _
      · obtain ⟨q, hq, rfl⟩ := List.mem_map.mp ha
        refine ⟨rfl, fun q' hq' => ?_⟩
        cases hq'
        exact Nat.lt_min.mp (List.mem_range.mp hq)
    · exact plain_line _ (by simp) a ha
  | summary =>
    cases h
    refine plain_line _ (List.forall_mem_cons.mpr ⟨⟨rfl, fun q hq => by cases hq⟩, ?_⟩)
    exact plain_line _ (by simp)
  | quit | nothing =>
    cases h
    exact plain_line _ (by simp)
  | help | unknown =>
    cases h
    exact plain_line _ (plain_line _ (by simp))

/-! The connection of one client. -/

/-- What was before, and what follows. -/
def Transcript.behind (before : List String) (replies : Bytes) (t : Transcript) : Transcript :=
  ⟨before ++ t.lines, replies ++ t.replies, t.ending⟩

/-- A client that is served has read its input as one pass over it would, and owes what it has not
written yet; with that its lines are answered. -/
structure Follows (cfg : Config) (parse : String → Option IpNet) (n : ℕ) (xs : List Label)
    (c : Client) : Prop where
  calls : ∀ fuel rest, calls (fuel + (lines c.id xs).length + 1) .init false
      (input c.id xs ++ rest) =
    (calls (fuel + 1) c.line c.skipLf rest).behind (lines c.id xs)
      (refusals c.id xs ++ owed c.acts)
  answers : ∀ ts, Renders cfg c.acts ts →
    Answered cfg parse n (lines c.id xs) (texts c.id xs ++ ts)
  known : Known cfg n c.acts
  going : c.ending = false → ∀ l ∈ lines c.id xs, command l ≠ .quit

/-- The commands of a client are those its input spells, and what it has been written is how their
answers begin. -/
structure Spelled (cfg : Config) (parse : String → Option IpNet) (n : ℕ) (xs : List Label)
    (id : ℕ) : Prop where
  lines : lines id xs = (console (input id xs)).lines
  refusals : refusals id xs <+: (console (input id xs)).replies
  answers : ∃ ts, Answered cfg parse n (Console.lines id xs) (texts id xs ++ ts)

/-- Nothing is left to be written to a client: it has every refusal its input calls for and every
answer to the end, the last of which asks for the next command. -/
structure Settled (cfg : Config) (parse : String → Option IpNet) (n : ℕ) (xs : List Label)
    (id : ℕ) : Prop where
  refusals : refusals id xs = (console (input id xs)).replies
  answers : Answered cfg parse n (lines id xs) (texts id xs)
  prompt : ∃ text, (texts id xs).getLast? = some text ∧ Prompts text

theorem lines_le_input (id : ℕ) (xs : List Label) :
    (lines id xs).length ≤ (input id xs).length := by
  induction xs with
  | nil => exact Nat.le_refl _
  | cons a xs ih =>
    have ha : (a.line id).length ≤ (a.input id).length := by
      cases a with
      | read i b l =>
        cases l with
        | none => exact Nat.zero_le _
        | some l =>
          by_cases hi : i = id <;> simp [Label.line, Label.input, hi]
      | _ => exact Nat.le_refl _
    simp only [lines, input, List.flatMap_cons, List.length_append] at ih ⊢
    omega

theorem Follows.console (h : Follows cfg parse n xs c) (rest : Bytes) :
    ∃ fuel, console (input c.id xs ++ rest) =
      (Console.calls (fuel + 1) c.line c.skipLf rest).behind (lines c.id xs)
        (refusals c.id xs ++ owed c.acts) := by
  have hle := lines_le_input c.id xs
  refine ⟨(input c.id xs).length - (lines c.id xs).length + rest.length, ?_⟩
  rw [← h.calls, Console.console, List.length_append]
  congr 1
  omega

theorem Follows.spelled (h : Follows cfg parse n xs c) : Spelled cfg parse n xs c.id := by
  obtain ⟨fuel, hconsole⟩ := h.console []
  obtain ⟨ts, hts⟩ := renders_total h.known
  rw [List.append_nil, calls_nil] at hconsole
  refine ⟨?_, ?_, ts, h.answers ts hts⟩
  · rw [hconsole, Transcript.behind, List.append_nil]
  · rw [hconsole]
    simp only [Transcript.behind, List.append_nil, List.prefix_append]

theorem Follows.settled (h : Follows cfg parse n xs c) (hidle : c.acts = [])
    (hending : c.ending = false) : Settled cfg parse n xs c.id := by
  have hanswers := h.answers [] (by rw [hidle]; exact .nil)
  rw [List.append_nil] at hanswers
  obtain ⟨fuel, hconsole⟩ := h.console []
  rw [List.append_nil, calls_nil, hidle] at hconsole
  refine ⟨?_, hanswers, hanswers.prompts (h.going hending)⟩
  rw [hconsole]
  simp [Transcript.behind, owed]

theorem Follows.quiet (h : Follows cfg parse n xs c) (ha : a.Quiet c.id) :
    Follows cfg parse n (xs ++ [a]) c := by
  refine ⟨?_, ?_, h.known, ?_⟩
  · rw [lines_snoc, input_snoc, refusals_snoc, ha.line, ha.input, ha.refusal]
    simpa only [List.append_nil] using h.calls
  · rw [lines_snoc, texts_snoc, ha.line, ha.text]
    simpa only [List.append_nil] using h.answers
  · rw [lines_snoc, ha.line, List.append_nil]
    exact h.going

theorem Spelled.quiet (h : Spelled cfg parse n xs id) (ha : a.Quiet id) :
    Spelled cfg parse n (xs ++ [a]) id := by
  constructor
  · rw [lines_snoc, input_snoc, ha.line, ha.input, List.append_nil, List.append_nil]
    exact h.lines
  · rw [refusals_snoc, input_snoc, ha.refusal, ha.input, List.append_nil, List.append_nil]
    exact h.refusals
  · rw [lines_snoc, texts_snoc, ha.line, ha.text, List.append_nil, List.append_nil]
    exact h.answers

/-- What an act writes, and what it leaves, is what it owes. -/
structure Performed (cfg : Config) (n id : ℕ) (chunk : Option Chunk) (acts acts' : List Act) :
    Prop where
  refusal : (chunk.elim Label.tau (.wrote id)).refusal id ++ owed acts' = owed acts
  renders : ∀ ts, Renders cfg acts' ts →
    Renders cfg acts ((chunk.elim Label.tau (.wrote id)).text id ++ ts)
  known : Known cfg n acts → Known cfg n acts'

theorem perform_spec {chunk : Option Chunk} (hknown : Known cfg w.statuses.length c.acts)
    (h : c.perform cfg w = some (chunk, c')) :
    Performed cfg n c.id chunk c.acts c'.acts ∧ c' = { c with acts := c'.acts } := by
  have hrest : ∀ {x : Act} {acts : List Act}, Known cfg n (x :: acts) → Known cfg n acts :=
    fun hk q hq => hk q (List.mem_cons_of_mem _ hq)
  unfold Client.perform at h
  split at h
  case h_1 => cases h
  case h_2 x acts hacts =>
    cases h
    refine ⟨?_, rfl⟩
    rw [hacts]
    cases x with
    | text t =>
      refine ⟨rfl, fun ts hts => ?_, hrest⟩
      have htext : (Label.wrote c.id (.text t)).text c.id = [t] := by simp [Label.text]
      rw [Option.elim_some, htext]
      exact .text hts
    | telnet r =>
      refine ⟨by simp [Label.refusal, owed, Act.refusal], fun ts hts => ?_, hrest⟩
      exact .telnet hts
  case h_3 q acts hacts =>
    obtain ⟨hp, hstatus⟩ := hknown q (by rw [hacts]; exact List.mem_cons_self)
    rw [List.getElem?_eq_getElem hp, List.getElem?_eq_getElem hstatus] at h
    cases h
    refine ⟨?_, rfl⟩
    rw [hacts]
    refine ⟨rfl, fun ts hts => ?_, hrest⟩
    rw [Option.elim_some, Label.text, if_pos rfl]
    exact .peer (List.getElem?_eq_getElem hp) hts
  case h_4 acts hacts =>
    cases h
    refine ⟨?_, rfl⟩
    rw [hacts]
    have hplain : ∀ a ∈ candidateLines cfg w, a.Plain n cfg := by
      intro a ha
      obtain ⟨name, -, rfl⟩ := List.mem_map.mp ha
      exact plain_say _
    obtain ⟨howed, hlines⟩ := plain_all hplain
    refine ⟨by rw [owed_append, howed]; rfl, fun ts hts => .candidates hts, fun hk q hq => ?_⟩
    exact (List.mem_append.mp hq).elim (hlines q) (hrest hk q)

theorem Follows.perform {chunk : Option Chunk} (h : Follows cfg parse w.statuses.length xs c)
    (hc : c.perform cfg w = some (chunk, c')) :
    Follows cfg parse w.statuses.length (xs ++ [chunk.elim .tau (.wrote c.id)]) c' := by
  obtain ⟨hacts, hc'⟩ := perform_spec h.known hc
  have hline : (chunk.elim Label.tau (.wrote c.id)).line c.id = [] := by cases chunk <;> rfl
  have hinput : (chunk.elim Label.tau (.wrote c.id)).input c.id = [] := by cases chunk <;> rfl
  rw [hc']
  refine ⟨?_, ?_, hacts.known h.known, ?_⟩
  · intro fuel rest
    simp only [lines_snoc, input_snoc, refusals_snoc, hline, hinput, List.append_nil,
      List.append_assoc, hacts.refusal]
    exact h.calls fuel rest
  · intro ts hts
    simp only [lines_snoc, texts_snoc, hline, List.append_nil, List.append_assoc]
    exact h.answers _ (hacts.renders ts hts)
  · simp only [lines_snoc, hline, List.append_nil]
    exact h.going

/-- A byte within a line. -/
theorem Follows.byte {b : UInt8} {line : Line} {skipLf : Bool} {reply : Bytes}
    (h : Follows cfg parse n xs c) (hidle : c.acts = []) (hending : c.ending = false)
    (hacts : acts = if reply = [] then [] else [.write (.telnet reply)])
    (hcalls : ∀ fuel rest, Console.calls (fuel + 1) c.line c.skipLf (b :: rest) =
      (Console.calls (fuel + 1) line skipLf rest).reply reply) :
    Follows cfg parse n (xs ++ [.read c.id b none]) { c with line, skipLf, acts } := by
  have howed : owed acts = reply := by
    rw [hacts]
    split
    · rename_i hreply
      exact hreply.symm
    · simp [owed, Act.refusal]
  refine ⟨?_, ?_, ?_, ?_⟩
  · intro fuel rest
    have hnext := h.calls fuel (b :: rest)
    have hinput : (Label.read c.id b none).input c.id = [b] := by simp [Label.input]
    simp only [lines_snoc, input_snoc, refusals_snoc, hinput, Label.line, Label.refusal,
      List.append_nil, List.append_assoc, List.singleton_append, howed]
    rw [hnext, hcalls, hidle]
    simp [Transcript.behind, Transcript.reply, owed]
  · intro ts hts
    have hnone : Renders cfg [] ts := by
      simp only [hacts] at hts
      split at hts
      · exact hts
      · cases hts
        assumption
    simpa only [lines_snoc, texts_snoc, Label.line, Label.text, List.append_nil] using
      h.answers ts (by rwa [hidle])
  · intro q hq
    simp only [hacts] at hq
    split at hq <;> simp at hq
  · simp only [lines_snoc, Label.line, List.append_nil]
    exact fun _ => h.going hending

/-- The last byte of a line. -/
theorem Follows.returned {b : UInt8} {l : String} {skipLf : Bool}
    (h : Follows cfg parse w.statuses.length xs c) (hidle : c.acts = [])
    (hending : c.ending = false) (hacts : respond cfg parse w order (command l) = some acts)
    (hcalls : ∀ fuel rest, Console.calls (fuel + 1) c.line c.skipLf (b :: rest) =
      (Console.calls fuel .init skipLf rest).line l) :
    Follows cfg parse w.statuses.length (xs ++ [.read c.id b (some l)])
      { c with line := .init, skipLf, acts, ending := decide (command l = .quit) } := by
  have hinput : (Label.read c.id b (some l)).input c.id = [b] := by simp [Label.input]
  have hline : (Label.read c.id b (some l)).line c.id = [l] := by simp [Label.line]
  obtain ⟨howed, hknown⟩ := plain_all (plain_respond hacts)
  have hbefore := (h.settled hidle hending).answers
  refine ⟨?_, ?_, hknown, ?_⟩
  · intro fuel rest
    have hnext := h.calls (fuel + 1) (b :: rest)
    simp only [lines_snoc, input_snoc, refusals_snoc, hinput, hline, Label.refusal,
      List.append_nil, List.append_assoc, List.singleton_append, howed, List.length_append,
      List.length_singleton]
    rw [show fuel + ((lines c.id xs).length + 1) + 1 =
        fuel + 1 + (lines c.id xs).length + 1 by omega, hnext, hcalls, hidle]
    simp [Transcript.behind, Transcript.line, owed]
  · intro ts hts
    simp only [lines_snoc, texts_snoc, hline, Label.text, List.append_nil]
    exact .response hbefore ⟨w, order, acts, rfl, hacts, hts⟩
  · simp only [lines_snoc, hline, List.forall_mem_append, List.forall_mem_singleton,
      decide_eq_false_iff_not]
    exact fun hgoing => ⟨h.going hending, hgoing⟩

/-- The input ends a call of `line` with an error. -/
theorem Follows.failed {b : UInt8} {message : String} (h : Follows cfg parse n xs c)
    (hidle : c.acts = []) (hending : c.ending = false)
    (hcalls : ∀ fuel, Console.calls (fuel + 1) c.line c.skipLf [b] = ⟨[], [], some message⟩) :
    Spelled cfg parse n (xs ++ [.read c.id b none]) c.id := by
  have hinput : (Label.read c.id b none).input c.id = [b] := by simp [Label.input]
  obtain ⟨fuel, hconsole⟩ := h.console [b]
  rw [hcalls, hidle] at hconsole
  refine ⟨?_, ?_, [], ?_⟩
  · rw [lines_snoc, input_snoc, hinput, hconsole]
    simp [Label.line, Transcript.behind]
  · rw [refusals_snoc, input_snoc, hinput, hconsole]
    simp [Label.refusal, Transcript.behind]
  · simpa only [lines_snoc, texts_snoc, Label.line, Label.text, List.append_nil] using
      (h.settled hidle hending).answers

/-- Without a byte to swallow the flag makes no difference. -/
theorem calls_flag {fuel : ℕ} {line : Line} {skipLf : Bool} {b : UInt8} {rest : Bytes}
    (hb : ¬ (skipLf = true ∧ (b = 10 ∨ b = 0))) :
    calls fuel line skipLf (b :: rest) = calls fuel line false (b :: rest) := by
  cases skipLf with
  | false => rfl
  | true =>
    apply calls_keep
    rintro x ⟨⟩
    exact not_or.mp (fun hx => hb ⟨rfl, hx⟩)

/-- A client is read from only when nothing is left to be written to it. -/
theorem Follows.read {b : UInt8} {l : Option String} (h : Follows cfg parse w.statuses.length xs c)
    (hc : c.read cfg parse w b order = some (l, c')) :
    c'.id = c.id ∧ Settled cfg parse w.statuses.length xs c.id ∧
      Spelled cfg parse w.statuses.length (xs ++ [.read c.id b l]) c.id ∧
      (c'.done = false → Follows cfg parse w.statuses.length (xs ++ [.read c.id b l]) c') := by
  have both : ∀ {d : Client}, d.id = c.id →
      Follows cfg parse w.statuses.length (xs ++ [.read c.id b l]) d →
      d.id = c.id ∧ Spelled cfg parse w.statuses.length (xs ++ [.read c.id b l]) c.id ∧
        (d.done = false → Follows cfg parse w.statuses.length (xs ++ [.read c.id b l]) d) :=
    fun hid hd => ⟨hid, hid ▸ hd.spelled, fun _ => hd⟩
  unfold Client.read at hc
  split at hc
  · cases hc
  · rename_i hready
    obtain ⟨hidle, hending⟩ := not_or.mp hready
    rw [not_not] at hidle
    rw [Bool.not_eq_true] at hending
    suffices hnext : c'.id = c.id ∧
        Spelled cfg parse w.statuses.length (xs ++ [.read c.id b l]) c.id ∧
        (c'.done = false → Follows cfg parse w.statuses.length (xs ++ [.read c.id b l]) c') from
      ⟨hnext.1, h.settled hidle hending, hnext.2⟩
    split at hc
    · rename_i hswallow
      cases hc
      have hsilent : c.acts = if ([] : Bytes) = [] then [] else [.write (.telnet [])] := by
        simp [hidle]
      refine both rfl (h.byte hidle hending hsilent ?_)
      exact fun fuel rest => by rw [hswallow.1, calls_swallow hswallow.2, Transcript.reply_nil]
    · rename_i hkeep
      split at hc
      · rename_i line reply hbyte
        cases hc
        refine both rfl (h.byte hidle hending rfl ?_)
        exact fun fuel rest => by rw [calls_flag hkeep, calls_go hbyte]
      · rename_i line skipLf hbyte
        simp only [Option.bind_eq_bind, Option.bind_eq_some_iff, Option.pure_def,
          Option.some.injEq, Prod.mk.injEq] at hc
        obtain ⟨acts, hrespond, rfl, rfl⟩ := hc
        exact both rfl (h.returned hidle hending hrespond
          (fun fuel rest => by rw [calls_flag hkeep, calls_returned hbyte]))
      · rename_i message hbyte
        cases hc
        exact ⟨rfl, h.failed hidle hending
          (fun fuel => by rw [calls_flag hkeep, calls_failed hbyte]), by simp⟩

/-- What is known of all clients, those that are gone included. -/
structure Dialogues (cfg : Config) (parse : String → Option IpNet) (n : ℕ) (xs : List Label)
    (s : Server) : Prop where
  statuses : s.world.statuses.length = n
  ids : (s.clients.map Client.id).Nodup
  served : ∀ c ∈ s.clients, c.id < s.served
  unused : ∀ id, s.served ≤ id → input id xs = [] ∧ lines id xs = [] ∧ refusals id xs = [] ∧
    texts id xs = []
  follows : ∀ c ∈ s.clients, c.done = false → Follows cfg parse n xs c
  spelled : ∀ id, Spelled cfg parse n xs id
  settled : ∀ ys id b l zs, xs = ys ++ .read id b l :: zs → Settled cfg parse n ys id

/-- The other clients have other numbers. -/
theorem mem_setClient {i : ℕ} {d : Client} (h : (s.clients.map Client.id).Nodup)
    (hc : s.clients[i]? = some c) (hd : d ∈ (s.setClient i c').clients) :
    d = c' ∨ (d ∈ s.clients ∧ d.id ≠ c.id) := by
  obtain ⟨j, hj⟩ := List.mem_iff_getElem?.mp hd
  rw [Server.setClient, List.getElem?_set] at hj
  split at hj
  · split at hj
    · exact Or.inl (Option.some.inj hj).symm
    · cases hj
  · rename_i hne
    refine Or.inr ⟨List.mem_of_getElem? hj, fun hid => hne ?_⟩
    have hlt : i < (s.clients.map Client.id).length := by
      rw [List.length_map]
      exact (List.getElem?_eq_some_iff.mp hc).1
    apply (List.getElem?_inj hlt h).mp
    rw [List.getElem?_map, List.getElem?_map, hc, hj, Option.map_some, Option.map_some, hid]

theorem ids_setClient {i : ℕ} (hc : s.clients[i]? = some c) (hid : c'.id = c.id) :
    (s.setClient i c').clients.map Client.id = s.clients.map Client.id := by
  rw [Server.setClient, List.map_set, hid]
  apply List.ext_getElem?
  intro j
  rw [List.getElem?_set]
  split
  · rename_i hij
    subst hij
    rw [List.getElem?_map, hc]
    have hlt := (List.getElem?_eq_some_iff.mp hc).1
    simp [hlt]
  · rfl

/-- The reads of a longer history. -/
theorem Dialogues.read (h : Dialogues cfg parse n xs s)
    (ha : ∀ id b l, a = .read id b l → Settled cfg parse n xs id) (ys : List Label) (id : ℕ)
    (b : UInt8) (l : Option String) (zs : List Label) (hxs : xs ++ [a] = ys ++ .read id b l :: zs) :
    Settled cfg parse n ys id := by
  rcases Lts.snoc_eq_append_cons hxs with ⟨-, hlabel, rfl⟩ | ⟨zs', -, hold⟩
  · exact ha id b l hlabel
  · exact h.settled ys id b l zs' hold

/-- A step that is about one client. -/
theorem Dialogues.one {i : ℕ} (h : Dialogues cfg parse n xs s) (hc : s.clients[i]? = some c)
    (hid : c'.id = c.id) (hquiet : ∀ id, c.id ≠ id → a.Quiet id)
    (hfollows : c'.done = false → Follows cfg parse n (xs ++ [a]) c')
    (hspelled : Spelled cfg parse n (xs ++ [a]) c.id)
    (hread : ∀ id b l, a = .read id b l → Settled cfg parse n xs id) :
    Dialogues cfg parse n (xs ++ [a]) (s.setClient i c') := by
  have hmem := List.mem_of_getElem? hc
  refine ⟨h.statuses, by rw [ids_setClient hc hid]; exact h.ids, ?_, ?_, ?_, ?_, h.read hread⟩
  · intro d hd
    rcases mem_setClient h.ids hc hd with rfl | ⟨hd, -⟩
    · rw [hid]
      exact h.served c hmem
    · exact h.served d hd
  · intro id (hle : s.served ≤ id)
    have hne : c.id ≠ id := Nat.ne_of_lt (Nat.lt_of_lt_of_le (h.served c hmem) hle)
    have hq := hquiet id hne
    obtain ⟨h₁, h₂, h₃, h₄⟩ := h.unused id hle
    simp [input_snoc, lines_snoc, refusals_snoc, texts_snoc, h₁, h₂, h₃, h₄, hq.input, hq.line,
      hq.refusal, hq.text]
  · intro d hd hdone
    rcases mem_setClient h.ids hc hd with rfl | ⟨hd, hne⟩
    · exact hfollows hdone
    · exact (h.follows d hd hdone).quiet (hquiet _ hne.symm)
  · intro id
    by_cases hne : c.id = id
    · rw [← hne]
      exact hspelled
    · exact (h.spelled id).quiet (hquiet id hne)

/-- A step that is about no client. -/
theorem Dialogues.none (h : Dialogues cfg parse n xs s) (hquiet : ∀ id, a.Quiet id)
    (hclients : t.clients.Sublist s.clients) (hserved : t.served = s.served)
    (hstatuses : t.world.statuses.length = s.world.statuses.length) :
    Dialogues cfg parse n (xs ++ [a]) t where
  statuses := hstatuses.trans h.statuses
  ids := (hclients.map Client.id).nodup h.ids
  served := fun c hc => by
    rw [hserved]
    exact h.served c (hclients.subset hc)
  unused := fun id hle => by
    rw [hserved] at hle
    have hq := hquiet id
    obtain ⟨h₁, h₂, h₃, h₄⟩ := h.unused id hle
    simp [input_snoc, lines_snoc, refusals_snoc, texts_snoc, h₁, h₂, h₃, h₄, hq.input, hq.line,
      hq.refusal, hq.text]
  follows := fun c hc hdone => (h.follows c (hclients.subset hc) hdone).quiet (hquiet _)
  spelled := fun id => (h.spelled id).quiet (hquiet id)
  settled := h.read (fun id b l ha => by
    have hinput := (hquiet id).input
    simp [ha, Label.input] at hinput)

theorem serving_get {i : ℕ} (h : s.serving i = some c) :
    s.clients[i]? = some c ∧ c.done = false := by
  obtain ⟨hget, hdone⟩ := Option.filter_eq_some_iff.mp h
  exact ⟨hget, by simpa using hdone⟩

/-- A new client. -/
theorem Dialogues.accept (h : Dialogues cfg parse n xs s) (remote : IpAddr) :
    Dialogues cfg parse n (xs ++ [.accepted s.served remote]) { s with
      clients := s.clients ++ [.start s.served remote], served := s.served + 1 } := by
  have hquiet : ∀ id, (Label.accepted s.served remote).Quiet id := fun id => ⟨rfl, rfl, rfl, rfl⟩
  obtain ⟨h₁, h₂, h₃, h₄⟩ := h.unused s.served (Nat.le_refl _)
  have hnew : Follows cfg parse n xs (.start s.served remote) := by
    refine ⟨?_, ?_, ?_, ?_⟩
    · intro fuel rest
      simp only [Client.start, h₁, h₂, h₃]
      rfl
    · intro ts hts
      cases hts with
      | text hts =>
        cases hts
        simp only [Client.start, h₂, h₄, List.nil_append]
        exact .greeting
    · simp [Known, Client.start, say]
    · simp [Client.start, h₂]
  refine ⟨h.statuses, ?_, ?_, ?_, ?_, fun id => (h.spelled id).quiet (hquiet id),
    h.read (fun _ _ _ ha => by cases ha)⟩
  · rw [List.map_append, List.nodup_append]
    refine ⟨h.ids, by simp, ?_⟩
    intro a ha b hb hab
    obtain ⟨c, hc, rfl⟩ := List.mem_map.mp ha
    have hlt := h.served c hc
    rw [hab, List.mem_singleton.mp hb] at hlt
    exact Nat.lt_irrefl _ hlt
  · intro c hc
    rcases List.mem_append.mp hc with hc | hc
    · exact Nat.lt_succ_of_lt (h.served c hc)
    · rw [List.mem_singleton.mp hc]
      exact Nat.lt_succ_self _
  · intro id (hle : s.served + 1 ≤ id)
    obtain ⟨h₁, h₂, h₃, h₄⟩ := h.unused id (Nat.le_of_succ_le hle)
    simp [input_snoc, lines_snoc, refusals_snoc, texts_snoc, h₁, h₂, h₃, h₄, Label.input,
      Label.line, Label.refusal, Label.text]
  · intro c hc hdone
    rcases List.mem_append.mp hc with hc | hc
    · exact (h.follows c hc hdone).quiet (hquiet _)
    · rw [List.mem_singleton.mp hc]
      exact hnew.quiet (hquiet _)

theorem Dialogues.step (h : Dialogues cfg parse n xs s) (ha : Step cfg parse s a t) :
    Dialogues cfg parse n (xs ++ [a]) t := by
  obtain ⟨m, ha⟩ := ha
  have htau : ∀ id, Label.tau.Quiet id := fun id => ⟨rfl, rfl, rfl, rfl⟩
  cases m with
  | update q state error =>
    simp only [Console.step, Option.bind_eq_bind, Option.bind_eq_some_iff] at ha
    obtain ⟨status, -, ha⟩ := ha
    split at ha
    · cases ha
      exact h.none htau (List.Sublist.refl _) rfl List.length_set
    · cases ha
  | publish e =>
    cases ha
    exact h.none htau (List.Sublist.refl _) rfl rfl
  | tick d =>
    cases ha
    exact h.none htau (List.Sublist.refl _) rfl rfl
  | accept remote =>
    simp only [Console.step, Option.ite_none_left_eq_some] at ha
    obtain ⟨-, ha⟩ := ha
    split at ha
    · cases ha
      exact h.none (fun id => ⟨rfl, rfl, rfl, rfl⟩) (List.Sublist.refl _) rfl rfl
    · cases ha
      exact h.accept remote
  | perform i =>
    simp only [Console.step, Option.bind_eq_bind, Option.bind_eq_some_iff, Option.pure_def,
      Option.some.injEq, Prod.exists, Prod.mk.injEq] at ha
    obtain ⟨c, hc, chunk, c', hperform, rfl, rfl⟩ := ha
    obtain ⟨hget, hdone⟩ := serving_get hc
    have hfollows := h.follows c (List.mem_of_getElem? hget) hdone
    rw [← h.statuses] at hfollows
    have hid : c'.id = c.id := by rw [(perform_spec (n := n) hfollows.known hperform).2]
    have hnext := hfollows.perform hperform
    rw [h.statuses] at hnext
    refine h.one hget hid (fun id hne => quiet_chunk hne) (fun _ => hnext) (hid ▸ hnext.spelled) ?_
    intro id b l ha
    cases chunk <;> cases ha
  | read i b order =>
    simp only [Console.step, Option.bind_eq_bind, Option.bind_eq_some_iff, Option.pure_def,
      Option.some.injEq, Prod.exists, Prod.mk.injEq] at ha
    obtain ⟨c, hc, l, c', hread, rfl, rfl⟩ := ha
    obtain ⟨hget, hdone⟩ := serving_get hc
    have hbefore := h.follows c (List.mem_of_getElem? hget) hdone
    rw [← h.statuses] at hbefore
    obtain ⟨hid, hsettled, hspelled, hfollows⟩ := hbefore.read hread
    rw [h.statuses] at hsettled hspelled hfollows
    refine h.one hget hid (fun id hne => quiet_read hne) hfollows hspelled ?_
    intro id b' l' ha
    cases ha
    exact hsettled
  | leave i =>
    simp only [Console.step, Option.bind_eq_bind, Option.bind_eq_some_iff, Option.pure_def,
      Option.some.injEq, Prod.mk.injEq] at ha
    obtain ⟨c, hc, rfl, rfl⟩ := ha
    obtain ⟨hget, -⟩ := serving_get hc
    exact h.one hget rfl (fun id _ => htau id) (by simp) ((h.spelled _).quiet (htau _))
      (fun _ _ _ ha => by cases ha)
  | join i =>
    simp only [Console.step, Option.bind_eq_bind, Option.bind_eq_some_iff] at ha
    obtain ⟨c, -, ha⟩ := ha
    split at ha
    · cases ha
      exact h.none htau (List.eraseIdx_sublist _ _) rfl rfl
    · cases ha

end Console
end Ubgp
