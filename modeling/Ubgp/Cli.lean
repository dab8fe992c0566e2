import Mathlib.Data.List.Basic
import Ubgp.Net

/-! The command line (`cli.rs`): what it may spell, and that it spells one thing only. -/
namespace Ubgp
namespace Cli

structure Options where
  path : Bytes
  daemon : Bool
  debug : Bool
  check : Bool
deriving DecidableEq

inductive Command
  | help
  | version
  | run (o : Options)
deriving DecidableEq

/-- "--config requires a path", or "unknown argument: .. (see --help)" with the argument. -/
inductive Complaint
  | missingPath
  | unknown (arg : Bytes)
deriving DecidableEq

/-- A literal of the source; arguments need not be UTF-8. -/
def word (s : String) : Bytes := s.toUTF8.toList

def Options.default : Options := ⟨word "/etc/ubgp.toml", false, false, false⟩

/-- `strip_prefix`. -/
def stripPrefix (lead arg : Bytes) : Option Bytes :=
  if lead <+: arg then some (arg.drop lead.length) else none

/-- The value of `--config` is not taken from an option. -/
def isPath (value : Bytes) : Bool := !value.isEmpty && !(word "-").isPrefixOf value

/-- The loop over the arguments. -/
def parseFrom : List Bytes → Options → Except Complaint Command
  | [], o => .ok (.run o)
  | arg :: args, o =>
    if arg = word "--help" ∨ arg = word "-h" then .ok .help
    else if arg = word "--version" ∨ arg = word "-V" then .ok .version
    else if arg = word "--daemon" ∨ arg = word "-d" then parseFrom args { o with daemon := true }
    else if arg = word "--debug" then parseFrom args { o with debug := true }
    else if arg = word "--check-config" then parseFrom args { o with check := true }
    else if arg = word "--config" ∨ arg = word "-c" then
      match args with
      | value :: args =>
        if isPath value then parseFrom args { o with path := value } else .error .missingPath
      | [] => .error .missingPath
    else
      match stripPrefix (word "--config=") arg with
      | some value =>
        if value = [] then .error .missingPath else parseFrom args { o with path := value }
      | none => .error (.unknown arg)

/-- Parse arguments after the executable name, preserving non-UTF-8 config paths. -/
def parse (args : List Bytes) : Except Complaint Command := parseFrom args .default

/-! What a command line spells. -/

inductive Change
  | daemon
  | debug
  | check
  | config (path : Bytes)
deriving DecidableEq

/-- The arguments of one option. -/
inductive Spells : List Bytes → Change → Prop
  | daemon {arg : Bytes} (h : arg ∈ [word "--daemon", word "-d"]) : Spells [arg] .daemon
  | debug : Spells [word "--debug"] .debug
  | check : Spells [word "--check-config"] .check
  | config {arg path : Bytes} (h : arg ∈ [word "--config", word "-c"])
      (hpath : isPath path = true) :
      Spells [arg, path] (.config path)
  | joined {path : Bytes} (hpath : path ≠ []) : Spells [word "--config=" ++ path] (.config path)

/-- Arguments that begin with no option. -/
inductive Refused : List Bytes → Complaint → Prop
  | last {arg : Bytes} (h : arg ∈ [word "--config", word "-c"]) : Refused [arg] .missingPath
  | value {arg value : Bytes} {rest : List Bytes} (h : arg ∈ [word "--config", word "-c"])
      (hvalue : isPath value = false) : Refused (arg :: value :: rest) .missingPath
  | empty {rest : List Bytes} : Refused (word "--config=" :: rest) .missingPath
  | unknown {arg : Bytes} {rest : List Bytes}
      (h : arg ∉ [word "--help", word "-h", word "--version", word "-V", word "--daemon", word "-d",
        word "--debug", word "--check-config", word "--config", word "-c"])
      (hjoined : ¬ word "--config=" <+: arg) : Refused (arg :: rest) (.unknown arg)

inductive Ending
  | run
  | help
  | version
  | refused (e : Complaint)
deriving DecidableEq

/-- A command line: options, and what they end in. What follows a request for help or the version
is not looked at. -/
inductive Line : List Bytes → List Change → Ending → Prop
  | run : Line [] [] .run
  | help {arg : Bytes} {rest : List Bytes} (h : arg ∈ [word "--help", word "-h"]) :
      Line (arg :: rest) [] .help
  | version {arg : Bytes} {rest : List Bytes} (h : arg ∈ [word "--version", word "-V"]) :
      Line (arg :: rest) [] .version
  | refused {args : List Bytes} {e : Complaint} (h : Refused args e) : Line args [] (.refused e)
  | option {args rest : List Bytes} {c : Change} {cs : List Change} {e : Ending}
      (h : Spells args c) (hrest : Line rest cs e) : Line (args ++ rest) (c :: cs) e

def Change.path? : Change → Option Bytes
  | .config path => some path
  | _ => none

/-- Options after some more: the last path counts, and the order of the others does not. -/
def Options.after (o : Options) (cs : List Change) : Options where
  path := (cs.filterMap Change.path?).getLast?.getD o.path
  daemon := o.daemon || decide (.daemon ∈ cs)
  debug := o.debug || decide (.debug ∈ cs)
  check := o.check || decide (.check ∈ cs)

def Ending.result (o : Options) : Ending → Except Complaint Command
  | .run => .ok (.run o)
  | .help => .ok .help
  | .version => .ok .version
  | .refused e => .error e

variable {args rest : List Bytes} {arg : Bytes} {o : Options} {c : Change} {cs : List Change}
  {e : Ending} {r : Except Complaint Command}

/-- The words that are looked for before a joined path is. -/
def words : List Bytes :=
  [word "--help", word "-h", word "--version", word "-V", word "--daemon", word "-d",
    word "--debug", word "--check-config", word "--config", word "-c"]

theorem after_nil (o : Options) : o.after [] = o := by
  simp [Options.after]

theorem after_cons (o : Options) (c : Change) (cs : List Change) :
    (o.after [c]).after cs = o.after (c :: cs) := by
  cases c with
  | config path =>
    have hpath : (cs.filterMap Change.path?).getLast?.getD path =
        ((.config path :: cs).filterMap Change.path?).getLast?.getD o.path := by
      rw [List.filterMap_cons, Change.path?, List.getLast?_cons, Option.getD_some]
    simp only [Options.after, ← hpath]
    simp [Change.path?]
  | _ => simp [Options.after, Change.path?]

theorem not_joined : ∀ w ∈ words, ¬ word "--config=" <+: w := by decide +kernel

/-- An argument that is none of the words. -/
theorem parseFrom_other (h : arg ∉ words) : parseFrom (arg :: args) o =
    match stripPrefix (word "--config=") arg with
    | some value =>
      if value = [] then .error .missingPath else parseFrom args { o with path := value }
    | none => .error (.unknown arg) := by
  simp only [words, List.mem_cons, List.not_mem_nil, or_false, not_or] at h
  obtain ⟨h₁, h₂, h₃, h₄, h₅, h₆, h₇, h₈, h₉, h₁₀⟩ := h
  rw [parseFrom.eq_def]
  dsimp only
  rw [if_neg (by simp [h₁, h₂]), if_neg (by simp [h₃, h₄]), if_neg (by simp [h₅, h₆]),
    if_neg h₇, if_neg h₈, if_neg (by simp [h₉, h₁₀])]

theorem joined_other (path : Bytes) : word "--config=" ++ path ∉ words :=
  fun h => not_joined _ h (List.prefix_append _ path)

theorem stripPrefix_append (lead path : Bytes) : stripPrefix lead (lead ++ path) = some path := by
  simp [stripPrefix]

/-- The separate path of `--config`. -/
theorem parseFrom_config (h : arg ∈ [word "--config", word "-c"]) : parseFrom (arg :: args) o =
    match args with
    | value :: args =>
      if isPath value then parseFrom args { o with path := value } else .error .missingPath
    | [] => .error .missingPath := by
  have hne : ∀ w ∈ [word "--config", word "-c"], w ≠ word "--help" ∧ w ≠ word "-h" ∧
      w ≠ word "--version" ∧ w ≠ word "-V" ∧ w ≠ word "--daemon" ∧ w ≠ word "-d" ∧
      w ≠ word "--debug" ∧ w ≠ word "--check-config" := by
    decide +kernel
  obtain ⟨h₁, h₂, h₃, h₄, h₅, h₆, h₇, h₈⟩ := hne arg h
  rw [parseFrom.eq_def]
  dsimp only
  rw [if_neg (by simp [h₁, h₂]), if_neg (by simp [h₃, h₄]), if_neg (by simp [h₅, h₆]),
    if_neg h₇, if_neg h₈, if_pos (by simpa using h)]

theorem parseFrom_help (h : arg ∈ [word "--help", word "-h"]) :
    parseFrom (arg :: args) o = .ok .help := by
  rw [parseFrom.eq_def]
  exact if_pos (by simpa using h)

theorem parseFrom_version (h : arg ∈ [word "--version", word "-V"]) :
    parseFrom (arg :: args) o = .ok .version := by
  have hne : ∀ w ∈ [word "--version", word "-V"], ¬ (w = word "--help" ∨ w = word "-h") := by
    decide +kernel
  rw [parseFrom.eq_def]
  dsimp only
  rw [if_neg (hne arg h), if_pos (by simpa using h)]

theorem parseFrom_daemon (h : arg ∈ [word "--daemon", word "-d"]) :
    parseFrom (arg :: args) o = parseFrom args { o with daemon := true } := by
  have hne : ∀ w ∈ [word "--daemon", word "-d"], ¬ (w = word "--help" ∨ w = word "-h") ∧
      ¬ (w = word "--version" ∨ w = word "-V") := by
    decide +kernel
  rw [parseFrom.eq_def]
  dsimp only
  rw [if_neg (hne arg h).1, if_neg (hne arg h).2, if_pos (by simpa using h)]

theorem parseFrom_spells (h : Spells args c) :
    parseFrom (args ++ rest) o = parseFrom rest (o.after [c]) := by
  cases h with
  | daemon h =>
    rw [List.singleton_append, parseFrom_daemon h]
    simp [Options.after, Change.path?]
  | debug =>
    rw [List.singleton_append, parseFrom.eq_def]
    dsimp only
    rw [if_neg (by decide +kernel), if_neg (by decide +kernel), if_neg (by decide +kernel),
      if_pos rfl]
    simp [Options.after, Change.path?]
  | check =>
    rw [List.singleton_append, parseFrom.eq_def]
    dsimp only
    rw [if_neg (by decide +kernel), if_neg (by decide +kernel), if_neg (by decide +kernel),
      if_neg (by decide +kernel), if_pos rfl]
    simp [Options.after, Change.path?]
  | config h hpath =>
    rw [List.cons_append, parseFrom_config h]
    simp [hpath, Options.after, Change.path?]
  | joined hpath =>
    rw [List.singleton_append, parseFrom_other (joined_other _), stripPrefix_append]
    simp [hpath, Options.after, Change.path?]

theorem parseFrom_refused {e : Complaint} (h : Refused args e) : parseFrom args o = .error e := by
  cases h with
  | last h => rw [parseFrom_config h]
  | value h hvalue =>
    rw [parseFrom_config h]
    simp [hvalue]
  | empty =>
    rw [← List.append_nil (word "--config="), parseFrom_other (joined_other []),
      stripPrefix_append]
    rfl
  | unknown h hjoined =>
    rw [parseFrom_other h, stripPrefix, if_neg hjoined]

/-- A command line is parsed as it is spelled. -/
theorem parseFrom_line (h : Line args cs e) (o : Options) :
    parseFrom args o = e.result (o.after cs) := by
  induction h generalizing o with
  | run => rw [after_nil, parseFrom, Ending.result]
  | help h => rw [parseFrom_help h, Ending.result]
  | version h => rw [parseFrom_version h, Ending.result]
  | refused h => rw [parseFrom_refused h, Ending.result]
  | option h _ ih => rw [parseFrom_spells h, ih, after_cons]

/-- What the first arguments can be. -/
inductive Front : List Bytes → Prop
  | help {arg : Bytes} {rest : List Bytes} (h : arg ∈ [word "--help", word "-h"]) :
      Front (arg :: rest)
  | version {arg : Bytes} {rest : List Bytes} (h : arg ∈ [word "--version", word "-V"]) :
      Front (arg :: rest)
  | refused {args : List Bytes} {e : Complaint} (h : Refused args e) : Front args
  | option {args rest : List Bytes} {c : Change} (h : Spells args c) : Front (args ++ rest)

theorem front_config (h : arg ∈ [word "--config", word "-c"]) : Front (arg :: args) := by
  cases args with
  | nil => exact .refused (.last h)
  | cons value rest =>
    cases hvalue : isPath value with
    | true =>
      change Front ([arg, value] ++ rest)
      exact .option (.config h hvalue)
    | false => exact .refused (.value h hvalue)

theorem front_option (h : Spells [arg] c) : Front (arg :: args) := by
  change Front ([arg] ++ args)
  exact .option h

theorem front (arg : Bytes) (args : List Bytes) : Front (arg :: args) := by
  by_cases hwords : arg ∈ words
  · simp only [words, List.mem_cons, List.not_mem_nil, or_false] at hwords
    rcases hwords with h | h | h | h | h | h | h | h | h | h
    · exact .help (by simp [h])
    · exact .help (by simp [h])
    · exact .version (by simp [h])
    · exact .version (by simp [h])
    · exact front_option (.daemon (by simp [h]))
    · exact front_option (.daemon (by simp [h]))
    · exact front_option (c := .debug) (h ▸ .debug)
    · exact front_option (c := .check) (h ▸ .check)
    · exact front_config (by simp [h])
    · exact front_config (by simp [h])
  · by_cases hjoined : word "--config=" <+: arg
    · obtain ⟨path, rfl⟩ := hjoined
      cases path with
      | nil =>
        rw [List.append_nil]
        exact .refused .empty
      | cons b path => exact front_option (.joined (by simp))
    · exact .refused (.unknown hwords hjoined)

theorem spells_ne_nil (h : Spells args c) : args ≠ [] := by
  cases h <;> simp

/-- Every list of arguments is a command line. -/
theorem exists_line (args : List Bytes) : ∃ cs e, Line args cs e := by
  induction hn : args.length using Nat.strong_induction_on generalizing args with
  | h n ih =>
    cases args with
    | nil => exact ⟨[], .run, .run⟩
    | cons arg args =>
      have hfront := front arg args
      generalize arg :: args = line at hn hfront
      cases hfront with
      | help h => exact ⟨[], .help, .help h⟩
      | version h => exact ⟨[], .version, .version h⟩
      | refused h => exact ⟨[], .refused _, .refused h⟩
      | @option opt rest c h =>
        have hpos := List.length_pos_iff.mpr (spells_ne_nil h)
        rw [List.length_append] at hn
        obtain ⟨cs, e, hrest⟩ := ih rest.length (by omega) rest rfl
        exact ⟨c :: cs, e, .option h hrest⟩

theorem run_of_parse (h : parse args = .ok (.run o)) :
    ∃ cs, Line args cs .run ∧ o = Options.default.after cs := by
  obtain ⟨cs, e, hline⟩ := exists_line args
  have hr := (parseFrom_line hline Options.default).symm.trans h
  cases e with
  | run =>
    cases hr
    exact ⟨cs, hline, rfl⟩
  | help | version | refused => cases hr

/-- The parser accepts what the grammar describes and nothing else, with the options it describes:
the last path counts, repeated options do no more than one, and nothing is looked at behind a
request for help or the version. It complains about the first argument that begins no option. -/
theorem parse_exact (args : List Bytes) (r : Except Complaint Command) :
    parse args = r ↔ ∃ cs e, Line args cs e ∧ r = e.result (Options.default.after cs) := by
  constructor
  · rintro rfl
    obtain ⟨cs, e, h⟩ := exists_line args
    exact ⟨cs, e, h, parseFrom_line h _⟩
  · rintro ⟨cs, e, h, rfl⟩
    exact parseFrom_line h _

/-- `ubgp -d --config=a -c b`. -/
example : parse [word "-d", word "--config=a", word "-c", word "b"] =
    .ok (.run ⟨word "b", true, false, false⟩) := by
  decide +kernel

end Cli
end Ubgp
