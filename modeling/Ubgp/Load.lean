import Ubgp.Supervisor
import Ubgp.Lib.Lines

/-! Reading a configuration (`Config::load` and `Config::parse` in `config.rs`), and what its errors
tell about the text.

The TOML parser is a parameter; its errors are the starts of their spans. -/
namespace Ubgp
namespace Config

/-- What reading the file gives is its octets, or an error that names its path. -/
abbrev Content := Except Message Bytes

def isNewline (b : UInt8) : Bool := b == 10

/-- The location of a parse error, without any of the source. -/
def parseError (line column : ℕ) : Message :=
  [.text "parsing configuration at line ", .text (toString line), .text ", column ",
    .text (toString column), .text (": check TOML syntax, field names and types " ++
      "(source omitted to protect secrets)")]

variable (toml : Bytes → Except (Option ℕ) Config)

/-- Deserialize TOML, replacing parser errors with locations that cannot reveal keys. -/
def parse (text : Bytes) : Except Message Config :=
  match toml text with
  | .ok cfg => .ok cfg
  | .error span =>
    let start := min (span.getD 0) text.length
    let before := text.take start
    let line := before.countP isNewline + 1
    let column := match Lines.rposition isNewline before with
      | none => start + 1
      | some n => start - n
    .error (parseError line column)

/-- Read, parse, and validate a TOML configuration without exposing source in errors. -/
def load (content : Content) : Except Message Config := do
  let text ← content
  let cfg ← parse toml text
  cfg.validate
  return cfg

variable {toml} {text text' : Bytes} {span span' : Option ℕ} {content : Content} {cfg : Config}

theorem load_eq_load (toml : Bytes → Except (Option ℕ) Config) (content : Content) :
    load toml content = Supervisor.load (content >>= parse toml) := by
  cases content with
  | error m => rfl
  | ok text => rfl

theorem load_eq_ok (h : load toml content = .ok cfg) : cfg.validate = .ok () := by
  rw [load_eq_load] at h
  exact Supervisor.load_eq_ok h

/-- Where the error is. -/
def errorPlace (text : Bytes) (span : Option ℕ) : ℕ × ℕ :=
  Lines.place isNewline (text.take (min (span.getD 0) text.length))

theorem parse_eq_error (h : toml text = .error span) : parse toml text =
    .error (parseError (errorPlace text span).1 (errorPlace text span).2) := by
  have hcolumn := @Lines.rposition_column _ isNewline
    (text.take (min (span.getD 0) text.length))
  rw [List.length_take, Nat.min_eq_left (Nat.min_le_right _ _)] at hcolumn
  rw [parse, h]
  exact congrArg (fun column => Except.error (parseError _ column)) hcolumn

theorem toString_injective {m n : ℕ} (h : toString m = toString n) : m = n := by
  rw [Nat.toString_eq_repr, Nat.toString_eq_repr] at h
  have hdigits := congrArg (fun s : String => Nat.ofDigitChars 10 s.toList 0) h
  simpa [Nat.toList_repr] using hdigits

theorem parseError_injective {l l' c c' : ℕ} (h : parseError l c = parseError l' c') :
    (l, c) = (l', c') := by
  simp only [parseError, List.cons.injEq, Part.text.injEq] at h
  rw [toString_injective h.2.1, toString_injective h.2.2.2.1]

theorem errorPlace_map (text : Bytes) (span : Option ℕ) : errorPlace text span =
    Lines.place id ((text.map isNewline).take (min (span.getD 0) text.length)) := by
  rw [errorPlace, Lines.place_map, List.map_take]

theorem load_eq_error (h : toml text = .error span) : load toml (.ok text) =
    .error (parseError (errorPlace text span).1 (errorPlace text span).2) := by
  rw [load_eq_load]
  change Supervisor.load (parse toml text) = _
  rw [parse_eq_error h]
  rfl

/-- Of a text that does not parse the error tells the place where it fails, by line and column, and
nothing else: texts with the same lines have the same error if and only if they fail at the same
octet, whatever else they contain. -/
theorem load_reveals_place (h : toml text = .error span) (h' : toml text' = .error span')
    (hlines : text.map isNewline = text'.map isNewline) :
    load toml (.ok text) = load toml (.ok text') ↔
      min (span.getD 0) text.length = min (span'.getD 0) text'.length := by
  have hlength : text.length = text'.length := by
    simpa using congrArg List.length hlines
  rw [load_eq_error h, load_eq_error h']
  constructor
  · intro he
    have hplace : errorPlace text span = errorPlace text' span' :=
      parseError_injective (Except.error.inj he)
    rw [errorPlace_map, errorPlace_map, hlines] at hplace
    have htake := Lines.place_injective (List.take_prefix _ _) (List.take_prefix _ _) hplace
    have hmin := congrArg List.length htake
    simp only [List.length_take, List.length_map] at hmin
    omega
  · intro he
    have hplace : errorPlace text span = errorPlace text' span' := by
      rw [errorPlace_map, errorPlace_map, hlines, he]
    rw [hplace]

/-- Texts that begin with an unknown field. -/
def exampleText (value : String) : Bytes := ("secret = '" ++ value ++ "'").toUTF8.toList

theorem example_load_reveals_place :
    load (fun _ => .error (some 0)) (.ok (exampleText "one")) =
      load (fun _ => .error (some 0)) (.ok (exampleText "two")) :=
  (load_reveals_place rfl rfl (by decide +kernel)).mpr (by decide +kernel)

end Config
end Ubgp
