import Ubgp.Net

/-! Reading commands from the Telnet stream of the console (`line` in `management.rs`).

Reads and writes succeed; the end of the stream is the end of the list. -/
namespace Ubgp
namespace Console

/-- The longest command, and the most bytes one call may consume. -/
def maxCommand : ℕ := 512
def maxWire : ℕ := 8192

def tooLong : String := "CLI command too long"
def inputLimit : String := "CLI input limit exceeded"
def invalidUtf8 : String := "invalid utf-8 sequence"

/-- The states 0 to 4 of the automaton. -/
inductive State
  | text
  | command
  | option
  | content
  | escape
deriving DecidableEq

/-- The variables of `line`. -/
structure Line where
  bytes : Bytes
  state : State
  optionCommand : UInt8
  wireBytes : ℕ

def Line.init : Line := ⟨[], .text, 0, 0⟩

/-- What one byte leads to: go on after writing a reply, or leave. -/
inductive Outcome
  | go (s : Line) (reply : Bytes)
  | returned (line : String) (skipLf : Bool)
  | failed (message : String)

/-- `String::from_utf8(bytes)?`. -/
def fromUtf8 (bytes : Bytes) (skipLf : Bool) : Outcome :=
  match String.fromUTF8? bytes.toByteArray with
  | some line => .returned line skipLf
  | none => .failed invalidUtf8

/-- Printable ASCII and tab. -/
def keeps (b : UInt8) : Bool := (decide (32 ≤ b) && decide (b ≤ 126)) || b == 9

/-- Backspace and DEL. -/
def erases (b : UInt8) : Bool := b == 8 || b == 127

namespace Line

/-- A byte outside of Telnet sequences. -/
def text (s : Line) (b : UInt8) : Outcome :=
  if b = 255 then .go { s with state := .command } []
  else if b = 10 then fromUtf8 s.bytes false
  else if b = 13 then fromUtf8 s.bytes true
  else if b = 0 then .go s []
  else if erases b then .go { s with bytes := s.bytes.dropLast } []
  else if keeps b then
    let bytes := s.bytes ++ [b]
    if maxCommand < bytes.length then .failed tooLong else .go { s with bytes } []
  else .go s []

/-- Refuse WILL and DO once; do not answer refusals. -/
def answer (command b : UInt8) : Bytes :=
  (if command = 251 then [255, 254, b] else []) ++ if command = 253 then [255, 252, b] else []

def advance (s : Line) (b : UInt8) : Outcome :=
  match s.state with
  | .command =>
    if 251 ≤ b ∧ b ≤ 254 then .go { s with optionCommand := b, state := .option } []
    else if b = 250 then .go { s with state := .content } []
    else .go { s with state := .text } []
  | .option => .go { s with state := .text } (answer s.optionCommand b)
  | .content => if b = 255 then .go { s with state := .escape } [] else .go s []
  | .escape => .go { s with state := if b = 240 then .text else .content } []
  | .text => s.text b

/-- Count a byte and handle it. -/
def byte (s : Line) (b : UInt8) : Outcome :=
  let s := { s with wireBytes := s.wireBytes + 1 }
  if maxWire < s.wireBytes then .failed inputLimit else s.advance b

end Line

/-- What a call leaves behind: its result, what it wrote, and where it left the stream. -/
structure Call where
  result : Except String (Option String)
  replies : Bytes
  rest : Bytes
  skipLf : Bool

/-- Read an ASCII command while refusing Telnet options and processing backspaces. -/
def line (s : Line) (skipLf : Bool) : Bytes → Call
  | [] => ⟨.ok none, [], [], skipLf⟩
  | b :: stream =>
    if skipLf ∧ (b = 10 ∨ b = 0) then line s false stream
    else
      match s.byte b with
      | .go s reply =>
        let call := line s false stream
        { call with replies := reply ++ call.replies }
      | .returned l skipLf => ⟨.ok (some l), [], stream, skipLf⟩
      | .failed message => ⟨.error message, [], stream, false⟩

/-- What a whole stream gives: an `ending` is the error of the last call. -/
structure Transcript where
  lines : List String
  replies : Bytes
  ending : Option String

namespace Transcript

def reply (r : Bytes) (t : Transcript) : Transcript := { t with replies := r ++ t.replies }
def line (l : String) (t : Transcript) : Transcript := { t with lines := l :: t.lines }

@[simp] theorem reply_nil (t : Transcript) : t.reply [] = t := rfl

end Transcript

/-- The calls of the console with their shared flag, the first one under way. -/
def calls : ℕ → Line → Bool → Bytes → Transcript
  | 0, _, _, _ => ⟨[], [], none⟩
  | k + 1, s, skipLf, stream =>
    let call := line s skipLf stream
    match call.result with
    | .ok none => ⟨[], call.replies, none⟩
    | .error message => ⟨[], call.replies, some message⟩
    | .ok (some l) => ((calls k .init call.skipLf call.rest).line l).reply call.replies

/-- Every call that returns a line has consumed a byte. -/
def console (stream : Bytes) : Transcript := calls (stream.length + 1) .init false stream

/-! Calls a byte at a time. -/

variable {k : ℕ} {s s' : Line} {b : UInt8} {stream reply : Bytes} {skipLf : Bool}

theorem calls_nil : calls (k + 1) s skipLf [] = ⟨[], [], none⟩ := rfl

theorem calls_swallow (hb : b = 10 ∨ b = 0) :
    calls (k + 1) s true (b :: stream) = calls (k + 1) s false stream := by
  have hline : line s true (b :: stream) = line s false stream := by
    simp [line, hb]
  simp only [calls, hline]

theorem calls_go (h : s.byte b = .go s' reply) :
    calls (k + 1) s false (b :: stream) = (calls (k + 1) s' false stream).reply reply := by
  have hline : line s false (b :: stream) =
      { line s' false stream with replies := reply ++ (line s' false stream).replies } := by
    simp [line, h]
  simp only [calls, hline]
  cases (line s' false stream).result with
  | error message => rfl
  | ok r =>
    cases r with
    | none => rfl
    | some l => simp [Transcript.reply, Transcript.line]

theorem calls_returned {l : String} (h : s.byte b = .returned l skipLf) :
    calls (k + 1) s false (b :: stream) = (calls k .init skipLf stream).line l := by
  have hline : line s false (b :: stream) = ⟨.ok (some l), [], stream, skipLf⟩ := by
    simp [line, h]
  simp [calls, hline]

theorem calls_failed {message : String} (h : s.byte b = .failed message) :
    calls (k + 1) s false (b :: stream) = ⟨[], [], some message⟩ := by
  have hline : line s false (b :: stream) = ⟨.error message, [], stream, false⟩ := by
    simp [line, h]
  simp [calls, hline]

/-- Without a byte to swallow the flag makes no difference. -/
theorem calls_keep (h : ∀ b, stream.head? = some b → b ≠ 10 ∧ b ≠ 0) :
    calls k s true stream = calls k s false stream := by
  cases k with
  | zero => rfl
  | succ k =>
    cases stream with
    | nil => rfl
    | cons b stream =>
      have hb : ¬ (b = 10 ∨ b = 0) := by
        obtain ⟨h₁, h₂⟩ := h b rfl
        simp [h₁, h₂]
      have hline : line s true (b :: stream) = line s false (b :: stream) := by
        simp [line, hb]
      simp only [calls, hline]

end Console
end Ubgp
