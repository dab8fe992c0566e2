import Ubgp.Management.Telnet

/-! The calls of `line` over the tokens of a stream: they give the commands and the replies of one
pass over the whole stream. -/
namespace Ubgp
namespace Console

variable {k n : ℕ} {s s₁ s' : Line} {b oc : UInt8} {w stream rest buffer : Bytes} {c : Edit}
  {t : Token} {ts : List Token}

/-- The automaton between two tokens. -/
def Edit.line (c : Edit) (optionCommand : UInt8) : Line := ⟨c.buffer, .text, optionCommand, c.count⟩

/-! Bytes without a reply. -/

theorem byte_of_lt (h : s.wireBytes < maxWire) :
    s.byte b = Line.advance { s with wireBytes := s.wireBytes + 1 } b := by
  have hle : ¬ maxWire < s.wireBytes + 1 := by omega
  simp only [Line.byte, if_neg hle]

theorem byte_of_le (h : maxWire ≤ s.wireBytes) : s.byte b = .failed inputLimit := by
  have hlt : maxWire < s.wireBytes + 1 := by omega
  simp only [Line.byte, if_pos hlt]

theorem text_wireBytes {r : Bytes} (h : s.text b = .go s' r) : s'.wireBytes = s.wireBytes := by
  have hutf : ∀ skipLf, fromUtf8 s.bytes skipLf ≠ .go s' r := by
    intro skipLf hgo
    unfold fromUtf8 at hgo
    split at hgo <;> cases hgo
  simp only [Line.text] at h
  repeat' split at h
  all_goals first | exact absurd h (hutf _) | cases h <;> rfl

theorem advance_wireBytes {r : Bytes} (h : s.advance b = .go s' r) :
    s'.wireBytes = s.wireBytes := by
  unfold Line.advance at h
  split at h
  case h_5 => exact text_wireBytes h
  all_goals
    repeat' split at h
    all_goals
      cases h
      rfl

/-- Bytes that are consumed without a reply, were it not for the limit. -/
inductive Silent : Line → Bytes → Line → Prop
  | nil {s : Line} : Silent s [] s
  | cons {s s₁ s' : Line} {b : UInt8} {w : Bytes}
      (h : Line.advance { s with wireBytes := s.wireBytes + 1 } b = .go s₁ [])
      (hw : Silent s₁ w s') : Silent s (b :: w) s'

theorem Silent.append {w' : Bytes} (h : Silent s w s₁) (h' : Silent s₁ w' s') :
    Silent s (w ++ w') s' := by
  induction h with
  | nil => exact h'
  | cons hb _ ih => exact .cons hb (ih h')

theorem calls_silent (h : Silent s w s') (hle : s.wireBytes + w.length ≤ maxWire) :
    calls (k + 1) s false (w ++ stream) = calls (k + 1) s' false stream := by
  induction h with
  | nil => rfl
  | @cons s s₁ s' b w hb _ ih =>
    rw [List.length_cons] at hle
    have hwire := advance_wireBytes hb
    rw [List.cons_append, calls_go ((byte_of_lt (by omega)).trans hb), Transcript.reply_nil]
    apply ih
    rw [hwire]
    change s.wireBytes + 1 + w.length ≤ maxWire
    omega

theorem calls_silent_limit (h : Silent s w s') (hs : s.wireBytes ≤ maxWire)
    (hlt : maxWire < s.wireBytes + w.length) :
    calls (k + 1) s false (w ++ stream) = ⟨[], [], some inputLimit⟩ := by
  induction h with
  | nil =>
    rw [List.length_nil] at hlt
    omega
  | @cons s s₁ s' b w hb _ ih =>
    rw [List.length_cons] at hlt
    have hwire := advance_wireBytes hb
    by_cases hlimit : maxWire ≤ s.wireBytes
    · rw [List.cons_append, calls_failed (byte_of_le hlimit)]
    · rw [List.cons_append, calls_go ((byte_of_lt (by omega)).trans hb), Transcript.reply_nil]
      have hcount : s₁.wireBytes = s.wireBytes + 1 := hwire
      apply ih
      · omega
      · omega

theorem Silent.step {state : State} (h : Line.advance ⟨buffer, state, oc, n + 1⟩ b = .go s₁ [])
    (hw : Silent s₁ w s') : Silent ⟨buffer, state, oc, n⟩ (b :: w) s' := .cons h hw

/-! The edges of the automaton within sequences. -/

theorem advance_iac :
    Line.advance ⟨buffer, .text, oc, n⟩ 255 = .go ⟨buffer, .command, oc, n⟩ [] := rfl

theorem advance_verb (verb : Verb) : Line.advance ⟨buffer, .command, oc, n⟩ verb.byte =
    .go ⟨buffer, .option, verb.byte, n⟩ [] := if_pos (verb_byte_range verb)

theorem advance_sb :
    Line.advance ⟨buffer, .command, oc, n⟩ 250 = .go ⟨buffer, .content, oc, n⟩ [] := rfl

theorem advance_command (hb : ¬ (250 ≤ b ∧ b ≤ 254)) :
    Line.advance ⟨buffer, .command, oc, n⟩ b = .go ⟨buffer, .text, oc, n⟩ [] := by
  have hverb : ¬ (251 ≤ b ∧ b ≤ 254) := by
    rintro ⟨hlow, hhigh⟩
    exact hb ⟨UInt8.le_trans (by decide) hlow, hhigh⟩
  have hsb : b ≠ 250 := by
    rintro rfl
    exact hb (by decide)
  simp only [Line.advance, if_neg hverb, if_neg hsb]

theorem advance_content (hb : b ≠ 255) :
    Line.advance ⟨buffer, .content, oc, n⟩ b = .go ⟨buffer, .content, oc, n⟩ [] := if_neg hb

theorem advance_content_iac :
    Line.advance ⟨buffer, .content, oc, n⟩ 255 = .go ⟨buffer, .escape, oc, n⟩ [] := rfl

theorem advance_escape (hb : b ≠ 240) :
    Line.advance ⟨buffer, .escape, oc, n⟩ b = .go ⟨buffer, .content, oc, n⟩ [] := by
  simp only [Line.advance, if_neg hb]

theorem advance_se :
    Line.advance ⟨buffer, .escape, oc, n⟩ 240 = .go ⟨buffer, .text, oc, n⟩ [] := rfl

theorem silent_content {content : Bytes} (h : Escaped content) (n : ℕ) :
    Silent ⟨buffer, .content, oc, n⟩ content ⟨buffer, .content, oc, n + content.length⟩ := by
  induction h generalizing n with
  | nil => exact .nil
  | @byte b content hb _ ih =>
    have hlen : n + (b :: content).length = n + 1 + content.length := by
      rw [List.length_cons]
      omega
    rw [hlen]
    exact .step (advance_content hb) (ih (n + 1))
  | @escape b content hb _ ih =>
    have hlen : n + (255 :: b :: content).length = n + 1 + 1 + content.length := by
      rw [List.length_cons, List.length_cons]
      omega
    rw [hlen]
    exact .step advance_content_iac (.step (advance_escape hb) (ih (n + 1 + 1)))

/-- Into a subnegotiation and through its content. -/
theorem silent_subnegotiation {content : Bytes} (h : Escaped content) (n : ℕ) :
    Silent ⟨buffer, .text, oc, n⟩ (255 :: 250 :: content)
      ⟨buffer, .content, oc, n + 1 + 1 + content.length⟩ :=
  .step advance_iac (.step advance_sb (silent_content h _))

/-- The end of a stream within a token is consumed in silence. -/
theorem Incomplete.silent (h : Incomplete rest) (buffer : Bytes) (oc : UInt8) (n : ℕ) :
    ∃ s', Silent ⟨buffer, .text, oc, n⟩ rest s' := by
  cases h with
  | nil => exact ⟨_, .nil⟩
  | command => exact ⟨_, .step advance_iac .nil⟩
  | option verb => exact ⟨_, .step advance_iac (.step (advance_verb verb) .nil)⟩
  | content h => exact ⟨_, silent_subnegotiation h n⟩
  | escape h => exact ⟨_, (silent_subnegotiation h n).append (.step advance_content_iac .nil)⟩

/-- Silent bytes within the limit, or up to it. -/
theorem calls_silent_cases (h : Silent s w s') (hs : s.wireBytes ≤ maxWire) (stream : Bytes) :
    calls (k + 1) s false (w ++ stream) =
      if maxWire < s.wireBytes + w.length then ⟨[], [], some inputLimit⟩
      else calls (k + 1) s' false stream := by
  by_cases hlimit : maxWire < s.wireBytes + w.length
  · rw [if_pos hlimit]
    exact calls_silent_limit h hs hlimit
  · rw [if_neg hlimit]
    exact calls_silent h (by omega)

theorem calls_incomplete (h : Incomplete rest) (hc : c.Within) :
    calls (k + 1) (c.line oc) false rest = transduce c [] rest := by
  obtain ⟨s', hs⟩ := h.silent c.buffer oc c.count
  have hcalls := calls_silent_cases (k := k) hs hc.count_le []
  rw [List.append_nil] at hcalls
  rw [Edit.line, hcalls, transduce, calls_nil]
  split
  · rfl
  · rfl

/-- What a token that ends no line does to a call. -/
def Passes (k : ℕ) (c : Edit) (oc : UInt8) (t : Token) (stream : Bytes) : Prop :=
  ∃ oc', calls (k + 1) (c.line oc) false (t.bytes ++ stream) =
    if maxWire < c.count + t.width then ⟨[], [], some inputLimit⟩
    else if maxCommand < (t.edit c.buffer).length then ⟨[], [], some tooLong⟩
    else (calls (k + 1) (Edit.line ⟨t.edit c.buffer, c.count + t.width⟩ oc') false stream).reply
      (replies [t])

/-- A Telnet sequence without a reply. -/
theorem passes_of_silent (hc : c.Within) (hedit : t.edit c.buffer = c.buffer)
    (hreply : replies [t] = []) (hw : t.bytes.length = t.width)
    (h : Silent (c.line oc) t.bytes (Edit.line ⟨c.buffer, c.count + t.width⟩ oc)) :
    Passes k c oc t stream := by
  have hlen : ¬ maxCommand < c.buffer.length := Nat.not_lt.mpr hc.buffer_le
  refine ⟨oc, ?_⟩
  rw [calls_silent_cases h hc.count_le, hw, hedit, if_neg hlen, hreply, Transcript.reply_nil]
  rfl

theorem passes_command (hc : c.Within) (hb : ¬ (250 ≤ b ∧ b ≤ 254)) :
    Passes k c oc (.command b) stream :=
  passes_of_silent hc rfl rfl rfl (.step advance_iac (.step (advance_command hb) .nil))

theorem passes_subnegotiation {content : Bytes} (hc : c.Within) (h : Escaped content) :
    Passes k c oc (.subnegotiation content) stream := by
  refine passes_of_silent hc rfl rfl ?_ ?_
  · simp [Token.bytes, Token.width]
  · have hend : Silent ⟨c.buffer, .content, oc, c.count + 1 + 1 + content.length⟩ [255, 240]
        ⟨c.buffer, .text, oc, c.count + 1 + 1 + content.length + 1 + 1⟩ :=
      .step advance_content_iac (.step advance_se .nil)
    have hcount : c.count + 1 + 1 + content.length + 1 + 1 =
        c.count + (Token.subnegotiation content).width := by
      simp only [Token.width]
      omega
    rw [hcount] at hend
    exact (silent_subnegotiation h c.count).append hend

theorem answer_verb (verb : Verb) (b : UInt8) :
    Line.answer verb.byte b = replies [.option verb b] := by
  cases verb <;> rfl

theorem passes_option (hc : c.Within) (verb : Verb) (b : UInt8) :
    Passes k c oc (.option verb b) stream := by
  have hsilent : Silent (c.line oc) [255, verb.byte]
      ⟨c.buffer, .option, verb.byte, c.count + 1 + 1⟩ :=
    .step advance_iac (.step (advance_verb verb) .nil)
  have hlen : ¬ maxCommand < c.buffer.length := Nat.not_lt.mpr hc.buffer_le
  have hsplit : (Token.option verb b).bytes ++ stream = [255, verb.byte] ++ b :: stream := rfl
  have hedit : (Token.option verb b).edit c.buffer = c.buffer := rfl
  have hwidth : (Token.option verb b).width = 3 := rfl
  have hcount : (c.line oc).wireBytes + [255, verb.byte].length = c.count + 2 := rfl
  refine ⟨verb.byte, ?_⟩
  rw [hsplit, calls_silent_cases hsilent hc.count_le, hcount, hedit, if_neg hlen, hwidth]
  by_cases htwo : maxWire < c.count + 2
  · rw [if_pos htwo, if_pos (by omega)]
  · rw [if_neg htwo]
    by_cases hthree : maxWire < c.count + 3
    · rw [if_pos hthree]
      apply calls_failed
      apply byte_of_le
      change maxWire ≤ c.count + 1 + 1
      omega
    · rw [if_neg hthree, ← answer_verb]
      apply calls_go
      apply byte_of_lt
      change c.count + 1 + 1 < maxWire
      omega

/-- A byte outside of sequences that ends no line. -/
theorem advance_plain (hb : b ≠ 255 ∧ b ≠ 10 ∧ b ≠ 13) (hlen : buffer.length ≤ maxCommand) :
    Line.advance ⟨buffer, .text, oc, n⟩ b =
      if maxCommand < ((Token.plain b).edit buffer).length then .failed tooLong
      else .go ⟨(Token.plain b).edit buffer, .text, oc, n⟩ [] := by
  have hle : ¬ maxCommand < buffer.length := Nat.not_lt.mpr hlen
  simp only [Line.advance, Line.text, if_neg hb.1, if_neg hb.2.1, if_neg hb.2.2]
  by_cases hzero : b = 0
  · subst hzero
    have hedit : (Token.plain 0).edit buffer = buffer := rfl
    rw [if_pos rfl, hedit, if_neg hle]
  · rw [if_neg hzero]
    by_cases herase : erases b = true
    · have hedit : (Token.plain b).edit buffer = buffer.dropLast := if_pos herase
      have hdrop : ¬ maxCommand < buffer.dropLast.length := by
        rw [List.length_dropLast]
        omega
      rw [if_pos herase, hedit, if_neg hdrop]
    · rw [if_neg herase]
      by_cases hkeep : keeps b = true
      · have hedit : (Token.plain b).edit buffer = buffer ++ [b] := by
          simp [Token.edit, herase, hkeep]
        rw [if_pos hkeep, hedit]
      · have hedit : (Token.plain b).edit buffer = buffer := by
          simp [Token.edit, herase, hkeep]
        rw [if_neg hkeep, hedit, if_neg hle]

theorem passes_plain (hc : c.Within) (hb : b ≠ 255 ∧ b ≠ 10 ∧ b ≠ 13) :
    Passes k c oc (.plain b) stream := by
  refine ⟨oc, ?_⟩
  by_cases hlimit : maxWire < c.count + (Token.plain b).width
  · rw [if_pos hlimit]
    apply calls_failed
    apply byte_of_le
    exact Nat.le_of_lt_succ hlimit
  · have hbyte := byte_of_lt (s := c.line oc) (b := b) (Nat.lt_of_succ_le (Nat.not_lt.mp hlimit))
    have hadvance : (c.line oc).byte b =
        if maxCommand < ((Token.plain b).edit c.buffer).length then .failed tooLong
        else .go (Edit.line ⟨(Token.plain b).edit c.buffer, c.count + 1⟩ oc) [] :=
      hbyte.trans (advance_plain hb hc.buffer_le)
    rw [if_neg hlimit]
    by_cases hlen : maxCommand < ((Token.plain b).edit c.buffer).length
    · rw [if_pos hlen] at hadvance ⊢
      exact calls_failed hadvance
    · rw [if_neg hlen] at hadvance ⊢
      exact calls_go hadvance

/-! Line ends. -/

/-- Characters that were kept are valid UTF-8. -/
theorem fromUtf8_eq (h : ∀ b ∈ buffer, keeps b = true) (skipLf : Bool) :
    fromUtf8 buffer skipLf = .returned (spell buffer) skipLf := by
  have henc := utf8Encode_spell h
  have hvalid : buffer.toByteArray.IsValidUTF8 := ⟨_, henc.symm⟩
  have hstring : String.fromUTF8 buffer.toByteArray hvalid = spell buffer := by
    apply String.toByteArray_inj.mp
    rw [spell, String.toByteArray_ofList, henc]
    rfl
  unfold fromUtf8 String.fromUTF8?
  rw [dif_pos hvalid, hstring]

/-- A line end returns what was kept, unless its byte is one too many. -/
theorem calls_end (hc : c.Within) (oc : UInt8) (stream : Bytes) {skipLf : Bool}
    (hb : b = 10 ∧ skipLf = false ∨ b = 13 ∧ skipLf = true) :
    calls (k + 1) (c.line oc) false (b :: stream) =
      if maxWire < c.count + 1 then ⟨[], [], some inputLimit⟩
      else (calls k .init skipLf stream).line (spell c.buffer) := by
  by_cases hlimit : maxWire < c.count + 1
  · rw [if_pos hlimit]
    apply calls_failed
    apply byte_of_le
    exact Nat.le_of_lt_succ hlimit
  · rw [if_neg hlimit]
    apply calls_returned
    rw [byte_of_lt (Nat.lt_of_succ_le (Nat.not_lt.mp hlimit)), ← fromUtf8_eq hc.kept]
    rcases hb with ⟨rfl, rfl⟩ | ⟨rfl, rfl⟩
    · rfl
    · rfl

/-- What is swallowed after a carriage return is gone from the next call. -/
theorem calls_token_end (ht : t.Ok stream) (hend : t.isEnd = true) (hc : c.Within) :
    calls (k + 1) (c.line oc) false (t.bytes ++ stream) =
      if maxWire < c.count + t.width then ⟨[], [], some inputLimit⟩
      else (calls k .init false stream).line (spell c.buffer) := by
  cases t with
  | lineFeed => exact calls_end hc oc stream (Or.inl ⟨rfl, rfl⟩)
  | carriageReturn swallowed =>
    cases swallowed with
    | none =>
      have hcalls := calls_end (k := k) hc oc stream (Or.inr ⟨rfl, rfl⟩)
      rw [calls_keep ht] at hcalls
      exact hcalls
    | some b =>
      have hcalls := calls_end (k := k) hc oc (b :: stream) (Or.inr ⟨rfl, rfl⟩)
      have hswallow : calls k .init true (b :: stream) = calls k .init false stream := by
        cases k with
        | zero => rfl
        | succ k => exact calls_swallow ht
      rw [hswallow] at hcalls
      exact hcalls
  | plain | command | option | subnegotiation => cases hend

theorem calls_token (ht : t.Ok stream) (hend : t.isEnd = false) (hc : c.Within) :
    Passes k c oc t stream := by
  cases t with
  | plain b => exact passes_plain hc ht
  | command b => exact passes_command hc ht
  | option verb b => exact passes_option hc verb b
  | subnegotiation content => exact passes_subnegotiation hc ht
  | lineFeed | carriageReturn => cases hend

/-! Whole streams. -/

/-- The calls are the pass over the tokens. -/
theorem calls_eq (h : Tokens stream ts rest) (hk : stream.length < k) (hc : c.Within)
    (oc : UInt8) : calls k (c.line oc) false stream = transduce c ts rest := by
  induction h generalizing k c oc with
  | rest h =>
    obtain ⟨k, rfl⟩ := Nat.exists_eq_succ_of_ne_zero (Nat.ne_of_gt (Nat.zero_lt_of_lt hk))
    exact calls_incomplete h hc
  | @token t stream rest ts ht _ ih =>
    obtain ⟨k, rfl⟩ := Nat.exists_eq_succ_of_ne_zero (Nat.ne_of_gt (Nat.zero_lt_of_lt hk))
    have hpos := List.length_pos_iff.mpr t.bytes_ne_nil
    rw [List.length_append] at hk
    have hlen : ¬ maxCommand < c.buffer.length := Nat.not_lt.mpr hc.buffer_le
    cases hend : t.isEnd with
    | true =>
      rw [calls_token_end ht hend hc, transduce, edit_of_isEnd hend, if_neg hlen, if_pos hend]
      split
      · rfl
      · rw [← ih (k := k) (by omega) within_init 0]
        rfl
    | false =>
      obtain ⟨oc', hcalls⟩ : Passes k c oc t stream := calls_token ht hend hc
      rw [hcalls, transduce]
      split
      · rfl
      · rename_i hwire
        split
        · rfl
        · rename_i hedit
          rw [← ih (k := k + 1) (by omega) (hc.feed hwire hedit) oc', feed_of_not_isEnd hend]
          simp [hend]

theorem console_eq (h : Tokens stream ts rest) : console stream = transduce .init ts rest :=
  calls_eq h (Nat.lt_succ_self _) within_init 0

theorem console_given (h : Tokens stream ts rest) : Given .init ts rest (console stream) := by
  rw [console_eq h]
  exact transduce_given _ _ _

/-- Answers call for no answers. -/
theorem console_replies (ts : List Token) : (console (replies ts)).replies = [] := by
  rcases console_given (tokens_answers ts) with ⟨-, hall⟩ | ⟨n, -, -, -, message, -, hcut⟩
  · rw [hall]
    exact replies_answers (List.Subset.refl _)
  · rw [hcut]
    exact replies_answers (List.take_subset _ _)

/-- The calls of `line` give the commands and the replies of one pass over the tokens of the
stream, up to the first token that exceeds a limit of its call. Commands are valid and of bounded
length, and the replies call for no further ones. -/
theorem console_exact (stream : Bytes) :
    (∃ ts rest, Tokens stream ts rest) ∧
    (∀ ts rest, Tokens stream ts rest → Given .init ts rest (console stream)) ∧
    (∀ l ∈ (console stream).lines, l.utf8ByteSize ≤ maxCommand) ∧
    (console (console stream).replies).replies = [] := by
  obtain ⟨ts, rest, h⟩ := exists_tokens stream
  refine ⟨⟨ts, rest, h⟩, fun ts rest h => console_given h, ?_, ?_⟩
  · rw [console_eq h]
    exact transduce_lines within_init ts rest
  · rcases console_given h with ⟨-, hall⟩ | ⟨n, -, -, -, message, -, hcut⟩
    · rw [hall]
      exact console_replies ts
    · rw [hcut]
      exact console_replies (ts.take n)

/-- WILL ECHO, DO SUPPRESS-GO-AHEAD and `?` after a typing error, ended by CR NUL. -/
def exampleStream : Bytes := [255, 251, 1, 255, 253, 3, 120, 8, 63, 13, 0]

def exampleTokens : List Token :=
  [.option .WILL 1, .option .DO 3, .plain 120, .plain 8, .plain 63, .carriageReturn (some 0)]

theorem exampleStream_tokens : Tokens exampleStream exampleTokens [] := by
  apply Tokens.token (t := .option .WILL 1) trivial
  apply Tokens.token (t := .option .DO 3) trivial
  apply Tokens.token (t := .plain 120) ⟨by decide, by decide, by decide⟩
  apply Tokens.token (t := .plain 8) ⟨by decide, by decide, by decide⟩
  apply Tokens.token (t := .plain 63) ⟨by decide, by decide, by decide⟩
  exact Tokens.token (t := .carriageReturn (some 0)) (Or.inr rfl) (.rest .nil)

theorem example_console :
    console exampleStream = ⟨["?"], [255, 254, 1, 255, 252, 3], none⟩ := by
  have hlimits : ∀ n ≤ exampleTokens.length, ¬ Overflows .init exampleTokens [] n := by decide
  rcases (console_exact exampleStream).2.1 _ _ exampleStream_tokens with
    ⟨-, h⟩ | ⟨n, hn, -, hover, -⟩
  · rw [h]
    rfl
  · exact absurd hover (hlimits n hn)

end Console
end Ubgp
