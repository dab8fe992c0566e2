import Ubgp.Management.Line

/-! The console's input as one pass over the whole stream: the Telnet tokens of a stream, the
commands they spell and the replies they call for, and that the calls of `line` give just these. -/
namespace Ubgp
namespace Console

/-! Tokens. -/

inductive Verb
  | WILL
  | WONT
  | DO
  | DONT
deriving DecidableEq

def Verb.byte : Verb → UInt8
  | .WILL => 251
  | .WONT => 252
  | .DO => 253
  | .DONT => 254

/-- A byte of text, a line end with what is swallowed after it, or a Telnet sequence. -/
inductive Token
  | plain (b : UInt8)
  | lineFeed
  | carriageReturn (swallowed : Option UInt8)
  | command (b : UInt8)
  | option (verb : Verb) (b : UInt8)
  | subnegotiation (content : Bytes)

/-- The content of a subnegotiation: IAC is followed by anything but SE. -/
inductive Escaped : Bytes → Prop
  | nil : Escaped []
  | byte {b : UInt8} {content : Bytes} (hb : b ≠ 255) (h : Escaped content) :
      Escaped (b :: content)
  | escape {b : UInt8} {content : Bytes} (hb : b ≠ 240) (h : Escaped content) :
      Escaped (255 :: b :: content)

namespace Token

def bytes : Token → Bytes
  | plain b => [b]
  | lineFeed => [10]
  | carriageReturn none => [13]
  | carriageReturn (some b) => [13, b]
  | command b => [255, b]
  | option verb b => [255, verb.byte, b]
  | subnegotiation content => 255 :: 250 :: (content ++ [255, 240])

/-- The token is one, with this stream behind it. -/
def Ok : Token → Bytes → Prop
  | plain b, _ => b ≠ 255 ∧ b ≠ 10 ∧ b ≠ 13
  | lineFeed, _ => True
  | carriageReturn none, stream => ∀ b, stream.head? = some b → b ≠ 10 ∧ b ≠ 0
  | carriageReturn (some b), _ => b = 10 ∨ b = 0
  | command b, _ => ¬ (250 ≤ b ∧ b ≤ 254)
  | option _ _, _ => True
  | subnegotiation content, _ => Escaped content

def isEnd : Token → Bool
  | lineFeed => true
  | carriageReturn _ => true
  | _ => false

/-- The bytes that count; what is swallowed does not. -/
def width : Token → ℕ
  | plain _ => 1
  | lineFeed => 1
  | carriageReturn _ => 1
  | command _ => 2
  | option _ _ => 3
  | subnegotiation content => content.length + 4

/-- The effect on the characters kept so far. -/
def edit : Token → Bytes → Bytes
  | plain b, buffer =>
    if erases b then buffer.dropLast else if keeps b then buffer ++ [b] else buffer
  | _, buffer => buffer

/-- WILL is answered by DONT, and DO by WONT. -/
def answer : Token → Option Token
  | option .WILL b => some (option .DONT b)
  | option .DO b => some (option .WONT b)
  | _ => none

end Token

/-- The end of a stream within a token. -/
inductive Incomplete : Bytes → Prop
  | nil : Incomplete []
  | command : Incomplete [255]
  | option (verb : Verb) : Incomplete [255, verb.byte]
  | content {content : Bytes} (h : Escaped content) : Incomplete (255 :: 250 :: content)
  | escape {content : Bytes} (h : Escaped content) : Incomplete (255 :: 250 :: (content ++ [255]))

/-- The tokens of a stream, and its incomplete rest. -/
inductive Tokens : Bytes → List Token → Bytes → Prop
  | rest {rest : Bytes} (h : Incomplete rest) : Tokens rest [] rest
  | token {t : Token} {stream rest : Bytes} {ts : List Token} (ht : t.Ok stream)
      (h : Tokens stream ts rest) : Tokens (t.bytes ++ stream) (t :: ts) rest

/-- A subnegotiation ends, or the stream does. -/
theorem escaped_cases (stream : Bytes) :
    (∃ content rest, Escaped content ∧ stream = content ++ [255, 240] ++ rest) ∨
    Escaped stream ∨ ∃ content, Escaped content ∧ stream = content ++ [255] := by
  induction hk : stream.length using Nat.strongRecOn generalizing stream with
  | _ k ih =>
    subst hk
    match stream with
    | [] => exact Or.inr (Or.inl .nil)
    | b :: stream =>
      by_cases hb : b = 255
      · subst hb
        match stream with
        | [] => exact Or.inr (Or.inr ⟨[], .nil, rfl⟩)
        | c :: stream =>
          by_cases hc : c = 240
          · subst hc
            exact Or.inl ⟨[], stream, .nil, rfl⟩
          · have hlt : stream.length < (255 :: c :: stream).length := by
              rw [List.length_cons, List.length_cons]
              omega
            rcases ih stream.length hlt stream rfl with
              ⟨content, rest, h, rfl⟩ | h | ⟨content, h, rfl⟩
            · exact Or.inl ⟨_, rest, .escape hc h, rfl⟩
            · exact Or.inr (Or.inl (.escape hc h))
            · exact Or.inr (Or.inr ⟨_, .escape hc h, rfl⟩)
      · rcases ih stream.length (by simp) stream rfl with
          ⟨content, rest, h, rfl⟩ | h | ⟨content, h, rfl⟩
        · exact Or.inl ⟨_, rest, .byte hb h, rfl⟩
        · exact Or.inr (Or.inl (.byte hb h))
        · exact Or.inr (Or.inr ⟨_, .byte hb h, rfl⟩)

theorem verb_byte_range (verb : Verb) : 251 ≤ verb.byte ∧ verb.byte ≤ 254 := by
  cases verb <;> decide

theorem exists_verb {b : UInt8} (h : 251 ≤ b ∧ b ≤ 254) : ∃ verb : Verb, b = verb.byte := by
  rw [UInt8.le_iff_toNat_le, UInt8.le_iff_toNat_le] at h
  have hcases : b.toNat = 251 ∨ b.toNat = 252 ∨ b.toNat = 253 ∨ b.toNat = 254 := by
    have h₁ : 251 ≤ b.toNat := h.1
    have h₂ : b.toNat ≤ 254 := h.2
    omega
  rcases hcases with hb | hb | hb | hb
  · exact ⟨.WILL, UInt8.toNat_inj.mp hb⟩
  · exact ⟨.WONT, UInt8.toNat_inj.mp hb⟩
  · exact ⟨.DO, UInt8.toNat_inj.mp hb⟩
  · exact ⟨.DONT, UInt8.toNat_inj.mp hb⟩

/-- At the front of a stream is a token, unless it ends first. -/
theorem token_cases (stream : Bytes) :
    Incomplete stream ∨ ∃ (t : Token) (rest : Bytes), t.Ok rest ∧ stream = t.bytes ++ rest := by
  match stream with
  | [] => exact Or.inl .nil
  | b :: stream =>
    by_cases hiac : b = 255
    · subst hiac
      match stream with
      | [] => exact Or.inl .command
      | c :: stream =>
        by_cases hverb : ∃ verb : Verb, c = verb.byte
        · obtain ⟨verb, rfl⟩ := hverb
          match stream with
          | [] => exact Or.inl (.option verb)
          | o :: stream => exact Or.inr ⟨.option verb o, stream, trivial, rfl⟩
        · by_cases hsb : c = 250
          · subst hsb
            rcases escaped_cases stream with ⟨content, rest, h, rfl⟩ | h | ⟨content, h, rfl⟩
            · exact Or.inr ⟨.subnegotiation content, rest, h, by simp [Token.bytes]⟩
            · exact Or.inl (.content h)
            · exact Or.inl (.escape h)
          · refine Or.inr ⟨.command c, stream, ?_, rfl⟩
            rintro ⟨hlow, hhigh⟩
            apply hverb
            apply exists_verb
            refine ⟨?_, hhigh⟩
            rw [UInt8.le_iff_toNat_le] at hlow ⊢
            have hne : c.toNat ≠ 250 := fun h => hsb (UInt8.toNat_inj.mp h)
            have h₁ : 250 ≤ c.toNat := hlow
            change 251 ≤ c.toNat
            omega
    · by_cases hlf : b = 10
      · subst hlf
        exact Or.inr ⟨.lineFeed, stream, trivial, rfl⟩
      · by_cases hcr : b = 13
        · subst hcr
          by_cases hnext : ∀ b, stream.head? = some b → b ≠ 10 ∧ b ≠ 0
          · exact Or.inr ⟨.carriageReturn none, stream, hnext, rfl⟩
          · match stream with
            | [] => simp at hnext
            | c :: stream =>
              have hc : c = 10 ∨ c = 0 := by
                by_contra hno
                apply hnext
                intro b hb
                cases hb
                exact not_or.mp hno
              exact Or.inr ⟨.carriageReturn (some c), stream, hc, rfl⟩
        · exact Or.inr ⟨.plain b, stream, ⟨hiac, hlf, hcr⟩, rfl⟩

theorem Token.bytes_ne_nil (t : Token) : t.bytes ≠ [] := by
  cases t with
  | carriageReturn swallowed => cases swallowed <;> simp [bytes]
  | plain | lineFeed | command | option | subnegotiation => simp [bytes]

/-- Every stream has its tokens. -/
theorem exists_tokens (stream : Bytes) : ∃ ts rest, Tokens stream ts rest := by
  induction hk : stream.length using Nat.strongRecOn generalizing stream with
  | _ k ih =>
    subst hk
    rcases token_cases stream with h | ⟨t, tail, ht, rfl⟩
    · exact ⟨[], stream, .rest h⟩
    · have hpos := List.length_pos_iff.mpr t.bytes_ne_nil
      obtain ⟨ts, rest, h⟩ := ih tail.length (by rw [List.length_append]; omega) tail rfl
      exact ⟨t :: ts, rest, .token ht h⟩

/-! One pass over the tokens. -/

/-- The characters kept and the bytes counted since the last line end. -/
structure Edit where
  buffer : Bytes
  count : ℕ

namespace Edit

def init : Edit := ⟨[], 0⟩

def feed (c : Edit) (t : Token) : Edit :=
  if t.isEnd then init else ⟨t.edit c.buffer, c.count + t.width⟩

def after (c : Edit) (ts : List Token) : Edit := ts.foldl feed c

/-- No limit is exceeded and only characters are kept. -/
structure Within (c : Edit) : Prop where
  buffer_le : c.buffer.length ≤ maxCommand
  count_le : c.count ≤ maxWire
  kept : ∀ b ∈ c.buffer, keeps b = true

end Edit

/-- ASCII bytes as a string. -/
def spell (buffer : Bytes) : String := String.ofList (buffer.map (fun b => Char.ofNat b.toNat))

/-- The commands that tokens spell after the characters of a buffer. -/
def commands : Bytes → List Token → List String
  | _, [] => []
  | buffer, t :: ts =>
    if t.isEnd then spell buffer :: commands [] ts else commands (t.edit buffer) ts

def replies (ts : List Token) : Bytes := (ts.filterMap Token.answer).flatMap Token.bytes

/-- The token at a position, or the incomplete rest, exceeds a limit of its call. -/
def Overflows (c : Edit) (ts : List Token) (rest : Bytes) (n : ℕ) : Prop :=
  match ts[n]? with
  | some t => maxWire < (c.after (ts.take n)).count + t.width ∨
      maxCommand < (t.edit (c.after (ts.take n)).buffer).length
  | none => maxWire < (c.after ts).count + rest.length

instance (c : Edit) (ts : List Token) (rest : Bytes) (n : ℕ) :
    Decidable (Overflows c ts rest n) :=
  match h : ts[n]? with
  | some t => decidable_of_iff (maxWire < (c.after (ts.take n)).count + t.width ∨
      maxCommand < (t.edit (c.after (ts.take n)).buffer).length) (by rw [Overflows, h])
  | none => decidable_of_iff (maxWire < (c.after ts).count + rest.length) (by rw [Overflows, h])

/-- The pass with its limits. -/
def transduce : Edit → List Token → Bytes → Transcript
  | c, [], rest => ⟨[], [], if maxWire < c.count + rest.length then some inputLimit else none⟩
  | c, t :: ts, rest =>
    if maxWire < c.count + t.width then ⟨[], [], some inputLimit⟩
    else if maxCommand < (t.edit c.buffer).length then ⟨[], [], some tooLong⟩
    else if t.isEnd then (transduce .init ts rest).line (spell c.buffer)
    else (transduce (c.feed t) ts rest).reply (replies [t])

variable {n : ℕ} {b : UInt8} {rest buffer : Bytes} {c : Edit} {t : Token} {ts : List Token}

theorem keeps_le (h : keeps b = true) : b.toNat ≤ 127 := by
  simp only [keeps, Bool.or_eq_true, Bool.and_eq_true, decide_eq_true_eq, beq_iff_eq] at h
  rcases h with ⟨-, h⟩ | rfl
  · have hle : b.toNat ≤ 126 := UInt8.le_iff_toNat_le.mp h
    omega
  · decide

theorem utf8EncodeChar_of_le (h : b.toNat ≤ 127) :
    String.utf8EncodeChar (Char.ofNat b.toNat) = [b] := by
  have hvalid : b.toNat.isValidChar := by
    left
    omega
  have hval : (Char.ofNat b.toNat).val.toNat = b.toNat := by
    rw [Char.ofNat, dif_pos hvalid]
    rfl
  simp only [String.utf8EncodeChar, hval, if_pos h, UInt8.ofNat_toNat]

theorem utf8Encode_spell (h : ∀ b ∈ buffer, keeps b = true) :
    (buffer.map (fun b => Char.ofNat b.toNat)).utf8Encode = buffer.toByteArray := by
  induction buffer with
  | nil => rfl
  | cons b buffer ih =>
    have hb := utf8EncodeChar_of_le (keeps_le (h b List.mem_cons_self))
    have htail := ih (fun b' hb' => h b' (List.mem_cons_of_mem b hb'))
    rw [List.map_cons, List.utf8Encode_cons, List.utf8Encode_singleton, hb, htail,
      ← List.toByteArray_append]
    rfl

theorem utf8ByteSize_spell (h : ∀ b ∈ buffer, keeps b = true) :
    (spell buffer).utf8ByteSize = buffer.length := by
  rw [← String.size_toByteArray, spell, String.toByteArray_ofList, utf8Encode_spell h,
    List.size_toByteArray]

theorem within_init : Edit.init.Within := ⟨Nat.zero_le _, Nat.zero_le _, by simp [Edit.init]⟩

theorem edit_kept (t : Token) (h : ∀ b ∈ buffer, keeps b = true) :
    ∀ b ∈ t.edit buffer, keeps b = true := by
  cases t with
  | plain b =>
    intro b' hb'
    simp only [Token.edit] at hb'
    split at hb'
    · exact h b' (List.dropLast_subset buffer hb')
    · split at hb'
      · rename_i hkeep
        rcases List.mem_append.mp hb' with hmem | hmem
        · exact h b' hmem
        · rw [List.mem_singleton.mp hmem]
          exact hkeep
      · exact h b' hb'
  | lineFeed | carriageReturn | command | option | subnegotiation => exact h

theorem Edit.Within.feed (hc : c.Within) (hwire : ¬ maxWire < c.count + t.width)
    (hlen : ¬ maxCommand < (t.edit c.buffer).length) : (c.feed t).Within := by
  unfold Edit.feed
  split
  · exact within_init
  · exact ⟨Nat.not_lt.mp hlen, Nat.not_lt.mp hwire, edit_kept t hc.kept⟩

theorem edit_of_isEnd (h : t.isEnd = true) (buffer : Bytes) : t.edit buffer = buffer := by
  cases t with
  | lineFeed | carriageReturn => rfl
  | plain | command | option | subnegotiation => cases h

theorem feed_of_not_isEnd (h : t.isEnd = false) (c : Edit) :
    c.feed t = ⟨t.edit c.buffer, c.count + t.width⟩ := by
  rw [Edit.feed, h]
  rfl

theorem feed_of_isEnd (h : t.isEnd = true) (c : Edit) : c.feed t = .init := if_pos h

theorem overflows_zero : Overflows c (t :: ts) rest 0 ↔
    maxWire < c.count + t.width ∨ maxCommand < (t.edit c.buffer).length := Iff.rfl

theorem replies_cons (t : Token) (ts : List Token) :
    replies (t :: ts) = replies [t] ++ replies ts := by
  unfold replies
  cases h : t.answer with
  | none => simp [h]
  | some a => simp [h]

theorem replies_of_isEnd (h : t.isEnd = true) : replies [t] = [] := by
  cases t with
  | lineFeed | carriageReturn => rfl
  | plain | command | option | subnegotiation => cases h

/-- One token of the pass within its limits. -/
theorem transduce_cons (h : ¬ Overflows c (t :: ts) rest 0) {ending : Option String}
    {us : List Token}
    (hrest : transduce (c.feed t) ts rest = ⟨commands (c.feed t).buffer us, replies us, ending⟩) :
    transduce c (t :: ts) rest = ⟨commands c.buffer (t :: us), replies (t :: us), ending⟩ := by
  rw [overflows_zero, not_or] at h
  rw [transduce, if_neg h.1, if_neg h.2, replies_cons t us, commands]
  cases hend : t.isEnd with
  | true =>
    rw [feed_of_isEnd hend] at hrest
    rw [if_pos rfl, if_pos rfl, hrest, replies_of_isEnd hend]
    rfl
  | false =>
    rw [hrest, feed_of_not_isEnd hend]
    rfl

/-- What the pass gives: everything, or what stands before the first token over a limit. -/
def Given (c : Edit) (ts : List Token) (rest : Bytes) (given : Transcript) : Prop :=
  (∀ n ≤ ts.length, ¬ Overflows c ts rest n) ∧ given = ⟨commands c.buffer ts, replies ts, none⟩ ∨
  ∃ n ≤ ts.length, (∀ m < n, ¬ Overflows c ts rest m) ∧ Overflows c ts rest n ∧
    ∃ message, (message = inputLimit ∨ message = tooLong) ∧
      given = ⟨commands c.buffer (ts.take n), replies (ts.take n), some message⟩

theorem transduce_given (c : Edit) (ts : List Token) (rest : Bytes) :
    Given c ts rest (transduce c ts rest) := by
  induction ts generalizing c with
  | nil =>
    by_cases hover : maxWire < c.count + rest.length
    · refine Or.inr ⟨0, Nat.le_refl 0, by simp, hover, inputLimit, Or.inl rfl, ?_⟩
      rw [transduce, if_pos hover]
      rfl
    · refine Or.inl ⟨?_, ?_⟩
      · intro n hn
        obtain rfl : n = 0 := Nat.le_zero.mp hn
        exact hover
      · rw [transduce, if_neg hover]
        rfl
  | cons t ts ih =>
    by_cases hover : Overflows c (t :: ts) rest 0
    · refine Or.inr ⟨0, Nat.zero_le _, by simp, hover, ?_⟩
      rw [overflows_zero] at hover
      by_cases hwire : maxWire < c.count + t.width
      · refine ⟨inputLimit, Or.inl rfl, ?_⟩
        rw [transduce, if_pos hwire]
        rfl
      · refine ⟨tooLong, Or.inr rfl, ?_⟩
        rw [transduce, if_neg hwire, if_pos (hover.resolve_left hwire)]
        rfl
    · have hbefore : ∀ n, (∀ m < n, ¬ Overflows (c.feed t) ts rest m) →
          ∀ m < n + 1, ¬ Overflows c (t :: ts) rest m := by
        intro n hn m hm
        cases m with
        | zero => exact hover
        | succ m => exact hn m (by omega)
      rcases ih (c.feed t) with ⟨hnone, hall⟩ | ⟨n, hn, hfirst, hat, message, hm, hcut⟩
      · refine Or.inl ⟨?_, transduce_cons hover hall⟩
        intro n hn
        exact hbefore (ts.length + 1) (fun m hm => hnone m (by omega)) n
          (by rw [List.length_cons] at hn; omega)
      · refine Or.inr ⟨n + 1, by simpa using hn, hbefore n hfirst, hat, message, hm, ?_⟩
        exact transduce_cons hover hcut

/-- Every command fits. -/
theorem transduce_lines (hc : c.Within) (ts : List Token) (rest : Bytes) :
    ∀ l ∈ (transduce c ts rest).lines, l.utf8ByteSize ≤ maxCommand := by
  induction ts generalizing c with
  | nil => simp [transduce]
  | cons t ts ih =>
    intro l hl
    rw [transduce] at hl
    split at hl
    · simp at hl
    · rename_i hwire
      split at hl
      · simp at hl
      · rename_i hlen
        split at hl
        · rcases List.mem_cons.mp hl with rfl | hl
          · rw [utf8ByteSize_spell hc.kept]
            exact hc.buffer_le
          · exact ih within_init l hl
        · exact ih (hc.feed hwire hlen) l hl

/-! Replies. -/

theorem answer_answer {a : Token} (h : t.answer = some a) :
    (∃ verb b, a = .option verb b) ∧ a.answer = none := by
  cases t with
  | option verb b =>
    cases verb with
    | WILL =>
      cases h
      exact ⟨⟨_, _, rfl⟩, rfl⟩
    | DO =>
      cases h
      exact ⟨⟨_, _, rfl⟩, rfl⟩
    | WONT | DONT => cases h
  | plain | lineFeed | carriageReturn | command | subnegotiation => cases h

/-- Answers are a stream of complete tokens. -/
theorem tokens_answers (ts : List Token) :
    Tokens (replies ts) (ts.filterMap Token.answer) [] := by
  induction ts with
  | nil => exact .rest .nil
  | cons t ts ih =>
    cases h : t.answer with
    | none => simpa [replies, h] using ih
    | some a =>
      obtain ⟨⟨verb, b, rfl⟩, -⟩ := answer_answer h
      have htoken := Tokens.token (t := .option verb b) trivial ih
      simpa [replies, h] using htoken

theorem replies_answers {us ts : List Token} (h : us ⊆ ts.filterMap Token.answer) :
    replies us = [] := by
  have hnone : us.filterMap Token.answer = [] := by
    rw [List.filterMap_eq_nil_iff]
    intro a ha
    obtain ⟨t, -, ht⟩ := List.mem_filterMap.mp (h ha)
    exact (answer_answer ht).2
  rw [replies, hnone]
  rfl

end Console
end Ubgp
