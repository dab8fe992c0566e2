import Mathlib.Data.List.Basic
import Mathlib.Tactic.Ring
import Mathlib.Tactic.NormNum

/-! Fixed-width big-endian octet strings and the numbers they denote. -/
namespace BigEndian

variable {k m x : ℕ} {l r : List UInt8}

/-- The low `k` octets of a number, most significant first. -/
def encode : ℕ → ℕ → List UInt8
  | 0, _ => []
  | k + 1, x => UInt8.ofNat (x / 256 ^ k) :: encode k x

/-- The number an octet string denotes, most significant octet first. -/
def decode : List UInt8 → ℕ
  | [] => 0
  | b :: l => b.toNat * 256 ^ l.length + decode l

@[simp] theorem length_encode (k x : ℕ) : (encode k x).length = k := by
  induction k with
  | zero => rfl
  | succ k ih => simp [encode, ih]

theorem decode_lt (l : List UInt8) : decode l < 256 ^ l.length := by
  induction l with
  | nil => simp [decode]
  | cons b l ih =>
    have hb : b.toNat < 256 := b.toNat_lt
    have hmul : (b.toNat + 1) * 256 ^ l.length ≤ 256 * 256 ^ l.length :=
      Nat.mul_le_mul_right _ hb
    simp only [decode, List.length_cons, pow_succ]
    rw [Nat.add_mul] at hmul
    omega

theorem decode_append (l r : List UInt8) :
    decode (l ++ r) = decode l * 256 ^ r.length + decode r := by
  induction l with
  | nil => simp [decode]
  | cons b l ih =>
    simp only [List.cons_append, decode, ih, List.length_append, pow_add]
    ring

/-- Encoding keeps exactly the low octets. -/
@[simp] theorem decode_encode (k x : ℕ) : decode (encode k x) = x % 256 ^ k := by
  induction k with
  | zero => simp [encode, decode, Nat.mod_one]
  | succ k ih =>
    have hsplit := Nat.mod_mul (a := 256 ^ k) (b := 256) (x := x)
    simp only [encode, decode, length_encode, ih, UInt8.toNat_ofNat']
    rw [pow_succ 256 k, hsplit]
    ring

theorem decode_encode_of_lt (h : x < 256 ^ k) : decode (encode k x) = x := by
  rw [decode_encode, Nat.mod_eq_of_lt h]

theorem decode_replicate_zero (k : ℕ) : decode (List.replicate k 0) = 0 := by
  induction k with
  | zero => rfl
  | succ k ih => simp [List.replicate_succ, decode, ih]

/-- Decoding is injective on strings of one length. -/
theorem decode_injective (h : l.length = r.length) (hd : decode l = decode r) : l = r := by
  induction l generalizing r with
  | nil => exact (List.length_eq_zero_iff.mp h.symm).symm
  | cons b l ih =>
    obtain ⟨c, r, rfl⟩ := List.exists_cons_of_length_pos (l := r) (by simp at h; omega)
    have hlen : l.length = r.length := by simpa using h
    have hl := decode_lt l
    have hr := decode_lt r
    simp only [decode] at hd
    rw [hlen] at hd hl
    have hhead : b.toNat = c.toNat := by
      have h₁ : (b.toNat * 256 ^ r.length + decode l) / 256 ^ r.length = b.toNat := by
        rw [Nat.mul_comm, Nat.mul_add_div (by positivity), Nat.div_eq_of_lt hl, Nat.add_zero]
      have h₂ : (c.toNat * 256 ^ r.length + decode r) / 256 ^ r.length = c.toNat := by
        rw [Nat.mul_comm, Nat.mul_add_div (by positivity), Nat.div_eq_of_lt hr, Nat.add_zero]
      rw [← h₁, hd, h₂]
    have htail : decode l = decode r := by
      rw [hhead] at hd
      omega
    rw [UInt8.toNat_inj.mp hhead, ih hlen htail]

@[simp] theorem encode_decode (l : List UInt8) : encode l.length (decode l) = l :=
  decode_injective (length_encode _ _)
    (by rw [decode_encode, Nat.mod_eq_of_lt (decode_lt l)])

/-- The leading octets of a wide number encode its high part. -/
theorem take_encode (h : m ≤ k) (x : ℕ) : (encode k x).take m = encode m (x / 256 ^ (k - m)) := by
  induction k generalizing m with
  | zero =>
    obtain rfl : m = 0 := by omega
    rfl
  | succ k ih =>
    cases m with
    | zero => rfl
    | succ m =>
      simp only [encode, List.take_succ_cons, Nat.succ_sub_succ_eq_sub]
      rw [ih (by omega), Nat.div_div_eq_div_mul, ← pow_add]
      congr 4
      omega

/-- Dropping low octets and padding with zeros rounds a number down. -/
theorem decode_take_pad (h : m ≤ k) (hx : x < 256 ^ k) :
    decode ((encode k x).take m ++ List.replicate (k - m) 0) =
      x / 256 ^ (k - m) * 256 ^ (k - m) := by
  have hhigh : x / 256 ^ (k - m) < 256 ^ m := by
    apply Nat.div_lt_of_lt_mul
    rw [← pow_add]
    convert hx using 2
    omega
  rw [take_encode h, decode_append, decode_encode_of_lt hhigh, decode_replicate_zero,
    List.length_replicate, Nat.add_zero]

end BigEndian
