import Ubgp.Lib.Aligned
import Ubgp.Netlink.Drain

/-! The rtnetlink format: which datagrams and routes there are, and that the parser accepts and
reads exactly these. -/
namespace Ubgp
namespace Netlink

variable {b e rest : Bytes} {x len : ℕ} {m : Message}

/-! Fields. -/

/-- A native-endian field of `k` octets. -/
def field (k x : ℕ) : Bytes := (BigEndian.encode k x).reverse

@[simp] theorem length_field (k x : ℕ) : (field k x).length = k := by simp [field]

/-- A field is read from the octets at the front. -/
theorem decode_slice_eq_ok {k : ℕ} : (do return BigEndian.decode (← slice b 0 k).reverse) =
    (.ok x : Result ℕ) ↔ x < 256 ^ k ∧ ∃ rest, b = field k x ++ rest := by
  constructor
  · intro h
    simp only [bind_eq_ok, pure_eq_ok, Except.ok.injEq] at h
    obtain ⟨l, hl, rfl⟩ := h
    unfold slice at hl
    split at hl
    · rename_i hle
      cases hl
      have hlen : ((b.take k).drop 0).reverse.length = k := by
        rw [List.length_reverse, List.drop_zero, List.length_take]
        omega
      have hlt := BigEndian.decode_lt ((b.take k).drop 0).reverse
      have henc := BigEndian.encode_decode ((b.take k).drop 0).reverse
      rw [hlen] at hlt henc
      refine ⟨hlt, b.drop k, ?_⟩
      rw [field, henc, List.reverse_reverse, List.drop_zero, List.take_append_drop]
    · cases hl
  · rintro ⟨hx, rest, rfl⟩
    have hslice := slice_append (field k x) rest
    rw [length_field] at hslice
    simp only [hslice, ok_bind, pure_eq_ok]
    rw [field, List.reverse_reverse, BigEndian.decode_encode_of_lt hx]

theorem u16n_eq_decode (b : Bytes) :
    u16n b = (do return BigEndian.decode (← slice b 0 2).reverse) := by
  match b with
  | [] => rfl
  | [y] => rfl
  | y :: z :: rest =>
    have hslice : slice (y :: z :: rest) 0 2 = .ok [y, z] := slice_append [y, z] rest
    simp [u16n, hslice, BigEndian.decode, Nat.add_comm]

/-- A reader of the field of `k` octets at the front. -/
def Reads (k : ℕ) (read : Bytes → Result ℕ) : Prop :=
  ∀ {b x}, read b = .ok x ↔ x < 256 ^ k ∧ ∃ rest, b = field k x ++ rest

theorem u32n_eq_ok : Reads 4 u32n := decode_slice_eq_ok

theorem u16n_eq_ok : Reads 2 u16n := by
  intro b x
  rw [u16n_eq_decode]
  exact decode_slice_eq_ok

section Reads
variable {k i : ℕ} {read : Bytes → Result ℕ} {l t : Bytes}

/-- A field is read behind other octets. -/
theorem Reads.behind (h : Reads k read) (hb : b = l ++ (field k x ++ rest)) (hx : x < 256 ^ k) :
    ∃ t, sliceFrom b l.length = .ok t ∧ read t = .ok x := by
  subst hb
  exact ⟨_, sliceFrom_append l _, h.mpr ⟨hx, rest, rfl⟩⟩

theorem Reads.field_of (h : Reads k read) (hl : l.length = i)
    (ht : sliceFrom (l ++ b) i = .ok t) (hx : read t = .ok x) :
    x < 256 ^ k ∧ ∃ rest, b = field k x ++ rest := by
  subst hl
  rw [sliceFrom_append] at ht
  cases ht
  exact h.mp hx

end Reads

/-! Messages. -/

/-- A message with its header, whose last four octets are the sender's port. -/
def Message.Encodes (m : Message) (e : Bytes) : Prop :=
  m.kind < 256 ^ 2 ∧ m.flags < 256 ^ 2 ∧ m.seq < 256 ^ 4 ∧ HEADER + m.payload.length < 256 ^ 4 ∧
    ∃ port : Bytes, port.length = 4 ∧ e = field 4 (HEADER + m.payload.length) ++
      (field 2 m.kind ++ (field 2 m.flags ++ (field 4 m.seq ++ (port ++ m.payload))))

theorem Message.Encodes.length (h : m.Encodes e) :
    e.length = HEADER + m.payload.length := by
  obtain ⟨-, -, -, -, port, hport, rfl⟩ := h
  simp only [List.length_append, length_field, hport, HEADER]
  omega

/-- The header of an encoded message is read back. -/
theorem header_encodes (h : m.Encodes e) (rest : Bytes) :
    header (e ++ rest) = .ok (m, e.length) := by
  have hlen := h.length
  obtain ⟨hkind, hflags, hseq, hpayload, port, hport, he⟩ := h
  have hb : e ++ rest = field 4 e.length ++ (field 2 m.kind ++ (field 2 m.flags ++
      (field 4 m.seq ++ (port ++ (m.payload ++ rest))))) := by
    rw [hlen, he]
    simp only [List.append_assoc]
  rw [← hlen] at hpayload
  have hle : e.length ≤ (e ++ rest).length := by simp
  obtain ⟨t₄, ht₄, hk⟩ := u16n_eq_ok.behind hb hkind
  have hb₆ := hb.trans (List.append_assoc _ _ _).symm
  have hb₈ := hb₆.trans (List.append_assoc _ _ _).symm
  obtain ⟨t₆, ht₆, hf⟩ := u16n_eq_ok.behind hb₆ hflags
  obtain ⟨t₈, ht₈, hs⟩ := u32n_eq_ok.behind hb₈ hseq
  have hp := slice_mid (field 4 e.length ++ (field 2 m.kind ++ (field 2 m.flags ++
    (field 4 m.seq ++ port)))) m.payload rest
  simp only [List.length_append, length_field, hport, List.append_assoc] at ht₄ ht₆ ht₈ hp
  rw [← hb] at hp
  simp only [header, bind_eq_ok, pure_eq_ok, Except.ok.injEq, Prod.mk.injEq]
  refine ⟨(), check_eq_ok.mpr ?_, _, u32n_eq_ok.mpr ⟨hpayload, _, hb⟩, (), check_eq_ok.mpr ?_,
    t₄, ht₄, _, hk, t₆, ht₆, _, hf, t₈, ht₈, _, hs, _, ?_, rfl, rfl⟩
  · rw [decide_eq_true_eq]
    omega
  · rw [Bool.and_eq_true, decide_eq_true_eq, decide_eq_true_eq]
    omega
  · rw [hlen]
    exact hp

/-- A header is read only where a whole message is. -/
theorem front_of_header (h : header b = .ok (m, len)) :
    Aligned.Front Message.Encodes b m len := by
  simp only [header, bind_eq_ok, pure_eq_ok, Except.ok.injEq, Prod.mk.injEq] at h
  obtain ⟨_, hshort, l, hl, _, hbounds, t₄, ht₄, kind, hk, t₆, ht₆, flags, hf, t₈, ht₈, seq, hs,
    payload, hp, rfl, rfl⟩ := h
  rw [check_eq_ok, decide_eq_true_eq] at hshort
  rw [check_eq_ok, Bool.and_eq_true, decide_eq_true_eq, decide_eq_true_eq] at hbounds
  obtain ⟨hlen, r₄, rfl⟩ := u32n_eq_ok.mp hl
  obtain ⟨hkind, r₆, rfl⟩ := u16n_eq_ok.field_of (length_field 4 l) ht₄ hk
  rw [← List.append_assoc] at ht₆ ht₈
  obtain ⟨hflags, r₈, rfl⟩ := u16n_eq_ok.field_of (by simp) ht₆ hf
  rw [← List.append_assoc] at ht₈
  obtain ⟨hseq, r, rfl⟩ := u32n_eq_ok.field_of (by simp) ht₈ hs
  simp only [List.length_append, length_field, HEADER] at hshort hbounds
  obtain ⟨port, body, tail, rfl, hport, hbody⟩ : ∃ port body tail : Bytes,
      r = port ++ (body ++ tail) ∧ port.length = 4 ∧ l = HEADER + body.length := by
    refine ⟨r.take 4, (r.drop 4).take (l - HEADER), (r.drop 4).drop (l - HEADER), ?_, ?_, ?_⟩
    · rw [List.take_append_drop, List.take_append_drop]
    · rw [List.length_take]
      omega
    · rw [List.length_take, List.length_drop, HEADER]
      omega
  have hmid := slice_mid (field 4 l ++ (field 2 kind ++ (field 2 flags ++ (field 4 seq ++ port))))
    body tail
  simp only [List.length_append, length_field, hport, List.append_assoc] at hmid
  subst hbody
  obtain rfl : payload = body := Except.ok.inj (hp.symm.trans hmid)
  have henc : Message.Encodes ⟨kind, flags, seq, payload⟩ (field 4 (HEADER + payload.length) ++
      (field 2 kind ++ (field 2 flags ++ (field 4 seq ++ (port ++ payload))))) :=
    ⟨hkind, hflags, hseq, hlen, port, hport, rfl⟩
  refine ⟨_, tail, ?_, henc, ?_⟩
  · simp only [List.append_assoc]
  · exact henc.length.symm

theorem header_eq_ok : header b = .ok (m, len) ↔ Aligned.Front Message.Encodes b m len := by
  constructor
  · exact front_of_header
  · rintro ⟨e, rest, rfl, he, rfl⟩
    exact header_encodes he rest

section Messages
variable {σ : Type} {f : Message → σ → Except (σ × Fault) σ} {s : σ}

theorem messageBody_walks (f : Message → σ → Except (σ × Fault) σ) :
    Aligned.Walks align Message.Encodes (messageBody f) (fun s m => f m s)
      (fun s => (s, .other "short netlink padding")) where
  le_align := le_align
  ne_nil := by
    intro m e he hnil
    have hlen := he.length
    rw [hnil, HEADER, List.length_nil] at hlen
    omega
  front := by
    intro b s m len hfront
    rw [messageBody_ok (header_eq_ok.mpr hfront)]
    cases f m s with
    | error err => rfl
    | ok s' => rfl
  stuck := by
    intro b s _ hstuck
    cases hh : header b with
    | error err => exact ⟨_, messageBody_error hh⟩
    | ok p => exact absurd ⟨p.1, p.2, header_eq_ok.mp hh⟩ hstuck

/-- The messages a datagram consists of, each but the last padded. -/
def Datagram (b : Bytes) (ms : List Message) : Prop := Aligned align Message.Encodes b ms

theorem foldlM_ok (g : Message → σ → σ) (ms : List Message) (s : σ) :
    ms.foldlM (fun s m => (.ok (g m s) : Except (σ × Fault) σ)) s =
      .ok (ms.foldl (fun s m => g m s) s) := by
  induction ms generalizing s with
  | nil => rfl
  | cons m ms ih => exact ih (g m s)

/-- A walk whose callback succeeds runs it over the messages of the datagram. -/
theorem messages_eq_ok {g : Message → σ → σ} {r : σ} :
    messages b (fun m s => .ok (g m s)) s = .ok r ↔
      ∃ ms, Datagram b ms ∧ ms.foldl (fun s m => g m s) s = r := by
  rw [messages, (messageBody_walks _).loop_eq_ok]
  simp only [foldlM_ok, Except.ok.injEq, Datagram]

theorem exists_slice {i j : ℕ} (hi : i ≤ j) (hj : j ≤ b.length) : ∃ r, slice b i j = .ok r :=
  ⟨_, slice_eq_ok hi hj⟩

theorem exists_u16n (h : 2 ≤ b.length) : ∃ x, u16n b = .ok x := by
  obtain ⟨l, hl⟩ := exists_slice (b := b) (Nat.zero_le 2) h
  exact ⟨_, by rw [u16n_eq_decode, hl]; rfl⟩

theorem exists_u32n (h : 4 ≤ b.length) : ∃ x, u32n b = .ok x := by
  obtain ⟨l, hl⟩ := exists_slice (b := b) (Nat.zero_le 4) h
  exact ⟨_, by rw [u32n, hl]; rfl⟩

theorem safe_check (ok : Bool) (message : String) : Safe (check ok message) := by
  cases ok <;> simp [Safe, check]

theorem safe_of_exists {α : Type} {y : Result α} (h : ∃ a, y = .ok a) : Safe y := by
  obtain ⟨a, rfl⟩ := h
  exact safe_ok a

theorem header_safe (b : Bytes) : Safe (header b) := by
  refine (safe_check _ _).bind fun _ hshort => ?_
  rw [check_eq_ok, decide_eq_true_eq, HEADER] at hshort
  refine (safe_of_exists (exists_u32n (by omega))).bind fun len _ => ?_
  refine (safe_check _ _).bind fun _ hbounds => ?_
  rw [check_eq_ok, Bool.and_eq_true, decide_eq_true_eq, decide_eq_true_eq] at hbounds
  refine (safe_of_exists ⟨_, sliceFrom_eq_ok (by omega)⟩).bind fun t₄ ht₄ => ?_
  have hlen₄ := sliceFrom_length ht₄
  refine (safe_of_exists (exists_u16n (by omega))).bind fun kind _ => ?_
  refine (safe_of_exists ⟨_, sliceFrom_eq_ok (by omega)⟩).bind fun t₆ ht₆ => ?_
  have hlen₆ := sliceFrom_length ht₆
  refine (safe_of_exists (exists_u16n (by omega))).bind fun flags _ => ?_
  refine (safe_of_exists ⟨_, sliceFrom_eq_ok (by omega)⟩).bind fun t₈ ht₈ => ?_
  have hlen₈ := sliceFrom_length ht₈
  refine (safe_of_exists (exists_u32n (by omega))).bind fun seq _ => ?_
  exact (safe_of_exists (exists_slice hbounds.1 hbounds.2)).bind fun _ _ => safe_ok _

/-- A walk panics only where its callback does. -/
theorem messages_panic {s' : σ} (h : messages b f s = .error (s', .panic)) :
    ∃ m t, f m t = .error (s', .panic) := by
  by_contra hf
  refine SliceLoop.loop_ne_error (messageBody_walks f).progress ?_ h
  intro b t _ hbody
  cases hh : header b with
  | error err =>
    rw [messageBody_error hh] at hbody
    cases hbody
    exact header_safe b hh
  | ok p =>
    rw [(messageBody_walks f).front b t p.1 p.2 (header_eq_ok.mp hh)] at hbody
    split at hbody
    · rename_i err herr
      cases hbody
      exact hf ⟨p.1, t, herr⟩
    · unfold Aligned.after at hbody
      split at hbody
      · cases hbody
      · split at hbody
        · cases hbody
        · cases hbody

end Messages

/-! Attributes. -/

/-- One attribute of a route. -/
structure Attribute where
  kind : ℕ
  data : Bytes

namespace Attribute
variable {a : Attribute} {attrs : List Attribute} {width : ℕ} {s : RouteAttrs}

def Encodes (a : Attribute) (e : Bytes) : Prop :=
  a.kind < 256 ^ 2 ∧ 4 + a.data.length < 256 ^ 2 ∧
    e = field 2 (4 + a.data.length) ++ (field 2 a.kind ++ a.data)

def isDst (a : Attribute) : Bool := a.kind % 0x4000 == 1
def isTable (a : Attribute) : Bool := a.kind % 0x4000 == 15

/-- The number a table attribute holds. -/
def number (a : Attribute) : UInt32 := UInt32.ofNat (BigEndian.decode a.data.reverse)

/-- What an attribute says. -/
def note (width : ℕ) (s : RouteAttrs) (a : Attribute) : RouteAttrs :=
  if a.isDst then { s with dst := a.data ++ s.dst.drop width, hasDst := true }
  else if a.isTable then { s with table := a.number }
  else s

/-- The length its kind asks for. -/
def fits (width : ℕ) (a : Attribute) : Result Unit :=
  if a.isDst then check (a.data.length == width) "invalid RTA_DST"
  else if a.isTable then check (a.data.length == 4) "invalid RTA_TABLE"
  else .ok ()

def read (width : ℕ) (s : RouteAttrs) (a : Attribute) : Result RouteAttrs := do
  a.fits width
  return a.note width s

theorem Encodes.length (h : a.Encodes e) : e.length = 4 + a.data.length := by
  obtain ⟨-, -, rfl⟩ := h
  simp only [List.length_append, length_field]
  omega

/-- The attribute at the front is read. -/
theorem readRouteAttr_encodes (h : a.Encodes e) (rest : Bytes) :
    readRouteAttr width e.length (e ++ rest) s = a.read width s := by
  have hlen := h.length
  obtain ⟨hkind, -, he⟩ := h
  have hb : e ++ rest = field 2 (4 + a.data.length) ++ (field 2 a.kind ++ (a.data ++ rest)) := by
    rw [he]
    simp only [List.append_assoc]
  have hdrop := sliceFrom_append (field 2 (4 + a.data.length)) (field 2 a.kind ++ (a.data ++ rest))
  rw [← hb, length_field] at hdrop
  have hdata := sliceFrom_append (field 2 (4 + a.data.length) ++ field 2 a.kind) (a.data ++ rest)
  have hmid := slice_mid (field 2 (4 + a.data.length) ++ field 2 a.kind) a.data rest
  rw [List.append_assoc, ← hb, List.length_append, length_field, length_field] at hdata hmid
  have hread := u16n_eq_ok.mpr ⟨hkind, a.data ++ rest, rfl⟩
  simp only [readRouteAttr, hdrop, hread, ok_bind, read, fits, note, isDst, isTable, beq_iff_eq]
  by_cases hdst : a.kind % 0x4000 = 1
  · have hwidth : (e.length == width + 4) = (a.data.length == width) := by
      rw [hlen, Bool.eq_iff_iff, beq_iff_eq, beq_iff_eq]
      omega
    rw [if_pos hdst, if_pos hdst, if_pos hdst, hwidth, hlen, hmid]
    rfl
  · rw [if_neg hdst, if_neg hdst, if_neg hdst]
    by_cases htable : a.kind % 0x4000 = 15
    · rw [if_pos htable, if_pos htable, if_pos htable, hdata]
      by_cases hfour : a.data.length = 4
      · have hnum := slice_append a.data rest
        rw [hfour] at hnum
        have hu : u32n (a.data ++ rest) = .ok (BigEndian.decode a.data.reverse) := by
          rw [u32n, hnum]
          rfl
        simp only [hlen, hfour, ok_bind, hu, pure_eq_ok, number]
        rfl
      · have hne : (e.length == 8) = false := by
          rw [beq_eq_false_iff_ne, hlen]
          omega
        rw [hne, beq_eq_false_iff_ne.mpr hfour]
        rfl
    · rw [if_neg htable, if_neg htable, if_neg htable]
      rfl

/-- Where a length field is in range, an attribute is at the front. -/
theorem front_of_length {n : ℕ} (hshort : 4 ≤ b.length) (hn : u16n b = .ok n) (hfour : 4 ≤ n)
    (hle : n ≤ b.length) : ∃ a, Aligned.Front Encodes b a n := by
  obtain ⟨hlt, r, rfl⟩ := u16n_eq_ok.mp hn
  rw [List.length_append, length_field] at hshort hle
  obtain ⟨kind, hkind⟩ := exists_u16n (b := r) (by omega)
  obtain ⟨hk, t, rfl⟩ := u16n_eq_ok.mp hkind
  rw [List.length_append, length_field] at hle
  have hdata : n = 4 + (t.take (n - 4)).length := by
    rw [List.length_take]
    omega
  have henc : Encodes ⟨kind, t.take (n - 4)⟩ (field 2 n ++ (field 2 kind ++ t.take (n - 4))) := by
    refine ⟨hk, ?_, ?_⟩
    · rw [← hdata]
      exact hlt
    · rw [← hdata]
  refine ⟨_, _, t.drop (n - 4), ?_, henc, ?_⟩
  · simp only [List.append_assoc, List.take_append_drop]
  · rw [henc.length]
    exact hdata

/-- A body that finds no attribute reports it. -/
theorem routeAttrBody_stuck (width : ℕ) (s : RouteAttrs)
    (hstuck : ¬ ∃ a len, Aligned.Front Encodes b a len) :
    ∃ message, routeAttrBody width b s = .error (.other message) := by
  unfold routeAttrBody
  by_cases hshort : 4 ≤ b.length
  · obtain ⟨n, hn⟩ := exists_u16n (b := b) (by omega)
    rw [check_eq_ok.mpr (decide_eq_true hshort), ok_bind, hn, ok_bind]
    by_cases hbounds : 4 ≤ n ∧ n ≤ b.length
    · obtain ⟨a, ha⟩ := front_of_length hshort hn hbounds.1 hbounds.2
      exact absurd ⟨a, n, ha⟩ hstuck
    · rw [← Bool.decide_and, decide_eq_false hbounds]
      exact ⟨_, rfl⟩
  · rw [decide_eq_false hshort]
    exact ⟨_, rfl⟩

theorem routeAttrBody_walks (width : ℕ) : Aligned.Walks align Encodes (routeAttrBody width)
    (read width) (fun _ => .other "short route attribute padding") where
  le_align := le_align
  ne_nil := by
    intro a e he hnil
    have hlen := he.length
    rw [hnil, List.length_nil] at hlen
    omega
  front := by
    rintro b s a len ⟨e, rest, rfl, he, rfl⟩
    have hlen := he.length
    have hle : e.length ≤ (e ++ rest).length := by simp
    have hn : u16n (e ++ rest) = .ok e.length := by
      obtain ⟨-, hlt, henc⟩ := he
      rw [hlen]
      refine u16n_eq_ok.mpr ⟨hlt, field 2 a.kind ++ a.data ++ rest, ?_⟩
      rw [henc]
      simp only [List.append_assoc]
    have hbounds : (decide (4 ≤ e.length) && decide (e.length ≤ (e ++ rest).length)) = true := by
      rw [Bool.and_eq_true, decide_eq_true_eq, decide_eq_true_eq]
      omega
    unfold routeAttrBody
    rw [check_eq_ok.mpr (decide_eq_true (by omega)), ok_bind, hn, ok_bind,
      check_eq_ok.mpr hbounds, ok_bind, readRouteAttr_encodes he rest]
    cases a.read width s with
    | error err => rfl
    | ok s' =>
      simp only [ok_bind, Aligned.after, pure_eq_ok]
      split
      · rfl
      · by_cases ha : align e.length ≤ (e ++ rest).length
        · rw [if_pos ha, sliceFrom_eq_ok ha, check_eq_ok.mpr (decide_eq_true ha)]
          rfl
        · rw [if_neg ha, decide_eq_false ha]
          rfl
  stuck := by
    intro b s _ hstuck
    obtain ⟨message, h⟩ := routeAttrBody_stuck width s hstuck
    exact ⟨_, h⟩

theorem fits_safe (width : ℕ) (a : Attribute) : Safe (a.fits width) := by
  unfold fits
  split
  · exact safe_check _ _
  · split
    · exact safe_check _ _
    · exact safe_ok ()

theorem routeAttrBody_safe (width : ℕ) (b : Bytes) (s : RouteAttrs) :
    Safe (routeAttrBody width b s) := by
  by_cases hfront : ∃ a len, Aligned.Front Encodes b a len
  · obtain ⟨a, len, ha⟩ := hfront
    have hread : Safe (a.read width s) := (fits_safe width a).bind fun _ _ => safe_ok _
    rw [(routeAttrBody_walks width).front b s a len ha]
    split
    · rename_i err herr
      rw [herr] at hread
      intro hpanic
      cases hpanic
      exact hread rfl
    · unfold Aligned.after
      split
      · exact safe_ok _
      · split
        · exact safe_ok _
        · simp [Safe]
  · obtain ⟨message, h⟩ := routeAttrBody_stuck width s hfront
    rw [h]
    simp [Safe]

/-- Attributes of fitting lengths are all read. -/
theorem foldlM_read (hfits : ∀ a ∈ attrs, a.fits width = .ok ()) :
    attrs.foldlM (read width) s = .ok (attrs.foldl (note width) s) := by
  induction attrs generalizing s with
  | nil => rfl
  | cons a attrs ih =>
    have hread : a.read width s = .ok (a.note width s) := by
      rw [read, hfits a List.mem_cons_self]
      rfl
    rw [List.foldlM_cons, hread]
    exact ih fun a' ha' => hfits a' (List.mem_cons_of_mem a ha')

theorem not_isTable (h : a.isDst = true) : a.isTable = false := by
  simp only [isDst, isTable, beq_iff_eq, beq_eq_false_iff_ne] at h ⊢
  omega

theorem note_table : (a.note width s).table = if a.isTable then a.number else s.table := by
  unfold note
  split
  · rename_i hdst
    simp [not_isTable hdst]
  · split
    · rfl
    · rfl

theorem note_dst :
    (a.note width s).dst = if a.isDst then a.data ++ s.dst.drop width else s.dst := by
  unfold note
  split
  · rfl
  · split
    · rfl
    · rfl

theorem note_hasDst : (a.note width s).hasDst = (s.hasDst || a.isDst) := by
  unfold note
  split
  · rename_i hdst
    simp [hdst]
  · rename_i hdst
    split
    · simp [hdst]
    · simp [hdst]

theorem foldl_note_table : (attrs.foldl (note width) s).table =
    (attrs.filter isTable).foldl (fun _ a => a.number) s.table := by
  induction attrs generalizing s with
  | nil => rfl
  | cons a attrs ih =>
    rw [List.foldl_cons, ih, note_table, List.filter_cons]
    split
    · rfl
    · rfl

theorem foldl_note_dst : (attrs.foldl (note width) s).dst =
    (attrs.filter isDst).foldl (fun dst a => a.data ++ dst.drop width) s.dst := by
  induction attrs generalizing s with
  | nil => rfl
  | cons a attrs ih =>
    rw [List.foldl_cons, ih, note_dst, List.filter_cons]
    split
    · rfl
    · rfl

theorem foldl_note_hasDst :
    (attrs.foldl (note width) s).hasDst = (s.hasDst || attrs.any isDst) := by
  induction attrs generalizing s with
  | nil => simp
  | cons a attrs ih => rw [List.foldl_cons, ih, note_hasDst, List.any_cons, Bool.or_assoc]

end Attribute

/-! Routes. -/

/-- The fixed part of an ordinary route's message: unicast, without a source, not a clone. -/
structure RtMsg where
  ipv6 : Bool
  len : UInt8
  tos : UInt8
  table : UInt8
  protocol : UInt8
  scope : UInt8
  flags : ℕ
  len_le : len.toNat ≤ (if ipv6 then 128 else 32)
  flags_lt : flags < 256 ^ 4
  not_cloned : flags / 0x200 % 2 = 0

namespace RtMsg
variable {h : RtMsg} {attrs : List Attribute} {tables : List UInt32}

def family (h : RtMsg) : UInt8 := if h.ipv6 then AF_INET6 else AF_INET
def width (h : RtMsg) : ℕ := if h.ipv6 then 16 else 4

def encode (h : RtMsg) : Bytes :=
  [h.family, h.len, 0, h.tos, h.table, h.protocol, h.scope, 1] ++ field 4 h.flags

/-- At most one destination and one table, of the right lengths; a destination unless the prefix
length is zero. -/
structure Admits (h : RtMsg) (attrs : List Attribute) : Prop where
  dst_once : (attrs.filter Attribute.isDst).length ≤ 1
  dst_length : ∀ a ∈ attrs, a.isDst = true → a.data.length = h.width
  dst_present : h.len ≠ 0 → ∃ a ∈ attrs, a.isDst = true
  table_once : (attrs.filter Attribute.isTable).length ≤ 1
  table_length : ∀ a ∈ attrs, a.isTable = true → a.data.length = 4

/-- The table attribute if there is one, else the header's octet. -/
def effectiveTable (h : RtMsg) (attrs : List Attribute) : UInt32 :=
  match attrs.find? Attribute.isTable with
  | some a => a.number
  | none => h.table.toUInt32

/-- The octets of the destination, zero where there is none. -/
def octets (h : RtMsg) (attrs : List Attribute) : Bytes :=
  match attrs.find? Attribute.isDst with
  | some a => a.data
  | none => List.replicate h.width 0

theorem len_le_v6 (hv : h.ipv6 = true) : h.len.toNat ≤ 128 := by
  have hle := h.len_le
  rwa [if_pos hv] at hle

theorem len_le_v4 (hv : ¬ h.ipv6 = true) : h.len.toNat ≤ 32 := by
  have hle := h.len_le
  rwa [if_neg hv] at hle

/-- The destination truncated to the prefix length. -/
def destination (h : RtMsg) (attrs : List Attribute) : IpNet :=
  if hv : h.ipv6 = true then
    .v6 (Net.trunc ⟨ofOctets 128 (h.octets attrs), h.len.toNat, len_le_v6 hv⟩)
  else .v4 (Net.trunc ⟨ofOctets 32 (h.octets attrs), h.len.toNat, len_le_v4 hv⟩)

theorem width_eq_four : h.width = 4 ↔ ¬ h.ipv6 = true := by
  unfold width
  cases h.ipv6 <;> simp

/-- The header passes every check in front of the attributes. -/
theorem route_encode (h : RtMsg) (b : Bytes) (tables : List UInt32) :
    route (h.encode ++ b) tables = (do
      let s ← SliceLoop.loop (routeAttrBody h.width) b
        ⟨h.table.toUInt32, List.replicate 16 0, false⟩
      check (h.len.toNat == 0 || s.hasDst) "missing route destination"
      if tables.contains s.table then return some (← newNet h.width s.dst h.len.toNat)
      else return none) := by
  have hlen : (h.encode ++ b).length = 12 + b.length := by
    simp [encode]
    omega
  have hflags : u32n (field 4 h.flags ++ b) = .ok h.flags :=
    u32n_eq_ok.mpr ⟨h.flags_lt, b, rfl⟩
  have hexcluded : excluded (h.encode ++ b) = .ok false := by
    have hcl := h.not_cloned
    simp [excluded, encode, hflags, hcl]
  have htail : sliceFrom (h.encode ++ b) 12 = .ok b := by
    have hdrop := sliceFrom_append h.encode b
    rwa [show h.encode.length = 12 by simp [encode]] at hdrop
  have hle : h.len.toNat ≤ h.width * 8 := by
    have hle := h.len_le
    unfold width
    split at hle <;> simp_all
  have hfamily : ¬ (h.family ≠ AF_INET ∧ h.family ≠ AF_INET6) := by
    unfold family
    split <;> simp
  have hwidth : (if h.family = AF_INET then 4 else 16) = h.width := by
    unfold family width
    split <;> simp [AF_INET, AF_INET6]
  have h₀ : index (h.encode ++ b) 0 = .ok h.family := rfl
  have h₁ : index (h.encode ++ b) 1 = .ok h.len := rfl
  have h₄ : index (h.encode ++ b) 4 = .ok h.table := rfl
  have hshort : check (decide (12 ≤ (h.encode ++ b).length)) "short rtmsg" = .ok () :=
    check_eq_ok.mpr (decide_eq_true (by omega))
  have hlong : check (decide (h.len.toNat ≤ h.width * 8)) "invalid route prefix length" = .ok () :=
    check_eq_ok.mpr (decide_eq_true hle)
  simp only [route, hshort, h₀, ok_bind, if_neg hfamily, hexcluded, hwidth, routeDestination, h₁,
    hlong, htail, h₄, Bool.false_eq_true, if_false]

theorem Admits.fits (hadm : h.Admits attrs) : ∀ a ∈ attrs, a.fits h.width = .ok () := by
  intro a ha
  unfold Attribute.fits
  split
  · rename_i hdst
    rw [check_eq_ok, beq_iff_eq]
    exact hadm.dst_length a ha hdst
  · split
    · rename_i htable
      rw [check_eq_ok, beq_iff_eq]
      exact hadm.table_length a ha htable
    · rfl

theorem Admits.table (hadm : h.Admits attrs) :
    (attrs.filter Attribute.isTable).foldl (fun _ a => a.number) h.table.toUInt32 =
      h.effectiveTable attrs := by
  have honce := hadm.table_once
  unfold effectiveTable
  rw [← List.head?_filter]
  match attrs.filter Attribute.isTable, honce with
  | [], _ => rfl
  | [a], _ => rfl

/-- The destination stands at the start of its sixteen octets. -/
theorem Admits.octets (hadm : h.Admits attrs) :
    ∃ pad : Bytes, (attrs.filter Attribute.isDst).foldl
      (fun dst a => a.data ++ dst.drop h.width) (List.replicate 16 0) = h.octets attrs ++ pad ∧
      (h.octets attrs).length = h.width ∧ h.width + pad.length = 16 := by
  have honce := hadm.dst_once
  have hdata : ∀ a ∈ attrs.filter Attribute.isDst, a.data.length = h.width := by
    intro a ha
    obtain ⟨hmem, hdst⟩ := List.mem_filter.mp ha
    exact hadm.dst_length a hmem hdst
  have hwidth : h.width ≤ 16 := by
    unfold width
    split <;> omega
  have hpad : h.width + (List.replicate (16 - h.width) (0 : UInt8)).length = 16 := by
    rw [List.length_replicate]
    omega
  refine ⟨List.replicate (16 - h.width) 0, ?_⟩
  unfold RtMsg.octets
  rw [← List.head?_filter]
  match attrs.filter Attribute.isDst, honce, hdata with
  | [], _, _ =>
    refine ⟨?_, List.length_replicate, hpad⟩
    simp only [List.foldl_nil, List.head?_nil, List.replicate_append_replicate]
    congr 1
    omega
  | [a], _, hdata =>
    refine ⟨?_, hdata a List.mem_cons_self, hpad⟩
    simp only [List.foldl_cons, List.foldl_nil, List.head?_cons, List.drop_replicate]

theorem newNet_octets {pad : Bytes} (hlen : (h.octets attrs).length = h.width)
    (hpad : h.width + pad.length = 16) :
    newNet h.width (h.octets attrs ++ pad) h.len.toNat = .ok (h.destination attrs) := by
  unfold newNet destination
  by_cases hv : h.ipv6 = true
  · have hw : h.width = 16 := by rw [width, if_pos hv]
    obtain rfl : pad = [] := List.length_eq_zero_iff.mp (by omega)
    simp only [hw, IpNet.new, dif_pos hv, dif_pos (len_le_v6 hv), List.append_nil]
    rfl
  · have hw : h.width = 4 := width_eq_four.mpr hv
    have htake : (h.octets attrs ++ pad).take 4 = h.octets attrs := by
      rw [← hw, ← hlen, List.take_left]
    simp only [hw, if_true, htake, IpNet.new, dif_neg hv, dif_pos (len_le_v4 hv)]
    rfl

/-- An ordinary route is read as its truncated destination if its table is selected. -/
theorem route_of_admits (hb : Aligned align Attribute.Encodes b attrs) (hadm : h.Admits attrs)
    (tables : List UInt32) : route (h.encode ++ b) tables =
      .ok (if tables.contains (h.effectiveTable attrs) then some (h.destination attrs)
        else none) := by
  have hloop := (Attribute.routeAttrBody_walks h.width).loop_eq_ok.mpr
    ⟨attrs, hb, Attribute.foldlM_read (s := ⟨h.table.toUInt32, List.replicate 16 0, false⟩)
      hadm.fits⟩
  obtain ⟨pad, hdst, hlen, hpad⟩ := hadm.octets
  have hpresent : (h.len.toNat == 0 || attrs.any Attribute.isDst) = true := by
    by_cases hzero : h.len = 0
    · simp [hzero]
    · simp only [Bool.or_eq_true, List.any_eq_true]
      exact Or.inr (hadm.dst_present hzero)
  rw [route_encode, hloop, ok_bind, Attribute.foldl_note_hasDst, Bool.false_or,
    check_eq_ok.mpr hpresent, ok_bind, Attribute.foldl_note_table, hadm.table,
    Attribute.foldl_note_dst, hdst, newNet_octets hlen hpad]
  split <;> rfl

theorem eq_of_perm {l l' : List Attribute} (hp : l'.Perm l) (hl : l.length ≤ 1) : l' = l := by
  match l, hl with
  | [], _ => exact hp.eq_nil
  | [a], _ => exact hp.eq_singleton

section Others
variable {others attrs' : List Attribute}

/-- Other attributes, in any order, leave the relevant ones as they are. -/
theorem filter_others {p : Attribute → Bool} (hp : attrs'.Perm (attrs ++ others))
    (hothers : ∀ a ∈ others, p a = false) (honce : (attrs.filter p).length ≤ 1) :
    attrs'.filter p = attrs.filter p := by
  have hnone : others.filter p = [] := by
    rw [List.filter_eq_nil_iff]
    intro a ha
    simp [hothers a ha]
  have hfilter := hp.filter p
  rw [List.filter_append, hnone, List.append_nil] at hfilter
  exact eq_of_perm hfilter honce

theorem Admits.reordered (hadm : h.Admits attrs) (hp : attrs'.Perm (attrs ++ others))
    (hothers : ∀ a ∈ others, a.isDst = false ∧ a.isTable = false) : h.Admits attrs' := by
  have hdst := filter_others hp (fun a ha => (hothers a ha).1) hadm.dst_once
  have htable := filter_others hp (fun a ha => (hothers a ha).2) hadm.table_once
  have hmem : ∀ a, a ∈ attrs' ∧ a.isDst = true ↔ a ∈ attrs ∧ a.isDst = true := by
    intro a
    rw [← List.mem_filter, ← List.mem_filter, hdst]
  have hmem' : ∀ a, a ∈ attrs' ∧ a.isTable = true ↔ a ∈ attrs ∧ a.isTable = true := by
    intro a
    rw [← List.mem_filter, ← List.mem_filter, htable]
  constructor
  · rw [hdst]
    exact hadm.dst_once
  · intro a ha hd
    exact hadm.dst_length a ((hmem a).mp ⟨ha, hd⟩).1 hd
  · intro hlen
    obtain ⟨a, ha, hd⟩ := hadm.dst_present hlen
    exact ⟨a, (hmem a).mpr ⟨ha, hd⟩⟩
  · rw [htable]
    exact hadm.table_once
  · intro a ha ht
    exact hadm.table_length a ((hmem' a).mp ⟨ha, ht⟩).1 ht

theorem find?_others {p : Attribute → Bool} (hp : attrs'.Perm (attrs ++ others))
    (hothers : ∀ a ∈ others, p a = false) (honce : (attrs.filter p).length ≤ 1) :
    attrs'.find? p = attrs.find? p := by
  rw [← List.head?_filter, filter_others hp hothers honce, List.head?_filter]

/-- Neither the order of the attributes nor any others among them matter. -/
theorem route_reordered {b' : Bytes} (hb : Aligned align Attribute.Encodes b attrs)
    (hadm : h.Admits attrs) (hb' : Aligned align Attribute.Encodes b' attrs')
    (hp : attrs'.Perm (attrs ++ others))
    (hothers : ∀ a ∈ others, a.isDst = false ∧ a.isTable = false) (tables : List UInt32) :
    route (h.encode ++ b') tables = route (h.encode ++ b) tables := by
  have htable : h.effectiveTable attrs' = h.effectiveTable attrs := by
    unfold effectiveTable
    rw [find?_others hp (fun a ha => (hothers a ha).2) hadm.table_once]
  have hdst : h.destination attrs' = h.destination attrs := by
    unfold destination octets
    rw [find?_others hp (fun a ha => (hothers a ha).1) hadm.dst_once]
  rw [route_of_admits hb hadm, route_of_admits hb' (hadm.reordered hp hothers), htable, hdst]

end Others

end RtMsg

/-! Absence of panics. -/

theorem exists_index {i : ℕ} (h : i < b.length) : ∃ x, index b i = .ok x := by
  unfold index
  rw [List.getElem?_eq_getElem h]
  exact ⟨_, rfl⟩

theorem newNet_safe (width : ℕ) (dst : Bytes) (len : ℕ) : Safe (newNet width dst len) := by
  unfold newNet
  split
  · exact safe_ok _
  · simp [Safe]

theorem routeDestination_safe (width : ℕ) {payload : Bytes} (tables : List UInt32)
    (hlen : 12 ≤ payload.length) : Safe (routeDestination width payload tables) := by
  refine (safe_of_exists (exists_index (by omega))).bind fun len _ => ?_
  refine (safe_check _ _).bind fun _ _ => ?_
  refine (safe_of_exists ⟨_, sliceFrom_eq_ok hlen⟩).bind fun attrs _ => ?_
  refine (safe_of_exists (exists_index (by omega))).bind fun table _ => ?_
  have hloop : Safe (SliceLoop.loop (routeAttrBody width) attrs
      ⟨table.toUInt32, List.replicate 16 0, false⟩) :=
    SliceLoop.loop_ne_error (Attribute.routeAttrBody_walks width).progress
      fun b s _ => Attribute.routeAttrBody_safe width b s
  refine hloop.bind fun s _ => ?_
  refine (safe_check _ _).bind fun _ _ => ?_
  split
  · exact (newNet_safe _ _ _).bind fun _ _ => safe_ok _
  · exact safe_ok _

theorem route_safe (payload : Bytes) (tables : List UInt32) : Safe (route payload tables) := by
  refine (safe_check _ _).bind fun _ hlen => ?_
  rw [check_eq_ok, decide_eq_true_eq] at hlen
  refine (safe_of_exists (exists_index (by omega))).bind fun family _ => ?_
  split
  · exact safe_ok _
  · have hexcluded : Safe (excluded payload) := by
      refine (safe_of_exists (exists_index (by omega))).bind fun kind _ => ?_
      refine (safe_of_exists (exists_index (by omega))).bind fun src _ => ?_
      refine (safe_of_exists ⟨_, sliceFrom_eq_ok (by omega)⟩).bind fun t ht => ?_
      have hlen := sliceFrom_length ht
      exact (safe_of_exists (exists_u32n (by omega))).bind fun _ _ => safe_ok _
    refine hexcluded.bind fun out _ => ?_
    split
    · exact safe_ok _
    · exact routeDestination_safe _ tables hlen

/-- Datagrams are split exactly at their messages and routes are read exactly, without ever
reaching past a slice. -/
theorem rtnetlink_exact (bytes payload : Bytes) (tables : List UInt32) :
    (∀ {σ : Type} (f : Message → σ → Except (σ × Fault) σ),
      SliceLoop.Progress (messageBody f) ∧ ∀ s s', messages bytes f s = .error (s', .panic) →
        ∃ m t, f m t = .error (s', .panic)) ∧
    (∀ {σ : Type} (g : Message → σ → σ) (s : σ),
      ((∃ r, messages bytes (fun m s => .ok (g m s)) s = .ok r) ↔ ∃ ms, Datagram bytes ms) ∧
        ∀ ms, Datagram bytes ms →
          messages bytes (fun m s => .ok (g m s)) s = .ok (ms.foldl (fun s m => g m s) s)) ∧
    ((∀ width, SliceLoop.Progress (routeAttrBody width)) ∧ Safe (route payload tables) ∧
      ∀ p, route payload tables = .ok (some p) → p.trunc = p) ∧
    ∀ (h : RtMsg) (attrs : List Attribute) (b : Bytes),
      Aligned align Attribute.Encodes b attrs → h.Admits attrs → payload = h.encode ++ b →
        route payload tables = .ok (if tables.contains (h.effectiveTable attrs) then
          some (h.destination attrs) else none) ∧
        ∀ (others attrs' : List Attribute) (b' : Bytes),
          (∀ a ∈ others, a.isDst = false ∧ a.isTable = false) →
          attrs'.Perm (attrs ++ others) → Aligned align Attribute.Encodes b' attrs' →
            route (h.encode ++ b') tables = route payload tables := by
  refine ⟨?_, ?_, ⟨?_, route_safe payload tables, ?_⟩, ?_⟩
  · intro σ f
    exact ⟨(messageBody_walks f).progress, fun s s' h => messages_panic h⟩
  · intro σ g s
    refine ⟨⟨?_, ?_⟩, ?_⟩
    · rintro ⟨r, hr⟩
      obtain ⟨ms, hms, -⟩ := messages_eq_ok.mp hr
      exact ⟨ms, hms⟩
    · rintro ⟨ms, hms⟩
      exact ⟨_, messages_eq_ok.mpr ⟨ms, hms, rfl⟩⟩
    · intro ms hms
      exact messages_eq_ok.mpr ⟨ms, hms, rfl⟩
  · intro width
    exact (Attribute.routeAttrBody_walks width).progress
  · intro p hp
    exact route_trunc hp
  · rintro h attrs b hb hadm rfl
    refine ⟨RtMsg.route_of_admits hb hadm tables, ?_⟩
    intro others attrs' b' hothers hperm hb'
    exact RtMsg.route_reordered hb hadm hb' hperm hothers tables

/-- The header of the route to 198.51.100.0/24, and its destination. -/
def exampleRtMsg : RtMsg :=
  ⟨false, 24, 0, 254, 0, 0, 0, by decide, by decide, by decide⟩

def exampleDst : Attribute := ⟨1, [198, 51, 100, 0]⟩

/-- A priority attribute of an odd length. -/
def exampleOther : Attribute := ⟨6, [7]⟩

theorem exampleDst_encodes : exampleDst.Encodes [8, 0, 1, 0, 198, 51, 100, 0] :=
  ⟨by decide, by decide, by decide⟩

theorem exampleOther_encodes : exampleOther.Encodes [5, 0, 6, 0, 7] :=
  ⟨by decide, by decide, by decide⟩

theorem exampleRtMsg_admits : exampleRtMsg.Admits [exampleDst] := by
  refine ⟨by decide, ?_, ?_, by decide, ?_⟩
  · simp [exampleDst, exampleRtMsg, RtMsg.width]
  · simp [exampleDst, Attribute.isDst]
  · simp [exampleDst, Attribute.isTable]

/-- A datagram with one unpadded message, and a route with another attribute in front of its
destination. -/
theorem example_rtnetlink :
    messages (datagram 24 1 [7]) (fun m ms => .ok (ms ++ [m])) [] = .ok [⟨24, 0, 1, [7]⟩] ∧
    route (exampleRtMsg.encode ++ [5, 0, 6, 0, 7, 0, 0, 0, 8, 0, 1, 0, 198, 51, 100, 0]) [254] =
      .ok (some (exampleRtMsg.destination [exampleDst])) := by
  constructor
  · have hmessage : Message.Encodes ⟨24, 0, 1, [7]⟩ (datagram 24 1 [7]) :=
      ⟨by decide, by decide, by decide, by decide, [0, 0, 0, 0], rfl, by decide⟩
    exact (((rtnetlink_exact (datagram 24 1 [7]) [] []).2.1
      (fun m (ms : List Message) => ms ++ [m]) []).2 _ (Aligned.last hmessage)).trans rfl
  · have hroute := (rtnetlink_exact [] (exampleRtMsg.encode ++ [8, 0, 1, 0, 198, 51, 100, 0])
      [254]).2.2.2 exampleRtMsg [exampleDst] _ (Aligned.last exampleDst_encodes)
      exampleRtMsg_admits rfl
    have hall : Aligned align Attribute.Encodes
        ([5, 0, 6, 0, 7] ++ [0, 0, 0] ++ [8, 0, 1, 0, 198, 51, 100, 0])
        [exampleOther, exampleDst] :=
      Aligned.cons exampleOther_encodes (by decide) (Aligned.last exampleDst_encodes)
    have hothers : ∀ a ∈ [exampleOther], a.isDst = false ∧ a.isTable = false := by
      simp [exampleOther, Attribute.isDst, Attribute.isTable]
    exact (hroute.2 [exampleOther] _ _ hothers (List.Perm.swap _ _ _) hall).trans hroute.1

end Netlink
end Ubgp
