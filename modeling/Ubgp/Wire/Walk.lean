import Ubgp.Wire.Grammar

/-! The receiving loops read as walks over the grammar. -/
namespace Ubgp

open SliceLoop (Control)

variable {b rest : Bytes} {bits width : ℕ} {s : Scan} {n : Negotiated}

theorem foldlM_unit {β : Type} (xs : List β) :
    xs.foldlM (fun (_ : Unit) (_ : β) => (.ok () : Result Unit)) () = .ok () := by
  induction xs with
  | nil => rfl
  | cons x xs ih => simpa using ih

/-! Packed prefixes. -/

theorem nlriBody_some {e : NlriEntry} (h : (nlriCode bits).head b = some (e, rest)) :
    nlriBody bits b () = .ok (.next () rest) := by
  obtain ⟨⟨hbits, hlen⟩, rfl⟩ := ((nlriCode bits).head_eq_some _ _ _).mp h
  have hfits : prefixOctets e.len.toNat < (e.len :: (e.octets ++ rest)).length := by
    rw [List.length_cons, List.length_append, hlen]
    omega
  have hcut : sliceFrom (e.octets ++ rest) (prefixOctets e.len.toNat) = .ok rest := by
    rw [← hlen, sliceFrom_append]
  simp only [nlriBody, nlriCode, List.cons_append, index_zero, ok_bind, hbits, hfits, decide_true,
    Bool.and_self, require_true, sliceFrom_succ, hcut, pure_eq_ok]

theorem nlriBody_none (hb : b ≠ []) (h : (nlriCode bits).head b = none) :
    nlriBody bits b () = .error (err 3 10 "invalid NLRI") := by
  cases b with
  | nil => exact absurd rfl hb
  | cons len tail =>
    simp only [nlriCode, ite_eq_right_iff, reduceCtorEq, imp_false, not_and, not_le] at h
    have hreq : (decide (len.toNat ≤ bits) &&
        decide (prefixOctets len.toNat < (len :: tail).length)) = false := by
      rw [Bool.and_eq_false_iff, decide_eq_false_iff_not, decide_eq_false_iff_not]
      by_cases hl : len.toNat ≤ bits
      · have := h hl
        exact Or.inr (by simp; omega)
      · exact Or.inl hl
    simp only [nlriBody, index_zero, ok_bind, hreq, require_false, error_bind]

/-- The prefix check accepts exactly packed prefixes. -/
theorem validateNlri_eq (b : Bytes) (bits : ℕ) :
    validateNlri b bits = if ((nlriCode bits).walk b).2 = [] then .ok ()
      else .error (err 3 10 "invalid NLRI") := by
  rw [validateNlri, Delimited.loop_walk (c := nlriCode bits) (f := fun _ _ => .ok ())
    (fun _ _ => .error (err 3 10 "invalid NLRI"))
    (fun b s x rest h => nlriBody_some h) (fun b s hb h => nlriBody_none hb h), foldlM_unit]
  rfl

/-! AS paths. -/

theorem segmentOk_cons (kind count : UInt8) (tail : Bytes) :
    segmentOk (kind :: count :: tail) = .ok
      (decide (1 ≤ kind.toNat) && decide (kind.toNat ≤ 4) && decide (0 < count.toNat)) := by
  simp [segmentOk]

theorem pathBody_some {g : PathSegment} (h : (pathCode width).head b = some (g, rest)) :
    pathBody width b () = .ok (.next () rest) := by
  obtain ⟨⟨hkind, hcount, hlen⟩, rfl⟩ := ((pathCode width).head_eq_some _ _ _).mp h
  have hreq : decide (2 + width * g.count.toNat ≤
      ((pathCode width).encode g ++ rest).length) = true := by
    simp [pathCode, ← hlen]
    omega
  have hfrom : sliceFrom ((pathCode width).encode g ++ rest) (2 + width * g.count.toNat) =
      .ok rest := by
    rw [← hlen, Nat.add_comm]
    exact sliceFrom_append ((pathCode width).encode g) rest
  have hcount' : index ((pathCode width).encode g ++ rest) 1 = .ok g.count := rfl
  have hseg : segmentOk ((pathCode width).encode g ++ rest) = .ok true := by
    simp [pathCode, segmentOk_cons, hkind, hcount]
  simp only [pathBody, hseg, hcount', ok_bind, hreq, hfrom, require_true, pure_eq_ok]

/-- The complaint of the path check about a rest that starts with no segment. -/
def pathReason (b : Bytes) : String :=
  match b with
  | kind :: count :: _ =>
    if (1 ≤ kind.toNat ∧ kind.toNat ≤ 4) ∧ 0 < count.toNat then "truncated AS_PATH"
    else "invalid AS_PATH segment"
  | _ => "invalid AS_PATH segment"

theorem pathBody_none (hb : b ≠ []) (h : (pathCode width).head b = none) :
    pathBody width b () = .error (err 3 11 (pathReason b)) := by
  match b, hb, h with
  | [kind], _, _ => simp [pathBody, segmentOk, pathReason]
  | kind :: count :: tail, _, h =>
    simp only [pathCode, ite_eq_right_iff, reduceCtorEq, imp_false, not_and, not_le] at h
    by_cases hseg : (1 ≤ kind.toNat ∧ kind.toNat ≤ 4) ∧ 0 < count.toNat
    · have hlt := h hseg
      have hreq : decide (2 + width * count.toNat ≤ (kind :: count :: tail).length) = false := by
        simp
        omega
      simp only [pathBody, segmentOk_cons, ok_bind, index_succ, index_zero, hreq]
      simp [hseg.1, hseg.2, pathReason]
    · have hseg' : (decide (1 ≤ kind.toNat) && decide (kind.toNat ≤ 4) &&
          decide (0 < count.toNat)) = false := by
        rw [← Bool.not_eq_true]
        simpa [and_assoc] using hseg
      simp only [pathBody, segmentOk_cons, ok_bind, hseg', require_false, error_bind, pathReason,
        if_neg hseg]

/-- The path check accepts exactly packed segments. -/
theorem validatePath_eq (b : Bytes) (width : ℕ) :
    validatePath b width = if ((pathCode width).walk b).2 = [] then .ok ()
      else .error (err 3 11 (pathReason ((pathCode width).walk b).2)) := by
  rw [validatePath, Delimited.loop_walk (c := pathCode width) (f := fun _ _ => .ok ())
    (fun b _ => .error (err 3 11 (pathReason b)))
    (fun b s x rest h => pathBody_some h) (fun b s hb h => pathBody_none hb h), foldlM_unit]
  rfl

/-! Attributes. -/

/-- The loop body with the attribute itself for its parts. -/
def readNext (n : Negotiated) (s : Scan) (a : Attribute) : Result Scan :=
  readAttribute n a.flags a.kind a.data (attributeCode.encode a) s

theorem attributeLength_encode {a : Attribute} (h : a.Fits) (rest : Bytes) :
    attributeLength (attributeCode.encode a ++ rest) (if isExtended a.flags then 4 else 3) =
      .ok a.data.length := by
  have hfield := lengthField_lengthOctets h (a.data ++ rest)
  simp only [attributeLength, attributeCode, List.cons_append, List.append_assoc]
  cases he : isExtended a.flags with
  | true =>
    rw [he] at hfield
    obtain ⟨x, y, hx, hl⟩ := lengthField_extended hfield
    simp [hx, hl]
  | false =>
    rw [he] at hfield
    obtain ⟨x, hx, hl⟩ := lengthField_short hfield
    simp [hx, hl]

/-- Where the parts of a delimited attribute lie. -/
structure AttributeAt (b : Bytes) (a : Attribute) (rest : Bytes) (h : ℕ) : Prop where
  size : h = if isExtended a.flags then 4 else 3
  long : 3 ≤ b.length
  flags : index b 0 = .ok a.flags
  kind : index b 1 = .ok a.kind
  length : attributeLength b h = .ok a.data.length
  fits : h + a.data.length ≤ b.length
  data : slice b h (h + a.data.length) = .ok a.data
  raw : slice b 0 (h + a.data.length) = .ok (attributeCode.encode a)
  rest : sliceFrom b (h + a.data.length) = .ok rest

theorem attributeAt_of_some {a : Attribute} (h : attributeCode.head b = some (a, rest)) :
    AttributeAt b a rest (if isExtended a.flags then 4 else 3) := by
  obtain ⟨hfits, rfl⟩ := (attributeCode.head_eq_some _ _ _).mp h
  have hlength := attributeLength_encode hfits rest
  let hd := a.flags :: a.kind :: a.lengthOctets
  have hhd : hd.length = if isExtended a.flags then 4 else 3 := by
    simp only [hd, Attribute.lengthOctets]
    split <;> simp
  have hsplit : attributeCode.encode a ++ rest = hd ++ (a.data ++ rest) := by
    simp [attributeCode, hd]
  have hraw : (attributeCode.encode a).length = hd.length + a.data.length := by
    simp [attributeCode, hd]
    omega
  have hlen : (attributeCode.encode a ++ rest).length =
      hd.length + a.data.length + rest.length := by
    rw [List.length_append, hraw]
  rw [← hhd] at hlength ⊢
  refine ⟨hhd, ?_, rfl, rfl, hlength, by omega, ?_, ?_, ?_⟩
  · rw [hlen, hhd]
    split <;> omega
  · rw [hsplit]
    exact slice_mid _ _ _
  · rw [← hraw]
    exact slice_append _ _
  · rw [← hraw]
    exact sliceFrom_append _ _

theorem attributeBody_some {a : Attribute} (h : attributeCode.head b = some (a, rest)) :
    attributeBody n b s = (readNext n s a).map (fun s' => Control.next s' rest) := by
  have hat := attributeAt_of_some h
  unfold attributeBody
  rw [if_neg (Nat.not_lt.mpr hat.long), hat.flags, hat.kind]
  simp only [ok_bind]
  generalize (if isExtended a.flags then 4 else 3) = k at hat ⊢
  rw [if_neg (Nat.not_lt.mpr (Nat.le_trans (Nat.le_add_right _ _) hat.fits)), hat.length]
  simp only [ok_bind]
  rw [if_neg (Nat.not_lt.mpr hat.fits), hat.data, hat.raw, hat.rest]
  simp only [ok_bind, readNext]
  cases readAttribute n a.flags a.kind a.data (attributeCode.encode a) s <;> rfl

/-- How a section can end without a delimited attribute at its front. -/
theorem attribute_cut (hb : b ≠ []) (h : attributeCode.head b = none) :
    b.length < 3 ∨ ∃ flags kind x tail, b = flags :: kind :: x :: tail ∧
      ((isExtended flags = true ∧ tail = []) ∨
        ((isExtended flags = true → tail ≠ []) ∧
          ∃ l, attributeLength b (if isExtended flags then 4 else 3) = .ok l ∧
            b.length < (if isExtended flags then 4 else 3) + l)) := by
  rcases b with - | ⟨flags, - | ⟨kind, - | ⟨x, tail⟩⟩⟩
  · exact absurd rfl hb
  · exact Or.inl (by simp)
  · exact Or.inl (by simp)
  · refine Or.inr ⟨flags, kind, x, tail, rfl, ?_⟩
    simp only [attributeCode] at h
    cases he : isExtended flags with
    | true =>
      rw [he] at h
      cases tail with
      | nil => exact Or.inl ⟨rfl, rfl⟩
      | cons y tail =>
        simp only [lengthField, ite_eq_right_iff, reduceCtorEq, imp_false, not_le] at h
        refine Or.inr ⟨by simp, x.toNat * 256 + y.toNat, by simp [attributeLength], ?_⟩
        simp
        omega
    | false =>
      rw [he] at h
      simp only [lengthField, ite_eq_right_iff, reduceCtorEq, imp_false, not_le] at h
      refine Or.inr ⟨by simp, x.toNat, by simp [attributeLength], ?_⟩
      simp
      omega

/-- The rest of the attribute section is a broken multiprotocol attribute. -/
def brokenMp (rest : Bytes) : Bool :=
  match rest with
  | _ :: kind :: _ :: _ => isMp kind
  | _ => false

def brokenReason (rest : Bytes) : String :=
  match rest with
  | flags :: _ :: _ :: tail =>
    if isExtended flags && tail.isEmpty then "short multiprotocol attribute header"
    else "truncated multiprotocol attribute"
  | _ => ""

/-- What the loop makes of a rest that starts with no attribute. -/
def stopScan (rest : Bytes) (s : Scan) : Result Scan :=
  if brokenMp rest then .error (err 3 9 (brokenReason rest))
  else .ok { s with action := .treatAsWithdraw }

theorem stopWalk_eq (mp : Bool) (reason : String) (s : Scan) :
    stopWalk mp reason s = (if mp then .error (err 3 9 reason)
      else .ok { s with action := .treatAsWithdraw } : Result Scan).map Control.leave := by
  cases mp <;> rfl

theorem attributeBody_none (hb : b ≠ []) (h : attributeCode.head b = none) :
    attributeBody n b s = (stopScan b s).map Control.leave := by
  rcases attribute_cut hb h with hshort | ⟨flags, kind, x, tail, rfl, hcut⟩
  · match b, hb, hshort with
    | [_], _, _ => rfl
    | [_, _], _, _ => rfl
  · have hlong : ¬ (flags :: kind :: x :: tail).length < 3 := by simp
    unfold attributeBody
    rw [if_neg hlong]
    simp only [index_zero, index_succ, ok_bind, stopScan, brokenMp, brokenReason]
    rcases hcut with ⟨he, rfl⟩ | ⟨he, l, hl, hlt⟩
    · simp [he, stopWalk_eq]
    · have hhead : ¬ (flags :: kind :: x :: tail).length < if isExtended flags then 4 else 3 := by
        split
        · rename_i hext
          have := List.length_pos_iff.mpr (he hext)
          simp
          omega
        · exact hlong
      have hreason : (isExtended flags && tail.isEmpty) = false := by
        cases hext : isExtended flags with
        | true => simpa using he hext
        | false => rfl
      rw [if_neg hhead, hl, ok_bind, if_pos hlt, stopWalk_eq, hreason]
      rfl

/-- The verdict on the rest of the attribute section. -/
def finishScan (rest : Bytes) (s : Scan) : Result Scan :=
  if rest = [] then .ok s else stopScan rest s

/-- The attribute loop is a fold over the walked attributes, then the verdict on the rest. -/
theorem attributeLoop_eq (b : Bytes) (s : Scan) :
    SliceLoop.loop (attributeBody n) b s =
      (attributeCode.walk b).1.foldlM (readNext n) s >>= finishScan (attributeCode.walk b).2 :=
  Delimited.loop_walk _ (fun _ _ _ _ h => attributeBody_some h)
    (fun _ _ hb h => attributeBody_none hb h)

end Ubgp
