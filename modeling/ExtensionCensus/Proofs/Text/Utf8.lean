import ExtensionCensus.Text.Utf8
import Mathlib.Data.List.Basic

/-!
# Encoded text

What strict decoding makes of the bytes of a text.

* `strictFrom_utf8EncodeChar` — one encoded character is read whole, whatever follows it;
* `decodeStrict_toUTF8` — **the bytes of a text are decoded to its characters**.
-/

namespace ExtensionCensus.Text

/-! ### Bytes of a character -/

theorem toNat_ofNat {n : Nat} (h : n < 256) : (UInt8.ofNat n).toNat = n := by
  rw [UInt8.toNat_ofNat', Nat.mod_eq_of_lt h]

/-- A byte that announces more opens a sequence. -/
theorem strictFrom_lead {s : Sequence} {b : UInt8} (h : lead b.toNat = .longer s) (start i : Nat)
    (rest : List UInt8) :
    strictFrom start none i (b :: rest) = strictFrom i (some s) (i + 1) rest := by
  rw [strictFrom, h]

/-- What a byte with the six low bits of `m` adds to a sequence that has those in front. -/
theorem push_tail {need code low high m : Nat} (hcode : code = m / 64) :
    (⟨need, code, low, high⟩ : Sequence).push (UInt8.ofNat (m % 0x40 + 0x80)).toNat =
      if need ≤ 1 then .inl (Char.ofNat m) else .inr ⟨need - 1, m, 0x80, 0xBF⟩ := by
  have hm : code * 64 + (m % 0x40 + 0x80 - 0x80) = m := by omega
  rw [toNat_ofNat (by omega), Sequence.push, hm]

/-- A byte of a sequence that is not its last one. -/
theorem strictFrom_tail {need code low high m : Nat} (hlow : low ≤ m % 0x40 + 0x80)
    (hhigh : m % 0x40 + 0x80 ≤ high) (hcode : code = m / 64) (start i : Nat)
    (rest : List UInt8) :
    strictFrom start (some ⟨need + 2, code, low, high⟩) i (UInt8.ofNat (m % 0x40 + 0x80) :: rest) =
      strictFrom start (some ⟨need + 1, m, 0x80, 0xBF⟩) (i + 1) rest := by
  have hadmits : (⟨need + 2, code, low, high⟩ : Sequence).admits
      (UInt8.ofNat (m % 0x40 + 0x80)).toNat = true := by
    rw [toNat_ofNat (by omega), Sequence.admits, decide_eq_true hlow, decide_eq_true hhigh]
    rfl
  rw [strictFrom, if_pos hadmits, push_tail hcode, if_neg (by omega)]
  rfl

/-- The last byte of a sequence finishes its character. -/
theorem strictFrom_last {code m : Nat} (hcode : code = m / 64) (start i : Nat)
    (rest : List UInt8) :
    strictFrom start (some ⟨1, code, 0x80, 0xBF⟩) i (UInt8.ofNat (m % 0x40 + 0x80) :: rest) =
      (strictFrom (i + 1) none (i + 1) rest).map (Char.ofNat m :: ·) := by
  have hadmits : (⟨1, code, 0x80, 0xBF⟩ : Sequence).admits
      (UInt8.ofNat (m % 0x40 + 0x80)).toNat = true := by
    rw [toNat_ofNat (by omega), Sequence.admits, decide_eq_true (by omega : 0x80 ≤ _),
      decide_eq_true (by omega : _ ≤ 0xBF)]
    rfl
  rw [strictFrom, if_pos hadmits, push_tail hcode, if_pos (Nat.le_refl 1)]

/-! ### Lead bytes -/

theorem lead_one {v : Nat} (h : v ≤ 0x7F) : lead (UInt8.ofNat v).toNat = .single (Char.ofNat v) := by
  rw [toNat_ofNat (by omega), lead, if_pos (by omega)]

theorem lead_two {v : Nat} (hlow : 0x7F < v) (hhigh : v ≤ 0x7FF) :
    lead (UInt8.ofNat (v / 64 % 0x20 + 0xC0)).toNat = .longer ⟨1, v / 64, 0x80, 0xBF⟩ := by
  have hcode : v / 64 % 0x20 + 0xC0 - 0xC0 = v / 64 := by omega
  rw [toNat_ofNat (by omega), lead, if_neg (by omega), if_neg (by omega), if_pos (by omega), hcode]

theorem lead_three {v : Nat} (hhigh : v ≤ 0xFFFF) :
    lead (UInt8.ofNat (v / 4096 % 0x10 + 0xE0)).toNat =
      .longer ⟨2, v / 4096, if v / 4096 = 0 then 0xA0 else 0x80,
        if v / 4096 = 0xD then 0x9F else 0xBF⟩ := by
  have hcode : v / 4096 % 0x10 + 0xE0 - 0xE0 = v / 4096 := by omega
  have hfirst : v / 4096 % 0x10 + 0xE0 = 0xE0 ↔ v / 4096 = 0 := by omega
  have hlast : v / 4096 % 0x10 + 0xE0 = 0xED ↔ v / 4096 = 0xD := by omega
  rw [toNat_ofNat (by omega), lead, if_neg (by omega), if_neg (by omega), if_neg (by omega),
    if_pos (by omega), hcode]
  simp only [hfirst, hlast]

theorem lead_four {v : Nat} (hhigh : v < 0x110000) :
    lead (UInt8.ofNat (v / 262144 % 0x08 + 0xF0)).toNat =
      .longer ⟨3, v / 262144, if v / 262144 = 0 then 0x90 else 0x80,
        if v / 262144 = 4 then 0x8F else 0xBF⟩ := by
  have hcode : v / 262144 % 0x08 + 0xF0 - 0xF0 = v / 262144 := by omega
  have hfirst : v / 262144 % 0x08 + 0xF0 = 0xF0 ↔ v / 262144 = 0 := by omega
  have hlast : v / 262144 % 0x08 + 0xF0 = 0xF4 ↔ v / 262144 = 4 := by omega
  rw [toNat_ofNat (by omega), lead, if_neg (by omega), if_neg (by omega), if_neg (by omega),
    if_neg (by omega), if_pos (by omega), hcode]
  simp only [hfirst, hlast]

/-! ### Characters -/

/-- One encoded character is read whole, whatever follows it. -/
theorem strictFrom_utf8EncodeChar (start i : Nat) (c : Char) (rest : List UInt8) :
    ∃ j, strictFrom start none i (String.utf8EncodeChar c ++ rest) =
      (strictFrom j none j rest).map (c :: ·) := by
  have hvalid : c.val.toNat < 0xD800 ∨ 0xDFFF < c.val.toNat ∧ c.val.toNat < 0x110000 := c.valid
  have hchar : Char.ofNat c.val.toNat = c := Char.ofNat_toNat c
  rw [String.utf8EncodeChar]
  generalize c.val.toNat = v at hvalid hchar ⊢
  subst hchar
  -- by the number of bytes, which the lead byte tells
  by_cases h1 : v ≤ 0x7F
  · refine ⟨i + 1, ?_⟩
    simp only [h1, if_true, List.cons_append, List.nil_append]
    rw [strictFrom, lead_one h1]
  by_cases h2 : v ≤ 0x7FF
  · refine ⟨i + 1 + 1, ?_⟩
    simp only [h1, h2, if_false, if_true, List.cons_append, List.nil_append]
    rw [strictFrom_lead (lead_two (by omega) h2), strictFrom_last rfl]
  by_cases h3 : v ≤ 0xFFFF
  · refine ⟨i + 1 + 1 + 1, ?_⟩
    simp only [h1, h2, h3, if_false, if_true, List.cons_append, List.nil_append]
    rw [strictFrom_lead (lead_three h3), strictFrom_tail (by split <;> omega) (by split <;> omega)
      (by omega), strictFrom_last rfl]
  · refine ⟨i + 1 + 1 + 1 + 1, ?_⟩
    simp only [h1, h2, h3, if_false, List.cons_append, List.nil_append]
    rw [strictFrom_lead (lead_four (by omega)), strictFrom_tail (by split <;> omega)
      (by split <;> omega) (by omega), strictFrom_tail (by omega) (by omega) (by omega),
      strictFrom_last rfl]

/-! ### Texts -/

theorem strictFrom_flatMap (cs : List Char) (start i : Nat) :
    strictFrom start none i (cs.flatMap String.utf8EncodeChar) = .ok cs := by
  induction cs generalizing start i with
  | nil => rw [List.flatMap_nil, strictFrom]
  | cons c rest ih =>
    obtain ⟨j, hj⟩ := strictFrom_utf8EncodeChar start i c (rest.flatMap String.utf8EncodeChar)
    rw [List.flatMap_cons, hj, ih]
    rfl

theorem toList_toUTF8 (text : String) :
    text.toUTF8.data.toList = text.toList.flatMap String.utf8EncodeChar := by
  conv_lhs => rw [← String.ofList_toList (s := text)]
  rw [String.toUTF8_eq_toByteArray, String.toByteArray_ofList, List.utf8Encode,
    List.data_toByteArray]

/-- **The bytes of a text are decoded to its characters.** -/
theorem decodeStrict_toUTF8 (text : String) :
    decodeStrict text.toUTF8.data.toList = .ok text.toList := by
  rw [decodeStrict, toList_toUTF8, strictFrom_flatMap]

end ExtensionCensus.Text
