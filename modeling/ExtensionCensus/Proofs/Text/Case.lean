import ExtensionCensus.Text.Case
import Mathlib.Data.List.Basic

/-!
# Letter case of short words

What lower case makes of the letters of ASCII, and which characters become such letters.

* `mapCase_ascii` — a character of ASCII becomes its small letter;
* `exists_mem_mapCase` — any other character, but for the sign of Kelvin, becomes nothing of ASCII
  alone;
* `lower_eq_iff` — **a text is a word of ASCII without `k` in lower case exactly if it is that word
  in any letter case**.
-/

namespace ExtensionCensus.Text

/-- A character of ASCII that no other character becomes. -/
def IsPlainLetter (c : Char) : Prop :=
  c.toNat < 0x80 ∧ c ≠ 'k'

instance (c : Char) : Decidable (IsPlainLetter c) :=
  inferInstanceAs (Decidable (_ ∧ _))

/-! ### Characters -/

/-- The run of the capital letters of ASCII is the only one that starts there. -/
theorem lowerRuns_ascii {n : Nat} (h : n < 0x80) :
    lowerRuns.findSome? (·.map? n) = (⟨0x41, 0x5A, 1, 32⟩ : CaseRun).map? n := by
  have hbeyond : ∀ r ∈ lowerRuns.tail, 0x80 ≤ r.first := by decide +kernel
  have htail : lowerRuns.tail.findSome? (·.map? n) = none := by
    rw [List.findSome?_eq_none_iff]
    intro r hr
    rw [CaseRun.map?, if_neg]
    exact fun hrun => absurd (hbeyond r hr) (by omega)
  rw [show lowerRuns = ⟨0x41, 0x5A, 1, 32⟩ :: lowerRuns.tail from rfl, List.findSome?_cons, htail]
  split <;> simp_all

/-- A character of ASCII becomes its small letter. -/
theorem mapCase_ascii {c : Char} (h : c.toNat < 0x80) :
    mapCase lowerRuns lowerExpansions c = [c.toLower] := by
  have hall : ∀ n < 0x80, (((⟨0x41, 0x5A, 1, 32⟩ : CaseRun).map? n).map Char.ofNat).getD
      (Char.ofNat n) = (Char.ofNat n).toLower := by
    decide +kernel
  have hc := hall c.toNat h
  have hexpansions : lowerExpansions.lookup c.toNat = none := by
    rw [lowerExpansions, List.lookup_cons, beq_eq_false_iff_ne.mpr (by omega)]
    rfl
  rw [Char.ofNat_toNat] at hc
  rw [mapCase, lowerRuns_ascii h, hexpansions]
  cases hmap : (⟨0x41, 0x5A, 1, 32⟩ : CaseRun).map? c.toNat with
  | none =>
    rw [hmap] at hc
    exact congrArg ([·]) hc
  | some m =>
    rw [hmap] at hc
    exact congrArg ([·]) hc

/-- What a run beyond ASCII leads to: characters beyond ASCII, but for the sign of Kelvin. -/
theorem lowerRuns_beyond : ∀ r ∈ lowerRuns, r.last < 0x80 ∨
    ((0x80 : Int) ≤ r.first + r.shift ∧ (r.last + r.shift < 0xD800 ∨
      0xE000 ≤ r.first + r.shift ∧ r.last + r.shift < 0x110000)) ∨
    ((r.first : Int) + r.shift = 'k'.toNat ∧ r.last = r.first) := by
  decide +kernel

theorem toNat_ofNat_of_valid {n : Nat} (h : n < 0xD800 ∨ 0xE000 ≤ n ∧ n < 0x110000) :
    (Char.ofNat n).toNat = n := by
  have hvalid : n.isValidChar := by
    rw [Nat.isValidChar]
    omega
  rw [Char.ofNat, dif_pos hvalid]
  rfl

/-- A character beyond ASCII becomes nothing of plain letters alone. -/
theorem exists_mem_mapCase {c : Char} (h : 0x80 ≤ c.toNat) :
    ∃ d ∈ mapCase lowerRuns lowerExpansions c, ¬IsPlainLetter d := by
  rw [mapCase]
  split
  · next m hm =>
    obtain ⟨r, hr, hmap⟩ := List.exists_of_findSome?_eq_some hm
    rw [CaseRun.map?] at hmap
    split at hmap
    case isFalse => cases hmap
    next hrun =>
    refine ⟨_, List.mem_singleton_self _, ?_⟩
    have hmn := Option.some.inj hmap
    rcases lowerRuns_beyond r hr with hlast | ⟨hbeyond, hvalid⟩ | ⟨hkelvin, hlast⟩
    · omega
    · rw [IsPlainLetter, toNat_ofNat_of_valid (by omega)]
      omega
    · have hk : m = 'k'.toNat := by omega
      rw [hk]
      exact fun hplain => hplain.2 (Char.ofNat_toNat 'k')
  · split
    · next ms hms =>
      have hdot : ms = [0x69, 0x307] := by
        rw [lowerExpansions, List.lookup_cons] at hms
        split at hms
        · exact (Option.some.inj hms).symm
        · cases hms
      rw [hdot]
      exact ⟨Char.ofNat 0x307, by simp, by decide⟩
    · exact ⟨c, List.mem_singleton_self c, fun hplain => absurd hplain.1 (by omega)⟩

/-! ### Texts -/

theorem lowerFrom_ascii {cs : List Char} (h : ∀ c ∈ cs, c.toNat < 0x80) (before : List Char) :
    lowerFrom before cs = cs.map Char.toLower := by
  induction cs generalizing before with
  | nil => rfl
  | cons c rest ih =>
    have hc := h c List.mem_cons_self
    have hsigma : c ≠ 'Σ' := by
      rintro rfl
      exact absurd hc (by decide)
    rw [lowerFrom, if_neg hsigma, mapCase_ascii hc,
      ih fun d hd => h d (List.mem_cons_of_mem c hd), List.map_cons, List.singleton_append]

theorem exists_mem_lowerFrom {c : Char} {cs : List Char} (hc : c ∈ cs) (h : 0x80 ≤ c.toNat)
    (before : List Char) : ∃ d ∈ lowerFrom before cs, ¬IsPlainLetter d := by
  induction cs generalizing before with
  | nil => cases hc
  | cons a rest ih =>
    rw [lowerFrom]
    rcases List.mem_cons.mp hc with rfl | hc
    · obtain ⟨d, hd, hplain⟩ : ∃ d ∈ (if c = 'Σ' then
          [if meetsCased before && !meetsCased rest then 'ς' else 'σ']
          else mapCase lowerRuns lowerExpansions c), ¬IsPlainLetter d := by
        split
        · exact ⟨_, List.mem_singleton_self _, by split <;> decide⟩
        · exact exists_mem_mapCase h
      exact ⟨d, List.mem_append_left _ hd, hplain⟩
    · obtain ⟨d, hd, hplain⟩ := ih hc (a :: before)
      exact ⟨d, List.mem_append_right _ hd, hplain⟩

theorem toLower_beyond {c : Char} (h : 0x80 ≤ c.toNat) : c.toLower = c := by
  have hnot : ¬(c.val ≥ 'A'.val ∧ c.val ≤ 'Z'.val) := by
    rintro ⟨-, hlast⟩
    have hZ : c.val.toNat ≤ 'Z'.val.toNat := UInt32.le_iff_toNat_le.mp hlast
    exact absurd (Nat.le_trans h hZ) (by decide : ¬0x80 ≤ 'Z'.val.toNat)
  exact dif_neg hnot

/-- **A text is a word of plain letters in lower case exactly if it is that word in any letter
case.** -/
theorem lower_eq_iff {text word : String} (hword : ∀ d ∈ word.toList, IsPlainLetter d) :
    lower text = word ↔ text.toList.map Char.toLower = word.toList := by
  have hlower : lower text = word ↔ lowerFrom [] text.toList = word.toList := by
    rw [← String.toList_inj, lower, String.toList_ofList]
  rw [hlower]
  by_cases hascii : ∀ c ∈ text.toList, c.toNat < 0x80
  · rw [lowerFrom_ascii hascii]
  · obtain ⟨c, hc, hbeyond⟩ : ∃ c ∈ text.toList, 0x80 ≤ c.toNat := by
      simpa only [not_forall, Nat.not_lt, exists_prop] using hascii
    constructor
    · intro heq
      obtain ⟨d, hd, hplain⟩ := exists_mem_lowerFrom hc hbeyond []
      exact absurd (hword d (heq ▸ hd)) hplain
    · intro heq
      have hmem := List.mem_map_of_mem (f := Char.toLower) hc
      rw [heq, toLower_beyond hbeyond] at hmem
      exact absurd (hword c hmem).1 (by omega)

end ExtensionCensus.Text
