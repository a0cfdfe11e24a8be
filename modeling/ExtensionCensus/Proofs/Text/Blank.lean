import ExtensionCensus.Text.Blank
import Mathlib.Data.List.DropRight
import Mathlib.Data.List.TakeWhile

/-!
# Blanks at the ends

What trimming leaves of a text.

* `trimChars_append`, `trim_append` — **blanks around a text that has none at its ends are dropped**;
* `trim_of_ends` — a text without blanks at its ends stays;
* `trim_trim` — what is trimmed has no blanks at its ends.
-/

namespace ExtensionCensus.Text

theorem mem_of_mem_trimChars {c : Char} {cs : List Char} (h : c ∈ trimChars cs) : c ∈ cs := by
  rw [trimChars, dropBlankEnd, List.mem_reverse] at h
  have hmem := (List.dropWhile_sublist _).subset h
  rw [List.mem_reverse] at hmem
  exact (List.dropWhile_sublist _).subset hmem

theorem trimChars_of_blank {cs : List Char} (h : ∀ c ∈ cs, isBlank c = true) :
    trimChars cs = [] := by
  rw [trimChars, List.dropWhile_eq_nil_iff.mpr h]
  rfl

/-- Characters of a class are dropped behind the last one that is not in it. -/
theorem dropWhile_end_append {p : Char → Bool} {cs after : List Char} (hafter : ∀ c ∈ after, p c = true)
    (hlast : ∀ c ∈ cs.getLast?, p c = false) : ((cs ++ after).reverse.dropWhile p).reverse = cs := by
  rw [List.reverse_append,
    List.dropWhile_append_of_pos fun c hc => hafter c (List.mem_reverse.mp hc)]
  rcases List.eq_nil_or_concat cs with rfl | ⟨front, last, rfl⟩
  · rfl
  · rw [List.concat_eq_append] at hlast ⊢
    rw [List.reverse_concat, List.dropWhile_cons_of_neg (by simp [hlast last (by simp)]),
      List.reverse_cons, List.reverse_reverse]

/-- Blanks at the end do not count. -/
theorem dropBlankEnd_append_blank {cs after : List Char} (hafter : ∀ c ∈ after, isBlank c = true) :
    dropBlankEnd (cs ++ after) = dropBlankEnd cs := by
  rw [dropBlankEnd, List.reverse_append,
    List.dropWhile_append_of_pos fun c hc => hafter c (List.mem_reverse.mp hc), dropBlankEnd]

/-- Characters that do not end in a blank stay. -/
theorem dropBlankEnd_append {cs after : List Char} (hafter : ∀ c ∈ after, isBlank c = true)
    (hlast : ∀ c ∈ cs.getLast?, isBlank c = false) : dropBlankEnd (cs ++ after) = cs :=
  dropWhile_end_append hafter hlast

/-- Blanks around characters that have none at their ends are dropped. -/
theorem trimChars_append {before cs after : List Char} (hbefore : ∀ c ∈ before, isBlank c = true)
    (hafter : ∀ c ∈ after, isBlank c = true) (hfirst : ∀ c ∈ cs.head?, isBlank c = false)
    (hlast : ∀ c ∈ cs.getLast?, isBlank c = false) : trimChars (before ++ cs ++ after) = cs := by
  rw [trimChars, List.append_assoc, List.dropWhile_append_of_pos hbefore]
  cases cs with
  | nil =>
    rw [List.nil_append, List.dropWhile_eq_nil_iff.mpr hafter]
    rfl
  | cons first rest =>
    rw [List.cons_append, List.dropWhile_cons_of_neg (by simp [hfirst first rfl]),
      ← List.cons_append, dropBlankEnd_append hafter hlast]

theorem trim_append {before text after : String} (hbefore : ∀ c ∈ before.toList, isBlank c = true)
    (hafter : ∀ c ∈ after.toList, isBlank c = true)
    (hfirst : ∀ c ∈ text.toList.head?, isBlank c = false)
    (hlast : ∀ c ∈ text.toList.getLast?, isBlank c = false) :
    trim (before ++ text ++ after) = text := by
  rw [trim, String.toList_append, String.toList_append,
    trimChars_append hbefore hafter hfirst hlast, String.ofList_toList]

theorem trim_of_ends {text : String} (hfirst : ∀ c ∈ text.toList.head?, isBlank c = false)
    (hlast : ∀ c ∈ text.toList.getLast?, isBlank c = false) : trim text = text := by
  have h := @trim_append "" text "" nofun nofun hfirst hlast
  rwa [String.empty_append, String.append_empty] at h

theorem dropBlankEnd_eq (cs : List Char) : dropBlankEnd cs = cs.rdropWhile isBlank :=
  rfl

/-- What is left of characters starts with no blank. -/
theorem dropWhile_trimChars (cs : List Char) : (trimChars cs).dropWhile isBlank = trimChars cs := by
  refine List.dropWhile_eq_self_iff.mpr fun hpos => ?_
  -- the first character is that of what is left in front of the end
  have hfront : trimChars cs <+: cs.dropWhile isBlank := List.rdropWhile_prefix isBlank _
  rw [hfront.getElem hpos]
  exact List.dropWhile_get_zero_not isBlank cs (Nat.lt_of_lt_of_le hpos hfront.length_le)

theorem trimChars_trimChars (cs : List Char) : trimChars (trimChars cs) = trimChars cs := by
  rw [trimChars, dropWhile_trimChars, trimChars, dropBlankEnd_eq, dropBlankEnd_eq,
    List.rdropWhile_idempotent]

theorem trim_trim (text : String) : trim (trim text) = trim text := by
  rw [trim, trim, String.toList_ofList, trimChars_trimChars]

end ExtensionCensus.Text
