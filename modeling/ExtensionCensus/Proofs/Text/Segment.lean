import ExtensionCensus.Text.Segment
import Mathlib.Logic.Basic

/-!
# Cutting at separators and replacing

* `segments_append` — what stands on the two sides of a separator is cut on its own;
* `segments_intercalate` — **texts without separators are what the text that joins them is cut
  into**;
* `not_mem_of_mem_segments` — no part holds a separator;
* `replaceChars_append_of_not_mem`, `replaceChars_append_self` — replacing goes on behind what cannot
  start an occurrence, and behind an occurrence.
-/

namespace ExtensionCensus.Text

variable {sep : Char}

theorem segmentChars_of_not_mem {cs : List Char} (h : sep ∉ cs) : segmentChars sep cs = [cs] := by
  induction cs with
  | nil => rfl
  | cons c rest ih =>
    obtain ⟨hc, hrest⟩ := not_or.mp (List.mem_cons.not.mp h)
    rw [segmentChars, if_neg (Ne.symm hc), ih hrest]

/-- What stands in front of the first separator is the first part. -/
theorem segmentChars_append {cs : List Char} (h : sep ∉ cs) (rest : List Char) :
    segmentChars sep (cs ++ sep :: rest) = cs :: segmentChars sep rest := by
  induction cs with
  | nil => rw [List.nil_append, segmentChars, if_pos rfl]
  | cons c front ih =>
    obtain ⟨hc, hfront⟩ := not_or.mp (List.mem_cons.not.mp h)
    rw [List.cons_append, segmentChars, if_neg (Ne.symm hc), ih hfront]

/-- A separator cuts: the parts of what stands on its two sides are the parts of the whole. -/
theorem segmentChars_append_cons (cs rest : List Char) :
    segmentChars sep (cs ++ sep :: rest) = segmentChars sep cs ++ segmentChars sep rest := by
  induction cs with
  | nil =>
    rw [List.nil_append, segmentChars.eq_2, if_pos rfl]
    rfl
  | cons c front ih =>
    obtain ⟨part, parts, hparts⟩ := List.exists_cons_of_ne_nil (segmentChars_ne_nil sep front)
    rw [List.cons_append, segmentChars, segmentChars.eq_2 _ c front, ih, hparts]
    split
    · rfl
    · rfl

/-- Two texts around a separator are cut into the parts of the one and the parts of the other. -/
theorem segments_append (first second : String) :
    segments sep (first ++ String.singleton sep ++ second) =
      segments sep first ++ segments sep second := by
  rw [segments, segments, segments, String.toList_append, String.toList_append,
    String.toList_singleton, List.append_assoc, List.singleton_append, segmentChars_append_cons,
    List.map_append]

theorem not_mem_of_mem_segmentChars {part cs : List Char} (h : part ∈ segmentChars sep cs) :
    sep ∉ part := by
  induction cs generalizing part with
  | nil =>
    rw [List.mem_singleton.mp h]
    exact List.not_mem_nil
  | cons c rest ih =>
    rw [segmentChars] at h
    split at h
    · rcases List.mem_cons.mp h with rfl | h
      · exact List.not_mem_nil
      · exact ih h
    · next hc =>
      split at h
      · rw [List.mem_singleton.mp h]
        exact fun hmem => hc (List.mem_singleton.mp hmem).symm
      · next first parts hparts =>
        rcases List.mem_cons.mp h with rfl | h
        · exact List.mem_cons.not.mpr (not_or.mpr ⟨Ne.symm hc, ih (hparts ▸ List.mem_cons_self)⟩)
        · exact ih (hparts ▸ List.mem_cons_of_mem _ h)

/-- No part of a text holds a separator. -/
theorem not_mem_of_mem_segments {part text : String} (h : part ∈ segments sep text) :
    sep ∉ part.toList := by
  obtain ⟨cs, hcs, rfl⟩ := List.mem_map.mp h
  rw [String.toList_ofList]
  exact not_mem_of_mem_segmentChars hcs

theorem exists_mem_segmentChars {c : Char} {cs : List Char} (hc : c ∈ cs) (hsep : c ≠ sep) :
    ∃ part ∈ segmentChars sep cs, c ∈ part := by
  induction cs with
  | nil => cases hc
  | cons d rest ih =>
    rw [segmentChars]
    split
    · next hd =>
      have hrest := (List.mem_cons.mp hc).resolve_left fun h => hsep (h.trans hd)
      obtain ⟨part, hpart, hmem⟩ := ih hrest
      exact ⟨part, List.mem_cons_of_mem _ hpart, hmem⟩
    · obtain ⟨first, parts, hparts⟩ := List.exists_cons_of_ne_nil (segmentChars_ne_nil sep rest)
      rw [hparts] at ih ⊢
      rcases List.mem_cons.mp hc with rfl | hrest
      · exact ⟨_, List.mem_cons_self, List.mem_cons_self⟩
      · obtain ⟨part, hpart, hmem⟩ := ih hrest
        rcases List.mem_cons.mp hpart with rfl | hpart
        · exact ⟨_, List.mem_cons_self, List.mem_cons_of_mem _ hmem⟩
        · exact ⟨part, List.mem_cons_of_mem _ hpart, hmem⟩

/-- Every character but the separator stays in some part. -/
theorem exists_mem_segments {c : Char} {text : String} (hc : c ∈ text.toList) (hsep : c ≠ sep) :
    ∃ part ∈ segments sep text, c ∈ part.toList := by
  obtain ⟨part, hpart, hmem⟩ := exists_mem_segmentChars hc hsep
  exact ⟨_, List.mem_map_of_mem hpart, by rwa [String.toList_ofList]⟩

/-- A text is put together again from its parts. -/
theorem intercalate_segments (text : String) :
    (String.singleton sep).intercalate (segments sep text) = text := by
  have hcompose : String.toList ∘ String.ofList = id := funext fun _ => String.toList_ofList
  rw [← String.toList_inj, String.toList_intercalate, String.toList_singleton, segments,
    List.map_map, hcompose, List.map_id, intercalate_segmentChars]

/-- Texts without separators are what the text that joins them is cut into. -/
theorem segments_intercalate {parts : List String} (hne : parts ≠ [])
    (h : ∀ s ∈ parts, sep ∉ s.toList) :
    segments sep ((String.singleton sep).intercalate parts) = parts := by
  induction parts with
  | nil => exact absurd rfl hne
  | cons s rest ih =>
    have hs := h s List.mem_cons_self
    cases rest with
    | nil =>
      rw [String.intercalate_singleton, segments, segmentChars_of_not_mem hs]
      simp
    | cons t rest =>
      have hrest := ih (List.cons_ne_nil _ _) fun u hu => h u (List.mem_cons_of_mem _ hu)
      rw [segments] at hrest ⊢
      rw [String.intercalate_cons_cons, String.toList_append, String.toList_append,
        String.toList_singleton, List.append_assoc, List.singleton_append, segmentChars_append hs,
        List.map_cons, hrest, String.ofList_toList]

/-! ### Replacing -/

section

variable {c : Char} {old new front : List Char}

/-- What does not hold the first character of a text stays in front of what is replaced behind it. -/
theorem replaceChars_append_of_not_mem (h : c ∉ front) (rest : List Char) :
    replaceChars (c :: old) new 0 (front ++ rest) = front ++ replaceChars (c :: old) new 0 rest := by
  induction front with
  | nil => rfl
  | cons d front ih =>
    obtain ⟨hd, hfront⟩ := not_or.mp (List.mem_cons.not.mp h)
    have hstart : (c :: old).isPrefixOf (d :: (front ++ rest)) = false := by
      rw [List.isPrefixOf_cons_cons, beq_false_of_ne hd, Bool.false_and]
    rw [List.cons_append, replaceChars, hstart, ih hfront]
    rfl

theorem replaceChars_of_not_mem (h : c ∉ front) : replaceChars (c :: old) new 0 front = front := by
  have hrest : replaceChars (c :: old) new 0 (front ++ []) = front ++ replaceChars (c :: old) new 0 [] :=
    replaceChars_append_of_not_mem h []
  rwa [List.append_nil, replaceChars, List.append_nil] at hrest

/-- Characters that still belong to an occurrence are passed over. -/
theorem replaceChars_length (old new passed rest : List Char) :
    replaceChars old new passed.length (passed ++ rest) = replaceChars old new 0 rest := by
  induction passed with
  | nil => rfl
  | cons d passed ih => exact ih

/-- An occurrence is replaced, and then what is behind it. -/
theorem replaceChars_append_self (rest : List Char) :
    replaceChars (c :: old) new 0 (c :: old ++ rest) = new ++ replaceChars (c :: old) new 0 rest := by
  have hstart : (c :: old).isPrefixOf (c :: (old ++ rest)) = true :=
    List.isPrefixOf_iff_prefix.mpr (List.prefix_append (c :: old) rest)
  rw [List.cons_append, replaceChars, if_pos hstart, List.length_cons, Nat.add_sub_cancel,
    replaceChars_length]

end

end ExtensionCensus.Text
