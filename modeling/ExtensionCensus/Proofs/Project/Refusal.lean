import ExtensionCensus.Project.Item
import ExtensionCensus.Proofs.File.Path
import Mathlib.Data.List.Basic

/-!
# Refused patterns

Which texts of items end an evaluation.

* `RefusesPattern`, `RefusesItems` — an entry is an absolute pattern or has two stars beside other
  characters in a segment, and a text of an item names such an entry;
* `ofText_refused_iff` — **a text is refused as a pattern exactly if it names nothing, is absolute or
  has such a segment**;
* `expandItems_error_iff` — the same for the text of an item, once its properties are expanded.
-/

namespace ExtensionCensus

/-! ### Patterns -/

/-- The segment writes no part of a pattern: two stars must stand alone. -/
def HasPartialDescent (segment : String) : Prop :=
  segment ≠ "**" ∧ Glob.hasTwoStars segment.toList

/-- The pattern is absolute, or two stars stand beside other characters in one of its segments. -/
def RefusesPattern (pattern : String) : Prop :=
  Text.startsWith pattern "/" ∨ ∃ segment ∈ Path.parts pattern, HasPartialDescent segment

namespace Glob

theorem partOfText_error_iff (segment : String) :
    (∃ fault, Part.ofText segment = .error fault) ↔ HasPartialDescent segment := by
  rw [Part.ofText, HasPartialDescent]
  split
  · next hdescend => simp [hdescend]
  · next hdescend =>
    split
    · next hstars => exact ⟨fun _ => ⟨hdescend, hstars⟩, fun _ => ⟨_, rfl⟩⟩
    · next hstars =>
      refine ⟨fun ⟨fault, hfault⟩ => ?_, fun h => absurd h.2 hstars⟩
      split at hfault <;> cases hfault

theorem readParts_error_iff (segments : List String) :
    (∃ fault, readParts segments = .error fault) ↔ ∃ s ∈ segments, HasPartialDescent s := by
  induction segments with
  | nil => simp [readParts]
  | cons s rest ih =>
    rw [List.exists_mem_cons_iff, ← ih, ← partOfText_error_iff, readParts]
    cases hs : Part.ofText s with
    | error fault => simp
    | ok part =>
      cases hrest : readParts rest with
      | error fault => simp [Except.map]
      | ok parts => simp [Except.map]

/-- A text that is no separator leaves a segment with something in it. -/
theorem parts_ne_nil {text : String} {c : Char} (hc : c ∈ text.toList) (hslash : c ≠ '/')
    (hdot : c ≠ '.') : Path.parts text ≠ [] := by
  obtain ⟨part, hpart, hmem⟩ := Text.exists_mem_segments hc hslash
  have hkept : part ≠ "" ∧ part ≠ "." := by
    constructor
    · rintro rfl
      cases hmem
    · rintro rfl
      exact hdot (List.mem_singleton.mp hmem)
  exact List.ne_nil_of_mem (List.mem_append_right _
    (List.mem_filter.mpr ⟨hpart, by simpa using hkept⟩))

/-- A text is refused as a pattern exactly if it names nothing, is absolute, or two stars stand
beside other characters. -/
theorem ofText_refused_iff (pattern : String) :
    (∃ fault, ofText pattern = .error fault) ↔
      Path.parts pattern = [] ∨ RefusesPattern pattern := by
  rw [ofText, RefusesPattern]
  split
  · next hempty =>
    subst hempty
    exact ⟨fun _ => .inl rfl, fun _ => ⟨_, rfl⟩⟩
  · split
    · next habsolute => exact ⟨fun _ => .inr (.inl habsolute), fun _ => ⟨_, rfl⟩⟩
    · next habsolute =>
      rw [or_iff_right habsolute, ← readParts_error_iff]
      split
      · next hnone => exact ⟨fun _ => .inl (List.isEmpty_iff.mp hnone), fun _ => ⟨_, rfl⟩⟩
      · next hsome =>
        rw [or_iff_right (by simpa using hsome)]
        cases readParts (Path.parts pattern) with
        | error fault => simp [Except.map]
        | ok parts => simp [Except.map]

/-- A pattern entry is refused exactly if it is absolute or two stars stand beside other
characters. -/
theorem ofText_error_iff {pattern : String} (h : isPatternEntry pattern = true) :
    (∃ fault, ofText pattern = .error fault) ↔ RefusesPattern pattern := by
  obtain ⟨c, hc, hwild⟩ := List.any_eq_true.mp h
  have hparts : Path.parts pattern ≠ [] := by
    rcases Bool.or_eq_true_iff.mp hwild with hwild | hwild
    · exact parts_ne_nil hc (of_decide_eq_true hwild ▸ by decide) (of_decide_eq_true hwild ▸ by decide)
    · exact parts_ne_nil hc (of_decide_eq_true hwild ▸ by decide) (of_decide_eq_true hwild ▸ by decide)
  rw [ofText_refused_iff, or_iff_right hparts]

end Glob

/-! ### Items -/

/-- The entry of an item is a pattern that is refused. -/
def RefusesEntry (written : String) : Prop :=
  let entry := Text.replaceChar (Text.trim written) '\\' '/'
  isPatternEntry entry ∧ RefusesPattern entry

/-- The text of an item names an entry that is refused, once its properties are expanded. -/
def RefusesItems (ps : Properties) (value : String) : Prop :=
  ∃ entry ∈ Text.segments ';' (ps.expand value), RefusesEntry entry

variable (tree : FileTree) (directory : String)

theorem expandEntry_error_iff (written : String) :
    (∃ fault, expandEntry tree directory written = .error fault) ↔ RefusesEntry written := by
  rw [expandEntry, RefusesEntry]
  generalize Text.replaceChar (Text.trim written) '\\' '/' = entry
  split
  · next hempty =>
    rw [hempty]
    exact ⟨fun ⟨_, h⟩ => (nomatch h), fun h => absurd h.1 (by decide)⟩
  · split
    · next hpattern =>
      rw [← Glob.ofText_error_iff hpattern, and_iff_right hpattern]
      cases Glob.ofText entry with
      | error fault => simp [Except.map]
      | ok g => simp [Except.map]
    · next hpath => exact ⟨fun ⟨_, h⟩ => (nomatch h), fun h => absurd h.1 hpath⟩

theorem expandEntries_error_iff (entries : List String) :
    (∃ fault, expandEntries tree directory entries = .error fault) ↔
      ∃ entry ∈ entries, RefusesEntry entry := by
  induction entries with
  | nil => simp [expandEntries]
  | cons entry rest ih =>
    rw [List.exists_mem_cons_iff, ← ih, ← expandEntry_error_iff tree directory, expandEntries]
    cases expandEntry tree directory entry with
    | error fault => simp
    | ok found =>
      cases expandEntries tree directory rest with
      | error fault => simp [Except.map]
      | ok files => simp [Except.map]

theorem expandItems_error_iff (ps : Properties) (value : String) :
    (∃ fault, expandItems tree directory ps value = .error fault) ↔ RefusesItems ps value :=
  expandEntries_error_iff tree directory _

end ExtensionCensus
