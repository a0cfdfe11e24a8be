import ExtensionCensus.Proofs.File.Writing
import Mathlib.Data.List.Nodup

/-!
# Proper trees

Trees as a file system holds them: every entry of a directory has a name, and no two have the same.

* `Entry.IsProper` — a file, or a directory with such entries, down to the last one; it is decided by
  `Entry.isProper`;
* `Entry.child?_eq_some_iff` — where names differ, the child of a name is the one that has it;
* `Entry.IsProper.isName_of_at?`, `Entry.IsProper.lookup` — **what leads to an entry is made of names, and
  the entry is proper again**.
-/

namespace ExtensionCensus.Entry

open ExtensionCensus.Path (IsName)
open Text (Bytes)

/-- The entries of each directory, down to the last one, have names, and different ones. -/
inductive IsProper : Entry → Prop where
  | file (content : Bytes) : IsProper (.file content)
  | directory {cs : List Child} (areNames : ∀ c ∈ cs, IsName c.name)
      (differ : (cs.map (·.name)).Nodup) (inside : ∀ c ∈ cs, c.entry.IsProper) :
      IsProper (.directory cs)

mutual

/-- Decides whether an entry is proper. -/
def isProper : Entry → Bool
  | .file _ => true
  | .directory cs => decide ((cs.map (·.name)).Nodup) && areProper cs

/-- Decides whether some children have names and are proper. -/
def areProper : List Child → Bool
  | [] => true
  | .mk name e :: rest => decide (IsName name) && isProper e && areProper rest

end

mutual

theorem isProper_iff : ∀ e : Entry, isProper e = true ↔ e.IsProper
  | .file content => ⟨fun _ => .file content, fun _ => rfl⟩
  | .directory cs => by
    rw [isProper, Bool.and_eq_true, decide_eq_true_eq, areProper_iff cs]
    constructor
    · rintro ⟨hdiffer, hall⟩
      exact .directory (fun c hc => (hall c hc).1) hdiffer fun c hc => (hall c hc).2
    · intro h
      cases h with
      | directory hnames hdiffer hinside =>
        exact ⟨hdiffer, fun c hc => ⟨hnames c hc, hinside c hc⟩⟩

theorem areProper_iff :
    ∀ cs : List Child, areProper cs = true ↔ ∀ c ∈ cs, IsName c.name ∧ c.entry.IsProper
  | [] => ⟨fun _ _ hc => absurd hc List.not_mem_nil, fun _ => rfl⟩
  | .mk name e :: rest => by
    rw [areProper, Bool.and_eq_true, Bool.and_eq_true, decide_eq_true_eq, isProper_iff e,
      areProper_iff rest, List.forall_mem_cons]
    rfl

end

instance (e : Entry) : Decidable e.IsProper :=
  decidable_of_iff _ (isProper_iff e)

variable {e inner : Entry} {name : String} {cs : List Child}

theorem mem_children_of_child? (h : e.child? name = some inner) : Child.mk name inner ∈ e.children := by
  rw [child?, Option.map_eq_some_iff] at h
  obtain ⟨⟨found, entry⟩, hfind, hentry⟩ := h
  cases hentry
  have hfound := List.find?_some hfind
  have hname : found = name := of_decide_eq_true hfound
  exact hname ▸ List.mem_of_find?_eq_some hfind

/-- Where names differ, the child of a name is the one that has it. -/
theorem child?_eq_some_iff (hdiffer : (cs.map (·.name)).Nodup) :
    (directory cs).child? name = some inner ↔ Child.mk name inner ∈ cs := by
  refine ⟨mem_children_of_child?, fun hmem => ?_⟩
  cases hchild : (directory cs).child? name with
  | none =>
    rw [child?, Option.map_eq_none_iff, List.find?_eq_none] at hchild
    exact absurd (decide_eq_true rfl) (hchild _ hmem)
  | some other =>
    have hsame := List.inj_on_of_nodup_map hdiffer (mem_children_of_child? hchild) hmem rfl
    rw [(Child.mk.inj hsame).2]

theorem IsProper.child (h : e.IsProper) (hchild : e.child? name = some inner) :
    IsName name ∧ inner.IsProper := by
  cases h with
  | file content => cases hchild
  | directory hnames _ hinside =>
    have hmem := mem_children_of_child? hchild
    exact ⟨hnames _ hmem, hinside _ hmem⟩

theorem IsProper.nodup_names (h : (Entry.directory cs).IsProper) : (cs.map (·.name)).Nodup := by
  cases h with
  | directory _ hdiffer _ => exact hdiffer

theorem IsProper.filter (h : (Entry.directory cs).IsProper) (keep : Child → Bool) :
    (Entry.directory (cs.filter keep)).IsProper := by
  cases h with
  | directory hnames hdiffer hinside =>
    exact .directory (fun c hc => hnames c (List.mem_of_mem_filter hc))
      (hdiffer.sublist (List.filter_sublist.map _)) fun c hc => hinside c (List.mem_of_mem_filter hc)

/-- Only names lead to something in a proper entry. -/
theorem IsProper.isName_of_at? {names : List String} {found : Entry} (h : e.IsProper)
    (hat : e.at? names = some found) : ∀ s ∈ names, IsName s := by
  induction names generalizing e with
  | nil => exact fun s hs => absurd hs List.not_mem_nil
  | cons name rest ih =>
    obtain ⟨inner, hchild, hinner⟩ := at?_cons_iff.mp hat
    obtain ⟨hname, hproper⟩ := h.child hchild
    exact List.forall_mem_cons.mpr ⟨hname, ih hproper hinner⟩

theorem IsProper.follow {above : List Entry} {segments : List String} {found : Entry}
    (h : e.IsProper) (habove : ∀ outer ∈ above, outer.IsProper)
    (hfollow : Entry.follow above e segments = .ok found) : found.IsProper := by
  induction segments generalizing above e with
  | nil =>
    cases hfollow
    exact h
  | cons s rest ih =>
    rw [follow_cons] at hfollow
    split at hfollow
    · cases hfollow
    · split at hfollow
      · exact ih h habove hfollow
      · split at hfollow
        · split at hfollow
          · exact ih h habove hfollow
          · obtain ⟨houter, hfurther⟩ := List.forall_mem_cons.mp habove
            exact ih houter hfurther hfollow
        · split at hfollow
          · next inner hchild =>
            exact ih (h.child hchild).2 (List.forall_mem_cons.mpr ⟨h, habove⟩) hfollow
          · cases hfollow

/-- **What a path leads to in a proper tree is proper.** -/
theorem IsProper.lookup {path : String} {found : Entry} (h : e.IsProper)
    (hlookup : Entry.lookup e path = .ok found) : found.IsProper :=
  h.follow (fun _ hmem => absurd hmem List.not_mem_nil) hlookup

end ExtensionCensus.Entry
