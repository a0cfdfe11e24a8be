import ExtensionCensus.Proofs.File.Path
import ExtensionCensus.Workspace.Load

/-!
# Files of a tree

* `Entry.mem_files_of_follow` — what names lead to is among the files of the tree;
* `mem_filePaths_of_read` — **every normal path that can be read is a path of a file**.
-/

namespace ExtensionCensus

open ExtensionCensus.Path (IsName IsNormal IsSegment below)

/-! ### Joining names -/

namespace Path

theorem not_startsWith_of_isSegment {s : String} (h : IsSegment s) :
    Text.startsWith s "/" = false := by
  rw [← Bool.not_eq_true]
  intro hs
  obtain ⟨rest, hrest⟩ := isAbsolute_iff.mp hs
  exact h.noSlash (hrest ▸ List.mem_cons_self)

/-- A text that ends in a segment does not end in a slash. -/
theorem not_endsIn_of_isSegment {s : String} (h : IsSegment s) (front : String) :
    Text.endsIn (front ++ s) "/" = false := by
  rw [← Bool.not_eq_true, Text.endsIn, List.isSuffixOf_iff_suffix, String.toList_append]
  rintro ⟨rest, hrest⟩
  have hlast : (front.toList ++ s.toList).getLast? = some '/' := by
    rw [← hrest]
    exact List.getLast?_concat
  have hne : s.toList ≠ [] := fun hnil => h.ne_empty (String.toList_eq_nil_iff.mp hnil)
  rw [List.getLast?_append, List.getLast?_eq_some_getLast hne, Option.some_or, Option.some.injEq]
    at hlast
  exact h.noSlash (hlast ▸ List.getLast_mem hne)

/-- A path behind a root does not end in a slash if a name stands there. -/
theorem not_endsIn_below {root : String} {names : List String} (hne : names ≠ [])
    (hnames : ∀ t ∈ names, IsSegment t) : Text.endsIn (below root names) "/" = false := by
  rcases List.eq_nil_or_concat names with rfl | ⟨front, t, rfl⟩
  · exact absurd rfl hne
  · rw [List.concat_eq_append] at hnames ⊢
    have ht := hnames t (List.mem_append_right _ List.mem_cons_self)
    cases front with
    | nil =>
      rw [List.nil_append, below, String.intercalate_singleton]
      exact not_endsIn_of_isSegment ht root
    | cons u front =>
      rw [below_concat (List.cons_ne_nil _ _)]
      exact not_endsIn_of_isSegment ht _

theorem below_ne_empty {root : String} (hroot : root = "/" ∨ root = "//") (names : List String) :
    below root names ≠ "" := by
  rw [below]
  intro hempty
  have hempty := (String.append_eq_empty_iff.mp hempty).1
  rcases hroot with rfl | rfl <;> exact absurd hempty (by decide)

/-- What does not start with a slash, below a path behind a root. -/
theorem join_below_intercalate {root : String} {names segments : List String}
    (hroot : root = "/" ∨ root = "//") (hnames : ∀ t ∈ names, IsSegment t) (hne : segments ≠ [])
    (hrelative : Text.startsWith ("/".intercalate segments) "/" = false) :
    join (below root names) ("/".intercalate segments) = below root (names ++ segments) := by
  rw [join, if_neg (by rw [hrelative]; exact Bool.false_ne_true)]
  by_cases hnone : names = []
  · subst hnone
    rcases hroot with rfl | rfl <;> rfl
  · rw [not_endsIn_below hnone hnames, Bool.or_false,
      if_neg (by simpa using below_ne_empty hroot names), below, below,
      String.intercalate_append_of_ne_nil hnone hne]
    simp only [String.append_assoc]

/-- A segment below a path behind a root. -/
theorem join_below {root : String} {names : List String} {s : String}
    (hroot : root = "/" ∨ root = "//") (hnames : ∀ t ∈ names, IsSegment t) (hs : IsSegment s) :
    join (below root names) s = below root (names ++ [s]) := by
  have hjoin := @join_below_intercalate root names [s] hroot hnames (List.cons_ne_nil _ _)
  rw [String.intercalate_singleton] at hjoin
  exact hjoin (not_startsWith_of_isSegment hs)

end Path

/-! ### Following names -/

namespace Entry

variable {above : List Entry} {e : Entry}

theorem follow_cons (s : String) (rest : List String) :
    follow above e (s :: rest) =
      if !e.isDirectory then .error .notDirectory
      else if s = "" || s = "." then follow above e rest
      else if s = ".." then
        match above with
        | [] => follow [] e rest
        | outer :: further => follow further outer rest
      else
        match e.child? s with
        | some inner => follow (e :: above) inner rest
        | none => .error .missing := by
  cases above <;> rfl

theorem follow_name {s : String} (hs : IsName s) (rest : List String) :
    follow above e (s :: rest) =
      if !e.isDirectory then .error .notDirectory
      else
        match e.child? s with
        | some inner => follow (e :: above) inner rest
        | none => .error .missing := by
  rw [follow_cons, if_neg (by simp [hs.ne_empty, hs.ne_here] : ¬(s = "" || s = ".") = true),
    if_neg hs.ne_above]

/-- Empty segments lead nowhere. -/
theorem follow_of_replicate {found : Entry} {rest : List String} (k : Nat)
    (h : follow above e (List.replicate k "" ++ rest) = .ok found) :
    follow above e rest = .ok found := by
  induction k with
  | zero => exact h
  | succ k ih =>
    refine ih ?_
    rw [List.replicate_succ, List.cons_append, follow_cons] at h
    split at h
    · cases h
    · exact h

/-- The files below a child are files of its directory. -/
theorem mem_files_of_child? {path s file : String} {inner : Entry} (hchild : e.child? s = some inner)
    (h : file ∈ files (Path.join path s) inner) : file ∈ files path e := by
  have hbelow : ∀ cs : List Child, (cs.find? (·.name = s)).map (·.entry) = some inner →
      file ∈ filesOf path cs := by
    intro cs hfind
    induction cs with
    | nil => cases hfind
    | cons c rest ih =>
      obtain ⟨name, entry⟩ := c
      rw [filesOf, List.mem_append]
      rw [List.find?_cons] at hfind
      split at hfind
      · next hname =>
        cases hfind
        cases of_decide_eq_true hname
        exact .inl h
      · exact .inr (ih hfind)
  cases e with
  | file content => cases hchild
  | directory cs =>
    rw [files]
    exact hbelow cs hchild

/-- What names lead to from an entry is among the files below it. -/
theorem mem_files_of_follow {content : Text.Bytes} {names : List String}
    (hnames : ∀ s ∈ names, IsName s) (front : List String) (hfront : ∀ s ∈ front, IsName s)
    (h : follow above e names = .ok (.file content)) :
    below "/" (front ++ names) ∈ files (below "/" front) e := by
  induction names generalizing above e front with
  | nil =>
    rw [follow] at h
    cases h
    rw [List.append_nil, files]
    exact List.mem_singleton_self _
  | cons s rest ih =>
    have hs := hnames s List.mem_cons_self
    rw [follow_name hs] at h
    split at h
    · cases h
    · split at h
      · next inner hchild =>
        have hfront' : ∀ t ∈ front ++ [s], IsName t := fun t ht =>
          (List.mem_append.mp ht).elim (hfront t) fun ht => List.mem_singleton.mp ht ▸ hs
        have hinner := ih (fun t ht => hnames t (List.mem_cons_of_mem _ ht)) _ hfront' h
        rw [← Path.join_below (Or.inl rfl) (fun t ht => (hfront t ht).isSegment) hs.isSegment,
          List.append_assoc] at hinner
        exact mem_files_of_child? hchild hinner
      · cases h

end Entry

/-- **Every path in normal form that can be read is a path of a file.** -/
theorem mem_filePaths_of_read {tree : FileTree} {path : String} {content : Text.Bytes}
    (hpath : IsNormal path) (h : tree.read path = .ok content) : path ∈ filePaths tree := by
  have hlookup : tree.lookup path = .ok (.file content) := by
    rw [Entry.read] at h
    split at h
    · next hfound =>
      cases h
      exact hfound
    · cases h
    · cases h
  cases hpath with
  | @mk root names hroot hnames =>
    obtain ⟨k, hk⟩ := Path.segments_below hroot fun s hs => (hnames s hs).isSegment
    rw [Entry.lookup, hk, List.drop_succ_cons, List.drop_zero] at hlookup
    have hfile := Entry.mem_files_of_follow hnames [] (fun _ hs => absurd hs List.not_mem_nil)
      (Entry.follow_of_replicate k hlookup)
    rw [filePaths]
    rcases hroot with rfl | rfl
    · exact List.mem_append_left _ hfile
    · exact List.mem_append_right _ (List.mem_map.mpr ⟨_, hfile, by
        rw [List.nil_append, below, below, ← String.append_assoc]; rfl⟩)

end ExtensionCensus
