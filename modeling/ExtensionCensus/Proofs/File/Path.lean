import ExtensionCensus.File.Path
import ExtensionCensus.Proofs.Text.Segment
import Mathlib.Data.List.TakeWhile

/-!
# Normal paths

The form in which absolute paths are compared: a root, and names below it.

* `IsName`, `IsNormal` — what may name a file or directory, and the paths in normal form;
* `IsSegment` — what may stand between two slashes, names and what leads around;
* `segments_below` — a path cut at its slashes;
* `normalize_isNormal`, `normalize_of_isNormal` — **an absolute path is brought into normal form, and
  one that is in it stays as it is**;
* `resolve_isNormal` — what a path below an absolute one leads to;
* `isAbsolute_directory`, `isAbsolute_parent` — the directory of an absolute path is absolute.
-/

namespace ExtensionCensus.Path

/-! ### Names -/

/-- The text may name a file or a directory. -/
structure IsName (s : String) : Prop where
  ne_empty : s ≠ ""
  ne_here : s ≠ "."
  ne_above : s ≠ ".."
  noSlash : '/' ∉ s.toList

theorem isName_iff (s : String) :
    IsName s ↔ s ≠ "" ∧ s ≠ "." ∧ s ≠ ".." ∧ '/' ∉ s.toList :=
  ⟨fun h => ⟨h.ne_empty, h.ne_here, h.ne_above, h.noSlash⟩, fun h => ⟨h.1, h.2.1, h.2.2.1, h.2.2.2⟩⟩

instance (s : String) : Decidable (IsName s) :=
  decidable_of_iff _ (isName_iff s).symm

/-- The text may stand between two slashes. -/
structure IsSegment (s : String) : Prop where
  ne_empty : s ≠ ""
  noSlash : '/' ∉ s.toList

theorem IsName.isSegment {s : String} (h : IsName s) : IsSegment s :=
  ⟨h.ne_empty, h.noSlash⟩

/-- The path of some names below a root. -/
def below (root : String) (names : List String) : String :=
  root ++ "/".intercalate names

/-- The path is absolute and in normal form. -/
inductive IsNormal : String → Prop where
  | mk {root : String} {names : List String} (isRoot : root = "/" ∨ root = "//")
      (areNames : ∀ s ∈ names, IsName s) : IsNormal (below root names)

/-- The path starts at a root. -/
def IsAbsolute (path : String) : Prop :=
  Text.startsWith path "/"

instance (path : String) : Decidable (IsAbsolute path) :=
  inferInstanceAs (Decidable (Text.startsWith path "/" = true))

/-! ### Roots -/

theorem rootOf_cases (path : String) :
    rootOf path = "" ∨ rootOf path = "/" ∨ rootOf path = "//" := by
  rw [rootOf]
  split
  · exact .inr (.inl rfl)
  · exact .inr (.inr rfl)
  · exact .inr (.inl rfl)
  · exact .inl rfl

theorem rootOf_of_isAbsolute {path : String} (h : IsAbsolute path) :
    rootOf path = "/" ∨ rootOf path = "//" := by
  refine (rootOf_cases path).resolve_left fun hroot => ?_
  rw [IsAbsolute, Text.startsWith] at h
  rw [rootOf] at hroot
  split at hroot
  · exact absurd hroot (by decide)
  · exact absurd hroot (by decide)
  · exact absurd hroot (by decide)
  · next hother =>
    cases hpath : path.toList with
    | nil =>
      rw [hpath] at h
      exact absurd h (by decide)
    | cons c rest =>
      rw [hpath] at h
      have hc : '/' = c := by simpa [List.isPrefixOf] using h
      exact hother rest (hc ▸ hpath)

theorem rootOf_ne_empty {path : String} (h : IsAbsolute path) : rootOf path ≠ "" := by
  rcases rootOf_of_isAbsolute h with hroot | hroot <;> rw [hroot] <;> decide

theorem isAbsolute_rootOf {path : String} (h : IsAbsolute path) : IsAbsolute (rootOf path) := by
  rcases rootOf_of_isAbsolute h with hroot | hroot <;> rw [hroot] <;> rfl

/-- A path is normalized below its root. -/
theorem normalize_of_isAbsolute {path : String} (h : IsAbsolute path) :
    normalize path =
      below (rootOf path) (collapseSegments true [] (Text.segments '/' path)) := by
  have hroot := rootOf_ne_empty h
  rw [normalize]
  simp only [decide_eq_true hroot]
  rw [if_neg, below]
  intro hempty
  rw [String.append_eq_empty_iff] at hempty
  exact hroot hempty.1

/-! ### Segments -/

theorem collapseSegments_cons (absolute : Bool) (done : List String) (s : String)
    (rest : List String) : collapseSegments absolute done (s :: rest) =
      if s = "" || s = "." then collapseSegments absolute done rest
      else if s = ".." then
        match done with
        | [] => collapseSegments absolute (if absolute then [] else [s]) rest
        | last :: before =>
          if last = ".." then collapseSegments absolute (s :: done) rest
          else collapseSegments absolute before rest
      else collapseSegments absolute (s :: done) rest := by
  cases done <;> rfl

theorem collapseSegments_of_isName {absolute : Bool} {done names : List String}
    (h : ∀ s ∈ names, IsName s) :
    collapseSegments absolute done names = done.reverse ++ names := by
  induction names generalizing done with
  | nil => rw [collapseSegments, List.append_nil]
  | cons s rest ih =>
    obtain ⟨hempty, hhere, habove, -⟩ := h s List.mem_cons_self
    rw [collapseSegments_cons, if_neg (by simp [hempty, hhere]), if_neg habove,
      ih fun t ht => h t (List.mem_cons_of_mem _ ht), List.reverse_cons, List.append_assoc]
    rfl

theorem collapseSegments_replicate {absolute : Bool} {done rest : List String} (k : Nat) :
    collapseSegments absolute done (List.replicate k "" ++ rest) =
      collapseSegments absolute done rest := by
  induction k with
  | zero => rfl
  | succ k ih => rw [List.replicate_succ, List.cons_append, collapseSegments_cons, if_pos (by decide), ih]

/-- Below a root only names are kept. -/
theorem isName_of_mem_collapseSegments {done segments : List String}
    (hdone : ∀ s ∈ done, IsName s) (hsegments : ∀ s ∈ segments, '/' ∉ s.toList) :
    ∀ s ∈ collapseSegments true done segments, IsName s := by
  induction segments generalizing done with
  | nil =>
    intro s hs
    exact hdone s (List.mem_reverse.mp hs)
  | cons t rest ih =>
    have hrest := fun s hs => hsegments s (List.mem_cons_of_mem _ hs)
    rw [collapseSegments_cons]
    split
    · exact ih hdone hrest
    · next hkept =>
      split
      · split
        · exact ih hdone hrest
        · next last before =>
          rw [if_neg (hdone last List.mem_cons_self).ne_above]
          exact ih (fun s hs => hdone s (List.mem_cons_of_mem _ hs)) hrest
      · next habove =>
        simp only [Bool.or_eq_true, decide_eq_true_eq, not_or] at hkept
        refine ih (fun s hs => ?_) hrest
        rcases List.mem_cons.mp hs with rfl | hs
        · exact ⟨hkept.1, hkept.2, habove, hsegments _ List.mem_cons_self⟩
        · exact hdone s hs

theorem segments_slash (text : String) :
    Text.segments '/' ("/" ++ text) = "" :: Text.segments '/' text := by
  rw [Text.segments, String.toList_append]
  rfl

/-- In front of what follows a root there are only empty segments. -/
theorem segments_root {root : String} (hroot : root = "/" ∨ root = "//") (text : String) :
    ∃ k, Text.segments '/' (root ++ text) =
      "" :: (List.replicate k "" ++ Text.segments '/' text) := by
  rcases hroot with rfl | rfl
  · exact ⟨0, segments_slash text⟩
  · refine ⟨1, ?_⟩
    rw [show "//" = "/" ++ "/" from rfl, String.append_assoc, segments_slash, segments_slash]
    rfl

/-- Behind its root a path is cut into its segments. -/
theorem segments_below {root : String} {names : List String} (hroot : root = "/" ∨ root = "//")
    (hnames : ∀ s ∈ names, IsSegment s) :
    ∃ k, Text.segments '/' (below root names) = "" :: (List.replicate k "" ++ names) := by
  obtain ⟨k, hk⟩ := segments_root hroot ("/".intercalate names)
  cases names with
  | nil =>
    refine ⟨k + 1, hk.trans ?_⟩
    rw [List.append_nil, List.replicate_succ']
    rfl
  | cons s rest =>
    have hcut : Text.segments '/' ("/".intercalate (s :: rest)) = s :: rest :=
      Text.segments_intercalate (List.cons_ne_nil _ _) fun t ht => (hnames t ht).noSlash
    exact ⟨k, by rw [below, hk, hcut]⟩

/-! ### Normal form -/

theorem isAbsolute_below {root : String} (hroot : root = "/" ∨ root = "//") (names : List String) :
    IsAbsolute (below root names) := by
  rw [IsAbsolute, Text.startsWith, below, String.toList_append]
  rcases hroot with rfl | rfl <;> rfl

/-- Behind other names a name stands behind a slash. -/
theorem below_concat {names : List String} (hne : names ≠ []) (root name : String) :
    below root (names ++ [name]) = below root names ++ "/" ++ name := by
  rw [below, below, String.intercalate_append_of_ne_nil hne (List.cons_ne_nil _ _),
    String.intercalate_singleton]
  simp only [String.append_assoc]

/-- The root of a path ends where its first segment starts. -/
theorem rootOf_below_of_head {root : String} {names : List String}
    (hroot : root = "/" ∨ root = "//") (hnames : ∀ s ∈ names.head?, IsSegment s) :
    rootOf (below root names) = root := by
  have hfirst : ∀ rest, ("/".intercalate names).toList ≠ '/' :: rest := by
    intro rest htext
    cases names with
    | nil => cases htext
    | cons s names =>
      obtain ⟨hempty, hslash⟩ := hnames s rfl
      have hhead : (("/".intercalate (s :: names)).toList).head? = s.toList.head? := by
        cases names with
        | nil => rw [String.intercalate_singleton]
        | cons t names =>
          obtain ⟨c, front, hs⟩ :=
            List.exists_cons_of_ne_nil fun hnil => hempty (String.toList_eq_nil_iff.mp hnil)
          rw [String.intercalate_cons_cons, String.append_assoc, String.toList_append, hs]
          rfl
      rw [htext, List.head?_cons] at hhead
      exact hslash (List.mem_of_head? hhead.symm)
  rcases hroot with rfl | rfl
  · rw [rootOf, below, String.toList_append]
    split
    · next h => exact absurd (List.cons.inj h).2 (hfirst _)
    · next h => exact absurd (List.cons.inj h).2 (hfirst _)
    · rfl
    · next h => exact absurd rfl (h _)
  · rw [rootOf, below, String.toList_append]
    split
    · next h => exact absurd (List.cons.inj (List.cons.inj h).2).2 (hfirst _)
    · rfl
    · next hno h => exact absurd (List.cons.inj h).2.symm (hno _)
    · next h => exact absurd rfl (h _)

theorem rootOf_below {root : String} {names : List String} (hroot : root = "/" ∨ root = "//")
    (hnames : ∀ s ∈ names, IsSegment s) : rootOf (below root names) = root :=
  rootOf_below_of_head hroot fun s hs => hnames s (List.mem_of_mem_head? hs)

theorem IsNormal.isAbsolute {path : String} (h : IsNormal path) : IsAbsolute path := by
  cases h with
  | mk hroot _ => exact isAbsolute_below hroot _

/-- An absolute path is brought into normal form. -/
theorem normalize_isNormal {path : String} (h : IsAbsolute path) : IsNormal (normalize path) := by
  rw [normalize_of_isAbsolute h]
  exact .mk (rootOf_of_isAbsolute h)
    (isName_of_mem_collapseSegments (fun _ hs => absurd hs List.not_mem_nil)
      fun _ => Text.not_mem_of_mem_segments)

/-- A path in normal form stays as it is. -/
theorem normalize_of_isNormal {path : String} (h : IsNormal path) : normalize path = path := by
  rw [normalize_of_isAbsolute h.isAbsolute]
  cases h with
  | @mk root names hroot hnames =>
    have hsegments := fun s hs => (hnames s hs).isSegment
    obtain ⟨k, hk⟩ := segments_below hroot hsegments
    rw [rootOf_below hroot hsegments, hk, show "" :: (List.replicate k "" ++ names) =
      List.replicate (k + 1) "" ++ names from rfl, collapseSegments_replicate,
      collapseSegments_of_isName hnames]
    rfl

/-! ### Paths below others -/

theorem isAbsolute_join {base : String} (h : IsAbsolute base) (path : String) :
    IsAbsolute (join base path) := by
  have hfront (rest : String) : IsAbsolute (base ++ rest) := by
    rw [IsAbsolute, Text.startsWith, List.isPrefixOf_iff_prefix] at h ⊢
    rw [String.toList_append]
    exact h.trans (List.prefix_append _ _)
  rw [join]
  split
  · next hpath => exact hpath
  · split
    · exact hfront path
    · rw [String.append_assoc]
      exact hfront ("/" ++ path)

/-- What a path leads to below an absolute one is in normal form. -/
theorem resolve_isNormal {base : String} (h : IsAbsolute base) (path : String) :
    IsNormal (resolve path base) :=
  normalize_isNormal (isAbsolute_join h _)

/-! ### Directories -/

theorem isAbsolute_iff {path : String} : IsAbsolute path ↔ ∃ rest, path.toList = '/' :: rest := by
  rw [IsAbsolute, Text.startsWith, List.isPrefixOf_iff_prefix]
  constructor
  · rintro ⟨rest, hrest⟩
    exact ⟨rest, hrest.symm⟩
  · rintro ⟨rest, hrest⟩
    exact ⟨rest, hrest.symm⟩

/-- Taking characters off the end leaves a first one that would stay. -/
theorem dropWhile_reverse_cons {c : Char} (rest : List Char) {p : Char → Bool}
    (h : p c = false ∨ ∃ d ∈ rest, p d = false) :
    ∃ kept, (((c :: rest).reverse).dropWhile p).reverse = c :: kept := by
  rw [List.reverse_cons, List.dropWhile_append]
  split
  · next hempty =>
    have hall : ∀ d ∈ rest, p d = true := fun d hd =>
      List.dropWhile_eq_nil_iff.mp (List.isEmpty_iff.mp hempty) d (List.mem_reverse.mpr hd)
    have hc : p c = false := h.resolve_right fun ⟨d, hd, hpd⟩ => by
      rw [hall d hd] at hpd
      cases hpd
    exact ⟨[], by rw [List.dropWhile_cons_of_neg (by rw [hc]; exact Bool.false_ne_true)]; rfl⟩
  · exact ⟨_, List.reverse_concat⟩

theorem isAbsolute_directory {path : String} (h : IsAbsolute path) :
    IsAbsolute (directory path) := by
  obtain ⟨rest, hpath⟩ := isAbsolute_iff.mp h
  obtain ⟨front, hfront⟩ := dropWhile_reverse_cons (c := '/') rest
    (p := fun c => decide (c ≠ '/')) (Or.inl rfl)
  rw [isAbsolute_iff, directory, hpath]
  simp only [hfront]
  split
  · exact ⟨front, String.toList_ofList⟩
  · next hall =>
    have hother : ∃ d ∈ front, decide (d = '/') = false := by
      simpa using hall
    obtain ⟨kept, hkept⟩ := dropWhile_reverse_cons (c := '/') front (Or.inr hother)
    exact ⟨kept, by rw [hkept, String.toList_ofList]⟩

theorem isAbsolute_ofParts {root : String} (hroot : root = "/" ∨ root = "//")
    (names : List String) : IsAbsolute (ofParts (root :: names)) := by
  have hslash : Text.startsWith root "/" = true := by
    rcases hroot with rfl | rfl <;> rfl
  rw [ofParts, if_pos hslash]
  exact isAbsolute_below hroot names

/-- An absolute path has nothing in front of its first slash. -/
theorem segments_of_isAbsolute {path : String} (h : IsAbsolute path) :
    Text.segments '/' path = "" :: (Text.segments '/' path).drop 1 := by
  obtain ⟨rest, hpath⟩ := isAbsolute_iff.mp h
  rw [Text.segments, hpath, Text.segmentChars, if_pos rfl]
  rfl

/-- The parts of an absolute path are its root and what names something behind it. -/
theorem parts_eq_cons {path : String} (h : IsAbsolute path) :
    parts path =
      rootOf path :: ((Text.segments '/' path).drop 1).filter fun s => s ≠ "" && s ≠ "." := by
  rw [parts]
  simp only [if_neg (rootOf_ne_empty h)]
  rw [segments_of_isAbsolute h]
  rfl

theorem isAbsolute_ofParts_parts {path : String} (h : IsAbsolute path) :
    IsAbsolute (ofParts (parts path)) := by
  rw [parts_eq_cons h]
  exact isAbsolute_ofParts (rootOf_of_isAbsolute h) _

theorem isAbsolute_parent {path : String} (h : IsAbsolute path) : IsAbsolute (parent path) := by
  have hroot := rootOf_of_isAbsolute h
  have hslash : Text.startsWith (rootOf path) "/" = true := isAbsolute_rootOf h
  rw [parent, parts_eq_cons h]
  generalize ((Text.segments '/' path).drop 1).filter (fun s => s ≠ "" && s ≠ ".") = names
  cases names with
  | nil =>
    show IsAbsolute (if Text.startsWith (rootOf path) "/" then rootOf path else ".")
    rw [if_pos hslash]
    exact hslash
  | cons s rest =>
    show IsAbsolute (ofParts (rootOf path :: (s :: rest).dropLast))
    exact isAbsolute_ofParts hroot _

end ExtensionCensus.Path
