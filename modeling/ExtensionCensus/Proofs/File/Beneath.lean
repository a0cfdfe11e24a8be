import ExtensionCensus.Proofs.File.Tree
import ExtensionCensus.Proofs.Text.Blank

/-!
# Paths below directories

What lies below a directory, and which directory a path written there names.

* `descend` — the path of some names below a directory; `descend_below`, `descend_inj`;
* `IsBeneath` — a path goes on behind the parts of a directory; `isBeneath_descend_iff` tells it by names;
* `writtenNames`, `NamesInside`, `resolve_eq_descend` — **the names that a relative text writes lead to
  what it is resolved to**;
* `isNormal_directory` — the directory of a path in normal form is in normal form.
-/

namespace ExtensionCensus.Path

/-! ### Names below a directory -/

/-- The path of some names below a directory, each joined to the path before it. -/
def descend (directory : String) (names : List String) : String :=
  names.foldl join directory

variable {root : String} {front names : List String}

theorem descend_below (hroot : root = "/" ∨ root = "//") (hfront : ∀ s ∈ front, IsSegment s)
    (hnames : ∀ s ∈ names, IsSegment s) :
    descend (below root front) names = below root (front ++ names) := by
  induction names generalizing front with
  | nil => rw [List.append_nil, descend, List.foldl_nil]
  | cons s rest ih =>
    obtain ⟨hs, hrest⟩ := List.forall_mem_cons.mp hnames
    have hfront' := List.forall_mem_append.mpr ⟨hfront, List.forall_mem_singleton.mpr hs⟩
    rw [descend, List.foldl_cons, ← descend, join_below hroot hfront hs, ih hfront' hrest,
      List.append_assoc]
    rfl

/-- Names are what is kept of segments. -/
theorem filter_names (hnames : ∀ s ∈ names, IsName s) :
    names.filter (fun s => s ≠ "" && s ≠ ".") = names :=
  List.filter_eq_self.mpr fun s hs => by simp [(hnames s hs).ne_empty, (hnames s hs).ne_here]

/-- The parts of a path in normal form are its root and its names. -/
theorem parts_below (hroot : root = "/" ∨ root = "//") (hnames : ∀ s ∈ names, IsName s) :
    parts (below root names) = root :: names := by
  have hsegments := fun s hs => (hnames s hs).isSegment
  obtain ⟨k, hk⟩ := segments_below hroot hsegments
  have hempty : (List.replicate k "").filter (fun s => s ≠ "" && s ≠ ".") = [] :=
    List.filter_eq_nil_iff.mpr fun s hs => by simp [List.eq_of_mem_replicate hs]
  rw [parts_eq_cons (isAbsolute_below hroot names), rootOf_below hroot hsegments, hk,
    List.drop_succ_cons, List.drop_zero, List.filter_append, hempty, filter_names hnames,
    List.nil_append]

variable {base : String}

theorem isNormal_descend (hbase : IsNormal base) (hnames : ∀ s ∈ names, IsName s) :
    IsNormal (descend base names) := by
  cases hbase with
  | @mk root front hroot hfront =>
    rw [descend_below hroot (fun s hs => (hfront s hs).isSegment) fun s hs =>
      (hnames s hs).isSegment]
    exact .mk hroot (List.forall_mem_append.mpr ⟨hfront, hnames⟩)

theorem parts_descend (hbase : IsNormal base) (hnames : ∀ s ∈ names, IsName s) :
    parts (descend base names) = parts base ++ names := by
  cases hbase with
  | @mk root front hroot hfront =>
    rw [descend_below hroot (fun s hs => (hfront s hs).isSegment) fun s hs =>
      (hnames s hs).isSegment, parts_below hroot (List.forall_mem_append.mpr ⟨hfront, hnames⟩),
      parts_below hroot hfront]
    rfl

/-- Below a directory in normal form different names have different paths. -/
theorem descend_inj {names' : List String} (hbase : IsNormal base)
    (hnames : ∀ s ∈ names, IsName s) (hnames' : ∀ s ∈ names', IsName s)
    (h : descend base names = descend base names') : names = names' := by
  have hparts := congrArg parts h
  rw [parts_descend hbase hnames, parts_descend hbase hnames'] at hparts
  exact List.append_cancel_left hparts

/-! ### Beneath a directory -/

/-- The path lies beneath the directory: its parts are those of the directory and some more. -/
def IsBeneath (directory path : String) : Prop :=
  parts directory <+: parts path ∧ parts directory ≠ parts path

instance (directory path : String) : Decidable (IsBeneath directory path) :=
  inferInstanceAs (Decidable (_ ∧ _))

/-- A file lies beneath a directory, both told from a third, exactly if its directories go through the
other one. -/
theorem isBeneath_descend_iff {name : String} {outer dirs : List String}
    (hbase : IsNormal base) (houter : ∀ s ∈ outer, IsName s)
    (hnames : ∀ s ∈ dirs ++ [name], IsName s) :
    IsBeneath (descend base outer) (descend base (dirs ++ [name])) ↔ outer <+: dirs := by
  rw [IsBeneath, parts_descend hbase houter, parts_descend hbase hnames,
    List.prefix_append_right_inj, List.prefix_concat_iff, ne_eq, List.append_cancel_left_eq]
  constructor
  · rintro ⟨hequal | hprefix, hne⟩
    · exact absurd hequal hne
    · exact hprefix
  · intro hprefix
    refine ⟨.inr hprefix, ?_⟩
    rintro rfl
    have hlength := hprefix.length_le
    rw [List.length_append, List.length_singleton] at hlength
    omega

/-! ### Written directories -/

/-- The segments of a text with slashes of either kind, without blanks at its ends. -/
def writtenSegments (text : String) : List String :=
  Text.segments '/' (Text.replaceChar (Text.trim text) '\\' '/')

/-- The names that a text with slashes of either kind writes. -/
def writtenNames (text : String) : List String :=
  (writtenSegments text).filter fun s => s ≠ "" && s ≠ "."

/-- The text names a directory below the one that it is written in: it is relative, leads up nowhere and
writes some name. -/
structure NamesInside (text : String) : Prop where
  isRelative : ∀ s ∈ (writtenSegments text).head?, s ≠ ""
  leadsDown : ".." ∉ writtenSegments text
  names : writtenNames text ≠ []

theorem namesInside_iff (text : String) : NamesInside text ↔
    ((writtenSegments text).head?.all (· ≠ "")) = true ∧ ".." ∉ writtenSegments text ∧
      writtenNames text ≠ [] := by
  rw [Option.all_eq_true]
  simp only [decide_eq_true_eq]
  exact ⟨fun h => ⟨h.isRelative, h.leadsDown, h.names⟩, fun h => ⟨h.1, h.2.1, h.2.2⟩⟩

instance (text : String) : Decidable (NamesInside text) :=
  decidable_of_iff _ (namesInside_iff text).symm

theorem isName_of_mem_writtenNames {text : String} (h : ".." ∉ writtenSegments text) :
    ∀ s ∈ writtenNames text, IsName s := by
  intro s hs
  rw [writtenNames, List.mem_filter, Bool.and_eq_true, decide_eq_true_eq, decide_eq_true_eq] at hs
  exact ⟨hs.2.1, hs.2.2, fun habove => h (habove ▸ hs.1), Text.not_mem_of_mem_segments hs.1⟩

/-- Segments that lead up nowhere are kept but for those that lead nowhere. -/
theorem collapseSegments_of_leadsDown {absolute : Bool} {segments : List String} (h : ".." ∉ segments)
    (done : List String) : collapseSegments absolute done segments =
      done.reverse ++ segments.filter fun s => s ≠ "" && s ≠ "." := by
  induction segments generalizing done with
  | nil => rw [collapseSegments, List.filter_nil, List.append_nil]
  | cons s rest ih =>
    obtain ⟨hs, hrest⟩ := not_or.mp (List.mem_cons.not.mp h)
    rw [collapseSegments_cons]
    split
    · next hskip =>
      rw [ih hrest, List.filter_cons_of_neg (by simpa [Decidable.or_iff_not_imp_left] using hskip)]
    · next hkept =>
      rw [if_neg (Ne.symm hs), ih hrest, List.filter_cons_of_pos (by simpa [not_or] using hkept),
        List.reverse_cons, List.append_assoc]
      rfl

/-- A path behind a root is cut into its segments, with nothing in front of them. -/
theorem collapseSegments_below {segments : List String} (hroot : root = "/" ∨ root = "//")
    (hne : segments ≠ []) (hslash : ∀ s ∈ segments, '/' ∉ s.toList) :
    collapseSegments true [] (Text.segments '/' (below root segments)) =
      collapseSegments true [] segments := by
  have hcut : Text.segments '/' ("/".intercalate segments) = segments :=
    Text.segments_intercalate hne hslash
  obtain ⟨k, hk⟩ := segments_root hroot ("/".intercalate segments)
  rw [below, hk, hcut]
  exact collapseSegments_replicate (k + 1)

section

variable {text : String}

theorem noSlash_of_mem_writtenSegments {s : String} (hs : s ∈ writtenSegments text) : '/' ∉ s.toList :=
  Text.not_mem_of_mem_segments hs

theorem NamesInside.writtenSegments_ne_nil (h : NamesInside text) : writtenSegments text ≠ [] :=
  fun hnil => h.names (by rw [writtenNames, hnil]; rfl)

theorem NamesInside.not_startsWith (h : NamesInside text) :
    Text.startsWith ("/".intercalate (writtenSegments text)) "/" = false := by
  rw [← Bool.not_eq_true]
  intro habsolute
  have hcut : Text.segments '/' ("/".intercalate (writtenSegments text)) = writtenSegments text :=
    Text.segments_intercalate h.writtenSegments_ne_nil fun _ => noSlash_of_mem_writtenSegments
  have hfirst := segments_of_isAbsolute habsolute
  rw [hcut] at hfirst
  exact h.isRelative "" (by rw [hfirst, List.head?_cons]; rfl) rfl

/-- Behind the names of a directory, or at a root, the text starts with a segment that is not empty. -/
theorem NamesInside.isSegment_head? (h : NamesInside text) (hfront : ∀ s ∈ front, IsSegment s) :
    ∀ s ∈ (front ++ writtenSegments text).head?, IsSegment s := by
  intro s hs
  cases front with
  | nil =>
    rw [List.nil_append] at hs
    exact ⟨h.isRelative s hs, noSlash_of_mem_writtenSegments (List.mem_of_mem_head? hs)⟩
  | cons t front =>
    rw [List.cons_append, List.head?_cons, Option.mem_some_iff] at hs
    exact hs ▸ hfront t List.mem_cons_self

/-- **What a text names inside a directory is what it is resolved to there.** -/
theorem resolve_eq_descend (hbase : IsNormal base) (h : NamesInside text) :
    resolve text base = descend base (writtenNames text) := by
  cases hbase with
  | @mk root front hroot hfront =>
    have hsegments := fun s hs => (hfront s hs).isSegment
    have hnames := isName_of_mem_writtenNames h.leadsDown
    have hne := h.writtenSegments_ne_nil
    have hwritten : "/".intercalate (writtenSegments text) =
        Text.replaceChar (Text.trim text) '\\' '/' := @Text.intercalate_segments '/' _
    have hup : ".." ∉ front ++ writtenSegments text := by
      rw [List.mem_append, not_or]
      exact ⟨fun hmem => (hfront _ hmem).ne_above rfl, h.leadsDown⟩
    have hslash : ∀ s ∈ front ++ writtenSegments text, '/' ∉ s.toList :=
      List.forall_mem_append.mpr
        ⟨fun s hs => (hfront s hs).noSlash, fun _ => noSlash_of_mem_writtenSegments⟩
    calc resolve text (below root front)
        = normalize (below root (front ++ writtenSegments text)) := by
          rw [resolve, ← hwritten, join_below_intercalate hroot hsegments hne h.not_startsWith]
      _ = below root (collapseSegments true [] (front ++ writtenSegments text)) := by
          rw [normalize_of_isAbsolute (isAbsolute_below hroot _),
            rootOf_below_of_head hroot (h.isSegment_head? hsegments),
            collapseSegments_below hroot (List.append_ne_nil_of_right_ne_nil _ hne) hslash]
      _ = below root (front ++ writtenNames text) := by
          rw [collapseSegments_of_leadsDown hup, List.reverse_nil, List.nil_append,
            List.filter_append, filter_names hfront, writtenNames]
      _ = descend (below root front) (writtenNames text) :=
          (descend_below hroot hsegments fun s hs => (hnames s hs).isSegment).symm

end

/-! ### Directories of paths -/

/-- Behind its last slash nothing of a path belongs to its directory. -/
theorem directory_append {head name : String} (hhead : ∀ c ∈ head.toList.getLast?, c = '/')
    (hname : '/' ∉ name.toList) : directory (head ++ name) =
      if head.toList.all (· = '/') then head
      else String.ofList (head.toList.reverse.dropWhile (· = '/')).reverse := by
  have hcut : ((head ++ name).toList.reverse.dropWhile (· ≠ '/')).reverse = head.toList := by
    rw [String.toList_append]
    refine Text.dropWhile_end_append (fun c hc => decide_eq_true ?_) fun c hc => by
      simpa using hhead c hc
    rintro rfl
    exact hname hc
  rw [directory]
  simp only [hcut, String.ofList_toList]

theorem directory_below {name : String} (hroot : root = "/" ∨ root = "//")
    (hnames : ∀ s ∈ front ++ [name], IsSegment s) :
    directory (below root (front ++ [name])) = below root front := by
  have hname := (hnames name (List.mem_append_right _ List.mem_cons_self)).noSlash
  by_cases hnone : front = []
  · subst hnone
    rw [List.nil_append, below, String.intercalate_singleton]
    rcases hroot with rfl | rfl
    · exact directory_append (by simp) hname
    · exact directory_append (by simp) hname
  · have hends := @not_endsIn_below root front hnone fun s hs =>
      hnames s (List.mem_append_left _ hs)
    have hlast : ∀ c ∈ (below root front).toList.getLast?, c ≠ '/' := by
      rintro c hc rfl
      obtain ⟨rest, hrest⟩ := List.getLast?_eq_some_iff.mp hc
      rw [Text.endsIn, hrest] at hends
      exact absurd (List.isSuffixOf_iff_suffix.mpr (List.suffix_append rest ['/']))
        (by rw [← Bool.not_eq_true] at hends; exact hends)
    have hsome : ∃ c ∈ (below root front).toList, c ≠ '/' := by
      have hne : (below root front).toList ≠ [] := fun hnil =>
        below_ne_empty hroot front (String.toList_eq_nil_iff.mp hnil)
      exact ⟨_, List.getLast_mem hne, hlast _ (List.getLast?_eq_some_getLast hne)⟩
    rw [below_concat hnone, directory_append (by simp) hname, if_neg, String.toList_append,
      Text.dropWhile_end_append (by simp) fun c hc => by simpa using hlast c hc,
      String.ofList_toList]
    obtain ⟨c, hc, hne⟩ := hsome
    rw [List.all_eq_true, String.toList_append]
    intro hall
    exact hne (of_decide_eq_true (hall c (List.mem_append_left _ hc)))

theorem isNormal_directory {path : String} (h : IsNormal path) : IsNormal (directory path) := by
  cases h with
  | @mk root names hroot hnames =>
    rcases List.eq_nil_or_concat names with rfl | ⟨front, name, rfl⟩
    · have hself : directory (below root []) = below root [] := by
        rcases hroot with rfl | rfl <;> decide
      rw [hself]
      exact .mk hroot hnames
    · rw [List.concat_eq_append] at hnames ⊢
      rw [directory_below hroot fun s hs => (hnames s hs).isSegment]
      exact .mk hroot fun s hs => hnames s (List.mem_append_left _ hs)

end ExtensionCensus.Path
