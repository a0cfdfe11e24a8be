import ExtensionCensus.Project.File
import ExtensionCensus.Project.Unit
import ExtensionCensus.Proofs.File.Path
import ExtensionCensus.Proofs.Text.Blank

/-!
# Labels of units

Where the label of a target framework is written, and that it is read back from there: in a list of
frameworks, at the end of a display name, and in the path of an output directory.

* `Enumerates`, `listEntries_intercalate` — a list with blanks and empty entries names its frameworks;
* `splitDisplayName_label` — a display name gives its stem and its label back;
* `nearestFramework`, `frameworkOfOutput_join` — the label of an output path depends on the
  directory alone;
* `nearestFramework_resolve` — **a directory that ends in a framework has its label**, whatever
  stands before.
-/

namespace ExtensionCensus

open ExtensionCensus.Path (IsAbsolute IsName below)

/-! ### Known frameworks -/

/-- The labels of known frameworks are plain names. -/
theorem plain_of_mem_knownFrameworks : ∀ f ∈ knownFrameworks, f ≠ "" ∧ f ≠ "." ∧ f ≠ ".." ∧
    ∀ c ∈ f.toList, c ≠ '/' ∧ c ≠ '\\' ∧ c ≠ '(' ∧ c ≠ ';' ∧ Text.isBlank c = false := by
  -- over the characters of a name, not over all characters
  have hplain : ∀ f ∈ knownFrameworks, f ≠ "" ∧ f ≠ "." ∧ f ≠ ".." ∧ f.toList.all (fun c =>
      c ≠ '/' ∧ c ≠ '\\' ∧ c ≠ '(' ∧ c ≠ ';' ∧ Text.isBlank c = false) = true := by
    decide
  simpa only [List.all_eq_true, decide_eq_true_eq] using hplain

section

variable {f : String} (h : isKnownFramework f = true)

include h

theorem mem_knownFrameworks : f ∈ knownFrameworks :=
  List.contains_iff_mem.mp h

theorem ne_empty_of_known : f ≠ "" :=
  (plain_of_mem_knownFrameworks f (mem_knownFrameworks h)).1

theorem chars_of_known : ∀ c ∈ f.toList,
    c ≠ '/' ∧ c ≠ '\\' ∧ c ≠ '(' ∧ c ≠ ';' ∧ Text.isBlank c = false :=
  (plain_of_mem_knownFrameworks f (mem_knownFrameworks h)).2.2.2

theorem isName_of_known : IsName f := by
  obtain ⟨hempty, hhere, habove, hchars⟩ := plain_of_mem_knownFrameworks f (mem_knownFrameworks h)
  exact ⟨hempty, hhere, habove, fun hslash => (hchars _ hslash).1 rfl⟩

end

/-! ### Lists of frameworks -/

/-- The entries name these frameworks, with blanks around them, and some entries are blank. -/
inductive Enumerates : List String → List String → Prop where
  | done : Enumerates [] []
  | blank {entry : String} {entries frameworks : List String}
      (blank : entry.toList.all Text.isBlank = true) (rest : Enumerates entries frameworks) :
      Enumerates (entry :: entries) frameworks
  | framework {before f after : String} {entries frameworks : List String}
      (before_blank : before.toList.all Text.isBlank = true)
      (after_blank : after.toList.all Text.isBlank = true) (rest : Enumerates entries frameworks) :
      Enumerates ((before ++ f ++ after) :: entries) (f :: frameworks)

namespace Enumerates

variable {entries frameworks : List String}

theorem filter_trim (h : Enumerates entries frameworks)
    (hknown : ∀ f ∈ frameworks, isKnownFramework f = true) :
    (entries.map Text.trim).filter (· ≠ "") = frameworks := by
  induction h with
  | done => rfl
  | blank hblank rest ih =>
    rw [List.map_cons, Text.trim, Text.trimChars_of_blank (List.all_eq_true.mp hblank), List.filter_cons_of_neg (by decide),
      ih hknown]
  | @framework before f after entries frameworks hbefore hafter rest ih =>
    have hf := hknown f List.mem_cons_self
    have hchars := chars_of_known hf
    rw [List.map_cons, Text.trim_append (List.all_eq_true.mp hbefore)
        (List.all_eq_true.mp hafter)
        (fun c hc => (hchars c (List.mem_of_head? hc)).2.2.2.2)
        (fun c hc => (hchars c (List.mem_of_getLast? hc)).2.2.2.2),
      List.filter_cons_of_pos (by simpa using ne_empty_of_known hf),
      ih fun g hg => hknown g (List.mem_cons_of_mem _ hg)]

theorem not_mem_semicolon (h : Enumerates entries frameworks)
    (hknown : ∀ f ∈ frameworks, isKnownFramework f = true) : ∀ e ∈ entries, ';' ∉ e.toList := by
  have hblank : Text.isBlank ';' = false := by decide
  induction h with
  | done => exact fun e he => absurd he List.not_mem_nil
  | blank isBlank rest ih =>
    refine List.forall_mem_cons.mpr ⟨fun hmem => ?_, ih hknown⟩
    rw [List.all_eq_true.mp isBlank _ hmem] at hblank
    cases hblank
  | @framework before f after entries frameworks hbefore hafter rest ih =>
    refine List.forall_mem_cons.mpr ⟨fun hmem => ?_,
      ih fun g hg => hknown g (List.mem_cons_of_mem _ hg)⟩
    rw [String.toList_append, String.toList_append] at hmem
    rcases List.mem_append.mp hmem with hmem | hmem
    · rcases List.mem_append.mp hmem with hmem | hmem
      · rw [List.all_eq_true.mp hbefore _ hmem] at hblank
        cases hblank
      · exact (chars_of_known (hknown f List.mem_cons_self) _ hmem).2.2.2.1 rfl
    · rw [List.all_eq_true.mp hafter _ hmem] at hblank
      cases hblank

/-- **A list names its frameworks**, in order, whatever blanks and empty entries it has. -/
theorem listEntries_intercalate (h : Enumerates entries frameworks) (hne : frameworks ≠ [])
    (hknown : ∀ f ∈ frameworks, isKnownFramework f = true) :
    ProjectFile.listEntries (";".intercalate entries) = frameworks := by
  have hentries : entries ≠ [] := by
    rintro rfl
    cases h
    exact hne rfl
  have hsegments : Text.segments ';' (";".intercalate entries) = entries :=
    Text.segments_intercalate hentries (h.not_mem_semicolon hknown)
  rw [ProjectFile.listEntries, hsegments, h.filter_trim hknown]

end Enumerates

/-! ### Display names -/

/-- A stem that display names and output paths keep: it holds no backslash and ends neither in a
closing parenthesis nor in a blank. -/
structure IsPlainStem (stem : String) : Prop where
  backslash : '\\' ∉ stem.toList
  last : ∀ c ∈ stem.toList.getLast?, c ≠ ')' ∧ Text.isBlank c = false

theorem isPlainStem_iff {stem : String} : IsPlainStem stem ↔ '\\' ∉ stem.toList ∧
    stem.toList.getLast?.all (fun c => c ≠ ')' ∧ Text.isBlank c = false) = true := by
  constructor
  · intro h
    refine ⟨h.backslash, ?_⟩
    cases hlast : stem.toList.getLast? with
    | none => rfl
    | some c => exact decide_eq_true (h.last c hlast)
  · rintro ⟨hbackslash, hall⟩
    refine ⟨hbackslash, fun c hc => ?_⟩
    rw [Option.mem_def.mp hc] at hall
    exact of_decide_eq_true hall

instance (stem : String) : Decidable (IsPlainStem stem) :=
  decidable_of_iff _ isPlainStem_iff.symm

theorem splitLast?_append {c : Char} {tail : List Char} (front : List Char) (h : c ∉ tail) :
    splitLast? c (front ++ c :: tail) = some (front, tail) := by
  have hback : (front ++ c :: tail).reverse = tail.reverse ++ c :: front.reverse := by
    rw [List.reverse_append, List.reverse_cons, List.append_assoc, List.singleton_append]
  have htail : ∀ d ∈ tail.reverse, decide (d ≠ c) = true := fun d hd =>
    decide_eq_true fun he => h (he ▸ List.mem_reverse.mp hd)
  rw [splitLast?, hback, List.dropWhile_append_of_pos htail,
    List.dropWhile_cons_of_neg (by simp), List.takeWhile_append_of_pos htail,
    List.takeWhile_cons_of_neg (by simp)]
  simp

/-- A stem alone has no label. -/
theorem splitDisplayName_stem {stem : String} (h : IsPlainStem stem) :
    splitDisplayName stem = (stem, "") := by
  rw [splitDisplayName]
  split
  · next back hback =>
    have hlast : stem.toList.getLast? = some ')' := by
      rw [List.getLast?_eq_head?_reverse, hback]
      rfl
    exact absurd rfl (h.last _ hlast).1
  · rfl

/-- **A stem with a label behind it gives both back**, but for the blanks at the end of the stem. -/
theorem splitDisplayName_label {label : String} (stem : String) (hlabel : '(' ∉ label.toList) :
    splitDisplayName (stem ++ " (" ++ label ++ ")") = (Text.trimRight stem, label) := by
  have hchars : (stem ++ " (" ++ label ++ ")").toList =
      ((stem.toList ++ [' ']) ++ '(' :: label.toList) ++ [')'] := by
    simp [String.toList_append]
  have hblank : ∀ c ∈ [' '], Text.isBlank c = true := List.forall_mem_singleton.mpr (by decide)
  rw [splitDisplayName, hchars, List.reverse_concat]
  simp only [List.reverse_reverse, splitLast?_append _ hlabel, String.ofList_toList,
    Prod.mk.injEq, and_true]
  rw [Text.trimRight, String.toList_ofList, Text.dropBlankEnd_append_blank hblank, Text.trimRight]

/-- A plain stem is given back as it is. -/
theorem splitDisplayName_suffixed {stem label : String} (h : IsPlainStem stem)
    (hlabel : '(' ∉ label.toList) :
    splitDisplayName (stem ++ " (" ++ label ++ ")") = (stem, label) := by
  have hstem := @Text.dropBlankEnd_append stem.toList [] nofun fun c hc => (h.last c hc).2
  rw [List.append_nil] at hstem
  rw [splitDisplayName_label stem hlabel, Text.trimRight, hstem, String.ofList_toList]

/-! ### Output paths -/

/-- The framework nearest to the end of a directory's path; empty if none stands there. -/
def nearestFramework (directory : String) : String :=
  ((pathSegments directory).reverse.find? isKnownFramework).getD ""

theorem replaceChar_append (a b : String) (old new : Char) :
    Text.replaceChar (a ++ b) old new = Text.replaceChar a old new ++ Text.replaceChar b old new := by
  rw [Text.replaceChar, Text.replaceChar, Text.replaceChar, String.toList_append, List.map_append,
    String.ofList_append]

theorem replaceChar_of_not_mem {text : String} {old : Char} (h : old ∉ text.toList) (new : Char) :
    Text.replaceChar text old new = text := by
  have hsame : text.toList.map (fun c => if c = old then new else c) = text.toList.map id :=
    List.map_congr_left fun c hc => if_neg fun he : c = old => h (he ▸ hc)
  rw [Text.replaceChar, hsame, List.map_id, String.ofList_toList]

theorem pathSegments_append (a b : String) :
    pathSegments (a ++ "/" ++ b) = pathSegments a ++ pathSegments b := by
  rw [pathSegments, replaceChar_append, replaceChar_append]
  exact Text.segments_append _ _

/-- A name without slashes of either kind is one segment. -/
theorem pathSegments_name {name : String} (hslash : '/' ∉ name.toList)
    (hbackslash : '\\' ∉ name.toList) : pathSegments name = [name] := by
  rw [pathSegments, replaceChar_of_not_mem hbackslash, Text.segments,
    Text.segmentChars_of_not_mem hslash, List.map_singleton, String.ofList_toList]

/-- A directory that ends in a framework has its label. -/
theorem nearestFramework_append {f : String} (h : isKnownFramework f = true) (front : String) :
    nearestFramework (front ++ "/" ++ f) = f := by
  have hchars := chars_of_known h
  rw [nearestFramework, pathSegments_append, pathSegments_name (fun hc => (hchars _ hc).1 rfl)
    (fun hc => (hchars _ hc).2.1 rfl), List.reverse_append, List.reverse_singleton,
    List.singleton_append, List.find?_cons_of_pos h, Option.getD_some]

theorem find?_known_of_nonempty (segments : List String) :
    ((segments.filter (· ≠ "")).reverse.find? isKnownFramework) =
      segments.reverse.find? isKnownFramework := by
  have hempty (s : String) :
      decide (decide (s ≠ "") = true ∧ isKnownFramework s = true) = isKnownFramework s := by
    cases hs : isKnownFramework s with
    | false => simp
    | true => simp [ne_empty_of_known hs]
  rw [← List.filter_reverse, List.find?_filter]
  exact congrArg (segments.reverse.find? ·) (funext hempty)

/-- Nothing stands behind a slash at the end. -/
theorem nearestFramework_slash (front : String) :
    nearestFramework (front ++ "/") = nearestFramework front := by
  have hbehind : front ++ "/" = front ++ "/" ++ "" := String.append_empty.symm
  have hempty : pathSegments "" = [""] := pathSegments_name (by decide) (by decide)
  rw [hbehind, nearestFramework, pathSegments_append, hempty, List.reverse_append,
    List.reverse_singleton, List.singleton_append, List.find?_cons_of_neg (by decide),
    nearestFramework]

/-- The label of a file is that of its directory. -/
theorem frameworkOfOutput_append {file : String} (hfile : file ≠ "") (hslash : '/' ∉ file.toList)
    (hbackslash : '\\' ∉ file.toList) (front : String) :
    frameworkOfOutput (front ++ "/" ++ file) = nearestFramework front := by
  rw [frameworkOfOutput, pathSegments_append, pathSegments_name hslash hbackslash,
    List.filter_append, List.filter_cons_of_pos (by simpa using hfile), List.filter_nil,
    List.dropLast_concat, find?_known_of_nonempty, nearestFramework]

/-- The label of an output path does not depend on the name of the file. -/
theorem frameworkOfOutput_join {directory file : String} (hdirectory : directory ≠ "")
    (hfile : file ≠ "") (hslash : '/' ∉ file.toList) (hbackslash : '\\' ∉ file.toList) :
    frameworkOfOutput (Path.join directory file) = nearestFramework directory := by
  have hrelative : ¬Text.startsWith file "/" = true := by
    intro hstarts
    obtain ⟨rest, hrest⟩ := Path.isAbsolute_iff.mp hstarts
    exact hslash (hrest ▸ List.mem_cons_self)
  rw [Path.join, if_neg hrelative]
  cases hends : Text.endsIn directory "/" with
  | true =>
    obtain ⟨front, hfront⟩ := List.isSuffixOf_iff_suffix.mp hends
    have hsplit : directory = String.ofList front ++ "/" := by
      rw [← String.toList_inj, String.toList_append, String.toList_ofList, hfront]
    rw [if_pos (Bool.or_true _), hsplit, frameworkOfOutput_append hfile hslash hbackslash,
      nearestFramework_slash]
  | false =>
    rw [if_neg (by simpa using hdirectory), frameworkOfOutput_append hfile hslash hbackslash]

/-! ### Output directories -/

theorem collapseSegments_append_name {absolute : Bool} {f : String} (hf : IsName f)
    (segments done : List String) :
    Path.collapseSegments absolute done (segments ++ [f, ""]) =
      Path.collapseSegments absolute done segments ++ [f] := by
  have hlast (kept : List String) : Path.collapseSegments absolute kept [f, ""] =
      kept.reverse ++ [f] := by
    rw [Path.collapseSegments_cons, if_neg (by simp [hf.ne_empty, hf.ne_here]),
      if_neg hf.ne_above, Path.collapseSegments_cons, if_pos (by simp), Path.collapseSegments,
      List.reverse_cons]
  induction segments generalizing done with
  | nil =>
    rw [List.nil_append, hlast, Path.collapseSegments]
  | cons s rest ih =>
    rw [List.cons_append, Path.collapseSegments_cons, Path.collapseSegments_cons]
    cases done with
    | nil => simp only [ih]; split_ifs <;> rfl
    | cons last before => simp only [ih]; split_ifs <;> rfl

/-- The path of a name below a root ends in that name. -/
theorem exists_below_concat {root : String} (hroot : root = "/" ∨ root = "//") (names : List String)
    (name : String) : ∃ front, below root (names ++ [name]) = front ++ "/" ++ name := by
  rcases names with _ | ⟨first, rest⟩
  · rw [List.nil_append, below, String.intercalate_singleton]
    rcases hroot with rfl | rfl
    · exact ⟨"", rfl⟩
    · exact ⟨"/", rfl⟩
  · exact ⟨_, Path.below_concat (List.cons_ne_nil _ _) root name⟩

/-- What leads to a directory from another one is kept, with slashes of one kind. -/
theorem written_directory (middle : String) {f : String} (hf : '\\' ∉ f.toList) :
    Text.replaceChar (Text.trim ("bin/" ++ middle ++ "/" ++ (f ++ "/"))) '\\' '/' =
      "bin/" ++ Text.replaceChar middle '\\' '/' ++ "/" ++ (f ++ "/") := by
  have hlast : ("bin/" ++ middle ++ "/" ++ (f ++ "/")).toList.getLast? = some '/' := by
    rw [← String.append_assoc, String.toList_append]
    exact List.getLast?_concat
  have htrim : Text.trim ("bin/" ++ middle ++ "/" ++ (f ++ "/")) =
      "bin/" ++ middle ++ "/" ++ (f ++ "/") := by
    refine Text.trim_of_ends (fun c hc => ?_) (fun c hc => ?_)
    · have hfirst : c = 'b' := by
        simpa [String.toList_append] using hc.symm
      rw [hfirst]
      decide
    · rw [hlast] at hc
      rw [← Option.some.inj hc]
      decide
  have hslash : Text.replaceChar "/" '\\' '/' = "/" := replaceChar_of_not_mem (by decide) '/'
  have hbin : Text.replaceChar "bin/" '\\' '/' = "bin/" := replaceChar_of_not_mem (by decide) '/'
  rw [htrim, replaceChar_append, replaceChar_append, replaceChar_append, replaceChar_append, hbin,
    hslash, replaceChar_of_not_mem hf]

/-- **A directory that ends in a framework has its label**, wherever it lies and whatever stands in
between. -/
theorem nearestFramework_resolve {f base : String} (h : isKnownFramework f = true)
    (hbase : IsAbsolute base) (middle : String) :
    nearestFramework (Path.resolve ("bin/" ++ middle ++ "/" ++ (f ++ "/")) base) = f := by
  have hname := isName_of_known h
  have hbackslash : '\\' ∉ f.toList := fun hc => (chars_of_known h _ hc).2.1 rfl
  have hpath : ∃ front, Path.join base (Text.replaceChar
      (Text.trim ("bin/" ++ middle ++ "/" ++ (f ++ "/"))) '\\' '/') = front ++ "/" ++ (f ++ "/") := by
    rw [written_directory middle hbackslash, Path.join, if_neg (by simp [Text.startsWith])]
    split
    · exact ⟨base ++ ("bin/" ++ Text.replaceChar middle '\\' '/'), by
        simp only [String.append_assoc]⟩
    · exact ⟨base ++ "/" ++ ("bin/" ++ Text.replaceChar middle '\\' '/'), by
        simp only [String.append_assoc]⟩
  obtain ⟨front, hfront⟩ := hpath
  have habsolute := Path.isAbsolute_join hbase (Text.replaceChar
    (Text.trim ("bin/" ++ middle ++ "/" ++ (f ++ "/"))) '\\' '/')
  have hsegments : Text.segments '/' (front ++ "/" ++ (f ++ "/")) =
      Text.segments '/' front ++ [f, ""] := by
    have hname : Text.segments '/' f = [f] := by
      rw [Text.segments, Text.segmentChars_of_not_mem hname.noSlash, List.map_singleton,
        String.ofList_toList]
    have hf : Text.segments '/' (f ++ "/" ++ "") = Text.segments '/' f ++ Text.segments '/' "" :=
      Text.segments_append f ""
    have hwhole : Text.segments '/' (front ++ "/" ++ (f ++ "/")) =
        Text.segments '/' front ++ Text.segments '/' (f ++ "/") := Text.segments_append _ _
    rw [String.append_empty, hname] at hf
    rw [hwhole, hf]
    rfl
  rw [hfront] at habsolute
  obtain ⟨shorter, hshorter⟩ := exists_below_concat (Path.rootOf_of_isAbsolute habsolute)
    (Path.collapseSegments true [] (Text.segments '/' front)) f
  rw [Path.resolve, hfront, Path.normalize_of_isAbsolute habsolute, hsegments,
    collapseSegments_append_name hname, hshorter, nearestFramework_append h]

/-! ### Units -/

/-- A project built for one of several frameworks has the label of its display name. -/
theorem resolveUnit_suffixed {stem label : String} (h : IsPlainStem stem)
    (hlabel : isKnownFramework label = true) (path output : String) :
    resolveUnit (stem ++ " (" ++ label ++ ")") path output = ⟨path, stem, label⟩ := by
  rw [resolveUnit, splitDisplayName_suffixed h fun hc => (chars_of_known hlabel _ hc).2.2.1 rfl]
  simp only [if_neg (ne_empty_of_known hlabel)]

/-- Any other project has the label of its output path. -/
theorem resolveUnit_stem {stem : String} (h : IsPlainStem stem) (path output : String) :
    resolveUnit stem path output = ⟨path, stem, frameworkOfOutput output⟩ := by
  rw [resolveUnit, splitDisplayName_stem h]
  rfl

/-! ### The output of a project file -/

theorem not_mem_stem (path : String) : '/' ∉ (Path.stem path).toList := by
  have hparts : ∀ name ∈ Path.parts path, Text.startsWith name "/" = false →
      '/' ∉ name.toList := by
    intro name hname hstarts
    rw [Path.parts] at hname
    rcases List.mem_append.mp hname with hroot | hsegment
    · split at hroot
      · cases hroot
      · next hne =>
        rw [List.mem_singleton.mp hroot] at hstarts
        rcases Path.rootOf_cases path with h | h | h
        · exact absurd h hne
        · rw [h] at hstarts
          exact absurd hstarts (by decide)
        · rw [h] at hstarts
          exact absurd hstarts (by decide)
    · exact Text.not_mem_of_mem_segments (List.mem_filter.mp hsegment).1
  have hlast : '/' ∉ (Path.lastName path).toList := by
    rw [Path.lastName]
    split
    · next name hname =>
      split
      · exact List.not_mem_nil
      · next hstarts =>
        exact hparts name (List.mem_of_getLast? hname) (Bool.not_eq_true _ ▸ hstarts)
    · exact List.not_mem_nil
  rw [Path.stem, Path.splitName]
  split
  · exact hlast
  · next c front hfront =>
    simp only
    split
    · exact hlast
    · intro hslash
      refine hlast ?_
      rw [String.toList_ofList, List.mem_reverse] at hslash
      have hsuffix := List.dropWhile_suffix (l := (Path.lastName path).toList.reverse)
        fun c => decide (c ≠ '.')
      rw [hfront] at hsuffix
      exact List.mem_reverse.mp (hsuffix.subset (List.mem_cons_of_mem _ hslash))

namespace ProjectFile

variable {p : ProjectFile}

theorem get_eq {name lowered : String} (h : Text.lower name = lowered) :
    p.get name = (p.properties.get? lowered).getD "" := by
  rw [get, h]

/-- A project that says nothing of its output compiles into a directory named for its
configuration and its framework. -/
theorem outputDirectory_eq {configuration : String} (houtput : p.get "OutputPath" = "")
    (hbase : p.get "BaseOutputPath" = "")
    (hconfiguration : p.properties.get? "configuration" = some configuration)
    (happend : p.get "AppendTargetFrameworkToOutputPath" = "") (hkit : p.isSdkStyle = true) :
    p.outputDirectory = Path.resolve ("bin/" ++ configuration ++ "/" ++
      if p.targetFramework ≠ "" then p.targetFramework ++ "/" else "") p.directory := by
  have hbin : Text.dropEnd (Text.replaceChar "bin" '\\' '/') (fun c => decide (c = '/')) ++ "/" =
      "bin/" := by decide
  rw [outputDirectory, houtput, hbase, hconfiguration, isTrue, happend, hkit]
  simp only [ne_eq, not_true_eq_false, if_false, orElse, if_true, Option.getD_some, Bool.true_and,
    Bool.and_true, decide_eq_true_eq]
  rw [hbin]

/-- The label of a project that does not name its assembly is that of its output directory. -/
theorem frameworkOfOutput_outputPath (hname : p.get "AssemblyName" = "")
    (hpath : IsAbsolute p.path) (hstem : IsPlainStem (Path.stem p.path)) :
    frameworkOfOutput p.outputPath = nearestFramework p.outputDirectory := by
  have hassembly : p.assemblyName = Path.stem p.path := by
    rw [assemblyName, hname, orElse, if_pos rfl]
  have hextension : p.outputExtension = ".exe" ∨ p.outputExtension = ".dll" := by
    rw [outputExtension]
    split
    · exact .inl rfl
    · exact .inr rfl
  have hslash : '/' ∉ p.outputExtension.toList := by
    rcases hextension with h | h <;> rw [h] <;> decide
  have hbackslash : '\\' ∉ p.outputExtension.toList := by
    rcases hextension with h | h <;> rw [h] <;> decide
  have hdirectory : p.outputDirectory ≠ "" := by
    intro hempty
    have habsolute : IsAbsolute p.outputDirectory := by
      rw [outputDirectory]
      exact (Path.resolve_isNormal (Path.isAbsolute_directory hpath) _).isAbsolute
    rw [hempty] at habsolute
    exact absurd habsolute (by decide)
  rw [outputPath, hassembly]
  refine frameworkOfOutput_join hdirectory ?_ ?_ ?_
  · intro hempty
    rw [String.append_eq_empty_iff] at hempty
    rcases hextension with h | h <;> rw [h] at hempty <;> exact absurd hempty.2 (by decide)
  · rw [String.toList_append, List.mem_append, not_or]
    exact ⟨not_mem_stem _, hslash⟩
  · rw [String.toList_append, List.mem_append, not_or]
    exact ⟨hstem.backslash, hbackslash⟩

end ProjectFile

end ExtensionCensus
