import ExtensionCensus.Proofs.Workspace.Opening

/-!
# Isolation of projects

What a project that cannot be loaded does to the solution that lists it.

* `Reached.of_filter`, `flatMap_filter` — what a node that leads nowhere and adds nothing takes part
  in;
* `CannotLoad`, `Opened.without` — a solution is the same without a project that cannot be loaded, up to its
  failure;
* `openSolution_isolates` — **a solution is opened unless a project that is reached breaks it off, and
  a project that cannot be loaded changes nothing but its own failure**.
-/

namespace ExtensionCensus

open ExtensionCensus.Path (IsAbsolute)

/-! ### Leaving out a project -/

/-- A node that leads nowhere leads to no other one. -/
theorem Reached.of_filter {next : String → List String} {starts : List String} {bad q : String}
    (hbad : next bad = []) (hq : q ≠ bad) (h : Reached next starts q) :
    Reached next (starts.filter (· ≠ bad)) q := by
  induction h with
  | start hstart => exact .start (List.mem_filter.mpr ⟨hstart, by simpa using hq⟩)
  | @reference p q _ hrefers ih =>
    have hp : p ≠ bad := by
      rintro rfl
      rw [hbad] at hrefers
      cases hrefers
    exact .reference (ih hp) hrefers

theorem flatMap_filter {β : Type} {f : String → List β} {bad : String} (hbad : f bad = [])
    (nodes : List String) : (nodes.filter (· ≠ bad)).flatMap f = nodes.flatMap f := by
  induction nodes with
  | nil => rfl
  | cons p rest ih =>
    by_cases hp : p = bad
    · rw [List.filter_cons_of_neg (by simpa using hp), List.flatMap_cons, hp, hbad, ih,
        List.nil_append]
    · rw [List.filter_cons_of_pos (by simpa using hp), List.flatMap_cons, List.flatMap_cons, ih]

variable {tree : FileTree} {configuration : String}

/-- The project at a path cannot be loaded. -/
def CannotLoad (tree : FileTree) (configuration path : String) : Prop :=
  ∃ e, (evaluateProject tree path configuration "").outcome = .error (.load e)

theorem CannotLoad.references_eq {bad : String} (h : CannotLoad tree configuration bad) :
    references tree configuration bad = [] := by
  obtain ⟨e, he⟩ := h
  rw [references, follows, he]

theorem CannotLoad.loadedFlavours_eq {bad : String} (h : CannotLoad tree configuration bad) :
    loadedFlavours tree configuration bad = [] := by
  obtain ⟨e, he⟩ := h
  rw [loadedFlavours, he]

/-- A solution without an entry that cannot be loaded has the same projects, and the same failures of
others. -/
theorem Opened.without {entries : List String} {s s' : Solution} {bad : String}
    (hbad : CannotLoad tree configuration bad) (h : Opened tree configuration entries s)
    (h' : Opened tree configuration (entries.filter (· ≠ bad)) s') :
    s'.projects = s.projects ∧ ∀ f, f.path ≠ bad → (f ∈ s'.failures ↔ f ∈ s.failures) := by
  constructor
  · obtain ⟨order, horder, hprojects⟩ := h.projects
    obtain ⟨order', horder', hprojects'⟩ := h'.projects
    have hkept := horder.without hbad.references_eq
    have hkept' := horder'.without hbad.references_eq
    simp only [List.filter_filter, Bool.and_self] at hkept'
    calc s'.projects = order'.flatMap (loadedFlavours tree configuration) := hprojects'
      _ = (order'.filter (· ≠ bad)).flatMap (loadedFlavours tree configuration) :=
        (flatMap_filter hbad.loadedFlavours_eq order').symm
      _ = (order.filter (· ≠ bad)).flatMap (loadedFlavours tree configuration) := by
        rw [hkept.unique hkept']
      _ = order.flatMap (loadedFlavours tree configuration) :=
        flatMap_filter hbad.loadedFlavours_eq order
      _ = s.projects := hprojects.symm
  · intro f hf
    rw [h.failures, h'.failures]
    refine and_congr_left fun _ => ⟨?_, Reached.of_filter hbad.references_eq hf⟩
    exact fun hreached => hreached.mono fun _ => List.mem_of_mem_filter

/-! ### Opening -/

section

variable {written : String} {listed : List SolutionEntry}

/-- **Isolation.**  A solution file that can be read is opened unless a project that is reached breaks
it off.  Then each reached project that cannot be loaded has one failure, and all the rest of the
solution is what it is for a file that does not list that project. -/
theorem openSolution_isolates (h : IsAbsolute written)
    (hread : readSolution tree (Path.normalize written) = .ok listed) :
    ((∃ s, (openSolution tree configuration written).outcome = .ok s) ↔
        ∀ p, Reached (references tree configuration) (listed.map (·.path)) p →
          ¬BreaksProject tree configuration p) ∧
      ∀ s, (openSolution tree configuration written).outcome = .ok s →
        (s.failures.map (·.path)).Nodup ∧
        (∀ p, p ∈ s.failures.map (·.path) ↔
          Reached (references tree configuration) (listed.map (·.path)) p ∧
            CannotLoad tree configuration p) ∧
        ∀ bad, CannotLoad tree configuration bad → ∀ without listed', IsAbsolute without →
          readSolution tree (Path.normalize without) = .ok listed' →
          listed'.map (·.path) = (listed.map (·.path)).filter (· ≠ bad) →
          ∃ s', (openSolution tree configuration without).outcome = .ok s' ∧
            s'.projects = s.projects ∧
            ∀ f, f.path ≠ bad → (f ∈ s'.failures ↔ f ∈ s.failures) := by
  refine ⟨opens_iff h hread, fun s hs => ?_⟩
  obtain ⟨hopened, hclear⟩ := opened_of_ok h hread hs
  refine ⟨hopened.failuresOnce, fun p => ?_, fun bad hbad without listed' h' hread' hlisted' => ?_⟩
  · rw [List.mem_map]
    constructor
    · rintro ⟨f, hf, rfl⟩
      obtain ⟨hreached, e, he, -⟩ := (hopened.failures f).mp hf
      exact ⟨hreached, e, he⟩
    · rintro ⟨hreached, e, he⟩
      exact ⟨⟨p, e.message⟩, (hopened.failures _).mpr ⟨hreached, e, he, rfl⟩, rfl⟩
  · have hclear' : ∀ p, Reached (references tree configuration) (listed'.map (·.path)) p →
        ¬BreaksProject tree configuration p := by
      intro p hp
      rw [hlisted'] at hp
      exact hclear p (hp.mono fun _ => List.mem_of_mem_filter)
    obtain ⟨s', hs'⟩ := (opens_iff h' hread').mpr hclear'
    have hopened' := (opened_of_ok h' hread' hs').1
    rw [hlisted'] at hopened'
    exact ⟨s', hs', hopened.without hbad hopened'⟩

end

/-! ### A project that breaks off its solution -/

/-- Two solutions with a project in common. The other project of the first names its sources by a
pattern that becomes absolute once its properties are expanded. -/
def faulty : FileTree :=
  .directory [.mk "w" (.directory
    [.mk "s.slnx" (textFile "<S><Project Path='a.csproj'/><Project Path='b.csproj'/></S>"),
      .mk "t.slnx" (textFile "<S><Project Path='b.csproj'/></S>"),
      .mk "a.csproj" (textFile ("<Project><ItemGroup>" ++
        "<Compile Include='$(MSBuildProjectDirectory)/*.cs'/></ItemGroup></Project>")),
      .mk "b.csproj" (textFile "<Project/>")])]

theorem faulty_listed : readSolution faulty (Path.normalize "/w/s.slnx") =
      .ok [{ name := "a", path := "/w/a.csproj" }, { name := "b", path := "/w/b.csproj" }] ∧
    readSolution faulty (Path.normalize "/w/t.slnx") =
      .ok [{ name := "b", path := "/w/b.csproj" }] := by
  decide

theorem faulty_evaluated : (evaluateProject faulty "/w/a.csproj" "Debug" "").outcome =
      .error (.fault (.pattern .notRelative)) ∧
    references faulty "Debug" "/w/b.csproj" = [] ∧ namesNoSources faulty "/w/b.csproj" = true := by
  decide

theorem faulty_isolates : (¬∃ s, (openSolution faulty "Debug" "/w/s.slnx").outcome = .ok s) ∧
    ∃ s, (openSolution faulty "Debug" "/w/t.slnx").outcome = .ok s := by
  obtain ⟨hboth, hone⟩ := faulty_listed
  obtain ⟨hfault, hreferences, hsources⟩ := faulty_evaluated
  constructor
  · intro hopened
    have hnormal := isNormal_entries (by decide) hboth "/w/a.csproj" List.mem_cons_self
    exact (openSolution_isolates (by decide) hboth).1.mp hopened "/w/a.csproj"
      (.start List.mem_cons_self) (.inl ((fault_iff_breaks hnormal).mp ⟨_, hfault⟩))
  · refine (openSolution_isolates (by decide) hone).1.mpr fun p hp => ?_
    rw [hp.eq_of_next_nil hreferences]
    exact not_breaksProject_of_namesNoSources hsources

end ExtensionCensus
