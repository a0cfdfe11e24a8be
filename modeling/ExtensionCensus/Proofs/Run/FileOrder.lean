import ExtensionCensus.Proofs.Extension.Partners
import ExtensionCensus.Proofs.Report.Columns
import ExtensionCensus.Proofs.Run.Accounting
import ExtensionCensus.Proofs.Symbol.Separating

/-!
# The order of source files

* `SameOutcome` — two computations give results that are related, or both fail; searches over lists in
  another order do (`sameOutcome_of_perm`);
* `SameRows`, `Reordered.containerRecord` — **a container has the rows that its counterpart has**;
* `Reordered.perm_discover` — counterparts are discovered together;
* `ReportedAlike`, `compile_reordered` — **the order of source files does not matter to the reports**.
-/

namespace ExtensionCensus

/-! ### Outcomes -/

/-- Both computations give results, and these are related, or both fail. -/
inductive SameOutcome {ε α β : Type} (R : α → β → Prop) : Except ε α → Except ε β → Prop where
  | ok {x : α} {y : β} (h : R x y) : SameOutcome R (.ok x) (.ok y)
  | error (e e' : ε) : SameOutcome R (.error e) (.error e')

section

variable {ε α β γ δ : Type} {R : α → β → Prop} {S : β → γ → Prop}

theorem SameOutcome.comp {x : Except ε α} {y : Except ε β} {z : Except ε γ} (h : SameOutcome R x y)
    (h' : SameOutcome S y z) : SameOutcome (fun u w => ∃ v, R u v ∧ S v w) x z := by
  cases h with
  | ok hxy =>
    cases h' with
    | ok hyz => exact .ok ⟨_, hxy, hyz⟩
  | error e e' =>
    cases h' with
    | error _ e'' => exact .error e e''

theorem SameOutcome.map {T : γ → δ → Prop} {f : α → γ} {g : β → δ} {x : Except ε α} {y : Except ε β}
    (h : SameOutcome R x y) (hT : ∀ u v, R u v → T (f u) (g v)) :
    SameOutcome T (x.map f) (y.map g) := by
  cases h with
  | ok hxy => exact .ok (hT _ _ hxy)
  | error e e' => exact .error e e'

/-- Lists whose entries have the same outcomes one by one have the same outcome together. -/
theorem SameOutcome.mapM {f : α → Except ε γ} {g : β → Except ε δ} {T : γ → δ → Prop} {xs : List α}
    {ys : List β} (h : List.Forall₂ (fun x y => SameOutcome T (f x) (g y)) xs ys) :
    SameOutcome (List.Forall₂ T) (xs.mapM f) (ys.mapM g) := by
  induction h with
  | nil => exact .ok .nil
  | @cons x y xs ys hxy _ ih =>
    rw [List.mapM_cons, List.mapM_cons]
    generalize f x = u at hxy ⊢
    generalize g y = v at hxy ⊢
    cases hxy with
    | error e e' => exact .error e e'
    | ok hxy =>
      generalize xs.mapM f = us at ih ⊢
      generalize ys.mapM g = vs at ih ⊢
      cases ih with
      | error e e' => exact .error e e'
      | ok hrest => exact .ok (.cons hxy hrest)

/-- **A list has the same outcome in another order.** -/
theorem sameOutcome_of_perm {f : α → Except ε β} {xs ys : List α} (h : xs.Perm ys) :
    SameOutcome List.Perm (xs.mapM f) (ys.mapM f) := by
  induction h with
  | nil => exact .ok (.refl [])
  | @cons x xs ys _ ih =>
    rw [List.mapM_cons, List.mapM_cons]
    cases f x with
    | error e => exact .error e e
    | ok u =>
      generalize xs.mapM f = us at ih ⊢
      generalize ys.mapM f = vs at ih ⊢
      cases ih with
      | error e e' => exact .error e e'
      | ok hrest => exact .ok (hrest.cons u)
  | swap x y xs =>
    simp only [List.mapM_cons]
    -- either order meets a failure first, if there is one
    cases f x with
    | error e =>
      cases f y with
      | error e' => exact .error e' e
      | ok v => exact .error e e
    | ok u =>
      cases f y with
      | error e' => exact .error e' e'
      | ok v =>
        cases xs.mapM f with
        | error e => exact .error e e
        | ok us => exact .ok (.swap u v us)
  | @trans xs ys zs _ _ ih ih' =>
    have hboth := ih.comp ih'
    generalize xs.mapM f = us at hboth ⊢
    generalize zs.mapM f = ws at hboth ⊢
    cases hboth with
    | error e e' => exact .error e e'
    | ok hboth =>
      obtain ⟨vs, hleft, hright⟩ := hboth
      exact .ok (hleft.trans hright)

end

/-! ### Records -/

namespace SymbolTable

variable (table : SymbolTable)

theorem classifyMethods_eq_mapM (ids : List MethodId) :
    table.classifyMethods ids = ids.mapM table.classifyMethod := by
  induction ids with
  | nil => rfl
  | cons id rest ih =>
    rw [classifyMethods, List.mapM_cons, ih]
    cases table.classifyMethod id with
    | error e => rfl
    | ok record => cases rest.mapM table.classifyMethod <;> rfl

theorem containerRecords_eq_mapM (ids : List TypeId) : table.containerRecords ids
    = ids.mapM fun id => table.containerRecord (table.definitionType id) id := by
  induction ids with
  | nil => rfl
  | cons id rest ih =>
    rw [containerRecords, List.mapM_cons, ih]
    cases table.containerRecord (table.definitionType id) id with
    | error e => rfl
    | ok record =>
      cases rest.mapM fun id => table.containerRecord (table.definitionType id) id <;> rfl

end SymbolTable

/-- The rows about the containers and their methods are the same, the latter in some order. -/
structure SameRows (c c' : ContainerRecord) : Prop where
  type : ∀ result, typeRow result c = typeRow result c'
  methods : ∀ result,
    (c.methods.map (methodRow result c)).Perm (c'.methods.map (methodRow result c'))

/-- The record of a method differs from that of another one in the places in its receiver, and only type
parameters that are allowed occur there. -/
structure SameButPlaces (r : Renaming) (allowed : TypeParameterRef → Prop) (m m' : MethodRecord) :
    Prop where
  row : ∀ result c, methodRow result c m = methodRow result c m'
  within : m.receiver.type.Within allowed
  receiver : m'.receiver.type = m.receiver.type.rename r

section

variable {r : Renaming} {allowed : TypeParameterRef → Prop} {c c' : ContainerRecord}

/-- Methods share a receiver type exactly if those do that have it renamed. -/
theorem sharesReceiver_rename (hr : r.Separates allowed)
    (h : List.Forall₂ (SameButPlaces r allowed) c.methods c'.methods) :
    c.sharesReceiver = c'.sharesReceiver := by
  have hnil : c.methods = [] ↔ c'.methods = [] := by
    rw [← List.length_eq_zero_iff, ← List.length_eq_zero_iff, h.length_eq]
  rw [Bool.eq_iff_iff, ContainerRecord.sharesReceiver_iff, ContainerRecord.sharesReceiver_iff, Ne, Ne,
    hnil]
  refine and_congr Iff.rfl ⟨fun hall m' hm' n' hn' => ?_, fun hall m hm n hn => ?_⟩
  · obtain ⟨m, hm, hmm⟩ := exists_of_mem_right h hm'
    obtain ⟨n, hn, hnn⟩ := exists_of_mem_right h hn'
    rw [hmm.receiver, hnn.receiver, hall m hm n hn]
  · obtain ⟨m', hm', hmm⟩ := exists_of_mem_left h hm
    obtain ⟨n', hn', hnn⟩ := exists_of_mem_left h hn
    refine hr.rename _ _ hmm.within hnn.within ?_
    rw [← hmm.receiver, ← hnn.receiver, hall m' hm' n' hn']

/-- **Records have the same rows if their methods differ in places and order only.** -/
theorem sameRows_of_methods (hr : r.Separates allowed) (htext : c.text = c'.text)
    (hpublic : c.isPublic = c'.isPublic) (hother : c.hasOtherMembers = c'.hasOtherMembers)
    {others : List MethodRecord} (hmatch : List.Forall₂ (SameButPlaces r allowed) c.methods others)
    (hperm : others.Perm c'.methods) : SameRows c c' := by
  have hlength : c.methods.length = c'.methods.length := hmatch.length_eq.trans hperm.length_eq
  have hinOrder : c.sharesReceiver = { c' with methods := others }.sharesReceiver :=
    sharesReceiver_rename hr hmatch
  have hshares : c.sharesReceiver = c'.sharesReceiver :=
    hinOrder.trans (sharesReceiver_eq_of_perm hperm)
  refine ⟨fun result => ?_, fun result => ?_⟩
  · rw [typeRow, typeRow, htext, hpublic, hother, hlength, hshares]
  · have hrows : c.methods.map (methodRow result c) = others.map (methodRow result c') := by
      refine map_eq_map_of_forall₂ hmatch fun m _ m' hmm => ?_
      rw [hmm.row, methodRow, methodRow, htext]
    rw [hrows]
    exact hperm.map _

end

namespace Binding.Outline

section

variable {o o' a b : Outline} {move : TypeId → TypeId}

/-- The renaming that takes types to their counterparts and some methods to their partners tells apart
the types and the type parameters of these methods. -/
theorem Reordered.separates (h : Reordered move o o') {partner : MethodId → MethodId}
    {ids : List MethodId} (hnodup : (ids.map partner).Nodup) :
    Renaming.Separates ⟨move, partner⟩ fun p => ∃ k ∈ ids, ∃ i, p = .ofMethod k i := by
  refine ⟨h.injective, ?_⟩
  rintro p ⟨k, hk, i, rfl⟩ q ⟨n, hn, j, rfl⟩ he
  rw [Renaming.parameter, Renaming.parameter, TypeParameterRef.ofMethod.injEq] at he
  rw [List.inj_on_of_nodup_map hnodup hk hn he.1, he.2]

/-- **The extension methods of a type have the records that their partners have**, or both types have a
method without a record. -/
theorem Reordered.classifyMethods (h : Reordered move o o') (hbound : o.bind = .ok a)
    (hbound' : o'.bind = .ok b) {x : Place} (hx : x ∈ o.root.placed [])
    (hmay : Outline.mayExtend o.table x.id = true) {partner : MethodId → MethodId}
    (hperm : ((a.table.extensionMethods x.id).map partner).Perm
      (b.table.extensionMethods (move x.id)))
    (hpartner : ∀ k ∈ a.table.extensionMethods x.id, b.table.method (partner k)
      = (a.table.method k).rename (toMethod move (partner k))) :
    SameOutcome (fun ms ms' => ∃ others, List.Forall₂ (SameButPlaces ⟨move, partner⟩ fun p =>
          ∃ k ∈ a.table.extensionMethods x.id, ∃ i, p = .ofMethod k i) ms others ∧
        others.Perm ms')
      (a.table.classifyMethods (a.table.extensionMethods x.id))
      (b.table.classifyMethods (b.table.extensionMethods (move x.id))) := by
  rw [SymbolTable.classifyMethods_eq_mapM, SymbolTable.classifyMethods_eq_mapM]
  refine (SameOutcome.mapM ?_).comp (sameOutcome_of_perm hperm)
  rw [List.forall₂_map_right_iff, List.forall₂_same]
  intro k hk
  rw [h.classifyMethod hbound hbound' hx hmay hk (hpartner k hk)]
  cases hrecord : a.table.classifyMethod k with
  | error e => exact .error e e
  | ok record =>
    have hdescribed := SymbolTable.describes_of_classifyMethod hrecord
    have htype : record.receiver.type ∈ (a.table.method k).types :=
      Method.mem_types_iff.mpr (.inr (.inl ⟨record.receiver, hdescribed.receiver, rfl⟩))
    -- only type parameters of the method itself occur in its receiver
    have hown : record.receiver.type.Within fun p => ∃ i, p = .ofMethod k i := by
      intro p hp
      have hmem := h.left.toOutlined.within_extensionMethod hbound hmay hk _ htype p hp
      obtain ⟨i, -, rfl⟩ := List.mem_map.mp hmem
      exact ⟨i, rfl⟩
    have htypes : (toMethod move (partner k)).type = (Renaming.mk move partner).type := rfl
    have hrenamed : record.receiver.type.rename (toMethod move (partner k))
        = record.receiver.type.rename ⟨move, partner⟩ := by
      refine Ty.rename_congr htypes _ (hown.mono fun p hp => ?_)
      obtain ⟨i, rfl⟩ := hp
      rfl
    exact .ok ⟨fun result c => rfl, hown.mono fun p hp => ⟨k, hk, hp⟩, hrenamed⟩

/-- **A container has the rows that its counterpart has**, or both have a method without a record. -/
theorem Reordered.containerRecord (h : Reordered move o o') (hbound : o.bind = .ok a)
    (hbound' : o'.bind = .ok b) {x : Place} (hx : x ∈ o.root.placed [])
    (hmay : Outline.mayExtend o.table x.id = true) :
    SameOutcome SameRows (a.table.containerRecord (a.table.definitionType x.id) x.id)
      (b.table.containerRecord (b.table.definitionType (move x.id)) (move x.id)) := by
  obtain ⟨made, hm⟩ := h.left.toOutlined.boundBy hbound
  obtain ⟨made', hm'⟩ := h.right.toOutlined.boundBy hbound'
  obtain ⟨partner, hperm, hpartner⟩ := h.exists_methods hbound hbound' hx hmay
  have hnodup : ((a.table.extensionMethods x.id).map partner).Nodup :=
    hperm.nodup_iff.mpr (h.right.toOutlined.extensionMethods hbound' _).2
  refine (h.classifyMethods hbound hbound' hx hmay hperm hpartner).map fun ms ms' hms => ?_
  obtain ⟨others, hmatch, hothers⟩ := hms
  refine sameRows_of_methods (h.separates hnodup) ?text ?isPublic ?hasOtherMembers hmatch hothers
  case text => exact (h.display hm.ahead hm'.ahead hx hmay).symm
  case isPublic =>
    show decide _ = decide _
    rw [h.access_ahead hm.ahead hm'.ahead hx]
  case hasOtherMembers => exact (h.hasOtherMembers hbound hbound' hx hmay).symm

/-! ### Assemblies -/

variable {ds ds' : List Source.Declared}

/-- Discovery lists the types with extension methods. -/
theorem BoundFrom.mem_discover_iff (h : BoundFrom o a ds) {id : TypeId} :
    id ∈ a.table.discover o.root ↔ a.table.extensionMethods id ≠ [] := by
  rw [SymbolTable.discover, List.mem_filter, h.holdsExtensions_iff, ← Namespace.map_id_placed []]
  refine and_iff_right_of_imp fun hne => ?_
  obtain ⟨x, hx, rfl⟩ := h.placed_of_extensionMethods hne
  exact List.mem_map_of_mem hx

/-- Counterparts have extension methods alike. -/
theorem Reordered.extensionMethods_ne_nil_iff (h : Reordered move o o') (hfrom : BoundFrom o a ds)
    (hfrom' : BoundFrom o' b ds') {x : Place} (hx : x ∈ o.root.placed []) :
    b.table.extensionMethods (move x.id) ≠ [] ↔ a.table.extensionMethods x.id ≠ [] := by
  have hsame : Outline.mayExtend o.table x.id = true → (b.table.extensionMethods (move x.id) ≠ [] ↔
      a.table.extensionMethods x.id ≠ []) := by
    intro hmay
    obtain ⟨partner, hperm, -⟩ := h.exists_methods hfrom.bound hfrom'.bound hx hmay
    rw [Ne, Ne, ← List.length_eq_zero_iff, ← List.length_eq_zero_iff, ← hperm.length_eq,
      List.length_map]
  refine ⟨fun hne => (hsame ?_).mp hne, fun hne => (hsame (hfrom.exists_part hne).1).mpr hne⟩
  rw [← h.mayExtend hx]
  exact (hfrom'.exists_part hne).1

/-- **Counterparts are discovered together.** -/
theorem Reordered.perm_discover (h : Reordered move o o') (hfrom : BoundFrom o a ds)
    (hfrom' : BoundFrom o' b ds') (hnodup : (a.table.discover o.root).Nodup)
    (hnodup' : (b.table.discover o'.root).Nodup) :
    ((a.table.discover o.root).map move).Perm (b.table.discover o'.root) := by
  refine (List.perm_ext_iff_of_nodup (hnodup.map h.injective) hnodup').mpr fun id => ?_
  rw [List.mem_map, hfrom'.mem_discover_iff]
  constructor
  · rintro ⟨id, hid, rfl⟩
    have hne := hfrom.mem_discover_iff.mp hid
    obtain ⟨x, hx, rfl⟩ := hfrom.placed_of_extensionMethods hne
    exact (h.extensionMethods_ne_nil_iff hfrom hfrom' hx).mpr hne
  · intro hne
    obtain ⟨y, hy, rfl⟩ := hfrom'.placed_of_extensionMethods hne
    obtain ⟨x, hx, -, -, hmove⟩ := h.exists_placed hy
    rw [← hmove] at hne ⊢
    exact ⟨x.id, hfrom.mem_discover_iff.mpr
      ((h.extensionMethods_ne_nil_iff hfrom hfrom' hx).mp hne), rfl⟩

/-- **Containers have the rows that their counterparts have**, or both assemblies have a method without a
record. -/
theorem Reordered.containerRecords (h : Reordered move o o') (hfrom : BoundFrom o a ds)
    (hfrom' : BoundFrom o' b ds') (hnodup : (a.table.discover o.root).Nodup)
    (hnodup' : (b.table.discover o'.root).Nodup) :
    SameOutcome (fun cs cs' => ∃ others, List.Forall₂ SameRows cs others ∧ others.Perm cs')
      (a.table.containerRecords (a.table.discover o.root))
      (b.table.containerRecords (b.table.discover o'.root)) := by
  rw [SymbolTable.containerRecords_eq_mapM, SymbolTable.containerRecords_eq_mapM]
  refine (SameOutcome.mapM ?_).comp
    (sameOutcome_of_perm (h.perm_discover hfrom hfrom' hnodup hnodup'))
  rw [List.forall₂_map_right_iff, List.forall₂_same]
  intro id hid
  have hne := hfrom.mem_discover_iff.mp hid
  obtain ⟨x, hx, rfl⟩ := hfrom.placed_of_extensionMethods hne
  exact h.containerRecord hfrom.bound hfrom'.bound hx (hfrom.exists_part hne).1

end

end Binding.Outline

/-! ### Reports -/

/-- The reports have the same rows about both assemblies, in some order, or both assemblies have a
receiver that cannot be classified. -/
def ReportedAlike (a a' : Assembly) : Prop :=
  (∃ cs cs', a.classify = .ok cs ∧ a'.classify = .ok cs' ∧
    ∀ unit, (typeRows [⟨unit, a.identity, cs⟩]).Perm (typeRows [⟨unit, a'.identity, cs'⟩]) ∧
      (methodRows [⟨unit, a.identity, cs⟩]).Perm (methodRows [⟨unit, a'.identity, cs'⟩])) ∨
  ∃ refused refused', a.classify = .error (.receiver refused) ∧
    a'.classify = .error (.receiver refused')

/-- Containers with the same rows are reported alike. -/
theorem perm_rows_of_sameRows {cs cs' others : List ContainerRecord}
    (hmatch : List.Forall₂ SameRows cs others) (hperm : others.Perm cs') (unit : ProjectUnit)
    (identity : AssemblyIdentity) :
    (typeRows [⟨unit, identity, cs⟩]).Perm (typeRows [⟨unit, identity, cs'⟩]) ∧
      (methodRows [⟨unit, identity, cs⟩]).Perm (methodRows [⟨unit, identity, cs'⟩]) := by
  constructor
  · refine (perm_typeRows _).trans (List.Perm.trans ?_ (perm_typeRows _).symm)
    rw [List.flatMap_singleton, List.flatMap_singleton]
    have hrows : cs.map (typeRow ⟨unit, identity, cs⟩) = others.map (typeRow ⟨unit, identity, cs'⟩) :=
      map_eq_map_of_forall₂ hmatch fun c _ c' hcc => hcc.type _
    rw [hrows]
    exact hperm.map _
  · refine (perm_methodRows _).trans (List.Perm.trans ?_ (perm_methodRows _).symm)
    rw [List.flatMap_singleton, List.flatMap_singleton]
    exact (perm_flatMap_of_forall₂ hmatch fun c c' hcc => hcc.methods _).trans
      (hperm.flatMap_right _)

namespace Binding

open Outline (ofFiles Consistent)

/-- Assemblies that come of files in another order are reported alike. -/
theorem reportedAlike_of_compile {identity : AssemblyIdentity} {implicitUsings : Bool}
    {files files' : List (Text.Bytes × Source.Node)} (h : files.Perm files')
    (hone : (files.filter hasGlobalUsings).length ≤ 1)
    (hconsistent : Consistent (ofFiles implicitUsings files)) {a a' : Assembly}
    (ha : compile identity implicitUsings files = .ok a)
    (ha' : compile identity implicitUsings files' = .ok a') : ReportedAlike a a' := by
  have hsettled := Outline.settled_ofFiles hconsistent
  have hsame := Outline.sameEntries_ofFiles implicitUsings h hone
  have hconsistent' := hsame.consistent hsettled.toFindable hsettled.described hconsistent
  obtain ⟨move, hmove⟩ :=
    Outline.exists_reordered hsettled (Outline.settled_ofFiles hconsistent') hsame
  obtain ⟨o, ho, rfl, hroot⟩ := bind_of_compile ha
  obtain ⟨o', ho', rfl, hroot'⟩ := bind_of_compile ha'
  have hnodup := (discovers_of_compile ha).once
  have hnodup' := (discovers_of_compile ha').once
  rw [hroot] at hnodup
  rw [hroot'] at hnodup'
  have hrecords := hmove.containerRecords (boundFrom_ofFiles ho) (boundFrom_ofFiles ho') hnodup hnodup'
  rw [← hroot, ← hroot'] at hrecords
  have houtcome : SameOutcome (fun cs cs' => ∃ others, List.Forall₂ SameRows cs others ∧
      others.Perm cs') (assemblyOf identity o).classify (assemblyOf identity o').classify := hrecords
  generalize hclassify : (assemblyOf identity o).classify = outcome at houtcome
  generalize hclassify' : (assemblyOf identity o').classify = outcome' at houtcome
  cases houtcome with
  | ok hrows =>
    obtain ⟨others, hmatch, hperm⟩ := hrows
    exact .inl ⟨_, _, hclassify, hclassify', fun unit =>
      perm_rows_of_sameRows hmatch hperm unit identity⟩
  | error e e' =>
    obtain ⟨refused, rfl⟩ := SymbolTable.receiver_of_containerRecords _ hclassify
    obtain ⟨refused', rfl⟩ := SymbolTable.receiver_of_containerRecords _ hclassify'
    exact .inr ⟨refused, refused', hclassify, hclassify'⟩

/-- **The order of source files does not matter to the reports.**  In another order the same files are
compiled to an assembly with the same rows, or both assemblies have a receiver that cannot be
classified, where at most one file has using directives that are in effect everywhere and the parts of a
type agree about its kind and its accessibility.  Files are compiled in both orders if no node in one of
their trees lacks the child for the type that it puts a shape on; other files are reported alike wherever
they are compiled. -/
theorem compile_reordered (identity : AssemblyIdentity) (implicitUsings : Bool)
    {files files' : List (Text.Bytes × Source.Node)} (h : files.Perm files')
    (hone : (files.filter hasGlobalUsings).length ≤ 1)
    (hconsistent : Consistent (ofFiles implicitUsings files)) :
    ((∀ file ∈ files, file.2.hasOperands = true) →
        ∃ a a', compile identity implicitUsings files = .ok a ∧
          compile identity implicitUsings files' = .ok a' ∧ ReportedAlike a a') ∧
      ∀ a a', compile identity implicitUsings files = .ok a →
        compile identity implicitUsings files' = .ok a' → ReportedAlike a a' := by
  have halike : ∀ a a', compile identity implicitUsings files = .ok a →
      compile identity implicitUsings files' = .ok a' → ReportedAlike a a' :=
    fun a a' => reportedAlike_of_compile h hone hconsistent
  refine ⟨fun hoperands => ?_, halike⟩
  obtain ⟨a, ha⟩ := compile_ok identity implicitUsings hoperands
  obtain ⟨a', ha'⟩ := compile_ok identity implicitUsings fun file hfile =>
    hoperands file (h.mem_iff.mpr hfile)
  exact ⟨a, a', ha, ha', halike a a' ha ha'⟩

theorem splitContainer_rows : ∀ files ∈ [[methodFile, staticFile], [staticFile, methodFile]],
    ((compile ⟨"S", "1.0.0.0", "neutral", none⟩ true files).toOption.bind fun a =>
      a.classify.toOption.map fun cs =>
        (methodRows [⟨default, a.identity, cs⟩]).map fun r => (r.type, r.method)) =
      some [("S", "void F(this int x)")] := by
  decide +kernel

/-- The parts of a container in two files are put together in either order, and its method has a row. -/
theorem splitContainer_reordered :
    [methodFile, staticFile].Perm [staticFile, methodFile] ∧
      ([methodFile, staticFile].filter hasGlobalUsings).length ≤ 1 ∧
      Consistent (ofFiles true [methodFile, staticFile]) ∧
      (∀ file ∈ [methodFile, staticFile], file.2.hasOperands = true) ∧
      ∃ a a', compile ⟨"S", "1.0.0.0", "neutral", none⟩ true [methodFile, staticFile] = .ok a ∧
        compile ⟨"S", "1.0.0.0", "neutral", none⟩ true [staticFile, methodFile] = .ok a' ∧
        ReportedAlike a a' ∧
        ∃ cs, a.classify = .ok cs ∧
          (methodRows [⟨default, a.identity, cs⟩]).map (fun r => (r.type, r.method)) =
            [("S", "void F(this int x)")] := by
  have hone : ([methodFile, staticFile].filter hasGlobalUsings).length ≤ 1 := by decide +kernel
  have hconsistent : Consistent (ofFiles true [methodFile, staticFile]) := by decide +kernel
  have hperm : [methodFile, staticFile].Perm [staticFile, methodFile] := .swap staticFile methodFile []
  have hoperands : ∀ file ∈ [methodFile, staticFile], file.2.hasOperands = true := by
    decide +kernel
  obtain ⟨a, a', ha, ha', halike⟩ :=
    (compile_reordered ⟨"S", "1.0.0.0", "neutral", none⟩ true hperm hone hconsistent).1 hoperands
  have hrows := splitContainer_rows _ List.mem_cons_self
  refine ⟨hperm, hone, hconsistent, hoperands, a, a', ha, ha', halike, ?_⟩
  rw [ha] at hrows
  cases hclassify : a.classify with
  | error e =>
    simp only [Except.toOption, Option.bind_some, hclassify, Option.map_none, reduceCtorEq] at hrows
  | ok cs =>
    simp only [Except.toOption, Option.bind_some, hclassify, Option.map_some, Option.some.injEq]
      at hrows
    exact ⟨cs, rfl, hrows⟩

end Binding

end ExtensionCensus
