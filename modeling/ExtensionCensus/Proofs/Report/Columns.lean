import ExtensionCensus.Proofs.Extension.Discovery
import ExtensionCensus.Proofs.Report.Reordering

/-!
# Columns that agree

What one column of the reports says bears on the others, although each comes of a walk of its own.

* `SymbolTable.Describes` — a record says of a method what its table says;
* `ContainerRecord.Coherent` — no two columns of a record contradict each other; in particular, of two
  methods with one receiver type neither has a type parameter in it;
* `SymbolTable.Scoped.coherent` — in a well-scoped table all records are so;
* `RowsAgree`, `reportRows_agree` — **the rows of a report about compiled files agree**.
-/

namespace ExtensionCensus

/-! ### What the walk over a receiver finds -/

mutual

/-- A type parameter that the walk finds occurs in the type. -/
theorem Ty.exists_occurs_of_mentions {own : List TypeParameterRef} :
    ∀ t : Ty, t.mentions own = .ok true → ∃ p ∈ own, t.occurs p = true
  | .named head outer args, h => by
    obtain ⟨p, hp, hoccurs⟩ := Ty.exists_occurs_of_anyMentions args h
    exact ⟨p, hp, Ty.occurs_named_iff.mpr (.inr (Ty.occursList_iff.mp hoccurs))⟩
  | .parameter q, h => by
    have hmem : own.contains q = true := Except.ok.inj h
    exact ⟨q, List.contains_iff_mem.mp hmem, by rw [Ty.occurs, decide_eq_true_iff]⟩
  | .array element rank, h => Ty.exists_occurs_of_mentions element h
  | .pointer target, h => Ty.exists_occurs_of_mentions target h
  | .dynamic, h => by cases h
  | .functionPointer signature, h => by cases h

/-- A type parameter that the walk over some types finds occurs in one of them. -/
theorem Ty.exists_occurs_of_anyMentions {own : List TypeParameterRef} :
    ∀ ts : List Ty, Ty.anyMentions own ts = .ok true → ∃ p ∈ own, Ty.occursList p ts = true
  | [], h => by cases h
  | t :: ts, h => by
    rw [Ty.anyMentions] at h
    split at h
    · cases h
    · next ht =>
      obtain ⟨p, hp, hoccurs⟩ := Ty.exists_occurs_of_mentions t ht
      exact ⟨p, hp, by rw [Ty.occursList, hoccurs, Bool.true_or]⟩
    · obtain ⟨p, hp, hoccurs⟩ := Ty.exists_occurs_of_anyMentions ts h
      exact ⟨p, hp, by rw [Ty.occursList, hoccurs, Bool.or_true]⟩

end

namespace SymbolTable

/-! ### Methods -/

/-- A record says of a method and of its receiver what the table says. -/
structure Describes (table : SymbolTable) (m : MethodId) (r : MethodRecord) : Prop where
  receiver : r.receiver ∈ (table.method m).parameters
  isPublic : r.isPublic = true → table.containerAccess? (table.method m) = some .publicAccess
  isGeneric : r.isGeneric = !(table.method m).typeParameters.isEmpty
  uses : r.usesTypeParameter = true →
    ∃ p ∈ table.methodTypeParameters m, r.receiver.type.occurs p = true
  isErrorType : r.isErrorType = r.receiver.type.isUnbound
  isGenericType : r.isGenericType = r.receiver.type.isGeneric
  isValueType : r.isValueType = table.isValueType r.receiver.type

variable {table : SymbolTable}

theorem describes_of_classifyMethod {m : MethodId} {r : MethodRecord}
    (h : table.classifyMethod m = .ok r) : table.Describes m r := by
  rw [classifyMethod] at h
  cases hparameters : (table.method m).parameters with
  | nil =>
    simp only [hparameters] at h
    cases h
  | cons receiver rest =>
    simp only [hparameters] at h
    split at h
    · cases h
    · next uses huses =>
      cases h
      have hwalk := Binding.ok_of_mapError huses
      refine ⟨?_, fun hpublic => ?_, rfl, ?_, rfl, rfl, rfl⟩
      · rw [hparameters]
        exact List.mem_cons_self
      · exact of_decide_eq_true (Bool.and_eq_true_iff.mp hpublic).2
      · rintro rfl
        exact Ty.exists_occurs_of_mentions receiver.type hwalk

/-- A method has a type parameter to find only if it is generic. -/
theorem Describes.generic {m : MethodId} {r : MethodRecord} (h : table.Describes m r)
    (huses : r.usesTypeParameter = true) : r.isGeneric = true := by
  obtain ⟨p, hp, -⟩ := h.uses huses
  obtain ⟨i, hi, -⟩ := List.mem_map.mp hp
  rw [h.isGeneric]
  cases hparameters : (table.method m).typeParameters with
  | nil =>
    rw [hparameters] at hi
    cases hi
  | cons q rest => rfl

/-- A type that no declaration was found for is no value type. -/
theorem isValueType_of_isUnbound {t : Ty} (h : t.isUnbound = true) : table.isValueType t = false := by
  cases t with
  | named head outer args =>
    cases head with
    | declared id => cases h
    | unbound name => rfl
  | parameter p => cases h
  | array element rank => cases h
  | pointer target => cases h
  | dynamic => cases h
  | functionPointer signature => cases h

/-- **Of two methods with one receiver type, neither has a type parameter in it**: nothing that the
other one may name belongs to it. -/
theorem Scoped.apart (hs : Scoped table) {m n : MethodId} {r q : MethodRecord}
    (hn : n.index < table.methods.size) (hm : table.Describes m r) (hq : table.Describes n q)
    (hne : m ≠ n) (htype : r.receiver.type = q.receiver.type) : r.usesTypeParameter = false := by
  cases huses : r.usesTypeParameter with
  | false => rfl
  | true =>
    obtain ⟨p, hp, hoccurs⟩ := hm.uses huses
    obtain ⟨i, -, rfl⟩ := List.mem_map.mp hp
    obtain ⟨owner, -, hwithin⟩ := hs.methods n hn
    have hreceiver : q.receiver.type ∈ (table.method n).types :=
      Method.mem_types_iff.mpr (.inr (.inl ⟨q.receiver, hq.receiver, rfl⟩))
    rw [htype] at hoccurs
    rcases hwithin _ hreceiver _ hoccurs with hown | htype
    · obtain ⟨j, -, he⟩ := List.mem_map.mp hown
      rw [TypeParameterRef.ofMethod.injEq] at he
      exact absurd he.1.symm hne
    · exact absurd rfl (htype.ne_ofMethod m i)

end SymbolTable

/-! ### Containers -/

/-- No two columns about a container and its methods contradict each other. -/
structure ContainerRecord.Coherent (c : ContainerRecord) : Prop where
  isPublic : ∀ m ∈ c.methods, m.isPublic = true → c.isPublic = true
  isGeneric : ∀ m ∈ c.methods, m.usesTypeParameter = true → m.isGeneric = true
  isErrorType : ∀ m ∈ c.methods, m.isErrorType = true → m.isValueType = false
  /-- Methods with one receiver type say the same of it. -/
  receiver : ∀ m ∈ c.methods, ∀ n ∈ c.methods, m.receiver.type = n.receiver.type →
    m.isErrorType = n.isErrorType ∧ m.isGenericType = n.isGenericType ∧ m.isValueType = n.isValueType
  /-- Of two methods with one receiver type, neither has a type parameter in it. -/
  apart : c.methods.Pairwise fun m n => m.receiver.type = n.receiver.type →
    m.usesTypeParameter = false ∧ n.usesTypeParameter = false

namespace SymbolTable

variable {table : SymbolTable}

theorem forall₂_of_classifyMethods {ids : List MethodId} {records : List MethodRecord}
    (h : table.classifyMethods ids = .ok records) : List.Forall₂ (table.Describes) ids records := by
  rcases table.classifyMethods_cases ids with ⟨found, hfound, hmatch⟩ | ⟨-, -, -, e, -, -, -, herror⟩
  · rw [h] at hfound
    cases hfound
    exact hmatch.imp fun _ _ => describes_of_classifyMethod
  · rw [h] at herror
    cases herror

/-- **In a well-scoped table all records are coherent.** -/
theorem Scoped.coherent (hs : Scoped table) {id : TypeId} {record : ContainerRecord}
    (hown : ∀ m ∈ table.extensionMethods id, m.index < table.methods.size ∧
      (table.method m).container = some (table.definitionType id))
    (hdistinct : (table.extensionMethods id).Nodup)
    (h : table.containerRecord (table.definitionType id) id = .ok record) : record.Coherent := by
  obtain ⟨methods, hmethods, rfl⟩ := Binding.ok_of_map h
  have hmatch := forall₂_of_classifyMethods hmethods
  have hdescribes : ∀ r ∈ methods, ∃ m ∈ table.extensionMethods id, table.Describes m r :=
    fun r hr => exists_of_mem_right hmatch hr
  refine ⟨fun r hr hpublic => ?_, fun r hr huses => ?_, fun r hr herror => ?_,
    fun r hr q hq htype => ?_, ?_⟩
  · obtain ⟨m, hm, hdescribed⟩ := hdescribes r hr
    have haccess := hdescribed.isPublic hpublic
    rw [containerAccess?, (hown m hm).2] at haccess
    exact decide_eq_true (Option.some.inj haccess)
  · obtain ⟨m, -, hdescribed⟩ := hdescribes r hr
    exact hdescribed.generic huses
  · obtain ⟨m, -, hdescribed⟩ := hdescribes r hr
    rw [hdescribed.isValueType]
    exact isValueType_of_isUnbound (hdescribed.isErrorType ▸ herror)
  · obtain ⟨m, -, hfirst⟩ := hdescribes r hr
    obtain ⟨n, -, hsecond⟩ := hdescribes q hq
    rw [hfirst.isErrorType, hfirst.isGenericType, hfirst.isValueType, hsecond.isErrorType,
      hsecond.isGenericType, hsecond.isValueType, htype]
    exact ⟨rfl, rfl, rfl⟩
  · refine pairwise_of_forall₂ hmatch hdistinct fun m hm n hn hne r q hfirst hsecond htype => ?_
    exact ⟨hs.apart (hown n hn).1 hfirst hsecond hne htype,
      hs.apart (hown m hm).1 hsecond hfirst hne.symm htype.symm⟩

theorem exists_of_containerRecords {ids : List TypeId} {records : List ContainerRecord}
    (h : table.containerRecords ids = .ok records) : ∀ record ∈ records,
      ∃ id, table.containerRecord (table.definitionType id) id = .ok record := by
  induction ids generalizing records with
  | nil =>
    cases h
    exact fun record hrecord => by cases hrecord
  | cons id rest ih =>
    rw [containerRecords] at h
    split at h
    · cases h
    · next first hfirst =>
      obtain ⟨others, hothers, rfl⟩ := Binding.ok_of_map h
      exact List.forall_mem_cons.mpr ⟨⟨id, hfirst⟩, ih hothers⟩

end SymbolTable

namespace Binding

/-- The records of an assembly that was compiled from some files are coherent. -/
theorem coherent_of_compile {identity : AssemblyIdentity} {implicitUsings : Bool}
    {files : List (Text.Bytes × Source.Node)} {a : Assembly} {containers : List ContainerRecord}
    (h : compile identity implicitUsings files = .ok a) (hclassify : a.classify = .ok containers) :
    ∀ c ∈ containers, c.Coherent := by
  intro c hc
  obtain ⟨id, hid⟩ := SymbolTable.exists_of_containerRecords hclassify c hc
  obtain ⟨o, o', hfrom, htable, -⟩ := boundFrom_compile h
  rw [htable] at hid
  have hscoped := Outline.scoped_bind hfrom.outlined.toWellFormed
    (Outline.scoped_of_bare hfrom.outlined.bare) hfrom.bound
  obtain ⟨himplements, hdistinct⟩ := hfrom.extensionMethods id
  refine hscoped.coherent (fun m hm => ?_) hdistinct hid
  obtain ⟨form, -, hm⟩ := exists_of_mem_left himplements hm
  exact ⟨hm.lt, hm.container⟩

end Binding

/-! ### Rows -/

/-- The columns of a row about a container and of the rows about its methods agree. -/
structure RowsAgree (rows : TypeRow × List MethodRow) : Prop where
  count : rows.2.length = rows.1.methodCount
  isPublic : ∀ m ∈ rows.2, m.isPublic = true → rows.1.isPublic = true
  isGeneric : ∀ m ∈ rows.2, m.usesTypeParameter = true → m.isGeneric = true
  isErrorType : ∀ m ∈ rows.2, m.isErrorType = true → m.isValueType = false
  single : rows.1.methodCount = 1 → rows.1.sharesReceiver = true
  shared : rows.1.sharesReceiver = true → 2 ≤ rows.1.methodCount →
    (∀ m ∈ rows.2, m.usesTypeParameter = false) ∧
      ∀ m ∈ rows.2, ∀ n ∈ rows.2, m.isErrorType = n.isErrorType ∧
        m.isGenericType = n.isGenericType ∧ m.isValueType = n.isValueType

namespace ContainerRecord

variable {c : ContainerRecord}

theorem sharesReceiver_iff : c.sharesReceiver = true ↔
    c.methods ≠ [] ∧ ∀ m ∈ c.methods, ∀ n ∈ c.methods, m.receiver.type = n.receiver.type := by
  rw [sharesReceiver, decide_eq_true_iff, receiverTypes, length_eraseDups_eq_one_iff]
  simp only [ne_eq, List.map_eq_nil_iff, List.forall_mem_map]

theorem sharesReceiver_of_length (h : c.methods.length = 1) : c.sharesReceiver = true := by
  obtain ⟨m, hm⟩ := List.length_eq_one_iff.mp h
  rw [sharesReceiver_iff, hm]
  simp

/-- **Where several methods share a receiver type, none has a type parameter in it.** -/
theorem Coherent.uses_of_shared (h : c.Coherent) (hshares : c.sharesReceiver = true)
    (htwo : 2 ≤ c.methods.length) : ∀ m ∈ c.methods, m.usesTypeParameter = false := by
  refine forall_of_pairwise (h.apart.imp_of_mem fun hm hn hapart => hapart ?_) htwo
  exact (sharesReceiver_iff.mp hshares).2 _ hm _ hn

/-- The rows about a container with a coherent record agree. -/
theorem Coherent.rowsAgree (h : c.Coherent) (result : UnitResult) :
    RowsAgree (containerRows result c) := by
  have hrows : ∀ {P : MethodRow → Prop}, (∀ m ∈ c.methods, P (methodRow result c m)) →
      ∀ m ∈ (containerRows result c).2, P m := by
    intro P hP row hrow
    obtain ⟨m, hm, rfl⟩ := List.mem_map.mp hrow
    exact hP m ((perm_sortByText _ _).mem_iff.mp hm)
  refine ⟨?_, hrows h.isPublic, hrows h.isGeneric, hrows h.isErrorType, sharesReceiver_of_length,
    fun hshares htwo => ⟨hrows (h.uses_of_shared hshares htwo), ?_⟩⟩
  · exact (List.length_map _).trans (perm_sortByText _ _).length_eq
  · have hsame := (sharesReceiver_iff.mp hshares).2
    exact hrows fun m hm => hrows fun n hn => h.receiver m hm n hn (hsame m hm n hn)

end ContainerRecord

/-- The containers of a result are those of an assembly that was compiled from some files. -/
def UnitResult.IsCompiled (result : UnitResult) : Prop :=
  ∃ identity implicitUsings files a, Binding.compile identity implicitUsings files = .ok a ∧
    a.classify = .ok result.containers

/-- **The columns of a report agree.**  Whatever files the units of a report were compiled from, the rows
about a container and its methods agree: a public method is in a public type; a method with a type
parameter in its receiver type is generic; a receiver type that is not found is no value type; a single
method shares its receiver type; and where several methods share one, none has a type parameter in it, and
they say the same of it. -/
theorem reportRows_agree {results : List UnitResult} (h : ∀ result ∈ results, result.IsCompiled) :
    ∀ rows ∈ reportRows results, RowsAgree rows := by
  intro rows hrows
  obtain ⟨result, hresult, hmem⟩ := List.mem_flatMap.mp hrows
  obtain ⟨c, hc, rfl⟩ := List.mem_map.mp hmem
  obtain ⟨identity, implicitUsings, files, a, ha, hclassify⟩ :=
    h result ((perm_sortByText _ _).mem_iff.mp hresult)
  have hcoherent := Binding.coherent_of_compile ha hclassify c ((perm_sortByText _ _).mem_iff.mp hc)
  exact hcoherent.rowsAgree result

/-! ### Two methods on one receiver type -/

open Source (namedLeaf namedNode bytesOf)

/-- A public method on `int` that returns nothing, where it begins at an offset. -/
def intMethodNode (offset : Nat) : Source.Node :=
  namedNode "method_declaration" offset (offset + 34) "" [
    namedLeaf "modifier" offset (offset + 6) "",
    namedLeaf "modifier" (offset + 7) (offset + 13) "",
    namedLeaf "predefined_type" (offset + 14) (offset + 18) "returns",
    namedLeaf "identifier" (offset + 19) (offset + 20) "name",
    namedNode "parameter_list" (offset + 20) (offset + 32) "parameters" [
      namedNode "parameter" (offset + 21) (offset + 31) "" [
        namedLeaf "modifier" (offset + 21) (offset + 25) "",
        namedLeaf "predefined_type" (offset + 26) (offset + 29) "type",
        namedLeaf "identifier" (offset + 30) (offset + 31) "name"]]]

/-- A public container of two such methods. -/
def intMethodsFile : Text.Bytes × Source.Node :=
  (bytesOf
    "public static class E{public static void F(this int x){}public static void G(this int x){}}",
    namedNode "compilation_unit" 0 91 "" [
      namedNode "class_declaration" 0 91 "" [
        namedLeaf "modifier" 0 6 "",
        namedLeaf "modifier" 7 13 "",
        namedLeaf "identifier" 20 21 "name",
        namedNode "declaration_list" 21 91 "body" [intMethodNode 22, intMethodNode 56]]])

/-- The rows about that container agree; its two methods share their receiver type. -/
theorem intMethods_agree :
    ∃ result : UnitResult, result.IsCompiled ∧ ∃ rows ∈ reportRows [result],
      rows.1.methodCount = 2 ∧ rows.1.sharesReceiver = true ∧ RowsAgree rows := by
  have hfacts : (Binding.compile ⟨"E", "1.0.0.0", "neutral", none⟩ true
      [intMethodsFile]).toOption.bind (fun a => a.classify.toOption.map fun containers =>
        containers.map fun c => (c.methods.length, c.sharesReceiver)) = some [(2, true)] := by
    decide +kernel
  cases ha : Binding.compile ⟨"E", "1.0.0.0", "neutral", none⟩ true [intMethodsFile] with
  | error e =>
    rw [ha] at hfacts
    cases hfacts
  | ok a =>
    cases hclassify : a.classify with
    | error e =>
      simp only [ha, Except.toOption, Option.bind_some, hclassify] at hfacts
      cases hfacts
    | ok containers =>
      simp only [ha, Except.toOption, Option.bind_some, hclassify, Option.map_some,
        Option.some.injEq] at hfacts
      obtain ⟨c, rfl, hc⟩ := List.map_eq_singleton_iff.mp hfacts
      obtain ⟨hcount, hshares⟩ := Prod.mk.inj hc
      have hcompiled : (namedResult "/w/E.csproj" "E" [c]).IsCompiled :=
        ⟨_, _, _, a, ha, hclassify⟩
      have hrows : containerRows (namedResult "/w/E.csproj" "E" [c]) c
          ∈ reportRows [namedResult "/w/E.csproj" "E" [c]] :=
        List.mem_flatMap.mpr ⟨_, (perm_sortByText _ _).mem_iff.mpr List.mem_cons_self,
          List.mem_map_of_mem ((perm_sortByText _ _).mem_iff.mpr List.mem_cons_self)⟩
      refine ⟨_, hcompiled, _, hrows, hcount, hshares, reportRows_agree ?_ _ hrows⟩
      exact List.forall_mem_singleton.mpr hcompiled

end ExtensionCensus
