import ExtensionCensus.Extension.Container
import ExtensionCensus.Proofs.Extension.Mention
import ExtensionCensus.Proofs.Extension.Qualifying

/-!
# Records of containers

A record lists the extension methods of its container, each with a record of its own.  The walk over
the receiver of a method may refuse its type, and then there is no record.

* `SymbolTable.RefusedAt` — the walk refuses the receiver of a method;
* `containerRecord_cases` — **a record lists all extension methods in order, unless the walk refuses
  the receiver of one**.
-/

namespace ExtensionCensus

namespace SymbolTable

/-- The walk over the receiver of a method refuses its type, after records were made of the methods
in front of it, and so the container has no record of its methods. -/
structure RefusedAt (table : SymbolTable) (id : TypeId) (front : List MethodId) (m : MethodId)
    (back : List MethodId) (receiver : Parameter) (cause : ReceiverError) : Prop where
  methods : table.extensionMethods id = front ++ m :: back
  before : ∀ k ∈ front, ∃ r, table.classifyMethod k = .ok r
  isReceiver : (table.method m).parameters.head? = some receiver
  refused : table.mentionsOwn m receiver.type = .error cause
  notPlain : receiver.type.isPlain = false
  record : table.containerRecord (table.definitionType id) id = .error (.receiver cause)

section

variable {table : SymbolTable}

/-- Methods have records one by one, or the first one that has none decides. -/
theorem classifyMethods_cases (ids : List MethodId) :
    (∃ records, table.classifyMethods ids = .ok records ∧
        List.Forall₂ (fun m r => table.classifyMethod m = .ok r) ids records) ∨
      ∃ front m back e, ids = front ++ m :: back ∧
        (∀ k ∈ front, ∃ r, table.classifyMethod k = .ok r) ∧
        table.classifyMethod m = .error e ∧ table.classifyMethods ids = .error e := by
  induction ids with
  | nil => exact Or.inl ⟨[], rfl, .nil⟩
  | cons m rest ih =>
    cases hm : table.classifyMethod m with
    | error e =>
      refine Or.inr ⟨[], m, rest, e, rfl, fun k hk => (by cases hk), hm, ?_⟩
      rw [classifyMethods, hm]
    | ok r =>
      rcases ih with ⟨records, hrecords, hmatch⟩ | ⟨front, k, back, e, rfl, hfront, hk, herror⟩
      · refine Or.inl ⟨r :: records, ?_, .cons hm hmatch⟩
        rw [classifyMethods, hm, hrecords]
        rfl
      · refine Or.inr ⟨m :: front, k, back, e, rfl, fun k' hk' => ?_, hk, ?_⟩
        · rcases List.mem_cons.mp hk' with rfl | hk'
          · exact ⟨r, hm⟩
          · exact hfront k' hk'
        · rw [classifyMethods, hm, herror]
          rfl

/-- A method with a receiver has no record only if the walk refuses the type of the receiver. -/
theorem receiver_of_classifyMethod {m : MethodId} {e : ClassifyError}
    (hne : (table.method m).parameters ≠ []) (h : table.classifyMethod m = .error e) :
    ∃ receiver cause, (table.method m).parameters.head? = some receiver ∧
      table.mentionsOwn m receiver.type = .error cause ∧ e = .receiver cause := by
  rw [classifyMethod] at h
  cases hp : (table.method m).parameters with
  | nil => exact absurd hp hne
  | cons receiver rest =>
    simp only [hp] at h
    split at h
    · next cause hcause =>
      cases h
      exact ⟨receiver, cause, rfl, hcause, rfl⟩
    · cases h

/-- **A container has records of all its extension methods, in order, unless the walk over a receiver
refuses its type.** -/
theorem containerRecord_cases (table : SymbolTable) (id : TypeId) :
    (∃ record, table.containerRecord (table.definitionType id) id = .ok record ∧
        List.Forall₂ (fun m r => table.classifyMethod m = .ok r) (table.extensionMethods id)
          record.methods) ∨
      ∃ front m back receiver cause, table.RefusedAt id front m back receiver cause := by
  rcases table.classifyMethods_cases (table.extensionMethods id) with
    ⟨records, hrecords, hmatch⟩ | ⟨front, m, back, e, hmethods, hfront, hm, herror⟩
  · have hrecord : table.containerRecord (table.definitionType id) id = .ok
        { text := table.display (table.definitionType id)
          isPublic := (table.traits (table.definitionType id)).access = .publicAccess
          hasOtherMembers := table.hasOtherMembers id
          methods := records } := by
      rw [containerRecord, hrecords]
      rfl
    exact Or.inl ⟨_, hrecord, hmatch⟩
  · have hmem : m ∈ table.extensionMethods id := by
      rw [hmethods]
      exact List.mem_append_right _ List.mem_cons_self
    rw [extensionMethods_eq] at hmem
    have hq := (List.mem_filter.mp hmem).2
    rw [isQualifying, Bool.and_eq_true, Bool.not_eq_true', List.isEmpty_eq_false_iff] at hq
    obtain ⟨receiver, cause, hreceiver, hrefused, rfl⟩ := receiver_of_classifyMethod hq.2 hm
    refine Or.inr ⟨front, m, back, receiver, cause, hmethods, hfront, hreceiver, hrefused, ?_, ?_⟩
    · -- over a plain type the walk does not refuse
      cases hplain : receiver.type.isPlain with
      | false => rfl
      | true =>
        obtain ⟨b, hb, -⟩ := table.mentionsOwn_of_isPlain m hplain
        rw [hb] at hrefused
        cases hrefused
    · rw [containerRecord, herror]
      rfl

end

end SymbolTable

end ExtensionCensus
