import ExtensionCensus.Extension.Container
import ExtensionCensus.Proofs.Symbol.Showing

/-!
# Records that do not depend on places

A method that is the same in two tables, up to where types and methods are, has the same record in
both.

* `MethodRecord.rename` — a record with the places in its receiver mapped;
* `Ty.mentions_rename` — the walk over a receiver sees the same;
* `SameFaces.classifyMethod_rename` — **a method is classified alike**.
-/

namespace ExtensionCensus

/-- A record with the places in its receiver mapped. -/
def MethodRecord.rename (r : Renaming) (record : MethodRecord) : MethodRecord :=
  { record with receiver := record.receiver.rename r }

/-! ### The walk over a receiver -/

section

variable {r : Renaming} {own : List TypeParameterRef}

/-- The type parameter is among some exactly if it is where these are put. -/
def Recognised (r : Renaming) (own : List TypeParameterRef) (p : TypeParameterRef) : Prop :=
  r.parameter p ∈ own.map r.parameter → p ∈ own

mutual

theorem Ty.mentions_rename : ∀ t : Ty, t.Within (Recognised r own) →
    (t.rename r).mentions (own.map r.parameter) = t.mentions own
  | .named head outer args, ht => by
    rw [Ty.rename, Ty.mentions, Ty.mentions]
    exact Ty.anyMentions_rename args (Ty.within_named_iff.mp ht).2
  | .parameter p, ht => by
    have hp : Recognised r own p := Ty.within_parameter_iff.mp ht
    rw [Ty.rename_parameter, Ty.mentions, Ty.mentions]
    congr 1
    rw [Bool.eq_iff_iff, List.contains_iff_mem, List.contains_iff_mem]
    exact ⟨hp, fun hmem => List.mem_map_of_mem hmem⟩
  | .array element rank, ht => by
    rw [Ty.rename_array, Ty.mentions, Ty.mentions]
    exact Ty.mentions_rename element ht
  | .pointer target, ht => by
    rw [Ty.rename_pointer, Ty.mentions, Ty.mentions]
    exact Ty.mentions_rename target ht
  | .dynamic, _ => by rw [Ty.rename_dynamic, Ty.mentions, Ty.mentions]
  | .functionPointer signature, _ => by rw [Ty.rename_functionPointer, Ty.mentions, Ty.mentions]

theorem Ty.anyMentions_rename : ∀ ts : List Ty, (∀ t ∈ ts, t.Within (Recognised r own)) →
    Ty.anyMentions (own.map r.parameter) (Ty.renameList r ts) = Ty.anyMentions own ts
  | [], _ => rfl
  | t :: ts, ht => by
    rw [Ty.renameList, Ty.anyMentions, Ty.anyMentions,
      Ty.mentions_rename t (ht t List.mem_cons_self),
      Ty.anyMentions_rename ts fun u hu => ht u (List.mem_cons_of_mem t hu)]

end

mutual

/-- The walk refuses only types that have nothing to do with places. -/
theorem Ty.refused_of_mentions : ∀ (t : Ty) {e : Ty}, t.mentions own = .error e →
    e = .dynamic ∨ ∃ signature, e = .functionPointer signature
  | .named _ _ args, e, h => by
    rw [Ty.mentions] at h
    exact Ty.refused_of_anyMentions args h
  | .parameter p, e, h => by
    rw [Ty.mentions] at h
    cases h
  | .array element _, e, h => by
    rw [Ty.mentions] at h
    exact Ty.refused_of_mentions element h
  | .pointer target, e, h => by
    rw [Ty.mentions] at h
    exact Ty.refused_of_mentions target h
  | .dynamic, e, h => by
    rw [Ty.mentions] at h
    cases h
    exact Or.inl rfl
  | .functionPointer signature, e, h => by
    rw [Ty.mentions] at h
    cases h
    exact Or.inr ⟨signature, rfl⟩

theorem Ty.refused_of_anyMentions : ∀ (ts : List Ty) {e : Ty},
    Ty.anyMentions own ts = .error e → e = .dynamic ∨ ∃ signature, e = .functionPointer signature
  | [], e, h => by
    rw [Ty.anyMentions] at h
    cases h
  | t :: ts, e, h => by
    rw [Ty.anyMentions] at h
    split at h
    · next refused hrefused =>
      cases h
      exact Ty.refused_of_mentions t hrefused
    · cases h
    · exact Ty.refused_of_anyMentions ts h

end

end

namespace SymbolTable

variable {r : Renaming} {a b : SymbolTable} {m m' : MethodId}

/-- What may occur in the signature of a method: type parameters that are declared alike, and that
belong to the method in both tables or in none. -/
def Carried (r : Renaming) (a b : SymbolTable) (m : MethodId) (p : TypeParameterRef) : Prop :=
  SameParameter r a b p ∧ Recognised r (a.methodTypeParameters m) p

theorem mentionsOwn_rename
    (hown : b.methodTypeParameters m' = (a.methodTypeParameters m).map r.parameter)
    (hshown : b.displayMethod (b.method m') = a.displayMethod (a.method m)) {t : Ty}
    (ht : t.Within (Carried r a b m)) : b.mentionsOwn m' (t.rename r) = a.mentionsOwn m t := by
  have hwalk : (t.rename r).mentions ((a.methodTypeParameters m).map r.parameter)
      = t.mentions (a.methodTypeParameters m) := Ty.mentions_rename t (ht.mono fun p hp => hp.2)
  rw [mentionsOwn, mentionsOwn, hown, hwalk, hshown]
  cases hm : t.mentions (a.methodTypeParameters m) with
  | ok uses => rfl
  | error refused =>
    rcases Ty.refused_of_mentions t hm with rfl | ⟨signature, rfl⟩
    · simp only [Except.mapError, display]
      rfl
    · simp only [Except.mapError, display]
      rfl

/-- **A method is classified alike.** -/
theorem SameFaces.classifyMethod_rename (h : SameFaces r a b)
    (hm : b.method m' = (a.method m).rename r)
    (hown : b.methodTypeParameters m' = (a.methodTypeParameters m).map r.parameter)
    (hscope : ∀ t ∈ (a.method m).types, t.Within (Carried r a b m))
    (haccess : b.containerAccess? (b.method m') = a.containerAccess? (a.method m)) :
    b.classifyMethod m' = (a.classifyMethod m).map (MethodRecord.rename r) := by
  have hshown : b.displayMethod (b.method m') = a.displayMethod (a.method m) := by
    rw [hm]
    exact h.displayMethod_rename fun t ht => (hscope t ht).mono fun p hp => hp.1
  have hparameters : (b.method m').parameters
      = (a.method m).parameters.map (Parameter.rename r) := by
    rw [hm]
    rfl
  have htypeParameters : (b.method m').typeParameters.isEmpty
      = (a.method m).typeParameters.isEmpty := by
    rw [hm, Method.rename, List.isEmpty_map]
  have hownAccess : (b.method m').access = (a.method m).access := by
    rw [hm]
    rfl
  rw [classifyMethod, classifyMethod]
  simp only [hparameters, hshown, htypeParameters, hownAccess, haccess]
  cases hp : (a.method m).parameters with
  | nil => rfl
  | cons receiver rest =>
    have hreceiver : receiver.type.Within (Carried r a b m) := by
      refine hscope receiver.type (Method.mem_types_iff.mpr (Or.inr (Or.inl ⟨receiver, ?_, rfl⟩)))
      rw [hp]
      exact List.mem_cons_self
    have hplain : receiver.type.Within (SameParameter r a b) := hreceiver.mono fun p hp => hp.1
    have htype : (receiver.rename r).type = receiver.type.rename r := rfl
    simp only [List.map_cons, htype, mentionsOwn_rename hown hshown hreceiver,
      h.displayParameterType_rename hplain, h.isValueType_rename hplain, Ty.isUnbound_rename,
      Ty.isGeneric_rename, List.length_map]
    cases a.mentionsOwn m receiver.type with
    | error e => rfl
    | ok uses => rfl

end SymbolTable

end ExtensionCensus
