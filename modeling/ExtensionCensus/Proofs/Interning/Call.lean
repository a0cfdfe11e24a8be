import ExtensionCensus.Symbol.Table

/-!
# Calls that make types

* `Call` — a call that makes or finds a type, over any kind of operands;
* `Call.resolve` — the call with the values of its operands, if all of them have one;
* `Call.resolve_map`, `Call.forall_of_resolve` — operands may be read over one value or over a
  function of it, and what holds of every value holds of the operands of a resolved call.
-/

namespace ExtensionCensus.Interning

/-! ### Calls -/

/-- A call that makes or finds a type; `α` is what it is applied to. -/
inductive Call (α : Type) where
  | declare (name : String) (path : NamespacePath) (kind : DefinitionKind)
      (parameters : List TypeParameter) (outer : Option α)
  | construct (receiver : α) (args : List α) (outer : Option α)
  | array (element : α) (rank : Nat)
  | pointer (target : α)
  | functionPointer (signature : String)
  | unbound (name : String) (args : List α) (outer : Option α)

/-- What a call of a session is applied to: a symbol that is there from the start, or the answer
of an earlier call. -/
inductive Operand where
  | parameter (p : TypeParameterRef)
  | dynamic
  | answer (call : Nat)

/-- The values of an operand that may be left out. -/
def resolveOption {α β : Type} (f : α → Option β) : Option α → Option (Option β)
  | none => some none
  | some a => (f a).map some

/-- The values of operands, if all have one. -/
def resolveList {α β : Type} (f : α → Option β) : List α → Option (List β)
  | [] => some []
  | a :: rest => (f a).bind fun b => (resolveList f rest).map (b :: ·)

namespace Call

variable {α β γ : Type}

/-- The operands of a call. -/
def operands : Call α → List α
  | .declare _ _ _ _ outer => outer.toList
  | .construct receiver args outer => receiver :: (args ++ outer.toList)
  | .array element _ => [element]
  | .pointer target => [target]
  | .functionPointer _ => []
  | .unbound _ args outer => args ++ outer.toList

/-- The call with a function applied to its operands. -/
def map (f : α → β) : Call α → Call β
  | .declare name path kind parameters outer =>
    .declare name path kind parameters (outer.map f)
  | .construct receiver args outer => .construct (f receiver) (args.map f) (outer.map f)
  | .array element rank => .array (f element) rank
  | .pointer target => .pointer (f target)
  | .functionPointer signature => .functionPointer signature
  | .unbound name args outer => .unbound name (args.map f) (outer.map f)

/-- The call with the values of its operands, if all have one. -/
def resolve (f : α → Option β) : Call α → Option (Call β)
  | .declare name path kind parameters outer =>
    (resolveOption f outer).map (.declare name path kind parameters)
  | .construct receiver args outer =>
    (f receiver).bind fun r => (resolveList f args).bind fun as =>
      (resolveOption f outer).map (.construct r as)
  | .array element rank => (f element).map (.array · rank)
  | .pointer target => (f target).map .pointer
  | .functionPointer signature => some (.functionPointer signature)
  | .unbound name args outer =>
    (resolveList f args).bind fun as => (resolveOption f outer).map (.unbound name as)

theorem resolveOption_map (f : α → Option β) (g : β → γ) (a : Option α) :
    resolveOption (fun a => (f a).map g) a = (resolveOption f a).map (Option.map g) := by
  cases a with
  | none => rfl
  | some a =>
    show ((f a).map g).map some = ((f a).map some).map (Option.map g)
    rw [Option.map_map, Option.map_map]
    rfl

theorem resolveList_map (f : α → Option β) (g : β → γ) (as : List α) :
    resolveList (fun a => (f a).map g) as = (resolveList f as).map (List.map g) := by
  induction as with
  | nil => rfl
  | cons a as ih =>
    simp only [resolveList, ih]
    cases f a with
    | none => rfl
    | some b =>
      cases resolveList f as with
      | none => rfl
      | some bs => rfl

/-- Operands may be read over one value or over another that is a function of it. -/
theorem resolve_map (f : α → Option β) (g : β → γ) (c : Call α) :
    c.resolve (fun a => (f a).map g) = (c.resolve f).map (map g) := by
  cases c with
  | declare name path kind parameters outer =>
    simp only [resolve, resolveOption_map, Option.map_map]
    rfl
  | construct receiver args outer =>
    simp only [resolve, resolveOption_map, resolveList_map]
    cases f receiver with
    | none => rfl
    | some r =>
      cases resolveList f args with
      | none => rfl
      | some as => cases resolveOption f outer <;> rfl
  | array element rank =>
    simp only [resolve, Option.map_map]
    rfl
  | pointer target =>
    simp only [resolve, Option.map_map]
    rfl
  | functionPointer signature => rfl
  | unbound name args outer =>
    simp only [resolve, resolveOption_map, resolveList_map]
    cases resolveList f args with
    | none => rfl
    | some as => cases resolveOption f outer <;> rfl

end Call

section

variable {α β : Type} {f : α → Option β} {P : β → Prop}

theorem forall_of_resolveOption (hf : ∀ a b, f a = some b → P b) {a : Option α} {b : Option β}
    (h : resolveOption f a = some b) : ∀ x ∈ b.toList, P x := by
  cases a with
  | none =>
    cases h
    simp
  | some a =>
    obtain ⟨b', hb, rfl⟩ := Option.map_eq_some_iff.mp h
    intro x hx
    rw [Option.toList_some, List.mem_singleton] at hx
    exact hx ▸ hf a b' hb

theorem forall_of_resolveList (hf : ∀ a b, f a = some b → P b) {as : List α} {bs : List β}
    (h : resolveList f as = some bs) : ∀ x ∈ bs, P x := by
  induction as generalizing bs with
  | nil =>
    cases h
    simp
  | cons a as ih =>
    obtain ⟨b, hb, h⟩ := Option.bind_eq_some_iff.mp h
    obtain ⟨bs', hbs, rfl⟩ := Option.map_eq_some_iff.mp h
    intro x hx
    rcases List.mem_cons.mp hx with rfl | hx
    · exact hf a x hb
    · exact ih hbs x hx

/-- Whatever holds of every value holds of the operands of a call that was resolved. -/
theorem Call.forall_of_resolve (hf : ∀ a b, f a = some b → P b) {c : Call α} {d : Call β}
    (h : c.resolve f = some d) : ∀ x ∈ d.operands, P x := by
  cases c with
  | declare name path kind parameters outer =>
    obtain ⟨o, ho, rfl⟩ := Option.map_eq_some_iff.mp h
    exact forall_of_resolveOption hf ho
  | construct receiver args outer =>
    obtain ⟨r, hr, h⟩ := Option.bind_eq_some_iff.mp h
    obtain ⟨as, has, h⟩ := Option.bind_eq_some_iff.mp h
    obtain ⟨o, ho, rfl⟩ := Option.map_eq_some_iff.mp h
    intro x hx
    rcases List.mem_cons.mp hx with rfl | hx
    · exact hf _ _ hr
    · rcases List.mem_append.mp hx with hx | hx
      · exact forall_of_resolveList hf has x hx
      · exact forall_of_resolveOption hf ho x hx
  | array element rank =>
    obtain ⟨e, he, rfl⟩ := Option.map_eq_some_iff.mp h
    intro x hx
    exact List.mem_singleton.mp hx ▸ hf _ _ he
  | pointer target =>
    obtain ⟨e, he, rfl⟩ := Option.map_eq_some_iff.mp h
    intro x hx
    exact List.mem_singleton.mp hx ▸ hf _ _ he
  | functionPointer signature =>
    cases h
    intro x hx
    cases hx
  | unbound name args outer =>
    obtain ⟨as, has, h⟩ := Option.bind_eq_some_iff.mp h
    obtain ⟨o, ho, rfl⟩ := Option.map_eq_some_iff.mp h
    intro x hx
    rcases List.mem_append.mp hx with hx | hx
    · exact forall_of_resolveList hf has x hx
    · exact forall_of_resolveOption hf ho x hx

end

end ExtensionCensus.Interning
