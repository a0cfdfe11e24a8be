import ExtensionCensus.Source.Reading
import Mathlib.Data.List.Forall2

/-!
# Comments in trees

A comment may stand anywhere among the children of a node. Most readers ask for children by the
name of their field or by their kind and never see it; a few count named children, and for these it
matters where the comment stands.

* `Node.isComment` — a comment: a named node without a field and without children;
* `Overlooks` — the places among the children of a node where no reader sees a comment;
* `Commented` — a tree with comments put in at such places, at any depth;
* `Respelled` — a tree over other bytes with the same texts, and comments at such places;
  `respells` checks it where there are none;
* `Woven.find?`, `Woven.filter`, `Woven.getLast?`, `Woven.filter_eraseP`, `Woven.foldl` — what the
  ways of getting at children find in a list with comments.
-/

namespace ExtensionCensus.Source

open Text (Bytes)

/-! ### Comments -/

/-- The node is a comment. -/
def Node.isComment (n : Node) : Bool :=
  n.kind = "comment" && n.isNamed && n.field = "" && n.children.isEmpty

/-- Some of the nodes is no bare token. -/
def hasNamed (nodes : List Node) : Bool :=
  nodes.any (·.isNamed)

/-! ### Places that are overlooked -/

/-- The kinds of nodes of which every named child is read. -/
def countedKinds : List String :=
  ["type_argument_list", "type_parameter_constraints_clause"]

/-- The kinds of nodes of which the first named child is read, unless a child carries the field of
a type. -/
def firstOperandKinds : List String :=
  ["nullable_type", "array_type", "pointer_type", "tuple_element", "type_parameter_constraint",
    "type_constraint"]

/-- The kinds of nodes of which the last named child is read, unless a child carries the field of
a type. -/
def lastOperandKinds : List String :=
  ["ref_type", "scoped_type"]

/-- The effect of a child on the search for the default value of a parameter: whether an equals sign
was met, and the value that was found. -/
def defaultStep (source : Bytes) (state : Bool × Option String) (c : Node) :
    Bool × Option String :=
  let (afterEquals, value) := state
  if isParameterModifier c then state
  else if !c.isNamed && parameterWords.contains c.kind then state
  else if c.kind = "equals_value_clause" then
    (afterEquals, some (Node.textOf c.named.head? source))
  else if c.kind = "=" then (true, value)
  else if afterEquals && c.isNamed && value.isNone then (afterEquals, some (c.text source))
  else state

/-- Behind some children of a parameter the next named one is taken for its default value. -/
def awaitsDefault (source : Bytes) (front : List Node) : Bool :=
  let state := front.foldl (defaultStep source) (false, none)
  state.1 && state.2.isNone

/-- The effect of a child of a parameter list on the unwrapped array that is open, if one is. -/
def openStep (parts : Option (List Node)) (c : Node) : Option (List Node) :=
  if isParameter c then parts
  else if opensArray c then some [c]
  else if c.kind = "," || c.kind = ")" then none
  else parts.map (· ++ [c])

/-- The parts so far of the unwrapped array that is open behind some children of a parameter
list. -/
def openParts (front : List Node) : Option (List Node) :=
  front.foldl openStep none

/-- No reader of the node sees a comment that stands between two runs of its children. -/
structure Overlooks (source : Bytes) (n : Node) (front rest : List Node) : Prop where
  counted : n.kind ∉ countedKinds
  first : n.kind ∈ firstOperandKinds → (n.field? "type").isSome ∨ hasNamed front
  last : n.kind ∈ lastOperandKinds → (n.field? "type").isSome ∨ hasNamed rest
  qualified : n.kind = "qualified_name" →
    ((n.field? "qualifier").isSome ∧ (n.field? "name").isSome) ∨ (hasNamed front ∧ hasNamed rest)
  aliased : n.kind = "alias_qualified_name" →
    ((n.field? "alias").isSome ∨ hasNamed front) ∧ ((n.field? "name").isSome ∨ hasNamed rest)
  value : n.kind = "equals_value_clause" → hasNamed front
  parameter : isParameter n →
    ((n.field? "type").isSome ∨ front.any isParameterPart) ∧ ¬awaitsDefault source front
  loose : n.kind = "parameter_list" ∨ n.field = "parameters" → ∀ parts ∈ openParts front,
    parts.any isParameterPart ∧ ¬awaitsDefault source parts

/-- The kinds of nodes whose readers may see a comment. -/
def attentiveKinds : List String :=
  countedKinds ++ firstOperandKinds ++ lastOperandKinds ++ ["qualified_name",
    "alias_qualified_name", "equals_value_clause", "parameter", "parameter_array", "parameter_list"]

/-- In a node of any other kind comments are overlooked everywhere. -/
theorem Overlooks.of_kind {source : Bytes} {n : Node} (hkind : n.kind ∉ attentiveKinds)
    (hfield : n.field ≠ "parameters") (front rest : List Node) : Overlooks source n front rest := by
  simp only [attentiveKinds, List.mem_append, List.mem_cons, List.not_mem_nil, not_or] at hkind
  obtain ⟨⟨⟨hcounted, hfirst⟩, hlast⟩, hqualified, haliased, hvalue, hparameter, harray, hlist, -⟩ :=
    hkind
  refine ⟨hcounted, fun h => absurd h hfirst, fun h => absurd h hlast,
    fun h => absurd h hqualified, fun h => absurd h haliased, fun h => absurd h hvalue, fun h => ?_,
    fun h => ?_⟩
  · rw [isParameter, decide_eq_false hparameter, decide_eq_false harray] at h
    cases h
  · exact absurd h (not_or.mpr ⟨hlist, hfield⟩)

/-- Some children of a node, which stand behind `front`, and the same with comments put in where they
are overlooked and every other child changed as `R` allows. -/
inductive Woven (source : Bytes) (R : Node → Node → Prop) :
    List Node → Node → List Node → List Node → Prop where
  | done (front : List Node) (n : Node) : Woven source R front n [] []
  | keep {front : List Node} {n c c' : Node} {rest new : List Node} (changed : R c c')
      (behind : Woven source R (front ++ [c]) n rest new) :
      Woven source R front n (c :: rest) (c' :: new)
  | comment {front : List Node} {n k : Node} {rest new : List Node} (isComment : k.isComment)
      (overlooked : Overlooks source n front rest) (behind : Woven source R front n rest new) :
      Woven source R front n rest (k :: new)

/-- A tree and the same tree with comments put in, at any depth, where they are overlooked. -/
inductive Commented (source : Bytes) : Node → Node → Prop where
  | mk {n : Node} {new : List Node}
      (woven : Woven source (Commented source) [] n n.children new) :
      Commented source n { n with children := new }

/-- A list in which no comment was put in. -/
theorem Woven.refl {source : Bytes} {R : Node → Node → Prop} (n : Node) {nodes : List Node} :
    ∀ front : List Node, (∀ c ∈ nodes, R c c) → Woven source R front n nodes nodes := by
  induction nodes with
  | nil => exact fun front _ => .done front n
  | cons c rest ih =>
    intro front h
    exact .keep (h c List.mem_cons_self) (ih _ fun d hd => h d (List.mem_cons_of_mem _ hd))

/-- A tree in which no comment was put in. -/
theorem Commented.refl (source : Bytes) : ∀ n : Node, Commented source n n
  | ⟨kind, isNamed, start, stop, field, children⟩ =>
    .mk (n := ⟨kind, isNamed, start, stop, field, children⟩)
      (Woven.refl _ [] fun c _hc => Commented.refl source c)
termination_by n => sizeOf n
decreasing_by exact Node.size_lt_of_mem _hc

/-! ### What a comment is not -/

namespace Node

variable {k : Node}

theorem kind_of_isComment (h : k.isComment = true) : k.kind = "comment" := by
  simp only [isComment, Bool.and_eq_true, decide_eq_true_eq] at h
  exact h.1.1.1

theorem isNamed_of_isComment (h : k.isComment = true) : k.isNamed = true := by
  simp only [isComment, Bool.and_eq_true, decide_eq_true_eq] at h
  exact h.1.1.2

theorem field_of_isComment (h : k.isComment = true) : k.field = "" := by
  simp only [isComment, Bool.and_eq_true, decide_eq_true_eq] at h
  exact h.1.2

/-- A comment is of no other kind. -/
theorem kind_ne_of_isComment (h : k.isComment = true) {kind : String} (hk : kind ≠ "comment") :
    (decide (k.kind = kind)) = false := by
  rw [kind_of_isComment h]
  exact decide_eq_false hk.symm

/-- A comment carries no field. -/
theorem field_ne_of_isComment (h : k.isComment = true) {name : String} (hname : name ≠ "") :
    (decide (k.field = name)) = false := by
  rw [field_of_isComment h]
  exact decide_eq_false hname.symm

end Node

/-! ### Trees over other bytes -/

/-- A tree, and one over other bytes whose nodes have the same kinds, fields and texts, with comments
put in, at any depth, where they are overlooked. -/
inductive Respelled (source source' : Bytes) : Node → Node → Prop where
  | mk {n n' : Node} (kind : n'.kind = n.kind) (isNamed : n'.isNamed = n.isNamed)
      (field : n'.field = n.field) (text : n'.text source' = n.text source)
      (woven : Woven source (Respelled source source') [] n n.children n'.children) :
      Respelled source source' n n'

section

variable {source source' : Bytes} {n n' : Node}

namespace Respelled

theorem kind_eq (h : Respelled source source' n n') : n'.kind = n.kind := by
  cases h
  assumption

theorem isNamed_eq (h : Respelled source source' n n') : n'.isNamed = n.isNamed := by
  cases h
  assumption

theorem field_eq (h : Respelled source source' n n') : n'.field = n.field := by
  cases h
  assumption

theorem text_eq (h : Respelled source source' n n') : n'.text source' = n.text source := by
  cases h
  assumption

theorem woven (h : Respelled source source' n n') :
    Woven source (Respelled source source') [] n n.children n'.children := by
  cases h
  assumption

end Respelled

/-- A list is changed in as many ways as its nodes are. -/
theorem Woven.mono {R S : Node → Node → Prop} {front old new : List Node}
    (h : Woven source R front n old new) (hRS : ∀ c ∈ old, ∀ c', R c c' → S c c') :
    Woven source S front n old new := by
  induction h with
  | done front n => exact .done front n
  | keep changed behind ih =>
    exact .keep (hRS _ List.mem_cons_self _ changed)
      (ih fun c hc => hRS c (List.mem_cons_of_mem _ hc))
  | comment isComment overlooked behind ih => exact .comment isComment overlooked (ih hRS)

/-- Comments leave the texts of all other nodes. -/
theorem Commented.respelled : ∀ {n n' : Node}, Commented source n n' → Respelled source source n n'
  | _, _, .mk woven =>
    .mk rfl rfl rfl rfl (woven.mono fun _ _hc _ changed => Commented.respelled changed)
termination_by n => sizeOf n
decreasing_by exact Node.size_lt_of_mem _hc

mutual

/-- The second tree is the first one over other bytes, without any comment put in. -/
def respells (source source' : Bytes) : Node → Node → Bool
  | ⟨kind, isNamed, start, stop, field, children⟩, n' =>
    n'.kind = kind && n'.isNamed = isNamed && n'.field = field &&
      n'.text source' = Text.decodeLossy (source.extract start stop) &&
      respellsAll source source' children n'.children

/-- The same for each of some trees. -/
def respellsAll (source source' : Bytes) : List Node → List Node → Bool
  | [], [] => true
  | c :: rest, c' :: rest' => respells source source' c c' && respellsAll source source' rest rest'
  | _, _ => false

end

mutual

theorem respelled_of_respells : ∀ (n n' : Node), respells source source' n n' = true →
    Respelled source source' n n'
  | ⟨kind, isNamed, start, stop, field, children⟩, n', h => by
    simp only [respells, Bool.and_eq_true, decide_eq_true_eq] at h
    obtain ⟨⟨⟨⟨hkind, hnamed⟩, hfield⟩, htext⟩, hchildren⟩ := h
    exact .mk hkind hnamed hfield htext (woven_of_respellsAll children n'.children [] _ hchildren)

theorem woven_of_respellsAll : ∀ (old new front : List Node) (n : Node),
    respellsAll source source' old new = true →
    Woven source (Respelled source source') front n old new
  | [], [], front, n, _ => .done front n
  | c :: rest, c' :: rest', front, n, h => by
    rw [respellsAll, Bool.and_eq_true] at h
    exact .keep (respelled_of_respells c c' h.1)
      (woven_of_respellsAll rest rest' (front ++ [c]) n h.2)
  | [], _ :: _, _, _, h => by simp [respellsAll] at h
  | _ :: _, [], _, _, h => by simp [respellsAll] at h

end

/-! ### Getting at children -/

section

variable {α β : Type} {R : α → α → Prop} {a a' b b' : Option α}

theorem rel_getD (h : Option.Rel R a b) {c d : α} (hcd : R c d) : R (a.getD c) (b.getD d) := by
  cases h with
  | none => exact hcd
  | some hab => exact hab

theorem rel_or (h : Option.Rel R a a') (h' : Option.Rel R b b') :
    Option.Rel R (a.or b) (a'.or b') := by
  cases h with
  | none => exact h'
  | some haa => exact .some haa

/-- Behind something that is there nothing else is asked for. -/
theorem rel_some_or {c : α} (h : Option.Rel R (some c) a') (x y : Option α) :
    Option.Rel R ((some c).or x) (a'.or y) := by
  cases h with
  | some hc => exact .some hc

theorem isSome_eq_of_rel (h : Option.Rel R a b) : b.isSome = a.isSome := by
  cases h with
  | none => rfl
  | some _ => rfl

theorem map_eq_of_rel {f g : α → β} (h : Option.Rel R a b)
    (hf : ∀ c ∈ a, ∀ c', R c c' → g c' = f c) : b.map g = a.map f := by
  cases h with
  | none => rfl
  | some hab => exact congrArg some (hf _ rfl _ hab)

theorem bind_eq_of_rel {f g : α → Option β} (h : Option.Rel R a b)
    (hf : ∀ c ∈ a, ∀ c', R c c' → g c' = f c) : b.bind g = a.bind f := by
  cases h with
  | none => rfl
  | some hab => exact hf _ rfl _ hab

theorem map_eq_of_forall₂ {f g : α → β} {old new : List α} (h : List.Forall₂ R old new)
    (hf : ∀ c ∈ old, ∀ c', R c c' → g c' = f c) : new.map g = old.map f := by
  induction h with
  | nil => rfl
  | cons hc _ ih =>
    rw [List.map_cons, List.map_cons, hf _ List.mem_cons_self _ hc,
      ih fun d hd => hf d (List.mem_cons_of_mem _ hd)]

theorem filterMap_eq_of_forall₂ {f g : α → Option β} {old new : List α}
    (h : List.Forall₂ R old new) (hf : ∀ c ∈ old, ∀ c', R c c' → g c' = f c) :
    new.filterMap g = old.filterMap f := by
  induction h with
  | nil => rfl
  | cons hc _ ih =>
    rw [List.filterMap_cons, List.filterMap_cons, hf _ List.mem_cons_self _ hc,
      ih fun d hd => hf d (List.mem_cons_of_mem _ hd)]

theorem rel_getLast? {old new : List α} (h : List.Forall₂ R old new) :
    Option.Rel R old.getLast? new.getLast? := by
  induction h with
  | nil => exact .none
  | cons hc _ ih =>
    rw [List.getLast?_cons, List.getLast?_cons]
    exact .some (rel_getD ih hc)

theorem findIdx?_eq_of_forall₂ {q : α → Bool} {old new : List α} (h : List.Forall₂ R old new)
    (hq : ∀ {c c' : α}, R c c' → q c' = q c) : new.findIdx? q = old.findIdx? q := by
  induction h with
  | nil => rfl
  | cons hc _ ih => rw [List.findIdx?_cons, List.findIdx?_cons, hq hc, ih]

end

namespace Woven

variable {front old new : List Node} {q : Node → Bool}

/-- The first node of a sort is the same, if the comments are not of that sort or stand behind one
of it. -/
theorem find? (hq : ∀ {c c' : Node}, Respelled source source' c c' → q c' = q c)
    (hcomment : ∀ {k : Node} {front rest : List Node}, k.isComment = true →
      Overlooks source n front rest → q k = true → front.any q = true)
    (h : Woven source (Respelled source source') front n old new) (hfront : front.any q = false) :
    Option.Rel (Respelled source source') (old.find? q) (new.find? q) := by
  induction h with
  | done front n => exact .none
  | @keep front n c c' rest new changed behind ih =>
    rw [List.find?_cons, List.find?_cons, hq changed]
    cases hc : q c with
    | true => exact .some changed
    | false => exact ih hcomment (by simp [hfront, hc])
  | @comment front n k rest new isComment overlooked behind ih =>
    have hk : q k = false := by
      by_contra hk
      rw [hcomment isComment overlooked (Bool.not_eq_false _ ▸ hk)] at hfront
      cases hfront
    rw [List.find?_cons, hk]
    exact ih hcomment hfront

/-- The nodes of a sort are the same, if the comments are not of that sort. -/
theorem filter (hq : ∀ {c c' : Node}, Respelled source source' c c' → q c' = q c)
    (hcomment : ∀ {k : Node}, k.isComment = true → q k = false)
    (h : Woven source (Respelled source source') front n old new) :
    List.Forall₂ (Respelled source source') (old.filter q) (new.filter q) := by
  induction h with
  | done front n => exact .nil
  | @keep front n c c' rest new changed behind ih =>
    rw [List.filter_cons, List.filter_cons, hq changed]
    split
    · exact .cons changed ih
    · exact ih
  | @comment front n k rest new isComment overlooked behind ih =>
    rw [List.filter_cons, hcomment isComment]
    exact ih

/-- The last node of a sort is the same, if one of that sort stands behind every comment. -/
theorem getLast? (hq : ∀ {c c' : Node}, Respelled source source' c c' → q c' = q c)
    (hcomment : ∀ {front rest : List Node}, Overlooks source n front rest → rest.any q = true)
    (h : Woven source (Respelled source source') front n old new) :
    Option.Rel (Respelled source source') (old.filter q).getLast? (new.filter q).getLast? := by
  induction h with
  | done front n => exact .none
  | @keep front n c c' rest new changed behind ih =>
    rw [List.filter_cons, List.filter_cons, hq changed]
    split
    · rw [List.getLast?_cons, List.getLast?_cons]
      exact .some (rel_getD (ih hcomment) changed)
    · exact ih hcomment
  | @comment front n k rest new isComment overlooked behind ih =>
    have hlast := ih hcomment
    obtain ⟨d, hd⟩ : ∃ d, (rest.filter q).getLast? = some d := by
      obtain ⟨c, hc, hqc⟩ := List.any_eq_true.mp (hcomment overlooked)
      rw [← Option.isSome_iff_exists, List.getLast?_isSome]
      exact List.ne_nil_of_mem (List.mem_filter.mpr ⟨hc, hqc⟩)
    rw [hd] at hlast ⊢
    rw [List.filter_cons]
    split
    · rw [List.getLast?_cons]
      cases hnew : (new.filter q).getLast? with
      | none => rw [hnew] at hlast; cases hlast
      | some e => rw [hnew] at hlast; exact hlast
    · exact hlast

/-- With the first node of a sort `q` taken out, the nodes of a sort `r` are the same, if comments
are not of the sort `r`, and not of the sort `q` or behind a node of it. -/
theorem filter_eraseP {r : Node → Bool}
    (hq : ∀ {c c' : Node}, Respelled source source' c c' → q c' = q c)
    (hr : ∀ {c c' : Node}, Respelled source source' c c' → r c' = r c)
    (hcomment : ∀ {k : Node} {front rest : List Node}, k.isComment = true →
      Overlooks source n front rest → q k = true → front.any q = true)
    (hother : ∀ {k : Node}, k.isComment = true → r k = false)
    (h : Woven source (Respelled source source') front n old new) (hfront : front.any q = false) :
    List.Forall₂ (Respelled source source') ((old.eraseP q).filter r) ((new.eraseP q).filter r) := by
  induction h with
  | done front n => exact .nil
  | @keep front n c c' rest new changed behind ih =>
    cases hc : q c with
    | true =>
      rw [List.eraseP_cons_of_pos hc, List.eraseP_cons_of_pos (hq changed ▸ hc)]
      exact behind.filter hr hother
    | false =>
      have hc' : ¬q c' = true := by rw [hq changed, hc]; exact Bool.false_ne_true
      rw [List.eraseP_cons_of_neg (by rw [hc]; exact Bool.false_ne_true),
        List.eraseP_cons_of_neg hc', List.filter_cons, List.filter_cons, hr changed]
      have hbehind := ih hcomment (by simp [hfront, hc])
      split
      · exact .cons changed hbehind
      · exact hbehind
  | @comment front n k rest new isComment overlooked behind ih =>
    have hk : ¬q k = true := by
      intro hk
      rw [hcomment isComment overlooked hk] at hfront
      cases hfront
    rw [List.eraseP_cons_of_neg hk, List.filter_cons, hother isComment]
    exact ih hcomment hfront

/-- What is gathered from left to right is the same, if comments leave what was gathered in front of
them. -/
theorem foldl {α : Type} {f g : α → Node → α} {init : α}
    (hf : ∀ {c c' : Node} (s : α), Respelled source source' c c' → g s c' = f s c)
    (hcomment : ∀ {k : Node} {front rest : List Node}, k.isComment = true →
      Overlooks source n front rest → g (front.foldl f init) k = front.foldl f init)
    (h : Woven source (Respelled source source') front n old new) :
    new.foldl g (front.foldl f init) = old.foldl f (front.foldl f init) := by
  induction h with
  | done front n => rfl
  | @keep front n c c' rest new changed behind ih =>
    have hbehind := ih hcomment
    rw [List.foldl_append] at hbehind
    rw [List.foldl_cons, List.foldl_cons, hf _ changed]
    exact hbehind
  | @comment front n k rest new isComment overlooked behind ih =>
    rw [List.foldl_cons, hcomment isComment overlooked]
    exact ih hcomment

/-- What the nodes say one after the other is the same, if comments say nothing. -/
theorem flatMap {α : Type} {f g : Node → List α}
    (hf : ∀ {c c' : Node}, Respelled source source' c c' → g c' = f c)
    (hcomment : ∀ {k : Node}, k.isComment = true → g k = [])
    (h : Woven source (Respelled source source') front n old new) :
    new.flatMap g = old.flatMap f := by
  induction h with
  | done front n => rfl
  | @keep front n c c' rest new changed behind ih =>
    rw [List.flatMap_cons, List.flatMap_cons, hf changed, ih]
  | @comment front n k rest new isComment overlooked behind ih =>
    rw [List.flatMap_cons, hcomment isComment, ih, List.nil_append]

/-- What the nodes are read as is the same, if comments are read as nothing. -/
theorem filterMap {α : Type} {f g : Node → Option α}
    (hcomment : ∀ {k : Node}, k.isComment = true → g k = none)
    (h : Woven source (Respelled source source') front n old new)
    (hf : ∀ c ∈ old, ∀ c', Respelled source source' c c' → g c' = f c) :
    new.filterMap g = old.filterMap f := by
  induction h with
  | done front n => rfl
  | @keep front n c c' rest new changed behind ih =>
    rw [List.filterMap_cons, List.filterMap_cons, hf c List.mem_cons_self c' changed,
      ih fun d hd => hf d (List.mem_cons_of_mem _ hd)]
  | @comment front n k rest new isComment overlooked behind ih =>
    rw [List.filterMap_cons, hcomment isComment]
    exact ih hf

/-- Where no comment is overlooked there is none. -/
theorem forall₂ (hnone : ∀ {front rest : List Node}, ¬Overlooks source n front rest)
    (h : Woven source (Respelled source source') front n old new) :
    List.Forall₂ (Respelled source source') old new := by
  induction h with
  | done front n => exact .nil
  | keep changed behind ih => exact .cons changed (ih hnone)
  | comment isComment overlooked behind ih => exact absurd overlooked hnone

end Woven

end

end ExtensionCensus.Source
