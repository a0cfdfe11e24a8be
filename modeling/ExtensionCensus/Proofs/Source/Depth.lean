import ExtensionCensus.Source.TypeForm
import Mathlib.Order.Nat
import Mathlib.Data.List.MinMax

/-!
# How deep types are written

* `Node.depth`, `Node.depth_lt_of_mem` — the height of a tree, and a child is less deep;
* `TypeForm.depth`, `TypeForm.operands` — how deep written types lie in each other, and those that lie in
  one directly;
* `TypeForm.depth_read_le` — **a written type is no deeper than the node that it is read off**.
-/

namespace ExtensionCensus.Source

open Text (Bytes)

/-! ### Trees -/

/-- The number of nodes on the longest way down a tree. -/
def Node.depth (n : Node) : Nat :=
  (n.children.attach.map fun ⟨c, _⟩ => c.depth).foldr max 0 + 1
termination_by sizeOf n
decreasing_by exact Node.size_lt_of_mem ‹_ ∈ n.children›

theorem Node.depth_lt_of_mem {c n : Node} (h : c ∈ n.children) : c.depth < n.depth := by
  have hmem : c.depth ∈ n.children.attach.map fun ⟨c, _⟩ => c.depth :=
    List.mem_map.mpr ⟨⟨c, h⟩, List.mem_attach _ _, rfl⟩
  conv => rhs; rw [Node.depth]
  exact Nat.lt_succ_of_le (List.le_max_of_le hmem (Nat.le_refl _))

theorem Node.depth_pos (n : Node) : 0 < n.depth := by
  rw [Node.depth]
  exact Nat.succ_pos _

/-! ### Written types -/

mutual

/-- How deep written types lie in each other. Where an operand is missing nothing lies. -/
def TypeForm.depth : TypeForm → Nat
  | .missing => 0
  | .name parts => depthOfParts parts + 1
  | .nullable underlying => underlying.depth + 1
  | .array element _ => element.depth + 1
  | .pointer target => target.depth + 1
  | .tuple elements _ => depthOfForms elements + 1
  | .wrapped inner => inner.depth + 1
  | .predefined _ | .functionPointer _ | .inferred | .other _ _ => 1

/-- The depth of the deepest of some written types. -/
def depthOfForms : List TypeForm → Nat
  | [] => 0
  | form :: rest => max form.depth (depthOfForms rest)

/-- The depth of the deepest argument of a part. -/
def NamePart.depth : NamePart → Nat
  | .mk _ args => depthOfForms args

/-- The depth of the deepest argument of some parts. -/
def depthOfParts : List NamePart → Nat
  | [] => 0
  | part :: rest => max part.depth (depthOfParts rest)

end

/-- The arguments of a part. -/
def NamePart.args : NamePart → List TypeForm
  | .mk _ args => args

/-- The written types that lie in a written type directly. -/
def TypeForm.operands : TypeForm → List TypeForm
  | .name parts => parts.flatMap NamePart.args
  | .nullable underlying => [underlying]
  | .array element _ => [element]
  | .pointer target => [target]
  | .tuple elements _ => elements
  | .wrapped inner => [inner]
  | .missing | .predefined _ | .functionPointer _ | .inferred | .other _ _ => []

theorem depth_le_of_mem_forms {form : TypeForm} {forms : List TypeForm} (h : form ∈ forms) :
    form.depth ≤ depthOfForms forms := by
  induction forms with
  | nil => cases h
  | cons first rest ih =>
    rw [depthOfForms]
    rcases List.mem_cons.mp h with rfl | h
    · exact Nat.le_max_left _ _
    · exact Nat.le_trans (ih h) (Nat.le_max_right _ _)

theorem depth_le_of_mem_parts {part : NamePart} {parts : List NamePart} (h : part ∈ parts) :
    part.depth ≤ depthOfParts parts := by
  induction parts with
  | nil => cases h
  | cons first rest ih =>
    rw [depthOfParts]
    rcases List.mem_cons.mp h with rfl | h
    · exact Nat.le_max_left _ _
    · exact Nat.le_trans (ih h) (Nat.le_max_right _ _)

/-- What lies in a written type is less deep. -/
theorem TypeForm.depth_lt_of_mem_operands {form operand : TypeForm} (h : operand ∈ form.operands) :
    operand.depth < form.depth := by
  cases form with
  | name parts =>
    obtain ⟨⟨name, args⟩, hpart, harg⟩ := List.mem_flatMap.mp h
    have hargs := depth_le_of_mem_forms harg
    have hparts := depth_le_of_mem_parts hpart
    rw [NamePart.depth] at hparts
    rw [TypeForm.depth]
    exact Nat.lt_succ_of_le (Nat.le_trans hargs hparts)
  | tuple elements written =>
    rw [TypeForm.depth]
    exact Nat.lt_succ_of_le (depth_le_of_mem_forms h)
  | nullable underlying =>
    rw [List.mem_singleton.mp h, TypeForm.depth]
    exact Nat.lt_succ_self _
  | array element ranks =>
    rw [List.mem_singleton.mp h, TypeForm.depth]
    exact Nat.lt_succ_self _
  | pointer target =>
    rw [List.mem_singleton.mp h, TypeForm.depth]
    exact Nat.lt_succ_self _
  | wrapped inner =>
    rw [List.mem_singleton.mp h, TypeForm.depth]
    exact Nat.lt_succ_self _
  | missing | predefined | functionPointer | inferred | other => cases h

/-! ### Reading -/

theorem depthOfForms_le {forms : List TypeForm} {d : Nat} (h : ∀ form ∈ forms, form.depth ≤ d) :
    depthOfForms forms ≤ d := by
  induction forms with
  | nil => exact Nat.zero_le d
  | cons form rest ih =>
    rw [depthOfForms]
    exact Nat.max_le.mpr ⟨h form List.mem_cons_self,
      ih fun other hother => h other (List.mem_cons_of_mem form hother)⟩

theorem depthOfParts_append (front back : List NamePart) :
    depthOfParts (front ++ back) = max (depthOfParts front) (depthOfParts back) := by
  induction front with
  | nil => exact (Nat.zero_max _).symm
  | cons part rest ih => rw [List.cons_append, depthOfParts, depthOfParts, ih, Nat.max_assoc]

section

variable {source : Bytes}

mutual

/-- **A written type is no deeper than the node that it is read off.** -/
theorem TypeForm.depth_read_le (n : Node) : (TypeForm.read source n).depth ≤ n.depth := by
  have hpos := n.depth_pos
  have hname : (match readParts source n with
      | some parts => TypeForm.name parts
      | none => .missing).depth ≤ n.depth := by
    split
    · next parts hparts =>
      rw [TypeForm.depth]
      exact depth_readParts_lt n hparts
    · exact Nat.zero_le _
  have hoperand : ∀ child isChild, (readOperand source n child isChild).depth + 1 ≤ n.depth :=
    fun child isChild => depth_readOperand_lt n child isChild
  rw [TypeForm.read]
  split
  · exact hpos
  · exact hname
  · exact hname
  · exact hname
  · exact hname
  · exact hoperand _ _
  · exact hoperand _ _
  · exact hoperand _ _
  · exact hpos
  · rw [TypeForm.depth]
    refine Nat.succ_le_of_lt (Nat.lt_of_le_of_lt (depthOfForms_le (d := n.depth - 1) ?_) (by omega))
    intro element helement
    obtain ⟨⟨e, hmem⟩, -, rfl⟩ := List.mem_map.mp helement
    have hchild := depth_readOperand_lt e (e.fieldOrFirst? "type") fun _ h =>
      Node.mem_of_fieldOrFirst? h
    have hbelow := Node.depth_lt_of_mem hmem
    exact Nat.le_of_lt (Nat.lt_of_lt_of_le hchild (Nat.le_sub_one_of_lt hbelow))
  · exact hoperand _ _
  · exact hoperand _ _
  · exact hpos
  · exact hpos
termination_by 3 * sizeOf n + 2
decreasing_by
  · omega
  · omega
  · have := Node.size_lt_of_mem hmem
    omega

theorem depth_readOperand_lt (n : Node) (child : Option Node)
    (isChild : ∀ c, child = some c → c ∈ n.children) :
    (readOperand source n child isChild).depth < n.depth := by
  cases child with
  | none =>
    rw [readOperand, TypeForm.depth]
    exact n.depth_pos
  | some c =>
    have hc := isChild c rfl
    rw [readOperand]
    exact Nat.lt_of_le_of_lt (TypeForm.depth_read_le c) (Node.depth_lt_of_mem hc)
termination_by 3 * sizeOf n + 1
decreasing_by
  have := Node.size_lt_of_mem hc
  omega

theorem depth_readParts_lt (n : Node) {parts : List NamePart}
    (h : readParts source n = some parts) : depthOfParts parts < n.depth := by
  rw [readParts] at h
  split at h
  · split at h
    · next qualifier name hhalves =>
      obtain ⟨hqualifier, hname⟩ : qualifier ∈ n.children ∧ name ∈ n.children :=
        mem_of_qualifiedHalves? hhalves
      obtain ⟨front, hfront, hrest⟩ := Option.bind_eq_some_iff.mp h
      obtain ⟨back, hback, rfl⟩ := Option.map_eq_some_iff.mp hrest
      rw [depthOfParts_append]
      exact Nat.max_lt.mpr
        ⟨Nat.lt_trans (depth_readParts_lt qualifier hfront) (Node.depth_lt_of_mem hqualifier),
          Nat.lt_trans (depth_readParts_lt name hback) (Node.depth_lt_of_mem hname)⟩
    · cases h
  · split at h
    · next aliasNode name _ hname =>
      have hmem := Node.mem_of_fieldOrLast? hname
      obtain ⟨back, hback, rfl⟩ := Option.map_eq_some_iff.mp h
      have hbelow :=
        Nat.lt_trans (depth_readParts_lt name hback) (Node.depth_lt_of_mem hmem)
      rw [depthOfParts]
      exact Nat.max_lt.mpr ⟨n.depth_pos, hbelow⟩
    · cases h
  · cases h
    rw [depthOfParts, NamePart.depth]
    refine Nat.max_lt.mpr ⟨?_, n.depth_pos⟩
    split
    · next list hlist =>
      have hchild := Node.mem_of_child? hlist
      refine Nat.lt_of_le_of_lt (depthOfForms_le (d := list.depth) fun arg harg => ?_)
        (Node.depth_lt_of_mem hchild)
      obtain ⟨⟨a, hmem⟩, -, rfl⟩ := List.mem_map.mp harg
      have hargument := Node.mem_of_named hmem
      exact Nat.le_trans (TypeForm.depth_read_le a) (Nat.le_of_lt (Node.depth_lt_of_mem hargument))
    · exact n.depth_pos
  · cases h
    exact n.depth_pos
termination_by 3 * sizeOf n
decreasing_by
  · have := Node.size_lt_of_mem hqualifier
    omega
  · have := Node.size_lt_of_mem hname
    omega
  · have := Node.size_lt_of_mem hmem
    omega
  · have := Node.size_lt_of_mem hchild
    have := Node.size_lt_of_mem hargument
    omega

end

end

end ExtensionCensus.Source
