import ExtensionCensus.Proofs.Project.FileQuestion

/-!
# Alternatives

What joining comparisons by `and` and `or` means, and what becomes of it where operators apply from
left to right.

* `WrittenCondition.alternatives`, `WrittenCondition.meaning` — a condition is an `or` of alternatives,
  each an `and` of terms: `and` binds tighter;
* `Survives` — an alternative that holds, with no alternative behind it that fails at a term other than
  its first;
* `foldl_apply_iff` — the operators applied from left to right give true exactly if an alternative
  survives;
* `holds_eq_meaning_iff` — **a chain of comparisons never holds against its meaning, and holds with it
  exactly if it is false or an alternative survives**.
-/

namespace ExtensionCensus.Condition

/-! ### Alternatives of a chain -/

section

variable {α : Type}

/-- What is joined to a first thing: the rest of its alternative, and the alternatives behind it. -/
def joinedAlternatives : List (Operator × α) → List α × List (List α)
  | [] => ([], [])
  | (.both, a) :: rest => (a :: (joinedAlternatives rest).1, (joinedAlternatives rest).2)
  | (.either, a) :: rest =>
    ([], (a :: (joinedAlternatives rest).1) :: (joinedAlternatives rest).2)

/-- The alternatives of a chain: it is cut at every `or`. -/
def alternativesOf (first : α) (joined : List (Operator × α)) : List (List α) :=
  (first :: (joinedAlternatives joined).1) :: (joinedAlternatives joined).2

variable (answer : α → Bool)

/-- Some alternative holds, and no alternative behind it fails at a term other than its first. -/
def Survives (alternatives : List (List α)) : Prop :=
  ∃ before alternative after, alternatives = before ++ alternative :: after ∧
    (∀ t ∈ alternative, answer t = true) ∧ ∀ later ∈ after, ∀ t ∈ later.tail, answer t = true

variable {answer}

theorem not_survives_nil : ¬Survives answer [] := by
  rintro ⟨before, alternative, after, h, -⟩
  simp at h

/-- The first alternative survives, or one behind it does. -/
theorem survives_cons {alternative : List α} {rest : List (List α)} :
    Survives answer (alternative :: rest) ↔
      ((∀ t ∈ alternative, answer t = true) ∧
          ∀ later ∈ rest, ∀ t ∈ later.tail, answer t = true) ∨ Survives answer rest := by
  constructor
  · rintro ⟨before, found, after, h, hfound, hafter⟩
    cases before with
    | nil =>
      obtain ⟨rfl, rfl⟩ := List.cons.inj h
      exact .inl ⟨hfound, hafter⟩
    | cons skipped before =>
      obtain ⟨-, rfl⟩ := List.cons.inj h
      exact .inr ⟨before, found, after, rfl, hfound, hafter⟩
  · rintro (⟨hfirst, hrest⟩ | ⟨before, found, after, rfl, hfound, hafter⟩)
    · exact ⟨[], alternative, rest, rfl, hfirst, hrest⟩
    · exact ⟨alternative :: before, found, after, rfl, hfound, hafter⟩

theorem Survives.exists_all {alternatives : List (List α)} (h : Survives answer alternatives) :
    ∃ alternative ∈ alternatives, ∀ t ∈ alternative, answer t = true := by
  obtain ⟨before, alternative, after, rfl, hall, -⟩ := h
  exact ⟨alternative, by simp, hall⟩

/-- **Operators that apply from left to right** have the value true exactly if an alternative survives:
an `or` keeps what was found so far, but an `and` behind it asks for its own term again. -/
theorem foldl_apply_iff (value : Bool) (joined : List (Operator × α)) :
    joined.foldl (fun value j => j.1.apply value (answer j.2)) value = true ↔
      (value = true ∧ (∀ t ∈ (joinedAlternatives joined).1, answer t = true) ∧
          ∀ later ∈ (joinedAlternatives joined).2, ∀ t ∈ later.tail, answer t = true) ∨
        Survives answer (joinedAlternatives joined).2 := by
  induction joined generalizing value with
  | nil => simp [joinedAlternatives, not_survives_nil]
  | cons j rest ih =>
    obtain ⟨op, a⟩ := j
    rw [List.foldl_cons, ih]
    cases op with
    | both =>
      simp only [joinedAlternatives, Operator.apply, Bool.and_eq_true, List.forall_mem_cons]
      tauto
    | either =>
      simp only [joinedAlternatives, Operator.apply, Bool.or_eq_true, List.forall_mem_cons,
        survives_cons, List.tail_cons, List.not_mem_nil, false_implies, implies_true]
      tauto

end

/-! ### Chains of comparisons -/

namespace WrittenCondition

/-- The terms of a condition behind the first one, each with the operator in front of it. -/
def joined (w : WrittenCondition) : List (Operator × WrittenTerm) :=
  w.joints.map fun j => (j.operator, j.term)

/-- The alternatives of a condition, each with the terms that it asks for. -/
def alternatives (w : WrittenCondition) : List (List WrittenTerm) :=
  alternativesOf w.first w.joined

/-- The value that a condition means: some alternative holds with all its terms. -/
def meaning (w : WrittenCondition) (answer : WrittenTerm → Bool) : Bool :=
  w.alternatives.any fun alternative => alternative.all answer

/-- All terms of a condition are comparisons. -/
def IsChain (w : WrittenCondition) : Prop :=
  ∀ t ∈ w.first :: w.joints.map (·.term), ∃ c, t = .comparison c

theorem meaning_eq_true_iff {w : WrittenCondition} {answer : WrittenTerm → Bool} :
    w.meaning answer = true ↔ ∃ alternative ∈ w.alternatives, ∀ t ∈ alternative, answer t = true := by
  simp only [meaning, List.any_eq_true, List.all_eq_true]

/-- From left to right, a condition is true exactly if an alternative survives. -/
theorem value_eq_true_iff (w : WrittenCondition) (answer : WrittenTerm → Bool) :
    w.value answer = true ↔ Survives answer w.alternatives := by
  have hvalue : w.value answer =
      w.joined.foldl (fun value j => j.1.apply value (answer j.2)) (answer w.first) := by
    rw [value, joined, List.foldl_map]
  rw [hvalue, foldl_apply_iff, alternatives, alternativesOf, survives_cons, List.forall_mem_cons,
    and_assoc]

end WrittenCondition

section

variable (tree : FileTree) (directory : String)

/-- A comparison counts as what it says. -/
theorem counted_of_isChain {w : WrittenCondition} (h : w.IsChain) :
    w.value WrittenTerm.counted = w.value (WrittenTerm.meant tree directory) := by
  have hterm : ∀ t ∈ w.first :: w.joints.map (·.term), t.counted = t.meant tree directory := by
    intro t ht
    obtain ⟨c, rfl⟩ := h t ht
    rfl
  rw [List.forall_mem_cons, List.forall_mem_map] at hterm
  rw [WrittenCondition.value, WrittenCondition.value, hterm.1]
  apply List.foldl_ext
  intro value j hj
  rw [hterm.2 j hj]

/-- A condition has the value that its operators give from left to right. -/
theorem holds_text (w : WrittenCondition) :
    holds tree directory w.text = w.value WrittenTerm.counted := by
  rw [holds, terms_written, List.foldl_cons, List.foldl_map]
  simp only [holds_readTerm]
  rfl

/-- **A chain of comparisons is only ever misread as false.**  Where it holds it means to hold, with `and`
binding tighter than `or`. It has the value that it means exactly if that is false, or some alternative
holds such that no alternative behind it fails at a term other than its first. -/
theorem holds_eq_meaning_iff (w : WrittenCondition) (h : w.IsChain) :
    (holds tree directory w.text = true → w.meaning (WrittenTerm.meant tree directory) = true) ∧
      (holds tree directory w.text = w.meaning (WrittenTerm.meant tree directory) ↔
        (w.meaning (WrittenTerm.meant tree directory) = true →
          Survives (WrittenTerm.meant tree directory) w.alternatives)) := by
  have hvalue : holds tree directory w.text = true ↔
      Survives (WrittenTerm.meant tree directory) w.alternatives := by
    rw [holds_text, counted_of_isChain tree directory h, WrittenCondition.value_eq_true_iff]
  have hmeaning : Survives (WrittenTerm.meant tree directory) w.alternatives →
      w.meaning (WrittenTerm.meant tree directory) = true := fun hsurvives =>
    WrittenCondition.meaning_eq_true_iff.mpr hsurvives.exists_all
  constructor
  · intro hholds
    exact hmeaning (hvalue.mp hholds)
  · rw [Bool.eq_iff_iff, hvalue]
    exact ⟨fun hiff => hiff.mpr, fun hback => ⟨hmeaning, hback⟩⟩

end

/-! A chain in which `and` stands behind `or`. -/

/-- The comparison of two texts that says that they are equal. -/
def plainComparison (left right : Quotable) : WrittenTerm :=
  .comparison ⟨left, .one, true, .one, right⟩

/-- A text of a single letter. -/
def letterText (c : Char) (hc : Bars c) (hquote : c ≠ '\'') : Quotable where
  chars := [c]
  noQuote := by simpa using hquote.symm
  unjoined := unjoined_nil.append hc unjoined_nil

/-- The text `x`. -/
def xText : Quotable := letterText 'x' (by decide) (by decide)

/-- The text `y`. -/
def yText : Quotable := letterText 'y' (by decide) (by decide)

/-- `'x' == 'x' or 'x' == 'y' and 'x' == 'y'`. -/
def mixedChain : WrittenCondition where
  front := .none
  first := plainComparison xText xText
  joints := [
    { operator := .either, before := .one, word := "or".toList, spelled := by decide, after := .one,
      apart := ⟨List.cons_ne_nil _ _, List.cons_ne_nil _ _⟩, term := plainComparison xText yText },
    { operator := .both, before := .one, word := "and".toList, spelled := by decide, after := .one,
      apart := ⟨List.cons_ne_nil _ _, List.cons_ne_nil _ _⟩, term := plainComparison xText yText }]
  back := .none

theorem mixedChain_misread :
    mixedChain.text = "'x' == 'x' or 'x' == 'y' and 'x' == 'y'" ∧ mixedChain.IsChain ∧
      mixedChain.meaning (WrittenTerm.meant (.directory []) "/w") = true ∧
      holds (.directory []) "/w" mixedChain.text = false := by
  have hchain : mixedChain.IsChain := by
    intro t ht
    simp only [mixedChain, List.map_cons, List.map_nil, List.mem_cons, List.not_mem_nil, or_false] at ht
    rcases ht with rfl | rfl | rfl
    · exact ⟨_, rfl⟩
    · exact ⟨_, rfl⟩
    · exact ⟨_, rfl⟩
  have hmeaning : mixedChain.meaning (WrittenTerm.meant (.directory []) "/w") = true := by
    decide
  refine ⟨by decide, hchain, hmeaning, ?_⟩
  rw [Bool.eq_false_iff]
  intro hholds
  -- The second alternative fails at its second term, so the first one does not survive.
  have hsurvives := (holds_eq_meaning_iff (.directory []) "/w" mixedChain hchain).2.mp
    (hholds.trans hmeaning.symm) hmeaning
  rw [← WrittenCondition.value_eq_true_iff] at hsurvives
  revert hsurvives
  decide

end ExtensionCensus.Condition
