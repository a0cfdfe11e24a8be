import ExtensionCensus.Extension.Receiver
import Mathlib.Logic.Basic

/-!
# What decides the receiver walk

The walk over a receiver meets a type parameter of the method, or a type that it has no rule for, or
neither. Which of the three it is depends on the leaves of the receiver and their order alone: siblings
and nesting play no part.

* `Ty.isRefused` — the types that the walk has no rule for;
* `Ty.verdict?` — what a leaf decides, if it decides anything;
* `Ty.mentions_eq_verdict` — the walk ends with the verdict of the first leaf that has one;
* `SymbolTable.mentionsOwn_decided` — **the three outcomes of the walk, each told by the leaves**.
-/

namespace ExtensionCensus

namespace Ty

/-- The walk has no rule for the type. -/
def isRefused : Ty → Bool
  | .dynamic => true
  | .functionPointer _ => true
  | _ => false

/-- What a leaf decides: a type parameter among `own` is met, or the walk breaks off. Any other leaf
decides nothing. -/
def verdict? (own : List TypeParameterRef) : Ty → Option (Except Ty Bool)
  | .parameter p => if p ∈ own then some (.ok true) else none
  | .dynamic => some (.error .dynamic)
  | .functionPointer signature => some (.error (.functionPointer signature))
  | _ => none

variable {own : List TypeParameterRef}

/-! ### Single leaves -/

theorem verdict?_eq_error_iff {leaf refused : Ty} :
    leaf.verdict? own = some (.error refused) ↔ leaf = refused ∧ refused.isRefused = true := by
  constructor
  · intro h
    rw [verdict?.eq_def] at h
    split at h
    · split at h <;> cases h
    · cases h
      exact ⟨rfl, rfl⟩
    · cases h
      exact ⟨rfl, rfl⟩
    · cases h
  · rintro ⟨rfl, h⟩
    rw [isRefused.eq_def] at h
    split at h
    · rfl
    · rfl
    · cases h

theorem verdict?_eq_ok_iff {leaf : Ty} {b : Bool} :
    leaf.verdict? own = some (.ok b) ↔ b = true ∧ ∃ p ∈ own, leaf = .parameter p := by
  constructor
  · intro h
    rw [verdict?.eq_def] at h
    split at h
    · next p =>
      split at h
      · next hp =>
        cases h
        exact ⟨rfl, p, hp, rfl⟩
      · cases h
    · cases h
    · cases h
    · cases h
  · rintro ⟨rfl, p, hp, rfl⟩
    rw [verdict?, if_pos hp]

/-- A leaf decides nothing exactly if it is not refused and no type parameter among `own`. -/
theorem verdict?_eq_none_iff {leaf : Ty} :
    leaf.verdict? own = none ↔ leaf.isRefused = false ∧ ∀ p ∈ own, leaf ≠ .parameter p := by
  rw [Option.eq_none_iff_forall_ne_some]
  constructor
  · intro h
    refine ⟨?_, fun p hp hleaf => h _ (verdict?_eq_ok_iff.mpr ⟨rfl, p, hp, hleaf⟩)⟩
    rw [← Bool.not_eq_true]
    exact fun hrefused => h _ (verdict?_eq_error_iff.mpr ⟨rfl, hrefused⟩)
  · rintro ⟨hrefused, hown⟩ (refused | b) hverdict
    · obtain ⟨rfl, htrue⟩ := verdict?_eq_error_iff.mp hverdict
      exact absurd (hrefused.symm.trans htrue) Bool.false_ne_true
    · obtain ⟨-, p, hp, hleaf⟩ := verdict?_eq_ok_iff.mp hverdict
      exact hown p hp hleaf

/-- No leaf decides that nothing is met. -/
theorem findSome?_verdict_ne (leaves : List Ty) : leaves.findSome? (verdict? own) ≠ some (.ok false) := by
  intro h
  obtain ⟨leaf, -, hleaf⟩ := List.exists_of_findSome?_eq_some h
  exact absurd (verdict?_eq_ok_iff.mp hleaf).1 Bool.false_ne_true

/-! ### The walk -/

mutual

/-- **The walk ends with the verdict of the first leaf that has one**, and answers no if none has. -/
theorem mentions_eq_verdict (own : List TypeParameterRef) : ∀ t : Ty,
    t.mentions own = (t.leaves.findSome? (verdict? own)).getD (.ok false)
  | .named _ _ args => by
    rw [mentions, leaves]
    exact anyMentions_eq_verdict own args
  | .array element _ => by
    rw [mentions, leaves]
    exact mentions_eq_verdict own element
  | .pointer target => by
    rw [mentions, leaves]
    exact mentions_eq_verdict own target
  | .parameter p => by
    rw [mentions, leaves, List.findSome?_singleton, verdict?]
    by_cases hp : p ∈ own
    · rw [if_pos hp, List.contains_iff_mem.mpr hp]
      rfl
    · rw [if_neg hp, Bool.eq_false_iff.mpr (mt List.contains_iff_mem.mp hp)]
      rfl
  | .dynamic => rfl
  | .functionPointer _ => rfl

/-- The walk over some types goes through the leaves of each in turn. -/
theorem anyMentions_eq_verdict (own : List TypeParameterRef) : ∀ ts : List Ty,
    anyMentions own ts = ((leavesOfList ts).findSome? (verdict? own)).getD (.ok false)
  | [] => rfl
  | t :: ts => by
    rw [anyMentions, leavesOfList, mentions_eq_verdict own t, anyMentions_eq_verdict own ts,
      List.findSome?_append]
    cases hfirst : t.leaves.findSome? (verdict? own) with
    | none => rfl
    | some verdict =>
      match verdict with
      | .error refused => rfl
      | .ok true => rfl
      | .ok false => exact absurd hfirst (findSome?_verdict_ne t.leaves)

end

/-! The first leaf that decides hides the others, however deep it lies. -/

example : (named (.unbound "D") none [.array (.parameter (.free 0)) 1, .pointer .dynamic]).mentions
    [.free 0] = .ok true := rfl

example : (named (.unbound "D") none [.pointer .dynamic, .array (.parameter (.free 0)) 1]).mentions
    [.free 0] = .error .dynamic := rfl

/-! ### Outcomes -/

theorem mentions_eq_false_iff {t : Ty} :
    t.mentions own = .ok false ↔
      (∀ leaf ∈ t.leaves, leaf.isRefused = false) ∧ ∀ p ∈ own, .parameter p ∉ t.leaves := by
  have hnone : t.mentions own = .ok false ↔ t.leaves.findSome? (verdict? own) = none := by
    rw [mentions_eq_verdict]
    cases hfirst : t.leaves.findSome? (verdict? own) with
    | none => exact iff_of_true rfl rfl
    | some verdict =>
      refine iff_of_false (fun h => ?_) (Option.some_ne_none verdict)
      rw [Option.getD_some] at h
      exact findSome?_verdict_ne t.leaves (hfirst.trans (congrArg some h))
  rw [hnone, List.findSome?_eq_none_iff]
  simp only [verdict?_eq_none_iff]
  constructor
  · intro h
    exact ⟨fun leaf hleaf => (h leaf hleaf).1, fun p hp hmem => (h _ hmem).2 p hp rfl⟩
  · rintro ⟨hrefused, hown⟩ leaf hleaf
    exact ⟨hrefused leaf hleaf, fun p hp hparameter => hown p hp (hparameter ▸ hleaf)⟩

/-- Any answer but no is the verdict of a leaf. -/
theorem mentions_eq_iff_of_ne {t : Ty} {outcome : Except Ty Bool} (h : outcome ≠ .ok false) :
    t.mentions own = outcome ↔ t.leaves.findSome? (verdict? own) = some outcome := by
  rw [mentions_eq_verdict]
  cases t.leaves.findSome? (verdict? own) with
  | none => exact iff_of_false (Ne.symm h) (Option.some_ne_none outcome).symm
  | some verdict => rw [Option.getD_some, Option.some.injEq]

theorem mentions_eq_error_iff {t refused : Ty} :
    t.mentions own = .error refused ↔ ∃ before after, t.leaves = before ++ refused :: after ∧
      refused.isRefused = true ∧ (∀ leaf ∈ before, leaf.isRefused = false) ∧
      ∀ p ∈ own, .parameter p ∉ before := by
  rw [mentions_eq_iff_of_ne (by simp), List.findSome?_eq_some_iff]
  simp only [verdict?_eq_error_iff, verdict?_eq_none_iff]
  constructor
  · rintro ⟨before, leaf, after, hleaves, ⟨rfl, hrefused⟩, hbefore⟩
    exact ⟨before, after, hleaves, hrefused, fun l hl => (hbefore l hl).1,
      fun p hp hmem => (hbefore _ hmem).2 p hp rfl⟩
  · rintro ⟨before, after, hleaves, hrefused, hbefore, hown⟩
    exact ⟨before, refused, after, hleaves, ⟨rfl, hrefused⟩,
      fun l hl => ⟨hbefore l hl, fun p hp hparameter => hown p hp (hparameter ▸ hl)⟩⟩

/-- A type parameter is found exactly if one of those asked for comes before every refused leaf; it need
not be the first one. -/
theorem mentions_eq_true_iff {t : Ty} :
    t.mentions own = .ok true ↔ ∃ before p after, t.leaves = before ++ .parameter p :: after ∧
      p ∈ own ∧ ∀ leaf ∈ before, leaf.isRefused = false := by
  rw [mentions_eq_iff_of_ne (by simp)]
  constructor
  · intro h
    obtain ⟨before, leaf, after, hleaves, hleaf, hbefore⟩ := List.findSome?_eq_some_iff.mp h
    obtain ⟨-, p, hp, rfl⟩ := verdict?_eq_ok_iff.mp hleaf
    exact ⟨before, p, after, hleaves, hp, fun l hl => (verdict?_eq_none_iff.mp (hbefore l hl)).1⟩
  · rintro ⟨before, p, after, hleaves, hp, hbefore⟩
    rw [hleaves, List.findSome?_append]
    cases hfirst : before.findSome? (verdict? own) with
    | none =>
      have hhead : (parameter p).verdict? own = some (.ok true) :=
        verdict?_eq_ok_iff.mpr ⟨rfl, p, hp, rfl⟩
      rw [List.findSome?_cons, hhead]
      rfl
    | some verdict =>
      -- an earlier leaf decides, and since it is not refused it decides the same
      obtain ⟨leaf, hleaf, hverdict⟩ := List.exists_of_findSome?_eq_some hfirst
      cases verdict with
      | ok b =>
        rw [(verdict?_eq_ok_iff.mp hverdict).1]
        rfl
      | error refused =>
        have hrefused : leaf.isRefused = true := by
          obtain ⟨rfl, hrefused⟩ := verdict?_eq_error_iff.mp hverdict
          exact hrefused
        exact absurd ((hbefore leaf hleaf).symm.trans hrefused) Bool.false_ne_true

end Ty

/-! ### Receivers -/

/-- **The receiver walk is decided by the leaves in their order.**  It breaks off at the first leaf that it
has no rule for, if no type parameter of the method comes before; it answers yes if one comes before every
such leaf; and it answers no if there is neither. -/
theorem SymbolTable.mentionsOwn_decided (table : SymbolTable) (id : MethodId) (t : Ty) :
    (∀ e, table.mentionsOwn id t = .error e ↔
      ∃ before refused after, t.leaves = before ++ refused :: after ∧ refused.isRefused = true ∧
        (∀ leaf ∈ before, leaf.isRefused = false) ∧
        (∀ p ∈ table.methodTypeParameters id, .parameter p ∉ before) ∧
        e = { kind := table.kind refused
              type := table.display refused
              method := table.displayMethod (table.method id) }) ∧
    (table.mentionsOwn id t = .ok true ↔
      ∃ before p after, t.leaves = before ++ .parameter p :: after ∧
        p ∈ table.methodTypeParameters id ∧ ∀ leaf ∈ before, leaf.isRefused = false) ∧
    (table.mentionsOwn id t = .ok false ↔
      (∀ leaf ∈ t.leaves, leaf.isRefused = false) ∧
        ∀ p ∈ table.methodTypeParameters id, .parameter p ∉ t.leaves) := by
  have hok (b : Bool) : table.mentionsOwn id t = .ok b ↔
      t.mentions (table.methodTypeParameters id) = .ok b := by
    rw [mentionsOwn]
    cases t.mentions (table.methodTypeParameters id) with
    | ok found =>
      show (Except.ok found : Except ReceiverError Bool) = .ok b ↔ _
      rw [Except.ok.injEq, Except.ok.injEq]
    | error refused =>
      constructor
      · intro h
        cases h
      · intro h
        cases h
  refine ⟨fun e => ?_, (hok true).trans Ty.mentions_eq_true_iff,
    (hok false).trans Ty.mentions_eq_false_iff⟩
  constructor
  · intro h
    rw [mentionsOwn] at h
    cases houtcome : t.mentions (table.methodTypeParameters id) with
    | ok b =>
      rw [houtcome] at h
      cases h
    | error refused =>
      rw [houtcome] at h
      obtain ⟨before, after, hleaves, hrefused, hbefore, hown⟩ := Ty.mentions_eq_error_iff.mp houtcome
      exact ⟨before, refused, after, hleaves, hrefused, hbefore, hown, (Except.error.inj h).symm⟩
  · rintro ⟨before, refused, after, hleaves, hrefused, hbefore, hown, rfl⟩
    rw [mentionsOwn, Ty.mentions_eq_error_iff.mpr ⟨before, after, hleaves, hrefused, hbefore, hown⟩]
    rfl

end ExtensionCensus
