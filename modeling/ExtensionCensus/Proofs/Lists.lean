import Mathlib.Data.List.Forall2
import Mathlib.Data.List.Perm.Basic

/-!
# Lists that correspond

Lists whose entries are related one by one, lists that a map leaves as they are, and lists in another
order.

* `exists_of_mem_left`, `exists_of_mem_right`, `forall₂_with_mem` — every entry has its match;
* `exists_map_of_forall₂` — entries that occur once are mapped to their matches;
* `map_eq_map_of_forall₂`, `perm_flatMap_of_forall₂` — lists that correspond are mapped alike;
* `pairwise_of_forall₂`, `forall_of_pairwise` — from entries taken two by two to their matches, and to
  each of them;
* `map_eq_of_forall`, `map_eq_self` — a map leaves a list exactly if it leaves all entries;
* `exists_forall₂_of_perm_map` — lists that are mapped to the same in another order correspond, once one
  of them is put in order;
* `flatMap_eq_of_perm`, `getLast?_eq_of_perm` — the order does not matter where at most one entry
  counts, or all are equal;
* `nodup_eraseDups` — what is left without repetitions has none.
-/

namespace ExtensionCensus

section

variable {α β γ : Type} {R : α → β → Prop}

/-- Every entry of the first of two lists that match has its match in the second. -/
theorem exists_of_mem_left {as : List α} {bs : List β} (h : List.Forall₂ R as bs) {x : α}
    (hx : x ∈ as) : ∃ y ∈ bs, R x y := by
  induction h with
  | nil => cases hx
  | @cons x' y xs ys hxy _ ih =>
    rcases List.mem_cons.mp hx with rfl | hx
    · exact ⟨y, List.mem_cons_self, hxy⟩
    · obtain ⟨y', hy', hr⟩ := ih hx
      exact ⟨y', List.mem_cons_of_mem y hy', hr⟩

/-- Every entry of the second of two lists that match has its match in the first. -/
theorem exists_of_mem_right {as : List α} {bs : List β} (h : List.Forall₂ R as bs) {y : β}
    (hy : y ∈ bs) : ∃ x ∈ as, R x y := by
  obtain ⟨x, hx, hr⟩ := exists_of_mem_left h.flip hy
  exact ⟨x, hx, hr⟩

/-- What corresponds are entries of the two lists. -/
theorem forall₂_with_mem {as : List α} {bs : List β} (h : List.Forall₂ R as bs) :
    List.Forall₂ (fun a b => (a ∈ as ∧ b ∈ bs) ∧ R a b) as bs := by
  rw [List.forall₂_iff_zip] at h ⊢
  exact ⟨h.1, fun hz => ⟨List.of_mem_zip hz, h.2 hz⟩⟩

/-- A map takes every entry to its match, if no entry occurs twice. -/
theorem exists_map_of_forall₂ [DecidableEq α] [Inhabited β] {as : List α} {bs : List β}
    (h : List.Forall₂ R as bs) (hnodup : as.Nodup) : ∃ f, as.map f = bs ∧ ∀ a ∈ as, R a (f a) := by
  induction h with
  | nil => exact ⟨fun _ => default, rfl, fun a ha => by cases ha⟩
  | @cons a b as bs hab _ ih =>
    obtain ⟨hfirst, hrest⟩ := List.nodup_cons.mp hnodup
    obtain ⟨f, hmap, hmatch⟩ := ih hrest
    have hothers : ∀ x ∈ as, Function.update f a b x = f x := fun x hx =>
      Function.update_of_ne (fun he : x = a => hfirst (he ▸ hx)) b f
    refine ⟨Function.update f a b, ?_, List.forall_mem_cons.mpr ⟨?_, fun x hx => ?_⟩⟩
    · rw [List.map_cons, Function.update_self, List.map_congr_left hothers, hmap]
    · rwa [Function.update_self]
    · rw [hothers x hx]
      exact hmatch x hx

/-- Lists that correspond are mapped alike. -/
theorem map_eq_map_of_forall₂ {f : α → γ} {g : β → γ} {xs : List α} {ys : List β}
    (h : List.Forall₂ R xs ys) (heq : ∀ a ∈ xs, ∀ b, R a b → f a = g b) :
    xs.map f = ys.map g := by
  induction h with
  | nil => rfl
  | cons hab _ ih =>
    rw [List.map_cons, List.map_cons, heq _ List.mem_cons_self _ hab,
      ih fun a ha => heq a (List.mem_cons_of_mem _ ha)]

/-- Lists that correspond give the same in some order, if their entries do. -/
theorem perm_flatMap_of_forall₂ {f : α → List γ} {g : β → List γ} {xs : List α} {ys : List β}
    (h : List.Forall₂ R xs ys) (hperm : ∀ a b, R a b → (f a).Perm (g b)) :
    (xs.flatMap f).Perm (ys.flatMap g) := by
  induction h with
  | nil => exact .refl _
  | cons hab _ ih =>
    rw [List.flatMap_cons, List.flatMap_cons]
    exact (hperm _ _ hab).append ih

/-- What holds of any two entries of a list holds of their matches. -/
theorem pairwise_of_forall₂ {S : α → α → Prop} {T : β → β → Prop} {as : List α} {bs : List β}
    (h : List.Forall₂ R as bs) (hs : as.Pairwise S)
    (ht : ∀ a ∈ as, ∀ a' ∈ as, S a a' → ∀ b b', R a b → R a' b' → T b b') : bs.Pairwise T := by
  induction h with
  | nil => exact .nil
  | @cons a b rest bs hab hrest ih =>
    obtain ⟨hfirst, hothers⟩ := List.pairwise_cons.mp hs
    refine .cons (fun b' hb' => ?_) (ih hothers fun x hx y hy =>
      ht x (List.mem_cons_of_mem a hx) y (List.mem_cons_of_mem a hy))
    obtain ⟨a', ha', hab'⟩ := exists_of_mem_right hrest hb'
    exact ht a List.mem_cons_self a' (List.mem_cons_of_mem a ha') (hfirst a' ha') b b' hab hab'

/-- What any two entries of a list have, all have if there are two. -/
theorem forall_of_pairwise {P : α → Prop} {xs : List α} (h : xs.Pairwise fun x y => P x ∧ P y)
    (htwo : 2 ≤ xs.length) : ∀ x ∈ xs, P x := by
  cases xs with
  | nil => cases htwo
  | cons x rest =>
    have hfirst := (List.pairwise_cons.mp h).1
    cases rest with
    | nil => exact absurd htwo (by simp)
    | cons y more =>
      exact List.forall_mem_cons.mpr ⟨(hfirst y List.mem_cons_self).1, fun z hz => (hfirst z hz).2⟩

theorem map_eq_of_forall {f : α → α} {xs : List α} (h : ∀ x ∈ xs, f x = x) : xs.map f = xs :=
  (List.map_congr_left h).trans (List.map_id _)

theorem map_eq_self {f : α → α} {xs : List α} (h : xs.map f = xs) : ∀ x ∈ xs, f x = x := by
  intro x hx
  have hid : xs.map f = xs.map id := h.trans (List.map_id xs).symm
  exact List.map_eq_map_iff.mp hid x hx

/-! ### Another order -/

/-- Lists that are mapped to the same in another order correspond, once the second is put in order. -/
theorem exists_forall₂_of_perm_map {f : α → γ} {g : β → γ} {xs : List α} {ys : List β}
    (h : (xs.map f).Perm (ys.map g)) :
    ∃ zs, zs.Perm ys ∧ List.Forall₂ (fun x z => f x = g z) xs zs := by
  have hmatch : List.Forall₂ (fun c y => c = g y) (ys.map g) ys := by
    rw [List.forall₂_map_left_iff, List.forall₂_same]
    exact fun _ _ => rfl
  obtain ⟨zs, hzs, hperm⟩ := List.perm_comp_forall₂ h hmatch
  exact ⟨zs, hperm, List.forall₂_map_left_iff.mp hzs⟩

/-- The order of a list does not matter where at most one of its entries counts. -/
theorem flatMap_eq_of_perm {f : α → List β} {counts : α → Bool}
    (hnone : ∀ x, counts x = false → f x = []) {xs ys : List α} (h : xs.Perm ys)
    (hone : (xs.filter counts).length ≤ 1) : xs.flatMap f = ys.flatMap f := by
  have hfilter : ∀ zs : List α, zs.flatMap f = (zs.filter counts).flatMap f := by
    intro zs
    induction zs with
    | nil => rfl
    | cons z rest ih =>
      cases hz : counts z with
      | true => rw [List.filter_cons_of_pos hz, List.flatMap_cons, List.flatMap_cons, ih]
      | false =>
        rw [List.filter_cons_of_neg (by rw [hz]; exact Bool.false_ne_true), List.flatMap_cons,
          hnone z hz, List.nil_append, ih]
  have hperm := h.filter counts
  rw [hfilter xs, hfilter ys]
  generalize xs.filter counts = left at hone hperm
  cases left with
  | nil => rw [hperm.nil_eq]
  | cons x rest =>
    have hrest : rest = [] := List.length_eq_zero_iff.mp (Nat.le_zero.mp (Nat.le_of_succ_le_succ hone))
    subst hrest
    rw [List.singleton_perm.mp hperm]

/-- Of entries that are all equal the last is the same in every order. -/
theorem getLast?_eq_of_perm {xs ys : List α} (h : xs.Perm ys) (hsame : ∀ x ∈ xs, ∀ y ∈ xs, x = y) :
    xs.getLast? = ys.getLast? := by
  cases hx : xs.getLast? with
  | none =>
    rw [List.getLast?_eq_none_iff.mp hx] at h
    rw [h.nil_eq.symm, List.getLast?_nil]
  | some x =>
    have hmem := List.mem_of_getLast? hx
    cases hy : ys.getLast? with
    | none =>
      rw [List.getLast?_eq_none_iff.mp hy] at h
      rw [h.eq_nil] at hmem
      cases hmem
    | some y => rw [hsame x hmem y (h.mem_iff.mpr (List.mem_of_getLast? hy))]

end

theorem nodup_eraseDups {α : Type} [BEq α] [LawfulBEq α] : ∀ l : List α, l.eraseDups.Nodup
  | [] => List.nodup_nil
  | a :: rest => by
    rw [List.eraseDups_cons, List.nodup_cons]
    refine ⟨fun ha => ?_, nodup_eraseDups _⟩
    have hne := (List.mem_filter.mp (List.mem_eraseDups.mp ha)).2
    simp at hne
termination_by l => l.length
decreasing_by exact Nat.lt_succ_of_le (List.length_filter_le _ rest)

end ExtensionCensus
