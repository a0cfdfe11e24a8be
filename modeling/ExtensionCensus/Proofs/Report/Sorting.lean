import ExtensionCensus.Report.Table
import Mathlib.Data.List.Sigma
import Mathlib.Data.String.Basic

/-!
# Sorting by texts

Results, containers and methods are sorted by texts, and what has the same text stays in its old
order.

* `InTextOrder` — two elements with their old places, by text and then by place;
* `sortedPlaces` — a list with its old places, sorted; `map_sortedPlaces`, `perm_sortedPlaces` and
  `pairwise_sortedPlaces` say that **it is the sorted list, that it holds every element once, and that
  it is in text order**;
* `filter_sortByText` — elements with one text keep their order;
* `eq_of_sorted_of_filter`, `sortByText_eq_of_perm` — when two sorted lists are the same.
-/

namespace ExtensionCensus

variable {α β : Type} (key : α → String)

/-! ### Sorted lists -/

theorem textLe_trans (a b c : α) (hab : decide (key a ≤ key b) = true)
    (hbc : decide (key b ≤ key c) = true) : decide (key a ≤ key c) = true := by
  simp only [decide_eq_true_eq] at hab hbc ⊢
  exact String.le_trans hab hbc

theorem textLe_total (a b : α) : (decide (key a ≤ key b) || decide (key b ≤ key a)) = true := by
  simp only [Bool.or_eq_true, decide_eq_true_eq]
  exact String.le_total (key a) (key b)

theorem perm_sortByText (xs : List α) : (sortByText key xs).Perm xs :=
  List.mergeSort_perm xs _

theorem sorted_sortByText (xs : List α) :
    (sortByText key xs).Pairwise fun a b => key a ≤ key b := by
  have h := List.pairwise_mergeSort (textLe_trans key) (textLe_total key) xs
  exact h.imp fun hab => of_decide_eq_true hab

/-! ### Places -/

/-- The first element stands before the second in an order by texts, and in the old order if their
texts are the same. -/
def InTextOrder (a b : α × Nat) : Prop :=
  key a.1 < key b.1 ∨ key a.1 = key b.1 ∧ a.2 < b.2

/-- The elements of a list with their places, sorted by text and then by place. -/
def sortedPlaces (xs : List α) : List (α × Nat) :=
  xs.zipIdx.mergeSort (List.zipIdxLE fun a b => decide (key a ≤ key b))

theorem perm_sortedPlaces (xs : List α) : (sortedPlaces key xs).Perm xs.zipIdx :=
  List.mergeSort_perm _ _

theorem map_sortedPlaces (xs : List α) : (sortedPlaces key xs).map (·.1) = sortByText key xs :=
  List.mergeSort_zipIdx

theorem inTextOrder_of_zipIdxLE {a b : α × Nat} (hne : a.2 ≠ b.2)
    (h : List.zipIdxLE (fun a b => decide (key a ≤ key b)) a b = true) : InTextOrder key a b := by
  rw [List.zipIdxLE] at h
  by_cases hab : key a.1 ≤ key b.1
  · by_cases hba : key b.1 ≤ key a.1
    · simp only [hab, hba, decide_true, if_true, decide_eq_true_eq] at h
      refine Or.inr ⟨String.le_antisymm hab hba, ?_⟩
      omega
    · exact Or.inl (not_le.mp hba)
  · simp [hab] at h

/-- Places tell apart what texts do not, so the order is strict. -/
theorem pairwise_sortedPlaces (xs : List α) :
    (sortedPlaces key xs).Pairwise (InTextOrder key) := by
  have hplaces : ((sortedPlaces key xs).map (·.2)).Nodup := by
    rw [((perm_sortedPlaces key xs).map _).nodup_iff]
    exact List.nodup_zipIdx_map_snd xs
  have hsorted := List.pairwise_mergeSort (List.zipIdxLE_trans (textLe_trans key))
    (List.zipIdxLE_total (textLe_total key)) xs.zipIdx
  have hboth := hsorted.and (List.pairwise_map.mp hplaces)
  exact hboth.imp fun h => inTextOrder_of_zipIdxLE key h.2 h.1

/-! ### Elements with one text -/

/-- Elements with one text stay in their order. -/
theorem filter_sortByText (xs : List α) (text : String) :
    (sortByText key xs).filter (key · = text) = xs.filter (key · = text) := by
  have hsame : (xs.filter (key · = text)).Pairwise fun a b => decide (key a ≤ key b) = true := by
    apply List.pairwise_of_forall_mem_list
    intro a ha b hb
    simp only [List.mem_filter, decide_eq_true_eq] at ha hb ⊢
    rw [ha.2, hb.2]
  have hkept : (xs.filter (key · = text)).Sublist (sortByText key xs) :=
    List.sublist_mergeSort (textLe_trans key) (textLe_total key) hsame List.filter_sublist
  have hfiltered := hkept.filter (fun a => decide (key a = text))
  rw [List.filter_filter] at hfiltered
  simp only [Bool.and_self] at hfiltered
  refine (hfiltered.eq_of_length ?_).symm
  exact ((perm_sortByText key xs).filter _).length_eq.symm

theorem mem_iff_of_filter {xs ys : List α}
    (h : ∀ text, xs.filter (key · = text) = ys.filter (key · = text)) (a : α) : a ∈ xs ↔ a ∈ ys := by
  have ha : a ∈ xs.filter (key · = key a) ↔ a ∈ ys.filter (key · = key a) := by rw [h]
  simpa using ha

/-- Sorted lists that agree for each text are the same. -/
theorem eq_of_sorted_of_filter {xs ys : List α} (hxs : xs.Pairwise fun a b => key a ≤ key b)
    (hys : ys.Pairwise fun a b => key a ≤ key b)
    (h : ∀ text, xs.filter (key · = text) = ys.filter (key · = text)) : xs = ys := by
  induction xs generalizing ys with
  | nil =>
    cases ys with
    | nil => rfl
    | cons y ys => exact absurd ((mem_iff_of_filter key h y).mpr List.mem_cons_self) List.not_mem_nil
  | cons x xs ih =>
    cases ys with
    | nil => exact absurd ((mem_iff_of_filter key h x).mp List.mem_cons_self) List.not_mem_nil
    | cons y ys =>
      have hmem := mem_iff_of_filter key h
      rw [List.pairwise_cons] at hxs hys
      -- the texts in front are the least of each list, and both lists have the same texts
      have hxy : key x = key y := by
        apply String.le_antisymm
        · rcases List.mem_cons.mp ((hmem y).mpr List.mem_cons_self) with hy | hy
          · rw [hy]
          · exact hxs.1 y hy
        · rcases List.mem_cons.mp ((hmem x).mp List.mem_cons_self) with hx | hx
          · rw [hx]
          · exact hys.1 x hx
      have hfirst := h (key x)
      rw [List.filter_cons_of_pos (by simp), List.filter_cons_of_pos (by simp [hxy]),
        List.cons.injEq] at hfirst
      have hrest : ∀ text, xs.filter (key · = text) = ys.filter (key · = text) := by
        intro text
        by_cases ht : key x = text
        · rw [← ht]
          exact hfirst.2
        · have htext := h text
          rwa [List.filter_cons_of_neg (by simpa using ht),
            List.filter_cons_of_neg (by simpa [← hxy] using ht)] at htext
      rw [hfirst.1, ih hxs.2 hys.2 hrest]

/-- How a list was arranged does not matter where no two texts are the same. -/
theorem sortByText_eq_of_perm {xs ys : List α} (hperm : xs.Perm ys) (hdistinct : (xs.map key).Nodup) :
    sortByText key xs = sortByText key ys := by
  have hsame := ((perm_sortByText key xs).trans hperm).trans (perm_sortByText key ys).symm
  refine hsame.eq_of_pairwise ?_ (sorted_sortByText key xs) (sorted_sortByText key ys)
  intro a b ha hb hab hba
  have hb' : b ∈ sortByText key xs := hsame.mem_iff.mpr hb
  rw [(perm_sortByText key xs).mem_iff] at ha hb'
  exact List.inj_on_of_nodup_map hdistinct ha hb' (String.le_antisymm hab hba)

/-- Lists that correspond element by element, with the same texts, correspond when they are
sorted. -/
theorem forall₂_sortByText (key' : β → String) {R : α → β → Prop}
    (htexts : ∀ a b, R a b → key a = key' b) {xs : List α} {ys : List β} (h : List.Forall₂ R xs ys) :
    List.Forall₂ R (sortByText key xs) (sortByText key' ys) := by
  have hlength := h.length_eq
  have hmem : ∀ z ∈ xs.zip ys, R z.1 z.2 := fun z hz =>
    (List.forall₂_iff_zip.mp h).2 hz
  have hleft : ((xs.zip ys).mergeSort fun a b => decide (key a.1 ≤ key b.1)).map Prod.fst =
      sortByText key xs := by
    rw [List.map_mergeSort (s := fun a b => decide (key a ≤ key b)) fun _ _ _ _ => rfl,
      List.map_fst_zip hlength.le, sortByText]
  have hright : ((xs.zip ys).mergeSort fun a b => decide (key a.1 ≤ key b.1)).map Prod.snd =
      sortByText key' ys := by
    rw [List.map_mergeSort (s := fun a b => decide (key' a ≤ key' b)) fun a ha b hb => by
      rw [htexts _ _ (hmem a ha), htexts _ _ (hmem b hb)], List.map_snd_zip hlength.ge, sortByText]
  rw [← hleft, ← hright, List.forall₂_map_left_iff, List.forall₂_map_right_iff, List.forall₂_same]
  intro z hz
  exact hmem z (List.mem_mergeSort.mp hz)

end ExtensionCensus
