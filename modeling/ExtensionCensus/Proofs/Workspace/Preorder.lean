import Mathlib.Data.List.Basic
import Mathlib.Data.List.Dedup

/-!
# Depth-first order

The order of a depth-first search, whatever lists the references of a node.

* `Reached` — the nodes that some others lead to;
* `Preorder` — the order in which one depth-first search meets nodes, with one set of nodes that it
  has met;
* `Preorder.unique`, `Preorder.nodup`, `Preorder.mem_iff_reached` — there is only one such order, and
  in it each node that is reached stands once;
* `Preorder.avoiding` — nodes that were met with all they lead to can be passed over;
* `Preorder.without` — a node that leads nowhere can be left out;
* `Preorder.flatMap_eraseDups` — **searches from one node after the other, each from the start, make
  the order of one search once repetitions are left out**.
-/

namespace ExtensionCensus

/-! ### Definition -/

section

variable (next : String → List String)

/-- A node is among some others, or one that is reached from them refers to it. -/
inductive Reached (starts : List String) : String → Prop where
  | start {p : String} (isStart : p ∈ starts) : Reached starts p
  | reference {p q : String} (isReached : Reached starts p) (refers : q ∈ next p) : Reached starts q

/-- The order in which a depth-first search from some nodes meets others, when it has met `seen`
already: a new node comes before all that is found inside it, and that before what is found from the
rest of the nodes. -/
inductive Preorder : List String → List String → List String → Prop where
  | nil (seen : List String) : Preorder seen [] []
  | skip {seen rest order : List String} {p : String} (isMet : p ∈ seen)
      (behind : Preorder seen rest order) : Preorder seen (p :: rest) order
  | enter {seen rest below order : List String} {p : String} (isNew : p ∉ seen)
      (inside : Preorder (p :: seen) (next p) below)
      (behind : Preorder (p :: (below ++ seen)) rest order) :
      Preorder seen (p :: rest) (p :: (below ++ order))

/-- What the nodes of a list refer to is in the list. -/
def ClosedUnder (nodes : List String) : Prop :=
  ∀ p ∈ nodes, ∀ q ∈ next p, q ∈ nodes

end

variable {next : String → List String}

/-! ### Reached nodes -/

/-- Nodes that are reached lead to nodes that are reached. -/
theorem Reached.trans {starts middle : List String} {p : String}
    (h : ∀ q ∈ middle, Reached next starts q) (hp : Reached next middle p) :
    Reached next starts p := by
  induction hp with
  | start hq => exact h _ hq
  | reference _ hrefers ih => exact .reference ih hrefers

theorem Reached.of_next {next' : String → List String} {starts : List String} {p : String}
    (h : ∀ q, ∀ r ∈ next q, r ∈ next' q) (hp : Reached next starts p) : Reached next' starts p := by
  induction hp with
  | start hq => exact .start hq
  | reference _ hrefers ih => exact .reference ih (h _ _ hrefers)

theorem Reached.mono {starts starts' : List String} (h : ∀ q ∈ starts, q ∈ starts') {p : String}
    (hp : Reached next starts p) : Reached next starts' p :=
  hp.trans fun q hq => .start (h q hq)

/-- All that is reached from a closed list is in it. -/
theorem Reached.mem_of_closed {starts nodes : List String} {p : String}
    (hclosed : ClosedUnder next nodes) (h : ∀ q ∈ starts, q ∈ nodes)
    (hp : Reached next starts p) : p ∈ nodes := by
  induction hp with
  | start hq => exact h _ hq
  | reference _ hrefers ih => exact hclosed _ ih _ hrefers

/-- From a node that leads nowhere only that node is reached. -/
theorem Reached.eq_of_next_nil {p q : String} (hp : next p = []) (h : Reached next [p] q) : q = p := by
  have hclosed : ClosedUnder next [p] := by
    intro r hr s hs
    rw [List.mem_singleton.mp hr, hp] at hs
    cases hs
  exact List.mem_singleton.mp (h.mem_of_closed hclosed fun _ hr => hr)

/-! ### What the order holds -/

namespace Preorder

variable {seen starts order : List String}

/-- Only which nodes were met matters, not in which order. -/
theorem congr {seen' : List String} (h : Preorder next seen starts order)
    (hseen : ∀ q, q ∈ seen' ↔ q ∈ seen) : Preorder next seen' starts order := by
  induction h generalizing seen' with
  | nil => exact .nil _
  | skip hmet _ ih => exact .skip ((hseen _).mpr hmet) (ih hseen)
  | enter hnew _ _ ihinside ihbehind =>
    refine .enter (fun hp => hnew ((hseen _).mp hp)) (ihinside fun q => ?_) (ihbehind fun q => ?_)
    · simp only [List.mem_cons, hseen]
    · simp only [List.mem_cons, List.mem_append, hseen]

/-- There is only one order. -/
theorem unique {order' : List String} (h : Preorder next seen starts order)
    (h' : Preorder next seen starts order') : order = order' := by
  induction h generalizing order' with
  | nil => cases h'; rfl
  | skip hmet _ ih =>
    cases h' with
    | skip _ h' => exact ih h'
    | enter hnew _ _ => exact absurd hmet hnew
  | enter hnew _ _ ihinside ihbehind =>
    cases h' with
    | skip hmet _ => exact absurd hmet hnew
    | enter _ inside behind =>
      cases ihinside inside
      cases ihbehind behind
      rfl

/-- No node is met twice. -/
theorem nodup_and_new (h : Preorder next seen starts order) :
    order.Nodup ∧ ∀ q ∈ order, q ∉ seen := by
  induction h with
  | nil => exact ⟨List.nodup_nil, fun _ hq => absurd hq List.not_mem_nil⟩
  | skip _ _ ih => exact ih
  | @enter seen rest below order p hnew _ _ ihinside ihbehind =>
    obtain ⟨hbelow, hbelownew⟩ := ihinside
    obtain ⟨horder, hordernew⟩ := ihbehind
    simp only [List.mem_cons, List.mem_append, not_or] at hbelownew hordernew
    constructor
    · rw [List.nodup_cons, List.mem_append, not_or, List.nodup_append]
      refine ⟨⟨fun hp => (hbelownew p hp).1 rfl, fun hp => (hordernew p hp).1 rfl⟩, hbelow, horder,
        fun a ha b hb hab => (hordernew b hb).2.1 (hab ▸ ha)⟩
    · intro q hq
      rcases List.mem_cons.mp hq with rfl | hq
      · exact hnew
      · rcases List.mem_append.mp hq with hq | hq
        · exact (hbelownew q hq).2
        · exact (hordernew q hq).2.2

theorem nodup (h : Preorder next seen starts order) : order.Nodup :=
  h.nodup_and_new.1

/-- The nodes at which the search starts are met. -/
theorem mem_of_mem_starts (h : Preorder next seen starts order) :
    ∀ q ∈ starts, q ∈ seen ∨ q ∈ order := by
  induction h with
  | nil => exact fun _ hq => absurd hq List.not_mem_nil
  | skip hmet _ ih =>
    intro q hq
    rcases List.mem_cons.mp hq with rfl | hq
    · exact .inl hmet
    · exact ih q hq
  | enter _ _ _ _ ihbehind =>
    intro q hq
    rcases List.mem_cons.mp hq with rfl | hq
    · exact .inr List.mem_cons_self
    · have hmet := ihbehind q hq
      simp only [List.mem_cons, List.mem_append] at hmet ⊢
      grind

/-- All that a node refers to is met. -/
theorem mem_of_mem_next (h : Preorder next seen starts order) :
    ∀ p ∈ order, ∀ q ∈ next p, q ∈ seen ∨ q ∈ order := by
  induction h with
  | nil => exact fun _ hp => absurd hp List.not_mem_nil
  | skip _ _ ih => exact ih
  | @enter seen rest below order p _ inside _ ihinside ihbehind =>
    intro r hr q hq
    have hfound : q ∈ p :: (below ++ seen) ∨ q ∈ order := by
      rcases List.mem_cons.mp hr with rfl | hr
      · have hmet := inside.mem_of_mem_starts q hq
        simp only [List.mem_cons, List.mem_append] at hmet ⊢
        grind
      · rcases List.mem_append.mp hr with hr | hr
        · have hmet := ihinside r hr q hq
          simp only [List.mem_cons, List.mem_append] at hmet ⊢
          grind
        · exact ihbehind r hr q hq
    simp only [List.mem_cons, List.mem_append] at hfound ⊢
    grind

/-- Only what is reached is met. -/
theorem reached_of_mem (h : Preorder next seen starts order) :
    ∀ q ∈ order, Reached next starts q := by
  induction h with
  | nil => exact fun _ hq => absurd hq List.not_mem_nil
  | skip _ _ ih => exact fun q hq => (ih q hq).mono fun _ => List.mem_cons_of_mem _
  | @enter seen rest below order p _ _ _ ihinside ihbehind =>
    intro q hq
    rcases List.mem_cons.mp hq with rfl | hq
    · exact .start List.mem_cons_self
    · rcases List.mem_append.mp hq with hq | hq
      · exact (ihinside q hq).trans fun r hr => .reference (.start List.mem_cons_self) hr
      · exact (ihbehind q hq).mono fun _ => List.mem_cons_of_mem _

/-- A search that has met nothing meets exactly what is reached. -/
theorem mem_iff_reached (h : Preorder next [] starts order) {q : String} :
    q ∈ order ↔ Reached next starts q := by
  have hnone {r : String} (hr : r ∈ [] ∨ r ∈ order) : r ∈ order := hr.resolve_left List.not_mem_nil
  exact ⟨h.reached_of_mem q, fun hq => hq.mem_of_closed
    (fun p hp r hr => hnone (h.mem_of_mem_next p hp r hr)) fun r hr => hnone (h.mem_of_mem_starts r hr)⟩

/-- What was met stays closed. -/
theorem closed (h : Preorder next seen starts order) (hseen : ClosedUnder next seen) :
    ClosedUnder next (order ++ seen) := by
  intro p hp q hq
  rw [List.mem_append] at hp ⊢
  rcases hp with hp | hp
  · exact (h.mem_of_mem_next p hp q hq).symm
  · exact .inr (hseen p hp q hq)

/-! ### Joining and splitting -/

theorem append {starts' order' : List String} (h : Preorder next seen starts order)
    (h' : Preorder next (order ++ seen) starts' order') :
    Preorder next seen (starts ++ starts') (order ++ order') := by
  induction h with
  | nil => exact h'
  | skip hmet _ ih => exact .skip hmet (ih h')
  | @enter seen rest below order p hnew inside _ _ ihbehind =>
    have hbehind := ihbehind (h'.congr fun q => by
      simp only [List.mem_cons, List.mem_append]
      grind)
    rw [List.cons_append, List.cons_append, List.append_assoc]
    exact .enter hnew inside hbehind

theorem of_append {starts' : List String} (h : Preorder next seen (starts ++ starts') order) :
    ∃ front back, order = front ++ back ∧ Preorder next seen starts front ∧
      Preorder next (front ++ seen) starts' back := by
  induction starts generalizing seen order with
  | nil => exact ⟨[], order, rfl, .nil _, h⟩
  | cons p rest ih =>
    cases h with
    | skip hmet behind =>
      obtain ⟨front, back, rfl, hfront, hback⟩ := ih behind
      exact ⟨front, back, rfl, .skip hmet hfront, hback⟩
    | @enter _ _ below _ _ hnew inside behind =>
      obtain ⟨front, back, rfl, hfront, hback⟩ := ih behind
      refine ⟨p :: (below ++ front), back, by simp, .enter hnew inside hfront, ?_⟩
      exact hback.congr fun q => by
        simp only [List.mem_cons, List.mem_append]
        grind

/-! ### Passing over nodes -/

/-- Nodes that were met with all they lead to are passed over. -/
theorem avoiding {met : List String} (hmet : ClosedUnder next met)
    (h : Preorder next seen starts order) :
    Preorder next (met ++ seen) starts (order.filter (· ∉ met)) := by
  induction h with
  | nil => exact .nil _
  | skip hp _ ih => exact .skip (List.mem_append_right _ hp) ih
  | @enter seen rest below order p hnew inside _ ihinside ihbehind =>
    by_cases hp : p ∈ met
    · -- all that is found inside the node was met as well
      have hbelow : below.filter (· ∉ met) = [] := by
        refine List.filter_eq_nil_iff.mpr fun q hq => ?_
        simpa using (inside.reached_of_mem q hq).mem_of_closed hmet (hmet p hp)
      rw [List.filter_cons_of_neg (by simpa using hp), List.filter_append, hbelow, List.nil_append]
      refine .skip (List.mem_append_left _ hp) (ihbehind.congr fun q => ?_)
      have hq : q ∈ below → q ∈ met := fun hq =>
        (inside.reached_of_mem q hq).mem_of_closed hmet (hmet p hp)
      simp only [List.mem_append, List.mem_cons]
      constructor
      · grind
      · rintro (hq' | rfl | hq' | hq')
        · exact .inl hq'
        · exact .inl hp
        · exact .inl (hq hq')
        · exact .inr hq'
    · rw [List.filter_cons_of_pos (by simpa using hp), List.filter_append]
      refine .enter (fun h => (List.mem_append.mp h).elim hp hnew) (ihinside.congr fun q => ?_)
        (ihbehind.congr fun q => ?_)
      · simp only [List.mem_append, List.mem_cons]
        grind
      · simp only [List.mem_append, List.mem_cons, List.mem_filter, decide_not, Bool.not_eq_true',
          decide_eq_false_iff_not]
        grind

/-- The order without a node that leads nowhere. -/
theorem without {p : String} (hp : next p = []) (h : Preorder next seen starts order) :
    Preorder (fun q => (next q).filter (· ≠ p)) (seen.filter (· ≠ p)) (starts.filter (· ≠ p))
      (order.filter (· ≠ p)) := by
  induction h with
  | nil => exact .nil _
  | @skip seen rest order q hmet _ ih =>
    by_cases hq : q = p
    · rwa [List.filter_cons_of_neg (by simpa using hq)]
    · rw [List.filter_cons_of_pos (by simpa using hq)]
      exact .skip (List.mem_filter.mpr ⟨hmet, by simpa using hq⟩) ih
  | @enter seen rest below order q hnew inside _ ihinside ihbehind =>
    by_cases hq : q = p
    · -- nothing is found inside the node itself
      have hdrop (l : List String) : (q :: l).filter (· ≠ p) = l.filter (· ≠ p) :=
        List.filter_cons_of_neg (by simpa using hq)
      have hbelow : below = [] := by
        rw [hq, hp] at inside
        cases inside
        rfl
      rw [hbelow, List.nil_append, hdrop] at ihbehind
      rwa [hbelow, List.nil_append, hdrop, hdrop]
    · have hkeep (l : List String) : (q :: l).filter (· ≠ p) = q :: l.filter (· ≠ p) :=
        List.filter_cons_of_pos (by simpa using hq)
      rw [hkeep] at ihinside
      rw [hkeep, List.filter_append] at ihbehind
      rw [hkeep, hkeep, List.filter_append]
      exact .enter (fun hmem => hnew (List.mem_of_mem_filter hmem)) ihinside ihbehind

/-- Repetitions of a node are passed over. -/
theorem of_filter_ne {p : String} (hp : p ∈ seen)
    (h : Preorder next seen (starts.filter (· ≠ p)) order) : Preorder next seen starts order := by
  induction starts generalizing seen order with
  | nil => exact h
  | cons q rest ih =>
    rw [List.filter_cons] at h
    split at h
    · cases h with
      | skip hmet behind => exact .skip hmet (ih hp behind)
      | enter hnew inside behind =>
        exact .enter hnew inside (ih (List.mem_cons_of_mem _ (List.mem_append_right _ hp)) behind)
    · next hq =>
      have hqp : q = p := by simpa using hq
      exact .skip (hqp ▸ hp) (ih hp h)

/-- Repetitions among the nodes at which the search starts make no difference. -/
theorem of_eraseDups (h : Preorder next seen starts.eraseDups order) :
    Preorder next seen starts order := by
  induction hlength : starts.length using Nat.strongRecOn generalizing seen starts order with
  | ind length ih =>
    cases starts with
    | nil => exact h
    | cons p rest =>
      have hfilter : (rest.filter fun q => !q == p) = rest.filter (· ≠ p) :=
        List.filter_congr fun q _ => by rw [decide_not]; rfl
      have hshorter : (rest.filter (· ≠ p)).length < length :=
        hlength ▸ Nat.lt_succ_of_le (List.length_filter_le _ _)
      rw [List.eraseDups_cons, hfilter] at h
      cases h with
      | skip hmet behind => exact .skip hmet (of_filter_ne hmet (ih _ hshorter behind rfl))
      | enter hnew inside behind =>
        exact .enter hnew inside (of_filter_ne List.mem_cons_self (ih _ hshorter behind rfl))

/-- The order for references in which repetitions are left out. -/
theorem of_next_eraseDups {next' : String → List String}
    (hnext : ∀ p ∈ order, next' p = (next p).eraseDups)
    (h : Preorder next' seen starts order) : Preorder next seen starts order := by
  induction h with
  | nil => exact .nil _
  | skip hmet _ ih => exact .skip hmet (ih hnext)
  | enter hnew _ _ ihinside ihbehind =>
    have hbelow := ihinside fun q hq =>
      hnext q (List.mem_cons_of_mem _ (List.mem_append_left _ hq))
    rw [hnext _ List.mem_cons_self] at hbelow
    exact .enter hnew hbelow.of_eraseDups (ihbehind fun q hq =>
      hnext q (List.mem_cons_of_mem _ (List.mem_append_right _ hq)))

end Preorder

theorem eraseDups_of_nodup {nodes : List String} (h : nodes.Nodup) : nodes.eraseDups = nodes := by
  induction nodes with
  | nil => rfl
  | cons p rest ih =>
    obtain ⟨hp, hrest⟩ := List.nodup_cons.mp h
    rw [List.eraseDups_cons, List.filter_eq_self.mpr fun q hq => ?_, ih hrest]
    simpa using fun hqp : q = p => hp (hqp ▸ hq)

/-- **Searches from one node after the other, each from the start, make the order of one search** once
repetitions are left out. -/
theorem Preorder.flatMap_eraseDups {seen starts : List String} {search : String → List String}
    (h : ∀ e ∈ starts, Preorder next [] [e] (search e)) (hseen : ClosedUnder next seen) :
    Preorder next seen starts (((starts.flatMap search).filter (· ∉ seen)).eraseDups) := by
  induction starts generalizing seen with
  | nil => exact .nil _
  | cons e rest ih =>
    have hfirst : Preorder next seen [e] ((search e).filter (· ∉ seen)) :=
      ((h e List.mem_cons_self).avoiding hseen).congr fun q => by simp
    have hrest := ih (fun d hd => h d (List.mem_cons_of_mem _ hd)) (hfirst.closed hseen)
    have hlater : ((rest.flatMap search).filter (· ∉ seen)).removeAll ((search e).filter (· ∉ seen)) =
        (rest.flatMap search).filter (· ∉ (search e).filter (· ∉ seen) ++ seen) := by
      rw [List.removeAll, List.filter_filter]
      refine List.filter_congr fun q _ => ?_
      simp
    rw [List.flatMap_cons, List.filter_append, List.eraseDups_append, hlater,
      eraseDups_of_nodup hfirst.nodup]
    exact hfirst.append hrest

end ExtensionCensus
