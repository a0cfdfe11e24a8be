import ExtensionCensus.Proofs.File.Tree

/-!
# Writing files

A write puts one file into one directory, and every path that led to a directory still leads to the
same one.

* `Entry.at?` — what names lead to;
* `Entry.Trail` — where some segments have led: the names, the directories on the way, and the entry;
* `Entry.Grown`, `grown_insert` — a tree in which no directory was lost;
* `lookup_write` — **a write sets one child of its directory**, and `write_ok_iff` tells when it can;
* `lookup_join` — what a name below a directory leads to.
-/

namespace ExtensionCensus

open ExtensionCensus.Path (IsAbsolute IsName IsSegment below)

namespace Entry

open Text (Bytes)

/-! ### Children -/

theorem child?_setChild (name : String) (entry : Entry) (cs : List Child) :
    (directory (setChild name entry cs)).child? name = some entry := by
  induction cs with
  | nil => simp [child?, children, setChild, Child.name, Child.entry]
  | cons c rest ih =>
    rw [setChild]
    split
    · simp [child?, children, Child.name, Child.entry]
    · next hc =>
      rw [child?, children, List.find?_cons_of_neg (by simpa using hc)]
      exact ih

theorem child?_setChild_of_ne {name other : String} (h : other ≠ name) (entry : Entry)
    (cs : List Child) :
    (directory (setChild name entry cs)).child? other = (directory cs).child? other := by
  induction cs with
  | nil => simp [child?, children, setChild, Child.name, h.symm]
  | cons c rest ih =>
    rw [setChild]
    split
    · next hc =>
      obtain ⟨found, old⟩ := c
      have hfound : found = name := hc
      subst hfound
      simp [child?, children, Child.name, h.symm]
    · rw [child?, child?, children, children, List.find?_cons, List.find?_cons]
      split
      · rfl
      · exact ih

theorem isDirectory_of_child? {e inner : Entry} {name : String} (h : e.child? name = some inner) :
    e.isDirectory = true := by
  cases e with
  | file content => cases h
  | directory cs => rfl

/-! ### Names -/

/-- What some names lead to, each a child of the one before. -/
def at? : Entry → List String → Option Entry
  | e, [] => some e
  | e, name :: rest => (e.child? name).bind fun inner => inner.at? rest

theorem at?_cons_iff {e found : Entry} {name : String} {rest : List String} :
    e.at? (name :: rest) = some found ↔
      ∃ inner, e.child? name = some inner ∧ inner.at? rest = some found := by
  rw [at?, Option.bind_eq_some_iff]

theorem at?_append (e : Entry) (front back : List String) :
    e.at? (front ++ back) = (e.at? front).bind fun inner => inner.at? back := by
  induction front generalizing e with
  | nil => rfl
  | cons name rest ih =>
    rw [List.cons_append, at?, at?, Option.bind_assoc]
    congr 1
    funext inner
    exact ih inner

theorem at?_concat {e dir : Entry} {names : List String} (h : e.at? names = some dir)
    (name : String) : e.at? (names ++ [name]) = dir.child? name := by
  rw [at?_append, h, Option.bind_some, at?]
  exact Option.bind_fun_some (dir.child? name)

/-! ### Trails -/

/-- Segments from the root have led to an entry: through which directories, the nearest first, and
by which names. -/
inductive Trail (root : Entry) : List String → List Entry → Entry → Prop where
  | root : Trail root [] [] root
  | child {names : List String} {above : List Entry} {e inner : Entry} {s : String}
      (h : Trail root names above e) (isName : IsName s) (isChild : e.child? s = some inner) :
      Trail root (s :: names) (e :: above) inner

variable {root root' : Entry} {names : List String} {above above' : List Entry} {e e' : Entry}

theorem Trail.at? (h : Trail root names above e) : root.at? names.reverse = some e := by
  induction h with
  | root => rfl
  | child _ _ hchild ih => rw [List.reverse_cons, at?_concat ih, hchild]

variable (root root') in
/-- Names that lead to a directory in the first tree lead to one in the second. -/
def Grown : Prop :=
  ∀ names e, root.at? names = some e → e.isDirectory = true →
    ∃ e', root'.at? names = some e' ∧ e'.isDirectory = true

theorem Grown.refl (root : Entry) : Grown root root :=
  fun _ e hat hdir => ⟨e, hat, hdir⟩

theorem isDirectory_of_follow {segments : List String} {found : Entry}
    (h : follow above e segments = .ok found) (hfound : found.isDirectory = true) :
    e.isDirectory = true := by
  cases segments with
  | nil =>
    rw [follow] at h
    cases h
    exact hfound
  | cons s rest =>
    rw [follow_cons] at h
    cases hdir : e.isDirectory with
    | true => rfl
    | false =>
      rw [hdir] at h
      cases h

/-- Segments that lead to a directory lead to the same names in a tree that has grown: those that
are left when each `..` has taken the one before it away. -/
theorem follow_grown (hgrown : Grown root root') {segments : List String} {found : Entry}
    (hsegments : ∀ s ∈ segments, '/' ∉ s.toList) (h : Trail root names above e)
    (h' : Trail root' names above' e') (hfollow : follow above e segments = .ok found)
    (hfound : found.isDirectory = true) :
    ∃ outer outer' found',
      Trail root (Path.collapseSegments true names segments).reverse outer found ∧
      Trail root' (Path.collapseSegments true names segments).reverse outer' found' ∧
      follow above' e' segments = .ok found' := by
  induction segments generalizing names above e above' e' with
  | nil =>
    rw [follow] at hfollow
    cases hfollow
    rw [Path.collapseSegments, List.reverse_reverse]
    exact ⟨above, above', e', h, h', rfl⟩
  | cons s rest ih =>
    have hrest : ∀ t ∈ rest, '/' ∉ t.toList := fun t ht => hsegments t (List.mem_cons_of_mem s ht)
    have hdir := isDirectory_of_follow hfollow hfound
    have hdir' : e'.isDirectory = true := by
      obtain ⟨other, hother, hisDirectory⟩ := hgrown names.reverse e h.at? hdir
      rw [h'.at?] at hother
      cases hother
      exact hisDirectory
    rw [follow_cons, hdir] at hfollow
    rw [follow_cons, hdir', Path.collapseSegments_cons]
    simp only [Bool.not_true, Bool.false_eq_true, if_false] at hfollow ⊢
    by_cases hskip : (s = "" || s = ".") = true
    · rw [if_pos hskip] at hfollow ⊢
      rw [if_pos hskip]
      exact ih hrest h h' hfollow
    · rw [if_neg hskip] at hfollow ⊢
      rw [if_neg hskip]
      by_cases habove : s = ".."
      · rw [if_pos habove] at hfollow ⊢
        rw [if_pos habove]
        -- both walks stand below the same names, so `..` leaves the same one
        cases h with
        | root =>
          cases h'
          exact ih hrest .root .root hfollow
        | child h hname _ =>
          cases h' with
          | child h' _ _ =>
            simp only [if_neg hname.ne_above]
            exact ih hrest h h' hfollow
      · rw [if_neg habove] at hfollow ⊢
        rw [if_neg habove]
        have hname : IsName s := by
          simp only [Bool.or_eq_true, decide_eq_true_eq, not_or] at hskip
          exact ⟨hskip.1, hskip.2, habove, hsegments s List.mem_cons_self⟩
        cases hchild : e.child? s with
        | none =>
          rw [hchild] at hfollow
          cases hfollow
        | some inner =>
          rw [hchild] at hfollow
          have hinner := Trail.child h hname hchild
          obtain ⟨inner', hinner', -⟩ :=
            hgrown _ inner hinner.at? (isDirectory_of_follow hfollow hfound)
          rw [List.reverse_cons, at?_concat h'.at?] at hinner'
          rw [hinner']
          exact ih hrest hinner (.child h' hname hinner') hfollow

/-! ### Lookups -/

theorem noSlash_of_mem_segments {path s : String} (h : s ∈ (Text.segments '/' path).drop 1) :
    '/' ∉ s.toList :=
  Text.not_mem_of_mem_segments (List.mem_of_mem_drop h)

/-- A path that leads to a directory leads to the same place in a tree that has grown. -/
theorem lookup_grown (hgrown : Grown root root') {path : String}
    (h : root.lookup path = .ok e) (hdir : e.isDirectory = true) :
    root.at? (place path) = some e ∧
      ∃ e', root'.lookup path = .ok e' ∧ root'.at? (place path) = some e' := by
  obtain ⟨outer, outer', found', htrail, htrail', hfollow⟩ :=
    follow_grown hgrown (fun _ => noSlash_of_mem_segments) .root .root h hdir
  have hat := htrail.at?
  have hat' := htrail'.at?
  rw [List.reverse_reverse] at hat hat'
  exact ⟨hat, found', hfollow, hat'⟩

/-- A path that leads to a directory leads to its place. -/
theorem at?_place {path : String} (h : root.lookup path = .ok e) (hdir : e.isDirectory = true) :
    root.at? (place path) = some e :=
  (lookup_grown (Grown.refl root) h hdir).1

/-! ### Insertion -/

theorem insert_cons (e : Entry) (name : String) (rest : List String) (new : Entry) :
    e.insert (name :: rest) new =
      directory (setChild name (insert ((e.child? name).getD default) rest new) e.children) := by
  cases e <;> rfl

/-- A file put into a directory is a child of it. -/
theorem at?_insert {names : List String} {cs : List Child} (h : root.at? names = some (directory cs))
    (name : String) (content : Bytes) :
    (root.insert (names ++ [name]) (.file content)).at? names =
      some (directory (setChild name (.file content) cs)) := by
  induction names generalizing root with
  | nil =>
    cases h
    rfl
  | cons s rest ih =>
    obtain ⟨inner, hchild, hinner⟩ := at?_cons_iff.mp h
    rw [List.cons_append, insert_cons, hchild, Option.getD_some, at?_cons_iff]
    exact ⟨_, child?_setChild s _ root.children, ih hinner⟩

/-- A file put where no directory is leaves every directory where it was. -/
theorem grown_insert {path : List String} (content : Bytes)
    (hfree : ∀ e, root.at? path = some e → e.isDirectory = false) :
    Grown root (root.insert path (.file content)) := by
  intro names e hat hdir
  induction path generalizing root names with
  | nil =>
    have hroot := hfree root rfl
    cases names with
    | nil =>
      cases hat
      rw [hroot] at hdir
      cases hdir
    | cons s rest =>
      obtain ⟨inner, hchild, -⟩ := at?_cons_iff.mp hat
      rw [isDirectory_of_child? hchild] at hroot
      cases hroot
  | cons t path ih =>
    rw [insert_cons]
    cases names with
    | nil => exact ⟨_, rfl, rfl⟩
    | cons s rest =>
      obtain ⟨inner, hchild, hinner⟩ := at?_cons_iff.mp hat
      by_cases hst : s = t
      · subst hst
        have hfree' : ∀ e, inner.at? path = some e → e.isDirectory = false := by
          intro e he
          exact hfree e (at?_cons_iff.mpr ⟨inner, hchild, he⟩)
        obtain ⟨found, hfound, hdirectory⟩ := ih hfree' rest hinner
        rw [hchild, Option.getD_some]
        exact ⟨found, at?_cons_iff.mpr ⟨_, child?_setChild s _ root.children, hfound⟩, hdirectory⟩
      · have hsame : (directory root.children).child? s = root.child? s := by
          cases root <;> rfl
        refine ⟨e, at?_cons_iff.mpr ⟨inner, ?_, hinner⟩, hdir⟩
        rw [child?_setChild_of_ne hst, hsame, hchild]

/-! ### Writes -/

/-- A file can be written into a directory, unless there is a directory of its name. -/
theorem write_ok_iff {path : String} {cs : List Child} (h : root.lookup path = .ok (directory cs))
    (name : String) (content : Bytes) :
    (∃ written, root.write path name content = .ok written) ↔
      ∀ ds, (directory cs).child? name ≠ some (directory ds) := by
  rw [write, h]
  simp only
  split
  · next ds hds => exact ⟨fun ⟨_, h⟩ => (nomatch h), fun h => absurd hds (h ds)⟩
  · next hfree => exact ⟨fun _ ds hds => hfree ds hds, fun _ => ⟨_, rfl⟩⟩

/-- **A write sets one child of its directory.** -/
theorem lookup_write {path name : String} {content : Bytes} {written : FileTree} {cs : List Child}
    (h : root.lookup path = .ok (directory cs)) (hwrite : root.write path name content = .ok written) :
    written.lookup path = .ok (directory (setChild name (.file content) cs)) := by
  have hat := at?_place h rfl
  rw [write, h] at hwrite
  simp only at hwrite
  split at hwrite
  · cases hwrite
  · next hfree =>
    cases hwrite
    have hgrown : Grown root (root.insert (place path ++ [name]) (.file content)) := by
      apply grown_insert
      intro e he
      rw [at?_concat hat] at he
      cases e with
      | file content => rfl
      | directory ds => exact absurd he (hfree ds)
    obtain ⟨-, e', hlookup, hat'⟩ := lookup_grown hgrown h rfl
    rw [at?_insert hat] at hat'
    cases hat'
    exact hlookup

/-! ### Names below a directory -/

/-- A segment that can be passed leads to one place, whatever follows it. -/
theorem follow_step {s : String} {rest : List String} {found : Entry}
    (h : follow above e (s :: rest) = .ok found) :
    ∃ above₁ e₁, follow above₁ e₁ rest = .ok found ∧
      ∀ rest', follow above e (s :: rest') = follow above₁ e₁ rest' := by
  simp only [follow_cons] at h ⊢
  split at h
  · cases h
  · next hopen =>
    simp only [if_neg hopen]
    split at h
    · next hskip =>
      simp only [if_pos hskip]
      exact ⟨above, e, h, fun _ => rfl⟩
    · next hskip =>
      simp only [if_neg hskip]
      split at h
      · next habove =>
        simp only [if_pos habove]
        cases above with
        | nil => exact ⟨[], e, h, fun _ => rfl⟩
        | cons outer further => exact ⟨further, outer, h, fun _ => rfl⟩
      · next habove =>
        simp only [if_neg habove]
        cases hchild : e.child? s with
        | none =>
          rw [hchild] at h
          cases h
        | some inner =>
          rw [hchild] at h
          exact ⟨e :: above, inner, h, fun _ => rfl⟩

theorem follow_concat {segments : List String} {found : Entry} {name : String} (hname : IsName name)
    (h : follow above e segments = .ok found) (hdir : found.isDirectory = true) :
    follow above e (segments ++ [name]) =
      match found.child? name with
      | some inner => .ok inner
      | none => .error .missing := by
  induction segments generalizing above e with
  | nil =>
    rw [follow] at h
    cases h
    rw [List.nil_append, follow_name hname, hdir]
    rfl
  | cons s rest ih =>
    obtain ⟨above₁, e₁, hrest, hstep⟩ := follow_step h
    rw [List.cons_append, hstep]
    exact ih hrest

/-- Segments that lead nowhere can be left out. -/
theorem follow_filter {segments : List String} {found : Entry}
    (h : follow above e segments = .ok found) :
    follow above e (segments.filter fun s => s ≠ "" && s ≠ ".") = .ok found := by
  induction segments generalizing above e with
  | nil => exact h
  | cons s rest ih =>
    by_cases hskip : (s = "" || s = ".") = true
    · rw [List.filter_cons_of_neg (by simpa [Decidable.or_iff_not_imp_left] using hskip)]
      rw [follow_cons, if_pos hskip] at h
      split at h
      · cases h
      · exact ih h
    · rw [List.filter_cons_of_pos (by simpa [not_or] using hskip)]
      obtain ⟨above₁, e₁, hrest, hstep⟩ := follow_step h
      rw [hstep]
      exact ih hrest

theorem follow_replicate (hdir : e.isDirectory = true) (k : Nat) (rest : List String) :
    follow above e (List.replicate k "" ++ rest) = follow above e rest := by
  induction k with
  | zero => rfl
  | succ k ih =>
    rw [List.replicate_succ, List.cons_append, follow_cons, hdir]
    exact ih

/-- What a name below a directory leads to. -/
theorem lookup_join {path name : String} {cs : List Child} (habsolute : IsAbsolute path)
    (hname : IsName name) (h : root.lookup path = .ok (directory cs)) :
    root.lookup (Path.join (Path.ofParts (Path.parts path)) name) =
      match (directory cs).child? name with
      | some inner => .ok inner
      | none => .error .missing := by
  have hroot := Path.rootOf_of_isAbsolute habsolute
  have hslash : Text.startsWith (Path.rootOf path) "/" = true := Path.isAbsolute_rootOf habsolute
  rw [Path.parts_eq_cons habsolute, Path.ofParts, if_pos hslash]
  have hkept := follow_concat hname (follow_filter h) rfl
  generalize hsegments :
    ((Text.segments '/' path).drop 1).filter (fun s => s ≠ "" && s ≠ ".") = kept at hkept ⊢
  have hnames : ∀ s ∈ kept, IsSegment s := by
    intro s hs
    rw [← hsegments, List.mem_filter] at hs
    have hne : s ≠ "" := by
      intro hempty
      simp [hempty] at hs
    exact ⟨hne, noSlash_of_mem_segments hs.1⟩
  have hall : ∀ s ∈ kept ++ [name], IsSegment s := by
    intro s hs
    rcases List.mem_append.mp hs with hs | hs
    · exact hnames s hs
    · rw [List.mem_singleton.mp hs]
      exact hname.isSegment
  have hbelow := Path.join_below hroot hnames hname.isSegment
  obtain ⟨k, hk⟩ := Path.segments_below hroot hall
  rw [below] at hbelow
  rw [hbelow, lookup, hk, List.drop_succ_cons, List.drop_zero,
    follow_replicate (isDirectory_of_follow h rfl)]
  exact hkept

end Entry

end ExtensionCensus
