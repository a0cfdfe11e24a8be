import ExtensionCensus.Binding.Resolve
import ExtensionCensus.Symbol.Display
import ExtensionCensus.Proofs.Interning.Nested
import ExtensionCensus.Proofs.Interning.Reading
import ExtensionCensus.Proofs.Symbol.Segmented

/-!
# Names without a meaning keep their spelling

A dotted name that nothing is found for becomes a chain of unbound types. A part with arguments ends a
type of the chain, and the parts without arguments in front of it are written into the name of that type.

* `IsDotted` — the parts of a dotted name; `spelled` — how they are written;
* `runs`, `nest` — the types of the chain, and the chain, with `some_unboundName`;
* `spelled_eq` — the runs are shown as the parts are written;
* `flatMap_partsOfRun_runsFrom` — the parts are read back from the runs;
* `reads_nestUnbound` — objects that are made of the runs stand for the chain;
* `unboundName_written` — **an unbound name is shown as it is written, is generic just if some part has
  arguments, and tells the parts that it is made of**.
-/

namespace ExtensionCensus.Binding.Outline

/-! ### Dotted names -/

section

variable {α : Type}

/-- The name of a part: not empty, and without dots and colons. -/
def IsPartName (name : String) : Prop :=
  name ≠ "" ∧ '.' ∉ name.toList ∧ ':' ∉ name.toList

instance (name : String) : Decidable (IsPartName name) :=
  inferInstanceAs (Decidable (_ ∧ _))

/-- The names of the parts of a dotted name. The first may be that of an alias, with two colons. -/
inductive AreNames : List String → Prop where
  | plain {names : List String} (h : ∀ n ∈ names, IsPartName n) : AreNames names
  | aliased {first : String} {rest : List String} (hfirst : IsPartName first)
      (hrest : ∀ n ∈ rest, IsPartName n) : AreNames ((first ++ "::") :: rest)

/-- The parts of a dotted name. An alias has no arguments. -/
structure IsDotted (parts : List (String × List α)) : Prop where
  ne_nil : parts ≠ []
  names : AreNames (parts.map (·.1))
  bare : ∀ p ∈ parts, Text.endsIn p.1 "::" = true → p.2 = []

/-- The parts of names without arguments. -/
def plainParts (names : List String) : List (String × List α) :=
  names.map fun name => (name, [])

theorem plainParts_append (names more : List String) :
    (plainParts (names ++ more) : List (String × List α)) = plainParts names ++ plainParts more :=
  List.map_append

/-- What stands between a part and the next one: a dot, but nothing behind two colons. -/
def divider (name : String) : String :=
  if Text.endsIn name "::" then "" else "."

/-- A part as it is written: its name, and its arguments in angle brackets if it has any. -/
def shown (table : SymbolTable) (part : BoundPart) : String :=
  part.1 ++ SymbolTable.angled (part.2.map table.display)

/-- The parts of a dotted name as they are written. -/
def spelled (table : SymbolTable) : List BoundPart → String
  | [] => ""
  | [part] => shown table part
  | part :: next :: rest => shown table part ++ divider part.1 ++ spelled table (next :: rest)

end

/-! ### Names that are written in one -/

section

variable {names rest : List String} {name first : String}

theorem AreNames.append_left {front back : List String} (h : AreNames (front ++ back)) :
    AreNames front := by
  generalize hnames : front ++ back = names at h
  cases h with
  | plain h => exact .plain fun n hn => h n (hnames ▸ List.mem_append_left _ hn)
  | aliased hfirst hrest =>
    cases front with
    | nil => exact .plain (List.forall_mem_nil _)
    | cons name front =>
      obtain ⟨rfl, hrest'⟩ := List.cons.inj hnames
      exact .aliased hfirst fun n hn => hrest n (hrest' ▸ List.mem_append_left _ hn)

/-- Behind a name there are plain names only. -/
theorem AreNames.behind {front back : List String} (h : AreNames (front ++ name :: back)) :
    ∀ n ∈ back, IsPartName n := by
  generalize hnames : front ++ name :: back = names at h
  have hmem : ∀ n ∈ back, n ∈ names.tail := by
    intro n hn
    rw [← hnames]
    cases front with
    | nil => exact hn
    | cons first front => exact List.mem_append_right _ (List.mem_cons_of_mem _ hn)
  cases h with
  | plain h => exact fun n hn => h n (List.mem_of_mem_tail (hmem n hn))
  | aliased hfirst hrest => exact fun n hn => hrest n (hmem n hn)

theorem not_mem_toList_intercalate {c : Char} (hc : c ≠ '.') (h : ∀ n ∈ names, c ∉ n.toList) :
    c ∉ (".".intercalate names).toList := by
  induction names with
  | nil => exact List.not_mem_nil
  | cons first rest ih =>
    have hfirst := h first List.mem_cons_self
    have hrest := ih fun n hn => h n (List.mem_cons_of_mem _ hn)
    cases rest with
    | nil => rwa [String.intercalate_singleton]
    | cons next rest =>
      rw [String.intercalate_cons_cons, String.toList_append, String.toList_append]
      simp only [List.mem_append, not_or]
      exact ⟨⟨hfirst, by simpa using hc⟩, hrest⟩

/-- Plain names are joined by dots. -/
theorem writtenName_of_plain (h : ∀ n ∈ names, IsPartName n) :
    writtenName names = ".".intercalate names := by
  have hcolon : ':' ∉ (".".intercalate names).toList :=
    not_mem_toList_intercalate (by decide) fun n hn => (h n hn).2.2
  rw [writtenName, Text.replaceAll, show "::.".toList = [':', ':', '.'] from rfl,
    Text.replaceChars_of_not_mem hcolon, String.ofList_toList]

/-- Behind the colons of an alias there is no dot. -/
theorem writtenName_of_alias (hfirst : IsPartName first) (hrest : ∀ n ∈ rest, IsPartName n) :
    writtenName ((first ++ "::") :: rest) = first ++ "::" ++ ".".intercalate rest := by
  have hcolon : ':' ∉ (".".intercalate rest).toList :=
    not_mem_toList_intercalate (by decide) fun n hn => (hrest n hn).2.2
  have hold : "::.".toList = [':', ':', '.'] := rfl
  rw [← String.toList_inj, writtenName, Text.replaceAll, hold, String.toList_ofList]
  cases rest with
  | nil =>
    rw [String.intercalate_singleton, String.toList_append,
      Text.replaceChars_append_of_not_mem hfirst.2.2]
    simp [Text.replaceChars]
  | cons next more =>
    have hjoined : (".".intercalate ((first ++ "::") :: next :: more)).toList
        = first.toList ++ ([':', ':', '.'] ++ (".".intercalate (next :: more)).toList) := by
      simp [String.intercalate_cons_cons]
    rw [hjoined, Text.replaceChars_append_of_not_mem hfirst.2.2, Text.replaceChars_append_self,
      Text.replaceChars_of_not_mem hcolon]
    simp

/-! ### Names that are read back -/

/-- The names that are written in one text: the one that ends in two colons, if there is one, and those
between dots. -/
def namesOf (text : String) : List String :=
  if ':' ∈ text.toList then
    (String.ofList (text.toList.takeWhile (· ≠ ':')) ++ "::") ::
      Namespace.parts (String.ofList ((text.toList.dropWhile (· ≠ ':')).drop 2))
  else Namespace.parts text

theorem parts_intercalate (h : ∀ n ∈ names, IsPartName n) :
    Namespace.parts (".".intercalate names) = names :=
  Namespace.parts_qualifiedName fun n hn => ⟨(h n hn).1, (h n hn).2.1⟩

/-- Names are read back from what is written. -/
theorem namesOf_writtenName (h : AreNames names) : namesOf (writtenName names) = names := by
  cases h with
  | plain h =>
    have hcolon : ':' ∉ (".".intercalate names).toList :=
      not_mem_toList_intercalate (by decide) fun n hn => (h n hn).2.2
    rw [writtenName_of_plain h, namesOf, if_neg hcolon, parts_intercalate h]
  | @aliased first rest hfirst hrest =>
    have hpass : ∀ c ∈ first.toList, decide (c ≠ ':') = true :=
      fun c hc => decide_eq_true fun he => hfirst.2.2 (he ▸ hc)
    have htext : (first ++ "::" ++ ".".intercalate rest).toList
        = first.toList ++ ':' :: ':' :: (".".intercalate rest).toList := by
      rw [String.toList_append, String.toList_append, List.append_assoc]
      rfl
    have htake : (first ++ "::" ++ ".".intercalate rest).toList.takeWhile (· ≠ ':')
        = first.toList := by
      rw [htext, List.takeWhile_append_of_pos hpass]
      exact List.append_nil _
    have hdrop : (first ++ "::" ++ ".".intercalate rest).toList.dropWhile (· ≠ ':')
        = ':' :: ':' :: (".".intercalate rest).toList := by
      rw [htext, List.dropWhile_append_of_pos hpass]
      rfl
    have hcolon : ':' ∈ (first ++ "::" ++ ".".intercalate rest).toList := by
      rw [htext]
      exact List.mem_append_right _ List.mem_cons_self
    rw [writtenName_of_alias hfirst hrest, namesOf, if_pos hcolon, htake, hdrop,
      String.ofList_toList, List.drop_succ_cons, List.drop_succ_cons, List.drop_zero,
      String.ofList_toList, parts_intercalate hrest]

end

/-! ### The types of the chain -/

section

variable {α : Type} {names pending : List String} {name : String} {args : List α}
  {parts : List (String × List α)}

/-- The types that a dotted name becomes, from the outermost one: the name of each is written of the
parts since the last one that had arguments. -/
def runsFrom (pending : List String) : List (String × List α) → List (String × List α)
  | [] => if pending = [] then [] else [(writtenName pending, [])]
  | (name, args) :: rest =>
    if args.isEmpty then runsFrom (pending ++ [name]) rest
    else (writtenName (pending ++ [name]), args) :: runsFrom [] rest

/-- The types that a dotted name becomes. -/
def runs (parts : List (String × List α)) : List (String × List α) :=
  runsFrom [] parts

/-- Only whether a part has arguments matters for the runs, and not what they are. -/
theorem runsFrom_map {β : Type} (f : α → β) (pending : List String)
    (parts : List (String × List α)) :
    runsFrom pending (parts.map (Prod.map id (List.map f)))
      = (runsFrom pending parts).map (Prod.map id (List.map f)) := by
  induction parts generalizing pending with
  | nil =>
    rw [List.map_nil, runsFrom, runsFrom]
    split
    · rfl
    · rfl
  | cons p rest ih =>
    obtain ⟨name, args⟩ := p
    rw [List.map_cons, Prod.map_apply, id, runsFrom, runsFrom, List.isEmpty_map]
    split
    · exact ih _
    · rw [List.map_cons, ih]
      rfl

/-- The parts that a run is written of. The last of them has the arguments. -/
def partsOfRun (run : String × List α) : List (String × List α) :=
  plainParts (namesOf run.1).dropLast ++ ((namesOf run.1).getLast?.map (·, run.2)).toList

theorem partsOfRun_writtenName (h : AreNames (names ++ [name])) (args : List α) :
    partsOfRun (writtenName (names ++ [name]), args) = plainParts names ++ [(name, args)] := by
  rw [partsOfRun, namesOf_writtenName h, List.dropLast_concat, List.getLast?_concat]
  rfl

/-- Runs neither drop a part nor merge two: all are read back from them. -/
theorem flatMap_partsOfRun_runsFrom (h : AreNames (pending ++ parts.map (·.1))) :
    (runsFrom pending parts).flatMap partsOfRun = plainParts pending ++ parts := by
  induction parts generalizing pending with
  | nil =>
    rw [List.map_nil, List.append_nil] at h
    rw [runsFrom, List.append_nil]
    rcases List.eq_nil_or_concat pending with rfl | ⟨front, last, rfl⟩
    · rfl
    · rw [List.concat_eq_append] at h ⊢
      rw [if_neg (List.concat_ne_nil last front), List.flatMap_singleton, partsOfRun_writtenName h,
        plainParts_append]
      rfl
  | cons p rest ih =>
    obtain ⟨name, args⟩ := p
    have hfront : AreNames (pending ++ [name] ++ rest.map (·.1)) := by
      rwa [List.append_assoc, List.singleton_append]
    rw [runsFrom]
    split
    · next hargs =>
      rw [ih hfront, plainParts_append, List.append_assoc, List.isEmpty_iff.mp hargs]
      rfl
    · have hrest : AreNames ([] ++ rest.map (·.1)) := .plain h.behind
      rw [List.flatMap_cons, partsOfRun_writtenName hfront.append_left, ih hrest, List.append_assoc]
      rfl

/-- The types of a dotted name tell its parts. -/
theorem runs_inj {others : List (String × List α)} (h : AreNames (parts.map (·.1)))
    (hothers : AreNames (others.map (·.1))) (he : runs parts = runs others) : parts = others := by
  have hparts : (runs parts).flatMap partsOfRun = parts := @flatMap_partsOfRun_runsFrom α [] parts h
  have hback : (runs others).flatMap partsOfRun = others :=
    @flatMap_partsOfRun_runsFrom α [] others hothers
  rw [← hparts, he, hback]

/-- The arguments of the runs are those of the parts. -/
theorem forall_mem_runsFrom {P : α → Prop} (pending : List String)
    (h : ∀ p ∈ parts, ∀ a ∈ p.2, P a) : ∀ run ∈ runsFrom pending parts, ∀ a ∈ run.2, P a := by
  induction parts generalizing pending with
  | nil =>
    rw [runsFrom]
    split
    · exact List.forall_mem_nil _
    · exact List.forall_mem_singleton.mpr (List.forall_mem_nil _)
  | cons p rest ih =>
    obtain ⟨hp, hrest⟩ := List.forall_mem_cons.mp h
    rw [runsFrom]
    split
    · exact ih _ hrest
    · exact List.forall_mem_cons.mpr ⟨hp, ih [] hrest⟩

theorem runsFrom_ne_nil (h : pending ≠ [] ∨ parts ≠ []) : runsFrom pending parts ≠ [] := by
  induction parts generalizing pending with
  | nil =>
    rw [runsFrom, if_neg (h.resolve_right fun hne => hne rfl)]
    exact List.cons_ne_nil _ _
  | cons p rest ih =>
    rw [runsFrom]
    split
    · exact ih (.inl (List.concat_ne_nil _ _))
    · exact List.cons_ne_nil _ _

end

/-! ### The chain -/

section

variable {table : SymbolTable} {outer : Option Ty} {pending names : List String} {name : String}
  {args : List Ty} {parts : List BoundPart}

/-- Unbound types inside one another, one for each run. -/
def nest (outer : Option Ty) (runs : List BoundPart) : Option Ty :=
  runs.foldl (fun outer run => some (unboundType run.1 run.2 outer)) outer

/-- An unbound name is the chain of its runs. -/
theorem some_unboundFrom (h : outer.isSome = true ∨ pending ≠ [] ∨ parts ≠ []) :
    some (unboundFrom outer pending parts) = nest outer (runsFrom pending parts) := by
  induction parts generalizing outer pending with
  | nil =>
    rw [runsFrom]
    cases pending with
    | cons name rest => rfl
    | nil =>
      cases outer with
      | some t => rfl
      | none => simp at h
  | cons p rest ih =>
    obtain ⟨name, args⟩ := p
    rw [unboundFrom, runsFrom]
    split
    · exact ih (.inr (.inl (List.concat_ne_nil _ _)))
    · exact ih (.inl rfl)

theorem some_unboundName (h : parts ≠ []) : some (unboundName parts) = nest none (runs parts) :=
  some_unboundFrom (.inr (.inr h))

/-- The chain tells its runs. -/
theorem nest_inj {rs others : List BoundPart} (h : nest none rs = nest none others) :
    rs = others := by
  induction rs using List.reverseRecOn generalizing others with
  | nil =>
    rcases List.eq_nil_or_concat others with rfl | ⟨front, last, rfl⟩
    · rfl
    · simp [nest] at h
  | append_singleton front run ih =>
    rcases List.eq_nil_or_concat others with rfl | ⟨front', run', rfl⟩
    · simp [nest] at h
    · rw [List.concat_eq_append, nest, nest, List.foldl_concat, List.foldl_concat] at h
      simp only [unboundType, Option.some.injEq, Ty.named.injEq, TypeHead.unbound.injEq] at h
      obtain ⟨hname, houter, hargs⟩ := h
      rw [List.concat_eq_append, ih houter, Prod.ext hname hargs]

/-! ### How the chain is shown -/

theorem displayList_eq_map (ts : List Ty) : table.displayList ts = ts.map table.display := by
  induction ts with
  | nil => rfl
  | cons t rest ih => rw [SymbolTable.displayList, ih, List.map_cons]

theorem display_unboundType_some (t : Ty) (run : BoundPart) :
    table.display (unboundType run.1 run.2 (some t))
      = table.display t ++ "." ++ shown table run := by
  rw [unboundType, SymbolTable.display, SymbolTable.displayOuter, displayList_eq_map, shown,
    String.append_assoc]

theorem display_unboundType_none (run : BoundPart) :
    table.display (unboundType run.1 run.2 none) = shown table run := by
  rw [unboundType, SymbolTable.display, SymbolTable.displayOuter, displayList_eq_map, shown]

/-- A type around a chain is shown in front of it, with a dot behind. -/
theorem displayOuter_nest_some (t : Ty) (rs : List BoundPart) :
    table.displayOuter (nest (some t) rs)
      = some (".".intercalate (table.display t :: rs.map (shown table))) := by
  induction rs generalizing t with
  | nil => rw [List.map_nil, String.intercalate_singleton, nest, List.foldl_nil, SymbolTable.displayOuter]
  | cons run rest ih =>
    rw [nest, List.foldl_cons, ← nest, ih, display_unboundType_some, List.map_cons]
    cases rest with
    | nil =>
      rw [List.map_nil, String.intercalate_singleton, String.intercalate_cons_cons,
        String.intercalate_singleton]
    | cons next more =>
      rw [List.map_cons, String.intercalate_cons_cons, String.intercalate_cons_cons,
        String.intercalate_cons_cons]
      simp only [String.append_assoc]

/-- A chain is shown as its runs with dots between them. -/
theorem displayOuter_nest {rs : List BoundPart} (h : rs ≠ []) :
    table.displayOuter (nest none rs) = some (".".intercalate (rs.map (shown table))) := by
  obtain ⟨run, rest, rfl⟩ := List.exists_cons_of_ne_nil h
  rw [nest, List.foldl_cons, ← nest, displayOuter_nest_some, display_unboundType_none, List.map_cons]

/-! ### How the parts are written -/

theorem spelled_cons (part : BoundPart) (h : parts ≠ []) :
    spelled table (part :: parts)
      = shown table part ++ divider part.1 ++ spelled table parts := by
  obtain ⟨next, rest, rfl⟩ := List.exists_cons_of_ne_nil h
  rw [spelled]

/-- What is written of a dotted name up to some part stands in front of the rest. -/
theorem spelled_append_cons (front : List BoundPart) (part : BoundPart) (h : parts ≠ []) :
    spelled table (front ++ part :: parts)
      = spelled table (front ++ [part]) ++ divider part.1 ++ spelled table parts := by
  induction front with
  | nil => exact spelled_cons part h
  | cons first front ih =>
    rw [List.cons_append, List.cons_append, spelled_cons first (List.concat_ne_nil _ _),
      spelled_cons first (by simp), ih]
    simp only [String.append_assoc]

theorem endsIn_of_isPartName (h : IsPartName name) : Text.endsIn name "::" = false := by
  rw [Text.endsIn, Bool.eq_false_iff]
  intro hsuffix
  have hmem : ':' ∈ name.toList := (List.isSuffixOf_iff_suffix.mp hsuffix).subset (by decide)
  exact h.2.2 hmem

theorem shown_plain (name : String) : shown table (name, []) = name :=
  String.append_empty

theorem spelled_plainParts (h : ∀ n ∈ names, IsPartName n) (name : String) (args : List Ty) :
    spelled table (plainParts names ++ [(name, args)])
      = ".".intercalate (names ++ [name]) ++ SymbolTable.angled (args.map table.display) := by
  induction names with
  | nil =>
    rw [List.nil_append, String.intercalate_singleton]
    rfl
  | cons first rest ih =>
    obtain ⟨hfirst, hrest⟩ := List.forall_mem_cons.mp h
    have hcons : (plainParts (first :: rest) : List BoundPart) = (first, []) :: plainParts rest := rfl
    obtain ⟨next, more, hmore⟩ := List.exists_cons_of_ne_nil (List.concat_ne_nil name rest)
    rw [hcons, List.cons_append, spelled_cons _ (List.concat_ne_nil _ _), ih hrest, shown_plain,
      divider, endsIn_of_isPartName hfirst, List.cons_append, hmore, String.intercalate_cons_cons]
    simp only [Bool.false_eq_true, ↓reduceIte, String.append_assoc]

/-- Parts of which the last alone may have arguments are written in one. -/
theorem spelled_run (h : AreNames (names ++ [name])) (args : List Ty) :
    spelled table (plainParts names ++ [(name, args)])
      = shown table (writtenName (names ++ [name]), args) := by
  generalize hall : names ++ [name] = all at h
  cases h with
  | plain h =>
    rw [← hall] at h ⊢
    rw [spelled_plainParts (fun n hn => h n (List.mem_append_left _ hn)), shown,
      writtenName_of_plain h]
  | @aliased first rest hfirst hrest =>
    cases names with
    | nil =>
      obtain ⟨rfl, rfl⟩ := List.cons.inj hall
      rw [writtenName_of_alias hfirst hrest, String.intercalate_nil, String.append_empty]
      rfl
    | cons other names =>
      obtain ⟨rfl, rfl : names ++ [name] = rest⟩ := List.cons.inj hall
      have hends : Text.endsIn (first ++ "::") "::" = true := by
        rw [Text.endsIn, String.toList_append]
        exact List.isSuffixOf_iff_suffix.mpr (List.suffix_append _ _)
      have hcons : (plainParts ((first ++ "::") :: names) : List BoundPart)
        = (first ++ "::", []) :: plainParts names := rfl
      rw [hcons, List.cons_append, spelled_cons _ (List.concat_ne_nil _ _),
        spelled_plainParts (fun n hn => hrest n (List.mem_append_left _ hn)), shown_plain, divider,
        if_pos hends, String.append_empty, shown, writtenName_of_alias hfirst hrest]
      simp only [String.append_assoc]

/-- **The runs are shown as the parts are written.** -/
theorem spelled_eq (h : AreNames (pending ++ parts.map (·.1)))
    (hbare : ∀ p ∈ parts, Text.endsIn p.1 "::" = true → p.2 = []) :
    spelled table (plainParts pending ++ parts)
      = ".".intercalate ((runsFrom pending parts).map (shown table)) := by
  induction parts generalizing pending with
  | nil =>
    rw [List.map_nil, List.append_nil] at h
    rw [runsFrom, List.append_nil]
    rcases List.eq_nil_or_concat pending with rfl | ⟨front, last, rfl⟩
    · rfl
    · rw [List.concat_eq_append] at h ⊢
      rw [if_neg (List.concat_ne_nil last front), List.map_singleton, String.intercalate_singleton,
        ← spelled_run h, plainParts_append]
      rfl
  | cons p rest ih =>
    obtain ⟨name, args⟩ := p
    have hbare' := fun p hp => hbare p (List.mem_cons_of_mem _ hp)
    have hfront : AreNames (pending ++ [name] ++ rest.map (·.1)) := by
      rwa [List.append_assoc, List.singleton_append]
    rw [runsFrom]
    split
    · next hargs =>
      rw [← ih hfront hbare', plainParts_append, List.append_assoc, List.isEmpty_iff.mp hargs]
      rfl
    · next hargs =>
      have hrest : AreNames ([] ++ rest.map (·.1)) := .plain h.behind
      have hdot : divider name = "." := by
        exact if_neg fun hends =>
          hargs (List.isEmpty_iff.mpr (hbare (name, args) List.mem_cons_self hends))
      rw [List.map_cons, ← spelled_run hfront.append_left]
      cases rest with
      | nil => rw [runsFrom, if_pos rfl, List.map_nil, String.intercalate_singleton]
      | cons next more =>
        obtain ⟨run, runs, hruns⟩ := List.exists_cons_of_ne_nil
          (@runsFrom_ne_nil Ty [] (next :: more) (.inr (List.cons_ne_nil _ _)))
        have hback := ih hrest hbare'
        rw [hruns, List.map_cons] at hback
        rw [spelled_append_cons _ _ (List.cons_ne_nil _ _), hdot, hruns, List.map_cons,
          String.intercalate_cons_cons, ← hback]
        rfl

/-! ### Generic names -/

theorem isGeneric_unboundFrom (outer : Option Ty) (pending : List String) (parts : List BoundPart) :
    (unboundFrom outer pending parts).isGeneric
      = (outer.any Ty.isGeneric || parts.any fun p => !p.2.isEmpty) := by
  have htype : ∀ (name : String) (args : List Ty) (outer : Option Ty),
      (unboundType name args outer).isGeneric = (!args.isEmpty || outer.any Ty.isGeneric) := by
    intro name args outer
    cases outer with
    | none => rw [unboundType, Ty.isGeneric, Option.any_none, Bool.or_false]
    | some t => rw [unboundType, Ty.isGeneric, Option.any_some]
  induction parts generalizing outer pending with
  | nil =>
    rw [List.any_nil, Bool.or_false]
    cases pending with
    | cons name rest => exact htype _ [] outer
    | nil =>
      cases outer with
      | some t => rfl
      | none => exact htype _ [] none
  | cons p rest ih =>
    obtain ⟨name, args⟩ := p
    rw [unboundFrom, List.any_cons]
    split
    · next hargs =>
      rw [ih, hargs]
      rfl
    · next hargs =>
      rw [ih, Option.any_some, htype, Bool.or_comm (!args.isEmpty), Bool.or_assoc]

end

/-! ### Unbound names -/

section

open Interning (Reads Ref Shape Store answered_intern reads_empty typeOf)

/-- The unbound name of some parts as an object: its chain, made through the intern tables. -/
def internUnbound (s : Store) (parts : List (String × List Ref)) : Store × Option Ref :=
  s.nestUnbound none (runs parts)

/-- The objects of a chain stand for the chain of their terms. -/
theorem reads_nestUnbound {s : Store} {table : SymbolTable} {terms : List Ty} {outer : Option Ref}
    {chain : List (String × List Ref)} (hs : s.Canonical) (h : Reads s table terms)
    (houter : ∀ r ∈ outer, s.Valid r) (hchain : ∀ run ∈ chain, ∀ r ∈ run.2, s.Valid r) :
    ∃ terms', Reads (s.nestUnbound outer chain).1 table terms' ∧
      (s.nestUnbound outer chain).2.map (typeOf table terms')
        = nest (outer.map (typeOf table terms))
            (chain.map (Prod.map id (List.map (typeOf table terms)))) := by
  induction chain generalizing s terms outer with
  | nil => exact ⟨terms, h, rfl⟩
  | cons run rest ih =>
    obtain ⟨name, args⟩ := run
    obtain ⟨hargs, hrest⟩ := List.forall_mem_cons.mp hchain
    have hparts : ∀ r ∈ (Shape.unbound outer name args).parts, s.Valid r := fun r hr =>
      (List.mem_append.mp hr).elim (fun hr => houter r (Option.mem_toList.mp hr)) (hargs r)
    have hnormal : s.Normal (.unbound outer name args) := trivial
    obtain ⟨terms', hmade⟩ := answered_intern hs h hnormal hparts
    have hterm : typeOf table terms' (s.intern (.unbound outer name args)).2
        = unboundType name (args.map (typeOf table terms)) (outer.map (typeOf table terms)) := by
      rw [hmade.reads.typeOf_eq (Store.intern_shape? hs _)]
      exact Reads.shape_type_congr (fun _ _ => rfl) fun r hr => hmade.stable r (hparts r hr)
    have hkept : rest.map (Prod.map id (List.map (typeOf table terms')))
        = rest.map (Prod.map id (List.map (typeOf table terms))) :=
      List.map_congr_left fun run hrun =>
        Prod.ext rfl (List.map_congr_left fun r hr => hmade.stable r (hrest run hrun r hr))
    obtain ⟨last, hreads, hlast⟩ := ih hmade.canonical hmade.reads
      (fun r hr => Option.mem_some.mp hr ▸ hmade.valid)
      fun run hrun r hr => hmade.grows.valid (hrest run hrun r hr)
    refine ⟨last, hreads, hlast.trans ?_⟩
    rw [hkept, Option.map_some, hterm]
    rfl

/-- **Names without a meaning keep their spelling.** For the parts of any dotted name, with any
arguments:

* the unbound name is shown as the parts are written: in order, each with its arguments in angle
  brackets, with dots between them and none behind two colons;
* it is generic exactly if some part has arguments;
* two unbound names are one type exactly if they have the same names with the same arguments;
* as objects that are made through the same intern tables, whatever else is made before and between,
  they are one exactly then;
* and such an object stands for the unbound name of the terms that its arguments stand for. -/
theorem unboundName_written {parts : List BoundPart} (h : IsDotted parts) :
    (∀ table : SymbolTable, table.display (unboundName parts) = spelled table parts) ∧
    ((unboundName parts).isGeneric = true ↔ ∃ p ∈ parts, p.2 ≠ []) ∧
    (∀ others : List BoundPart, IsDotted others →
      (unboundName parts = unboundName others ↔ parts = others)) ∧
    (∀ ps qs : List (String × List Ref), IsDotted ps → IsDotted qs →
      ∀ s t : Store, s.Canonical → t.Canonical → Store.Extends (internUnbound s ps).1 t →
        ((internUnbound s ps).2 = (internUnbound t qs).2 ↔ ps = qs)) ∧
    (∀ ps : List (String × List Ref), IsDotted ps →
      ∀ (s : Store) (table : SymbolTable) (terms : List Ty), s.Canonical → Reads s table terms →
        (∀ p ∈ ps, ∀ r ∈ p.2, s.Valid r) →
          ∃ terms', Reads (internUnbound s ps).1 table terms' ∧
            (internUnbound s ps).2.map (typeOf table terms')
              = some (unboundName (ps.map (Prod.map id (List.map (typeOf table terms)))))) := by
  refine ⟨fun table => ?_, ?_, fun others hothers => ⟨fun he => ?_, fun he => he ▸ rfl⟩,
    fun ps qs hps hqs s t hs ht hst => ?_, fun ps hps s table terms hs hreads hvalid => ?_⟩
  · have hruns : runs parts ≠ [] := runsFrom_ne_nil (.inr h.ne_nil)
    have hshown := @displayOuter_nest table (runs parts) hruns
    rw [← some_unboundName h.ne_nil, SymbolTable.displayOuter, Option.some.injEq] at hshown
    rw [hshown]
    exact (@spelled_eq table [] parts h.names h.bare).symm
  · rw [unboundName, isGeneric_unboundFrom, Option.any_none, Bool.false_or, List.any_eq_true]
    simp only [Bool.not_eq_true', List.isEmpty_eq_false_iff]
  · refine runs_inj h.names hothers.names (nest_inj ?_)
    rw [← some_unboundName h.ne_nil, ← some_unboundName hothers.ne_nil, he]
  · rw [internUnbound, internUnbound, Store.nestUnbound_eq_iff hs ht hst]
    exact ⟨runs_inj hps.names hqs.names, fun he => he ▸ rfl⟩
  · have hnone : ∀ r ∈ (none : Option Ref), s.Valid r := fun r hr => by cases hr
    obtain ⟨terms', hkept, hterm⟩ :=
      reads_nestUnbound hs hreads hnone (forall_mem_runsFrom [] hvalid)
    refine ⟨terms', hkept, hterm.trans ?_⟩
    rw [some_unboundName (List.map_eq_nil_iff.not.mpr hps.ne_nil), runs, runsFrom_map]
    rfl

/-- Parts behind an alias, the second but last of which alone has an argument. -/
def aliasedParts {α : Type} (argument : α) : List (String × List α) :=
  [("global::", []), ("A", []), ("B", [argument]), ("C", [])]

theorem isDotted_aliasedParts {α : Type} (argument : α) : IsDotted (aliasedParts argument) := by
  refine ⟨List.cons_ne_nil _ _, ?_, ?_⟩
  · have hnames : AreNames (("global" ++ "::") :: ["A", "B", "C"]) :=
      .aliased (by decide) (by decide)
    exact hnames
  · intro p hp hends
    simp only [aliasedParts, List.mem_cons, List.not_mem_nil, or_false] at hp
    rcases hp with rfl | rfl | rfl | rfl
    · rfl
    · rfl
    · exact absurd (show Text.endsIn "B" "::" = true from hends) (by decide)
    · rfl

theorem aliasedParts_written :
    IsDotted (aliasedParts Ty.dynamic) ∧
    (∀ table : SymbolTable,
      table.display (unboundName (aliasedParts .dynamic)) = "global::A.B<dynamic>.C") ∧
    (unboundName (aliasedParts .dynamic)).isGeneric = true ∧
    unboundName (aliasedParts .dynamic) ≠ unboundName (aliasedParts (.pointer .dynamic)) ∧
    (internUnbound {} (aliasedParts .dynamic)).2
      = (internUnbound (internUnbound {} (aliasedParts .dynamic)).1 (aliasedParts .dynamic)).2 ∧
    ∃ terms, (internUnbound {} (aliasedParts .dynamic)).2.map (typeOf {} terms)
      = some (unboundName (aliasedParts .dynamic)) := by
  have hdotted := isDotted_aliasedParts Ty.dynamic
  have hobjects := isDotted_aliasedParts Ref.dynamic
  have hcanonical := (Store.nested_nestUnbound Store.canonical_empty
    (show Store.Nested {} [] none from rfl) (runs (aliasedParts Ref.dynamic))).1
  obtain ⟨hshown, hgeneric, hterms, hinterned, hread⟩ := unboundName_written hdotted
  refine ⟨hdotted, fun table => (hshown table).trans ?_, hgeneric.mpr ?_, fun he => ?_, ?_, ?_⟩
  · rfl
  · exact ⟨("B", [.dynamic]), by simp [aliasedParts], by simp⟩
  · have hsame := (hterms _ (isDotted_aliasedParts _)).mp he
    simp [aliasedParts] at hsame
  · exact (hinterned _ _ hobjects hobjects {} _ Store.canonical_empty hcanonical
      (Store.Extends.refl _)).mpr rfl
  · have hvalid : ∀ p ∈ aliasedParts Ref.dynamic, ∀ r ∈ p.2, Store.Valid {} r := by
      simp [aliasedParts, Store.Valid]
    obtain ⟨terms, -, hterm⟩ :=
      hread _ hobjects {} {} [] Store.canonical_empty reads_empty hvalid
    exact ⟨terms, hterm⟩

end

end ExtensionCensus.Binding.Outline
