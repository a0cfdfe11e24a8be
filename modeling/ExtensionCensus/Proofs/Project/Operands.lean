import ExtensionCensus.Proofs.Project.Alternatives

/-!
# Operands of comparisons

Which texts a comparison can compare.

* `Operands` — two texts without single quotes, with white space around the parts of their comparison;
* `exists_cut` — a text with an operator in it is cut, whatever stands around it;
* `Operands.exists_joint` — then the sign of the comparison stands in a piece that has lost one of the
  operands;
* `Operands.exists_holds_joint` — no such piece is read as a comparison, and its sign does not matter;
* `holds_operands_iff` — **a comparison has the value that it means, with either sign and whatever files
  there are, exactly if no operator stands in its operands**.
-/

namespace ExtensionCensus.Condition

/-! ### Where a text is cut -/

/-- A text begins with white space, the word of an operator and further white space. -/
def LeadsWithOperator (cs : List Char) : Prop :=
  ∃ (op : Operator) (space word : List Char) (b : Char) (rest : List Char),
    cs = space ++ (word ++ b :: rest) ∧ (space ≠ [] ∧ ∀ c ∈ space, Text.isBlank c = true) ∧
      word.map small = op.word.toList ∧ Text.isBlank b = true

theorem operator?_of_not_leads {cs : List Char} {q : Char} (h : ¬LeadsWithOperator cs) (hq : Bars q)
    (rest : List Char) : operator? (cs ++ q :: rest) = none := by
  rw [Option.eq_none_iff_forall_ne_some]
  intro found hfound
  obtain ⟨op, space, word, a, b, more, hsplit, hspace, hword, hb⟩ := operator?_eq_some hfound
  have hwhole : (space ++ [a] ++ (word ++ [b])) ++ more = cs ++ q :: rest := by
    rw [hsplit]
    simp
  obtain ⟨tail, htail⟩ := exists_append_of_not_mem (hq.not_mem hspace hword hb) hwhole
  apply h
  exact ⟨op, space ++ [a], word, b, tail, by rw [htail]; simp, ⟨by simp, hspace⟩, hword, hb⟩

theorem Unjoined.cons {c : Char} {cs : List Char} (hstart : ¬LeadsWithOperator (c :: cs))
    (h : Unjoined cs) : Unjoined (c :: cs) := by
  intro op front word rest a b hcs ha hb hword
  cases front with
  | nil =>
    rw [List.nil_append] at hcs
    apply hstart
    exact ⟨op, [a], word, b, rest, hcs, ⟨by simp, by simpa using ha⟩, hword, hb⟩
  | cons first front =>
    rw [List.cons_append] at hcs
    exact h op front word rest a b (List.cons.inj hcs).2 ha hb hword

/-- An operator at the start of a text is cut out, with all the white space around it. -/
theorem LeadsWithOperator.cut {cs : List Char} {q : Char} (h : LeadsWithOperator cs) (hq : Bars q) :
    ∃ op more, (more.length < cs.length ∧ ∀ c ∈ more, c ∈ cs) ∧ ∀ before term rest,
      cutTerms before 0 term (cs ++ q :: rest) =
        (before, term.reverse) :: cutTerms op 0 [] (more ++ q :: rest) := by
  obtain ⟨op, space, word, b, tail, rfl, hspace, hword, hb⟩ := h
  have hsplit := List.takeWhile_append_dropWhile (p := Text.isBlank) (l := tail)
  have hafter : ∀ c ∈ b :: tail.takeWhile Text.isBlank, Text.isBlank c = true :=
    List.forall_mem_cons.mpr ⟨hb, fun c hc => List.mem_takeWhile_imp hc⟩
  have hlength : (tail.dropWhile Text.isBlank).length ≤ tail.length :=
    (List.dropWhile_suffix Text.isBlank).length_le
  refine ⟨op, tail.dropWhile Text.isBlank, ⟨?_, fun c hc => ?_⟩, fun before term rest => ?_⟩
  · simp only [List.length_append, List.length_cons]
    omega
  · have := (List.dropWhile_suffix Text.isBlank).subset hc
    simp [this]
  · -- What follows the white space behind the operator is not blank: the text goes on, or the bar does.
    have hnext : ∃ c more, tail.dropWhile Text.isBlank ++ q :: rest = c :: more ∧
        Text.isBlank c = false := by
      cases hmore : tail.dropWhile Text.isBlank with
      | nil => exact ⟨q, rest, rfl, hq.1⟩
      | cons c more =>
        refine ⟨c, more ++ q :: rest, rfl, ?_⟩
        have hhead := List.head?_dropWhile_not Text.isBlank tail
        rw [hmore] at hhead
        simpa using hhead
    obtain ⟨c, more, hmore, hc⟩ := hnext
    have hwhole : space ++ (word ++ b :: tail) ++ q :: rest =
        space ++ (word ++ (b :: tail.takeWhile Text.isBlank ++ c :: more)) := by
      rw [← hmore, ← List.append_assoc (b :: _), List.cons_append, hsplit]
      simp
    rw [hwhole, cutTerms_joint hspace hword ⟨by simp, hafter⟩ hc, hmore]

/-- **A text with an operator in it is cut**, however much was read before it and whatever follows the bar
at its end. The pieces at its two ends lie in it. -/
theorem exists_cut {cs : List Char} {q : Char} (hq : Bars q) (h : ¬Unjoined cs) :
    ∃ (start : List Char) (done : List (Operator × List Char)) (op : Operator) (piece : List Char),
      (∀ before term rest, cutTerms before 0 term (cs ++ q :: rest) =
        (before, term.reverse ++ start) :: (done ++ cutTerms op 0 (q :: piece) rest)) ∧
      (∀ c ∈ start, c ∈ cs) ∧ ∀ c ∈ piece, c ∈ cs := by
  induction hn : cs.length using Nat.strongRecOn generalizing cs with
  | ind n ih =>
    by_cases hstart : LeadsWithOperator cs
    · obtain ⟨op, more, ⟨hlength, hmem⟩, hcut⟩ := hstart.cut hq
      by_cases hmore : Unjoined more
      · refine ⟨[], [], op, more.reverse, fun before term rest => ?_, List.forall_mem_nil _,
          fun c hc => ?_⟩
        · rw [hcut, cutTerms_of_unjoined hmore hq]
          simp
        · exact hmem c (List.mem_reverse.mp hc)
      · obtain ⟨start, done, last, piece, hrest, -, hpiece⟩ := ih more.length (by omega) hmore rfl
        refine ⟨[], (op, start) :: done, last, piece, fun before term rest => ?_, List.forall_mem_nil _,
          fun c hc => ?_⟩
        · rw [hcut, hrest]
          simp
        · exact hmem c (hpiece c hc)
    · cases cs with
      | nil => exact absurd unjoined_nil h
      | cons c cs =>
        obtain ⟨start, done, op, piece, hrest, hmem, hpiece⟩ :=
          ih cs.length (by simp [← hn]) (fun hcs => h (hcs.cons hstart)) rfl
        refine ⟨c :: start, done, op, piece, fun before term rest => ?_, ?_, fun d hd => ?_⟩
        · have hnone := operator?_of_not_leads hstart hq rest
          rw [List.cons_append] at hnone ⊢
          rw [cutTerms_of_none hnone, hrest]
          simp
        · rw [List.forall_mem_cons]
          exact ⟨List.mem_cons_self, fun d hd => List.mem_cons_of_mem _ (hmem d hd)⟩
        · exact List.mem_cons_of_mem _ (hpiece d hd)

/-! ### Comparisons of any texts -/

/-- Two texts without single quotes, and the white space around the parts of their comparison. -/
structure Operands where
  front : Space
  left : String
  leftPlain : '\'' ∉ left.toList
  beforeSign : Space
  afterSign : Space
  right : String
  rightPlain : '\'' ∉ right.toList
  back : Space

namespace Operands

variable (o : Operands)

/-- The sign of a comparison with the white space around it. -/
def between (equal : Bool) : List Char :=
  o.beforeSign.chars ++ ((if equal then ['=', '='] else ['!', '=']) ++ o.afterSign.chars)

/-- The comparison without the white space around it. -/
def body (equal : Bool) : List Char :=
  '\'' :: (o.left.toList ++ '\'' :: (o.between equal ++ '\'' :: (o.right.toList ++ ['\''])))

/-- The text of the comparison. -/
def text (equal : Bool) : String :=
  String.ofList (o.front.chars ++ o.body equal ++ o.back.chars)

/-- What the comparison says. -/
def answer (equal : Bool) : Bool :=
  (comparable o.left = comparable o.right) == equal

/-- No operator stands in either operand. -/
def AreUnjoined : Prop :=
  Unjoined o.left.toList ∧ Unjoined o.right.toList

theorem terms_text (equal : Bool) : terms (o.text equal) = cutTerms .both 0 [] (o.body equal) := by
  have htrim : Text.trimChars (o.front.chars ++ o.body equal ++ o.back.chars) = o.body equal := by
    apply Text.trimChars_append o.front.blank o.back.blank
    · intro c hc
      exact Option.mem_some_iff.mp hc ▸ by decide
    · intro c hc
      have hlast : o.body equal = ('\'' :: (o.left.toList ++ '\'' :: (o.between equal ++
          '\'' :: o.right.toList))) ++ ['\''] := by
        simp [body]
      rw [hlast, List.getLast?_concat] at hc
      exact Option.mem_some_iff.mp hc ▸ by decide
  have houter : withoutOuter (o.body equal) = o.body equal := by
    rw [withoutOuter, dif_neg]
    rintro ⟨hopening, -⟩
    exact absurd (Option.some.inj hopening) (by decide)
  rw [terms, text, String.toList_ofList, htrim, houter]

theorem unjoined_between (equal : Bool) : Unjoined (o.between equal) := by
  have hafter : Unjoined o.afterSign.chars := unjoined_of_blank o.afterSign.blank
  cases equal with
  | true => exact o.beforeSign.unjoined (by decide) (unjoined_nil.append (by decide) hafter)
  | false => exact o.beforeSign.unjoined (by decide) (unjoined_nil.append (by decide) hafter)

theorem plain_between (equal : Bool) : '\'' ∉ o.between equal := by
  have hbefore := o.beforeSign.not_mem (c := '\'') (by decide)
  have hafter := o.afterSign.not_mem (c := '\'') (by decide)
  cases equal with
  | true => simp [between, hbefore, hafter]
  | false => simp [between, hbefore, hafter]

/-- **The piece with the sign has lost an operand** if an operator stands in one: the four quotes of the
comparison are no longer together, and what is in front of the last two has at most the first of them, at
its start. All other pieces are the same for both signs. -/
theorem exists_joint (h : ¬o.AreUnjoined) :
    ∃ (before : List (Operator × List Char)) (op : Operator) (x y : List Char)
      (after : List (Operator × List Char)),
      (∀ equal, terms (o.text equal) =
        before ++ (op, x ++ '\'' :: (o.between equal ++ '\'' :: y)) :: after) ∧
      '\'' ∉ x.tail ∧ x.count '\'' + y.count '\'' ≤ 1 := by
  have hbar : Bars '\'' := by decide
  have hfirst (rest : List Char) :
      cutTerms .both 0 [] ('\'' :: rest) = cutTerms .both 0 ['\''] rest := by
    simpa using cutTerms_of_unjoined unjoined_nil hbar .both [] rest
  have hright (cs : List Char) (hcs : ∀ c ∈ cs, c ∈ o.right.toList) : cs.count '\'' = 0 :=
    List.count_eq_zero.mpr fun hq => o.rightPlain (hcs _ hq)
  by_cases hleft : Unjoined o.left.toList
  · obtain ⟨start, done, op, piece, hcut, hstart, -⟩ := exists_cut hbar fun hr => h ⟨hleft, hr⟩
    refine ⟨[], .both, '\'' :: o.left.toList, start, done ++ cutTerms op 0 ('\'' :: piece) [],
      fun equal => ?_, o.leftPlain, ?_⟩
    · rw [terms_text, body, hfirst, cutTerms_of_unjoined hleft hbar,
        cutTerms_of_unjoined (o.unjoined_between equal) hbar, hcut]
      simp
    · rw [List.count_cons_self, List.count_eq_zero.mpr o.leftPlain, hright start hstart]
  · obtain ⟨start, done, op, piece, hcut, -, hpiece⟩ := exists_cut hbar hleft
    have hplain : '\'' ∉ piece.reverse := fun hq => o.leftPlain (hpiece _ (List.mem_reverse.mp hq))
    have htail : '\'' ∉ piece.reverse.tail := fun hq => hplain (List.mem_of_mem_tail hq)
    by_cases hr : Unjoined o.right.toList
    · refine ⟨(.both, '\'' :: start) :: done, op, piece.reverse, o.right.toList ++ ['\''], [],
        fun equal => ?_, htail, ?_⟩
      · rw [terms_text, body, hfirst, hcut, cutTerms_of_unjoined (o.unjoined_between equal) hbar,
          cutTerms_of_unjoined hr hbar, cutTerms_nil]
        simp
      · rw [List.count_eq_zero.mpr hplain, List.count_append, hright _ fun _ => id]
        rfl
    · obtain ⟨start', done', op', piece', hcut', hstart', -⟩ := exists_cut hbar hr
      refine ⟨(.both, '\'' :: start) :: done, op, piece.reverse, start',
        done' ++ cutTerms op' 0 ('\'' :: piece') [], fun equal => ?_, htail, ?_⟩
      · rw [terms_text, body, hfirst, hcut, cutTerms_of_unjoined (o.unjoined_between equal) hbar, hcut']
        simp
      · rw [List.count_eq_zero.mpr hplain, hright start' hstart']
        omega

end Operands

/-! ### Pieces that have lost an operand -/

/-- Characters of a class are dropped in front of one that is not in it. -/
theorem dropWhile_append_cons {p : Char → Bool} {c : Char} (hc : p c = false) (cs rest : List Char) :
    (cs ++ c :: rest).dropWhile p = cs.dropWhile p ++ c :: rest := by
  induction cs with
  | nil => rw [List.nil_append, List.dropWhile_cons_of_neg (by simp [hc])]; rfl
  | cons d cs ih =>
    by_cases hd : p d = true
    · rw [List.cons_append, List.dropWhile_cons_of_pos hd, ih, List.dropWhile_cons_of_pos hd]
    · rw [List.cons_append, List.dropWhile_cons_of_neg hd, List.dropWhile_cons_of_neg hd,
        List.cons_append]

/-- And they are dropped behind it. -/
theorem dropWhile_end_append_cons {p : Char → Bool} {c : Char} (hc : p c = false)
    (cs rest : List Char) : ((cs ++ c :: rest).reverse.dropWhile p).reverse =
      cs ++ c :: (rest.reverse.dropWhile p).reverse := by
  have hreverse : (cs ++ c :: rest).reverse = rest.reverse ++ c :: cs.reverse := by simp
  rw [hreverse, dropWhile_append_cons hc]
  simp

/-- What a term keeps of the text in front of a character that stays. -/
def bareFront (cs : List Char) : List Char :=
  ((cs.dropWhile Text.isBlank).dropWhile isParenthesis).dropWhile Text.isBlank

/-- What a term keeps of the text behind a character that stays. -/
def bareBack (cs : List Char) : List Char :=
  Text.dropBlankEnd ((Text.dropBlankEnd cs).reverse.dropWhile isParenthesis).reverse

theorem bareFront_isSuffix (cs : List Char) : bareFront cs <:+ cs :=
  ((List.dropWhile_suffix _).trans (List.dropWhile_suffix _)).trans (List.dropWhile_suffix _)

theorem bareBack_isPrefix (cs : List Char) : bareBack cs <+: cs := by
  have hdrop (p : Char → Bool) (es : List Char) : (es.reverse.dropWhile p).reverse <+: es := by
    rw [← List.reverse_suffix, List.reverse_reverse]
    exact List.dropWhile_suffix p
  exact ((hdrop _ _).trans (hdrop _ _)).trans (hdrop _ _)

/-- A term keeps what stands between two characters that stay. -/
theorem bareTerm_around {c : Char} (hc : IsSolid c) (x m y : List Char) :
    bareTerm (x ++ c :: (m ++ c :: y)) = bareFront x ++ c :: (m ++ c :: bareBack y) := by
  have hfront {p : Char → Bool} (hp : p c = false) (cs es : List Char) :
      (cs ++ c :: (m ++ c :: es)).dropWhile p = cs.dropWhile p ++ c :: (m ++ c :: es) :=
    dropWhile_append_cons hp cs _
  have hback {p : Char → Bool} (hp : p c = false) (cs es : List Char) :
      ((cs ++ c :: (m ++ c :: es)).reverse.dropWhile p).reverse =
        cs ++ c :: (m ++ c :: (es.reverse.dropWhile p).reverse) := by
    simpa using dropWhile_end_append_cons hp (cs ++ c :: m) es
  rw [bareTerm, Text.trimChars, Text.trimChars, Text.dropBlankEnd, Text.dropBlankEnd, hfront hc.1,
    hback hc.1, hfront hc.2, hback hc.2, hfront hc.1, hback hc.1]
  rfl

/-- Each text in quotes has two of them. -/
theorem count_of_quoted? {cs text rest : List Char} (h : quoted? cs = some (text, rest)) :
    rest.count '\'' + 2 ≤ cs.count '\'' := by
  unfold quoted? at h
  split at h
  · next cs =>
    split at h
    · next q rest' heq =>
      cases h
      have hq : q = '\'' := by
        have hhead := List.head?_dropWhile_not (· ≠ '\'') cs
        rw [heq] at hhead
        simpa using hhead
      have hcount := (List.dropWhile_suffix (· ≠ '\'') (l := cs)).sublist.count_le '\''
      rw [heq, hq, List.count_cons_self] at hcount
      rw [List.count_cons_self]
      omega
    · cases h
  · cases h

theorem count_of_comparison? {cs : List Char} {t : Term} (h : comparison? cs = some t) :
    4 ≤ cs.count '\'' := by
  have hdrop (es : List Char) : (es.dropWhile Text.isBlank).count '\'' ≤ es.count '\'' :=
    (List.dropWhile_suffix _).sublist.count_le _
  rw [comparison?] at h
  split at h
  · cases h
  · next left rest hleft =>
    have hfirst := count_of_quoted? hleft
    have hrest := hdrop rest
    simp only at h
    split at h
    · cases h
    · next equal more hfound =>
      have hmore : more.count '\'' ≤ (rest.dropWhile Text.isBlank).count '\'' := by
        split at hfound
        · next heq =>
          cases hfound
          simp [heq]
        · next heq =>
          cases hfound
          simp [heq]
        · cases hfound
      split at h
      · next right last hright =>
        have hsecond := count_of_quoted? hright
        have hlast := hdrop more
        omega
      · cases h

/-- A word is found, or not, in front of the first quote. -/
theorem afterWord?_append_quote {word : List Char} (hword : ∀ w ∈ word, '\'' ∉ spellings w)
    (cs rest : List Char) : afterWord? word (cs ++ '\'' :: rest) =
      (afterWord? word cs).map (· ++ '\'' :: rest) := by
  induction word generalizing cs with
  | nil => simp [afterWord?]
  | cons w word ih =>
    rw [List.forall_mem_cons] at hword
    cases cs with
    | nil =>
      have hnone : afterWord? (w :: word) ('\'' :: rest) = none := by
        rw [afterWord?, if_neg (by simpa using hword.1)]
      rw [List.nil_append, hnone]
      rfl
    | cons c cs =>
      rw [List.cons_append, afterWord?, afterWord?, ih hword.2]
      split
      · rfl
      · rfl

/-- What is asked about a file, once the sign in front of the question is read. -/
def questionBehind? (present : Bool) (body : List Char) : Option Term :=
  match afterWord? "exists(".toList body with
  | none => none
  | some inside =>
    match quoted? (inside.dropWhile Text.isBlank) with
    | none => none
    | some (path, rest) =>
      match rest.dropWhile Text.isBlank with
      | ')' :: after =>
        if after.all Text.isBlank then some (.file (String.ofList path) present) else none
      | _ => none

theorem fileQuestion?_sign (cs : List Char) :
    fileQuestion? ('!' :: cs) = questionBehind? false (cs.dropWhile Text.isBlank) := by
  rfl

theorem fileQuestion?_of_ne {c : Char} (hc : c ≠ '!') (cs : List Char) :
    fileQuestion? (c :: cs) = questionBehind? true (c :: cs) := by
  unfold fileQuestion?
  split
  next present body hbody =>
  split at hbody
  · next heq => exact absurd (List.cons.inj heq).1 hc
  · cases hbody
    rfl

/-- A question about a file does not depend on the path between its quotes, nor does whether it is
one. -/
theorem exists_questionBehind? {x : List Char} (hx : '\'' ∉ x) (present : Bool) (y : List Char) :
    ∃ asked : Option Bool, ∀ m, '\'' ∉ m →
      questionBehind? present (x ++ '\'' :: (m ++ '\'' :: y)) = asked.map (.file (String.ofList m)) := by
  have hletters : ∀ w ∈ "exists(".toList, '\'' ∉ spellings w :=
    List.forall_iff_forall_mem.mp (by decide)
  have hword (m : List Char) := afterWord?_append_quote hletters x (m ++ '\'' :: y)
  cases hinside : afterWord? "exists(".toList x with
  | none =>
    refine ⟨none, fun m _ => ?_⟩
    rw [questionBehind?, hword, hinside]
    rfl
  | some inside =>
    have hplain : '\'' ∉ inside.dropWhile Text.isBlank := fun hq =>
      hx ((suffix_of_afterWord? hinside).subset ((List.dropWhile_suffix _).subset hq))
    cases hskip : inside.dropWhile Text.isBlank with
    | cons c more =>
      -- Something stands between the parenthesis and the quote.
      refine ⟨none, fun m _ => ?_⟩
      have hc : c ≠ '\'' := by
        rintro rfl
        exact hplain (hskip ▸ List.mem_cons_self)
      rw [questionBehind?, hword, hinside, Option.map_some]
      simp only [dropWhile_append_cons (by decide : Text.isBlank '\'' = false), hskip,
        List.cons_append, quoted?_of_ne hc]
      rfl
    | nil =>
      refine ⟨match y.dropWhile Text.isBlank with
        | ')' :: after => if after.all Text.isBlank then some present else none
        | _ => none, fun m hm => ?_⟩
      rw [questionBehind?, hword, hinside, Option.map_some]
      simp only [dropWhile_append_cons (by decide : Text.isBlank '\'' = false), hskip,
        List.nil_append]
      rw [quoted?_plain hm]
      simp only
      split
      · split
        · rfl
        · rfl
      · rfl

/-- The same of the whole question, if a quote in front of the path can only stand at the start. -/
theorem exists_fileQuestion? {x : List Char} (hx : '\'' ∉ x.tail) (y : List Char) :
    ∃ asked : Option Bool, ∀ m, '\'' ∉ m →
      fileQuestion? (x ++ '\'' :: (m ++ '\'' :: y)) = asked.map (.file (String.ofList m)) := by
  have hquote (cs : List Char) : fileQuestion? ('\'' :: cs) = none := by rfl
  cases x with
  | nil => exact ⟨none, fun m _ => hquote _⟩
  | cons c z =>
    by_cases hsign : c = '!'
    · subst hsign
      obtain ⟨asked, hasked⟩ := exists_questionBehind? (x := z.dropWhile Text.isBlank)
        (fun hq => hx ((List.dropWhile_suffix _).subset hq)) false y
      refine ⟨asked, fun m hm => ?_⟩
      rw [List.cons_append, fileQuestion?_sign, dropWhile_append_cons (by decide), hasked m hm]
    · by_cases hc : c = '\''
      · subst hc
        exact ⟨none, fun m _ => hquote _⟩
      · have hplain : '\'' ∉ c :: z := by
          rw [List.mem_cons, not_or]
          exact ⟨Ne.symm hc, hx⟩
        obtain ⟨asked, hasked⟩ := exists_questionBehind? hplain true y
        refine ⟨asked, fun m hm => ?_⟩
        rw [← hasked m hm, List.cons_append, fileQuestion?_of_ne hsign]

/-! ### Values -/

namespace Operands

variable (o : Operands)

/-- Nothing is in the empty tree, also not where the sign of a comparison is the path. -/
theorem not_contains_between (equal : Bool) :
    Entry.contains (.directory []) (Path.resolve (String.ofList (o.between equal)) "/w") = false := by
  have htrim : Text.trim (String.ofList (o.between equal)) =
      String.ofList (if equal then ['=', '='] else ['!', '=']) := by
    rw [Text.trim, String.toList_ofList, between, ← List.append_assoc]
    congr 1
    apply Text.trimChars_append o.beforeSign.blank o.afterSign.blank
    · cases equal <;> exact fun c hc => Option.mem_some_iff.mp hc ▸ by decide
    · cases equal <;> exact fun c hc => Option.mem_some_iff.mp hc ▸ by decide
  rw [Path.resolve, htrim]
  cases equal <;> decide

/-- **A piece that has lost an operand counts the same for both signs.** -/
theorem exists_holds_joint {x y : List Char} (hx : '\'' ∉ x.tail)
    (hcount : x.count '\'' + y.count '\'' ≤ 1) :
    ∃ value, ∀ equal,
      (readTerm (x ++ '\'' :: (o.between equal ++ '\'' :: y))).holds (.directory []) "/w" = value := by
  have htail : '\'' ∉ (bareFront x).tail := by
    obtain ⟨dropped, hsplit⟩ := bareFront_isSuffix x
    cases dropped with
    | nil =>
      rw [List.nil_append] at hsplit
      rwa [hsplit]
    | cons c dropped =>
      intro hq
      rw [← hsplit] at hx
      exact hx (List.mem_append_right _ (List.mem_of_mem_tail hq))
  have hlost (equal : Bool) :
      comparison? (bareFront x ++ '\'' :: (o.between equal ++ '\'' :: bareBack y)) = none := by
    rw [Option.eq_none_iff_forall_ne_some]
    intro t ht
    have hquotes := count_of_comparison? ht
    have hfront := (bareFront_isSuffix x).sublist.count_le '\''
    have hback := (bareBack_isPrefix y).sublist.count_le '\''
    rw [List.count_append, List.count_cons_self, List.count_append, List.count_cons_self,
      List.count_eq_zero.mpr (o.plain_between equal)] at hquotes
    omega
  have hconstant (equal : Bool) :
      constant? (bareFront x ++ '\'' :: (o.between equal ++ '\'' :: bareBack y)) = none := by
    apply constant?_of_foreign (c := '=') ⟨by decide, by decide⟩
    cases equal with
    | true => simp [between]
    | false => simp [between]
  obtain ⟨asked, hasked⟩ := exists_fileQuestion? htail (bareBack y)
  refine ⟨(asked.map fun present => false == present).getD true, fun equal => ?_⟩
  rw [readTerm, bareTerm_around (by decide), hlost, hasked _ (o.plain_between equal), hconstant]
  cases asked with
  | none => rfl
  | some present =>
    show (Entry.contains _ _ == present) = (false == present)
    rw [o.not_contains_between]

/-- An operator in an operand makes the two signs give the same value. -/
theorem holds_eq_of_joined (h : ¬o.AreUnjoined) :
    holds (.directory []) "/w" (o.text true) = holds (.directory []) "/w" (o.text false) := by
  obtain ⟨before, op, x, y, after, hterms, hx, hcount⟩ := o.exists_joint h
  obtain ⟨value, hvalue⟩ := o.exists_holds_joint hx hcount
  rw [holds, holds, hterms, hterms, List.foldl_append, List.foldl_append, List.foldl_cons,
    List.foldl_cons]
  simp only [hvalue]

/-- Without operators in its operands, a comparison is read as one. -/
theorem holds_of_unjoined (h : o.AreUnjoined) (tree : FileTree) (directory : String) (equal : Bool) :
    holds tree directory (o.text equal) = o.answer equal := by
  let written : WrittenCondition :=
    { front := o.front
      first := .comparison ⟨⟨o.left.toList, o.leftPlain, h.1⟩, o.beforeSign, equal, o.afterSign,
        ⟨o.right.toList, o.rightPlain, h.2⟩⟩
      joints := []
      back := o.back }
  have htext : written.text = o.text equal := by
    simp [written, WrittenCondition.text, joinedChars, WrittenTerm.chars, Comparison.sign, text, body,
      between]
  have hvalue : written.value WrittenTerm.counted = o.answer equal := by
    simp only [written, WrittenCondition.value, List.foldl_nil, WrittenTerm.counted, Comparison.answer,
      String.ofList_toList, answer]
  rw [← htext, holds_text, hvalue]

end Operands

/-- **A comparison compares its operands exactly if no operator stands in them.**  It then has the value
that it means, with either sign and whatever files there are. If there is one, the comparison is cut in
pieces that do not ask for the sign, so that one of the two signs gives the wrong value. -/
theorem holds_operands_iff (o : Operands) :
    (∀ (tree : FileTree) (directory : String) (equal : Bool),
        holds tree directory (o.text equal) = o.answer equal) ↔
      Unjoined o.left.toList ∧ Unjoined o.right.toList := by
  constructor
  · intro hholds
    by_contra hjoined
    have hsame := o.holds_eq_of_joined hjoined
    rw [hholds, hholds, Operands.answer, Operands.answer] at hsame
    revert hsame
    cases decide (comparable o.left = comparable o.right) <;> decide
  · intro hunjoined tree directory equal
    exact o.holds_of_unjoined hunjoined tree directory equal

/-! Two texts with a conjunction in them. -/

/-- `'a and b' == 'a and c'`. -/
def conjunctions : Operands where
  front := .none
  left := "a and b"
  leftPlain := by decide
  beforeSign := .one
  afterSign := .one
  right := "a and c"
  rightPlain := by decide
  back := .none

theorem conjunctions_taken_apart :
    conjunctions.text true = "'a and b' == 'a and c'" ∧ conjunctions.answer true = false ∧
      holds (.directory []) "/w" (conjunctions.text true) = true ∧
      ¬∀ (tree : FileTree) (directory : String) (equal : Bool),
        holds tree directory (conjunctions.text equal) = conjunctions.answer equal := by
  refine ⟨by decide, by decide, by decide +kernel, ?_⟩
  rw [holds_operands_iff]
  rintro ⟨hleft, -⟩
  exact hleft .both ['a'] "and".toList ['b'] ' ' ' ' (by decide) (by decide) (by decide) (by decide)

end ExtensionCensus.Condition
