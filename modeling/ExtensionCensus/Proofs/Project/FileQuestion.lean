import ExtensionCensus.Project.Condition
import ExtensionCensus.Proofs.Text.Blank
import Mathlib.Data.List.Basic

/-!
# Questions about files

What becomes of a question whether a file exists, on its own and joined to other terms.

* `Question`, `Comparison`, `WrittenTerm`, `WrittenCondition` — conditions as they are written, with
  white space between their parts;
* `terms_written` — a written condition is cut at its joints and nowhere else;
* `readTerm_question` — a question loses its closing parenthesis before it is read, and nothing
  understands what is left;
* `holds_written` — **a written condition holds as if every question in it were answered with yes**,
  and its questions are listed as unclear.
-/

namespace ExtensionCensus.Condition

/-! ### Operators inside a text -/

/-- The word for an operator. -/
def Operator.word : Operator → String
  | .both => "and"
  | .either => "or"

/-- No operator stands in a text: no such word in any letter case has white space on both sides. -/
def Unjoined (cs : List Char) : Prop :=
  ∀ (op : Operator) (front word rest : List Char) (a b : Char),
    cs = front ++ a :: (word ++ b :: rest) → Text.isBlank a = true → Text.isBlank b = true →
      word.map small ≠ op.word.toList

/-- No operator reaches over a character: it is neither blank nor a letter of an operator. -/
def Bars (c : Char) : Prop :=
  Text.isBlank c = false ∧ small c ∉ "andor".toList

instance (c : Char) : Decidable (Bars c) :=
  inferInstanceAs (Decidable (_ ∧ _))

theorem small_of_blank {c : Char} (h : Text.isBlank c = true) : small c = c := by
  rw [small, if_neg]
  simp only [Bool.and_eq_true, decide_eq_true_eq, Char.le_def, not_and, UInt32.le_iff_toNat_le]
  simp only [Text.isBlank, Bool.or_eq_true, Bool.and_eq_true, decide_eq_true_eq, beq_iff_eq,
    Char.toNat] at h
  have hA : ('A' : Char).val.toNat = 65 := rfl
  have hZ : ('Z' : Char).val.toNat = 90 := rfl
  omega

theorem not_blank_of_small {c : Char} (h : Text.isBlank (small c) = false) :
    Text.isBlank c = false := by
  by_contra hc
  rw [Bool.not_eq_false] at hc
  rw [small_of_blank hc, hc] at h
  cases h

/-- The letters of an operator, in any letter case, have no white space between them. -/
theorem letters_of_word {op : Operator} {word : List Char} (h : word.map small = op.word.toList) :
    word ≠ [] ∧ ∀ c ∈ word, Text.isBlank c = false ∧ small c ∈ "andor".toList := by
  have hletters : ∀ d ∈ op.word.toList, Text.isBlank d = false ∧ d ∈ "andor".toList := by
    cases op <;> exact List.forall_iff_forall_mem.mp (by decide)
  constructor
  · rintro rfl
    cases op <;> cases h
  · intro c hc
    obtain ⟨hblank, hmem⟩ := hletters (small c) (h ▸ List.mem_map_of_mem hc)
    exact ⟨not_blank_of_small hblank, hmem⟩

/-- A bar stands in no operator with the white space around it. -/
theorem Bars.not_mem {q : Char} (hq : Bars q) {op : Operator} {space word : List Char} {b : Char}
    (hspace : ∀ c ∈ space, Text.isBlank c = true) (hword : word.map small = op.word.toList)
    (hb : Text.isBlank b = true) : q ∉ space ++ (word ++ [b]) := by
  rw [List.mem_append, List.mem_append, List.mem_singleton]
  rintro (h | h | rfl)
  · exact absurd (hspace q h) (by rw [hq.1]; decide)
  · exact hq.2 ((letters_of_word hword).2 q h).2
  · exact absurd hb (by rw [hq.1]; decide)

/-- What does not hold a character ends before it. -/
theorem exists_append_of_not_mem {α : Type} {q : α} {front more cs rest : List α} (hq : q ∉ front)
    (h : front ++ more = cs ++ q :: rest) : ∃ between, cs = front ++ between := by
  rcases List.append_eq_append_iff.mp h with ⟨between, hcs, -⟩ | ⟨between, hfront, hrest⟩
  · exact ⟨between, hcs⟩
  · cases between with
    | nil => exact ⟨[], by rw [hfront, List.append_nil, List.append_nil]⟩
    | cons c between =>
      rw [List.cons_append] at hrest
      obtain ⟨rfl, -⟩ := List.cons.inj hrest
      exact absurd (hfront ▸ List.mem_append_right _ List.mem_cons_self) hq

theorem unjoined_nil : Unjoined [] := by
  intro op front word rest a b h
  simp at h

theorem unjoined_of_blank {cs : List Char} (h : ∀ c ∈ cs, Text.isBlank c = true) : Unjoined cs := by
  rintro op front word rest a b rfl - - hword
  obtain ⟨hne, hletters⟩ := letters_of_word hword
  obtain ⟨c, more, rfl⟩ := List.exists_cons_of_ne_nil hne
  have hc := h c (by simp)
  rw [(hletters c List.mem_cons_self).1] at hc
  cases hc

theorem Unjoined.of_append {front cs : List Char} (h : Unjoined (front ++ cs)) : Unjoined cs := by
  intro op front' word rest a b hcs
  exact h op (front ++ front') word rest a b (by rw [hcs, List.append_assoc])

theorem Unjoined.of_append_left {cs rest : List Char} (h : Unjoined (cs ++ rest)) : Unjoined cs := by
  rintro op front word rest' a b rfl
  exact h op front word (rest' ++ rest) a b (by simp)

/-- A bar keeps the texts on its two sides apart. -/
theorem Unjoined.append {cs rest : List Char} {q : Char} (hcs : Unjoined cs) (hq : Bars q)
    (hrest : Unjoined rest) : Unjoined (cs ++ q :: rest) := by
  intro op front word after a b h ha hb hword
  have hspace : ∀ c ∈ [a], Text.isBlank c = true := fun c hc => List.mem_singleton.mp hc ▸ ha
  have hwhole : front ++ (([a] ++ (word ++ [b])) ++ after) = cs ++ q :: rest := by
    rw [h]
    simp
  rcases List.append_eq_append_iff.mp hwhole with ⟨between, hcs', hmore⟩ | ⟨between, hfront, hmore⟩
  · obtain ⟨tail, htail⟩ := exists_append_of_not_mem (hq.not_mem hspace hword hb) hmore
    exact hcs op front word tail a b (by rw [hcs', htail]; simp) ha hb hword
  · cases between with
    | nil =>
      obtain ⟨rfl, -⟩ := List.cons.inj hmore
      rw [hq.1] at ha
      cases ha
    | cons c between =>
      obtain ⟨-, hrest'⟩ := List.cons.inj hmore
      exact hrest op between word after a b (by rw [hrest']; simp) ha hb hword

/-! ### Operators in front of a text -/

theorem startsWithWord_iff {word cs : List Char} : startsWithWord word cs = true ↔
    ∃ written b rest, cs = written ++ b :: rest ∧ written.map small = word ∧
      Text.isBlank b = true := by
  rw [startsWithWord, Bool.and_eq_true, decide_eq_true_eq]
  constructor
  · rintro ⟨hword, hblank⟩
    cases hrest : cs.drop word.length with
    | nil =>
      rw [hrest] at hblank
      cases hblank
    | cons b rest =>
      rw [hrest] at hblank
      exact ⟨cs.take word.length, b, rest, by rw [← hrest, List.take_append_drop], hword, hblank⟩
  · rintro ⟨written, b, rest, rfl, rfl, hb⟩
    rw [List.length_map, List.take_left, List.drop_left]
    exact ⟨rfl, hb⟩

/-- Behind the white space at its start a text goes on with what is not blank. -/
theorem drop_takeWhile (cs : List Char) :
    cs.drop (cs.takeWhile Text.isBlank).length = cs.dropWhile Text.isBlank := by
  have hdrop : (cs.takeWhile Text.isBlank ++ cs.dropWhile Text.isBlank).drop
      (cs.takeWhile Text.isBlank).length = cs.dropWhile Text.isBlank := List.drop_left
  rwa [List.takeWhile_append_dropWhile] at hdrop

/-- An operator at the start of a text stands between white space. -/
theorem operator?_eq_some {cs : List Char} {found : Operator × Nat} (h : operator? cs = some found) :
    ∃ (op : Operator) (space word : List Char) (a b : Char) (rest : List Char),
      cs = (space ++ [a]) ++ ((word ++ [b]) ++ rest) ∧ (∀ c ∈ space ++ [a], Text.isBlank c = true) ∧
      word.map small = op.word.toList ∧ Text.isBlank b = true := by
  have hsplit := List.takeWhile_append_dropWhile (p := Text.isBlank) (l := cs)
  have hblank : ∀ c ∈ cs.takeWhile Text.isBlank, Text.isBlank c = true := fun c hc =>
    List.mem_takeWhile_imp hc
  simp only [operator?, drop_takeWhile] at h
  split at h
  · cases h
  · next hfront =>
    obtain ⟨space, a, hspace⟩ := (List.eq_nil_or_concat (cs.takeWhile Text.isBlank)).resolve_left
      fun hnil => hfront (by rw [hnil]; rfl)
    rw [List.concat_eq_append] at hspace
    have hword : ∃ op : Operator, startsWithWord op.word.toList (cs.dropWhile Text.isBlank) = true := by
      split at h
      · next hboth => exact ⟨.both, hboth⟩
      · split at h
        · next heither => exact ⟨.either, heither⟩
        · cases h
    obtain ⟨op, hop⟩ := hword
    obtain ⟨word, b, rest, hrest, hspelled, hb⟩ := startsWithWord_iff.mp hop
    rw [hspace] at hsplit hblank
    exact ⟨op, space, word, a, b, rest, by rw [← hsplit, hrest]; simp, hblank, hspelled, hb⟩

/-- No operator starts inside a text without any, if a bar ends it. -/
theorem operator?_of_unjoined {cs : List Char} {q : Char} (hcs : Unjoined cs) (hq : Bars q)
    (rest : List Char) : operator? (cs ++ q :: rest) = none := by
  rw [Option.eq_none_iff_forall_ne_some]
  intro found hfound
  obtain ⟨op, space, word, a, b, more, hsplit, hspace, hword, hb⟩ := operator?_eq_some hfound
  have hwhole : (space ++ [a] ++ (word ++ [b])) ++ more = cs ++ q :: rest := by
    rw [hsplit]
    simp
  obtain ⟨tail, htail⟩ := exists_append_of_not_mem (hq.not_mem hspace hword hb) hwhole
  exact hcs op space word tail a b (by rw [htail]; simp) (hspace a (by simp)) hb hword

/-- The white space in front of what is not blank. -/
theorem takeWhile_blank {space rest : List Char} {c : Char}
    (hspace : ∀ c ∈ space, Text.isBlank c = true) (hc : Text.isBlank c = false) :
    (space ++ c :: rest).takeWhile Text.isBlank = space := by
  rw [List.takeWhile_append_of_pos hspace, List.takeWhile_cons_of_neg (by simp [hc]),
    List.append_nil]

theorem dropWhile_blank {space rest : List Char} {c : Char}
    (hspace : ∀ c ∈ space, Text.isBlank c = true) (hc : Text.isBlank c = false) :
    (space ++ c :: rest).dropWhile Text.isBlank = c :: rest := by
  rw [List.dropWhile_append_of_pos hspace, List.dropWhile_cons_of_neg (by simp [hc])]

/-- The word of an operator tells the operator. -/
theorem startsWithWord_both {op : Operator} {word rest : List Char} {b : Char}
    (hword : word.map small = op.word.toList) (hb : Text.isBlank b = true) :
    startsWithWord "and".toList (word ++ b :: rest) = true ↔ op = .both := by
  constructor
  · intro h
    obtain ⟨written, b', rest', hsplit, hspelled, -⟩ := startsWithWord_iff.mp h
    have hhead := congrArg (fun cs => (cs.map small).head?) hsplit
    simp only [List.map_append, hword, hspelled] at hhead
    cases op with
    | both => rfl
    | either => exact absurd hhead (by simp [Operator.word])
  · rintro rfl
    exact startsWithWord_iff.mpr ⟨word, b, rest, rfl, hword, hb⟩

/-- White space around a word of an operator is that operator. -/
theorem operator?_joint {op : Operator} {before word after rest : List Char} {c : Char}
    (hbefore : before ≠ [] ∧ ∀ c ∈ before, Text.isBlank c = true)
    (hword : word.map small = op.word.toList)
    (hafter : after ≠ [] ∧ ∀ c ∈ after, Text.isBlank c = true) (hc : Text.isBlank c = false) :
    operator? (before ++ (word ++ (after ++ c :: rest))) =
      some (op, (before ++ (word ++ after)).length) := by
  obtain ⟨hne, hletters⟩ := letters_of_word hword
  obtain ⟨w, letters, rfl⟩ := List.exists_cons_of_ne_nil hne
  obtain ⟨b, blanks, rfl⟩ := List.exists_cons_of_ne_nil hafter.1
  have hw := (hletters w List.mem_cons_self).1
  have hb := hafter.2 b List.mem_cons_self
  have hlength : (w :: letters).length = op.word.toList.length := by
    rw [← hword, List.length_map]
  have hrest : ((w :: letters ++ (b :: blanks ++ c :: rest)).drop op.word.toList.length).takeWhile
      Text.isBlank = b :: blanks := by
    rw [← hlength, List.drop_left, takeWhile_blank hafter.2 hc]
  have htotal : before.length + op.word.toList.length + (((w :: letters ++ (b :: blanks ++ c :: rest)).drop
      op.word.toList.length).takeWhile Text.isBlank).length =
        (before ++ (w :: letters ++ b :: blanks)).length := by
    rw [hrest, List.length_append, List.length_append, hlength, Nat.add_assoc]
  have hboth := @startsWithWord_both op _ (blanks ++ c :: rest) b hword hb
  have heither (h : op = .either) :
      startsWithWord "or".toList (w :: letters ++ b :: (blanks ++ c :: rest)) = true :=
    startsWithWord_iff.mpr ⟨_, b, _, rfl, by rw [hword, h]; rfl, hb⟩
  simp only [operator?, List.cons_append] at htotal hboth heither ⊢
  rw [takeWhile_blank hbefore.2 hw, List.drop_left, if_neg (by simpa using hbefore.1)]
  cases op with
  | both =>
    rw [if_pos (hboth.mpr rfl)]
    exact congrArg (fun n => some (Operator.both, n)) htotal
  | either =>
    rw [if_neg fun h => Operator.noConfusion (hboth.mp h), if_pos (heither rfl)]
    exact congrArg (fun n => some (Operator.either, n)) htotal

/-! ### Cutting -/

/-- One character of a condition. The equation holds by evaluation; unfolding would look into the search
for operators. -/
theorem cutTerms_cons (before : Operator) (term rest : List Char) (c : Char) :
    cutTerms before 0 term (c :: rest) =
      match operator? (c :: rest) with
      | some (op, length) => (before, term.reverse) :: cutTerms op (length - 1) [] rest
      | none => cutTerms before 0 (c :: term) rest := by
  exact rfl

theorem cutTerms_nil (before : Operator) (term : List Char) :
    cutTerms before 0 term [] = [(before, term.reverse)] := by
  exact rfl

theorem cutTerms_of_none {before : Operator} {term rest : List Char} {c : Char}
    (h : operator? (c :: rest) = none) :
    cutTerms before 0 term (c :: rest) = cutTerms before 0 (c :: term) rest := by
  rw [cutTerms_cons, h]

theorem cutTerms_of_some {before op : Operator} {term rest : List Char} {c : Char} {length : Nat}
    (h : operator? (c :: rest) = some (op, length)) :
    cutTerms before 0 term (c :: rest) =
      (before, term.reverse) :: cutTerms op (length - 1) [] rest := by
  rw [cutTerms_cons, h]

/-- The characters of an operator are passed over. -/
theorem cutTerms_skip (before : Operator) (term : List Char) (passed rest : List Char) :
    cutTerms before passed.length term (passed ++ rest) = cutTerms before 0 term rest := by
  induction passed with
  | nil => rw [List.length_nil, List.nil_append]
  | cons c passed ih =>
    rw [← ih]
    exact rfl

/-- A text without operators is read as a part of one term, if a bar ends it. -/
theorem cutTerms_of_unjoined {cs : List Char} {q : Char} (hcs : Unjoined cs) (hq : Bars q)
    (before : Operator) (term rest : List Char) :
    cutTerms before 0 term (cs ++ q :: rest) = cutTerms before 0 (q :: (cs.reverse ++ term)) rest := by
  induction cs generalizing term with
  | nil => exact cutTerms_of_none (operator?_of_unjoined hcs hq rest)
  | cons c cs ih =>
    have hnone := operator?_of_unjoined hcs hq rest
    rw [List.cons_append] at hnone ⊢
    rw [cutTerms_of_none hnone, ih (@Unjoined.of_append [c] cs hcs), List.reverse_cons,
      List.append_assoc, List.singleton_append]

/-- An operator with the white space around it ends one term and begins the next. -/
theorem cutTerms_joint {op : Operator} {before word after rest : List Char} {c : Char}
    (hbefore : before ≠ [] ∧ ∀ c ∈ before, Text.isBlank c = true)
    (hword : word.map small = op.word.toList)
    (hafter : after ≠ [] ∧ ∀ c ∈ after, Text.isBlank c = true) (hc : Text.isBlank c = false)
    (last : Operator) (term : List Char) :
    cutTerms last 0 term (before ++ (word ++ (after ++ c :: rest))) =
      (last, term.reverse) :: cutTerms op 0 [] (c :: rest) := by
  have hjoint := @operator?_joint _ _ _ _ rest _ hbefore hword hafter hc
  obtain ⟨b, blanks, rfl⟩ := List.exists_cons_of_ne_nil hbefore.1
  have hskip := cutTerms_skip op [] (blanks ++ (word ++ after)) (c :: rest)
  rw [List.append_assoc, List.append_assoc] at hskip
  rw [List.cons_append] at hjoint ⊢
  rw [cutTerms_of_some hjoint, List.cons_append, List.length_cons, Nat.add_sub_cancel, hskip]

/-! ### Conditions as they are written -/

/-- White space between the parts of a condition, maybe none. -/
structure Space where
  chars : List Char
  blank : ∀ c ∈ chars, Text.isBlank c = true

/-- No white space. -/
def Space.none : Space where
  chars := []
  blank := List.forall_mem_nil _

/-- A single space. -/
def Space.one : Space where
  chars := [' ']
  blank := List.forall_mem_singleton.mpr rfl

/-- A text that can stand between single quotes: it has none in it, and no operator. -/
structure Quotable where
  chars : List Char
  noQuote : '\'' ∉ chars
  unjoined : Unjoined chars

/-- A question whether a file exists: `Exists('path')`, or `!Exists('path')` whether it does not. -/
structure Question where
  present : Bool
  afterSign : Space
  word : List Char
  spelled : word.map small = "exists".toList
  beforeOpening : Space
  beforePath : Space
  path : Quotable
  noParenthesis : ∀ c ∈ path.chars, isParenthesis c = false
  afterPath : Space

/-- A comparison of two texts: `'left' == 'right'` or `'left' != 'right'`. -/
structure Comparison where
  left : Quotable
  beforeSign : Space
  equal : Bool
  afterSign : Space
  right : Quotable

/-- A term as it is written. -/
inductive WrittenTerm where
  | question (q : Question)
  | comparison (c : Comparison)

/-- A further term, with the operator in front of it. -/
structure Joint where
  operator : Operator
  before : Space
  word : List Char
  spelled : word.map small = operator.word.toList
  after : Space
  apart : before.chars ≠ [] ∧ after.chars ≠ []
  term : WrittenTerm

/-- A condition as it is written: terms that are joined, with white space around them. -/
structure WrittenCondition where
  front : Space
  first : WrittenTerm
  joints : List Joint
  back : Space

/-! The texts of them. -/

/-- What asks for the contrary. -/
def Question.sign (q : Question) : List Char :=
  if q.present then [] else '!' :: q.afterSign.chars

/-- A question up to the end of its path. -/
def Question.opened (q : Question) : List Char :=
  q.sign ++ (q.word ++ (q.beforeOpening.chars ++ '(' :: (q.beforePath.chars ++
    '\'' :: (q.path.chars ++ ['\'']))))

def Comparison.sign (c : Comparison) : List Char :=
  if c.equal then ['=', '='] else ['!', '=']

/-- The characters of a term. -/
def WrittenTerm.chars : WrittenTerm → List Char
  | .question q => q.opened ++ (q.afterPath.chars ++ [')'])
  | .comparison c => '\'' :: (c.left.chars ++ '\'' :: (c.beforeSign.chars ++ (c.sign ++
      (c.afterSign.chars ++ '\'' :: (c.right.chars ++ ['\''])))))

/-- The characters of a term and what is joined to it. -/
def joinedChars (first : WrittenTerm) : List Joint → List Char
  | [] => first.chars
  | j :: rest =>
    first.chars ++ (j.before.chars ++ (j.word ++ (j.after.chars ++ joinedChars j.term rest)))

/-- The text of a condition. -/
def WrittenCondition.text (w : WrittenCondition) : String :=
  String.ofList (w.front.chars ++ joinedChars w.first w.joints ++ w.back.chars)

/-! ### What a condition means -/

/-- The value of a condition, from the answers to its terms: operators apply from left to right. -/
def WrittenCondition.value (w : WrittenCondition) (answer : WrittenTerm → Bool) : Bool :=
  w.joints.foldl (fun value j => j.operator.apply value (answer j.term)) (answer w.first)

/-- The answer to a question: the file is there, or it is not, as it is asked. -/
def Question.answer (tree : FileTree) (directory : String) (q : Question) : Bool :=
  tree.contains (Path.resolve (String.ofList q.path.chars) directory) == q.present

/-- The answer to a comparison. -/
def Comparison.answer (c : Comparison) : Bool :=
  (comparable (String.ofList c.left.chars) = comparable (String.ofList c.right.chars)) == c.equal

/-- What a term says. -/
def WrittenTerm.meant (tree : FileTree) (directory : String) : WrittenTerm → Bool
  | .question q => q.answer tree directory
  | .comparison c => c.answer

/-- What a term counts as: every question is taken for true. -/
def WrittenTerm.counted : WrittenTerm → Bool
  | .question _ => true
  | .comparison c => c.answer

/-- The text of a question as it is listed. -/
def WrittenTerm.unclear? : WrittenTerm → Option String
  | .question q => some (String.ofList q.opened)
  | .comparison _ => none

/-! ### Terms are cut at their joints -/

/-- A character that stays where it stands at an end of a term. -/
def IsSolid (c : Char) : Prop :=
  Text.isBlank c = false ∧ isParenthesis c = false

instance (c : Char) : Decidable (IsSolid c) :=
  inferInstanceAs (Decidable (_ ∧ _))

theorem letters_of_exists {word : List Char} (h : word.map small = "exists".toList) :
    word ≠ [] ∧ ∀ c ∈ word, Bars c ∧ IsSolid c ∧ c ≠ '\'' := by
  have hletters : ∀ d ∈ "exists".toList, (Text.isBlank d = false ∧ d ∉ "andor".toList) ∧
      d ≠ '(' ∧ d ≠ ')' ∧ d ≠ '\'' :=
    List.forall_iff_forall_mem.mp (by decide)
  constructor
  · rintro rfl
    cases h
  · intro c hc
    obtain ⟨⟨hblank, hmem⟩, hopening, hclosing, hquote⟩ :=
      hletters (small c) (h ▸ List.mem_map_of_mem hc)
    have hne {d : Char} (hd : small d = d) (hsmall : small c ≠ d) : c ≠ d := by
      rintro rfl
      exact hsmall hd
    have hblank := not_blank_of_small hblank
    refine ⟨⟨hblank, hmem⟩, ⟨hblank, ?_⟩, hne rfl hquote⟩
    rw [isParenthesis, Bool.or_eq_false_iff, decide_eq_false_iff_not, decide_eq_false_iff_not]
    exact ⟨hne rfl hopening, hne rfl hclosing⟩

theorem Unjoined.bars_append {bars rest : List Char} (hbars : ∀ c ∈ bars, Bars c)
    (h : Unjoined rest) : Unjoined (bars ++ rest) := by
  induction bars with
  | nil => exact h
  | cons c bars ih =>
    exact unjoined_nil.append (hbars c List.mem_cons_self)
      (ih fun d hd => hbars d (List.mem_cons_of_mem _ hd))

/-- White space in front of a bar joins nothing. -/
theorem Space.unjoined (s : Space) {rest : List Char} {q : Char} (hq : Bars q) (h : Unjoined rest) :
    Unjoined (s.chars ++ q :: rest) :=
  (unjoined_of_blank s.blank).append hq h

/-- Neither does a text in quotes. -/
theorem Quotable.unjoined_quoted (t : Quotable) {rest : List Char} (h : Unjoined rest) :
    Unjoined ('\'' :: (t.chars ++ '\'' :: rest)) :=
  unjoined_nil.append (by decide) (t.unjoined.append (by decide) h)

theorem Question.unjoined_opened (q : Question) {rest : List Char} (h : Unjoined rest) :
    Unjoined (q.opened ++ rest) := by
  have hpath : Unjoined (q.beforePath.chars ++ '\'' :: (q.path.chars ++ '\'' :: rest)) :=
    q.beforePath.unjoined (by decide) (q.path.unjoined.append (by decide) h)
  have hbody : Unjoined (q.word ++ (q.beforeOpening.chars ++ '(' :: (q.beforePath.chars ++
      '\'' :: (q.path.chars ++ '\'' :: rest)))) :=
    .bars_append (fun c hc => ((letters_of_exists q.spelled).2 c hc).1)
      (q.beforeOpening.unjoined (by decide) hpath)
  have hopened : Unjoined (q.sign ++ (q.word ++ (q.beforeOpening.chars ++ '(' ::
      (q.beforePath.chars ++ '\'' :: (q.path.chars ++ '\'' :: rest))))) := by
    rw [Question.sign]
    split
    · exact hbody
    · obtain ⟨hne, hletters⟩ := letters_of_exists q.spelled
      obtain ⟨c, letters, hword⟩ := List.exists_cons_of_ne_nil hne
      rw [hword] at hbody hletters ⊢
      exact unjoined_nil.append (by decide)
        (q.afterSign.unjoined (hletters c List.mem_cons_self).1 (@Unjoined.of_append [c] _ hbody))
  simpa [Question.opened] using hopened

/-- No operator stands in a term. -/
theorem WrittenTerm.unjoined (t : WrittenTerm) : Unjoined t.chars := by
  cases t with
  | question q =>
    exact q.unjoined_opened (q.afterPath.unjoined (by decide) unjoined_nil)
  | comparison c =>
    refine c.left.unjoined_quoted ?_
    have hright : Unjoined (c.afterSign.chars ++ '\'' :: (c.right.chars ++ ['\''])) :=
      c.afterSign.unjoined (by decide) (c.right.unjoined.append (by decide) unjoined_nil)
    rw [Comparison.sign]
    split
    · exact c.beforeSign.unjoined (by decide) (unjoined_nil.append (by decide) hright)
    · exact c.beforeSign.unjoined (by decide) (unjoined_nil.append (by decide) hright)

/-- A question begins with a character that stays, and not with a quote. -/
theorem Question.head_opened (q : Question) :
    ∃ c more, q.opened = c :: more ∧ IsSolid c ∧ c ≠ '\'' := by
  rw [Question.opened, Question.sign]
  split
  · obtain ⟨hne, hletters⟩ := letters_of_exists q.spelled
    obtain ⟨c, letters, hword⟩ := List.exists_cons_of_ne_nil hne
    rw [hword] at hletters ⊢
    exact ⟨c, _, rfl, (hletters c List.mem_cons_self).2⟩
  · exact ⟨'!', _, rfl, by decide⟩

theorem WrittenTerm.head_chars (t : WrittenTerm) : ∃ c more, t.chars = c :: more ∧ IsSolid c := by
  cases t with
  | question q =>
    obtain ⟨c, more, hopened, hc, -⟩ := q.head_opened
    exact ⟨c, _, by rw [WrittenTerm.chars, hopened, List.cons_append], hc⟩
  | comparison c => exact ⟨'\'', _, rfl, by decide⟩

/-- A term ends in a bar. -/
theorem WrittenTerm.last_chars (t : WrittenTerm) :
    ∃ front q, t.chars = front ++ [q] ∧ Bars q ∧ Unjoined front := by
  have hlast : ∃ front q, t.chars = front ++ [q] ∧ Bars q := by
    cases t with
    | question q =>
      exact ⟨q.opened ++ q.afterPath.chars, ')', by rw [List.append_assoc]; rfl, by decide⟩
    | comparison c =>
      exact ⟨'\'' :: (c.left.chars ++ '\'' :: (c.beforeSign.chars ++ (c.sign ++
        (c.afterSign.chars ++ '\'' :: c.right.chars)))), '\'', by simp [WrittenTerm.chars], by decide⟩
  obtain ⟨front, q, hchars, hq⟩ := hlast
  have hunjoined := t.unjoined
  rw [hchars] at hunjoined
  exact ⟨front, q, hchars, hq, hunjoined.of_append_left⟩

theorem cutTerms_term (t : WrittenTerm) (before : Operator) (rest : List Char) :
    cutTerms before 0 [] (t.chars ++ rest) = cutTerms before 0 t.chars.reverse rest := by
  obtain ⟨front, q, hchars, hq, hunjoined⟩ := t.last_chars
  rw [hchars, List.append_assoc, List.singleton_append, cutTerms_of_unjoined hunjoined hq,
    List.append_nil, List.reverse_append, List.reverse_singleton, List.singleton_append]

theorem head_joinedChars (first : WrittenTerm) (joints : List Joint) :
    ∃ c more, joinedChars first joints = c :: more ∧ IsSolid c := by
  obtain ⟨c, more, hchars, hc⟩ := first.head_chars
  cases joints with
  | nil => exact ⟨c, more, hchars, hc⟩
  | cons j rest => exact ⟨c, _, by rw [joinedChars, hchars, List.cons_append], hc⟩

theorem last_joinedChars (first : WrittenTerm) (joints : List Joint) :
    ∀ c ∈ (joinedChars first joints).getLast?, Text.isBlank c = false := by
  induction joints generalizing first with
  | nil =>
    obtain ⟨front, q, hchars, hq, -⟩ := first.last_chars
    intro c hc
    rw [joinedChars, hchars, List.getLast?_concat, Option.mem_some_iff] at hc
    exact hc ▸ hq.1
  | cons j rest ih =>
    obtain ⟨c, more, hrest, -⟩ := head_joinedChars j.term rest
    have hlast := ih j.term
    rw [hrest, List.getLast?_cons] at hlast
    rw [joinedChars, hrest, ← List.append_assoc, ← List.append_assoc, ← List.append_assoc,
      List.getLast?_append, List.getLast?_cons, Option.some_or]
    exact hlast

theorem cutTerms_joined (first : WrittenTerm) (joints : List Joint) (before : Operator) :
    cutTerms before 0 [] (joinedChars first joints) =
      (before, first.chars) :: joints.map fun j => (j.operator, j.term.chars) := by
  induction joints generalizing first before with
  | nil =>
    rw [joinedChars, ← List.append_nil first.chars, cutTerms_term, cutTerms_nil,
      List.reverse_reverse, List.append_nil]
    rfl
  | cons j rest ih =>
    obtain ⟨c, more, hrest, hc⟩ := head_joinedChars j.term rest
    rw [joinedChars, cutTerms_term, hrest,
      cutTerms_joint ⟨j.apart.1, j.before.blank⟩ j.spelled ⟨j.apart.2, j.after.blank⟩ hc.1, ← hrest, ih,
      List.reverse_reverse]
    rfl

/-- **A condition is cut at its joints**, and nowhere else. -/
theorem terms_written (w : WrittenCondition) :
    terms w.text = (.both, w.first.chars) :: w.joints.map fun j => (j.operator, j.term.chars) := by
  obtain ⟨c, more, hchars, hc⟩ := head_joinedChars w.first w.joints
  have htrim : Text.trimChars (w.front.chars ++ joinedChars w.first w.joints ++ w.back.chars) =
      joinedChars w.first w.joints := by
    refine Text.trimChars_append w.front.blank w.back.blank (fun d hd => ?_)
      (last_joinedChars w.first w.joints)
    rw [hchars, List.head?_cons, Option.mem_some_iff] at hd
    exact hd ▸ hc.1
  have houter : withoutOuter (joinedChars w.first w.joints) = joinedChars w.first w.joints := by
    rw [withoutOuter, dif_neg]
    rintro ⟨hopening, -⟩
    rw [hchars, List.head?_cons, Option.some.injEq] at hopening
    subst hopening
    exact absurd hc.2 (by decide)
  rw [terms, WrittenCondition.text, String.toList_ofList, htrim, houter, cutTerms_joined]

/-! ### Reading terms -/

theorem not_parenthesis_of_blank {c : Char} (h : Text.isBlank c = true) : isParenthesis c = false := by
  rw [isParenthesis, Bool.or_eq_false_iff, decide_eq_false_iff_not, decide_eq_false_iff_not]
  constructor
  · rintro rfl
    revert h
    decide
  · rintro rfl
    revert h
    decide

/-- Parentheses are taken off the end of a text that neither begins nor ends with one. -/
theorem dropParentheses {cs closing : List Char} (hclosing : ∀ c ∈ closing, isParenthesis c = true)
    (hfirst : ∀ c ∈ cs.head?, isParenthesis c = false)
    (hlast : ∀ c ∈ cs.getLast?, isParenthesis c = false) :
    (((cs ++ closing).dropWhile isParenthesis).reverse.dropWhile isParenthesis).reverse = cs := by
  cases cs with
  | nil =>
    rw [List.nil_append, List.dropWhile_eq_nil_iff.mpr hclosing]
    rfl
  | cons c rest =>
    rw [List.cons_append, List.dropWhile_cons_of_neg (by simp [hfirst c rfl]), ← List.cons_append]
    exact Text.dropWhile_end_append hclosing hlast

section

variable {c : Char} {more : List Char} (hfirst : IsSolid c)
  (hlast : ∀ d ∈ (c :: more).getLast?, IsSolid d)

include hfirst

theorem trimChars_of_solid {space : List Char} (hspace : ∀ d ∈ space, Text.isBlank d = true)
    (hlast : ∀ d ∈ (c :: more).getLast?, Text.isBlank d = false) :
    Text.trimChars (c :: more ++ space) = c :: more :=
  @Text.trimChars_append [] (c :: more) space nofun hspace (fun _ hd => Option.mem_some_iff.mp hd ▸ hfirst.1)
    hlast

include hlast

/-- **The parenthesis that closes a question is taken off**, with the white space in front of it. -/
theorem bareTerm_closed {space : List Char} (hspace : ∀ d ∈ space, Text.isBlank d = true) :
    bareTerm (c :: more ++ (space ++ [')'])) = c :: more := by
  have htrim : Text.trimChars (c :: more ++ space ++ [')']) = c :: more ++ space ++ [')'] := by
    have h := @trimChars_of_solid c (more ++ space ++ [')']) hfirst [] nofun fun d hd => ?_
    · rwa [List.append_nil] at h
    · rw [← List.cons_append, List.getLast?_concat, Option.mem_some_iff] at hd
      exact hd ▸ by decide
  have hdrop : (((c :: more ++ space ++ [')']).dropWhile isParenthesis).reverse.dropWhile
      isParenthesis).reverse = c :: more ++ space := by
    refine dropParentheses (List.forall_mem_singleton.mpr rfl) (fun d hd => Option.mem_some_iff.mp hd ▸ hfirst.2) fun d hd => ?_
    rw [List.getLast?_append, Option.mem_def, Option.or_eq_some_iff] at hd
    rcases hd with hd | ⟨-, hd⟩
    · exact not_parenthesis_of_blank (hspace d (List.mem_of_getLast? hd))
    · exact (hlast d hd).2
  rw [← List.append_assoc, bareTerm, htrim, hdrop]
  exact trimChars_of_solid hfirst hspace fun d hd => (hlast d hd).1

/-- A text that begins and ends with what stays is its own bare form. -/
theorem bareTerm_of_solid : bareTerm (c :: more) = c :: more := by
  have htrim := @trimChars_of_solid c more hfirst [] nofun fun d hd => (hlast d hd).1
  have hdrop := @dropParentheses (c :: more) [] nofun
    (fun d hd => Option.mem_some_iff.mp hd ▸ hfirst.2) fun d hd => (hlast d hd).2
  rw [List.append_nil] at htrim hdrop
  rw [bareTerm, htrim, hdrop, htrim]

end

theorem suffix_of_afterWord? {word cs rest : List Char} (h : afterWord? word cs = some rest) :
    rest <:+ cs := by
  fun_induction afterWord? word cs with
  | case1 cs =>
    cases h
    exact List.suffix_rfl
  | case2 => cases h
  | case3 w word c cs _ ih => exact (ih h).trans (List.suffix_cons c cs)
  | case4 => cases h

theorem suffix_of_quoted? {cs text rest : List Char} (h : quoted? cs = some (text, rest)) :
    rest <:+ cs := by
  unfold quoted? at h
  split at h
  · next cs =>
    split at h
    · next q rest' heq =>
      cases h
      exact ((List.suffix_cons q rest).trans (heq ▸ List.dropWhile_suffix _)).trans
        (List.suffix_cons _ cs)
    · cases h
  · cases h

/-- A question is understood only with its closing parenthesis. -/
theorem fileQuestion?_of_unclosed {cs : List Char} (h : ')' ∉ cs) : fileQuestion? cs = none := by
  rw [Option.eq_none_iff_forall_ne_some]
  intro term hterm
  unfold fileQuestion? at hterm
  split at hterm
  next present body hbody =>
  have hsuffix : body <:+ cs := by
    split at hbody
    · cases hbody
      exact (List.dropWhile_suffix _).trans (List.suffix_cons _ _)
    · cases hbody
      exact List.suffix_rfl
  split at hterm
  · cases hterm
  · next inside hinside =>
    split at hterm
    · cases hterm
    · next path rest hquoted =>
      split at hterm
      · next after hafter =>
        have hrest : ')' :: after <:+ rest := hafter ▸ List.dropWhile_suffix _
        have hclosed := (((hrest.trans (suffix_of_quoted? hquoted)).trans
          (List.dropWhile_suffix _)).trans (suffix_of_afterWord? hinside)).trans hsuffix
        exact h (hclosed.subset List.mem_cons_self)
      · cases hterm

theorem mem_dropWhile {α : Type} {p : α → Bool} {l : List α} {x : α} (hx : x ∈ l) (hp : p x = false) :
    x ∈ l.dropWhile p := by
  rw [← List.takeWhile_append_dropWhile (p := p) (l := l), List.mem_append] at hx
  refine hx.resolve_left fun htake => ?_
  rw [List.mem_takeWhile_imp htake] at hp
  cases hp

/-- A character that lower case leaves as it is, and that neither of the two truth values is written
with. -/
def IsForeign (c : Char) : Prop :=
  c ∈ Text.mapCase Text.lowerRuns Text.lowerExpansions c ∧ c ∉ "'truefalseΣ".toList

theorem mem_lowerFrom {c : Char} (hc : IsForeign c) {cs : List Char} (h : c ∈ cs)
    (before : List Char) : c ∈ Text.lowerFrom before cs := by
  induction cs generalizing before with
  | nil => cases h
  | cons d rest ih =>
    rw [Text.lowerFrom, List.mem_append]
    rcases List.mem_cons.mp h with rfl | h
    · rw [if_neg (by rintro rfl; exact hc.2 (by decide))]
      exact .inl hc.1
    · exact .inr (ih h _)

/-- A truth value has no foreign character in it. -/
theorem constant?_of_foreign {c : Char} (hc : IsForeign c) {cs : List Char} (h : c ∈ cs) :
    constant? cs = none := by
  have hquote : decide (c = '\'') = false := by
    rw [decide_eq_false_iff_not]
    rintro rfl
    exact hc.2 (by decide)
  have hmem : c ∈ (Text.dropEnd (Text.dropStart (Text.lower (String.ofList cs)) (· = '\''))
      (· = '\'')).toList := by
    rw [Text.dropEnd, Text.dropStart, Text.lower, String.toList_ofList, String.toList_ofList,
      String.toList_ofList, String.toList_ofList, List.mem_reverse]
    exact mem_dropWhile (List.mem_reverse.mpr (mem_dropWhile (mem_lowerFrom hc h []) hquote)) hquote
  have hletters : ∀ d ∈ "true".toList ++ "false".toList, d ∈ "'truefalseΣ".toList :=
    List.forall_iff_forall_mem.mp (by decide)
  simp only [constant?]
  generalize Text.dropEnd _ _ = word at hmem ⊢
  rw [if_neg, if_neg]
  · rintro rfl
    exact hc.2 (hletters c (List.mem_append_right _ hmem))
  · rintro rfl
    exact hc.2 (hletters c (List.mem_append_left _ hmem))

/-! ### Terms as they are read -/

/-- A text in quotes is read back. -/
theorem quoted?_plain {cs : List Char} (h : '\'' ∉ cs) (rest : List Char) :
    quoted? ('\'' :: (cs ++ '\'' :: rest)) = some (cs, rest) := by
  have hchars : ∀ c ∈ cs, decide (c ≠ '\'') = true := fun c hc =>
    decide_eq_true fun heq => h (heq ▸ hc)
  have htake : (cs ++ '\'' :: rest).takeWhile (· ≠ '\'') = cs := by
    rw [List.takeWhile_append_of_pos hchars, List.takeWhile_cons_of_neg (by decide), List.append_nil]
  have hdrop : (cs ++ '\'' :: rest).dropWhile (· ≠ '\'') = '\'' :: rest := by
    rw [List.dropWhile_append_of_pos hchars, List.dropWhile_cons_of_neg (by decide)]
  simp only [quoted?, hdrop, htake]

theorem quoted?_of_ne {c : Char} (hc : c ≠ '\'') (more : List Char) : quoted? (c :: more) = none := by
  unfold quoted?
  split
  · next heq => exact absurd (List.cons.inj heq).1 hc
  · rfl

theorem Space.not_mem (s : Space) {c : Char} (hc : Text.isBlank c = false) : c ∉ s.chars := by
  intro h
  rw [s.blank c h] at hc
  cases hc

/-- What is left of a question has an opening parenthesis and no closing one. -/
theorem Question.parentheses_opened (q : Question) : '(' ∈ q.opened ∧ ')' ∉ q.opened := by
  have hsign : ')' ∉ q.sign := by
    rw [Question.sign]
    split
    · exact List.not_mem_nil
    · rw [List.mem_cons]
      exact not_or.mpr ⟨by decide, q.afterSign.not_mem (by decide)⟩
  have hword : ')' ∉ q.word := fun h =>
    absurd ((letters_of_exists q.spelled).2 _ h).2.1 (by decide)
  have hpath : ')' ∉ q.path.chars := fun h => absurd (q.noParenthesis _ h) (by decide)
  have hopening := q.beforeOpening.not_mem (c := ')') (by decide)
  have hbefore := q.beforePath.not_mem (c := ')') (by decide)
  constructor
  · simp [Question.opened]
  · simp [Question.opened, hsign, hword, hpath, hopening, hbefore]

theorem Question.last_opened (q : Question) : q.opened.getLast? = some '\'' := by
  have hsplit : q.opened = (q.sign ++ (q.word ++ (q.beforeOpening.chars ++ '(' ::
      (q.beforePath.chars ++ '\'' :: q.path.chars)))) ++ ['\''] := by
    simp [Question.opened]
  rw [hsplit, List.getLast?_concat]

/-- **A question is not understood.** -/
theorem readTerm_question (q : Question) :
    readTerm (WrittenTerm.question q).chars = .unclear (String.ofList q.opened) := by
  obtain ⟨c, more, hopened, hc, hquote⟩ := q.head_opened
  have hlast : ∀ d ∈ (c :: more).getLast?, IsSolid d := by
    rw [← hopened, q.last_opened]
    exact fun d hd => Option.mem_some_iff.mp hd ▸ by decide
  have hbare : bareTerm (WrittenTerm.question q).chars = q.opened := by
    rw [WrittenTerm.chars, hopened]
    exact bareTerm_closed hc hlast q.afterPath.blank
  have hcomparison : comparison? q.opened = none := by
    rw [comparison?, hopened, quoted?_of_ne hquote]
  have hforeign : IsForeign '(' := ⟨by decide, by decide⟩
  rw [readTerm, hbare, hcomparison, fileQuestion?_of_unclosed q.parentheses_opened.2,
    constant?_of_foreign hforeign q.parentheses_opened.1]
  rfl

/-- A comparison is read as it is written. -/
theorem readTerm_comparison (c : Comparison) :
    readTerm (WrittenTerm.comparison c).chars =
      .compare (String.ofList c.left.chars) (String.ofList c.right.chars) c.equal := by
  have hlast : ∀ d ∈ (WrittenTerm.comparison c).chars.getLast?, IsSolid d := by
    have hsplit : (WrittenTerm.comparison c).chars = ('\'' :: (c.left.chars ++ '\'' ::
        (c.beforeSign.chars ++ (c.sign ++ (c.afterSign.chars ++ '\'' :: c.right.chars))))) ++ ['\''] := by
      simp [WrittenTerm.chars]
    rw [hsplit, List.getLast?_concat]
    exact fun d hd => Option.mem_some_iff.mp hd ▸ by decide
  have hbare : bareTerm (WrittenTerm.comparison c).chars = (WrittenTerm.comparison c).chars :=
    bareTerm_of_solid (by decide) hlast
  have hright : (c.afterSign.chars ++ '\'' :: (c.right.chars ++ ['\''])).dropWhile Text.isBlank =
      '\'' :: (c.right.chars ++ ['\'']) := dropWhile_blank c.afterSign.blank (by decide)
  have hcomparison : comparison? (WrittenTerm.comparison c).chars =
      some (.compare (String.ofList c.left.chars) (String.ofList c.right.chars) c.equal) := by
    rw [WrittenTerm.chars, Comparison.sign, comparison?, quoted?_plain c.left.noQuote]
    have hleft {d : Char} (hd : Text.isBlank d = false) (rest : List Char) :
        (c.beforeSign.chars ++ d :: rest).dropWhile Text.isBlank = d :: rest :=
      dropWhile_blank c.beforeSign.blank hd
    cases c.equal with
    | true =>
      rw [if_pos rfl]
      simp only [List.cons_append, List.nil_append, hleft (by decide : Text.isBlank '=' = false), hright,
        quoted?_plain c.right.noQuote]
      rfl
    | false =>
      rw [if_neg Bool.false_ne_true]
      simp only [List.cons_append, List.nil_append, hleft (by decide : Text.isBlank '!' = false), hright,
        quoted?_plain c.right.noQuote]
      rfl
  rw [readTerm, hbare, hcomparison]
  rfl

/-! ### Values of written conditions -/

section

variable (tree : FileTree) (directory : String)

theorem holds_readTerm (t : WrittenTerm) :
    (readTerm t.chars).holds tree directory = t.counted := by
  cases t with
  | question q => rw [readTerm_question, Term.holds, WrittenTerm.counted]
  | comparison c =>
    rw [readTerm_comparison, Term.holds, WrittenTerm.counted, Comparison.answer]

/-- What is listed of a term. -/
def Term.unclear? : Term → Option String
  | .unclear written => some written
  | _ => none

theorem unclearTerms_eq (condition : String) :
    unclearTerms condition = (terms condition).filterMap fun t => (readTerm t.2).unclear? :=
  rfl

theorem unclear?_readTerm (t : WrittenTerm) : (readTerm t.chars).unclear? = t.unclear? := by
  cases t with
  | question q =>
    rw [readTerm_question]
    rfl
  | comparison c =>
    rw [readTerm_comparison]
    rfl

/-- A condition that is a single question holds. -/
theorem holds_question (w : WrittenCondition) {q : Question} (hfirst : w.first = .question q)
    (hjoints : w.joints = []) : holds tree directory w.text = true := by
  rw [holds, terms_written, hfirst, hjoints]
  simp only [List.map_nil, List.foldl_cons, List.foldl_nil, holds_readTerm]
  rfl

/-- **Questions about files are not asked.**  A condition holds as if every question in it were answered
with yes, whatever files there are; its questions are listed as unclear. So the condition has the value
that it means where these answers are right, and a single question just if its answer is yes. -/
theorem holds_written (w : WrittenCondition) :
    holds tree directory w.text = w.value WrittenTerm.counted ∧
      unclearTerms w.text = ((w.first :: w.joints.map (·.term)).filterMap WrittenTerm.unclear?) ∧
      ∀ q, w.first = .question q → w.joints = [] →
        (holds tree directory w.text = w.value (WrittenTerm.meant tree directory) ↔
          tree.contains (Path.resolve (String.ofList q.path.chars) directory) = q.present) := by
  refine ⟨?_, ?_, fun q hfirst hjoints => ?_⟩
  · rw [holds, terms_written, List.foldl_cons, List.foldl_map]
    simp only [holds_readTerm]
    rfl
  · rw [unclearTerms_eq, terms_written, List.filterMap_cons, List.filterMap_cons, List.filterMap_map,
      List.filterMap_map, unclear?_readTerm]
    simp only [Function.comp_def, unclear?_readTerm]
  · rw [holds_question tree directory w hfirst hjoints, WrittenCondition.value, hfirst, hjoints,
      List.foldl_nil, WrittenTerm.meant, Question.answer, eq_comm, beq_iff_eq]

end

/-! A question about a file that is missing. -/

/-- `Exists('missing')`. -/
def missingQuestion : Question where
  present := true
  afterSign := ⟨[], nofun⟩
  word := "Exists".toList
  spelled := by decide
  beforeOpening := ⟨[], nofun⟩
  beforePath := ⟨[], nofun⟩
  path := ⟨"missing".toList, by decide, by
    rintro op front word rest a b h ha - -
    have hblank : ∀ c ∈ "missing".toList, Text.isBlank c = false := List.forall_iff_forall_mem.mp (by decide)
    rw [h] at hblank
    rw [hblank a (by simp)] at ha
    cases ha⟩
  noParenthesis := List.forall_iff_forall_mem.mp (by decide)
  afterPath := ⟨[], nofun⟩

/-- The condition that is this question. -/
def missingCondition : WrittenCondition where
  front := ⟨[], nofun⟩
  first := .question missingQuestion
  joints := []
  back := ⟨[], nofun⟩

theorem missingCondition_holds : missingCondition.text = "Exists('missing')" ∧
    holds (.directory []) "/w" missingCondition.text = true ∧
    missingCondition.value (WrittenTerm.meant (.directory []) "/w") = false := by
  refine ⟨by decide, ?_, by decide⟩
  rw [(holds_written (.directory []) "/w" missingCondition).1]
  rfl

end ExtensionCensus.Condition
