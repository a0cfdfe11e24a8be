import ExtensionCensus.Project.Solution
import ExtensionCensus.Proofs.Text.Case
import ExtensionCensus.Proofs.Text.Utf8

/-!
# Entries of a solution file

What is read from a solution file of the older format, one line after the other.

* `WrittenEntry.chars`, `SolutionLine`, `WritesLines` — an entry as a line writes it, with any white
  space around its signs; a line; a text with lines of which each ends in either way.
* `entryAt?_chars` — an entry is read off the start of its line, and nothing more than the entry;
* `writtenEntries_lines` — the entries of a text are those of its lines;
* `readSolution_lines` — **a solution file gives, in order and with multiplicity, the entries that
  its lines write and whose paths end like those of projects**.
-/

namespace ExtensionCensus

open Text (Bytes isBlank normalizeLines)

/-! ### Entries as written -/

/-- White space on the two sides of a sign. -/
structure Margins where
  before : List Char
  behind : List Char

/-- Nothing but white space. -/
structure Margins.IsWhite (m : Margins) : Prop where
  before : ∀ c ∈ m.before, isBlank c = true
  behind : ∀ c ∈ m.behind, isBlank c = true

theorem Margins.IsWhite.of_all {m : Margins} (h : (m.before ++ m.behind).all isBlank = true) :
    m.IsWhite :=
  have hwhite := List.forall_mem_append.mp (List.all_eq_true.mp h)
  ⟨hwhite.1, hwhite.2⟩

/-- A sign with its margins. -/
def Margins.around (m : Margins) (sign : Char) : List Char :=
  m.before ++ sign :: m.behind

/-- The white space of an entry: around the equals sign and around the two commas. -/
structure EntrySpacing where
  equals : Margins
  first : Margins
  second : Margins

/-- Nothing but white space. -/
structure EntrySpacing.IsWhite (s : EntrySpacing) : Prop where
  equals : s.equals.IsWhite
  first : s.first.IsWhite
  second : s.second.IsWhite

/-- A text in double quotes. -/
def quoted (cs : List Char) : List Char :=
  '"' :: (cs ++ ['"'])

/-- A text in braces. -/
def braced (cs : List Char) : List Char :=
  '\x7b' :: (cs ++ ['\x7d'])

/-- What stands in front of the type of an entry, but for its brace. -/
def entryHead : List Char :=
  "Project(\"".toList

/-- What stands behind the type of an entry. -/
def typeEnd : List Char :=
  "\")".toList

/-- What every entry starts with. -/
def entryOpening : List Char :=
  entryHead ++ ['\x7b']

/-- An entry as a line writes it, up to its last quote. -/
def WrittenEntry.chars (e : WrittenEntry) (s : EntrySpacing) : List Char :=
  entryHead ++ (braced e.projectType ++ (typeEnd ++ (s.equals.around '=' ++
    (quoted e.name ++ (s.first.around ',' ++ (quoted e.path ++ (s.second.around ',' ++
      quoted (braced e.guid))))))))

/-- No line ends inside. -/
def NoBreak (cs : List Char) : Prop :=
  '\n' ∉ cs ∧ '\r' ∉ cs

/-- A text that may stand in double quotes. -/
structure Quotable (cs : List Char) : Prop where
  noQuote : '"' ∉ cs
  noBreak : NoBreak cs

/-- A text that may stand in braces that are in double quotes. -/
structure Braceable (cs : List Char) : Prop extends Quotable cs where
  nonempty : cs ≠ []
  noBrace : '\x7d' ∉ cs

/-- The parts of an entry fit into their places. -/
structure WrittenEntry.IsWritable (e : WrittenEntry) : Prop where
  projectType : Braceable e.projectType
  name : Quotable e.name
  path : Quotable e.path
  guid : Braceable e.guid

/-- The entry as a solution in the directory `base` lists it. -/
def WrittenEntry.listed (base : String) (e : WrittenEntry) : SolutionEntry :=
  { name := String.ofList e.name
    path := Path.resolve (String.ofList e.path) base
    projectType := Text.upper (String.ofList e.projectType)
    guid := Text.upper (String.ofList e.guid) }

/-! ### Lines -/

/-- A line: an entry with some text behind it, or anything else. -/
inductive SolutionLine where
  | entry (e : WrittenEntry) (s : EntrySpacing) (behind : List Char)
  | other (text : List Char)

namespace SolutionLine

/-- The characters of a line. -/
def chars : SolutionLine → List Char
  | .entry e s behind => e.chars s ++ behind
  | .other text => text

/-- The entry of a line. -/
def entry? : SolutionLine → Option WrittenEntry
  | .entry e _ _ => some e
  | .other _ => none

/-- An entry has parts that fit; any other line does not start like one. -/
def IsWritable : SolutionLine → Prop
  | .entry e s behind => e.IsWritable ∧ s.IsWhite ∧ NoBreak behind
  | .other text => NoBreak text ∧ ¬entryOpening <+: text

end SolutionLine

/-- A text of some lines: behind each line but the last one stands a line feed, with or without a
carriage return. -/
inductive WritesLines : List SolutionLine → List Char → Prop where
  | last (line : SolutionLine) : WritesLines [line] line.chars
  | feed (line : SolutionLine) {lines : List SolutionLine} {text : List Char}
      (rest : WritesLines lines text) : WritesLines (line :: lines) (line.chars ++ '\n' :: text)
  | returnFeed (line : SolutionLine) {lines : List SolutionLine} {text : List Char}
      (rest : WritesLines lines text) :
      WritesLines (line :: lines) (line.chars ++ '\r' :: '\n' :: text)

/-! ### Reading an entry -/

theorem after?_append (head rest : List Char) : after? head (head ++ rest) = some rest := by
  rw [after?, if_pos (List.isPrefixOf_iff_prefix.mpr (List.prefix_append head rest)),
    List.drop_left]

theorem upTo?_append {c : Char} {cs : List Char} (h : c ∉ cs) (rest : List Char) :
    upTo? c (cs ++ c :: rest) = some (cs, rest) := by
  have hpass : ∀ d ∈ cs, decide (d ≠ c) = true := fun d hd => by
    rw [decide_eq_true_eq]
    rintro rfl
    exact h hd
  rw [upTo?, List.dropWhile_append_of_pos hpass, List.takeWhile_append_of_pos hpass,
    List.dropWhile_cons_of_neg (by simp), List.takeWhile_cons_of_neg (by simp), List.append_nil]

theorem quotedField?_append {cs : List Char} (h : '"' ∉ cs) (rest : List Char) :
    quotedField? (quoted cs ++ rest) = some (cs, rest) := by
  have hsplit : quoted cs ++ rest = ['"'] ++ (cs ++ '"' :: rest) := by simp [quoted]
  rw [quotedField?, hsplit, after?_append, Option.bind_some, upTo?_append h]

theorem bracedField?_append {cs : List Char} (hne : cs ≠ []) (h : '\x7d' ∉ cs)
    (rest : List Char) : bracedField? (braced cs ++ rest) = some (cs, rest) := by
  have hsplit : braced cs ++ rest = ['\x7b'] ++ (cs ++ '\x7d' :: rest) := by simp [braced]
  rw [bracedField?, hsplit, after?_append, Option.bind_some, upTo?_append h, Option.filter_some,
    if_pos (by simpa using hne)]

/-- A sign is found between its margins; they end where a quote follows. -/
theorem afterSign?_around {m : Margins} {sign : Char} (hm : m.IsWhite) (h : isBlank sign = false)
    (cs rest : List Char) :
    afterSign? sign (m.around sign ++ (quoted cs ++ rest)) = some (quoted cs ++ rest) := by
  have hsplit : m.around sign ++ (quoted cs ++ rest) =
      m.before ++ sign :: (m.behind ++ (quoted cs ++ rest)) := by
    simp [Margins.around]
  have hsign := after?_append [sign] (m.behind ++ (quoted cs ++ rest))
  rw [List.singleton_append] at hsign
  rw [afterSign?, hsplit, List.dropWhile_append_of_pos hm.before,
    List.dropWhile_cons_of_neg (by simp [h]), hsign, Option.map_some,
    List.dropWhile_append_of_pos hm.behind, quoted, List.cons_append,
    List.dropWhile_cons_of_neg (by decide)]

/-- The text in quotes behind a sign. -/
theorem quotedField?_around {m : Margins} {sign : Char} {cs : List Char} (hm : m.IsWhite)
    (hsign : isBlank sign = false) (hcs : '"' ∉ cs) (rest : List Char) :
    (afterSign? sign (m.around sign ++ (quoted cs ++ rest))).bind quotedField? =
      some (cs, rest) := by
  rw [afterSign?_around hm hsign, Option.bind_some, quotedField?_append hcs]

/-- The parts of an entry are read one after the other. -/
theorem entryAt?_of_parts {cs cs₁ cs₂ cs₃ cs₄ rest : List Char} {e : WrittenEntry}
    (htype : (after? entryHead cs).bind bracedField? = some (e.projectType, cs₁))
    (hname : ((after? typeEnd cs₁).bind (afterSign? '=')).bind quotedField? = some (e.name, cs₂))
    (hpath : (afterSign? ',' cs₂).bind quotedField? = some (e.path, cs₃))
    (hguid : ((afterSign? ',' cs₃).bind (after? ['"'])).bind bracedField? = some (e.guid, cs₄))
    (hrest : after? ['"'] cs₄ = some rest) : entryAt? cs = some (e, rest) := by
  change (after? "Project(\"".toList cs).bind bracedField? = _ at htype
  change ((after? "\")".toList cs₁).bind (afterSign? '=')).bind quotedField? = _ at hname
  simp only [entryAt?, htype, hname, hpath, hguid, hrest, Option.bind_eq_bind, Option.bind_some]
  rfl

/-- An entry is read off the start of its line, and what follows its last quote is left. -/
theorem entryAt?_chars {e : WrittenEntry} {s : EntrySpacing} (he : e.IsWritable) (hs : s.IsWhite)
    (rest : List Char) : entryAt? (e.chars s ++ rest) = some (e, rest) := by
  have hequals : isBlank '=' = false := by decide
  have hcomma : isBlank ',' = false := by decide
  have hquoted : quoted (braced e.guid) ++ rest =
      ['"'] ++ (braced e.guid ++ (['"'] ++ rest)) := by
    simp [quoted]
  simp only [WrittenEntry.chars, List.append_assoc]
  -- from the last part to the first, so that each tail is a name in front of the next part
  have hguid : ((afterSign? ',' (s.second.around ',' ++ (quoted (braced e.guid) ++ rest))).bind
      (after? ['"'])).bind bracedField? = some (e.guid, ['"'] ++ rest) := by
    rw [afterSign?_around hs.second hcomma, Option.bind_some, hquoted, after?_append,
      Option.bind_some, bracedField?_append he.guid.nonempty he.guid.noBrace]
  generalize s.second.around ',' ++ (quoted (braced e.guid) ++ rest) = cs₃ at hguid ⊢
  have hpath := quotedField?_around hs.first hcomma he.path.noQuote cs₃
  generalize s.first.around ',' ++ (quoted e.path ++ cs₃) = cs₂ at hpath ⊢
  have hname : ((after? typeEnd (typeEnd ++ (s.equals.around '=' ++ (quoted e.name ++ cs₂)))).bind
      (afterSign? '=')).bind quotedField? = some (e.name, cs₂) := by
    rw [after?_append, Option.bind_some, quotedField?_around hs.equals hequals he.name.noQuote]
  refine entryAt?_of_parts ?_ hname hpath hguid (after?_append ['"'] rest)
  rw [after?_append, Option.bind_some,
    bracedField?_append he.projectType.nonempty he.projectType.noBrace]

/-! ### Reading lines -/

/-- The characters that are still to pass over are passed over; the last one ends no line. -/
theorem writtenEntries_skip (atLineStart : Bool) (cs : List Char) {c : Char} (hc : c ≠ '\n')
    (rest : List Char) :
    writtenEntries atLineStart (cs.length + 1) (cs ++ c :: rest) = writtenEntries false 0 rest := by
  induction cs generalizing atLineStart with
  | nil => rw [List.length_nil, List.nil_append, writtenEntries, decide_eq_false hc]
  | cons d cs ih => rw [List.length_cons, List.cons_append, writtenEntries, ih]

/-- Where no entry starts, the start of a line is like any other place. -/
theorem writtenEntries_of_none {cs : List Char} (h : entryAt? cs = none) :
    writtenEntries true 0 cs = writtenEntries false 0 cs := by
  cases cs with
  | nil => rw [writtenEntries, writtenEntries]
  | cons c rest => simp only [writtenEntries, h, ite_self]

/-- Inside a line nothing is read up to its end. -/
theorem writtenEntries_inside {cs : List Char} (h : '\n' ∉ cs) (rest : List Char) :
    writtenEntries false 0 (cs ++ rest) = writtenEntries false 0 rest := by
  induction cs with
  | nil => rfl
  | cons c cs ih =>
    obtain ⟨hc, hcs⟩ := not_or.mp (List.mem_cons.not.mp h)
    rw [List.cons_append, writtenEntries]
    simp only [Bool.false_eq_true, if_false, decide_eq_false (Ne.symm hc)]
    exact ih hcs

/-- A line feed starts a line. -/
theorem writtenEntries_feed (rest : List Char) :
    writtenEntries false 0 ('\n' :: rest) = writtenEntries true 0 rest := by
  rw [writtenEntries]
  simp

/-- An entry at the start of a line is read, and the reading goes on behind its last quote. -/
theorem writtenEntries_entry {e : WrittenEntry} {s : EntrySpacing} (he : e.IsWritable)
    (hs : s.IsWhite) (rest : List Char) :
    writtenEntries true 0 (e.chars s ++ rest) = e :: writtenEntries false 0 rest := by
  obtain ⟨c, cs, hchars⟩ : ∃ c cs, e.chars s = c :: (cs ++ ['"']) :=
    ⟨_, _, by simp only [WrittenEntry.chars, quoted, ← List.append_assoc, ← List.cons_append]; rfl⟩
  have hread := entryAt?_chars he hs rest
  rw [hchars, List.cons_append, List.append_assoc, List.singleton_append] at hread ⊢
  have hlength : (cs ++ '"' :: rest).length - rest.length = cs.length + 1 := by
    rw [List.length_append, List.length_cons]
    omega
  rw [writtenEntries, if_pos rfl, hread]
  dsimp only
  rw [hlength, writtenEntries_skip _ _ (by decide)]

/-- What does not start like an entry is none. -/
theorem entryAt?_eq_none {cs : List Char} (h : ¬entryOpening <+: cs) : entryAt? cs = none := by
  have htype : (after? entryHead cs).bind bracedField? = none := by
    rw [after?]
    split
    · next hhead =>
      obtain ⟨rest, rfl⟩ := List.isPrefixOf_iff_prefix.mp hhead
      have hbrace : ¬['\x7b'] <+: rest := fun hrest =>
        h ((List.prefix_append_right_inj entryHead).mpr hrest)
      rw [List.drop_left, Option.bind_some, bracedField?, after?,
        if_neg (List.isPrefixOf_iff_prefix.not.mpr hbrace)]
      rfl
    · rfl
  change (after? "Project(\"".toList cs).bind bracedField? = none at htype
  simp only [entryAt?, htype, Option.bind_eq_bind, Option.bind_none]

/-- A line feed behind a text that starts differently does not make it start like an entry. -/
theorem not_opening_append {cs : List Char} (h : ¬entryOpening <+: cs) (rest : List Char) :
    ¬entryOpening <+: cs ++ '\n' :: rest := by
  intro hopening
  rcases List.prefix_or_prefix_of_prefix hopening (List.prefix_append cs ('\n' :: rest)) with
    hfront | hfront
  · exact h hfront
  · obtain ⟨tail, htail⟩ := hfront
    cases tail with
    | nil => exact h ⟨[], by rw [List.append_nil, ← htail, List.append_nil]⟩
    | cons c tail =>
      rw [← htail, List.prefix_append_right_inj, List.cons_prefix_cons] at hopening
      have hmem : '\n' ∈ entryOpening := by
        rw [← htail, hopening.1]
        simp
      exact absurd hmem (by decide)

/-! ### Line ends -/

theorem normalizeLines_cons {c : Char} (h : c ≠ '\r') (rest : List Char) :
    normalizeLines (c :: rest) = c :: normalizeLines rest :=
  Text.normalizeLines.eq_3 c rest (fun _ hc _ => h hc) h

/-- A text without carriage returns stays, whatever follows it. -/
theorem normalizeLines_of_not_mem {cs : List Char} (h : '\r' ∉ cs) (rest : List Char) :
    normalizeLines (cs ++ rest) = cs ++ normalizeLines rest := by
  induction cs with
  | nil => rfl
  | cons c cs ih =>
    obtain ⟨hc, hcs⟩ := not_or.mp (List.mem_cons.not.mp h)
    rw [List.cons_append, List.cons_append, normalizeLines_cons (Ne.symm hc), ih hcs]

/-- White space in front of a character stays white space, and changes nothing behind it. -/
theorem exists_white {cs : List Char} (h : ∀ c ∈ cs, isBlank c = true) {c : Char} (hc : c ≠ '\n')
    (rest : List Char) :
    ∃ white : List Char, (∀ c ∈ white, isBlank c = true) ∧
      normalizeLines (cs ++ c :: rest) = white ++ normalizeLines (c :: rest) := by
  have hfeed : isBlank '\n' = true := by decide
  induction cs using Text.normalizeLines.induct with
  | case1 cs ih =>
    obtain ⟨white, hwhite, heq⟩ := ih fun d hd =>
      h d (List.mem_cons_of_mem _ (List.mem_cons_of_mem _ hd))
    refine ⟨'\n' :: white, List.forall_mem_cons.mpr ⟨hfeed, hwhite⟩, ?_⟩
    rw [List.cons_append, List.cons_append, normalizeLines, heq, List.cons_append]
  | case2 cs hcs ih =>
    obtain ⟨white, hwhite, heq⟩ := ih fun d hd => h d (List.mem_cons_of_mem _ hd)
    refine ⟨'\n' :: white, List.forall_mem_cons.mpr ⟨hfeed, hwhite⟩, ?_⟩
    have hnext : ∀ tail, cs ++ c :: rest = '\n' :: tail → False := by
      intro tail htail
      cases cs with
      | nil => exact hc (List.cons.inj htail).1
      | cons d cs => exact hcs cs (congrArg (· :: cs) (List.cons.inj htail).1)
    rw [List.cons_append, Text.normalizeLines.eq_2 _ hnext, heq, List.cons_append]
  | case3 d cs _ hd ih =>
    obtain ⟨white, hwhite, heq⟩ := ih fun d hd => h d (List.mem_cons_of_mem _ hd)
    refine ⟨d :: white, List.forall_mem_cons.mpr ⟨h d List.mem_cons_self, hwhite⟩, ?_⟩
    rw [List.cons_append, normalizeLines_cons hd, heq, List.cons_append]
  | case4 => exact ⟨[], fun _ hd => absurd hd List.not_mem_nil, rfl⟩

theorem normalizeLines_quoted {cs : List Char} (h : '\r' ∉ cs) (rest : List Char) :
    normalizeLines (quoted cs ++ rest) = quoted cs ++ normalizeLines rest :=
  normalizeLines_of_not_mem (by simp [quoted, h]) rest

/-- The margins of a sign stay white, and what stands in quotes behind it does not change. -/
theorem exists_margins {m : Margins} {sign : Char} {cs : List Char} (hm : m.IsWhite)
    (hfeed : sign ≠ '\n') (hreturn : sign ≠ '\r') (hcs : '\r' ∉ cs) (rest : List Char) :
    ∃ m' : Margins, m'.IsWhite ∧
      normalizeLines (m.around sign ++ (quoted cs ++ rest)) =
        m'.around sign ++ (quoted cs ++ normalizeLines rest) := by
  obtain ⟨before, hbefore, heq⟩ :=
    exists_white hm.before hfeed (m.behind ++ (quoted cs ++ rest))
  obtain ⟨behind, hbehind, heq'⟩ :=
    exists_white hm.behind (by decide : '"' ≠ '\n') (cs ++ ['"'] ++ rest)
  refine ⟨⟨before, behind⟩, ⟨hbefore, hbehind⟩, ?_⟩
  calc normalizeLines (m.around sign ++ (quoted cs ++ rest))
      = normalizeLines (m.before ++ sign :: (m.behind ++ (quoted cs ++ rest))) := by
        simp [Margins.around]
    _ = before ++ sign :: normalizeLines (m.behind ++ (quoted cs ++ rest)) := by
        rw [heq, normalizeLines_cons hreturn]
    _ = before ++ sign :: (behind ++ normalizeLines (quoted cs ++ rest)) := by
        rw [quoted, List.cons_append, heq']
    _ = (⟨before, behind⟩ : Margins).around sign ++ (quoted cs ++ normalizeLines rest) := by
        rw [normalizeLines_quoted hcs]
        simp [Margins.around]

/-- An entry stays the same entry. -/
theorem exists_spacing {e : WrittenEntry} {s : EntrySpacing} (he : e.IsWritable) (hs : s.IsWhite)
    (rest : List Char) :
    ∃ s' : EntrySpacing, s'.IsWhite ∧
      normalizeLines (e.chars s ++ rest) = e.chars s' ++ normalizeLines rest := by
  have hguid : '\r' ∉ braced e.guid := by simp [braced, he.guid.noBreak.2]
  have hfront : '\r' ∉ entryHead ++ (braced e.projectType ++ typeEnd) := by
    have hhead : '\r' ∉ entryHead := by decide
    have hend : '\r' ∉ typeEnd := by decide
    simp [braced, he.projectType.noBreak.2, hhead, hend]
  obtain ⟨second, hsecond, heq₃⟩ := exists_margins hs.second (by decide : ',' ≠ '\n') (by decide)
    hguid rest
  obtain ⟨first, hfirst, heq₂⟩ := exists_margins hs.first (by decide : ',' ≠ '\n') (by decide)
    he.path.noBreak.2 (s.second.around ',' ++ (quoted (braced e.guid) ++ rest))
  obtain ⟨equals, hequals, heq₁⟩ := exists_margins hs.equals (by decide : '=' ≠ '\n') (by decide)
    he.name.noBreak.2 (s.first.around ',' ++ (quoted e.path ++ (s.second.around ',' ++
      (quoted (braced e.guid) ++ rest))))
  have heq₀ := normalizeLines_of_not_mem hfront (s.equals.around '=' ++ (quoted e.name ++
    (s.first.around ',' ++ (quoted e.path ++ (s.second.around ',' ++
      (quoted (braced e.guid) ++ rest))))))
  refine ⟨⟨equals, first, second⟩, ⟨hequals, hfirst, hsecond⟩, ?_⟩
  simp only [List.append_assoc] at heq₀
  simp only [WrittenEntry.chars, List.append_assoc, heq₀, heq₁, heq₂, heq₃]

/-! ### Texts -/

/-- A line at its start gives its entry, and the reading goes on inside the line. -/
theorem writtenEntries_line {line : SolutionLine} (h : line.IsWritable) {rest : List Char}
    (hrest : rest = [] ∨ ∃ text, normalizeLines rest = '\n' :: text) :
    writtenEntries true 0 (normalizeLines (line.chars ++ rest)) =
      line.entry?.toList ++ writtenEntries false 0 (normalizeLines rest) := by
  cases line with
  | entry e s behind =>
    obtain ⟨he, hs, hbehind⟩ := h
    obtain ⟨s', hs', heq⟩ := exists_spacing he hs (behind ++ rest)
    rw [SolutionLine.chars, List.append_assoc, heq, writtenEntries_entry he hs',
      normalizeLines_of_not_mem hbehind.2, writtenEntries_inside hbehind.1]
    rfl
  | other text =>
    obtain ⟨htext, hopening⟩ := h
    have hnone : entryAt? (text ++ normalizeLines rest) = none := by
      refine entryAt?_eq_none ?_
      rcases hrest with rfl | ⟨tail, htail⟩
      · rwa [normalizeLines, List.append_nil]
      · rw [htail]
        exact not_opening_append hopening tail
    rw [SolutionLine.chars, normalizeLines_of_not_mem htext.2, writtenEntries_of_none hnone,
      writtenEntries_inside htext.1]
    rfl

/-- The entries of a text are those of its lines. -/
theorem writtenEntries_lines {lines : List SolutionLine} {text : List Char}
    (h : WritesLines lines text) (hlines : ∀ line ∈ lines, line.IsWritable) :
    writtenEntries true 0 (normalizeLines text) = lines.filterMap SolutionLine.entry? := by
  induction h with
  | last line =>
    have hline := writtenEntries_line (hlines line List.mem_cons_self) (.inl rfl)
    rw [List.append_nil] at hline
    rw [hline, List.filterMap_cons, List.filterMap_nil]
    cases line <;> rfl
  | feed line _ ih =>
    have hfeed := normalizeLines_cons (by decide : '\n' ≠ '\r')
    rw [writtenEntries_line (hlines line List.mem_cons_self) (.inr ⟨_, hfeed _⟩), hfeed,
      writtenEntries_feed, ih fun l hl => hlines l (List.mem_cons_of_mem _ hl)]
    cases line <;> rfl
  | returnFeed line _ ih =>
    rw [writtenEntries_line (hlines line List.mem_cons_self) (.inr ⟨_, Text.normalizeLines.eq_1 _⟩),
      Text.normalizeLines.eq_1, writtenEntries_feed,
      ih fun l hl => hlines l (List.mem_cons_of_mem _ hl)]
    cases line <;> rfl

/-! ### Files -/

/-- The bytes of a text, with or without the mark that may stand in front of it. -/
inductive Encodes (text : String) : Bytes → Prop where
  | plain (h : text.toList.head? ≠ some '\uFEFF') : Encodes text text.toUTF8.data
  | marked : Encodes text (orderMarkBytes.toArray ++ text.toUTF8.data)

/-- A text whose bytes start like the mark starts with the mark. -/
theorem head?_of_orderMark {text : String} (h : orderMarkBytes <+: text.toUTF8.data.toList) :
    text.toList.head? = some '\uFEFF' := by
  obtain ⟨rest, hrest⟩ := h
  have hmark : Text.decodeStrict (orderMarkBytes ++ rest) =
      (Text.strictFrom 3 none 3 rest).map ('\uFEFF' :: ·) := rfl
  have htext := Text.decodeStrict_toUTF8 text
  rw [← hrest, hmark] at htext
  cases hbehind : Text.strictFrom 3 none 3 rest with
  | error fault =>
    rw [hbehind] at htext
    cases htext
  | ok cs =>
    rw [hbehind] at htext
    rw [← Except.ok.inj htext, List.head?_cons]

/-- The beginning of a mark alone is the text of nothing. -/
theorem eq_nil_of_short {text : String} (hlength : text.toUTF8.data.toList.length < 3)
    (hfront : text.toUTF8.data.toList <+: orderMarkBytes) : text.toList = [] := by
  have htext := Text.decodeStrict_toUTF8 text
  generalize text.toUTF8.data.toList = bytes at hlength hfront htext
  rw [List.prefix_iff_eq_take] at hfront
  rw [hfront] at htext
  generalize bytes.length = n at hlength htext
  match n, hlength with
  | 0, _ => exact (Except.ok.inj htext).symm
  | 1, _ => cases htext
  | 2, _ => cases htext

/-- The text of a file is the text that was encoded, with its line ends as line feeds. -/
theorem solutionText_of_encodes {text : String} {content : Bytes} (h : Encodes text content) :
    solutionText content = .ok (normalizeLines text.toList) := by
  rw [solutionText]
  cases h with
  | plain hmark =>
    have hnot : orderMarkBytes.isPrefixOf text.toUTF8.data.toList = false :=
      Bool.eq_false_iff.mpr fun hfront =>
        hmark (head?_of_orderMark (List.isPrefixOf_iff_prefix.mp hfront))
    split
    · next hshort =>
      obtain ⟨hlength, hfront⟩ := (Bool.and_eq_true _ _).mp hshort
      rw [eq_nil_of_short (of_decide_eq_true hlength) (List.isPrefixOf_iff_prefix.mp hfront)]
      rfl
    · rw [hnot, if_neg Bool.false_ne_true, Text.decodeStrict_toUTF8]
      rfl
  | marked =>
    have hbytes : (orderMarkBytes.toArray ++ text.toUTF8.data).toList =
        orderMarkBytes ++ text.toUTF8.data.toList := by
      rw [Array.toList_append]
    have hdrop : (orderMarkBytes ++ text.toUTF8.data.toList).drop 3 = text.toUTF8.data.toList :=
      rfl
    have hlong : ¬(orderMarkBytes ++ text.toUTF8.data.toList).length < 3 := by
      rw [List.length_append]
      exact Nat.not_lt.mpr (Nat.le_add_right 3 _)
    rw [hbytes, decide_eq_false hlong, Bool.false_and, if_neg Bool.false_ne_true,
      if_pos (List.isPrefixOf_iff_prefix.mpr (List.prefix_append _ _)),
      hdrop, Text.decodeStrict_toUTF8]
    rfl

/-- The path ends like that of a project, in any letter case. -/
def IsProjectPath (path : String) : Prop :=
  ∃ word ∈ [".csproj", ".vbproj", ".fsproj"],
    (Path.suffix path).toList.map Char.toLower = word.toList

instance (path : String) : Decidable (IsProjectPath path) :=
  inferInstanceAs (Decidable (∃ word ∈ _, _))

/-- The languages are known by the suffixes of projects, in any letter case. -/
theorem isSome_languageOf? (path : String) :
    (languageOf? path).isSome = decide (IsProjectPath path) := by
  have hplain : ∀ word ∈ [".csproj", ".vbproj", ".fsproj"], ∀ d ∈ word.toList,
      Text.IsPlainLetter d := by
    have hall : ([".csproj", ".vbproj", ".fsproj"].all fun word =>
        word.toList.all fun d => decide (Text.IsPlainLetter d)) = true := by decide
    simpa only [List.all_eq_true, decide_eq_true_eq] using hall
  have hproject : IsProjectPath path ↔
      Text.lower (Path.suffix path) ∈ [".csproj", ".vbproj", ".fsproj"] := by
    constructor
    · rintro ⟨word, hword, heq⟩
      rwa [(Text.lower_eq_iff (hplain word hword)).mpr heq]
    · intro h
      exact ⟨_, h, (Text.lower_eq_iff (hplain _ h)).mp rfl⟩
  rw [Bool.eq_iff_iff, decide_eq_true_iff, hproject, languageOf?, projectLanguages]
  generalize Text.lower (Path.suffix path) = suffix
  simp only [List.lookup_cons, List.lookup_nil, List.mem_cons, List.not_mem_nil, or_false]
  constructor
  · intro h
    split at h
    · next hsuffix => exact .inl (eq_of_beq hsuffix)
    split at h
    · next hsuffix => exact .inr (.inl (eq_of_beq hsuffix))
    split at h
    · next hsuffix => exact .inr (.inr (eq_of_beq hsuffix))
    · cases h
  · rintro (rfl | rfl | rfl) <;> rfl

/-- **A solution file gives the projects that its lines write.**  Where the text of a file that is no
XML solution consists of lines that are entries or do not start like one, reading it gives the
entries in order and with multiplicity, each with its path resolved against the directory of the
file and its type and identifier in upper case, as far as the resolved paths end like those of
projects. -/
theorem readSolution_lines {tree : FileTree} {written text : String} {content : Bytes}
    {lines : List SolutionLine}
    (hformat : Text.lower (Path.suffix (Path.ofParts (Path.parts written))) ≠ ".slnx")
    (hread : tree.read (Path.ofParts (Path.parts written)) = .ok content)
    (hcontent : Encodes text content) (htext : WritesLines lines text.toList)
    (hlines : ∀ line ∈ lines, line.IsWritable) :
    readSolution tree written = .ok (((lines.filterMap SolutionLine.entry?).map
      (WrittenEntry.listed (Path.parent (Path.ofParts (Path.parts written))))).filter
        fun e => IsProjectPath e.path) := by
  have hentries : lineEntries (Path.parent (Path.ofParts (Path.parts written)))
      (normalizeLines text.toList) = (lines.filterMap SolutionLine.entry?).map
        (WrittenEntry.listed (Path.parent (Path.ofParts (Path.parts written)))) := by
    rw [lineEntries, writtenEntries_lines htext hlines]
    rfl
  unfold readSolution
  simp only [hread, solutionText_of_encodes hcontent, if_neg hformat, hentries, isSome_languageOf?]

/-! ### A project and a folder -/

/-- A project whose name looks like a part of an entry. -/
def projectLine : SolutionLine :=
  .entry ⟨"a".toList, "L,\x7bx\x7d".toList, "s\\..\\l.CSproj".toList, "c-2".toList⟩
    ⟨⟨[' '], [' ']⟩, ⟨[], [' ']⟩, ⟨[], []⟩⟩ []

/-- A folder with a remark. -/
def folderLine : SolutionLine :=
  .entry ⟨"f".toList, "F".toList, "F".toList, "1".toList⟩ ⟨⟨[], []⟩, ⟨['\t'], []⟩, ⟨[], ['\n']⟩⟩
    " \"".toList

/-- A heading, the project and the folder, with line ends of both kinds. -/
def folderText : String :=
  String.ofList ((SolutionLine.other ['#']).chars ++ '\r' :: '\n' ::
    (projectLine.chars ++ '\n' :: folderLine.chars))

/-- A tree with nothing but a solution file. -/
def solutionTree (content : Bytes) : FileTree :=
  .directory [.mk "w" (.directory [.mk "s.sln" (.file content)])]

theorem read_solutionTree (content : Bytes) :
    (solutionTree content).read (Path.ofParts (Path.parts "/w/s.sln")) = .ok content := by
  rfl

theorem folder_writes :
    WritesLines [.other ['#'], projectLine, folderLine] folderText.toList := by
  rw [folderText, String.toList_ofList]
  exact .returnFeed _ (.feed _ (.last _))

theorem folder_writable :
    ∀ line ∈ [SolutionLine.other ['#'], projectLine, folderLine], line.IsWritable := by
  simp only [List.mem_cons, List.not_mem_nil, or_false]
  rintro line (rfl | rfl | rfl)
  · exact ⟨⟨by decide, by decide⟩, by decide⟩
  all_goals
    refine ⟨⟨⟨⟨?_, ?_, ?_⟩, ?_, ?_⟩, ⟨?_, ?_, ?_⟩, ⟨?_, ?_, ?_⟩, ⟨⟨?_, ?_, ?_⟩, ?_, ?_⟩⟩,
      ⟨.of_all ?_, .of_all ?_, .of_all ?_⟩, ?_, ?_⟩ <;> decide

/-- The folder is left out, and the project keeps its name. -/
theorem folder_read : readSolution (solutionTree folderText.toUTF8.data) "/w/s.sln" =
    .ok [⟨"L,\x7bx\x7d", "/w/l.CSproj", "A", "C-2"⟩] := by
  have hmark : folderText.toList.head? ≠ some '\uFEFF' := by
    rw [folderText, String.toList_ofList]
    decide
  rw [readSolution_lines (by decide) (read_solutionTree _) (.plain hmark) folder_writes
    folder_writable]
  decide

end ExtensionCensus
