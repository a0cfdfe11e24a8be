import ExtensionCensus.Report.Csv

/-!
# Reading rows back

The minimal dialect of comma-separated rows can be read back.  A field stands in quotes exactly if it
begins with an odd number of double quotes: inside a field they come in pairs, and a field in quotes
has a comma or a space between the first and the last one.

* `readField`, `readRow`, `readRows` — the reader;
* `readField_encodeChars` — a field is read back in front of whatever ends it;
* `Readable` — the rows have cells, and line feeds stand in quotes only;
* `writeRows_decodable` — **readable rows are read back from what is written for them, and no two lists
  of such rows are written alike**.
-/

namespace ExtensionCensus.Csv

/-! ### The reader -/

/-- The character ends a field: a separator or a line end. -/
def endsField (c : Char) : Bool :=
  c = ',' || c = '\n'

/-- The number of double quotes that a text begins with. -/
def openingQuotes (text : List Char) : Nat :=
  (text.takeWhile (· = '"')).length

/-- Reads a field without quotes around it, up to what ends it. -/
def readBare : List Char → List Char × List Char
  | '"' :: '"' :: rest => ('"' :: (readBare rest).1, (readBare rest).2)
  | c :: rest => if endsField c then ([], c :: rest) else (c :: (readBare rest).1, (readBare rest).2)
  | [] => ([], [])

/-- Reads a field behind its opening quote, up to behind its closing one. -/
def readQuoted : List Char → List Char × List Char
  | '"' :: '"' :: rest => ('"' :: (readQuoted rest).1, (readQuoted rest).2)
  | c :: rest => if c = '"' then ([], rest) else (c :: (readQuoted rest).1, (readQuoted rest).2)
  | [] => ([], [])

/-- Reads a field.  It stands in quotes if it begins with an odd number of them. -/
def readField (text : List Char) : List Char × List Char :=
  if openingQuotes text % 2 = 1 then readQuoted text.tail else readBare text

theorem length_readBare_le (text : List Char) : (readBare text).2.length ≤ text.length := by
  fun_induction readBare text with
  | case1 rest ih => simp only [List.length_cons]; omega
  | case2 c rest _ hends => exact Nat.le_refl _
  | case3 c rest _ _ ih => simp only [List.length_cons]; omega
  | case4 => exact Nat.le_refl _

theorem length_readQuoted_le (text : List Char) : (readQuoted text).2.length ≤ text.length := by
  fun_induction readQuoted text with
  | case1 rest ih => simp only [List.length_cons]; omega
  | case2 rest _ => exact Nat.le_succ _
  | case3 c rest _ _ ih => simp only [List.length_cons]; omega
  | case4 => exact Nat.le_refl _

/-- Reading a field leaves no more than there was. -/
theorem length_readField_le (text : List Char) : (readField text).2.length ≤ text.length := by
  rw [readField]
  split
  · have hquoted := length_readQuoted_le text.tail
    rw [List.length_tail] at hquoted
    omega
  · exact length_readBare_le text

/-- Reads a row, up to behind its line end. -/
def readRow (text : List Char) : List (List Char) × List Char :=
  match _h : readField text with
  | (cell, c :: rest) =>
    if c = ',' then (cell :: (readRow rest).1, (readRow rest).2) else ([cell], rest)
  | (cell, []) => ([cell], [])
termination_by text.length
decreasing_by
  all_goals
    have hle := length_readField_le text
    rw [_h, List.length_cons] at hle
    omega

/-- Reading a row leaves less than there was, but for the empty text. -/
theorem length_readRow_le (text : List Char) :
    (readRow text).2.length ≤ text.length - 1 := by
  fun_induction readRow text with
  | case1 text cell rest hfield ih =>
    have hle := length_readField_le text
    rw [hfield, List.length_cons] at hle
    show (readRow rest).2.length ≤ _
    omega
  | case2 text cell c rest hfield _ =>
    have hle := length_readField_le text
    rw [hfield, List.length_cons] at hle
    show rest.length ≤ _
    omega
  | case3 => exact Nat.zero_le _

/-- Reads rows up to the end of a text. -/
def readRows : List Char → List (List (List Char))
  | [] => []
  | c :: rest => (readRow (c :: rest)).1 :: readRows (readRow (c :: rest)).2
termination_by text => text.length
decreasing_by
  have hle := length_readRow_le (c :: rest)
  simp only [List.length_cons] at hle ⊢
  omega

/-! ### Fields -/

section

variable {s rest : List Char} {c : Char}

theorem endsField_iff : endsField c = true ↔ c = ',' ∨ c = '\n' := by
  rw [endsField, Bool.or_eq_true, decide_eq_true_eq, decide_eq_true_eq]

theorem ne_quote_of_endsField (h : endsField c = true) : c ≠ '"' := by
  rintro rfl
  cases h

theorem needsQuotes_iff : needsQuotes s = true ↔ ∃ c ∈ s, c = ',' ∨ c = ' ' := by
  simp [needsQuotes]

/-- Doubling keeps the first character of a text. -/
theorem openingQuotes_doubleQuotes (h : openingQuotes rest = 0) (s : List Char) :
    openingQuotes (doubleQuotes s ++ rest) = 2 * openingQuotes s := by
  induction s with
  | nil => exact h
  | cons c s ih =>
    rw [doubleQuotes]
    by_cases hc : c = '"'
    · subst hc
      rw [if_pos rfl]
      show openingQuotes (doubleQuotes s ++ rest) + 1 + 1 = 2 * (openingQuotes s + 1)
      rw [ih]
      omega
    · rw [if_neg hc]
      simp [openingQuotes, hc]

/-- Behind the opening quotes of a text that is not all quotes, nothing matters. -/
theorem openingQuotes_append (h : ∃ c ∈ s, c ≠ '"') (rest : List Char) :
    openingQuotes (s ++ rest) = openingQuotes s := by
  induction s with
  | nil => obtain ⟨c, hc, -⟩ := h; cases hc
  | cons c s ih =>
    by_cases hc : c = '"'
    · subst hc
      obtain ⟨d, hd, hne⟩ := h
      rcases List.mem_cons.mp hd with rfl | hd
      · exact absurd rfl hne
      · exact congrArg (· + 1) (ih ⟨d, hd, hne⟩)
    · simp [openingQuotes, hc]

theorem mem_doubleQuotes (h : c ∈ s) : c ∈ doubleQuotes s := by
  induction s with
  | nil => cases h
  | cons d s ih =>
    rw [doubleQuotes]
    split
    · next hd => rcases List.mem_cons.mp h with rfl | h <;> simp_all
    · rcases List.mem_cons.mp h with rfl | h <;> simp_all

/-- A field without quotes around it is read up to what ends it. -/
theorem readBare_doubleQuotes (hs : ∀ d ∈ s, endsField d = false) (hc : endsField c = true) :
    readBare (doubleQuotes s ++ c :: rest) = (s, c :: rest) := by
  induction s with
  | nil =>
    show readBare (c :: rest) = _
    rw [readBare]
    · rw [if_pos hc]
    · exact fun _ he _ => ne_quote_of_endsField hc he
  | cons d s ih =>
    have hrest := ih fun e he => hs e (List.mem_cons_of_mem d he)
    rw [doubleQuotes]
    by_cases hd : d = '"'
    · subst hd
      rw [if_pos rfl, List.cons_append, List.cons_append, readBare, hrest]
    · rw [if_neg hd, List.cons_append, readBare]
      · rw [if_neg (by simp [hs d List.mem_cons_self]), hrest]
      · exact fun _ he _ => hd he

/-- A field in quotes is read up to behind the closing one, which no quote follows. -/
theorem readQuoted_doubleQuotes (hc : c ≠ '"') (s : List Char) :
    readQuoted (doubleQuotes s ++ '"' :: c :: rest) = (s, c :: rest) := by
  induction s with
  | nil =>
    show readQuoted ('"' :: c :: rest) = _
    rw [readQuoted]
    · rw [if_pos rfl]
    · intro rest' _ he
      exact hc (List.cons.inj he).1
  | cons d s ih =>
    rw [doubleQuotes]
    by_cases hd : d = '"'
    · subst hd
      rw [if_pos rfl, List.cons_append, List.cons_append, readQuoted, ih]
    · rw [if_neg hd, List.cons_append, readQuoted]
      · rw [if_neg hd, ih]
      · exact fun _ he _ => hd he

/-- A text whose line feeds ask for quotes has none of them, and no separator, where it is written
without. -/
theorem not_endsField_of_bare (hs : '\n' ∈ s → needsQuotes s = true) (hbare : needsQuotes s = false) :
    ∀ d ∈ s, endsField d = false := by
  intro d hd
  rw [Bool.eq_false_iff]
  intro hends
  rw [Bool.eq_false_iff] at hbare
  rcases endsField_iff.mp hends with rfl | rfl
  · exact hbare (needsQuotes_iff.mpr ⟨_, hd, Or.inl rfl⟩)
  · exact hbare (hs hd)

/-- **A field is read back in front of whatever ends it.** -/
theorem readField_encodeChars (hs : '\n' ∈ s → needsQuotes s = true) (hc : endsField c = true) :
    readField (encodeChars s ++ c :: rest) = (s, c :: rest) := by
  have hquote := ne_quote_of_endsField hc
  have hend : openingQuotes (c :: rest) = 0 := by simp [openingQuotes, hquote]
  rw [readField, encodeChars]
  by_cases hneeds : needsQuotes s = true
  · obtain ⟨d, hd, hdne⟩ : ∃ d ∈ doubleQuotes s, d ≠ '"' := by
      obtain ⟨d, hd, hsort⟩ := needsQuotes_iff.mp hneeds
      exact ⟨d, mem_doubleQuotes hd, by rcases hsort with rfl | rfl <;> decide⟩
    have hinner : openingQuotes (doubleQuotes s ++ ('"' :: c :: rest)) = 2 * openingQuotes s := by
      rw [openingQuotes_append ⟨d, hd, hdne⟩, ← List.append_nil (doubleQuotes s),
        openingQuotes_doubleQuotes rfl]
    have hopening : openingQuotes ('"' :: (doubleQuotes s ++ ('"' :: c :: rest)))
        = 2 * openingQuotes s + 1 := congrArg (· + 1) hinner
    rw [if_pos hneeds]
    simp only [List.cons_append, List.append_assoc, List.nil_append]
    rw [if_pos (by rw [hopening]; omega), List.tail_cons, readQuoted_doubleQuotes hquote]
  · rw [if_neg hneeds, if_neg (by rw [openingQuotes_doubleQuotes hend]; omega),
      readBare_doubleQuotes (not_endsField_of_bare hs (Bool.eq_false_iff.mpr hneeds)) hc]

end

/-! ### Rows -/

/-- The rows have cells, and a cell with a line feed also has a comma or a space. -/
structure Readable (rows : List (List String)) : Prop where
  cells : ∀ row ∈ rows, row ≠ []
  lineFeeds : ∀ row ∈ rows, ∀ s ∈ row, '\n' ∈ s.toList → ',' ∈ s.toList ∨ ' ' ∈ s.toList

/-- Rows of texts as rows of cells. -/
def textRows (rows : List (List String)) : List (List Cell) :=
  rows.map (·.map .text)

/-- The characters of rows of texts. -/
def characters (rows : List (List String)) : List (List (List Char)) :=
  rows.map (·.map String.toList)

section

variable {rows rows' : List (List String)}

theorem needsQuotes_of_mem {s : List Char} (h : ',' ∈ s ∨ ' ' ∈ s) : needsQuotes s = true := by
  rcases h with h | h
  · exact needsQuotes_iff.mpr ⟨_, h, Or.inl rfl⟩
  · exact needsQuotes_iff.mpr ⟨_, h, Or.inr rfl⟩

/-- **A row is read back up to behind its line end.** -/
theorem readRow_encodeRow {row : List String} (hne : row ≠ [])
    (hs : ∀ s ∈ row, '\n' ∈ s.toList → needsQuotes s.toList = true) (rest : List Char) :
    readRow (encodeRow (row.map .text) ++ '\n' :: rest) = (row.map String.toList, rest) := by
  induction row with
  | nil => exact absurd rfl hne
  | cons s row ih =>
    have hfirst := hs s List.mem_cons_self
    cases row with
    | nil =>
      have hwritten : encodeRow ([s].map .text) = encodeChars s.toList := by
        simp [encodeRow, Cell.encode]
      have hfield : readField (encodeChars s.toList ++ '\n' :: rest) = (s.toList, '\n' :: rest) :=
        readField_encodeChars hfirst rfl
      rw [hwritten, readRow, hfield]
      rfl
    | cons next row =>
      have hnext := ih (List.cons_ne_nil next row) fun t ht => hs t (List.mem_cons_of_mem s ht)
      have hsplit : encodeRow ((s :: next :: row).map .text) ++ '\n' :: rest
          = encodeChars s.toList ++ ',' :: (encodeRow ((next :: row).map .text) ++ '\n' :: rest) := by
        simp [encodeRow, Cell.encode, List.intercalate]
      generalize hbehind : encodeRow ((next :: row).map .text) ++ '\n' :: rest = behind
        at hnext hsplit
      have hfield : readField (encodeChars s.toList ++ ',' :: behind) = (s.toList, ',' :: behind) :=
        readField_encodeChars hfirst rfl
      rw [hsplit, readRow, hfield]
      show (s.toList :: (readRow _).1, (readRow _).2) = _
      rw [hnext]
      rfl

theorem toList_writeRows_cons (row : List Cell) (others : List (List Cell)) :
    (writeRows (row :: others)).toList
      = encodeRow row ++ '\n' :: (writeRows others).toList := by
  simp [writeRows, writeRow, String.join_cons]

/-- Rows are read back one after the other. -/
theorem readRows_writeRows (h : Readable rows) :
    readRows (writeRows (textRows rows)).toList = characters rows := by
  induction rows with
  | nil => simp [textRows, writeRows, characters, readRows]
  | cons row rows ih =>
    have hrow := readRow_encodeRow (h.cells row List.mem_cons_self)
      (fun s hs hfeed => needsQuotes_of_mem (h.lineFeeds row List.mem_cons_self s hs hfeed))
      (writeRows (textRows rows)).toList
    have hrest := ih ⟨fun r hr => h.cells r (List.mem_cons_of_mem row hr),
      fun r hr => h.lineFeeds r (List.mem_cons_of_mem row hr)⟩
    rw [textRows, List.map_cons, toList_writeRows_cons]
    -- what is written for a row is not empty, for it has a line end
    obtain ⟨c, text, htext⟩ : ∃ c text, encodeRow (row.map .text)
        ++ '\n' :: (writeRows (textRows rows)).toList = c :: text :=
      List.exists_cons_of_ne_nil (by simp)
    rw [textRows] at hrow hrest htext
    rw [htext] at hrow ⊢
    rw [readRows, hrow, hrest]
    rfl

/-- The rows of texts that a text is read as. -/
def decodeRows (text : String) : List (List String) :=
  (readRows text.toList).map (·.map String.ofList)

theorem decodeRows_writeRows (h : Readable rows) : decodeRows (writeRows (textRows rows)) = rows := by
  rw [decodeRows, readRows_writeRows h, characters, List.map_map]
  refine (List.map_congr_left fun row _ => ?_).trans (List.map_id rows)
  rw [Function.comp_apply, List.map_map]
  exact (List.map_congr_left fun s _ => String.ofList_toList).trans (List.map_id row)

/-- **The dialect is uniquely decodable.**  Rows of texts are read back from what is written for them,
cell by cell, and no two lists of rows are written alike: each row has cells, and each cell with a line
feed has a comma or a space. -/
theorem writeRows_decodable {rows rows' : List (List String)} (h : Readable rows)
    (h' : Readable rows') :
    decodeRows (writeRows (textRows rows)) = rows ∧
      (writeRows (textRows rows) = writeRows (textRows rows') → rows = rows') := by
  have hread := decodeRows_writeRows h
  refine ⟨hread, fun hsame => ?_⟩
  rw [← hread, hsame, decodeRows_writeRows h']

/-- Cells of quotes alone, an empty one, and one in quotes with quotes at both ends. -/
theorem quotes_decodable :
    Readable [["\"", "", "\"\"a, \nb\""], [""]] ∧ Readable [["\"\"", "", "\"a, \nb\""], [""]] ∧
      decodeRows (writeRows (textRows [["\"", "", "\"\"a, \nb\""], [""]]))
        = [["\"", "", "\"\"a, \nb\""], [""]] ∧
      writeRows (textRows [["\"", "", "\"\"a, \nb\""], [""]])
        ≠ writeRows (textRows [["\"\"", "", "\"a, \nb\""], [""]]) := by
  have hleft : Readable [["\"", "", "\"\"a, \nb\""], [""]] := ⟨by decide, by decide⟩
  have hright : Readable [["\"\"", "", "\"a, \nb\""], [""]] := ⟨by decide, by decide⟩
  obtain ⟨hdecoded, hinjective⟩ := writeRows_decodable hleft hright
  exact ⟨hleft, hright, hdecoded, fun hsame => absurd (hinjective hsame) (by decide)⟩

/-- A line feed outside of quotes is read as the end of a row. -/
example : writeRows (textRows [["a\nb"]]) = writeRows (textRows [["a"], ["b"]]) := by
  decide

end

end ExtensionCensus.Csv
