import Emwin.Parser.MosLayout

/-! Which sections keep the values of their rows in the columns of the axis. -/

namespace Emwin.Parser
open Library

-----------------------------------------------------------------------------------------
-- Labels
-----------------------------------------------------------------------------------------

theorem label_shown {label : Text} (listed : label ∈ axisLabels)
    : label ≠ [] ∧ ∀ c ∈ label, isWhitespace c = false := by
  have all : ∀ label ∈ axisLabels, label ≠ [] ∧ ∀ c ∈ label, isWhitespace c = false := by decide
  exact all label listed

theorem trimStart_eq_self {text : Text} (starts : ∀ c ∈ text.head?, isWhitespace c = false)
    : trimStart text = text := by
  cases text with
  | nil => rfl
  | cons c text =>
      have shown := starts c rfl
      exact List.dropWhile_cons_of_neg (by simp [shown])

/-- An axis is labelled by its label, and by none that is looked for before it. -/
theorem isLabelled_axisLine {label : Text} (listed : label ∈ axisLabels)
    (columns : List (Text × Text))
    : IsLabelled label (axisLine label columns)
      ∧ ∀ earlier ∈ labelsBefore label, ¬ IsLabelled earlier (axisLine label columns) := by
  have trimmed : trimStart (axisLine label columns) = axisLine label columns := by
    obtain ⟨some, visible⟩ := label_shown listed
    obtain ⟨c, rest, same⟩ := List.exists_cons_of_ne_nil some
    refine trimStart_eq_self fun d starts => ?_
    rw [axisLine, same, List.cons_append] at starts
    obtain rfl : c = d := by simpa using starts
    exact visible c (by simp [same])
  unfold IsLabelled
  rw [trimmed]
  refine ⟨List.prefix_append _ _, fun earlier before taken => ?_⟩
  have apart : ∀ label ∈ axisLabels, ∀ earlier ∈ labelsBefore label,
      ¬ earlier <+: label ∧ ¬ label <+: earlier := by
    decide
  obtain ⟨noPrefix, noExtension⟩ := apart label listed earlier before
  rcases List.prefix_or_prefix_of_prefix taken (List.prefix_append label _) with shorter | longer
  · exact noPrefix shorter
  · exact noExtension longer

/-- The first label that a line is labelled by, up to a given one. -/
theorem exists_first_label {label line : Text} (listed : label ∈ axisLabels)
    (labelled : ∃ known ∈ labelsBefore label ++ [label], IsLabelled known line)
    : ∃ first ∈ axisLabels,
        IsLabelled first line
        ∧ ∀ earlier ∈ labelsBefore first,
            earlier ∈ labelsBefore label ∧ ¬ IsLabelled earlier line := by
  obtain ⟨first, found⟩ : ∃ first,
      (labelsBefore label ++ [label]).find? (fun known => decide (IsLabelled known line))
      = some first := by
    obtain ⟨known, member, taken⟩ := labelled
    exact Option.isSome_iff_exists.mp
      (List.find?_isSome.mpr ⟨known, member, decide_eq_true taken⟩)
  obtain ⟨taken, before, after, split, none⟩ := List.find?_eq_some_iff_append.mp found
  have front : ∀ label ∈ axisLabels,
      labelsBefore label ++ [label] <+: axisLabels ∧ axisLabels.Nodup := by
    decide
  obtain ⟨⟨rest, whole⟩, apart⟩ := front label listed
  rw [split, List.append_assoc, List.cons_append] at whole
  have others : ∀ other ∈ before, decide (other ≠ first) = true := by
    intro other member
    rw [← whole] at apart
    simpa using (List.nodup_append.mp apart).2.2 other member first (by simp)
  have earlier : labelsBefore first = before := by
    rw [labelsBefore, ← whole, List.takeWhile_append_of_pos others]
    simp
  have inside : ∀ other ∈ before, other ∈ labelsBefore label := by
    intro other member
    have shorter : before.length ≤ (labelsBefore label).length := by
      have lengths := congrArg List.length split
      simp only [List.length_append, List.length_cons, List.length_nil] at lengths
      omega
    have front : before <+: labelsBefore label ++ [label] := by
      rw [split]
      exact List.prefix_append _ _
    exact (List.prefix_of_prefix_length_le front (List.prefix_append _ _) shorter).subset member
  refine ⟨first, by simp [← whole], of_decide_eq_true taken, fun other member => ?_⟩
  rw [earlier] at member
  exact ⟨inside other member, by simpa using none other member⟩

-----------------------------------------------------------------------------------------
-- Lines of a layout
-----------------------------------------------------------------------------------------

namespace MosLayout

variable (layout : MosLayout)

theorem isAxisSeparator_of_isDigit {c : Char} (digit : c.isDigit = true)
    : isAxisSeparator c = false := by
  simp only [isAxisSeparator, isAsciiWhitespace, Bool.or_eq_false_iff, decide_eq_false_iff_not]
  refine ⟨⟨⟨⟨⟨?_, ?_⟩, ?_⟩, ?_⟩, ?_⟩, ?_⟩
  all_goals
    rintro rfl
    exact absurd digit (by decide)

theorem isSpaced_axisColumns
    : ∀ column ∈ layout.axisColumns, IsSpaced isAxisSeparator column := by
  have blank (count : Nat) : IsGap isAxisSeparator (List.replicate count ' ') := by
    intro c member
    rw [(List.mem_replicate.mp member).2]
    decide
  have cell : ∀ column ∈ layout.columns,
      IsSpaced isAxisSeparator (List.replicate (column.1 - column.2.length) ' ', column.2) := by
    intro column member
    obtain ⟨hour, value, -⟩ := layout.hours column member
    have narrow := layout.apart column member
    obtain ⟨nonempty, digits⟩ := digits_of_value value
    refine ⟨?_, blank _, nonempty, fun c inside => ?_⟩
    · rw [ne_eq, List.replicate_eq_nil_iff]
      omega
    · exact isAxisSeparator_of_isDigit (digits c inside)
  unfold axisColumns
  cases same : layout.columns with
  | nil => nofun
  | cons column columns =>
      rw [same, List.forall_mem_cons] at cell
      obtain ⟨width, hour⟩ := column
      obtain ⟨⟨some, gap, token⟩, later⟩ := cell
      rw [List.map_cons, List.modifyHead_cons, List.forall_mem_cons, List.forall_mem_map]
      refine ⟨⟨?_, ?_, token⟩, later⟩
      · exact List.append_ne_nil_of_right_ne_nil _ some
      · intro c member
        exact (List.mem_append.mp member).elim (blank _ c) (gap c)

theorem map_snd_axisColumns
    : layout.axisColumns.map Prod.snd = layout.columns.map Prod.snd := by
  unfold axisColumns
  cases layout.columns with
  | nil => rfl
  | cons column columns => simp

theorem rowCells_places {row : Text × List Text} (listed : row ∈ layout.rows) (place : Nat)
    : ((layout.rowCells row)[place]?).map Prod.snd = row.2[place]? := by
  have lengths : row.2.length ≤ (layout.columns.map Prod.fst).length := by
    rw [layout.complete row listed, List.length_map]
  rw [← List.getElem?_map, rowCells, List.map_snd_zip lengths]

theorem plain_axis : Plain layout.axis := by
  have hour : ∀ column ∈ layout.columns, Plain column.2 := by
    intro column member
    obtain ⟨number, value, -⟩ := layout.hours column member
    have digits := (digits_of_value value).2
    exact plain_of_visible fun c inside => isWhitespace_of_isDigit (digits c inside)
  refine plain_append (plain_of_visible (label_shown layout.listed).2) (plain_spaced ?_)
  unfold axisColumns
  cases same : layout.columns with
  | nil => nofun
  | cons column columns =>
      rw [same, List.forall_mem_cons] at hour
      obtain ⟨width, first⟩ := column
      rw [List.map_cons, List.modifyHead_cons, List.forall_mem_cons, List.forall_mem_map]
      refine ⟨⟨plain_append (plain_replicate _) (plain_replicate _), hour.1⟩, ?_⟩
      exact fun column member => ⟨plain_replicate _, hour.2 column member⟩

theorem plain_renderCells {cells : List (Nat × Text)} (areCells : ∀ cell ∈ cells, IsCell cell)
    : Plain (renderCells cells) := by
  induction cells with
  | nil => exact plain_nil
  | cons cell cells ih =>
      obtain ⟨width, value⟩ := cell
      have later := ih fun cell member => areCells cell (by simp [member])
      have here := (areCells (width, value) (by simp)).plain
      rw [renderCells_cons, renderCell]
      exact plain_append (plain_append (plain_replicate _) here) later

theorem plain_rowLine : ∀ row ∈ layout.rows, Plain (layout.rowLine row) :=
  fun row listed =>
    plain_append (layout.names row listed).plain (plain_renderCells (layout.cells row listed))

/-- The lines are read back. -/
theorem lines_text
    : lines layout.text = layout.header.text :: layout.axis :: layout.rows.map layout.rowLine := by
  refine lines_joinLines ?_ ?_
  · rw [List.forall_mem_cons, List.forall_mem_cons, List.forall_mem_map]
    exact ⟨layout.header.plain_text, layout.plain_axis, layout.plain_rowLine⟩
  · intro last ends
    have member := List.mem_of_getLast? ends
    rw [List.mem_cons, List.mem_cons, List.mem_map] at member
    rcases member with rfl | rfl | ⟨row, listed, rfl⟩
    · exact List.append_ne_nil_of_left_ne_nil layout.header.isStation.nonempty _
    · exact List.append_ne_nil_of_left_ne_nil (label_shown layout.listed).1 _
    · have three := (layout.names row listed).three
      refine List.append_ne_nil_of_left_ne_nil (fun none => ?_) _
      rw [none] at three
      cases three

/-- What the rows put into the forecast rows. -/
def puts : List (Nat × Text × Text) :=
  layout.rows.flatMap fun row =>
    received layout.columns.length (variableOf row.1)
      (splitWhitespace (renderCells (layout.rowCells row)))

/-- An empty forecast row. -/
def emptyForecast (texts : TimeTexts) (ts : UtcTime) : MosForecastRow :=
  { valid := texts.toRfc3339 ts, values := .empty }

theorem exists_times
    : ∃ times,
        axisTimesFrom (countsHours layout.label layout.header.fields.modelName) layout.header.init
          [] (layout.columns.map Prod.snd)
        = .ok (some times)
        ∧ times.length = layout.columns.length := by
  obtain ⟨aligned, start⟩ := layout.header.init_aligned
  have readable : ∀ hour ∈ layout.columns.map Prod.snd,
      ∃ number,
        parseUnsigned (2 ^ 32) hour = some number
        ∧ number < hourBound (countsHours layout.label layout.header.fields.modelName) := by
    rw [List.forall_mem_map]
    intro column member
    obtain ⟨number, value, small⟩ := layout.hours column member
    refine ⟨number, parseUnsigned_of_value value ?_, small⟩
    exact Nat.lt_trans small (by unfold hourBound; split <;> decide)
  obtain ⟨times, read, length⟩ :=
    @exists_axisTimesFrom _ _ _ layout.header.valid layout.header.century aligned start _ readable
      [] nofun
  exact ⟨times, read, by simpa using length⟩

section Reading

variable {texts : TimeTexts} (reads : texts.ReadsRfc3339)
include reads

/-- The section is read from its axis on. -/
theorem parseSection_text
    : parseSection texts layout.text
      = (parseHourAxis (layout.header.text :: layout.axis :: layout.rows.map layout.rowLine)
          layout.header.fields.modelName layout.header.init).bind fun axis =>
        match axis with
        | none => .ok none
        | some (times, dataLines) =>
            (fillForecasts (times.map (emptyForecast texts)) dataLines).bind fun forecasts =>
              .ok (some
                { station := layout.header.station, model := layout.header.fields.modelName,
                  runtime := rfc3339Text layout.header.date layout.header.hour, forecasts }) := by
  have run : texts.parseRfc3339 (rfc3339Text layout.header.date layout.header.hour)
      = some layout.header.init :=
    reads _ _ layout.header.valid layout.header.century layout.header.clock.1
  have header : (lines layout.text).head?.bind (fun first =>
      parseSectionHeader (sanitizeSectionLine first)) = some layout.header.fields := by
    rw [lines_text, List.head?_cons, Option.bind_some, layout.header.sanitize_text,
      layout.header.parseSectionHeader_eq]
  rw [parseSection]
  dsimp only
  rw [header]
  dsimp only
  rw [layout.header.runtime_eq]
  simp only [bind, Except.bind]
  rw [run, lines_text]
  rfl

/-- A section whose header is not taken for the axis is read row by row. -/
theorem parseSection_eq
    (axisFound
      : ∀ known ∈ labelsBefore layout.label ++ [layout.label],
          ¬ IsLabelled known layout.header.text)
    {times : List UtcTime}
    (axis
      : axisTimesFrom (countsHours layout.label layout.header.fields.modelName) layout.header.init
          [] (layout.columns.map Prod.snd)
        = .ok (some times))
    (length : times.length = layout.columns.length)
    : parseSection texts layout.text
      = .ok (some
          { station := layout.header.station, model := layout.header.fields.modelName,
            runtime := rfc3339Text layout.header.date layout.header.hour,
            forecasts := layout.puts.foldl putValue (times.map (emptyForecast texts)) }) := by
  obtain ⟨labelled, unlabelled⟩ := isLabelled_axisLine layout.listed layout.axisColumns
  have axisAt
      : AxisAt layout.label [layout.header.text] (axisLine layout.label layout.axisColumns)
          (layout.rows.map layout.rowLine) := by
    refine ⟨layout.listed, labelled, ?_, fun earlier before other member => ?_⟩
    · rw [List.forall_mem_singleton]
      exact axisFound layout.label (by simp)
    · simp only [List.singleton_append, List.mem_cons, List.mem_map] at member
      rcases member with rfl | rfl | ⟨row, listed, rfl⟩
      · exact axisFound earlier (by simp [before])
      · exact unlabelled earlier before
      · exact layout.unlabelled row listed earlier before
  have read := parseHourAxis_eq axisAt layout.isSpaced_axisColumns layout.header.fields.modelName
    layout.header.init
  rw [layout.map_snd_axisColumns, axis] at read
  have rows := @fillForecasts_rows
    (layout.rows.map fun row => (row.1, renderCells (layout.rowCells row)))
    (List.forall_mem_map.mpr layout.names) (times.map (emptyForecast texts))
  rw [List.map_map, List.length_map, length, List.flatMap_map] at rows
  have filled
      : fillForecasts (times.map (emptyForecast texts)) (layout.rows.map layout.rowLine) = _ :=
    rows
  have found : parseHourAxis (layout.header.text :: layout.axis :: layout.rows.map layout.rowLine)
      layout.header.fields.modelName layout.header.init
      = .ok (some (times, layout.rows.map layout.rowLine)) := read
  rw [layout.parseSection_text reads, found]
  simp only [Except.bind]
  rw [filled]
  rfl

/-- A header that is taken for the axis has no hours. -/
theorem header_not_axis {found : MosSection}
    (read : parseSection texts layout.text = .ok (some found))
    : ∀ known ∈ labelsBefore layout.label ++ [layout.label],
        ¬ IsLabelled known layout.header.text := by
  intro known early labelled
  obtain ⟨first, listed, taken, others⟩ := exists_first_label layout.listed ⟨known, early, labelled⟩
  have axisAt
      : AxisAt first [] layout.header.text (layout.axis :: layout.rows.map layout.rowLine) := by
    refine ⟨listed, taken, nofun, fun earlier before other member => ?_⟩
    obtain ⟨beforeLabel, unlabelled⟩ := others earlier before
    simp only [List.nil_append, List.mem_cons, List.mem_map] at member
    rcases member with rfl | rfl | ⟨row, listed, rfl⟩
    · exact unlabelled
    · exact (isLabelled_axisLine layout.listed layout.axisColumns).2 earlier beforeLabel
    · exact layout.unlabelled row listed earlier beforeLabel
  rw [layout.parseSection_text reads] at read
  obtain ⟨axis, parsed, rest⟩ := exceptBind_ok_iff.mp read
  cases axis with
  | none => cases rest
  | some axis =>
      rw [parseHourAxis, ← List.nil_append (layout.header.text :: _), axisAt.findAxis_eq] at parsed
      dsimp only at parsed
      obtain ⟨times, hours, later⟩ := exceptBind_ok_iff.mp parsed
      cases times with
      | none => cases later
      | some times =>
          rcases readable_of_axisTimesFrom hours _ layout.header.guidance_mem_axisHours
            with number | midnight
          · exact absurd number (by decide)
          · exact absurd midnight (by decide)

end Reading

-----------------------------------------------------------------------------------------
-- Values and columns
-----------------------------------------------------------------------------------------

variable {layout : MosLayout}

/-- A put of the rows is a word of one of them. -/
theorem mem_puts {put : Nat × Text × Text}
    : put ∈ layout.puts
      ↔ ∃ row ∈ layout.rows,
          put.1 < layout.columns.length ∧ put.2.1 = variableOf row.1
          ∧ (splitWhitespace (renderCells (layout.rowCells row)))[put.1]? = some put.2.2 := by
  simp only [puts, List.mem_flatMap, mem_received]

theorem isCell_rowCells {row : Text × List Text} (listed : row ∈ layout.rows)
    : ∀ cell ∈ layout.rowCells row, IsCell cell := layout.cells row listed

theorem length_rowCells {row : Text × List Text} (listed : row ∈ layout.rows)
    : (layout.rowCells row).length = layout.columns.length := by
  rw [rowCells, List.length_zip, List.length_map, layout.complete row listed, Nat.min_self]

/-- Words of rows whose values come first and apart are the values at their places. -/
theorem value_of_word {row : Text × List Text} (listed : row ∈ layout.rows)
    (inFront : InFront (layout.rowCells row)) {place : Nat} {word : Text}
    (inside : place < layout.columns.length)
    (found : (splitWhitespace (renderCells (layout.rowCells row)))[place]? = some word)
    : row.2[place]? = some word := by
  have inPlace := (inPlace_iff (isCell_rowCells listed)).mpr inFront
  rw [← layout.rowCells_places listed]
  exact inPlace place word (by rwa [length_rowCells listed]) found

theorem valid_foldl_putValue (puts : List (Nat × Text × Text)) (forecasts : List MosForecastRow)
    : (puts.foldl putValue forecasts).map MosForecastRow.valid
      = forecasts.map MosForecastRow.valid := by
  induction puts generalizing forecasts with
  | nil => rfl
  | cons put puts ih =>
      rw [List.foldl_cons, ih]
      refine List.ext_getElem? fun place => ?_
      rw [List.getElem?_map, List.getElem?_map, putValue, List.getElem?_modify]
      split <;> cases forecasts[place]? <;> rfl

/-- A value is held at its place in the end. -/
theorem held_value (keeps : layout.KeepsColumns) {forecasts : List MosForecastRow}
    (length : forecasts.length = layout.columns.length) {row : Text × List Text}
    (listed : row ∈ layout.rows) {place : Nat} {value : Text}
    (printed : row.2[place]? = some value) (shown : value ≠ [])
    : held (layout.puts.foldl putValue forecasts) place (variableOf row.1) = some value := by
  have inside : place < layout.columns.length := by
    obtain ⟨small, -⟩ := List.getElem?_eq_some_iff.mp printed
    rwa [layout.complete row listed] at small
  refine held_foldl_putValue (by rwa [length]) ?_ (.inr ?_)
  · intro put member here name
    obtain ⟨other, otherListed, -, variable_, word⟩ := mem_puts.mp member
    rw [here] at word
    have otherValue := value_of_word otherListed (keeps.inFront other otherListed) inside word
    have visible : put.2.2 ≠ [] :=
      (@isToken_of_mem_tokens isWhitespace _ _ (List.mem_of_getElem? word)).nonempty
    exact (keeps.agree row listed other otherListed (by rw [← variable_, name]) place value put.2.2
      printed otherValue shown visible).symm
  · obtain ⟨width, cell⟩ : ∃ width, (layout.rowCells row)[place]? = some (width, value) := by
      have place := layout.rowCells_places listed place
      rw [printed] at place
      obtain ⟨⟨width, cell⟩, found, same⟩ := Option.map_eq_some_iff.mp place
      exact ⟨width, by rw [found, ← same]⟩
    have word := getElem?_words (isCell_rowCells listed) (keeps.inFront row listed) cell shown
    have put : (place, variableOf row.1, value) ∈ layout.puts :=
      mem_puts.mpr ⟨row, listed, inside, rfl, word⟩
    exact ⟨(place, variableOf row.1, value), put, rfl, rfl⟩

/-- The values of a section stay in their columns exactly if its header and its rows let them. -/
theorem valuesInColumns_iff {texts : TimeTexts} (reads : texts.ReadsRfc3339) (layout : MosLayout)
    : layout.ValuesInColumns texts ↔ layout.KeepsColumns := by
  constructor
  · rintro ⟨found, times, read, -, -, holds, stays⟩
    refine ⟨layout.header_not_axis reads read, fun row listed => ?_, ?_⟩
    · rw [← inPlace_iff (isCell_rowCells listed)]
      intro place word inside found
      obtain ⟨puts, line, under⟩ := stays row listed
      have words := lineValues_row (layout.names row listed) layout.columns.length
        (renderCells (layout.rowCells row))
      obtain rfl := Except.ok.inj (words.symm.trans line)
      rw [layout.rowCells_places listed]
      rw [length_rowCells listed] at inside
      exact under (place, variableOf row.1, word) (mem_received.mpr ⟨inside, rfl, found⟩)
    · intro row listed other otherListed same place value otherValue printed otherPrinted shown
        otherShown
      have first := holds row listed place value printed shown
      have second := holds other otherListed place otherValue otherPrinted otherShown
      rw [same, second] at first
      exact (Option.some.inj first).symm
  · intro keeps
    obtain ⟨times, axis, length⟩ := layout.exists_times
    refine ⟨_, times, layout.parseSection_eq reads keeps.axisFound axis length, axis, ?_, ?_, ?_⟩
    · rw [valid_foldl_putValue, List.map_map]
      rfl
    · intro row listed place value printed shown
      exact held_value keeps (by rw [List.length_map, length]) listed printed shown
    · intro row listed
      refine ⟨_, lineValues_row (layout.names row listed) _ _, fun put member => ?_⟩
      obtain ⟨inside, -, word⟩ := mem_received.mp member
      exact value_of_word listed (keeps.inFront row listed) inside word

/-- A reader for dates and whole hours, and a writer. -/
def hourTexts : TimeTexts where
  parseRfc3339 text :=
    match text.splitOnP fun c => c = '-' || c = 'T' || c = ':' with
    | [year, month, day, hour, _, _] => do
        let year ← digitsValue? year
        let month ← digitsValue? month
        let day ← digitsValue? day
        let hour ← digitsValue? hour
        return instantOf ⟨year, month, day⟩ hour 0
    | _ => none
  toRfc3339 time := rfc3339Text (dateOf time) (hourOf time)

theorem hourTexts_reads : hourTexts.ReadsRfc3339 := by
  intro date hour valid century clock
  obtain ⟨⟨-, months⟩, -, days⟩ := valid
  have length := (monthLength_bounds date.year date.month).2
  obtain ⟨year, same⟩ : ∃ year : Nat, date.year = year := ⟨date.year.toNat, by omega⟩
  have digit {number : Nat} : ∀ c ∈ Nat.toDigits 10 number, c.isDigit = true :=
    fun c member => Nat.isDigit_of_mem_toDigits (by omega) (by omega) member
  have solid {word : Text} (digits : ∀ c ∈ word, c.isDigit = true)
      : ∀ c ∈ word, (decide (c = '-') || decide (c = 'T') || decide (c = ':')) = false := by
    intro c member
    have isDigit := digits c member
    simp only [Bool.or_eq_false_iff, decide_eq_false_iff_not]
    refine ⟨⟨?_, ?_⟩, ?_⟩
    all_goals
      rintro rfl
      exact absurd isDigit (by decide)
  have two {number : Nat} (small : number < 100) := (twoDigits_digits small).2
  have pieces
      : (rfc3339Text date hour).splitOnP (fun c => c = '-' || c = 'T' || c = ':')
        = [Nat.toDigits 10 year, twoDigits date.month, twoDigits date.day, twoDigits hour,
            "00".toList, "00Z".toList] := by
    have parts : rfc3339Text date hour
        = Nat.toDigits 10 year ++ '-' :: (twoDigits date.month ++ '-' :: (twoDigits date.day
          ++ 'T' :: (twoDigits hour ++ ':' :: "00:00Z".toList))) := by
      rw [rfc3339Text, same]
      simp [signedDigits]
    rw [parts, List.splitOnP_append_cons_of_forall_mem (solid digit) '-' rfl,
      List.splitOnP_append_cons_of_forall_mem (solid (two (by omega))) '-' rfl,
      List.splitOnP_append_cons_of_forall_mem (solid (two (by omega))) 'T' rfl,
      List.splitOnP_append_cons_of_forall_mem (solid (two (by omega))) ':' rfl]
    rfl
  have reads {number : Nat} (small : number < 100) := digitsValue?_twoDigits small
  simp only [hourTexts, pieces, digitsValue?_toDigits, reads (show date.month < 100 by omega),
    reads (show date.day < 100 by omega), reads (show hour < 100 by omega), Option.bind_eq_bind,
    Option.bind_some, ← same]
  rfl

/-- A header of the twelfth of August. -/
def augustHeader : MosHeader where
  station := "KFOZ".toList
  model := "NAM".toList
  version := none
  mosName := "MOS".toList
  month := "8".toList
  day := "12".toList
  year := "2017".toList
  hour := 12
  minute := 0
  date := ⟨2017, 8, 12⟩
  pieces :=
    [("   ".toList, "NAM".toList), (" ".toList, "MOS".toList), (" ".toList, "GUIDANCE".toList),
      ("    ".toList, "8/12/2017".toList), ("  ".toList, "1200".toList),
      (" ".toList, "UTC".toList)]
  words := by decide
  blanks := by decide
  isStation := by decide
  initial := by decide
  isModel := by decide
  isName := by decide
  isVersion := nofun
  unversioned := by decide
  monthReads := by decide
  dayReads := by decide
  yearReads := by decide
  valid := by decide
  century := by decide
  clock := by decide

theorem isCell_of {width : Nat} {value : Text} (word : IsWord value) (fits : value.length ≤ width)
    : IsCell (width, value) where
  column := Nat.lt_of_lt_of_le (List.length_pos_iff.mpr word.nonempty) fits
  starts c member := word.visible c (List.mem_of_head? member)
  ends c member := word.visible c (List.mem_of_getLast? member)
  plain := plain_of_visible word.visible
  fits := fits

/-- The hours of an axis with two columns. -/
def twoColumns : List (Nat × Text) := [(5, "18".toList), (3, "21".toList)]

theorem twoColumns_hours
    : ∀ column ∈ twoColumns,
        ∃ hour,
          digitsValue? column.2 = some hour
          ∧ hour < hourBound (countsHours "HR".toList augustHeader.fields.modelName) := by
  simp only [twoColumns, List.forall_mem_cons]
  exact ⟨⟨18, by decide, by decide⟩, ⟨21, by decide, by decide⟩, nofun⟩

/-- Temperatures for both of the hours. -/
def temperatures : MosLayout where
  header := augustHeader
  label := "HR".toList
  columns := twoColumns
  rows := [("TMP".toList, ["75".toList, "78".toList])]
  listed := by decide
  apart := by decide
  hours := twoColumns_hours
  names := by
    rw [List.forall_mem_singleton]
    exact ⟨by decide, by decide, by decide, by decide⟩
  complete := by decide
  cells := by
    rw [List.forall_mem_singleton]
    simp only [twoColumns, List.map_cons, List.map_nil, List.zip_cons_cons, List.zip_nil_right,
      List.forall_mem_cons]
    exact ⟨isCell_of (by decide) (by decide), isCell_of (by decide) (by decide), nofun⟩
  unlabelled := by decide

theorem temperatures_inColumns : temperatures.ValuesInColumns hourTexts := by
  refine (valuesInColumns_iff hourTexts_reads temperatures).mpr ⟨by decide, ?_, ?_⟩
  · rw [temperatures, List.forall_mem_singleton]
    exact ⟨by decide, by decide⟩
  · intro row listed other otherListed _ place value otherValue printed otherPrinted _ _
    obtain rfl := List.mem_singleton.mp listed
    obtain rfl := List.mem_singleton.mp otherListed
    rw [printed] at otherPrinted
    exact Option.some.inj otherPrinted

/-- A maximum for the second hour, with nothing for the first. -/
def maximum : MosLayout where
  header := augustHeader
  label := "HR".toList
  columns := twoColumns
  rows := [("X/N".toList, [[], "86".toList])]
  listed := by decide
  apart := by decide
  hours := twoColumns_hours
  names := by
    rw [List.forall_mem_singleton]
    exact ⟨by decide, by decide, by decide, by decide⟩
  complete := by decide
  cells := by
    rw [List.forall_mem_singleton]
    simp only [twoColumns, List.map_cons, List.map_nil, List.zip_cons_cons, List.zip_nil_right,
      List.forall_mem_cons]
    refine ⟨⟨by decide, nofun, nofun, plain_nil, by decide⟩, ?_, nofun⟩
    exact isCell_of (by decide) (by decide)
  unlabelled := by decide

/-- The value goes to the hour whose cell is blank. -/
theorem maximum_misplaced : ¬ maximum.ValuesInColumns hourTexts := by
  rintro ⟨found, times, -, -, -, -, stays⟩
  obtain ⟨puts, line, under⟩ := stays ("X/N".toList, [[], "86".toList]) (by decide)
  have read
      : lineValues 2 (maximum.rowLine ("X/N".toList, [[], "86".toList]))
        = .ok [(0, "N_X".toList, "86".toList)] := by
    rfl
  obtain rfl : puts = [(0, "N_X".toList, "86".toList)] :=
    (Except.ok.inj (read.symm.trans line)).symm
  exact absurd (under (0, "N_X".toList, "86".toList) (by simp)) (by decide)

end MosLayout

end Emwin.Parser
