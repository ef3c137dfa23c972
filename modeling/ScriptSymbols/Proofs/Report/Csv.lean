import ScriptSymbols.Report

/-!
# Reading CSV reports

A CSV text is a list of records, each of them with a line break behind it, which the last one may lack. The
fields of a record have commas between them. A field in quotes may hold anything, with its own quotes
written twice; any other field has no comma, quote or line break in it.

1. `Csv.Inside`, `Csv.Field`, `Csv.Record` and `Csv.File` are this grammar.
2. `Csv.inside?`, `Csv.field?`, `Csv.record?` and `Csv.read?` read by it from left to right. What they read the
   grammar derives, and what it derives they read: `Csv.read?_eq_some_iff`.
3. `Report.csv_is_read_back`: the grammar has one reading of a report, and this gives the phases back.
-/

namespace ScriptSymbols

namespace Csv

/-! ## The grammar -/

/-- The characters that part fields and records. -/
def marks : List Char :=
  [',', '"', '\r', '\n']

/-- Whether a character may stand in a field without quotes. -/
def isPlain (c : Char) : Bool :=
  !marks.contains c

/-- The text between the quotes of a field, and its value: two quotes stand for one, and every other
character for itself. -/
inductive Inside : List Char → List Char → Prop
  | nil : Inside [] []
  | quote {text value : List Char} (rest : Inside text value) : Inside ('"' :: '"' :: text) ('"' :: value)
  | other {c : Char} {text value : List Char} (hc : c ≠ '"') (rest : Inside text value) :
      Inside (c :: text) (c :: value)

/-- The text of a field, and its value. -/
inductive Field : List Char → List Char → Prop
  | plain {value : List Char} (h : ∀ c ∈ value, isPlain c = true) : Field value value
  | quoted {text value : List Char} (h : Inside text value) : Field ('"' :: (text ++ ['"'])) value

/-- The text of a record, and the values of its fields. -/
inductive Record : List Char → List (List Char) → Prop
  | last {text value : List Char} (field : Field text value) : Record text [value]
  | more {text value rest : List Char} {values : List (List Char)} (field : Field text value)
      (others : Record rest values) : Record (text ++ ',' :: rest) (value :: values)

/-- Whether a text is a line break. -/
def IsBreak (text : List Char) : Prop :=
  text = ['\n'] ∨ text = ['\r', '\n']

/-- A text, and its records. Behind the last line break there is no empty record. -/
inductive File : List Char → List (List (List Char)) → Prop
  | nil : File [] []
  | last {text : List Char} {record : List (List Char)} (hne : text ≠ []) (h : Record text record) :
      File text [record]
  | more {text lineBreak rest : List Char} {record : List (List Char)} {records : List (List (List Char))}
      (h : Record text record) (hbreak : IsBreak lineBreak) (others : File rest records) :
      File (text ++ (lineBreak ++ rest)) (record :: records)

/-! ## Fields -/

/-- Reads what stands between quotes, of which the first is passed, and gives the text behind them. -/
def inside? : List Char → Option (List Char × List Char)
  | [] => none
  | '"' :: '"' :: cs => (inside? cs).map fun r => ('"' :: r.1, r.2)
  | c :: cs => if c = '"' then some ([], cs) else (inside? cs).map fun r => (c :: r.1, r.2)

/-- Reads a field, and gives the text behind it. -/
def field? : List Char → Option (List Char × List Char)
  | '"' :: cs => inside? cs
  | cs => some (cs.takeWhile isPlain, cs.dropWhile isPlain)

/-- Whether a text can stand behind a field: it is empty, or starts with a comma or a line break. -/
def EndsField (rest : List Char) : Prop :=
  ∀ c ∈ rest.head?, c = ',' ∨ c = '\r' ∨ c = '\n'

theorem EndsField.head?_ne {rest : List Char} (h : EndsField rest) : rest.head? ≠ some '"' := by
  intro hquote
  exact absurd (h '"' hquote) (by decide)

theorem EndsField.not_isPlain {rest : List Char} (h : EndsField rest) :
    ∀ c ∈ rest.head?, isPlain c = false := by
  intro c hc
  rcases h c hc with rfl | rfl | rfl <;> decide

theorem inside?_cons_of_ne {c : Char} (hc : c ≠ '"') (cs : List Char) :
    inside? (c :: cs) = (inside? cs).map fun r => (c :: r.1, r.2) := by
  rw [inside?, if_neg hc]
  rintro cs rfl
  exact absurd rfl hc

theorem inside?_closed {rest : List Char} (h : rest.head? ≠ some '"') :
    inside? ('"' :: rest) = some ([], rest) := by
  rw [inside?, if_pos rfl]
  rintro cs _ rfl
  exact absurd rfl h

theorem inside?_append {text value rest : List Char} (h : Inside text value) (hrest : rest.head? ≠ some '"') :
    inside? (text ++ '"' :: rest) = some (value, rest) := by
  induction h with
  | nil => exact inside?_closed hrest
  | quote _ ih => rw [List.cons_append, List.cons_append, inside?, ih, Option.map_some]
  | other hc _ ih => rw [List.cons_append, inside?_cons_of_ne hc, ih, Option.map_some]

theorem exists_inside {cs value rest : List Char} (h : inside? cs = some (value, rest)) :
    ∃ text, Inside text value ∧ cs = text ++ '"' :: rest := by
  fun_induction inside? cs generalizing value with
  | case1 => cases h
  | case2 cs ih =>
      obtain ⟨⟨value, rest⟩, hread, heq⟩ := Option.map_eq_some_iff.1 h
      cases heq
      obtain ⟨text, hinside, rfl⟩ := ih hread
      exact ⟨'"' :: '"' :: text, hinside.quote, rfl⟩
  | case3 cs _ =>
      cases h
      exact ⟨[], .nil, rfl⟩
  | case4 c cs _ hc ih =>
      obtain ⟨⟨value, rest⟩, hread, heq⟩ := Option.map_eq_some_iff.1 h
      cases heq
      obtain ⟨text, hinside, rfl⟩ := ih hread
      exact ⟨c :: text, hinside.other hc, rfl⟩

theorem field?_of_head?_ne {cs : List Char} (h : cs.head? ≠ some '"') :
    field? cs = some (cs.takeWhile isPlain, cs.dropWhile isPlain) := by
  rw [field?]
  rintro rest rfl
  exact absurd rfl h

theorem field?_append {text value rest : List Char} (h : Field text value) (hrest : EndsField rest) :
    field? (text ++ rest) = some (value, rest) := by
  cases h with
  | quoted hinside =>
      rw [List.cons_append, List.append_assoc]
      exact inside?_append hinside hrest.head?_ne
  | plain hplain =>
      -- Neither a plain character nor what ends a field is a quote, so no quoted field seems to start here.
      have hhead : (text ++ rest).head? ≠ some '"' := by
        cases text with
        | nil => exact hrest.head?_ne
        | cons c text =>
            intro hquote
            cases hquote
            exact absurd (hplain '"' List.mem_cons_self) (by decide)
      have hstop : rest.takeWhile isPlain = [] ∧ rest.dropWhile isPlain = rest := by
        cases rest with
        | nil => exact ⟨rfl, rfl⟩
        | cons c rest =>
            have hc := hrest.not_isPlain c rfl
            simp [hc]
      rw [field?_of_head?_ne hhead, List.takeWhile_append_of_pos hplain, List.dropWhile_append_of_pos hplain,
        hstop.1, hstop.2, List.append_nil]

theorem exists_field {cs value rest : List Char} (h : field? cs = some (value, rest)) :
    ∃ text, Field text value ∧ cs = text ++ rest := by
  rw [field?.eq_def] at h
  split at h
  · rename_i cs
    obtain ⟨text, hinside, rfl⟩ := exists_inside h
    exact ⟨_, .quoted hinside, by simp⟩
  · cases h
    exact ⟨_, .plain (List.all_eq_true.1 List.all_takeWhile), List.takeWhile_append_dropWhile.symm⟩

/-! ## Records -/

theorem length_field? {cs value rest : List Char} (h : field? cs = some (value, rest)) :
    rest.length ≤ cs.length := by
  obtain ⟨text, -, rfl⟩ := exists_field h
  simp

/-- Reads a record, and gives the text behind it. -/
def record? (cs : List Char) : Option (List (List Char) × List Char) :=
  match _h : field? cs with
  | none => none
  | some (value, ',' :: rest) => (record? rest).map fun r => (value :: r.1, r.2)
  | some (value, rest) => some ([value], rest)
termination_by cs.length
decreasing_by
  exact length_field? _h

/-- Whether a text can stand behind a record: it is empty or starts with a line break. -/
def EndsRecord (rest : List Char) : Prop :=
  ∀ c ∈ rest.head?, c = '\r' ∨ c = '\n'

theorem EndsRecord.endsField {rest : List Char} (h : EndsRecord rest) : EndsField rest :=
  fun c hc => Or.inr (h c hc)

theorem endsField_comma (rest : List Char) : EndsField (',' :: rest) := by
  intro c hc
  cases hc
  exact Or.inl rfl

theorem record?_of_more {cs value rest : List Char} (h : field? cs = some (value, ',' :: rest)) :
    record? cs = (record? rest).map fun r => (value :: r.1, r.2) := by
  rw [record?]
  split
  · rename_i hfield
    cases h.symm.trans hfield
  · rename_i hfield
    cases h.symm.trans hfield
    rfl
  · rename_i hlast hfield
    cases h.symm.trans hfield
    exact absurd rfl (hlast rest)

theorem record?_of_last {cs value rest : List Char} (h : field? cs = some (value, rest))
    (hrest : rest.head? ≠ some ',') : record? cs = some ([value], rest) := by
  rw [record?]
  split
  · rename_i hfield
    cases h.symm.trans hfield
  · rename_i hfield
    cases h.symm.trans hfield
    exact absurd rfl hrest
  · rename_i hfield
    cases h.symm.trans hfield
    rfl

theorem record?_append {text rest : List Char} {values : List (List Char)} (h : Record text values)
    (hrest : EndsRecord rest) : record? (text ++ rest) = some (values, rest) := by
  induction h with
  | last hfield =>
      have hcomma : rest.head? ≠ some ',' := fun hc => absurd (hrest ',' hc) (by decide)
      exact record?_of_last (field?_append hfield hrest.endsField) hcomma
  | more hfield _ ih =>
      rw [List.append_assoc, List.cons_append, record?_of_more (field?_append hfield (endsField_comma _)), ih,
        Option.map_some]

theorem exists_record {cs rest : List Char} {values : List (List Char)} (h : record? cs = some (values, rest)) :
    ∃ text, Record text values ∧ cs = text ++ rest := by
  fun_induction record? cs generalizing values with
  | case1 => cases h
  | case2 cs value behind hfield ih =>
      obtain ⟨⟨values, rest⟩, hread, heq⟩ := Option.map_eq_some_iff.1 h
      cases heq
      obtain ⟨text, hrecord, rfl⟩ := ih hread
      obtain ⟨first, hfirst, rfl⟩ := exists_field hfield
      exact ⟨_, .more hfirst hrecord, by simp⟩
  | case3 cs value behind _ hfield =>
      cases h
      obtain ⟨text, htext, rfl⟩ := exists_field hfield
      exact ⟨text, .last htext, rfl⟩

/-! ## Files -/

/-- The text behind a line break, if there is one. -/
def afterBreak? : List Char → Option (List Char)
  | '\n' :: cs => some cs
  | '\r' :: '\n' :: cs => some cs
  | _ => none

theorem afterBreak?_eq_some_iff (cs rest : List Char) :
    afterBreak? cs = some rest ↔ ∃ lineBreak, IsBreak lineBreak ∧ cs = lineBreak ++ rest := by
  constructor
  · intro h
    rw [afterBreak?.eq_def] at h
    split at h
    · cases h
      exact ⟨['\n'], Or.inl rfl, rfl⟩
    · cases h
      exact ⟨['\r', '\n'], Or.inr rfl, rfl⟩
    · cases h
  · rintro ⟨lineBreak, rfl | rfl, rfl⟩
    · rfl
    · rfl

theorem length_afterBreak? {cs rest : List Char} (h : afterBreak? cs = some rest) :
    rest.length < cs.length := by
  obtain ⟨lineBreak, rfl | rfl, rfl⟩ := (afterBreak?_eq_some_iff cs rest).1 h
  · simp
  · simp only [List.length_append, List.length_cons]
    omega

theorem length_record? {cs rest : List Char} {values : List (List Char)}
    (h : record? cs = some (values, rest)) : rest.length ≤ cs.length := by
  obtain ⟨text, -, rfl⟩ := exists_record h
  simp

/-- Reads the records of a text. -/
def read? (cs : List Char) : Option (List (List (List Char))) :=
  if cs = [] then some []
  else
    match _hrecord : record? cs with
    | none => none
    | some (record, []) => some [record]
    | some (record, rest) =>
      match _hbreak : afterBreak? rest with
      | none => none
      | some others => (read? others).map (record :: ·)
termination_by cs.length
decreasing_by
  exact Nat.lt_of_lt_of_le (length_afterBreak? _hbreak) (length_record? _hrecord)

theorem endsRecord_of_isBreak {lineBreak : List Char} (h : IsBreak lineBreak) (rest : List Char) :
    EndsRecord (lineBreak ++ rest) := by
  intro c hc
  rcases h with rfl | rfl
  · cases hc
    exact Or.inr rfl
  · cases hc
    exact Or.inl rfl

theorem read?_nil : read? [] = some [] := by
  rw [read?, if_pos rfl]

theorem read?_of_last {cs : List Char} {record : List (List Char)} (hne : cs ≠ [])
    (h : record? cs = some (record, [])) : read? cs = some [record] := by
  rw [read?, if_neg hne]
  split
  · rename_i hrecord
    cases h.symm.trans hrecord
  · rename_i hrecord
    cases h.symm.trans hrecord
    rfl
  · rename_i hmore hrecord
    cases h.symm.trans hrecord
    exact absurd rfl hmore

theorem read?_of_more {cs rest others : List Char} {record : List (List Char)} (hne : cs ≠ [])
    (h : record? cs = some (record, rest)) (hbreak : afterBreak? rest = some others) :
    read? cs = (read? others).map (record :: ·) := by
  rw [read?, if_neg hne]
  split
  · rename_i hrecord
    cases h.symm.trans hrecord
  · rename_i hrecord
    cases h.symm.trans hrecord
    cases hbreak
  · rename_i hrecord
    cases h.symm.trans hrecord
    split
    · rename_i hnone
      cases hbreak.symm.trans hnone
    · rename_i hothers
      cases hbreak.symm.trans hothers
      rfl

theorem file_of_read? {text : List Char} {records : List (List (List Char))} (h : read? text = some records) :
    File text records := by
  fun_induction read? text generalizing records with
  | case1 =>
      cases h
      exact .nil
  | case2 => cases h
  | case3 cs hne record hrecord =>
      cases h
      obtain ⟨text, htext, rfl⟩ := exists_record hrecord
      rw [List.append_nil] at hne ⊢
      exact .last hne htext
  | case4 => cases h
  | case5 cs hne record rest _ hrecord others hbreak ih =>
      obtain ⟨records, hread, rfl⟩ := Option.map_eq_some_iff.1 h
      obtain ⟨text, htext, rfl⟩ := exists_record hrecord
      obtain ⟨lineBreak, hlineBreak, rfl⟩ := (afterBreak?_eq_some_iff _ _).1 hbreak
      exact .more htext hlineBreak (ih hread)

theorem read?_of_file {text : List Char} {records : List (List (List Char))} (h : File text records) :
    read? text = some records := by
  induction h with
  | nil => exact read?_nil
  | @last text record hne hrecord =>
      have hread : record? (text ++ []) = some (record, []) := record?_append hrecord (by simp [EndsRecord])
      rw [List.append_nil] at hread
      exact read?_of_last hne hread
  | @more text lineBreak rest record records hrecord hbreak _ ih =>
      -- The record may be one empty field, but then there is still its line break.
      have hne : text ++ (lineBreak ++ rest) ≠ [] := by
        rcases hbreak with rfl | rfl
        · simp
        · simp
      have hafter : afterBreak? (lineBreak ++ rest) = some rest :=
        (afterBreak?_eq_some_iff _ _).2 ⟨lineBreak, hbreak, rfl⟩
      rw [read?_of_more hne (record?_append hrecord (endsRecord_of_isBreak hbreak rest)) hafter, ih,
        Option.map_some]

/-- A text is read as the records that the grammar derives from it. So it derives no others. -/
theorem read?_eq_some_iff (text : List Char) (records : List (List (List Char))) :
    read? text = some records ↔ File text records :=
  ⟨file_of_read?, read?_of_file⟩

/-- Lines with a record each, and a line break behind it, have these records. -/
theorem file_flatMap {α : Type} {line : α → List Char} {record : α → List (List Char)} {items : List α}
    (h : ∀ a ∈ items, Record (line a) (record a)) :
    File (items.flatMap fun a => line a ++ ['\n']) (items.map record) := by
  induction items with
  | nil => exact .nil
  | cons a items ih =>
      have hrest := ih fun b hb => h b (List.mem_cons_of_mem _ hb)
      rw [List.flatMap_cons, List.append_assoc]
      exact .more (h a List.mem_cons_self) (Or.inl rfl) hrest

theorem isPlain_of_isDigit {c : Char} (h : c.isDigit = true) : isPlain c = true := by
  have hmarks : marks.all (!·.isDigit) = true := by decide
  rw [isPlain, Bool.not_eq_true', ← Bool.not_eq_true, List.contains_iff_mem]
  intro hmem
  have hnot := List.all_eq_true.1 hmarks c hmem
  rw [h] at hnot
  cases hnot

end Csv

/-! ## Reports -/

namespace Decimal

theorem isDigit_of_mem_padded {width n : Nat} {c : Char} (h : c ∈ padded width n) : c.isDigit = true := by
  rcases List.mem_append.1 h with hzero | hdigit
  · rw [List.eq_of_mem_replicate hzero]
    decide
  · exact Nat.isDigit_of_mem_toDigits (by decide) (by decide) hdigit

/-- A number with a fixed number of places is written with digits and a point. -/
theorem isDigit_or_eq_of_mem_fixed {places n d : Nat} {c : Char} (h : c ∈ (fixed places n d).toList) :
    c.isDigit = true ∨ c = '.' := by
  rw [fixed, withPoint, String.toList_ofList] at h
  rcases List.mem_append.1 h with hwhole | hrest
  · exact Or.inl (Nat.isDigit_of_mem_toDigits (by decide) (by decide) hwhole)
  · rcases List.mem_cons.1 hrest with hpoint | hplaces
    · exact Or.inr hpoint
    · exact Or.inl (isDigit_of_mem_padded hplaces)

end Decimal

namespace Report

/-- The names of the columns. -/
def columns : List String :=
  ["phase", "duration_ms", "peak_rss_bytes", "detail"]

/-- The fields of a phase. -/
def fields (p : PhaseResult) : List String :=
  [p.name, Decimal.fixedFloat 3 (milliseconds p.nanoseconds), (p.peakMemory.map toString).getD "", p.detail]

theorem inside_doubled (text : List Char) :
    Csv.Inside (text.flatMap fun c => if c = '"' then ['"', '"'] else [c]) text := by
  induction text with
  | nil => exact .nil
  | cons c text ih =>
      rw [List.flatMap_cons]
      split
      · rename_i hc
        subst hc
        exact ih.quote
      · rename_i hc
        exact ih.other hc

theorem field_quoted (text : String) : Csv.Field (quoted text).toList text.toList := by
  rw [quoted, String.toList_ofList]
  exact .quoted (inside_doubled text.toList)

theorem field_duration (nanoseconds : Nat) :
    let text := (Decimal.fixedFloat 3 (milliseconds nanoseconds)).toList
    Csv.Field text text := by
  intro text
  refine .plain fun c hc => ?_
  rcases Decimal.isDigit_or_eq_of_mem_fixed hc with hdigit | rfl
  · exact Csv.isPlain_of_isDigit hdigit
  · decide

theorem field_memory (peak : Option Nat) :
    let text := ((peak.map toString).getD "").toList
    Csv.Field text text := by
  intro text
  refine .plain fun c hc => ?_
  cases peak with
  | none => exact absurd hc (by simp [text])
  | some n =>
      have htext : text = Nat.toDigits 10 n := Nat.toList_repr
      rw [htext] at hc
      exact Csv.isPlain_of_isDigit (Nat.isDigit_of_mem_toDigits (by decide) (by decide) hc)

theorem toList_csvLine (p : PhaseResult) :
    (csvLine p).toList =
      p.name.toList ++ ',' :: ((Decimal.fixedFloat 3 (milliseconds p.nanoseconds)).toList ++
        ',' :: (((p.peakMemory.map toString).getD "").toList ++ ',' :: (quoted p.detail).toList)) := by
  cases hpeak : p.peakMemory with
  | none => simp [csvLine, hpeak]
  | some n => simp [csvLine, hpeak]

theorem record_csvLine {p : PhaseResult} (h : ∀ c ∈ p.name.toList, c ∉ Csv.marks) :
    Csv.Record (csvLine p).toList ((fields p).map String.toList) := by
  have hname : Csv.Field p.name.toList p.name.toList := by
    refine .plain fun c hc => ?_
    simpa [Csv.isPlain] using h c hc
  rw [toList_csvLine]
  exact .more hname (.more (field_duration _) (.more (field_memory _) (.last (field_quoted _))))

theorem record_columns :
    Csv.Record "phase,duration_ms,peak_rss_bytes,detail".toList (columns.map String.toList) := by
  have hplain : ∀ name ∈ columns, Csv.Field name.toList name.toList := by
    have hall : columns.all (·.toList.all Csv.isPlain) = true := by decide
    intro name hname
    exact .plain (List.all_eq_true.1 (List.all_eq_true.1 hall name hname))
  have hline : "phase,duration_ms,peak_rss_bytes,detail".toList =
      "phase".toList ++ ',' :: ("duration_ms".toList ++
        ',' :: ("peak_rss_bytes".toList ++ ',' :: "detail".toList)) := by
    decide
  rw [hline]
  exact .more (hplain _ (by simp [columns])) (.more (hplain _ (by simp [columns]))
    (.more (hplain _ (by simp [columns])) (.last (hplain _ (by simp [columns])))))

theorem toList_csv (phases : List PhaseResult) :
    (csv phases).toList =
      "phase,duration_ms,peak_rss_bytes,detail".toList ++
        (['\n'] ++ phases.flatMap fun p => (csvLine p).toList ++ ['\n']) := by
  simp [csv, csvLines, String.toList_join, List.flatMap_map]

/-- A report is read back: its records are the columns and then, phase by phase, the name, the duration, the
peak of memory in decimal digits or nothing, and the detail, whatever characters this has. Only the names have
to be free of marks, as they stand without quotes; durations always are. The grammar has no other reading. -/
theorem csv_is_read_back {phases : List PhaseResult}
    (hnames : ∀ p ∈ phases, ∀ c ∈ p.name.toList, c ∉ Csv.marks) :
    let records := (columns :: phases.map fields).map (·.map String.toList)
    Csv.read? (csv phases).toList = some records ∧
      ∀ others, Csv.File (csv phases).toList others ↔ others = records := by
  intro records
  have hrecords : records =
      columns.map String.toList :: phases.map fun p => (fields p).map String.toList := by
    simp [records]
  have hfile : Csv.File (csv phases).toList records := by
    rw [toList_csv, hrecords]
    exact .more record_columns (Or.inl rfl) (Csv.file_flatMap fun p hp => record_csvLine (hnames p hp))
  have hread : Csv.read? (csv phases).toList = some records := (Csv.read?_eq_some_iff _ _).2 hfile
  refine ⟨hread, fun others => ?_⟩
  rw [← Csv.read?_eq_some_iff, hread, Option.some.injEq, eq_comm]

/-- Details with commas, quotes at their ends, two quotes in a row and line breaks. -/
theorem csv_is_read_back_with_breaks :
    let phases : List PhaseResult :=
      [⟨"scan", 10000000, none, "say \"hi\""⟩, ⟨"read files", 1500, some 4096, "\"\",\r\nindex,1,,\"\n"⟩]
    (∀ p ∈ phases, ∀ c ∈ p.name.toList, c ∉ Csv.marks) ∧
      Csv.read? (csv phases).toList =
        some ([["phase", "duration_ms", "peak_rss_bytes", "detail"],
          ["scan", Decimal.fixedFloat 3 (milliseconds 10000000), "", "say \"hi\""],
          ["read files", Decimal.fixedFloat 3 (milliseconds 1500), "4096",
            "\"\",\r\nindex,1,,\"\n"]].map (·.map String.toList)) := by
  intro phases
  have hnames : ∀ p ∈ phases, ∀ c ∈ p.name.toList, c ∉ Csv.marks := by
    simp [phases, Csv.marks]
  exact ⟨hnames, (csv_is_read_back hnames).1⟩

end Report
end ScriptSymbols
