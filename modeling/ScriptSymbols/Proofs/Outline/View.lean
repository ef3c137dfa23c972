import ScriptSymbols.Proofs.Outline.Append
import ScriptSymbols.Proofs.Outline.Reading

/-!
# What an outline sees of a text

A script is made from the code of the lines, and from the lines as they are written only through the
comments above its methods.

1. `Source.liesInComment` says which lines lie in a block comment; `Source.getElem?_ofLines` gives the code
   of each line by it.
2. `Source.notesAbove` are the comment lines right above a line, from which the comment of a method is
   made.
3. `Relabeling.comments` gives methods other comments. Sources with the same code differ by it alone.
4. `Script.ofSource_eq_iff` says when scripts made from the same code are equal.
-/

namespace ScriptSymbols

open Text

namespace Source

/-! ## Lines in block comments -/

/-- Whether a line lies in a block comment, where `inComment` says that one is open before all lines. The
lines that open and close a comment belong to it. -/
def liesInComment (inComment : Bool) (lines : List (List Char)) (i : Nat) : Bool :=
  inCommentAfter inComment (lines.take i) || lines[i]?.any opensComment

theorem inCommentAfter_append (inComment : Bool) (lines more : List (List Char)) :
    inCommentAfter inComment (lines ++ more) =
      inCommentAfter (inCommentAfter inComment lines) more := by
  induction lines generalizing inComment with
  | nil => rfl
  | cons raw rest ih => exact ih _

theorem inCommentAfter_take_succ (inComment : Bool) {lines : List (List Char)} {i : Nat}
    {raw : List Char} (h : lines[i]? = some raw) :
    inCommentAfter inComment (lines.take (i + 1)) =
      (liesInComment inComment lines i && !closesComment raw) := by
  rw [List.take_add_one, h, inCommentAfter_append, liesInComment, h]
  rfl

/-- The code of a line in a block comment is empty, that of any other line is its skeleton. -/
theorem getElem?_ofLinesFrom (inComment : Bool) (lines : List (List Char)) (i : Nat) :
    (ofLinesFrom inComment lines)[i]? = lines[i]?.map fun raw =>
      { raw, code := if liesInComment inComment lines i then [] else skeleton raw } := by
  induction lines generalizing inComment i with
  | nil => simp [ofLinesFrom]
  | cons raw rest ih =>
      cases i with
      | zero =>
          rw [ofLinesFrom]
          split
          · rename_i hin
            simp [liesInComment, inCommentAfter, hin]
          · rename_i hout
            simp [liesInComment, inCommentAfter, hout]
      | succ i =>
          have hlies : liesInComment inComment (raw :: rest) (i + 1) =
              liesInComment ((inComment || opensComment raw) && !closesComment raw) rest i := rfl
          rw [ofLinesFrom, hlies]
          split
          · rename_i hin
            simp [ih, hin]
          · rename_i hout
            simp [ih, hout]

theorem getElem?_ofLines (lines : List (List Char)) (i : Nat) :
    (ofLines lines)[i]? = lines[i]?.map fun raw =>
      { raw, code := if liesInComment false lines i then [] else skeleton raw } :=
  getElem?_ofLinesFrom false lines i

theorem raw_ofLines (lines : List (List Char)) : (ofLines lines).map SourceLine.raw = lines := by
  apply List.ext_getElem?
  intro i
  simp [getElem?_ofLines, Function.comp_def]

theorem drop_eq_cons {source : List SourceLine} {i : Nat} {line : SourceLine}
    (h : source[i]? = some line) : source.drop i = line :: source.drop (i + 1) := by
  rcases List.getElem?_eq_some_iff.1 h with ⟨hlt, rfl⟩
  exact List.drop_eq_getElem_cons hlt

/-! ## Comments above a line -/

/-- Whether a line is a comment line, as it is written. -/
def isNote (raw : List Char) : Bool :=
  (trim raw).head? == some ';'

/-- The texts of the comment lines right above a line, from the nearest to the first. -/
def notesAbove (lines : List (List Char)) (i : Nat) : List (List Char) :=
  ((lines.take i).reverse.takeWhile isNote).map commentText

/-- The comment that some comment lines make, which are given from the last to the first. -/
def commentOfNotes (notes : List (List Char)) : Option (List Char) :=
  let comment := trim (join ['\n'] notes.reverse)
  if comment.isEmpty then none else some comment

/-- The comment right above a line of a text. -/
def commentAbove (lines : List (List Char)) (i : Nat) : Option String :=
  (commentOfNotes (notesAbove lines i)).map String.ofList

theorem commentOf?_take (source : List SourceLine) (i : Nat) :
    (commentOf? (source.take i).reverse).map String.ofList =
      commentAbove (source.map SourceLine.raw) i := by
  have hnotes : notesAbove (source.map SourceLine.raw) i =
      ((source.take i).reverse.takeWhile fun line => (trim line.raw).head? == some ';').map
        fun line => commentText line.raw := by
    rw [notesAbove, ← List.map_take, ← List.map_reverse, List.takeWhile_map, List.map_map]
    rfl
  rw [commentAbove, hnotes]
  rfl

/-- One more line is a note on what follows, or ends all notes. -/
theorem notesAbove_succ {lines : List (List Char)} {i : Nat} {raw : List Char}
    (h : lines[i]? = some raw) :
    notesAbove lines (i + 1) = if isNote raw then commentText raw :: notesAbove lines i else [] := by
  rw [notesAbove, List.take_add_one, h]
  simp only [Option.toList_some, List.reverse_append, List.reverse_singleton,
    List.singleton_append, List.takeWhile_cons]
  split <;> rfl

/-! ## Declarations by code alone -/

section SameCode

variable {lines lines' : List SourceLine}

theorem opensBlock_eq (lines : List SourceLine) :
    opensBlock lines = ((lines.map SourceLine.code).find? (!allBlank ·)).any
      fun code => (trimStart code).head? == some '{' := by
  have hcodes : ((fun code => !allBlank code) ∘ SourceLine.code) =
      fun line => !allBlank line.code := rfl
  rw [List.find?_map, hcodes, opensBlock]
  cases lines.find? (fun line => !allBlank line.code) with
  | none => rfl
  | some line => rfl

theorem declaration?_of_code_eq (h : lines'.map SourceLine.code = lines.map SourceLine.code) :
    declaration? lines' = declaration? lines := by
  cases lines with
  | nil =>
      cases List.map_eq_nil_iff.1 h
      rfl
  | cons line rest =>
      rcases List.map_eq_cons_iff.1 h with ⟨line', rest', rfl, hcode, hrest⟩
      simp only [declaration?, hcode, opensBlock_eq, hrest]

theorem namesIn_of_code_eq (h : lines'.map SourceLine.code = lines.map SourceLine.code) :
    namesIn lines' = namesIn lines := by
  cases lines with
  | nil =>
      cases List.map_eq_nil_iff.1 h
      rfl
  | cons line rest =>
      have hdecl := declaration?_of_code_eq h
      rcases List.map_eq_cons_iff.1 h with ⟨line', rest', rfl, hcode, _hrest⟩
      simp only [namesIn, hdecl, hcode]

end SameCode
end Source

/-! ## Other comments -/

/-- Gives each method the comment that belongs to its line. -/
def Relabeling.comments (comment : Nat → Option String) : Relabeling where
  method m := { m with comment := comment m.line }
  global := id
  name := id
  method_line _ := rfl
  method_close _ _ := rfl
  method_addVariable m cs line := by
    cases hknown : m.params.any (sameName · (String.ofList cs)) ||
        declares m.locals (String.ofList cs) with
    | true => simp [Method.addVariable, hknown]
    | false => simp [Method.addVariable, hknown]
  global_new _ _ := rfl
  declares_map vs cs := by simp
  isReserved_name _ := rfl

theorem Script.relabel_comments_inj {comment comment' : Nat → Option String} {s : Script} :
    s.relabel (.comments comment) = s.relabel (.comments comment') ↔
      ∀ m ∈ s.methods, comment m.line = comment' m.line := by
  simp [Script.relabel, Relabeling.comments]

/-! ## Scripts made from the same code -/

section SameCode

variable {source source' : List SourceLine}

/-- Lines with the same code are read alike, up to the comments above them. -/
theorem Source.readings_of_code_eq (uri : Uri)
    (h : source'.map SourceLine.code = source.map SourceLine.code) :
    Source.readings uri [] source' =
      (Source.readings uri [] source).map
        (Reading.relabel (.comments (Source.commentAbove (source'.map SourceLine.raw)))) := by
  apply List.ext_getElem?
  intro i
  rw [List.getElem?_map, getElem?_readings, getElem?_readings]
  have hline : source'[i]?.map SourceLine.code = source[i]?.map SourceLine.code := by
    rw [← List.getElem?_map, ← List.getElem?_map, h]
  cases hi : source[i]? with
  | none =>
      have hi' : source'[i]? = none := by
        simpa [hi] using hline
      rw [hi']
      rfl
  | some line =>
      rw [hi] at hline
      rcases Option.map_eq_some_iff.1 hline with ⟨line', hi', hcode⟩
      have hbelow : (line' :: source'.drop (i + 1)).map SourceLine.code =
          (line :: source.drop (i + 1)).map SourceLine.code := by
        simp [hcode, List.map_drop, h]
      have hlength : (source'.take i).reverse.length = (source.take i).reverse.length := by
        simpa using congrArg (fun codes => (codes.take i).length) h
      have hpos : (source.take i).reverse.length = i := by
        have hlt := (List.getElem?_eq_some_iff.1 hi).1
        simp
        omega
      have hcomment : Source.commentAbove (source'.map SourceLine.raw) i =
          (Source.commentOf? (source'.take i).reverse).map String.ofList :=
        (commentOf?_take source' i).symm
      -- Of the lines above, a method takes their number and the comment, and nothing else.
      have hmethod : ∀ d, Outline.methodOf uri (source'.take i).reverse i d =
          (Relabeling.comments (Source.commentAbove (source'.map SourceLine.raw))).method
            (Outline.methodOf uri (source.take i).reverse i d) := by
        intro d
        simp [Relabeling.comments, Outline.methodOf, hcomment]
      rw [hi', Option.map_some, Option.map_some, Option.map_some]
      simp only [readingOf, Reading.relabel, hlength, hpos, declaration?_of_code_eq hbelow,
        namesIn_of_code_eq hbelow, hcode, Option.map_map]
      congr 2
      · exact congrArg (Option.map · _) (funext hmethod)
      · exact (List.map_id _).symm

theorem Script.ofSource_of_code_eq (uri : Uri)
    (h : source'.map SourceLine.code = source.map SourceLine.code) :
    Script.ofSource uri source' =
      (Script.ofSource uri source).relabel
        (.comments (Source.commentAbove (source'.map SourceLine.raw))) := by
  rw [ofSource_eq_ofReadings, ofSource_eq_ofReadings, Source.readings_of_code_eq uri h,
    ofReadings_relabel]

/-- Scripts made from the same code are equal exactly if every method has the same comment in both. -/
theorem Script.ofSource_eq_iff (uri : Uri)
    (h : source'.map SourceLine.code = source.map SourceLine.code) :
    Script.ofSource uri source' = Script.ofSource uri source ↔
      ∀ m ∈ (Script.ofSource uri source).methods,
        Source.commentAbove (source'.map SourceLine.raw) m.line =
          Source.commentAbove (source.map SourceLine.raw) m.line := by
  have hself := ofSource_of_code_eq uri (Eq.refl (source.map SourceLine.code))
  rw [← Script.relabel_comments_inj, ← hself, ← ofSource_of_code_eq uri h]

end SameCode
end ScriptSymbols
