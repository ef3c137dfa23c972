import Mathlib.Data.List.TakeWhile
import ScriptSymbols.Proofs.Outline.Block

/-!
# Texts behind one another

The outline of two texts one behind the other is made of their own outlines, unless the first one
leaves something open. It can leave open a block comment, a block, a method, a header that waits for
its brace, and a comment that belongs to what follows.

1. `Text.lines_append` and `Source.ofLinesFrom_append` cut the lines of both texts apart.
2. `Source.IsSettled` says that no header waits for its brace; `Outline.addLines_append` follows.
3. `Outline.behind` puts an outline behind another one, some lines further down. All steps of an outline
   commute with it.
4. `Script.outline_of_appended_texts` is the result for whole texts.
-/

namespace ScriptSymbols

/-! ## Lines of two texts -/

namespace Text

theorem pieces_ne_nil (text : List Char) : pieces text ≠ [] := by
  cases text with
  | nil => simp [pieces]
  | cons c text =>
      have hcons : pieces (c :: text) = consPiece c (pieces text) := rfl
      rw [hcons]
      cases pieces text with
      | nil => simp [consPiece]
      | cons piece rest =>
          rw [consPiece]
          split <;> simp

theorem consPiece_append (c : Char) {ps : List (List Char)} (h : ps ≠ [])
    (qs : List (List Char)) : consPiece c (ps ++ qs) = consPiece c ps ++ qs := by
  cases ps with
  | nil => exact absurd rfl h
  | cons piece rest =>
      simp only [List.cons_append, consPiece]
      split <;> simp

/-- A line feed ends a piece, and what is behind it is cut on its own. -/
theorem pieces_append_feed (text more : List Char) :
    pieces (text ++ '\n' :: more) = pieces text ++ pieces more := by
  induction text with
  | nil =>
      have hcons : pieces ('\n' :: more) = consPiece '\n' (pieces more) := rfl
      rw [List.nil_append, hcons]
      cases hmore : pieces more with
      | nil => exact absurd hmore (pieces_ne_nil more)
      | cons piece rest => simp [consPiece, pieces]
  | cons c text ih =>
      have hcons : ∀ cs, pieces (c :: cs) = consPiece c (pieces cs) := fun _ => rfl
      rw [List.cons_append, hcons, ih, hcons, consPiece_append c (pieces_ne_nil text)]

theorem linesOfPieces_append (ps : List (List Char)) {qs : List (List Char)} (h : qs ≠ []) :
    linesOfPieces (ps ++ qs) = ps.map dropReturn ++ linesOfPieces qs := by
  induction ps with
  | nil => rfl
  | cons piece ps ih =>
      have hne : ps ++ qs ≠ [] := by simp [h]
      have hstep : linesOfPieces (piece :: (ps ++ qs)) =
          dropReturn piece :: linesOfPieces (ps ++ qs) := by
        rw [linesOfPieces]
        exact hne
      rw [List.cons_append, hstep, ih]
      rfl

/-- The lines of a text that ends with a line, and of what follows it. -/
theorem lines_append {text : List Char} (h : text = [] ∨ text.getLast? = some '\n')
    (more : List Char) : lines (text ++ more) = lines text ++ lines more := by
  rcases h with rfl | hlast
  · rfl
  · rcases List.getLast?_eq_some_iff.1 hlast with ⟨front, rfl⟩
    -- On its own, the first text has an empty piece behind its last line, which is no line.
    have hsplit : front ++ ['\n'] ++ more = front ++ '\n' :: more := by simp
    unfold lines
    rw [hsplit, pieces_append_feed, linesOfPieces_append _ (pieces_ne_nil more),
      pieces_append_feed front [], linesOfPieces_append _ (pieces_ne_nil [])]
    simp [pieces, linesOfPieces]

end Text

open Text

namespace Source

/-- Whether a block comment is open behind some lines. -/
def inCommentAfter (inComment : Bool) : List (List Char) → Bool
  | [] => inComment
  | raw :: rest => inCommentAfter ((inComment || opensComment raw) && !closesComment raw) rest

theorem ofLinesFrom_append (inComment : Bool) (raws more : List (List Char)) :
    ofLinesFrom inComment (raws ++ more) =
      ofLinesFrom inComment raws ++ ofLinesFrom (inCommentAfter inComment raws) more := by
  induction raws generalizing inComment with
  | nil => rfl
  | cons raw raws ih =>
      rw [List.cons_append, ofLinesFrom, ofLinesFrom, inCommentAfter]
      split
      · rename_i hin
        simp [ih, hin]
      · rename_i hout
        simp [ih, hout]

/-! ## Headers that wait for a brace -/

/-- Whether the last line with any code is no header that leaves its brace to a line below. -/
def IsSettled (lines : List SourceLine) : Prop :=
  ∀ line ∈ lines.reverse.find? (fun line => !allBlank line.code),
    ∀ header ∈ Statement.header? line.code, header.body.isSome = true

instance (lines : List SourceLine) : Decidable (IsSettled lines) :=
  inferInstanceAs (Decidable (∀ line ∈ lines.reverse.find? _, ∀ header ∈ _, _ = true))

theorem header?_of_allBlank {code : List Char} (h : allBlank code = true) :
    Statement.header? code = none := by
  have htrim : trimStart code = [] := by
    simpa [trimStart, allBlank, List.dropWhile_eq_nil_iff] using h
  simp [Statement.header?, htrim, Statement.afterKeyword?, Statement.keyword?, Name.take?,
    Name.takeBy?]

theorem IsSettled.tail {line : SourceLine} {rest : List SourceLine} (h : IsSettled (line :: rest)) :
    IsSettled rest := by
  intro last hlast
  refine h last ?_
  rw [List.reverse_cons, List.find?_append, hlast]
  rfl

/-- Whether the first of some settled lines is a declaration does not depend on what follows them. -/
theorem IsSettled.declaration?_append {line : SourceLine} {rest : List SourceLine}
    (h : IsSettled (line :: rest)) (more : List SourceLine) :
    declaration? (line :: (rest ++ more)) = declaration? (line :: rest) := by
  unfold declaration?
  dsimp only
  cases hheader : Statement.header? line.code with
  | none => rfl
  | some header =>
      dsimp only
      cases hbody : header.body with
      | some body => simp
      | none =>
          -- The line itself has code, so that it is settled only if there is code behind it.
          have hcode : allBlank line.code = false := by
            refine Bool.eq_false_iff.2 ?_
            intro hblank
            rw [header?_of_allBlank hblank] at hheader
            cases hheader
          have hopens : opensBlock (rest ++ more) = opensBlock rest := by
            unfold opensBlock
            cases hnext : rest.find? (fun line => !allBlank line.code) with
            | some next => simp [List.find?_append, hnext]
            | none =>
                have hlast : (line :: rest).reverse.find? (fun line => !allBlank line.code) =
                    some line := by
                  have hrest : rest.reverse.find? (fun line => !allBlank line.code) = none := by
                    simpa using hnext
                  simp [List.find?_append, hrest, hcode]
                have hwaits := h line hlast header hheader
                simp [hbody] at hwaits
          rw [hopens]

/-! ## Comments on what follows -/

/-- Whether the nearest of some lines above is no comment line. -/
def EndsComment (before : List SourceLine) : Prop :=
  ∀ line ∈ before.head?, (trim line.raw).head? ≠ some ';'

instance (before : List SourceLine) : Decidable (EndsComment before) :=
  inferInstanceAs (Decidable (∀ line ∈ before.head?, _ ≠ some ';'))

theorem EndsComment.commentOf?_append {before : List SourceLine} (h : EndsComment before)
    (above : List SourceLine) : commentOf? (above ++ before) = commentOf? above := by
  have hblock : (above ++ before).takeWhile (fun line => (trim line.raw).head? == some ';') =
      above.takeWhile (fun line => (trim line.raw).head? == some ';') := by
    induction above with
    | nil =>
        cases before with
        | nil => rfl
        | cons line before =>
            have hline : (trim line.raw).head? ≠ some ';' := h line rfl
            simp [hline]
    | cons line above ih => simp only [List.cons_append, List.takeWhile_cons, ih]
  unfold commentOf?
  rw [hblock]

end Source

namespace Outline

theorem addLine_congr (uri : Uri) (above : List SourceLine) (o : Outline) {line : SourceLine}
    {rest rest' : List SourceLine}
    (h : Source.declaration? (line :: rest) = Source.declaration? (line :: rest')) :
    o.addLine uri above line rest = o.addLine uri above line rest' := by
  simp only [addLine, h]

/-- Settled lines are read as if nothing followed them. -/
theorem addLines_append (uri : Uri) (above : List SourceLine) (o : Outline)
    {lines : List SourceLine} (h : Source.IsSettled lines) (more : List SourceLine) :
    addLines uri above o (lines ++ more) =
      addLines uri (lines.reverse ++ above) (addLines uri above o lines) more := by
  induction lines generalizing above o with
  | nil => rfl
  | cons line rest ih =>
      rw [List.cons_append, addLines, addLines, ih _ _ h.tail,
        addLine_congr uri above o (h.declaration?_append more)]
      simp

end Outline

/-! ## Moving symbols down -/

/-- The variable some lines further down. -/
def Variable.shift (n : Nat) (v : Variable) : Variable :=
  { v with line := v.line + n }

/-- The method some lines further down, with its variables. -/
def Method.shift (n : Nat) (m : Method) : Method :=
  { m with
    line := m.line + n
    endLine := m.endLine + n
    locals := m.locals.map (Variable.shift n) }

/-- The open method some lines further down. -/
def OpenMethod.shift (n : Nat) (m : OpenMethod) : OpenMethod :=
  { m with method := m.method.shift n }

theorem declares_shift (n : Nat) (vs : List Variable) (name : String) :
    declares (vs.map (Variable.shift n)) name = declares vs name := by
  simp [declares, List.any_map, Function.comp_def, Variable.shift]

theorem declares_congr (vs : List Variable) {a b : String} (h : sameName a b = true) :
    declares vs a = declares vs b := by
  have hfold : foldCase a.toList = foldCase b.toList := by
    simpa [sameName, sameFolded] using h
  simp [declares, sameName, sameFolded, hfold]

theorem Method.addVariable_shift (n : Nat) (m : Method) (name : String) (line : Nat) :
    (m.shift n).addVariable name (line + n) = (m.addVariable name line).shift n := by
  unfold Method.addVariable
  simp only [Method.shift, declares_shift]
  split
  · rfl
  · simp [Variable.shift]

theorem OpenMethod.close_shift (n : Nat) (m : OpenMethod) (line : Nat) :
    (m.shift n).close (line + n) = (m.close line).shift n := by
  simp [OpenMethod.close, OpenMethod.shift, Method.shift, Nat.add_max_add_right]

namespace Outline

/-- An outline behind another one, some lines further down. Of its variables, only those count that the
other one does not declare. -/
def behind (base : Outline) (n : Nat) (o : Outline) : Outline :=
  { methods := base.methods ++ o.methods.map (Method.shift n)
    current := o.current.map (OpenMethod.shift n)
    globals := base.globals ++
      (o.globals.filter fun v => !declares base.globals v.name).map (Variable.shift n)
    depth := o.depth }

variable {base : Outline} {n : Nat}

theorem behind_empty (h : base.current = none) (hdepth : base.depth = 0) :
    base.behind n {} = base := by
  rcases base with ⟨methods, current, globals, depth⟩
  cases h
  cases hdepth
  simp [behind]

theorem closeAt_behind (o : Outline) (line : Nat) :
    (base.behind n o).closeAt (line + n) = base.behind n (o.closeAt line) := by
  cases hcur : o.current with
  | none => simp [closeAt, behind, hcur]
  | some cur => simp [closeAt, behind, hcur, OpenMethod.close_shift]

/-- A name is declared in one outline behind another if either declares it. -/
theorem declares_behind (o : Outline) (name : String) :
    declares (base.behind n o).globals name =
      (declares base.globals name || declares o.globals name) := by
  have happend : declares (base.behind n o).globals name =
      (declares base.globals name ||
        declares (o.globals.filter fun v => !declares base.globals v.name) name) := by
    have hshift := declares_shift n (o.globals.filter fun v => !declares base.globals v.name) name
    rw [← hshift]
    exact List.any_append
  rw [happend]
  cases hbase : declares base.globals name with
  | true => rfl
  | false =>
      -- What is left out has a name that the first outline declares, so it is not this one.
      have hkept : ∀ v : Variable, (!declares base.globals v.name && sameName v.name name) =
          sameName v.name name := by
        intro v
        cases hsame : sameName v.name name with
        | false => simp
        | true => simp [declares_congr base.globals hsame, hbase]
      rw [Bool.false_or, Bool.false_or, declares, declares, List.any_filter]
      exact List.any_congr rfl hkept

theorem addName_behind (o : Outline) (line : Nat) (name : List Char) :
    (base.behind n o).addName (line + n) name = base.behind n (o.addName line name) := by
  unfold addName
  split
  · rfl
  · cases hcur : o.current with
    | some cur => simp [behind, hcur, OpenMethod.shift, Method.addVariable_shift]
    | none =>
        have hnone : (base.behind n o).current = none := by
          simp [behind, hcur]
        simp only [hnone, declares_behind]
        cases hbase : declares base.globals (String.ofList name) with
        | true =>
            cases hown : declares o.globals (String.ofList name) with
            | true => simp
            | false =>
                -- Only on its own does the second outline get this variable.
                simp [behind, hbase, hcur]
        | false =>
            cases hown : declares o.globals (String.ofList name) with
            | true => simp
            | false => simp [behind, hbase, hcur, Variable.shift]

theorem addChar_behind (o : Outline) (line : Nat) (c : Char) :
    (base.behind n o).addChar (line + n) c = base.behind n (o.addChar line c) := by
  cases hcur : o.current with
  | none =>
      have hnone : (base.behind n o).current = none := by
        simp [behind, hcur]
      rw [addChar_of_none _ c hcur, addChar_of_none _ c hnone]
      rfl
  | some cur =>
      have hsome : (base.behind n o).current = some (cur.shift n) := by
        simp [behind, hcur]
      rw [addChar_of_some _ c hcur, addChar_of_some _ c hsome]
      by_cases hcloses : c = '}' ∧ cur.entered = true ∧ braceDepth o.depth c ≤ cur.startDepth
      · have hcloses' : c = '}' ∧ (cur.shift n).entered = true ∧
            braceDepth (base.behind n o).depth c ≤ (cur.shift n).startDepth := hcloses
        rw [if_pos hcloses, if_pos hcloses']
        simp [behind, OpenMethod.close_shift]
      · have hcloses' : ¬ (c = '}' ∧ (cur.shift n).entered = true ∧
            braceDepth (base.behind n o).depth c ≤ (cur.shift n).startDepth) := hcloses
        rw [if_neg hcloses, if_neg hcloses']
        rfl

/-- The last line, if there is one, is as many lines further down. -/
theorem closeAt_last_behind {o : Outline} {length : Nat} (h : o.current = none ∨ 0 < length) :
    (base.behind n o).closeAt (length + n - 1) = base.behind n (o.closeAt (length - 1)) := by
  rcases h with hnone | hpos
  · simp [closeAt, behind, hnone]
  · -- With no line, the left side would be cut off at `n - 1` and the right side at `n`.
    have hlast : length + n - 1 = length - 1 + n := by omega
    rw [hlast, closeAt_behind]

/-! ## Lines further down -/

section Lines

variable {before : List SourceLine} {o : Outline}

theorem methodOf_append (uri : Uri) (above : List SourceLine) (line : Nat)
    (d : Source.Declaration) (h : Source.EndsComment before) :
    methodOf uri (above ++ before) (line + n) d = (methodOf uri above line d).shift n := by
  simp [methodOf, Method.shift, h.commentOf?_append]

theorem startLine_behind (uri : Uri) {above : List SourceLine} (lines : List SourceLine)
    (h : Source.EndsComment before) (hopen : o.current = none ∨ 0 < above.length) :
    (base.behind before.length o).startLine uri (above ++ before) lines =
      base.behind before.length (o.startLine uri above lines) := by
  cases hdecl : Source.declaration? lines with
  | none => rw [startLine_of_none hdecl, startLine_of_none hdecl]
  | some d =>
      rw [startLine_of_some hdecl, startLine_of_some hdecl, List.length_append,
        closeAt_last_behind hopen, methodOf_append uri above above.length d h]
      rfl

theorem addLine_behind (uri : Uri) {above : List SourceLine} (line : SourceLine)
    (rest : List SourceLine) (h : Source.EndsComment before)
    (hopen : o.current = none ∨ 0 < above.length) :
    (base.behind before.length o).addLine uri (above ++ before) line rest =
      base.behind before.length (o.addLine uri above line rest) := by
  rw [addLine_eq, addLine_eq, startLine_behind uri _ h hopen, List.length_append]
  rw [List.foldl_hom (base.behind before.length) (fun o name => addName_behind o above.length name)]
  exact List.foldl_hom (base.behind before.length) fun o c => addChar_behind o above.length c

theorem addLines_behind (uri : Uri) {above : List SourceLine} (rest : List SourceLine)
    (h : Source.EndsComment before) (hopen : o.current = none ∨ 0 < above.length) :
    addLines uri (above ++ before) (base.behind before.length o) rest =
      base.behind before.length (addLines uri above o rest) := by
  induction rest generalizing above o with
  | nil => rfl
  | cons line rest ih =>
      -- From the second line on, whatever is open has a line above.
      rw [addLines, addLines, addLine_behind uri line rest h hopen, ← List.cons_append]
      exact ih (Or.inr (Nat.succ_pos above.length))

end Lines
end Outline

/-! ## Whole texts -/

namespace Script

open Outline

/-- Whether a text leaves nothing open for another text behind it. -/
structure LeavesNothingOpen (uri : Uri) (text : List Char) : Prop where
  /-- The last line is ended. -/
  line : text = [] ∨ text.getLast? = some '\n'
  /-- No block comment is open. -/
  comment : Source.inCommentAfter false (lines text) = false
  /-- No block is open. -/
  depth : (addLines uri [] {} (Source.ofText text)).depth = 0
  /-- No method is open. -/
  method : (addLines uri [] {} (Source.ofText text)).current = none
  /-- No header waits for its brace. -/
  header : Source.IsSettled (Source.ofText text)
  /-- The last line is no comment on what follows. -/
  doc : Source.EndsComment (Source.ofText text).reverse

namespace LeavesNothingOpen

variable {uri : Uri} {text : List Char}

theorem ofText_append (h : LeavesNothingOpen uri text) (more : List Char) :
    Source.ofText (text ++ more) = Source.ofText text ++ Source.ofText more := by
  unfold Source.ofText Source.ofLines
  rw [lines_append h.line, Source.ofLinesFrom_append, h.comment]

/-- More lines are read as on their own, behind the outline of the text. -/
theorem addLines_append (h : LeavesNothingOpen uri text) (more : List SourceLine) :
    addLines uri [] {} (Source.ofText text ++ more) =
      (addLines uri [] {} (Source.ofText text)).behind (Source.ofText text).length
        (addLines uri [] {} more) := by
  let source := Source.ofText text
  let base := addLines uri [] {} source
  have hstart : base.behind source.reverse.length {} = base := behind_empty h.method h.depth
  calc
    addLines uri [] {} (source ++ more)
        = addLines uri (source.reverse ++ []) base more :=
          Outline.addLines_append uri [] {} h.header more
    _ = addLines uri ([] ++ source.reverse) (base.behind source.reverse.length {}) more := by
          rw [hstart, List.append_nil, List.nil_append]
    _ = base.behind source.reverse.length (addLines uri [] {} more) :=
          addLines_behind uri more h.doc (Or.inl rfl)
    _ = base.behind source.length (addLines uri [] {} more) := by
          rw [List.length_reverse]

end LeavesNothingOpen

/-- The outline of two texts, one behind the other, where the first one leaves nothing open. The methods
are those of both. The variables are those of the first text, and those of the second one that the first
does not declare, up to case. All that is in the second text is as many lines further down as the first
text has. -/
theorem outline_of_appended_texts (uri : Uri) (a b : String)
    (h : LeavesNothingOpen uri a.toList) :
    let first := Script.ofText uri a
    let second := Script.ofText uri b
    let n := (lines a.toList).length
    Script.ofText uri (a ++ b) =
      { uri
        methods := first.methods ++ second.methods.map (Method.shift n)
        globals := first.globals ++
          (second.globals.filter fun v => !declares first.globals v.name).map (Variable.shift n) } := by
  intro first second n
  let base := addLines uri [] {} (Source.ofText a.toList)
  let own := addLines uri [] {} (Source.ofText b.toList)
  have hn : (Source.ofText a.toList).length = n := Source.length_ofLines (lines a.toList)
  have hfirst : first = { uri, methods := base.methods, globals := base.globals } := by
    have hclosed : base.closeAt ((Source.ofText a.toList).length - 1) = base :=
      closeAt_of_none _ (by simp [openMethod?, base, h.method])
    simp only [first, Script.ofText, ofSource]
    rw [hclosed]
  -- A method can only be open if the second text has a line, with which it ends.
  have hopen : own.current = none ∨ 0 < (Source.ofText b.toList).length := by
    cases hsource : Source.ofText b.toList with
    | nil => exact Or.inl (by simp [own, hsource, addLines])
    | cons line rest => exact Or.inr (Nat.succ_pos rest.length)
  have hclose : (base.behind n own).closeAt (n + (Source.ofText b.toList).length - 1) =
      base.behind n (own.closeAt ((Source.ofText b.toList).length - 1)) := by
    rw [Nat.add_comm]
    exact closeAt_last_behind hopen
  unfold Script.ofText ofSource
  rw [String.toList_append, h.ofText_append, h.addLines_append, List.length_append, hn, hclose,
    hfirst]
  rfl

/-- The second text declares a name of the first one again, in another case. Its comment and its variables
are those that it has on its own. -/
theorem outline_of_appended_texts_with_name_again :
    let uri : Uri := ⟨"file:///a.ahk"⟩
    let a := "/*\nf(x) \x7b\n*/\nf(x)\n\x7b\n  y := x\n\x7d\nTotal := 1\n"
    let b := "; doc\ng() \x7b\n  z := 1\n\x7d\ntotal := 2\nother := 3\nh() \x7b"
    LeavesNothingOpen uri a.toList ∧
      Script.ofText uri (a ++ b) =
        { uri
          methods := (Script.ofText uri a).methods ++ (Script.ofText uri b).methods.map (Method.shift 8)
          globals := [⟨"Total", 7, none⟩, ⟨"other", 13, none⟩] } := by
  intro uri a b
  have h : LeavesNothingOpen uri a.toList :=
    { line := by decide +kernel
      comment := by decide +kernel
      depth := by decide +kernel
      method := by decide +kernel
      header := by decide +kernel
      doc := by decide +kernel }
  have hlines : (lines a.toList).length = 8 := by decide +kernel
  have hglobals : (Script.ofText uri a).globals ++
      ((Script.ofText uri b).globals.filter
        fun v => !declares (Script.ofText uri a).globals v.name).map (Variable.shift 8) =
      [⟨"Total", 7, none⟩, ⟨"other", 13, none⟩] := by
    decide +kernel
  have hscript := outline_of_appended_texts uri a b h
  dsimp only at hscript
  rw [hlines, hglobals] at hscript
  exact ⟨h, hscript⟩

end Script
end ScriptSymbols
