import ScriptSymbols.Proofs.Outline.Append

/-!
# Symbols above an edit

What is written below a line leaves the symbols above it alone. The text below can reach up in three
ways: a header waits for its brace, the next declaration closes a method that is still open, and so does
the end of the text. The first is ruled out where the lines above are settled. The other two close the
method on the last line above or further down.

* `Outline.declaredFrom_append`: settled lines declare the same methods, whatever follows them.
* `Outline.Grows` relates an outline to what becomes of it further down.
* `Script.symbols_above_edits_agree` compares two texts with a common beginning.
-/

namespace ScriptSymbols

open Text

namespace Source

/-- A text that ends with a line keeps its lines, whatever follows. What follows may start inside a block
comment. -/
theorem ofText_append {text : List Char} (h : text.getLast? = some '\n') (more : List Char) :
    ofText (text ++ more) =
      ofText text ++ ofLinesFrom (inCommentAfter false (lines text)) (lines more) := by
  unfold ofText ofLines
  rw [lines_append (Or.inr h), ofLinesFrom_append]

/-- Lines are settled if the last one has code that is no header without a brace. -/
theorem isSettled_of_getLast? {lines : List SourceLine} {last : SourceLine}
    (hlast : lines.getLast? = some last) (hcode : allBlank last.code = false)
    (hbrace : ∀ header, Statement.header? last.code = some header → header.body.isSome = true) :
    IsSettled lines := by
  have hfind : lines.reverse.find? (fun line => !allBlank line.code) = some last := by
    rcases List.getLast?_eq_some_iff.1 hlast with ⟨front, rfl⟩
    simp [hcode]
  intro line hline header hheader
  rw [hfind] at hline
  cases hline
  exact hbrace header hheader

end Source

namespace Outline

/-! ## Declarations -/

theorem declaredFrom_append (uri : Uri) (above : List SourceLine) {lines : List SourceLine}
    (h : Source.IsSettled lines) (more : List SourceLine) :
    declaredFrom uri above (lines ++ more) =
      declaredFrom uri above lines ++ declaredFrom uri (lines.reverse ++ above) more := by
  induction lines generalizing above with
  | nil => rfl
  | cons line rest ih =>
      rw [List.cons_append, declaredFrom, declaredFrom, h.declaration?_append more,
        ih (line :: above) h.tail]
      simp

theorem le_line_of_mem_declaredFrom {uri : Uri} {above rest : List SourceLine} {m : Method}
    (h : m ∈ declaredFrom uri above rest) : above.length ≤ m.line := by
  induction rest generalizing above with
  | nil => cases h
  | cons line rest ih =>
      rcases List.mem_append.1 h with hhere | hbelow
      · rcases Option.map_eq_some_iff.1 (Option.mem_toList.1 hhere) with ⟨d, _hd, rfl⟩
        exact Nat.le_refl _
      · exact Nat.le_of_succ_le (ih hbelow)

/-! ## Growing outlines -/

/-- What has become of an outline by lines from `n` on. Methods and variables are only added. A method
that is added may have been open before, so that it ends at the earliest on the line before `n`. -/
structure Grows (n : Nat) (o o' : Outline) : Prop where
  methods : ∃ new, o'.methods = o.methods ++ new ∧ ∀ m ∈ new, n ≤ m.endLine + 1
  globals : ∃ new, o'.globals = o.globals ++ new ∧ ∀ v ∈ new, n ≤ v.line

namespace Grows

variable {n : Nat} {o o' o'' : Outline}

theorem of_eq (hmethods : o'.methods = o.methods) (hglobals : o'.globals = o.globals) :
    Grows n o o' :=
  ⟨⟨[], by simp [hmethods], by simp⟩, ⟨[], by simp [hglobals], by simp⟩⟩

theorem trans (h : Grows n o o') (h' : Grows n o' o'') : Grows n o o'' := by
  rcases h with ⟨⟨ms, hms, hends⟩, ⟨vs, hvs, hlines⟩⟩
  rcases h' with ⟨⟨ms', hms', hends'⟩, ⟨vs', hvs', hlines'⟩⟩
  refine ⟨⟨ms ++ ms', by simp [hms, hms'], ?_⟩, ⟨vs ++ vs', by simp [hvs, hvs'], ?_⟩⟩
  · intro m hm
    exact (List.mem_append.1 hm).elim (hends m) (hends' m)
  · intro v hv
    exact (List.mem_append.1 hv).elim (hlines v) (hlines' v)

theorem closeAt {line : Nat} (hline : n ≤ line + 1) : Grows n o (o.closeAt line) := by
  refine ⟨?_, ⟨[], by simp, by simp⟩⟩
  cases hopen : o.openMethod? with
  | none => exact ⟨[], by simp [closeAt_of_none line hopen], by simp⟩
  | some m =>
      refine ⟨_, closeAt_methods_of_some line hopen, ?_⟩
      intro closed hclosed
      cases List.mem_singleton.1 hclosed
      exact Nat.le_trans hline (Nat.succ_le_succ (Nat.le_max_left line m.line))

theorem addName {line : Nat} (hline : n ≤ line) (name : List Char) :
    Grows n o (o.addName line name) := by
  cases hres : Name.isReserved name with
  | true =>
      rw [addName_of_isReserved hres]
      exact of_eq rfl rfl
  | false =>
      refine ⟨⟨[], by simp, by simp⟩, ?_⟩
      rw [addName_globals hres]
      split
      · exact ⟨[], by simp, by simp⟩
      · refine ⟨_, rfl, ?_⟩
        intro v hv
        cases List.mem_singleton.1 hv
        exact hline

theorem addChar {line : Nat} (hline : n ≤ line) (c : Char) : Grows n o (o.addChar line c) := by
  rcases addChar_cases line o c with hsame | hclosed
  · exact of_eq hsame.methods hsame.globals
  · have hclose : Grows n o (o.closeAt line) := closeAt (Nat.le_succ_of_le hline)
    exact hclose.trans (of_eq hclosed.methods hclosed.globals)

/-- The one step that reaches up: a declaration closes the open method on the line above it. -/
theorem startLine (uri : Uri) {above : List SourceLine} (hline : n ≤ above.length)
    (lines : List SourceLine) : Grows n o (o.startLine uri above lines) := by
  cases hdecl : Source.declaration? lines with
  | none =>
      rw [startLine_of_none hdecl]
      exact of_eq rfl rfl
  | some d =>
      rw [startLine_of_some hdecl]
      have hclose : Grows n o (o.closeAt (above.length - 1)) := closeAt (by omega)
      exact hclose.trans (of_eq rfl rfl)

theorem addLine (uri : Uri) {above : List SourceLine} (hline : n ≤ above.length)
    (line : SourceLine) (rest : List SourceLine) : Grows n o (o.addLine uri above line rest) := by
  rw [addLine_eq]
  have hstart : Grows n o (o.startLine uri above (line :: rest)) := startLine uri hline _
  have hnames : Grows n o ((Source.namesIn (line :: rest)).foldl (Outline.addName above.length)
      (o.startLine uri above (line :: rest))) := by
    refine List.foldlRecOn _ _ hstart ?_
    intro a ha name _hname
    exact ha.trans (addName hline name)
  refine List.foldlRecOn _ _ hnames ?_
  intro a ha c _hc
  exact ha.trans (addChar hline c)

theorem addLines (uri : Uri) {above : List SourceLine} (hline : n ≤ above.length)
    (rest : List SourceLine) : Grows n o (addLines uri above o rest) := by
  induction rest generalizing above o with
  | nil => exact of_eq rfl rfl
  | cons line rest ih =>
      have hfirst : Grows n o (o.addLine uri above line rest) := addLine uri hline line rest
      rw [Outline.addLines]
      exact hfirst.trans (ih (Nat.le_succ_of_le hline))

theorem filter_methods (h : Grows n o o') :
    o'.methods.filter (fun m => m.endLine < n - 1) = o.methods.filter fun m => m.endLine < n - 1 := by
  rcases h.methods with ⟨new, hnew, hends⟩
  -- A method that is new here ends on line `n - 1` or later.
  have hnone : (new.filter fun m => decide (m.endLine < n - 1)) = [] := by
    refine List.filter_eq_nil_iff.2 fun m hm => ?_
    have hend := hends m hm
    simp only [decide_eq_true_eq]
    omega
  rw [hnew, List.filter_append, hnone, List.append_nil]

theorem filter_globals (h : Grows n o o') :
    o'.globals.filter (fun v => v.line < n) = o.globals.filter fun v => v.line < n := by
  rcases h.globals with ⟨new, hnew, hlines⟩
  have hnone : (new.filter fun v => decide (v.line < n)) = [] := by
    refine List.filter_eq_nil_iff.2 fun v hv => ?_
    simpa using hlines v hv
  rw [hnew, List.filter_append, hnone, List.append_nil]

end Grows
end Outline

/-! ## Whole texts -/

namespace Script

open Outline

section Append

variable {source : List SourceLine} (h : Source.IsSettled source) (uri : Uri)
  (more : List SourceLine)

include h

/-- The declarations in settled lines are those that the lines have on their own. -/
theorem filter_heads_append :
    ((Script.ofSource uri (source ++ more)).methods.map Method.head).filter
        (fun m => m.line < source.length) =
      (declaredFrom uri [] source).filter fun m => m.line < source.length := by
  have hnone : ((declaredFrom uri (source.reverse ++ []) more).filter
      fun m => decide (m.line < source.length)) = [] := by
    refine List.filter_eq_nil_iff.2 fun m hm => ?_
    simpa using le_line_of_mem_declaredFrom hm
  rw [methods_heads, declaredFrom_append uri [] h, List.filter_append, hnone, List.append_nil]

theorem grows_append :
    (addLines uri [] {} source).Grows source.length
      ((addLines uri [] {} (source ++ more)).closeAt ((source ++ more).length - 1)) := by
  rw [addLines_append uri [] {} h]
  have hlines : (addLines uri [] {} source).Grows source.length
      (addLines uri (source.reverse ++ []) (addLines uri [] {} source) more) :=
    Grows.addLines uri (by simp) more
  refine hlines.trans (Grows.closeAt ?_)
  rw [List.length_append]
  omega

end Append

/-- Edits below a line leave the symbols above it alone. Two texts start with the same lines, of which the
last has code that is no header without a brace. Then they have the same declarations in these lines, the
same methods among those that end before the last of them, and the same variables of the file. -/
theorem symbols_above_edits_agree (uri : Uri) (a b c : String) {last : SourceLine}
    (hended : a.toList.getLast? = some '\n')
    (hlast : (Source.ofText a.toList).getLast? = some last)
    (hcode : allBlank last.code = false)
    (hbrace : ∀ header, Statement.header? last.code = some header → header.body.isSome = true) :
    let n := (lines a.toList).length
    let first := Script.ofText uri (a ++ b)
    let second := Script.ofText uri (a ++ c)
    (first.methods.map Method.head).filter (fun m => m.line < n) =
        (second.methods.map Method.head).filter (fun m => m.line < n) ∧
      first.methods.filter (fun m => m.endLine < n - 1) =
        second.methods.filter (fun m => m.endLine < n - 1) ∧
      first.globals.filter (fun v => v.line < n) =
        second.globals.filter (fun v => v.line < n) := by
  intro n first second
  have hsettled := Source.isSettled_of_getLast? hlast hcode hbrace
  have hn : (Source.ofText a.toList).length = n := Source.length_ofLines (lines a.toList)
  have hfirst : first = Script.ofSource uri (Source.ofText (a.toList ++ b.toList)) := by
    rw [← String.toList_append]
    rfl
  have hsecond : second = Script.ofSource uri (Source.ofText (a.toList ++ c.toList)) := by
    rw [← String.toList_append]
    rfl
  -- Both sources are the same settled lines, with other lines behind them.
  rw [hfirst, hsecond, Source.ofText_append hended, Source.ofText_append hended, ← hn]
  refine ⟨?_, ?_, ?_⟩
  · rw [filter_heads_append hsettled, filter_heads_append hsettled]
  · exact (grows_append hsettled uri _).filter_methods.trans
      (grows_append hsettled uri _).filter_methods.symm
  · exact (grows_append hsettled uri _).filter_globals.trans
      (grows_append hsettled uri _).filter_globals.symm

/-- The two edits close the second method on different lines, and one of them ends inside a block comment.
The first method and the variable above them are the same. -/
theorem symbols_above_edits_agree_in_unclosed :
    let uri : Uri := ⟨"file:///a.ahk"⟩
    let a := "Total := 1\n; doc\nf(x)\n\x7b\n  y := x\n\x7d\ng() \x7b\n  z := 1\n"
    let first := Script.ofText uri (a ++ "  w := 2\n\x7d\ntotal := 3\n")
    let second := Script.ofText uri (a ++ "h() \x7b\n\x7d\n/*\nother := 4\n")
    (first.methods.map fun m => (m.line, m.endLine)) = [(2, 5), (6, 9)] ∧
      (second.methods.map fun m => (m.line, m.endLine)) = [(2, 5), (6, 7), (8, 9)] ∧
      (first.methods.map Method.head).filter (fun m => m.line < 8) =
        (second.methods.map Method.head).filter (fun m => m.line < 8) ∧
      first.methods.filter (fun m => m.endLine < 7) =
        second.methods.filter (fun m => m.endLine < 7) ∧
      first.globals.filter (fun v => v.line < 8) =
        second.globals.filter (fun v => v.line < 8) := by
  intro uri a first second
  have hended : a.toList.getLast? = some '\n' := by decide +kernel
  have hcode : (Source.ofText a.toList).getLast?.map SourceLine.code = some "  z := 1".toList := by
    decide +kernel
  rcases Option.map_eq_some_iff.1 hcode with ⟨last, hlast, hlastCode⟩
  have hlines : (lines a.toList).length = 8 := by decide +kernel
  have hagree := symbols_above_edits_agree uri a "  w := 2\n\x7d\ntotal := 3\n"
    "h() \x7b\n\x7d\n/*\nother := 4\n" hended hlast
    (by rw [hlastCode]; decide +kernel) (by rw [hlastCode]; decide +kernel)
  rw [hlines] at hagree
  exact ⟨by decide +kernel, by decide +kernel, hagree⟩

end Script
end ScriptSymbols
