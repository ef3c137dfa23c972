import ScriptSymbols.Proofs.Buffer.Splice
import ScriptSymbols.Proofs.Outline.Names

/-!
# Lines of a buffer and of its script

An editor numbers the lines of a buffer, a script those of its text. The two cut a text by different rules: a
buffer has more breaks, keeps them on its lines and always has a last line without one. In a text with no other
breaks than line feeds, with or without a carriage return before them, the numbers mean the same lines.

1. `Text.HasPlainBreaks` describes such texts, and `Text.HasPlainBreaks.plainText` builds them from their start.
2. Both ways to cut a text take one more character or break in front of it alike, so that
   `Buffer.map_dropEnd_splitLines` follows: a buffer has the lines of the script, and an empty one behind a feed
   at the end.
3. `Script.lines_addressed_in_buffer` is the result for the line numbers of a script.
-/

namespace ScriptSymbols

open Text

namespace Text

/-! ## Texts with plain breaks -/

/-- Whether all breaks of a text are line feeds, with or without a carriage return before them. -/
structure HasPlainBreaks (text : List Char) : Prop where
  noOthers : ∀ c ∈ ['\x0b', '\x0c', '\u0085', '\u2028', '\u2029'], c ∉ text
  fed : ∀ i < text.length, text[i]? = some '\r' → text[i + 1]? = some '\n'

/-- How such a text is built from its end: by characters, line feeds, and carriage returns with a line feed. -/
inductive PlainText : List Char → Prop
  | nil : PlainText []
  | feed {text : List Char} (rest : PlainText text) : PlainText ('\n' :: text)
  | returnFeed {text : List Char} (rest : PlainText text) : PlainText ('\r' :: '\n' :: text)
  | other {c : Char} {text : List Char} (notBreak : Buffer.isBreak c = false) (rest : PlainText text) :
      PlainText (c :: text)

theorem HasPlainBreaks.of_cons {c : Char} {text : List Char} (h : HasPlainBreaks (c :: text)) :
    HasPlainBreaks text where
  noOthers d hd hmem := h.noOthers d hd (List.mem_cons_of_mem c hmem)
  fed i hi hreturn := h.fed (i + 1) (Nat.succ_lt_succ hi) hreturn

theorem HasPlainBreaks.plainText {text : List Char} (h : HasPlainBreaks text) : PlainText text := by
  match text with
  | [] => exact .nil
  | c :: rest =>
      have hrest : HasPlainBreaks rest := h.of_cons
      by_cases hfeed : c = '\n'
      · subst hfeed
        exact .feed hrest.plainText
      · by_cases hreturn : c = '\r'
        · -- The feed that must follow belongs to the same break.
          subst hreturn
          have hnext : rest.head? = some '\n' := by
            rw [List.head?_eq_getElem?]
            exact h.fed 0 (by simp) rfl
          obtain ⟨below, rfl⟩ := List.head?_eq_some_iff.1 hnext
          exact .returnFeed hrest.of_cons.plainText
        · have hbreak : Buffer.isBreak c = false := by
            have hothers := fun d hd (heq : c = d) => h.noOthers d hd (heq ▸ List.mem_cons_self)
            simpa [Buffer.isBreak, hfeed, hreturn, and_assoc] using hothers
          exact .other hbreak hrest.plainText
termination_by text.length

/-- A character that is no break is no feed and no return either. -/
theorem ne_of_isBreak_eq_false {c : Char} (h : Buffer.isBreak c = false) : c ≠ '\n' ∧ c ≠ '\r' := by
  constructor
  · rintro rfl
    exact absurd h (by decide)
  · rintro rfl
    exact absurd h (by decide)

/-! ## Lines of a script -/

theorem lines_feed (text : List Char) : lines ('\n' :: text) = [] :: lines text := by
  have hlast : ['\n'].getLast? = some '\n' := rfl
  exact lines_append (Or.inr hlast) text

theorem lines_returnFeed (text : List Char) : lines ('\r' :: '\n' :: text) = [] :: lines text := by
  have hlast : ['\r', '\n'].getLast? = some '\n' := rfl
  exact lines_append (Or.inr hlast) text

theorem dropReturn_cons {c : Char} (hc : c ≠ '\r') (line : List Char) :
    dropReturn (c :: line) = c :: dropReturn line := by
  cases line with
  | nil => simp [dropReturn, hc]
  | cons d line =>
      rw [dropReturn, dropReturn, List.getLast?_cons_cons]
      split <;> rfl

/-- A character in front of a text belongs to its first line. -/
theorem lines_other {c : Char} (hfeed : c ≠ '\n') (hreturn : c ≠ '\r') (text : List Char) :
    lines (c :: text) = consHead c (lines text) := by
  have hcons : pieces (c :: text) = consPiece c (pieces text) := rfl
  rw [lines, lines, hcons]
  match pieces text with
  | [] => rfl
  | [piece] =>
      rw [consPiece, if_neg hfeed, linesOfPieces, linesOfPieces]
      cases piece <;> rfl
  | piece :: next :: rest =>
      have hstep : ∀ first : List Char, linesOfPieces (first :: next :: rest) =
          dropReturn first :: linesOfPieces (next :: rest) :=
        fun first => linesOfPieces_append [first] (by simp)
      rw [consPiece, if_neg hfeed, hstep, hstep, dropReturn_cons hreturn]
      rfl

theorem PlainText.lines_ne_nil {text : List Char} (h : PlainText text) (hne : text ≠ []) :
    lines text ≠ [] := by
  cases h with
  | nil => exact absurd rfl hne
  | feed => rw [lines_feed]; simp
  | returnFeed => rw [lines_returnFeed]; simp
  | @other c text hc =>
      obtain ⟨hfeed, hreturn⟩ := ne_of_isBreak_eq_false hc
      rw [lines_other hfeed hreturn]
      cases lines text <;> simp [consHead]

end Text

namespace Buffer

/-! ## Lines of a buffer -/

theorem splitLines_feed (text : List Char) : splitLines ('\n' :: text) = ['\n'] :: splitLines text := by
  obtain ⟨line, lines, hlines, hcons⟩ := splitLines_cons '\n' text
  rw [hcons, hlines, if_pos (by simp [breaksBetween, isBreak])]

theorem splitLines_returnFeed (text : List Char) :
    splitLines ('\r' :: '\n' :: text) = ['\r', '\n'] :: splitLines text := by
  obtain ⟨line, lines, hlines, hcons⟩ := splitLines_cons '\r' ('\n' :: text)
  rw [splitLines_feed] at hlines
  cases hlines
  rw [hcons, if_neg (by simp [breaksBetween])]

theorem splitLines_other {c : Char} (hc : isBreak c = false) (text : List Char) :
    splitLines (c :: text) = consHead c (splitLines text) := by
  obtain ⟨line, lines, hlines, hcons⟩ := splitLines_cons c text
  rw [hcons, hlines, if_neg (by simp [breaksBetween, hc])]
  rfl

theorem dropEnd_cons {c : Char} (hfeed : c ≠ '\n') (hreturn : c ≠ '\r') (line : List Char) :
    dropEnd (c :: line) = c :: dropEnd line := by
  rw [dropEnd, dropEnd, dropEndWhile, dropEndWhile, List.reverse_cons, List.dropWhile_append]
  split
  · rename_i hnil
    rw [List.isEmpty_iff.1 hnil]
    simp [hfeed, hreturn]
  · simp

/-- The empty line behind a feed at the end of a text, which is no line of a script. -/
def lastLine (text : List Char) : List (List Char) :=
  if text.getLast?.all (· == '\n') then [[]] else []

theorem lastLine_cons {c : Char} {text : List Char} (h : text ≠ []) :
    lastLine (c :: text) = lastLine text := by
  obtain ⟨d, text, rfl⟩ := List.exists_cons_of_ne_nil h
  simp [lastLine]

theorem lastLine_feed (text : List Char) : lastLine ('\n' :: text) = lastLine text := by
  cases text with
  | nil => rfl
  | cons c text => exact lastLine_cons (by simp)

/-- The lines of a buffer without their ends are the lines of a script, with an empty one behind a feed at the
end. -/
theorem map_dropEnd_splitLines {text : List Char} (h : PlainText text) :
    (splitLines text).map dropEnd = Text.lines text ++ lastLine text := by
  induction h with
  | nil => rfl
  | @feed text _ ih =>
      have hend : dropEnd ['\n'] = [] := rfl
      rw [splitLines_feed, lines_feed, lastLine_feed, List.map_cons, ih, hend, List.cons_append]
  | @returnFeed text _ ih =>
      have hend : dropEnd ['\r', '\n'] = [] := rfl
      rw [splitLines_returnFeed, lines_returnFeed, lastLine_cons (by simp), lastLine_feed, List.map_cons,
        ih, hend, List.cons_append]
  | @other c text hc hrest ih =>
      obtain ⟨hfeed, hreturn⟩ := ne_of_isBreak_eq_false hc
      obtain ⟨line, lines, hlines, -⟩ := splitLines_cons c text
      have hbuffer : (splitLines (c :: text)).map dropEnd = consHead c ((splitLines text).map dropEnd) := by
        rw [splitLines_other hc, hlines]
        simp [consHead, dropEnd_cons hfeed hreturn]
      rw [hbuffer, ih, lines_other hfeed hreturn]
      cases text with
      | nil => simp [lastLine, Text.lines, pieces, linesOfPieces, consHead, hfeed]
      | cons d text =>
          -- The first line is one of the script, so the character does not reach the last one.
          obtain ⟨first, more, hfirst⟩ :=
            List.exists_cons_of_ne_nil (hrest.lines_ne_nil (by simp))
          have hlast : lastLine (c :: d :: text) = lastLine (d :: text) := lastLine_cons (by simp)
          rw [hfirst, hlast]
          rfl

theorem length_splitLines_of_plainText {text : List Char} (h : PlainText text) :
    (splitLines text).length = text.count '\n' + 1 := by
  induction h with
  | nil => rfl
  | @feed text _ ih => simp [splitLines_feed, ih]
  | @returnFeed text _ ih => simp [splitLines_returnFeed, ih]
  | @other c text hc _ ih =>
      obtain ⟨line, lines, hlines, -⟩ := splitLines_cons c text
      rw [hlines] at ih
      simp [splitLines_other hc, hlines, consHead, (ne_of_isBreak_eq_false hc).1, ← ih]

/-- A line of a script is the text of the line of the buffer that has its number. -/
theorem lineText?_of_plainText {text : String} (h : PlainText text.toList) (version : Option Int) {i : Nat}
    {line : List Char} (hline : (Text.lines text.toList)[i]? = some line) :
    (ofText text version).lineText? i = some line := by
  have hlines := congrArg (·[i]?) (map_dropEnd_splitLines h)
  simp only [List.getElem?_map] at hlines
  obtain ⟨hlt, -⟩ := List.getElem?_eq_some_iff.1 hline
  rw [List.getElem?_append_left hlt, hline] at hlines
  exact hlines

end Buffer

namespace Script

/-! ## Line numbers of a script -/

/-- In a text with plain breaks a buffer and a script number the same lines. Every line of the script is the
text of the buffer's line with its number, and the buffer has one line more than there are line feeds. So every
line number of the script leads to the line that it was read from: for the name of a method or of a variable, to
the line as it is written, of whose code the name is a word; for the end of a method, to its last line. -/
theorem lines_addressed_in_buffer (uri : Uri) (text : String) (version : Option Int)
    (h : HasPlainBreaks text.toList) :
    let buffer := Buffer.ofText text version
    let source := Source.ofText text.toList
    let script := Script.ofText uri text
    (∀ i < (lines text.toList).length, buffer.lineText? i = (lines text.toList)[i]?) ∧
      buffer.lines.length = text.toList.count '\n' + 1 ∧
      (∀ symbol ∈ script.symbols,
        ∃ line, source[symbol.2]? = some line ∧ Name.Stands symbol.1.toList line.code ∧
          buffer.lineText? symbol.2 = some line.raw) ∧
      ∀ m ∈ script.methods,
        ∃ line, source[m.endLine]? = some line ∧ buffer.lineText? m.endLine = some line.raw := by
  intro buffer source script
  have hplain := h.plainText
  have hread : ∀ {i : Nat} {line : SourceLine}, source[i]? = some line →
      buffer.lineText? i = some line.raw := by
    intro i line hline
    have hraw : (lines text.toList)[i]? = some line.raw := by
      rw [← Source.raw_ofLines (lines text.toList), List.getElem?_map]
      exact congrArg (Option.map SourceLine.raw) hline
    exact Buffer.lineText?_of_plainText hplain version hraw
  refine ⟨?_, Buffer.length_splitLines_of_plainText hplain, ?_, ?_⟩
  · intro i hi
    have hget := List.getElem?_eq_getElem hi
    rw [hget, Buffer.lineText?_of_plainText hplain version hget]
  · intro symbol hsymbol
    obtain ⟨line, hline, hstands⟩ := stands_of_mem_symbols hsymbol
    exact ⟨line, hline, hstands, hread hline⟩
  · intro m hm
    have hend := (finished_ordered uri source).ended m hm
    exact ⟨_, List.getElem?_eq_getElem hend, hread (List.getElem?_eq_getElem hend)⟩

/-- A text with both kinds of breaks, and a method that nothing closes before the last line. -/
theorem lines_addressed_in_mixed_buffer :
    let uri : Uri := ⟨"file:///a.ahk"⟩
    let text := "x := 1\r\nf() \x7b\n\ty := 2\r\n"
    let buffer := Buffer.ofText text none
    let source := Source.ofText text.toList
    let script := Script.ofText uri text
    HasPlainBreaks text.toList ∧ script.symbols = [("f", 1), ("y", 2), ("x", 0)] ∧
      script.methods.map Method.endLine = [2] ∧
      (∀ i < (lines text.toList).length, buffer.lineText? i = (lines text.toList)[i]?) ∧
      buffer.lines.length = text.toList.count '\n' + 1 ∧
      (∀ symbol ∈ script.symbols,
        ∃ line, source[symbol.2]? = some line ∧ Name.Stands symbol.1.toList line.code ∧
          buffer.lineText? symbol.2 = some line.raw) ∧
      ∀ m ∈ script.methods,
        ∃ line, source[m.endLine]? = some line ∧ buffer.lineText? m.endLine = some line.raw := by
  intro uri text buffer source script
  have hplain : HasPlainBreaks text.toList := ⟨by simp [text], by decide⟩
  exact ⟨hplain, by decide +kernel, by decide +kernel,
    lines_addressed_in_buffer uri text none hplain⟩

end Script
end ScriptSymbols
