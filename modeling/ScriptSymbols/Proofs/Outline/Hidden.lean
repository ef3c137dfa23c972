import ScriptSymbols.Proofs.Outline.View
import ScriptSymbols.Proofs.Skeleton.Stability

/-!
# Hidden text

What stands inside a string or behind the mark of a comment has no influence on a script. It is read in
three places: by the skeleton of its line, by the search for block comments, and by the search for
comments above methods. The last two look at lines as they are written.

* `Skeleton.modeAfter?` is the mode in which a scan leaves the front of a line.
* `HiddenChange` relates lines that differ in one hidden text.
* `HiddenChange.skeleton_eq`, `HiddenChange.opensComment_eq` and `HiddenChange.isNote_eq_false` deal with the
  three places.
* `Script.hidden_text_is_unseen` is the result for whole texts.
-/

namespace ScriptSymbols

open Text

namespace Text

/-! ## The first character that is not blank -/

theorem head?_dropEndWhile {p : Char → Bool} {c : Char} (h : p c = false) (cs : List Char) :
    (dropEndWhile p (c :: cs)).head? = some c := by
  unfold dropEndWhile
  rw [List.reverse_cons, List.dropWhile_append]
  split <;> simp [h]

theorem head?_trim (cs : List Char) : (trim cs).head? = (trimStart cs).head? := by
  cases hstart : trimStart cs with
  | nil => simp [trim, hstart, trimEnd, dropEndWhile]
  | cons c rest =>
      have hblank : isBlank c = false := by
        have hhead := List.head?_dropWhile_not isBlank cs
        unfold trimStart at hstart
        simpa [hstart] using hhead
      rw [trim, hstart]
      exact head?_dropEndWhile hblank rest

theorem head?_trimStart_append (front : List Char) {c : Char} (h : isBlank c = false)
    (rest : List Char) :
    (trimStart (front ++ c :: rest)).head? = (trimStart front).head?.or (some c) := by
  induction front with
  | nil => simp [trimStart, h]
  | cons d front ih =>
      cases hd : isBlank d with
      | true => simpa [trimStart, hd] using ih
      | false => simp [trimStart, hd]

end Text

namespace Skeleton

/-! ## Scanning a line in two parts -/

/-- The mode in which a scan leaves a text, unless a comment starts in it. -/
def modeAfter? (mode : Mode) (prev : Option Char) : List Char → Option Mode
  | [] => some mode
  | c :: cs => if startsComment mode prev c then none else modeAfter? (mode.next c) (some c) cs

/-- The character before the rest of a text is the last of its front, which may be the first one. -/
theorem getLast?_cons_or (c : Char) (front : List Char) (prev : Option Char) :
    (c :: front).getLast?.or prev = front.getLast?.or (some c) := by
  cases hlast : front.getLast? with
  | none => simp [List.getLast?_cons, hlast]
  | some d => simp [List.getLast?_cons, hlast]

/-- Behind a front without a comment, the rest is scanned in the mode that the front leaves. -/
theorem emptyStringsFrom_append {mode mode' : Mode} {prev : Option Char} {front : List Char}
    (h : modeAfter? mode prev front = some mode') (rest : List Char) :
    emptyStringsFrom mode prev (front ++ rest) =
      emptyStringsFrom mode prev front ++
        emptyStringsFrom mode' (front.getLast?.or prev) rest := by
  induction front generalizing mode prev with
  | nil =>
      cases h
      simp [emptyStringsFrom]
  | cons c front ih =>
      rw [modeAfter?] at h
      split at h
      · cases h
      · rename_i hstarts
        rw [List.cons_append, emptyStringsFrom, emptyStringsFrom, if_neg hstarts, if_neg hstarts,
          getLast?_cons_or, ih h]
        split <;> rfl

/-- A string is passed up to the quote that ends it. -/
theorem emptyStringsFrom_quoted {inside : List Char} (h : '"' ∉ inside) (prev : Option Char)
    (rest : List Char) :
    emptyStringsFrom .quoted prev (inside ++ '"' :: rest) =
      '"' :: emptyStringsFrom .code (some '"') rest := by
  induction inside generalizing prev with
  | nil => simp [emptyStringsFrom, startsComment, Mode.next]
  | cons c inside ih =>
      have hc : c ≠ '"' := by
        rintro rfl
        exact h List.mem_cons_self
      have hrest := ih (fun hmem => h (List.mem_cons_of_mem c hmem)) (some c)
      simpa [emptyStringsFrom, startsComment, Mode.next, hc] using hrest

theorem emptyStrings_string {pre inside : List Char}
    (hcode : modeAfter? .code none pre = some .code) (h : '"' ∉ inside) (post : List Char) :
    emptyStrings (pre ++ '"' :: (inside ++ '"' :: post)) =
      emptyStrings pre ++ '"' :: '"' :: emptyStringsFrom .code (some '"') post := by
  have hopen : ∀ prev, emptyStringsFrom .code prev ('"' :: (inside ++ '"' :: post)) =
      '"' :: emptyStringsFrom .quoted (some '"') (inside ++ '"' :: post) := by
    intro prev
    simp [emptyStringsFrom, startsComment, Mode.next]
  unfold emptyStrings
  rw [emptyStringsFrom_append hcode, hopen, emptyStringsFrom_quoted h]

theorem emptyStrings_comment {pre : List Char} (hcode : modeAfter? .code none pre = some .code)
    (hblank : pre.getLast?.any isBlank = true) (comment : List Char) :
    emptyStrings (pre ++ ';' :: comment) = emptyStrings pre := by
  have hstarts : startsComment .code (pre.getLast?.or none) ';' = true := by
    cases hlast : pre.getLast? with
    | none => simp [startsComment]
    | some c => simpa [startsComment, hlast] using hblank
  unfold emptyStrings
  rw [emptyStringsFrom_append hcode, emptyStringsFrom, if_pos hstarts, List.append_nil]

/-- A semicolon that is the first of a line starts a comment. -/
theorem head?_trimStart_ne {mode : Mode} {prev : Option Char} {front : List Char}
    (h : modeAfter? .code prev front = some mode) (hprev : prev.all isBlank = true) :
    (trimStart front).head? ≠ some ';' := by
  induction front generalizing prev with
  | nil => simp [trimStart]
  | cons c front ih =>
      rw [modeAfter?] at h
      split at h
      · cases h
      · rename_i hstarts
        cases hc : isBlank c with
        | true =>
            -- A blank is no quote, so that the scan stays in code.
            have hquote : c ≠ '"' := by
              rintro rfl
              exact absurd hc (by decide)
            have hnext : Mode.code.next c = .code := by
              simp [Mode.next, hquote]
            rw [hnext] at h
            simpa [trimStart, hc] using ih h (by simpa using hc)
        | false =>
            have hsemi : c ≠ ';' := by
              rintro rfl
              simp [startsComment, hprev] at hstarts
            simpa [trimStart, hc] using hsemi

end Skeleton

open Skeleton

/-! ## Changes of hidden text -/

/-- Lines that differ in the inside of one string, or in a comment that has code before it. -/
inductive HiddenChange : List Char → List Char → Prop
  | inString {pre inside inside' post : List Char}
      (code : modeAfter? .code none pre = some .code)
      (unquoted : '"' ∉ inside) (unquoted' : '"' ∉ inside') :
      HiddenChange (pre ++ '"' :: (inside ++ '"' :: post)) (pre ++ '"' :: (inside' ++ '"' :: post))
  | inComment {pre comment comment' : List Char}
      (code : modeAfter? .code none pre = some .code)
      (visible : allBlank pre = false) (blank : pre.getLast?.any isBlank = true) :
      HiddenChange (pre ++ ';' :: comment) (pre ++ ';' :: comment')

/-- Whether a line opens a block comment is decided before a character that has no part in the mark. -/
theorem Source.opensComment_append (front : List Char) {c : Char} (hblank : isBlank c = false)
    (hslash : c ≠ '/') (hstar : c ≠ '*') (rest : List Char) :
    opensComment (front ++ c :: rest) = opensComment front := by
  induction front with
  | nil => simp [opensComment, trimStart, hblank, List.isPrefixOf, hslash.symm]
  | cons d front ih =>
      cases hd : isBlank d with
      | true => simpa [opensComment, trimStart, hd] using ih
      | false =>
          cases front with
          | nil => simp [opensComment, trimStart, hd, List.isPrefixOf, hstar.symm]
          | cons e front => simp [opensComment, trimStart, hd, List.isPrefixOf]

theorem Source.isNote_append {pre : List Char} (hcode : modeAfter? .code none pre = some .code)
    {c : Char} (hblank : isBlank c = false) (hc : allBlank pre = true → c ≠ ';')
    (rest : List Char) : isNote (pre ++ c :: rest) = false := by
  have hfirst := head?_trimStart_ne hcode rfl
  rw [isNote, head?_trim, head?_trimStart_append pre hblank]
  cases hpre : (trimStart pre).head? with
  | some d => simpa [hpre] using hfirst
  | none =>
      have hall : allBlank pre = true := by
        simpa [trimStart, allBlank, List.dropWhile_eq_nil_iff] using hpre
      simpa using hc hall

namespace HiddenChange

variable {line line' : List Char}

theorem skeleton_eq (h : HiddenChange line line') : skeleton line' = skeleton line := by
  have hstrings : emptyStrings line' = emptyStrings line := by
    cases h with
    | inString code unquoted unquoted' =>
        rw [emptyStrings_string code unquoted, emptyStrings_string code unquoted']
    | inComment code visible blank =>
        rw [emptyStrings_comment code blank, emptyStrings_comment code blank]
  -- Later passes see nothing but the result of the first one.
  have hpass : pass line' = pass line := by
    rw [Skeleton.pass, hstrings]
    rfl
  rw [← skeleton_pass line', hpass, skeleton_pass]

theorem opensComment_eq (h : HiddenChange line line') :
    Source.opensComment line' = Source.opensComment line := by
  cases h with
  | inString =>
      rw [Source.opensComment_append _ (by decide) (by decide) (by decide),
        Source.opensComment_append _ (by decide) (by decide) (by decide)]
  | inComment =>
      rw [Source.opensComment_append _ (by decide) (by decide) (by decide),
        Source.opensComment_append _ (by decide) (by decide) (by decide)]

/-- Neither line is a comment on what follows. -/
theorem isNote_eq_false (h : HiddenChange line line') :
    Source.isNote line = false ∧ Source.isNote line' = false := by
  cases h with
  | inString code =>
      exact ⟨Source.isNote_append code (by decide) (fun _ => by decide) _,
        Source.isNote_append code (by decide) (fun _ => by decide) _⟩
  | inComment code visible =>
      have hmark : ∀ pre : List Char, allBlank pre = false → allBlank pre = true → ';' ≠ ';' := by
        intro pre hvisible hall
        simp [hvisible] at hall
      exact ⟨Source.isNote_append code (by decide) (hmark _ visible) _,
        Source.isNote_append code (by decide) (hmark _ visible) _⟩

end HiddenChange

/-! ## Texts that differ in hidden text -/

namespace Source

/-- Lines of two texts, where each is the same in both, or lies in no block comment and differs in hidden
text. -/
structure SameVisible (lines lines' : List (List Char)) : Prop where
  length : lines'.length = lines.length
  line : ∀ i line line', lines[i]? = some line → lines'[i]? = some line' →
    line = line' ∨ liesInComment false lines i = false ∧ HiddenChange line line'

namespace SameVisible

variable {lines lines' : List (List Char)}

theorem getElem?_eq_none (h : SameVisible lines lines') {i : Nat} (hi : lines[i]? = none) :
    lines'[i]? = none := by
  rw [List.getElem?_eq_none_iff] at hi ⊢
  rw [h.length]
  exact hi

theorem exists_line (h : SameVisible lines lines') {i : Nat} {line : List Char}
    (hi : lines[i]? = some line) :
    ∃ line', lines'[i]? = some line' ∧
      (line = line' ∨ liesInComment false lines i = false ∧ HiddenChange line line') := by
  have hlt : i < lines'.length := by
    rw [h.length]
    exact (List.getElem?_eq_some_iff.1 hi).1
  have hi' : lines'[i]? = some lines'[i] := List.getElem?_eq_getElem hlt
  exact ⟨_, hi', h.line i _ _ hi hi'⟩

/-- The same lines open block comments, and those that close them are the same. -/
theorem inCommentAfter_take (h : SameVisible lines lines') (i : Nat) :
    inCommentAfter false (lines'.take i) = inCommentAfter false (lines.take i) := by
  induction i with
  | zero => rfl
  | succ i ih =>
      cases hi : lines[i]? with
      | none =>
          simp only [List.take_add_one, hi, h.getElem?_eq_none hi, Option.toList_none,
            List.append_nil, ih]
      | some line =>
          rcases h.exists_line hi with ⟨line', hi', rfl | ⟨hout, hchange⟩⟩
          · rw [inCommentAfter_take_succ false hi, inCommentAfter_take_succ false hi',
              liesInComment, liesInComment, ih, hi, hi']
          · -- Outside block comments it does not matter which of the lines could close one.
            have hout' : liesInComment false lines' i = false := by
              rw [liesInComment, hi] at hout
              rw [liesInComment, ih, hi']
              simpa [hchange.opensComment_eq] using hout
            rw [inCommentAfter_take_succ false hi, inCommentAfter_take_succ false hi', hout, hout']
            rfl

theorem liesInComment_eq (h : SameVisible lines lines') (i : Nat) :
    liesInComment false lines' i = liesInComment false lines i := by
  rw [liesInComment, liesInComment, h.inCommentAfter_take]
  cases hi : lines[i]? with
  | none => rw [h.getElem?_eq_none hi]
  | some line =>
      rcases h.exists_line hi with ⟨line', hi', rfl | ⟨_hout, hchange⟩⟩
      · rw [hi']
      · rw [hi', Option.any_some, Option.any_some, hchange.opensComment_eq]

theorem code_eq (h : SameVisible lines lines') :
    (ofLines lines').map SourceLine.code = (ofLines lines).map SourceLine.code := by
  apply List.ext_getElem?
  intro i
  rw [List.getElem?_map, List.getElem?_map, getElem?_ofLines, getElem?_ofLines,
    h.liesInComment_eq]
  cases hi : lines[i]? with
  | none => rw [h.getElem?_eq_none hi]
  | some line =>
      rcases h.exists_line hi with ⟨line', hi', rfl | ⟨_hout, hchange⟩⟩
      · rw [hi']
      · rw [hi']
        simp [hchange.skeleton_eq]

theorem notesAbove_eq (h : SameVisible lines lines') (i : Nat) :
    notesAbove lines' i = notesAbove lines i := by
  induction i with
  | zero => simp [notesAbove]
  | succ i ih =>
      cases hi : lines[i]? with
      | none =>
          have hnone := h.getElem?_eq_none hi
          unfold notesAbove at ih ⊢
          simpa only [List.take_add_one, hi, hnone, Option.toList_none, List.append_nil] using ih
      | some line =>
          rcases h.exists_line hi with ⟨line', hi', rfl | ⟨_hout, hchange⟩⟩
          · rw [notesAbove_succ hi, notesAbove_succ hi', ih]
          · -- A line with a hidden change ends the comment above it in both texts.
            rcases hchange.isNote_eq_false with ⟨hnote, hnote'⟩
            rw [notesAbove_succ hi, notesAbove_succ hi', hnote, hnote']
            rfl

end SameVisible
end Source

/-- Texts that differ only inside strings and in comments behind code, outside of block comments, have the
same script. -/
theorem Script.hidden_text_is_unseen (uri : Uri) (text text' : String)
    (h : Source.SameVisible (lines text.toList) (lines text'.toList)) :
    Script.ofText uri text' = Script.ofText uri text := by
  refine (Script.ofSource_eq_iff uri h.code_eq).2 ?_
  intro m _hm
  rw [Source.raw_ofLines, Source.raw_ofLines, Source.commentAbove, Source.commentAbove,
    h.notesAbove_eq]

/-- Braces, quotes and semicolons that are hidden in one text and absent from the other. The line in the
block comment is the same in both. -/
theorem Script.hidden_text_is_unseen_behind_brace :
    let uri : Uri := ⟨"file:///a.ahk"⟩
    let text := "; doc\nf(x) \x7b ; one\n  s := \"a; \x7d\" . x\n\x7d\n/* \x7b */\nt := \"\"\n"
    let text' := "; doc\nf(x) \x7b ; \"\x7d\n  s := \"\" . x\n\x7d\n/* \x7b */\nt := \" ; \x7b\"\n"
    Source.SameVisible (lines text.toList) (lines text'.toList) ∧
      ((Script.ofText uri text).methods.map fun m => (m.comment, m.line, m.endLine)) =
        [(some "doc", 1, 3)] ∧
      Script.ofText uri text' = Script.ofText uri text := by
  intro uri text text'
  have hlines : lines text.toList =
      ["; doc".toList, "f(x) \x7b ".toList ++ ';' :: " one".toList,
        "  s := ".toList ++ '"' :: ("a; \x7d".toList ++ '"' :: " . x".toList), "\x7d".toList,
        "/* \x7b */".toList, "t := ".toList ++ '"' :: ([] ++ '"' :: [])] := by
    decide +kernel
  have hlines' : lines text'.toList =
      ["; doc".toList, "f(x) \x7b ".toList ++ ';' :: " \"\x7d".toList,
        "  s := ".toList ++ '"' :: ([] ++ '"' :: " . x".toList), "\x7d".toList,
        "/* \x7b */".toList, "t := ".toList ++ '"' :: (" ; \x7b".toList ++ '"' :: [])] := by
    decide +kernel
  have hsame : Source.SameVisible (lines text.toList) (lines text'.toList) := by
    refine ⟨by rw [hlines, hlines']; rfl, ?_⟩
    rw [hlines']
    intro i line line' hi hi'
    have hout : i = 1 ∨ i = 2 ∨ i = 5 → Source.liesInComment false (lines text.toList) i = false := by
      rintro (rfl | rfl | rfl) <;> decide +kernel
    rw [hlines] at hi
    match i, hi, hi', hout with
    | 0, rfl, rfl, _ => exact Or.inl rfl
    | 1, rfl, rfl, hout =>
        exact Or.inr ⟨hout (by simp),
          .inComment (by decide +kernel) (by decide +kernel) (by decide +kernel)⟩
    | 2, rfl, rfl, hout =>
        exact Or.inr ⟨hout (by simp),
          .inString (by decide +kernel) (by decide +kernel) (by decide +kernel)⟩
    | 3, rfl, rfl, _ => exact Or.inl rfl
    | 4, rfl, rfl, _ => exact Or.inl rfl
    | 5, rfl, rfl, hout =>
        exact Or.inr ⟨hout (by simp),
          .inString (by decide +kernel) (by decide +kernel) (by decide +kernel)⟩
  exact ⟨hsame, by decide +kernel, Script.hidden_text_is_unseen uri text text' hsame⟩

end ScriptSymbols
