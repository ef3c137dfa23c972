import ScriptSymbols.Proofs.Outline.View
import ScriptSymbols.Proofs.Skeleton.Stability

/-!
# Block comments as blank lines

Lines in block comments have no code, so that they might as well be blank. There is one exception: the
search for the comment above a method looks at lines as they are written and knows nothing of block
comments. A block comment that ends in a line with a semicolon at its start is taken for such a comment.

1. `Source.blankComments` makes the lines in block comments empty. The code of all lines stays the same.
2. `Source.notesAbove_blankComments`: the comment lines right above a line stay the same, or lose those
   from a block comment on, of which the nearest has visible text.
3. `Script.blanked_comments_agree` says that a script stays the same up to its comments, and when it stays the
   same with them.
-/

namespace ScriptSymbols

open Text

namespace Text

/-! ## Visible characters -/

/-- The number of characters that are not blank. -/
def visible (cs : List Char) : Nat :=
  cs.countP (!isBlank ·)

theorem visible_append (cs ds : List Char) : visible (cs ++ ds) = visible cs + visible ds :=
  List.countP_append

theorem visible_trimStart (cs : List Char) : visible (trimStart cs) = visible cs := by
  have hnone : visible (cs.takeWhile isBlank) = 0 := by
    refine List.countP_eq_zero.2 fun c hc => ?_
    simpa using List.mem_takeWhile_imp hc
  have hsplit := congrArg visible (List.takeWhile_append_dropWhile (p := isBlank) (l := cs))
  rw [visible_append, hnone, Nat.zero_add] at hsplit
  exact hsplit

/-- Trimming removes nothing that can be seen. -/
theorem visible_trim (cs : List Char) : visible (trim cs) = visible cs := by
  have hreverse : ∀ ds : List Char, visible ds.reverse = visible ds := fun ds =>
    List.countP_reverse
  have hend : ∀ ds : List Char, visible (trimEnd ds) = visible ds := by
    intro ds
    have hstart := visible_trimStart ds.reverse
    rw [hreverse] at hstart
    rw [trimEnd, dropEndWhile, hreverse]
    exact hstart
  rw [trim, hend, visible_trimStart]

theorem visible_join (parts : List (List Char)) :
    visible (join ['\n'] parts) = total visible parts := by
  induction parts with
  | nil => rfl
  | cons part rest ih =>
      cases rest with
      | nil => simp [join]
      | cons next rest =>
          have hfeed : visible ['\n'] = 0 := by decide
          rw [join, visible_append, visible_append, ih, hfeed, Nat.zero_add]
          · rfl
          · simp

theorem mem_dropWhile_of_mem {p : Char → Bool} {c : Char} {cs : List Char} (hmem : c ∈ cs)
    (hc : p c = false) : c ∈ cs.dropWhile p := by
  rw [← List.takeWhile_append_dropWhile (p := p) (l := cs)] at hmem
  rcases List.mem_append.1 hmem with hfront | hrest
  · have hp := List.mem_takeWhile_imp hfront
    simp [hc] at hp
  · exact hrest

theorem mem_trim_of_mem {c : Char} {cs : List Char} (hmem : c ∈ cs) (hc : isBlank c = false) :
    c ∈ trim cs := by
  have hstart : c ∈ (trimStart cs).reverse := List.mem_reverse.2 (mem_dropWhile_of_mem hmem hc)
  exact List.mem_reverse.2 (mem_dropWhile_of_mem hstart hc)

theorem mem_of_occursIn {c : Char} {part cs : List Char} (h : occursIn part cs = true)
    (hc : c ∈ part) : c ∈ cs := by
  induction cs with
  | nil =>
      rw [occursIn, List.isEmpty_iff] at h
      rw [h] at hc
      exact hc
  | cons d cs ih =>
      rw [occursIn, Bool.or_eq_true] at h
      rcases h with hhere | hlater
      · exact (List.isPrefixOf_iff_prefix.1 hhere).subset hc
      · exact List.mem_cons_of_mem d (ih hlater)

end Text

namespace Source

/-! ## Blanked lines -/

/-- The lines with those in block comments made empty. -/
def blankComments (lines : List (List Char)) : List (List Char) :=
  lines.mapIdx fun i raw => if liesInComment false lines i then [] else raw

theorem getElem?_blankComments (lines : List (List Char)) (i : Nat) :
    (blankComments lines)[i]? =
      lines[i]?.map fun raw => if liesInComment false lines i then [] else raw := by
  rw [blankComments, List.getElem?_mapIdx]

/-- Once they are blank, no line lies in a block comment. -/
theorem liesInComment_blankComments (lines : List (List Char)) (i : Nat) :
    liesInComment false (blankComments lines) i = false := by
  -- An empty line opens no comment, and a line that opens one has been made empty.
  have hopens : ∀ i : Nat, (blankComments lines)[i]?.any opensComment = false := by
    intro i
    rw [getElem?_blankComments]
    cases hi : lines[i]? with
    | none => rfl
    | some raw =>
        cases hlies : liesInComment false lines i with
        | true => rfl
        | false =>
            rw [liesInComment, hi, Bool.or_eq_false_iff] at hlies
            exact hlies.2
  have hbefore : inCommentAfter false ((blankComments lines).take i) = false := by
    induction i with
    | zero => rfl
    | succ i ih =>
        cases hi : (blankComments lines)[i]? with
        | none =>
            simpa only [List.take_add_one, hi, Option.toList_none, List.append_nil] using ih
        | some raw =>
            rw [inCommentAfter_take_succ false hi, liesInComment, ih, hopens]
            rfl
  rw [liesInComment, hbefore, hopens]
  rfl

theorem code_blankComments (lines : List (List Char)) :
    (ofLines (blankComments lines)).map SourceLine.code =
      (ofLines lines).map SourceLine.code := by
  have hpass : Skeleton.pass [] = [] :=
    List.eq_nil_of_length_eq_zero (Nat.le_zero.1 (Skeleton.pass_erodes []).length_le)
  have hempty : skeleton [] = [] := Skeleton.skeleton_of_fixed hpass
  apply List.ext_getElem?
  intro i
  rw [List.getElem?_map, List.getElem?_map, getElem?_ofLines, getElem?_ofLines,
    liesInComment_blankComments, getElem?_blankComments]
  cases lines[i]? with
  | none => rfl
  | some raw =>
      cases liesInComment false lines i with
      | true => simp [hempty]
      | false => simp

/-! ## Notes in block comments -/

/-- Whether all lines from one line up to another are comment lines. -/
def NotesFrom (lines : List (List Char)) (first line : Nat) : Prop :=
  ∀ j < line, first ≤ j → lines[j]?.any isNote = true

instance (lines : List (List Char)) (first line : Nat) : Decidable (NotesFrom lines first line) :=
  inferInstanceAs (Decidable (∀ j < line, first ≤ j → _ = true))

/-- The last line of a block comment has text besides any mark of a comment line. -/
theorem visible_commentText {raw : List Char} (h : closesComment raw = true) :
    0 < visible (commentText raw) := by
  have hstar : '*' ∈ raw := mem_of_occursIn h List.mem_cons_self
  have htext : '*' ∈ commentText raw :=
    mem_trim_of_mem (mem_dropWhile_of_mem (mem_trim_of_mem hstar (by decide)) (by decide))
      (by decide)
  exact List.countP_pos_iff.2 ⟨'*', htext, by decide⟩

/-- Another note that can be seen makes another comment. -/
theorem commentOfNotes_append_ne (notes : List (List Char)) {note : List Char}
    (h : 0 < visible note) (more : List (List Char)) :
    commentOfNotes (notes ++ note :: more) ≠ commentOfNotes notes := by
  intro heq
  have htrim : trim (join ['\n'] (notes ++ note :: more).reverse) =
      trim (join ['\n'] notes.reverse) := by
    simp only [commentOfNotes] at heq
    split at heq
    · rename_i hempty
      split at heq
      · rename_i hempty'
        rw [List.isEmpty_iff.1 hempty, List.isEmpty_iff.1 hempty']
      · cases heq
    · split at heq
      · cases heq
      · exact Option.some.inj heq
  -- Trimming and joining lose nothing that can be seen, so that the note is missing on the right.
  have hcount := congrArg visible htrim
  rw [visible_trim, visible_trim, visible_join, visible_join, List.reverse_append,
    List.reverse_cons, total_append, total_append, total_cons] at hcount
  omega

theorem notesFrom_succ {lines : List (List Char)} {first i : Nat} {raw : List Char}
    (hraw : lines[i]? = some raw) (hfirst : first ≤ i) :
    NotesFrom lines first (i + 1) ↔ NotesFrom lines first i ∧ isNote raw = true := by
  constructor
  · intro h
    refine ⟨fun j hj => h j (Nat.lt_succ_of_lt hj), ?_⟩
    have hlast := h i (Nat.lt_succ_self i) hfirst
    rw [hraw] at hlast
    exact hlast
  · rintro ⟨hbefore, hlast⟩ j hj hfirst
    rcases Nat.lt_succ_iff_lt_or_eq.1 hj with hlt | rfl
    · exact hbefore j hlt hfirst
    · rw [hraw]
      exact hlast

/-- Whether the comment lines right above a line reach into a block comment. -/
def TakesBlockComment (lines : List (List Char)) (line : Nat) : Prop :=
  ∃ i < line, NotesFrom lines i line ∧ liesInComment false lines i = true

instance (lines : List (List Char)) (line : Nat) : Decidable (TakesBlockComment lines line) :=
  inferInstanceAs (Decidable (∃ i < line, _ ∧ _ = true))

section Succ

variable {lines : List (List Char)} {i : Nat} {raw : List Char}

theorem takesBlockComment_succ (hraw : lines[i]? = some raw) :
    TakesBlockComment lines (i + 1) ↔
      isNote raw = true ∧ (liesInComment false lines i = true ∨ TakesBlockComment lines i) := by
  constructor
  · rintro ⟨j, hj, hnotes, hlies⟩
    rcases (notesFrom_succ hraw (Nat.le_of_lt_succ hj)).1 hnotes with ⟨hbefore, hlast⟩
    rcases Nat.lt_succ_iff_lt_or_eq.1 hj with hlt | rfl
    · exact ⟨hlast, Or.inr ⟨j, hlt, hbefore, hlies⟩⟩
    · exact ⟨hlast, Or.inl hlies⟩
  · rintro ⟨hlast, hlies | ⟨j, hj, hnotes, hlies⟩⟩
    · have hnone : NotesFrom lines i i := fun j hj hij => absurd hj (Nat.not_lt.2 hij)
      exact ⟨i, Nat.lt_succ_self i, (notesFrom_succ hraw (Nat.le_refl i)).2 ⟨hnone, hlast⟩, hlies⟩
    · exact ⟨j, Nat.lt_succ_of_lt hj, (notesFrom_succ hraw (Nat.le_of_lt hj)).2 ⟨hnotes, hlast⟩,
        hlies⟩

theorem notesAbove_blankComments_succ (hraw : lines[i]? = some raw) :
    notesAbove (blankComments lines) (i + 1) =
      if isNote raw ∧ liesInComment false lines i = false then
        commentText raw :: notesAbove (blankComments lines) i
      else [] := by
  have hblank := getElem?_blankComments lines i
  rw [hraw, Option.map_some] at hblank
  have hempty : isNote [] = false := rfl
  rw [notesAbove_succ hblank]
  cases liesInComment false lines i with
  | true => simp [hempty]
  | false => simp

end Succ

/-- Above a line outside of block comments, blanking keeps all comment lines, or cuts them off at the last
line of a block comment, which has visible text. -/
theorem notesAbove_blankComments {lines : List (List Char)} {i : Nat}
    (h : inCommentAfter false (lines.take i) = false) (hi : i ≤ lines.length) :
    (¬ TakesBlockComment lines i ∧ notesAbove lines i = notesAbove (blankComments lines) i) ∨
      (TakesBlockComment lines i ∧ ∃ note more, 0 < visible note ∧
        notesAbove lines i = notesAbove (blankComments lines) i ++ note :: more) := by
  induction i with
  | zero =>
      refine Or.inl ⟨?_, by simp [notesAbove]⟩
      rintro ⟨j, hj, -⟩
      exact absurd hj (Nat.not_lt_zero j)
  | succ i ih =>
      have hraw : lines[i]? = some lines[i] := List.getElem?_eq_getElem hi
      rw [takesBlockComment_succ hraw, notesAbove_succ hraw, notesAbove_blankComments_succ hraw]
      rw [inCommentAfter_take_succ false hraw] at h
      cases hnote : isNote lines[i] with
      | false => simp
      | true =>
          cases hlies : liesInComment false lines i with
          | true =>
              -- The line is in a block comment that is not open behind it, so it closes the comment.
              rw [hlies] at h
              have hcloses : closesComment lines[i] = true := by
                simpa using h
              exact Or.inr ⟨by simp, _, _, visible_commentText hcloses, rfl⟩
          | false =>
              have hbefore : inCommentAfter false (lines.take i) = false := by
                rw [liesInComment, Bool.or_eq_false_iff] at hlies
                exact hlies.1
              rcases ih hbefore (Nat.le_of_succ_le hi) with
                ⟨hnone, hsame⟩ | ⟨htakes, note, more, hvisible, hcut⟩
              · exact Or.inl ⟨by simp [hnone], by simp [hsame]⟩
              · exact Or.inr ⟨by simp [htakes], note, more, hvisible, by simp [hcut]⟩

/-- Above a line outside of block comments, blanking keeps the comment exactly if it takes nothing from a
block comment. -/
theorem commentAbove_blankComments_iff {lines : List (List Char)} {i : Nat}
    (h : liesInComment false lines i = false) (hi : i < lines.length) :
    commentAbove (blankComments lines) i = commentAbove lines i ↔ ¬ TakesBlockComment lines i := by
  rw [liesInComment, Bool.or_eq_false_iff] at h
  rcases notesAbove_blankComments h.1 (Nat.le_of_lt hi) with
    ⟨hnone, hsame⟩ | ⟨htakes, note, more, hvisible, hcut⟩
  · refine iff_of_true ?_ hnone
    rw [commentAbove, commentAbove, hsame]
  · refine iff_of_false ?_ (not_not_intro htakes)
    intro heq
    refine commentOfNotes_append_ne (notesAbove (blankComments lines) i) hvisible more ?_
    rw [← hcut]
    exact (Option.map_injective (fun _ _ => String.ofList_injective) heq).symm

end Source

/-! ## Whole texts -/

namespace Script

open Source

/-- No line of a block comment declares a method. -/
theorem liesInComment_of_mem_methods {uri : Uri} {lines : List (List Char)} {m : Method}
    (hm : m ∈ (Script.ofSource uri (ofLines lines)).methods) :
    m.line < lines.length ∧ liesInComment false lines m.line = false := by
  have hline : m.line ∈ (Script.ofSource uri (ofLines lines)).methods.map Method.line :=
    List.mem_map_of_mem hm
  rw [methods_lines, List.mem_filter, List.mem_range, length_ofLines] at hline
  rcases hline with ⟨hlt, hdecl⟩
  refine ⟨hlt, ?_⟩
  have hcode := getElem?_ofLines lines m.line
  rw [List.getElem?_eq_getElem hlt, Option.map_some] at hcode
  rw [drop_eq_cons hcode] at hdecl
  cases hlies : liesInComment false lines m.line with
  | false => rfl
  | true =>
      have hnone : Statement.header? [] = none := header?_of_allBlank rfl
      simp [hlies, declaration?, hnone] at hdecl

/-- The script without the comments of its methods. -/
def withoutComments (s : Script) : Script :=
  { s with methods := s.methods.map fun m => { m with comment := none } }

theorem withoutComments_relabel (comment : Nat → Option String) (s : Script) :
    (s.relabel (.comments comment)).withoutComments = s.withoutComments := by
  simp [withoutComments, Script.relabel, Relabeling.comments, Function.comp_def]

/-- The lines in block comments count as blank lines, except in comments above methods. A text whose block
comments are made blank has the same script up to comments, and has the same comments exactly if none of them
reaches into a block comment. -/
theorem blanked_comments_agree (uri : Uri) (text text' : String)
    (h : lines text'.toList = blankComments (lines text.toList)) :
    (Script.ofText uri text').withoutComments = (Script.ofText uri text).withoutComments ∧
      (Script.ofText uri text' = Script.ofText uri text ↔
        ∀ m ∈ (Script.ofText uri text).methods,
          ¬ TakesBlockComment (lines text.toList) m.line) := by
  have hcode : (Source.ofText text'.toList).map SourceLine.code =
      (Source.ofText text.toList).map SourceLine.code := by
    rw [Source.ofText, h]
    exact code_blankComments (lines text.toList)
  unfold Script.ofText
  constructor
  · rw [ofSource_of_code_eq uri hcode, withoutComments_relabel]
  · rw [ofSource_eq_iff uri hcode, Source.ofText, Source.ofText, raw_ofLines, raw_ofLines, h]
    refine forall₂_congr fun m hm => ?_
    rcases liesInComment_of_mem_methods hm with ⟨hlt, hlies⟩
    exact commentAbove_blankComments_iff hlies hlt

/-- A block comment with a declaration and with comment lines, behind which a method has a comment of its
own. -/
theorem blanked_comments_agree_above_note :
    let uri : Uri := ⟨"file:///a.ahk"⟩
    let text := "/* g() \x7b\n; old\n; */\n\n; doc\nf(x) \x7b\n  /* y := 1 */\n\x7d\n"
    let text' := "\n\n\n\n; doc\nf(x) \x7b\n\n\x7d\n"
    lines text'.toList = blankComments (lines text.toList) ∧
      Script.ofText uri text' = Script.ofText uri text := by
  intro uri text text'
  have hlines : lines text'.toList = blankComments (lines text.toList) := by decide +kernel
  have hnone : ∀ m ∈ (Script.ofText uri text).methods,
      ¬ TakesBlockComment (lines text.toList) m.line := by
    decide +kernel
  exact ⟨hlines, (blanked_comments_agree uri text text' hlines).2.2 hnone⟩

/-- The last line of a block comment is taken for the comment of the method below it. -/
theorem block_comment_becomes_comment :
    let uri : Uri := ⟨"file:///a.ahk"⟩
    let text := "/*\n; old */\nf() \x7b\n\x7d\n"
    let text' := "\n\nf() \x7b\n\x7d\n"
    lines text'.toList = blankComments (lines text.toList) ∧
      (Script.ofText uri text).methods.map Method.comment = [some "old */"] ∧
      (Script.ofText uri text').methods.map Method.comment = [none] ∧
      Script.ofText uri text' ≠ Script.ofText uri text := by
  decide +kernel

end Script
end ScriptSymbols
