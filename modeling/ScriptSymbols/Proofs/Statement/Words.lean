import Mathlib.Data.List.TakeWhile
import ScriptSymbols.Proofs.Name.Word
import ScriptSymbols.Proofs.Statement.CaseFolding

/-!
# Names of statements

Every name that a statement form gives is a word of the code that it is read from. The forms take names
by narrower classes of characters than words are delimited by, so that what follows a name has to be
looked at in each of them.

* `Name.Behind` relates a text to its rest behind an edge.
* `Statement.stands_of_mem_assigned` deals with assigned names, `Statement.stands_of_header?` with the name
  in a header.
-/

namespace ScriptSymbols

open Text

namespace Name

/-! ## The rest behind an edge -/

/-- Whether a text is the rest of a line behind an edge. -/
def Behind (rest line : List Char) : Prop :=
  ∃ front, line = front ++ rest ∧ IsEdge front.getLast?

theorem Behind.trans {a b c : List Char} (hab : Behind a b) (hbc : Behind b c) : Behind a c := by
  obtain ⟨front, rfl, hfront⟩ := hab
  obtain ⟨front', rfl, hfront'⟩ := hbc
  refine ⟨front' ++ front, by simp, ?_⟩
  rw [List.getLast?_append]
  exact hfront.or hfront'

theorem Stands.of_behind {word rest line : List Char} (h : Stands word rest)
    (hrest : Behind rest line) : Stands word line := by
  obtain ⟨front, rfl, hfront⟩ := hrest
  exact h.append_left hfront

theorem isEdge_head?_dropWhile (cs : List Char) : IsEdge (cs.dropWhile isIdentChar).head? := by
  have hhead := List.head?_dropWhile_not isIdentChar cs
  cases hdrop : (cs.dropWhile isIdentChar).head? with
  | none => rfl
  | some c =>
      rw [hdrop] at hhead
      simpa using hhead

theorem isEdge_getLast?_takeWhile_isBlank (cs : List Char) :
    IsEdge (cs.takeWhile isBlank).getLast? := by
  refine isEdge_of_isBlank ?_
  cases hlast : (cs.takeWhile isBlank).getLast? with
  | none => rfl
  | some c =>
      have hblank : isBlank c = true := List.mem_takeWhile_imp (List.mem_of_getLast? hlast)
      exact hblank

theorem behind_trimStart (cs : List Char) : Behind (trimStart cs) cs :=
  ⟨cs.takeWhile isBlank, List.takeWhile_append_dropWhile.symm, isEdge_getLast?_takeWhile_isBlank cs⟩

theorem Stands.of_trim {word cs : List Char} (h : Stands word (trim cs)) : Stands word cs := by
  have hend : trimStart cs =
      trim cs ++ ((trimStart cs).reverse.takeWhile isBlank).reverse := by
    rw [trim, trimEnd, dropEndWhile, ← List.reverse_append, List.takeWhile_append_dropWhile,
      List.reverse_reverse]
  have hback : IsEdge ((trimStart cs).reverse.takeWhile isBlank).reverse.head? := by
    rw [List.head?_reverse]
    exact isEdge_getLast?_takeWhile_isBlank _
  have hstart : Stands word (trimStart cs) := by
    rw [hend]
    exact h.append_right hback
  exact hstart.of_behind (behind_trimStart cs)

/-! ## Names at the start of a text -/

/-- A name that is taken from the start of a text is a word of it if no word goes on behind it. -/
theorem stands_of_takeBy? {start part : Char → Bool} {cs name rest : List Char}
    (hstart : ∀ c, start c = true → isIdentChar c = true)
    (hpart : ∀ c, part c = true → isIdentChar c = true)
    (h : takeBy? start part cs = some (name, rest)) :
    cs = name ++ rest ∧ (IsEdge rest.head? → Stands name cs) := by
  cases cs with
  | nil => cases h
  | cons c cs =>
      rw [takeBy?] at h
      split at h
      · rename_i hc
        cases h
        have hident : ∀ d ∈ c :: cs.takeWhile part, isIdentChar d = true := by
          intro d hd
          rcases List.mem_cons.1 hd with rfl | hd
          · exact hstart d hc
          · exact hpart d (List.mem_takeWhile_imp hd)
        have hcs : c :: cs = c :: cs.takeWhile part ++ cs.dropWhile part := by
          rw [List.cons_append, List.takeWhile_append_dropWhile]
        refine ⟨hcs, fun hedge => ⟨[], cs.dropWhile part, hcs, by simp, hident, rfl, hedge⟩⟩
      · cases h

theorem isIdentChar_of_isStart {c : Char} (h : isStart c = true) : isIdentChar c = true :=
  isIdentChar_of_isPart (by rw [isPart, h, Bool.true_or])

theorem stands_of_take? {cs name rest : List Char} (h : take? cs = some (name, rest)) :
    cs = name ++ rest ∧ (IsEdge rest.head? → Stands name cs) :=
  stands_of_takeBy? (fun _ => isIdentChar_of_isStart) (fun _ => isIdentChar_of_isPart) h

theorem stands_of_isName {cs : List Char} (h : isName cs = true) : Stands cs cs := by
  cases cs with
  | nil => cases h
  | cons c cs =>
      rw [isName, Bool.and_eq_true, List.all_eq_true] at h
      refine ⟨[], [], by simp, by simp, ?_, rfl, rfl⟩
      intro d hd
      rcases List.mem_cons.1 hd with rfl | hd
      · exact isIdentChar_of_isStart h.1
      · exact isIdentChar_of_isPart (h.2 d hd)

end Name

open Name

namespace Text

/-- The parts between commas: the first one starts the text, every other one has a comma before it, and
each has a comma or nothing behind it. -/
theorem splitTopFrom_eq_cons (depth : Nat) (text : List Char) :
    ∃ part parts, splitTopFrom depth text = part :: parts ∧
      (∃ back, text = part ++ back ∧ IsEdge back.head?) ∧
      ∀ item ∈ parts, ∃ front back, text = front ++ ',' :: (item ++ back) ∧ IsEdge back.head? := by
  have hcomma : isIdentChar ',' = false := by decide
  induction text generalizing depth with
  | nil => exact ⟨[], [], rfl, ⟨[], rfl, rfl⟩, by simp⟩
  | cons c cs ih =>
      rw [splitTopFrom]
      split
      · rename_i hc
        obtain ⟨rfl, rfl⟩ := hc
        obtain ⟨part, parts, hsplit, ⟨back, hpart, hback⟩, hparts⟩ := ih 0
        refine ⟨[], part :: parts, by rw [hsplit], ⟨',' :: cs, rfl, hcomma⟩, ?_⟩
        intro item hitem
        rcases List.mem_cons.1 hitem with rfl | hitem
        · exact ⟨[], back, by rw [hpart]; rfl, hback⟩
        · obtain ⟨front, back', rfl, hback'⟩ := hparts item hitem
          exact ⟨',' :: front, back', rfl, hback'⟩
      · obtain ⟨part, parts, hsplit, ⟨back, hpart, hback⟩, hparts⟩ := ih (bracketDepth depth c)
        refine ⟨c :: part, parts, by rw [hsplit, consHead], ⟨back, by rw [hpart]; rfl, hback⟩, ?_⟩
        intro item hitem
        obtain ⟨front, back', rfl, hback'⟩ := hparts item hitem
        exact ⟨c :: front, back', rfl, hback'⟩

/-- A word of a part between commas is a word of the text. -/
theorem stands_of_mem_splitTop {word item text : List Char} (h : Stands word item)
    (hitem : item ∈ splitTop text) : Stands word text := by
  obtain ⟨part, parts, hsplit, ⟨back, hpart, hback⟩, hparts⟩ := splitTopFrom_eq_cons 0 text
  rw [splitTop, hsplit] at hitem
  rcases List.mem_cons.1 hitem with rfl | hitem
  · rw [hpart]
    exact h.append_right hback
  · obtain ⟨front, back', rfl, hback'⟩ := hparts item hitem
    have hcomma : IsEdge (front ++ [',']).getLast? := by
      rw [List.getLast?_concat, isEdge_some]
      decide
    have hword := h.append hcomma hback'
    rwa [List.append_assoc] at hword

end Text

namespace Statement

/-! ## Keywords and marks -/

theorem behind_of_after? {mark : Char} (hmark : isIdentChar mark = false) {cs rest : List Char}
    (h : after? mark cs = some rest) (front : List Char) : Behind rest (front ++ cs) := by
  cases cs with
  | nil => cases h
  | cons c cs =>
      rw [after?] at h
      split at h
      · rename_i hc
        cases h
        exact ⟨front ++ [c], by simp, by simpa [hc] using hmark⟩
      · cases h

theorem behind_of_after?_trimStart {mark : Char} (hmark : isIdentChar mark = false)
    {cs rest : List Char} (h : after? mark (trimStart cs) = some rest) (front : List Char) :
    Behind rest (front ++ cs) := by
  have hblanks := behind_of_after? hmark h (front ++ cs.takeWhile isBlank)
  rw [List.append_assoc, trimStart, List.takeWhile_append_dropWhile] at hblanks
  exact hblanks

theorem isEdge_of_after? {mark : Char} (hmark : isIdentChar mark = false) {cs rest : List Char}
    (h : after? mark cs = some rest) : IsEdge cs.head? := by
  cases cs with
  | nil => rfl
  | cons c cs =>
      rw [after?] at h
      split at h
      · rename_i hc
        simpa [hc] using hmark
      · cases h

/-- Blanks before a text do not hide an edge. -/
theorem isEdge_of_trimStart {cs : List Char} (h : IsEdge (trimStart cs).head?) : IsEdge cs.head? := by
  cases cs with
  | nil => rfl
  | cons c cs =>
      cases hc : isBlank c with
      | true => exact isIdentChar_of_isBlank hc
      | false => simpa [trimStart, hc] using h

theorem keyword?_eq_append {same : Char → Char → Bool} {ks cs rest : List Char}
    (h : keyword? same ks cs = some rest) : ∃ front, cs = front ++ rest := by
  induction ks generalizing cs with
  | nil => exact ⟨[], by simpa [keyword?] using h⟩
  | cons k ks ih =>
      cases cs with
      | nil => cases h
      | cons c cs =>
          rw [keyword?] at h
          split at h
          · obtain ⟨front, rfl⟩ := ih h
            exact ⟨c :: front, rfl⟩
          · cases h

theorem afterBlanks?_eq_some {cs rest : List Char} (h : afterBlanks? cs = some rest) :
    rest = trimStart cs ∧ cs.head?.any isBlank = true := by
  rw [afterBlanks?] at h
  split at h
  · rename_i hblank
    exact ⟨(Option.some.inj h).symm, hblank⟩
  · cases h

theorem behind_of_afterKeyword? {same : Char → Char → Bool} {word : String} {cs rest : List Char}
    (h : afterKeyword? same word cs = some rest) : Behind rest cs := by
  obtain ⟨after, hword, hblanks⟩ := Option.bind_eq_some_iff.1 h
  obtain ⟨front, rfl⟩ := keyword?_eq_append hword
  obtain ⟨rfl, hblank⟩ := afterBlanks?_eq_some hblanks
  -- The blank behind the keyword is the edge, also if more of them follow.
  cases after with
  | nil => cases hblank
  | cons c after =>
      have hc : isBlank c = true := by simpa using hblank
      have hkeep : Behind after (front ++ c :: after) :=
        ⟨front ++ [c], by simp, by simpa using isIdentChar_of_isBlank hc⟩
      have htrim : trimStart (c :: after) = trimStart after := by
        simp [trimStart, hc]
      rw [htrim]
      exact (behind_trimStart after).trans hkeep

/-! ## Assigned names -/

theorem dropOperator_of_not_mem {c : Char}
    (h : c ∉ ['.', '+', '-', '*', '/', '|', '&', '^', '<', '>']) (rest : List Char) :
    dropOperator (c :: rest) = c :: rest := by
  have hne : ∀ d ∈ ['.', '+', '-', '*', '/', '|', '&', '^', '<', '>'], (d == c) = false := by
    intro d hd
    refine beq_eq_false_iff_ne.2 ?_
    rintro rfl
    exact h hd
  have hmark : ['.', '+', '-', '*', '/', '|', '&', '^'].contains c = false := by
    refine Bool.eq_false_iff.2 fun hmem => h ?_
    have hmem' : c ∈ ['.', '+', '-', '*', '/', '|', '&', '^'] := List.contains_iff_mem.1 hmem
    exact List.mem_append_left ['<', '>'] hmem'
  rw [dropOperator_eq]
  simp only [List.isPrefixOf, hne '/' (by simp), hne '<' (by simp), hne '>' (by simp),
    List.head?_cons, Option.any_some, hmark, Bool.false_and, Bool.or_self, Bool.false_eq_true, if_false]

/-- Where an assignment goes on, no word does. -/
theorem isEdge_of_startsAssignment {cs : List Char}
    (h : startsAssignment (dropOperator (trimStart cs)) = true) : IsEdge cs.head? := by
  refine isEdge_of_trimStart ?_
  cases hstart : trimStart cs with
  | nil => rfl
  | cons c rest =>
      rw [List.head?_cons, isEdge_some, Bool.eq_false_iff]
      intro hc
      have hmarks : ['.', '+', '-', '*', '/', '|', '&', '^', '<', '>', ':', '='].all
          (!isIdentChar ·) = true := by
        decide
      have hmark : ∀ d ∈ ['.', '+', '-', '*', '/', '|', '&', '^', '<', '>', ':', '='], c ≠ d := by
        rintro d hd rfl
        have hnot := List.all_eq_true.1 hmarks c hd
        simp [hc] at hnot
      have hcolon : c ≠ ':' := hmark ':' (by simp)
      have hequals : c ≠ '=' := hmark '=' (by simp)
      rw [hstart, dropOperator_of_not_mem fun hmem => hmark c (by simp at hmem ⊢; tauto) rfl,
        startsAssignment_eq] at h
      simp [after?, hcolon, hequals] at h

theorem stands_of_assignment? {line name : List Char} (h : assignment? line = some name) :
    Stands name line := by
  unfold assignment? at h
  split at h
  · cases h
  · rename_i name' rest htake
    split at h
    · rename_i hstarts
      cases h
      have hword := (stands_of_take? htake).2 (isEdge_of_startsAssignment hstarts)
      exact hword.of_behind (behind_trimStart line)
    · cases h

theorem stands_of_leadingName? {cs name : List Char} (h : leadingName? cs = some name) :
    Stands name cs := by
  unfold leadingName? at h
  dsimp only at h
  split at h
  · rename_i hstart
    cases h
    refine ⟨[], cs.dropWhile isIdentChar, List.takeWhile_append_dropWhile.symm, ?_,
      fun c hc => List.mem_takeWhile_imp hc, rfl, isEdge_head?_dropWhile cs⟩
    intro hnil
    rw [hnil] at hstart
    cases hstart
  · cases h

theorem stands_of_mem_scope? {line name : List Char} {names : List (List Char)}
    (h : scope? line = some names) (hname : name ∈ names) : Stands name line := by
  obtain ⟨items, hwords, rfl⟩ := Option.map_eq_some_iff.1 h
  obtain ⟨word, _, hword⟩ := List.exists_of_findSome?_eq_some hwords
  obtain ⟨item, hitem, hlead⟩ := List.mem_filterMap.1 hname
  have hstands := stands_of_mem_splitTop (stands_of_leadingName? hlead).of_trim hitem
  exact hstands.of_behind ((behind_of_afterKeyword? hword).trans (behind_trimStart line))

/-- Where the word `in` follows, no word goes on. -/
theorem isEdge_of_startsIn {cs : List Char} (h : startsIn cs = true) : IsEdge cs.head? := by
  unfold startsIn at h
  cases hblanks : afterBlanks? cs with
  | none => simp [hblanks] at h
  | some rest =>
      have hblank := (afterBlanks?_eq_some hblanks).2
      cases hhead : cs.head? with
      | none => rfl
      | some c =>
          rw [hhead] at hblank
          exact isIdentChar_of_isBlank hblank

theorem stands_of_takeLoopName {cs name rest : List Char}
    (h : takeBy? isLoopStart isLoopPart cs = some (name, rest)) :
    cs = name ++ rest ∧ (IsEdge rest.head? → Stands name cs) := by
  have hiota : isIdentChar '\u0345' = true := by decide
  refine stands_of_takeBy? ?_ ?_ h
  · intro c hc
    rcases Bool.or_eq_true_iff.1 hc with hc | hc
    · exact isIdentChar_of_isStart hc
    · rw [beq_iff_eq.1 hc, hiota]
  · intro c hc
    rcases Bool.or_eq_true_iff.1 hc with hc | hc
    · exact isIdentChar_of_isPart hc
    · rw [beq_iff_eq.1 hc, hiota]

theorem stands_of_mem_loop? {line name : List Char} {names : List (List Char)}
    (h : loop? line = some names) (hname : name ∈ names) : Stands name line := by
  have hcomma : isIdentChar ',' = false := by decide
  unfold loop? at h
  obtain ⟨cs, hfor, h⟩ := Option.bind_eq_some_iff.1 h
  obtain ⟨⟨first, rest⟩, hfirst, h⟩ := Option.bind_eq_some_iff.1 h
  have hline : Behind cs line := (behind_of_afterKeyword? hfor).trans (behind_trimStart line)
  obtain ⟨hcs, hstands⟩ := stands_of_takeLoopName hfirst
  dsimp only at h
  split at h
  · split at h
    · rename_i hin
      cases h
      cases List.mem_singleton.1 hname
      exact (hstands (isEdge_of_startsIn hin)).of_behind hline
    · cases h
  · rename_i after hafter
    obtain ⟨⟨second, rest'⟩, hsecond, h⟩ := Option.bind_eq_some_iff.1 h
    dsimp only at h
    split at h
    · rename_i hin
      cases h
      rcases List.mem_cons.1 hname with rfl | hname
      · exact (hstands (isEdge_of_trimStart (isEdge_of_after? hcomma hafter))).of_behind hline
      · cases List.mem_singleton.1 hname
        have hrest : Behind after cs := by
          rw [hcs]
          exact behind_of_after?_trimStart hcomma hafter first
        have hword := (stands_of_takeLoopName hsecond).2 (isEdge_of_startsIn hin)
        exact hword.of_behind ((behind_trimStart after).trans (hrest.trans hline))
    · cases h

theorem stands_of_mem_command? {line name : List Char} {names : List (List Char)}
    (h : command? line = some names) (hname : name ∈ names) : Stands name line := by
  unfold command? at h
  obtain ⟨⟨command, cs⟩, htake, h⟩ := Option.bind_eq_some_iff.1 h
  obtain ⟨args, hargs, h⟩ := Option.bind_eq_some_iff.1 h
  cases h
  obtain ⟨hmem, hisName⟩ := List.mem_filter.1 hname
  obtain ⟨item, hitem, rfl⟩ := List.mem_map.1 hmem
  have hrest : Behind args (trimStart line) := by
    rw [(stands_of_take? htake).1]
    exact behind_of_after?_trimStart (by decide) hargs command
  have hword := stands_of_mem_splitTop (stands_of_isName hisName).of_trim hitem
  exact hword.of_behind (hrest.trans (behind_trimStart line))

/-- Every name that code assigns is a word of it. -/
theorem stands_of_mem_assigned {line name : List Char} (h : name ∈ assigned line) :
    Stands name line := by
  unfold assigned at h
  cases hassign : assignment? line with
  | some found =>
      rw [hassign] at h
      cases List.mem_singleton.1 h
      exact stands_of_assignment? hassign
  | none =>
      rw [hassign] at h
      cases hscope : scope? line with
      | some names =>
          rw [hscope] at h
          exact stands_of_mem_scope? hscope h
      | none =>
          cases hloop : loop? line with
          | some names =>
              rw [hscope, hloop] at h
              exact stands_of_mem_loop? hloop h
          | none =>
              cases hcommand : command? line with
              | some names =>
                  rw [hscope, hloop, hcommand] at h
                  exact stands_of_mem_command? hcommand h
              | none =>
                  rw [hscope, hloop, hcommand] at h
                  cases h

/-! ## Headers -/

/-- The name in a header is a word of the line, and so is every word of the text behind the brace. -/
theorem stands_of_header? {line : List Char} {header : Header} (h : header? line = some header) :
    Stands header.name line ∧ ∀ body, header.body = some body → Behind body line := by
  have hmarks : ['(', ')', '{'].all (!isIdentChar ·) = true := by decide
  have hmark : ∀ mark ∈ ['(', ')', '{'], isIdentChar mark = false := by
    intro mark hmem
    simpa using List.all_eq_true.1 hmarks mark hmem
  unfold header? at h
  obtain ⟨⟨name, cs⟩, htake, h⟩ := Option.bind_eq_some_iff.1 h
  obtain ⟨inside, hopen, h⟩ := Option.bind_eq_some_iff.1 h
  obtain ⟨behind, hclose, h⟩ := Option.bind_eq_some_iff.1 h
  obtain ⟨body, hbody, h⟩ := Option.bind_eq_some_iff.1 h
  cases h
  have hstart : Behind ((afterKeyword? (· == ·) "static" (trimStart line)).getD (trimStart line))
      line := by
    cases hstatic : afterKeyword? (· == ·) "static" (trimStart line) with
    | none => exact behind_trimStart line
    | some rest => exact (behind_of_afterKeyword? hstatic).trans (behind_trimStart line)
  obtain ⟨hcs, hstands⟩ := stands_of_take? htake
  refine ⟨(hstands (isEdge_of_after? (hmark '(' (by simp)) hopen)).of_behind hstart, ?_⟩
  rintro body rfl
  have hinside : Behind inside line := by
    rw [hcs] at hstart
    exact (behind_of_after? (hmark '(' (by simp)) hopen name).trans hstart
  have hbehind : Behind behind inside := by
    have hrest := behind_of_after? (hmark ')' (by simp)) hclose (inside.takeWhile isNoParen)
    rw [List.takeWhile_append_dropWhile] at hrest
    exact hrest
  have hbrace : Behind body behind := by
    unfold bodyOf? at hbody
    split at hbody
    · cases hbody
    · rename_i c rest htrim
      split at hbody
      · rename_i hc
        cases hbody
        have hafter : after? '{' (trimStart behind) = some body := by
          rw [htrim, after?, if_pos hc]
        exact behind_of_after?_trimStart (hmark '{' (by simp)) hafter []
      · cases hbody
  exact hbrace.trans (hbehind.trans hinside)

end Statement
end ScriptSymbols
