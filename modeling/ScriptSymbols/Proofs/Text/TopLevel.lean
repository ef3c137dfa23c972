import ScriptSymbols.Text.Split

/-!
# Parts between top-level commas

A text is cut at the commas that stand in no bracket. The depth at a comma depends on all brackets before it,
also those that nothing opens or closes. But it is zero at every cut, so each part can be judged alone.

1. `Text.bracketsAfter` is the depth behind a text, and `Text.NoTopComma` says that a text has no comma at
   depth zero.
2. `Text.noTopComma_or_exists` finds the first comma at depth zero.
3. `Text.splitTopFrom_of_noTopComma` and `Text.splitTopFrom_append`: the first part ends there, and what is
   behind it is cut from depth zero again.
4. `Text.split_is_at_top_commas`: so the parts are the only ones that can be told apart by their own brackets.
-/

namespace ScriptSymbols
namespace Text

/-- The depth behind a text. -/
def bracketsAfter (depth : Nat) (text : List Char) : Nat :=
  text.foldl bracketDepth depth

/-- Whether a text that starts at a depth has no comma at depth zero. -/
def NoTopComma (depth : Nat) (text : List Char) : Prop :=
  ∀ front back, text = front ++ ',' :: back → bracketsAfter depth front ≠ 0

@[simp]
theorem bracketsAfter_nil (depth : Nat) : bracketsAfter depth [] = depth := rfl

@[simp]
theorem bracketsAfter_cons (depth : Nat) (c : Char) (text : List Char) :
    bracketsAfter depth (c :: text) = bracketsAfter (bracketDepth depth c) text := rfl

theorem noTopComma_nil (depth : Nat) : NoTopComma depth [] := by
  intro front back htext
  simp at htext

theorem noTopComma_cons_iff (depth : Nat) (c : Char) (text : List Char) :
    NoTopComma depth (c :: text) ↔ ¬ (c = ',' ∧ depth = 0) ∧ NoTopComma (bracketDepth depth c) text := by
  constructor
  · intro h
    refine ⟨?_, fun front back htext => h (c :: front) back (by rw [htext]; rfl)⟩
    rintro ⟨rfl, hdepth⟩
    exact h [] text rfl hdepth
  · rintro ⟨hc, htext⟩ front back heq hdepth
    cases front with
    | nil =>
        cases heq
        exact hc ⟨rfl, hdepth⟩
    | cons d front =>
        cases heq
        exact htext front back rfl hdepth

/-- A text has no comma at depth zero, or there is a first one. -/
theorem noTopComma_or_exists (depth : Nat) (text : List Char) :
    NoTopComma depth text ∨ ∃ part rest, text = part ++ ',' :: rest ∧ NoTopComma depth part ∧
      bracketsAfter depth part = 0 := by
  induction text generalizing depth with
  | nil => exact Or.inl (noTopComma_nil depth)
  | cons c text ih =>
      by_cases hc : c = ',' ∧ depth = 0
      · obtain ⟨rfl, rfl⟩ := hc
        exact Or.inr ⟨[], text, rfl, noTopComma_nil 0, rfl⟩
      · rcases ih (bracketDepth depth c) with hnone | ⟨part, rest, rfl, hpart, hdepth⟩
        · exact Or.inl ((noTopComma_cons_iff depth c text).2 ⟨hc, hnone⟩)
        · exact Or.inr ⟨c :: part, rest, rfl, (noTopComma_cons_iff depth c part).2 ⟨hc, hpart⟩, hdepth⟩

theorem splitTopFrom_of_noTopComma {depth : Nat} {text : List Char} (h : NoTopComma depth text) :
    splitTopFrom depth text = [text] := by
  induction text generalizing depth with
  | nil => rfl
  | cons c text ih =>
      obtain ⟨hc, htext⟩ := (noTopComma_cons_iff depth c text).1 h
      rw [splitTopFrom, if_neg hc, ih htext, consHead]

/-- The first part ends at the first comma at depth zero, behind which the cutting starts anew. -/
theorem splitTopFrom_append {depth : Nat} {part : List Char} (h : NoTopComma depth part)
    (hdepth : bracketsAfter depth part = 0) (rest : List Char) :
    splitTopFrom depth (part ++ ',' :: rest) = part :: splitTop rest := by
  induction part generalizing depth with
  | nil =>
      obtain rfl : depth = 0 := hdepth
      rw [List.nil_append, splitTopFrom, if_pos ⟨rfl, rfl⟩, splitTop]
  | cons c part ih =>
      obtain ⟨hc, hpart⟩ := (noTopComma_cons_iff depth c part).1 h
      rw [List.cons_append, splitTopFrom, if_neg hc, ih hpart hdepth, consHead]

/-- Whether some parts make up a text, with a comma between neighbours, and can be told apart by their own
brackets: none has a comma at depth zero, and all but the last end at depth zero. -/
structure IsTopSplit (text : List Char) (parts : List (List Char)) : Prop where
  ne_nil : parts ≠ []
  joined : join [','] parts = text
  uncut : ∀ part ∈ parts, NoTopComma 0 part
  closed : ∀ part ∈ parts.dropLast, bracketsAfter 0 part = 0

theorem join_cons {sep : List Char} {parts : List (List Char)} (hne : parts ≠ []) (part : List Char) :
    join sep (part :: parts) = part ++ (sep ++ join sep parts) := by
  cases parts with
  | nil => exact absurd rfl hne
  | cons next parts => rfl

theorem isTopSplit_singleton {text : List Char} (h : NoTopComma 0 text) : IsTopSplit text [text] where
  ne_nil := by simp
  joined := rfl
  uncut := by simpa using h
  closed := by simp

theorem IsTopSplit.cons {part rest : List Char} {parts : List (List Char)} (h : IsTopSplit rest parts)
    (hpart : NoTopComma 0 part) (hdepth : bracketsAfter 0 part = 0) :
    IsTopSplit (part ++ ',' :: rest) (part :: parts) where
  ne_nil := by simp
  joined := by
    rw [join_cons h.ne_nil, h.joined]
    rfl
  uncut := List.forall_mem_cons.2 ⟨hpart, h.uncut⟩
  closed := by
    rw [List.dropLast_cons_of_ne_nil h.ne_nil]
    exact List.forall_mem_cons.2 ⟨hdepth, h.closed⟩

theorem exists_isTopSplit (text : List Char) : ∃ parts, IsTopSplit text parts := by
  rcases noTopComma_or_exists 0 text with hnone | ⟨part, rest, htext, hpart, hdepth⟩
  · exact ⟨[text], isTopSplit_singleton hnone⟩
  · obtain ⟨parts, hparts⟩ := exists_isTopSplit rest
    rw [htext]
    exact ⟨part :: parts, hparts.cons hpart hdepth⟩
termination_by text.length
decreasing_by
  rw [htext, List.length_append, List.length_cons]
  omega

theorem IsTopSplit.eq_splitTop {text : List Char} {parts : List (List Char)} (h : IsTopSplit text parts) :
    parts = splitTop text := by
  obtain ⟨hne, rfl, huncut, hclosed⟩ := h
  -- The induction is on the parts: each starts at depth zero, as all parts before it are closed.
  induction parts with
  | nil => exact absurd rfl hne
  | cons part parts ih =>
      obtain ⟨hpart, huncut⟩ := List.forall_mem_cons.1 huncut
      by_cases hlast : parts = []
      · subst hlast
        exact (splitTopFrom_of_noTopComma hpart).symm
      · rw [List.dropLast_cons_of_ne_nil hlast] at hclosed
        obtain ⟨hdepth, hclosed⟩ := List.forall_mem_cons.1 hclosed
        rw [join_cons hlast, List.singleton_append, splitTop, splitTopFrom_append hpart hdepth,
          ← ih hlast huncut hclosed]

/-- The parts of a text between its top-level commas give the text back when they are joined, no part has a
comma outside its own brackets, and all but the last have closed all their brackets. No other list of parts has
these properties, apart from the empty one, which joins to the empty text as well. -/
theorem split_is_at_top_commas (text : List Char) (parts : List (List Char)) :
    parts = splitTop text ↔
      parts ≠ [] ∧ join [','] parts = text ∧ (∀ part ∈ parts, NoTopComma 0 part) ∧
        ∀ part ∈ parts.dropLast, bracketsAfter 0 part = 0 := by
  constructor
  · rintro rfl
    obtain ⟨parts, hsplit⟩ := exists_isTopSplit text
    rw [← hsplit.eq_splitTop]
    exact ⟨hsplit.ne_nil, hsplit.joined, hsplit.uncut, hsplit.closed⟩
  · rintro ⟨hne, hjoined, huncut, hclosed⟩
    exact IsTopSplit.eq_splitTop ⟨hne, hjoined, huncut, hclosed⟩

-- A bracket that nothing opens does not count, one that is never closed hides all commas behind it, and any
-- bracket closes any other.
example : splitTop "é),(a,b],ü[,c".toList = ["é)".toList, "(a,b]".toList, "ü[,c".toList] := by decide

end Text
end ScriptSymbols
