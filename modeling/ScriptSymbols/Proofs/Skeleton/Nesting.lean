import Mathlib.Order.Bounds.Basic
import ScriptSymbols.Proofs.Outline.Block
import ScriptSymbols.Proofs.Skeleton.NormalForm

/-!
# Nesting of lines without literals

Blocks are told from the braces that are left when the object literals of a line are gone. A literal closes each
brace that it opens and none before it, so the depth behind it is the one before it, wherever the count is cut off
at zero.

1. `Skeleton.depthAfter_of_closes`: a text that closes some open braces brings the depth down by as many.
2. `Skeleton.depthAfter_dropLiteralsFrom`: the depth behind a line is the same with and without its literals.
3. `Skeleton.closing?` looks for the end of a literal with a count that must not fall below zero, and gives its
   place. `Skeleton.closing?_cons` is one step of it; `Skeleton.closing?_of_closes` and
   `Skeleton.closing?_of_none` compare it with `Skeleton.afterClose`.
4. `Skeleton.isLeast_evenAt`: this is the first place where as many braces are closed as opened.
-/

namespace ScriptSymbols

open Text

namespace Skeleton

/-! ## Depth -/

/-- On the way the depth does not fall below what it is in the end, so it makes no difference that it cannot fall
below zero. -/
theorem depthAfter_of_closes {opened : Nat} {cs : List Char} (h : Closes opened cs) (depth : Nat) :
    depthAfter (depth + opened) cs = depth := by
  induction cs generalizing opened with
  | nil =>
      obtain rfl := (closes_nil_iff opened).1 h
      rfl
  | cons c cs ih =>
      rw [closes_cons_iff] at h
      rw [depthAfter_cons, braceDepth]
      by_cases hopen : c = '{'
      · rw [if_pos hopen] at h ⊢
        exact ih h
      · rw [if_neg hopen] at h ⊢
        by_cases hclose : c = '}'
        · rw [if_pos hclose] at h ⊢
          rw [Nat.add_sub_assoc h.1]
          exact ih h.2
        · rw [if_neg hclose] at h ⊢
          exact ih h

theorem depthAfter_literal {cs rest : List Char} (h : afterClose 1 cs = some rest) (depth : Nat) :
    depthAfter depth ('{' :: cs) = depthAfter depth rest := by
  obtain ⟨inside, rfl, hcloses⟩ := (afterClose_eq_some_iff 0 cs rest).1 h
  have hinside : depthAfter (depth + 1) inside = depth + 1 := depthAfter_of_closes hcloses (depth + 1)
  calc
    depthAfter depth ('{' :: (inside ++ '}' :: rest))
        = depthAfter (depthAfter (depth + 1) inside) ('}' :: rest) := by
          rw [depthAfter_cons, depthAfter_append]
          rfl
    _ = depthAfter depth rest := by
          rw [hinside, depthAfter_cons]
          rfl

/-- Whether a brace starts a literal depends on what is left before it, but any literal that is removed leaves the
depth as it is. -/
theorem depthAfter_dropLiteralsFrom (before cs : List Char) (depth : Nat) :
    depthAfter depth (dropLiteralsFrom before cs) = depthAfter depth cs := by
  fun_induction dropLiteralsFrom before cs generalizing depth with
  | case1 => rfl
  | case2 before c cs hvalue rest hclose ih => rw [ih, hvalue.1, depthAfter_literal hclose]
  | case3 before c cs _ _ ih => rw [depthAfter_cons, ih, depthAfter_cons]
  | case4 before c cs _ ih => rw [depthAfter_cons, ih, depthAfter_cons]

/-! ## The end of a literal -/

/-- The number of open braces behind a character, or none if it would fall below zero. -/
def openBehind? (opened : Nat) (c : Char) : Option Nat :=
  if c = '{' then some (opened + 1)
  else if c = '}' then if opened = 0 then none else some (opened - 1)
  else some opened

/-- The place of the brace that closes the last open one, if there is one, in a text that starts at place `i`
behind `opened` open braces. There is no answer at all if the number of open braces would fall below zero. -/
def closing? (opened i : Nat) : List Char → Option (Option Nat)
  | [] => some none
  | c :: cs =>
    match openBehind? opened c with
    | none => none
    | some left => if c = '}' ∧ left = 0 then some (some i) else closing? left (i + 1) cs

/-- While a brace is open no character makes the count fall below zero, and the one that brings it to zero is the
end. -/
theorem closing?_cons (opened i : Nat) (c : Char) (cs : List Char) :
    closing? (opened + 1) i (c :: cs) =
      if c = '{' then closing? (opened + 2) (i + 1) cs
      else if c = '}' then if opened = 0 then some (some i) else closing? opened (i + 1) cs
      else closing? (opened + 1) (i + 1) cs := by
  rw [closing?, openBehind?]
  by_cases hopen : c = '{'
  · simp [hopen]
  · by_cases hclose : c = '}'
    · simp [hclose]
    · simp [hopen, hclose]

theorem closing?_of_closes {opened : Nat} {inside : List Char} (h : Closes opened inside) (i : Nat)
    (rest : List Char) :
    closing? (opened + 1) i (inside ++ '}' :: rest) = some (some (i + inside.length)) := by
  induction inside generalizing opened i with
  | nil =>
      obtain rfl := (closes_nil_iff opened).1 h
      rfl
  | cons c inside ih =>
      have hplace : i + (c :: inside).length = i + 1 + inside.length := by
        rw [List.length_cons]
        omega
      rw [closes_cons_iff] at h
      rw [List.cons_append, closing?_cons, hplace]
      by_cases hopen : c = '{'
      · rw [if_pos hopen] at h ⊢
        exact ih h (i + 1)
      · rw [if_neg hopen] at h ⊢
        by_cases hclose : c = '}'
        · rw [if_pos hclose] at h ⊢
          -- There are braces open besides the last one, of which this character closes one.
          obtain ⟨hpos, h⟩ := h
          obtain ⟨opened, rfl⟩ := Nat.exists_eq_succ_of_ne_zero (Nat.pos_iff_ne_zero.1 hpos)
          exact ih h (i + 1)
        · rw [if_neg hclose] at h ⊢
          exact ih h (i + 1)

theorem closing?_of_none {opened : Nat} {cs : List Char} (h : afterClose (opened + 1) cs = none) (i : Nat) :
    closing? (opened + 1) i cs = some none := by
  induction cs generalizing opened i with
  | nil => rfl
  | cons c cs ih =>
      rw [afterClose] at h
      rw [closing?_cons]
      by_cases hopen : c = '{'
      · rw [if_pos hopen] at h ⊢
        exact ih h (i + 1)
      · rw [if_neg hopen] at h ⊢
        by_cases hclose : c = '}'
        · rw [if_pos hclose] at h ⊢
          cases opened with
          | zero => cases h
          | succ opened => exact ih (by simpa using h) (i + 1)
        · rw [if_neg hclose] at h ⊢
          exact ih h (i + 1)

/-- While the end is not found, fewer braces are closed than were open before the text and in it. -/
theorem lt_of_afterClose_eq_none {opened : Nat} {cs part : List Char} (h : afterClose (opened + 1) cs = none)
    (hpart : part <+: cs) : part.count '}' < part.count '{' + (opened + 1) := by
  induction cs generalizing opened part with
  | nil =>
      obtain rfl := List.prefix_nil.1 hpart
      simp
  | cons c cs ih =>
      rcases List.prefix_cons_iff.1 hpart with rfl | ⟨part, rfl, hfront⟩
      · simp
      · rw [afterClose] at h
        by_cases hopen : c = '{'
        · subst hopen
          have hlt := ih h hfront
          rw [List.count_cons_of_ne (by decide), List.count_cons_self]
          omega
        · rw [if_neg hopen] at h
          rw [List.count_cons_of_ne hopen]
          by_cases hclose : c = '}'
          · subst hclose
            rw [List.count_cons_self]
            cases opened with
            | zero => cases h
            | succ opened =>
                have hlt := ih (by simpa using h) hfront
                omega
          · rw [if_neg hclose] at h
            rw [List.count_cons_of_ne hclose]
            exact ih h hfront

/-- Whether a line has as many closing as opening braces from one of its places to another, both included. -/
def EvenAt (line : List Char) (start i : Nat) : Prop :=
  start ≤ i ∧ i < line.length ∧
    let part := (line.drop start).take (i + 1 - start)
    part.count '{' = part.count '}'

theorem evenAt_add_iff {line behind : List Char} {start : Nat} (h : line.drop start = '{' :: behind) (n : Nat) :
    EvenAt line start (start + n) ↔
      n ≤ behind.length ∧ (behind.take n).count '{' + 1 = (behind.take n).count '}' := by
  have hlength : line.length - start = behind.length + 1 := by
    rw [← List.length_drop, h, List.length_cons]
  have hcount : start + n + 1 - start = n + 1 := by omega
  rw [EvenAt, h, hcount, List.take_succ_cons]
  dsimp only
  rw [List.count_cons_self, List.count_cons_of_ne (by decide)]
  refine ⟨fun heven => ⟨by omega, heven.2.2⟩, fun heven => ⟨by omega, by omega, heven.2⟩⟩

/-- The brace that closes a literal is the first one at which its braces are even. -/
theorem isLeast_evenAt {line inside rest : List Char} {start : Nat}
    (h : line.drop start = '{' :: (inside ++ '}' :: rest)) (hcloses : Closes 0 inside) :
    IsLeast {i | EvenAt line start i} (start + 1 + inside.length) := by
  have hplace : start + 1 + inside.length = start + (inside.length + 1) := by omega
  have hend : (inside ++ '}' :: rest).take (inside.length + 1) = inside ++ ['}'] := by
    rw [List.take_length_add_append]
    rfl
  constructor
  · have heven : EvenAt line start (start + (inside.length + 1)) := by
      have hsame := hcloses.1
      have hlast : ['}'].count '{' = 0 ∧ ['}'].count '}' = 1 := by decide
      rw [evenAt_add_iff h, hend, List.count_append, List.count_append]
      exact ⟨by simp, by omega⟩
    rw [hplace]
    exact heven
  · intro i heven
    obtain ⟨n, rfl⟩ := Nat.exists_eq_add_of_le (show EvenAt line start i from heven).1
    have hsame := ((evenAt_add_iff h n).1 heven).2
    rw [hplace]
    -- Before its end each front of the literal has an open brace left.
    by_contra hlt
    have hshort : n ≤ inside.length := by omega
    rw [List.take_append_of_le_length hshort] at hsame
    have hfront := hcloses.2 _ (List.take_prefix n inside)
    omega

theorem not_evenAt_of_none {line behind : List Char} {start : Nat} (h : line.drop start = '{' :: behind)
    (hnone : afterClose 1 behind = none) (i : Nat) : ¬ EvenAt line start i := by
  intro heven
  obtain ⟨n, rfl⟩ := Nat.exists_eq_add_of_le heven.1
  have hlt := lt_of_afterClose_eq_none hnone (List.take_prefix n behind)
  have hsame := ((evenAt_add_iff h n).1 heven).2
  omega

/-- From a brace on, the end of a literal is found at the first place with even braces, or there is no such
place. -/
theorem closing?_cases {line behind : List Char} {start : Nat} (h : line.drop start = '{' :: behind) :
    (closing? 0 start (line.drop start) = some none ∧ afterClose 1 behind = none ∧
        ∀ i, ¬ EvenAt line start i) ∨
      ∃ i, closing? 0 start (line.drop start) = some (some i) ∧
        afterClose 1 behind = some (line.drop (i + 1)) ∧ IsLeast {j | EvenAt line start j} i := by
  have hfirst : closing? 0 start (line.drop start) = closing? 1 (start + 1) behind := by
    rw [h]
    rfl
  cases hclose : afterClose 1 behind with
  | none => exact Or.inl ⟨by rw [hfirst, closing?_of_none hclose], rfl, not_evenAt_of_none h hclose⟩
  | some rest =>
      obtain ⟨inside, rfl, hcloses⟩ := (afterClose_eq_some_iff 0 behind rest).1 hclose
      have hrest : rest = line.drop (start + 1 + inside.length + 1) := by
        have hsum : start + 1 + inside.length + 1 = start + (inside.length + 2) := by omega
        rw [hsum, ← List.drop_drop, h]
        simp
      refine Or.inr ⟨start + 1 + inside.length, ?_, congrArg some hrest, isLeast_evenAt h hcloses⟩
      rw [hfirst, closing?_of_closes hcloses]

/-- Removing the literals of a line leaves the nesting of blocks as it is: from every depth on, the line ends at
the same depth as without them, and so does an outline. The end of a literal is looked for from an opening brace
on. The count of open braces never falls below zero there, and the end is the first place at which as many braces
are closed as opened, if there is any. -/
theorem literals_keep_nesting (code : List Char) :
    (∀ depth, depthAfter depth (dropLiterals code) = depthAfter depth code) ∧
      (∀ (n : Nat) (o : Outline),
        ((dropLiterals code).foldl (Outline.addChar n) o).depth = (code.foldl (Outline.addChar n) o).depth) ∧
      ∀ start, code[start]? = some '{' →
        ∃ found, closing? 0 start (code.drop start) = some found ∧
          afterClose 1 (code.drop (start + 1)) = found.map (fun i => code.drop (i + 1)) ∧
          (∀ i, found = some i ↔ IsLeast {j | EvenAt code start j} i) ∧
          (found = none ↔ ∀ i, ¬ EvenAt code start i) := by
  have hdepth : ∀ depth, depthAfter depth (dropLiterals code) = depthAfter depth code :=
    depthAfter_dropLiteralsFrom [] code
  refine ⟨hdepth, fun n o => ?_, fun start hstart => ?_⟩
  · rw [Outline.depth_foldl_addChar, Outline.depth_foldl_addChar, hdepth]
  · obtain ⟨hlt, hbrace⟩ := List.getElem?_eq_some_iff.1 hstart
    have hdrop : code.drop start = '{' :: code.drop (start + 1) := by
      rw [List.drop_eq_getElem_cons hlt, hbrace]
    rcases closing?_cases hdrop with ⟨hscan, hclose, hnone⟩ | ⟨i, hscan, hclose, hleast⟩
    · refine ⟨none, hscan, hclose, fun i => ?_, by simp [hnone]⟩
      simp only [reduceCtorEq, false_iff]
      exact fun hleast => hnone i hleast.1
    · refine ⟨some i, hscan, hclose, fun j => ?_, ?_⟩
      · rw [Option.some.injEq]
        exact ⟨fun hij => hij ▸ hleast, fun hj => hleast.unique hj⟩
      · simp only [reduceCtorEq, false_iff]
        exact fun hnone => hnone i hleast.1

/-- A literal with literals in it, behind a brace that closes nothing and before one that stays open. -/
theorem literals_keep_nesting_around_literal :
    let code := "\x7d o := \x7ba: \x7b\x7d, b: f(\x7b\x7d)\x7d \x7b".toList
    code[7]? = some '{' ∧ afterClose 1 (code.drop 8) = some " \x7b".toList ∧
      IsLeast {i | EvenAt code 7 i} 23 ∧ depthAfter 0 (dropLiterals code) = 1 := by
  intro code
  have hstart : code[7]? = some '{' := by decide
  obtain ⟨hdepth, -, hends⟩ := literals_keep_nesting code
  obtain ⟨found, hscan, hclose, hleast, -⟩ := hends 7 hstart
  have hfound : found = some 23 := by
    have hplace : closing? 0 7 (code.drop 7) = some (some 23) := by decide
    exact Option.some.inj (hscan.symm.trans hplace)
  subst hfound
  exact ⟨hstart, hclose, (hleast 23).1 rfl, (hdepth 0).trans (by decide)⟩

end Skeleton
end ScriptSymbols
