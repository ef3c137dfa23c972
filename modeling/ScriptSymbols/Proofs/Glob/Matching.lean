import ScriptSymbols.Walk

/-!
# What glob patterns match

A star is tried at every place of the text, from the first to the last, and all attempts end as soon as one of them
comes to the end of the text before the end of the pattern. No match is lost by this: the text behind a later place
is shorter still.

1. `Glob.Stands` says which texts the tokens of a pattern stand for, where no token is a pair of stars.
2. `Glob.exists_attempt`: an attempt at all places ends as the attempt at one of them, and those before it failed.
3. `Glob.isMatch_iff_stands`: the matcher finds exactly the texts that the tokens stand for.
4. `Glob.compile_below`, `Glob.compile_ending` and `Glob.compile_star` read the three simple forms of patterns, and
   `PathFilter.simple_globs_select_at_every_depth` says which paths filters made of them select.
-/

namespace ScriptSymbols
namespace Glob

/-! ## Texts that tokens stand for -/

/-- Whether tokens stand for a text as a whole: a star for any sequence, and each other token for one character
that it holds. A pair of stars is left out. -/
inductive Stands : List Token → List Char → Prop
  | done : Stands [] []
  | one {t : Token} {c : Char} {ts : List Token} {cs : List Char} :
      t.holds c = true → Stands ts cs → Stands (t :: ts) (c :: cs)
  | sequence {ts : List Token} {cs : List Char} (front : List Char) :
      Stands ts cs → Stands (.anySequence :: ts) (front ++ cs)

theorem stands_nil_iff {cs : List Char} : Stands [] cs ↔ cs = [] := by
  constructor
  · rintro ⟨⟩
    rfl
  · rintro rfl
    exact .done

theorem stands_anySequence_iff {ts : List Token} {cs : List Char} :
    Stands (.anySequence :: ts) cs ↔ ∃ rest, rest <:+ cs ∧ Stands ts rest := by
  constructor
  · intro h
    cases h with
    | one hholds => cases hholds
    | sequence front h => exact ⟨_, List.suffix_append front _, h⟩
  · rintro ⟨rest, ⟨front, rfl⟩, h⟩
    exact .sequence front h

/-- Behind a star anything is matched. -/
theorem stands_anySequence_nil (cs : List Char) : Stands [.anySequence] cs :=
  stands_anySequence_iff.2 ⟨[], List.nil_suffix, .done⟩

theorem exists_of_stands_cons {t : Token} (ht : t ≠ .anySequence) {ts : List Token} {cs : List Char}
    (h : Stands (t :: ts) cs) : ∃ c rest, cs = c :: rest ∧ t.holds c = true ∧ Stands ts rest := by
  cases h with
  | one hholds h => exact ⟨_, _, rfl, hholds, h⟩
  | sequence => exact absurd rfl ht

/-- Characters without a special meaning stand for themselves. -/
theorem stands_chars_append_iff {literal cs : List Char} {ts : List Token} :
    Stands (literal.map .char ++ ts) cs ↔ ∃ rest, cs = literal ++ rest ∧ Stands ts rest := by
  induction literal generalizing cs with
  | nil => simp
  | cons c literal ih =>
      rw [List.map_cons, List.cons_append]
      constructor
      · intro h
        obtain ⟨d, tail, rfl, hholds, htail⟩ := exists_of_stands_cons (by simp) h
        obtain ⟨rest, rfl, hrest⟩ := ih.1 htail
        obtain rfl : d = c := by simpa [Token.holds] using hholds
        exact ⟨rest, rfl, hrest⟩
      · rintro ⟨rest, rfl, h⟩
        exact .one (by simp [Token.holds]) (ih.2 ⟨rest, rfl, h⟩)

theorem stands_chars_iff {literal cs : List Char} : Stands (literal.map .char) cs ↔ cs = literal := by
  have hiff := @stands_chars_append_iff literal cs []
  simpa [stands_nil_iff] using hiff

/-! ## The matcher -/

/-- An attempt at a text and all its ends comes out as the attempt at one of them; at all longer ends it failed,
and if it failed there as well, that end is the empty one. -/
theorem exists_attempt (next : List Char → Outcome) (cs : List Char) :
    ∃ s, s <:+ cs ∧ ((next cs).orElse fun _ => matchTails (fun _ => true) next cs) = next s ∧
      (next s = .failed → s = []) ∧ ∀ other, other <:+ cs → other <:+ s ∨ next other = .failed := by
  induction cs with
  | nil =>
      refine ⟨[], List.suffix_refl [], ?_, fun _ => rfl, fun other hother => Or.inl hother⟩
      rw [matchTails]
      cases next [] with
      | _ => rfl
  | cons c cs ih =>
      -- The first attempt that does not fail decides, and only a failure leads on to the next place.
      by_cases hfirst : next (c :: cs) = .failed
      · obtain ⟨s, hs, hsame, hfailed, hother⟩ := ih
        refine ⟨s, hs.trans (List.suffix_cons c cs), ?_, hfailed, ?_⟩
        · rw [hfirst, ← hsame]
          rfl
        · intro other hends
          rcases List.suffix_cons_iff.1 hends with rfl | hends
          · exact Or.inr hfirst
          · exact hother other hends
      · refine ⟨c :: cs, List.suffix_refl _, ?_, fun h => absurd h hfirst, fun other hends => Or.inl hends⟩
        cases hresult : next (c :: cs) with
        | failed => exact absurd hresult hfirst
        | matched => rfl
        | exhausted => rfl

theorem matchTokens_cons {t : Token} (hsequence : t ≠ .anySequence) (hdirectories : t ≠ .anyDirectories)
    (ts : List Token) :
    matchTokens (t :: ts) [] = .exhausted ∧
      ∀ c cs, matchTokens (t :: ts) (c :: cs) = if t.holds c then matchTokens ts cs else .failed := by
  cases t with
  | anySequence => exact absurd rfl hsequence
  | anyDirectories => exact absurd rfl hdirectories
  | _ => exact ⟨rfl, fun _ _ => rfl⟩

/-- Whether the matcher is right about tokens on every text. Where a text ends before the tokens, none of its ends is
matched either; this is what allows a star before the tokens to give up. -/
structure IsExact (ts : List Token) : Prop where
  matched_iff : ∀ cs, matchTokens ts cs = .matched ↔ Stands ts cs
  not_stands_of_exhausted : ∀ cs, matchTokens ts cs = .exhausted → ∀ s, s <:+ cs → ¬ Stands ts s

theorem isExact_nil : IsExact [] where
  matched_iff cs := by
    rw [matchTokens, stands_nil_iff]
    cases cs with
    | nil => simp
    | cons c cs => simp
  not_stands_of_exhausted cs h := by
    rw [matchTokens] at h
    split at h
    · cases h
    · cases h

/-- One more character of the pattern takes one more of the text. -/
theorem IsExact.one {ts : List Token} (h : IsExact ts) {t : Token} (hsequence : t ≠ .anySequence)
    (hdirectories : t ≠ .anyDirectories) : IsExact (t :: ts) where
  matched_iff cs := by
    obtain ⟨hend, hcons⟩ := matchTokens_cons hsequence hdirectories ts
    constructor
    · intro hresult
      cases cs with
      | nil =>
          rw [hend] at hresult
          cases hresult
      | cons c cs =>
          rw [hcons] at hresult
          split at hresult
          · rename_i hholds
            exact .one hholds ((h.matched_iff cs).1 hresult)
          · cases hresult
    · intro hstands
      obtain ⟨c, rest, rfl, hholds, hrest⟩ := exists_of_stands_cons hsequence hstands
      rw [hcons, if_pos hholds]
      exact (h.matched_iff rest).2 hrest
  not_stands_of_exhausted cs hresult s hs hstands := by
    obtain ⟨-, hcons⟩ := matchTokens_cons hsequence hdirectories ts
    obtain ⟨d, rest, rfl, -, hrest⟩ := exists_of_stands_cons hsequence hstands
    cases cs with
    | nil => cases List.suffix_nil.1 hs
    | cons c cs =>
        have hends : rest <:+ cs := by
          rcases List.suffix_cons_iff.1 hs with heq | hends
          · cases heq
            exact List.suffix_refl _
          · exact (List.suffix_cons d rest).trans hends
        rw [hcons] at hresult
        split at hresult
        · exact h.not_stands_of_exhausted cs hresult rest hends hrest
        · cases hresult

/-- A star tries the rest of the pattern at all ends of the text that can still match. -/
theorem IsExact.anySequence {ts : List Token} (h : IsExact ts) : IsExact (.anySequence :: ts) := by
  -- Where no attempt was a match, the rest of the pattern stands for no end of the text: the attempts did not
  -- fail at such an end, and they did not run out of text before it.
  have hattempt : ∀ cs, ∃ s, s <:+ cs ∧ matchTokens (.anySequence :: ts) cs = matchTokens ts s ∧
      (matchTokens ts s ≠ .matched → ∀ u, u <:+ cs → ¬ Stands ts u) := by
    intro cs
    obtain ⟨s, hs, hsame, hfailed, hother⟩ := exists_attempt (matchTokens ts) cs
    refine ⟨s, hs, hsame, fun hresult u hu hstands => ?_⟩
    have hmatched := (h.matched_iff u).2 hstands
    rcases hother u hu with hus | hfail
    · cases hs' : matchTokens ts s with
      | matched => exact hresult hs'
      | exhausted => exact h.not_stands_of_exhausted s hs' u hus hstands
      | failed =>
          rw [hfailed hs'] at hus hs'
          rw [List.suffix_nil.1 hus, hs'] at hmatched
          cases hmatched
    · rw [hmatched] at hfail
      cases hfail
  constructor
  · intro cs
    obtain ⟨s, hs, hsame, hnone⟩ := hattempt cs
    rw [hsame, stands_anySequence_iff]
    constructor
    · exact fun hresult => ⟨s, hs, (h.matched_iff s).1 hresult⟩
    · rintro ⟨rest, hrest, hstands⟩
      exact Decidable.byContradiction fun hresult => hnone hresult rest hrest hstands
  · intro cs hresult u hu hstands
    obtain ⟨s, -, hsame, hnone⟩ := hattempt cs
    obtain ⟨rest, hrest, hstands⟩ := stands_anySequence_iff.1 hstands
    rw [hsame] at hresult
    exact hnone (by simp [hresult]) rest (hrest.trans hu) hstands

theorem isExact_of_not_mem {ts : List Token} (hts : Token.anyDirectories ∉ ts) : IsExact ts := by
  induction ts with
  | nil => exact isExact_nil
  | cons t ts ih =>
      obtain ⟨hdirectories, hts⟩ := List.ne_and_not_mem_of_not_mem_cons hts
      by_cases hsequence : t = .anySequence
      · rw [hsequence]
        exact (ih hts).anySequence
      · exact (ih hts).one hsequence hdirectories.symm

/-- The matcher finds exactly the texts that the tokens stand for. -/
theorem isMatch_iff_stands {ts : List Token} (hts : Token.anyDirectories ∉ ts) (cs : List Char) :
    isMatch ts cs = true ↔ Stands ts cs := by
  rw [isMatch, beq_iff_eq]
  exact (isExact_of_not_mem hts).matched_iff cs

/-! ## Simple patterns -/

/-- Whether a text has no character with a special meaning in patterns. -/
def IsLiteral (text : List Char) : Prop :=
  '*' ∉ text ∧ '?' ∉ text ∧ '[' ∉ text

theorem compileFrom_literal_append {literal : List Char} (h : IsLiteral literal) (position : Nat)
    (prev : Option Char) (read : List Token) (rest : List Char) :
    compileFrom position prev read (literal ++ rest) =
      compileFrom (position + literal.length) (literal.getLast?.or prev)
        ((literal.map .char).reverse ++ read) rest := by
  induction literal generalizing position prev read with
  | nil => rfl
  | cons c literal ih =>
      obtain ⟨hstar, hmark, hset⟩ := h
      obtain ⟨hcstar, hstar⟩ := List.ne_and_not_mem_of_not_mem_cons hstar
      obtain ⟨hcmark, hmark⟩ := List.ne_and_not_mem_of_not_mem_cons hmark
      obtain ⟨hcset, hset⟩ := List.ne_and_not_mem_of_not_mem_cons hset
      have hlast : literal.getLast?.or (some c) = (c :: literal).getLast?.or prev := by
        rw [List.getLast?_cons]
        cases literal.getLast? with
        | none => rfl
        | some d => rfl
      rw [List.cons_append, compileFrom, if_neg hcmark.symm, if_neg hcstar.symm, if_neg hcset.symm,
        ih ⟨hstar, hmark, hset⟩, hlast]
      simp [Nat.add_assoc, Nat.add_comm 1]

theorem compileFrom_star {rest : List Char} (h : rest.head? ≠ some '*') (position : Nat)
    (prev : Option Char) (read : List Token) :
    compileFrom position prev read ('*' :: rest) =
      compileFrom (position + 1) (some '*') (.anySequence :: read) rest := by
  have hrun : rest.takeWhile (· == '*') = [] := by
    cases rest with
    | nil => rfl
    | cons c rest => exact List.takeWhile_cons_of_neg (by simpa using h)
  rw [compileFrom, if_neg (by decide), if_pos rfl]
  simp only [hrun]
  rfl

theorem compileFrom_nil (position : Nat) (prev : Option Char) (read : List Token) :
    compileFrom position prev read [] = .ok read.reverse := by
  rw [compileFrom]

theorem compile_star : compile "*" = .ok [.anySequence] := by
  rw [compile, show "*".toList = ['*'] from rfl, compileFrom_star (by simp), compileFrom_nil]
  rfl

theorem compile_below {d : String} (h : IsLiteral d.toList) :
    compile (d ++ "/*") = .ok ((d ++ "/").toList.map .char ++ [.anySequence]) := by
  have hfront : IsLiteral (d ++ "/").toList := by
    obtain ⟨hstar, hmark, hset⟩ := h
    rw [String.toList_append]
    exact ⟨List.not_mem_append hstar (by decide), List.not_mem_append hmark (by decide),
      List.not_mem_append hset (by decide)⟩
  have htext : (d ++ "/*").toList = (d ++ "/").toList ++ ['*'] := by
    simp
  rw [compile, htext, compileFrom_literal_append hfront, compileFrom_star (by simp), compileFrom_nil]
  simp

theorem compile_ending {x : String} (h : IsLiteral x.toList) :
    compile ("*." ++ x) = .ok (.anySequence :: ("." ++ x).toList.map .char) := by
  have hback : IsLiteral ("." ++ x).toList := by
    obtain ⟨hstar, hmark, hset⟩ := h
    rw [String.toList_append]
    exact ⟨List.not_mem_append (by decide) hstar, List.not_mem_append (by decide) hmark,
      List.not_mem_append (by decide) hset⟩
  have htext : ("*." ++ x).toList = '*' :: ("." ++ x).toList := by
    simp
  have hread := compileFrom_literal_append hback 1 (some '*') [.anySequence] []
  rw [List.append_nil] at hread
  rw [compile, htext, compileFrom_star (by simp), hread, compileFrom_nil]
  simp

end Glob

namespace PathFilter

open Glob

/-- Whether a pattern selects the paths with a property: as the only exclude it rejects exactly these paths, and as
the only include it accepts exactly these. In either place it can be read. -/
structure Selects (pattern : String) (p : String → Prop) : Prop where
  excludes : ∃ f, compile [] [pattern] = .ok f ∧ ∀ relative, f.accepts relative = false ↔ p relative
  includes : ∃ f, compile [pattern] [] = .ok f ∧ ∀ relative, f.accepts relative = true ↔ p relative

theorem selects_of_compile {pattern : String} {ts : List Token} {p : String → Prop}
    (hread : Glob.compile pattern = .ok ts) (hts : Token.anyDirectories ∉ ts)
    (hp : ∀ relative, Stands ts relative.toList ↔ p relative) : Selects pattern p := by
  have hmatch : ∀ relative : String, isMatch ts relative.toList = true ↔ p relative := fun relative =>
    (isMatch_iff_stands hts _).trans (hp relative)
  have hall : compileAll [pattern] = .ok [ts] := by
    simp only [compileAll, hread]
    rfl
  constructor
  · refine ⟨{ includes := [], excludes := [ts] }, ?_, fun relative => ?_⟩
    · simp only [compile, hall]
      rfl
    · rw [← hmatch]
      simp [accepts]
  · refine ⟨{ includes := [ts], excludes := [] }, ?_, fun relative => ?_⟩
    · simp only [compile, hall]
      rfl
    · rw [← hmatch]
      simp [accepts]

/-- Simple patterns select paths at every depth: those below a directory, those with an ending, and all. -/
theorem simple_globs_select_at_every_depth (d x : String) (hd : IsLiteral d.toList)
    (hx : IsLiteral x.toList) :
    Selects (d ++ "/*") (fun relative => (d ++ "/").toList <+: relative.toList) ∧
      Selects ("*." ++ x) (fun relative => ("." ++ x).toList <:+ relative.toList) ∧
      Selects "*" fun _ => True := by
  refine ⟨selects_of_compile (compile_below hd) (by simp) fun relative => ?_,
    selects_of_compile (compile_ending hx) (by simp) fun relative => ?_,
    selects_of_compile compile_star (by simp) fun relative => ?_⟩
  · rw [stands_chars_append_iff]
    constructor
    · rintro ⟨rest, hrest, -⟩
      exact ⟨rest, hrest.symm⟩
    · rintro ⟨rest, hrest⟩
      exact ⟨rest, hrest.symm, stands_anySequence_nil rest⟩
  · rw [stands_anySequence_iff]
    constructor
    · rintro ⟨rest, hends, hrest⟩
      rwa [stands_chars_iff.1 hrest] at hends
    · intro hends
      exact ⟨_, hends, stands_chars_iff.2 rfl⟩
  · exact iff_of_true (stands_anySequence_nil _) trivial

/-- What is below a directory is told from what only starts with its name, and an ending from a whole name. -/
theorem simple_globs_select_at_every_depth_in_sub :
    (∃ f, compile [] ["sub/*"] = .ok f ∧ f.accepts "sub/lib/a.ahk" = false ∧ f.accepts "subs/a.ahk" = true) ∧
      ∃ f, compile ["*.ext"] [] = .ok f ∧ f.accepts "sub/sub.ext" = true ∧ f.accepts "sub/ext" = false := by
  obtain ⟨hbelow, hending, -⟩ := simple_globs_select_at_every_depth "sub" "ext"
    ⟨by decide, by decide, by decide⟩ ⟨by decide, by decide, by decide⟩
  obtain ⟨f, hf, hrejects⟩ := hbelow.excludes
  obtain ⟨g, hg, haccepts⟩ := hending.includes
  exact ⟨⟨f, hf, (hrejects _).2 (by decide),
      eq_true_of_ne_false fun h => absurd ((hrejects _).1 h) (by decide)⟩,
    ⟨g, hg, (haccepts _).2 (by decide),
      Bool.eq_false_iff.2 fun h => absurd ((haccepts _).1 h) (by decide)⟩⟩

end PathFilter
end ScriptSymbols
