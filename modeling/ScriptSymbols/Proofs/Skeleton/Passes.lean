import ScriptSymbols.Proofs.Skeleton.Words

/-!
# Passes after the first

The first pass over a line can join a word to `return`. The passes after it join nothing. The first one leaves a
line on which the strings are empty and no brace right behind `return` is closed, and the others keep it so.

* `Skeleton.Settled` is what is known of such a line.
* `Skeleton.Tidies` is one deletion of a later pass. It keeps words (`Skeleton.Tidies.keepsWords`) and leaves a
  settled line (`Skeleton.Settled.of_tidies`). A pass over a settled line is made of them
  (`Skeleton.Settled.tidies_pass`).
* `Skeleton.settled_dropLiterals`: a line is settled as soon as its literals are removed once.
* `Name.MadeFrom.of_skeleton`: the words of a skeleton are made from the line.
-/

namespace ScriptSymbols

open Text Name Relation

namespace Skeleton

/-- Whether no brace right behind the word `return` is closed on the line. -/
def ReturnsOpen (line : List Char) : Prop :=
  ∀ front ret back, StandsBetween front ('{' :: back) ret line → sameFolded ret "return".toList = true →
    afterClose 1 back = none

/-- What a pass leaves of a line: no text of strings, and no literal right behind `return`. -/
structure Settled (line : List Char) : Prop where
  strings : StringsEmpty line
  returns : ReturnsOpen line

/-- One deletion of a pass over a settled line, or a tab that becomes a space. -/
inductive Tidies : List Char → List Char → Prop
  | literal {front inside back : List Char} (left : IsClear front.getLast?) (balanced : Balanced inside) :
      Tidies (front ++ ('{' :: (inside ++ ['}']) ++ back)) (front ++ back)
  | plain {front gone back : List Char} (left : IsClear front.getLast?)
      (right : IsEdge gone.getLast? ∨ IsEdge back.head?)
      (plain : '"' ∉ gone ∧ '{' ∉ gone ∧ '}' ∉ gone) :
      Tidies (front ++ (gone ++ back)) (front ++ back)
  | rest {front gone : List Char} (left : IsClear front.getLast?) : Tidies (front ++ (gone ++ [])) (front ++ [])
  | space {front back : List Char} : Tidies (front ++ '\t' :: back) (front ++ ' ' :: back)

theorem isEdge_getLast?_literal (inside : List Char) : IsEdge ('{' :: (inside ++ ['}'])).getLast? := by
  rw [← List.cons_append, List.getLast?_concat]
  exact (by decide : isIdentChar '}' = false)

theorem Tidies.keepsWords {line left : List Char} (h : Tidies line left) : KeepsWords line left := by
  cases h with
  | @literal front inside back hleft _ => exact keepsWords_cut hleft (Or.inl (isEdge_getLast?_literal inside))
  | plain hleft hright _ => exact keepsWords_cut hleft hright
  | rest hleft => exact keepsWords_cut hleft (Or.inr rfl)
  | space => exact keepsWords_space _ _

theorem keepsWords_of_tidies {line left : List Char} (h : ReflTransGen Tidies line left) :
    KeepsWords line left := by
  induction h with
  | refl => exact .refl line
  | tail _ hstep ih => exact ih.trans hstep.keepsWords

/-! ## Open braces -/

/-- A text that closes braces leaves the others open. -/
theorem afterClose_append {opened : Nat} {inside : List Char} (h : Closes opened inside) (depth : Nat)
    (rest : List Char) :
    afterClose (depth + 1 + opened) (inside ++ rest) = afterClose (depth + 1) rest := by
  induction inside generalizing opened with
  | nil =>
      obtain rfl := (closes_nil_iff opened).1 h
      rfl
  | cons c inside ih =>
      rw [closes_cons_iff] at h
      rw [List.cons_append, afterClose]
      by_cases hopen : c = '{'
      · rw [if_pos hopen] at h ⊢
        exact ih h
      · rw [if_neg hopen] at h ⊢
        by_cases hclose : c = '}'
        · rw [if_pos hclose] at h ⊢
          obtain ⟨hpos, hcloses⟩ := h
          rw [if_neg (by omega), Nat.add_sub_assoc hpos]
          exact ih hcloses
        · rw [if_neg hclose] at h ⊢
          exact ih h

theorem afterClose_literal {inside : List Char} (h : Balanced inside) (depth : Nat) (rest : List Char) :
    afterClose (depth + 1) ('{' :: (inside ++ '}' :: rest)) = afterClose (depth + 1) rest := by
  have hinside := afterClose_append ((closes_zero_iff inside).2 h) (depth + 1) ('}' :: rest)
  simpa [afterClose] using hinside

/-- A brace that stays open with one text behind it stays open with another one, if every brace does. -/
theorem afterClose_eq_none_of_append {x y : List Char}
    (h : ∀ depth, afterClose (depth + 1) x = none → afterClose (depth + 1) y = none) (mid : List Char)
    (depth : Nat) (hnone : afterClose (depth + 1) (mid ++ x) = none) :
    afterClose (depth + 1) (mid ++ y) = none := by
  induction mid generalizing depth with
  | nil => exact h depth hnone
  | cons c mid ih =>
      rw [List.cons_append, afterClose] at hnone ⊢
      by_cases hopen : c = '{'
      · rw [if_pos hopen] at hnone ⊢
        exact ih (depth + 1) hnone
      · rw [if_neg hopen] at hnone ⊢
        by_cases hclose : c = '}'
        · rw [if_pos hclose] at hnone ⊢
          cases depth with
          | zero => simp at hnone
          | succ depth =>
              rw [if_neg (by omega)] at hnone ⊢
              exact ih depth hnone
        · rw [if_neg hclose] at hnone ⊢
          exact ih depth hnone

theorem ReturnsOpen.cut {front gone back : List Char} (h : ReturnsOpen (front ++ (gone ++ back)))
    (hleft : IsEdge front.getLast?) (hright : IsEdge gone.getLast? ∨ IsEdge back.head?)
    (hclose : ∀ depth, afterClose (depth + 1) (gone ++ back) = none → afterClose (depth + 1) back = none) :
    ReturnsOpen (front ++ back) := by
  intro before ret behind hret hreturn
  rcases standsBetween_of_cut hleft hright hret with ⟨mid, -, hret'⟩ | ⟨c, mid, -, hbehind, hret'⟩
  · exact h _ ret behind hret' hreturn
  · obtain ⟨rfl, rfl⟩ := List.cons_eq_cons.1 hbehind
    exact afterClose_eq_none_of_append hclose mid 0 (h before ret _ hret' hreturn)

theorem ReturnsOpen.space {front back : List Char} (h : ReturnsOpen (front ++ '\t' :: back)) :
    ReturnsOpen (front ++ ' ' :: back) := by
  intro before ret behind hret hreturn
  rcases standsBetween_of_space hret with ⟨mid, -, hret'⟩ | ⟨mid, -, hbehind, hret'⟩
  · exact h _ ret behind hret' hreturn
  · cases mid with
    | nil => cases hbehind
    | cons c mid =>
        obtain ⟨rfl, rfl⟩ := List.cons_eq_cons.1 hbehind
        refine afterClose_eq_none_of_append (x := '\t' :: back) (fun depth hnone => ?_) mid 0
          (h before ret _ hret' hreturn)
        simpa [afterClose] using hnone

theorem balanced_of_not_mem {cs : List Char} (hopen : '{' ∉ cs) (hclose : '}' ∉ cs) : Balanced cs := by
  refine ⟨by rw [List.count_eq_zero.2 hopen, List.count_eq_zero.2 hclose], fun part hpart => ?_⟩
  rw [List.count_eq_zero.2 fun hmem => hclose (hpart.subset hmem)]
  exact Nat.zero_le _

theorem Tidies.returnsOpen {line left : List Char} (h : Tidies line left) (hline : ReturnsOpen line) :
    ReturnsOpen left := by
  cases h with
  | @literal front inside back hleft hbalanced =>
      refine hline.cut hleft.1 (Or.inl (isEdge_getLast?_literal inside)) fun depth hnone => ?_
      rw [← afterClose_literal hbalanced]
      simpa using hnone
  | @plain front gone back hleft hright hplain =>
      refine hline.cut hleft.1 hright fun depth hnone => ?_
      have hcloses := (closes_zero_iff gone).2 (balanced_of_not_mem hplain.2.1 hplain.2.2)
      rwa [← afterClose_append hcloses]
  | rest hleft => exact hline.cut hleft.1 (Or.inr rfl) fun _ _ => rfl
  | space => exact hline.space

/-! ## Empty strings -/

/-- Where the strings of a front are empty, those of the whole line depend on what stands behind it. -/
theorem stringsEmpty_append_iff (front rest : List Char) :
    StringsEmpty (front ++ rest) ↔
      StringsEmpty front ∧
        ∀ mid c back, rest = mid ++ c :: back → modeBehind (front ++ mid) = .code ∨ c = '"' := by
  rw [stringsEmpty_iff, stringsEmpty_iff]
  constructor
  · intro h
    constructor
    · rintro before c behind rfl
      exact h before c (behind ++ rest) (by simp)
    · rintro mid c back rfl
      exact h (front ++ mid) c back (by simp)
  · rintro ⟨hfront, hrest⟩ before c behind hline
    rcases List.append_eq_append_iff.1 hline with ⟨mid, rfl, hmid⟩ | ⟨_ | ⟨d, mid⟩, hsplit, hmid⟩
    · exact hrest mid c behind hmid
    · rw [List.append_nil] at hsplit
      simpa [hsplit] using hrest [] c behind hmid.symm
    · obtain ⟨rfl, -⟩ := List.cons_eq_cons.1 hmid
      exact hfront before c mid hsplit

theorem StringsEmpty.cut {front gone back : List Char} (h : StringsEmpty (front ++ (gone ++ back)))
    (heven : Even (gone.count '"')) : StringsEmpty (front ++ back) := by
  rw [stringsEmpty_append_iff] at h ⊢
  refine ⟨h.1, ?_⟩
  rintro mid c behind rfl
  have hmode := h.2 (gone ++ mid) c behind (by simp)
  rw [modeBehind_eq_code_iff, List.count_append, List.count_append, Nat.add_left_comm, Nat.even_add,
    iff_true_left heven, ← List.count_append] at hmode
  rwa [modeBehind_eq_code_iff]

/-- A literal on a line with empty strings has all the quotes of its strings in it. -/
theorem even_count_literal {front inside back : List Char}
    (h : StringsEmpty (front ++ ('{' :: (inside ++ ['}']) ++ back))) :
    Even (('{' :: (inside ++ ['}'])).count '"') := by
  rw [stringsEmpty_iff] at h
  have hopen : Even (front.count '"') := by
    have hmode := h front '{' (inside ++ '}' :: back) (by simp)
    rw [← modeBehind_eq_code_iff]
    simpa using hmode
  have hclose : Even ((front ++ '{' :: inside).count '"') := by
    have hmode := h (front ++ '{' :: inside) '}' back (by simp)
    rw [← modeBehind_eq_code_iff]
    simpa using hmode
  rw [List.count_append, Nat.even_add, iff_true_left hopen] at hclose
  simpa using hclose

theorem StringsEmpty.space {front back : List Char} (h : StringsEmpty (front ++ '\t' :: back)) :
    StringsEmpty (front ++ ' ' :: back) := by
  rw [stringsEmpty_append_iff, forall_places_cons] at h ⊢
  obtain ⟨hfront, hhere, hback⟩ := h
  refine ⟨hfront, by simpa using hhere, fun mid c behind hmid => ?_⟩
  simpa [modeBehind_eq_code_iff] using hback mid c behind hmid

theorem Tidies.stringsEmpty {line left : List Char} (h : Tidies line left) (hline : StringsEmpty line) :
    StringsEmpty left := by
  cases h with
  | literal _ _ => exact hline.cut (even_count_literal hline)
  | plain _ _ hplain =>
      refine hline.cut ?_
      rw [List.count_eq_zero.2 hplain.1]
      exact Even.zero
  | @rest front gone _ =>
      rw [List.append_nil]
      exact ((stringsEmpty_append_iff front _).1 hline).1
  | space => exact hline.space

theorem Settled.of_tidies {line left : List Char} (h : Settled line) (hsteps : ReflTransGen Tidies line left) :
    Settled left := by
  induction hsteps with
  | refl => exact h
  | tail _ hstep ih => exact ⟨hstep.stringsEmpty ih.strings, hstep.returnsOpen ih.returns⟩

/-! ## A pass over a settled line -/

/-- Where strings are empty, only a comment is cut off. -/
theorem tidies_emptyStringsFrom (front cs : List Char) (h : StringsEmpty (front ++ cs)) :
    ReflTransGen Tidies (front ++ cs) (front ++ emptyStringsFrom (modeBehind front) front.getLast? cs) := by
  induction cs generalizing front with
  | nil => exact .refl
  | cons c cs ih =>
      have hkeep : ∀ cs, front ++ c :: cs = (front ++ [c]) ++ cs := by simp
      rw [emptyStringsFrom]
      split
      · rename_i hcomment
        have hblank : front.getLast?.all isBlank = true := by
          simp only [startsComment, Bool.and_eq_true] at hcomment
          exact hcomment.2
        have hrest : Tidies (front ++ (c :: cs ++ [])) (front ++ []) := .rest (isClear_of_isBlank hblank)
        rw [List.append_nil] at hrest
        exact .single hrest
      · rw [if_pos ((stringsEmpty_iff _).1 h front c cs rfl), hkeep, hkeep]
        rw [hkeep] at h
        simpa [modeBehind_concat] using ih _ h

/-- Where no brace behind `return` is closed, every literal can be deleted without joining words. -/
theorem tidies_dropLiteralsFrom (before cs : List Char) (h : ReturnsOpen (before.reverse ++ cs)) :
    ReflTransGen Tidies (before.reverse ++ cs) (before.reverse ++ dropLiteralsFrom before cs) := by
  fun_induction dropLiteralsFrom before cs with
  | case1 => exact .refl
  | case2 before c cs hvalue rest hclose ih =>
      obtain ⟨rfl, hvalue⟩ := hvalue
      have hleft : IsClear before.reverse.getLast? := by
        rw [List.getLast?_reverse]
        refine (isClear_of_valueExpected hvalue).resolve_right fun hreturn => ?_
        rw [← List.reverse_reverse before, endsInReturn_reverse_iff] at hreturn
        obtain ⟨front, ret, hsplit, hfolded, hedge⟩ := hreturn
        have hret : StandsBetween front ('{' :: cs) ret (before.reverse ++ '{' :: cs) := by
          rw [hsplit, List.append_assoc]
          exact .of_isReturn hfolded hedge cs
        rw [h front ret cs hret hfolded] at hclose
        cases hclose
      obtain ⟨inside, rfl, hcloses⟩ := (afterClose_eq_some_iff 0 cs rest).1 hclose
      have hstep : Tidies (before.reverse ++ '{' :: (inside ++ '}' :: rest)) (before.reverse ++ rest) := by
        have hliteral : Tidies (before.reverse ++ ('{' :: (inside ++ ['}']) ++ rest)) (before.reverse ++ rest) :=
          .literal hleft ((closes_zero_iff inside).1 hcloses)
        simpa using hliteral
      exact .head hstep (ih (hstep.returnsOpen h))
  | case3 before c cs _ _ ih => simpa using ih (by simpa using h)
  | case4 before c cs _ ih => simpa using ih (by simpa using h)

theorem isClear_getLast?_of_blank (front : List Char) {blanks : List Char} (hne : blanks ≠ [])
    (h : ∀ c ∈ blanks, isSpaceOrTab c = true) : IsClear (front ++ blanks).getLast? := by
  refine isClear_of_isBlank ?_
  rw [List.getLast?_append_of_ne_nil _ hne, List.getLast?_eq_some_getLast hne]
  exact isBlank_of_isSpaceOrTab (h _ (List.getLast_mem hne))

theorem tidies_plainCommand (line : List Char) : ReflTransGen Tidies line (plainCommand line) := by
  unfold plainCommand
  extract_lets indent body name rest gap tail
  have hline : indent ++ (name ++ (gap ++ tail)) = line := by
    simp only [indent, name, gap, tail, rest, body, List.takeWhile_append_dropWhile]
  split
  · exact .refl
  · split
    · have hrest : Tidies ([] ++ (line ++ [])) ([] ++ []) := .rest (isClear_of_isBlank rfl)
      rw [List.nil_append, List.append_nil] at hrest
      exact .single hrest
    · split
      · exact .refl
      · rename_i hgap
        cases htail : afterMark? tail with
        | none => exact .refl
        | some expr =>
            -- The mark is deleted with the blanks behind it; the gap before it stays.
            obtain ⟨blanks, hmark, hne, hblanks⟩ := afterMark?_eq_some htail
            have hleft : IsClear (indent ++ name ++ gap).getLast? :=
              isClear_getLast?_of_blank _ (by simpa using hgap) fun c hc => List.mem_takeWhile_imp hc
            have hright : IsEdge ('%' :: blanks).getLast? :=
              (isClear_getLast?_of_blank ['%'] hne hblanks).1
            have hplain : ∀ c, isSpaceOrTab c = false → c ≠ '%' → c ∉ '%' :: blanks := by
              intro c hc hmark hmem
              rcases List.mem_cons.1 hmem with rfl | hmem
              · exact hmark rfl
              · rw [hblanks c hmem] at hc
                cases hc
            have hstep : Tidies ((indent ++ name ++ gap) ++ ('%' :: blanks ++ expr))
                ((indent ++ name ++ gap) ++ expr) :=
              .plain hleft (Or.inl hright) ⟨hplain _ (by decide) (by decide), hplain _ (by decide) (by decide),
                hplain _ (by decide) (by decide)⟩
            refine .single ?_
            rw [← hline, hmark]
            simpa using hstep

theorem tidies_squeezeFrom (inGap : Bool) (cs : List Char) :
    ∀ front : List Char, (inGap = true → IsClear front.getLast?) →
      ReflTransGen Tidies (front ++ cs) (front ++ squeezeFrom inGap cs) := by
  fun_induction squeezeFrom inGap cs with
  | case1 => exact fun front _ => .refl
  | case2 c cs hc ih =>
      intro front hfront
      have hstep : Tidies (front ++ ([c] ++ cs)) (front ++ cs) := by
        refine .plain (hfront rfl) (Or.inl (isIdentChar_of_isBlank (isBlank_of_isSpaceOrTab hc))) ?_
        have hcases : c = ' ' ∨ c = '\t' := by
          simpa [isSpaceOrTab] using hc
        rcases hcases with rfl | rfl <;> decide
      exact .head hstep (ih front hfront)
  | case3 inGap c cs hc _ ih =>
      intro front _
      have hrest := ih (front ++ [' ']) fun _ => isClear_getLast?_of_blank _ (by simp) (by simp [isSpaceOrTab])
      rw [List.append_assoc, List.append_assoc] at hrest
      have hcases : c = ' ' ∨ c = '\t' := by
        simpa [isSpaceOrTab] using hc
      rcases hcases with rfl | rfl
      · exact hrest
      · exact .head .space hrest
  | case4 inGap c cs hc ih =>
      intro front _
      simpa using ih (front ++ [c]) (by simp)

theorem tidies_squeeze (line : List Char) : ReflTransGen Tidies line (squeeze line) := by
  have hbody := tidies_squeezeFrom false (line.dropWhile isSpaceOrTab) (line.takeWhile isSpaceOrTab)
    (by simp)
  rw [List.takeWhile_append_dropWhile] at hbody
  exact hbody

theorem Settled.tidies_pass {line : List Char} (h : Settled line) : ReflTransGen Tidies line (pass line) := by
  have hstrings : ReflTransGen Tidies line (emptyStrings line) := tidies_emptyStringsFrom [] line h.strings
  have hliterals : ReflTransGen Tidies (emptyStrings line) (dropLiterals (emptyStrings line)) :=
    tidies_dropLiteralsFrom [] _ (h.of_tidies hstrings).returns
  exact ((hstrings.trans hliterals).trans (tidies_plainCommand _)).trans (tidies_squeeze _)

theorem Settled.keepsWords_skeleton {line : List Char} (h : Settled line) : KeepsWords line (skeleton line) := by
  fun_induction skeleton line with
  | case1 => exact .refl _
  | case2 line _ ih => exact (keepsWords_of_tidies h.tidies_pass).trans (ih (h.of_tidies h.tidies_pass))

/-! ## The first pass -/

/-- What the first step leaves of a text has only quotes inside strings. -/
theorem quoted_of_emptyStringsFrom (mode : Mode) (prev : Option Char) (cs : List Char) :
    ∀ front c back, emptyStringsFrom mode prev cs = front ++ c :: back →
      front.foldl Mode.next mode = .code ∨ c = '"' := by
  induction cs generalizing mode prev with
  | nil => simp [emptyStringsFrom]
  | cons d cs ih =>
      rw [emptyStringsFrom]
      split
      · simp
      · split
        · rename_i hkept
          rw [forall_places_cons]
          exact ⟨hkept, fun front c back hplace => ih _ _ front c back hplace⟩
        · rename_i hkept
          obtain ⟨hmode, hquote⟩ := not_or.1 hkept
          have hsame : mode.next d = mode := by
            cases mode with
            | code => exact absurd rfl hmode
            | quoted => simp [Mode.next, hquote]
          rw [hsame]
          exact ih _ _

theorem stringsEmpty_emptyStrings (line : List Char) : StringsEmpty (emptyStrings line) :=
  (stringsEmpty_iff _).2 (quoted_of_emptyStringsFrom .code none line)

theorem StringsEmpty.dropLiteralsFrom (before cs : List Char) (h : StringsEmpty (before.reverse ++ cs)) :
    StringsEmpty (before.reverse ++ dropLiteralsFrom before cs) := by
  fun_induction Skeleton.dropLiteralsFrom before cs with
  | case1 => exact h
  | case2 before c cs hvalue rest hclose ih =>
      obtain ⟨rfl, -⟩ := hvalue
      obtain ⟨inside, rfl, -⟩ := (afterClose_eq_some_iff 0 cs rest).1 hclose
      have hliteral : StringsEmpty (before.reverse ++ ('{' :: (inside ++ ['}']) ++ rest)) := by
        simpa using h
      exact ih (hliteral.cut (even_count_literal hliteral))
  | case3 before c cs _ _ ih => simpa using ih (by simpa using h)
  | case4 before c cs _ ih => simpa using ih (by simpa using h)

/-- Removing literals closes no brace. -/
theorem afterClose_dropLiteralsFrom (before cs : List Char) (depth : Nat)
    (h : afterClose (depth + 1) cs = none) : afterClose (depth + 1) (dropLiteralsFrom before cs) = none := by
  fun_induction dropLiteralsFrom before cs generalizing depth with
  | case1 => exact h
  | case2 before c cs hvalue rest hclose ih =>
      obtain ⟨rfl, -⟩ := hvalue
      obtain ⟨inside, rfl, hcloses⟩ := (afterClose_eq_some_iff 0 cs rest).1 hclose
      rw [afterClose_literal ((closes_zero_iff inside).1 hcloses)] at h
      exact ih depth h
  | case3 before c cs _ _ ih =>
      exact afterClose_eq_none_of_append (x := cs) (fun depth => ih depth) [c] depth h
  | case4 before c cs _ ih =>
      exact afterClose_eq_none_of_append (x := cs) (fun depth => ih depth) [c] depth h

/-- A brace that is left right behind `return` is not closed. -/
theorem returnsOpen_dropLiteralsFrom (before cs : List Char) {front ret back : List Char}
    (hret : StandsBetween front ('{' :: back) ret (before.reverse ++ dropLiteralsFrom before cs))
    (hreturn : sameFolded ret "return".toList = true) (hplace : before.length ≤ (front ++ ret).length) :
    afterClose 1 back = none := by
  have hline := hret.line_eq
  rw [← List.append_assoc] at hline
  fun_induction dropLiteralsFrom before cs with
  | case1 =>
      have hlength := congrArg List.length hline
      simp only [List.length_append, List.length_reverse, List.length_cons, List.length_nil] at hlength hplace
      omega
  | case2 before c cs _ rest _ ih => exact ih hret hplace hline
  | case3 before c cs _ hclose ih =>
      rcases Nat.eq_or_lt_of_le hplace with hhere | hbehind
      · obtain ⟨-, hrest⟩ := List.append_inj hline (by simpa using hhere)
        obtain ⟨-, rfl⟩ := List.cons_eq_cons.1 hrest
        exact afterClose_dropLiteralsFrom _ cs 0 hclose
      · exact ih (by simpa using hret) hbehind (by simpa using hline)
  | case4 before c cs hvalue ih =>
      rcases Nat.eq_or_lt_of_le hplace with hhere | hbehind
      · -- The brace stands where a value is expected, so that it would not be kept.
        obtain ⟨hbefore, hrest⟩ := List.append_inj hline (by simpa using hhere)
        obtain ⟨rfl, -⟩ := List.cons_eq_cons.1 hrest
        have hends : endsInReturn before = true := by
          rw [← List.reverse_reverse before, endsInReturn_reverse_iff]
          exact ⟨front, ret, hbefore, hreturn, hret.before⟩
        exact absurd ⟨rfl, valueExpected_of_endsInReturn hends⟩ hvalue
      · exact ih (by simpa using hret) hbehind (by simpa using hline)

theorem settled_dropLiterals (line : List Char) : Settled (dropLiterals (emptyStrings line)) where
  strings := StringsEmpty.dropLiteralsFrom [] _ (stringsEmpty_emptyStrings line)
  returns := fun _ _ _ hret hreturn => returnsOpen_dropLiteralsFrom [] _ hret hreturn (Nat.zero_le _)

end Skeleton

/-- The words of a skeleton are made from the line. -/
theorem Name.MadeFrom.of_skeleton {line name : List Char} (h : Stands name (skeleton line)) :
    MadeFrom line name := by
  have hsettled := Skeleton.settled_dropLiterals line
  have hpass : ReflTransGen Skeleton.Tidies (Skeleton.dropLiterals (Skeleton.emptyStrings line))
      (Skeleton.pass line) :=
    (Skeleton.tidies_plainCommand _).trans (Skeleton.tidies_squeeze _)
  rw [← Skeleton.skeleton_pass] at h
  -- Only the removal of literals in the first pass can join words.
  have hkeeps := (Skeleton.keepsWords_of_tidies hpass).trans (hsettled.of_tidies hpass).keepsWords_skeleton
  have hfirst := Skeleton.madeFrom_of_dropLiterals (hkeeps.stands h)
  exact (Skeleton.keepsWords_emptyStrings line).madeFrom hfirst

end ScriptSymbols
