import ScriptSymbols.Proofs.Skeleton.NormalForm

/-!
# Words of what is left of a line

A skeleton is made by deleting parts of a line. A deletion could make a new word, by joining two words or
by taking a part of one. There is one place where it does: a literal right behind the word `return` may
have a word right behind it.

* `Name.MadeFrom` says that a name is a word of a line, or the word `return` with the word right behind a brace.
* `Skeleton.KeepsWords` relates a line to a rest of it whose words are words of the line, in the same order.
  `Skeleton.keepsWords_cut` says which deletions leave such a rest.
* `Skeleton.keepsWords_emptyStrings`: emptying the strings is made of such deletions.
* `Skeleton.madeFrom_of_dropLiterals`: removing the literals is not, but each word that is left of a line is
  made from it.
-/

namespace ScriptSymbols

open Text Name

namespace Name

/-! ## Words behind `return` -/

/-- Whether the word `return`, in any case, stands on a line right before a brace, and `word` stands right
behind a closing brace further on. -/
structure JoinedBetween (front ret inside word back line : List Char) : Prop where
  line_eq : line = front ++ (ret ++ '{' :: (inside ++ '}' :: (word ++ back)))
  isReturn : sameFolded ret "return".toList = true
  before : IsEdge front.getLast?
  nonempty : word ≠ []
  ident : ∀ c ∈ word, isIdentChar c = true
  behind : IsEdge back.head?

/-- The names that can be made from a line: its words, and the word `return` together with a word behind it,
where only text in braces stands between them. -/
inductive MadeFrom (line : List Char) : List Char → Prop
  | word {name : List Char} (stands : Stands name line) : MadeFrom line name
  | joined {front ret inside word back : List Char}
      (joined : JoinedBetween front ret inside word back line) : MadeFrom line (ret ++ word)

/-- Two ways to cut the last word off a text are the same. -/
theorem eq_of_last_word {a b x y : List Char} (h : a ++ x = b ++ y) (ha : IsEdge a.getLast?)
    (hb : IsEdge b.getLast?) (hx : ∀ c ∈ x, isIdentChar c = true) (hy : ∀ c ∈ y, isIdentChar c = true) :
    a = b ∧ x = y := by
  have hnil : ∀ {a b x y m : List Char}, b = a ++ m → x = m ++ y → IsEdge b.getLast? →
      (∀ c ∈ x, isIdentChar c = true) → m = [] := by
    rintro a b x y m rfl rfl hedge hident
    by_contra hne
    exact not_isEdge_getLast? hne (fun c hc => hident c (List.mem_append_left y hc)) a hedge
  rcases List.append_eq_append_iff.1 h with ⟨m, hm, hrest⟩ | ⟨m, hm, hrest⟩
  · obtain rfl := hnil hm hrest hb hx
    exact ⟨by simpa using hm.symm, by simpa using hrest⟩
  · obtain rfl := hnil hm hrest ha hy
    exact ⟨by simpa using hm, by simpa using hrest.symm⟩

theorem length_of_isReturn {ret : List Char} (h : sameFolded ret "return".toList = true) :
    ret.length = 6 := by
  simpa [foldCase] using congrArg List.length (beq_iff_eq.1 h)

theorem isIdentChar_of_isReturn {ret : List Char} (h : sameFolded ret "return".toList = true) :
    ∀ c ∈ ret, isIdentChar c = true := by
  intro c hc
  have hletter : c.toLower ∈ foldCase "return".toList := by
    rw [← beq_iff_eq.1 h]
    exact List.mem_map_of_mem hc
  have hletters : (foldCase "return".toList).all isIdentChar = true := by decide
  rw [← caseBlind_isIdentChar c]
  exact List.all_eq_true.1 hletters _ hletter

namespace StandsBetween

variable {front back word line : List Char}

/-- A word of two texts is a word of one of them if no word ends at the seam. -/
theorem of_edge {a b : List Char} (h : StandsBetween front back word (a ++ b)) (hedge : IsEdge a.getLast?) :
    (∃ mid, front = a ++ mid ∧ b = mid ++ (word ++ back)) ∨
      ∃ c mid, a = front ++ (word ++ c :: mid) ∧ back = c :: mid ++ b := by
  rcases h.of_append with hbehind | ⟨mid, rfl, rfl⟩ | ⟨x, y, hx, -, rfl, rfl, -⟩
  · exact Or.inl hbehind
  · cases mid with
    | nil =>
        rw [List.append_nil] at hedge
        exact absurd hedge (not_isEdge_getLast? h.nonempty h.ident front)
    | cons c mid => exact Or.inr ⟨c, mid, rfl, rfl⟩
  · exact absurd hedge (not_isEdge_getLast? hx (fun c hc => h.ident c (List.mem_append_left y hc)) front)

/-- The word `return` stands before a brace. -/
theorem of_isReturn {ret : List Char} (hreturn : sameFolded ret "return".toList = true)
    (hedge : IsEdge front.getLast?) (back : List Char) :
    StandsBetween front ('{' :: back) ret (front ++ (ret ++ '{' :: back)) where
  line_eq := rfl
  nonempty := List.ne_nil_of_length_pos (by simp [length_of_isReturn hreturn])
  ident := isIdentChar_of_isReturn hreturn
  before := hedge
  behind := (by decide : isIdentChar '{' = false)

/-- A word stands behind any front that no word ends. -/
theorem congr_front (h : StandsBetween front back word line) {front' : List Char}
    (hlast : IsEdge front'.getLast?) : StandsBetween front' back word (front' ++ (word ++ back)) :=
  ⟨rfl, h.nonempty, h.ident, hlast, h.behind⟩

theorem congr_back (h : StandsBetween front back word line) {back' : List Char}
    (hhead : IsEdge back'.head?) : StandsBetween front back' word (front ++ (word ++ back')) :=
  ⟨rfl, h.nonempty, h.ident, h.before, hhead⟩

end StandsBetween

namespace JoinedBetween

variable {front ret inside word back line : List Char}

theorem stands_return (h : JoinedBetween front ret inside word back line) :
    StandsBetween front ('{' :: (inside ++ '}' :: (word ++ back))) ret line := by
  rw [h.line_eq]
  exact .of_isReturn h.isReturn h.before _

theorem stands_word (h : JoinedBetween front ret inside word back line) :
    StandsBetween (front ++ (ret ++ '{' :: inside) ++ ['}']) back word line where
  line_eq := by simp [h.line_eq]
  nonempty := h.nonempty
  ident := h.ident
  before := by
    rw [List.getLast?_concat]
    exact (by decide : isIdentChar '}' = false)
  behind := h.behind

/-- The word `return` before a brace and a word behind a brace further on can be joined. -/
theorem of_stands {behind stem : List Char} (hreturn : sameFolded ret "return".toList = true)
    (hret : StandsBetween front ('{' :: behind) ret line)
    (hword : StandsBetween (stem ++ ['}']) back word line) (horder : front.length + ret.length < stem.length) :
    ∃ inside, JoinedBetween front ret inside word back line := by
  have hsame : front ++ (ret ++ ['{']) ++ behind = stem ++ '}' :: (word ++ back) := by
    simpa using hret.line_eq.symm.trans hword.line_eq
  have hpart : front ++ (ret ++ ['{']) <+: stem := by
    refine List.prefix_of_prefix_length_le (List.prefix_append _ behind) ?_ (by simp; omega)
    rw [hsame]
    exact List.prefix_append _ _
  obtain ⟨inside, rfl⟩ := hpart
  refine ⟨inside, ?_, hreturn, hret.before, hword.nonempty, hword.ident, hword.behind⟩
  simpa using hword.line_eq

end JoinedBetween
end Name

namespace Skeleton

/-! ## Deletions that keep words -/

/-- Whether every word of a rest is a word of the line: at a place that depends on its place in the rest only,
behind the places of the words before it, and with the braces right beside it. -/
def KeepsWords (line left : List Char) : Prop :=
  ∃ place : Nat → Nat, (∀ i n, place i + n ≤ place (i + n)) ∧
    ∀ front back word, StandsBetween front back word left →
      ∃ front' back', StandsBetween front' back' word line ∧ front'.length = place front.length ∧
        (front.getLast? = some '}' → front'.getLast? = some '}') ∧
        (back.head? = some '{' → back'.head? = some '{')

namespace KeepsWords

variable {line mid left name : List Char}

theorem refl (line : List Char) : KeepsWords line line :=
  ⟨id, fun _ _ => Nat.le_refl _, fun front back _ hword => ⟨front, back, hword, rfl, id, id⟩⟩

theorem trans (h : KeepsWords line mid) (h' : KeepsWords mid left) : KeepsWords line left := by
  obtain ⟨place, hplace, hkeeps⟩ := h
  obtain ⟨place', hplace', hkeeps'⟩ := h'
  refine ⟨place ∘ place', fun i n => ?_, fun front back word hword => ?_⟩
  · obtain ⟨more, hmore⟩ := Nat.exists_eq_add_of_le (hplace' i n)
    have hstep := hplace (place' i) (n + more)
    rw [Function.comp_apply, Function.comp_apply, hmore, Nat.add_assoc]
    omega
  · obtain ⟨front', back', hword', hlength', hclose', hopen'⟩ := hkeeps' front back word hword
    obtain ⟨front'', back'', hword'', hlength, hclose, hopen⟩ := hkeeps front' back' word hword'
    refine ⟨front'', back'', hword'', ?_, hclose ∘ hclose', hopen ∘ hopen'⟩
    rw [hlength, hlength', Function.comp_apply]

theorem stands (h : KeepsWords line left) (hname : Stands name left) : Stands name line := by
  obtain ⟨_, _, hkeeps⟩ := h
  obtain ⟨front, back, hword⟩ := hname
  obtain ⟨front', back', hword', -⟩ := hkeeps front back name hword
  exact ⟨front', back', hword'⟩

/-- What is made from the rest of a line is made from the line. -/
theorem madeFrom (h : KeepsWords line left) (hname : MadeFrom left name) : MadeFrom line name := by
  cases hname with
  | word hstands => exact .word (h.stands hstands)
  | @joined front ret inside word back hjoined =>
      obtain ⟨place, hplace, hkeeps⟩ := h
      obtain ⟨front', behind, hret, hlength, -, hopen⟩ := hkeeps _ _ _ hjoined.stands_return
      obtain ⟨front'', back', hword, hlength', hclose, -⟩ := hkeeps _ _ _ hjoined.stands_word
      obtain ⟨behind, rfl⟩ := List.head?_eq_some_iff.1 (hopen rfl)
      obtain ⟨stem, rfl⟩ := List.getLast?_eq_some_iff.1 (hclose List.getLast?_concat)
      -- The word stays behind `return` and the two braces.
      have horder : front'.length + ret.length < stem.length := by
        have hfar := hplace front.length (ret.length + inside.length + 2)
        simp only [List.length_append, List.length_cons, List.length_nil] at hlength'
        rw [show front.length + (ret.length + (inside.length + 1)) + (0 + 1) =
          front.length + (ret.length + inside.length + 2) by omega] at hlength'
        omega
      obtain ⟨inside', hjoined'⟩ := JoinedBetween.of_stands hjoined.isReturn hret hword horder
      exact .joined hjoined'

end KeepsWords

/-- Whether a character, where there is one, neither belongs to an identifier nor closes a brace. -/
def IsClear (c : Option Char) : Prop :=
  IsEdge c ∧ c ≠ some '}'

theorem isClear_of_isBlank {c : Option Char} (h : c.all isBlank = true) : IsClear c := by
  refine ⟨isEdge_of_isBlank h, ?_⟩
  rintro rfl
  exact absurd h (by decide)

section Places

variable {front gone back before behind word : List Char}

/-- A word that a deletion leaves stands behind the deleted text or before it, and not right before it. -/
theorem standsBetween_of_cut (hleft : IsEdge front.getLast?)
    (hright : IsEdge gone.getLast? ∨ IsEdge back.head?)
    (h : StandsBetween before behind word (front ++ back)) :
    (∃ mid, before = front ++ mid ∧
        StandsBetween (front ++ (gone ++ mid)) behind word (front ++ (gone ++ back))) ∨
      ∃ c mid, front = before ++ (word ++ c :: mid) ∧ behind = c :: mid ++ back ∧
        StandsBetween before (c :: mid ++ (gone ++ back)) word (front ++ (gone ++ back)) := by
  rcases h.of_edge hleft with ⟨mid, rfl, rfl⟩ | ⟨c, mid, rfl, rfl⟩
  · refine Or.inl ⟨mid, rfl, by simp, h.nonempty, h.ident, ?_, h.behind⟩
    have hbefore := h.before
    rw [List.getLast?_append] at hbefore
    rw [List.getLast?_append, List.getLast?_append]
    cases hmid : mid.getLast? with
    | some d => simpa [hmid] using hbefore
    | none =>
        -- The word follows the deleted text at once, so that this does not end in a word.
        cases List.getLast?_eq_none_iff.1 hmid
        have hgone := hright.resolve_right (not_isEdge_head? h.nonempty h.ident behind)
        simpa using hgone.or hleft
  · exact Or.inr ⟨c, mid, rfl, rfl, by simp, h.nonempty, h.ident, h.before, h.behind⟩

/-- A word beside a space stands at the same place beside a tab. -/
theorem standsBetween_of_space (h : StandsBetween before behind word (front ++ ' ' :: back)) :
    (∃ mid, before = front ++ ' ' :: mid ∧
        StandsBetween (front ++ '\t' :: mid) behind word (front ++ '\t' :: back)) ∨
      ∃ mid, front = before ++ (word ++ mid) ∧ behind = mid ++ ' ' :: back ∧
        StandsBetween before (mid ++ '\t' :: back) word (front ++ '\t' :: back) := by
  have htab : isIdentChar '\t' = false := isIdentChar_of_isBlank rfl
  have hedge : IsEdge (' ' :: back).head? := isIdentChar_of_isBlank (rfl : isBlank ' ' = true)
  rcases h.of_append with ⟨mid, rfl, hback⟩ | ⟨mid, rfl, rfl⟩ | ⟨x, y, -, hy, rfl, -, hback⟩
  · cases mid with
    | nil =>
        rw [hback] at hedge
        exact absurd hedge (not_isEdge_head? h.nonempty h.ident behind)
    | cons c mid =>
        obtain ⟨rfl, rfl⟩ := List.cons_eq_cons.1 hback
        refine Or.inl ⟨mid, rfl, by simp, h.nonempty, h.ident, ?_, h.behind⟩
        have hbefore := h.before
        cases hmid : mid.getLast? with
        | none => simp [List.getLast?_cons, hmid, htab]
        | some d => simpa [List.getLast?_cons, hmid] using hbefore
  · refine Or.inr ⟨mid, rfl, rfl, by simp, h.nonempty, h.ident, h.before, ?_⟩
    have hbehind := h.behind
    cases mid with
    | nil => exact htab
    | cons d mid => exact hbehind
  · rw [hback] at hedge
    exact absurd hedge (not_isEdge_head? hy (fun c hc => h.ident c (List.mem_append_right x hc)) behind)

end Places

/-- A deletion keeps words if no word ends before it, and none goes on behind it that starts in the deleted
text. -/
theorem keepsWords_cut {front gone back : List Char} (hleft : IsClear front.getLast?)
    (hright : IsEdge gone.getLast? ∨ IsEdge back.head?) :
    KeepsWords (front ++ (gone ++ back)) (front ++ back) := by
  refine ⟨fun i => if i < front.length then i else i + gone.length, fun i n => ?_, ?_⟩
  · dsimp only
    split <;> split <;> omega
  · intro before behind word hword
    rcases standsBetween_of_cut hleft.1 hright hword with ⟨mid, rfl, hword'⟩ | ⟨c, mid, rfl, rfl, hword'⟩
    · have hbehind : ¬ (front ++ mid).length < front.length := by simp
      refine ⟨_, _, hword', ?_, ?_, id⟩
      · dsimp only
        rw [if_neg hbehind]
        simp only [List.length_append]
        omega
      intro hclose
      rw [List.getLast?_append] at hclose ⊢
      cases hmid : mid.getLast? with
      | some d => simpa [hmid, List.getLast?_append] using hclose
      | none =>
          rw [hmid] at hclose
          exact absurd hclose hleft.2
    · exact ⟨_, _, hword', by simp, id, by simp⟩

theorem keepsWords_space (front back : List Char) :
    KeepsWords (front ++ '\t' :: back) (front ++ ' ' :: back) := by
  refine ⟨id, fun _ _ => Nat.le_refl _, fun before behind word hword => ?_⟩
  rcases standsBetween_of_space hword with ⟨mid, rfl, hword'⟩ | ⟨mid, rfl, rfl, hword'⟩
  · refine ⟨_, _, hword', by simp, ?_, id⟩
    cases hmid : mid.getLast? with
    | none => simp [List.getLast?_cons, hmid]
    | some d => simp [List.getLast?_cons, hmid]
  · refine ⟨_, _, hword', rfl, id, ?_⟩
    cases mid with
    | nil => simp
    | cons d mid => simp

/-! ## Strings and comments -/

/-- Strings are emptied one by one. Inside a string, what has been passed of it is deleted together with
what is still to come. -/
theorem keepsWords_emptyStringsFrom (cs : List Char) :
    (∀ front : List Char, KeepsWords (front ++ cs) (front ++ emptyStringsFrom .code front.getLast? cs)) ∧
      ∀ (front inside : List Char) (prev : Option Char), IsClear front.getLast? →
        KeepsWords (front ++ (inside ++ cs)) (front ++ emptyStringsFrom .quoted prev cs) := by
  induction cs with
  | nil =>
      refine ⟨fun front => .refl _, fun front inside prev hfront => ?_⟩
      exact keepsWords_cut hfront (Or.inr rfl)
  | cons c cs ih =>
      have hkeep : ∀ front : List Char, front ++ c :: cs = (front ++ [c]) ++ cs := by simp
      refine ⟨fun front => ?_, fun front inside prev hfront => ?_⟩
      · rw [emptyStringsFrom]
        split
        · -- Before the comment there is a blank, or nothing.
          rename_i hcomment
          have hblank : front.getLast?.all isBlank = true := by
            simp only [startsComment, Bool.and_eq_true] at hcomment
            exact hcomment.2
          have hcut : KeepsWords (front ++ (c :: cs ++ [])) (front ++ []) :=
            keepsWords_cut (isClear_of_isBlank hblank) (Or.inr rfl)
          rwa [List.append_nil] at hcut
        · rw [if_pos (Or.inl rfl), hkeep]
          by_cases hquote : c = '"'
          · subst hquote
            have hstring := ih.2 (front ++ ['"']) [] (some '"') (by simp [IsClear]; decide)
            simpa [Mode.next] using hstring
          · have hcode := ih.1 (front ++ [c])
            simpa [Mode.next, hquote] using hcode
      · by_cases hquote : c = '"'
        · subst hquote
          have hcut : KeepsWords (front ++ (inside ++ '"' :: cs)) (front ++ '"' :: cs) :=
            keepsWords_cut hfront (Or.inr (by simp; decide))
          have hcode := ih.1 (front ++ ['"'])
          refine hcut.trans ?_
          simpa [emptyStringsFrom, startsComment, Mode.next] using hcode
        · have hstring := ih.2 front (inside ++ [c]) (some c) hfront
          simpa [emptyStringsFrom, startsComment, Mode.next, hquote] using hstring

theorem keepsWords_emptyStrings (line : List Char) : KeepsWords line (emptyStrings line) :=
  (keepsWords_emptyStringsFrom line).1 []

/-! ## Literals -/

/-- Where a value is expected a deletion keeps words, unless `return` stands there. -/
theorem isClear_of_valueExpected {before : List Char} (h : valueExpected before = true) :
    IsClear before.head? ∨ endsInReturn before = true := by
  cases before with
  | nil => exact Or.inl ⟨rfl, by simp⟩
  | cons c before =>
      cases hblank : isBlank c with
      | true => exact Or.inl (isClear_of_isBlank hblank)
      | false =>
          rw [valueExpected_of_solid hblank, Bool.or_eq_true, List.contains_iff_mem] at h
          refine h.imp (fun hmark => ⟨?_, ?_⟩) id
          · have hmarks : valueMarks.all (!isIdentChar ·) = true := by decide
            simpa using List.all_eq_true.1 hmarks c hmark
          · have hmarks : valueMarks.all (· != '}') = true := by decide
            simpa using List.all_eq_true.1 hmarks c hmark

/-- A word that ends where a value is expected is `return`. -/
theorem isReturn_of_valueExpected {before front word : List Char} (h : valueExpected before = true)
    (hbefore : before.reverse = front ++ word) (hedge : IsEdge front.getLast?) (hne : word ≠ [])
    (hident : ∀ c ∈ word, isIdentChar c = true) : sameFolded word "return".toList = true := by
  have hreturn : endsInReturn before = true := by
    refine (isClear_of_valueExpected h).resolve_left fun hclear => ?_
    have hlast := hclear.1
    rw [← List.getLast?_reverse, hbefore] at hlast
    exact not_isEdge_getLast? hne hident front hlast
  rw [← List.reverse_reverse before, hbefore, endsInReturn_reverse_iff] at hreturn
  obtain ⟨rest, ret, hsplit, hfolded, hrest⟩ := hreturn
  obtain ⟨-, rfl⟩ := eq_of_last_word hsplit hedge hrest hident (isIdentChar_of_isReturn hfolded)
  exact hfolded

section Literal

variable {before inside rest name : List Char}

/-- A word over a deleted literal is one of its two sides, or joins `return` to the other side. -/
theorem madeFrom_of_stands (inside : List Char) (hvalue : valueExpected before = true)
    (hname : Stands name (before.reverse ++ rest)) :
    Stands name (before.reverse ++ '{' :: (inside ++ '}' :: rest)) ∨
      ∃ front ret word back,
        JoinedBetween front ret inside word back (before.reverse ++ '{' :: (inside ++ '}' :: rest)) ∧
          name = ret ++ word ∧ before.length = (front ++ ret).length := by
  obtain ⟨front, back, hword⟩ := hname
  rcases hword.of_append with ⟨mid, rfl, rfl⟩ | ⟨mid, hbefore, rfl⟩ | ⟨x, y, hx, hy, rfl, hbefore, rfl⟩
  · have hlast : IsEdge (before.reverse ++ '{' :: (inside ++ '}' :: mid)).getLast? := by
      have hedge := hword.before
      cases hmid : mid.getLast? with
      | none =>
          simp [List.getLast?_cons, hmid]
          decide
      | some d => simpa [List.getLast?_cons, hmid] using hedge
    exact Or.inl ⟨_, back, by simpa using hword.congr_front hlast⟩
  · have hhead : IsEdge (mid ++ '{' :: (inside ++ '}' :: rest)).head? := by
      have hedge := hword.behind
      cases mid with
      | nil => exact (by decide : isIdentChar '{' = false)
      | cons d mid => exact hedge
    exact Or.inl ⟨front, _, by simpa [hbefore] using hword.congr_back hhead⟩
  · -- Across the seam the first part ends where a value is expected.
    have hxident : ∀ c ∈ x, isIdentChar c = true := fun c hc => hword.ident c (List.mem_append_left y hc)
    have hyident : ∀ c ∈ y, isIdentChar c = true := fun c hc => hword.ident c (List.mem_append_right x hc)
    have hreturn := isReturn_of_valueExpected hvalue hbefore hword.before hx hxident
    refine Or.inr ⟨front, x, y, back, ?_, rfl, ?_⟩
    · exact ⟨by simp [hbefore], hreturn, hword.before, hy, hyident, hword.behind⟩
    · rw [← hbefore, List.length_reverse]

/-- A literal that is deleted before a name is joined, or between its parts, leaves the name joined. -/
theorem joinedBetween_of_literal (inside : List Char) (hvalue : valueExpected before = true)
    {front ret inner word back : List Char} (h : JoinedBetween front ret inner word back (before.reverse ++ rest))
    (hplace : before.length ≤ (front ++ ret).length) :
    ∃ front' inner',
      JoinedBetween front' ret inner' word back (before.reverse ++ '{' :: (inside ++ '}' :: rest)) ∧
        before.length ≤ (front' ++ ret).length := by
  rcases h.stands_return.of_append with ⟨mid, rfl, rfl⟩ | ⟨mid, hbefore, hrest⟩ |
    ⟨x, y, hx, hy, rfl, hbefore, -⟩
  · -- The literal stands before `return`.
    refine ⟨before.reverse ++ '{' :: (inside ++ '}' :: mid), inner, ?_, by simp⟩
    have hlast : IsEdge (before.reverse ++ '{' :: (inside ++ '}' :: mid)).getLast? := by
      have hedge := h.before
      cases hmid : mid.getLast? with
      | none =>
          simp [List.getLast?_cons, hmid]
          decide
      | some d => simpa [List.getLast?_cons, hmid] using hedge
    exact ⟨by simp, h.isReturn, hlast, h.nonempty, h.ident, h.behind⟩
  · -- The literal stands right behind `return`, and before the other one.
    have hmid : mid = [] := by
      have hlength := congrArg List.length hbefore
      simp only [List.length_reverse, List.length_append] at hlength hplace
      exact List.eq_nil_of_length_eq_zero (by omega)
    subst hmid
    rw [List.append_nil] at hbefore
    rw [List.nil_append] at hrest
    refine ⟨front, inside ++ '}' :: '{' :: inner, ?_, hplace⟩
    exact ⟨by simp [hbefore, ← hrest], h.isReturn, h.before, h.nonempty, h.ident, h.behind⟩
  · -- No part of `return` is the word `return`.
    have hident := isIdentChar_of_isReturn h.isReturn
    have hpart := isReturn_of_valueExpected hvalue hbefore h.before hx
      (fun c hc => hident c (List.mem_append_left y hc))
    have hlength := length_of_isReturn h.isReturn
    rw [List.length_append, length_of_isReturn hpart] at hlength
    exact absurd (List.eq_nil_of_length_eq_zero (by omega)) hy

end Literal

/-- The literals are deleted from the left to the right, so that no word is joined twice: a name that is joined
from some place on is `return` with the word behind the literals there. -/
theorem madeFrom_of_dropLiteralsFrom (before cs : List Char) {name : List Char}
    (hname : Stands name (before.reverse ++ dropLiteralsFrom before cs)) :
    Stands name (before.reverse ++ cs) ∨
      ∃ front ret inside word back, JoinedBetween front ret inside word back (before.reverse ++ cs) ∧
        name = ret ++ word ∧ before.length ≤ (front ++ ret).length := by
  have hkeep : ∀ (before : List Char) (c : Char) (cs : List Char),
      before.reverse ++ c :: cs = (c :: before).reverse ++ cs := by simp
  fun_induction dropLiteralsFrom before cs with
  | case1 => exact Or.inl hname
  | case2 before c cs hvalue rest hclose ih =>
      obtain ⟨rfl, hvalue⟩ := hvalue
      obtain ⟨inside, rfl, -⟩ := (afterClose_eq_some_iff 0 cs rest).1 hclose
      rcases ih hname with hstands | ⟨front, ret, inner, word, back, hjoined, hname, hplace⟩
      · rcases madeFrom_of_stands inside hvalue hstands with
          hstands | ⟨front, ret, word, back, hjoined, hname, hplace⟩
        · exact Or.inl hstands
        · exact Or.inr ⟨front, ret, inside, word, back, hjoined, hname, hplace.le⟩
      · obtain ⟨front', inner', hjoined', hplace'⟩ :=
          joinedBetween_of_literal inside hvalue hjoined hplace
        exact Or.inr ⟨front', ret, inner', word, back, hjoined', hname, hplace'⟩
  | case3 before c cs _ _ ih =>
      rw [hkeep] at hname ⊢
      refine (ih hname).imp id ?_
      rintro ⟨front, ret, inside, word, back, hjoined, hname, hplace⟩
      exact ⟨front, ret, inside, word, back, hjoined, hname, Nat.le_of_succ_le hplace⟩
  | case4 before c cs _ ih =>
      rw [hkeep] at hname ⊢
      refine (ih hname).imp id ?_
      rintro ⟨front, ret, inside, word, back, hjoined, hname, hplace⟩
      exact ⟨front, ret, inside, word, back, hjoined, hname, Nat.le_of_succ_le hplace⟩

theorem madeFrom_of_dropLiterals {line name : List Char} (h : Stands name (dropLiterals line)) :
    MadeFrom line name := by
  rcases madeFrom_of_dropLiteralsFrom [] line h with
    hstands | ⟨front, ret, inside, word, back, hjoined, rfl, -⟩
  · exact .word hstands
  · exact .joined hjoined

end Skeleton
end ScriptSymbols
