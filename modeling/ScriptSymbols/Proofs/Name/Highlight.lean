import ScriptSymbols.Proofs.Name.Word
import ScriptSymbols.Proofs.Text.Lowercase
import ScriptSymbols.Workspace.Query

/-!
# Highlighted names

A name is looked for in the lower case of a line, and what is highlighted is the text at the same byte offset of
the line itself. The line is left alone if its lower case takes another number of bytes. This does not keep the
two in step: where some letters take more bytes in lower case and others take fewer, offsets between them point
to other places, and a name that takes another number of bytes in lower case is given another length.

1. `Name.of_mem_occurrencesFrom`, `Name.of_standsAlone` and `Name.of_span?` say what was found.
2. `Name.lowersTo_of_span` says when the text at the offset is what was found, and `Name.exists_highlight` what
   the columns cut out of the line.
3. `Workspace.highlighted_text_is_name` is the result for every name on every line.
-/

namespace ScriptSymbols

open Text

namespace Name

/-! ## What is found -/

theorem of_mem_occurrencesFrom {needle cs : List Char} {offset skip start : Nat}
    (h : start ∈ occurrencesFrom needle offset skip cs) :
    ∃ front rest, cs = front ++ (needle ++ rest) ∧ start = offset + byteSize front := by
  -- A later occurrence has one more character before it.
  have hlater : ∀ {offset : Nat} {c : Char} {cs : List Char},
      (∃ front rest, cs = front ++ (needle ++ rest) ∧ start = offset + c.utf8Size + byteSize front) →
      ∃ front rest, c :: cs = front ++ (needle ++ rest) ∧ start = offset + byteSize front := by
    rintro offset c cs ⟨front, rest, rfl, hstart⟩
    refine ⟨c :: front, rest, rfl, ?_⟩
    rw [hstart, byteSize_cons, Nat.add_assoc]
  fun_induction occurrencesFrom needle offset skip cs with
  | case1 => cases h
  | case2 offset skip c cs _ ih => exact hlater (ih h)
  | case3 offset skip c cs _ hprefix ih =>
      rcases List.mem_cons.1 h with rfl | hrest
      · obtain ⟨rest, hrest⟩ := List.isPrefixOf_iff_prefix.1 hprefix
        exact ⟨[], rest, by rw [List.nil_append, hrest], rfl⟩
      · exact hlater (ih hrest)
  | case4 offset skip c cs _ _ ih => exact hlater (ih h)

theorem of_standsAlone {line : List Char} {size offset : Nat} (h : standsAlone line size offset = true) :
    ∃ before place behind, line = before ++ (place ++ behind) ∧ byteSize before = offset ∧
      byteSize place = size ∧ IsEdge before.getLast? ∧ IsEdge behind.head? := by
  unfold standsAlone at h
  split at h
  · rename_i before rest front behind hbefore hfront
    obtain ⟨hline, hoffset⟩ := splitAtByte?_eq_some_iff.1 hbefore
    obtain ⟨hline', hsize⟩ := splitAtByte?_eq_some_iff.1 hfront
    have hprefix : before <+: front :=
      isPrefix_of_total_le Char.utf8Size_pos ⟨rest, hline.symm⟩ ⟨behind, hline'.symm⟩
        (show byteSize before ≤ byteSize front by omega)
    obtain ⟨place, rfl⟩ := hprefix
    rw [byteSize_append] at hsize
    rw [Bool.and_eq_true, Bool.not_eq_true', Bool.not_eq_true'] at h
    exact ⟨before, place, behind, by rw [hline', List.append_assoc], hoffset.symm, by omega, h.1, h.2⟩
  · cases h

/-- Columns end at boundaries, also that of an offset inside a character or behind the text. -/
theorem exists_columnOfByte (cs : List Char) (offset : Nat) :
    ∃ front rest, cs = front ++ rest ∧ columnOfByte cs offset = units front := by
  fun_induction columnOfByte cs offset with
  | case1 => exact ⟨[], [], rfl, rfl⟩
  | case2 c cs => exact ⟨[], c :: cs, rfl, rfl⟩
  | case3 c cs offset _ ih =>
      obtain ⟨front, rest, rfl, hcolumn⟩ := ih
      exact ⟨c :: front, rest, rfl, by rw [hcolumn, units_cons]⟩

/-- A name that is found stands in the lower case of the line at a byte offset at which the line has a text
between edges, with as many bytes as the name has in lower case. The columns are those of the offset and of the
end of the name as it is written. -/
theorem of_span? {line name : List Char} {start stop : Nat} (h : span? line name = some (start, stop)) :
    ∃ before place behind front rest, line = before ++ (place ++ behind) ∧
      lowercase line = front ++ (lowercase name ++ rest) ∧ byteSize front = byteSize before ∧
      byteSize place = byteSize (lowercase name) ∧ IsEdge before.getLast? ∧ IsEdge behind.head? ∧
      start = units before ∧ stop = units before + columnOfByte (place ++ behind) (byteSize name) := by
  unfold span? at h
  dsimp only at h
  split at h
  · cases h
  · obtain ⟨offset, hfound, hcolumns⟩ := Option.map_eq_some_iff.1 h
    obtain ⟨front, rest, hlower, hfront⟩ := of_mem_occurrencesFrom (List.mem_of_find?_eq_some hfound)
    obtain ⟨before, place, behind, rfl, hbefore, hplace, hleft, hright⟩ :=
      of_standsAlone (List.find?_some hfound)
    cases hcolumns
    refine ⟨before, place, behind, front, rest, rfl, hlower, by omega, hplace, hleft, hright, ?_, ?_⟩
    · rw [← hbefore, columnOfByte_byteSize]
    · rw [← hbefore, columnOfByte_append]

/-- Where lower case takes as many bytes as the line, both before the offset and at it, the text at the offset
is the one that was found. -/
theorem lowersTo_of_span {before place behind front needle rest : List Char}
    (hlower : lowercase (before ++ (place ++ behind)) = front ++ (needle ++ rest))
    (hfront : byteSize front = byteSize before) (hplace : byteSize place = byteSize needle)
    (hbefore : KeepsSize before) (hkeeps : KeepsSize place) : LowersTo place needle := by
  obtain ⟨low, hlow, hsplit⟩ := lowerFrom_append [] before (place ++ behind)
  obtain ⟨mid, hmid, hsplit'⟩ := lowerFrom_append (before.reverse ++ []) place behind
  rw [lowercase, hsplit, hsplit'] at hlower
  -- The lower case is cut twice at the offsets at which the line is cut.
  have hstart : byteSize low = byteSize front :=
    calc byteSize low
        = byteSize (lowercase before) := hlow.byteSize_eq
      _ = byteSize before := hbefore
      _ = byteSize front := hfront.symm
  have hlength : byteSize mid = byteSize needle :=
    calc byteSize mid
        = byteSize (lowercase place) := hmid.byteSize_eq
      _ = byteSize place := hkeeps
      _ = byteSize needle := hplace
  obtain ⟨-, hrest⟩ := append_inj_of_total Char.utf8Size_pos hlower hstart
  obtain ⟨rfl, -⟩ := append_inj_of_total Char.utf8Size_pos hrest hlength
  exact hmid

/-- The columns of a name cut out a text behind an edge. If the name keeps its number of bytes in lower case, this
is the text at the offset that was found, and there is an edge behind it, too. -/
theorem exists_highlight {line name : List Char} {start stop : Nat} (h : span? line name = some (start, stop)) :
    ∃ before word behind, line = before ++ (word ++ behind) ∧ start = units before ∧
      stop = units (before ++ word) ∧ IsEdge before.getLast? ∧
      (KeepsSize name →
        IsEdge behind.head? ∧ byteSize word = byteSize (lowercase name) ∧
          (KeepsSize before → KeepsSize word → LowersTo word (lowercase name))) := by
  obtain ⟨before, place, behind, front, rest, rfl, hlower, hfront, hplace, hleft, hright, hstart, hstop⟩ :=
    of_span? h
  obtain ⟨word, tail, hword, hcolumn⟩ := exists_columnOfByte (place ++ behind) (byteSize name)
  rw [hcolumn, ← units_append] at hstop
  refine ⟨before, word, tail, by rw [hword], hstart, hstop, hleft, ?_⟩
  intro hname
  -- The end is where the text at the offset ends, since the name takes as many bytes.
  have hsize : byteSize name = byteSize place := by rw [hplace, hname]
  rw [hsize, columnOfByte_byteSize] at hcolumn
  obtain ⟨rfl, rfl⟩ := append_inj_of_total unitSize_pos hword hcolumn
  exact ⟨hright, hplace, lowersTo_of_span hlower hfront hplace⟩

end Name

/-! ## What is highlighted -/

namespace Workspace

open Name

/-- A range that is not empty comes from a name that was found on the line. -/
theorem exists_span_of_lt {w : Workspace} {uri : Uri} {line : Nat} {name : String}
    (h : (w.nameRange uri line name).start.column < (w.nameRange uri line name).stop.column) :
    ∃ text start stop, w.lineText? uri line = some text ∧ span? text name.toList = some (start, stop) ∧
      w.nameRange uri line name = ⟨⟨line, start⟩, ⟨line, stop⟩⟩ := by
  cases hline : w.lineText? uri line with
  | none => simp [nameRange, hline] at h
  | some text =>
      cases hspan : span? text name.toList with
      | none => simp [nameRange, hline, hspan] at h
      | some span => exact ⟨text, span.1, span.2, rfl, hspan, by simp [nameRange, hline, hspan]⟩

/-- What is highlighted for a name is a part of the line that no identifier character precedes. It is a whole
identifier, with none behind it either, if the name takes as many bytes in lower case as it takes itself. If the
line before the highlight does so too, then the highlight is the name up to lower case exactly if it takes as many
bytes in lower case itself. The surroundings may give a capital sigma its other form in lower case, so that the two
small sigmas count as one letter here; without a capital sigma the lower cases are equal. -/
theorem highlighted_text_is_name (w : Workspace) (uri : Uri) (line : Nat) (name : String)
    (h : (w.nameRange uri line name).start.column < (w.nameRange uri line name).stop.column) :
    ∃ before word behind,
      w.lineText? uri line = some (before ++ (word ++ behind)) ∧
      w.nameRange uri line name = ⟨⟨line, units before⟩, ⟨line, units (before ++ word)⟩⟩ ∧
      word ≠ [] ∧ IsEdge before.getLast? ∧
      (KeepsSize name.toList →
        IsEdge behind.head? ∧ (SameLetters word name.toList → KeepsSize word) ∧
          (KeepsSize before → KeepsSize word →
            SameLetters word name.toList ∧ ('Σ' ∉ word → lowercase word = lowercase name.toList))) := by
  obtain ⟨text, start, stop, hline, hspan, hrange⟩ := exists_span_of_lt h
  obtain ⟨before, word, behind, rfl, rfl, rfl, hleft, hkept⟩ := exists_highlight hspan
  rw [hrange] at h ⊢
  refine ⟨before, word, behind, hline, rfl, ?_, hleft, ?_⟩
  · rintro rfl
    rw [List.append_nil] at h
    exact Nat.lt_irrefl _ h
  · intro hname
    obtain ⟨hright, hsize, hlowers⟩ := hkept hname
    refine ⟨hright, ?_, ?_⟩
    · intro hletters
      rw [KeepsSize, hletters.byteSize_eq, hsize]
    · intro hbefore hkeeps
      have hlower := hlowers hbefore hkeeps
      exact ⟨hlower.mergeSigma_eq.symm, fun hsigma => (hlower.eq_lowercase hsigma).symm⟩

/-- The letters behind the name take more bytes in lower case, and fewer, which does not matter to it. -/
theorem highlighted_text_is_name_before_longer_letters :
    let uri : Uri := ⟨"file:///ws/a.ahk"⟩
    let text := "f(é, ÉTÉ) := Ⱥ\u2126"
    let w : Workspace := { documents := [(uri, Buffer.ofText text none)] }
    (w.nameRange uri 0 "été").start.column < (w.nameRange uri 0 "été").stop.column ∧
      KeepsSize "été".toList ∧ ¬ KeepsSize "Ⱥ".toList ∧ ¬ KeepsSize "\u2126".toList ∧
      ∃ before word behind,
        w.lineText? uri 0 = some (before ++ (word ++ behind)) ∧
        w.nameRange uri 0 "été" = ⟨⟨0, units before⟩, ⟨0, units (before ++ word)⟩⟩ ∧
        KeepsSize before ∧ KeepsSize word ∧ IsEdge before.getLast? ∧ IsEdge behind.head? ∧
        lowercase word = lowercase "été".toList := by
  intro uri text w
  have hrange : w.nameRange uri 0 "été" = ⟨⟨0, 5⟩, ⟨0, 8⟩⟩ := by decide +kernel
  have hcolumns : (w.nameRange uri 0 "été").start.column < (w.nameRange uri 0 "été").stop.column := by
    rw [hrange]
    decide
  have hname : KeepsSize "été".toList := by decide +kernel
  obtain ⟨before, word, behind, hline, hsame, -, hleft, hrest⟩ :=
    highlighted_text_is_name w uri 0 "été" hcolumns
  obtain ⟨hright, -, hletters⟩ := hrest hname
  -- The columns settle where the line is cut.
  have htext : w.lineText? uri 0 = some ("f(é, ".toList ++ ("ÉTÉ".toList ++ ") := Ⱥ\u2126".toList)) := by
    decide +kernel
  have hcut : before ++ (word ++ behind) = "f(é, ".toList ++ ("ÉTÉ".toList ++ ") := Ⱥ\u2126".toList) :=
    Option.some.inj (hline.symm.trans htext)
  rw [hrange] at hsame
  injection hsame with hstart hstop
  injection hstart with _ hstart
  injection hstop with _ hstop
  have hfive : units "f(é, ".toList = 5 := by decide
  have hthree : units "ÉTÉ".toList = 3 := by decide
  obtain ⟨rfl, hback⟩ := append_inj_of_total unitSize_pos hcut (hstart.symm.trans hfive.symm)
  rw [units_append, hfive] at hstop
  have hword : units word = units "ÉTÉ".toList := by omega
  obtain ⟨rfl, rfl⟩ := append_inj_of_total unitSize_pos hback hword
  have hbefore : KeepsSize "f(é, ".toList := by decide +kernel
  have hkeeps : KeepsSize "ÉTÉ".toList := by decide +kernel
  exact ⟨hcolumns, hname, by decide +kernel, by decide +kernel, _, _, _, hline, hrange, hbefore, hkeeps, hleft,
    hright, (hletters hbefore hkeeps).2 (by simp)⟩

/-- Two letters before the name take one more byte each in lower case, and two behind it take one less. The
highlight is two bytes behind the name, on a blank. -/
theorem highlight_slips_behind_longer_letters :
    let uri : Uri := ⟨"file:///ws/a.ahk"⟩
    let w : Workspace := { documents := [(uri, Buffer.ofText "global ȺȺ, x,  \u2126\u2126" none)] }
    w.nameRange uri 0 "x" = ⟨⟨0, 13⟩, ⟨0, 14⟩⟩ ∧
      w.lineText? uri 0 = some ("global ȺȺ, x,".toList ++ (" ".toList ++ " \u2126\u2126".toList)) ∧
      units "global ȺȺ, x,".toList = 13 ∧ units ("global ȺȺ, x,".toList ++ " ".toList) = 14 ∧
      lowercase " ".toList ≠ lowercase "x".toList := by
  decide +kernel

/-- A name that takes fewer bytes in lower case is given the length of the name as it is written. -/
example : span? "\u212a := ȺȺ k + 1".toList "\u212a".toList = some (8, 11) := by
  decide +kernel

/-- The point and the letter behind a sigma keep it from being final on this line. -/
example : span? "ΑΣ.Β".toList "ασ".toList = some (0, 2) ∧ SameLetters "ΑΣ".toList "ασ".toList ∧
    lowercase "ΑΣ".toList ≠ lowercase "ασ".toList := by
  decide +kernel

end Workspace
end ScriptSymbols
