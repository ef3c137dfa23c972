import ScriptSymbols.Proofs.Text.Boundaries
import ScriptSymbols.Text.Lowercase

/-!
# Lower case in place

The lower case of a text is not put together from the lower cases of its parts: a capital sigma has two of them,
and what stands around it decides. Up to this one letter it is, and the bytes that it takes do not depend on the
choice, since both small sigmas take two.

1. `Text.lowerEach` maps every character by itself, and `Text.LowersTo` says that a text is the lower case of
   another one in some surroundings.
2. `Text.lowerFrom_append` takes the lower case of a text apart at any place.
3. `Text.LowersTo.mergeSigma_eq` and `Text.LowersTo.byteSize_eq` say what does not depend on the surroundings, and
   `Text.LowersTo.eq_lowercase` that without a capital sigma nothing does.
-/

namespace ScriptSymbols
namespace Text

/-! ## One small sigma -/

/-- The text with the small sigma of the inner of a word in place of the final one. -/
def mergeSigma (cs : List Char) : List Char :=
  cs.map fun c => if c = 'ς' then 'σ' else c

@[simp]
theorem mergeSigma_append (a b : List Char) : mergeSigma (a ++ b) = mergeSigma a ++ mergeSigma b :=
  List.map_append

@[simp]
theorem mergeSigma_cons (c : Char) (cs : List Char) :
    mergeSigma (c :: cs) = (if c = 'ς' then 'σ' else c) :: mergeSigma cs := rfl

theorem byteSize_mergeSigma (cs : List Char) : byteSize (mergeSigma cs) = byteSize cs := by
  induction cs with
  | nil => rfl
  | cons c cs ih =>
      have hsize : (if c = 'ς' then 'σ' else c).utf8Size = c.utf8Size := by
        split
        · rename_i hsigma
          rw [hsigma]
          decide
        · rfl
      rw [mergeSigma_cons, byteSize_cons, byteSize_cons, hsize, ih]

/-- Whether two texts are the same in lower case, where the two small sigmas count as one letter. -/
def SameLetters (a b : List Char) : Prop :=
  mergeSigma (lowercase a) = mergeSigma (lowercase b)

/-- Whether a text takes as many bytes in lower case as it takes itself. -/
def KeepsSize (cs : List Char) : Prop :=
  byteSize (lowercase cs) = byteSize cs

instance (a b : List Char) : Decidable (SameLetters a b) :=
  inferInstanceAs (Decidable (mergeSigma (lowercase a) = mergeSigma (lowercase b)))

instance (cs : List Char) : Decidable (KeepsSize cs) :=
  inferInstanceAs (Decidable (byteSize (lowercase cs) = byteSize cs))

/-! ## Characters by themselves -/

/-- The lower case of a character wherever it stands, but for a final sigma. -/
def lowerPiece (c : Char) : List Char :=
  if c = 'İ' then ['i', '\u0307'] else [lowerChar c]

/-- The text with every character in lower case by itself. -/
def lowerEach (cs : List Char) : List Char :=
  cs.flatMap lowerPiece

@[simp]
theorem lowerEach_cons (c : Char) (cs : List Char) : lowerEach (c :: cs) = lowerPiece c ++ lowerEach cs := rfl

theorem lowerPiece_sigma : lowerPiece 'Σ' = ['σ'] := by
  decide +kernel

/-- One step of the lower case: a sigma in one of its two forms, or the character by itself. -/
theorem lowerFrom_cons (before cs : List Char) (c : Char) :
    ∃ piece, lowerFrom before (c :: cs) = piece ++ lowerFrom (c :: before) cs ∧
      mergeSigma piece = mergeSigma (lowerPiece c) ∧ (c ≠ 'Σ' → piece = lowerPiece c) := by
  rw [lowerFrom]
  by_cases hsigma : c = 'Σ'
  · -- Merged, both forms of the small sigma are the one of the inner of a word.
    rw [if_pos hsigma, hsigma, lowerPiece_sigma]
    split
    · exact ⟨['ς'], rfl, rfl, fun h => absurd rfl h⟩
    · exact ⟨['σ'], rfl, rfl, fun h => absurd rfl h⟩
  · rw [if_neg hsigma]
    refine ⟨lowerPiece c, ?_, rfl, fun _ => rfl⟩
    rw [lowerPiece]
    split
    · rfl
    · rfl

/-! ## Texts in place -/

/-- Whether a text is the lower case of another one in some surroundings. -/
structure LowersTo (cs low : List Char) : Prop where
  merged : mergeSigma low = mergeSigma (lowerEach cs)
  exact_of : 'Σ' ∉ cs → low = lowerEach cs

/-- The lower case of two texts, one behind the other, is a lower case of the first one with that of the second
one behind it. -/
theorem lowerFrom_append (before a b : List Char) :
    ∃ low, LowersTo a low ∧ lowerFrom before (a ++ b) = low ++ lowerFrom (a.reverse ++ before) b := by
  induction a generalizing before with
  | nil => exact ⟨[], ⟨rfl, fun _ => rfl⟩, rfl⟩
  | cons c a ih =>
      obtain ⟨piece, hpiece, hmerged, hexact⟩ := lowerFrom_cons before (a ++ b) c
      obtain ⟨low, hlow, hrest⟩ := ih (c :: before)
      refine ⟨piece ++ low, ⟨?_, ?_⟩, ?_⟩
      · rw [mergeSigma_append, hmerged, hlow.merged, lowerEach_cons, mergeSigma_append]
      · intro hsigma
        obtain ⟨hc, hsigma⟩ := List.ne_and_not_mem_of_not_mem_cons hsigma
        rw [hexact hc.symm, hlow.exact_of hsigma, lowerEach_cons]
      · rw [List.cons_append, hpiece, hrest, List.append_assoc, List.reverse_cons, List.append_assoc]
        rfl

theorem lowersTo_lowercase (cs : List Char) : LowersTo cs (lowercase cs) := by
  obtain ⟨low, hlow, hsplit⟩ := lowerFrom_append [] cs []
  rw [List.append_nil] at hsplit
  rw [lowercase, hsplit]
  simpa [lowerFrom] using hlow

namespace LowersTo

variable {cs low : List Char}

theorem mergeSigma_eq (h : LowersTo cs low) : mergeSigma low = mergeSigma (lowercase cs) :=
  h.merged.trans (lowersTo_lowercase cs).merged.symm

/-- The surroundings do not change the number of bytes. -/
theorem byteSize_eq (h : LowersTo cs low) : byteSize low = byteSize (lowercase cs) := by
  rw [← byteSize_mergeSigma low, h.mergeSigma_eq, byteSize_mergeSigma]

theorem eq_lowercase (h : LowersTo cs low) (hsigma : 'Σ' ∉ cs) : low = lowercase cs :=
  (h.exact_of hsigma).trans ((lowersTo_lowercase cs).exact_of hsigma).symm

end LowersTo

/-- Texts with the same letters take the same number of bytes in lower case. -/
theorem SameLetters.byteSize_eq {a b : List Char} (h : SameLetters a b) :
    byteSize (lowercase a) = byteSize (lowercase b) := by
  rw [← byteSize_mergeSigma, h, byteSize_mergeSigma]

end Text
end ScriptSymbols
