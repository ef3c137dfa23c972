import ScriptSymbols.Proofs.Skeleton.Stability
import ScriptSymbols.Text.Utf8

/-!
# The size of decoded files

Bytes are read one sequence at a time. A sequence either is the form of its character, or is malformed: then it
has at most three bytes and becomes a replacement character, which takes three. So a text is never shorter than
the bytes that it is read from, and how much longer it is shows in the malformed sequences alone.

1. `Text.readAs_firstSequence` says what a sequence can be.
2. `Text.malformed` lists the malformed sequences of a file.
3. `Text.byteSize_decode` is the size of the text of a file, and `Text.byteSize_decodeFile` its size without the
   byte order mark.
-/

namespace ScriptSymbols
namespace Text

/-! ## Characters and their bytes -/

theorem length_encode (cs : List Char) : (encode cs).length = byteSize cs := by
  induction cs with
  | nil => rfl
  | cons c cs ih =>
      have hcons : encode (c :: cs) = String.utf8EncodeChar c ++ encode cs := rfl
      rw [hcons, List.length_append, ih, String.length_utf8EncodeChar]
      rfl

theorem encode_singleton (c : Char) : encode [c] = String.utf8EncodeChar c := by
  simp [encode]

theorem toNat_ofNat_of_valid {v : Nat} (h : v.isValidChar) : (Char.ofNat v).val.toNat = v := by
  rw [Char.ofNat, dif_pos h]
  rfl

theorem encode_one {b : UInt8} (hb : b.toNat < 0x80) : encode [Char.ofNat b.toNat] = [b] := by
  have hvalid : b.toNat.isValidChar := Or.inl (by omega)
  rw [encode_singleton, String.utf8EncodeChar, toNat_ofNat_of_valid hvalid]
  rw [if_pos (by omega), UInt8.ofNat_toNat]

theorem encode_two {x y : UInt8} (hx : 0xC2 ≤ x.toNat ∧ x.toNat < 0xE0)
    (hy : 0x80 ≤ y.toNat ∧ y.toNat ≤ 0xBF) :
    encode [Char.ofNat ((x.toNat - 0xC0) * 64 + (y.toNat - 0x80))] = [x, y] := by
  generalize hv : (x.toNat - 0xC0) * 64 + (y.toNat - 0x80) = v
  have hvalid : v.isValidChar := Or.inl (by omega)
  have hfirst : v / 64 % 32 + 192 = x.toNat := by omega
  have hsecond : v % 64 + 128 = y.toNat := by omega
  rw [encode_singleton, String.utf8EncodeChar, toNat_ofNat_of_valid hvalid]
  rw [if_neg (by omega), if_pos (by omega), hfirst, hsecond, UInt8.ofNat_toNat, UInt8.ofNat_toNat]

theorem encode_three {x y z : UInt8} (hx : 0xE0 ≤ x.toNat ∧ x.toNat < 0xF0)
    (hy : (if x.toNat = 0xE0 then 0xA0 else 0x80) ≤ y.toNat ∧
      y.toNat ≤ if x.toNat = 0xED then 0x9F else 0xBF)
    (hz : 0x80 ≤ z.toNat ∧ z.toNat ≤ 0xBF) :
    encode [Char.ofNat (((x.toNat - 0xE0) * 64 + (y.toNat - 0x80)) * 64 + (z.toNat - 0x80))] =
      [x, y, z] := by
  generalize hv : ((x.toNat - 0xE0) * 64 + (y.toNat - 0x80)) * 64 + (z.toNat - 0x80) = v
  -- The bounds on the second byte keep out what has a shorter form, and surrogates.
  have hsecondByte : (x.toNat = 0xE0 → 0xA0 ≤ y.toNat) ∧ (x.toNat = 0xED → y.toNat ≤ 0x9F) ∧
      0x80 ≤ y.toNat ∧ y.toNat ≤ 0xBF := by
    split at hy <;> split at hy <;> omega
  have hvalid : v.isValidChar := by
    unfold Nat.isValidChar
    omega
  have hlow : 2047 < v := by omega
  have hfirst : v / 4096 % 16 + 224 = x.toNat := by omega
  have hsecond : v / 64 % 64 + 128 = y.toNat := by omega
  have hthird : v % 64 + 128 = z.toNat := by omega
  rw [encode_singleton, String.utf8EncodeChar, toNat_ofNat_of_valid hvalid]
  rw [if_neg (by omega), if_neg (by omega), if_pos (by omega), hfirst, hsecond, hthird,
    UInt8.ofNat_toNat, UInt8.ofNat_toNat, UInt8.ofNat_toNat]

theorem encode_four {x y z u : UInt8} (hx : 0xF0 ≤ x.toNat ∧ x.toNat < 0xF5)
    (hy : (if x.toNat = 0xF0 then 0x90 else 0x80) ≤ y.toNat ∧
      y.toNat ≤ if x.toNat = 0xF4 then 0x8F else 0xBF)
    (hz : 0x80 ≤ z.toNat ∧ z.toNat ≤ 0xBF) (hu : 0x80 ≤ u.toNat ∧ u.toNat ≤ 0xBF) :
    encode [Char.ofNat ((((x.toNat - 0xF0) * 64 + (y.toNat - 0x80)) * 64 + (z.toNat - 0x80)) * 64 +
      (u.toNat - 0x80))] = [x, y, z, u] := by
  generalize hv : (((x.toNat - 0xF0) * 64 + (y.toNat - 0x80)) * 64 + (z.toNat - 0x80)) * 64 +
    (u.toNat - 0x80) = v
  -- The bounds on the second byte keep out what has a shorter form, and what is past the last code point.
  have hsecondByte : (x.toNat = 0xF0 → 0x90 ≤ y.toNat) ∧ (x.toNat = 0xF4 → y.toNat ≤ 0x8F) ∧
      0x80 ≤ y.toNat ∧ y.toNat ≤ 0xBF := by
    split at hy <;> split at hy <;> omega
  have hvalid : v.isValidChar := by
    unfold Nat.isValidChar
    omega
  have hlow : 65535 < v := by omega
  have hfirst : v / 262144 % 8 + 240 = x.toNat := by omega
  have hsecond : v / 4096 % 64 + 128 = y.toNat := by omega
  have hthird : v / 64 % 64 + 128 = z.toNat := by omega
  have hfourth : v % 64 + 128 = u.toNat := by omega
  rw [encode_singleton, String.utf8EncodeChar, toNat_ofNat_of_valid hvalid]
  rw [if_neg (by omega), if_neg (by omega), if_neg (by omega), hfirst, hsecond, hthird, hfourth,
    UInt8.ofNat_toNat, UInt8.ofNat_toNat, UInt8.ofNat_toNat, UInt8.ofNat_toNat]

/-! ## One sequence -/

/-- Whether bytes may follow the first one of a character, where the next of them is between `low` and `high`. -/
def Continues (low high : Nat) : List UInt8 → Prop
  | [] => True
  | b :: bytes => (low ≤ b.toNat ∧ b.toNat ≤ high) ∧ Continues 0x80 0xBF bytes

/-- A character is read to its last byte, or given up before. -/
theorem decodeTail_cases (missing low high bits : Nat) (bytes : List UInt8) :
    ∃ tail, tail ++ (decodeTail missing low high bits bytes).2 = bytes ∧
      (tail.length = missing ∧ Continues low high tail ∧
          (decodeTail missing low high bits bytes).1 =
            Char.ofNat (tail.foldl (fun n b => n * 64 + (b.toNat - 0x80)) bits) ∨
        tail.length < missing ∧ (decodeTail missing low high bits bytes).1 = replacement) := by
  induction missing generalizing low high bits bytes with
  | zero => exact ⟨[], rfl, Or.inl ⟨rfl, trivial, rfl⟩⟩
  | succ missing ih =>
      cases bytes with
      | nil => exact ⟨[], rfl, Or.inr ⟨Nat.succ_pos _, rfl⟩⟩
      | cons b bytes =>
          rw [decodeTail]
          split
          · rename_i hb
            obtain ⟨tail, htail, hcases⟩ := ih 0x80 0xBF (bits * 64 + (b.toNat - 0x80)) bytes
            refine ⟨b :: tail, by rw [List.cons_append, htail], ?_⟩
            rcases hcases with ⟨hlength, hbounds, hchar⟩ | ⟨hlength, hchar⟩
            · rw [hchar, List.foldl_cons]
              exact Or.inl ⟨by rw [List.length_cons, hlength], ⟨hb, hbounds⟩, rfl⟩
            · exact Or.inr ⟨Nat.succ_lt_succ hlength, hchar⟩
          · exact ⟨[], rfl, Or.inr ⟨Nat.succ_pos _, rfl⟩⟩

/-- Whether bytes can be read as a character: they are its form, or they are malformed and replaced. -/
def ReadAs (s : List UInt8) (c : Char) : Prop :=
  s = encode [c] ∨ c = replacement ∧ s.length ≤ 3

/-- What is read behind a first byte that asks for more bytes is a form or malformed, if all forms with that
first byte are right. -/
theorem readAs_decodeTail {b : UInt8} {missing low high bits : Nat} (hmissing : missing ≤ 3)
    (hform : ∀ tail : List UInt8, tail.length = missing → Continues low high tail →
      encode [Char.ofNat (tail.foldl (fun n b => n * 64 + (b.toNat - 0x80)) bits)] = b :: tail)
    (bytes : List UInt8) :
    ∃ s, s ++ (decodeTail missing low high bits bytes).2 = b :: bytes ∧
      ReadAs s (decodeTail missing low high bits bytes).1 := by
  obtain ⟨tail, htail, hcases⟩ := decodeTail_cases missing low high bits bytes
  refine ⟨b :: tail, by rw [List.cons_append, htail], ?_⟩
  rcases hcases with ⟨hlength, hbounds, hchar⟩ | ⟨hlength, hchar⟩
  · rw [hchar]
    exact Or.inl (hform tail hlength hbounds).symm
  · refine Or.inr ⟨hchar, ?_⟩
    rw [List.length_cons]
    omega

/-- One character is read from the first bytes of a file. -/
theorem readAs_decodeOne (b : UInt8) (bytes : List UInt8) :
    ∃ s, s ++ (decodeOne b bytes).2 = b :: bytes ∧ ReadAs s (decodeOne b bytes).1 := by
  have hbad : ReadAs [b] replacement := Or.inr ⟨rfl, by simp⟩
  -- The first byte tells the number of bytes that a form has; the forms are the lemmas above.
  unfold decodeOne
  dsimp only
  split
  · rename_i hascii
    exact ⟨[b], rfl, Or.inl (encode_one hascii).symm⟩
  split
  · exact ⟨[b], rfl, hbad⟩
  split
  · refine readAs_decodeTail (by omega) ?_ bytes
    intro tail hlength hbounds
    match tail, hlength, hbounds with
    | [y], _, hbounds => exact encode_two (by omega) hbounds.1
  split
  · refine readAs_decodeTail (by omega) ?_ bytes
    intro tail hlength hbounds
    match tail, hlength, hbounds with
    | [y, z], _, hbounds => exact encode_three (by omega) hbounds.1 hbounds.2.1
  split
  · refine readAs_decodeTail (by omega) ?_ bytes
    intro tail hlength hbounds
    match tail, hlength, hbounds with
    | [y, z, u], _, hbounds => exact encode_four (by omega) hbounds.1 hbounds.2.1 hbounds.2.2.1
  · exact ⟨[b], rfl, hbad⟩

/-! ## Whole files -/

theorem decode_nil : decode [] = [] := by
  rw [decode, decodeOnto, List.reverse_nil]

theorem decodeOnto_eq (read : List Char) : ∀ bytes : List UInt8,
    decodeOnto read bytes = read.reverse ++ decode bytes
  | [] => by
      rw [decodeOnto, decode_nil, List.append_nil]
  | b :: bytes => by
      have hshorter := length_decodeOne b bytes
      have hfirst : decode (b :: bytes) = [(decodeOne b bytes).1] ++ decode (decodeOne b bytes).2 := by
        rw [decode, decodeOnto, decodeOnto_eq _ (decodeOne b bytes).2]
        rfl
      rw [decodeOnto, decodeOnto_eq _ (decodeOne b bytes).2, hfirst, List.reverse_cons, List.append_assoc]
termination_by bytes => bytes.length

theorem decode_cons (b : UInt8) (bytes : List UInt8) :
    decode (b :: bytes) = (decodeOne b bytes).1 :: decode (decodeOne b bytes).2 := by
  rw [decode, decodeOnto, decodeOnto_eq]
  rfl

/-- The bytes that are read as the first character of a file. -/
def firstSequence (b : UInt8) (bytes : List UInt8) : List UInt8 :=
  (b :: bytes).take (bytes.length + 1 - (decodeOne b bytes).2.length)

theorem readAs_firstSequence (b : UInt8) (bytes : List UInt8) :
    firstSequence b bytes ++ (decodeOne b bytes).2 = b :: bytes ∧
      ReadAs (firstSequence b bytes) (decodeOne b bytes).1 := by
  obtain ⟨s, hs, hread⟩ := readAs_decodeOne b bytes
  have hlength : bytes.length + 1 = s.length + (decodeOne b bytes).2.length := by
    rw [← List.length_append, hs, List.length_cons]
  -- What is left tells how many bytes were taken.
  have hfirst : firstSequence b bytes = s := by
    rw [firstSequence, hlength, Nat.add_sub_cancel, ← hs, List.take_left]
  rw [hfirst]
  exact ⟨hs, hread⟩

/-- The malformed sequences of a file: those that are not the form of the character that they are read as. -/
def malformed : List UInt8 → List (List UInt8)
  | [] => []
  | b :: bytes =>
    if firstSequence b bytes = encode [(decodeOne b bytes).1] then malformed (decodeOne b bytes).2
    else firstSequence b bytes :: malformed (decodeOne b bytes).2
termination_by bytes => bytes.length
decreasing_by all_goals exact Nat.lt_succ_of_le (length_decodeOne b bytes)

/-- The number of bytes that a text has more than the bytes that it is read from: each malformed sequence is
replaced by three bytes. -/
def gained (bytes : List UInt8) : Nat :=
  total (fun s => 3 - s.length) (malformed bytes)

theorem length_firstSequence (b : UInt8) (bytes : List UInt8) :
    (firstSequence b bytes).length + (decodeOne b bytes).2.length = bytes.length + 1 := by
  rw [← List.length_append, (readAs_firstSequence b bytes).1, List.length_cons]

/-- A text has as many bytes as the file that it is read from, and those that malformed sequences gain. -/
theorem byteSize_decode (bytes : List UInt8) :
    byteSize (decode bytes) = bytes.length + gained bytes := by
  unfold gained
  fun_induction malformed bytes with
  | case1 =>
      rw [decode_nil]
      rfl
  | case2 b bytes hform ih =>
      have hlength := length_firstSequence b bytes
      have hsize : (decodeOne b bytes).1.utf8Size = (firstSequence b bytes).length := by
        rw [hform, encode_singleton, String.length_utf8EncodeChar]
      rw [decode_cons, byteSize, total_cons, ← byteSize, ih, hsize, List.length_cons]
      omega
  | case3 b bytes hform ih =>
      -- The sequence has at most three bytes, so the subtraction in `gained` is not cut off.
      have hlength := length_firstSequence b bytes
      obtain ⟨hchar, hshort⟩ := (readAs_firstSequence b bytes).2.resolve_left hform
      have hsize : (decodeOne b bytes).1.utf8Size = 3 := by
        rw [hchar]
        rfl
      rw [decode_cons, byteSize, total_cons, ← byteSize, ih, hsize, List.length_cons, total_cons]
      omega

theorem gained_of_isUtf8 {bytes : List UInt8} (h : isUtf8 bytes = true) : gained bytes = 0 := by
  have hsame : encode (decode bytes) = bytes := by
    simpa [isUtf8] using h
  have hsize := byteSize_decode bytes
  rw [← length_encode, hsame] at hsize
  omega

/-! ## The byte order mark -/

/-- The bytes of a byte order mark. -/
def byteOrderMark : List UInt8 :=
  [0xEF, 0xBB, 0xBF]

/-- The number of bytes that the text of a file loses with the byte order mark at its start. -/
def lost (bytes : List UInt8) : Nat :=
  if byteOrderMark.isPrefixOf bytes then 3 else 0

theorem encode_mark : encode ['\ufeff'] = byteOrderMark := by
  decide

/-- A byte order mark is read exactly if its bytes are there. -/
theorem head?_decode_eq_mark_iff (bytes : List UInt8) :
    (decode bytes).head? = some '\ufeff' ↔ byteOrderMark <+: bytes := by
  constructor
  · intro hhead
    cases bytes with
    | nil => simp [decode_nil] at hhead
    | cons b bytes =>
        have hchar : (decodeOne b bytes).1 = '\ufeff' := by
          simpa [decode_cons] using hhead
        obtain ⟨happend, hread⟩ := readAs_firstSequence b bytes
        rw [hchar] at hread
        -- The mark is no replacement character, so it is read from its form only.
        have hform : firstSequence b bytes = byteOrderMark := by
          rw [← encode_mark]
          exact hread.resolve_right fun hbad => absurd hbad.1 (by decide)
        rw [← happend, hform]
        exact List.prefix_append _ _
  · rintro ⟨rest, rfl⟩
    have hone : decodeOne 0xEF (0xBB :: 0xBF :: rest) = ('\ufeff', rest) := by
      simp [decodeOne, decodeTail]
    have hcons : byteOrderMark ++ rest = 0xEF :: 0xBB :: 0xBF :: rest := rfl
    rw [hcons, decode_cons, hone]
    rfl

/-- The text of a file has the size of the file, with what malformed sequences gain and without the mark. -/
theorem byteSize_decodeFile (bytes : List UInt8) :
    byteSize (decodeFile bytes).toList + lost bytes = bytes.length + gained bytes := by
  have hmark := head?_decode_eq_mark_iff bytes
  rw [← List.isPrefixOf_iff_prefix] at hmark
  rw [← byteSize_decode, decodeFile, String.toList_ofList, lost]
  cases htext : decode bytes with
  | nil =>
      rw [htext] at hmark
      rw [if_neg fun h => by simpa using hmark.2 h]
      rfl
  | cons c cs =>
      rw [htext, List.head?_cons, Option.some_inj] at hmark
      by_cases hc : c = '\ufeff'
      · rw [dropMark, if_pos hc, if_pos (hmark.1 hc), hc, byteSize, byteSize, total_cons, Nat.add_comm]
        rfl
      · rw [dropMark, if_neg hc, if_neg fun h => hc (hmark.2 h), Nat.add_zero]

end Text
end ScriptSymbols
