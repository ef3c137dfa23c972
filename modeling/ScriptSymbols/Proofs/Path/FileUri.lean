import ScriptSymbols.Uri

/-!
# Paths and their URIs

A path is compared by its components, which are the pieces between its slashes that name something.
The URI of an absolute path writes these components, and the path that is read back from it has the
same components.

* `Path.names` are the components behind the root, and `Path.filter_splitSlash_join` adds one to them.
* `Path.ofNames` is the path that writes given names.
* `Uri.percentDecode_percentEncode` undoes the writing of a byte.
* `Uri.ofNames` is the URI that writes given names, and `Uri.path?_ofNames` the path that is read back
  from it.
* `Uri.ofNames_injective`: different names have different URIs.
-/

namespace ScriptSymbols

open Text

namespace Path

/-! ## Pieces between slashes -/

theorem splitSlash_ne_nil (bytes : List UInt8) : splitSlash bytes ≠ [] := by
  cases bytes with
  | nil => simp [splitSlash]
  | cons b bytes =>
      rw [splitSlash]
      split
      · simp
      · split <;> simp

/-- A slash divides the pieces before it from those behind it. -/
theorem splitSlash_append (front back : List UInt8) :
    splitSlash (front ++ slash :: back) = splitSlash front ++ splitSlash back := by
  induction front with
  | nil => simp [splitSlash]
  | cons b front ih =>
      by_cases hb : b = slash
      · simp [splitSlash, hb, ih]
      · cases hpieces : splitSlash front with
        | nil => exact absurd hpieces (splitSlash_ne_nil front)
        | cons piece pieces => simp [splitSlash, hb, ih, hpieces]

theorem splitSlash_of_not_mem {name : List UInt8} (h : slash ∉ name) : splitSlash name = [name] := by
  induction name with
  | nil => rfl
  | cons b name ih =>
      have hb : b ≠ slash := by
        rintro rfl
        exact h List.mem_cons_self
      have hname : slash ∉ name := fun hmem => h (List.mem_cons_of_mem b hmem)
      simp [splitSlash, hb, ih hname]

theorem exists_mem_splitSlash {bytes : List UInt8} {b : UInt8} (hmem : b ∈ bytes)
    (hb : b ≠ slash) : ∃ piece ∈ splitSlash bytes, b ∈ piece := by
  induction bytes with
  | nil => cases hmem
  | cons c bytes ih =>
      rw [splitSlash]
      rcases List.mem_cons.1 hmem with rfl | hrest
      · rw [if_neg hb]
        split
        · exact ⟨[b], List.mem_cons_self, List.mem_cons_self⟩
        · exact ⟨_, List.mem_cons_self, List.mem_cons_self⟩
      · rcases ih hrest with ⟨piece, hpiece, hin⟩
        split
        · exact ⟨piece, List.mem_cons_of_mem [] hpiece, hin⟩
        · split
          · rename_i hnil
            exact absurd hnil (splitSlash_ne_nil bytes)
          · rename_i first pieces hpieces
            rw [hpieces] at hpiece
            rcases List.mem_cons.1 hpiece with rfl | hlater
            · exact ⟨c :: piece, List.mem_cons_self, List.mem_cons_of_mem c hin⟩
            · exact ⟨piece, List.mem_cons_of_mem (c :: first) hlater, hin⟩

/-! ## Components of absolute paths -/

/-- The components of an absolute path behind the root. -/
def names (p : Path) : List (List UInt8) :=
  (splitSlash p.bytes).filter isNamed

theorem components_of_isAbsolute {p : Path} (h : p.isAbsolute = true) :
    p.components = [slash] :: p.names := by
  simp [components, h, names]

/-- A list of bytes that can stand between two slashes as a name. -/
def IsPiece (name : List UInt8) : Prop :=
  isNamed name = true ∧ slash ∉ name

/-- A byte of a path that is neither a slash nor a dot stands in one of its names. -/
theorem exists_mem_names {p : Path} {b : UInt8} (hmem : b ∈ p.bytes) (hslash : b ≠ slash)
    (hdot : b ≠ dot) : ∃ name ∈ p.names, b ∈ name := by
  rcases exists_mem_splitSlash hmem hslash with ⟨piece, hpiece, hin⟩
  have hnamed : isNamed piece = true := by
    have hne : piece ≠ [] := List.ne_nil_of_mem hin
    have hnotDot : piece ≠ [dot] := by
      rintro rfl
      exact hdot (List.mem_singleton.1 hin)
    simp [isNamed, hne, hnotDot]
  exact ⟨piece, List.mem_filter.2 ⟨hpiece, hnamed⟩, hin⟩

theorem isAbsolute_join {dir name : Path} (h : dir.isAbsolute = true) :
    (dir.join name).isAbsolute = true := by
  unfold join
  split
  · assumption
  · rcases hbytes : dir.bytes with _ | ⟨b, bytes⟩
    · simp [isAbsolute, hbytes] at h
    · have hb : b = slash := by
        simpa [isAbsolute, hbytes] using h
      split <;> simp [isAbsolute, hb]

theorem isAbsolute_of_isPiece {name : List UInt8} (hname : IsPiece name) :
    isAbsolute ⟨name⟩ = false := by
  cases name with
  | nil => rfl
  | cons b name =>
      have hb : b ≠ slash := by
        rintro rfl
        exact hname.2 List.mem_cons_self
      simpa [isAbsolute] using hb

theorem bytes_join_of_isPiece (dir : Path) {name : List UInt8} (hname : IsPiece name) :
    (dir.join ⟨name⟩).bytes =
      if dir.bytes.isEmpty ∨ dir.bytes.getLast? = some slash then dir.bytes ++ name
      else dir.bytes ++ slash :: name := by
  unfold join
  rw [if_neg (by simp [isAbsolute_of_isPiece hname])]
  split <;> rfl

/-- A name below a directory is one more piece behind those of the directory. -/
theorem filter_splitSlash_join (dir : Path) {name : List UInt8} (hname : IsPiece name)
    {keep : List UInt8 → Bool} (hempty : keep [] = false) (hkeep : keep name = true) :
    (splitSlash (dir.join ⟨name⟩).bytes).filter keep =
      (splitSlash dir.bytes).filter keep ++ [name] := by
  have hsingle : (splitSlash name).filter keep = [name] := by
    rw [splitSlash_of_not_mem hname.2]
    simp [hkeep]
  rw [bytes_join_of_isPiece dir hname]
  by_cases hnil : dir.bytes = []
  · rw [if_pos (Or.inl (by simp [hnil])), hnil, List.nil_append, hsingle]
    simp [splitSlash, hempty]
  by_cases hslash : dir.bytes.getLast? = some slash
  · -- The piece behind a slash at the end of the directory is empty, and the name takes its place.
    rcases List.getLast?_eq_some_iff.1 hslash with ⟨front, hfront⟩
    have hclosed : splitSlash (front ++ [slash]) = splitSlash front ++ [[]] :=
      splitSlash_append front []
    rw [if_pos (Or.inr hslash), hfront, List.append_assoc, List.singleton_append, splitSlash_append,
      hclosed, List.filter_append, hsingle]
    simp [hempty]
  · have hopen : ¬ (dir.bytes.isEmpty = true ∨ dir.bytes.getLast? = some slash) := by
      simp [hnil, hslash]
    rw [if_neg hopen, splitSlash_append, List.filter_append, hsingle]

/-- The absolute path that writes names. -/
def ofNames (names : List (List UInt8)) : Path :=
  { bytes := if names.isEmpty then [slash] else names.flatMap (slash :: ·) }

theorem isAbsolute_ofNames (names : List (List UInt8)) : (ofNames names).isAbsolute = true := by
  cases names with
  | nil => rfl
  | cons name names => rfl

theorem splitSlash_flatMap {names : List (List UInt8)} (h : ∀ name ∈ names, IsPiece name) :
    splitSlash (names.flatMap (slash :: ·)) = [] :: names := by
  induction names with
  | nil => rfl
  | cons name names ih =>
      have hname := h name List.mem_cons_self
      have hrest := ih fun n hn => h n (List.mem_cons_of_mem name hn)
      cases names with
      | nil =>
          simp [splitSlash, splitSlash_of_not_mem hname.2]
      | cons next names =>
          have hsplit := splitSlash_append (slash :: name)
            (next ++ names.flatMap (slash :: ·))
          have hfirst : splitSlash (slash :: name) = [[], name] := by
            simp [splitSlash, splitSlash_of_not_mem hname.2]
          have htail : splitSlash (next ++ names.flatMap (slash :: ·)) = next :: names := by
            simpa [splitSlash] using hrest
          rw [hfirst, htail] at hsplit
          simpa using hsplit

theorem names_ofNames {names : List (List UInt8)} (h : ∀ name ∈ names, IsPiece name) :
    (ofNames names).names = names := by
  have hkept : names.filter isNamed = names := by
    refine List.filter_eq_self.2 ?_
    intro name hname
    exact (h name hname).1
  cases names with
  | nil => decide
  | cons name names =>
      simp only [Path.names, ofNames, List.isEmpty_cons, Bool.false_eq_true, if_false]
      rw [splitSlash_flatMap h, List.filter_cons_of_neg (by simp [isNamed]), hkept]

end Path

namespace Uri

/-! ## Names as they are written -/

theorem encode_ascii : ∀ n < 128, encode [Char.ofNat n] = [UInt8.ofNat n] := by
  decide

theorem hexValue?_hexDigit :
    ∀ n < 16, (encode [hexDigit n]).map hexValue? = [some (UInt8.ofNat n)] := by
  decide

theorem percentDecode_cons_of_ne {b : UInt8} (h : b ≠ 0x25) (bytes : List UInt8) :
    percentDecode (b :: bytes) = b :: percentDecode bytes := by
  match bytes with
  | [] => rfl
  | [_] => rfl
  | _ :: _ :: _ => rw [percentDecode, if_neg h]

theorem lt_of_isPlain {b : UInt8} (h : isPlain b = true) : b.toNat < 128 := by
  simp only [isPlain, Bool.and_eq_true, decide_eq_true_eq] at h
  have hlt : b.toNat < (0x7F : UInt8).toNat := UInt8.lt_iff_toNat_lt.1 h.1.2
  have hmax : (0x7F : UInt8).toNat = 127 := rfl
  omega

theorem not_mem_of_isPlain {b : UInt8} (h : isPlain b = true) :
    Char.ofNat b.toNat ∉ "\"#<>?\x60\x7b\x7d/%\\".toList := by
  simp only [isPlain, Bool.and_eq_true] at h
  simpa using h.2

/-- A written byte is read back. -/
theorem percentDecode_percentEncode (b : UInt8) (rest : List UInt8) :
    percentDecode (encode (percentEncode b) ++ rest) = b :: percentDecode rest := by
  unfold percentEncode
  split
  · rename_i hplain
    have hbyte : encode [Char.ofNat b.toNat] = [b] := by
      rw [encode_ascii _ (lt_of_isPlain hplain), UInt8.ofNat_toNat]
    have hne : b ≠ 0x25 := by
      rintro rfl
      exact absurd hplain (by decide)
    rw [hbyte]
    exact percentDecode_cons_of_ne hne rest
  · -- Both digits are read back, and together they make the byte.
    have hbound : b.toNat < 256 := b.toNat_lt
    rcases List.map_eq_singleton_iff.1 (hexValue?_hexDigit (b.toNat / 16) (by omega)) with
      ⟨high, hhigh, hvalueHigh⟩
    rcases List.map_eq_singleton_iff.1 (hexValue?_hexDigit (b.toNat % 16) (by omega)) with
      ⟨low, hlow, hvalueLow⟩
    have hbytes : encode ['%', hexDigit (b.toNat / 16), hexDigit (b.toNat % 16)] =
        [0x25, high, low] := by
      calc encode ['%', hexDigit (b.toNat / 16), hexDigit (b.toNat % 16)]
          = encode ['%'] ++ encode [hexDigit (b.toNat / 16)] ++
              encode [hexDigit (b.toNat % 16)] := by simp [encode]
        _ = [0x25, high, low] := by
            rw [hhigh, hlow]
            rfl
    have hbyte : UInt8.ofNat (b.toNat / 16) * 16 + UInt8.ofNat (b.toNat % 16) = b := by
      apply UInt8.toNat_inj.1
      simp
      omega
    simp [hbytes, percentDecode, hvalueHigh, hvalueLow, hbyte]

/-! ## The URI of a path -/

/-- The path of a URI that writes names. -/
def written (names : List (List UInt8)) : List Char :=
  if names.isEmpty then ['/'] else names.flatMap fun name => '/' :: name.flatMap percentEncode

/-- The URI that writes names. -/
def ofNames (names : List (List UInt8)) : Uri :=
  { text := String.ofList ("file://".toList ++ written names) }

theorem ofPath?_of_isAbsolute {p : Path} (h : p.isAbsolute = true) :
    ofPath? p = some (ofNames p.names) := by
  unfold ofPath?
  rw [if_pos h, Path.components_of_isAbsolute h]
  rfl

theorem percentDecode_name (name rest : List UInt8) :
    percentDecode (encode (name.flatMap percentEncode) ++ rest) = name ++ percentDecode rest := by
  induction name with
  | nil => rfl
  | cons b name ih =>
      have hsplit : encode ((b :: name).flatMap percentEncode) ++ rest =
          encode (percentEncode b) ++ (encode (name.flatMap percentEncode) ++ rest) := by
        simp [encode]
      rw [hsplit, percentDecode_percentEncode, ih, List.cons_append]

theorem percentDecode_slash (rest : List UInt8) :
    percentDecode (encode ['/'] ++ rest) = Path.slash :: percentDecode rest := by
  have hslash : encode ['/'] = [Path.slash] := by
    decide
  rw [hslash]
  exact percentDecode_cons_of_ne (by decide) rest

theorem percentDecode_written (names : List (List UInt8)) :
    percentDecode (encode (written names)) = (Path.ofNames names).bytes := by
  have hnames : percentDecode
      (encode (names.flatMap fun name => '/' :: name.flatMap percentEncode)) =
        names.flatMap (Path.slash :: ·) := by
    induction names with
    | nil => rfl
    | cons name names ih =>
        have hsplit : encode ((name :: names).flatMap fun name => '/' :: name.flatMap percentEncode) =
            encode ['/'] ++ (encode (name.flatMap percentEncode) ++
              encode (names.flatMap fun name => '/' :: name.flatMap percentEncode)) := by
          simp [encode]
        rw [hsplit, percentDecode_slash, percentDecode_name, ih]
        simp
  unfold written Path.ofNames
  cases names with
  | nil => decide
  | cons name names => exact hnames

theorem not_delimiter_of_mem_percentEncode {b : UInt8} {c : Char} (h : c ∈ percentEncode b) :
    c ≠ '?' ∧ c ≠ '#' := by
  have hdigit : ∀ n < 16, hexDigit n ≠ '?' ∧ hexDigit n ≠ '#' := by
    decide
  have hbound : b.toNat < 256 := b.toNat_lt
  unfold percentEncode at h
  split at h
  · rename_i hplain
    have hnot := not_mem_of_isPlain hplain
    rw [List.mem_singleton.1 h]
    constructor <;> intro heq <;> exact hnot (heq ▸ by decide)
  · simp only [List.mem_cons, List.not_mem_nil, or_false] at h
    rcases h with rfl | rfl | rfl
    · decide
    · exact hdigit _ (by omega)
    · exact hdigit _ (by omega)

theorem not_delimiter_of_mem_written {names : List (List UInt8)} {c : Char}
    (h : c ∈ written names) : c ≠ '?' ∧ c ≠ '#' := by
  unfold written at h
  split at h
  · rw [List.mem_singleton.1 h]
    decide
  · rcases List.mem_flatMap.1 h with ⟨name, -, hc⟩
    rcases List.mem_cons.1 hc with rfl | hc
    · decide
    · rcases List.mem_flatMap.1 hc with ⟨b, -, hb⟩
      exact not_delimiter_of_mem_percentEncode hb

theorem head?_written (names : List (List UInt8)) : (written names).head? = some '/' := by
  cases names with
  | nil => rfl
  | cons name names => rfl

theorem hostAndPath_ofNames (names : List (List UInt8)) :
    (ofNames names).hostAndPath = ([], written names) := by
  rcases hwritten : written names with _ | ⟨c, path⟩
  · have hhead := head?_written names
    simp [hwritten] at hhead
  · have hc : c = '/' := by
      simpa [hwritten] using head?_written names
    -- Delimiters of a query and of a fragment are never written as they are, so nothing is cut.
    have hkept : ('/' :: '/' :: '/' :: path).takeWhile (fun c => c != '?' && c != '#') =
        '/' :: '/' :: '/' :: path := by
      have hall : ∀ d ∈ '/' :: '/' :: '/' :: path, (d != '?' && d != '#') = true := by
        intro d hd
        have hmem : d = '/' ∨ d ∈ written names := by
          rw [hwritten, hc]
          rcases List.mem_cons.1 hd with hslash | hd
          · exact Or.inl hslash
          · exact List.mem_cons.1 hd
        rcases hmem with rfl | hmem
        · decide
        · simpa using not_delimiter_of_mem_written hmem
      have hwhole : ('/' :: '/' :: '/' :: path ++ []).takeWhile (fun c => c != '?' && c != '#') =
          '/' :: '/' :: '/' :: path ++ [] :=
        List.takeWhile_append_of_pos hall
      simpa only [List.append_nil] using hwhole
    have hscheme : "file://".toList = ['f', 'i', 'l', 'e', ':', '/', '/'] := by
      decide
    have hrest : (("file://".toList ++ '/' :: path).dropWhile (· != ':')).drop 1 =
        '/' :: '/' :: '/' :: path := by
      rw [hscheme]
      simp
    unfold hostAndPath ofNames
    rw [hwritten, hc, String.toList_ofList, hrest]
    dsimp only
    rw [hkept]
    simp [hostOf]

/-- The path that the URI of names is read back as. A slash is added behind a drive letter. -/
theorem path?_ofNames (names : List (List UInt8)) :
    (ofNames names).path? = some ⟨closeDrive (Path.ofNames names).bytes⟩ := by
  simp [path?, hostAndPath_ofNames, head?_written, percentDecode_written]

theorem closeDrive_eq (bytes : List UInt8) :
    closeDrive bytes = bytes ∨ closeDrive bytes = bytes ++ [Path.slash] := by
  unfold closeDrive
  split
  · split
    · exact Or.inr rfl
    · exact Or.inl rfl
  · exact Or.inl rfl

theorem names_closeDrive (bytes : List UInt8) :
    Path.names ⟨closeDrive bytes⟩ = Path.names ⟨bytes⟩ := by
  rcases closeDrive_eq bytes with heq | heq
  · rw [heq]
  · simp only [heq, Path.names, Path.splitSlash_append, List.filter_append]
    simp [Path.splitSlash, Path.isNamed]

theorem isAbsolute_of_path? {uri : Uri} {p : Path} (h : uri.path? = some p) :
    p.isAbsolute = true := by
  unfold path? at h
  split at h
  rename_i host path _
  split at h
  · rename_i hpath
    have hhead := hpath.1
    cases h
    rcases path with _ | ⟨c, path⟩
    · cases hhead
    · have hc : c = '/' := by simpa using hhead
      have hbytes : percentDecode (encode (c :: path)) =
          Path.slash :: percentDecode (encode path) := by
        have hsplit : encode (c :: path) = encode ['/'] ++ encode path := by
          simp [encode, hc]
        rw [hsplit, percentDecode_slash]
      rw [hbytes]
      -- The slash behind a drive letter comes last, and leaves the first byte alone.
      rcases closeDrive_eq (Path.slash :: percentDecode (encode path)) with heq | heq <;>
        simp [Path.isAbsolute, heq]
  · cases h

/-- The names in the path that is read back are those that were written. -/
theorem names_of_path?_ofNames {names : List (List UInt8)} (h : ∀ name ∈ names, Path.IsPiece name)
    {p : Path} (hp : (ofNames names).path? = some p) : p.names = names := by
  rw [path?_ofNames] at hp
  cases hp
  rw [names_closeDrive]
  exact Path.names_ofNames h

/-- Files with different names have different URIs. -/
theorem ofNames_injective {xs ys : List (List UInt8)} (hxs : ∀ name ∈ xs, Path.IsPiece name)
    (hys : ∀ name ∈ ys, Path.IsPiece name) (h : ofNames xs = ofNames ys) : xs = ys := by
  have hread := path?_ofNames ys
  rw [← h] at hread
  rw [← names_of_path?_ofNames hxs hread]
  exact names_of_path?_ofNames hys (h ▸ hread)

end Uri
end ScriptSymbols
