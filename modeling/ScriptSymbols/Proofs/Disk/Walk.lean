import ScriptSymbols.Proofs.Disk.DepthFirst
import ScriptSymbols.Proofs.Disk.Tree
import ScriptSymbols.Proofs.Text.BadBytes

/-!
# Walks over disks

A walk asks a disk for directories by the texts of their names. A name that is not text is read with a loss: the
walk may then ask for a directory that is not there, or come to one a second time, or go through a link.

1. `shown` is a name as it is listed. `IsEntryName.shown`: it is the name of an entry too, and text.
2. `Disk.length_le_of_follow` bounds the names behind each other that can be followed, by the depth of the disk and
   the number of links. So the recursion over a disk has an answer (`Disk.IsRooted.exists_answer`).
3. `Walk.Finds` says what a walk finds, and `Walk.mem_filesBelow_iff` that the recursion lists just that.
4. `Disk.IsRooted.finds_of_contents`: files with text names are found. On a tree nothing else is found
   (`Disk.IsTree.exists_contents_of_finds`), and every directory can be listed (`Disk.IsTree.complete`).
-/

namespace ScriptSymbols

open Text

/-! ## Names as they are listed -/

/-- The name under which an entry is listed: the bytes of the text that its own name is read as. -/
def shown (name : FileName) : FileName :=
  encode (decode name)

theorem ofString_decode (name : FileName) : Path.ofString (String.ofList (decode name)) = ⟨shown name⟩ := by
  simp [Path.ofString, shown]

theorem shown_of_isUtf8 {name : FileName} (h : isUtf8 name = true) : shown name = name := by
  simpa [isUtf8, shown] using h

/-- A name that is text is read and written again without loss. -/
theorem ofString_decode_of_isUtf8 {name : FileName} (h : isUtf8 name = true) :
    Path.ofString (String.ofList (decode name)) = ⟨name⟩ := by
  rw [ofString_decode, shown_of_isUtf8 h]

theorem decode_shown (name : FileName) : decode (shown name) = decode name :=
  decode_encode (decode name)

/-- Bytes of ASCII are read without a loss. -/
theorem count_shown {b : UInt8} (hb : b.toNat < 0x80) (name : FileName) :
    (shown name).count b = name.count b := by
  have hchar : (Char.ofNat b.toNat).toNat = b.toNat := toNat_ofNat_of_valid (Or.inl (by omega))
  have hcount : ∀ bytes : List UInt8, (asciiBytes bytes).count (Char.ofNat b.toNat) = bytes.count b := by
    intro bytes
    rw [count_asciiBytes (by rwa [hchar]), hchar, UInt8.ofNat_toNat]
  rw [← hcount, ← hcount, ← asciiChars_decode, decode_shown, asciiChars_decode]

/-- A name that is listed as a byte of ASCII some times over is just that. -/
theorem eq_replicate_of_shown {b : UInt8} (hb : b.toNat < 0x80) {name : FileName} {n : Nat}
    (h : shown name = List.replicate n b) : name = List.replicate n b := by
  have hcount : name.count b = n := by
    rw [← count_shown hb, h, List.count_replicate_self]
  have hlength : name.length ≤ n := by
    have hsize := byteSize_decode name
    rw [← length_encode, ← shown, h, List.length_replicate] at hsize
    omega
  have hfull : name.count b = name.length := Nat.le_antisymm List.count_le_length (by omega)
  exact List.eq_replicate_iff.2 ⟨by omega, fun c hc => (List.count_eq_length.1 hfull c hc).symm⟩

theorem IsEntryName.shown {name : FileName} (h : IsEntryName name) : IsFileName (shown name) := by
  have hnot : ∀ {b : UInt8}, b.toNat < 0x80 → b ∉ name → b ∉ ScriptSymbols.shown name := by
    intro b hb hmem
    rw [← List.count_eq_zero] at hmem ⊢
    rw [count_shown hb, hmem]
  have hne : ScriptSymbols.shown name ≠ [] := fun hnil =>
    h.ne_nil (eq_replicate_of_shown (b := Path.dot) (n := 0) (by decide) hnil)
  have hdot : ScriptSymbols.shown name ≠ [Path.dot] := fun hsingle =>
    h.ne_dot (eq_replicate_of_shown (n := 1) (by decide) hsingle)
  have hparent : ScriptSymbols.shown name ≠ [Path.dot, Path.dot] := fun hpair =>
    h.notParent (eq_replicate_of_shown (n := 2) (by decide) hpair)
  refine ⟨⟨⟨?_, hnot (by decide) h.piece.2⟩, hparent, hnot (by decide) h.noNul⟩, ?_⟩
  · simp [Path.isNamed, hne, hdot]
  · simp [isUtf8, ScriptSymbols.shown, decode_encode]

/-! ## Paths below a directory -/

namespace Path

/-- The path of what lies under names below a directory. -/
def below (dir : Path) (names : List FileName) : Path :=
  names.foldl (fun dir name => dir.join ⟨name⟩) dir

theorem below_concat (dir : Path) (names : List FileName) (name : FileName) :
    dir.below (names ++ [name]) = (dir.below names).join ⟨name⟩ := by
  simp [below]

theorem filter_splitSlash_below (dir : Path) {names : List FileName} (hnames : ∀ name ∈ names, IsPiece name)
    {keep : List UInt8 → Bool} (hempty : keep [] = false) (hkeep : ∀ name ∈ names, keep name = true) :
    (splitSlash (dir.below names).bytes).filter keep = (splitSlash dir.bytes).filter keep ++ names := by
  induction names using List.reverseRecOn with
  | nil => simp [below]
  | append_singleton names name ih =>
      have hfront := ih (fun n hn => hnames n (List.mem_append_left _ hn))
        fun n hn => hkeep n (List.mem_append_left _ hn)
      rw [below_concat, filter_splitSlash_join _ (hnames name (by simp)) hempty (hkeep name (by simp)), hfront,
        List.append_assoc]

theorem names_below (dir : Path) {names : List FileName} (hnames : ∀ name ∈ names, IsPiece name) :
    (dir.below names).names = dir.names ++ names :=
  filter_splitSlash_below dir hnames (by decide) fun name hname => (hnames name hname).1

theorem isAbsolute_below {dir : Path} (habs : dir.isAbsolute = true) (names : List FileName) :
    (dir.below names).isAbsolute = true := by
  induction names generalizing dir with
  | nil => exact habs
  | cons name names ih => exact ih (isAbsolute_join habs)

end Path

namespace Disk

theorem stepsOf_below (dir : Path) {names : List FileName} (hnames : ∀ name ∈ names, IsEntryName name)
    (hne : names ≠ []) :
    stepsOf (dir.below names) = (Path.splitSlash dir.bytes).filter (!·.isEmpty) ++ names := by
  rcases List.eq_nil_or_concat names with hnil | ⟨front, name, rfl⟩
  · exact absurd hnil hne
  · have hfront : ∀ n ∈ front, IsEntryName n := fun n hn => hnames n (by simp [hn])
    rw [List.concat_eq_append, Path.below_concat, stepsOf_join _ (hnames name (by simp)),
      Path.filter_splitSlash_below dir (fun n hn => (hfront n hn).piece) rfl
        (fun n hn => by simp [(hfront n hn).ne_nil]), List.append_assoc]

/-! ## How far names lead -/

section Length

variable {disk : Disk}
  {jump : List FileName → Path → List FileName → Except IoError (List FileName × Node)}
  {r : List FileName × Node}

theorem length_le_depth {names : List FileName} {node : Node} (h : disk.node? names = some node) :
    names.length ≤ disk.depth := by
  by_cases hne : names = []
  · simp [hne]
  · have hmem := mem_of_node? h hne
    unfold depth
    generalize disk.nodes = nodes at hmem
    induction nodes with
    | nil => cases hmem
    | cons entry nodes ih =>
        rcases List.mem_cons.1 hmem with rfl | hmem
        · exact Nat.le_max_left _ _
        · exact Nat.le_trans (ih hmem) (Nat.le_max_right _ _)

/-- Names behind each other lead deeper each time, up to a link. -/
theorem length_le_of_followWith_names {names : List FileName} (hnames : ∀ name ∈ names, IsEntryName name)
    {more : Nat} (hjump : ∀ place target rest, (∀ name ∈ rest, IsEntryName name) →
      jump place target rest = .ok r → rest.length ≤ more) {place : List FileName}
    (h : followWith disk jump place names = .ok r) :
    names.length ≤ disk.depth - place.length + 1 + more := by
  -- Each name takes the place one level down, where no place is deeper than the disk. A link ends that.
  induction names generalizing place with
  | nil => exact Nat.zero_le _
  | cons name names ih =>
      obtain ⟨hname, hrest⟩ := List.forall_mem_cons.1 hnames
      rw [List.length_cons]
      rcases followWith_cons_eq_ok_iff.1 h with
        ⟨q, henters, hfollow⟩ | ⟨contents, -, rfl, -⟩ | ⟨target, -, hlink⟩
      · cases henters with
        | dot => exact absurd rfl hname.ne_dot
        | parent => exact absurd rfl hname.notParent
        | name hmeets =>
            have hdepth := length_le_depth hmeets.2.2
            have hlength := ih hrest hfollow
            rw [List.length_append, List.length_singleton] at hdepth hlength
            omega
      · simp
        omega
      · have hlength := hjump place target names hrest hlink
        omega

/-- The steps before the names may lead anywhere. -/
theorem length_le_of_followWith {names : List FileName} (hnames : ∀ name ∈ names, IsEntryName name) {more : Nat}
    (hjump : ∀ place target steps rest, (∀ name ∈ rest, IsEntryName name) →
      jump place target (steps ++ rest) = .ok r → rest.length ≤ more) {place steps : List FileName}
    (h : followWith disk jump place (steps ++ names) = .ok r) : names.length ≤ disk.depth + 1 + more := by
  induction steps generalizing place with
  | nil =>
      have hlength := length_le_of_followWith_names hnames
        (fun place target rest => hjump place target [] rest) h
      omega
  | cons step steps ih =>
      rcases followWith_cons_eq_ok_iff.1 h with
        ⟨q, -, hfollow⟩ | ⟨contents, -, hnil, -⟩ | ⟨target, -, hlink⟩
      · exact ih hfollow
      · rw [(List.append_eq_nil_iff.1 hnil).2]
        exact Nat.zero_le _
      · have hlength := hjump place target steps names hnames hlink
        omega

theorem length_le_of_follow {names : List FileName} (hnames : ∀ name ∈ names, IsEntryName name) {links : Nat}
    {place steps : List FileName} (h : disk.follow links place (steps ++ names) = .ok r) :
    names.length ≤ (links + 1) * (disk.depth + 1) := by
  -- Behind a link the names are followed from its target on, with one link less to go.
  induction links generalizing names place steps with
  | zero =>
      have hlength : names.length ≤ disk.depth + 1 + 0 :=
        length_le_of_followWith hnames (fun _ _ _ _ _ hjump => by cases hjump) h
      omega
  | succ links ih =>
      have hlength := length_le_of_followWith hnames (fun place target steps rest hrest hjump => by
        rw [← List.append_assoc] at hjump
        exact ih hrest hjump) h
      rw [Nat.succ_mul (links + 1)]
      omega

theorem resolve_of_list {dir : Path} {entries : List Entry} (h : disk.list dir = .ok entries) :
    ∃ place, disk.resolve dir = .ok (place, .directory) ∧ entries = disk.entriesOf place := by
  unfold list at h
  split at h
  · cases h
  · cases h
    exact ⟨_, ‹_›, rfl⟩
  · cases h

/-- Only so many names below a directory lead to another one. -/
theorem length_le_of_list {dir : Path} {names : List FileName} (hnames : ∀ name ∈ names, IsEntryName name)
    {entries : List Entry} (h : disk.list (dir.below names) = .ok entries) :
    names.length ≤ (maxLinks + 1) * (disk.depth + 1) := by
  by_cases hne : names = []
  · simp [hne]
  · obtain ⟨place, hresolve, -⟩ := resolve_of_list h
    unfold resolve at hresolve
    split at hresolve
    · cases hresolve
    · split at hresolve
      · cases hresolve
      · rw [stepsOf_below dir hnames hne] at hresolve
        exact length_le_of_follow hnames hresolve

end Length

/-! ## The answer of the recursion -/

section Answer

variable {disk : Disk} {wanted : String → String → Bool} {dir : Path} {place : List FileName}

/-- The entries of a directory are the nodes right in it. -/
theorem IsRooted.mem_entriesOf_iff (h : disk.IsRooted) {entry : Entry} :
    entry ∈ disk.entriesOf place ↔
      ∃ name node, disk.node? (place ++ [name]) = some node ∧
        entry = ⟨String.ofList (decode name), kindOf node⟩ := by
  unfold entriesOf
  rw [List.mem_filterMap]
  constructor
  · rintro ⟨⟨names, node⟩, hmem, hentry⟩
    dsimp only at hentry
    split at hentry
    · rename_i hplace
      obtain ⟨name, hlast, rfl⟩ := Option.map_eq_some_iff.1 hentry
      obtain ⟨front, rfl⟩ := List.getLast?_eq_some_iff.1 hlast
      rw [List.dropLast_concat] at hplace
      subst hplace
      exact ⟨name, node, h.node?_of_mem hmem, rfl⟩
    · cases hentry
  · rintro ⟨name, node, hnode, rfl⟩
    exact ⟨_, mem_of_node? hnode (by simp), by simp⟩

theorem IsRooted.mem_entriesOf_file (h : disk.IsRooted) {text : String}
    (hentry : ⟨text, .file⟩ ∈ disk.entriesOf place) :
    ∃ name contents, disk.contents? (place ++ [name]) = some contents ∧ text = String.ofList (decode name) := by
  obtain ⟨name, node, hnode, hentry⟩ := h.mem_entriesOf_iff.1 hentry
  obtain ⟨htext, hkind⟩ := Entry.mk.inj hentry
  cases node with
  | file contents => exact ⟨name, contents, contents?_eq_some.2 hnode, htext⟩
  | directory => cases hkind
  | link target => cases hkind

theorem IsRooted.mem_entriesOf_directory (h : disk.IsRooted) {text : String}
    (hentry : ⟨text, .directory⟩ ∈ disk.entriesOf place) :
    ∃ name, disk.node? (place ++ [name]) = some .directory ∧ text = String.ofList (decode name) := by
  obtain ⟨name, node, hnode, hentry⟩ := h.mem_entriesOf_iff.1 hentry
  obtain ⟨htext, hkind⟩ := Entry.mk.inj hentry
  cases node with
  | directory => exact ⟨name, hnode, htext⟩
  | file contents => cases hkind
  | link target => cases hkind

theorem list_of_resolve (hdir : disk.resolve dir = .ok (place, .directory)) :
    disk.list dir = .ok (disk.entriesOf place) := by
  simp [list, hdir]

theorem IsRooted.isEntryName_of_node? (h : disk.IsRooted) {name : FileName} {node : Node}
    (hnode : disk.node? (place ++ [name]) = some node) : IsEntryName name :=
  h.isEntryName hnode name (by simp)

theorem isWide_list (disk : Disk) : Walk.IsWide disk.list disk.nodes.length := by
  intro dir entries h
  obtain ⟨place, -, rfl⟩ := resolve_of_list h
  exact List.length_filterMap_le _ _

end Answer

end Disk

namespace Walk

section Answer

variable {c : Entry → Option Answer} {entries : List Entry}

theorem exists_inOrder (h : ∀ entry ∈ entries, ∃ answer, c entry = some answer) :
    ∃ answer, inOrder c entries = some answer := by
  induction entries with
  | nil => exact ⟨_, rfl⟩
  | cons entry entries ih =>
      obtain ⟨⟨answer, hentry⟩, hrest⟩ := List.forall_mem_cons.1 h
      obtain ⟨rest, hrest⟩ := ih hrest
      cases answer with
      | error cause => exact ⟨_, inOrder_cons_eq_some_iff.2 (Or.inl ⟨cause, hentry, rfl⟩)⟩
      | ok files => exact ⟨_, inOrder_cons_eq_some_iff.2 (Or.inr ⟨files, rest, hentry, hrest, rfl⟩)⟩

theorem mem_inOrder_iff {files : List Path} (h : inOrder c entries = some (.ok files)) {p : Path} :
    p ∈ files ↔ ∃ entry ∈ entries, ∃ found, c entry = some (.ok found) ∧ p ∈ found := by
  induction entries generalizing files with
  | nil =>
      cases h
      simp
  | cons entry entries ih =>
      rcases inOrder_cons_eq_some_iff.1 h with ⟨cause, -, hfail⟩ | ⟨first, rest, hentry, hrest, hfiles⟩
      · cases hfail
      · cases rest with
        | error cause => cases hfiles
        | ok rest =>
            cases hfiles
            simp [ih hrest, hentry]

end Answer

/-- The files that a walk finds below the directory that `names` lead to. -/
inductive Finds (list : Path → Except IoError (List Entry)) (wanted : String → String → Bool) :
    Path → List String → Path → Prop
  | file {dir : Path} {names : List String} {entries : List Entry} {name : String} :
      list dir = .ok entries → ⟨name, .file⟩ ∈ entries → wanted name (joined (names ++ [name])) = true →
      Finds list wanted dir names (dir.join (Path.ofString name))
  | directory {dir p : Path} {names : List String} {entries : List Entry} {name : String} :
      list dir = .ok entries → ⟨name, .directory⟩ ∈ entries →
      Finds list wanted (dir.join (Path.ofString name)) (names ++ [name]) p → Finds list wanted dir names p

/-- The recursion lists what a walk finds. -/
theorem mem_filesBelow_iff {list : Path → Except IoError (List Entry)} {wanted : String → String → Bool}
    {levels : Nat} {dir : Path} {names : List String} {files : List Path}
    (h : filesBelow list wanted levels dir names = some (.ok files)) {p : Path} :
    p ∈ files ↔ Finds list wanted dir names p := by
  induction levels generalizing dir names files with
  | zero => cases h
  | succ levels ih =>
      cases hlist : list dir with
      | error cause =>
          rw [filesBelow_of_error hlist] at h
          cases h
      | ok entries =>
          rw [filesBelow_of_ok hlist] at h
          -- A file that is listed comes from one entry, which is the file or a directory around it.
          rw [mem_inOrder_iff h]
          constructor
          · rintro ⟨⟨name, kind⟩, hentry, found, hfound, hp⟩
            cases kind with
            | file =>
                cases hfound
                split at hp
                · rename_i hwanted
                  rw [List.mem_singleton.1 hp]
                  exact .file hlist hentry hwanted
                · cases hp
            | directory => exact .directory hlist hentry ((ih hfound).1 hp)
            | other =>
                cases hfound
                cases hp
          · intro hfinds
            cases hfinds with
            | @file _ _ entries' name hlist' hentry hwanted =>
                cases hlist.symm.trans hlist'
                exact ⟨_, hentry, _, rfl, by rw [if_pos hwanted]; exact List.mem_cons_self⟩
            | @directory _ _ _ entries' name hlist' hentry hbelow =>
                cases hlist.symm.trans hlist'
                obtain ⟨found, hfound⟩ := exists_files_of_inOrder h _ hentry
                exact ⟨_, hentry, found, hfound, (ih hfound).2 hbelow⟩

end Walk

namespace Disk

section Walks

variable {disk : Disk} {wanted : String → String → Bool} {dir p : Path} {place : List FileName}
  {texts : List String}

/-- The recursion over a disk has an answer within as many levels as names can lead on, and two more: one for the
directory that it starts from, and one for a directory that cannot be listed. -/
theorem IsRooted.exists_answer_below (h : disk.IsRooted) (levels : Nat) {names : List FileName}
    (hnames : ∀ name ∈ names, IsEntryName name)
    (hdeep : names.length ≤ (maxLinks + 1) * (disk.depth + 1) + 1)
    (hlevels : (maxLinks + 1) * (disk.depth + 1) + 2 ≤ levels + names.length) (texts : List String) :
    ∃ answer, Walk.filesBelow disk.list wanted levels (dir.below names) texts = some answer := by
  -- `names` are those under which the walk came here. If there are too many, the listing fails and nothing is left.
  induction levels generalizing names texts with
  | zero => omega
  | succ levels ih =>
      cases hlist : disk.list (dir.below names) with
      | error cause => exact ⟨_, Walk.filesBelow_of_error hlist levels⟩
      | ok entries =>
          have hlength := length_le_of_list hnames hlist
          obtain ⟨place, -, rfl⟩ := resolve_of_list hlist
          rw [Walk.filesBelow_of_ok hlist]
          refine Walk.exists_inOrder fun entry hentry => ?_
          obtain ⟨name, node, hnode, rfl⟩ := h.mem_entriesOf_iff.1 hentry
          cases node with
          | file contents => exact ⟨_, rfl⟩
          | link target => exact ⟨_, rfl⟩
          | directory =>
              have hname : ∀ n ∈ names ++ [shown name], IsEntryName n := by
                intro n hn
                rcases List.mem_append.1 hn with hn | hn
                · exact hnames n hn
                · rw [List.mem_singleton.1 hn]
                  exact (h.isEntryName_of_node? hnode).shown.toIsEntryName
              have hbelow := ih hname (by simpa using hlength) (by simp; omega)
                (texts ++ [String.ofList (decode name)])
              rw [Path.below_concat, ← ofString_decode] at hbelow
              exact hbelow

theorem IsRooted.exists_answer (h : disk.IsRooted) (wanted : String → String → Bool) (dir : Path) :
    ∃ answer, Walk.filesBelow disk.list wanted ((maxLinks + 1) * (disk.depth + 1) + 2) dir [] = some answer :=
  @IsRooted.exists_answer_below disk wanted dir h _ [] (by simp) (by simp) (by simp) []

/-- The names of what is found are text, whatever the names of the entries are. -/
theorem IsRooted.exists_names_of_finds (h : disk.IsRooted) (hfinds : Walk.Finds disk.list wanted dir texts p) :
    ∃ names name, (∀ n ∈ names, IsFileName n) ∧ names.getLast? = some name ∧ p = dir.below names ∧
      wanted (String.ofList (decode name))
        (Walk.joined (texts ++ names.map fun n => String.ofList (decode n))) = true := by
  induction hfinds with
  | file hlist hentry hwanted =>
      obtain ⟨place, -, rfl⟩ := resolve_of_list hlist
      obtain ⟨name, contents, hcontents, rfl⟩ := h.mem_entriesOf_file hentry
      refine ⟨[shown name], shown name, ?_, rfl, ?_, ?_⟩
      · rintro n hn
        rw [List.mem_singleton.1 hn]
        exact (h.isEntryName_of_node? (contents?_eq_some.1 hcontents)).shown
      · rw [ofString_decode]
        rfl
      · simpa [decode_shown] using hwanted
  | directory hlist hentry _ ih =>
      obtain ⟨place, -, rfl⟩ := resolve_of_list hlist
      obtain ⟨name, hnode, rfl⟩ := h.mem_entriesOf_directory hentry
      obtain ⟨names, last, hnames, hlast, rfl, hwanted⟩ := ih
      refine ⟨shown name :: names, last, ?_, ?_, ?_, ?_⟩
      · exact List.forall_mem_cons.2 ⟨(h.isEntryName_of_node? hnode).shown, hnames⟩
      · rw [List.getLast?_cons, hlast]
        rfl
      · rw [ofString_decode]
        rfl
      · simpa [decode_shown] using hwanted

/-- A file with text names below a directory is found if it is wanted. -/
theorem IsRooted.finds_of_contents (h : disk.IsRooted) (habs : dir.isAbsolute = true)
    (hdir : disk.resolve dir = .ok (place, .directory)) {names : List FileName} {name : FileName}
    (htexts : ∀ n ∈ names, isUtf8 n = true) (hlast : names.getLast? = some name) {contents : List UInt8}
    (hcontents : disk.contents? (place ++ names) = some contents)
    (hwanted : wanted (String.ofList (decode name))
      (Walk.joined (texts ++ names.map fun n => String.ofList (decode n))) = true) :
    Walk.Finds disk.list wanted dir texts (dir.below names) := by
  -- The directory that the walk is in is always the one at `place`, since each name on the way is text.
  induction names generalizing dir place texts with
  | nil => cases hlast
  | cons first names ih =>
      have hlist := list_of_resolve hdir
      have hsame := ofString_decode_of_isUtf8 (htexts first List.mem_cons_self)
      have hnode := contents?_eq_some.1 hcontents
      rw [← List.singleton_append, ← List.append_assoc] at hnode
      cases names with
      | nil =>
          cases hlast
          rw [List.append_nil] at hnode
          have hentry := h.mem_entriesOf_iff.2 ⟨first, _, hnode, rfl⟩
          show Walk.Finds disk.list wanted dir texts (dir.join ⟨first⟩)
          rw [← hsame]
          exact .file hlist hentry (by simpa using hwanted)
      | cons next names =>
          have hinner : disk.node? (place ++ [first]) = some .directory := h.node?_of_append hnode (by simp)
          have hentry := h.mem_entriesOf_iff.2 ⟨first, _, hinner, rfl⟩
          refine .directory hlist hentry ?_
          rw [hsame]
          refine ih (Path.isAbsolute_join habs) (resolve_join habs hdir (h.isEntryName_of_node? hinner) hinner)
            (fun n hn => htexts n (List.mem_cons_of_mem first hn)) ?_ ?_ ?_
          · rwa [List.getLast?_cons_cons] at hlast
          · rw [List.append_assoc]
            exact hcontents
          · simpa using hwanted

/-- A directory of a tree is asked for by its own name. -/
theorem IsTree.resolve_of_entry (h : disk.IsTree) (habs : dir.isAbsolute = true)
    (hdir : disk.resolve dir = .ok (place, .directory)) {name : FileName}
    (hnode : disk.node? (place ++ [name]) = some .directory) :
    dir.join (Path.ofString (String.ofList (decode name))) = dir.join ⟨name⟩ ∧
      disk.resolve (dir.join ⟨name⟩) = .ok (place ++ [name], .directory) := by
  have hname := h.isFileName hnode name (by simp)
  rw [ofString_decode_of_isUtf8 hname.isText]
  exact ⟨rfl, resolve_join habs hdir hname.toIsEntryName hnode⟩

/-- On a tree a walk finds the wanted files below its root. -/
theorem IsTree.exists_contents_of_finds (h : disk.IsTree) (hfinds : Walk.Finds disk.list wanted dir texts p)
    (habs : dir.isAbsolute = true) (hdir : disk.resolve dir = .ok (place, .directory)) :
    ∃ names name contents, names.getLast? = some name ∧ p = dir.below names ∧
      disk.contents? (place ++ names) = some contents ∧
      wanted (String.ofList (decode name))
        (Walk.joined (texts ++ names.map fun n => String.ofList (decode n))) = true := by
  induction hfinds generalizing place with
  | @file dir texts entries text hlist hentry hwanted =>
      cases (list_of_resolve hdir).symm.trans hlist
      obtain ⟨name, contents, hcontents, rfl⟩ := h.mem_entriesOf_file hentry
      have hname := h.isFileName (contents?_eq_some.1 hcontents) name (by simp)
      refine ⟨[name], name, contents, rfl, ?_, hcontents, by simpa using hwanted⟩
      rw [ofString_decode_of_isUtf8 hname.isText]
      rfl
  | @directory dir p texts entries text hlist hentry _ ih =>
      cases (list_of_resolve hdir).symm.trans hlist
      obtain ⟨name, hnode, rfl⟩ := h.mem_entriesOf_directory hentry
      obtain ⟨hsame, hinner⟩ := h.resolve_of_entry habs hdir hnode
      rw [hsame] at ih
      obtain ⟨names, last, contents, hlast, rfl, hcontents, hwanted⟩ := ih (Path.isAbsolute_join habs) hinner
      refine ⟨name :: names, last, contents, ?_, rfl, ?_, by simpa using hwanted⟩
      · rw [List.getLast?_cons, hlast]
        rfl
      · simpa using hcontents

/-- A walk over a tree comes to directories only. -/
theorem IsTree.resolve_of_reaches (h : disk.IsTree) {root : Path} (habs : root.isAbsolute = true)
    (hroot : disk.resolve root = .ok (place, .directory)) {numbers : List Nat}
    (hreaches : Walk.Reaches disk.list root numbers dir) :
    dir.isAbsolute = true ∧ ∃ q, disk.resolve dir = .ok (q, .directory) := by
  induction hreaches with
  | root => exact ⟨habs, place, hroot⟩
  | @entry numbers dir before behind text _ hlist _ ih =>
      obtain ⟨habs, q, hdir⟩ := ih
      have hmem : (⟨text, .directory⟩ : Entry) ∈ disk.entriesOf q := by
        have hsame := Except.ok.inj ((list_of_resolve hdir).symm.trans hlist)
        simp [hsame]
      obtain ⟨name, hnode, rfl⟩ := h.mem_entriesOf_directory hmem
      obtain ⟨hsame, hinner⟩ := h.resolve_of_entry habs hdir hnode
      rw [hsame]
      exact ⟨Path.isAbsolute_join habs, _, hinner⟩

/-- On a tree a walk from a directory can list all that it comes to. -/
theorem IsTree.complete (h : disk.IsTree) (habs : dir.isAbsolute = true)
    (hdir : disk.resolve dir = .ok (place, .directory)) : Walk.Complete disk.list dir := by
  obtain ⟨answer, hanswer⟩ := h.exists_answer (fun _ _ => true) dir
  cases answer with
  | ok files => exact Walk.complete_of_filesBelow hanswer
  | error failure =>
      obtain ⟨numbers, found, cause, hreaches, herror, -⟩ := (Walk.answer_eq_error_iff hanswer).1 rfl
      obtain ⟨-, q, hfound⟩ := h.resolve_of_reaches habs hdir hreaches
      cases herror.symm.trans (list_of_resolve hfound)

end Walks

end Disk
end ScriptSymbols
