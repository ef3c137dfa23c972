import Mathlib.Data.List.Induction
import ScriptSymbols.Proofs.Index.Store
import ScriptSymbols.Proofs.Path.FileUri

/-!
# Disks that are trees

A disk is a tree if every name leads to one node only and every node lies in a directory. What a path
leads to is then settled by its names alone, as long as it goes through no link and never up.

* `Disk.IsRooted`, `Disk.IsTree` and `Disk.isRegular` say what the results ask of a disk. The names of a rooted disk
  are any bytes, and those of a tree are text.
* `Disk.IsRooted.node?_of_append`: what lies above a node is a directory.
* `Disk.followWith_cons_eq_ok_iff` says what one step does, and `Disk.follow_of_dropsDots` that dots on the way do
  nothing.
* `Disk.resolve_join`: a directory in a directory that a path leads to is found behind that path.
* `Disk.IsRooted.resolve_of_directory`: a path with the names of a directory leads there.
* `Disk.IsRooted.resolve_eq_ok_iff`: where there are no links, a path leads where its names lead.
* `Disk.IsRooted.source_eq_ok_iff`: the text of a file depends on nothing else on the disk.
-/

namespace ScriptSymbols

open Text

/-- The names that an entry of a directory can have: any bytes but slashes and NUL, and no step. -/
structure IsEntryName (name : FileName) : Prop where
  piece : Path.IsPiece name
  notParent : name ≠ [Path.dot, Path.dot]
  noNul : 0 ∉ name

/-- The names of entries that are text. This is a restriction: a directory may have entries with other names,
which are read with a loss. -/
structure IsFileName (name : FileName) : Prop extends IsEntryName name where
  isText : isUtf8 name = true

instance (name : FileName) : Decidable (IsEntryName name) :=
  decidable_of_iff
    ((Path.isNamed name = true ∧ Path.slash ∉ name) ∧ name ≠ [Path.dot, Path.dot] ∧ 0 ∉ name)
    ⟨fun h => ⟨h.1, h.2.1, h.2.2⟩, fun h => ⟨h.piece, h.notParent, h.noNul⟩⟩

instance (name : FileName) : Decidable (IsFileName name) :=
  decidable_of_iff (IsEntryName name ∧ isUtf8 name = true)
    ⟨fun h => ⟨h.1, h.2⟩, fun h => ⟨h.toIsEntryName, h.isText⟩⟩

theorem IsEntryName.ne_nil {name : FileName} (h : IsEntryName name) : name ≠ [] := by
  rintro rfl
  exact absurd h.piece.1 (by decide)

theorem IsEntryName.ne_dot {name : FileName} (h : IsEntryName name) : name ≠ [Path.dot] := by
  rintro rfl
  exact absurd h.piece.1 (by decide)

theorem IsEntryName.ne_slash {name : FileName} (h : IsEntryName name) : name ≠ [Path.slash] := by
  rintro rfl
  exact h.piece.2 List.mem_cons_self

namespace Disk

/-- A disk on which each list of names leads to one node and each node lies in a directory. -/
structure IsRooted (disk : Disk) : Prop where
  unique : (disk.nodes.map Prod.fst).Nodup
  rooted : ∀ entry ∈ disk.nodes,
    entry.1 ≠ [] ∧ disk.node? entry.1.dropLast = some .directory
  named : ∀ entry ∈ disk.nodes, ∀ name ∈ entry.1, IsEntryName name

/-- Such a disk whose names are all text. -/
structure IsTree (disk : Disk) : Prop extends IsRooted disk where
  texts : ∀ entry ∈ disk.nodes, ∀ name ∈ entry.1, isUtf8 name = true

instance (disk : Disk) : Decidable disk.IsRooted :=
  decidable_of_iff
    ((disk.nodes.map Prod.fst).Nodup ∧
      (∀ entry ∈ disk.nodes, entry.1 ≠ [] ∧ disk.node? entry.1.dropLast = some .directory) ∧
      ∀ entry ∈ disk.nodes, ∀ name ∈ entry.1, IsEntryName name)
    ⟨fun h => ⟨h.1, h.2.1, h.2.2⟩, fun h => ⟨h.unique, h.rooted, h.named⟩⟩

instance (disk : Disk) : Decidable disk.IsTree :=
  decidable_of_iff (disk.IsRooted ∧ ∀ entry ∈ disk.nodes, ∀ name ∈ entry.1, isUtf8 name = true)
    ⟨fun h => ⟨h.1, h.2⟩, fun h => ⟨h.toIsRooted, h.texts⟩⟩

/-- Whether a disk has files and directories only. -/
def isRegular (disk : Disk) : Bool :=
  disk.nodes.all fun entry =>
    match entry.2 with
    | .link _ => false
    | _ => true

/-- The contents of the file under a list of names. -/
def contents? (disk : Disk) (names : List FileName) : Option (List UInt8) :=
  match disk.node? names with
  | some (.file contents) => some contents
  | _ => none

theorem contents?_eq_some {disk : Disk} {names : List FileName} {contents : List UInt8} :
    disk.contents? names = some contents ↔ disk.node? names = some (.file contents) := by
  unfold contents?
  split
  · simp [*]
  · rename_i hother
    constructor
    · intro h
      cases h
    · intro h
      exact absurd h (hother contents)

theorem mem_of_node? {disk : Disk} {names : List FileName} {node : Node}
    (h : disk.node? names = some node) (hne : names ≠ []) : (names, node) ∈ disk.nodes := by
  have hlookup : disk.nodes.lookup names = some node := by
    simpa [node?, hne] using h
  exact Entries.mem_of_lookup hlookup

theorem node?_ne_link {disk : Disk} (h : disk.isRegular = true) (names : List FileName)
    (target : Path) : disk.node? names ≠ some (.link target) := by
  intro hnode
  have hne : names ≠ [] := by
    rintro rfl
    simp [node?] at hnode
  have hentry := List.all_eq_true.1 h _ (mem_of_node? hnode hne)
  simp at hentry

namespace IsRooted

variable {disk : Disk}

theorem node?_of_mem (h : disk.IsRooted) {entry : List FileName × Node} (hmem : entry ∈ disk.nodes) :
    disk.node? entry.1 = some entry.2 := by
  have hlookup := Entries.lookup_of_mem h.unique hmem
  simpa [node?, (h.rooted entry hmem).1] using hlookup

theorem isEntryName (h : disk.IsRooted) {names : List FileName} {node : Node}
    (hnode : disk.node? names = some node) : ∀ name ∈ names, IsEntryName name := by
  by_cases hne : names = []
  · simp [hne]
  · exact h.named _ (mem_of_node? hnode hne)

/-- What lies above a node is a directory. -/
theorem node?_of_append (h : disk.IsRooted) {place rest : List FileName} {node : Node}
    (hnode : disk.node? (place ++ rest) = some node) (hrest : rest ≠ []) :
    disk.node? place = some .directory := by
  -- The directory right above a node is one by definition; further up by induction on the names.
  induction rest using List.reverseRecOn generalizing node with
  | nil => exact absurd rfl hrest
  | append_singleton front name ih =>
      have hmem := mem_of_node? hnode (by simp)
      have habove : disk.node? (place ++ front) = some .directory := by
        have hdropped := (h.rooted _ hmem).2
        rwa [← List.append_assoc, List.dropLast_concat] at hdropped
      by_cases hfront : front = []
      · simpa [hfront] using habove
      · exact ih habove hfront

theorem node?_append_cases (h : disk.IsRooted) {place rest : List FileName} {node : Node}
    (hnode : disk.node? (place ++ rest) = some node) :
    disk.node? place = some .directory ∨ rest = [] ∧ disk.node? place = some node := by
  by_cases hrest : rest = []
  · subst hrest
    exact Or.inr ⟨rfl, by simpa using hnode⟩
  · exact Or.inl (h.node?_of_append hnode hrest)

end IsRooted

theorem IsTree.isFileName {disk : Disk} (h : disk.IsTree) {names : List FileName} {node : Node}
    (hnode : disk.node? names = some node) : ∀ name ∈ names, IsFileName name := by
  intro name hname
  refine ⟨h.isEntryName hnode name hname, h.texts _ (mem_of_node? hnode ?_) name hname⟩
  rintro rfl
  cases hname

/-! ## Following steps -/

section Follow

variable {disk : Disk}
  {jump : List FileName → Path → List FileName → Except IoError (List FileName × Node)}
  {r : List FileName × Node}

theorem followWith_dot (place steps : List FileName) :
    followWith disk jump place ([Path.dot] :: steps) = followWith disk jump place steps := by
  rw [followWith, if_pos rfl]

theorem followWith_parent (place steps : List FileName) :
    followWith disk jump place ([Path.dot, Path.dot] :: steps) =
      followWith disk jump place.dropLast steps := by
  rw [followWith, if_neg (by decide), if_pos rfl]

theorem followWith_name {step : FileName} (hdot : step ≠ [Path.dot])
    (hparent : step ≠ [Path.dot, Path.dot]) (place steps : List FileName) :
    followWith disk jump place (step :: steps) =
      match disk.node? (place ++ [step]) with
      | none => .error .notFound
      | some .directory => followWith disk jump (place ++ [step]) steps
      | some (.file contents) =>
        if steps.isEmpty then .ok (place ++ [step], .file contents) else .error .notDirectory
      | some (.link target) => jump place target steps := by
  cases hnode : disk.node? (place ++ [step]) with
  | none => simp [followWith, hdot, hparent, hnode]
  | some node => cases node <;> simp [followWith, hdot, hparent, hnode]

/-- A step is a name, and `node` is what it leads to from a directory. -/
def Meets (disk : Disk) (place : List FileName) (step : FileName) (node : Node) : Prop :=
  step ≠ [Path.dot] ∧ step ≠ [Path.dot, Path.dot] ∧ disk.node? (place ++ [step]) = some node

/-- One step from a directory to a directory. -/
inductive Enters (disk : Disk) (place : List FileName) : FileName → List FileName → Prop
  | dot : Enters disk place [Path.dot] place
  | parent : Enters disk place [Path.dot, Path.dot] place.dropLast
  | name {step : FileName} : disk.Meets place step .directory → Enters disk place step (place ++ [step])

theorem followWith_of_enters {place steps q : List FileName} {step : FileName}
    (h : disk.Enters place step q) :
    followWith disk jump place (step :: steps) = followWith disk jump q steps := by
  cases h with
  | dot => exact followWith_dot place steps
  | parent => exact followWith_parent place steps
  | name hmeets =>
      obtain ⟨hdot, hparent, hnode⟩ := hmeets
      rw [followWith_name hdot hparent, hnode]

/-- Steps lead somewhere if the first one enters a directory from which the others do, or if it meets a file and
is the last one, or a link from which the others are followed. -/
theorem followWith_cons_eq_ok_iff {place steps : List FileName} {step : FileName} :
    followWith disk jump place (step :: steps) = .ok r ↔
      (∃ q, disk.Enters place step q ∧ followWith disk jump q steps = .ok r) ∨
        (∃ contents, disk.Meets place step (.file contents) ∧ steps = [] ∧
          r = (place ++ [step], .file contents)) ∨
        ∃ target, disk.Meets place step (.link target) ∧ jump place target steps = .ok r := by
  constructor
  · intro h
    by_cases hdot : step = [Path.dot]
    · subst hdot
      exact Or.inl ⟨place, .dot, by rwa [followWith_dot] at h⟩
    by_cases hparent : step = [Path.dot, Path.dot]
    · subst hparent
      exact Or.inl ⟨place.dropLast, .parent, by rwa [followWith_parent] at h⟩
    rw [followWith_name hdot hparent] at h
    cases hnode : disk.node? (place ++ [step]) with
    | none => simp [hnode] at h
    | some node =>
        have hmeets : disk.Meets place step node := ⟨hdot, hparent, hnode⟩
        simp only [hnode] at h
        cases node with
        | directory => exact Or.inl ⟨place ++ [step], .name hmeets, h⟩
        | link target => exact Or.inr (Or.inr ⟨target, hmeets, h⟩)
        | file contents =>
            dsimp only at h
            split at h
            · rename_i hempty
              cases h
              exact Or.inr (Or.inl ⟨contents, hmeets, List.isEmpty_iff.1 hempty, rfl⟩)
            · cases h
  · rintro (⟨q, henters, h⟩ | ⟨contents, ⟨hdot, hparent, hnode⟩, rfl, rfl⟩ | ⟨target, hmeets, h⟩)
    · rwa [followWith_of_enters henters]
    · rw [followWith_name hdot hparent, hnode]
      rfl
    · obtain ⟨hdot, hparent, hnode⟩ := hmeets
      rwa [followWith_name hdot hparent, hnode]

/-- Steps that lead to a directory can be continued from there. -/
theorem followWith_append {q more : List FileName}
    (hjump : ∀ place target steps, jump place target steps = .ok (q, .directory) →
      jump place target (steps ++ more) = .ok r)
    (hmore : followWith disk jump q more = .ok r) {place steps : List FileName}
    (h : followWith disk jump place steps = .ok (q, .directory)) :
    followWith disk jump place (steps ++ more) = .ok r := by
  induction steps generalizing place with
  | nil =>
      have hplace : place = q := by
        simpa [followWith] using h
      simpa [hplace] using hmore
  | cons step steps ih =>
      rw [List.cons_append, followWith_cons_eq_ok_iff]
      rcases followWith_cons_eq_ok_iff.1 h with
        ⟨next, henters, hrest⟩ | ⟨contents, -, -, hfile⟩ | ⟨target, hmeets, hlink⟩
      · exact Or.inl ⟨next, henters, ih hrest⟩
      · -- A file ends the steps, and is no directory.
        cases hfile
      · exact Or.inr (Or.inr ⟨target, hmeets, hjump place target steps hlink⟩)

theorem follow_append {q more : List FileName}
    (hmore : ∀ links, disk.follow links q more = .ok r) {links : Nat} {place steps : List FileName}
    (h : disk.follow links place steps = .ok (q, .directory)) :
    disk.follow links place (steps ++ more) = .ok r := by
  induction links generalizing place steps with
  | zero =>
      refine followWith_append ?_ (hmore 0) h
      intro place target steps hjump
      cases hjump
  | succ links ih =>
      refine followWith_append ?_ (hmore (links + 1)) h
      intro place target steps hjump
      rw [← List.append_assoc]
      exact ih hjump

/-- The second steps are the first ones without some of their dots. -/
inductive DropsDots : List FileName → List FileName → Prop
  | nil : DropsDots [] []
  | keep (step : FileName) {steps kept : List FileName} :
      DropsDots steps kept → DropsDots (step :: steps) (step :: kept)
  | drop {steps kept : List FileName} :
      DropsDots steps kept → DropsDots ([Path.dot] :: steps) kept

theorem DropsDots.append_left (front : List FileName) {steps kept : List FileName}
    (h : DropsDots steps kept) : DropsDots (front ++ steps) (front ++ kept) := by
  induction front with
  | nil => exact h
  | cons step front ih => exact .keep step ih

theorem followWith_of_dropsDots
    (hjump : ∀ place target steps kept, DropsDots steps kept →
      jump place target steps = .ok r → jump place target kept = .ok r)
    {place steps kept : List FileName} (hdrops : DropsDots steps kept)
    (h : followWith disk jump place steps = .ok r) : followWith disk jump place kept = .ok r := by
  induction hdrops generalizing place with
  | nil => exact h
  | drop _ ih =>
      rw [followWith_dot] at h
      exact ih h
  | @keep step steps kept hdrops ih =>
      rw [followWith_cons_eq_ok_iff]
      rcases followWith_cons_eq_ok_iff.1 h with
        ⟨next, henters, hrest⟩ | ⟨contents, hmeets, rfl, hfile⟩ | ⟨target, hmeets, hlink⟩
      · exact Or.inl ⟨next, henters, ih hrest⟩
      · -- No step is left behind a file, so there is no dot to drop.
        cases hdrops
        exact Or.inr (Or.inl ⟨contents, hmeets, rfl, hfile⟩)
      · exact Or.inr (Or.inr ⟨target, hmeets, hjump place target steps kept hdrops hlink⟩)

/-- Steps that lead somewhere lead to the same place without their dots. -/
theorem follow_of_dropsDots {links : Nat} {place steps kept : List FileName}
    (hdrops : DropsDots steps kept) (h : disk.follow links place steps = .ok r) :
    disk.follow links place kept = .ok r := by
  -- The steps behind a link follow those of its target, which keep their dots.
  induction links generalizing place steps kept with
  | zero =>
      refine followWith_of_dropsDots ?_ hdrops h
      intro place target steps kept _ hjump
      cases hjump
  | succ links ih =>
      refine followWith_of_dropsDots ?_ hdrops h
      intro place target steps kept hdrops hjump
      exact ih (hdrops.append_left (stepsOf target)) hjump

/-- A dot behind steps asks for a directory and changes nothing else. -/
theorem follow_of_append_dot {links : Nat} {place steps : List FileName}
    (h : disk.follow links place (steps ++ [[Path.dot]]) = .ok r) :
    disk.follow links place steps = .ok r := by
  have hdrops : DropsDots (steps ++ [[Path.dot]]) (steps ++ []) :=
    DropsDots.append_left steps (.drop .nil)
  rw [List.append_nil] at hdrops
  exact follow_of_dropsDots hdrops h

/-- One step into a directory needs no links. -/
theorem follow_singleton {q : List FileName} {name : FileName}
    (hname : IsEntryName name) (hnode : disk.node? (q ++ [name]) = some .directory) (links : Nat) :
    disk.follow links q [name] = .ok (q ++ [name], .directory) := by
  cases links <;>
    simp [follow, followWith, hname.ne_dot, hname.notParent, hnode]

/-- Steps that are all dots end in a dot. -/
theorem eq_nil_of_filter_dot {steps : List FileName}
    (h : steps.filter (· != [Path.dot]) = []) (hlast : steps.getLast? ≠ some [Path.dot]) :
    steps = [] := by
  by_contra hne
  have hmem := List.getLast_mem hne
  have hdot : steps.getLast hne = [Path.dot] := by
    simpa using List.filter_eq_nil_iff.1 h _ hmem
  exact hlast (by rw [List.getLast?_eq_some_getLast hne, hdot])

/-- The place under the names of some steps, with what is there. A file is not found behind a dot. -/
def LeadsTo (disk : Disk) (place steps q : List FileName) (node : Node) : Prop :=
  q = place ++ steps.filter (· != [Path.dot]) ∧ disk.node? q = some node ∧
    (node = .directory ∨ steps.getLast? ≠ some [Path.dot])

section LeadsTo

variable {place steps q : List FileName} {node : Node} {step : FileName}

theorem leadsTo_nil (hplace : disk.node? place = some .directory) :
    disk.LeadsTo place [] q node ↔ place = q ∧ node = .directory := by
  simp only [LeadsTo, List.filter_nil, List.append_nil]
  constructor
  · rintro ⟨rfl, hnode, -⟩
    rw [hplace] at hnode
    cases hnode
    exact ⟨rfl, rfl⟩
  · rintro ⟨rfl, rfl⟩
    exact ⟨rfl, hplace, Or.inl rfl⟩

theorem leadsTo_dot (hplace : disk.node? place = some .directory) :
    disk.LeadsTo place ([Path.dot] :: steps) q node ↔ disk.LeadsTo place steps q node := by
  cases steps with
  | nil =>
      -- A dot alone stays in the directory, so that there is no file to ask about.
      rw [leadsTo_nil hplace]
      constructor
      · rintro ⟨rfl, hnode, -⟩
        refine ⟨by simp, ?_⟩
        simpa [hplace, eq_comm] using hnode
      · rintro ⟨rfl, rfl⟩
        exact ⟨by simp, hplace, Or.inl rfl⟩
  | cons next steps => rw [LeadsTo, List.filter_cons_of_neg (by simp), List.getLast?_cons_cons, LeadsTo]

theorem leadsTo_name (hdot : step ≠ [Path.dot]) :
    disk.LeadsTo place (step :: steps) q node ↔ disk.LeadsTo (place ++ [step]) steps q node := by
  have hlast : (step :: steps).getLast? ≠ some [Path.dot] ↔ steps.getLast? ≠ some [Path.dot] := by
    cases steps with
    | nil => simp [hdot]
    | cons next steps => rw [List.getLast?_cons_cons]
  rw [LeadsTo, List.filter_cons_of_pos (by simpa using hdot), hlast, LeadsTo, List.append_assoc,
    List.singleton_append]

/-- Nothing is found behind a name that leads nowhere. -/
theorem IsRooted.not_leadsTo (h : disk.IsRooted) (hplace : disk.node? place = none) :
    ¬ disk.LeadsTo place steps q node := by
  rintro ⟨rfl, hfound, -⟩
  rcases h.node?_append_cases hfound with hdir | ⟨-, hsame⟩
  · simp [hplace] at hdir
  · simp [hplace] at hsame

/-- Behind a file only the file itself is found. -/
theorem IsRooted.leadsTo_file (h : disk.IsRooted) {contents : List UInt8}
    (hplace : disk.node? place = some (.file contents)) :
    disk.LeadsTo place steps q node ↔ steps = [] ∧ place = q ∧ node = .file contents := by
  constructor
  · rintro ⟨rfl, hfound, hend⟩
    rcases h.node?_append_cases hfound with hdir | ⟨hrest, hsame⟩
    · simp [hplace] at hdir
    · rw [hplace] at hsame
      cases hsame
      have hnil : steps = [] := eq_nil_of_filter_dot hrest (hend.resolve_left (by simp))
      simp [hnil]
  · rintro ⟨rfl, rfl, rfl⟩
    exact ⟨by simp, hplace, Or.inr (by simp)⟩

end LeadsTo

/-- Where there are no links, following steps that never go up is looking up their names. -/
theorem IsRooted.followWith_eq_ok_iff (h : disk.IsRooted) (hregular : disk.isRegular = true)
    {place steps q : List FileName} {node : Node} (hplace : disk.node? place = some .directory)
    (hup : [Path.dot, Path.dot] ∉ steps) :
    followWith disk jump place steps = .ok (q, node) ↔ disk.LeadsTo place steps q node := by
  induction steps generalizing place with
  | nil =>
      rw [leadsTo_nil hplace, followWith, Except.ok.injEq, Prod.mk.injEq, eq_comm (a := node)]
  | cons step steps ih =>
      have hup' : [Path.dot, Path.dot] ∉ steps := fun hmem => hup (List.mem_cons_of_mem step hmem)
      by_cases hdot : step = [Path.dot]
      · subst hdot
        rw [followWith_dot, ih hplace hup', leadsTo_dot hplace]
      · have hparent : step ≠ [Path.dot, Path.dot] := by
          rintro rfl
          exact hup List.mem_cons_self
        rw [followWith_name hdot hparent, leadsTo_name hdot]
        cases hnode : disk.node? (place ++ [step]) with
        | none => exact iff_of_false (by simp) (h.not_leadsTo hnode)
        | some found =>
            cases found with
            | directory => exact ih hnode hup'
            | link target => exact absurd hnode (node?_ne_link hregular _ target)
            | file contents =>
                rw [h.leadsTo_file hnode]
                cases steps <;> simp [eq_comm]

/-- Steps to a directory of the tree meet directories only, whatever links there are elsewhere. -/
theorem IsRooted.followWith_of_directory (h : disk.IsRooted) {place steps : List FileName}
    (hup : [Path.dot, Path.dot] ∉ steps)
    (hdir : disk.node? (place ++ steps.filter (· != [Path.dot])) = some .directory) :
    followWith disk jump place steps =
      .ok (place ++ steps.filter (· != [Path.dot]), .directory) := by
  induction steps generalizing place with
  | nil => simp [followWith]
  | cons step steps ih =>
      have hup' : [Path.dot, Path.dot] ∉ steps := fun hmem => hup (List.mem_cons_of_mem step hmem)
      by_cases hdot : step = [Path.dot]
      · subst hdot
        rw [List.filter_cons_of_neg (by simp)] at hdir ⊢
        rw [followWith_dot]
        exact ih hup' hdir
      · have hparent : step ≠ [Path.dot, Path.dot] := by
          rintro rfl
          exact hup List.mem_cons_self
        have hsplit : place ++ (step :: steps).filter (· != [Path.dot]) =
            place ++ [step] ++ steps.filter (· != [Path.dot]) := by
          simp [List.filter_cons_of_pos, hdot]
        rw [hsplit] at hdir ⊢
        -- The directory asked for is the one that the step leads to, or lies below it.
        have hhere : disk.node? (place ++ [step]) = some .directory := by
          rcases h.node?_append_cases hdir with habove | ⟨-, hsame⟩
          · exact habove
          · exact hsame
        rw [followWith_name hdot hparent, hhere]
        exact ih hup' hdir

theorem IsRooted.follow_of_directory (h : disk.IsRooted) (links : Nat) {place steps : List FileName}
    (hup : [Path.dot, Path.dot] ∉ steps)
    (hdir : disk.node? (place ++ steps.filter (· != [Path.dot])) = some .directory) :
    disk.follow links place steps =
      .ok (place ++ steps.filter (· != [Path.dot]), .directory) := by
  cases links with
  | zero => exact h.followWith_of_directory hup hdir
  | succ links => exact h.followWith_of_directory hup hdir

theorem IsRooted.follow_eq_ok_iff (h : disk.IsRooted) (hregular : disk.isRegular = true) (links : Nat)
    {place steps q : List FileName} {node : Node} (hplace : disk.node? place = some .directory)
    (hup : [Path.dot, Path.dot] ∉ steps) :
    disk.follow links place steps = .ok (q, node) ↔ disk.LeadsTo place steps q node := by
  cases links with
  | zero => exact h.followWith_eq_ok_iff hregular hplace hup
  | succ links => exact h.followWith_eq_ok_iff hregular hplace hup

end Follow

/-! ## Where paths lead -/

/-- The steps of a path are its names, and dots. -/
theorem filter_stepsOf (p : Path) : (stepsOf p).filter (· != [Path.dot]) = p.names := by
  have hpieces : ((Path.splitSlash p.bytes).filter (!·.isEmpty)).filter (· != [Path.dot]) =
      p.names := by
    rw [List.filter_filter]
    refine List.filter_congr ?_
    intro piece _
    simp [Path.isNamed, Bool.and_comm]
  unfold stepsOf
  dsimp only
  split
  · rw [List.filter_append, hpieces]
    simp
  · exact hpieces

/-- A name behind a path is one more step, and a slash between them is not asked for twice. -/
theorem stepsOf_join (dir : Path) {name : FileName} (hname : IsEntryName name) :
    stepsOf (dir.join ⟨name⟩) = (Path.splitSlash dir.bytes).filter (!·.isEmpty) ++ [name] := by
  have hkeep : (!name.isEmpty) = true := by
    simp [hname.ne_nil]
  have hlast : (dir.join ⟨name⟩).bytes.getLast? ≠ some Path.slash := by
    intro hslash
    have hgiven : (dir.join ⟨name⟩).bytes.getLast? = name.getLast? := by
      rw [Path.bytes_join_of_isPiece dir hname.piece]
      split <;> simp [List.getLast?_append, List.getLast?_eq_some_getLast hname.ne_nil,
        List.getLast?_cons]
    rw [hgiven] at hslash
    exact hname.piece.2 (List.mem_of_getLast? hslash)
  unfold stepsOf
  rw [Path.filter_splitSlash_join dir hname.piece rfl hkeep, if_neg hlast]

theorem resolve_of_isAbsolute (disk : Disk) {p : Path} (habs : p.isAbsolute = true)
    (hnul : 0 ∉ p.bytes) : disk.resolve p = disk.follow maxLinks [] (stepsOf p) := by
  have hne : p.bytes ≠ [] := by
    intro hnil
    simp [Path.isAbsolute, hnil] at habs
  simp [resolve, hnul, hne, habs]

theorem nul_not_mem_of_resolve {disk : Disk} {p : Path} {r : List FileName × Node}
    (h : disk.resolve p = .ok r) : 0 ∉ p.bytes := by
  intro hnul
  simp [resolve, hnul] at h

/-- A directory in a directory that a path leads to is found behind that path. -/
theorem resolve_join {disk : Disk} {dir : Path} {q : List FileName} {name : FileName}
    (habs : dir.isAbsolute = true) (h : disk.resolve dir = .ok (q, .directory))
    (hname : IsEntryName name) (hnode : disk.node? (q ++ [name]) = some .directory) :
    disk.resolve (dir.join ⟨name⟩) = .ok (q ++ [name], .directory) := by
  have hnul := nul_not_mem_of_resolve h
  have hnul' : 0 ∉ (dir.join ⟨name⟩).bytes := by
    rw [Path.bytes_join_of_isPiece dir hname.piece]
    split <;> simp [hnul, hname.noNul, Path.slash]
  have hpieces : disk.follow maxLinks [] ((Path.splitSlash dir.bytes).filter (!·.isEmpty)) =
      .ok (q, .directory) := by
    rw [resolve_of_isAbsolute disk habs hnul] at h
    unfold stepsOf at h
    dsimp only at h
    split at h
    · exact follow_of_append_dot h
    · exact h
  rw [resolve_of_isAbsolute disk (Path.isAbsolute_join habs) hnul', stepsOf_join dir hname]
  exact follow_append (follow_singleton hname hnode) hpieces

theorem parent_not_mem_stepsOf {p : Path} (hup : [Path.dot, Path.dot] ∉ p.names) :
    [Path.dot, Path.dot] ∉ stepsOf p := by
  intro hmem
  refine hup ?_
  rw [← filter_stepsOf]
  exact List.mem_filter.2 ⟨hmem, by decide⟩

/-- The names of a node have no byte that a path must not have. -/
theorem IsRooted.nul_not_mem {disk : Disk} (h : disk.IsRooted) {p : Path} {node : Node}
    (hnode : disk.node? p.names = some node) : 0 ∉ p.bytes := by
  intro hmem
  rcases Path.exists_mem_names hmem (by decide) (by decide) with ⟨name, hname, hin⟩
  exact (h.isEntryName hnode name hname).noNul hin

/-- A path whose names are those of a directory of the tree leads there. -/
theorem IsRooted.resolve_of_directory {disk : Disk} (h : disk.IsRooted) {p : Path}
    (habs : p.isAbsolute = true) (hdir : disk.node? p.names = some .directory) :
    disk.resolve p = .ok (p.names, .directory) := by
  have hup : [Path.dot, Path.dot] ∉ p.names := by
    intro hmem
    exact (h.isEntryName hdir _ hmem).notParent rfl
  have hsteps : disk.node? ([] ++ (stepsOf p).filter (· != [Path.dot])) = some .directory := by
    rw [List.nil_append, filter_stepsOf]
    exact hdir
  have hfollow := h.follow_of_directory maxLinks (parent_not_mem_stepsOf hup) hsteps
  rw [List.nil_append, filter_stepsOf] at hfollow
  rw [resolve_of_isAbsolute disk habs (h.nul_not_mem hdir)]
  exact hfollow

/-- On a tree without links a path that never goes up leads to what its names lead to. -/
theorem IsRooted.resolve_eq_ok_iff {disk : Disk} (h : disk.IsRooted) (hregular : disk.isRegular = true)
    {p : Path} (habs : p.isAbsolute = true) (hup : [Path.dot, Path.dot] ∉ p.names)
    {q : List FileName} {node : Node} :
    disk.resolve p = .ok (q, node) ↔
      q = p.names ∧ disk.node? q = some node ∧
        (node = .directory ∨ (stepsOf p).getLast? ≠ some [Path.dot]) := by
  have hfollow : disk.follow maxLinks [] (stepsOf p) = .ok (q, node) ↔
      q = p.names ∧ disk.node? q = some node ∧
        (node = .directory ∨ (stepsOf p).getLast? ≠ some [Path.dot]) := by
    rw [← filter_stepsOf]
    exact h.follow_eq_ok_iff hregular maxLinks rfl (parent_not_mem_stepsOf hup)
  constructor
  · intro hresolve
    rw [resolve_of_isAbsolute disk habs (nul_not_mem_of_resolve hresolve)] at hresolve
    exact hfollow.1 hresolve
  · intro hfound
    have hnode : disk.node? p.names = some node := by
      rw [← hfound.1]
      exact hfound.2.1
    rw [resolve_of_isAbsolute disk habs (h.nul_not_mem hnode)]
    exact hfollow.2 hfound

/-- The text of a URI is that of the file under the names of its path, unless the path asks for a
directory. -/
theorem IsRooted.source_eq_ok_iff {disk : Disk} (h : disk.IsRooted) (hregular : disk.isRegular = true)
    {uri : Uri} {p : Path} (hpath : uri.path? = some p) (hup : [Path.dot, Path.dot] ∉ p.names)
    {text : String} :
    disk.source uri = .ok text ↔
      (stepsOf p).getLast? ≠ some [Path.dot] ∧
        ∃ contents, disk.contents? p.names = some contents ∧ decodeFile contents = text := by
  have habs := Uri.isAbsolute_of_path? hpath
  constructor
  · intro hsource
    simp only [source, hpath, read] at hsource
    cases hfound : disk.resolve p with
    | error cause => simp [hfound] at hsource
    | ok found =>
        rcases found with ⟨q, node⟩
        rcases (h.resolve_eq_ok_iff hregular habs hup).1 hfound with ⟨rfl, hnode, hlast⟩
        cases node with
        | file contents =>
            refine ⟨hlast.resolve_left (by simp), contents, contents?_eq_some.2 hnode, ?_⟩
            simpa [hfound] using hsource
        | directory => simp [hfound] at hsource
        | link target => simp [hfound] at hsource
  · rintro ⟨hlast, contents, hcontents, rfl⟩
    have hfound := (h.resolve_eq_ok_iff hregular habs hup).2
      ⟨rfl, contents?_eq_some.1 hcontents, Or.inr hlast⟩
    simp [source, hpath, read, hfound]

end Disk
end ScriptSymbols
