import ScriptSymbols.Proofs.Server.Sections
import ScriptSymbols.Proofs.Workspace.Batch

/-!
# Buffers among interleaved handlers

When the sections of several handlers are interleaved, an open buffer is in the index once they are all
done, whatever they read from the disk, as long as its document was not opened between the section in
which a handler decides to read its file and the section in which it writes what it read. A handler
that closes a document, or follows the events about files, decides before it waits for the disk and
does not look again: a document that is opened in the meantime loses its entry to the disk.

* `Handler.targets` are the URIs that a handler has decided on and not yet written.
* `Session.timely` excludes that a document is opened in such a gap, and that its edits fail.
* `Handler.Section` says once what a section can do, and what a section keeps is derived from it.
* `Session.Sound` is the invariant, with `Session.Sound.step` for one move.
* `Session.buffers_win_when_opened_in_time` is the result for whole runs, and
  `Session.reopened_document_loses_to_disk` a run in which the disk wins.
-/

namespace ScriptSymbols

open Workspace

namespace Handler

/-- The URIs whose entries a handler is going to write or remove according to the disk, without
looking again whether they are open. -/
def targets : Handler → List Uri
  | .following event rest => event.uri :: rest.map FileEvent.uri
  | .reading uri rest => uri :: rest.map FileEvent.uri
  | .storing uri _ rest => uri :: rest.map FileEvent.uri
  | .removing uri rest => uri :: rest.map FileEvent.uri
  | _ => []

/-- Whether the next section of a handler respects what the other handlers have in mind for a URI: it
does not open the URI while one of them has it as a target, and its edits of the URI can be applied. -/
def isTimely (uri : Uri) (s : Session) : Handler → Bool
  | .opening other _ _ => other != uri || s.handlers.all fun h => !h.targets.contains uri
  | .changing other changes _ =>
    other != uri || (s.workspace.document? uri).all (·.inOrder changes)
  | _ => true

theorem mem_targets_followNext {events : List FileEvent} {uri : Uri} {h : Handler}
    (hnext : followNext events = some h) (htarget : uri ∈ h.targets) :
    uri ∈ events.map FileEvent.uri := by
  cases events with
  | nil => cases hnext
  | cons event rest =>
      cases hnext
      exact htarget

end Handler

namespace Workspace

theorem inStepAt_of_document? {w : Workspace} {uri : Uri} (hclosed : w.document? uri = none) :
    w.InStepAt uri := by
  intro b hopen
  rw [hclosed] at hopen
  cases hopen

/-- A URI stays in step where its entry stays as it is. -/
theorem InStepAt.withIndex {w : Workspace} {uri : Uri} (h : w.InStepAt uri) {ix : SymbolIndex}
    (hsame : ix.get? uri = w.index.get? uri) : InStepAt { w with index := ix } uri := by
  intro b hopen
  have hscript : w.script? uri = some (Script.ofText uri b.text) := h b hopen
  exact hsame.trans hscript

theorem document?_closeDocument (w : Workspace) (uri other : Uri) :
    (w.closeDocument uri).document? other = if other = uri then none else w.document? other :=
  Entries.lookup_filter_ne uri other w.documents

theorem document?_openDocument (w : Workspace) (uri other : Uri) (text : String)
    (version : Option Int) :
    (w.openDocument uri text version).document? other =
      if other = uri then some (Buffer.ofText text version) else w.document? other :=
  document?_putDocument w uri other _ _

/-- A batch of edits opens no document. -/
theorem document?_changeDocument {w : Workspace} {uri : Uri} (hclosed : w.document? uri = none)
    (other : Uri) (changes : List Change) (version : Option Int) :
    (w.changeDocument other changes version).1.document? uri = none := by
  cases hother : w.document? other with
  | none => simp [changeDocument, hother, hclosed]
  | some b =>
      have hne : uri ≠ other := by
        intro heq
        rw [heq, hother] at hclosed
        cases hclosed
      rcases changeDocument_cases hother changes version with ⟨b', -, heq⟩ | ⟨b', e, -, heq⟩
      · rw [heq, document?_putDocument, if_neg hne]
        exact hclosed
      · rw [heq, document?_putDocument, if_neg hne]
        exact hclosed

/-- A batch of edits keeps a URI in step that is not its own, and its own if it can be applied. -/
theorem InStepAt.changeDocument {w : Workspace} {uri : Uri} (h : w.InStepAt uri) (other : Uri)
    (changes : List Change) (version : Option Int)
    (horder : other = uri → (w.document? uri).all (·.inOrder changes) = true) :
    (w.changeDocument other changes version).1.InStepAt uri := by
  cases hopen : w.document? other with
  | none => simpa [Workspace.changeDocument, hopen] using h
  | some b =>
      rcases changeDocument_cases hopen changes version with
        ⟨b', -, heq⟩ | ⟨b', e, hfailed, heq⟩
      · rw [heq]
        exact inStepAt_putBuffer other _ fun _ => h
      · rw [heq]
        refine inStepAt_putDocument_of_ne b' ?_ h
        intro hown
        have happlied : (b.applyAll changes).2 = .ok () := by
          refine Buffer.applyAll_of_inOrder ?_
          have hinOrder := horder hown.symm
          rw [hown, hopen] at hinOrder
          simpa using hinOrder
        rw [hfailed] at happlied
        cases happlied

theorem inStepAt_reindexOpen (w : Workspace) (uri : Uri) : w.reindexOpen.InStepAt uri := by
  intro b hopen
  exact foldl_indexBuffer_of_mem w.index w.unique (Entries.mem_of_lookup hopen)

end Workspace

/-! ## One section -/

namespace Handler

/-- What a section can do to the workspace, and what is left to do then. A handler that follows events
writes one entry and goes on, or waits with the same targets; nothing else has targets to hand on but
closing a document and choosing among events. -/
inductive Section (w : Workspace) : Handler → Workspace → Option Handler → Prop
  | opening (uri : Uri) (text : String) (version : Option Int) :
      Section w (.opening uri text version) (w.openDocument uri text version) none
  | changing (uri : Uri) (changes : List Change) (version : Option Int) :
      Section w (.changing uri changes version) (w.changeDocument uri changes version).1 none
  | closing (uri : Uri) :
      Section w (.closing uri) (w.closeDocument uri) (some (.following { uri, deleted := false } []))
  | filtering (events : List FileEvent) :
      Section w (.filtering events) w (followNext (events.filter w.concerns))
  | writing {handler : Handler} {uri : Uri} {rest : List FileEvent} {ix : SymbolIndex}
      (htargets : handler.targets = uri :: rest.map FileEvent.uri)
      (hother : ∀ other, other ≠ uri → ix.get? other = w.index.get? other) :
      Section w handler { w with index := ix } (followNext rest)
  | waiting {handler next : Handler} (htargets : next.targets = handler.targets) :
      Section w handler w (some next)
  | finishing (handler : Handler) : Section w handler w none
  | configuring (settings : Settings) {next : Option Handler}
      (hnext : ∀ h, next = some h → h.targets = []) :
      Section w (.configuring settings) { w with settings } next
  | clearing : Section w .clearing w.clearIndex (some .scanning)
  | storing (texts : List (Uri × String)) :
      Section w (.storingAll texts) { w with index := w.index.storeTexts texts } (some .reapplying)
  | reapplying : Section w .reapplying w.reindexOpen none

theorem section_advance (disk : Disk) (w : Workspace) (handler : Handler) :
    Section w handler (handler.advance disk w).1 (handler.advance disk w).2 := by
  have hremove : ∀ uri other : Uri, other ≠ uri →
      (w.index.remove uri).get? other = w.index.get? other := by
    intro uri other hne
    simp [SymbolIndex.get?_remove, hne]
  cases handler with
  | opening uri text version => exact .opening uri text version
  | changing uri changes version => exact .changing uri changes version
  | closing uri => exact .closing uri
  | filtering events => exact .filtering events
  | following event rest =>
      by_cases hdeleted : event.deleted = true
      · simp only [advance, if_pos hdeleted]
        exact .writing rfl (hremove event.uri)
      · by_cases hpresent : event.uri.path?.any disk.isPresent = true
        · simp only [advance, if_neg hdeleted, if_pos hpresent]
          exact .waiting rfl
        · simp only [advance, if_neg hdeleted, if_neg hpresent]
          exact .waiting rfl
  | reading uri rest =>
      cases hsource : disk.source uri with
      | ok text =>
          simp only [advance, hsource]
          exact .waiting rfl
      | error e =>
          simp only [advance, hsource]
          exact .waiting rfl
  | storing uri text rest =>
      refine .writing rfl ?_
      intro other hne
      simp [SymbolIndex.get?_store, hne]
  | removing uri rest => exact .writing rfl (hremove uri)
  | configuring settings =>
      refine .configuring settings ?_
      intro h hnext
      have hleft : (if w.settings = settings then none else some .clearing) = some h := hnext
      split at hleft
      · cases hleft
      · cases hleft
        rfl
  | clearing => exact .clearing
  | scanning =>
      by_cases hwanted : w.settings.indexWorkspace = true
      · simp only [advance, if_pos hwanted]
        exact .waiting rfl
      · simp only [advance, if_neg hwanted]
        exact .finishing .scanning
  | listing settings folders found => cases folders <;> exact .waiting rfl
  | loading limit paths texts => cases paths <;> exact .waiting rfl
  | storingAll texts => exact .storing texts
  | reapplying => exact .reapplying

namespace Section

variable {w w' : Workspace} {uri : Uri} {handler : Handler} {next : Option Handler}

/-- Only opening a document opens it. -/
theorem document?_eq_none (hs : Section w handler w' next) (h : w.document? uri = none)
    (hnot : ∀ text version, handler ≠ .opening uri text version) : w'.document? uri = none := by
  cases hs with
  | opening other text version =>
      have hne : uri ≠ other := by
        intro heq
        exact hnot text version (heq ▸ rfl)
      rw [document?_openDocument, if_neg hne]
      exact h
  | changing other changes version => exact document?_changeDocument h other changes version
  | closing other =>
      rw [document?_closeDocument, h]
      split <;> rfl
  | filtering | writing | waiting | finishing | configuring | clearing | storing | reapplying =>
      exact h

/-- A handler takes no URI for a target that is open at the end of the section. -/
theorem document?_of_mem_targets (hs : Section w handler w' next)
    (hold : uri ∈ handler.targets → w.document? uri = none) {h : Handler} (hnext : next = some h)
    (htarget : uri ∈ h.targets) : w'.document? uri = none := by
  cases hs with
  | opening | changing | finishing | reapplying => cases hnext
  | closing other =>
      cases hnext
      have huri : uri = other := by
        simpa [targets] using htarget
      rw [document?_closeDocument, if_pos huri]
  | filtering events =>
      -- What is open is not among the events that concern the index.
      have hmem := mem_targets_followNext hnext htarget
      rcases List.mem_map.1 hmem with ⟨event, hevent, rfl⟩
      have hconcerns := (List.mem_filter.1 hevent).2
      simp only [concerns, isOpen, Bool.and_eq_true, Bool.not_eq_true', Option.isSome_eq_false_iff,
        Option.isNone_iff_eq_none] at hconcerns
      exact hconcerns.1
  | writing htargets hother =>
      -- The events that are left were targets before.
      refine hold ?_
      rw [htargets]
      exact List.mem_cons_of_mem _ (mem_targets_followNext hnext htarget)
  | waiting htargets =>
      cases hnext
      exact hold (htargets ▸ htarget)
  | configuring settings hempty =>
      rw [hempty h hnext] at htarget
      cases htarget
  | clearing | storing =>
      cases hnext
      cases htarget

/-- A timely section keeps a URI in step, unless it stores files over it; then the buffers are to be
applied again. -/
theorem inStepAt {s : Session} (hs : Section s.workspace handler w' next)
    (h : s.workspace.InStepAt uri)
    (hold : uri ∈ handler.targets → s.workspace.document? uri = none)
    (htimely : handler.isTimely uri s = true) : w'.InStepAt uri ∨ next = some .reapplying := by
  cases hs with
  | opening other text version => exact Or.inl (inStepAt_putBuffer other _ fun _ => h)
  | changing other changes version =>
      refine Or.inl (h.changeDocument other changes version ?_)
      rintro rfl
      simpa [isTimely] using htimely
  | closing other =>
      refine Or.inl ?_
      intro b hopen
      rw [document?_closeDocument] at hopen
      split at hopen
      · cases hopen
      · exact h b hopen
  | @writing _ other rest ix htargets hother =>
      refine Or.inl ?_
      by_cases huri : uri = other
      · -- The entry that is written is that of a target, which is not open.
        have hmem : uri ∈ handler.targets := by
          rw [htargets, huri]
          exact List.mem_cons_self
        exact inStepAt_of_document? (hold hmem)
      · exact h.withIndex (hother uri huri)
  | clearing =>
      exact Or.inl (inStepAt_reindexOpen { s.workspace with index := s.workspace.index.clear } uri)
  | reapplying => exact Or.inl (inStepAt_reindexOpen _ uri)
  | storing texts => exact Or.inr rfl
  | filtering | waiting | finishing | configuring => exact Or.inl h

end Section

end Handler

/-! ## Whole runs -/

namespace Session

/-- Whether a move is timely for a URI. -/
def isTimely (uri : Uri) (s : Session) : Move → Bool
  | .receive _ => true
  | .advance i _ => (s.handlers[i]?).all (·.isTimely uri s)

/-- Whether all moves of a run are timely for a URI, each in the session that it finds. -/
def timely (uri : Uri) (s : Session) : List Move → Bool
  | [] => true
  | m :: moves => s.isTimely uri m && (s.step m).timely uri moves

/-- What holds for a URI while handlers are in flight: their targets are not open, and its buffer is in
the index, or some handler is still to put the buffers back there. -/
structure Sound (uri : Uri) (s : Session) : Prop where
  closed : ∀ h ∈ s.handlers, uri ∈ h.targets → s.workspace.document? uri = none
  inStep : s.workspace.InStepAt uri ∨ .reapplying ∈ s.handlers

theorem mem_or_eq_of_mem_replace {handlers : List Handler} {i : Nat} {next : Option Handler}
    {h : Handler} (hmem : h ∈ replace handlers i next) : next = some h ∨ h ∈ handlers := by
  cases next with
  | none => exact Or.inr (List.mem_of_mem_eraseIdx hmem)
  | some h' =>
      rcases List.mem_or_eq_of_mem_set hmem with hold | rfl
      · exact Or.inr hold
      · exact Or.inl rfl

/-- A move of one handler leaves the others in flight. -/
theorem mem_replace_of_ne {handlers : List Handler} {i : Nat} {moved h : Handler}
    (hmoved : handlers[i]? = some moved) (hmem : h ∈ handlers) (hne : h ≠ moved)
    (next : Option Handler) : h ∈ replace handlers i next := by
  rcases List.mem_iff_getElem?.1 hmem with ⟨j, hj⟩
  have hji : j ≠ i := by
    rintro rfl
    rw [hmoved] at hj
    exact hne (Option.some.inj hj).symm
  cases next with
  | none => exact List.mem_eraseIdx_iff_getElem?.2 ⟨j, hji, hj⟩
  | some h' =>
      refine List.mem_iff_getElem?.2 ⟨j, ?_⟩
      exact (List.getElem?_set_ne hji.symm).trans hj

theorem mem_replace_self {handlers : List Handler} {i : Nat} {moved h : Handler}
    (hmoved : handlers[i]? = some moved) : h ∈ replace handlers i (some h) := by
  rcases List.getElem?_eq_some_iff.1 hmoved with ⟨hi, -⟩
  exact List.mem_set hi h

/-- Handlers start without targets. -/
theorem not_mem_targets_ofNotification {n : Notification} {h : Handler} (uri : Uri)
    (hstart : h ∈ (Handler.ofNotification n).toList) : uri ∉ h.targets := by
  cases n with
  | didChangeSettings settings =>
      cases settings with
      | none => cases hstart
      | some settings =>
          rw [List.mem_singleton.1 hstart]
          exact List.not_mem_nil
  | initialized | didOpen | didChange | didClose | didChangeFiles =>
      rw [List.mem_singleton.1 hstart]
      exact List.not_mem_nil

theorem Sound.receive {uri : Uri} {s : Session} (hs : s.Sound uri) (n : Notification) :
    (s.step (.receive n)).Sound uri := by
  refine ⟨?_, ?_⟩
  · intro h hmem htarget
    rcases List.mem_append.1 hmem with hold | hnew
    · exact hs.closed h hold htarget
    · exact absurd htarget (not_mem_targets_ofNotification uri hnew)
  · rcases hs.inStep with hstep | hpending
    · exact Or.inl hstep
    · exact Or.inr (List.mem_append_left _ hpending)

/-- A timely section keeps the targets of all handlers closed. -/
theorem Sound.closed_advance {uri : Uri} {s : Session} (hs : s.Sound uri) (disk : Disk) {i : Nat}
    {moved : Handler} (hmoved : s.handlers[i]? = some moved)
    (htimely : moved.isTimely uri s = true) {h : Handler}
    (hmem : h ∈ replace s.handlers i (moved.advance disk s.workspace).2)
    (htarget : uri ∈ h.targets) :
    (moved.advance disk s.workspace).1.document? uri = none := by
  have hmovedMem : moved ∈ s.handlers := List.mem_of_getElem? hmoved
  rcases mem_or_eq_of_mem_replace hmem with hnext | hold
  · exact (Handler.section_advance disk s.workspace moved).document?_of_mem_targets
      (hs.closed moved hmovedMem) hnext htarget
  · refine (Handler.section_advance disk s.workspace moved).document?_eq_none
      (hs.closed h hold htarget) ?_
    -- Opening the URI now is not timely, since it is a target.
    rintro text version rfl
    have hall : ∀ h ∈ s.handlers, uri ∉ h.targets := by
      simpa [Handler.isTimely] using htimely
    exact hall h hold htarget

theorem Sound.advance {uri : Uri} {s : Session} (hs : s.Sound uri) (disk : Disk) {i : Nat}
    {moved : Handler} (hmoved : s.handlers[i]? = some moved)
    (htimely : moved.isTimely uri s = true) :
    Sound uri
      { workspace := (moved.advance disk s.workspace).1
        handlers := replace s.handlers i (moved.advance disk s.workspace).2 } := by
  have hsection := Handler.section_advance disk s.workspace moved
  refine ⟨?_, ?_⟩
  · intro h hmem htarget
    exact hs.closed_advance disk hmoved htimely hmem htarget
  · by_cases hlast : moved = .reapplying
    · -- Whatever was stored over the buffers, they are put back now.
      refine Or.inl ?_
      rw [hlast]
      exact inStepAt_reindexOpen s.workspace uri
    · rcases hs.inStep with hstep | hpending
      · have hold := hs.closed moved (List.mem_of_getElem? hmoved)
        rcases hsection.inStepAt hstep hold htimely with hkept | hnext
        · exact Or.inl hkept
        · refine Or.inr ?_
          simp only [hnext]
          exact mem_replace_self hmoved
      · exact Or.inr (mem_replace_of_ne hmoved hpending (Ne.symm hlast) _)

theorem Sound.step {uri : Uri} {s : Session} (hs : s.Sound uri) {m : Move}
    (htimely : s.isTimely uri m = true) : (s.step m).Sound uri := by
  cases m with
  | receive n => exact hs.receive n
  | advance i disk =>
      unfold Session.step
      cases hmoved : s.handlers[i]? with
      | none => simpa [hmoved] using hs
      | some moved =>
          have htimely' : moved.isTimely uri s = true := by
            simpa [isTimely, hmoved] using htimely
          simpa [hmoved] using hs.advance disk hmoved htimely'

theorem Sound.run {uri : Uri} {s : Session} (hs : s.Sound uri) {moves : List Move}
    (htimely : s.timely uri moves = true) : (s.run moves).Sound uri := by
  induction moves generalizing s with
  | nil => exact hs
  | cons m moves ih =>
      rw [timely, Bool.and_eq_true] at htimely
      exact ih (hs.step htimely.1) htimely.2

/-- However the sections of handlers are interleaved and whatever the disk holds at each of them, once
no handler is in flight the index has the outline of a URI's buffer, if the URI was not opened while
a handler had it for a target and no batch of its edits failed. -/
theorem buffers_win_when_opened_in_time (w : Workspace) (uri : Uri) (hstart : w.InStepAt uri)
    (moves : List Move) (htimely : timely uri { workspace := w } moves = true)
    (hdone : (run { workspace := w } moves).handlers = []) :
    ∀ b, (run { workspace := w } moves).workspace.document? uri = some b →
      (run { workspace := w } moves).workspace.script? uri =
        some (Script.ofText uri b.text) := by
  have hsound : Sound uri { workspace := w } := by
    refine ⟨?_, Or.inl hstart⟩
    intro h hmem
    cases hmem
  rcases (hsound.run htimely).inStep with hstep | hpending
  · exact hstep
  · rw [hdone] at hpending
    cases hpending

/-- A file of the workspace is read and stored while its document is opened and edited; the buffer is
put back over it. -/
theorem buffers_win_when_opened_during_scan :
    let uri : Uri := ⟨"file:///ws/main.ahk"⟩
    let disk : Disk :=
      Disk.write {} (["ws", "main.ahk"].map fun name => Text.encode name.toList)
        (.file (Text.encode "stale() \x7b\n\x7d\n".toList))
    let edit : Change := { range := some ⟨⟨0, 0⟩, ⟨0, 1⟩⟩, text := "g" }
    let w : Workspace := { folders := [⟨"file:///ws"⟩] }
    let moves : List Move :=
      [.receive .initialized, .advance 0 disk, .advance 0 disk, .advance 0 disk, .advance 0 disk,
       .receive (.didOpen uri "f() \x7b\n\x7d\n" (some 1)), .advance 1 disk, .advance 0 disk,
       .receive (.didChange uri [edit] (some 2)), .advance 0 disk, .advance 1 disk,
       .advance 0 disk]
    timely uri { workspace := w } moves = true ∧ (run { workspace := w } moves).handlers = [] ∧
      (run { workspace := w } moves).workspace.script? uri =
        some (Script.ofText uri "g() \x7b\n\x7d\n") := by
  intro uri disk edit w moves
  have htimely : timely uri { workspace := w } moves = true := by decide +kernel
  have hdone : (run { workspace := w } moves).handlers = [] :=
    List.length_eq_zero_iff.1 (by decide +kernel)
  have hbuffer : ((run { workspace := w } moves).workspace.document? uri).map Buffer.text =
      some "g() \x7b\n\x7d\n" := by decide +kernel
  have hstart : w.InStepAt uri := inStepAt_of_document? rfl
  have hstep : (run { workspace := w } moves).workspace.InStepAt uri :=
    buffers_win_when_opened_in_time w uri hstart moves htimely hdone
  exact ⟨htimely, hdone, hstep.script?_of_text hbuffer⟩

/-- A document that is closed and opened again while its file is looked up loses its entry: to the
text on disk if the file is there, and altogether if it is not. -/
theorem reopened_document_loses_to_disk :
    let uri : Uri := ⟨"file:///ws/main.ahk"⟩
    let saved : Disk :=
      Disk.write {} (["ws", "main.ahk"].map fun name => Text.encode name.toList)
        (.file (Text.encode "saved() \x7b\n\x7d\n".toList))
    let final (disk : Disk) : Session :=
      run { workspace := {} }
        [.receive (.didOpen uri "f() \x7b\n\x7d\n" (some 1)), .advance 0 disk,
         .receive (.didClose uri), .advance 0 disk,
         .receive (.didOpen uri "g() \x7b\n\x7d\n" (some 1)), .advance 1 disk,
         .advance 0 disk, .advance 0 disk, .advance 0 disk]
    (final saved).handlers = [] ∧ ¬ (final saved).workspace.InStepAt uri ∧
      (final saved).workspace.script? uri =
        some (Script.ofText uri "saved() \x7b\n\x7d\n") ∧
      (final {}).handlers = [] ∧ ¬ (final {}).workspace.InStepAt uri ∧
      (final {}).workspace.script? uri = none := by
  intro uri saved final
  have hscript : (final saved).workspace.script? uri =
      some (Script.ofText uri "saved() \x7b\n\x7d\n") := by decide +kernel
  have hnone : (final {}).workspace.script? uri = none := by decide +kernel
  have hbuffers : ∀ disk ∈ [saved, {}],
      ((final disk).workspace.document? uri).map Buffer.text = some "g() \x7b\n\x7d\n" := by
    decide +kernel
  refine ⟨List.length_eq_zero_iff.1 (by decide +kernel), ?_, hscript,
    List.length_eq_zero_iff.1 (by decide +kernel), ?_, hnone⟩
  · intro hstep
    have hentry := hstep.script?_of_text (hbuffers saved (by simp))
    rw [hscript] at hentry
    revert hentry
    decide +kernel
  · intro hstep
    have hentry := hstep.script?_of_text (hbuffers {} (by simp))
    rw [hnone] at hentry
    cases hentry

end Session
end ScriptSymbols
