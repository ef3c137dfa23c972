import ScriptSymbols.Proofs.Workspace.Sync

/-!
# Batches of edits that fail part way

A batch of edits is applied to its buffer edit by edit, but the index follows only once the whole
batch is applied. Where an edit fails, the edits before it stay in the buffer, and the index still
holds the outline of the text before the batch.

* `Workspace.InStep` says that every open buffer has its outline in the index.
* `Buffer.applyAll_eq_error_iff` says how far a batch gets.
* `Workspace.changed_documents_in_step_iff` says exactly when a batch leaves buffers and index in
  step, and `Workspace.failed_batch_leaves_index_behind` shows a batch that does not.
-/

namespace ScriptSymbols

/-! ## How far a batch gets -/

namespace Buffer

/-- A batch fails at the first edit that cannot be applied behind those before it, and these are
what is left in the buffer. -/
theorem applyAll_eq_error_iff {b b' : Buffer} {changes : List Change} {e : ChangeError} :
    b.applyAll changes = (b', .error e) ↔
      ∃ before change after, changes = before ++ change :: after ∧
        b.applyAll before = (b', .ok ()) ∧ b'.apply change = .error e := by
  induction changes generalizing b with
  | nil =>
      constructor
      · intro h
        cases h
      · rintro ⟨before, change, after, hsplit, -, -⟩
        simp at hsplit
  | cons first changes ih =>
      cases hfirst : b.apply first with
      | error cause =>
          constructor
          · intro h
            have hresult : b = b' ∧ cause = e := by
              simpa [applyAll, hfirst] using h
            rcases hresult with ⟨rfl, rfl⟩
            exact ⟨[], first, changes, rfl, rfl, hfirst⟩
          · rintro ⟨before, change, after, hsplit, happlied, hfails⟩
            cases before with
            | nil =>
                cases happlied
                cases hsplit
                rw [hfirst] at hfails
                cases hfails
                simp [applyAll, hfirst]
            | cons head before =>
                cases hsplit
                simp [applyAll, hfirst] at happlied
      | ok next =>
          have hstep : b.applyAll (first :: changes) = next.applyAll changes := by
            simp [applyAll, hfirst]
          constructor
          · intro h
            rcases ih.1 (hstep.symm.trans h) with
              ⟨before, change, after, hsplit, happlied, hfails⟩
            refine ⟨first :: before, change, after, by simp [hsplit], ?_, hfails⟩
            simpa [applyAll, hfirst] using happlied
          · rintro ⟨before, change, after, hsplit, happlied, hfails⟩
            cases before with
            | nil =>
                cases happlied
                cases hsplit
                rw [hfirst] at hfails
                cases hfails
            | cons head before =>
                cases hsplit
                have hrest : next.applyAll before = (b', .ok ()) := by
                  simpa [applyAll, hfirst] using happlied
                exact hstep.trans (ih.2 ⟨before, change, after, rfl, hrest, hfails⟩)

end Buffer

namespace Workspace

/-! ## Buffers and index in step -/

/-- Whether the index holds the outline of a URI's buffer, if the URI has one. -/
def InStepAt (w : Workspace) (uri : Uri) : Prop :=
  ∀ b, w.document? uri = some b → w.script? uri = some (Script.ofText uri b.text)

/-- Whether the index holds the outline of every open buffer. -/
def InStep (w : Workspace) : Prop :=
  ∀ uri, w.InStepAt uri

theorem InStepAt.script?_of_text {w : Workspace} {uri : Uri} {text : String} (h : w.InStepAt uri)
    (hbuffer : (w.document? uri).map Buffer.text = some text) :
    w.script? uri = some (Script.ofText uri text) := by
  rcases Option.map_eq_some_iff.1 hbuffer with ⟨b, hopen, rfl⟩
  exact h b hopen

theorem document?_putDocument (w : Workspace) (uri other : Uri) (b : Buffer) (ix : SymbolIndex) :
    document? { w.putDocument uri b with index := ix } other =
      if other = uri then some b else w.document? other :=
  Entries.lookup_put uri other b w.documents

/-- A buffer that is put in and indexed is in step, and the other URIs are as they were. -/
theorem inStepAt_putBuffer {w : Workspace} (uri : Uri) (b : Buffer) {other : Uri}
    (h : other ≠ uri → w.InStepAt other) :
    InStepAt { w.putDocument uri b with index := indexBuffer w.index (uri, b) } other := by
  intro b' hopen
  rw [document?_putDocument] at hopen
  simp only [script?, indexBuffer, SymbolIndex.get?_store]
  by_cases huri : other = uri
  · rw [if_pos huri] at hopen
    cases hopen
    simp [huri]
  · rw [if_neg huri] at hopen
    rw [if_neg huri]
    exact h huri b' hopen

/-- A buffer that is put in without being indexed is in step where its outline is the one that the
index has. -/
theorem inStepAt_putDocument_iff {w : Workspace} {uri : Uri} {b b' : Buffer}
    (hindexed : w.script? uri = some (Script.ofText uri b.text)) :
    (w.putDocument uri b').InStepAt uri ↔
      Script.ofText uri b'.text = Script.ofText uri b.text := by
  constructor
  · intro h
    have hopen : (w.putDocument uri b').document? uri = some b' :=
      (document?_putDocument w uri uri b' w.index).trans (if_pos rfl)
    have hscript : w.script? uri = some (Script.ofText uri b'.text) := h b' hopen
    exact Option.some.inj (hscript.symm.trans hindexed)
  · intro hsame b'' hopen
    have hown := (document?_putDocument w uri uri b' w.index).trans (if_pos rfl)
    cases hown.symm.trans hopen
    exact hindexed.trans (congrArg some hsame.symm)

theorem inStepAt_putDocument_of_ne {w : Workspace} {uri other : Uri} (b : Buffer)
    (hne : other ≠ uri) (h : w.InStepAt other) :
    (w.putDocument uri b).InStepAt other := by
  intro b' hopen
  have hsame := (document?_putDocument w uri other b w.index).trans (if_neg hne)
  exact h b' (hsame.symm.trans hopen)

/-! ## One batch -/

/-- What a batch of edits does to an open document: it is applied and indexed, or it fails and only
the buffer has changed. -/
theorem changeDocument_cases {w : Workspace} {uri : Uri} {b : Buffer}
    (hopen : w.document? uri = some b) (changes : List Change) (version : Option Int) :
    (∃ b', b.applyAll changes = (b', .ok ()) ∧
        w.changeDocument uri changes version =
          ({ w.putDocument uri { b' with version } with
              index := indexBuffer w.index (uri, { b' with version }) }, .ok ())) ∨
      ∃ b' e, b.applyAll changes = (b', .error e) ∧
        w.changeDocument uri changes version =
          (w.putDocument uri b', .error e) := by
  rcases hresult : b.applyAll changes with ⟨b', outcome⟩
  cases outcome with
  | ok done => exact Or.inl ⟨b', rfl, by simp [changeDocument, hopen, hresult]⟩
  | error e => exact Or.inr ⟨b', e, rfl, by simp [changeDocument, hopen, hresult]⟩

/-- A batch of edits touches its own document only. It leaves buffers and index in step exactly when
none of its edits fails, or when the edits before the one that fails do not show in the outline. -/
theorem changed_documents_in_step_iff {w : Workspace} (h : w.InStep) {uri : Uri} {b : Buffer}
    (hopen : w.document? uri = some b) (changes : List Change) (version : Option Int) :
    (∀ other, other ≠ uri → (w.changeDocument uri changes version).1.InStepAt other) ∧
      ((w.changeDocument uri changes version).1.InStep ↔
        ∀ before change after b', changes = before ++ change :: after →
          b.applyAll before = (b', .ok ()) → b'.apply change = .error .reversedRange →
            Script.ofText uri b'.text = Script.ofText uri b.text) := by
  rcases changeDocument_cases hopen changes version with
    ⟨b', hresult, heq⟩ | ⟨b', e, hresult, heq⟩
  · have hstep : (w.changeDocument uri changes version).1.InStep := by
      intro other
      rw [heq]
      exact inStepAt_putBuffer uri _ fun _ => h other
    refine ⟨fun other _ => hstep other, ?_⟩
    constructor
    · -- Nothing fails in a batch that is applied in full.
      intro _ before change after b'' hsplit happlied hfails
      have hfailed := Buffer.applyAll_eq_error_iff.2
        ⟨before, change, after, hsplit, happlied, hfails⟩
      rw [hresult] at hfailed
      cases hfailed
    · intro _
      exact hstep
  · cases e
    rcases Buffer.applyAll_eq_error_iff.1 hresult with
      ⟨before, change, after, hsplit, happlied, hfails⟩
    have hothers :
        ∀ other, other ≠ uri → (w.changeDocument uri changes version).1.InStepAt other := by
      intro other hne
      rw [heq]
      exact inStepAt_putDocument_of_ne b' hne (h other)
    have hown : (w.changeDocument uri changes version).1.InStepAt uri ↔
        Script.ofText uri b'.text = Script.ofText uri b.text := by
      rw [heq]
      exact inStepAt_putDocument_iff (h uri b hopen)
    refine ⟨hothers, ?_⟩
    constructor
    · -- A batch fails at one place only, so any other split of it ends in the same buffer.
      intro hstep before' change' after' b'' hsplit' happlied' hfails'
      have hfailed := Buffer.applyAll_eq_error_iff.2
        ⟨before', change', after', hsplit', happlied', hfails'⟩
      rw [hresult] at hfailed
      cases hfailed
      exact hown.1 (hstep uri)
    · intro hsame other
      by_cases hother : other = uri
      · rw [hother]
        exact hown.2 (hsame before change after b' hsplit happlied hfails)
      · exact hothers other hother

/-- The workspace with one open document. -/
def withDocument (uri : Uri) (text : String) : Workspace :=
  openDocument {} uri text (some 1)

theorem withDocument_inStep (uri : Uri) (text : String) : (withDocument uri text).InStep := by
  intro other
  refine inStepAt_putBuffer uri (Buffer.ofText text (some 1)) ?_
  intro _ b hopen
  cases hopen

/-- An edit of a comment does not show in the outline, so that buffer and index stay in step though
the edit behind it fails. -/
theorem changed_documents_in_step_behind_comment :
    let uri : Uri := ⟨"file:///ws/main.ahk"⟩
    let w := withDocument uri "f() \x7b\n\x7d\n; one\n"
    let changes : List Change :=
      [{ range := some ⟨⟨2, 2⟩, ⟨2, 5⟩⟩, text := "two" },
       { range := some ⟨⟨1, 0⟩, ⟨0, 0⟩⟩, text := "" }]
    w.InStep ∧ (w.changeDocument uri changes (some 2)).2.toOption = none ∧
      (w.changeDocument uri changes (some 2)).1.InStep := by
  intro uri w changes
  have hopen : w.document? uri = some (Buffer.ofText "f() \x7b\n\x7d\n; one\n" (some 1)) := rfl
  refine ⟨withDocument_inStep uri _, by decide, ?_⟩
  refine (changed_documents_in_step_iff (withDocument_inStep uri _) hopen changes (some 2)).2.2 ?_
  intro before change after b' hsplit happlied _
  rcases before with _ | ⟨first, _ | ⟨second, before⟩⟩
  · cases happlied
    rfl
  · simp only [changes, List.cons_append, List.nil_append, List.cons.injEq] at hsplit
    rcases hsplit with ⟨rfl, rfl, rfl⟩
    cases happlied
    decide +kernel
  · have hlength := congrArg List.length hsplit
    simp [changes] at hlength

/-- A failed batch can leave the index behind: the first edit renames the method in the buffer, the
second fails, and the index still has the old name. -/
theorem failed_batch_leaves_index_behind :
    let uri : Uri := ⟨"file:///ws/main.ahk"⟩
    let w := withDocument uri "f() \x7b\n\x7d\n"
    let changes : List Change :=
      [{ range := some ⟨⟨0, 0⟩, ⟨0, 1⟩⟩, text := "g" },
       { range := some ⟨⟨1, 0⟩, ⟨0, 0⟩⟩, text := "" }]
    w.InStep ∧ w.isOpen uri = true ∧ ¬ (w.changeDocument uri changes (some 2)).1.InStep := by
  intro uri w changes
  refine ⟨withDocument_inStep uri _, by decide, ?_⟩
  intro hstep
  have hbuffer : ((w.changeDocument uri changes (some 2)).1.document? uri).map Buffer.text =
      some "g() \x7b\n\x7d\n" := by decide
  have hscript := (hstep uri).script?_of_text hbuffer
  revert hscript
  decide +kernel

end Workspace
end ScriptSymbols
