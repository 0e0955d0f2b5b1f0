import Osmdbt.Diff.Course
import Osmdbt.Diff.SequenceNumbers

/-! What a complete publish section leaves behind in `log_dir`, and that it always
moves something. -/

namespace Osmdbt

open General

section Publication

variable {config : Config} {state : State} {logFiles : List Text} {w w' : World}

/-- More was renamed since. -/
def MoreRenames (w w' : World) : Prop := ∃ more, more ≠ [] ∧ w'.renames = w.renames ++ more

theorem MoreRenames.ne (renamed : MoreRenames w w') : w'.renames ≠ w.renames := by
  obtain ⟨more, some, split⟩ := renamed
  intro same
  rw [split] at same
  exact some (List.append_right_eq_self.mp same)

theorem MoreRenames.before {w₁ : World} (same : w₁.renames = w.renames) (renamed : MoreRenames w₁ w') :
    MoreRenames w w' := by
  unfold MoreRenames
  rw [← same]
  exact renamed

/-- An operation that renames nothing only removes what it unlinks. -/
theorem Step.renames_or_kept {op : Op} {reply : Reply op} (done : Step w op reply w') :
    (∃ oldName newName content, w' = w.rename oldName newName content) ∨
      w'.renames = w.renames ∧ ∀ path, op ≠ .unlink path → (w.get path).isSome → (w'.get path).isSome := by
  have same (equal : w' = w) : w'.renames = w.renames ∧
      ∀ path, op ≠ .unlink path → (w.get path).isSome → (w'.get path).isSome := by
    subst equal
    exact ⟨rfl, fun _ _ here => here⟩
  have written (path : Path) (content : Content) (equal : w' = w.put path content) : w'.renames = w.renames ∧
      ∀ other, op ≠ .unlink other → (w.get other).isSome → (w'.get other).isSome := by
    subst equal
    refine ⟨rfl, fun other _ here => ?_⟩
    by_cases this : other = path
    · rw [this, World.get_put_self]
      rfl
    · rwa [World.get_put_ne _ _ _ this]
  cases reply with
  | error code => exact .inr (same done.2.1)
  | ok value =>
    cases op with
    | rename oldName newName =>
      obtain ⟨content, _, rfl⟩ := done
      exact .inl ⟨oldName, newName, content, rfl⟩
    | unlink path =>
      obtain ⟨_, rfl⟩ := done
      refine .inr ⟨rfl, fun other notThis here => ?_⟩
      rwa [World.get_drop_ne _ _ (fun same => notThis (congrArg Op.unlink same.symm))]
    | openExcl path => exact .inr (written path _ done.2)
    | write path c =>
      obtain ⟨data, _, equal⟩ := done
      exact .inr (written path _ equal)
    | openWriter path => exact .inr (written path _ done)
    | closeWriter path sources objects => exact .inr (written path _ done)
    | peek limit =>
      obtain ⟨sent, _, _, rfl⟩ := done
      exact .inr ⟨rfl, fun _ _ here => here⟩
    | advance lsn =>
      obtain ⟨number, _, rfl⟩ := done
      exact .inr ⟨rfl, fun _ _ here => here⟩
    | «exists» path => exact .inr (same done.2)
    | list dir => exact .inr (same done.2.2)
    | readFile path => exact .inr (same done.2)
    | query statement => exact .inr (same done.2)
    | _ => exact .inr (same done)

theorem MoreRenames.same {w₁ : World} (renamed : MoreRenames w w₁) (same : w'.renames = w₁.renames) :
    MoreRenames w w' := by
  obtain ⟨more, some, split⟩ := renamed
  exact ⟨more, some, same.trans split⟩

theorem MoreRenames.rename {w₁ : World} (renamed : MoreRenames w w₁) (oldName newName : Path) (content : Content) :
    MoreRenames w (w₁.rename oldName newName content) := by
  obtain ⟨more, some, split⟩ := renamed
  refine ⟨more ++ [⟨oldName, newName, content, w₁.returned⟩], by simp, ?_⟩
  rw [← List.append_assoc, ← split]
  rfl

/-- No operation forgets a rename. -/
theorem MoreRenames.step {w₁ : World} {op : Op} {reply : Reply op} (renamed : MoreRenames w w₁)
    (done : Step w₁ op reply w') :
    MoreRenames w w' := by
  rcases done.renames_or_kept with ⟨oldName, newName, content, rfl⟩ | ⟨same, _⟩
  · exact renamed.rename oldName newName content
  · exact renamed.same same

private theorem ends_moreRenames {α : Type} {program : Prog α} {result : Except Fault α} {w₁ : World}
    (ends : Ends program w₁ result w') (renamed : MoreRenames w w₁) : MoreRenames w w' := by
  exact ends.kept program.uses_anything (fun _ _ _ _ renamed _ done => renamed.step done) renamed

/-- Renaming the log files one after the other. -/
private theorem renameLogs_ok {names : List Text} (distinct : names.Nodup) (logs : ∀ name ∈ names, isLog name = true)
    (ends : Ends (names.forM (fun name => renameFile config ⟨.log, name⟩ ⟨.log, name ++ ".done".toList⟩))
      w (.ok ()) w') :
    (∀ name ∈ names, w'.get ⟨.log, name⟩ = none ∧ w'.get (doneFile name) = w.get ⟨.log, name⟩) ∧
      ∀ path, (∀ name ∈ names, path ≠ ⟨.log, name⟩ ∧ path ≠ doneFile name) → w'.get path = w.get path := by
  induction names generalizing w with
  | nil =>
    obtain ⟨_, rfl⟩ := ends
    exact ⟨(fun _ none => nomatch none), fun _ _ => rfl⟩
  | cons first rest ih =>
    obtain ⟨_, w₁, moved, later⟩ := Program.ends_bind_ok.mp ends
    obtain ⟨content, here, rfl⟩ := perform_ok.mp moved
    obtain ⟨fresh, distinct⟩ := List.nodup_cons.mp distinct
    obtain ⟨each, others⟩ := ih distinct (fun name member => logs name (List.mem_cons_of_mem _ member)) later
    have notDone (name : Text) (member : name ∈ first :: rest) (other : Text) :
        (⟨.log, name⟩ : Path) ≠ doneFile other :=
      doneFile_ne (logs name member) other
    have outside (path : Path) (firstName : path = ⟨.log, first⟩ ∨ path = doneFile first) :
        ∀ name ∈ rest, path ≠ ⟨.log, name⟩ ∧ path ≠ doneFile name := by
      intro name member
      have different : first ≠ name := fun same => fresh (same ▸ member)
      rcases firstName with rfl | rfl
      · exact ⟨fun same => different (congrArg Path.name same), notDone first List.mem_cons_self name⟩
      · refine ⟨(notDone name (List.mem_cons_of_mem _ member) first).symm, fun same => different ?_⟩
        exact List.append_cancel_right (congrArg Path.name same)
    have kept (path : Path) (notFirst : path ≠ ⟨.log, first⟩ ∧ path ≠ doneFile first) :
        (w.rename ⟨.log, first⟩ (doneFile first) content).get path = w.get path :=
      World.get_rename_ne _ _ _ notFirst.1 notFirst.2
    refine ⟨fun name member => ?_, fun path notHere => ?_⟩
    · rcases List.mem_cons.mp member with rfl | inside
      · refine ⟨?_, ?_⟩
        · rw [others _ (outside _ (.inl rfl))]
          exact World.get_rename_old _ _ _ (notDone name member name)
        · rw [others _ (outside _ (.inr rfl)), here]
          exact World.get_rename_new _ _ _ _
      · obtain ⟨gone, done⟩ := each name inside
        refine ⟨gone, done.trans (kept _ ⟨?_, notDone name member first⟩)⟩
        intro same
        obtain rfl : name = first := congrArg Path.name same
        exact fresh inside
    · rw [others path (fun name member => notHere name (List.mem_cons_of_mem _ member))]
      exact kept path (notHere first List.mem_cons_self)

/-- The moves happen while the lock file is there, which is all that happens besides. -/
theorem publish_ok (ends : Ends (publish config state logFiles) w (.ok ()) w') :
    ∃ w₁ w₂, Untouched (· = lockFile) w w₁ ∧ Ends (moveIntoPlace config state logFiles) w₁ (.ok ()) w₂ ∧
      Untouched (· = lockFile) w₂ w' := by
  obtain ⟨_, w₁, locked, later₁⟩ := Program.ends_bind_ok.mp ends
  obtain ⟨_, w₂, synced, later₂⟩ := Program.ends_bind_ok.mp later₁
  obtain ⟨_, w₃, moving, later₃⟩ := Program.ends_bind_ok.mp later₂
  refine ⟨w₂, w₃, ?_, moving, ?_⟩
  · exact (ends_untouched (writeLockFile_own state logFiles) locked).trans (syncDir_ends synced).touching
  · exact ends_untouched ((ownUnlink_uses lockFile).bind (fun _ _ => syncDir_uses config _)) later₃

/-- The three files are renamed, then the log files. -/
theorem moveIntoPlace_ok (ends : Ends (moveIntoPlace config state logFiles) w (.ok ()) w') :
    ∃ change own copy w₁ w₂ w₃, w.get newChangeFile = some change ∧
      Same ((w.rename newChangeFile state.changeFile change).rename newStateFile state.ownFile own) w₁ ∧
      Same (w₁.rename newStateCopy stateFile copy) w₂ ∧
      Ends (logFiles.forM (fun logFile => renameFile config ⟨.log, logFile⟩ ⟨.log, logFile ++ ".done".toList⟩))
        w₂ (.ok ()) w₃ ∧
      Same w₃ w' := by
  unfold moveIntoPlace at ends
  obtain ⟨_, v₁, asserted, later₁⟩ := Program.ends_bind_ok.mp ends
  obtain ⟨_, _, rfl⟩ := Program.ends_assert.mp asserted
  obtain ⟨_, v₂, made, later₂⟩ := Program.ends_bind_ok.mp later₁
  obtain rfl : v₂ = v₁ := perform_ok.mp made
  obtain ⟨_, v₃, movedChange, later₃⟩ := Program.ends_bind_ok.mp later₂
  obtain ⟨change, here, rfl⟩ := perform_ok.mp movedChange
  obtain ⟨_, v₄, movedState, later₄⟩ := Program.ends_bind_ok.mp later₃
  obtain ⟨own, _, rfl⟩ := perform_ok.mp movedState
  obtain ⟨_, v₅, synced₂, later₅⟩ := Program.ends_bind_ok.mp later₄
  obtain ⟨_, v₆, synced₁, later₆⟩ := Program.ends_bind_ok.mp later₅
  obtain ⟨_, v₇, movedCopy, later₇⟩ := Program.ends_bind_ok.mp later₆
  obtain ⟨copy, _, rfl⟩ := perform_ok.mp movedCopy
  obtain ⟨_, v₈, synced₀, later₈⟩ := Program.ends_bind_ok.mp later₇
  obtain ⟨_, v₉, renamed, synced⟩ := Program.ends_bind_ok.mp later₈
  exact ⟨change, own, copy, v₆, v₈, v₉, here, (syncDir_ends synced₂).trans (syncDir_ends synced₁),
    syncDir_ends synced₀,
    renamed, syncDir_ends synced⟩

private theorem moveIntoPlace_moreRenames (ends : Ends (moveIntoPlace config state logFiles) w (.ok ()) w') :
    MoreRenames w w' := by
  obtain ⟨change, own, copy, w₁, w₂, w₃, _, first, second, renamed, last⟩ := moveIntoPlace_ok ends
  have start : MoreRenames w (w.rename newChangeFile state.changeFile change) := ⟨[_], by simp, rfl⟩
  have moved : MoreRenames w w₂ := (((start.rename newStateFile state.ownFile own).same first.renames).rename
    newStateCopy stateFile copy).same second.renames
  exact (ends_moreRenames renamed moved).same last.renames

theorem publish_moreRenames (ends : Ends (publish config state logFiles) w (.ok ()) w') : MoreRenames w w' := by
  obtain ⟨w₁, w₂, before, moving, after⟩ := publish_ok ends
  exact ((moveIntoPlace_moreRenames moving).before before.renames).same after.renames

/-- Without a rename only the lock file was touched. -/
theorem publish_silent {result : Except Fault Unit} (ends : Ends (publish config state logFiles) w result w')
    (silent : w'.renames = w.renames) : Untouched (· = lockFile) w w' := by
  have either : MoreRenames w w' ∨ Untouched (· = lockFile) w w' := by
    refine Program.Ends.kept (P := fun s => MoreRenames w s ∨ Untouched (· = lockFile) w s)
      (publish_uses state logFiles) ends ?_
      (.inr (Untouched.refl w))
    rintro s op reply s' (more | same) used done
    · exact .inl (more.step done)
    have inside (here : op.Local (· = lockFile)) : MoreRenames w s' ∨ Untouched (· = lockFile) w s' :=
      .inr (same.trans (Step.untouched done here))
    have moved (oldName newName : Path) (this : op = .rename oldName newName) :
        MoreRenames w s' ∨ Untouched (· = lockFile) w s' := by
      subst this
      cases reply with
      | error code => exact .inr (done.2.1 ▸ same)
      | ok _ =>
        obtain ⟨content, _, rfl⟩ := done
        exact .inl ⟨[_], by simp, congrArg (· ++ [_]) same.renames⟩
    cases used with
    | look looks => exact inside (looks.local _)
    | lock writes => exact inside (@Op.Writes.local (· = lockFile) _ rfl _ writes)
    | unlock => exact inside (show (Op.unlink lockFile).Local (· = lockFile) from rfl)
    | change => exact moved _ _ rfl
    | own => exact moved _ _ rfl
    | copy => exact moved _ _ rfl
    | log member => exact moved _ _ rfl
  exact either.resolve_left (fun more => more.ne silent)

/-- The log files got their suffix and are the only files in `log_dir` that changed. -/
theorem publish_logs (distinct : logFiles.Nodup) (logs : ∀ name ∈ logFiles, isLog name = true)
    (ends : Ends (publish config state logFiles) w (.ok ()) w') :
    (∀ name ∈ logFiles, w'.get ⟨.log, name⟩ = none ∧ w'.get (doneFile name) = w.get ⟨.log, name⟩) ∧
      ∀ path, path.dir = .log → (∀ name ∈ logFiles, path ≠ ⟨.log, name⟩ ∧ path ≠ doneFile name) →
        w'.get path = w.get path := by
  obtain ⟨w₁, w₉, before, moving, after⟩ := publish_ok ends
  have elsewhere {path other : Path} (log : path.dir = .log) (dir : other.dir ≠ .log) : path ≠ other := by
    rintro rfl
    exact dir log
  obtain ⟨change, own, copy, w₂, w₃, w₄, _, moved, copied, renamed, synced⟩ := moveIntoPlace_ok moving
  obtain ⟨each, others⟩ := renameLogs_ok distinct logs renamed
  have first (path : Path) (log : path.dir = .log) : w₃.get path = w.get path := by
    rw [copied.get _ not_false,
      World.get_rename_ne _ _ _ (elsewhere log (by decide)) (elsewhere log (by decide)), moved.get _ not_false,
      World.get_rename_ne _ _ _ (elsewhere log (by decide)) (elsewhere log (by rintro ⟨⟩)),
      World.get_rename_ne _ _ _ (elsewhere log (by decide)) (elsewhere log (by rintro ⟨⟩)),
      before.get _ (elsewhere log (by decide))]
  have last (path : Path) (log : path.dir = .log) : w'.get path = w₄.get path := by
    rw [after.get _ (elsewhere log (by decide)), synced.get _ not_false]
  refine ⟨fun name member => ?_, fun path log outside => ?_⟩
  · obtain ⟨gone, done⟩ := each name member
    exact ⟨(last _ rfl).trans gone, (last _ rfl).trans (done.trans (first _ rfl))⟩
  · exact (last path log).trans ((others path outside).trans (first path log))

/-- Renaming the log files leaves the other directories alone. -/
private theorem renameLogs_elsewhere {names : List Text}
    (ends : Ends (names.forM (fun name => renameFile config ⟨.log, name⟩ ⟨.log, name ++ ".done".toList⟩))
      w (.ok ()) w')
    (path : Path) (outside : path.dir ≠ .log) : w'.get path = w.get path := by
  have other {name : Text} : path ≠ ⟨.log, name⟩ := fun same => outside (congrArg Path.dir same)
  induction names generalizing w with
  | nil =>
    obtain ⟨_, rfl⟩ := ends
    rfl
  | cons first rest ih =>
    obtain ⟨_, w₁, moved, later⟩ := Program.ends_bind_ok.mp ends
    obtain ⟨content, _, rfl⟩ := perform_ok.mp moved
    exact (ih later).trans (World.get_rename_ne _ _ _ other other)

/-- The change file is under its final name. -/
theorem publish_change {content : Content} (stored : w.get newChangeFile = some content)
    (ends : Ends (publish config state logFiles) w (.ok ()) w') : w'.get state.changeFile = some content := by
  obtain ⟨w₁, w₂, before, moving, after⟩ := publish_ok ends
  obtain ⟨change, own, copy, w₃, w₄, w₅, here, moved, copied, renamed, synced⟩ := moveIntoPlace_ok moving
  obtain rfl : content = change := by
    rw [before.get newChangeFile (by decide), stored] at here
    exact Option.some.inj here
  have notState : state.changeFile ≠ stateFile := FileOf.ne_stateFile (.inl rfl)
  have notOwn : state.changeFile ≠ state.ownFile := changeFileOf_ne_ownFileOf _ _
  rw [after.get _ (by rintro ⟨⟩), synced.get _ not_false, renameLogs_elsewhere renamed _ (by rintro ⟨⟩),
    copied.get _ not_false,
    World.get_rename_ne _ _ _ (by rintro ⟨⟩) notState, moved.get _ not_false,
    World.get_rename_ne _ _ _ (by rintro ⟨⟩) notOwn, World.get_rename_new]

end Publication

end Osmdbt
