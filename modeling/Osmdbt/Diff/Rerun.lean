import Osmdbt.Diff.Publication
import Osmdbt.Diff.StateFile

/-! What a run of create-diff that did not get as far as the lock file means for the
next one: it is in the way exactly when it left a state file or its pid file. -/

namespace Osmdbt

open General

/-- Two states that differ in some files only, of which the first state may have fewer. -/
structure Alike (apart : Path → Prop) (s t : World) : Prop where
  wal : t.wal = s.wal
  slot : t.slot = s.slot
  tables : t.tables = s.tables
  returned : t.returned = s.returned
  renames : t.renames = s.renames
  get : ∀ path, ¬ apart path → t.get path = s.get path
  stored : ∀ path content, s.get path = some content → t.get path = some content

/-- Operations that do not find out whether these files are there. -/
def Op.Blind (apart : Path → Prop) : Op → Prop
  | .openExcl path => ¬ apart path
  | .unlink path => ¬ apart path
  | .exists path => ¬ apart path
  | .list dir => ∀ path, apart path → path.dir ≠ dir
  | _ => True

namespace Alike

variable {apart : Path → Prop} {s t s' : World}

theorem put (alike : Alike apart s t) (path : Path) (content : Content) :
    Alike apart (s.put path content) (t.put path content) := by
  refine ⟨alike.wal, alike.slot, alike.tables, alike.returned, alike.renames, fun other outside => ?_,
    fun other data here => ?_⟩
  · by_cases same : other = path
    · rw [same, World.get_put_self, World.get_put_self]
    · rw [World.get_put_ne _ _ _ same, World.get_put_ne _ _ _ same, alike.get other outside]
  · by_cases same : other = path
    · rw [same, World.get_put_self] at here ⊢
      exact here
    · rw [World.get_put_ne _ _ _ same] at here ⊢
      exact alike.stored other data here

theorem drop (alike : Alike apart s t) (path : Path) : Alike apart (s.drop path) (t.drop path) := by
  refine ⟨alike.wal, alike.slot, alike.tables, alike.returned, alike.renames, fun other outside => ?_,
    fun other data here => ?_⟩
  · by_cases same : other = path
    · rw [same, World.get_drop_self, World.get_drop_self]
    · rw [World.get_drop_ne _ _ same, World.get_drop_ne _ _ same, alike.get other outside]
  · by_cases same : other = path
    · rw [same, World.get_drop_self] at here
      cases here
    · rw [World.get_drop_ne _ _ same] at here ⊢
      exact alike.stored other data here

theorem rename (alike : Alike apart s t) (oldName newName : Path) (content : Content) :
    Alike apart (s.rename oldName newName content) (t.rename oldName newName content) := by
  obtain ⟨wal, slot, tables, returned, _, get, stored⟩ := (alike.drop oldName).put newName content
  refine ⟨wal, slot, tables, returned, ?_, get, stored⟩
  change t.renames ++ [⟨oldName, newName, content, t.returned⟩] =
    s.renames ++ [⟨oldName, newName, content, s.returned⟩]
  rw [alike.renames, alike.returned]

/-- A failing operation fails in the same way. -/
theorem error (alike : Alike apart s t) {op : Op} {code : Errno} (done : Step s op (.error code) s') :
    s' = s ∧ Step t op (.error code) t := by
  obtain ⟨fallible, same, there⟩ := done
  refine ⟨same, fallible, rfl, fun path opens exist => ?_⟩
  obtain ⟨content, here⟩ := Option.isSome_iff_exists.mp (there path opens exist)
  rw [alike.stored path content here]
  rfl

/-- Every operation that does not find out about the difference has the same effect. -/
theorem step (alike : Alike apart s t) {op : Op} {reply : Reply op} (blind : op.Blind apart)
    (done : Step s op reply s') :
    ∃ t', Step t op reply t' ∧ Alike apart s' t' := by
  cases reply with
  | error code =>
    obtain ⟨rfl, again⟩ := alike.error done
    exact ⟨t, again, alike⟩
  | ok value =>
    cases op with
    | openExcl path =>
      obtain ⟨free, rfl⟩ := done
      exact ⟨_, ⟨(alike.get path blind).trans free, rfl⟩, alike.put path _⟩
    | write path c =>
      obtain ⟨data, here, rfl⟩ := done
      exact ⟨_, ⟨data, alike.stored path _ here, rfl⟩, alike.put path _⟩
    | rename oldName newName =>
      obtain ⟨content, here, rfl⟩ := done
      exact ⟨_, ⟨content, alike.stored oldName _ here, rfl⟩, alike.rename oldName newName content⟩
    | unlink path =>
      obtain ⟨here, rfl⟩ := done
      exact ⟨_, ⟨alike.get path blind ▸ here, rfl⟩, alike.drop path⟩
    | «exists» path =>
      obtain ⟨answer, rfl⟩ := done
      exact ⟨t, ⟨alike.get path blind ▸ answer, rfl⟩, alike⟩
    | list dir =>
      obtain ⟨distinct, names, rfl⟩ := done
      refine ⟨t, ⟨distinct, fun name => ?_, rfl⟩, alike⟩
      rw [names name, alike.get ⟨dir, name⟩ (fun inside => blind _ inside rfl)]
    | readFile path =>
      obtain ⟨here, rfl⟩ := done
      exact ⟨t, ⟨alike.stored path _ here, rfl⟩, alike⟩
    | openWriter path =>
      obtain rfl : s' = _ := done
      exact ⟨_, rfl, alike.put path _⟩
    | closeWriter path sources objects =>
      obtain rfl : s' = _ := done
      exact ⟨_, rfl, alike.put path _⟩
    | query statement =>
      obtain ⟨answers, rfl⟩ := done
      exact ⟨t, ⟨alike.tables ▸ answers, rfl⟩, alike⟩
    | peek limit =>
      obtain ⟨sent, taken, rows, rfl⟩ := done
      have pending : t.pending = s.pending := by
        unfold World.pending
        rw [alike.wal, alike.slot]
      exact ⟨_, ⟨sent, pending ▸ taken, rows, rfl⟩, alike.wal, alike.slot, alike.tables, rfl, alike.renames,
        alike.get, alike.stored⟩
    | advance lsn =>
      obtain ⟨number, parsed, rfl⟩ := done
      exact ⟨_, ⟨number, parsed, rfl⟩, alike.wal, congrArg (max · number) alike.slot, alike.tables, alike.returned,
        alike.renames, alike.get, alike.stored⟩
    | _ =>
      obtain rfl : s' = s := done
      exact ⟨t, rfl, alike⟩

end Alike

section Next

variable {config : Config} {options : CreateDiffOptions} {w w₁ w' : World}

theorem Op.Blind.fewer {apart fewer : Path → Prop} (less : ∀ path, fewer path → apart path) {op : Op}
    (blind : op.Blind apart) : op.Blind fewer := by
  cases op with
  | openExcl path => exact fun inside => blind (less path inside)
  | unlink path => exact fun inside => blind (less path inside)
  | «exists» path => exact fun inside => blind (less path inside)
  | list dir => exact fun path inside => blind path (less path inside)
  | _ => trivial

theorem Op.Looks.blind {op : Op} (looks : op.Looks) : op.Blind Made := by
  have tmp {path : Path} (made : Made path) : path.dir = .tmp := by
    rcases made with rfl | rfl | rfl <;> rfl
  cases op with
  | «exists» path => exact fun made => nomatch (tmp made).symm.trans looks
  | list dir =>
    obtain rfl : dir = .log := looks
    exact fun path made log => nomatch (tmp made).symm.trans log
  | openExcl => exact looks.elim
  | unlink => exact looks.elim
  | _ => trivial

theorem Op.Writes.blind {path : Path} (other : ¬ Made path) {op : Op} (writes : op.Writes path) : op.Blind Made := by
  cases writes with
  | openExcl => exact other
  | write c => trivial

/-- Only the state files are made exclusively. -/
theorem DiffRequest.blind {op : Op} (request : DiffRequest options op) :
    op.Blind Made ∨ ∃ path, op = .openExcl path ∧ (path = newStateFile ∨ path = newStateCopy) := by
  cases request with
  | look looks => exact .inl looks.blind
  | pid writes => exact .inl (writes.blind (by rintro (⟨⟨⟩⟩ | ⟨⟨⟩⟩ | ⟨⟨⟩⟩)))
  | removePid => exact .inl (by rintro (⟨⟨⟩⟩ | ⟨⟨⟩⟩ | ⟨⟨⟩⟩))
  | make makes =>
    cases makes with
    | «open» => exact .inl trivial
    | close sources objects => exact .inl trivial
    | state writes =>
      cases writes with
      | openExcl => exact .inr ⟨_, rfl, .inl rfl⟩
      | write c => exact .inl trivial
    | copy writes =>
      cases writes with
      | openExcl => exact .inr ⟨_, rfl, .inr rfl⟩
      | write c => exact .inl trivial
  | publish used logs =>
    cases used with
    | look looks => exact .inl looks.blind
    | lock writes => exact .inl (writes.blind (by unfold Made; decide))
    | unlock => exact .inl (show ¬ Made lockFile by unfold Made; decide)
    | _ => exact .inl trivial

/-- A left-over change file changes nothing. -/
private theorem rerun_from (alike : Alike (· = newChangeFile) w w₁) {result : Except Fault Unit}
    (alone : Ends (createDiff config options) w result w') :
    ∃ w₂, Ends (createDiff config options) w₁ result w₂ ∧ Alike (· = newChangeFile) w' w₂ := by
  refine Program.Ends.simulate (createDiff_requests config options)
    alone (fun s op reply s' t alike request done => ?_) alike
  refine alike.step ?_ done
  rcases request.blind with blind | ⟨path, rfl, rfl | rfl⟩
  · exact blind.fewer (fun _ same => .inl same)
  · exact (by decide : newStateFile ≠ newChangeFile)
  · exact (by decide : newStateCopy ≠ newChangeFile)

/-- A run that made a state file: it is there until it is moved. -/
def MadeState (w s : World) : Prop :=
  w.renames.length < s.renames.length ∨
    w.renames.length ≤ s.renames.length ∧ ((s.get newStateFile).isSome ∨ (s.get newStateCopy).isSome)

theorem MadeState.stays {s s' : World} {op : Op} {reply : Reply op} (made : MadeState w s)
    (request : DiffRequest options op)
    (done : Step s op reply s') : MadeState w s' := by
  rcases done.renames_or_kept with ⟨oldName, newName, content, rfl⟩ | ⟨same, kept⟩
  · have longer : (s.rename oldName newName content).renames.length = s.renames.length + 1 := by simp [World.rename]
    refine .inl ?_
    rcases made with more | ⟨least, _⟩ <;> omega
  · have notRemoved (path : Path) (own : path = newStateFile ∨ path = newStateCopy) : op ≠ .unlink path := by
      rintro rfl
      have outside : ¬ Made path := by
        rcases request.blind with blind | ⟨_, ⟨⟩, _⟩
        exact blind
      rcases own with rfl | rfl
      · exact outside (.inr (.inl rfl))
      · exact outside (.inr (.inr rfl))
    unfold MadeState
    rw [same]
    refine made.imp id (And.imp_right (Or.imp ?_ ?_))
    · exact kept _ (notRemoved _ (.inl rfl))
    · exact kept _ (notRemoved _ (.inr rfl))

/-- Any left-over files change nothing for a run that makes no state file. -/
private theorem rerun_idle (alike : Alike Made w w₁) {result : Except Fault Unit}
    (alone : Ends (createDiff config options) w result w')
    (idle : ¬ MadeState w w') : ∃ w₂, Ends (createDiff config options) w₁ result w₂ ∧ Alike Made w' w₂ := by
  have repeated : MadeState w w' ∨
      ∃ w₂, Ends (createDiff config options) w₁ result w₂ ∧
        (Alike Made w' w₂ ∧ w.renames.length ≤ w'.renames.length) := by
    refine Program.Ends.simulate_unless (R := fun s t => Alike Made s t ∧ w.renames.length ≤ s.renames.length)
      (createDiff_requests config options) alone ?_ (fun s op reply s' made request done => made.stays request done)
      ⟨alike, le_refl _⟩
    rintro s op reply s' t ⟨alike, least⟩ request done
    have grown : w.renames.length ≤ s'.renames.length := by
      rcases done.renames_or_kept with ⟨oldName, newName, content, rfl⟩ | ⟨same, _⟩
      · simp only [World.rename, List.length_append]
        omega
      · rwa [same]
    rcases request.blind with blind | ⟨path, rfl, own⟩
    · obtain ⟨t', again, alike'⟩ := alike.step blind done
      exact .inr ⟨t', again, alike', grown⟩
    cases reply with
    | error code =>
      obtain ⟨rfl, again⟩ := alike.error done
      exact .inr ⟨t, again, alike, least⟩
    | ok _ =>
      obtain ⟨_, rfl⟩ := done
      refine .inl (.inr ⟨grown, ?_⟩)
      rcases own with rfl | rfl
      · exact .inl (by rw [World.get_put_self]; rfl)
      · exact .inr (by rw [World.get_put_self]; rfl)
  obtain ⟨w₂, again, alike', _⟩ := repeated.resolve_left idle
  exact ⟨w₂, again, alike'⟩

/-- Nothing of create-diff is left over in `tmp_dir`. -/
structure Clean (w : World) : Prop where
  made : ∀ path, Made path → w.get path = none
  lock : w.get lockFile = none

/-- The same moves, and the same files outside of `tmp_dir`. -/
structure SameDiff (w w' : World) : Prop where
  renames : w'.renames = w.renames
  get : ∀ path, path.dir ≠ .tmp → w'.get path = w.get path

/-- A run that ended before it made the lock file only touched files of its own. -/
private theorem unlocked_untouched {result : Except Fault Unit} (clean : Clean w)
    (ended : Ends (createDiff config options) w result w₁)
    (unlocked : w₁.get lockFile = none) (silent : w₁.renames = w.renames) : Untouched (Own config) w w₁ := by
  rcases createDiff_parts (partwise_ends result) ended with ⟨same, _⟩ | ⟨_, _, _, _, _, w₂, w₃, locking,
    published, after⟩
  · exact same
  have before := locking.untouched
  have same := publish_silent published (by rw [← after.renames, silent, before.renames])
  have last : Untouched (Own config) w₃ w₁ := after.mono (fun _ pid => .inr pid)
  refine ⟨?_, ?_, ?_, ?_, ?_, fun path outside => ?_⟩
  · exact last.wal.trans (same.wal.trans before.wal)
  · exact last.slot.trans (same.slot.trans before.slot)
  · exact last.tables.trans (same.tables.trans before.tables)
  · exact last.returned.trans (same.returned.trans before.returned)
  · exact last.renames.trans (same.renames.trans before.renames)
  · by_cases lock : path = lockFile
    · rw [lock, unlocked, clean.lock]
    · rw [last.get path outside, same.get path lock, before.get path outside]

/-- Why a run can succeed at all: there is no pid file. -/
theorem createDiff_free (ends : Ends (createDiff config options) w (.ok ()) w') :
    config.runDir ≠ [] → w.get (pidPath "osmdbt-create-diff".toList) = none := by
  unfold createDiff at ends
  rcases (partwise_ends (.ok ())).pidFile ends with ⟨_, _, free, _⟩ | ⟨⟨_, wrong⟩, _⟩
  · exact free
  · cases wrong

/-- Why a run can publish: there are no state files. -/
theorem createDiff_fresh (ends : Ends (createDiff config options) w (.ok ()) w') (published : w'.renames ≠ w.renames) :
    w.get newStateFile = none ∧ w.get newStateCopy = none := by
  rcases createDiff_parts (partwise_ends (.ok ())) ends with ⟨same, _⟩ | ⟨_, _, _, _, w₁, _, _, locking, _, _⟩
  · exact absurd same.renames published
  · have fresh := (writeFiles_ok locking.written).fresh
    rwa [locking.start.get newStateFile (fun pid => nomatch pidFileOf_run _ pid),
      locking.start.get newStateCopy (fun pid => nomatch pidFileOf_run _ pid)] at fresh

/-- A real run that succeeds had nothing to do, or published. -/
theorem createDiff_succeeded (real : options.dryRun = false) (ends : Ends (createDiff config options) w (.ok ()) w') :
    Idle options w ∧ Untouched (PidFileOf config "osmdbt-create-diff".toList) w w' ∨ ¬ Idle options w ∧
      MoreRenames w w' := by
  rcases createDiff_parts (partwise_ends (.ok ())) ends with ⟨_, ⟨_, wrong⟩ | dryRun | idle⟩ | ⟨_, _,
    _, _, _, _, _, locking, published, after⟩
  · cases wrong
  · rw [real] at dryRun
    cases dryRun
  · exact .inl idle
  · obtain ⟨more, some, split⟩ := (publish_moreRenames published).before locking.untouched.renames
    exact .inr ⟨fun idle => locking.some (idle.not_taking locking.taking locking.read), more, some,
      after.renames.trans split⟩

/-- Nothing stands in the way of a run with these options. -/
def Unhindered (config : Config) (options : CreateDiffOptions) (w : World) : Prop :=
  (config.runDir ≠ [] → w.get (pidPath "osmdbt-create-diff".toList) = none) ∧
    (Idle options w ∨ w.get newStateFile = none ∧ w.get newStateCopy = none)

/-- What an earlier run left over keeps the states alike. -/
theorem Clean.alike {apart : Path → Prop} (clean : Clean w) (left : Untouched (Own config) w w₁)
    (pid : config.runDir ≠ [] → w₁.get (pidPath "osmdbt-create-diff".toList) =
      w.get (pidPath "osmdbt-create-diff".toList))
    (inside : ∀ path, apart path → Made path) (gone : ∀ path, Made path → ¬ apart path → w₁.get path = none) :
    Alike apart w w₁ := by
  have get (path : Path) (outside : ¬ apart path) : w₁.get path = w.get path := by
    by_cases made : Made path
    · rw [gone path made outside, clean.made path made]
    · by_cases held : PidFileOf config "osmdbt-create-diff".toList path
      · rw [held.2]
        exact pid held.1
      · exact left.get path (fun own => own.elim made held)
  refine ⟨left.wal, left.slot, left.tables, left.returned, left.renames, get, fun path content here => ?_⟩
  rw [get path (fun here' => ?_)]
  · exact here
  · rw [clean.made path (inside path here')] at here
    cases here

/-- After a run that ended before it made the lock file, a real run succeeds and
publishes as it would have done without the earlier one, exactly when the earlier one
left no pid file and, if there is something to publish, no state file. -/
theorem createDiff_rerun_iff {first second : CreateDiffOptions} {result : Except Fault Unit} (clean : Clean w)
    (ended : Ends (createDiff config first) w result w₁) (unlocked : w₁.get lockFile = none)
    (silent : w₁.renames = w.renames)
    (real : second.dryRun = false) (alone : Ends (createDiff config second) w (.ok ()) w') :
    (∃ w₂, Ends (createDiff config second) w₁ (.ok ()) w₂ ∧ SameDiff w' w₂) ↔ Unhindered config second w₁ := by
  have left := unlocked_untouched clean ended unlocked silent
  have logs (name : Text) : w₁.get ⟨.log, name⟩ = w.get ⟨.log, name⟩ :=
    left.get _ (fun own => scratch_not_log _ (own_scratch _ own) rfl)
  have free := createDiff_free alone
  constructor
  · rintro ⟨w₂, again, same⟩
    refine ⟨createDiff_free again, ?_⟩
    rcases createDiff_succeeded real alone with ⟨idle, _⟩ | ⟨_, more⟩
    · exact .inl (idle.same (fun name => (logs name).symm))
    · exact .inr (createDiff_fresh again (by rw [same.renames, silent]; exact more.ne))
  · rintro ⟨freed, clear⟩
    have pid (some : config.runDir ≠ []) := (freed some).trans (free some).symm
    have published : w₁.get newStateFile = none ∧ w₁.get newStateCopy = none →
        ∃ w₂, Ends (createDiff config second) w₁ (.ok ()) w₂ ∧ SameDiff w' w₂ := by
      rintro ⟨noState, noCopy⟩
      have alike : Alike (· = newChangeFile) w w₁ := by
        refine clean.alike left pid (fun _ same => .inl same) ?_
        rintro path (rfl | rfl | rfl) other
        · exact absurd rfl other
        · exact noState
        · exact noCopy
      obtain ⟨w₂, again, alike'⟩ := rerun_from alike alone
      exact ⟨w₂, again, alike'.renames, fun path outside => alike'.get path (fun same => outside (same ▸ rfl))⟩
    rcases clear with idle | gone
    · rcases createDiff_succeeded real alone with ⟨_, same⟩ | ⟨busy, _⟩
      · have alike : Alike Made w w₁ := clean.alike left pid (fun _ made => made)
          (fun _ made other => absurd made other)
        have notMade : ¬ MadeState w w' := by
          unfold MadeState
          rw [same.renames, same.get newStateFile (fun pid => nomatch pidFileOf_run _ pid),
            same.get newStateCopy (fun pid => nomatch pidFileOf_run _ pid), clean.made _ (.inr (.inl rfl)),
              clean.made _ (.inr (.inr rfl))]
          simp
        obtain ⟨w₂, again, alike'⟩ := rerun_idle alike alone notMade
        refine ⟨w₂, again, alike'.renames, fun path outside => alike'.get path (fun made => outside ?_)⟩
        rcases made with rfl | rfl | rfl <;> rfl
      · exact absurd (idle.same logs) busy
    · exact published gone

/-- What a dry run leaves behind. -/
def tried : World := ((createDiff {} { dryRun := true }).run World.serve missingRow).2

theorem missingRow_tried : Ends (createDiff {} { dryRun := true }) missingRow (.ok ()) tried :=
  ends_served (by decide +kernel)

theorem missingRow_clean : Clean missingRow := by
  refine ⟨?_, by decide⟩
  rintro path (rfl | rfl | rfl) <;> decide

theorem tried_files : tried.get lockFile = none ∧ tried.renames.length = 0 ∧ (tried.get newStateFile).isSome := by
  decide +kernel

theorem createDiff_rerun_iff_tried :
    (∃ w₂, Ends (createDiff {} {}) tried (.ok ()) w₂ ∧ SameDiff missingRowPublished w₂) ↔ Unhindered {} {} tried :=
  createDiff_rerun_iff missingRow_clean missingRow_tried tried_files.1 (List.length_eq_zero_iff.mp tried_files.2.1) rfl
    missingRow_published

/-- The real run after the dry run cannot publish. -/
theorem createDiff_rerun_fails : ¬ ∀ (config : Config) (first second : CreateDiffOptions) (w w₁ w' : World)
    (result : Except Fault Unit), Clean w → Ends (createDiff config first) w result w₁ → w₁.get lockFile = none →
    w₁.renames = w.renames → second.dryRun = false → Ends (createDiff config second) w (.ok ()) w' →
    ∃ w₂, Ends (createDiff config second) w₁ (.ok ()) w₂ ∧ SameDiff w' w₂ := by
  intro repeated
  obtain ⟨unlocked, moves, left⟩ := tried_files
  have silent : tried.renames = missingRow.renames := List.length_eq_zero_iff.mp moves
  obtain ⟨w₂, again, same⟩ := repeated {} { dryRun := true } {} missingRow tried missingRowPublished (.ok ())
    missingRow_clean missingRow_tried unlocked silent rfl missingRow_published
  have published : missingRowPublished.renames.length ≠ 0 := by decide +kernel
  have fresh := createDiff_fresh again (by
    rw [same.renames, List.length_eq_zero_iff.mp moves]
    exact fun none => published (List.length_eq_zero_iff.mpr none))
  rw [fresh.1] at left
  cases left

end Next

end Osmdbt
