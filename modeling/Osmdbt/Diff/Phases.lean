import Osmdbt.System.Effects
import Osmdbt.Diff.Publishing

/-! The phases of create-diff before the lock file, as runs on their own: which files
they work on, and what they leave behind when they end. -/

namespace Osmdbt

open General

/-- The files create-diff makes in `tmp_dir`. -/
def Made (path : Path) : Prop := path = newChangeFile ∨ path = newStateFile ∨ path = newStateCopy

section Uses

variable {config : Config} {options : CreateDiffOptions} {allowed : Op → Prop}

theorem unlessEmpty_uses {ω : Type} (objs : List Osmobj) (ts : Timestamp) {process : Prog (List ω × Timestamp)}
    (run : process.Uses allowed (fun _ => True)) : (unlessEmpty objs ts process).Uses allowed (fun _ => True) := by
  unfold unlessEmpty
  split
  · exact Program.Uses.pure trivial
  · exact run

variable [Looking allowed]

theorem populate_uses (cucache : ChangesetUserLookup) :
    (populateChangesetCache databaseQueries cucache : Prog _).Uses allowed (fun _ => True) :=
  Program.Uses.bind (ask_uses _) (fun _ _ => lift_uses _)

theorem findLogFiles_uses : (findLogFiles options).Uses allowed
    (fun names => options.logFileNames = [] → ∀ name ∈ names, isLog name = true) := by
  unfold findLogFiles
  split
  · refine (look_uses (show (Op.list .log).Looks from rfl)).bind (fun (names : List Text) _ => ?_)
    exact Program.Uses.pure (fun _ name member => (List.mem_filter.mp member).2)
  · rename_i given
    exact Program.Uses.pure (fun none => absurd (List.isEmpty_iff.mpr none) given)

theorem readLogFiles_uses (content : LogContent) (sources : List (Text × Text)) (logFiles : List Text) :
    (readLogFiles config options content sources logFiles).Uses allowed
      (fun result => ∀ source ∈ result.2, source ∈ sources ∨ source.1 ∈ logFiles) := by
  induction logFiles generalizing content sources with
  | nil => exact Program.Uses.pure (fun source member => .inl member)
  | cons logFile rest ih =>
    unfold readLogFiles
    refine (look_uses (show (Op.readFile _).Looks from trivial)).bind (fun (data : Text) _ => ?_)
    refine Program.Uses.lift.bind (fun content' _ => ?_)
    have known : ∀ source ∈ sources ++ [(logFile, data)], source ∈ sources ∨ source.1 ∈ logFile :: rest := by
      intro source member
      rcases List.mem_append.mp member with old | new
      · exact .inl old
      · obtain rfl := List.mem_singleton.mp new
        exact .inr (by simp)
    split
    · exact Program.Uses.pure known
    · refine (ih content' _).weaken (fun _ here => here) (fun result here source member => ?_)
      rcases here source member with old | new
      · exact known source old
      · exact .inr (List.mem_cons_of_mem _ new)

private theorem processTypes_uses (cucache : ChangesetUserLookup) (objects : Osmobjects) :
    (processTypes databaseQueries cucache objects : Prog _).Uses allowed (fun _ => True) := by
  unfold processTypes
  refine (unlessEmpty_uses _ _ ?_).bind (fun nodes _ => (unlessEmpty_uses _ _ ?_).bind
    (fun ways _ => (unlessEmpty_uses _ _ ?_).bind (fun relations _ => Program.Uses.pure trivial)))
  · exact (ask_uses _).bind (fun _ _ => (ask_uses _).bind (fun _ _ => lift_uses _))
  · exact (ask_uses _).bind (fun _ _ => (ask_uses _).bind (fun _ _ => (ask_uses _).bind (fun _ _ => lift_uses _)))
  · exact (ask_uses _).bind (fun _ _ => (ask_uses _).bind (fun _ _ => (ask_uses _).bind (fun _ _ => lift_uses _)))

theorem requireStateFile_uses : (requireStateFile config).Uses allowed (fun _ => True) := by
  refine (look_uses (show (Op.exists stateFile).Looks from rfl)).bind (fun (present : Bool) _ => ?_)
  cases present with
  | true => exact Program.Uses.pure trivial
  | false => exact Program.Uses.raise

theorem getState_uses (timestamp : Timestamp) : (getState config options timestamp).Uses allowed (fun _ => True) := by
  unfold getState
  split
  · exact Program.Uses.pure trivial
  · refine requireStateFile_uses.bind (fun _ _ => (look_uses (show (Op.readFile _).Looks from trivial)).bind
      (fun (data : Text) _ => (lift_uses _).bind (fun last _ => ?_)))
    exact (Program.Uses.assert.weaken (fun _ here => here) (fun _ _ => trivial)).bind
      (fun _ _ => Program.Uses.pure trivial)

theorem commentTime_uses : (commentTime options).Uses allowed (fun _ => True) := by
  unfold commentTime
  cases options.withComment with
  | true => exact look_uses (show Op.time.Looks from trivial)
  | false => exact Program.Uses.pure trivial

theorem stateWrite_uses {path : Path} (writes : ∀ op, op.Writes path → allowed op) (state : State) (now : Timestamp) :
    (state.write config path now).Uses allowed (fun _ => True) := by
  unfold State.write
  refine (Program.Uses.request (writes _ .openExcl)).bind (fun reply _ => ?_)
  cases reply with
  | error _ => exact Program.Uses.raise
  | ok _ =>
    refine (reliableWrite_uses (fun c => writes _ (.write c)) _).bind (fun _ _ => ?_)
    exact (look_uses (show (Op.fsync path).Looks from trivial)).bind
      (fun _ _ => look_uses (show (Op.close path).Looks from trivial))

/-- What is done to the files in `tmp_dir` before the publish section. -/
inductive MakeOp : Op → Prop where
  | open : MakeOp (.openWriter newChangeFile)
  | close (sources : List (Text × Text)) (objects : DiffObjects) : MakeOp (.closeWriter newChangeFile sources objects)
  | state {op : Op} (writes : op.Writes newStateFile) : MakeOp op
  | copy {op : Op} (writes : op.Writes newStateCopy) : MakeOp op

theorem MakeOp.local {op : Op} (makes : MakeOp op) : op.Local Made := by
  cases makes with
  | «open» => exact .inl rfl
  | close sources objects => exact .inl rfl
  | state writes => exact writes.local (.inr (.inl rfl))
  | copy writes => exact writes.local (.inr (.inr rfl))

theorem writeFiles_uses (makes : ∀ op, MakeOp op → allowed op) (content : LogContent) (sources : List (Text × Text)) :
    (writeFiles config options content sources).Uses allowed (fun _ => True) := by
  unfold writeFiles
  refine (populate_uses content.cucache).bind (fun cucache _ => ?_)
  refine (perform_uses (makes _ .open)).bind (fun _ _ => ?_)
  refine (processTypes_uses cucache _).bind (fun written _ => ?_)
  refine (look_uses (show Op.commit.Looks from trivial)).bind (fun _ _ => ?_)
  refine (perform_uses (makes _ (.close sources written.1))).bind (fun _ _ => ?_)
  refine (getState_uses written.2).bind (fun state _ => commentTime_uses.bind (fun now _ => ?_))
  exact (stateWrite_uses (fun _ writes => makes _ (.state writes)) state now).bind
    (fun _ _ => (stateWrite_uses (fun _ writes => makes _ (.copy writes)) state now).bind
      (fun _ _ => Program.Uses.pure trivial))

/-- Only files of its own. -/
theorem writeFiles_made (content : LogContent) (sources : List (Text × Text)) :
    (writeFiles config options content sources).Uses (Op.Local Made) (fun _ => True) :=
  writeFiles_uses (fun _ makes => makes.local) content sources

/-- What the publish section asks for. -/
inductive PublishOp (state : State) (logFiles : List Text) : Op → Prop where
  | look {op : Op} (looks : op.Looks) : PublishOp state logFiles op
  | lock {op : Op} (writes : op.Writes lockFile) : PublishOp state logFiles op
  | unlock : PublishOp state logFiles (.unlink lockFile)
  | change : PublishOp state logFiles (.rename newChangeFile state.changeFile)
  | own : PublishOp state logFiles (.rename newStateFile state.ownFile)
  | copy : PublishOp state logFiles (.rename newStateCopy stateFile)
  | log {name : Text} (member : name ∈ logFiles) :
      PublishOp state logFiles (.rename ⟨.log, name⟩ ⟨.log, name ++ ".done".toList⟩)

instance (state : State) (logFiles : List Text) : Looking (PublishOp state logFiles) := ⟨fun _ => .look⟩

theorem writeLockFile_uses (writes : ∀ op, op.Writes lockFile → allowed op) (state : State) (logFiles : List Text) :
    (writeLockFile config state logFiles).Uses allowed (fun _ => True) := by
  unfold writeLockFile
  refine (Program.Uses.request (writes _ .openExcl)).bind (fun reply _ => ?_)
  cases reply with
  | error _ => exact Program.Uses.raise
  | ok _ =>
    refine (look_uses (show Op.getpid.Looks from trivial)).bind (fun (pid : Nat) _ => ?_)
    exact (reliableWrite_uses (fun c => writes _ (.write c)) _).bind
      (fun _ _ => look_uses (show (Op.close lockFile).Looks from trivial))

omit [Looking allowed] in
theorem writeLockFile_own (state : State) (logFiles : List Text) :
    (writeLockFile config state logFiles).Uses (Op.Local (· = lockFile)) (fun _ => True) :=
  writeLockFile_uses (fun _ writes => @Op.Writes.local (· = lockFile) _ rfl _ writes) state logFiles

omit [Looking allowed] in
theorem publish_uses (state : State) (logFiles : List Text) :
    (publish config state logFiles).Uses (PublishOp state logFiles) (fun _ => True) := by
  have moved : (moveIntoPlace config state logFiles).Uses (PublishOp state logFiles) (fun _ => True) := by
    unfold moveIntoPlace
    refine (Program.Uses.assert.weaken (fun _ here => here) (fun _ _ => trivial)).bind (fun _ _ => ?_)
    refine (look_uses (show (Op.createDirectories _).Looks from trivial)).bind (fun _ _ => ?_)
    refine (perform_uses .change).bind (fun _ _ => (perform_uses .own).bind (fun _ _ => ?_))
    refine (syncDir_uses config _).bind (fun _ _ => (syncDir_uses config _).bind (fun _ _ => ?_))
    refine (perform_uses .copy).bind (fun _ _ => (syncDir_uses config _).bind (fun _ _ => ?_))
    refine Program.Uses.bind (Program.Uses.forM (fun name member => ?_)) (fun _ _ => syncDir_uses config _)
    exact perform_uses (.log member)
  unfold publish
  exact (writeLockFile_uses (fun _ => .lock) state logFiles).bind (fun _ _ => (syncDir_uses config _).bind (fun _ _ =>
    moved.bind (fun _ _ => (unlink_uses .unlock).bind (fun _ _ => syncDir_uses config _))))

/-- What a run asks for: to look around, its own files, and what is moved. -/
inductive DiffRequest (options : CreateDiffOptions) : Op → Prop where
  | look {op : Op} (looks : op.Looks) : DiffRequest options op
  | pid {op : Op} (writes : op.Writes (pidPath "osmdbt-create-diff".toList)) : DiffRequest options op
  | removePid : DiffRequest options (.unlink (pidPath "osmdbt-create-diff".toList))
  | make {op : Op} (makes : MakeOp op) : DiffRequest options op
  | publish {op : Op} {state : State} {logFiles : List Text} (used : PublishOp state logFiles op)
      (logs : options.logFileNames = [] → ∀ name ∈ logFiles, isLog name = true) : DiffRequest options op

instance (options : CreateDiffOptions) : Looking (DiffRequest options) := ⟨fun _ => .look⟩

omit [Looking allowed] in
theorem createDiff_requests (config : Config) (options : CreateDiffOptions) :
    (createDiff config options).Uses (DiffRequest options) (fun _ => True) := by
  unfold createDiff
  refine pidFile_uses (fun _ => .pid) .removePid (findLogFiles_uses.bind (fun logFiles logs => ?_))
  split
  · exact Program.Uses.pure trivial
  refine (look_uses (show Op.connect.Looks from trivial)).bind (fun _ _ => getDbVersion_uses.bind (fun _ _ => ?_))
  refine (readLogFiles_uses {} [] _).bind (fun result sources => ?_)
  have known (given : options.logFileNames = []) : ∀ name ∈ result.2.map Prod.fst, isLog name = true := by
    intro name member
    obtain ⟨source, inside, rfl⟩ := List.mem_map.mp member
    rcases sources source inside with none | here
    · cases none
    · exact logs given _ ((List.perm_insertionSort (· ≤ ·) logFiles).mem_iff.mp here)
  change (if _ then _ else _ : Prog Unit).Uses _ _
  split
  · exact Program.Uses.pure trivial
  refine (writeFiles_uses (fun _ => .make) result.1 result.2).bind (fun state _ => ?_)
  split
  · exact Program.Uses.pure trivial
  · exact (publish_uses state _).weaken (fun _ used => .publish used known) (fun _ here => here)

end Uses

end Osmdbt
