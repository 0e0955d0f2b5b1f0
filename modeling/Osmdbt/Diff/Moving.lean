import Osmdbt.Diff.Preparing

/-! create-diff from the lock file on, and the program as a whole: every one of
its operations is a move of the publisher. -/

namespace Osmdbt

open General

section Moving

variable {γ : Type} {config : Config} {options : CreateDiffOptions} {ready : World × γ → Prop}
  {watch : γ → Text → Prop} {plan : Plan}

/-- A program that changes nothing while a publication is under way. -/
theorem holding_triple {α : Type} {F : World → Prop} (lasting : Lasting (fun path => path.dir = .run) F)
    {result : α → Prop} {program : Prog α} (uses : program.Uses (Op.Local (fun path => path.dir = .run)) result) :
    (diffRules config options ready watch).Triple (Holding plan F) program
      (fun value c => result value ∧ Holding plan F c) (fun _ => Ended) :=
  ((holding_quiet _ _ _ _ plan lasting).triple rfl uses).weaken (fun _ here => here) (fun _ _ here => here)
    (fun _ _ here => here.ended)

theorem holding_unit {F : World → Prop} (lasting : Lasting (fun path => path.dir = .run) F)
    {program : Prog Unit} (uses : program.Uses (Op.Local (fun path => path.dir = .run)) (fun _ => True)) :
    (diffRules config options ready watch).Triple (Holding plan F) program (fun _ => Holding plan F)
        (fun _ => Ended) :=
  (holding_triple lasting uses).weaken (fun _ here => here) (fun _ _ here => here.2) (fun _ _ here => here)

/-- A rename that brings the publication one stage further. -/
theorem rename_triple {F F' : World → Prop} (stage : Stage) {oldName newName : Path} {what : Text}
    (lasting : Lasting (fun path => path.dir = .run) F) (lasting' : Lasting (fun path => path.dir = .run) F')
    (notOld : lockFile ≠ oldName) (notNew : lockFile ≠ newName)
    (move : ∀ w g content, F w → w.get oldName = some content →
      DiffMove config options ready watch (w, (some plan, g)) (w.rename oldName newName content,
        (some (plan.at stage), g)) ∧
        F' (w.rename oldName newName content)) :
    (diffRules config options ready watch).Triple (Holding plan F) (perform (.rename oldName newName) what)
      (fun _ => Holding (plan.at stage) F') (fun _ => Ended) := by
  have quiet := holding_quiet config options ready watch plan lasting
  apply perform_triple rfl quiet.stable (fun _ => (holding_quiet _ _ _ _ (plan.at stage) lasting').stable)
    ended_quiet.stable
  · rintro w ⟨pl, g⟩ _ w' holding ⟨content, found, rfl⟩
    obtain rfl : pl = some plan := holding.planned
    obtain ⟨moved, fact⟩ := move w g content holding.fact found
    refine ⟨_, moved, rfl, ?_, fact⟩
    rw [World.get_rename_ne _ _ _ notOld notNew]
    exact holding.held
  · exact fun w t holding => ⟨quiet.allowed _ _ t holding (Untouched.refl _), holding.ended⟩

variable (plan) in
private theorem moveIntoPlace_triple :
    (diffRules config options ready watch).Triple
      (Holding (plan.at .locked) (fun w => w.get newChangeFile = some plan.content ∧
        w.get newStateFile = some (.text plan.stateText) ∧ w.get newStateCopy = some (.text plan.stateText)))
      (moveIntoPlace config plan.state (plan.sources.map Prod.fst))
      (fun _ => Holding (plan.at (.renaming [])) (fun _ => True)) (fun _ => Ended) := by
  have stored (path : Path) (tmp : path.dir = .tmp) (content : Content) :
      Lasting (fun path => path.dir = .run) (fun w => w.get path = some content) :=
    Lasting.get path (fun run => by rw [tmp] at run; cases run) content
  have copy := stored newStateCopy rfl (.text plan.stateText)
  have own := (stored newStateFile rfl (.text plan.stateText)).and copy
  have change := (stored newChangeFile rfl plan.content).and own
  have nothing : Lasting (fun path => path.dir = .run) (fun _ => True) := Lasting.const
  unfold moveIntoPlace
  refine (holding_unit change
    (Program.Uses.assert.weaken (fun _ here => here) (fun _ _ => trivial))).bind (fun _ => ?_)
  refine (holding_unit change (perform_uses trivial)).bind (fun _ => ?_)
  refine (rename_triple .changeMoved change own (by decide) (by rintro ⟨⟩) ?_).bind (fun _ => ?_)
  · rintro w g content ⟨here, rest⟩ found
    obtain rfl : content = plan.content := Option.some.inj (found.symm.trans here)
    refine ⟨.moveChange here, ?_⟩
    rwa [World.get_rename_ne _ _ _ (by decide) (by rintro ⟨⟩), World.get_rename_ne _ _ _ (by decide) (by rintro ⟨⟩)]
  refine (rename_triple .stateMoved own copy (by decide) (by rintro ⟨⟩) ?_).bind (fun _ => ?_)
  · rintro w g content ⟨here, rest⟩ found
    obtain rfl : content = .text plan.stateText := Option.some.inj (found.symm.trans here)
    refine ⟨.moveState here, ?_⟩
    rwa [World.get_rename_ne _ _ _ (by decide) (by rintro ⟨⟩)]
  refine (holding_unit copy (syncDir_uses _ _)).bind (fun _ => ?_)
  refine (holding_unit copy (syncDir_uses _ _)).bind (fun _ => ?_)
  refine (rename_triple (.renaming (plan.sources.map Prod.fst)) copy nothing (by decide) (by decide) ?_).bind
    (fun _ => ?_)
  · rintro w g content here found
    obtain rfl : content = .text plan.stateText := Option.some.inj (found.symm.trans here)
    exact ⟨.moveCopy here, trivial⟩
  refine (holding_unit nothing (syncDir_uses _ _)).bind (fun _ => ?_)
  refine Discipline.Triple.via (fun _ => Holding (plan.at (.renaming [])) (fun _ => True)) ?_
    (fun _ => holding_unit nothing (syncDir_uses _ _))
  refine Discipline.Triple.forM (fun remaining => Holding (plan.at (.renaming remaining)) (fun _ => True)) _
    (holding_quiet _ _ _ _ _ nothing).stable (fun logFile remaining => ?_)
  refine rename_triple (.renaming remaining) nothing nothing (by rintro ⟨⟩) (by rintro ⟨⟩) ?_
  exact fun w g content _ found => ⟨.moveLog found, trivial⟩

/-- What the names of the log files that were read have to do with the watched ones. -/
def Selected (options : CreateDiffOptions) (watched : Text → Prop) (sources : List (Text × Text)) : Prop :=
  options.logFileNames = [] →
    ((sources.map Prod.fst).Nodup ∧ ∀ source ∈ sources, isLog source.1 = true) ∧
      ∀ name, watched name → name ∈ sources.map Prod.fst ∨ LimitReached options sources

private theorem selected_of_read {watched : Text → Prop} {logFiles : List Text} {sources : List (Text × Text)}
    (listed : Listed options watched logFiles)
    (read : ReadFrom options (logFiles.insertionSort (· ≤ ·)) sources) : Selected options watched sources := by
  intro none
  obtain ⟨nodup, logs, complete⟩ := listed none
  have perm := List.perm_insertionSort (fun a b : Text => a ≤ b) logFiles
  refine ⟨⟨read.1.sublist.nodup (perm.nodup_iff.mpr nodup), fun source member => ?_⟩, fun name watched => ?_⟩
  · exact logs _ (perm.mem_iff.mp (read.1.subset (List.mem_map_of_mem member)))
  · rcases read.2 with all | limit
    · exact .inl (all ▸ perm.mem_iff.mpr (complete name watched))
    · exact .inr limit

private theorem writeLockFile_triple {g : γ} {objects : DiffObjects} {stateText : Text} {sources : List (Text × Text)}
    {state : State} (rules : Ready ready) (selected : Selected options (watch g) sources) :
    (diffRules config options ready watch).Triple
      (Before ready watch g (fun w => Present w sources ∧
        FilesWritten config options sources state objects stateText w))
      (writeLockFile config state (sources.map Prod.fst))
      (fun _ => Holding (Plan.at ⟨sources, objects, state, stateText, .locked⟩ .locked)
        (fun w => w.get newChangeFile = some (.osc sources (some objects)) ∧
          w.get newStateFile = some (.text stateText) ∧ w.get newStateCopy = some (.text stateText)))
      (fun _ => Ended) := by
  have known : Lasting (fun _ => False) (fun w => Present w sources ∧
      FilesWritten config options sources state objects stateText w) :=
    (Lasting.present (fun _ none => none.elim)).and (FilesWritten.lasting _ _ _ _)
  have quiet := before_quiet config options watch rules nothing_scratch g known
  have stored (path : Path) (tmp : path.dir = .tmp) (content : Content) :
      Lasting (fun path => path.dir = .run) (fun w => w.get path = some content) :=
    Lasting.get path (fun run => by rw [tmp] at run; cases run) content
  have files := (stored newChangeFile rfl (.osc sources (some objects))).and
    ((stored newStateFile rfl (.text stateText)).and (stored newStateCopy rfl (.text stateText)))
  have holding := holding_quiet config options ready watch
    (Plan.at ⟨sources, objects, state, stateText, .locked⟩ .locked) files
  have held (w : World) (data : Text) : ((w.put lockFile (.text data)).get lockFile).isSome :=
    Option.isSome_iff_exists.mpr ⟨_, World.get_put_self _ _ _⟩
  have keeps (w : World) (data : Text) (here : w.get newChangeFile = some (.osc sources (some objects)) ∧
      w.get newStateFile = some (.text stateText) ∧ w.get newStateCopy = some (.text stateText)) :
      (w.put lockFile (.text data)).get newChangeFile = some (.osc sources (some objects)) ∧
      (w.put lockFile (.text data)).get newStateFile = some (.text stateText) ∧
      (w.put lockFile (.text data)).get newStateCopy = some (.text stateText) := by
    rwa [World.get_put_ne _ _ _ (by decide), World.get_put_ne _ _ _ (by decide), World.get_put_ne _ _ _ (by decide)]
  unfold writeLockFile
  refine exclusive_triple rfl quiet.stable holding.stable ended_quiet.stable (fun w t before free => ?_)
    (fun w t before => ⟨quiet.allowed _ _ t before (Untouched.refl _), before.ended⟩) (fun _ => rfl) (fun _ => ?_)
  · obtain rfl : t = (none, g) := before.idle
    obtain ⟨present, written⟩ := before.fact
    have prepared : Prepared config options w ⟨sources, objects, state, stateText, .locked⟩ :=
      ⟨written.change, written.own, written.copy, written.text, written.number, present,
        fun none => (selected none).1, written.written⟩
    refine ⟨_, .lock free prepared before.here (fun none => (selected none).2), rfl, held w [], ?_⟩
    exact keeps w [] ⟨written.change, written.own, written.copy⟩
  · refine (holding_triple files (perform_uses (show Op.getpid.Local _ from trivial))).bind (fun (pid : Nat) => ?_)
    refine Discipline.Triple.before ?_ (fun _ here => here.2)
    refine Discipline.Triple.bind ?_
      (fun _ => holding_unit files (perform_uses (show (Op.close lockFile).Local _ from trivial)))
    apply reliableWrite_triple rfl
      (P := fun _ => Holding (Plan.at ⟨sources, objects, state, stateText, .locked⟩ .locked)
      (fun w => w.get newChangeFile = some (.osc sources (some objects)) ∧
        w.get newStateFile = some (.text stateText) ∧ w.get newStateCopy = some (.text stateText)))
      _ (fun _ => holding.stable) ended_quiet.stable
    · rintro _ c w ⟨pl, g⟩ data here _
      obtain rfl : pl = some _ := here.planned
      have locked := held w (data ++ [c])
      exact ⟨_, .during ((untouched_put _ _ _).mono (fun _ same => .inl same)) locked, rfl, locked,
        keeps w _ here.fact⟩
    · exact fun _ w t here => ⟨holding.allowed _ _ t here (Untouched.refl _), here.ended⟩

private theorem unlock_triple :
    (diffRules config options ready watch).Triple (Holding (plan.at (.renaming [])) (fun _ => True)) (unlink lockFile)
      (fun _ => Ended) (fun _ => Ended) := by
  have quiet := holding_quiet config options ready watch (plan.at (.renaming [])) (Lasting.const (p := True))
  refine Discipline.Triple.via (fun _ => Ended) ?_ (fun _ => Discipline.Triple.pure ended_quiet.stable
    (fun _ here => here))
  refine Discipline.Triple.request quiet.stable (fun _ => ended_quiet.stable) ?_
  rintro ⟨w, pl, g⟩ reply w' holding done
  obtain rfl : pl = some (plan.at (.renaming [])) := holding.planned
  cases reply with
  | error _ =>
    obtain ⟨_, rfl, _⟩ := done
    exact ⟨_, quiet.allowed _ _ _ holding (Untouched.refl _), holding.ended⟩
  | ok _ =>
    obtain ⟨_, rfl⟩ := done
    exact ⟨(none, g), .unlock, .inl rfl⟩

private theorem publish_triple {g : γ} {objects : DiffObjects} {stateText : Text} {sources : List (Text × Text)}
    {state : State} (rules : Ready ready) (selected : Selected options (watch g) sources) :
    (diffRules config options ready watch).Triple
      (Before ready watch g (fun w => Present w sources ∧
        FilesWritten config options sources state objects stateText w))
      (publish config state (sources.map Prod.fst)) (fun _ => Ended) (fun _ => Ended) := by
  have stored (path : Path) (tmp : path.dir = .tmp) (content : Content) :
      Lasting (fun path => path.dir = .run) (fun w => w.get path = some content) :=
    Lasting.get path (fun run => by rw [tmp] at run; cases run) content
  have files := (stored newChangeFile rfl (.osc sources (some objects))).and
    ((stored newStateFile rfl (.text stateText)).and (stored newStateCopy rfl (.text stateText)))
  unfold publish
  refine (writeLockFile_triple rules selected).bind (fun _ => ?_)
  refine (holding_unit files (syncDir_uses _ _)).bind (fun _ => ?_)
  refine (moveIntoPlace_triple ⟨sources, objects, state, stateText, .locked⟩).bind (fun _ => ?_)
  refine unlock_triple.bind (fun _ => ?_)
  exact ended_quiet.unit rfl (syncDir_uses _ _)

end Moving

section Program

variable {γ : Type} (config : Config) (options : CreateDiffOptions) {ready : World × γ → Prop}
    (watch : γ → Text → Prop)

/-- create-diff does nothing but moves of the publisher, and it ends either with
no publication under way or with the lock file in place. -/
theorem createDiff_triple (rules : Ready ready) (g : γ) :
    (diffRules config options ready watch).Triple (Before ready watch g (fun _ => True)) (createDiff config options)
      (fun _ => Ended) (fun _ => Ended) := by
  have pure (p : Prop) {α : Type} {program : Prog α} {post : α → World × (Option Plan × γ) → Prop}
      (run : p → (diffRules config options ready watch).Triple (Before ready watch g (fun _ => True)) program post
        (fun _ => Ended)) :
      (diffRules config options ready watch).Triple (Before ready watch g (fun _ => p))
          program post (fun _ => Ended) :=
    fun c here => run here.fact c (here.imp (fun _ => trivial))
  have nothing : Lasting Scratch (fun _ => True) := Lasting.const
  unfold createDiff
  refine pidFile_triple rfl config _ (before_quiet config options watch rules (fun _ run => .inr run) g Lasting.const)
    (fun _ => ended_quiet) ended_quiet (fun _ before => before.ended) ?_
  refine (findLogFiles_triple rules).bind (fun logFiles => pure _ (fun listed => ?_))
  split
  · exact Discipline.Triple.pure ended_quiet.stable (fun _ before => before.ended)
  refine (scratch_unit rules (fun _ inside => inside) nothing (perform_uses trivial)).bind (fun _ => ?_)
  refine (scratch_triple rules (fun _ inside => inside) nothing getDbVersion_uses).bind (fun _ => ?_)
  have start : ∀ c : World × (Option Plan × γ), (True ∧ Before ready watch g (fun _ => True) c) →
      Before ready watch g (Reading [] {}) c :=
    fun c here => here.2.imp (fun _ => ⟨fun _ none => (List.not_mem_nil none).elim, [], rfl, rfl⟩)
  refine Discipline.Triple.bind ((readLogFiles_triple rules {} [] (logFiles.insertionSort (· ≤ ·))).before start)
    (fun result => ?_)
  obtain ⟨content, sources⟩ := result
  have reading : Lasting Scratch (Reading sources content) := Reading.lasting scratch_not_log sources content
  by_cases read : ReadFrom options (logFiles.insertionSort (· ≤ ·)) sources
  swap
  · exact fun c here => absurd here.fact.2 read
  refine Discipline.Triple.before (P := Before ready watch g (Reading sources content))
    ?_ (fun _ here => here.imp And.left)
  have selected := selected_of_read listed read
  change (diffRules config options ready watch).Triple _ (if content.objects.isEmpty then _ else _) _ _
  split
  · exact Discipline.Triple.pure ended_quiet.stable (fun _ before => before.ended)
  refine (writeFiles_triple rules reading (fun _ here => here)).bind (fun state => ?_)
  split
  · exact Discipline.Triple.pure ended_quiet.stable (fun _ before => before.ended)
  intro c before
  obtain ⟨fact, objects, stateText, written⟩ := before.fact
  exact publish_triple rules selected c (before.imp (fun _ => ⟨fact.present, written⟩))

end Program

end Osmdbt
