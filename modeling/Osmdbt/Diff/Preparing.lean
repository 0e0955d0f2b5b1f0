import Osmdbt.Diff.Phases

/-! create-diff up to the lock file: the log files it reads, the objects it
writes for them, and the two copies of the next state. -/

namespace Osmdbt

open General

/-- No pair stands for more objects than it was asked for. -/
def Bounded {ω : Type} (asked : List Key) (keyOf : ω → Key) (written : List ω) : Prop :=
  ∀ k, (written.map keyOf).count k ≤ asked.count k

theorem Runs.bounded {ω : Type} {table : List ObjectRow} {cucache : ChangesetUserLookup} {asked : List Key}
    {keyOf : ω → Key} {run : Timestamp → Except Fault (List ω × Timestamp)} (runs : Runs table cucache asked keyOf run)
    {ts : Timestamp} {written : List ω × Timestamp} (success : run ts = .ok written) :
    Bounded asked keyOf written.1 := by
  intro k
  rw [runs.counts success]
  split <;> omega

theorem lift_triple {τ α : Type} {D : Rules τ} {P : World × τ → Prop} (stable : D.Stable P)
    (result : Except Fault α) :
    D.Triple P (Program.lift result : Prog α) (fun value c => result = .ok value ∧ P c) (fun _ => P) :=
  Discipline.Triple.lift stable (fun _ _ _ here => here)

section Queries

variable {τ : Type} {D : Rules τ} {touched : Path → Prop} {P : World × τ → Prop} {cucache : ChangesetUserLookup}
  {objs : List Osmobj} (step : D.step = Step) (quiet : Quiet D touched P)
include step quiet

private theorem queryNodes_triple (ts : Timestamp) :
    D.Triple P (queryNodes databaseQueries cucache objs ts : Prog _)
      (fun written c => Bounded (wanted objs) (fun node => node.attributes.key) written.1 ∧ P c) (fun _ => P) := by
  refine (askDatabase_triple step quiet (.tags .node (wanted objs))).bind (fun tags => ?_)
  refine ((askDatabase_triple step quiet (.nodes (wanted objs))).before (fun _ here => here.2)).bind
    (fun (result : List NodeRow) => ?_)
  refine (lift_triple quiet.and_const.stable (processNodes cucache (getTags tags) result ts)).weaken
    (fun _ here => here) ?_ (fun _ _ here => here.2)
  rintro written c ⟨success, ⟨tables, answers⟩, here⟩
  have unique : (tables.nodes.map (fun row => row.toObjectRow.key)).Nodup := by
    simpa [ObjectKeys, Function.comp_def] using tables.keys.nodes
  have runs : Runs (tables.nodes.map NodeRow.toObjectRow) cucache (wanted objs)
      (fun node : OsmNode => node.attributes.key) (processNodes cucache (getTags tags) result) :=
    runs_processObjects (by exact fun _ _ _ => rfl) unique answers (getTags tags)
  exact ⟨runs.bounded success, here⟩

private theorem queryWays_triple (ts : Timestamp) :
    D.Triple P (queryWays databaseQueries cucache objs ts : Prog _)
      (fun written c => Bounded (wanted objs) (fun way => way.attributes.key) written.1 ∧ P c) (fun _ => P) := by
  refine (askDatabase_triple step quiet (.tags .way (wanted objs))).bind (fun tags => ?_)
  refine ((askDatabase_triple step quiet (.wayNodes (wanted objs))).before (fun _ here => here.2)).bind
    (fun nodes => ?_)
  refine ((askDatabase_triple step quiet (.ways (wanted objs))).before (fun _ here => here.2)).bind
    (fun (result : List ObjectRow) => ?_)
  refine (lift_triple quiet.and_const.stable (processWays cucache (getTags tags) (getNodes nodes) result ts)).weaken
    (fun _ here => here) ?_ (fun _ _ here => here.2)
  rintro written c ⟨success, ⟨tables, answers⟩, here⟩
  have runs : Runs (tables.ways.map id) cucache (wanted objs) (fun way : OsmWay => way.attributes.key)
      (processWays cucache (getTags tags) (getNodes nodes) result) :=
    runs_processObjects (by exact fun _ _ _ => rfl) tables.keys.ways answers (getTags tags, getNodes nodes)
  exact ⟨runs.bounded success, here⟩

private theorem queryRelations_triple (ts : Timestamp) :
    D.Triple P (queryRelations databaseQueries cucache objs ts : Prog _)
      (fun written c => Bounded (wanted objs) (fun relation => relation.attributes.key) written.1 ∧ P c)
      (fun _ => P) := by
  refine (askDatabase_triple step quiet (.tags .relation (wanted objs))).bind (fun tags => ?_)
  refine ((askDatabase_triple step quiet (.members (wanted objs))).before (fun _ here => here.2)).bind
    (fun members => ?_)
  refine ((askDatabase_triple step quiet (.relations (wanted objs))).before (fun _ here => here.2)).bind
    (fun (result : List ObjectRow) => ?_)
  refine (lift_triple quiet.and_const.stable
    (processRelations cucache (getTags tags) (getMembers members) result ts)).weaken
    (fun _ here => here) ?_ (fun _ _ here => here.2)
  rintro written c ⟨success, ⟨tables, answers⟩, here⟩
  have runs : Runs (tables.relations.map id) cucache (wanted objs) (fun object : OsmRelation => object.attributes.key)
      (processRelations cucache (getTags tags) (getMembers members) result) :=
    runs_processObjects (by exact fun _ _ _ => rfl) tables.keys.relations answers (getTags tags, getMembers members)
  exact ⟨runs.bounded success, here⟩

omit step in
theorem unlessEmpty_triple {ω : Type} {keyOf : ω → Key} (objs : List Osmobj) (ts : Timestamp)
    {process : Prog (List ω × Timestamp)}
    (run : D.Triple P process (fun written c => Bounded (wanted objs) keyOf written.1 ∧ P c) (fun _ => P)) :
    D.Triple P (unlessEmpty objs ts process) (fun written c => Bounded (wanted objs) keyOf written.1 ∧ P c)
      (fun _ => P) := by
  unfold unlessEmpty
  split
  · exact Discipline.Triple.pure quiet.and_const.stable (fun c here => ⟨fun k => by simp, here⟩)
  · exact run

/-- What is written for the sorted entries: no pair more often than in the entries. -/
private theorem processTypes_triple (content : LogContent) :
    D.Triple P (processTypes databaseQueries cucache content.objects.sort)
      (fun written c => (∀ type, ∀ k, (written.1.keys type).count k ≤ (content.asked type).count k) ∧ P c)
      (fun _ => P) := by
  unfold processTypes
  refine (unlessEmpty_triple quiet _ _ (queryNodes_triple step quiet _)).bind (fun nodes => ?_)
  refine ((unlessEmpty_triple quiet.and_const _ _ (queryWays_triple step quiet.and_const nodes.2)).weaken
    (fun _ here => here) (fun _ _ here => here) (fun _ _ here => here.2)).bind (fun ways => ?_)
  refine ((unlessEmpty_triple quiet.and_const.and_const _ _
    (queryRelations_triple step quiet.and_const.and_const ways.2)).weaken
    (fun _ here => here) (fun _ _ here => here) (fun _ _ here => here.2.2)).bind (fun relations => ?_)
  refine Discipline.Triple.pure quiet.and_const.stable ?_
  rintro c ⟨relationsBounded, waysBounded, nodesBounded, here⟩
  refine ⟨fun type => ?_, here⟩
  cases type with
  | node => exact nodesBounded
  | way => exact waysBounded
  | relation => exact relationsBounded

end Queries

/-- The log files read so far, and what they left in the variables. -/
structure Reading (sources : List (Text × Text)) (content : LogContent) (w : World) : Prop where
  present : Present w sources
  entries : ∃ entries, readEntries (sources.map Prod.snd) = .ok entries ∧ content = entries.foldl LogContent.add {}

theorem Reading.lasting {touched : Path → Prop} (outside : ∀ path, touched path → path.dir ≠ .log)
    (sources : List (Text × Text)) (content : LogContent) : Lasting touched (Reading sources content) :=
  ⟨fun change here => ⟨(Lasting.present outside).others change here.present, here.entries⟩,
    fun same here => ⟨(Lasting.present outside).kept same here.present, here.entries⟩⟩

theorem size_foldl (content : LogContent) (entries : List Osmobj) :
    (entries.foldl LogContent.add content).objects.size = content.objects.size + entries.length := by
  induction entries generalizing content with
  | nil => rfl
  | cons obj rest ih =>
    rw [List.foldl_cons, ih, List.length_cons]
    have one : (content.add obj).objects.size = content.objects.size + 1 := by
      cases type : obj.type <;> simp only [LogContent.add, Osmobjects.add, Osmobjects.size, type, List.length_append,
        List.length_singleton] <;> omega
    omega

section Before

variable {γ : Type} {config : Config} {options : CreateDiffOptions} {ready : World × γ → Prop}
  {watch : γ → Text → Prop} (rules : Ready ready)
include rules

variable {g : γ}

/-- A program that only works in `tmp_dir` and keeps what is known. -/
theorem scratch_triple {α : Type} {touched : Path → Prop} (scratch : ∀ path, touched path → Scratch path)
    {F : World → Prop} (lasting : Lasting touched F) {result : α → Prop} {program : Prog α}
    (uses : program.Uses (Op.Local touched) result) :
    (diffRules config options ready watch).Triple (Before ready watch g F) program
      (fun value c => result value ∧ Before ready watch g F c) (fun _ => Ended) :=
  ((before_quiet config options watch rules scratch g lasting).triple rfl uses).weaken (fun _ here => here)
    (fun _ _ here => here)
    (fun _ _ here => here.ended)

theorem scratch_unit {touched : Path → Prop} (scratch : ∀ path, touched path → Scratch path)
    {F : World → Prop} (lasting : Lasting touched F) {program : Prog Unit}
    (uses : program.Uses (Op.Local touched) (fun _ => True)) :
    (diffRules config options ready watch).Triple (Before ready watch g F) program
      (fun _ => Before ready watch g F) (fun _ => Ended) :=
  (scratch_triple rules scratch lasting uses).weaken (fun _ here => here) (fun _ _ here => here.2)
    (fun _ _ here => here)

omit rules in
theorem nothing_scratch (path : Path) (inside : False) : Scratch path := inside.elim

/-- An operation that changes nothing and tells something that lasts. -/
theorem learn_triple {F : World → Prop} (op : Op) {what : Text} (G : op.Value → World → Prop)
    (lasting : Lasting (fun _ => False) F) (learned : ∀ value, Lasting (fun _ => False) (G value))
    (tells : ∀ w t value w', Before ready watch g F (w, t) → Done w op value w' → w' = w ∧ G value w) :
    (diffRules config options ready watch).Triple (Before ready watch g F) (perform op what)
      (fun value => Before ready watch g (fun w => F w ∧ G value w)) (fun _ => Ended) := by
  have quiet := before_quiet config options watch rules nothing_scratch g lasting
  apply perform_triple rfl quiet.stable
    (fun value => (before_quiet config options watch rules nothing_scratch g (lasting.and (learned value))).stable)
    ended_quiet.stable
  · intro w t value w' before done
    obtain ⟨rfl, fact⟩ := tells w t value w' before done
    exact ⟨t, quiet.allowed _ _ t before (Untouched.refl _), before.imp (fun here => ⟨here, fact⟩)⟩
  · exact fun w t before => ⟨quiet.allowed _ _ t before (Untouched.refl _), before.ended⟩

/-- The files named on the command line, or all log files that are there. -/
def Listed (options : CreateDiffOptions) (watched : Text → Prop) (logFiles : List Text) : Prop :=
  options.logFileNames = [] →
    logFiles.Nodup ∧ (∀ name ∈ logFiles, isLog name = true) ∧ ∀ name, watched name → name ∈ logFiles

theorem findLogFiles_triple :
    (diffRules config options ready watch).Triple (Before ready watch g (fun _ => True)) (findLogFiles options)
      (fun logFiles => Before ready watch g (fun _ => Listed options (watch g) logFiles)) (fun _ => Ended) := by
  have listed (logFiles : List Text) := (before_quiet config options watch rules
    (fun _ inside => inside) g (Lasting.const (p := Listed options (watch g) logFiles))).stable
  unfold findLogFiles
  split
  · refine Discipline.Triple.bind (learn_triple rules (.list .log)
      (fun (names : List Text) _ => Listed options (watch g) (names.filter isLog))
      Lasting.const (fun _ => Lasting.const) ?_) (fun names => ?_)
    · rintro w t names w' before ⟨nodup, complete, rfl⟩
      refine ⟨rfl, fun _ => ⟨nodup.filter _, fun name member => (List.mem_filter.mp member).2, ?_⟩⟩
      intro name watched
      obtain ⟨log, there⟩ := before.watched name watched
      exact List.mem_filter.mpr ⟨(complete name).mpr there, log⟩
    · exact Discipline.Triple.pure (listed _) (fun _ before => before.imp (fun here => here.2))
  · rename_i given
    refine Discipline.Triple.pure (listed _) (fun _ before => before.imp (fun _ none => ?_))
    exact absurd (List.isEmpty_iff.mpr none) given

/-- The names of the files that were read come first in the sorted list, and all
of them were read unless the limit was reached. -/
def ReadFrom (options : CreateDiffOptions) (logFiles : List Text) (sources : List (Text × Text)) : Prop :=
  sources.map Prod.fst <+: logFiles ∧ (sources.map Prod.fst = logFiles ∨ LimitReached options sources)

theorem readLogFiles_triple (content : LogContent) (sources : List (Text × Text)) (rest : List Text) :
    (diffRules config options ready watch).Triple (Before ready watch g (Reading sources content))
      (readLogFiles config options content sources rest)
      (fun result => Before ready watch g (fun w => Reading result.2 result.1 w ∧
        ReadFrom options (sources.map Prod.fst ++ rest) result.2)) (fun _ => Ended) := by
  have reading (sources : List (Text × Text)) (content : LogContent) :
      Lasting (fun _ => False) (Reading sources content) := Reading.lasting (fun _ none => none.elim) sources content
  have stable (sources : List (Text × Text)) (content : LogContent) (p : Prop) :=
    (before_quiet config options watch rules nothing_scratch g
      ((reading sources content).and (Lasting.const (p := p)))).stable
  induction rest generalizing content sources with
  | nil =>
    refine Discipline.Triple.pure (stable _ _ _) (fun _ before => before.imp (fun here => ⟨here, ?_, .inl ?_⟩))
    · rw [List.append_nil]
    · rw [List.append_nil]
  | cons logFile rest ih =>
    unfold readLogFiles
    refine Discipline.Triple.bind (learn_triple rules (.readFile ⟨.log, logFile⟩)
      (fun (data : Text) w => w.get ⟨.log, logFile⟩ = some (.text data)) (reading sources content)
      (fun data => Lasting.get _ id _) ?_) (fun (data : Text) => ?_)
    · rintro w t data w' before ⟨found, rfl⟩
      exact ⟨rfl, found⟩
    have quiet := before_quiet config options watch rules nothing_scratch g
      ((reading sources content).and (Lasting.get ⟨.log, logFile⟩ id (.text data)))
    refine Discipline.Triple.bind ((lift_triple quiet.stable (readLog content data)).weaken (fun _ here => here)
      (fun _ _ here => here) (fun _ _ before => before.ended)) (fun content' => ?_)
    have next : ∀ c, (readLog content data = .ok content' ∧ Before ready watch g (fun w => Reading sources content w ∧
        w.get ⟨.log, logFile⟩ = some (.text data)) c) →
        Before ready watch g (Reading (sources ++ [(logFile, data)]) content') c := by
      rintro c ⟨success, before⟩
      refine before.imp ?_
      rintro ⟨⟨present, entries, read, rfl⟩, found⟩
      rw [readLog_eq] at success
      cases own : logEntries data with
      | error fault => simp [own, Functor.map, Except.map] at success
      | ok more =>
        rw [own] at success
        obtain rfl := Except.ok.inj success
        refine ⟨List.forall_mem_append.mpr ⟨present, by simpa using found⟩, entries ++ more, ?_, by simp⟩
        rw [List.map_append, List.map_singleton, readEntries_append, readEntries_single, read, own]
        rfl
    have names : (sources ++ [(logFile, data)]).map Prod.fst ++ rest = sources.map Prod.fst ++ logFile :: rest := by
      simp
    split
    · rename_i reached
      refine Discipline.Triple.pure (stable _ _ _)
        (fun c here => (next c here).imp (fun reading => ⟨reading, ?_, .inr ?_⟩))
      · rw [← names]
        exact List.prefix_append _ _
      · obtain ⟨entries, read, rfl⟩ := reading.entries
        refine ⟨entries, read, ?_⟩
        rwa [size_foldl {} entries, show ({} : LogContent).objects.size = 0 from rfl, Nat.zero_add] at reached
    · rw [← names]
      exact (ih content' (sources ++ [(logFile, data)])).before next

theorem stateWrite_triple {F : World → Prop} {path : Path} (inside : Scratch path) (lasting : Lasting (· = path) F)
    (state : State) (now : Timestamp) :
    (diffRules config options ready watch).Triple (Before ready watch g F) (state.write config path now)
      (fun _ => Before ready watch g (fun w => F w ∧ w.get path = some (.text (state.toText now))))
        (fun _ => Ended) := by
  have scratch : ∀ other, other = path → Scratch other := fun _ same => same ▸ inside
  have quiet := before_quiet config options watch rules scratch g lasting
  have idle : Lasting (fun _ => False) F := lasting.mono (fun _ none => none.elim)
  have holds (written : Text) : Lasting (fun _ => False) (fun w => F w ∧ w.get path = some (.text written)) :=
    idle.and (Lasting.get _ id _)
  have writing (written : Text) := before_quiet config options watch rules nothing_scratch g (holds written)
  have put {w : World} {t : Option Plan × γ} {written : Text} (before : Before ready watch g F (w, t)) :
      DiffMove config options ready watch (w, t) (w.put path (.text written), t) ∧
        Before ready watch g (fun w => F w ∧ w.get path = some (.text written)) (w.put path (.text written), t) := by
    have same := untouched_put w path (.text written)
    exact ⟨quiet.allowed _ _ t before same,
      (quiet.kept _ _ t before same).imp (fun fact => ⟨fact, World.get_put_self _ _ _⟩)⟩
  unfold State.write
  refine exclusive_triple rfl quiet.stable (writing []).stable ended_quiet.stable (fun w t before _ => ⟨t, put before⟩)
    (fun w t before => ⟨quiet.allowed _ _ t before (Untouched.refl _), before.ended⟩) (fun _ => rfl) (fun _ => ?_)
  refine synced_triple rfl (state.toText now) writing ended_quiet.stable (fun _ _ before => before.ended)
    (fun written c w t stored before found => ?_)
  obtain rfl : written = stored := Content.text.inj (Option.some.inj (before.fact.2.symm.trans found))
  exact ⟨t, put (before.imp And.left)⟩

private theorem getState_triple {F : World → Prop} (lasting : Lasting (fun _ => False) F) (timestamp : Timestamp) :
    (diffRules config options ready watch).Triple (Before ready watch g F) (getState config options timestamp)
      (fun state => Before ready watch g (fun w => F w ∧ (options.initState = 0 → Follows config w state)))
      (fun _ => Ended) := by
  have follows (state : State) :
      Lasting (fun _ => False) (fun w => F w ∧ (options.initState = 0 → Follows config w state)) :=
    lasting.and (Lasting.implies (fun _ => Lasting.follows id))
  have stable (state : State) := (before_quiet config options watch rules nothing_scratch g (follows state)).stable
  unfold getState
  split
  · rename_i given
    exact Discipline.Triple.pure (stable _)
      (fun _ before => before.imp (fun fact => ⟨fact, fun zero => absurd zero given⟩))
  · refine (scratch_unit rules nothing_scratch lasting requireStateFile_uses).bind (fun _ => ?_)
    refine Discipline.Triple.bind (learn_triple rules (.readFile stateFile)
      (fun (data : Text) w => w.get stateFile = some (.text data)) lasting (fun _ => Lasting.get _ id _) ?_)
      (fun (data : Text) => ?_)
    · rintro w t data w' before ⟨found, rfl⟩
      exact ⟨rfl, found⟩
    have read := before_quiet config options watch rules nothing_scratch g
      (lasting.and (Lasting.get stateFile id (.text data)))
    refine Discipline.Triple.bind ((lift_triple read.stable (State.parse (stateFile.text config) data)).weaken
      (fun _ here => here) (fun _ _ here => here) (fun _ _ before => before.ended)) (fun last => ?_)
    unfold nextState
    refine (Discipline.Triple.assert read.and_const.stable).bind (fun _ => ?_)
    refine Discipline.Triple.pure (stable _) ?_
    rintro c ⟨bound, parsed, before⟩
    exact before.imp (fun fact => ⟨fact.1, fun _ => ⟨data, last, fact.2, parsed, bound, rfl⟩⟩)

/-- What stands in `tmp_dir` and follows from it. -/
structure FilesWritten (config : Config) (options : CreateDiffOptions) (sources : List (Text × Text)) (state : State)
    (objects : DiffObjects) (stateText : Text) (w : World) : Prop where
  change : w.get newChangeFile = some (.osc sources (some objects))
  own : w.get newStateFile = some (.text stateText)
  copy : w.get newStateCopy = some (.text stateText)
  text : ∃ now, stateText = state.toText now
  number : options.initState = 0 → Follows config w state
  written : WrittenFrom sources objects

omit rules in
theorem FilesWritten.lasting (sources : List (Text × Text)) (state : State) (objects : DiffObjects)
    (stateText : Text) :
    Lasting (fun _ => False) (FilesWritten config options sources state objects stateText) := by
  have follows : Lasting (fun _ => False) (fun w => Follows config w state) := Lasting.follows id
  constructor
  · intro w w' change files
    exact ⟨change.kept _ _ files.change, change.kept _ _ files.own, change.kept _ _ files.copy, files.text,
      fun zero => follows.others change (files.number zero), files.written⟩
  · intro w w' same files
    exact ⟨(same.get _ id).trans files.change, (same.get _ id).trans files.own, (same.get _ id).trans files.copy,
      files.text, fun zero => follows.kept same (files.number zero), files.written⟩

/-- Closing the writer makes the change file complete. -/
private theorem closeWriter_triple {F : World → Prop} (lasting : Lasting Scratch F) {sources : List (Text × Text)}
    {objects : DiffObjects}
    {what : Text} :
    (diffRules config options ready watch).Triple (Before ready watch g F)
      (perform (.closeWriter newChangeFile sources objects) what)
      (fun _ => Before ready watch g (fun w => F w ∧ w.get newChangeFile = some (.osc sources (some objects))))
          (fun _ => Ended) := by
  have scratchChange : Scratch newChangeFile := .inl ⟨rfl, by decide⟩
  have quiet := before_quiet config options watch rules (fun _ inside => inside) g lasting
  have closed : Lasting (fun _ => False) (fun w => F w ∧ w.get newChangeFile = some (.osc sources (some objects))) :=
    (lasting.mono nothing_scratch).and (Lasting.get _ id _)
  apply perform_triple rfl quiet.stable
    (fun _ => (before_quiet config options watch rules nothing_scratch g closed).stable) ended_quiet.stable
  · rintro w t _ w' here rfl
    have same := (untouched_put w newChangeFile (.osc sources (some objects))).mono
      (fun _ same => same ▸ scratchChange)
    exact ⟨t, quiet.allowed _ _ t here same,
      (quiet.kept _ _ t here same).imp (fun fact => ⟨fact, World.get_put_self _ _ _⟩)⟩
  · exact fun w t here => ⟨quiet.allowed _ _ t here (Untouched.refl _), here.ended⟩

/-- The objects that are written come from the entries that were read. -/
private theorem written_triple {F : World → Prop} (lasting : Lasting Scratch F) {content : LogContent}
    {sources : List (Text × Text)} (reading : ∀ w, F w → Reading sources content w) (cucache : ChangesetUserLookup) :
    (diffRules config options ready watch).Triple (Before ready watch g F)
      (processTypes databaseQueries cucache content.objects.sort)
      (fun written => Before ready watch g (fun w => F w ∧ WrittenFrom sources written.1)) (fun _ => Ended) := by
  have before := before_quiet config options watch rules (fun _ inside => inside) g lasting
  refine (processTypes_triple rfl before content).weaken (fun _ here => here) (fun written c => ?_)
    (fun _ _ here => here.ended)
  rintro ⟨bounded, here⟩
  refine here.imp (fun fact => ⟨fact, ?_⟩)
  obtain ⟨entries, read, rfl⟩ := (reading c.1 fact).entries
  exact ⟨entries, read, fun type k => (bounded type k).trans (count_asked entries type k).le⟩

theorem writeFiles_triple {F : World → Prop} (lasting : Lasting Scratch F) {content : LogContent}
    {sources : List (Text × Text)} (reading : ∀ w, F w → Reading sources content w) :
    (diffRules config options ready watch).Triple (Before ready watch g F) (writeFiles config options content sources)
      (fun state => Before ready watch g (fun w => F w ∧
        ∃ objects stateText, FilesWritten config options sources state objects stateText w)) (fun _ => Ended) := by
  have scratchState : Scratch newStateFile := .inl ⟨rfl, by decide⟩
  have scratchCopy : Scratch newStateCopy := .inl ⟨rfl, by decide⟩
  have idle : Lasting (fun _ => False) F := lasting.mono nothing_scratch
  unfold writeFiles
  refine (scratch_triple rules (fun _ inside => inside) lasting (populate_uses content.cucache)).bind
    (fun cucache => ?_)
  refine Discipline.Triple.before ?_ (fun _ here => here.2)
  have opened : (perform (.openWriter newChangeFile) "Open failed".toList).Uses (Op.Local Scratch) (fun _ => True) :=
    perform_uses (.inl ⟨rfl, by decide⟩ : Scratch newChangeFile)
  refine (scratch_triple rules (fun _ inside => inside) lasting opened).bind (fun _ => ?_)
  refine Discipline.Triple.before ?_ (fun _ here => here.2)
  refine (written_triple rules lasting reading cucache).bind (fun written => ?_)
  obtain ⟨objects, maxTimestamp⟩ := written
  have known : Lasting Scratch (fun w => F w ∧ WrittenFrom sources objects) := lasting.and Lasting.const
  refine (scratch_unit rules (fun _ inside => inside) known (perform_uses trivial)).bind (fun _ => ?_)
  refine (closeWriter_triple rules known).bind (fun _ => ?_)
  have closed (touched : Path → Prop) (scratch : ∀ path, touched path → Scratch path)
    (outside : ¬ touched newChangeFile) :
      Lasting touched (fun w => (F w ∧ WrittenFrom sources objects) ∧
        w.get newChangeFile = some (.osc sources (some objects))) :=
    (known.mono scratch).and (Lasting.get _ outside _)
  refine (getState_triple rules (closed _ nothing_scratch id) maxTimestamp).bind (fun state => ?_)
  have numbered (touched : Path → Prop) (scratch : ∀ path, touched path → Scratch path)
      (outside : ¬ touched newChangeFile) : Lasting touched (fun w => ((F w ∧ WrittenFrom sources objects) ∧
        w.get newChangeFile = some (.osc sources (some objects))) ∧
          (options.initState = 0 → Follows config w state)) := by
    have notState : ¬ touched stateFile := by
      intro inside
      rcases scratch _ inside with ⟨tmp, _⟩ | run
      · cases tmp
      · cases run
    exact (closed touched scratch outside).and (Lasting.implies (fun _ => Lasting.follows notState))
  refine (scratch_triple rules nothing_scratch (numbered _ nothing_scratch id) commentTime_uses).bind (fun now => ?_)
  refine Discipline.Triple.before ?_ (fun _ here => here.2)
  refine (stateWrite_triple rules scratchState
    (numbered (· = newStateFile) (fun _ same => same ▸ scratchState) (by decide)) state now).bind (fun _ => ?_)
  refine (stateWrite_triple rules scratchCopy
    ((numbered (· = newStateCopy) (fun _ same => same ▸ scratchCopy) (by decide)).and
      (Lasting.get _ (by decide) _)) state now).bind (fun _ => ?_)
  refine Discipline.Triple.pure (before_quiet config options watch rules nothing_scratch g (idle.and (Lasting.some
    (fun objects => Lasting.some (fun stateText => FilesWritten.lasting sources state objects stateText))))).stable ?_
  intro c here
  refine here.imp ?_
  rintro ⟨⟨⟨⟨⟨fact, written⟩, change⟩, number⟩, own⟩, copy⟩
  exact ⟨fact, objects, state.toText now, change, own, copy, ⟨now, rfl⟩, number, written⟩

end Before

end Osmdbt
