import Osmdbt.Diff.Rerun
import Osmdbt.Diff.Runs

/-! A left-over lock file: no later run moves anything, but a run that gets as far as
the change file overwrites it before it looks at the lock file. -/

namespace Osmdbt

open General

section Succeeding

variable {config : Config} {options : CreateDiffOptions} {w w' : World}

/-- The body runs when the pid file can be made. -/
private theorem pidFile_visits {α : Type} {name : Text} (free : config.runDir ≠ [] → w.get (pidPath name) = none) :
    ∃ w₁, Untouched (PidFileOf config name) w w₁ ∧
      ∀ (body : Prog α) w', body.Visits Step w₁ w' → (pidFile config name body).Visits Step w w' := by
  by_cases none : config.runDir = []
  · refine ⟨w, .refl w, fun body w' visits => ?_⟩
    unfold pidFile
    rwa [if_pos (List.isEmpty_iff.mpr none)]
  obtain ⟨w₁, made⟩ := @makePidFile_does Step (fun _ _ _ _ done => done) config name w (free none)
  have own : (makePidFile config name).Uses (Op.Local (· = pidPath name)) (fun _ => True) :=
    makePidFile_uses (fun _ writes => @Op.Writes.local (· = pidPath name) _ rfl _ writes)
  refine ⟨w₁, (ends_untouched own made).mono (fun _ here => ⟨none, here⟩), fun body w' visits => ?_⟩
  rw [pidFile_eq none]
  exact made.then_visits visits.scope

/-- Every name is found when listing succeeds. -/
private theorem findLogFiles_succeeds : ∃ names, Ends (findLogFiles options) w (.ok names) w := by
  unfold findLogFiles
  by_cases given : options.logFileNames.isEmpty = true
  · rw [if_pos given]
    have listed : Ends (perform (.list .log) "directory iterator cannot open directory".toList)
        w (.ok (w.names .log)) w :=
      perform_ok.mpr ⟨List.nodup_dedup _, w.mem_names .log, rfl⟩
    exact ⟨_, Program.ends_bind_ok.mpr ⟨_, w, listed, rfl, rfl⟩⟩
  · rw [if_neg given]
    exact ⟨_, rfl, rfl⟩

theorem getDbVersion_succeeds : ∃ version, Ends getDbVersion w (.ok version) w := by
  have answered : Ends (askDatabase .version) w (.ok ["PostgreSQL 14".toList]) w := perform_ok.mpr ⟨trivial, rfl⟩
  exact ⟨_, Program.ends_bind_ok.mpr ⟨_, w, answered, rfl, rfl⟩⟩

/-- A block that can be read is read. -/
private theorem readLogFiles_succeeds {content : LogContent} {sources block : List (Text × Text)} {rest : List Text}
    {entries : List Osmobj} (some : block ≠ []) (present : Present w block)
    (read : readEntries (block.map Prod.snd) = .ok entries)
    (before : ∀ few, readEntries (block.dropLast.map Prod.snd) = .ok few →
      content.objects.size + few.length ≤ options.maxChanges.toNat)
    (whole : rest ≠ [] → options.maxChanges.toNat < content.objects.size + entries.length) :
    Ends (readLogFiles config options content sources (block.map Prod.fst ++ rest)) w
      (.ok (entries.foldl LogContent.add content, sources ++ block)) w := by
  induction block generalizing content sources entries with
  | nil => exact absurd rfl some
  | cons source block ih =>
    obtain ⟨name, data⟩ := source
    obtain ⟨here, more, own, others, rfl⟩ := readEntries_first read
    have stored := present (name, data) List.mem_cons_self
    refine readLogFiles_cons.mpr ⟨data, here, stored, own, ?_⟩
    rw [List.foldl_append]
    by_cases last : block = []
    · subst last
      obtain rfl : [] = more := Except.ok.inj others
      rw [List.append_nil] at whole
      by_cases left : rest = []
      · subst left
        exact (lt_or_ge _ _).imp (fun exceeded => ⟨exceeded, rfl, rfl⟩) (fun below => ⟨below, rfl, rfl⟩)
      · exact .inl ⟨whole left, rfl, rfl⟩
    · rw [List.dropLast_cons_of_ne_nil last, List.map_cons] at before
      have fits {few : List Osmobj} (readFew : readEntries (block.dropLast.map Prod.snd) = .ok few) :
          content.objects.size + here.length + few.length ≤ options.maxChanges.toNat := by
        have both := before (here ++ few) (by rw [readEntries_cons, own, readFew]; rfl)
        rwa [List.length_append, ← Nat.add_assoc] at both
      have parts : block.map Prod.snd = block.dropLast.map Prod.snd ++ [(block.getLast last).2] := by
        conv_lhs => rw [← List.dropLast_append_getLast last, List.map_append]
        rfl
      have split := others
      rw [parts] at split
      obtain ⟨_, _, readFew, _, _⟩ := readEntries_split split
      have size := size_foldl content here
      have final : Ends (readLogFiles config options (here.foldl LogContent.add content) (sources ++ [(name, data)])
          (block.map Prod.fst ++ rest)) w
          (.ok (more.foldl LogContent.add (here.foldl LogContent.add content),
            (sources ++ [(name, data)]) ++ block)) w := by
        refine ih last (fun source member => present source (List.mem_cons_of_mem _ member)) others
          (fun few readFew => ?_) (fun left => ?_)
        · rw [size]
          exact fits readFew
        · have exceeds := whole left
          rw [List.length_append] at exceeds
          omega
      rw [List.append_assoc] at final
      exact .inr ⟨le_of_add_le_left (fits readFew), final⟩

end Succeeding

/-- Everything but the pid files is as before. -/
def Frozen (w w' : World) : Prop := ∀ path, path.dir ≠ .run → w'.get path = w.get path

/-- What brings a run to its change file when no operation fails: the pid file can be
made, and the log files have entries whose changesets have users it can convert. -/
structure Startable (config : Config) (options : CreateDiffOptions) (w : World) : Prop where
  free : config.runDir ≠ [] → w.get (pidPath "osmdbt-create-diff".toList) = none
  entries : ∃ block rest entries, Taking options w block rest ∧ readEntries (block.map Prod.snd) = .ok entries ∧
    entries ≠ [] ∧ ∀ row ∈ changesetUsers w.tables.toDatabase, askedFor (entries.map Osmobj.cid) row → Convertible row

section Locked

variable {config : Config} {options : CreateDiffOptions} {w w' : World}

theorem askedFor_keys (entries : List Osmobj) (row : ChangesetUser) :
    askedFor ((entries.foldl LogContent.add {}).cucache.map Prod.fst) row ↔ askedFor (entries.map Osmobj.cid) row := by
  have keys (cid : UInt32) : cid ∈ (entries.foldl LogContent.add {}).cucache.map Prod.fst ↔
      cid ∈ entries.map Osmobj.cid := by
    rw [keys_foldl_add]
    exact (or_iff_right List.not_mem_nil).trans List.mem_map.symm
  simp only [askedFor, keys]

/-- The changeset cache is filled unless a user of a changeset cannot be converted. -/
theorem populate_ends (cucache : ChangesetUserLookup) :
    (∃ filled w', Ends (populateChangesetCache databaseQueries cucache) w (.ok filled) w') ↔
      ∀ row ∈ changesetUsers w.tables.toDatabase, askedFor (cucache.map Prod.fst) row → Convertible row := by
  constructor
  · rintro ⟨filled, w', ends⟩ row member asked
    obtain ⟨(rows : List ChangesetUser), w₁, answered, lifted⟩ := Program.ends_bind_ok.mp ends
    obtain ⟨complete, rfl⟩ := perform_ok.mp answered
    obtain ⟨filling, _⟩ := Program.ends_lift.mp lifted
    refine (fillCache_succeeds cucache rows).mp ⟨filled, filling.symm⟩ row ?_
    exact complete.mem_iff.mpr (List.mem_filter.mpr ⟨member, decide_eq_true asked⟩)
  · intro convertible
    obtain ⟨filled, filling⟩ := (fillCache_succeeds cucache
      ((changesetUsers w.tables.toDatabase).filter (fun row => askedFor (cucache.map Prod.fst) row))).mpr
        (fun row member => by
        obtain ⟨inside, asked⟩ := List.mem_filter.mp member
        exact convertible row inside (of_decide_eq_true asked))
    have answered : Ends (askDatabase (.changesetUsers (cucache.map Prod.fst))) w (.ok _) w :=
      perform_ok.mpr ⟨List.Perm.refl _, rfl⟩
    exact ⟨filled, w, Program.ends_bind_ok.mpr ⟨_, w, answered, Program.ends_lift.mpr ⟨filling.symm, rfl⟩⟩⟩

/-- The publish section ends where it starts. -/
private theorem publish_locked {state : State} {logFiles : List Text} (locked : (w.get lockFile).isSome)
    (visits : (publish config state logFiles).Visits Step w w') : w' = w := by
  rcases visits with rfl | ⟨reply, w₁, done, rest⟩
  · rfl
  cases reply with
  | ok _ =>
    obtain ⟨free, _⟩ := done
    rw [free] at locked
    cases locked
  | error code =>
    obtain rfl : w₁ = w := done.2.1
    exact rest

/-- A run does not move anything. -/
private theorem createDiff_locked (locked : (w.get lockFile).isSome)
    (visits : (createDiff config options).Visits Step w w') :
    Untouched (Own config) w w' := by
  rcases createDiff_parts partwise_visits visits with ⟨same, _⟩ | ⟨_, _, _, _, _, w₂, w₃, locking, published, after⟩
  · exact same
  · have before := locking.untouched
    have held : lockFile.dir ≠ .run := by decide
    obtain rfl := publish_locked (before.get lockFile (fun own => lockFile_not_scratch (own_scratch _ own))
      ▸ locked) published
    exact before.trans (after.mono (fun _ pid => .inr pid))

/-- A run that is held up leaves everything as it was. -/
theorem createDiff_held (held : ¬ Startable config options w) (visits : (createDiff config options).Visits Step w w') :
    Untouched (PidFileOf config "osmdbt-create-diff".toList) w w' := by
  rcases createDiff_reaching partwise_visits visits with ⟨same, _⟩ | ⟨block, rest, entries, w₁, w₂,
    reaching, writing, after⟩
  · exact same
  have start := reaching.start
  unfold diffFrom writeFiles at writing
  rw [bind_assoc] at writing
  rcases partwise_visits.bind (populate_uses _) writing with ⟨filled, w₃, populated, _, _⟩ | ⟨_, same⟩
  · refine absurd ⟨reaching.free, block, rest, entries, reaching.taking, reaching.read, reaching.some, ?_⟩ held
    intro row member asked
    rw [← start.tables] at member
    exact (populate_ends _).mp ⟨filled, w₃, populated⟩ row member ((askedFor_keys entries row).mpr asked)
  · exact (start.trans same).trans after

/-- A run that takes entries gets as far as writing the diff. -/
theorem visits_diffFrom {block : List (Text × Text)} {rest : List Text} {entries : List Osmobj}
    (free : config.runDir ≠ [] → w.get (pidPath "osmdbt-create-diff".toList) = none)
    (taking : Taking options w block rest)
    (read : readEntries (block.map Prod.snd) = .ok entries) (some : entries ≠ []) :
    ∃ w₁, Untouched (PidFileOf config "osmdbt-create-diff".toList) w w₁ ∧
      ∀ w', (diffFrom config options (entries.foldl LogContent.add {}) block).Visits Step w₁ w' →
        (createDiff config options).Visits Step w w' := by
  obtain ⟨w₁, start, enter⟩ := @pidFile_visits config w Unit _ free
  have logs (name : Text) : w.get ⟨.log, name⟩ = w₁.get ⟨.log, name⟩ :=
    (start.logs (fun path pid => by rw [pidFileOf_run path pid]; decide) name).symm
  have taking : Taking options w₁ block rest := taking.same logs
  obtain ⟨names, finding⟩ := @findLogFiles_succeeds options w₁
  obtain ⟨names', found, order⟩ := taking.order
  have sorted : block.map Prod.fst ++ rest = names.insertionSort (· ≤ ·) :=
    order.trans (found.sorted (findLogFiles_ok finding).2)
  have notEmpty : ¬ names.isEmpty = true := by
    intro none
    rw [List.isEmpty_iff.mp none] at sorted
    exact taking.nonempty (List.map_eq_nil_iff.mp (List.append_eq_nil_iff.mp sorted).1)
  obtain ⟨version, versioned⟩ := @getDbVersion_succeeds w₁
  obtain ⟨few, readFew, fits⟩ := taking.cut.before
  obtain ⟨all, readAll, exceeds⟩ := taking.cut.whole
  obtain rfl : entries = all := Except.ok.inj (read.symm.trans readAll)
  have reading : Ends (readLogFiles config options {} [] (names.insertionSort (· ≤ ·))) w₁
      (.ok (entries.foldl LogContent.add {}, block)) w₁ := by
    rw [← sorted]
    refine readLogFiles_succeeds taking.nonempty taking.present read (fun few' readFew' => ?_) (fun left => ?_)
    · obtain rfl : few = few' := Except.ok.inj (readFew.symm.trans readFew')
      exact (Nat.zero_add _).trans_le fits
    · exact (exceeds left).trans_eq (Nat.zero_add _).symm
  have connected : Ends connect w₁ (.ok ()) w₁ := perform_ok.mpr rfl
  refine ⟨w₁, start, fun w' visits => enter _ _ (finding.then_visits ?_)⟩
  rw [if_neg notEmpty]
  refine connected.then_visits (versioned.then_visits (reading.then_visits ?_))
  change (if (entries.foldl LogContent.add {}).objects.isEmpty then pure () else
    diffFrom config options (entries.foldl LogContent.add {}) block : Prog Unit).Visits Step _ _
  rwa [if_neg (fun none => some ((isEmpty_foldl entries).mp none))]

/-- A run that is not held up comes to open the change file. -/
theorem Startable.opens (startable : Startable config options w) :
    ∃ w', (createDiff config options).Visits Step w w' ∧ w'.get newChangeFile = some (.osc [] none) := by
  obtain ⟨free, block, rest, entries, taking, read, some, convertible⟩ := startable
  obtain ⟨w₁, start, reach⟩ := @visits_diffFrom config options w block rest entries free taking read some
  obtain ⟨filled, w₂, populated⟩ := (populate_ends (entries.foldl LogContent.add {}).cucache).mpr
      (fun row member asked => by
    rw [start.tables] at member
    exact convertible row member ((askedFor_keys entries row).mp asked))
  have opened : Ends (perform (.openWriter newChangeFile) "Open failed".toList) w₂ (.ok ())
      (w₂.put newChangeFile (.osc [] none)) :=
    perform_ok.mpr rfl
  refine ⟨w₂.put newChangeFile (.osc [] none), reach _ ?_, World.get_put_self _ _ _⟩
  unfold diffFrom writeFiles
  exact (populated.then_visits (opened.then_visits (.start _ _))).bind

/-- With a lock file left over a run moves nothing, and it leaves every file but its pid
file as it was exactly when it does not come to open the change file. -/
theorem createDiff_locked_iff (locked : (w.get lockFile).isSome) :
    (∀ w', (createDiff config options).Visits Step w w' → Untouched (Own config) w w') ∧
      (¬ Startable config options w → ∀ w', (createDiff config options).Visits Step w w' → Frozen w w') ∧
      (Startable config options w → w.get newChangeFile ≠ some (.osc [] none) →
        ∃ w', (createDiff config options).Visits Step w w' ∧ ¬ Frozen w w') := by
  refine ⟨fun w' => createDiff_locked locked, fun held w' visits path outside => ?_, fun startable complete => ?_⟩
  · exact (createDiff_held held visits).get path (fun pid => outside (pidFileOf_run path pid))
  · obtain ⟨w', visits, opened⟩ := startable.opens
    refine ⟨w', visits, fun frozen => complete ?_⟩
    rw [← frozen newChangeFile (by decide), opened]

end Locked

/-- A system that cannot make any directory in `changes_dir`. -/
def World.serveFull (w : World) : (op : Op) → Reply op × World
  | .createDirectories _ => (.error .other, w)
  | op => w.serve op

theorem World.serveFull_serves (w : World) (op : Op) : Step w op (w.serveFull op).1 (w.serveFull op).2 := by
  cases op with
  | createDirectories dir => exact ⟨trivial, rfl, fun _ _ wrong => nomatch wrong⟩
  | _ => exact w.serves _

/-- The run on the first node fails there: its pid file is removed, and its lock file stays. -/
def failedLocked : World := ((createDiff {} {}).run World.serveFull firstNode).2

/-- A log file with the second node appears. -/
def secondNode : World := failedLocked.put ⟨.log, "b.log".toList⟩ (.text "0/2 2 N n2 v1 c10\n".toList)

private theorem firstNode_fails : Ends (createDiff {} {}) firstNode
    (.error (.systemError "cannot create directories".toList)) failedLocked :=
  Program.ends_run World.serveFull_serves (by decide +kernel)

theorem failedLocked_files : failedLocked.get ⟨.log, "b.log".toList⟩ = none ∧
    failedLocked.get (doneFile "b.log".toList) = none ∧ (failedLocked.get lockFile).isSome := by
  decide +kernel

private theorem secondNode_reached : DiffRuns {} (fun _ => True) (firstNode, none) (secondNode, none) := by
  refine (firstNode_runs trivial firstNode_fails.visits).tail (.env ?_)
  exact .logFile _ _ _ (by decide) failedLocked_files.1 failedLocked_files.2.1

theorem secondNode_locked : (secondNode.get lockFile).isSome := by
  rw [secondNode, World.get_put_ne _ _ _ (by rintro ⟨⟩)]
  exact failedLocked_files.2.2

/-- What the run after that leaves behind: it fails, and the change file has changed. -/
def overwritten : World := ((createDiff {} {}).run World.serve secondNode).2

theorem secondNode_overwritten : Ends (createDiff {} {}) secondNode
      (.error (.systemError "Can not create state file '/tmp/new-state.txt'.".toList)) overwritten ∧
    overwritten.get newChangeFile ≠ secondNode.get newChangeFile :=
  ⟨ends_served (by decide +kernel), by decide +kernel⟩

private theorem secondNode_startable : Startable {} {} secondNode := by
  by_contra held
  obtain ⟨ends, changed⟩ := secondNode_overwritten
  refine changed ((createDiff_held held ends.visits).get newChangeFile (fun pid => ?_))
  cases pidFileOf_run _ pid

theorem createDiff_locked_iff_second :
    (∀ w', (createDiff {} {}).Visits Step secondNode w' → Untouched (Own {}) secondNode w') ∧
      ∃ w', (createDiff {} {}).Visits Step secondNode w' ∧ ¬ Frozen secondNode w' := by
  obtain ⟨own, _, overwrites⟩ := @createDiff_locked_iff {} {} secondNode secondNode_locked
  exact ⟨own, overwrites secondNode_startable (by decide +kernel)⟩

/-- The change file of a failed publication is gone after the next run. -/
theorem createDiff_locked_fails : ¬ ∀ (config : Config) (options : CreateDiffOptions) (w₀ w w' : World)
    (result : Except Fault Unit), Clean w₀ → DiffRuns config (fun _ => True) (w₀, none) (w, none) →
    (w.get lockFile).isSome → options.dryRun = false → Ends (createDiff config options) w result w' → Frozen w w' := by
  intro frozen
  have clean : Clean firstNode := by
    refine ⟨?_, by decide⟩
    rintro path (rfl | rfl | rfl) <;> decide
  obtain ⟨ends, changed⟩ := secondNode_overwritten
  exact changed (frozen _ _ _ _ _ _ clean secondNode_reached secondNode_locked rfl ends newChangeFile (by decide))

end Osmdbt
