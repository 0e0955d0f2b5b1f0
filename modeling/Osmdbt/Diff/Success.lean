import Osmdbt.Diff.Locked
import Osmdbt.Diff.NumberRange

/-! What a run of create-diff needs to publish: with no operation failing, rows that can
be converted and a state file, its change file comes into `changes_dir`. -/

namespace Osmdbt

open General

/-- The answer the tables give to a query. -/
def Database.ask (db : Database) (statement : Query) : Except Fault statement.Rows :=
  match db.answer statement with
  | some rows => .ok rows
  | none => .error (.systemError "query failed".toList)

def Database.queries (db : Database) : Queries (Except Fault) where
  changesetUsers cids := db.ask (.changesetUsers cids)
  tags type wanted := db.ask (.tags type wanted)
  wayNodes wanted := db.ask (.wayNodes wanted)
  members wanted := db.ask (.members wanted)
  nodes wanted := db.ask (.nodes wanted)
  ways wanted := db.ask (.ways wanted)
  relations wanted := db.ask (.relations wanted)

theorem Database.queries_answering (db : Database) : Answering db db.queries where
  changesetUsers cids := ⟨_, rfl, @Database.answers db (.changesetUsers cids) _ rfl⟩
  tags type asked := ⟨_, rfl, @Database.answers db (.tags type asked) _ rfl⟩
  wayNodes asked := ⟨_, rfl, @Database.answers db (.wayNodes asked) _ rfl⟩
  members asked := ⟨_, rfl, @Database.answers db (.members asked) _ rfl⟩
  nodes asked := ⟨_, rfl, @Database.answers db (.nodes asked) _ rfl⟩
  ways asked := ⟨_, rfl, @Database.answers db (.ways asked) _ rfl⟩
  relations asked := ⟨_, rfl, @Database.answers db (.relations asked) _ rfl⟩

section Served

variable {w : World}

theorem ends_ask (statement : Query) : Ends (askDatabase statement) w (w.tables.ask statement) w := by
  unfold Database.ask
  split
  · rename_i rows answer
    exact perform_ok.mpr ⟨Database.answers _ answer, rfl⟩
  · exact perform_ends.mpr (.inr ⟨trivial, rfl, rfl⟩)

/-- Parts that only ask follow each other as their results do. -/
theorem ends_bind_same {α β : Type} {program : Prog α} {value : Except Fault α} {next : α → Prog β}
    {after : α → Except Fault β}
    (first : Ends program w value w) (rest : ∀ a, Ends (next a) w (after a) w) :
    Ends (program >>= next) w (value >>= after) w := by
  cases value with
  | ok a => exact Program.ends_bind.mpr (.inl ⟨a, w, first, rest a⟩)
  | error fault => exact Program.ends_bind.mpr (.inr ⟨fault, rfl, first⟩)

private theorem ends_populate (cucache : ChangesetUserLookup) :
    Ends (populateChangesetCache databaseQueries cucache) w (populateChangesetCache w.tables.queries cucache) w := by
  unfold populateChangesetCache
  exact ends_bind_same (ends_ask _) (fun _ => Program.ends_lift.mpr ⟨rfl, rfl⟩)

variable (cucache : ChangesetUserLookup) (objs : List Osmobj) (ts : Timestamp)

private theorem ends_queryNodes : Ends (queryNodes databaseQueries cucache objs ts)
    w (queryNodes w.tables.queries cucache objs ts) w := by
  unfold queryNodes
  exact ends_bind_same (ends_ask _) (fun _ => ends_bind_same (ends_ask _) (fun _ => Program.ends_lift.mpr ⟨rfl, rfl⟩))

private theorem ends_queryWays : Ends (queryWays databaseQueries cucache objs ts)
    w (queryWays w.tables.queries cucache objs ts) w := by
  unfold queryWays
  exact ends_bind_same (ends_ask _) (fun _ => ends_bind_same (ends_ask _) (fun _ => ends_bind_same (ends_ask _)
    (fun _ => Program.ends_lift.mpr ⟨rfl, rfl⟩)))

private theorem ends_queryRelations :
    Ends (queryRelations databaseQueries cucache objs ts) w (queryRelations w.tables.queries cucache objs ts) w := by
  unfold queryRelations
  exact ends_bind_same (ends_ask _) (fun _ => ends_bind_same (ends_ask _) (fun _ => ends_bind_same (ends_ask _)
    (fun _ => Program.ends_lift.mpr ⟨rfl, rfl⟩)))

theorem ends_unlessEmpty {ω : Type} {process : Prog (List ω × Timestamp)} {value : Except Fault (List ω × Timestamp)}
    (ends : Ends process w value w) : Ends (unlessEmpty objs ts process) w (unlessEmpty objs ts value) w := by
  unfold unlessEmpty
  split
  · exact ⟨rfl, rfl⟩
  · exact ends

/-- The program computes from the tables what the same code computes from their answers. -/
private theorem ends_processTypes (objects : Osmobjects) :
    Ends (processTypes databaseQueries cucache objects) w (processTypes w.tables.queries cucache objects) w := by
  unfold processTypes
  refine ends_bind_same (ends_unlessEmpty _ _ (ends_queryNodes _ _ _)) (fun (_, _) => ?_)
  refine ends_bind_same (ends_unlessEmpty _ _ (ends_queryWays _ _ _)) (fun (_, _) => ?_)
  exact ends_bind_same (ends_unlessEmpty _ _ (ends_queryRelations _ _ _)) (fun (_, _) => ⟨rfl, rfl⟩)

end Served

/-- The rows and the state file of a run that can publish these entries. -/
structure Writable (config : Config) (entries : List Osmobj) (w : World) : Prop where
  keys : PrimaryKeys w.tables.toDatabase
  convertible : ∀ row ∈ changesetUsers w.tables.toDatabase, askedFor (entries.map Osmobj.cid) row → Convertible row
  attributable : ∀ obj ∈ entries, ∀ row ∈ w.tables.objects obj.type, row.key = obj.key → row.redactionId = none →
    0 ≤ row.changesetId.toInt ∧ row.changesetId.toInt < 2 ^ 32 ∧ UInt32.ofInt row.changesetId.toInt
      ∈ entries.map Osmobj.cid
  state : ∃ data last, w.get stateFile = some (.text data) ∧ State.parse (stateFile.text config) data = .ok last ∧
    last.sequenceNumber < 999999999
  fresh : w.get newStateFile = none ∧ w.get newStateCopy = none
  unlocked : w.get lockFile = none

section Files

variable {config : Config} {options : CreateDiffOptions} {w w' : World}

/-- Other files may change. -/
theorem Writable.untouched {entries : List Osmobj} {touched : Path → Prop} (writable : Writable config entries w)
    (same : Untouched touched w w')
    (outside : ∀ path, path = stateFile ∨ path = newStateFile ∨ path = newStateCopy ∨ path = lockFile →
      ¬ touched path) :
    Writable config entries w' := by
  obtain ⟨keys, convertible, attributable, ⟨data, last, stored, parsed⟩, ⟨own, copy⟩, unlocked⟩ := writable
  rw [← same.tables] at keys convertible attributable
  refine ⟨keys, convertible, attributable, ⟨data, last, ?_, parsed⟩, ⟨?_, ?_⟩, ?_⟩
  · rw [same.get _ (outside _ (.inl rfl)), stored]
  · rw [same.get _ (outside _ (.inr (.inl rfl))), own]
  · rw [same.get _ (outside _ (.inr (.inr (.inl rfl)))), copy]
  · rw [same.get _ (outside _ (.inr (.inr (.inr rfl)))), unlocked]

private theorem getState_does (first : options.initState = 0) {data : Text} {last : State}
    (stored : w.get stateFile = some (.text data))
    (parsed : State.parse (stateFile.text config) data = .ok last) (bound : last.sequenceNumber < 999999999)
    (timestamp : Timestamp) :
    Ends (getState config options timestamp) w (.ok ⟨last.sequenceNumber + 1, timestamp⟩) w := by
  have found : Ends (perform (.exists stateFile) "filesystem error".toList) w (.ok true) w :=
    perform_ok.mpr ⟨by rw [stored]; rfl, rfl⟩
  have required : Ends (requireStateFile config) w (.ok ()) w := Program.ends_bind_ok.mpr ⟨true, w, found, rfl, rfl⟩
  unfold getState
  rw [if_neg (not_not.mpr first)]
  refine Program.ends_bind_ok.mpr ⟨(), w, required, Program.ends_bind_ok.mpr
    ⟨data, w, perform_ok.mpr ⟨stored, rfl⟩, ?_⟩⟩
  refine Program.ends_bind_ok.mpr ⟨last, w, Program.ends_lift.mpr ⟨parsed.symm, rfl⟩, ?_⟩
  exact Program.ends_bind_ok.mpr ⟨(), w, Program.ends_assert.mpr ⟨bound, rfl, rfl⟩, rfl, rfl⟩

theorem stateWrite_does {path : Path} (free : w.get path = none) (state : State) (now : Timestamp) :
    ∃ w', Ends (state.write config path now) w (.ok ()) w' := by
  obtain ⟨w', written⟩ := writeSynced_does (state.toText now) (World.get_put_self w path (.text []))
  exact ⟨w', .ok (), _, ⟨free, rfl⟩, written⟩

private theorem processTypes_does {entries : List Osmobj} {cucache : ChangesetUserLookup}
    (writable : Writable config entries w)
    (filled : populateChangesetCache w.tables.queries (entries.foldl LogContent.add {}).cucache = .ok cucache) :
    ∃ result, Ends (processTypes databaseQueries cucache (entries.foldl LogContent.add {}).objects.sort)
        w (.ok result) w := by
  have answering := w.tables.queries_answering
  obtain ⟨result, success⟩ := (@processTypes_succeeds _ _ (entries.foldl LogContent.add {})
      w.tables.keys answering cucache).mpr (by
    intro type row member asked kept
    obtain ⟨obj, inside, rfl, same⟩ := (mem_wanted_sorted type row.key).mp asked
    obtain ⟨nonneg, small, known⟩ := writable.attributable obj inside row member same.symm kept
    refine ⟨nonneg, small, (populate_known answering writable.keys filled _).mpr ?_⟩
    rw [keys_foldl_add]
    exact .inr (List.mem_map.mp known))
  exact ⟨result, success ▸ ends_processTypes cucache _⟩

private theorem commentTime_does : ∃ now, Ends (commentTime options) w (.ok now) w := by
  by_cases comment : options.withComment = true
  · exact ⟨(0 : Timestamp), Program.ends_ite.mpr (.inl ⟨comment, perform_ok.mpr rfl⟩)⟩
  · exact ⟨0, Program.ends_ite.mpr (.inr ⟨comment, rfl, rfl⟩)⟩

/-- The files are written. -/
private theorem writeFiles_does (first : options.initState = 0) {entries : List Osmobj}
    (writable : Writable config entries w)
    (sources : List (Text × Text)) :
    ∃ state w', Ends (writeFiles config options (entries.foldl LogContent.add {}) sources) w (.ok state) w' := by
  obtain ⟨cucache, filled⟩ := (populate_succeeds w.tables.queries_answering).mpr
    (fun row member asked => writable.convertible row member ((askedFor_keys entries row).mp asked))
  have populated : Ends (populateChangesetCache databaseQueries (entries.foldl LogContent.add {}).cucache)
      w (.ok cucache) w :=
    filled ▸ ends_populate _
  have other : ∀ path, path = stateFile ∨ path = newStateFile ∨ path = newStateCopy ∨ path = lockFile →
      ¬ path = newChangeFile := by
    rintro _ (rfl | rfl | rfl | rfl) <;> decide
  have writable₁ : Writable config entries (w.put newChangeFile (.osc [] none)) :=
    writable.untouched (untouched_put _ _ _) other
  obtain ⟨⟨objects, last⟩, processed⟩ := processTypes_does writable₁ filled
  let w₂ := (w.put newChangeFile (.osc [] none)).put newChangeFile (.osc sources (some objects))
  have writable₂ : Writable config entries w₂ := writable₁.untouched (untouched_put _ _ _) other
  obtain ⟨data, read, stored, parsed, bound⟩ := writable₂.state
  obtain ⟨now, commented⟩ := @commentTime_does options w₂
  obtain ⟨w₃, own⟩ := @stateWrite_does config w₂ newStateFile writable₂.fresh.1 ⟨read.sequenceNumber + 1, last⟩ now
  have free : w₃.get newStateCopy = none := by
    rw [(stateWrite_ok own).2.2.get _ (by decide)]
    exact writable₂.fresh.2
  obtain ⟨w₄, copied⟩ := @stateWrite_does config w₃ newStateCopy free ⟨read.sequenceNumber + 1, last⟩ now
  have stated : Ends (getState config options last) w₂ (.ok ⟨read.sequenceNumber + 1, last⟩) w₂ :=
    getState_does first stored parsed bound last
  refine ⟨⟨read.sequenceNumber + 1, last⟩, w₄, ?_⟩
  refine Program.ends_bind_ok.mpr ⟨cucache, w, populated, Program.ends_bind_ok.mpr ⟨(), _, perform_ok.mpr rfl, ?_⟩⟩
  refine Program.ends_bind_ok.mpr ⟨(objects, last), _, processed, Program.ends_bind_ok.mpr
    ⟨(), _, perform_ok.mpr rfl, ?_⟩⟩
  refine Program.ends_bind_ok.mpr ⟨(), w₂, perform_ok.mpr rfl, Program.ends_bind_ok.mpr ⟨_, w₂, stated, ?_⟩⟩
  exact Program.ends_bind_ok.mpr ⟨now, w₂, commented, Program.ends_bind_ok.mpr ⟨(), w₃, own,
    Program.ends_bind_ok.mpr ⟨(), w₄, copied, rfl, rfl⟩⟩⟩

private theorem writeLockFile_does (free : w.get lockFile = none) (state : State) (logFiles : List Text) :
    ∃ w', Ends (writeLockFile config state logFiles) w (.ok ()) w' := by
  obtain ⟨w', written⟩ := @reliableWrite_does Step (fun _ _ _ _ done => done) _ lockFile []
    (lockFileText 1 state logFiles)
    (World.get_put_self w lockFile (.text []))
  have asked : Ends (perform Op.getpid []) (w.put lockFile (.text [])) (.ok (1 : Nat)) _ := perform_ok.mpr rfl
  have closed : Ends (reliableClose lockFile) w' (.ok ()) w' := perform_ok.mpr rfl
  have opened : Ends (exclWriteOpen lockFile) w (.ok (.ok ())) (w.put lockFile (.text [])) :=
    Program.ends_request.mpr ⟨.ok (), ⟨free, rfl⟩, rfl⟩
  exact ⟨w', Program.ends_bind_ok.mpr ⟨_, _, opened, Program.ends_bind_ok.mpr ⟨_, _, asked,
    Program.ends_bind_ok.mpr ⟨_, _, written, closed⟩⟩⟩⟩

/-- The change file comes into its place. -/
private theorem publish_visits {state : State} (small : state.sequenceNumber ≤ 999999999)
    (free : w.get lockFile = none) {content : Content}
    (stored : w.get newChangeFile = some content) (logFiles : List Text) :
    ∃ w', (publish config state logFiles).Visits Step w w' ∧ w'.wal = w.wal ∧
      w'.renames = w.renames ++ [⟨newChangeFile, state.changeFile, content, w.returned⟩] := by
  obtain ⟨w₁, locked⟩ := @writeLockFile_does config w free state logFiles
  have same : Untouched (· = lockFile) w w₁ := ends_untouched (writeLockFile_own state logFiles) locked
  have synced : Ends (syncDir config ⟨.tmp, []⟩) w₁ (.ok ()) w₁ := syncDir_does _
  have asserted : Ends (assertPath state) w₁ (.ok ()) w₁ :=
    Program.ends_assert.mpr ⟨paddedNumber_length.mpr small, rfl, rfl⟩
  have made : Ends (perform (.createDirectories ⟨.changes, state.dir2Path⟩) "cannot create directories".toList)
      w₁ (.ok ()) w₁ :=
    perform_ok.mpr rfl
  have there : w₁.get newChangeFile = some content := by
    rw [same.get _ (by decide), stored]
  have moved : Ends (perform (.rename newChangeFile state.changeFile) "cannot rename".toList) w₁ (.ok ())
      (w₁.rename newChangeFile state.changeFile content) := perform_ok.mpr ⟨content, there, rfl⟩
  refine ⟨w₁.rename newChangeFile state.changeFile content, ?_, same.wal, ?_⟩
  · unfold publish moveIntoPlace
    refine locked.then_visits (synced.then_visits (Program.Visits.bind ?_))
    exact asserted.then_visits (made.then_visits (moved.then_visits (.start _ _)))
  · simp only [World.rename, same.renames, same.returned]

end Files

/-- A run without failing operations publishes the log files it takes. -/
theorem createDiff_publishes {config : Config} {options : CreateDiffOptions} {w : World}
    {block : List (Text × Text)} {rest : List Text}
    {entries : List Osmobj} (free : config.runDir ≠ [] → w.get (pidPath "osmdbt-create-diff".toList) = none)
    (real : options.dryRun = false) (first : options.initState = 0) (taking : Taking options w block rest)
    (read : readEntries (block.map Prod.snd) = .ok entries) (some : entries ≠ [])
    (writable : Writable config entries w) :
    ∃ w', ∃ state : State, ∃ objects, (createDiff config options).Visits Step w w' ∧ w'.wal = w.wal ∧
      w'.renames = w.renames ++ [⟨newChangeFile, state.changeFile, .osc block (Option.some objects), w.returned⟩] := by
  obtain ⟨w₁, start, reach⟩ := @visits_diffFrom config options w block rest entries free taking read some
  have writable₁ : Writable config entries w₁ := by
    refine writable.untouched start (fun path own pid => ?_)
    have run := pidFileOf_run path pid
    rcases own with rfl | rfl | rfl | rfl <;> cases run
  obtain ⟨state, w₂, written⟩ := @writeFiles_does config options w₁ first entries writable₁ block
  obtain ⟨_, ⟨objects, change⟩, _, number, others, _⟩ := writeFiles_ok written
  obtain ⟨data, last, _, _, bound, next⟩ := number.2 first
  have unlocked : w₂.get lockFile = none := by
    rw [others.get lockFile (by unfold Made; decide), writable₁.unlocked]
  obtain ⟨w', visits, wal, renamed⟩ := @publish_visits config w₂ state (by omega) unlocked _ change
    (block.map Prod.fst)
  refine ⟨w', state, objects, reach w' (written.then_visits ?_), wal.trans (others.wal.trans start.wal), ?_⟩
  · rwa [if_neg (by rw [real]; decide)]
  · rw [renamed, others.renames, start.renames, others.returned, start.returned]

end Osmdbt
