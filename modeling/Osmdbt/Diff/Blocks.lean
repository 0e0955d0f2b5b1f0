import Osmdbt.Diff.Locked

/-! Runs of create-diff one after the other, each with its own limit: together they cut
the sorted list of log files into blocks. -/

namespace Osmdbt

open General

/-- The names of the log files in the order in which they are read. -/
def World.logs (w : World) : List Text := ((w.names .log).filter isLog).insertionSort (· ≤ ·)

section Logs

variable {w w' : World}

theorem World.mem_logs (w : World) (name : Text) : name ∈ w.logs ↔ isLog name = true ∧
    (w.get ⟨.log, name⟩).isSome := by
  rw [World.logs, (List.perm_insertionSort _ _).mem_iff, List.mem_filter, w.mem_names, and_comm]

theorem World.nodup_logs (w : World) : w.logs.Nodup :=
  (List.perm_insertionSort _ _).nodup_iff.mpr ((List.nodup_dedup _).filter _)

theorem World.found_logs {options : CreateDiffOptions} (all : options.logFileNames = []) (w : World) :
    Found options w ((w.names .log).filter isLog) := by
  refine ⟨fun given => absurd all given, fun _ => (List.nodup_dedup _).filter _, fun _ name => ?_⟩
  rw [List.mem_filter, w.mem_names, and_comm]

/-- The order of the names follows from which files there are. -/
theorem World.logs_unique {names : List Text} (sorted : names.Pairwise (· ≤ ·)) (distinct : names.Nodup)
    (complete : ∀ name, name ∈ names ↔ isLog name = true ∧ (w.get ⟨.log, name⟩).isSome) : w.logs = names := by
  have same : w.logs.Perm names := (List.perm_ext_iff_of_nodup w.nodup_logs distinct).mpr
    (fun name => (w.mem_logs name).trans (complete name).symm)
  have total : Std.Total (fun a b : Text => a ≤ b) := ⟨le_total⟩
  have transitive : IsTrans Text (fun a b => a ≤ b) := ⟨fun _ _ _ => le_trans⟩
  exact List.Perm.eq_of_pairwise (fun a b _ _ => le_antisymm) (List.pairwise_insertionSort _ _) sorted same

theorem World.pairwise_logs (w : World) : w.logs.Pairwise (· ≤ ·) := by
  have total : Std.Total (fun a b : Text => a ≤ b) := ⟨le_total⟩
  have transitive : IsTrans Text (fun a b => a ≤ b) := ⟨fun _ _ _ => le_trans⟩
  exact List.pairwise_insertionSort _ _

/-- The log files of a run that takes some. -/
theorem Taking.logs {options : CreateDiffOptions} {block : List (Text × Text)} {rest : List Text}
    (all : options.logFileNames = [])
    (taking : Taking options w block rest) : w.logs = block.map Prod.fst ++ rest := by
  obtain ⟨names, found, order⟩ := taking.order
  rw [order]
  exact (w.found_logs all).sorted found

/-- The log files are the same. -/
def SameLogs (w w' : World) : Prop := ∀ name, isLog name = true → w'.get ⟨.log, name⟩ = w.get ⟨.log, name⟩

theorem SameLogs.refl (w : World) : SameLogs w w := fun _ _ => rfl

theorem SameLogs.logs (same : SameLogs w w') : w'.logs = w.logs := by
  refine World.logs_unique w.pairwise_logs w.nodup_logs (fun name => ?_)
  rw [w.mem_logs]
  refine and_congr_right (fun log => ?_)
  rw [same name log]

/-- Every log file has an entry. -/
def Filled (w : World) : Prop :=
  ∀ name ∈ w.logs, ∀ data entries, w.get ⟨.log, name⟩ = some (.text data) →
    logEntries data = .ok entries → entries ≠ []

theorem Filled.fewer (filled : Filled w) (less : ∀ name ∈ w'.logs, name ∈ w.logs ∧
    w'.get ⟨.log, name⟩ = w.get ⟨.log, name⟩) :
    Filled w' := by
  intro name member data entries stored read
  obtain ⟨before, same⟩ := less name member
  exact filled name before data entries (same ▸ stored) read

theorem Filled.same (filled : Filled w) (same : SameLogs w w') : Filled w' :=
  filled.fewer (fun name member => ⟨same.logs ▸ member, same name ((w'.mem_logs name).mp member).1⟩)

end Logs

/-- A run of create-diff with what was there before and after it. -/
structure Round where
  options : CreateDiffOptions
  start : World
  last : World

/-- A real run on the log files it finds, which ends normally. -/
structure Round.Succeeds (config : Config) (round : Round) : Prop where
  real : round.options.dryRun = false
  all : round.options.logFileNames = []
  ends : Ends (createDiff config round.options) round.start (.ok ()) round.last

/-- The change file that was published is made from these log entries and no others. -/
def Round.Publishes (round : Round) (block : List (Text × Text)) (entries : List Osmobj) : Prop :=
  ∃ (wanted : Osmobjects) (state : State) (cucache : ChangesetUserLookup) (objects : DiffObjects) (w : World),
    (∀ type, (wanted.ofType type).Perm (entries.filter (fun obj => obj.type = type))) ∧ w.tables = round.start.tables ∧
      Ends (processTypes databaseQueries cucache wanted) w (.ok (objects, state.timestamp)) w ∧
      round.last.get state.changeFile = some (.osc block (some objects))

/-- The run takes a block of log files: the first ones, up to the one that exceeds the limit. -/
structure Round.Processes (config : Config) (block : List (Text × Text)) (round : Round) : Prop where
  succeeds : round.Succeeds config
  order : round.start.logs = block.map Prod.fst ++ round.last.logs
  nonempty : round.start.logs ≠ [] → block ≠ []
  present : Present round.start block
  moved : ∀ source ∈ block, round.last.get ⟨.log, source.1⟩ = none ∧
    round.last.get (doneFile source.1) = some (.text source.2)
  others : ∀ path, path.dir = .log → (∀ source ∈ block, path ≠ ⟨.log, source.1⟩ ∧ path ≠ doneFile source.1) →
    round.last.get path = round.start.get path
  cut : Cut round.options.maxChanges.toNat block round.last.logs
  publishes : block ≠ [] → ∃ entries, readEntries (block.map Prod.snd) = .ok entries ∧ round.Publishes block entries

section Round

variable {config : Config} {round : Round}

theorem wanted_perm (entries : List Osmobj) (type : ItemType) :
    ((entries.foldl LogContent.add {}).objects.sort.ofType type).Perm
      (entries.filter (fun obj => obj.type = type)) := by
  have sorted : ((entries.foldl LogContent.add {}).objects.sort.ofType type).Perm
      ((entries.foldl LogContent.add {}).objects.ofType type) := by
    cases type <;> exact List.perm_insertionSort _ _
  rw [ofType_foldl_add] at sorted
  cases type <;> exact sorted

/-- Files with entries have entries together. -/
private theorem readEntries_filled {w : World} (filled : Filled w) {block : List (Text × Text)}
    (some : block ≠ []) (present : Present w block)
    (logs : ∀ source ∈ block, source.1 ∈ w.logs) {entries : List Osmobj}
    (read : readEntries (block.map Prod.snd) = .ok entries) :
    entries ≠ [] := by
  obtain ⟨first, rest, rfl⟩ := List.exists_cons_of_ne_nil some
  obtain ⟨here, more, own, _, rfl⟩ := readEntries_first read
  have notEmpty := filled first.1 (logs first List.mem_cons_self) first.2 here
    (present first List.mem_cons_self) own
  exact fun none => notEmpty (List.append_eq_nil_iff.mp none).1

/-- A log file that is not in the block. -/
theorem not_in_block {block : List (Text × Text)} {name : Text} (log : isLog name = true)
    (notTaken : name ∉ block.map Prod.fst) :
    ∀ source ∈ block, (⟨.log, name⟩ : Path) ≠ ⟨.log, source.1⟩ ∧ ⟨.log, name⟩ ≠ doneFile source.1 := by
  refine fun source member => ⟨fun same => notTaken ?_, doneFile_ne log _⟩
  obtain rfl : name = source.1 := congrArg Path.name same
  exact List.mem_map_of_mem member

/-- Without log files nothing happens to them. -/
theorem Round.Succeeds.nothing (succeeds : round.Succeeds config) (found : Found round.options round.start [])
    (same : Untouched (PidFileOf config "osmdbt-create-diff".toList) round.start round.last) :
    round.Processes config [] := by
  have logs : SameLogs round.start round.last := fun name _ =>
    same.logs (fun path pid => by rw [pidFileOf_run path pid]; decide) name
  have empty : round.start.logs = [] := (round.start.found_logs succeeds.all).sorted found
  refine ⟨succeeds, by rw [logs.logs, empty]; rfl, fun some => absurd empty some, ?_, ?_,
    fun path log _ => ?_, ?_, fun wrong => absurd rfl wrong⟩
  · exact fun _ member => absurd member List.not_mem_nil
  · exact fun _ member => absurd member List.not_mem_nil
  · exact same.get path (fun pid => by rw [pidFileOf_run path pid] at log; cases log)
  · refine ⟨⟨[], rfl, Nat.zero_le _⟩, [], rfl, fun left => ?_⟩
    rw [logs.logs] at left
    exact absurd empty left

/-- The log files that are left when the first ones are gone. -/
theorem World.logs_left {w w' : World} {names rest : List Text} (order : w.logs = names ++ rest)
    (gone : ∀ name ∈ names, w'.get ⟨.log, name⟩ = none)
    (kept : ∀ name, isLog name = true → name ∉ names → w'.get ⟨.log, name⟩ = w.get ⟨.log, name⟩) : w'.logs = rest := by
  have distinct : (names ++ rest).Nodup := order ▸ w.nodup_logs
  refine World.logs_unique ?_ (List.nodup_append.mp distinct).2.1 (fun name => ?_)
  · exact (List.pairwise_append.mp (order ▸ w.pairwise_logs)).2.1
  constructor
  · intro member
    obtain ⟨log, stored⟩ := (w.mem_logs name).mp (order ▸ List.mem_append_right _ member)
    have notTaken : name ∉ names := fun taken => (List.nodup_append.mp distinct).2.2 name taken name member rfl
    exact ⟨log, (kept name log notTaken).symm ▸ stored⟩
  · rintro ⟨log, stored⟩
    by_cases taken : name ∈ names
    · rw [gone name taken] at stored
      cases stored
    · have there := (w.mem_logs name).mpr ⟨log, kept name log taken ▸ stored⟩
      rw [order] at there
      exact (List.mem_append.mp there).resolve_left taken

/-- A run that publishes renames the log files it read and leaves all others. -/
private theorem logs_renamed {options : CreateDiffOptions} {w w₁ w₂ w₃ w' : World} {block : List (Text × Text)}
    {rest : List Text} {entries : List Osmobj} {state : State} (all : options.logFileNames = [])
    (locking : Locking config options w block rest entries state w₁ w₂)
    (published : Ends (publish config state (block.map Prod.fst)) w₂ (.ok ()) w₃)
    (after : Untouched (PidFileOf config "osmdbt-create-diff".toList) w₃ w') :
    (∀ source ∈ block, w'.get ⟨.log, source.1⟩ = none ∧ w'.get (doneFile source.1) = some (.text source.2)) ∧
      ∀ path, path.dir = .log → (∀ source ∈ block, path ≠ ⟨.log, source.1⟩ ∧ path ≠ doneFile source.1) →
        w'.get path = w.get path := by
  have order := locking.taking.logs all
  have distinct : (block.map Prod.fst ++ rest).Nodup := order ▸ w.nodup_logs
  have logs : ∀ name ∈ block.map Prod.fst, isLog name = true := by
    intro name member
    exact ((w.mem_logs name).mp (order ▸ List.mem_append_left _ member)).1
  have before (name : Text) : w₂.get ⟨.log, name⟩ = w.get ⟨.log, name⟩ :=
    locking.untouched.logs (fun path own => scratch_not_log path (own_scratch path own)) name
  have last (name : Text) : w'.get ⟨.log, name⟩ = w₃.get ⟨.log, name⟩ :=
    after.logs (fun path pid => by rw [pidFileOf_run path pid]; decide) name
  obtain ⟨each, others⟩ := publish_logs (List.nodup_append.mp distinct).1 logs published
  constructor
  · intro source member
    obtain ⟨gone, done⟩ := each source.1 (List.mem_map_of_mem member)
    refine ⟨(last _).trans gone, (last _).trans (done.trans ((before _).trans ?_))⟩
    exact locking.taking.present source member
  · rintro ⟨dir, name⟩ log other
    obtain rfl : dir = .log := log
    refine (last name).trans ((others _ rfl (fun taken member => ?_)).trans (before name))
    obtain ⟨source, inside, rfl⟩ := List.mem_map.mp member
    exact other source inside

/-- A successful run takes a block. -/
theorem Round.Succeeds.processes (succeeds : round.Succeeds config) (filled : Filled round.start) :
    ∃ block, round.Processes config block := by
  rcases createDiff_parts (partwise_ends (.ok ())) succeeds.ends with
    ⟨_, ⟨_, wrong⟩ | dryRun | ⟨idle, same⟩⟩ | ⟨block, rest, entries, state, w₁, w₂, w₃, locking, published, after⟩
  · cases wrong
  · rw [succeeds.real] at dryRun
    cases dryRun
  · cases idle with
    | noFiles found => exact ⟨[], succeeds.nothing found same⟩
    | @noEntries block rest taking read =>
      have inside (source : Text × Text) (member : source ∈ block) : source.1 ∈ round.start.logs := by
        rw [taking.logs succeeds.all]
        exact List.mem_append_left _ (List.mem_map_of_mem member)
      exact absurd rfl (readEntries_filled filled taking.nonempty taking.present inside read)
  · have taking := locking.taking
    have order := taking.logs succeeds.all
    obtain ⟨moved, outside⟩ := logs_renamed succeeds.all locking published after
    have left : round.last.logs = rest := by
      refine World.logs_left order (fun name member => ?_)
        (fun name log notTaken => outside _ rfl (not_in_block log notTaken))
      obtain ⟨source, inside, rfl⟩ := List.mem_map.mp member
      exact (moved source inside).1
    obtain ⟨cucache, objects, w₄, tables, processed, change⟩ := (writeFiles_written locking.written).2
    have final : round.last.get state.changeFile = some (.osc block (some objects)) :=
      (after.get _ (fun pid => Dir.noConfusion (pidFileOf_run _ pid))).trans (publish_change change published)
    refine ⟨block, succeeds, left ▸ order, fun _ => taking.nonempty, taking.present, moved, outside,
      left ▸ taking.cut, fun _ => ?_⟩
    exact ⟨entries, locking.read, _, state, cucache, objects, w₄, wanted_perm entries,
      tables.trans locking.start.tables,
      processed, final⟩

end Round

/-- Runs one after the other; no log files appear or change in between. -/
def Successive (config : Config) : World → List Round → World → Prop
  | w, [], w' => SameLogs w w'
  | w, round :: rounds, w' => SameLogs w round.start ∧ round.Succeeds config ∧ Successive config round.last rounds w'

section Rounds

variable {config : Config} {rounds : List Round} {w w' : World}

theorem Round.Processes.filled {block : List (Text × Text)} {round : Round} (processes : round.Processes config block)
    (filled : Filled round.start) : Filled round.last := by
  refine filled.fewer (fun name member => ?_)
  have distinct : (block.map Prod.fst ++ round.last.logs).Nodup := processes.order ▸ round.start.nodup_logs
  have notTaken : name ∉ block.map Prod.fst := fun taken => (List.nodup_append.mp distinct).2.2 name
    taken name member rfl
  exact ⟨processes.order ▸ List.mem_append_right _ member,
    processes.others _ rfl (not_in_block ((round.last.mem_logs name).mp member).1 notTaken)⟩

/-- Successive runs process consecutive blocks of the sorted list of log files. -/
theorem createDiff_blocks (successive : Successive config w rounds w') (filled : Filled w) :
    ∃ blocks : List (List (Text × Text)), List.Forall₂ (Round.Processes config) blocks rounds ∧
      w.logs = blocks.flatten.map Prod.fst ++ w'.logs ∧ w.logs.Nodup ∧
        (w.logs.length ≤ rounds.length → w'.logs = []) := by
  induction rounds generalizing w with
  | nil =>
    refine ⟨[], .nil, successive.logs.symm, w.nodup_logs, fun enough => ?_⟩
    rw [successive.logs]
    exact List.length_eq_zero_iff.mp (Nat.le_zero.mp enough)
  | cons round rounds ih =>
    obtain ⟨same, succeeds, later⟩ := successive
    obtain ⟨block, processes⟩ := succeeds.processes (filled.same same)
    obtain ⟨blocks, each, order, _, finished⟩ := ih later (processes.filled (filled.same same))
    have first : w.logs = block.map Prod.fst ++ round.last.logs := same.logs ▸ processes.order
    refine ⟨block :: blocks, .cons processes each, ?_, w.nodup_logs, fun enough => ?_⟩
    · rw [first, order, List.flatten_cons, List.map_append, List.append_assoc]
    · refine finished ?_
      rw [first, List.length_append, List.length_map, List.length_cons] at enough
      by_cases none : round.start.logs = []
      · rw [same.logs] at none
        rw [first] at none
        rw [(List.append_eq_nil_iff.mp none).2]
        exact Nat.zero_le _
      · have some := List.length_pos_iff.mpr (processes.nonempty none)
        omega

end Rounds

def twoLogs : World := firstNode.put ⟨.log, "b.log".toList⟩ (.text "0/2 2 N n2 v1 c10\n".toList)

@[irreducible] def oneLogLeft : World := ((createDiff {} { maxChanges := 0 }).run World.serve twoLogs).2

@[irreducible] def noLogLeft : World := ((createDiff {} { maxChanges := 5 }).run World.serve oneLogLeft).2

private theorem oneLogLeft_ends : Ends (createDiff {} { maxChanges := 0 }) twoLogs (.ok ()) oneLogLeft := by
  unfold oneLogLeft
  exact ends_served (by decide +kernel)

private theorem noLogLeft_ends : Ends (createDiff {} { maxChanges := 5 }) oneLogLeft (.ok ()) noLogLeft := by
  unfold noLogLeft
  exact ends_served (by decide +kernel)

/-- The first run stops after the first file. -/
def firstRound : Round := ⟨{ maxChanges := 0 }, twoLogs, oneLogLeft⟩

/-- The second takes the rest. -/
def secondRound : Round := ⟨{ maxChanges := 5 }, oneLogLeft, noLogLeft⟩

theorem twoRounds_successive : Successive {} twoLogs [firstRound, secondRound] noLogLeft := by
  have first : firstRound.Succeeds {} := ⟨rfl, rfl, oneLogLeft_ends⟩
  have second : secondRound.Succeeds {} := ⟨rfl, rfl, noLogLeft_ends⟩
  exact ⟨SameLogs.refl firstRound.start, first, SameLogs.refl secondRound.start, second,
    SameLogs.refl secondRound.last⟩

/-- No entries can be read from the file. -/
def World.blank (w : World) (path : Path) : Bool :=
  match w.get path with
  | some (.text data) => (logEntries data).toOption = some []
  | _ => false

private theorem twoLogs_filled : Filled twoLogs := by
  intro name member data entries stored read
  have names : twoLogs.logs = ["a.log".toList, "b.log".toList] := by decide +kernel
  rw [names] at member
  have some : twoLogs.blank ⟨.log, name⟩ = false := by
    rcases List.mem_cons.mp member with rfl | other
    · decide +kernel
    · obtain rfl := List.mem_singleton.mp other
      decide +kernel
  rw [World.blank, stored] at some
  rintro rfl
  simp [read, Except.toOption] at some

theorem createDiff_blocks_two :
    ∃ blocks : List (List (Text × Text)), List.Forall₂ (Round.Processes {}) blocks [firstRound, secondRound] ∧
      twoLogs.logs = blocks.flatten.map Prod.fst ++ noLogLeft.logs ∧ twoLogs.logs.Nodup ∧
      (twoLogs.logs.length ≤ [firstRound, secondRound].length → noLogLeft.logs = []) :=
  createDiff_blocks twoRounds_successive twoLogs_filled

end Osmdbt
