import Osmdbt.General.PowerLoss
import Osmdbt.Diff.Locked
import Osmdbt.Diff.PathNames
import Osmdbt.Diff.StateFile

/-! Power losses during a run of create-diff: the entries of the directories beside the
files, and what `state.txt` needs in every state a power loss may leave behind. -/

namespace Osmdbt

open General

/-- What the entry of a directory names. -/
inductive Node where
  | directory
  | file (content : Content)
  deriving DecidableEq

/-- The entries of all directories; the key of an entry is where it leads to. -/
abbrev Entries := Path → Option Node
abbrev Directories := Storage Path Node

/-- The directory that holds the entry. -/
def Path.holder (path : Path) : Path := ⟨path.dir, directoryPart path.name⟩

/-- The directories on the way to a path, below the configured one. -/
def Path.above (path : Path) : List Path := (directoryParts path.name).map (Path.mk path.dir)

def World.entry (w : World) (path : Path) : Path × Option Node := (path, (w.get path).map Node.file)

/-- The updates of an operation that succeeds; `w` are the files afterwards. -/
def Op.updates (s : Directories) (w : World) : Op → List (Path × Option Node)
  | .openExcl path => [w.entry path]
  | .openWriter path => [w.entry path]
  | .unlink path => [w.entry path]
  | .rename oldName newName => [w.entry oldName, w.entry newName]
  | .createDirectories dir =>
    ((dir.above ++ [dir]).filter (fun path => (s.current path).isNone)).map (fun path => (path, some .directory))
  | _ => []

def Op.updated (s : Directories) (w : World) : Op → Directories
  | .fsyncDir dir => s.sync Path.holder dir
  | op => s.add (op.updates s w)

/-- `create_directories` fails when something else is in the way. -/
def Op.Made (s : Directories) : Op → Prop
  | .createDirectories dir => ∀ path ∈ dir.above ++ [dir], s.current path = some .directory
  | _ => True

/-- One operation on the files and on the entries of the directories. -/
def PowerStep (c : World × Directories) (op : Op) (reply : Reply op) (c' : World × Directories) : Prop :=
  Step c.1 op reply c'.1 ∧
    match reply with
    | .ok _ => c'.2 = op.updated c.2 c'.1 ∧ op.Made c'.2
    | .error _ => c'.2 = c.2

/-- Files and directories that are there before a run, all of them synced. -/
def prior (w : World) (dirs : List Path) : Directories where
  durable path := if path ∈ dirs then some .directory else (w.get path).map Node.file

def IsFile (entry : Option Node) : Prop := ∃ content, entry = some (.file content)

/-- A file that is reached from the configured directory. -/
def Reachable (entries : Entries) (path : Path) : Prop :=
  IsFile (entries path) ∧ ∀ directory ∈ path.above, entries directory = some .directory

/-- When `state.txt` holds the number, its files are reachable. -/
def Consistent (config : Config) (n : Nat) (entries : Entries) : Prop :=
  ∀ content, entries stateFile = some (.file content) → HoldsNumber config n content →
    Reachable entries (changeFileOf n) ∧ Reachable entries (ownFileOf n)

/-- The first-level directory of the number is there for certain when the second-level
directory is asked for. -/
def FirstLevelThere (n : Nat) (c : World × Directories) (op : Op) : Prop :=
  op = .createDirectories ⟨.changes, (State.mk n 0).dir2Path⟩ →
    c.2.Sure ⟨.changes, (State.mk n 0).dir1Path⟩ (· = some .directory)

/-- Whatever is lost, the file can be reached. -/
def SurelyReachable (s : Directories) (path : Path) : Prop :=
  s.Sure path IsFile ∧ ∀ directory ∈ path.above, s.Sure directory (· = some .directory)

/-- The files of the number are certain before `state.txt` may hold it. -/
def Guarded (config : Config) (n : Nat) (s : Directories) : Prop :=
  ∀ content, s.Possible stateFile (some (.file content)) → HoldsNumber config n content →
    ∀ path, FileOf n path → SurelyReachable s path

section Surviving

variable {config : Config} {n : Nat} {s : Directories} {w : World} {dirs : List Path} {entries : Entries} {path : Path}

theorem SurelyReachable.survives (reachable : SurelyReachable s path) (survives : s.Survives entries) :
    Reachable entries path :=
  ⟨reachable.1.survives survives, fun directory above => (reachable.2 directory above).survives survives⟩

theorem Guarded.survives (guarded : Guarded config n s) (survives : s.Survives entries) :
    Consistent config n entries := by
  intro content stored holds
  have certain := guarded content (stored ▸ survives.possible stateFile) holds
  exact ⟨(certain _ (.inl rfl)).survives survives, (certain _ (.inr rfl)).survives survives⟩

theorem prior_sure {holds : Option Node → Prop} (here : holds ((prior w dirs).durable path)) :
    (prior w dirs).Sure path holds := by
  rintro value (rfl | pending)
  · exact here
  · cases pending

private theorem prior_guarded (before : Consistent config n (prior w dirs).durable) :
    Guarded config n (prior w dirs) := by
  rintro content (stored | pending) holds path file
  · have both := before content stored.symm holds
    have reachable : Reachable (prior w dirs).durable path := by
      rcases file with rfl | rfl
      · exact both.1
      · exact both.2
    exact ⟨prior_sure reachable.1, fun directory above => prior_sure (reachable.2 directory above)⟩
  · cases pending

/-- Entries outside of `changes_dir`, and files with a number. -/
def HarmlessUpdate (update : Path × Option Node) : Prop :=
  update.1.dir ≠ .changes ∨ (∃ m, FileOf m update.1) ∧ IsFile update.2

/-- No directory on the way to a file with a number has a dot in its name. -/
theorem FileOf.above_plain {file directory : Path} (numbered : FileOf n file) (above : directory ∈ file.above) :
    '.' ∉ directory.name := by
  obtain ⟨part, member, rfl⟩ := List.mem_map.mp above
  rcases numbered with rfl | rfl
  · have member : part ∈ directoryParts ((State.mk n 0).path ++ (".osc".toList ++ ".gz".toList)) := by
      rw [← List.append_assoc]
      exact member
    exact State.parts_plain (by decide) member
  · exact State.parts_plain (by decide) member

theorem FileOf.dotted {path : Path} (file : FileOf n path) : '.' ∈ path.name := by
  rcases file with rfl | rfl <;>
    simp [changeFileOf, ownFileOf, State.changeFile, State.ownFile, State.oscPath, State.statePath]

theorem FileOf.above_dir {file directory : Path} (numbered : FileOf n file) (above : directory ∈ file.above) :
    directory.dir = .changes := by
  obtain ⟨part, _, rfl⟩ := List.mem_map.mp above
  exact numbered.dir

theorem HarmlessUpdate.not_plain {update : Path × Option Node} (harmless : HarmlessUpdate update) {directory : Path}
    (inside : directory.dir = .changes) (plain : '.' ∉ directory.name) : update.1 ≠ directory := by
  rintro rfl
  rcases harmless with outside | ⟨⟨m, other⟩, _⟩
  · exact outside inside
  · exact plain other.dotted

theorem HarmlessUpdate.not_above {update : Path × Option Node} (harmless : HarmlessUpdate update)
    {file directory : Path}
    (numbered : FileOf n file) (above : directory ∈ file.above) : update.1 ≠ directory :=
  harmless.not_plain (numbered.above_dir above) (numbered.above_plain above)

theorem SurelyReachable.add (reachable : SurelyReachable s path) (file : FileOf n path)
    {updates : List (Path × Option Node)}
    (harmless : ∀ update ∈ updates, HarmlessUpdate update) : SurelyReachable (s.add updates) path := by
  refine ⟨reachable.1.add (fun value member => ?_), fun directory above =>
    (reachable.2 directory above).add (fun value member => ?_)⟩
  · rcases harmless _ member with outside | ⟨_, stored⟩
    · exact absurd file.dir outside
    · exact stored
  · exact absurd rfl ((harmless _ member).not_above file above)

theorem Guarded.add (guarded : Guarded config n s) {updates : List (Path × Option Node)}
    (harmless : ∀ update ∈ updates, HarmlessUpdate update) : Guarded config n (s.add updates) := by
  intro content possible holds path file
  rcases possible.added with before | new
  · exact (guarded content before holds path file).add file harmless
  · rcases harmless _ new with outside | ⟨⟨m, other⟩, _⟩
    · exact absurd rfl outside
    · exact absurd rfl other.ne_stateFile

/-- A new directory is made where nothing is. -/
theorem mem_created {dir key : Path} {value : Option Node}
    (member : (key, value) ∈ (Op.createDirectories dir).updates s w) :
    s.current key = none ∧ value = some .directory := by
  obtain ⟨key', inside, same⟩ := List.mem_map.mp member
  obtain ⟨rfl, rfl⟩ := Prod.mk.inj same
  exact ⟨Option.isNone_iff_eq_none.mp (List.mem_filter.mp inside).2, rfl⟩

/-- What is certain is not in the way of a new directory. -/
theorem sure_created {key : Path} {holds : Option Node → Prop} (sure : s.Sure key holds) (some : ¬ holds none)
    (dir : Path) :
    ((Op.createDirectories dir).updated s w).Sure key holds := by
  refine Storage.Sure.add sure (fun value member => absurd sure.current ?_)
  rw [(mem_created member).1]
  exact some

theorem Guarded.create (guarded : Guarded config n s) (dir : Path) :
    Guarded config n ((Op.createDirectories dir).updated s w) := by
  intro content possible holds path file
  rcases Storage.Possible.added possible with before | new
  · obtain ⟨stored, above⟩ := guarded content before holds path file
    exact ⟨sure_created stored (fun none => by obtain ⟨_, wrong⟩ := none; cases wrong) dir,
      fun directory member => sure_created (above directory member) (Option.some_ne_none _).symm dir⟩
  · cases (mem_created new).2

theorem Guarded.sync (guarded : Guarded config n s) (dir : Path) : Guarded config n (s.sync Path.holder dir) := by
  intro content possible holds path file
  obtain ⟨stored, above⟩ := guarded content possible.synced holds path file
  exact ⟨stored.sync, fun directory member => (above directory member).sync⟩

end Surviving

/-- Operations that only put files with a number into `changes_dir`. -/
def Op.Harmless : Op → Prop
  | .openExcl path => path.dir ≠ .changes
  | .openWriter path => path.dir ≠ .changes
  | .unlink path => path.dir ≠ .changes
  | .rename oldName newName => oldName.dir ≠ .changes ∧ (newName.dir ≠ .changes ∨ ∃ m, FileOf m newName)
  | _ => True

instance : Looking Op.Harmless where
  looks op looks := by cases op <;> trivial

theorem Op.Writes.harmless {path : Path} (outside : path.dir ≠ .changes) {op : Op} (writes : op.Writes path) :
    op.Harmless := by
  cases writes with
  | openExcl => exact outside
  | write c => trivial

theorem MakeOp.harmless {op : Op} (makes : MakeOp op) : op.Harmless := by
  cases makes with
  | «open» => exact (by decide : newChangeFile.dir ≠ .changes)
  | close sources objects => trivial
  | state writes => exact writes.harmless (by decide)
  | copy writes => exact writes.harmless (by decide)

section Runs

variable {config : Config} {options : CreateDiffOptions} {n : Nat} {s : Directories} {c c' : World × Directories}

theorem harmless_elsewhere {w : World} {path : Path} (outside : path.dir ≠ .changes) :
    ∀ update ∈ [w.entry path], HarmlessUpdate update := by
  intro update member
  obtain rfl := List.mem_singleton.mp member
  exact .inl outside

theorem rename_harmless {oldName newName : Path} (harmless : (Op.rename oldName newName).Harmless)
    {w w' : World} {content : Content}
    (moved : w' = w.rename oldName newName content) :
    ∀ update ∈ [w'.entry oldName, w'.entry newName], HarmlessUpdate update := by
  intro update member
  obtain ⟨outside, target⟩ := harmless
  rcases List.mem_cons.mp member with rfl | member
  · exact .inl outside
  · obtain rfl := List.mem_singleton.mp member
    refine target.imp id (fun numbered => ⟨numbered, content, ?_⟩)
    rw [World.entry, moved, World.get_rename_new]
    rfl

/-- What a harmless operation does to the directories. -/
theorem PowerStep.harmless_cases {op : Op} {reply : Reply op} (harmless : op.Harmless)
    (done : PowerStep c op reply c') :
    (∃ dir, c'.2 = c.2.sync Path.holder dir) ∨ (∃ dir w, c'.2 = (Op.createDirectories dir).updated c.2 w) ∨
      ∃ updates, (∀ update ∈ updates, HarmlessUpdate update) ∧ c'.2 = c.2.add updates := by
  obtain ⟨step, rest⟩ := done
  cases reply with
  | error code => exact .inr (.inr ⟨[], (fun _ none => nomatch none), rest.trans (by simp [Storage.add])⟩)
  | ok value =>
    obtain ⟨updated, _⟩ := rest
    cases op with
    | fsyncDir dir => exact .inl ⟨dir, updated⟩
    | createDirectories dir => exact .inr (.inl ⟨dir, _, updated⟩)
    | openExcl path => exact .inr (.inr ⟨_, harmless_elsewhere harmless, updated⟩)
    | openWriter path => exact .inr (.inr ⟨_, harmless_elsewhere harmless, updated⟩)
    | unlink path => exact .inr (.inr ⟨_, harmless_elsewhere harmless, updated⟩)
    | rename oldName newName =>
      obtain ⟨content, _, moved⟩ := step
      exact .inr (.inr ⟨_, rename_harmless harmless moved, updated⟩)
    | _ => exact .inr (.inr ⟨[], (fun _ none => nomatch none), updated⟩)

/-- A harmless operation keeps the guard. -/
theorem Guarded.step {op : Op} {reply : Reply op} (guarded : Guarded config n c.2) (harmless : op.Harmless)
    (done : PowerStep c op reply c') : Guarded config n c'.2 := by
  rcases done.harmless_cases harmless with ⟨dir, same⟩ | ⟨dir, w, same⟩ | ⟨updates, each, same⟩
  · exact same ▸ guarded.sync dir
  · exact same ▸ guarded.create dir
  · exact same ▸ guarded.add each

/-- The steps of a run in which the first-level directory of the number is not made. -/
abbrev FirstLevelStep (n : Nat) (c : World × Directories) (op : Op) (reply : Reply op)
    (c' : World × Directories) : Prop :=
  PowerStep c op reply c' ∧ FirstLevelThere n c op

theorem visits_guarded {α : Type} {post : α → Prop} {program : Prog α} (uses : program.Uses Op.Harmless post)
    (visits : program.Visits (FirstLevelStep n) c c') (guarded : Guarded config n c.2) : Guarded config n c'.2 :=
  @Program.Visits.kept _ _ _ _ _ _ _ _ _ _ _ (fun c => Guarded config n c.2) uses visits
    (fun _ _ _ _ guarded harmless done => guarded.step harmless done.1) guarded

/-- The run on the files alone. -/
theorem ends_files {α : Type} {program : Prog α} {result : Except Fault α}
    (ends : program.Ends (FirstLevelStep n) c result c') : Ends program c.1 result c'.1 := by
  have each (c : World × Directories) (op : Op) (reply : Reply op) (c' : World × Directories) (w : World)
    (same : w = c.1)
    (_ : True) (done : FirstLevelStep n c op reply c') : ∃ w', Step w op reply w' ∧ w' = c'.1 := by
    subst same
    exact ⟨c'.1, done.1.1, rfl⟩
  obtain ⟨w', ran, rfl⟩ := ends.simulate program.uses_anything each rfl
  exact ran

/-- A run is stopped in its harmless first part, or comes to the next one. -/
theorem guarded_bind {α β : Type} {post : α → Prop} {program : Prog α} {next : α → Prog β}
    (uses : program.Uses Op.Harmless post)
    (guarded : Guarded config n c.2) (visits : (program >>= next).Visits (FirstLevelStep n) c c') :
    Guarded config n c'.2 ∨ ∃ value c₁, program.Ends (FirstLevelStep n) c (.ok value) c₁ ∧ Guarded config n c₁.2 ∧
      (next value).Visits (FirstLevelStep n) c₁ c' := by
  rcases Program.visits_bind visits with inside | ⟨value, c₁, ends, rest⟩
  · exact .inl (visits_guarded uses inside guarded)
  · exact .inr ⟨value, c₁, ends, visits_guarded uses ends.visits guarded, rest⟩

theorem change_harmless {state : State} : (Op.rename newChangeFile state.changeFile).Harmless :=
  ⟨by decide, .inr ⟨state.sequenceNumber, .inl rfl⟩⟩

theorem own_harmless {state : State} : (Op.rename newStateFile state.ownFile).Harmless :=
  ⟨by decide, .inr ⟨state.sequenceNumber, .inr rfl⟩⟩

theorem perform_updated {op : Op} {what : Text} {value : op.Value}
    (ends : (perform op what).Ends (FirstLevelStep n) c (.ok value) c') :
    Done c.1 op value c'.1 ∧ c'.2 = op.updated c.2 c'.1 ∧ op.Made c'.2 ∧ FirstLevelThere n c op := by
  obtain ⟨⟨done, updated, made⟩, there⟩ := perform_done ends
  exact ⟨done, updated, made, there⟩

theorem perform_visits {op : Op} {what : Text} (visits : (perform op what).Visits (FirstLevelStep n) c c') :
    c' = c ∨ ∃ reply, FirstLevelStep n c op reply c' := by
  rcases visits with same | ⟨reply, c₁, done, rest⟩
  · exact .inl same
  · refine .inr ⟨reply, ?_⟩
    have last : c' = c₁ := by cases reply <;> exact rest
    exact last ▸ done

theorem syncDir_updated {dir : Path} (ends : (syncDir config dir).Ends (FirstLevelStep n) c (.ok ()) c') :
    c'.1 = c.1 ∧ c'.2 = c.2.sync Path.holder dir := by
  obtain ⟨_, c₁, opened, rest⟩ := Program.ends_bind_ok.mp ends
  obtain ⟨_, c₂, synced, closed⟩ := Program.ends_bind_ok.mp rest
  obtain ⟨same₁, opened, _⟩ := perform_updated opened
  obtain ⟨same₂, synced, _⟩ := perform_updated synced
  obtain ⟨same₃, closed, _⟩ := perform_updated closed
  have unchanged (s : Directories) : s.add [] = s := by simp [Storage.add]
  have opened : c₁.2 = c.2.add [] := opened
  have synced : c₂.2 = c₁.2.sync Path.holder dir := synced
  have closed : c'.2 = c₂.2.add [] := closed
  refine ⟨same₃.trans (same₂.trans same₁), ?_⟩
  rw [closed, unchanged, synced, opened, unchanged]

/-- Two syncs make the files of a number certain, and the second-level directory. -/
private theorem synced_certain {state : State} (small : state.sequenceNumber ≤ 999999999) {s : Directories}
    (first : s.Sure ⟨.changes, state.dir1Path⟩ (· = some .directory))
    (second : s.current ⟨.changes, state.dir2Path⟩ = some .directory) {path : Path}
    (file : FileOf state.sequenceNumber path)
    (stored : IsFile (s.current path)) :
    SurelyReachable ((s.sync Path.holder ⟨.changes, state.dir2Path⟩).sync Path.holder ⟨.changes, state.dir1Path⟩)
        path := by
  obtain ⟨front, middle, back, grouped⟩ := State.grouped small
  obtain ⟨suffix, plain, rfl⟩ : ∃ suffix, '/' ∉ suffix ∧ path = ⟨.changes, state.path ++ suffix⟩ := by
    rcases file with rfl | rfl
    · exact ⟨".osc".toList ++ ".gz".toList, by decide, congrArg (Path.mk .changes) (List.append_assoc _ _ _)⟩
    · exact ⟨".state.txt".toList, by decide, rfl⟩
  have held : (⟨.changes, state.path ++ suffix⟩ : Path).holder = ⟨.changes, state.dir2Path⟩ :=
    congrArg (Path.mk .changes) (grouped.directory plain)
  have heldDir : (⟨.changes, state.dir2Path⟩ : Path).holder = ⟨.changes, state.dir1Path⟩ := by
    refine congrArg (Path.mk .changes) ?_
    rw [grouped.dir2, grouped.dir1]
    exact directoryPart_slash grouped.groups.2.1.plain front
  refine ⟨?_, fun directory above => ?_⟩
  · rw [← held]
    exact (Storage.sure_synced stored).sync
  · rw [Path.above, grouped.parts plain] at above
    rcases List.mem_cons.mp above with rfl | above
    · exact first.sync.sync
    · obtain rfl := List.mem_singleton.mp above
      rw [← heldDir]
      refine Storage.sure_synced ?_
      rw [Storage.current_sync]
      exact second

/-- The new `state.txt` is moved when the files of its number are certain. -/
theorem Guarded.copy {state : State} {now : Timestamp} (small : state.sequenceNumber ≤ 999999999)
    (guarded : Guarded config n c.2)
    (here : c.1.get newStateCopy = some (.text (state.toText now)))
    (certain : state.sequenceNumber = n → ∀ path, FileOf n path → SurelyReachable c.2 path)
    {reply : Reply (.rename newStateCopy stateFile)} (done : PowerStep c (.rename newStateCopy stateFile) reply c') :
    Guarded config n c'.2 := by
  obtain ⟨step, rest⟩ := done
  cases reply with
  | error code =>
    rw [show c'.2 = c.2 from rest]
    exact guarded
  | ok value =>
    obtain ⟨content, there, moved⟩ := step
    obtain rfl : content = .text (state.toText now) := Option.some.inj (there.symm.trans here)
    have updated : c'.2 = c.2.add [c'.1.entry newStateCopy, c'.1.entry stateFile] := rest.1
    have other {path key : Path} (file : FileOf n path) (inside : key = path ∨ key ∈ path.above) (value : Option Node)
        (member : (key, value) ∈ [c'.1.entry newStateCopy, c'.1.entry stateFile]) : False := by
      rcases List.mem_cons.mp member with same | member
      · obtain rfl : key = newStateCopy := congrArg Prod.fst same
        rcases inside with rfl | above
        · cases file.dir
        · cases file.above_dir above
      · obtain rfl : key = stateFile := congrArg Prod.fst (List.mem_singleton.mp member)
        rcases inside with rfl | above
        · exact file.ne_stateFile rfl
        · exact file.above_plain above (by decide)
    rw [updated]
    intro content possible holds path file
    have before : SurelyReachable c.2 path := by
      rcases possible.added with before | new
      · exact guarded content before holds path file
      rcases List.mem_cons.mp new with wrong | new
      · cases congrArg (fun update => update.1.dir) wrong
      · have same : some (Node.file content) = (c'.1.get stateFile).map Node.file :=
          congrArg Prod.snd (List.mem_singleton.mp new)
        rw [moved, World.get_rename_new] at same
        obtain rfl := Node.file.inj (Option.some.inj same)
        exact certain ((HoldsNumber.toText small now).unique holds) path file
    exact ⟨before.1.add (fun value member => (other file (.inl rfl) value member).elim),
      fun directory above => (before.2 directory above).add (fun value member =>
        (other file (.inr above) value member).elim)⟩

/-- What stands when `state.txt` may be replaced. -/
structure Synced (n : Nat) (state : State) (w : World) (c : World × Directories) : Prop where
  copy : c.1.get newStateCopy = w.get newStateCopy
  certain : state.sequenceNumber = n → ∀ path, FileOf n path → SurelyReachable c.2 path

theorem current_rename {w w' : World} {oldName newName : Path} {content : Content}
    (moved : w' = w.rename oldName newName content) :
    (s.add [w'.entry oldName, w'.entry newName]).current newName = some (.file content) := by
  have last : w'.entry newName = (newName, some (.file content)) := by
    rw [World.entry, moved, World.get_rename_new]
    rfl
  rw [Storage.current_add, last, List.foldl_cons, List.foldl_cons, List.foldl_nil, assign, Function.update_self]

section Moving

variable {state : State} {c₁ c₂ c₃ c₄ c₅ : World × Directories} {what what₁ what₂ : Text}

/-- The first moves and the two syncs, when none of them fails. -/
private theorem moved_synced (small : state.sequenceNumber ≤ 999999999)
    (made : (perform (.createDirectories ⟨.changes, state.dir2Path⟩) what).Ends (FirstLevelStep n) c (.ok ()) c₁)
    (change : (perform (.rename newChangeFile state.changeFile) what₁).Ends (FirstLevelStep n) c₁ (.ok ()) c₂)
    (own : (perform (.rename newStateFile state.ownFile) what₂).Ends (FirstLevelStep n) c₂ (.ok ()) c₃)
    (second : (syncDir config ⟨.changes, state.dir2Path⟩).Ends (FirstLevelStep n) c₃ (.ok ()) c₄)
    (first : (syncDir config ⟨.changes, state.dir1Path⟩).Ends (FirstLevelStep n) c₄ (.ok ()) c₅) :
        Synced n state c.1 c₅ := by
  obtain ⟨same₁, updated₁, there, firstLevel⟩ := perform_updated made
  obtain ⟨⟨changeContent, _, moved₁⟩, updated₂, _⟩ := perform_updated change
  obtain ⟨⟨ownContent, _, moved₂⟩, updated₃, _⟩ := perform_updated own
  obtain ⟨same₄, synced₄⟩ := syncDir_updated second
  obtain ⟨same₅, synced₅⟩ := syncDir_updated first
  have same₁ : c₁.1 = c.1 := same₁
  have updated₂ : c₂.2 = c₁.2.add [c₂.1.entry newChangeFile, c₂.1.entry state.changeFile] := updated₂
  have updated₃ : c₃.2 = c₂.2.add [c₃.1.entry newStateFile, c₃.1.entry state.ownFile] := updated₃
  constructor
  · rw [same₅, same₄, moved₂, World.get_rename_ne _ _ _ (by decide) (by rintro ⟨⟩), moved₁,
      World.get_rename_ne _ _ _ (by decide) (by rintro ⟨⟩), same₁]
  rintro rfl path file
  obtain ⟨front, middle, back, grouped⟩ := State.grouped small
  have above₁ : (⟨.changes, state.dir1Path⟩ : Path) ∈ state.ownFile.above := by
    rw [Path.above, State.ownFile, State.statePath, grouped.parts (by decide)]
    simp
  have above₂ : (⟨.changes, state.dir2Path⟩ : Path) ∈ state.ownFile.above := by
    rw [Path.above, State.ownFile, State.statePath, grouped.parts (by decide)]
    simp
  have number : FileOf state.sequenceNumber state.ownFile := .inr rfl
  have harmless₂ := rename_harmless change_harmless moved₁
  have harmless₃ := rename_harmless own_harmless moved₂
  rw [synced₅, synced₄]
  refine synced_certain small ?_ ?_ file ?_
  · have sure : c₁.2.Sure ⟨.changes, state.dir1Path⟩ (· = some .directory) := by
      rw [updated₁]
      exact sure_created (firstLevel rfl) (Option.some_ne_none _).symm _
    rw [updated₃, updated₂]
    refine (sure.add (fun value member => ?_)).add (fun value member => ?_)
    · exact absurd rfl ((harmless₂ _ member).not_above number above₁)
    · exact absurd rfl ((harmless₃ _ member).not_above number above₁)
  · rw [updated₃, Storage.current_add_other (fun update member => (harmless₃ update member).not_above
      number above₂), updated₂,
      Storage.current_add_other (fun update member => (harmless₂ update member).not_above number above₂)]
    exact there _ (List.mem_append_right _ List.mem_cons_self)
  · rcases file with rfl | rfl
    · refine ⟨changeContent, ?_⟩
      rw [updated₃, Storage.current_add_other (fun update member => ?_), updated₂]
      · exact current_rename moved₁
      · rcases List.mem_cons.mp member with rfl | member
        · rintro ⟨⟩
        · obtain rfl := List.mem_singleton.mp member
          exact Ne.symm (changeFileOf_ne_ownFileOf _ _)
    · refine ⟨ownContent, ?_⟩
      rw [updated₃]
      exact current_rename moved₂

end Moving

/-- The moves of a run: it is stopped before `state.txt` is replaced, or everything is synced. -/
theorem moveIntoPlace_guarded {state : State} {logFiles : List Text} {now : Timestamp}
    (here : c.1.get newStateCopy = some (.text (state.toText now))) (guarded : Guarded config n c.2)
    (visits : (moveIntoPlace config state logFiles).Visits (FirstLevelStep n) c c') : Guarded config n c'.2 := by
  unfold moveIntoPlace at visits
  rcases guarded_bind Program.Uses.assert guarded visits with stopped | ⟨_, c₀, asserted, _, visits₁⟩
  · exact stopped
  obtain ⟨nine, _, same⟩ := Program.ends_assert.mp asserted
  rw [same] at visits₁
  have small := paddedNumber_nine nine
  rcases guarded_bind (perform_uses (show (Op.createDirectories _).Harmless from trivial)) guarded visits₁ with
    stopped | ⟨_, c₁, made, guarded₁, visits₂⟩
  · exact stopped
  rcases guarded_bind (perform_uses change_harmless) guarded₁ visits₂ with stopped | ⟨_, c₂, change, guarded₂, visits₃⟩
  · exact stopped
  rcases guarded_bind (perform_uses own_harmless) guarded₂ visits₃ with stopped | ⟨_, c₃, own, guarded₃, visits₄⟩
  · exact stopped
  rcases guarded_bind (syncDir_uses config _) guarded₃ visits₄ with stopped | ⟨_, c₄, second, guarded₄, visits₅⟩
  · exact stopped
  rcases guarded_bind (syncDir_uses config _) guarded₄ visits₅ with stopped | ⟨_, c₅, first, guarded₅, visits₆⟩
  · exact stopped
  have synced : Synced n state c.1 c₅ := moved_synced small made change own second first
  have copied {c₆ : World × Directories} {reply : Reply (.rename newStateCopy stateFile)}
      (done : FirstLevelStep n c₅ (.rename newStateCopy stateFile) reply c₆) : Guarded config n c₆.2 :=
    guarded₅.copy small (synced.copy.trans here) synced.certain done.1
  have others : (syncDir config ⟨.changes, []⟩ >>= fun _ => logFiles.forM (fun logFile =>
      renameFile config ⟨.log, logFile⟩ ⟨.log, logFile ++ ".done".toList⟩) >>= fun _ => syncDir config ⟨.log, []⟩).Uses
      Op.Harmless (fun _ => True) := by
    refine (syncDir_uses config _).bind (fun _ _ => Program.Uses.bind (Program.Uses.forM (fun name _ => ?_))
      (fun _ _ => syncDir_uses config _))
    exact perform_uses ⟨(nomatch ·), .inl (nomatch ·)⟩
  rcases Program.visits_bind visits₆ with inside | ⟨_, c₆, moved, rest⟩
  · rcases perform_visits inside with rfl | ⟨reply, done⟩
    · exact guarded₅
    · exact copied done
  · exact visits_guarded others rest (copied (perform_done moved))

private theorem publish_guarded {state : State} {logFiles : List Text} {now : Timestamp}
    (here : c.1.get newStateCopy = some (.text (state.toText now))) (guarded : Guarded config n c.2)
    (visits : (publish config state logFiles).Visits (FirstLevelStep n) c c') : Guarded config n c'.2 := by
  unfold publish at visits
  have writes : (writeLockFile config state logFiles).Uses Op.Harmless (fun _ => True) :=
    writeLockFile_uses (fun _ writes => writes.harmless (by decide)) state logFiles
  rcases guarded_bind writes guarded visits with stopped | ⟨_, c₁, locked, guarded₁, visits₁⟩
  · exact stopped
  rcases guarded_bind (syncDir_uses config _) guarded₁ visits₁ with stopped | ⟨_, c₂, synced, guarded₂, visits₂⟩
  · exact stopped
  have copy : c₂.1.get newStateCopy = some (.text (state.toText now)) := by
    rw [(syncDir_updated synced).1, (ends_untouched (writeLockFile_own state logFiles) (ends_files locked)).get
      _ (by decide)]
    exact here
  have last : (unlink lockFile >>= fun _ => syncDir config ⟨.tmp, []⟩).Uses Op.Harmless (fun _ => True) :=
    (unlink_uses (by decide : lockFile.dir ≠ .changes)).bind (fun _ _ => syncDir_uses config _)
  rcases Program.visits_bind visits₂ with inside | ⟨_, c₃, moved, rest⟩
  · exact moveIntoPlace_guarded copy guarded₂ inside
  · exact visits_guarded last rest (moveIntoPlace_guarded copy guarded₂ moved.visits)

/-- A run under its pid file. -/
private theorem pidFile_guarded {name : Text} {body : Prog Unit}
    (inside : ∀ c c', Guarded config n c.2 → body.Visits (FirstLevelStep n) c c' → Guarded config n c'.2)
    (guarded : Guarded config n c.2) (visits : (pidFile config name body).Visits (FirstLevelStep n) c c') :
        Guarded config n c'.2 := by
  by_cases none : config.runDir = []
  · unfold pidFile at visits
    rw [if_pos (List.isEmpty_iff.mpr none)] at visits
    exact inside c c' guarded visits
  rw [pidFile_eq none] at visits
  have outside : (pidPath name).dir ≠ .changes := (nomatch ·)
  rcases guarded_bind (makePidFile_uses (fun _ writes => writes.harmless outside)) guarded visits with
    stopped | ⟨_, c₁, _, guarded₁, visits₁⟩
  · exact stopped
  rcases Program.visits_scope visits₁ with running | ⟨_, c₂, ran, cleaning⟩
  · exact inside c₁ c' guarded₁ running
  · exact visits_guarded (unlink_uses outside) cleaning (inside c₁ c₂ guarded₁ ran.visits)

private theorem createDiff_guarded (guarded : Guarded config n c.2)
    (visits : (createDiff config options).Visits (FirstLevelStep n) c c') : Guarded config n c'.2 := by
  refine pidFile_guarded (fun c c' guarded visits => ?_) guarded visits
  rcases guarded_bind findLogFiles_uses guarded visits with stopped | ⟨logFiles, c₁, _, guarded₁, visits₁⟩
  · exact stopped
  split at visits₁
  · obtain rfl : c' = c₁ := visits₁
    exact guarded₁
  rcases guarded_bind (look_uses (show Op.connect.Looks from trivial)) guarded₁ visits₁ with
    stopped | ⟨_, c₂, _, guarded₂, visits₂⟩
  · exact stopped
  rcases guarded_bind getDbVersion_uses guarded₂ visits₂ with stopped | ⟨_, c₃, _, guarded₃, visits₃⟩
  · exact stopped
  rcases guarded_bind (readLogFiles_uses {} [] _) guarded₃ visits₃ with
    stopped | ⟨⟨content, sources⟩, c₄, _, guarded₄, visits₄⟩
  · exact stopped
  change (if content.objects.isEmpty then pure () else diffFrom config options content sources).Visits _ _ _ at visits₄
  split at visits₄
  · obtain rfl : c' = c₄ := visits₄
    exact guarded₄
  rcases guarded_bind (writeFiles_uses (fun _ makes => makes.harmless) content sources) guarded₄ visits₄ with
    stopped | ⟨state, c₅, written, guarded₅, visits₅⟩
  · exact stopped
  split at visits₅
  · obtain rfl : c' = c₅ := visits₅
    exact guarded₅
  obtain ⟨now, _, copy⟩ := (writeFiles_ok (ends_files written)).states
  exact publish_guarded copy guarded₅ visits₅

/-- A run that does not have to make the first-level directory of a number publishes it safely: after a
power loss in any of its states, the files of the number are reachable when `state.txt` holds it. -/
theorem createDiff_powerLoss {w : World} {dirs : List Path} {entries : Entries}
    (before : Consistent config n (prior w dirs).durable)
    (visits : (createDiff config options).Visits (FirstLevelStep n) (w, prior w dirs) c)
    (survives : c.2.Survives entries) : Consistent config n entries :=
  (createDiff_guarded (prior_guarded before) visits).survives survives

theorem DiffRequest.harmless {op : Op} (request : DiffRequest options op) :
    op.Harmless ∨ op = .rename newStateCopy stateFile := by
  cases request with
  | look looks => exact .inl (Looking.looks op looks)
  | pid writes => exact .inl (writes.harmless (show Dir.run ≠ .changes by decide))
  | removePid => exact .inl (show Dir.run ≠ .changes by decide)
  | make makes => exact .inl makes.harmless
  | publish used logs =>
    cases used with
    | look looks => exact .inl (Looking.looks op looks)
    | lock writes => exact .inl (writes.harmless (by decide))
    | unlock => exact .inl (by decide : lockFile.dir ≠ .changes)
    | change => exact .inl change_harmless
    | own => exact .inl own_harmless
    | copy => exact .inr rfl
    | log member => exact .inl ⟨(show Dir.log ≠ .changes by decide), .inl (show Dir.log ≠ .changes by decide)⟩

/-- A directory without a dot in its name stays. -/
private theorem sure_directory {name : Text} (plain : '.' ∉ name) {op : Op} {reply : Reply op}
    (request : DiffRequest options op)
    (done : PowerStep c op reply c') (sure : c.2.Sure ⟨.changes, name⟩ (· = some .directory)) :
    c'.2.Sure ⟨.changes, name⟩ (· = some .directory) := by
  rcases request.harmless with harmless | rfl
  · rcases done.harmless_cases harmless with ⟨dir, same⟩ | ⟨dir, w, same⟩ | ⟨updates, each, same⟩
    · exact same ▸ sure.sync
    · exact same ▸ sure_created sure (Option.some_ne_none _).symm dir
    · rw [same]
      exact sure.add (fun value member => absurd rfl ((each _ member).not_plain rfl plain))
  · obtain ⟨step, rest⟩ := done
    cases reply with
    | error code =>
      rw [show c'.2 = c.2 from rest]
      exact sure
    | ok value =>
      have updated : c'.2 = c.2.add [c'.1.entry newStateCopy, c'.1.entry stateFile] := rest.1
      rw [updated]
      refine sure.add (fun value member => ?_)
      rcases List.mem_cons.mp member with same | member
      · cases congrArg (fun update => update.1.dir) same
      · obtain rfl : name = stateFile.name := congrArg (fun update => update.1.name) (List.mem_singleton.mp member)
        exact absurd (by decide) plain

/-- A run does not have to make a first-level directory that was there before. -/
theorem createDiff_firstLevel {w : World} {dirs : List Path}
    (there : (⟨.changes, (State.mk n 0).dir1Path⟩ : Path) ∈ dirs)
    (visits : (createDiff config options).Visits PowerStep (w, prior w dirs) c) :
    (createDiff config options).Visits (FirstLevelStep n) (w, prior w dirs) c := by
  have start : (prior w dirs).Sure ⟨.changes, (State.mk n 0).dir1Path⟩ (· = some .directory) :=
    prior_sure (if_pos there)
  have plain : '.' ∉ (State.mk n 0).dir1Path := fun dot => State.path_plain _ (List.mem_of_mem_take dot)
  exact @Program.Visits.within_kept _ _ _ _ _ _ _ _ _ _ _ _ (fun c => c.2.Sure ⟨.changes, (State.mk n 0).dir1Path⟩
    (· = some .directory))
    (createDiff_requests config options)
    (fun c op reply c' sure request done => ⟨⟨done, fun _ => sure⟩, sure_directory plain request done sure⟩)
      start visits

end Runs

instance (s : Directories) (op : Op) : Decidable (op.Made s) := by
  cases op <;> unfold Op.Made <;> infer_instance

/-- A system that does what it is asked for, and power that lasts. -/
def powerServe (c : World × Directories) (op : Op) : Reply op × (World × Directories) :=
  match c.1.serve op with
  | (.ok value, w) =>
    if op.Made (op.updated c.2 w) then (.ok value, (w, op.updated c.2 w)) else (.error .other, c)
  | (.error code, w) => (.error code, (w, c.2))

theorem powerServe_step (c : World × Directories) (op : Op) :
    PowerStep c op (powerServe c op).1 (powerServe c op).2 := by
  have served := c.1.serves op
  unfold powerServe
  revert served
  generalize c.1.serve op = answer
  intro served
  obtain ⟨_ | value, w⟩ := answer
  · exact ⟨served, rfl⟩
  · dsimp only
    split
    · rename_i made
      exact ⟨served, rfl, made⟩
    · rename_i fails
      have creates : ∃ dir, op = .createDirectories dir := by
        cases op <;> first | exact ⟨_, rfl⟩ | exact absurd trivial fails
      obtain ⟨dir, rfl⟩ := creates
      exact ⟨⟨trivial, rfl, fun _ wrong => nomatch wrong⟩, rfl⟩

/-- The directories of the first thousand diffs. -/
def firstDirs : List Path := [⟨.changes, "000".toList⟩, ⟨.changes, "000/000".toList⟩]

/-- A run is stopped when it has moved its eighth state to `state.txt`. -/
def eighthMoved : World × Directories := (createDiff {} {}).after powerServe 323 (firstNode, prior firstNode firstDirs)

/-- What `state.txt` says when nothing was published yet. -/
theorem consistent_numbered {w : World} {dirs : List Path} {config : Config} {n : Nat} {last : State} {data : Text}
    (stored : (prior w dirs).durable stateFile = some (.file (.text data)))
    (folded : (getlines data).foldlM (State.readLine (stateFile.text config))
      { sequenceNumber := 0, timestamp := 0 } = .ok last)
    (other : last.sequenceNumber ≠ n) : Consistent config n (prior w dirs).durable := by
  intro content here holds
  obtain rfl := Node.file.inj (Option.some.inj (here.symm.trans stored))
  exact absurd ((holdsNumber_text folded).mp holds) other

theorem createDiff_powerLoss_eighth : Consistent {} 8 eighthMoved.2.current := by
  have before : Consistent {} 8 (prior firstNode firstDirs).durable :=
    @consistent_numbered _ _ _ _ ⟨7, 1584541129⟩ "sequenceNumber=7\ntimestamp=2020-03-18T14\\:18\\:49Z\n".toList
      (by decide +kernel)
      (by decide +kernel) (by decide)
  have there : (⟨.changes, (State.mk 8 0).dir1Path⟩ : Path) ∈ firstDirs := by decide +kernel
  have visits : (createDiff {} {}).Visits (FirstLevelStep 8) (firstNode, prior firstNode firstDirs) eighthMoved :=
    createDiff_firstLevel there (Program.visits_after powerServe_step 323 _ _)
  exact createDiff_powerLoss before visits ⟨eighthMoved.2.pending, List.Sublist.refl _, rfl⟩

/-- The last diff below a million is published, and there is a log file with the first node. -/
def beforeMillion : World where
  files := [(⟨.log, "a.log".toList⟩, .text "0/1 1 N n1 v1 c10\n".toList),
    (stateFile, .text "sequenceNumber=999999\ntimestamp=2020-03-18T14\\:18\\:49Z\n".toList),
    (ownFileOf 999999, .text "sequenceNumber=999999\ntimestamp=2020-03-18T14\\:18\\:49Z\n".toList),
    (changeFileOf 999999, .osc [] (some {}))]
  tables := { twoNodes with keys := twoNodes_schema }

def thousandDirs : List Path := [⟨.changes, "000".toList⟩, ⟨.changes, "000/999".toList⟩]

/-- The run is stopped when it has moved the state of the millionth diff. -/
def millionMoved : World × Directories :=
  (createDiff {} {}).after powerServe 341 (beforeMillion, prior beforeMillion thousandDirs)

/-- The first-level directory is lost. -/
def millionLost : Entries := (millionMoved.2.pending.drop 3).foldl assign millionMoved.2.durable

def millionState : Text := "sequenceNumber=1000000\ntimestamp=1970-01-01T00\\:00\\:01Z\n".toList

private theorem millionLost_entries : millionLost stateFile = some (.file (.text millionState)) ∧
    millionLost ⟨.changes, "001".toList⟩ = none := by
  decide +kernel

/-- The power is lost before the directory that holds the new first-level directory is synced. -/
theorem createDiff_powerLoss_lost : ¬ ∀ (config : Config) (options : CreateDiffOptions) (w : World)
    (dirs : List Path) (n : Nat)
    (c : World × Directories) (entries : Entries), options.dryRun = false →
      Consistent config n (prior w dirs).durable →
    (createDiff config options).Visits PowerStep (w, prior w dirs) c → c.2.Survives entries →
        Consistent config n entries := by
  intro always
  have before : Consistent {} 1000000 (prior beforeMillion thousandDirs).durable :=
    @consistent_numbered _ _ _ _ ⟨999999, 1584541129⟩
      "sequenceNumber=999999\ntimestamp=2020-03-18T14\\:18\\:49Z\n".toList
      (by decide +kernel) (by decide +kernel) (by decide)
  have after : Consistent {} 1000000 millionLost := always {} {} beforeMillion thousandDirs 1000000 millionMoved _ rfl
    before (Program.visits_after powerServe_step 341 _ _) ⟨_, List.drop_sublist _ _, rfl⟩
  obtain ⟨stored, lost⟩ := millionLost_entries
  have number : (getlines millionState).foldlM (State.readLine (stateFile.text {}))
    { sequenceNumber := 0, timestamp := 0 } =
      .ok ⟨1000000, 1⟩ := by decide +kernel
  have above : (⟨.changes, "001".toList⟩ : Path) ∈ (changeFileOf 1000000).above := by decide +kernel
  have there := (after _ stored ((holdsNumber_text number).mpr rfl)).1.2 _ above
  rw [lost] at there
  cases there

end Osmdbt
