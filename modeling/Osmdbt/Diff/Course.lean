import Osmdbt.Diff.Results

/-! The course of one run of create-diff: up to the lock file it only works on files of
its own, and behind it stands what was prepared from the log files that were taken. -/

namespace Osmdbt

open General

section Taken

variable {options : CreateDiffOptions} {w : World}

theorem readEntries_split {front back : List Text} {entries : List Osmobj}
    (read : readEntries (front ++ back) = .ok entries) :
    ∃ first second, readEntries front = .ok first ∧ readEntries back = .ok second ∧ entries = first ++ second := by
  rw [readEntries_append] at read
  cases readFront : readEntries front with
  | error fault =>
    rw [readFront] at read
    cases read
  | ok first =>
    cases readBack : readEntries back with
    | error fault =>
      rw [readFront, readBack] at read
      cases read
    | ok second =>
      rw [readFront, readBack] at read
      exact ⟨first, second, rfl, rfl, (Except.ok.inj read).symm⟩

theorem readEntries_first {file : Text} {files : List Text} {entries : List Osmobj}
    (read : readEntries (file :: files) = .ok entries) :
    ∃ here more, logEntries file = .ok here ∧ readEntries files = .ok more ∧ entries = here ++ more := by
  obtain ⟨here, more, first, rest, both⟩ := readEntries_split (show readEntries ([file] ++ files) =
    .ok entries from read)
  exact ⟨here, more, (readEntries_single file).symm.trans first, rest, both⟩

/-- A block that stops earlier would have exceeded the limit before. -/
theorem Cut.not_shorter {limit : Nat} {block more : List (Text × Text)} {rest rest' : List Text}
    (short : Cut limit block rest)
    (long : Cut limit (block ++ more) rest') (left : rest ≠ []) : more = [] := by
  by_contra some
  obtain ⟨entries, read, exceeds⟩ := short.whole
  obtain ⟨before, readBefore, fits⟩ := long.before
  rw [List.dropLast_append_of_ne_nil some, List.map_append] at readBefore
  obtain ⟨first, second, readFirst, _, rfl⟩ := readEntries_split readBefore
  obtain rfl : entries = first := Except.ok.inj (read.symm.trans readFirst)
  have exceeded := exceeds left
  rw [List.length_append] at fits
  omega

/-- A log file with what is stored in it. -/
def World.logFile (w : World) (name : Text) : Text × Text :=
  match w.get ⟨.log, name⟩ with
  | some (.text data) => (name, data)
  | _ => (name, [])

theorem Present.eq_map {block : List (Text × Text)} (present : Present w block) :
    block = (block.map Prod.fst).map w.logFile := by
  rw [List.map_map]
  conv_lhs => rw [← List.map_id block]
  refine List.map_congr_left (fun source member => ?_)
  have stored := present source member
  simp only [id, Function.comp, World.logFile, stored]

theorem Taking.longer {block block' : List (Text × Text)} {rest rest' more : List Text}
    (taking : Taking options w block rest)
    (taking' : Taking options w block' rest') (names : block'.map Prod.fst = block.map Prod.fst ++ more)
    (left : rest = more ++ rest') : block = block' ∧ rest = rest' := by
  have split : block' = block ++ more.map w.logFile := by
    rw [taking'.present.eq_map, names, List.map_append, ← taking.present.eq_map]
  have none : more = [] := by
    by_contra some
    have cut : Cut options.maxChanges.toNat (block ++ more.map w.logFile) rest' := split ▸ taking'.cut
    exact some (List.map_eq_nil_iff.mp (taking.cut.not_shorter cut (by rw [left]; simp [some])))
  rw [none] at split left
  exact ⟨by simpa using split.symm, by simpa using left⟩

/-- The order in which the files are read follows from the files in `log_dir`. -/
theorem Found.sorted {names names' : List Text} (found : Found options w names) (found' : Found options w names') :
    names.insertionSort (· ≤ ·) = names'.insertionSort (· ≤ ·) := by
  by_cases given : options.logFileNames = []
  · have same : names.Perm names' := (List.perm_ext_iff_of_nodup (found.nodup given) (found'.nodup given)).mpr
      (fun name => (found.logs given name).trans (found'.logs given name).symm)
    have total : Std.Total (fun a b : Text => a ≤ b) := ⟨le_total⟩
    have transitive : IsTrans Text (fun a b => a ≤ b) := ⟨fun _ _ _ => le_trans⟩
    refine List.Perm.eq_of_pairwise (fun a b _ _ => le_antisymm) (List.pairwise_insertionSort _ _)
      (List.pairwise_insertionSort _ _) ?_
    exact ((List.perm_insertionSort _ names).trans same).trans (List.perm_insertionSort _ names').symm
  · rw [found.given given, found'.given given]

/-- The block and what is left for later runs follow from the files in `log_dir`. -/
theorem Taking.unique {block block' : List (Text × Text)} {rest rest' : List Text}
    (taking : Taking options w block rest)
    (taking' : Taking options w block' rest') : block = block' ∧ rest = rest' := by
  obtain ⟨names, found, order⟩ := taking.order
  obtain ⟨names', found', order'⟩ := taking'.order
  have together : block.map Prod.fst ++ rest = block'.map Prod.fst ++ rest' :=
    order.trans ((found.sorted found').trans order'.symm)
  rcases List.append_eq_append_iff.mp together with ⟨more, longer, left⟩ | ⟨more, longer, left⟩
  · exact taking.longer taking' longer left
  · obtain ⟨same, equal⟩ := taking'.longer taking longer left
    exact ⟨same.symm, equal.symm⟩

theorem Found.same {w₁ : World} {names : List Text} (found : Found options w₁ names)
    (logs : ∀ name, w₁.get ⟨.log, name⟩ = w.get ⟨.log, name⟩) : Found options w names :=
  ⟨found.given, found.nodup, fun given name => logs name ▸ found.logs given name⟩

/-- Only the files in `log_dir` matter. -/
theorem Taking.same {w₁ : World} {block : List (Text × Text)} {rest : List Text}
    (taking : Taking options w₁ block rest)
    (logs : ∀ name, w₁.get ⟨.log, name⟩ = w.get ⟨.log, name⟩) : Taking options w block rest := by
  obtain ⟨names, found, order⟩ := taking.order
  refine ⟨⟨names, found.same logs, order⟩, fun source member => ?_, taking.cut, taking.nonempty⟩
  rw [← logs source.1]
  exact taking.present source member

end Taken

/-- The pid file and the files in `tmp_dir`. -/
def Own (config : Config) (path : Path) : Prop := Made path ∨ PidFileOf config "osmdbt-create-diff".toList path

/-- What stands when a run comes to the publish section. -/
structure Locking (config : Config) (options : CreateDiffOptions) (w : World) (block : List (Text × Text))
    (rest : List Text) (entries : List Osmobj) (state : State) (w₁ w₂ : World) : Prop where
  free : config.runDir ≠ [] → w.get (pidPath "osmdbt-create-diff".toList) = none
  start : Untouched (PidFileOf config "osmdbt-create-diff".toList) w w₁
  taking : Taking options w block rest
  read : readEntries (block.map Prod.snd) = .ok entries
  some : entries ≠ []
  written : Ends (writeFiles config options (entries.foldl LogContent.add {}) block) w₁ (.ok state) w₂
  real : options.dryRun = false

/-- Why a run has nothing to do. -/
inductive Idle (options : CreateDiffOptions) (w : World) : Prop where
  | noFiles (found : Found options w [])
  | noEntries {block : List (Text × Text)} {rest : List Text} (taking : Taking options w block rest)
      (read : readEntries (block.map Prod.snd) = .ok [])

/-- A run that takes entries has something to do. -/
theorem Idle.not_taking {options : CreateDiffOptions} {w : World} (idle : Idle options w)
    {block : List (Text × Text)} {rest : List Text}
    {entries : List Osmobj} (taking : Taking options w block rest)
    (read : readEntries (block.map Prod.snd) = .ok entries) :
    entries = [] := by
  cases idle with
  | noFiles found =>
    obtain ⟨names, found', order⟩ := taking.order
    have none : names = [] := by
      by_cases given : options.logFileNames = []
      · refine List.eq_nil_iff_forall_not_mem.mpr (fun name member => ?_)
        exact List.not_mem_nil ((found.logs given name).mpr ((found'.logs given name).mp member))
      · rw [found'.given given, ← found.given given]
    rw [none] at order
    exact absurd (List.map_eq_nil_iff.mp (List.append_eq_nil_iff.mp order).1) taking.nonempty
  | noEntries taking' read' =>
    obtain ⟨rfl, rfl⟩ := taking.unique taking'
    exact Except.ok.inj (read.symm.trans read')

theorem Idle.same {options : CreateDiffOptions} {w w₁ : World} (idle : Idle options w₁)
    (logs : ∀ name, w₁.get ⟨.log, name⟩ = w.get ⟨.log, name⟩) : Idle options w := by
  cases idle with
  | noFiles found => exact .noFiles (found.same logs)
  | noEntries taking read => exact .noEntries (taking.same logs) read

section Course

variable {config : Config} {options : CreateDiffOptions} {w w' : World}

theorem isEmpty_foldl (entries : List Osmobj) :
    (entries.foldl LogContent.add {}).objects.isEmpty = true ↔ entries = [] := by
  have size : (entries.foldl LogContent.add {}).objects.size = entries.length := by
    rw [size_foldl]
    exact Nat.zero_add _
  rw [← List.length_eq_zero_iff, ← size]
  simp only [Osmobjects.isEmpty, Osmobjects.size, Bool.and_eq_true, List.isEmpty_iff, ← List.length_eq_zero_iff]
  omega

/-- Reading takes a block. -/
private theorem taking_ok {names : List Text} {read : LogContent × List (Text × Text)} (found : Found options w names)
    (some : names ≠ [])
    (ends : Ends (readLogFiles config options {} [] (names.insertionSort (· ≤ ·))) w (.ok read) w') :
    w' = w ∧ ∃ rest entries, Taking options w read.2 rest ∧ readEntries (read.2.map Prod.snd) = .ok entries ∧
      read.1 = entries.foldl LogContent.add {} := by
  obtain ⟨content, sources⟩ := read
  have start : ({} : LogContent).objects.size = 0 := rfl
  obtain ⟨rfl, block, rest, entries, few, order, same, present, readAll, folded, readFew, fits, exceeds, nonempty⟩ :=
    readLogFiles_ok (by omega) ends
  obtain rfl : sources = block := same
  have sorted : names.insertionSort (· ≤ ·) ≠ [] := by
    rw [← List.length_pos_iff, List.length_insertionSort]
    exact List.length_pos_iff.mpr some
  rw [start, Nat.zero_add] at fits exceeds
  exact ⟨rfl, rest, entries, ⟨⟨names, found, order.symm⟩, present, ⟨⟨few, readFew, fits⟩, entries, readAll, exceeds⟩,
    nonempty sorted⟩, readAll, folded⟩

theorem Untouched.logs {touched : Path → Prop} (same : Untouched touched w w')
    (outside : ∀ path, touched path → path.dir ≠ .log)
    (name : Text) : w'.get ⟨.log, name⟩ = w.get ⟨.log, name⟩ := same.get _ (fun inside => outside _ inside rfl)

theorem pidFileOf_run {name : Text} (path : Path) (pid : PidFileOf config name path) : path.dir = .run := pid.2 ▸ rfl

theorem own_scratch (path : Path) (own : Own config path) : Scratch path := by
  rcases own with (rfl | rfl | rfl) | pid
  · exact .inl ⟨rfl, by decide⟩
  · exact .inl ⟨rfl, by decide⟩
  · exact .inl ⟨rfl, by decide⟩
  · exact .inr (pidFileOf_run path pid)

/-- Nothing but files of its own was touched before. -/
theorem Locking.untouched {block : List (Text × Text)} {rest : List Text} {entries : List Osmobj}
    {state : State} {w₁ w₂ : World}
    (locking : Locking config options w block rest entries state w₁ w₂) : Untouched (Own config) w w₂ :=
  (locking.start.mono (fun _ pid => .inr pid)).trans
    ((ends_untouched (writeFiles_made _ _) locking.written).mono (fun _ made => .inl made))

/-- What stands when a run has read entries from its log files. -/
structure Reaching (config : Config) (options : CreateDiffOptions) (w : World) (block : List (Text × Text))
    (rest : List Text) (entries : List Osmobj) (w₁ : World) : Prop where
  free : config.runDir ≠ [] → w.get (pidPath "osmdbt-create-diff".toList) = none
  start : Untouched (PidFileOf config "osmdbt-create-diff".toList) w w₁
  taking : Taking options w block rest
  read : readEntries (block.map Prod.snd) = .ok entries
  some : entries ≠ []

/-- What comes after the log files were read. -/
def diffFrom (config : Config) (options : CreateDiffOptions) (content : LogContent)
    (sources : List (Text × Text)) : Prog Unit := do
  let state ← writeFiles config options content sources
  if options.dryRun then pure ()
  else publish config state (sources.map Prod.fst)

/-- A run: it failed or found nothing to do, or it read some entries. -/
theorem createDiff_reaching {R : Prog Unit → World → World → Prop} {failed : Prop} (parts : Partwise R failed)
    (run : R (createDiff config options) w w') :
    Untouched (PidFileOf config "osmdbt-create-diff".toList) w w' ∧ (failed ∨ Idle options w) ∨
      ∃ block rest entries w₁ w₂, Reaching config options w block rest entries w₁ ∧
        R (diffFrom config options (entries.foldl LogContent.add {}) block) w₁ w₂ ∧
        Untouched (PidFileOf config "osmdbt-create-diff".toList) w₂ w' := by
  unfold createDiff at run
  rcases parts.pidFile run with ⟨w₁, w₉, free, before, body, after⟩ | ⟨stopped, same⟩
  swap
  · exact .inl ⟨same, .inl stopped⟩
  have logs {w₂ : World} (same : Untouched (PidFileOf config "osmdbt-create-diff".toList) w w₂) (name : Text) :
      w₂.get ⟨.log, name⟩ = w.get ⟨.log, name⟩ := same.get _ (fun pid => nomatch pidFileOf_run _ pid)
  rcases parts.bind findLogFiles_uses body with ⟨names, w₂, finding, _, later₁⟩ | ⟨stopped, same⟩
  swap
  · exact .inl ⟨(before.trans same).trans after, .inl stopped⟩
  obtain ⟨rfl, foundThere⟩ := findLogFiles_ok finding
  have found : Found options w names := foundThere.same (logs before)
  by_cases empty : names.isEmpty = true
  · rw [if_pos empty] at later₁
    obtain rfl := parts.pure later₁
    exact .inl ⟨before.trans after, .inr (.noFiles (List.isEmpty_iff.mp empty ▸ found))⟩
  rw [if_neg empty] at later₁
  rcases parts.bind (look_uses (show Op.connect.Looks from trivial)) later₁ with
    ⟨_, w₃, connected, _, later₂⟩ | ⟨stopped, same⟩
  swap
  · exact .inl ⟨(before.trans same).trans after, .inl stopped⟩
  obtain rfl : w₃ = w₂ := perform_ok.mp connected
  rcases parts.bind getDbVersion_uses later₂ with ⟨_, w₄, _, version, later₃⟩ | ⟨stopped, same⟩
  swap
  · exact .inl ⟨(before.trans same).trans after, .inl stopped⟩
  have start : Untouched (PidFileOf config "osmdbt-create-diff".toList) w w₄ := before.trans version
  rcases parts.bind (readLogFiles_uses {} [] _) later₃ with
    ⟨⟨content, block⟩, w₅, reading, _, later₄⟩ | ⟨stopped, same⟩
  swap
  · exact .inl ⟨(start.trans same).trans after, .inl stopped⟩
  obtain ⟨rfl, rest, entries, takingThere, read, folded⟩ :=
    taking_ok (found.same (fun name => (logs start name).symm)) (fun none => empty (List.isEmpty_iff.mpr none)) reading
  obtain rfl : content = entries.foldl LogContent.add {} := folded
  have taking : Taking options w block rest := takingThere.same (logs start)
  change R (if (entries.foldl LogContent.add {}).objects.isEmpty then pure () else
    diffFrom config options (entries.foldl LogContent.add {}) block) _ _ at later₄
  by_cases none : (entries.foldl LogContent.add {}).objects.isEmpty = true
  · rw [if_pos none] at later₄
    obtain rfl := parts.pure later₄
    exact .inl ⟨start.trans after, .inr (.noEntries taking ((isEmpty_foldl entries).mp none ▸ read))⟩
  rw [if_neg none] at later₄
  exact .inr ⟨block, rest, entries, w₅, w₉,
    ⟨free, start, taking, read, fun empty => none ((isEmpty_foldl entries).mpr empty)⟩, later₄, after⟩

/-- What is known when there was no publish section. -/
def Unpublishing (config : Config) (options : CreateDiffOptions) (failed : Prop) (w w' : World) : Prop :=
  failed ∨ options.dryRun = true ∨ Idle options w ∧ Untouched (PidFileOf config "osmdbt-create-diff".toList) w w'

/-- A run: it failed before the lock file, only tried, or had nothing to do, or it came
to the publish section. -/
theorem createDiff_parts {R : Prog Unit → World → World → Prop} {failed : Prop} (parts : Partwise R failed)
    (run : R (createDiff config options) w w') : Untouched (Own config) w w' ∧
      Unpublishing config options failed w w' ∨
      ∃ block rest entries state w₁ w₂ w₃, Locking config options w block rest entries state w₁ w₂ ∧
        R (publish config state (block.map Prod.fst)) w₂ w₃ ∧
        Untouched (PidFileOf config "osmdbt-create-diff".toList) w₃ w' := by
  rcases createDiff_reaching parts run with ⟨same, why⟩ | ⟨block, rest, entries, w₁, w₉, reaching, writing, after⟩
  · exact .inl ⟨same.mono (fun _ pid => .inr pid), why.imp_right (fun idle => .inr ⟨idle, same⟩)⟩
  have early {w₂ : World} (made : Untouched Made w₁ w₂)
    (last : Untouched (PidFileOf config "osmdbt-create-diff".toList) w₂ w') :
      Untouched (Own config) w w' :=
    ((reaching.start.mono (fun _ pid => .inr pid)).trans (made.mono (fun _ here => .inl here))).trans
      (last.mono (fun _ pid => .inr pid))
  rcases parts.bind (writeFiles_made _ _) writing with ⟨state, w₂, written, made, publishing⟩ | ⟨stopped, made⟩
  swap
  · exact .inl ⟨early made after, .inl stopped⟩
  by_cases dryRun : options.dryRun = true
  · rw [if_pos dryRun] at publishing
    obtain rfl := parts.pure publishing
    exact .inl ⟨early made after, .inr (.inl dryRun)⟩
  · rw [if_neg dryRun] at publishing
    exact .inr ⟨block, rest, entries, state, w₁, w₂, w₉, ⟨reaching.free, reaching.start, reaching.taking,
      reaching.read,
      reaching.some, written, by simpa using dryRun⟩, publishing, after⟩

end Course

end Osmdbt
