import Osmdbt.Diff.Course
import Osmdbt.Diff.StateFormat
import Osmdbt.Diff.SequenceNumbers
import Osmdbt.System.Serve

/-! Reading the published state file: a state is read back exactly when some row of
the wanted object versions gave it a timestamp. -/

namespace Osmdbt

open General

/-- Numbers with at most nine digits are the ones below a thousand millions. -/
theorem paddedNumber_nine {n : Nat} (nine : (paddedNumber n).length = 9) : n ≤ 999999999 := by
  by_contra large
  have longer : (natText 1000000000).length ≤ (natText n).length := decimal.length_print_mono (by omega)
  have ten : (natText 1000000000).length = 10 := by decide
  rw [paddedNumber, List.length_append, List.length_replicate] at nine
  omega

section Publishing

variable {config : Config} {options : CreateDiffOptions} {state : State} {logFiles : List Text} {w w' : World}

/-- Every rename since a state of the files is one of these. -/
def RenamedSince (w w' : World) (which : Rename → Prop) : Prop :=
  ∃ more, w'.renames = w.renames ++ more ∧ ∀ moved ∈ more, which moved

theorem RenamedSince.refl {which : Rename → Prop} (same : w'.renames = w.renames) : RenamedSince w w' which :=
  ⟨[], by simp [same], by simp⟩

theorem RenamedSince.same {which : Rename → Prop} {w₁ : World} (since : RenamedSince w w₁ which)
    (same : w'.renames = w₁.renames) : RenamedSince w w' which := by
  obtain ⟨more, split, each⟩ := since
  exact ⟨more, same.trans split, each⟩

theorem RenamedSince.rename {which : Rename → Prop} {oldName newName : Path} {content : Content}
    (since : RenamedSince w w' which) (here : which ⟨oldName, newName, content, w'.returned⟩) :
    RenamedSince w (w'.rename oldName newName content) which := by
  obtain ⟨more, split, each⟩ := since
  refine ⟨more ++ [⟨oldName, newName, content, w'.returned⟩], ?_, fun moved member => ?_⟩
  · rw [← List.append_assoc, ← split]
    rfl
  · rcases List.mem_append.mp member with old | new
    · exact each moved old
    · obtain rfl := List.mem_singleton.mp new
      exact here

/-- What is moved to a name since then is what stood under another one. -/
structure Carried (oldName newName : Path) (content : Content) (w w' : World) : Prop where
  old : ∀ other, w'.get oldName = some other → other = content
  since : RenamedSince w w' (fun moved => moved.newName = newName → moved.content = content)

/-- The first of two names is only moved to the second, and the second only gets the first. -/
def Pair (state : State) (logFiles : List Text) (oldName newName : Path) : Prop :=
  oldName ≠ lockFile ∧ ∀ source target, PublishOp state logFiles (.rename source target) →
    target ≠ oldName ∧ (target = newName → source = oldName)

theorem PublishOp.rename_cases {source target : Path} (used : PublishOp state logFiles (.rename source target)) :
    (source = newChangeFile ∧ target = state.changeFile) ∨ (source = newStateFile ∧ target = state.ownFile) ∨
      (source = newStateCopy ∧ target = stateFile) ∨
        ∃ name, source = ⟨.log, name⟩ ∧ target = ⟨.log, name ++ ".done".toList⟩ := by
  cases used with
  | look looks => exact looks.elim
  | lock writes => cases writes
  | change => exact .inl ⟨rfl, rfl⟩
  | own => exact .inr (.inl ⟨rfl, rfl⟩)
  | copy => exact .inr (.inr (.inl ⟨rfl, rfl⟩))
  | log _ => exact .inr (.inr (.inr ⟨_, rfl, rfl⟩))

theorem change_pair : Pair state logFiles newChangeFile state.changeFile := by
  have change : FileOf state.sequenceNumber state.changeFile := .inl rfl
  refine ⟨by decide, fun source target used => ?_⟩
  rcases used.rename_cases with ⟨rfl, rfl⟩ | ⟨rfl, rfl⟩ | ⟨rfl, rfl⟩ | ⟨name, rfl, rfl⟩
  · exact ⟨by rintro ⟨⟩, fun _ => rfl⟩
  · exact ⟨by rintro ⟨⟩, fun same => absurd same.symm (changeFileOf_ne_ownFileOf _ _)⟩
  · exact ⟨by decide, fun same => absurd same.symm change.ne_stateFile⟩
  · exact ⟨by rintro ⟨⟩, by rintro ⟨⟩⟩

theorem own_pair : Pair state logFiles newStateFile state.ownFile := by
  have own : FileOf state.sequenceNumber state.ownFile := .inr rfl
  refine ⟨by decide, fun source target used => ?_⟩
  rcases used.rename_cases with ⟨rfl, rfl⟩ | ⟨rfl, rfl⟩ | ⟨rfl, rfl⟩ | ⟨name, rfl, rfl⟩
  · exact ⟨by rintro ⟨⟩, fun same => absurd same (changeFileOf_ne_ownFileOf _ _)⟩
  · exact ⟨by rintro ⟨⟩, fun _ => rfl⟩
  · exact ⟨by decide, fun same => absurd same.symm own.ne_stateFile⟩
  · exact ⟨by rintro ⟨⟩, by rintro ⟨⟩⟩

theorem copy_pair : Pair state logFiles newStateCopy stateFile := by
  have change : FileOf state.sequenceNumber state.changeFile := .inl rfl
  have own : FileOf state.sequenceNumber state.ownFile := .inr rfl
  refine ⟨by decide, fun source target used => ?_⟩
  rcases used.rename_cases with ⟨rfl, rfl⟩ | ⟨rfl, rfl⟩ | ⟨rfl, rfl⟩ | ⟨name, rfl, rfl⟩
  · exact ⟨by rintro ⟨⟩, fun same => absurd same change.ne_stateFile⟩
  · exact ⟨by rintro ⟨⟩, fun same => absurd same own.ne_stateFile⟩
  · exact ⟨by decide, fun _ => rfl⟩
  · exact ⟨by rintro ⟨⟩, by rintro ⟨⟩⟩

section Carrying

variable {oldName newName : Path} {content : Content}

theorem Carried.untouched {w₁ : World} {touched : Path → Prop} (carried : Carried oldName newName content w w₁)
    (same : Untouched touched w₁ w') (outside : ¬ touched oldName) : Carried oldName newName content w w' := by
  refine ⟨?_, carried.since.same same.renames⟩
  rw [same.get _ outside]
  exact carried.old

theorem Carried.rename {source target : Path} {w₁ : World} {reply : Reply (.rename source target)}
    (carried : Carried oldName newName content w w₁)
    (apart : target ≠ oldName ∧ (target = newName → source = oldName))
    (done : Step w₁ (.rename source target) reply w') :
    Carried oldName newName content w w' := by
  cases reply with
  | error code => exact done.2.1 ▸ carried
  | ok _ =>
    obtain ⟨moved, here, rfl⟩ := done
    refine ⟨fun other there => ?_, carried.since.rename (fun same => ?_)⟩
    · by_cases own : oldName = source
      · rw [own, World.get_rename_old _ _ _ (own ▸ apart.1.symm)] at there
        cases there
      · rw [World.get_rename_ne _ _ _ own apart.1.symm] at there
        exact carried.old other there
    · obtain rfl := apart.2 same
      exact carried.old moved here

theorem Carried.step {w₁ : World} {op : Op} {reply : Reply op} (pair : Pair state logFiles oldName newName)
    (carried : Carried oldName newName content w w₁) (used : PublishOp state logFiles op)
    (done : Step w₁ op reply w') :
    Carried oldName newName content w w' := by
  have moved {source target : Path} {reply : Reply (.rename source target)}
    (used : PublishOp state logFiles (.rename source target))
    (done : Step w₁ (.rename source target) reply w') := carried.rename (pair.2 _ _ used) done
  cases used with
  | look looks => exact carried.untouched (Step.untouched done (looks.local (· = lockFile))) pair.1
  | lock writes =>
    exact carried.untouched (Step.untouched done (@Op.Writes.local (· = lockFile) _ rfl _ writes)) pair.1
  | unlock =>
    exact carried.untouched (Step.untouched done (show (Op.unlink lockFile).Local (· = lockFile) from rfl)) pair.1
  | change => exact moved .change done
  | own => exact moved .own done
  | copy => exact moved .copy done
  | log member => exact moved (.log member) done

theorem publish_carried (pair : Pair state logFiles oldName newName) (here : w.get oldName = some content)
    (visits : (publish config state logFiles).Visits Step w w') :
    RenamedSince w w' (fun moved => moved.newName = newName → moved.content = content) := by
  have start : Carried oldName newName content w w :=
    ⟨fun other there => Option.some.inj (there.symm.trans here), .refl rfl⟩
  exact (visits.kept (publish_uses state logFiles) (fun _ _ _ _ carried used done => carried.step pair used done)
    start).since

end Carrying

/-- Nothing is moved when the number has more than nine digits. -/
theorem publish_number (visits : (publish config state logFiles).Visits Step w w') :
    w'.renames = w.renames ∨ state.sequenceNumber ≤ 999999999 := by
  by_cases nine : (paddedNumber state.sequenceNumber).length = 9
  · exact .inr (paddedNumber_nine nine)
  have aborted : moveIntoPlace config state logFiles = Program.abort := by
    unfold moveIntoPlace assertPath Program.assert
    rw [if_neg nine]
    rfl
  rcases partwise_visits.bind (writeLockFile_own state logFiles) visits with ⟨_, w₁, _, locked, locking⟩ | ⟨_, locked⟩
  swap
  · exact .inl locked.renames
  rcases partwise_visits.bind (@syncDir_uses (Op.Local (· = lockFile)) _ config _) locking with
    ⟨_, w₂, _, synced, syncing⟩ | ⟨_, synced⟩
  swap
  · exact .inl (synced.renames.trans locked.renames)
  rw [aborted] at syncing
  obtain rfl : w' = w₂ := syncing
  exact .inl (synced.renames.trans locked.renames)

end Publishing

section Runs

variable {config : Config} {options : CreateDiffOptions} {w w' : World}

/-- Some row of the object versions a run takes has a timestamp. -/
def TakesDated (options : CreateDiffOptions) (w : World) : Prop :=
  ∃ block rest entries, Taking options w block rest ∧ readEntries (block.map Prod.snd) = .ok entries ∧
    Dated w.tables.toDatabase entries

/-- The timestamp of the new state is one when some wanted row has one. -/
theorem Locking.dated {block : List (Text × Text)} {rest : List Text} {entries : List Osmobj}
    {state : State} {w₁ w₂ : World}
    (locking : Locking config options w block rest entries state w₁ w₂) :
    state.timestamp ≠ 0 ↔ TakesDated options w := by
  obtain ⟨cucache, objects, w₃, w₄, tables, processed⟩ := (writeFiles_ok locking.written).objects
  have dated := (processTypes_dated processed).2
  rw [tables, locking.start.tables] at dated
  refine dated.trans ⟨fun here => ⟨block, rest, entries, locking.taking, locking.read, here⟩, ?_⟩
  rintro ⟨block', rest', entries', taking, read, here⟩
  obtain ⟨rfl, rfl⟩ := locking.taking.unique taking
  obtain rfl := Except.ok.inj (locking.read.symm.trans read)
  exact here

theorem Locking.positive {block : List (Text × Text)} {rest : List Text} {entries : List Osmobj}
    {state : State} {w₁ w₂ : World}
    (locking : Locking config options w block rest entries state w₁ w₂) : 0 < state.sequenceNumber := by
  obtain ⟨given, follows⟩ := (writeFiles_ok locking.written).number
  by_cases zero : options.initState = 0
  · obtain ⟨_, last, _, _, _, next⟩ := follows zero
    omega
  · have number := given zero
    omega

/-- What a run moves to `state.txt` is the text of a state, which the constructor reads
back exactly when some row of the wanted object versions has a timestamp. -/
theorem createDiff_state_readable (visits : (createDiff config options).Visits Step w w') :
    RenamedSince w w' (fun moved => moved.newName = stateFile → ∃ state now, moved.content = .text (state.toText now) ∧
      0 < state.sequenceNumber ∧ state.sequenceNumber ≤ 999999999 ∧
      (State.parse (stateFile.text config) (state.toText now) = .ok state ↔ TakesDated options w)) := by
  rcases createDiff_parts partwise_visits visits with ⟨same, _⟩ | ⟨block, rest, entries, state, w₁, w₂,
    w₃, locking, published, after⟩
  · exact .refl same.renames
  have before : w₂.renames = w.renames := locking.untouched.renames
  rcases publish_number published with same | small
  · exact .refl (after.renames.trans (same.trans before))
  obtain ⟨now, _, copy⟩ := (writeFiles_ok locking.written).states
  obtain ⟨more, split, each⟩ := publish_carried copy_pair copy published
  refine ⟨more, by rw [after.renames, split, before], fun moved member toState => ?_⟩
  refine ⟨state, now, each moved member toState, locking.positive, small, ?_⟩
  rw [State.parse_toText_eq locking.positive (by omega), ← locking.dated]
  split
  · rename_i zero
    simp [zero]
  · rename_i dated
    simp [dated]

/-- `state.txt` with the number 7, and a log file with one entry; the tables are empty. -/
def missingRow : World where
  files := [(⟨.log, "a.log".toList⟩, .text "0/1 1 N n1 v1 c1\n".toList),
    (stateFile, .text "sequenceNumber=7\ntimestamp=2020-03-18T14\\:18\\:49Z\n".toList)]

/-- What a run publishes from it. -/
def missingRowPublished : World := ((createDiff {} {}).run World.serve missingRow).2

theorem missingRow_published : Ends (createDiff {} {}) missingRow (.ok ()) missingRowPublished :=
  ends_served (by decide +kernel)

theorem createDiff_state_readable_missing :
    RenamedSince missingRow missingRowPublished (fun moved => moved.newName = stateFile →
      ∃ state now, moved.content = .text (state.toText now) ∧ 0 < state.sequenceNumber ∧
        state.sequenceNumber ≤ 999999999 ∧
        (State.parse (stateFile.text {}) (state.toText now) = .ok state ↔ TakesDated {} missingRow)) :=
  createDiff_state_readable missingRow_published.visits

/-- A rename to `state.txt` of something the next run cannot read. -/
def Rename.unreadable (moved : Rename) : Bool :=
  decide (moved.newName = stateFile) && match moved.content with
    | .text data => !(State.parse (stateFile.text {}) data).isOk
    | .osc _ _ => true

/-- It publishes the number 8 with a timestamp the next run takes for missing. -/
theorem createDiff_state_unreadable : ¬ ∀ (config : Config) (options : CreateDiffOptions) (w w' : World),
    (createDiff config options).Visits Step w w' → RenamedSince w w' (fun moved => moved.newName = stateFile →
      ∃ state now, moved.content = .text (state.toText now) ∧
        State.parse (stateFile.text config) (state.toText now) = .ok state) := by
  intro readable
  obtain ⟨more, split, each⟩ := readable {} {} missingRow _ missingRow_published.visits
  have moves : missingRowPublished.renames.any Rename.unreadable = true := by decide +kernel
  rw [split, show missingRow.renames = [] from rfl, List.nil_append, List.any_eq_true] at moves
  obtain ⟨moved, member, wrong⟩ := moves
  rw [Rename.unreadable, Bool.and_eq_true, decide_eq_true_eq] at wrong
  obtain ⟨state, now, content, parsed⟩ := each moved member wrong.1
  rw [content] at wrong
  simp only [parsed] at wrong
  exact absurd wrong.2 Bool.false_ne_true

end Runs

end Osmdbt
