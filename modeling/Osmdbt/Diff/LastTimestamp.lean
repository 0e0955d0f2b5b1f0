import Osmdbt.Diff.StateFile
import Mathlib.Data.Set.Finite.Lemmas

/-! The timestamp of a published state and the objects of the change file that is
published with it. Rows that are redacted raise the timestamp, too. -/

namespace Osmdbt

open General

/-- The least upper bound of a set is the greatest of some of its elements when there is
one of them above every element. -/
private theorem isGreatest_iff_cofinal {α : Type*} [LinearOrder α] {part all : Set α} {last : α}
    (inside : part ⊆ all) (finite : part.Finite)
    (nonempty : part.Nonempty) (bound : IsLUB all last) : IsGreatest part last ↔ IsCofinalFor all part := by
  constructor
  · exact fun greatest a member => ⟨last, greatest.1, bound.1 member⟩
  · intro cofinal
    obtain ⟨top, member, above⟩ := Set.exists_max_image part id finite nonempty
    have whole : top ∈ upperBounds all := by
      intro a here
      obtain ⟨b, there, le⟩ := cofinal here
      exact le.trans (above b there)
    obtain rfl : last = top := le_antisymm (bound.2 whole) (bound.1 (inside member))
    exact ⟨member, above⟩

/-- Every redacted row of the object versions a run takes has a timestamp that is not above
those of all the others. -/
def RedactedEarlier (options : CreateDiffOptions) (w : World) : Prop :=
  ∃ block rest entries, Taking options w block rest ∧ readEntries (block.map Prod.snd) = .ok entries ∧
    ∀ row, WantedRow w.tables.toDatabase entries row → row.redactionId ≠ none →
      ∃ other, WantedRow w.tables.toDatabase entries other ∧ other.redactionId = none ∧
        row.timestamp.toNat ≤ other.timestamp.toNat

/-- A state file holds the state, the change file the objects. -/
structure Places (state : State) (objects : DiffObjects) (moved : Rename) : Prop where
  text : moved.newName = stateFile ∨ moved.newName = state.ownFile → ∃ now, moved.content = .text (state.toText now)
  change : moved.newName = state.changeFile → ∃ sources, moved.content = .osc sources (some objects)

/-- What a run moves into place belongs to one state and one list of objects. -/
structure Published (w w' : World) (state : State) (objects : DiffObjects) : Prop where
  number : 0 < state.sequenceNumber ∧ state.sequenceNumber ≤ 999999999
  moved : RenamedSince w w' (Places state objects)

section Runs

variable {config : Config} {options : CreateDiffOptions} {w w' : World}

private theorem locking_timestamp {block : List (Text × Text)} {rest : List Text} {entries : List Osmobj}
    {state : State} {w₁ w₂ : World}
    (locking : Locking config options w block rest entries state w₁ w₂) :
    ∃ objects, w₂.get newChangeFile = some (.osc block (some objects)) ∧ (objects.timestamps ≠ [] →
      (IsGreatest {t | t ∈ objects.timestamps} state.timestamp.toNat ↔ RedactedEarlier options w)) := by
  obtain ⟨cucache, objects, w₃, tables, processed, change⟩ := (writeFiles_written locking.written).2
  refine ⟨objects, change, fun nonempty => ?_⟩
  obtain ⟨written, last⟩ := processTypes_wanted processed
  rw [tables, locking.start.tables] at written last
  have inside : {t | t ∈ objects.timestamps} ⊆ {t | ∃ row, WantedRow w.tables.toDatabase entries row ∧
      row.timestamp.toNat = t} := by
    intro t member
    obtain ⟨row, here, _, same⟩ := (written t).mp member
    exact ⟨row, here, same⟩
  rw [isGreatest_iff_cofinal inside (List.finite_toSet _) (List.exists_mem_of_ne_nil _ nonempty) last]
  constructor
  · intro cofinal
    refine ⟨block, rest, entries, locking.taking, locking.read, fun row here _ => ?_⟩
    obtain ⟨t, member, le⟩ := cofinal ⟨row, here, rfl⟩
    obtain ⟨other, there, live, rfl⟩ := (written t).mp member
    exact ⟨other, there, live, le⟩
  · rintro ⟨block', rest', entries', taking, read, earlier⟩ _ ⟨row, here, rfl⟩
    obtain ⟨rfl, rfl⟩ := locking.taking.unique taking
    obtain rfl := Except.ok.inj (locking.read.symm.trans read)
    by_cases live : row.redactionId = none
    · exact ⟨_, (written _).mpr ⟨row, here, live, rfl⟩, le_rfl⟩
    · obtain ⟨other, there, live, le⟩ := earlier row here live
      exact ⟨_, (written _).mpr ⟨other, there, live, rfl⟩, le⟩

/-- The published timestamp is the largest in the change file exactly when no redacted row
is later than all the others. -/
theorem createDiff_timestamp (visits : (createDiff config options).Visits Step w w') :
    w'.renames = w.renames ∨ ∃ state objects, Published w w' state objects ∧ (objects.timestamps ≠ [] →
      (IsGreatest {t | t ∈ objects.timestamps} state.timestamp.toNat ↔ RedactedEarlier options w)) := by
  rcases createDiff_parts partwise_visits visits with ⟨same, _⟩ | ⟨block, rest, entries, state, w₁, w₂,
    w₃, locking, published, after⟩
  · exact .inl same.renames
  have before : w₂.renames = w.renames := locking.untouched.renames
  rcases publish_number published with same | small
  · exact .inl (after.renames.trans (same.trans before))
  obtain ⟨objects, change, timestamp⟩ := locking_timestamp locking
  obtain ⟨now, own, copy⟩ := (writeFiles_ok locking.written).states
  obtain ⟨more, split, changes⟩ := publish_carried change_pair change published
  obtain ⟨more', split', owns⟩ := publish_carried own_pair own published
  obtain ⟨more'', split'', copies⟩ := publish_carried copy_pair copy published
  obtain rfl : more' = more := List.append_cancel_left (split'.symm.trans split)
  obtain rfl : more'' = more' := List.append_cancel_left (split''.symm.trans split')
  refine .inr ⟨state, objects, ⟨⟨locking.positive, small⟩,
    more'', by rw [after.renames, split, before], fun moved member => ⟨?_, ?_⟩⟩, timestamp⟩
  · rintro (toState | toOwn)
    · exact ⟨now, copies moved member toState⟩
    · exact ⟨now, owns moved member toOwn⟩
  · exact fun toChange => ⟨block, changes moved member toChange⟩

end Runs

def datedNode (id : Int64) (timestamp : Timestamp) (redactionId : Option Int32) : NodeRow :=
  { plainNode id redactionId with timestamp }

/-- Node 1 is written with timestamp 5, node 2 is redacted and has timestamp 9. -/
def lateRedaction : World where
  files := [(⟨.log, "a.log".toList⟩, .text "0/1 1 N n1 v1 c10\n0/1 1 N n2 v1 c10\n".toList),
    (stateFile, .text "sequenceNumber=7\ntimestamp=2020-03-18T14\\:18\\:49Z\n".toList)]
  tables := {
    nodes := [datedNode 1 5 none, datedNode 2 9 (some 7)]
    keys := by
      constructor
      · show ([datedNode 1 5 none, datedNode 2 9 (some 7)].map (fun row => row.toObjectRow) |>.map ObjectRow.key).Nodup
        decide
      all_goals simp [ObjectKeys, References] }

def lateRedactionPublished : World := ((createDiff {} {}).run World.serve lateRedaction).2

def Content.state : Content → Option State
  | .text data => (State.parse (stateFile.text {}) data).toOption
  | .osc _ _ => none

def Content.timestamps : Content → Option (List Nat)
  | .osc _ (some objects) => some objects.timestamps
  | _ => none

theorem lateRedaction_run : ((createDiff {} {}).run World.serve lateRedaction).1 = some (.ok ()) ∧
    lateRedactionPublished.renames.any (fun moved => moved.newName = stateFile && moved.content.state =
      some ⟨8, 9⟩) = true ∧
      lateRedactionPublished.renames.any (fun moved => moved.newName = changeFileOf 8 && moved.content.timestamps =
        some [5]) = true := by
  decide +kernel

theorem lateRedaction_published : Ends (createDiff {} {}) lateRedaction (.ok ()) lateRedactionPublished :=
  ends_served lateRedaction_run.1

theorem createDiff_timestamp_late : lateRedactionPublished.renames = lateRedaction.renames ∨
    ∃ state objects, Published lateRedaction lateRedactionPublished state objects ∧ (objects.timestamps ≠ [] →
      (IsGreatest {t | t ∈ objects.timestamps} state.timestamp.toNat ↔ RedactedEarlier {} lateRedaction)) :=
  createDiff_timestamp lateRedaction_published.visits

/-- The state file says 9, the change file holds an object of 5 and nothing else. -/
theorem createDiff_timestamp_fails : ¬ ∀ (config : Config) (options : CreateDiffOptions) (w w' : World),
    (createDiff config options).Visits Step w w' → w'.renames = w.renames ∨ ∃ state objects,
      Published w w' state objects ∧
      (objects.timestamps ≠ [] → IsGreatest {t | t ∈ objects.timestamps} state.timestamp.toNat) := by
  intro largest
  obtain ⟨_, states, changes⟩ := lateRedaction_run
  simp only [List.any_eq_true, Bool.and_eq_true, decide_eq_true_eq] at states changes
  obtain ⟨toState, member, isState, stateRead⟩ := states
  obtain ⟨toChange, member', isChange, objectsRead⟩ := changes
  rcases largest {} {} lateRedaction _ lateRedaction_published.visits with
    same | ⟨state, objects, ⟨⟨positive, small⟩, more, split, each⟩, greatest⟩
  · rw [same] at member
    cases member
  · rw [split, show lateRedaction.renames = [] from rfl, List.nil_append] at member member'
    obtain ⟨now, text⟩ := (each toState member).text (.inl isState)
    rw [text, Content.state, State.parse_toText_eq positive (by omega)] at stateRead
    obtain rfl : state = ⟨8, 9⟩ := by
      split at stateRead
      · cases stateRead
      · exact Option.some.inj stateRead
    obtain ⟨sources, content⟩ := (each toChange member').change isChange
    rw [content, Content.timestamps, Option.some.injEq] at objectsRead
    rw [objectsRead] at greatest
    exact absurd (greatest (by simp)).1 (by decide)

end Osmdbt
