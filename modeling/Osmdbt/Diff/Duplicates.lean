import Osmdbt.Diff.Repetition
import Osmdbt.Diff.ChangesetCache

/-! The objects create-diff writes for log files with repeated lines, compared
with the log files without the repetitions. -/

namespace Osmdbt

open General

def Database.objects (db : Database) : ItemType → List ObjectRow
  | .node => db.nodes.map NodeRow.toObjectRow
  | .way => db.ways
  | .relation => db.relations

/-- The object exists and is not redacted. -/
def Shown (table : List ObjectRow) (k : Key) : Prop := ∃ row ∈ table, row.key = k ∧ row.redactionId = none

instance (table : List ObjectRow) (k : Key) : Decidable (Shown table k) :=
  inferInstanceAs (Decidable (∃ row ∈ table, row.key = k ∧ row.redactionId = none))

def Attributes.key (attributes : Attributes) : Key := Osmdbt.key attributes.id attributes.version

/-- The pairs of the objects of one type, in the order of the file. -/
def DiffObjects.keys (objects : DiffObjects) : ItemType → List Key
  | .node => objects.nodes.map (fun node => node.attributes.key)
  | .way => objects.ways.map (fun way => way.attributes.key)
  | .relation => objects.relations.map (fun relation => relation.attributes.key)

/-- How often an object version is named by log entries. -/
def occurrences (type : ItemType) (k : Key) (entries : List Osmobj) : Nat :=
  entries.countP (fun obj => obj.type = type ∧ obj.key = k)

section Walks

variable {β : Type} [DecidableEq β] {le : β → β → Prop} {childKey : β → Key} {children answer answer' : List β}
  {asked asked' keys : List Key}

end Walks

section Antisymmetry

variable {db : Database} (keys : PrimaryKeys db)
include keys

end Antisymmetry

/-- What the loop of one object type does. -/
structure Runs {ω : Type} (table : List ObjectRow) (cucache : ChangesetUserLookup) (asked : List Key) (keyOf : ω → Key)
    (run : Timestamp → Except Fault (List ω × Timestamp)) : Prop where
  succeeds : ∀ ts, (∃ written, run ts = .ok written) ↔ Attributable cucache table asked
  counts : ∀ {ts written}, run ts = .ok written → ∀ k,
    (written.1.map keyOf).count k = if Shown table k then asked.count k else 0

section Runs

variable {ρ ι χ ω : Type} {common : ρ → ObjectRow} {attach : ι → Int64 → UInt32 → ι × χ}
  {build : ρ → Attributes → χ → ω} {cucache cucache' : ChangesetUserLookup} {table result result' : List ρ}
  {asked asked' : List Key} {keyOf : ω → Key}

theorem shown_map (k : Key) :
    Shown (table.map common) k ↔ ∃ row ∈ table, (common row).key = k ∧ (common row).redactionId = none := by
  simp [Shown]

variable [DecidableEq ρ] in
theorem runs_processObjects (built : ∀ row attributes children, keyOf (build row attributes children) = attributes.key)
    (unique : (table.map (fun row => (common row).key)).Nodup)
    (answer : Answer (fun a b => objectOrder (common a) (common b))
      (innerJoin asked (fun row => (common row).key) table) result) (it : ι) :
    Runs (table.map common) cucache asked keyOf
      (fun ts => processObjects common attach build cucache it result ts) where
  succeeds ts := by
    rw [processObjects_succeeds, attributable_iff common cucache answer]
  counts success k := by
    rw [processObjects_keys built success, count_live_keys unique answer]
    simp only [shown_map]

theorem runs_unlessEmpty {objs : List Osmobj} {table : List ObjectRow}
    {run : Timestamp → Except Fault (List ω × Timestamp)} (runs : Runs table cucache (wanted objs) keyOf run) :
    Runs table cucache (wanted objs) keyOf (fun ts => unlessEmpty objs ts (run ts)) := by
  cases objs with
  | nil =>
    constructor
    · intro ts
      constructor
      · intro _ row _ inside
        cases inside
      · exact fun _ => ⟨([], ts), rfl⟩
    · intro ts written success k
      obtain rfl : ([], ts) = written := Except.ok.inj success
      simp [wanted]
  | cons obj rest => exact runs

end Runs

section Equations

variable {queries : Queries (Except Fault)} (cucache : ChangesetUserLookup) {objs : List Osmobj}

theorem queryNodes_eq {tags : List TagRow} {result : List NodeRow}
    (askedTags : queries.tags .node (wanted objs) = .ok tags) (askedNodes : queries.nodes (wanted objs) = .ok result) :
    queryNodes queries cucache objs = processNodes cucache (getTags tags) result := by
  funext ts
  unfold queryNodes
  rw [askedTags, askedNodes]
  rfl

theorem queryWays_eq {tags : List TagRow} {nodes : List WayNodeRow} {result : List ObjectRow}
    (askedTags : queries.tags .way (wanted objs) = .ok tags) (askedNodes : queries.wayNodes (wanted objs) = .ok nodes)
    (askedWays : queries.ways (wanted objs) = .ok result) :
    queryWays queries cucache objs = processWays cucache (getTags tags) (getNodes nodes) result := by
  funext ts
  unfold queryWays
  rw [askedTags, askedNodes, askedWays]
  rfl

theorem queryRelations_eq {tags : List TagRow} {members : List MemberRow} {result : List ObjectRow}
    (askedTags : queries.tags .relation (wanted objs) = .ok tags)
    (askedMembers : queries.members (wanted objs) = .ok members)
    (askedRelations : queries.relations (wanted objs) = .ok result) :
    queryRelations queries cucache objs =
      processRelations cucache (getTags tags) (getMembers members) result := by
  funext ts
  unfold queryRelations
  rw [askedTags, askedMembers, askedRelations]
  rfl

end Equations

section Types

variable {db : Database} {queries : Queries (Except Fault)} (schema : SchemaKeys db) (answering : Answering db queries)
  {cucache cucache' : ChangesetUserLookup} {objs objs' : List Osmobj}
include schema answering

theorem runs_queryNodes : Runs (db.objects .node) cucache (wanted objs) (fun node => node.attributes.key)
    (queryNodes queries cucache objs) := by
  obtain ⟨tags, askedTags, _⟩ := answering.tags .node (wanted objs)
  obtain ⟨result, askedNodes, answer⟩ := answering.nodes (wanted objs)
  have unique : (db.nodes.map (fun row => row.toObjectRow.key)).Nodup := by
    simpa [ObjectKeys, Function.comp_def] using schema.nodes
  rw [queryNodes_eq cucache askedTags askedNodes]
  refine runs_processObjects ?_ unique answer _
  exact fun _ _ _ => rfl

theorem runs_queryWays : Runs (db.objects .way) cucache (wanted objs) (fun way => way.attributes.key)
    (queryWays queries cucache objs) := by
  obtain ⟨tags, askedTags, _⟩ := answering.tags .way (wanted objs)
  obtain ⟨nodes, askedNodes, _⟩ := answering.wayNodes (wanted objs)
  obtain ⟨result, askedWays, answer⟩ := answering.ways (wanted objs)
  rw [queryWays_eq cucache askedTags askedNodes askedWays, ← List.map_id (db.objects .way)]
  refine runs_processObjects ?_ schema.ways answer _
  exact fun _ _ _ => rfl

theorem runs_queryRelations : Runs (db.objects .relation) cucache (wanted objs) (fun object => object.attributes.key)
    (queryRelations queries cucache objs) := by
  obtain ⟨tags, askedTags, _⟩ := answering.tags .relation (wanted objs)
  obtain ⟨members, askedMembers, _⟩ := answering.members (wanted objs)
  obtain ⟨result, askedRelations, answer⟩ := answering.relations (wanted objs)
  rw [queryRelations_eq cucache askedTags askedMembers askedRelations,
    ← List.map_id (db.objects .relation)]
  refine runs_processObjects ?_ schema.relations answer _
  exact fun _ _ _ => rfl

variable (keys : PrimaryKeys db) (members : ∀ k, k ∈ wanted objs ↔ k ∈ wanted objs')
  (agree : ∀ cid info info', cucache.lookup cid = some info → cucache'.lookup cid = some info' → info = info')
include keys members agree

end Types

theorem processTypes_ok {queries : Queries (Except Fault)} {cucache : ChangesetUserLookup} {objects : Osmobjects}
    {written : DiffObjects} {last : Timestamp} (success : processTypes queries cucache objects = .ok (written, last)) :
    ∃ first second,
      unlessEmpty objects.nodes 0 (queryNodes queries cucache objects.nodes 0) = .ok (written.nodes, first) ∧
      unlessEmpty objects.ways first (queryWays queries cucache objects.ways first) = .ok (written.ways, second) ∧
      unlessEmpty objects.relations second (queryRelations queries cucache objects.relations second) =
        .ok (written.relations, last) := by
  unfold processTypes at success
  cases nodesRun : unlessEmpty objects.nodes 0 (queryNodes queries cucache objects.nodes 0) with
  | error fault => simp [nodesRun, bind, Except.bind] at success
  | ok nodes =>
    cases waysRun : unlessEmpty objects.ways nodes.2 (queryWays queries cucache objects.ways nodes.2) with
    | error fault => simp [nodesRun, waysRun, bind, Except.bind] at success
    | ok ways =>
      cases relationsRun : unlessEmpty objects.relations ways.2
          (queryRelations queries cucache objects.relations ways.2) with
      | error fault => simp [nodesRun, waysRun, relationsRun, bind, Except.bind] at success
      | ok relations =>
        simp only [nodesRun, waysRun, relationsRun, bind, Except.bind, pure, Except.pure, Except.ok.injEq,
          Prod.mk.injEq] at success
        obtain ⟨rfl, rfl⟩ := success
        exact ⟨nodes.2, ways.2, rfl, waysRun, relationsRun⟩

/-- The pairs a type asks for. -/
def LogContent.asked (content : LogContent) (type : ItemType) : List Key :=
  wanted (content.objects.sort.ofType type)

section File

variable {db : Database} {queries : Queries (Except Fault)} {content content' : LogContent}

theorem processTypes_succeeds (schema : SchemaKeys db) (answering : Answering db queries)
    (cucache : ChangesetUserLookup) :
    (∃ result, processTypes queries cucache content.objects.sort = .ok result) ↔
      ∀ type, Attributable cucache (db.objects type) (content.asked type) := by
  have nodes : ∀ ts, (∃ written, unlessEmpty content.objects.sort.nodes ts
      (queryNodes queries cucache content.objects.sort.nodes ts) = .ok written) ↔
        Attributable cucache (db.objects .node) (content.asked .node) :=
    (runs_unlessEmpty (runs_queryNodes schema answering)).succeeds
  have ways : ∀ ts, (∃ written, unlessEmpty content.objects.sort.ways ts
      (queryWays queries cucache content.objects.sort.ways ts) = .ok written) ↔
        Attributable cucache (db.objects .way) (content.asked .way) :=
    (runs_unlessEmpty (runs_queryWays schema answering)).succeeds
  have relations : ∀ ts, (∃ written, unlessEmpty content.objects.sort.relations ts
      (queryRelations queries cucache content.objects.sort.relations ts) = .ok written) ↔
        Attributable cucache (db.objects .relation) (content.asked .relation) :=
    (runs_unlessEmpty (runs_queryRelations schema answering)).succeeds
  constructor
  · rintro ⟨⟨written, last⟩, success⟩ type
    obtain ⟨first, second, first', second', third'⟩ := processTypes_ok success
    cases type with
    | node => exact (nodes 0).mp ⟨_, first'⟩
    | way => exact (ways first).mp ⟨_, second'⟩
    | relation => exact (relations second).mp ⟨_, third'⟩
  · intro every
    obtain ⟨nodesWritten, first⟩ := (nodes 0).mpr (every .node)
    obtain ⟨waysWritten, second⟩ := (ways nodesWritten.2).mpr (every .way)
    obtain ⟨relationsWritten, third⟩ := (relations waysWritten.2).mpr (every .relation)
    refine ⟨({ nodes := nodesWritten.1, ways := waysWritten.1, relations := relationsWritten.1 },
      relationsWritten.2), ?_⟩
    unfold processTypes
    simp only [first, second, third, bind, Except.bind, pure, Except.pure]

end File

theorem count_wanted_filter (type : ItemType) (k : Key) (entries : List Osmobj) :
    (wanted (entries.filter (fun obj => obj.type = type))).count k = occurrences type k entries := by
  rw [wanted, List.count, List.countP_map, List.countP_filter, occurrences]
  apply List.countP_congr
  intro obj _
  simp [and_comm]

theorem count_asked (entries : List Osmobj) (type : ItemType) (k : Key) :
    ((entries.foldl LogContent.add {}).asked type).count k = occurrences type k entries := by
  have ofType := ofType_foldl_add {} entries type
  have sorted : (entries.foldl LogContent.add {}).objects.sort.ofType type =
      Osmobjects.sortObjs ((entries.foldl LogContent.add {}).objects.ofType type) := by
    cases type <;> rfl
  have perm : (Osmobjects.sortObjs (entries.filter (fun obj => obj.type = type))).Perm
      (entries.filter (fun obj => obj.type = type)) := List.perm_insertionSort _ _
  have empty : ({} : LogContent).objects.ofType type = [] := by cases type <;> rfl
  rw [LogContent.asked, sorted, ofType, empty, List.nil_append, wanted, (perm.map _).count_eq]
  exact count_wanted_filter type k entries

section Logs

variable {db : Database} {queries : Queries (Except Fault)}

end Logs

section Example

/-- Queries answered from tables that are in order. -/
def tableQueries (db : Database) : Queries (Except Fault) where
  changesetUsers cids := .ok ((changesetUsers db).filter (fun row => askedFor cids row))
  tags type asked := .ok (innerJoin asked TagRow.key (db.tags type))
  wayNodes asked := .ok (innerJoin asked WayNodeRow.key db.wayNodes)
  members asked := .ok (innerJoin asked MemberRow.key db.relationMembers)
  nodes asked := .ok (innerJoin asked (fun row => row.toObjectRow.key) db.nodes)
  ways asked := .ok (innerJoin asked ObjectRow.key db.ways)
  relations asked := .ok (innerJoin asked ObjectRow.key db.relations)

/-- A single node with a single tag. -/
def taggedNode : Database where
  changesets := [⟨10, 5⟩]
  users := [⟨5, "mapper".toList⟩]
  nodes := [plainNode 1 none]
  nodeTags := [nameTag 1]

theorem taggedNode_schema : SchemaKeys taggedNode where
  nodes := show ([(plainNode 1 none).toObjectRow].map ObjectRow.key).Nodup from List.nodup_singleton _
  ways := List.nodup_nil
  relations := List.nodup_nil
  nodeTags := by
    intro child member
    obtain rfl := List.mem_singleton.mp member
    exact List.mem_singleton.mpr rfl
  wayTags := by intro child member; cases member
  wayNodes := by intro child member; cases member
  relationTags := by intro child member; cases member
  relationMembers := by intro child member; cases member

theorem taggedNode_keys : PrimaryKeys taggedNode where
  changesets := List.nodup_singleton _
  users := List.nodup_singleton _
  tags type := by cases type <;> simp [taggedNode, Database.tags]
  wayNodes := List.nodup_nil
  members := List.nodup_nil

/-- A join with a table of at most one row is in every order. -/
theorem answer_single {ρ : Type} {le : ρ → ρ → Prop} (refl : ∀ row, le row row) (key : ρ → Key) {rows : List ρ}
    (single : rows.length ≤ 1) (asked : List Key) :
    Answer le (innerJoin asked key rows) (innerJoin asked key rows) := by
  refine ⟨.refl _, ?_⟩
  have same : ∀ a ∈ rows, ∀ b ∈ rows, a = b := by
    intro a first b second
    cases rows with
    | nil => cases first
    | cons row rest =>
      obtain rfl : rest = [] := List.length_eq_zero_iff.mp (by simpa using single)
      rw [List.mem_singleton.mp first, List.mem_singleton.mp second]
  apply List.pairwise_of_forall_mem_list
  intro a first b second
  rw [same a (mem_innerJoin.mp first).1 b (mem_innerJoin.mp second).1]
  exact refl b

private theorem tagOrder_refl (row : TagRow) : tagOrder row row :=
  Prod.Lex.toLex_le_toLex.mpr (.inr ⟨rfl, le_refl _⟩)

private theorem wayNodeOrder_refl (row : WayNodeRow) : wayNodeOrder row row :=
  le_refl (toLex (row.key, row.sequenceId.toInt))

private theorem memberOrder_refl (row : MemberRow) : memberOrder row row :=
  le_refl (toLex (row.key, row.sequenceId.toInt))

theorem taggedNode_answering : Answering taggedNode (tableQueries taggedNode) where
  changesetUsers _ := ⟨_, rfl, .refl _⟩
  tags type asked := ⟨_, rfl, answer_single tagOrder_refl _ (by cases type <;> decide) _⟩
  wayNodes _ := ⟨_, rfl, answer_single wayNodeOrder_refl _ (Nat.zero_le _) _⟩
  members _ := ⟨_, rfl, answer_single memberOrder_refl _ (Nat.zero_le _) _⟩
  nodes _ := ⟨_, rfl, answer_single (fun row => le_refl row.key) _ (le_refl 1) _⟩
  ways _ := ⟨_, rfl, answer_single (fun row => le_refl row.key) _ (Nat.zero_le _) _⟩
  relations _ := ⟨_, rfl, answer_single (fun row => le_refl row.key) _ (Nat.zero_le _) _⟩

def onceLogged : Text := "0/1 5 N n1 v1 c10\n".toList
def loggedNode : Osmobj := ⟨.node, 1, 1, 10⟩

theorem readEntries_twiceLogged : readEntries [onceLogged, onceLogged] = .ok [loggedNode, loggedNode] := by decide

end Example

end Osmdbt
