import Osmdbt.Diff.Content

/-! When the object loops write the required content: with pairwise distinct
wanted pairs, exactly when no redacted row stands in the way of a child entry. -/

namespace Osmdbt

section Threads

variable {ρ : Type} {common : ρ → ObjectRow}

theorem length_thread {ι χ : Type} (attach : ι → Int64 → UInt32 → ι × χ) (it : ι) (rows : List ρ) :
    (thread common attach it rows).length = rows.length := by
  induction rows generalizing it with
  | nil => rfl
  | cons row rest ih => simp [thread, ih]

/-- Two child lists are right iff each of them is. -/
theorem forall₂_zip {χ χ' : Type} {first : ρ → χ → Prop} {second : ρ → χ' → Prop} {rows : List ρ}
    {xs : List χ} {ys : List χ'} (left : xs.length = rows.length) (right : ys.length = rows.length) :
    List.Forall₂ (fun row pair => first row pair.1 ∧ second row pair.2) rows (xs.zip ys) ↔
      List.Forall₂ first rows xs ∧ List.Forall₂ second rows ys := by
  induction rows generalizing xs ys with
  | nil =>
    obtain rfl := List.length_eq_zero_iff.mp left
    obtain rfl := List.length_eq_zero_iff.mp right
    simp
  | cons row rest ih =>
    obtain ⟨x, xs, rfl⟩ := List.exists_cons_of_length_eq_add_one left
    obtain ⟨y, ys, rfl⟩ := List.exists_cons_of_length_eq_add_one right
    simp only [List.length_cons, Nat.add_right_cancel_iff] at left right
    simp only [List.zip_cons_cons, List.forall₂_cons, ih left right]
    exact and_and_and_comm

/-- The entries a query function builds are walked like the rows they come from. -/
theorem walk_map {β β' : Type} (childKey : β' → Key) (entry : β → β') (keys : List Key) (rows : List β) :
    MergeWalk.walk childKey keys (rows.map entry) =
      (MergeWalk.walk (fun row => childKey (entry row)) keys rows).map (List.map entry) := by
  induction keys generalizing rows with
  | nil => rfl
  | cons k rest ih =>
    simp only [MergeWalk.walk, List.takeWhile_map, List.dropWhile_map, List.map_cons, ih]
    rfl

theorem thread_addTags (tags : List TagRow) (rows : List ρ) :
    thread common addTags (getTags tags) rows =
      (MergeWalk.walk TagRow.key (rows.map (fun row => (common row).key)) tags).map (List.map tagImage) := by
  rw [addTags, thread_addEntries, getTags, walk_map, List.map_map]
  congr 1
  funext block
  simp [tagImage]

theorem thread_addWayNodes (nodes : List WayNodeRow) (rows : List ρ) :
    thread common addWayNodes (getNodes nodes) rows =
      (MergeWalk.walk WayNodeRow.key (rows.map (fun row => (common row).key)) nodes).map
        (List.map WayNodeRow.nodeId) := by
  rw [addWayNodes, thread_addEntries, getNodes, walk_map, List.map_map]
  congr 1
  funext block
  simp

theorem thread_addMembers (members : List MemberRow) (rows : List ρ) :
    thread common addMembers (getMembers members) rows =
      (MergeWalk.walk MemberRow.key (rows.map (fun row => (common row).key)) members).map
        (List.map memberImage) := by
  rw [addMembers, thread_addEntries, getMembers, walk_map, List.map_map]
  congr 1
  funext block
  simp [memberImage]

end Threads

theorem tagOrder_grouped (a b : TagRow) (ordered : tagOrder a b) : a.key ≤ b.key :=
  Prod.Lex.monotone_fst _ _ ordered

theorem wayNodeOrder_grouped (a b : WayNodeRow) (ordered : wayNodeOrder a b) : a.key ≤ b.key :=
  Prod.Lex.monotone_fst _ _ ordered

theorem memberOrder_grouped (a b : MemberRow) (ordered : memberOrder a b) : a.key ≤ b.key :=
  Prod.Lex.monotone_fst _ _ ordered

section Loops

variable {db : Database} {cucache : ChangesetUserLookup} {asked : List Key}

/-- The kept rows of an answer have their attributes iff the wanted kept rows of the table do. -/
theorem attributable_iff {ρ : Type} (common : ρ → ObjectRow) (cucache : ChangesetUserLookup) {table result : List ρ}
    (answer : Answer (fun a b => objectOrder (common a) (common b))
      (innerJoin asked (fun row => (common row).key) table) result) :
    (∀ row ∈ live common result, ∃ attributes, setAttributes cucache (common row) = .ok attributes) ↔
      Attributable cucache (table.map common) asked := by
  simp only [setAttributes_iff, mem_live answer, Attributable, List.forall_mem_map, and_imp]

theorem processNodes_iff (keys : SchemaKeys db) (distinct : asked.Nodup) (queries : NodeQueries db asked)
    (maxTimestamp : Timestamp) :
    (∃ nodes last, processNodes cucache (getTags queries.tags) queries.rows maxTimestamp = .ok (nodes, last) ∧
        Contains NodeRow.toObjectRow db.nodes asked (NodeContent db cucache) nodes) ↔
      Attributable cucache (db.nodes.map NodeRow.toObjectRow) asked ∧
        Undisturbed (db.nodes.map NodeRow.toObjectRow) asked (db.nodeTags.map TagRow.key) := by
  have unique : (db.nodes.map (fun row => row.toObjectRow.key)).Nodup := by
    simpa [ObjectKeys, Function.comp_def] using keys.nodes
  simp only [contains_iff NodeRow.toObjectRow distinct unique queries.rowsAnswer]
  rw [processNodes, processObjects_iff _ (fun row tags => OwnTags db.nodeTags row.toObjectRow.key tags),
    attributable_iff NodeRow.toObjectRow cucache queries.rowsAnswer, thread_addTags,
    ← blocks_iff_undisturbed NodeRow.toObjectRow tagImage distinct unique queries.rowsAnswer
      tagOrder_grouped queries.tagsAnswer
      keys.nodeTags]
  · rfl
  · intro row attributes tags success
    constructor
    · exact fun content => content.tags
    · exact fun own => ⟨setAttributes_hasAttributes success, rfl, own⟩

private theorem processWays_iff (keys : SchemaKeys db) (distinct : asked.Nodup) (queries : WayQueries db asked)
    (maxTimestamp : Timestamp) :
    (∃ ways last, processWays cucache (getTags queries.tags) (getNodes queries.nodes) queries.rows maxTimestamp =
          .ok (ways, last) ∧
        Contains id db.ways asked (WayContent db cucache) ways) ↔
      Attributable cucache db.ways asked ∧
        Undisturbed db.ways asked (db.wayTags.map TagRow.key) ∧
        Undisturbed db.ways asked (db.wayNodes.map WayNodeRow.key) := by
  have unique : (db.ways.map (fun row => (id row : ObjectRow).key)).Nodup := keys.ways
  have tags := blocks_iff_undisturbed id tagImage distinct unique queries.rowsAnswer
    tagOrder_grouped queries.tagsAnswer (by simpa using keys.wayTags)
  have nodes := blocks_iff_undisturbed id WayNodeRow.nodeId distinct unique
    queries.rowsAnswer wayNodeOrder_grouped queries.nodesAnswer (by simpa using keys.wayNodes)
  have attributes := attributable_iff id cucache queries.rowsAnswer
  rw [List.map_id] at tags nodes attributes
  simp only [contains_iff id distinct unique queries.rowsAnswer]
  rw [processWays, processObjects_iff _ (fun row (children : List OsmTag × List Int64) =>
      OwnTags db.wayTags row.key children.1 ∧ OwnWayNodes db.wayNodes row.key children.2),
    attributes, ← tags, ← nodes, ← thread_addTags, ← thread_addWayNodes]
  · rw [← forall₂_zip (length_thread _ _ _) (length_thread _ _ _), ← thread_pair]
    rfl
  · intro row attributes children success
    constructor
    · exact fun content => ⟨content.tags, content.nodes⟩
    · exact fun own => ⟨setAttributes_hasAttributes success, own.1, own.2⟩

private theorem processRelations_iff (keys : SchemaKeys db) (distinct : asked.Nodup)
    (queries : RelationQueries db asked) (maxTimestamp : Timestamp) :
    (∃ relations last, processRelations cucache (getTags queries.tags) (getMembers queries.members) queries.rows
          maxTimestamp = .ok (relations, last) ∧
        Contains id db.relations asked (RelationContent db cucache) relations) ↔
      Attributable cucache db.relations asked ∧
        Undisturbed db.relations asked (db.relationTags.map TagRow.key) ∧
        Undisturbed db.relations asked (db.relationMembers.map MemberRow.key) := by
  have unique : (db.relations.map (fun row => (id row : ObjectRow).key)).Nodup := keys.relations
  have tags := blocks_iff_undisturbed id tagImage distinct unique queries.rowsAnswer
    tagOrder_grouped queries.tagsAnswer (by simpa using keys.relationTags)
  have members := blocks_iff_undisturbed id memberImage distinct unique
    queries.rowsAnswer memberOrder_grouped queries.membersAnswer (by simpa using keys.relationMembers)
  have attributes := attributable_iff id cucache queries.rowsAnswer
  rw [List.map_id] at tags members attributes
  simp only [contains_iff id distinct unique queries.rowsAnswer]
  rw [processRelations, processObjects_iff _ (fun row (children : List OsmTag × List OsmMember) =>
      OwnTags db.relationTags row.key children.1 ∧ OwnMembers db.relationMembers row.key children.2),
    attributes, ← tags, ← members, ← thread_addTags, ← thread_addMembers]
  · rw [← forall₂_zip (length_thread _ _ _) (length_thread _ _ _), ← thread_pair]
    rfl
  · intro row attributes children success
    constructor
    · exact fun content => ⟨content.tags, content.members⟩
    · exact fun own => ⟨setAttributes_hasAttributes success, own.1, own.2⟩

end Loops

/-- The change file holds exactly the required content iff every kept row is
attributable and no redacted row with child entries precedes a kept one with
child entries of the same kind. -/
theorem change_file_content_iff {db : Database} (keys : SchemaKeys db) (objs : List Osmobj)
    (distinct : (wanted objs).Nodup) (cucache : ChangesetUserLookup) (maxTimestamp : Timestamp) :
    (∀ queries : NodeQueries db (wanted objs),
      (∃ nodes last,
          processNodes cucache (getTags queries.tags) queries.rows maxTimestamp = .ok (nodes, last) ∧
          Contains NodeRow.toObjectRow db.nodes (wanted objs) (NodeContent db cucache) nodes) ↔
        Attributable cucache (db.nodes.map NodeRow.toObjectRow) (wanted objs) ∧
          Undisturbed (db.nodes.map NodeRow.toObjectRow) (wanted objs) (db.nodeTags.map TagRow.key)) ∧
    (∀ queries : WayQueries db (wanted objs),
      (∃ ways last,
          processWays cucache (getTags queries.tags) (getNodes queries.nodes) queries.rows maxTimestamp =
            .ok (ways, last) ∧
          Contains id db.ways (wanted objs) (WayContent db cucache) ways) ↔
        Attributable cucache db.ways (wanted objs) ∧
          Undisturbed db.ways (wanted objs) (db.wayTags.map TagRow.key) ∧
          Undisturbed db.ways (wanted objs) (db.wayNodes.map WayNodeRow.key)) ∧
    (∀ queries : RelationQueries db (wanted objs),
      (∃ relations last,
          processRelations cucache (getTags queries.tags) (getMembers queries.members) queries.rows
            maxTimestamp = .ok (relations, last) ∧
          Contains id db.relations (wanted objs) (RelationContent db cucache) relations) ↔
        Attributable cucache db.relations (wanted objs) ∧
          Undisturbed db.relations (wanted objs) (db.relationTags.map TagRow.key) ∧
          Undisturbed db.relations (wanted objs) (db.relationMembers.map MemberRow.key)) := by
  refine ⟨?_, ?_, ?_⟩
  · exact fun queries => processNodes_iff keys distinct queries maxTimestamp
  · exact fun queries => processWays_iff keys distinct queries maxTimestamp
  · exact fun queries => processRelations_iff keys distinct queries maxTimestamp

section Example

def plainNode (id : Int64) (redactionId : Option Int32) : NodeRow where
  id := id
  version := 1
  changesetId := 10
  visible := true
  timestamp := 1
  redactionId := redactionId
  longitude := 0
  latitude := 0

def nameTag (id : Int64) : TagRow where
  objectId := id
  version := 1
  k := "name".toList
  v := "x".toList

/-- Node 1 is redacted, node 2 is not. -/
def redactedFirst (nodeTags : List TagRow) : Database where
  nodes := [plainNode 1 (some 7), plainNode 2 none]
  nodeTags := nodeTags

def bothNodes : List Osmobj := [⟨.node, 1, 1, 10⟩, ⟨.node, 2, 1, 10⟩]
def oneChangeset : ChangesetUserLookup := [(10, ⟨5, "mapper".toList⟩)]

theorem redactedFirst_keys (tags : List TagRow) (present : ∀ row ∈ tags, row = nameTag 1 ∨ row = nameTag 2) :
    SchemaKeys (redactedFirst tags) where
  nodes :=
    show ([plainNode 1 (some 7), plainNode 2 none].map (fun row => row.toObjectRow) |>.map ObjectRow.key).Nodup by
      decide
  ways := List.nodup_nil
  relations := List.nodup_nil
  nodeTags := by
    intro child member
    obtain ⟨row, inside, rfl⟩ := List.mem_map.mp member
    rcases present row inside with rfl | rfl <;> simp [redactedFirst, plainNode, nameTag, ObjectRow.key, TagRow.key]
  wayTags := by intro child member; cases member
  wayNodes := by intro child member; cases member
  relationTags := by intro child member; cases member
  relationMembers := by intro child member; cases member

/-- Both tags are fetched, but the tag of the redacted node 1 hides the one of node 2. -/
theorem redacted_node_hides_tags :
    let db := redactedFirst [nameTag 1, nameTag 2]
    SchemaKeys db ∧ (wanted bothNodes).Nodup ∧
      ∃ queries : NodeQueries db (wanted bothNodes),
        processNodes oneChangeset (getTags queries.tags) queries.rows 0 =
          .ok ([⟨⟨2, 1, 10, true, 5, 1, "mapper".toList⟩, (0, 0), []⟩], 1) ∧
        ¬ ∃ nodes last,
          processNodes oneChangeset (getTags queries.tags) queries.rows 0 = .ok (nodes, last) ∧
          Contains NodeRow.toObjectRow db.nodes (wanted bothNodes) (NodeContent db oneChangeset) nodes := by
  have keys := redactedFirst_keys [nameTag 1, nameTag 2] (by simp)
  have distinct : (wanted bothNodes).Nodup := by decide
  let queries : NodeQueries (redactedFirst [nameTag 1, nameTag 2]) (wanted bothNodes) := {
    tags := [nameTag 1, nameTag 2]
    rows := [plainNode 1 (some 7), plainNode 2 none]
    tagsAnswer := ⟨by decide, List.pairwise_pair.mpr (Prod.Lex.toLex_le_toLex.mpr (.inl (by decide)))⟩
    rowsAnswer := ⟨by decide, by unfold objectOrder; decide⟩ }
  refine ⟨keys, distinct, queries, by decide, ?_⟩
  rw [processNodes_iff keys distinct queries]
  intro conditions
  have hidden := conditions.2 (plainNode 1 (some 7)).toObjectRow (by decide) (by decide) (by decide)
    (by decide) (plainNode 2 none).toObjectRow (by decide) (by decide) rfl (by decide)
  exact hidden (by decide)

/-- A redacted node without tags does no harm. -/
theorem change_file_content_bare :
    let db := redactedFirst [nameTag 2]
    ∀ queries : NodeQueries db (wanted bothNodes),
      ∃ nodes last, processNodes oneChangeset (getTags queries.tags) queries.rows 0 = .ok (nodes, last) ∧
        Contains NodeRow.toObjectRow db.nodes (wanted bothNodes) (NodeContent db oneChangeset) nodes := by
  intro db queries
  have keys := redactedFirst_keys [nameTag 2] (by simp)
  refine ((change_file_content_iff keys bothNodes (by decide) oneChangeset 0).1 queries).mpr ⟨?_, ?_⟩
  · unfold Attributable
    decide
  · decide

end Example

end Osmdbt
