import Osmdbt.Diff.Results

/-! The users of the written objects, when the log files agree with the database. -/

namespace Osmdbt

open General

/-- The log lines say what the database says: the changeset of each object version, which has a user. -/
structure LogsAgree (db : Database) (entries : List Osmobj) : Prop where
  line : ∀ obj ∈ entries, ∀ row ∈ db.objects obj.type, row.key = obj.key → row.changesetId.toInt = obj.cid.toNat
  user : ∀ obj ∈ entries, ∀ row ∈ db.objects obj.type, row.key = obj.key →
    ∃ changeset ∈ db.changesets, changeset.id = row.changesetId ∧ ∃ user ∈ db.users, user.id = changeset.userId

/-- The attributes name the user of the changeset of the row. -/
def OwnUser (db : Database) (row : ObjectRow) (attributes : Attributes) : Prop :=
  ∃ changeset ∈ db.changesets, ∃ user ∈ db.users, changeset.id = row.changesetId ∧ user.id = changeset.userId ∧
    (attributes.uid.toNat : Int) = user.id.toInt ∧ attributes.user = user.displayName

/-- The query for the rows of one type. -/
def Queries.objectRows (queries : Queries (Except Fault)) (asked : List Key) : ItemType → Except Fault (List ObjectRow)
  | .node => List.map NodeRow.toObjectRow <$> queries.nodes asked
  | .way => queries.ways asked
  | .relation => queries.relations asked

/-- The attributes of the written objects of one type. -/
def DiffObjects.attributes (objects : DiffObjects) : ItemType → List Attributes
  | .node => objects.nodes.map OsmNode.attributes
  | .way => objects.ways.map OsmWay.attributes
  | .relation => objects.relations.map OsmRelation.attributes

/-- A user id that the program can hold. -/
def UserIdFits (changeset : ChangesetRow) : Prop := 0 ≤ changeset.userId.toInt ∧ changeset.userId.toInt < 2 ^ 32

section Rows

variable {db : Database} {queries : Queries (Except Fault)} {entries : List Osmobj} {filled : ChangesetUserLookup}

private theorem objectRows_mem (answering : Answering db queries) {asked : List Key} {type : ItemType}
    {rows : List ObjectRow}
    (success : queries.objectRows asked type = .ok rows) {row : ObjectRow} (member : row ∈ rows) :
    row ∈ db.objects type ∧ row.key ∈ asked := by
  cases type with
  | node =>
    obtain ⟨result, answer, complete⟩ := answering.nodes asked
    rw [Queries.objectRows, answer] at success
    obtain rfl : result.map NodeRow.toObjectRow = rows := Except.ok.inj success
    obtain ⟨node, inside, rfl⟩ := List.mem_map.mp member
    obtain ⟨present, key⟩ := mem_innerJoin.mp (complete.complete.mem_iff.mp inside)
    exact ⟨List.mem_map.mpr ⟨node, present, rfl⟩, key⟩
  | way =>
    obtain ⟨result, answer, complete⟩ := answering.ways asked
    obtain rfl : result = rows := Except.ok.inj (answer.symm.trans success)
    exact mem_innerJoin.mp (complete.complete.mem_iff.mp member)
  | relation =>
    obtain ⟨result, answer, complete⟩ := answering.relations asked
    obtain rfl : result = rows := Except.ok.inj (answer.symm.trans success)
    exact mem_innerJoin.mp (complete.complete.mem_iff.mp member)

/-- The key of the row's own line is in the cache, and it was filled from the row's changeset. -/
private theorem setAttributes_own (answering : Answering db queries) (keys : PrimaryKeys db)
    (agree : LogsAgree db entries)
    (populated : populateChangesetCache queries (entries.foldl LogContent.add {}).cucache = .ok filled) {obj : Osmobj}
    (logged : obj ∈ entries) {row : ObjectRow} (present : row ∈ db.objects obj.type) (same : row.key = obj.key) :
    ∃ attributes, setAttributes filled row = .ok attributes ∧ OwnUser db row attributes := by
  have line := agree.line obj logged row present same
  obtain ⟨changeset, known, own, user, registered, author⟩ := agree.user obj logged row present same
  have asked : obj.cid ∈ (entries.foldl LogContent.add {}).cucache.map Prod.fst := by
    rw [keys_foldl_add]
    exact .inr ⟨obj, logged, rfl⟩
  let found : ChangesetUser := { cid := changeset.id, uid := changeset.userId, username := user.displayName }
  have joined : found ∈ changesetUsers db := by
    refine List.mem_flatMap.mpr ⟨changeset, known, List.mem_map.mpr ⟨user, List.mem_filter.mpr ⟨registered, ?_⟩, rfl⟩⟩
    exact decide_eq_true author
  have cid : found.cid.toInt = (obj.cid.toNat : Int) := by
    rw [← line, ← own]
  obtain ⟨uid, converted⟩ := ((populate_succeeds answering).mp ⟨filled, populated⟩
    found joined ⟨obj.cid, asked, cid⟩).2
  have stored : filled.lookup obj.cid = some ⟨uid, user.displayName⟩ :=
    (populate_lookup answering keys populated).mpr
      ⟨asked, .inl ⟨found, joined, asChangesetId_eq.mpr cid, converted, rfl⟩⟩
  have uid' : changeset.userId.toInt = (uid.toNat : Int) := asChangesetId_eq.mp converted
  refine ⟨⟨row.id, row.version, obj.cid, row.visible, uid, row.timestamp, user.displayName⟩, ?_,
    changeset, known, user, registered, own, author, ?_, rfl⟩
  · unfold setAttributes
    rw [asChangesetId_eq.mpr line]
    simp only [ChangesetUserLookup.at, stored, bind, Except.bind, pure, Except.pure]
  · rw [author, uid']

end Rows

section Loop

variable {ρ ι χ ω : Type} {common : ρ → ObjectRow} {attach : ι → Int64 → UInt32 → ι × χ}
    {build : ρ → Attributes → χ → ω}
  {cucache : ChangesetUserLookup}

/-- Every written object has the attributes of a row. -/
private theorem processObjects_attributes {attributesOf : ω → Attributes} (built : ∀ row attributes children,
      attributesOf (build row attributes children) = attributes)
    {it : ι} {rows : List ρ} {maxTimestamp : Timestamp} {result : List ω × Timestamp}
    (success : processObjects common attach build cucache it rows maxTimestamp = .ok result) :
    ∀ attributes ∈ result.1.map attributesOf, ∃ row ∈ rows, setAttributes cucache (common row) = .ok attributes := by
  induction rows generalizing it maxTimestamp result with
  | nil =>
    obtain rfl := Except.ok.inj success
    exact fun _ none => absurd none List.not_mem_nil
  | cons row rest ih =>
    intro attributes member
    cases kept : (common row).redactionId.isSome with
    | true =>
      rw [processObjects_skip kept] at success
      obtain ⟨other, inside, found⟩ := ih success attributes member
      exact ⟨other, List.mem_cons_of_mem _ inside, found⟩
    | false =>
      rw [processObjects_keep kept] at success
      cases attributed : setAttributes cucache (common row) with
      | error fault => simp [attributed, bind, Except.bind] at success
      | ok own =>
        cases later : processObjects common attach build cucache
          (attach it (common row).id (common row).version).1 rest
            (raiseTimestamp maxTimestamp (common row)) with
        | error fault => simp [attributed, later, bind, Except.bind] at success
        | ok objects =>
          simp only [attributed, later, bind, Except.bind, pure, Except.pure] at success
          obtain rfl := Except.ok.inj success
          rw [List.map_cons, built] at member
          rcases List.mem_cons.mp member with rfl | inside
          · exact ⟨row, List.mem_cons_self, attributed⟩
          · obtain ⟨other, present, found⟩ := ih later attributes inside
            exact ⟨other, List.mem_cons_of_mem _ present, found⟩

/-- The rows are an answer, so they are the rows of the table that were asked for. -/
theorem answered_attributes {attributesOf : ω → Attributes} (built : ∀ row attributes children,
      attributesOf (build row attributes children) = attributes) {order : ρ → ρ → Prop} {asked : List Key}
      {table rows : List ρ}
    (answer : Answer order (innerJoin asked (fun row => (common row).key) table) rows) {it : ι}
    {maxTimestamp : Timestamp}
    {result : List ω × Timestamp}
    (success : processObjects common attach build cucache it rows maxTimestamp = .ok result) :
    ∀ attributes ∈ result.1.map attributesOf, ∃ row ∈ table, (common row).key ∈ asked ∧
        setAttributes cucache (common row) = .ok attributes := by
  intro attributes member
  obtain ⟨row, returned, found⟩ := processObjects_attributes built success attributes member
  obtain ⟨present, key⟩ := mem_innerJoin.mp (answer.complete.mem_iff.mp returned)
  exact ⟨row, present, key, found⟩

/-- What holds of everything the queries of a type lead to holds when they are left out. -/
theorem unlessEmpty_each {objs : List Osmobj} {run : List ω × Timestamp} {ts : Timestamp}
    {process : Except Fault (List ω × Timestamp)}
    {attributesOf : ω → Attributes} {holds : Attributes → Prop} (success : unlessEmpty objs ts process = .ok run)
    (each : process = .ok run → ∀ attributes ∈ run.1.map attributesOf, holds attributes) :
    ∀ attributes ∈ run.1.map attributesOf, holds attributes := by
  unfold unlessEmpty at success
  split at success
  · obtain rfl := Except.ok.inj success
    exact fun _ none => absurd none List.not_mem_nil
  · exact each success

end Loop

section Types

variable {db : Database} {queries : Queries (Except Fault)} {cucache : ChangesetUserLookup} {objects : Osmobjects}

/-- Every written object has the attributes of a row the query returned. -/
private theorem processTypes_attributes (answering : Answering db queries) {written : DiffObjects} {last : Timestamp}
    (success : processTypes queries cucache objects = .ok (written, last)) (type : ItemType) :
    ∀ attributes ∈ written.attributes type, ∃ row ∈ db.objects type, row.key ∈ wanted (objects.ofType type) ∧
      setAttributes cucache row = .ok attributes := by
  obtain ⟨first, second, nodes, ways, relations⟩ := processTypes_ok success
  cases type with
  | node =>
    refine unlessEmpty_each nodes (fun run attributes member => ?_)
    obtain ⟨tags, askedTags, _⟩ := answering.tags .node (wanted objects.nodes)
    obtain ⟨result, askedNodes, answer⟩ := answering.nodes (wanted objects.nodes)
    rw [queryNodes_eq cucache askedTags askedNodes] at run
    obtain ⟨row, present, found⟩ := answered_attributes (fun _ _ _ => rfl) answer run attributes member
    exact ⟨row.toObjectRow, List.mem_map.mpr ⟨row, present, rfl⟩, found⟩
  | way =>
    refine unlessEmpty_each ways (fun run => ?_)
    obtain ⟨tags, askedTags, _⟩ := answering.tags .way (wanted objects.ways)
    obtain ⟨nodes, askedNodes, _⟩ := answering.wayNodes (wanted objects.ways)
    obtain ⟨result, askedWays, answer⟩ := answering.ways (wanted objects.ways)
    rw [queryWays_eq cucache askedTags askedNodes askedWays] at run
    exact answered_attributes (fun _ _ _ => rfl) answer run
  | relation =>
    refine unlessEmpty_each relations (fun run => ?_)
    obtain ⟨tags, askedTags, _⟩ := answering.tags .relation (wanted objects.relations)
    obtain ⟨members, askedMembers, _⟩ := answering.members (wanted objects.relations)
    obtain ⟨result, askedRelations, answer⟩ := answering.relations (wanted objects.relations)
    rw [queryRelations_eq cucache askedTags askedMembers askedRelations] at run
    exact answered_attributes (fun _ _ _ => rfl) answer run

end Types

/-- No lookup fails for a row of the object queries, and every object that is written has the
user of its own changeset. -/
theorem changesetUsers_found {db : Database} {queries : Queries (Except Fault)} {files : List Text}
    {content : LogContent}
    (schema : SchemaKeys db) (keys : PrimaryKeys db) (answering : Answering db queries)
    (read : files.foldlM readLog {} = .ok content)
    (agree : ∀ entries, readEntries files = .ok entries → LogsAgree db entries) :
    ((∀ changeset ∈ db.changesets, UserIdFits changeset) →
      ∃ filled, populateChangesetCache queries content.cucache = .ok filled) ∧
    ∀ filled, populateChangesetCache queries content.cucache = .ok filled →
      (∀ type rows, queries.objectRows (content.asked type) type = .ok rows →
        ∀ row ∈ rows, ∃ attributes, setAttributes filled row = .ok attributes ∧ OwnUser db row attributes) ∧
      ∃ written last, processTypes queries filled content.objects.sort = .ok (written, last) ∧
        ∀ type, ∀ attributes ∈ written.attributes type, ∃ row ∈ db.objects type, attributes.key = row.key ∧
          OwnUser db row attributes := by
  rw [readLogs_eq] at read
  cases entered : readEntries files with
  | error fault => simp [entered, Functor.map, Except.map] at read
  | ok entries =>
    rw [entered] at read
    obtain rfl := Except.ok.inj read
    have agreed := agree entries entered
    constructor
    · intro fits
      rw [populate_succeeds answering]
      rintro row joined ⟨cid, _, same⟩
      obtain ⟨changeset, known, inside⟩ := List.mem_flatMap.mp joined
      obtain ⟨user, _, rfl⟩ := List.mem_map.mp inside
      exact ⟨⟨cid, asChangesetId_eq.mpr same⟩, _, if_pos (fits changeset known)⟩
    intro filled populated
    have own (type : ItemType) (row : ObjectRow) (present : row ∈ db.objects type)
        (key : row.key ∈ (entries.foldl LogContent.add {}).asked type) :
        ∃ attributes, setAttributes filled row = .ok attributes ∧ OwnUser db row attributes := by
      obtain ⟨obj, logged, rfl, same⟩ := (mem_wanted_sorted type row.key).mp key
      exact setAttributes_own answering keys agreed populated logged present same.symm
    constructor
    · intro type rows success row member
      obtain ⟨present, key⟩ := objectRows_mem answering success member
      exact own type row present key
    · obtain ⟨⟨written, last⟩, success⟩ := (processTypes_succeeds schema answering filled).mpr
        (fun type row present key _ => by
        obtain ⟨attributes, found, _⟩ := own type row present key
        exact setAttributes_iff.mp ⟨attributes, found⟩)
      refine ⟨written, last, success, fun type attributes member => ?_⟩
      obtain ⟨row, present, key, found⟩ := processTypes_attributes answering success type attributes member
      obtain ⟨attributes', found', user⟩ := own type row present key
      obtain rfl : attributes = attributes' := Except.ok.inj (found.symm.trans found')
      have content := setAttributes_hasAttributes found
      exact ⟨row, present, by rw [Attributes.key, content.id, content.version]; rfl, user⟩

private theorem taggedNode_agree : LogsAgree taggedNode [loggedNode, loggedNode] where
  line := by decide
  user := by decide

/-- A node that is in two log files. -/
theorem changesetUsers_found_node : ∃ filled written last,
    populateChangesetCache (tableQueries taggedNode)
      ([loggedNode, loggedNode].foldl LogContent.add {}).cucache = .ok filled ∧
    processTypes (tableQueries taggedNode) filled ([loggedNode, loggedNode].foldl LogContent.add {}).objects.sort =
      .ok (written, last) ∧
    ∀ attributes ∈ written.attributes .node, ∃ row ∈ taggedNode.objects .node, attributes.key = row.key ∧
      OwnUser taggedNode row attributes := by
  have read : [onceLogged, onceLogged].foldlM readLog {} = .ok ([loggedNode, loggedNode].foldl LogContent.add {}) := by
    rw [readLogs_eq, readEntries_twiceLogged]
    rfl
  have agree : ∀ entries, readEntries [onceLogged, onceLogged] = .ok entries → LogsAgree taggedNode entries := by
    intro entries success
    obtain rfl := Except.ok.inj (readEntries_twiceLogged.symm.trans success)
    exact taggedNode_agree
  obtain ⟨fill, looked⟩ := changesetUsers_found taggedNode_schema taggedNode_keys taggedNode_answering read agree
  obtain ⟨filled, populated⟩ := fill (by unfold UserIdFits; decide)
  obtain ⟨_, written, last, success, users⟩ := looked filled populated
  exact ⟨filled, written, last, populated, success, users .node⟩

end Osmdbt
