import Osmdbt.Diff.Database
import Osmdbt.General.MergeWalk

/-! `process_nodes`, `process_ways` and `process_relations`: one loop over the
object rows that threads an iterator through each of the sorted child lists. -/

namespace Osmdbt

structure Tag where
  key : Text
  value : Text
  id : Int64
  version : UInt32
  deriving DecidableEq, Repr

/-- `get_tags` on the rows of its query. -/
def getTags (result : List TagRow) : List Tag :=
  result.map (fun row => { key := row.k, value := row.v, id := row.objectId, version := row.version })

structure WayNode where
  wayId : Int64
  nodeRef : Int64
  version : UInt32
  deriving DecidableEq, Repr

/-- `get_nodes` on the rows of its query. -/
def getNodes (result : List WayNodeRow) : List WayNode :=
  result.map (fun row => { wayId := row.wayId, nodeRef := row.nodeId, version := row.version })

structure Member where
  mrole : Text
  relationId : Int64
  mref : Int64
  version : UInt32
  mtype : ItemType
  deriving DecidableEq, Repr

/-- `type_from_char` on the three texts of `nwr_enum`. -/
def typeFromChar : NwrEnum → ItemType
  | .Node => .node
  | .Way => .way
  | .Relation => .relation

/-- `get_members` on the rows of its query. -/
def getMembers (result : List MemberRow) : List Member :=
  result.map (fun row => {
    mrole := row.memberRole, relationId := row.relationId, mref := row.memberId,
    version := row.version, mtype := typeFromChar row.memberType })

/-- The common shape of `add_tags`, `add_way_nodes` and `add_members`: entries of
one object version are consumed and added, any other entry is left in place. -/
def addEntries {β γ : Type} (id : β → Int64) (version : β → UInt32) (put : β → γ) :
    List β → Int64 → UInt32 → List β × List γ
  | [], _, _ => ([], [])
  | entry :: rest, wantedId, wantedVersion =>
    if id entry ≠ wantedId ∨ version entry ≠ wantedVersion then (entry :: rest, [])
    else
      let (it, added) := addEntries id version put rest wantedId wantedVersion
      (it, put entry :: added)

abbrev OsmTag := Text × Text
abbrev OsmMember := ItemType × Int64 × Text

def addTags : List Tag → Int64 → UInt32 → List Tag × List OsmTag :=
  addEntries Tag.id Tag.version (fun it => (it.key, it.value))

def addWayNodes : List WayNode → Int64 → UInt32 → List WayNode × List Int64 :=
  addEntries WayNode.wayId WayNode.version WayNode.nodeRef

def addMembers : List Member → Int64 → UInt32 → List Member × List OsmMember :=
  addEntries Member.relationId Member.version (fun it => (it.mtype, it.mref, it.mrole))

/-- What `set_attributes` puts on an object. -/
structure Attributes where
  id : Int64
  version : UInt32
  changeset : UInt32
  visible : Bool
  uid : UInt32
  timestamp : Timestamp
  user : Text
  deriving DecidableEq, Repr

/-- `as<osmium::changeset_id_type>()` -/
def asChangesetId (value : Int64) : Except Fault UInt32 :=
  if 0 ≤ value.toInt ∧ value.toInt < 2 ^ 32 then .ok (UInt32.ofInt value.toInt)
  else .error .conversionError

def setAttributes (cucache : ChangesetUserLookup) (row : ObjectRow) : Except Fault Attributes := do
  let cid ← asChangesetId row.changesetId
  let user ← cucache.at cid
  return {
    id := row.id, version := row.version, changeset := cid, visible := row.visible,
    uid := user.id, timestamp := row.timestamp, user := user.username }

/-- `if (timestamp > *max_timestamp) *max_timestamp = timestamp` -/
def raiseTimestamp (maxTimestamp : Timestamp) (row : ObjectRow) : Timestamp :=
  if maxTimestamp < row.timestamp then row.timestamp else maxTimestamp

section Loop

variable {ρ ι χ ω : Type}

/-- The row loop the three functions share. `attach` advances the child
iterators `it`, `build` is the finished object. -/
def processObjects (common : ρ → ObjectRow) (attach : ι → Int64 → UInt32 → ι × χ)
    (build : ρ → Attributes → χ → ω) (cucache : ChangesetUserLookup) :
    ι → List ρ → Timestamp → Except Fault (List ω × Timestamp)
  | _, [], maxTimestamp => .ok ([], maxTimestamp)
  | it, row :: rest, maxTimestamp =>
    let raised := raiseTimestamp maxTimestamp (common row)
    if (common row).redactionId.isSome then
      -- `continue`: the iterators stay in front of the children of this row
      processObjects common attach build cucache it rest raised
    else do
      let attributes ← setAttributes cucache (common row)
      let (next, children) := attach it (common row).id (common row).version
      let (objects, last) ← processObjects common attach build cucache next rest raised
      return (build row attributes children :: objects, last)

end Loop

structure OsmNode where
  attributes : Attributes
  location : Int32 × Int32
  tags : List OsmTag
  deriving DecidableEq, Repr

structure OsmWay where
  attributes : Attributes
  tags : List OsmTag
  nodes : List Int64
  deriving DecidableEq, Repr

structure OsmRelation where
  attributes : Attributes
  tags : List OsmTag
  members : List OsmMember
  deriving DecidableEq, Repr

def processNodes (cucache : ChangesetUserLookup) (tags : List Tag) (result : List NodeRow)
    (maxTimestamp : Timestamp) : Except Fault (List OsmNode × Timestamp) :=
  processObjects NodeRow.toObjectRow addTags
    (fun row attributes tags => { attributes, location := (row.longitude, row.latitude), tags })
    cucache tags result maxTimestamp

def processWays (cucache : ChangesetUserLookup) (tags : List Tag) (wayNodes : List WayNode)
    (result : List ObjectRow) (maxTimestamp : Timestamp) : Except Fault (List OsmWay × Timestamp) :=
  processObjects id
    (fun (it, wnIt) id version =>
      let (it, tags) := addTags it id version
      let (wnIt, nodes) := addWayNodes wnIt id version
      ((it, wnIt), (tags, nodes)))
    (fun _ attributes children => { attributes, tags := children.1, nodes := children.2 })
    cucache (tags, wayNodes) result maxTimestamp

def processRelations (cucache : ChangesetUserLookup) (tags : List Tag) (members : List Member)
    (result : List ObjectRow) (maxTimestamp : Timestamp) :
    Except Fault (List OsmRelation × Timestamp) :=
  processObjects id
    (fun (it, memberIt) id version =>
      let (it, tags) := addTags it id version
      let (memberIt, members) := addMembers memberIt id version
      ((it, memberIt), (tags, members)))
    (fun _ attributes children => { attributes, tags := children.1, members := children.2 })
    cucache (tags, members) result maxTimestamp

theorem addEntries_eq {β γ : Type} (id : β → Int64) (version : β → UInt32) (put : β → γ)
    (entries : List β) (wantedId : Int64) (wantedVersion : UInt32) :
    addEntries id version put entries wantedId wantedVersion =
      (entries.dropWhile (fun entry => key (id entry) (version entry) = key wantedId wantedVersion),
       (entries.takeWhile (fun entry => key (id entry) (version entry) = key wantedId wantedVersion)).map put) := by
  induction entries with
  | nil => rfl
  | cons entry rest ih =>
    by_cases same : key (id entry) (version entry) = key wantedId wantedVersion
    · obtain ⟨sameId, sameVersion⟩ := key_inj.mp same
      simp [addEntries, ih, sameId, sameVersion]
    · have other : id entry ≠ wantedId ∨ version entry ≠ wantedVersion := by
        by_contra both
        rw [not_or, not_not, not_not] at both
        exact same (key_inj.mpr both)
      simp [addEntries, same, other]

section Loop

variable {ρ ι χ ω : Type} {common : ρ → ObjectRow} {attach : ι → Int64 → UInt32 → ι × χ}
  {build : ρ → Attributes → χ → ω} {cucache : ChangesetUserLookup}

/-- The rows the loop does not skip. -/
def live (common : ρ → ObjectRow) (rows : List ρ) : List ρ :=
  rows.filter (fun row => (common row).redactionId.isNone)

/-- The children attached to each row when every row is kept. -/
def thread (common : ρ → ObjectRow) (attach : ι → Int64 → UInt32 → ι × χ) : ι → List ρ → List χ
  | _, [] => []
  | it, row :: rest =>
    let (next, children) := attach it (common row).id (common row).version
    children :: thread common attach next rest

theorem processObjects_skip {row : ρ} (redacted : (common row).redactionId.isSome = true)
    (it : ι) (rest : List ρ) (maxTimestamp : Timestamp) :
    processObjects common attach build cucache it (row :: rest) maxTimestamp =
      processObjects common attach build cucache it rest (raiseTimestamp maxTimestamp (common row)) := by
  rw [processObjects]
  simp [redacted]

theorem processObjects_keep {row : ρ} (kept : (common row).redactionId.isSome = false)
    (it : ι) (rest : List ρ) (maxTimestamp : Timestamp) :
    processObjects common attach build cucache it (row :: rest) maxTimestamp = (do
      let attributes ← setAttributes cucache (common row)
      let (objects, last) ← processObjects common attach build cucache
        (attach it (common row).id (common row).version).1 rest (raiseTimestamp maxTimestamp (common row))
      return (build row attributes (attach it (common row).id (common row).version).2 :: objects, last)) := by
  rw [processObjects]
  simp [kept]

/-- The loop ends with objects of the right content iff every kept row has its
attributes and every kept row is handed the right children. -/
theorem processObjects_iff (content : ρ → ω → Prop) (good : ρ → χ → Prop)
    (agree : ∀ row attributes children, setAttributes cucache (common row) = .ok attributes →
      (content row (build row attributes children) ↔ good row children))
    (it : ι) (rows : List ρ) (maxTimestamp : Timestamp) :
    (∃ objects last, processObjects common attach build cucache it rows maxTimestamp = .ok (objects, last) ∧
        List.Forall₂ content (live common rows) objects) ↔
      (∀ row ∈ live common rows, ∃ attributes, setAttributes cucache (common row) = .ok attributes) ∧
        List.Forall₂ good (live common rows) (thread common attach it (live common rows)) := by
  induction rows generalizing it maxTimestamp with
  | nil => simp [live, thread, processObjects]
  | cons row rest ih =>
    cases kept : (common row).redactionId.isSome with
    | true =>
      have dropped : live common (row :: rest) = live common rest := by
        simp [live, Option.isNone_eq_false_iff.mpr kept]
      rw [processObjects_skip kept, dropped]
      exact ih it _
    | false =>
      have stays : live common (row :: rest) = row :: live common rest := by
        simp [live, Option.isSome_eq_false_iff.mp kept]
      rw [processObjects_keep kept, stays, thread]
      cases attributed : setAttributes cucache (common row) with
      | error fault =>
        constructor
        · rintro ⟨objects, last, success, _⟩
          cases success
        · rintro ⟨every, _⟩
          obtain ⟨attributes, found⟩ := every row (by simp)
          rw [attributed] at found
          cases found
      | ok attributes =>
        have tail := ih (attach it (common row).id (common row).version).1
          (raiseTimestamp maxTimestamp (common row))
        have head := agree row attributes (attach it (common row).id (common row).version).2 attributed
        constructor
        · rintro ⟨objects, last, success, matches'⟩
          cases later : processObjects common attach build cucache
              (attach it (common row).id (common row).version).1 rest
              (raiseTimestamp maxTimestamp (common row)) with
          | error fault =>
            simp only [later, bind, Except.bind] at success
            cases success
          | ok result =>
            simp only [later, bind, Except.bind, pure, Except.pure, Except.ok.injEq,
              Prod.mk.injEq] at success
            obtain ⟨rfl, rfl⟩ := success
            obtain ⟨here, others⟩ := List.forall₂_cons.mp matches'
            obtain ⟨every, threaded⟩ := tail.mp ⟨result.1, result.2, later, others⟩
            refine ⟨?_, .cons (head.mp here) threaded⟩
            intro other member
            rcases List.mem_cons.mp member with rfl | inside
            · exact ⟨attributes, attributed⟩
            · exact every other inside
        · rintro ⟨every, threaded⟩
          obtain ⟨here, others⟩ := List.forall₂_cons.mp threaded
          obtain ⟨objects, last, later, matches'⟩ :=
            tail.mpr ⟨fun other inside => every other (List.mem_cons_of_mem _ inside), others⟩
          refine ⟨_, last, ?_, .cons (head.mpr here) matches'⟩
          simp only [later, bind, Except.bind, pure, Except.pure]

/-- The children an `add_*` function hands out are the blocks of the merge walk. -/
theorem thread_addEntries {β γ : Type} (id : β → Int64) (version : β → UInt32) (put : β → γ)
    (entries : List β) (rows : List ρ) :
    thread common (addEntries id version put) entries rows =
      (MergeWalk.walk (fun entry => key (id entry) (version entry))
        (rows.map (fun row => (common row).key)) entries).map (List.map put) := by
  induction rows generalizing entries with
  | nil => rfl
  | cons row rest ih =>
    simp only [thread, List.map_cons, MergeWalk.walk, addEntries_eq, ih]
    rfl

/-- Two iterators advance independently. -/
theorem thread_pair {ι' χ' : Type} (attach : ι → Int64 → UInt32 → ι × χ)
    (attach' : ι' → Int64 → UInt32 → ι' × χ') (it : ι) (it' : ι') (rows : List ρ) :
    thread common (fun (its : ι × ι') id version =>
      (((attach its.1 id version).1, (attach' its.2 id version).1),
        ((attach its.1 id version).2, (attach' its.2 id version).2))) (it, it') rows =
      (thread common attach it rows).zip (thread common attach' it' rows) := by
  induction rows generalizing it it' with
  | nil => rfl
  | cons row rest ih => simp only [thread, ih, List.zip_cons_cons]

end Loop

end Osmdbt
