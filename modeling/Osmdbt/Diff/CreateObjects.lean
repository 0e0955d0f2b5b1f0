import Osmdbt.Diff.Objects

/-! From the entries of the log files to the objects of the change file. The
queries are parameters, so that the same functions run on given answers and as
part of the whole program. -/

namespace Osmdbt

/-- A row of the query in `populate_changeset_cache`. -/
structure ChangesetUser where
  cid : Int64
  uid : Int64
  username : Text
  deriving DecidableEq, Repr

/-- The queries of create-diff. `wanted` is the list of the VALUES clause. -/
structure Queries (m : Type → Type) where
  changesetUsers : List UInt32 → m (List ChangesetUser)
  tags : ItemType → List Key → m (List TagRow)
  wayNodes : List Key → m (List WayNodeRow)
  members : List Key → m (List MemberRow)
  nodes : List Key → m (List NodeRow)
  ways : List Key → m (List ObjectRow)
  relations : List Key → m (List ObjectRow)

/-- `wanted`: the `VALUES` list of the queries. -/
def wanted (objs : List Osmobj) : List Key := objs.map Osmobj.key

/-- `as<osmium::user_id_type>()` -/
def asUserId (value : Int64) : Except Fault UInt32 :=
  if 0 ≤ value.toInt ∧ value.toInt < 2 ^ 32 then .ok (UInt32.ofInt value.toInt)
  else .error .conversionError

/-- The loop of `populate_changeset_cache`. -/
def fillCache (cucache : ChangesetUserLookup) (result : List ChangesetUser) : Except Fault ChangesetUserLookup :=
  result.foldlM (fun cucache row => do
    let cid ← asChangesetId row.cid
    let uid ← asUserId row.uid
    return cucache.set cid { id := uid, username := row.username }) cucache

structure DiffObjects where
  nodes : List OsmNode := []
  ways : List OsmWay := []
  relations : List OsmRelation := []
  deriving DecidableEq, Repr

section Monadic

variable {m : Type → Type} [Monad m] [MonadLiftT (Except Fault) m]

def populateChangesetCache (queries : Queries m) (cucache : ChangesetUserLookup) : m ChangesetUserLookup := do
  let result ← queries.changesetUsers (cucache.map Prod.fst)
  fillCache cucache result

def queryNodes (queries : Queries m) (cucache : ChangesetUserLookup) (objs : List Osmobj)
    (maxTimestamp : Timestamp) : m (List OsmNode × Timestamp) := do
  let tags ← queries.tags .node (wanted objs)
  let result ← queries.nodes (wanted objs)
  processNodes cucache (getTags tags) result maxTimestamp

def queryWays (queries : Queries m) (cucache : ChangesetUserLookup) (objs : List Osmobj)
    (maxTimestamp : Timestamp) : m (List OsmWay × Timestamp) := do
  let tags ← queries.tags .way (wanted objs)
  let wayNodes ← queries.wayNodes (wanted objs)
  let result ← queries.ways (wanted objs)
  processWays cucache (getTags tags) (getNodes wayNodes) result maxTimestamp

def queryRelations (queries : Queries m) (cucache : ChangesetUserLookup) (objs : List Osmobj)
    (maxTimestamp : Timestamp) : m (List OsmRelation × Timestamp) := do
  let tags ← queries.tags .relation (wanted objs)
  let members ← queries.members (wanted objs)
  let result ← queries.relations (wanted objs)
  processRelations cucache (getTags tags) (getMembers members) result maxTimestamp

/-- A type without entries is skipped. -/
def unlessEmpty {ω : Type} (objs : List Osmobj) (maxTimestamp : Timestamp)
    (process : m (List ω × Timestamp)) : m (List ω × Timestamp) :=
  if objs.isEmpty then pure ([], maxTimestamp) else process

/-- The three buffers that are handed to the writer, and the largest timestamp. -/
def processTypes (queries : Queries m) (cucache : ChangesetUserLookup) (objects : Osmobjects) :
    m (DiffObjects × Timestamp) := do
  let (nodes, maxTimestamp) ← unlessEmpty objects.nodes 0 (queryNodes queries cucache objects.nodes 0)
  let (ways, maxTimestamp) ← unlessEmpty objects.ways maxTimestamp
    (queryWays queries cucache objects.ways maxTimestamp)
  let (relations, maxTimestamp) ← unlessEmpty objects.relations maxTimestamp
    (queryRelations queries cucache objects.relations maxTimestamp)
  return ({ nodes, ways, relations }, maxTimestamp)

end Monadic

end Osmdbt
