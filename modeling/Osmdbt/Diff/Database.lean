import Osmdbt.Log.Osmobj

/-! The tables create-diff and fake-log read and what the queries may return. A version
column is kept as the 32-bit version of the program: create-diff joins only rows whose
version equals a wanted one, and a larger one that fake-log selects ends its run, because
`as<object_version_type>` raises. -/

namespace Osmdbt

/-- The columns of `nodes`, `ways` and `relations` that are always selected. -/
structure ObjectRow where
  id : Int64
  version : UInt32
  changesetId : Int64
  visible : Bool
  timestamp : Timestamp
  redactionId : Option Int32
  deriving DecidableEq, Repr

structure NodeRow extends ObjectRow where
  longitude : Int32
  latitude : Int32
  deriving DecidableEq, Repr

/-- `node_tags`, `way_tags` and `relation_tags` -/
structure TagRow where
  objectId : Int64
  version : UInt32
  k : Text
  v : Text
  deriving DecidableEq, Repr

structure WayNodeRow where
  wayId : Int64
  version : UInt32
  sequenceId : Int64
  nodeId : Int64
  deriving DecidableEq, Repr

/-- `nwr_enum` -/
inductive NwrEnum where
  | Node
  | Way
  | Relation
  deriving DecidableEq, Repr

structure MemberRow where
  relationId : Int64
  version : UInt32
  sequenceId : Int32
  memberType : NwrEnum
  memberId : Int64
  memberRole : Text
  deriving DecidableEq, Repr

structure ChangesetRow where
  id : Int64
  userId : Int64
  deriving DecidableEq, Repr

structure UserRow where
  id : Int64
  displayName : Text
  deriving DecidableEq, Repr

structure Database where
  changesets : List ChangesetRow := []
  users : List UserRow := []
  nodes : List NodeRow := []
  nodeTags : List TagRow := []
  ways : List ObjectRow := []
  wayTags : List TagRow := []
  wayNodes : List WayNodeRow := []
  relations : List ObjectRow := []
  relationTags : List TagRow := []
  relationMembers : List MemberRow := []

def ObjectRow.key (row : ObjectRow) : Key := Osmdbt.key row.id row.version
def TagRow.key (row : TagRow) : Key := Osmdbt.key row.objectId row.version
def WayNodeRow.key (row : WayNodeRow) : Key := Osmdbt.key row.wayId row.version
def MemberRow.key (row : MemberRow) : Key := Osmdbt.key row.relationId row.version

/-- Primary key of an object table and foreign keys of its child tables. -/
def ObjectKeys (objects : List ObjectRow) : Prop := (objects.map ObjectRow.key).Nodup

def References (objects : List ObjectRow) (children : List Key) : Prop :=
  ∀ child ∈ children, child ∈ objects.map ObjectRow.key

structure SchemaKeys (db : Database) : Prop where
  nodes : ObjectKeys (db.nodes.map NodeRow.toObjectRow)
  ways : ObjectKeys db.ways
  relations : ObjectKeys db.relations
  nodeTags : References (db.nodes.map NodeRow.toObjectRow) (db.nodeTags.map TagRow.key)
  wayTags : References db.ways (db.wayTags.map TagRow.key)
  wayNodes : References db.ways (db.wayNodes.map WayNodeRow.key)
  relationTags : References db.relations (db.relationTags.map TagRow.key)
  relationMembers : References db.relations (db.relationMembers.map MemberRow.key)

def Database.objectRows (db : Database) : ItemType → List ObjectRow
  | .node => db.nodes.map NodeRow.toObjectRow
  | .way => db.ways
  | .relation => db.relations

/-- The columns of the statements of fake-log. -/
structure ChangeRow where
  ts : Int
  id : Int64
  version : UInt32
  changesetId : Int64
  deriving DecidableEq, Repr

/-- `EXTRACT(EPOCH FROM date_trunc('minute', "timestamp"))` -/
def ObjectRow.minute (row : ObjectRow) : Int := (row.timestamp.toNat / 60 * 60 : Nat)

def ObjectRow.change (row : ObjectRow) : ChangeRow where
  ts := row.minute
  id := row.id
  version := row.version
  changesetId := row.changesetId

/-- `WHERE "timestamp" >= $1` -/
def changesSince (db : Database) (type : ItemType) (start : Timestamp) : List ObjectRow :=
  (db.objectRows type).filter (fun row => start ≤ row.timestamp)

/-- `ORDER BY "timestamp", node_id, version` -/
def changeOrder (a b : ObjectRow) : Prop :=
  toLex (a.timestamp.toNat, a.key) ≤ toLex (b.timestamp.toNat, b.key)

/-- `INNER JOIN wanted` on id and version: one copy of a row for every wanted
pair that equals its key. -/
def innerJoin {ρ : Type} (wanted : List Key) (key : ρ → Key) (rows : List ρ) : List ρ :=
  wanted.flatMap (fun pair => rows.filter (fun row => key row = pair))

/-- What a query may return: the joined rows in an order that respects `ORDER BY`. -/
structure Answer {ρ : Type} (le : ρ → ρ → Prop) (joined result : List ρ) : Prop where
  complete : result.Perm joined
  ordered : result.Pairwise le

/-- `ORDER BY w.id, w.version` -/
def objectOrder (a b : ObjectRow) : Prop := a.key ≤ b.key

/-- `ORDER BY w.id, w.version, t.k COLLATE "C"` -/
def tagOrder (a b : TagRow) : Prop := toLex (a.key, a.k) ≤ toLex (b.key, b.k)

/-- `ORDER BY wn.way_id, wn.version, wn.sequence_id` -/
def wayNodeOrder (a b : WayNodeRow) : Prop :=
  toLex (a.key, a.sequenceId.toInt) ≤ toLex (b.key, b.sequenceId.toInt)

/-- `ORDER BY m.relation_id, m.version, m.sequence_id` -/
def memberOrder (a b : MemberRow) : Prop :=
  toLex (a.key, a.sequenceId.toInt) ≤ toLex (b.key, b.sequenceId.toInt)

section Join

variable {ρ : Type} {key : ρ → Key} {rows : List ρ} {wanted : List Key}

theorem mem_innerJoin {row : ρ} : row ∈ innerJoin wanted key rows ↔ row ∈ rows ∧ key row ∈ wanted := by
  simp only [innerJoin, List.mem_flatMap, List.mem_filter, decide_eq_true_eq]
  constructor
  · rintro ⟨pair, asked, present, rfl⟩
    exact ⟨present, asked⟩
  · rintro ⟨present, asked⟩
    exact ⟨key row, asked, present, rfl⟩

/-- With unique keys on both sides the join is a selection. -/
theorem innerJoin_perm (distinct : wanted.Nodup) (unique : (rows.map key).Nodup) :
    (innerJoin wanted key rows).Perm (rows.filter (fun row => key row ∈ wanted)) := by
  have rowsNodup := List.Nodup.of_map key unique
  apply (List.perm_ext_iff_of_nodup _ (rowsNodup.filter _)).mpr
  · intro row
    simp [mem_innerJoin]
  · apply List.nodup_flatMap.mpr
    refine ⟨fun pair _ => rowsNodup.filter _, ?_⟩
    apply List.Pairwise.imp _ distinct
    intro pair other different row here there
    have first : key row = pair := by simpa using (List.mem_filter.mp here).2
    have second : key row = other := by simpa using (List.mem_filter.mp there).2
    exact different (first.symm.trans second)

/-- The block of one wanted key in an answer: that key's own rows. -/
theorem innerJoin_block (distinct : wanted.Nodup) {pair : Key} (asked : pair ∈ wanted) :
    (innerJoin wanted key rows).filter (fun row => key row = pair) =
      rows.filter (fun row => key row = pair) := by
  rw [innerJoin, List.filter_flatMap]
  have other : ∀ name ∈ wanted, (rows.filter (fun row => key row = name)).filter
      (fun row => key row = pair) = if name = pair then rows.filter (fun row => key row = pair) else [] := by
    intro name _
    by_cases same : name = pair
    · subst same; simp
    · rw [if_neg same]
      apply List.filter_eq_nil_iff.mpr
      intro row member
      have found : key row = name := by simpa using (List.mem_filter.mp member).2
      simpa [found] using same
  rw [List.flatMap_congr other]
  clear other
  induction wanted with
  | nil => simp at asked
  | cons head tail ih =>
    have fresh := (List.nodup_cons.mp distinct).1
    by_cases here : head = pair
    · subst here
      have rest : tail.flatMap (fun name => if name = head then
          rows.filter (fun row => key row = head) else []) = [] := by
        apply List.flatMap_eq_nil_iff.mpr
        intro name member
        rw [if_neg (fun same : name = head => fresh (same ▸ member))]
      simp [rest]
    · have inside : pair ∈ tail := by
        rcases List.mem_cons.mp asked with same | inside
        · exact absurd same.symm here
        · exact inside
      simp [here, ih distinct.of_cons inside]

end Join

end Osmdbt
