import Osmdbt.Diff.CreateObjects

/-! The changeset cache: what the query of `populate_changeset_cache` may return,
and which users are found in the cache afterwards. -/

namespace Osmdbt

open General

def Database.tags (db : Database) : ItemType → List TagRow
  | .node => db.nodeTags
  | .way => db.wayTags
  | .relation => db.relationTags

/-- The primary keys of the tables beside the object tables. -/
structure PrimaryKeys (db : Database) : Prop where
  changesets : (db.changesets.map ChangesetRow.id).Nodup
  users : (db.users.map UserRow.id).Nodup
  tags : ∀ type, ((db.tags type).map (fun row => (row.key, row.k))).Nodup
  wayNodes : (db.wayNodes.map (fun row => (row.key, row.sequenceId))).Nodup
  members : (db.relationMembers.map (fun row => (row.key, row.sequenceId))).Nodup

/-- `FROM changesets c, users u WHERE c.user_id = u.id` -/
def changesetUsers (db : Database) : List ChangesetUser :=
  db.changesets.flatMap (fun changeset =>
    (db.users.filter (fun user => user.id = changeset.userId)).map
      (fun user => { cid := changeset.id, uid := changeset.userId, username := user.displayName }))

/-- `c.id IN (...)` -/
def askedFor (cids : List UInt32) (row : ChangesetUser) : Prop :=
  ∃ cid ∈ cids, row.cid.toInt = (cid.toNat : Int)

instance (cids : List UInt32) (row : ChangesetUser) : Decidable (askedFor cids row) :=
  inferInstanceAs (Decidable (∃ cid ∈ cids, row.cid.toInt = (cid.toNat : Int)))

/-- Every query is answered from the tables of `db`. -/
structure Answering (db : Database) (queries : Queries (Except Fault)) : Prop where
  changesetUsers : ∀ cids, ∃ result, queries.changesetUsers cids = .ok result ∧
    result.Perm ((changesetUsers db).filter (fun row => askedFor cids row))
  tags : ∀ type asked, ∃ result, queries.tags type asked = .ok result ∧
    Answer tagOrder (innerJoin asked TagRow.key (db.tags type)) result
  wayNodes : ∀ asked, ∃ result, queries.wayNodes asked = .ok result ∧
    Answer wayNodeOrder (innerJoin asked WayNodeRow.key db.wayNodes) result
  members : ∀ asked, ∃ result, queries.members asked = .ok result ∧
    Answer memberOrder (innerJoin asked MemberRow.key db.relationMembers) result
  nodes : ∀ asked, ∃ result, queries.nodes asked = .ok result ∧
    Answer (fun a b => objectOrder a.toObjectRow b.toObjectRow)
      (innerJoin asked (fun row => row.toObjectRow.key) db.nodes) result
  ways : ∀ asked, ∃ result, queries.ways asked = .ok result ∧
    Answer objectOrder (innerJoin asked ObjectRow.key db.ways) result
  relations : ∀ asked, ∃ result, queries.relations asked = .ok result ∧
    Answer objectOrder (innerJoin asked ObjectRow.key db.relations) result

theorem nodup_changesetUsers {db : Database} (keys : PrimaryKeys db) :
    ((changesetUsers db).map ChangesetUser.cid).Nodup := by
  unfold changesetUsers
  rw [List.map_flatMap]
  have own (changeset : ChangesetRow) : ∀ cid ∈ ((db.users.filter (fun user => user.id = changeset.userId)).map
      (fun user => ({ cid := changeset.id, uid := changeset.userId, username := user.displayName } :
      ChangesetUser))).map
        ChangesetUser.cid, cid = changeset.id := by
    intro cid member
    simp only [List.map_map, List.mem_map] at member
    obtain ⟨user, _, rfl⟩ := member
    rfl
  apply List.nodup_flatMap.mpr
  constructor
  · intro changeset _
    have single : (db.users.filter (fun user => user.id = changeset.userId)).length ≤ 1 := by
      have count := List.nodup_iff_count_le_one.mp keys.users changeset.userId
      rw [List.count, List.countP_map, List.countP_eq_length_filter] at count
      have same : (fun id => id == changeset.userId) ∘ UserRow.id = fun user =>
          decide (user.id = changeset.userId) := by
        funext user
        exact Bool.beq_eq_decide_eq user.id changeset.userId
      rwa [same] at count
    generalize db.users.filter (fun user => user.id = changeset.userId) = found at single
    cases found with
    | nil => simp
    | cons user rest =>
      obtain rfl : rest = [] := List.length_eq_zero_iff.mp (by simpa using single)
      simp
  · apply (List.pairwise_map.mp keys.changesets).imp
    intro a b different cid first second
    exact different ((own a cid first).symm.trans (own b cid second))

theorem asChangesetId_eq {value : Int64} {cid : UInt32} :
    asChangesetId value = .ok cid ↔ value.toInt = (cid.toNat : Int) := by
  unfold asChangesetId
  constructor
  · intro success
    split at success
    · obtain rfl := Except.ok.inj success
      simp only [UInt32.ofInt, UInt32.toNat_ofNat']
      omega
    · cases success
  · intro same
    have bound := cid.toNat_lt
    have reduced : ((cid.toNat : Int) % 2 ^ 32).toNat = cid.toNat := by omega
    rw [if_pos ⟨by omega, by omega⟩, same, UInt32.ofInt, reduced, UInt32.ofNat_toNat]

/-- A row `fillCache` can convert. -/
def Convertible (row : ChangesetUser) : Prop :=
  (∃ cid, asChangesetId row.cid = .ok cid) ∧ ∃ uid, asUserId row.uid = .ok uid

theorem fillCache_succeeds (cucache : ChangesetUserLookup) (result : List ChangesetUser) :
    (∃ filled, fillCache cucache result = .ok filled) ↔ ∀ row ∈ result, Convertible row := by
  unfold fillCache
  induction result generalizing cucache with
  | nil => exact ⟨fun _ _ member => absurd member List.not_mem_nil, fun _ => ⟨cucache, rfl⟩⟩
  | cons row rest ih =>
    rw [List.foldlM_cons, List.forall_mem_cons]
    cases cid : asChangesetId row.cid with
    | error fault => simp [bind, Except.bind, Convertible, cid]
    | ok cid' =>
      cases uid : asUserId row.uid with
      | error fault => simp [bind, Except.bind, Convertible, uid]
      | ok uid' =>
        have here : Convertible row := ⟨⟨cid', cid⟩, uid', uid⟩
        rw [and_iff_right here, ← ih (cucache.set cid' { id := uid', username := row.username })]
        rfl

/-- The row of a changeset, converted. -/
def Converts (row : ChangesetUser) (cid : UInt32) (info : Userinfo) : Prop :=
  asChangesetId row.cid = .ok cid ∧ asUserId row.uid = .ok info.id ∧ row.username = info.username

/-- The cache after the query: the user of every changeset that was found. -/
private theorem fillCache_lookup {cucache filled : ChangesetUserLookup} {result : List ChangesetUser}
    (success : fillCache cucache result = .ok filled) (distinct : (result.map ChangesetUser.cid).Nodup)
    (cid : UInt32) (info : Userinfo) :
    filled.lookup cid = some info ↔ (∃ row ∈ result, Converts row cid info) ∨
      (∀ row ∈ result, asChangesetId row.cid ≠ .ok cid) ∧ cucache.lookup cid = some info := by
  induction result generalizing cucache with
  | nil =>
    obtain rfl : cucache = filled := Except.ok.inj success
    simp
  | cons row rest ih =>
    obtain ⟨fresh, later⟩ := List.nodup_cons.mp distinct
    rw [fillCache, List.foldlM_cons] at success
    cases own : asChangesetId row.cid with
    | error fault => simp [own, bind, Except.bind] at success
    | ok ownCid =>
      cases uid : asUserId row.uid with
      | error fault => simp [own, uid, bind, Except.bind] at success
      | ok ownUid =>
        have onward : fillCache (cucache.set ownCid { id := ownUid, username := row.username }) rest = .ok filled := by
          rw [own, uid] at success
          exact success
        rw [ih onward later]
        by_cases same : cid = ownCid
        · subst same
          have absent : ∀ other ∈ rest, asChangesetId other.cid ≠ .ok cid := by
            intro other member found
            have equal := (asChangesetId_eq.mp found).trans (asChangesetId_eq.mp own).symm
            exact fresh (List.mem_map.mpr ⟨other, member, Int64.toInt_inj.mp equal⟩)
          rw [ChangesetUserLookup.set, lookup_assocSet_self]
          constructor
          · rintro (⟨other, member, found, _⟩ | ⟨_, stored⟩)
            · exact absurd found (absent other member)
            · obtain rfl := Option.some.inj stored
              exact .inl ⟨row, by simp, own, uid, rfl⟩
          · rintro (⟨other, member, found, foundUid, name⟩ | ⟨none, _⟩)
            · rcases List.mem_cons.mp member with rfl | inside
              · refine .inr ⟨absent, ?_⟩
                obtain rfl : ownUid = info.id := Except.ok.inj (uid.symm.trans foundUid)
                rw [name]
              · exact absurd found (absent other inside)
            · exact absurd own (none row (by simp))
        · have other : asChangesetId row.cid ≠ .ok cid := by
            rw [own]
            exact fun equal => same (Except.ok.inj equal).symm
          rw [ChangesetUserLookup.set, lookup_assocSet_ne same]
          simp [other, Converts]

section Populate

variable {db : Database} {queries : Queries (Except Fault)} {cucache cucache' filled filled' : ChangesetUserLookup}

theorem mem_keys_iff {cid : UInt32} : cid ∈ cucache.map Prod.fst ↔ ∃ info, cucache.lookup cid = some info := by
  rw [← Option.isSome_iff_exists, List.lookup_isSome_iff]
  simp only [List.mem_map, beq_iff_eq, eq_comm (a := cid)]

theorem populate_succeeds (answering : Answering db queries) :
    (∃ filled, populateChangesetCache queries cucache = .ok filled) ↔
      ∀ row ∈ changesetUsers db, askedFor (cucache.map Prod.fst) row → Convertible row := by
  obtain ⟨result, answer, complete⟩ := answering.changesetUsers (cucache.map Prod.fst)
  have run : populateChangesetCache queries cucache = fillCache cucache result := by
    unfold populateChangesetCache
    rw [answer]
    rfl
  rw [run, fillCache_succeeds]
  simp only [complete.mem_iff, List.mem_filter, decide_eq_true_eq, and_imp]

theorem populate_lookup (answering : Answering db queries) (keys : PrimaryKeys db)
    (success : populateChangesetCache queries cucache = .ok filled) {cid : UInt32} {info : Userinfo} :
    filled.lookup cid = some info ↔
      cid ∈ cucache.map Prod.fst ∧ ((∃ row ∈ changesetUsers db, Converts row cid info) ∨
        (∀ row ∈ changesetUsers db, asChangesetId row.cid ≠ .ok cid) ∧ cucache.lookup cid = some info) := by
  obtain ⟨result, answer, complete⟩ := answering.changesetUsers (cucache.map Prod.fst)
  have run : fillCache cucache result = .ok filled := by
    rw [← success]
    unfold populateChangesetCache
    rw [answer]
    rfl
  have distinct : (result.map ChangesetUser.cid).Nodup :=
    (complete.map _).nodup_iff.mpr ((nodup_changesetUsers keys).sublist (List.filter_sublist.map _))
  have inside {row : ChangesetUser} (found : asChangesetId row.cid = .ok cid) :
      row ∈ result ↔ row ∈ changesetUsers db ∧ cid ∈ cucache.map Prod.fst := by
    rw [complete.mem_iff, List.mem_filter, decide_eq_true_eq]
    apply and_congr_right
    intro _
    constructor
    · rintro ⟨other, member, same⟩
      have equal := same.symm.trans (asChangesetId_eq.mp found)
      rwa [UInt32.toNat_inj.mp (Int.ofNat_inj.mp equal)] at member
    · exact fun member => ⟨cid, member, asChangesetId_eq.mp found⟩
  rw [fillCache_lookup run distinct]
  constructor
  · rintro (⟨row, member, converts⟩ | ⟨none, stored⟩)
    · obtain ⟨present, asked⟩ := (inside converts.1).mp member
      exact ⟨asked, .inl ⟨row, present, converts⟩⟩
    · have asked := mem_keys_iff.mpr ⟨info, stored⟩
      exact ⟨asked, .inr ⟨fun row present found => none row ((inside found).mpr ⟨present, asked⟩) found, stored⟩⟩
  · rintro ⟨asked, ⟨row, present, converts⟩ | ⟨none, stored⟩⟩
    · exact .inl ⟨row, (inside converts.1).mpr ⟨present, asked⟩, converts⟩
    · exact .inr ⟨fun row member found => none row ((inside found).mp member).1 found, stored⟩

/-- The filled cache knows exactly the changesets it was asked to look up. -/
theorem populate_known (answering : Answering db queries) (keys : PrimaryKeys db)
    (success : populateChangesetCache queries cucache = .ok filled) (cid : UInt32) :
    (filled.lookup cid).isSome ↔ cid ∈ cucache.map Prod.fst := by
  rw [Option.isSome_iff_exists]
  constructor
  · rintro ⟨info, found⟩
    exact ((populate_lookup answering keys success).mp found).1
  · intro asked
    by_cases present : ∃ row ∈ changesetUsers db, asChangesetId row.cid = .ok cid
    · obtain ⟨row, member, found⟩ := present
      have convertible := (populate_succeeds answering).mp ⟨filled, success⟩ row member
        ⟨cid, asked, asChangesetId_eq.mp found⟩
      obtain ⟨uid, converted⟩ := convertible.2
      exact ⟨⟨uid, row.username⟩, (populate_lookup answering keys success).mpr
        ⟨asked, .inl ⟨row, member, found, converted, rfl⟩⟩⟩
    · obtain ⟨info, stored⟩ := mem_keys_iff.mp asked
      exact ⟨info, (populate_lookup answering keys success).mpr
        ⟨asked, .inr ⟨fun row member found => present ⟨row, member, found⟩, stored⟩⟩⟩

end Populate

end Osmdbt
