import Osmdbt.Diff.CreateObjects
import Mathlib.Data.List.Forall2

/-! What a change file has to contain, and exactly when the three object loops
produce it. A redacted row is skipped without moving the child iterators, so its
first child entry hides the children of every later object. -/

namespace Osmdbt

/-- The rows of `own` in an order that respects `le`, each shown by `image`. -/
def InOrder {α β : Type} (le : α → α → Prop) (own : List α) (image : α → β) (out : List β) : Prop :=
  ∃ rows : List α, rows.Perm own ∧ rows.Pairwise le ∧ out = rows.map image

structure HasAttributes (cucache : ChangesetUserLookup) (row : ObjectRow) (attributes : Attributes) :
    Prop where
  id : attributes.id = row.id
  version : attributes.version = row.version
  visible : attributes.visible = row.visible
  timestamp : attributes.timestamp = row.timestamp
  changeset : (attributes.changeset.toNat : Int) = row.changesetId.toInt
  user : cucache.lookup attributes.changeset = some ⟨attributes.uid, attributes.user⟩

def tagImage (row : TagRow) : OsmTag := (row.k, row.v)
def memberImage (row : MemberRow) : OsmMember := (typeFromChar row.memberType, row.memberId, row.memberRole)

/-- The own children of an object, in the order of the file format. -/
def OwnTags (table : List TagRow) (object : Key) : List OsmTag → Prop :=
  InOrder tagOrder (table.filter (fun row => row.key = object)) tagImage

def OwnWayNodes (table : List WayNodeRow) (object : Key) : List Int64 → Prop :=
  InOrder wayNodeOrder (table.filter (fun row => row.key = object)) WayNodeRow.nodeId

def OwnMembers (table : List MemberRow) (object : Key) : List OsmMember → Prop :=
  InOrder memberOrder (table.filter (fun row => row.key = object)) memberImage

/-- One object for each wanted row that exists and is not redacted, in ascending
order, each with the required content. -/
def Contains {ρ ω : Type} (common : ρ → ObjectRow) (table : List ρ) (wanted : List Key)
    (content : ρ → ω → Prop) (objects : List ω) : Prop :=
  ∃ rows : List ρ,
    rows.Perm (table.filter (fun row => (common row).key ∈ wanted ∧ (common row).redactionId = none)) ∧
    rows.Pairwise (fun a b => (common a).key < (common b).key) ∧
    List.Forall₂ content rows objects

structure NodeContent (db : Database) (cucache : ChangesetUserLookup) (row : NodeRow) (node : OsmNode) :
    Prop where
  attributes : HasAttributes cucache row.toObjectRow node.attributes
  location : node.location = (row.longitude, row.latitude)
  tags : OwnTags db.nodeTags row.key node.tags

structure WayContent (db : Database) (cucache : ChangesetUserLookup) (row : ObjectRow) (way : OsmWay) :
    Prop where
  attributes : HasAttributes cucache row way.attributes
  tags : OwnTags db.wayTags row.key way.tags
  nodes : OwnWayNodes db.wayNodes row.key way.nodes

structure RelationContent (db : Database) (cucache : ChangesetUserLookup) (row : ObjectRow)
    (relation : OsmRelation) : Prop where
  attributes : HasAttributes cucache row relation.attributes
  tags : OwnTags db.relationTags row.key relation.tags
  members : OwnMembers db.relationMembers row.key relation.members

/-- The answers to the queries of `process_nodes`. -/
structure NodeQueries (db : Database) (asked : List Key) where
  tags : List TagRow
  rows : List NodeRow
  tagsAnswer : Answer tagOrder (innerJoin asked TagRow.key db.nodeTags) tags
  rowsAnswer : Answer (fun a b => objectOrder a.toObjectRow b.toObjectRow)
    (innerJoin asked (fun row => row.toObjectRow.key) db.nodes) rows

/-- The answers to the queries of `process_ways`. -/
structure WayQueries (db : Database) (asked : List Key) where
  tags : List TagRow
  nodes : List WayNodeRow
  rows : List ObjectRow
  tagsAnswer : Answer tagOrder (innerJoin asked TagRow.key db.wayTags) tags
  nodesAnswer : Answer wayNodeOrder (innerJoin asked WayNodeRow.key db.wayNodes) nodes
  rowsAnswer : Answer objectOrder (innerJoin asked ObjectRow.key db.ways) rows

/-- The answers to the queries of `process_relations`. -/
structure RelationQueries (db : Database) (asked : List Key) where
  tags : List TagRow
  members : List MemberRow
  rows : List ObjectRow
  tagsAnswer : Answer tagOrder (innerJoin asked TagRow.key db.relationTags) tags
  membersAnswer : Answer memberOrder (innerJoin asked MemberRow.key db.relationMembers) members
  rowsAnswer : Answer objectOrder (innerJoin asked ObjectRow.key db.relations) rows

/-- Every row the loop keeps has a 32-bit changeset that is in the cache. -/
def Attributable (cucache : ChangesetUserLookup) (table : List ObjectRow) (asked : List Key) : Prop :=
  ∀ row ∈ table, row.key ∈ asked → row.redactionId = none →
    0 ≤ row.changesetId.toInt ∧ row.changesetId.toInt < 2 ^ 32 ∧
      (cucache.lookup (UInt32.ofInt row.changesetId.toInt)).isSome

/-- No wanted redacted row with children stands before a wanted kept row with children. -/
def Undisturbed (table : List ObjectRow) (asked children : List Key) : Prop :=
  ∀ row ∈ table, row.key ∈ asked → row.redactionId ≠ none → row.key ∈ children →
    ∀ later ∈ table, later.key ∈ asked → later.redactionId = none → row.key < later.key →
      later.key ∉ children

instance (table : List ObjectRow) (asked children : List Key) : Decidable (Undisturbed table asked children) :=
  have _later (row : ObjectRow) : Decidable (∀ later ∈ table, later.key ∈ asked → later.redactionId = none →
      row.key < later.key → later.key ∉ children) := inferInstance
  inferInstanceAs (Decidable (∀ row ∈ table, row.key ∈ asked → row.redactionId ≠ none → row.key ∈ children →
    ∀ later ∈ table, later.key ∈ asked → later.redactionId = none → row.key < later.key → later.key ∉ children))

theorem setAttributes_hasAttributes {cucache : ChangesetUserLookup} {row : ObjectRow}
    {attributes : Attributes} (success : setAttributes cucache row = .ok attributes) :
    HasAttributes cucache row attributes := by
  unfold setAttributes at success
  by_cases range : 0 ≤ row.changesetId.toInt ∧ row.changesetId.toInt < 2 ^ 32
  · have converted : asChangesetId row.changesetId = .ok (UInt32.ofInt row.changesetId.toInt) :=
      if_pos range
    have same : ((UInt32.ofInt row.changesetId.toInt).toNat : Int) = row.changesetId.toInt := by
      simp only [UInt32.ofInt, UInt32.toNat_ofNat']
      omega
    cases found : cucache.lookup (UInt32.ofInt row.changesetId.toInt) with
    | none => simp [converted, ChangesetUserLookup.at, found, bind, Except.bind] at success
    | some info =>
      simp only [converted, ChangesetUserLookup.at, found, bind, Except.bind, pure, Except.pure,
        Except.ok.injEq] at success
      subst success
      exact ⟨rfl, rfl, rfl, rfl, same, found⟩
  · have rejected : asChangesetId row.changesetId = .error .conversionError := if_neg range
    simp [rejected, bind, Except.bind] at success

theorem setAttributes_iff {cucache : ChangesetUserLookup} {row : ObjectRow} :
    (∃ attributes, setAttributes cucache row = .ok attributes) ↔
      0 ≤ row.changesetId.toInt ∧ row.changesetId.toInt < 2 ^ 32 ∧
        (cucache.lookup (UInt32.ofInt row.changesetId.toInt)).isSome := by
  unfold setAttributes
  by_cases range : 0 ≤ row.changesetId.toInt ∧ row.changesetId.toInt < 2 ^ 32
  · have converted : asChangesetId row.changesetId = .ok (UInt32.ofInt row.changesetId.toInt) :=
      if_pos range
    rw [← and_assoc, and_iff_right range]
    cases found : cucache.lookup (UInt32.ofInt row.changesetId.toInt) <;>
      simp [converted, ChangesetUserLookup.at, found, bind, Except.bind, pure, Except.pure]
  · have rejected : asChangesetId row.changesetId = .error .conversionError := if_neg range
    rw [← and_assoc]
    simp only [rejected, range, bind, Except.bind, false_and, reduceCtorEq, exists_false]

section Rows

variable {ρ ω : Type} {common : ρ → ObjectRow} {table result : List ρ} {asked : List Key}

/-- The kept rows of an answer, as the database has them. -/
private theorem live_perm (distinct : asked.Nodup) (unique : (table.map (fun row => (common row).key)).Nodup)
    (answer : Answer (fun a b => objectOrder (common a) (common b))
      (innerJoin asked (fun row => (common row).key) table) result) :
    (live common result).Perm
      (table.filter (fun row => (common row).key ∈ asked ∧ (common row).redactionId = none)) := by
  have joined := (answer.complete.trans (innerJoin_perm distinct unique)).filter
    (fun row => (common row).redactionId.isNone)
  rw [List.filter_filter] at joined
  refine joined.trans (List.Perm.of_eq (List.filter_congr fun row _ => ?_))
  cases (common row).redactionId <;> simp

/-- An answer without repeated keys is strictly ascending. -/
theorem live_ascending (distinct : asked.Nodup) (unique : (table.map (fun row => (common row).key)).Nodup)
    (answer : Answer (fun a b => objectOrder (common a) (common b))
      (innerJoin asked (fun row => (common row).key) table) result) :
    (live common result).Pairwise (fun a b => (common a).key < (common b).key) := by
  have selected := answer.complete.trans (innerJoin_perm distinct unique)
  have keys : (result.map (fun row => (common row).key)).Nodup :=
    (selected.map _).nodup_iff.mpr (unique.sublist (List.filter_sublist.map _))
  have different : result.Pairwise (fun a b => (common a).key ≠ (common b).key) :=
    List.pairwise_map.mp keys
  exact (different.and answer.ordered).sublist List.filter_sublist |>.imp
    (fun both => lt_of_le_of_ne both.2 both.1)

theorem mem_live {row : ρ} (answer : Answer (fun a b => objectOrder (common a) (common b))
      (innerJoin asked (fun row => (common row).key) table) result) :
    row ∈ live common result ↔
      row ∈ table ∧ (common row).key ∈ asked ∧ (common row).redactionId = none := by
  rw [live, List.mem_filter, answer.complete.mem_iff, mem_innerJoin, and_assoc]
  simp

variable (common) in
/-- The kept rows of an answer are the only rows the contents can be about. -/
theorem contains_iff (distinct : asked.Nodup) (unique : (table.map (fun row => (common row).key)).Nodup)
    (answer : Answer (fun a b => objectOrder (common a) (common b))
      (innerJoin asked (fun row => (common row).key) table) result)
    (content : ρ → ω → Prop) (objects : List ω) :
    Contains common table asked content objects ↔ List.Forall₂ content (live common result) objects := by
  have perm := live_perm distinct unique answer
  have ascending := live_ascending distinct unique answer
  constructor
  · rintro ⟨rows, complete, ordered, matches'⟩
    have same : rows = live common result :=
      (complete.trans perm.symm).eq_of_pairwise
        (fun a b _ _ below above => absurd below (lt_asymm above)) ordered ascending
    exact same ▸ matches'
  · intro matches'
    exact ⟨_, perm, ascending, matches'⟩

end Rows

section Children

variable {ρ β γ : Type} {common : ρ → ObjectRow} {table result : List ρ} {asked : List Key}
  {childKey : β → Key} {le : β → β → Prop} {children answer : List β} {image : β → γ}

theorem inOrder_nil_iff {own : List β} : InOrder le own image [] ↔ own = [] := by
  constructor
  · rintro ⟨rows, perm, _, empty⟩
    have none : rows = [] := by simpa using empty.symm
    exact List.perm_nil.mp (none ▸ perm).symm
  · rintro rfl
    exact ⟨[], .refl _, .nil, rfl⟩

/-- The block of a wanted key in an answer is that object's own children in order. -/
private theorem inOrder_block (distinct : asked.Nodup) (ordered : Answer le (innerJoin asked childKey children) answer)
    {object : Key} (wantedObject : object ∈ asked) :
    InOrder le (children.filter (fun row => childKey row = object)) image
      ((answer.filter (fun row => childKey row = object)).map image) := by
  refine ⟨_, ?_, ordered.ordered.sublist List.filter_sublist, rfl⟩
  exact (ordered.complete.filter _).trans (List.Perm.of_eq (innerJoin_block distinct wantedObject))

theorem mem_liveKeys {k : Key} (answerRows : Answer (fun a b => objectOrder (common a) (common b))
      (innerJoin asked (fun row => (common row).key) table) result) :
    k ∈ (live common result).map (fun row => (common row).key) ↔
      ∃ row ∈ table, (common row).key = k ∧ k ∈ asked ∧ (common row).redactionId = none := by
  simp only [List.mem_map, mem_live answerRows]
  constructor
  · rintro ⟨row, ⟨inside, wantedRow, kept⟩, rfl⟩
    exact ⟨row, inside, rfl, wantedRow, kept⟩
  · rintro ⟨row, inside, rfl, wantedRow, kept⟩
    exact ⟨row, ⟨inside, wantedRow, kept⟩, rfl⟩

/-- The walk gets as far as a key iff no redacted row with children stands before it. -/
private theorem walkUnblocked_iff (unique : (table.map (fun row => (common row).key)).Nodup)
    (answerRows : Answer (fun a b => objectOrder (common a) (common b))
      (innerJoin asked (fun row => (common row).key) table) result)
    (answerChildren : Answer le (innerJoin asked childKey children) answer)
    (references : References (table.map common) (children.map childKey)) {k : Key} :
    MergeWalk.Unblocked childKey ((live common result).map (fun row => (common row).key)) answer k ↔
      ∀ row ∈ table.map common, row.key ∈ asked → row.redactionId ≠ none → row.key ∈ children.map childKey →
        ¬ row.key < k := by
  have present {child : β} : child ∈ answer ↔ child ∈ children ∧ childKey child ∈ asked := by
    rw [answerChildren.complete.mem_iff, mem_innerJoin]
  constructor
  · intro free row inside wantedRow redacted withChild behind
    obtain ⟨child, childInside, childOf⟩ := List.mem_map.mp withChild
    have shown := free child (present.mpr ⟨childInside, childOf ▸ wantedRow⟩) (childOf ▸ behind)
    obtain ⟨same, sameInside, sameKey, _, sameKept⟩ := (mem_liveKeys answerRows).mp shown
    have rowsNodup : ((table.map common).map ObjectRow.key).Nodup := by
      rwa [List.map_map]
    have identical : common same = row :=
      List.inj_on_of_nodup_map rowsNodup (List.mem_map_of_mem sameInside) inside (sameKey.trans childOf)
    exact redacted (identical ▸ sameKept)
  · intro quiet child childAnswer below
    obtain ⟨childInside, childAsked⟩ := present.mp childAnswer
    obtain ⟨owner, ownerInside, ownerOf⟩ := List.mem_map.mp (references _ (List.mem_map_of_mem childInside))
    obtain ⟨source, sourceInside, rfl⟩ := List.mem_map.mp ownerInside
    by_contra absent
    have redacted : (common source).redactionId ≠ none :=
      fun none => absent ((mem_liveKeys answerRows).mpr ⟨source, sourceInside, ownerOf, childAsked, none⟩)
    exact quiet (common source) ownerInside (ownerOf ▸ childAsked) redacted
      (ownerOf ▸ List.mem_map_of_mem childInside) (ownerOf ▸ below)

theorem ownChildren_nil_iff {k : Key} : children.filter (fun child => childKey child = k) = [] ↔
    k ∉ children.map childKey := by
  simp [List.filter_eq_nil_iff]

variable (common image) in
/-- The walk over the kept rows hands every row its own children iff no redacted
row with children stands before a kept row with children. -/
theorem blocks_iff_undisturbed (distinct : asked.Nodup)
    (unique : (table.map (fun row => (common row).key)).Nodup)
    (answerRows : Answer (fun a b => objectOrder (common a) (common b))
      (innerJoin asked (fun row => (common row).key) table) result)
    (grouped : ∀ a b, le a b → childKey a ≤ childKey b)
    (answerChildren : Answer le (innerJoin asked childKey children) answer)
    (references : References (table.map common) (children.map childKey)) :
    List.Forall₂ (fun row out => InOrder le (children.filter (fun child => childKey child = (common row).key))
      image out)
        (live common result)
        ((MergeWalk.walk childKey ((live common result).map (fun row => (common row).key)) answer).map
          (List.map image)) ↔
      Undisturbed (table.map common) asked (children.map childKey) := by
  have ascending : ((live common result).map (fun row => (common row).key)).Pairwise (· < ·) :=
    List.pairwise_map.mpr (live_ascending distinct unique answerRows)
  have sorted : answer.Pairwise (fun a b => childKey a ≤ childKey b) :=
    answerChildren.ordered.imp (grouped _ _)
  have unblocked {k : Key} := @walkUnblocked_iff _ _ _ _ _ _ _ _ _ _ unique answerRows answerChildren references k
  rw [MergeWalk.walk_eq ascending sorted, List.map_map, List.map_map, List.forall₂_map_right_iff,
    List.forall₂_same]
  constructor
  · -- a blocked row would show no children although it has some
    intro good row inside wantedRow redacted withChild later laterInside wantedLater kept behind laterChild
    obtain ⟨late, lateInside, rfl⟩ := List.mem_map.mp laterInside
    have closed : ¬ MergeWalk.Unblocked childKey
        ((live common result).map (fun row => (common row).key)) answer (common late).key :=
      fun free => unblocked.mp free row inside wantedRow redacted withChild behind
    have shown := good late ((mem_live answerRows).mpr ⟨lateInside, wantedLater, kept⟩)
    rw [Function.comp_apply, Function.comp_apply, if_neg closed, List.map_nil, inOrder_nil_iff,
      ownChildren_nil_iff] at shown
    exact shown laterChild
  · intro quiet row member
    obtain ⟨inside, wantedRow, kept⟩ := (mem_live answerRows).mp member
    rw [Function.comp_apply, Function.comp_apply]
    split
    · exact inOrder_block distinct answerChildren wantedRow
    · rename_i closed
      rw [List.map_nil, inOrder_nil_iff, ownChildren_nil_iff]
      intro withChild
      refine closed (unblocked.mpr (fun other otherInside wantedOther redacted otherChild behind => ?_))
      exact quiet other otherInside wantedOther redacted otherChild (common row) (List.mem_map_of_mem inside)
        wantedRow kept behind
        withChild

end Children

end Osmdbt
