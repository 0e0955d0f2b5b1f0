import Osmdbt.Diff.Objects

/-! The steps of `add_tags`, `add_way_nodes` and `add_members` over ascending object
versions, and where their iterators end. -/

namespace Osmdbt

/-- An object version that is asked for. -/
abbrev ObjectVersion := Int64 × UInt32

def ObjectVersion.key (object : ObjectVersion) : Key := Osmdbt.key object.1 object.2

/-- The entries handed out at each step, and the iterator behind the last one. -/
def addSteps {ι χ : Type} (add : ι → Int64 → UInt32 → ι × χ) (it : ι) : List ObjectVersion → List χ × ι
  | [] => ([], it)
  | (id, version) :: rest =>
    let (next, added) := add it id version
    let (others, last) := addSteps add next rest
    (added :: others, last)

/-- Each object version gets all of its entries if every smaller one that occurs is asked
for as well, and nothing otherwise; the iterator comes to the end iff all are asked for. -/
structure StepsExact {β γ : Type} (add : List β → Int64 → UInt32 → List β × List γ) (keyOf : β → Key) (put : β → γ)
    (entries : List β) (objects : List ObjectVersion) : Prop where
  added : (addSteps add entries objects).1 = objects.map (fun object =>
    if MergeWalk.Unblocked keyOf (objects.map ObjectVersion.key) entries object.key
    then (entries.filter (fun entry => keyOf entry = object.key)).map put else [])
  last : (addSteps add entries objects).2 = [] ↔ ∀ entry ∈ entries, keyOf entry ∈ objects.map ObjectVersion.key

section Steps

variable {β γ : Type} {id : β → Int64} {version : β → UInt32} {put : β → γ} {entries : List β}
    {objects : List ObjectVersion}

theorem addSteps_walk :
    addSteps (addEntries id version put) entries objects =
      ((MergeWalk.walk (fun entry => key (id entry) (version entry)) (objects.map ObjectVersion.key) entries).map
        (List.map put),
        MergeWalk.left (fun entry => key (id entry) (version entry)) (objects.map ObjectVersion.key) entries) := by
  induction objects generalizing entries with
  | nil => rfl
  | cons object rest ih =>
    simp only [addSteps, addEntries_eq, ih, List.map_cons, MergeWalk.walk, MergeWalk.left]
    rfl

theorem addEntries_exact (ascending : (objects.map ObjectVersion.key).Pairwise (· < ·))
    (sorted : entries.Pairwise (fun a b => key (id a) (version a) ≤ key (id b) (version b))) :
    StepsExact (addEntries id version put) (fun entry => key (id entry) (version entry)) put entries objects where
  added := by
    rw [addSteps_walk, MergeWalk.walk_eq ascending sorted, List.map_map, List.map_map]
    refine List.map_congr_left (fun object _ => ?_)
    simp only [Function.comp_apply]
    split <;> rfl
  last := by
    rw [addSteps_walk]
    exact MergeWalk.left_eq_nil_iff ascending sorted

end Steps

def Tag.objectKey (tag : Tag) : Key := Osmdbt.key tag.id tag.version
def WayNode.objectKey (node : WayNode) : Key := key node.wayId node.version
def Member.objectKey (member : Member) : Key := key member.relationId member.version

/-- The three functions, over any strictly ascending object versions and any sorted entries. -/
theorem mergeSteps_exact {objects : List ObjectVersion}
    (ascending : (objects.map ObjectVersion.key).Pairwise (· < ·)) :
    (∀ tags : List Tag, tags.Pairwise (fun a b => a.objectKey ≤ b.objectKey) →
      StepsExact addTags Tag.objectKey (fun it => (it.key, it.value)) tags objects) ∧
    (∀ nodes : List WayNode, nodes.Pairwise (fun a b => a.objectKey ≤ b.objectKey) →
      StepsExact addWayNodes WayNode.objectKey WayNode.nodeRef nodes objects) ∧
    ∀ members : List Member, members.Pairwise (fun a b => a.objectKey ≤ b.objectKey) →
      StepsExact addMembers Member.objectKey (fun it => (it.mtype, it.mref, it.mrole)) members objects :=
  ⟨fun _ => addEntries_exact ascending, fun _ => addEntries_exact ascending, fun _ => addEntries_exact ascending⟩

/-- Version 2 of object 1 is not asked for, so nothing behind it is handed out. -/
theorem mergeSteps_exact_stopped :
    (addSteps addTags [⟨"a".toList, [], 1, 1⟩, ⟨"b".toList, [], 1, 1⟩, ⟨"c".toList, [], 1, 2⟩, ⟨"d".toList, [], 3, 1⟩]
      [(1, 1), (3, 1)]).1 = [[("a".toList, []), ("b".toList, [])], []] := by
  refine ((mergeSteps_exact ?_).1 _ ?_).added.trans ?_
  iterate 3 decide

end Osmdbt
