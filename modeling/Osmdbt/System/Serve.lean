import Osmdbt.Calendar
import Osmdbt.System.Effects

/-! A system that does everything it is asked for, as far as it can: with it a run of
a program can be computed, and every computed run is a run. -/

namespace Osmdbt

open General

section Orders

variable {ρ : Type}

/-- Rows in the order of one column. -/
theorem answer_sort {κ : Type} [LinearOrder κ] (column : ρ → κ) (rows : List ρ) :
    Answer (fun a b => column a ≤ column b) rows (rows.insertionSort (fun a b => column a ≤ column b)) := by
  have total : Std.Total (fun a b => column a ≤ column b) := ⟨fun a b => le_total (column a) (column b)⟩
  have transitive : IsTrans ρ (fun a b => column a ≤ column b) := ⟨fun _ _ _ first second => first.trans second⟩
  exact ⟨List.perm_insertionSort _ rows, List.pairwise_insertionSort _ rows⟩

theorem tagOrder_iff (a b : TagRow) : tagOrder a b ↔ a.key < b.key ∨ a.key = b.key ∧ a.k ≤ b.k :=
  Prod.Lex.toLex_le_toLex

instance : DecidableRel tagOrder := fun a b => decidable_of_iff _ (tagOrder_iff a b).symm

private theorem answer_tags (rows : List TagRow) : Answer tagOrder rows (rows.insertionSort tagOrder) := by
  have total : Std.Total tagOrder := by
    refine ⟨fun a b => ?_⟩
    rw [tagOrder_iff, tagOrder_iff]
    rcases lt_trichotomy a.key b.key with less | same | more
    · exact .inl (.inl less)
    · exact (le_total a.k b.k).imp (fun less => .inr ⟨same, less⟩) (fun more => .inr ⟨same.symm, more⟩)
    · exact .inr (.inl more)
  have transitive : IsTrans TagRow tagOrder := by
    refine ⟨fun a b c first second => ?_⟩
    rw [tagOrder_iff] at first second ⊢
    rcases first with less | ⟨same, less⟩
    · rcases second with more | ⟨same', _⟩
      · exact .inl (less.trans more)
      · exact .inl (same' ▸ less)
    · rcases second with more | ⟨same', more⟩
      · exact .inl (same ▸ more)
      · exact .inr ⟨same.trans same', less.trans more⟩
  exact ⟨List.perm_insertionSort _ rows, List.pairwise_insertionSort _ rows⟩

end Orders

/-- The rows of a statement; fake-log's statements need a timestamp. -/
def Database.answer (db : Database) : (statement : Query) → Option statement.Rows
  | .version => some ["PostgreSQL 14".toList]
  | .changesetUsers cids => some ((changesetUsers db).filter (fun row => askedFor cids row))
  | .tags type asked => some ((innerJoin asked TagRow.key (db.tags type)).insertionSort tagOrder)
  | .wayNodes asked => some ((innerJoin asked WayNodeRow.key db.wayNodes).insertionSort
      (fun a b => toLex (a.key, a.sequenceId.toInt) ≤ toLex (b.key, b.sequenceId.toInt)))
  | .members asked => some ((innerJoin asked MemberRow.key db.relationMembers).insertionSort
      (fun a b => toLex (a.key, a.sequenceId.toInt) ≤ toLex (b.key, b.sequenceId.toInt)))
  | .nodes asked => some ((innerJoin asked (fun row => row.toObjectRow.key) db.nodes).insertionSort
      (fun a b => a.toObjectRow.key ≤ b.toObjectRow.key))
  | .ways asked => some ((innerJoin asked ObjectRow.key db.ways).insertionSort (fun a b => a.key ≤ b.key))
  | .relations asked => some ((innerJoin asked ObjectRow.key db.relations).insertionSort (fun a b => a.key ≤ b.key))
  | .changes type start =>
    match parseTimestamp start with
    | .error _ => none
    | .ok timestamp =>
      if start = toIsoAll timestamp ∧ ∀ row ∈ changesSince db type timestamp, row.timestamp.toNat < 2 ^ 31 then
        some (((changesSince db type timestamp).insertionSort
          (fun a b => toLex (a.timestamp.toNat, a.key) ≤ toLex (b.timestamp.toNat, b.key))).map ObjectRow.change)
      else none

theorem Database.answers (db : Database) {statement : Query} {rows : statement.Rows}
    (answer : db.answer statement = some rows) : Answers db statement rows := by
  cases statement with
  | version => trivial
  | changesetUsers cids =>
    obtain rfl := Option.some.inj answer
    exact List.Perm.refl _
  | tags type asked =>
    obtain rfl := Option.some.inj answer
    exact answer_tags _
  | wayNodes asked =>
    obtain rfl := Option.some.inj answer
    exact answer_sort (fun row : WayNodeRow => toLex (row.key, row.sequenceId.toInt)) _
  | members asked =>
    obtain rfl := Option.some.inj answer
    exact answer_sort (fun row : MemberRow => toLex (row.key, row.sequenceId.toInt)) _
  | nodes asked =>
    obtain rfl := Option.some.inj answer
    exact answer_sort (fun row : NodeRow => row.toObjectRow.key) _
  | ways asked =>
    obtain rfl := Option.some.inj answer
    exact answer_sort ObjectRow.key _
  | relations asked =>
    obtain rfl := Option.some.inj answer
    exact answer_sort ObjectRow.key _
  | changes type start =>
    simp only [Database.answer] at answer
    split at answer
    · cases answer
    · rename_i timestamp _
      split at answer
      · rename_i fits
        obtain rfl := Option.some.inj answer
        exact ⟨timestamp, _, fits.1, fits.2,
          answer_sort (fun row : ObjectRow => toLex (row.timestamp.toNat, row.key)) _, rfl⟩
      · cases answer

/-- The names of the files in a directory. -/
def World.names (w : World) (dir : Dir) : List Text :=
  ((w.files.filter (fun file => file.1.dir = dir)).map (fun file => file.1.name)).dedup

theorem World.mem_names (w : World) (dir : Dir) (name : Text) : name ∈ w.names dir ↔ (w.get ⟨dir, name⟩).isSome := by
  unfold World.names World.get
  rw [List.mem_dedup]
  induction w.files with
  | nil => simp
  | cons file rest ih =>
    obtain ⟨path, content⟩ := file
    by_cases here : (⟨dir, name⟩ : Path) = path
    · subst here
      simp
    · have miss : ((⟨dir, name⟩ : Path) == path) = false := beq_eq_false_iff_ne.mpr here
      rw [List.lookup_cons, miss, ← ih, List.filter_cons]
      split
      · rename_i same
        have other : path.name ≠ name := by
          rintro rfl
          obtain rfl : path.dir = dir := by simpa using same
          exact here rfl
        simp [other.symm]
      · rfl

/-- What the system does: only a slot with pending transactions is not served. -/
def World.serve (w : World) : (op : Op) → Reply op × World
  | .getpid => (.ok (1 : Nat), w)
  | .time => (.ok (1584541129 : Timestamp), w)
  | .openExcl path => if (w.get path).isSome then (.error .exist, w) else (.ok (), w.put path (.text []))
  | .write path c =>
    match w.get path with
    | some (.text data) => (.ok (), w.put path (.text (data ++ [c])))
    | _ => (.error .other, w)
  | .rename oldName newName =>
    match w.get oldName with
    | some content => (.ok (), w.rename oldName newName content)
    | none => (.error .other, w)
  | .unlink path => if (w.get path).isSome then (.ok (), w.drop path) else (.error .other, w)
  | .exists path => (.ok (w.get path).isSome, w)
  | .list dir => (.ok (w.names dir), w)
  | .readFile path =>
    match w.get path with
    | some (.text data) => (.ok data, w)
    | _ => (.error .other, w)
  | .openWriter path => (.ok (), w.put path (.osc [] none))
  | .closeWriter path sources objects => (.ok (), w.put path (.osc sources (some objects)))
  | .serverVersion => (.ok (140000 : Nat), w)
  | .query statement =>
    match w.tables.answer statement with
    | some rows => (.ok rows, w)
    | none => (.error .other, w)
  | .peek _ => if w.pending = [] then (.ok [], { w with returned := [] }) else (.error .other, w)
  | .advance lsn =>
    match parseLsn lsn with
    | .ok value => (.ok (), { w with slot := max w.slot value })
    | .error _ => (.error .other, w)
  | .fsync _ => (.ok (), w)
  | .close _ => (.ok (), w)
  | .openDir _ => (.ok (), w)
  | .fsyncDir _ => (.ok (), w)
  | .closeDir _ => (.ok (), w)
  | .createDirectories _ => (.ok (), w)
  | .connect => (.ok (), w)
  | .commit => (.ok (), w)

theorem World.serves (w : World) (op : Op) : Step w op (w.serve op).1 (w.serve op).2 := by
  have fails {op : Op} (fallible : op.Fallible) : Step w op (.error .other) w :=
    ⟨fallible, rfl, fun _ _ wrong => nomatch wrong⟩
  cases op with
  | openExcl path =>
    simp only [World.serve]
    split
    · rename_i there
      exact ⟨trivial, rfl, fun other same _ => by cases same; exact there⟩
    · rename_i free
      exact ⟨by simpa using free, rfl⟩
  | write path c =>
    simp only [World.serve]
    split
    · rename_i data here
      exact ⟨data, here, rfl⟩
    · exact fails trivial
  | rename oldName newName =>
    simp only [World.serve]
    split
    · rename_i content here
      exact ⟨content, here, rfl⟩
    · exact fails trivial
  | unlink path =>
    simp only [World.serve]
    split
    · rename_i there
      exact ⟨there, rfl⟩
    · exact fails trivial
  | readFile path =>
    simp only [World.serve]
    split
    · rename_i data here
      exact ⟨here, rfl⟩
    · exact fails trivial
  | list dir => exact ⟨List.nodup_dedup _, w.mem_names dir, rfl⟩
  | query statement =>
    simp only [World.serve]
    split
    · rename_i rows answer
      exact ⟨Database.answers _ answer, rfl⟩
    · exact fails trivial
  | peek limit =>
    simp only [World.serve]
    split
    · rename_i none
      have nothing : Sent [] [] := ⟨[], .nil, trivial, (fun _ wrong => nomatch wrong), trivial⟩
      refine ⟨[], ?_, nothing, rfl⟩
      cases limit with
      | none => exact none.symm
      | some most => exact ⟨List.nil_prefix, fun some => absurd none some⟩
    · exact fails trivial
  | advance lsn =>
    simp only [World.serve]
    split
    · rename_i value parsed
      exact ⟨value, parsed, rfl⟩
    · exact fails trivial
  | «exists» path => exact ⟨rfl, rfl⟩
  | _ => exact rfl

/-- A run that is computed is a run. -/
theorem ends_served {α : Type} {program : Prog α} {w : World} {result : Except Fault α}
    (ran : (program.run World.serve w).1 = some result) : Ends program w result (program.run World.serve w).2 :=
  Program.ends_run World.serves ran

/-- The same with a slot that answers with these transactions whenever it may. -/
def World.serveSent (sent : List Commit) (rows : List PeekRow) (w : World) : (op : Op) → Reply op × World
  | .peek limit =>
    if w.pending = sent ∨ limit ≠ none ∧ sent ≠ [] ∧ sent <+: w.pending then
      (.ok rows, { w with returned := Commit.objects sent })
    else (.error .other, w)
  | op => w.serve op

theorem World.serveSent_serves {sent : List Commit} {rows : List PeekRow} (carried : Sent sent rows)
    (w : World) (op : Op) :
    Step w op (w.serveSent sent rows op).1 (w.serveSent sent rows op).2 := by
  cases op with
  | peek limit =>
    simp only [serveSent]
    split
    · rename_i may
      refine ⟨sent, ?_, carried, rfl⟩
      cases limit with
      | none => exact (may.resolve_right (fun wrong => wrong.1 rfl)).symm
      | some n =>
        rcases may with whole | ⟨_, some, front⟩
        · exact ⟨whole ▸ List.prefix_refl _, fun some => whole ▸ some⟩
        · exact ⟨front, fun _ => some⟩
    · exact ⟨trivial, rfl, fun _ _ wrong => nomatch wrong⟩
  | _ => exact w.serves _

/-- A run that is computed with these transactions is a run. -/
theorem ends_sent {α : Type} {program : Prog α} {w : World} {result : Except Fault α} {sent : List Commit}
    {rows : List PeekRow} (carried : Sent sent rows) (ran : (program.run (World.serveSent sent rows) w).1 =
      some result) :
    Ends program w result (program.run (World.serveSent sent rows) w).2 :=
  Program.ends_run (World.serveSent_serves carried) ran

end Osmdbt
