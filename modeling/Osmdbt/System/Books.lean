import Osmdbt.System.Ledger

/-! The programs keep the books, one after the other, while transactions commit. -/

namespace Osmdbt

open General

/-- A transaction commits behind all others. -/
inductive Commits : World → World → Prop where
  | commit (w : World) (commit : Commit) (tables : Tables) (above : ∀ other ∈ w.wal, other.lsn < commit.lsn)
      (small : commit.lsn < 2 ^ 64) : Commits w { w with wal := w.wal ++ [commit], tables }

theorem Commits.aside {w w' : World} (commits : Commits w w') : Aside w w' ∧ Others w w' := by
  cases commits with
  | commit commit tables above small =>
    have outside : Outside w { w with wal := w.wal ++ [commit], tables } := .commit w (w.wal ++ [commit]) tables
    exact ⟨outside.aside, outside.others⟩

theorem Commits.pending {w w' : World} (commits : Commits w w') : w.pending.Sublist w'.pending := by
  cases commits with
  | commit commit tables above small =>
    change (w.wal.filter _).Sublist ((w.wal ++ [commit]).filter _)
    exact (List.sublist_append_left _ _).filter _

theorem Commits.wal {w w' : World} (commits : Commits w w') : ∀ commit ∈ w.wal, commit ∈ w'.wal := by
  cases commits with
  | commit commit tables above small => exact fun other member => List.mem_append_left _ member

theorem Commits.front {w w' : World} {sent : List Commit} (commits : Commits w w') (front : sent <+: w.pending) :
    sent <+: w'.pending := by
  cases commits with
  | commit commit tables above small =>
    refine front.trans ?_
    rw [World.pending, World.pending, List.filter_append]
    exact List.prefix_append _ _

theorem Commits.get {w w' : World} (commits : Commits w w') : w'.get = w.get := by
  cases commits with
  | commit => rfl

/-- The ledger, and the log files of the present round. -/
structure Books where
  ledger : Ledger
  fresh : List Text

section Books

variable {agrees : List (Text × Text) → List Osmobj → Prop} {w w' : World}

theorem Balanced.commits {ledger : Ledger} {plan : Option Plan} (balanced : Balanced agrees ledger plan w)
    (commits : Commits w w') : Balanced agrees ledger plan w' := by
  obtain ⟨aside, others⟩ := commits.aside
  have once := (once_kept {}).running aside others.lock balanced.once
  cases commits with
  | commit commit tables above small =>
    exact ⟨balanced.files.commit tables above small, balanced.diffs,
      fun current same => ⟨(balanced.plans current same).publishes, (balanced.plans current same).waiting⟩, once⟩

def InBalance (agrees : List (Text × Text) → List Osmobj → Prop) (c : World × (Option Plan × Books)) : Prop :=
  Balanced agrees c.2.2.ledger c.2.1 c.1

/-- Others only commit transactions; every own operation keeps the books. -/
def bookRules (agrees : List (Text × Text) → List Osmobj → Prop) : Rules (Option Plan × Books) where
  step := Step
  rely c c' := Commits c.1 c'.1 ∧ c'.2 = c.2
  move c c' := InBalance agrees c → InBalance agrees c'

/-- No publication is under way. -/
structure Resting (agrees : List (Text × Text) → List Osmobj → Prop) (F : Books → World → Prop)
    (c : World × (Option Plan × Books)) : Prop where
  idle : c.2.1 = none
  balanced : Balanced agrees c.2.2.ledger none c.1
  fact : F c.2.2 c.1

/-- A fact that commits and the pid files do not change. -/
structure Steady (F : Books → World → Prop) : Prop where
  commits : ∀ {books w w'}, Commits w w' → F books w → F books w'
  untouched : ∀ {books w w'}, Untouched InRun w w' → F books w → F books w'

theorem Steady.and {F F' : Books → World → Prop} (first : Steady F) (second : Steady F') :
    Steady (fun books w => F books w ∧ F' books w) :=
  ⟨fun commits both => ⟨first.commits commits both.1, second.commits commits both.2⟩,
    fun same both => ⟨first.untouched same both.1, second.untouched same both.2⟩⟩

theorem Steady.const {p : Books → Prop} : Steady (fun books _ => p books) := ⟨fun _ => id, fun _ => id⟩

theorem Ledger.Caught.commits {ledger : Ledger} (commits : Commits w w') (caught : ledger.Caught w) :
    ledger.Caught w' := by
  cases commits with
  | commit => exact caught

theorem steady_caught : Steady (fun books w => books.ledger.Caught w) where
  commits := Ledger.Caught.commits
  untouched same caught name commit member := same.slot ▸ caught name commit member

theorem steady_get {path : Path} (log : path.dir = .log) {content : Content} :
    Steady (fun _ w => w.get path = some content) where
  commits commits here := by
    cases commits with
    | commit => exact here
  untouched same here := (same.get path (fun run => by rw [InRun, log] at run; cases run)).trans here

/-- What get-log has peeked. -/
def Peeked (sent : List Commit) (books : Books) (w : World) : Prop :=
  sent.Sublist w.pending ∧ w.returned = Commit.objects sent ∧ books.fresh = []

theorem steady_peeked (sent : List Commit) : Steady (Peeked sent) where
  commits commits here := by
    refine ⟨here.1.trans commits.pending, ?_, here.2.2⟩
    cases commits with
    | commit => exact here.2.1
  untouched same here := ⟨pending_same same.wal same.slot ▸ here.1, same.returned.trans here.2.1, here.2.2⟩

/-- What get-log returned last stands in the log files of this round. -/
structure Answered (books : Books) (w : World) : Prop where
  logged : ∀ obj ∈ w.returned, ∃ name ∈ books.fresh, obj ∈ Commit.objects (books.ledger name)
  there : ∀ name ∈ books.fresh, isLog name = true ∧ (w.get ⟨.log, name⟩).isSome

theorem answered_nothing {books : Books} {w : World} (returned : w.returned = []) (fresh : books.fresh = []) :
    Answered books w where
  logged := by simp [returned]
  there := by simp [fresh]

theorem steady_answered : Steady Answered where
  commits commits here := by
    cases commits with
    | commit => exact ⟨here.logged, here.there⟩
  untouched same here := by
    refine ⟨fun obj member => here.logged obj (same.returned ▸ member), fun name member =>
      ⟨(here.there name member).1, ?_⟩⟩
    rw [same.get _ (by rintro ⟨⟩)]
    exact (here.there name member).2

theorem resting_quiet {F : Books → World → Prop} (steady : Steady F) :
    Quiet (bookRules agrees) InRun (Resting agrees F) where
  stable := by
    rintro ⟨w, t⟩ ⟨w', _⟩ ⟨commits, rfl⟩ resting
    exact ⟨resting.idle, resting.balanced.commits commits, steady.commits commits resting.fact⟩
  kept w w' t resting same :=
    ⟨resting.idle, resting.balanced.untouched same (fun _ run => .inl run), steady.untouched same resting.fact⟩
  allowed := by
    rintro w w' ⟨plan, books⟩ resting same _
    obtain rfl : plan = none := resting.idle
    exact resting.balanced.untouched same (fun _ run => .inl run)

/-- What get-log knows of the books. -/
def bookStations (agrees : List (Text × Text) → List Osmobj → Prop) : LogStations (Option Plan × Books) where
  ready := Resting agrees (fun books w => books.ledger.Caught w)
  peeked sent := Resting agrees (fun books w => books.ledger.Caught w ∧ Peeked sent books w)
  writing sent name written := Resting agrees (fun books w => ((books.ledger.Caught w ∧ Peeked sent books w) ∧
    ∃ last time, sent.getLast? = some last ∧ name = replicationLogName (lsnStr last.lsn) time) ∧
      w.get (newLog name) = some (.text written))
  filed sent := Resting agrees (fun books w => (∀ commit ∈ sent, commit ∈ w.wal) ∧ Answered books w)
  ended := Resting agrees Answered
  failed := Resting agrees (fun _ _ => True)

theorem Resting.imp {F F' : Books → World → Prop} {c : World × (Option Plan × Books)} (resting : Resting agrees F c)
    (more : F c.2.2 c.1 → F' c.2.2 c.1) : Resting agrees F' c := ⟨resting.idle, resting.balanced, more resting.fact⟩

/-- A file under its first name is nobody's business. -/
theorem resting_put {F F' : Books → World → Prop} {w : World} {t : Option Plan × Books} {name : Text}
    {content : Content}
    (resting : Resting agrees F (w, t)) (fact : F t.2 w → F' t.2 (w.put (newLog name) content)) :
    (InBalance agrees (w, t) → InBalance agrees (w.put (newLog name) content, t)) ∧
      Resting agrees F' (w.put (newLog name) content, t) := by
  obtain ⟨plan, books⟩ := t
  obtain rfl : plan = none := resting.idle
  have balanced : Balanced agrees books.ledger none (w.put (newLog name) content) :=
    resting.balanced.untouched (untouched_put _ _ _) (fun path same => .inr ⟨name, same⟩)
  exact ⟨fun _ => balanced, rfl, balanced, fact resting.fact⟩

theorem bookStations_sound {options : GetLogOptions} (waits : options.catchup = false) :
    (bookStations agrees).Sound (bookRules agrees) options where
  step := rfl
  ready := resting_quiet steady_caught
  peeked sent := resting_quiet (steady_caught.and (steady_peeked sent))
  writing sent name written := resting_quiet (((steady_caught.and (steady_peeked sent)).and Steady.const).and
    (steady_get rfl))
  filed sent := by
    refine resting_quiet (Steady.and ⟨fun commits inside commit member =>
      commits.wal commit (inside commit member), ?_⟩ steady_answered)
    exact fun same inside commit member => same.wal ▸ inside commit member
  ended := resting_quiet steady_answered
  failed := resting_quiet Steady.const
  readyFails _ here := here.imp (fun _ => trivial)
  peekedFails _ _ here := here.imp (fun _ => trivial)
  writingFails _ _ _ _ here := here.imp (fun _ => trivial)
  filedFails _ _ here := here.imp (fun _ => trivial)
  endedFails _ here := here.imp (fun _ => trivial)
  small _ _ last here ends := here.balanced.files.streams.small last (here.fact.1 last (List.mem_of_getLast? ends))
  peek := by
    rintro w ⟨plan, books⟩ sent resting taken
    obtain rfl : plan = none := resting.idle
    have balanced : Balanced agrees books.ledger none { w with returned := Commit.objects sent } :=
      resting.balanced.kept rfl le_rfl rfl rfl (fun _ _ => ⟨rfl, rfl⟩)
    exact ⟨(none, ⟨books.ledger, []⟩), fun _ => balanced, rfl, balanced, resting.fact, taken.front.sublist, rfl, rfl⟩
  nothing c here := here.imp (fun ⟨_, _, returned, fresh⟩ => answered_nothing returned fresh)
  create w t sent last time ends _ resting free :=
    ⟨t, resting_put resting (fun fact => ⟨⟨fact, last, time, ends, rfl⟩, World.get_put_self _ _ _⟩)⟩
  write w t sent name written c stored resting found := by
    obtain rfl : written = stored := by simpa using resting.fact.2.symm.trans found
    exact ⟨t, resting_put resting (fun fact => ⟨fact.1, World.get_put_self _ _ _⟩)⟩
  file := by
    rintro w ⟨plan, books⟩ sent name data content resting entries found
    obtain rfl : plan = none := resting.idle
    obtain ⟨⟨⟨caught, pending, returned, _⟩, last, time, ends, rfl⟩, stored⟩ := resting.fact
    obtain rfl : content = .text data := Option.some.inj (found.symm.trans stored)
    have balanced := resting.balanced.arrive caught ends pending entries time
    refine ⟨(none, ⟨Function.update books.ledger (replicationLogName (lsnStr last.lsn) time) sent,
      [replicationLogName (lsnStr last.lsn) time]⟩), fun _ => balanced, rfl, balanced, fun commit member => ?_, ?_, ?_⟩
    · exact (List.mem_filter.mp (pending.subset member)).1
    · intro obj member
      refine ⟨_, List.mem_cons_self, ?_⟩
      dsimp only
      rw [Function.update_self, ← returned]
      exact member
    · intro other member
      obtain rfl := List.mem_singleton.mp member
      refine ⟨isLog_replicationLogName _ _, ?_⟩
      dsimp only
      rw [World.get_rename_new]
      rfl
  skip sent c _ empty here := here.imp (fun ⟨_, pending, returned, fresh⟩ =>
    ⟨fun commit member => (List.mem_filter.mp (pending.subset member)).1,
      answered_nothing (returned.trans empty) fresh⟩)
  advance catchup := by
    rw [waits] at catchup
    cases catchup
  finish _ _ _ here := here.imp And.right

/-- catchup catches up everything in the ledger. -/
theorem catchup_books (config : Config) {F : Books → World → Prop} (steady : Steady F)
    (advanced : ∀ {books w lsn}, F books w → F books { w with slot := max w.slot lsn }) :
    (bookRules agrees).Triple (Resting agrees F) (catchup config 0)
      (fun _ => Resting agrees (fun books w => books.ledger.Caught w ∧ F books w))
        (fun _ => Resting agrees (fun _ _ => True)) := by
  have known (lsn : Nat) : Steady (fun books w => (lsn < 2 ^ 64 ∧ ∀ name, ∀ commit ∈ books.ledger name,
      w.slot < commit.lsn → commit.lsn ≤ lsn) ∧ F books w) := by
    refine Steady.and ⟨fun commits here => ?_, fun same here => ?_⟩ steady
    · cases commits with
      | commit => exact here
    · rwa [same.slot]
  refine catchup_triple config (fun lsn =>
    Resting agrees (fun books w => (lsn < 2 ^ 64 ∧ ∀ name, ∀ commit ∈ books.ledger name,
      w.slot < commit.lsn → commit.lsn ≤ lsn) ∧ F books w)) rfl (resting_quiet steady)
        (fun lsn => resting_quiet (known lsn))
    (resting_quiet (steady_caught.and steady)) (resting_quiet Steady.const) (fun _ here => here.imp (fun _ => trivial))
    (fun _ _ here => here.imp (fun _ => trivial)) (fun _ here => here.imp (fun _ => trivial))
      ?_ (fun _ _ here => here.fact.1.1) ?_ ?_
  · rintro w t lsn resting source bound
    have files := resting.balanced.files
    refine resting.imp (fun fact => ⟨⟨?_, fun name commit member later => ?_⟩, fact⟩)
    · rcases source with rfl | ⟨name, log, there, named⟩
      · exact Nat.two_pow_pos 64
      · obtain ⟨content, stored⟩ := Option.isSome_iff_exists.mp there
        obtain ⟨_, _, entered⟩ := files.file name content log stored
        obtain ⟨_, last, member, own, _⟩ := files.named name entered.used
        obtain rfl : last.lsn = lsn := Except.ok.inj (own.symm.trans named)
        exact files.streams.small last ((files.committed name).subset member)
    · obtain ⟨log, last, _, own, largest⟩ := files.named name (List.ne_nil_of_mem member)
      cases stored : w.get ⟨.log, name⟩ with
      | none => exact absurd (files.caught name stored commit member) (not_le.mpr later)
      | some content =>
        obtain ⟨lsn', below, named⟩ := bound name log (by rw [stored]; rfl)
        obtain rfl : last.lsn = lsn' := Except.ok.inj (own.symm.trans named)
        exact (largest commit member).trans below
  · refine fun c resting => resting.imp (fun ⟨⟨_, bound⟩, fact⟩ => ⟨fun name commit member => ?_, fact⟩)
    by_contra later
    have below := bound name commit member (not_le.mp later)
    omega
  · rintro w ⟨plan, books⟩ lsn _ resting
    obtain rfl : plan = none := resting.idle
    have balanced : Balanced agrees books.ledger none { w with slot := max w.slot lsn } :=
      resting.balanced.kept rfl (le_max_left _ _) rfl rfl (fun _ _ => ⟨rfl, rfl⟩)
    obtain ⟨⟨_, bound⟩, fact⟩ := resting.fact
    refine ⟨(none, books), fun _ => balanced, rfl, balanced, fun name commit member => ?_, advanced fact⟩
    by_cases later : w.slot < commit.lsn
    · exact (bound name commit member later).trans (le_max_right _ _)
    · exact (not_lt.mp later).trans (le_max_left _ _)

/-- A move says nothing about other ghosts and conditions. -/
theorem DiffMove.plain {γ : Type} {config : Config} {options : CreateDiffOptions} {ready : World × γ → Prop}
    {watch : γ → Text → Prop}
    {w w' : World} {plan plan' : Option Plan} {g g' : γ}
    (move : DiffMove config options ready watch (w, (plan, g)) (w', (plan', g'))) :
    DiffMove config options (fun _ : World × Unit => True) (fun _ _ => False) (w, (plan, ())) (w', (plan', ())) := by
  cases move with
  | scratch same => exact .scratch same
  | lock free prepared here watched => exact .lock free prepared trivial (fun _ _ wrong => wrong.elim)
  | during same held => exact .during same held
  | moveChange stored => exact .moveChange stored
  | moveState stored => exact .moveState stored
  | moveCopy stored => exact .moveCopy stored
  | moveLog stored => exact .moveLog stored
  | unlock => exact .unlock

theorem DiffMove.ghost {γ : Type} {config : Config} {options : CreateDiffOptions} {ready : World × γ → Prop}
    {watch : γ → Text → Prop}
    {c c' : World × (Option Plan × γ)} (move : DiffMove config options ready watch c c') : c'.2.2 = c.2.2 := by
  cases move <;> rfl

theorem DiffMove.slot {γ : Type} {config : Config} {options : CreateDiffOptions} {ready : World × γ → Prop}
    {watch : γ → Text → Prop}
    {c c' : World × (Option Plan × γ)} (move : DiffMove config options ready watch c c') : c'.1.slot = c.1.slot := by
  cases move with
  | scratch same => exact same.slot
  | during same held => exact same.slot
  | _ => rfl

section Publication

variable {config : Config} {options : CreateDiffOptions} {ready : World × Books → Prop} {watch : Books → Text → Prop}
  (given : options.logFileNames = []) (caught : ∀ w books, ready (w, books) → books.ledger.Caught w)
  (agreed : ∀ w books (plan : Plan), ready (w, books) → Present w plan.sources →
    (∀ name, watch books name → name ∈ plan.sources.map Prod.fst ∨ LimitReached options plan.sources) →
    agrees plan.sources w.returned)
include given caught agreed

/-- Every operation of create-diff keeps the books. -/
theorem Balanced.diffMove {books : Books} {plan plan' : Option Plan}
    (move : DiffMove config options ready watch (w, (plan, books)) (w', (plan', books)))
    (balanced : Balanced agrees books.ledger plan w) : Balanced agrees books.ledger plan' w' := by
  have once := (once_kept config).moved balanced.once ⟨options, given, move.plain⟩
  obtain ⟨files, diffs, plans, current⟩ := balanced
  have same {touched : Path → Prop} (untouched : Untouched touched w w')
    (outside : ∀ path, touched path → path.dir ≠ .log) :
      books.ledger.Files w' := files.untouched untouched (fun path inside log => absurd log (outside path inside))
  cases move with
  | scratch untouched =>
    exact ⟨same untouched scratch_not_log, untouched.renames ▸ diffs, (fun _ wrong => nomatch wrong), once⟩
  | @lock _ plan g free prepared here watched =>
    refine ⟨same (untouched_put _ _ _) (by rintro _ rfl ⟨⟩), diffs, fun current chosen => ?_, once⟩
    obtain rfl := Option.some.inj chosen
    obtain ⟨distinct, logs⟩ := prepared.names given
    refine ⟨⟨⟨_, rfl, prepared.written⟩, distinct, fun source inside => ?_, agreed w books plan here
      prepared.present (watched given)⟩,
      fun name _ => caught w books here name⟩
    obtain ⟨data, text, entered⟩ := files.file source.1 _ (logs source inside) (prepared.present source inside)
    obtain rfl : source.2 = data := Content.text.inj text
    exact entered
  | during untouched held =>
    refine ⟨same untouched (by rintro _ (rfl | run) log; cases log; rw [run] at log; cases log),
      untouched.renames ▸ diffs, ?_, once⟩
    intro current chosen
    have before := plans current chosen
    exact ⟨untouched.returned ▸ before.publishes, untouched.slot ▸ before.waiting⟩
  | moveChange stored =>
    have before := plans _ rfl
    refine ⟨files.move (by decide) (by rintro ⟨⟩), diffs.append (fun _ sources objects same => ?_),
      fun current chosen => ?_, once⟩
    · obtain ⟨rfl, rfl⟩ := Content.osc.inj same
      exact before.publishes
    · obtain rfl := Option.some.inj chosen
      exact ⟨before.publishes, before.waiting⟩
  | moveState stored =>
    have before := plans _ rfl
    refine ⟨files.move (by decide) (by rintro ⟨⟩), diffs.append (fun _ sources objects same => by cases same),
      fun current chosen => ?_, once⟩
    obtain rfl := Option.some.inj chosen
    exact ⟨before.publishes, before.waiting⟩
  | moveCopy stored =>
    have before := plans _ rfl
    refine ⟨files.move (by decide) (by decide), diffs.append (fun _ sources objects same => by cases same),
      fun current chosen => ?_, once⟩
    obtain rfl := Option.some.inj chosen
    exact ⟨before.publishes, before.waiting⟩
  | @moveLog _ plan g logFile remaining content stored =>
    have before := plans _ rfl
    have there := current.2.there logFile List.mem_cons_self
    refine ⟨files.retire stored there.1 (before.waiting logFile List.mem_cons_self),
      diffs.append (fun changes => by cases changes),
      fun current chosen => ?_, once⟩
    obtain rfl := Option.some.inj chosen
    exact ⟨before.publishes, fun name inside => before.waiting name (List.mem_cons_of_mem _ inside)⟩
  | unlock => exact ⟨same (untouched_drop _ _) (by rintro _ rfl ⟨⟩), diffs, (fun _ wrong => nomatch wrong), once⟩

/-- What create-diff leaves behind. -/
theorem createDiff_books (rules : Ready ready) {c : World × (Option Plan × Books)} (balanced : InBalance agrees c)
    (before : Before ready watch c.2.2 (fun _ => True) c) :
    (bookRules agrees).Safe (fun _ c => Ended c ∧ InBalance agrees c ∧ c.2.2.ledger.Caught c.1)
      (fun _ c => Ended c ∧ InBalance agrees c ∧ c.2.2.ledger.Caught c.1) (createDiff config options) c := by
  let alone : Rules (Option Plan × Books) :=
    { step := Step, rely := fun c c' => Commits c.1 c'.1 ∧ c'.2 = c.2, move := DiffMove config options ready watch }
  have safe : alone.Safe (fun _ => Ended) (fun _ => Ended) (createDiff config options) c :=
    Discipline.Safe.mono (D := diffRules config options ready watch) (fun _ _ _ _ done => done)
      (fun _ _ change => ⟨change.1.aside.2, change.2⟩) (fun _ _ move => move)
      (createDiff_triple config options watch rules c.2.2 c before)
  have kept (c c' : World × (Option Plan × Books)) (balanced : InBalance agrees c)
      (move : DiffMove config options ready watch c c') : InBalance agrees c' := by
    have same := move.ghost
    obtain ⟨w', plan', books'⟩ := c'
    obtain rfl : books' = c.2.2 := same
    exact Balanced.diffMove given caught agreed move balanced
  have stable : alone.Stable (fun c => InBalance agrees c ∧ c.2.2.ledger.Caught c.1) := by
    rintro ⟨w, t⟩ ⟨w', _⟩ ⟨commits, rfl⟩ ⟨balanced, caught⟩
    exact ⟨balanced.commits commits, steady_caught.commits commits caught⟩
  have moved (c c' : World × (Option Plan × Books)) (both : InBalance agrees c ∧ c.2.2.ledger.Caught c.1)
      (move : DiffMove config options ready watch c c') : InBalance agrees c' ∧ c'.2.2.ledger.Caught c'.1 := by
    refine ⟨kept c c' both.1 move, ?_⟩
    rw [move.ghost, Ledger.Caught, move.slot]
    exact both.2
  exact Discipline.Safe.mono (D := alone) (fun _ _ _ _ done => done) (fun _ _ change => change)
    (fun c c' move balanced => kept c c' balanced move)
      (safe.also stable moved ⟨balanced, caught c.1 c.2.2 before.here⟩)

end Publication

end Books

end Osmdbt
