import Osmdbt.General.System

/-! Programs behind a lock: any number of them, interleaved operation by operation, do
nothing they could not do one after the other. -/

namespace Osmdbt.General

variable {Op : Type} {Reply : Op → Type} {ε α β σ : Type}

namespace Program

/-- Nothing is left to do. -/
def Over : Program Op Reply ε α → Prop
  | .perform _ _ => False
  | _ => True

section Lock

variable (step : σ → (op : Op) → Reply op → σ → Prop) (taken : σ → Prop)

/-- The program has the lock: it keeps it until it is over, or gives it back last. -/
def Inside : Program Op Reply ε α → Prop
  | .perform op next => ∀ s reply s', taken s → step s op reply s' →
      taken s' ∧ Inside (next reply) ∨ ¬ taken s' ∧ (next reply).Over
  | _ => True

/-- The first operation takes the lock; when it fails, the program is over. -/
def Waits : Program Op Reply ε α → Prop
  | .perform op next => ∀ s reply s', step s op reply s' →
      (¬ taken s ∧ taken s' ∧ (next reply).Inside step taken) ∨ s' = s ∧ (next reply).Over
  | _ => True

variable {step taken} {keeps : Op → Prop} {post : α → Prop}
  (kept : ∀ s op reply s', keeps op → step s op reply s' → taken s → taken s')
include kept

/-- Operations that do not touch the lock come before the rest. -/
theorem Inside.bind {program : Program Op Reply ε α} {next : α → Program Op Reply ε β} (uses : program.Uses keeps post)
    (rest : ∀ value, (next value).Inside step taken) : (program >>= next).Inside step taken := by
  change (program.bind next).Inside step taken
  induction program with
  | pure value => exact rest value
  | raise fault => trivial
  | abort => trivial
  | perform op resume ih =>
    exact fun s reply s' held done => .inl ⟨kept s op reply s' uses.1 done held, ih reply (uses.2 reply)⟩

/-- The destructor gives the lock back. -/
theorem Inside.scope {program : Program Op Reply ε α} (uses : program.Uses keeps post) (release : Op) :
    (program.scope (.perform release (fun _ => .pure ()))).Inside step taken := by
  have last (s' : σ) {rest : Program Op Reply ε α} (spent : rest.Over) (inside : rest.Inside step taken) :
      taken s' ∧ rest.Inside step taken ∨ ¬ taken s' ∧ rest.Over :=
    (Classical.em (taken s')).imp (⟨·, inside⟩) (⟨·, spent⟩)
  induction program with
  | pure value => exact fun _ _ s' _ _ => last s' trivial trivial
  | raise fault => exact fun _ _ s' _ _ => last s' trivial trivial
  | abort => trivial
  | perform op next ih =>
    exact fun s reply s' held done => .inl ⟨kept s op reply s' uses.1 done held, ih reply (uses.2 reply)⟩

omit kept in
theorem Over.map {program : Program Op Reply ε α} (spent : program.Over) (f : α → β) :
    (program >>= fun value => .pure (f value)).Over := by
  change (program.bind _).Over
  cases program with
  | perform op next => exact spent.elim
  | _ => trivial

omit kept in
theorem Inside.map {program : Program Op Reply ε α} (inside : program.Inside step taken) (f : α → β) :
    (program >>= fun value => .pure (f value)).Inside step taken := by
  change (program.bind _).Inside step taken
  induction program with
  | perform op next ih =>
    intro s reply s' held done
    exact (inside s reply s' held done).imp (fun both => ⟨both.1, ih reply both.2⟩)
      (fun both => ⟨both.1, both.2.map f⟩)
  | _ => trivial

omit kept in
theorem Waits.map {program : Program Op Reply ε α} (waits : program.Waits step taken) (f : α → β) :
    (program >>= fun value => .pure (f value)).Waits step taken := by
  change (program.bind _).Waits step taken
  cases program with
  | perform op next =>
    intro s reply s' done
    exact (waits s reply s' done).imp (fun all => ⟨all.1, all.2.1, all.2.2.map f⟩) (fun both => ⟨both.1, both.2.map f⟩)
  | _ => trivial

end Lock

end Program

/-- Interleaved processes, and somebody who tidies up when none of them has anything left to do. -/
inductive Attended {ι : Type} [DecidableEq ι] (step : σ → (op : Op) → Reply op → σ → Prop) (env tidy : σ → σ → Prop)
    (launch : Program Op Reply ε α → Prop) :
    σ × (ι → Option (Program Op Reply ε α)) → σ × (ι → Option (Program Op Reply ε α)) → Prop where
  | process {c c'} (taken : Concurrent step env launch c c') : Attended step env tidy launch c c'
  | tidy {s s' processes} (quiet : ∀ i program, processes i = some program → program.Over) (tidied : tidy s s') :
      Attended step env tidy launch (s, processes) (s', processes)

section Serial

variable {ι : Type} [DecidableEq ι] {step : σ → (op : Op) → Reply op → σ → Prop} {taken : σ → Prop}
    {env tidy : σ → σ → Prop}
  {launch : Program Op Reply ε α → Prop} {begin : σ → Program Op Reply ε α → σ → Prop}

/-- Whoever has the lock is the one that runs; all others have done nothing. -/
structure InTurn (step : σ → (op : Op) → Reply op → σ → Prop) (taken : σ → Prop) (launch : Program Op Reply ε α → Prop)
    (c : σ × (ι → Option (Program Op Reply ε α))) (holder : Option ι) (now : Option (Program Op Reply ε α)) :
    Prop where
  others : ∀ i program, c.2 i = some program → holder ≠ some i → launch program ∨ program.Over
  held : ∀ i, holder = some i → taken c.1 ∧ ∃ program, c.2 i = some program ∧ now = some program ∧
    program.Inside step taken ∧ ¬ program.Over
  free : holder = none → now = none

namespace InTurn

variable {s s' : σ} {processes : ι → Option (Program Op Reply ε α)} {holder : Option ι}
    {now : Option (Program Op Reply ε α)} {i : ι}

omit [DecidableEq ι] in
theorem world (turn : InTurn step taken launch (s, processes) holder now) (kept : taken s → taken s') :
    InTurn step taken launch (s', processes) holder now :=
  ⟨turn.others, fun i here => ⟨kept (turn.held i here).1, (turn.held i here).2⟩, turn.free⟩

omit [DecidableEq ι] in
theorem cases (turn : InTurn step taken launch (s, processes) holder now) {program : Program Op Reply ε α}
    (here : processes i = some program) : now = some program ∨ program.Over ∨ launch program := by
  by_cases own : holder = some i
  · obtain ⟨_, held, there, same, _⟩ := turn.held i own
    exact .inl (same.trans (there.symm.trans here))
  · exact .inr (turn.others i program here own).symm

/-- Somebody else who does not have the lock. -/
theorem update (turn : InTurn step taken launch (s, processes) holder now) (other : holder ≠ some i)
    {program : Option (Program Op Reply ε α)} (idle : ∀ own, program = some own → launch own ∨ own.Over) :
    InTurn step taken launch (s, Function.update processes i program) holder now := by
  refine ⟨fun j own here apart => ?_, fun j here => ?_, turn.free⟩
  · by_cases same : j = i
    · subst same
      exact idle own (by simpa using here)
    · exact turn.others j own (by simpa [same] using here) apart
  · have different : j ≠ i := fun same => other (same ▸ here)
    obtain ⟨held, own, there, rest⟩ := turn.held j here
    exact ⟨held, own, by simpa [different] using there, rest⟩

/-- The one who has the lock gives it up. -/
theorem leave (turn : InTurn step taken launch (s, processes) (some i) now) {program : Option (Program Op Reply ε α)}
    (spent : ∀ own, program = some own → own.Over) :
    InTurn step taken launch (s', Function.update processes i program) none none := by
  refine ⟨fun j own here _ => ?_, fun _ wrong => absurd wrong (Option.some_ne_none _).symm, fun _ => rfl⟩
  by_cases same : j = i
  · subst same
    exact .inr (spent own (by simpa using here))
  · exact turn.others j own (by simpa [same] using here) (fun equal => same (Option.some.inj equal).symm)

/-- Its program goes on. -/
theorem go (others : ∀ j own, processes j = some own → j ≠ i → launch own ∨ own.Over) (held : taken s)
    {program : Program Op Reply ε α} (inside : program.Inside step taken) (more : ¬ program.Over) :
    InTurn step taken launch (s, Function.update processes i (some program)) (some i) (some program) := by
  refine ⟨fun j own here apart => ?_, fun j here => ?_, fun wrong => absurd wrong (Option.some_ne_none _)⟩
  · have different : j ≠ i := fun same => apart (congrArg some same.symm)
    exact others j own (by simpa [different] using here) different
  · obtain rfl : i = j := Option.some.inj here
    exact ⟨held, program, Function.update_self .., rfl, inside, more⟩

omit [DecidableEq ι] in
/-- Nobody has the lock when all programs are over. -/
theorem nobody (turn : InTurn step taken launch (s, processes) holder now)
    (quiet : ∀ i program, processes i = some program → program.Over) : holder = none := by
  cases holder with
  | none => rfl
  | some i =>
    obtain ⟨_, program, here, _, _, more⟩ := turn.held i rfl
    exact absurd (quiet i program here) more

/-- The run that is under way, and the state of the processes in turn. -/
def Running (step : σ → (op : Op) → Reply op → σ → Prop) (env : σ → σ → Prop)
    (begin : σ → Program Op Reply ε α → σ → Prop)
    (taken : σ → Prop) (launch : Program Op Reply ε α → Prop) (s₀ : σ)
    (c : σ × (ι → Option (Program Op Reply ε α))) (holder : Option ι) (now : Option (Program Op Reply ε α)) : Prop :=
  Relation.ReflTransGen (Sequential step env begin) (s₀, none) (c.1, now) ∧ InTurn step taken launch c holder now

variable {s₀ : σ} {op : Op} {next : Reply op → Program Op Reply ε α} {reply : Reply op}

/-- Whoever has the lock performs an operation. -/
theorem Running.own (state : Running step env begin taken launch s₀ (s, processes) (some i) now)
    (running : processes i = some (.perform op next)) (done : step s op reply s') :
    ∃ holder now, Running step env begin taken launch s₀ (s', Function.update processes i (some (next reply)))
        holder now := by
  obtain ⟨runs, turn⟩ := state
  obtain ⟨held, program, here, rfl, inside, _⟩ := turn.held i rfl
  obtain rfl : .perform op next = program := Option.some.inj (running.symm.trans here)
  have performed := runs.tail (.perform done)
  by_cases spent : (next reply).Over
  · exact ⟨none, none, performed.tail .stop, turn.leave (fun _ same => Option.some.inj same ▸ spent)⟩
  · obtain ⟨held', later⟩ := (inside s reply s' held done).resolve_right (fun ended => spent ended.2)
    refine ⟨some i, some (next reply), performed, InTurn.go (fun j own there other => ?_) held' later spent⟩
    exact turn.others j own there (fun same => other (Option.some.inj same).symm)

/-- The first operation of a process: it takes the lock, or it does nothing. -/
theorem Running.first (begins : ∀ s program, launch program → begin s program s)
    (state : Running step env begin taken launch s₀ (s, processes) holder now) (other : holder ≠ some i)
    (launched : launch (.perform op next)) (waits : Program.Waits step taken (.perform op next))
    (done : step s op reply s') :
    ∃ holder now, Running step env begin taken launch s₀ (s', Function.update processes i (some (next reply)))
        holder now := by
  obtain ⟨runs, turn⟩ := state
  rcases waits s reply s' done with ⟨down, held, inside⟩ | ⟨rfl, spent⟩
  · -- nobody has the lock, so the process starts and takes it
    obtain rfl : holder = none := by
      cases holder with
      | none => rfl
      | some j => exact absurd (turn.held j rfl).1 down
    obtain rfl : now = none := turn.free rfl
    have performed := (runs.tail (.start (begins s _ launched))).tail (.perform done)
    by_cases spent : (next reply).Over
    · refine ⟨none, none, performed.tail .stop, (turn.update other ?_).world (fun held => absurd held down)⟩
      exact fun own same => .inr (Option.some.inj same ▸ spent)
    · exact ⟨some i, some (next reply), performed,
        InTurn.go (fun j own there _ => turn.others j own there (Option.some_ne_none _).symm) held inside spent⟩
  · exact ⟨holder, now, runs, turn.update other (fun own same => .inr (Option.some.inj same ▸ spent))⟩

theorem Running.process (waits : ∀ program, launch program → program.Waits step taken)
    (environment : ∀ s s', env s s' → taken s → taken s') (begins : ∀ s program, launch program → begin s program s)
    {c c' : σ × (ι → Option (Program Op Reply ε α))} (state : Running step env begin taken launch s₀ c holder now)
    (taking : Concurrent step env launch c c') :
    ∃ holder now, Running step env begin taken launch s₀ c' holder now := by
  obtain ⟨runs, turn⟩ := state
  cases taking with
  | @env s s' processes change =>
    exact ⟨holder, now, runs.tail (.env change), turn.world (environment s s' change)⟩
  | @start s processes program i empty launched =>
    refine ⟨holder, now, runs, turn.update (fun here => ?_) (fun own same => ?_)⟩
    · obtain ⟨_, own, there, _⟩ := turn.held i here
      exact absurd (there.symm.trans empty) (Option.some_ne_none _)
    · exact .inl (Option.some.inj same ▸ launched)
  | @stop s processes i =>
    by_cases own : holder = some i
    · subst own
      obtain ⟨_, program, _, rfl, _⟩ := turn.held i rfl
      exact ⟨none, none, runs.tail .stop, turn.leave (fun _ wrong => absurd wrong (Option.some_ne_none _).symm)⟩
    · exact ⟨holder, now, runs, turn.update own (fun _ wrong => absurd wrong (Option.some_ne_none _).symm)⟩
  | @perform s processes op next reply s' i running done =>
    by_cases mine : holder = some i
    · subst mine
      exact Running.own ⟨runs, turn⟩ running done
    · have launched := (turn.others i _ running mine).resolve_right id
      exact Running.first begins ⟨runs, turn⟩ mine launched (waits _ launched) done

end InTurn

/-- What interleaved processes behind a lock come to, one process at a time comes to. -/
theorem Attended.serial (waits : ∀ program, launch program → program.Waits step taken)
    (environment : ∀ s s', env s s' → taken s → taken s') (begins : ∀ s program, launch program → begin s program s)
    (tidies : ∀ s s', tidy s s' → ∃ program, begin s program s')
    {start current : σ × (ι → Option (Program Op Reply ε α))} (fresh : ∀ i, start.2 i = none)
    (reached : Relation.ReflTransGen (Attended step env tidy launch) start current) :
    ∃ holder now, Relation.ReflTransGen (Sequential step env begin) (start.1, none) (current.1, now) ∧
      InTurn step taken launch current holder now := by
  induction reached with
  | refl =>
    refine ⟨none, none, .refl, fun i program here => ?_, fun _ wrong =>
      absurd wrong (Option.some_ne_none _).symm, fun _ => rfl⟩
    rw [fresh i] at here
    cases here
  | @tail before after _ taking ih =>
    obtain ⟨holder, now, runs, turn⟩ := ih
    cases taking with
    | @tidy s s' processes quiet tidied =>
      obtain rfl := turn.nobody quiet
      obtain ⟨program, begun⟩ := tidies s s' tidied
      obtain rfl : now = none := turn.free rfl
      exact ⟨none, none, (runs.tail (.start begun)).tail .stop, turn.others, fun _ wrong =>
        absurd wrong (Option.some_ne_none _).symm,
        fun _ => rfl⟩
    | process taking => exact InTurn.Running.process waits environment begins ⟨runs, turn⟩ taking

end Serial

end Osmdbt.General
