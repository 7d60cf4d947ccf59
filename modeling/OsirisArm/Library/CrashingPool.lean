import OsirisArm.Library.WorkerPool

/-! # Workers that die

A worker can die while it works on a job. Nobody gets the job again, and the reader is not told. To
the rest of the pool the worker is one that never goes on: without the deaths, the run is a run of
the pool in which they have not happened.
-/

namespace OsirisArm.Library
open scoped List

section
variable {α ρ β ω : Type*} (program : PoolProgram α ρ β ω) (crashes : α → Prop)

/-- The steps of a run, and the jobs whose workers died in between. -/
inductive CrashRun (start : Pool α β ω) : List (PoolEvent α ρ β) → List α → Pool α β ω → Prop
  | start : CrashRun start [] [] start
  | step {trace : List (PoolEvent α ρ β)} {lost : List α} {pool next : Pool α β ω}
      {event : PoolEvent α ρ β} (run : CrashRun start trace lost pool)
      (step : PoolStep program pool event next) : CrashRun start (trace ++ [event]) lost next
  | crash {trace : List (PoolEvent α ρ β)} {lost : List α} (input : List α)
      (left right : List (Worker α β)) (job : α) (output : List β) (reader : ω)
      (run : CrashRun start trace lost ⟨input, left ++ .holding job :: right, output, reader⟩)
      (crashes : crashes job) :
      CrashRun start trace (lost ++ [job]) ⟨input, left ++ right, output, reader⟩

/-- Nothing happens any more: no step is possible and no worker can die. -/
def Pool.Stuck (pool : Pool α β ω) : Prop :=
  (∀ event next, ¬ PoolStep program pool event next) ∧
    ∀ job, Worker.holding job ∈ pool.workers → ¬ crashes job

end

section
variable {α ρ β ω : Type*} {program : PoolProgram α ρ β ω} {crashes : α → Prop}

theorem exists_split_of_perm {workers left right others : List (Worker α β)} {worker : Worker α β}
    (h : workers ~ left ++ worker :: right ++ others) :
    ∃ before after, workers = before ++ worker :: after ∧
      ∀ changed, before ++ changed :: after ~ left ++ changed :: right ++ others := by
  obtain ⟨before, after, rfl⟩ := List.append_of_mem (h.mem_iff.mpr (by simp : worker ∈ _))
  refine ⟨before, after, rfl, fun changed => ?_⟩
  have hrest : before ++ after ~ left ++ right ++ others := by
    rw [← List.perm_cons worker]
    refine List.perm_middle.symm.trans (h.trans ?_)
    rw [List.append_assoc, List.append_assoc, List.cons_append]
    exact List.perm_middle
  calc before ++ changed :: after
    _ ~ changed :: (before ++ after) := List.perm_middle
    _ ~ changed :: (left ++ right ++ others) := hrest.cons changed
    _ ~ left ++ changed :: right ++ others := by
      rw [List.append_assoc, List.append_assoc, List.cons_append]
      exact List.perm_middle.symm

/-- A step is possible among further workers and in any order of them. -/
theorem PoolStep.among {pool next : Pool α β ω} {event : PoolEvent α ρ β}
    (h : PoolStep program pool event next) {workers others : List (Worker α β)}
    (hworkers : workers ~ pool.workers ++ others) :
    ∃ workers', workers' ~ next.workers ++ others ∧
      PoolStep program ⟨pool.input, workers, pool.output, pool.reader⟩ event
        ⟨next.input, workers', next.output, next.reader⟩ := by
  cases h with
  | get before after left right job output reader =>
    obtain ⟨left', right', rfl, hchanged⟩ := exists_split_of_perm hworkers
    exact ⟨_, hchanged _, .get before after left' right' job output reader⟩
  | work input left right job result output reader possible =>
    obtain ⟨left', right', rfl, hchanged⟩ := exists_split_of_perm hworkers
    exact ⟨_, hchanged _, .work input left' right' job result output reader possible⟩
  | put input left right message output reader =>
    obtain ⟨left', right', rfl, hchanged⟩ := exists_split_of_perm hworkers
    exact ⟨_, hchanged _, .put input left' right' message output reader⟩
  | receive input workers before after message reader waiting =>
    exact ⟨_, hworkers, .receive input _ before after message reader waiting⟩

section
variable {start final : Pool α β ω} {trace : List (PoolEvent α ρ β)} {lost : List α}

/-- The same steps without the deaths, with the dead workers still holding their jobs. -/
theorem CrashRun.delayed (h : CrashRun program crashes start trace lost final) :
    ∃ workers, workers ~ final.workers ++ lost.map .holding ∧
      PoolRun program start trace ⟨final.input, workers, final.output, final.reader⟩ := by
  induction h with
  | start => exact ⟨start.workers, by simp, .start⟩
  | step _ hstep ih =>
    obtain ⟨workers, hworkers, hrun⟩ := ih
    obtain ⟨workers', hworkers', hstep'⟩ := hstep.among hworkers
    exact ⟨workers', hworkers', hrun.step hstep'⟩
  | @crash trace lost input left right job output reader _ _ ih =>
    obtain ⟨workers, hworkers, hrun⟩ := ih
    refine ⟨workers, hworkers.trans ?_, hrun⟩
    calc left ++ .holding job :: right ++ lost.map .holding
      _ ~ .holding job :: (left ++ right ++ lost.map .holding) := by
        rw [List.append_assoc, List.append_assoc, List.cons_append]
        exact List.perm_middle
      _ ~ left ++ right ++ lost.map .holding ++ [.holding job] :=
        (List.perm_append_singleton _ _).symm
      _ = left ++ right ++ (lost ++ [job]).map .holding := by simp

theorem CrashRun.workers_length (h : CrashRun program crashes start trace lost final) :
    final.workers.length + lost.length = start.workers.length := by
  obtain ⟨workers, hworkers, hrun⟩ := h.delayed
  have hlength := hworkers.length_eq
  rw [List.length_append, List.length_map] at hlength
  rw [← hlength]
  exact hrun.workers_length

end

section
variable {pool : Pool α β ω} {workers : List (Worker α β)} {lost : List α}

theorem filterMap_job?_holding (lost : List α) :
    (lost.map (.holding : α → Worker α β)).filterMap Worker.job? = lost := by
  rw [List.filterMap_map]
  exact List.filterMap_some

theorem filterMap_message?_holding (lost : List α) :
    (lost.map (.holding : α → Worker α β)).filterMap Worker.message? = [] := by
  rw [List.filterMap_map, List.filterMap_eq_nil_iff]
  exact fun _ _ => rfl

theorem held_perm (h : workers ~ pool.workers ++ lost.map .holding) :
    workers.filterMap Worker.job? ~ pool.held ++ lost := by
  refine (h.filterMap _).trans (List.Perm.of_eq ?_)
  rw [List.filterMap_append, filterMap_job?_holding, Pool.held]

theorem finished_perm (h : workers ~ pool.workers ++ lost.map .holding) :
    workers.filterMap Worker.message? ~ pool.finished := by
  refine (h.filterMap _).trans (List.Perm.of_eq ?_)
  rw [List.filterMap_append, filterMap_message?_holding, List.append_nil, Pool.finished]

end

section
variable {input : List α} {workers : ℕ} {reader : ω} {final : Pool α β ω}
  {trace : List (PoolEvent α ρ β)} {lost : List α}

/-- A job is in the input queue, with a living worker, lost or worked on. -/
theorem CrashRun.jobs
    (h : CrashRun program crashes (Pool.start input workers reader) trace lost final) :
    final.input ++ final.held ++ lost ++ (worked trace).map Prod.fst ~ input := by
  obtain ⟨workers', hworkers, hrun⟩ := h.delayed
  have hjobs := hrun.jobs
  rw [Pool.held_of_idle (Pool.start_workers_idle _ _ _), List.append_nil] at hjobs
  refine List.Perm.trans (List.Perm.append_right _ ?_) hjobs
  rw [List.append_assoc]
  exact (held_perm hworkers).symm.append_left _

/-- A message is with a living worker, in the output queue or received. -/
theorem CrashRun.messages
    (h : CrashRun program crashes (Pool.start input workers reader) trace lost final) :
    final.finished ++ final.output ++ received trace ~
      (worked trace).map fun w => program.answer w.1 w.2 := by
  obtain ⟨workers', hworkers, hrun⟩ := h.delayed
  have hmessages := hrun.messages
  rw [Pool.finished_of_idle (Pool.start_workers_idle _ _ _)] at hmessages
  refine List.Perm.trans (List.Perm.append_right _ (List.Perm.append_right _ ?_)) hmessages
  exact (finished_perm hworkers).symm

theorem CrashRun.received_length
    (h : CrashRun program crashes (Pool.start input workers reader) trace lost final) :
    (received trace).length + final.unanswered + lost.length = input.length := by
  have hjobs := h.jobs.length_eq
  have hmessages := h.messages.length_eq
  simp only [List.length_append, List.length_map] at hjobs hmessages
  rw [Pool.unanswered]
  omega

/-- A death takes at least as much from the run as it adds to it. -/
theorem CrashRun.length_le
    (h : CrashRun program crashes (Pool.start input workers reader) trace lost final) :
    trace.length + 3 * lost.length ≤ 4 * input.length := by
  obtain ⟨workers', hworkers, hrun⟩ := h.delayed
  have hsteps := hrun.stepsLeft
  have hheld := (held_perm hworkers).length_eq
  rw [List.length_append] at hheld
  have hstart : (Pool.start (β := β) input workers reader).stepsLeft = 4 * input.length := by
    rw [Pool.stepsLeft, Pool.held_of_idle (Pool.start_workers_idle _ _ _),
      Pool.finished_of_idle (Pool.start_workers_idle _ _ _)]
    rfl
  rw [hstart, Pool.stepsLeft, Pool.held, hheld] at hsteps
  omega

end

/-- While the reader waits, the steps end only with idle workers, and with jobs in the input queue
only if there is no worker left. -/
theorem Pool.Stuck.idle {pool : Pool α β ω} (h : pool.Stuck program crashes)
    (hjob : ∀ job, (∃ result, program.possible job result) ∨ crashes job)
    (hwaiting : program.waiting pool.reader) :
    pool.output = [] ∧ (∀ worker ∈ pool.workers, worker = .idle) ∧
      (pool.input = [] ∨ pool.workers = []) := by
  obtain ⟨input, workers, output, reader⟩ := pool
  obtain ⟨hstep, hcrash⟩ := h
  have hidle : ∀ worker ∈ workers, worker = .idle := by
    intro worker hworker
    obtain ⟨left, right, rfl⟩ := List.append_of_mem hworker
    cases worker with
    | idle => rfl
    | holding job =>
      rcases hjob job with ⟨result, hresult⟩ | hdies
      · exact absurd (.work input left right job result output reader hresult) (hstep _ _)
      · exact absurd hdies (hcrash job hworker)
    | finished message => exact absurd (.put input left right message output reader) (hstep _ _)
  refine ⟨?_, hidle, ?_⟩
  · cases output with
    | nil => rfl
    | cons message rest =>
      exact absurd (.receive input workers [] rest message reader hwaiting) (hstep _ _)
  · cases input with
    | nil => exact .inl rfl
    | cons job rest =>
      cases workers with
      | nil => exact .inr rfl
      | cons worker others =>
        obtain rfl := hidle worker List.mem_cons_self
        exact absurd (.get [] rest [] others job output reader) (hstep _ _)

theorem Pool.Drained.stuck {pool : Pool α β ω} (h : pool.Drained) :
    pool.Stuck program crashes := by
  obtain ⟨hinput, hidle, houtput⟩ := h
  constructor
  · intro event next hstep
    have hsteps := hstep.stepsLeft
    rw [Pool.stepsLeft, Pool.stepsLeft, hinput, Pool.held_of_idle hidle,
      Pool.finished_of_idle hidle, houtput] at hsteps
    cases hsteps
  · intro job hjob
    cases hidle _ hjob

end

end OsirisArm.Library
