import Mathlib.Data.List.Perm.Basic
import Mathlib.Data.List.Count

/-! # A pool of workers between two queues

Workers take jobs from an input queue and put one message for each job into an output queue, from
which one reader takes them. Nothing orders the steps of the workers and of the reader, and a queue
hands out any of its messages. What is in the queues, with the workers and already read is
conserved along every run.
-/

namespace OsirisArm.Library
open scoped List

inductive Worker (α β : Type*) where
  | idle
  | holding (job : α)
  | finished (message : β)

namespace Worker
variable {α β : Type*}

def job? : Worker α β → Option α
  | holding job => some job
  | _ => none

def message? : Worker α β → Option β
  | finished message => some message
  | _ => none

end Worker

structure Pool (α β ω : Type*) where
  input : List α
  workers : List (Worker α β)
  output : List β
  reader : ω

inductive PoolEvent (α ρ β : Type*) where
  | get (job : α)
  | work (job : α) (result : ρ)
  | put (message : β)
  | receive (message : β)

/-- What workers and reader do: the possible results of a job, the message for a result, when the
reader waits for a message and what it does with it. -/
structure PoolProgram (α ρ β ω : Type*) where
  possible : α → ρ → Prop
  answer : α → ρ → β
  waiting : ω → Prop
  read : ω → β → ω

section
variable {α ρ β ω : Type*} (program : PoolProgram α ρ β ω)

inductive PoolStep : Pool α β ω → PoolEvent α ρ β → Pool α β ω → Prop
  | get (before after : List α) (left right : List (Worker α β)) (job : α) (output : List β)
      (reader : ω) :
      PoolStep ⟨before ++ job :: after, left ++ .idle :: right, output, reader⟩ (.get job)
        ⟨before ++ after, left ++ .holding job :: right, output, reader⟩
  | work (input : List α) (left right : List (Worker α β)) (job : α) (result : ρ)
      (output : List β) (reader : ω) (possible : program.possible job result) :
      PoolStep ⟨input, left ++ .holding job :: right, output, reader⟩ (.work job result)
        ⟨input, left ++ .finished (program.answer job result) :: right, output, reader⟩
  | put (input : List α) (left right : List (Worker α β)) (message : β) (output : List β)
      (reader : ω) :
      PoolStep ⟨input, left ++ .finished message :: right, output, reader⟩ (.put message)
        ⟨input, left ++ .idle :: right, output ++ [message], reader⟩
  | receive (input : List α) (workers : List (Worker α β)) (before after : List β) (message : β)
      (reader : ω) (waiting : program.waiting reader) :
      PoolStep ⟨input, workers, before ++ message :: after, reader⟩ (.receive message)
        ⟨input, workers, before ++ after, program.read reader message⟩

inductive PoolRun (start : Pool α β ω) : List (PoolEvent α ρ β) → Pool α β ω → Prop
  | start : PoolRun start [] start
  | step {trace : List (PoolEvent α ρ β)} {pool next : Pool α β ω} {event : PoolEvent α ρ β}
      (run : PoolRun start trace pool) (step : PoolStep program pool event next) :
      PoolRun start (trace ++ [event]) next

end

namespace Pool
variable {α β ω : Type*} (pool : Pool α β ω)

def held : List α := pool.workers.filterMap Worker.job?

def finished : List β := pool.workers.filterMap Worker.message?

/-- The number of steps that are left until all jobs are done and all messages received. -/
def stepsLeft : ℕ :=
  4 * pool.input.length + 3 * pool.held.length + 2 * pool.finished.length + pool.output.length

/-- The number of jobs whose message was not received yet. -/
def unanswered : ℕ :=
  pool.input.length + pool.held.length + pool.finished.length + pool.output.length

/-- Jobs in the input queue, all workers idle. -/
def start (input : List α) (workers : ℕ) (reader : ω) : Pool α β ω :=
  ⟨input, List.replicate workers .idle, [], reader⟩

/-- There is nothing left to do. -/
def Drained : Prop :=
  pool.input = [] ∧ (∀ worker ∈ pool.workers, worker = .idle) ∧ pool.output = []

end Pool

namespace PoolEvent
variable {α ρ β : Type*}

def worked? : PoolEvent α ρ β → Option (α × ρ)
  | work job result => some (job, result)
  | _ => none

def received? : PoolEvent α ρ β → Option β
  | receive message => some message
  | _ => none

end PoolEvent

section
variable {α ρ β ω : Type*}

/-- The jobs that were worked on, with their results. -/
def worked (trace : List (PoolEvent α ρ β)) : List (α × ρ) := trace.filterMap PoolEvent.worked?

def received (trace : List (PoolEvent α ρ β)) : List β := trace.filterMap PoolEvent.received?

@[simp] theorem worked_append (first second : List (PoolEvent α ρ β)) :
    worked (first ++ second) = worked first ++ worked second := List.filterMap_append

@[simp] theorem received_append (first second : List (PoolEvent α ρ β)) :
    received (first ++ second) = received first ++ received second := List.filterMap_append

variable {program : PoolProgram α ρ β ω} {pool next : Pool α β ω} {event : PoolEvent α ρ β}

/-- A job is in the input queue, with a worker or worked on. -/
theorem PoolStep.jobs (h : PoolStep program pool event next) :
    (next.input ++ next.held ++ (worked [event]).map Prod.fst).Perm (pool.input ++ pool.held) := by
  classical
  rw [List.perm_iff_count]
  intro job
  cases h with
  | get =>
    simp [Pool.held, worked, PoolEvent.worked?, Worker.job?, List.filterMap_cons, List.count_cons]
    omega
  | work | put | receive =>
    simp [Pool.held, worked, PoolEvent.worked?, Worker.job?, List.filterMap_cons, List.count_cons]

/-- A message is with a worker, in the output queue or received. -/
theorem PoolStep.messages (h : PoolStep program pool event next) :
    (next.finished ++ next.output ++ received [event]).Perm
      (pool.finished ++ pool.output ++ (worked [event]).map fun w => program.answer w.1 w.2) := by
  classical
  rw [List.perm_iff_count]
  intro message
  cases h with
  | work | put =>
    simp [Pool.finished, worked, received, PoolEvent.worked?, PoolEvent.received?,
      Worker.message?, List.filterMap_cons, List.count_cons]
    omega
  | get | receive =>
    simp [Pool.finished, worked, received, PoolEvent.worked?, PoolEvent.received?,
      Worker.message?, List.filterMap_cons, List.count_cons]

theorem PoolStep.reader (h : PoolStep program pool event next) :
    next.reader = (received [event]).foldl program.read pool.reader := by
  cases h <;> rfl

theorem PoolStep.workers_length (h : PoolStep program pool event next) :
    next.workers.length = pool.workers.length := by
  cases h <;> simp

theorem PoolStep.stepsLeft (h : PoolStep program pool event next) :
    next.stepsLeft + 1 = pool.stepsLeft := by
  cases h <;> simp [Pool.stepsLeft, Pool.held, Pool.finished, Worker.job?, Worker.message?,
    List.filterMap_cons] <;> omega

section
variable {start final : Pool α β ω} {trace : List (PoolEvent α ρ β)}

theorem PoolRun.jobs (h : PoolRun program start trace final) :
    (final.input ++ final.held ++ (worked trace).map Prod.fst) ~ (start.input ++ start.held) := by
  induction h with
  | start => simp [worked]
  | @step trace pool next event _ hstep ih =>
    calc next.input ++ next.held ++ (worked (trace ++ [event])).map Prod.fst
      _ = next.input ++ next.held ++
          ((worked trace).map Prod.fst ++ (worked [event]).map Prod.fst) := by simp
      _ ~ next.input ++ next.held ++
          ((worked [event]).map Prod.fst ++ (worked trace).map Prod.fst) :=
        List.perm_append_comm.append_left _
      _ ~ pool.input ++ pool.held ++ (worked trace).map Prod.fst := by
        rw [← List.append_assoc]
        exact hstep.jobs.append_right _
      _ ~ start.input ++ start.held := ih

theorem PoolRun.messages (h : PoolRun program start trace final) :
    (final.finished ++ final.output ++ received trace) ~
      (start.finished ++ start.output ++
        (worked trace).map fun w => program.answer w.1 w.2) := by
  induction h with
  | start => simp [worked, received]
  | @step trace pool next event _ hstep ih =>
    calc next.finished ++ next.output ++ received (trace ++ [event])
      _ = next.finished ++ next.output ++ (received trace ++ received [event]) := by simp
      _ ~ next.finished ++ next.output ++ (received [event] ++ received trace) :=
        List.perm_append_comm.append_left _
      _ ~ pool.finished ++ pool.output ++
          ((worked [event]).map fun w => program.answer w.1 w.2) ++ received trace := by
        rw [← List.append_assoc]
        exact hstep.messages.append_right _
      _ ~ pool.finished ++ pool.output ++ received trace ++
          ((worked [event]).map fun w => program.answer w.1 w.2) := by
        rw [List.append_assoc, List.append_assoc _ (received trace)]
        exact List.perm_append_comm.append_left _
      _ ~ start.finished ++ start.output ++ ((worked trace).map fun w => program.answer w.1 w.2) ++
          ((worked [event]).map fun w => program.answer w.1 w.2) := ih.append_right _
      _ = start.finished ++ start.output ++
          (worked (trace ++ [event])).map fun w => program.answer w.1 w.2 := by simp

theorem PoolRun.reader (h : PoolRun program start trace final) :
    final.reader = (received trace).foldl program.read start.reader := by
  induction h with
  | start => rfl
  | step _ hstep ih => rw [hstep.reader, ih, received_append, List.foldl_append]

theorem PoolRun.possible (h : PoolRun program start trace final) :
    ∀ w ∈ worked trace, program.possible w.1 w.2 := by
  induction h with
  | start => simp [worked]
  | @step trace _ _ event _ hstep ih =>
    intro w hw
    rw [worked_append, List.mem_append] at hw
    refine hw.elim (ih w) ?_
    intro hevent
    cases hstep with
    | work input left right job result output reader possible =>
      obtain rfl := List.mem_singleton.mp hevent
      exact possible
    | get | put | receive => cases hevent

theorem PoolRun.workers_length (h : PoolRun program start trace final) :
    final.workers.length = start.workers.length := by
  induction h with
  | start => rfl
  | step _ hstep ih => rw [hstep.workers_length, ih]

theorem PoolRun.stepsLeft (h : PoolRun program start trace final) :
    final.stepsLeft + trace.length = start.stepsLeft := by
  induction h with
  | start => rfl
  | step _ hstep ih =>
    have hnext := hstep.stepsLeft
    rw [List.length_append, List.length_singleton]
    omega

end

end

section
variable {α ρ β ω : Type*} {program : PoolProgram α ρ β ω} {pool : Pool α β ω}

theorem Pool.held_of_idle (h : ∀ worker ∈ pool.workers, worker = .idle) : pool.held = [] := by
  rw [Pool.held, List.filterMap_eq_nil_iff]
  intro worker hworker
  rw [h worker hworker]
  rfl

theorem Pool.finished_of_idle (h : ∀ worker ∈ pool.workers, worker = .idle) :
    pool.finished = [] := by
  rw [Pool.finished, List.filterMap_eq_nil_iff]
  intro worker hworker
  rw [h worker hworker]
  rfl

theorem Worker.eq_idle {worker : Worker α β} (hjob : worker.job? = none)
    (hmessage : worker.message? = none) : worker = .idle := by
  cases worker with
  | idle => rfl
  | holding => cases hjob
  | finished => cases hmessage

theorem Pool.idle_of_empty (hheld : pool.held = []) (hfinished : pool.finished = []) :
    ∀ worker ∈ pool.workers, worker = .idle := by
  intro worker hworker
  rw [Pool.held, List.filterMap_eq_nil_iff] at hheld
  rw [Pool.finished, List.filterMap_eq_nil_iff] at hfinished
  exact Worker.eq_idle (hheld worker hworker) (hfinished worker hworker)

theorem Pool.drained_iff : pool.Drained ↔ pool.unanswered = 0 := by
  constructor
  · rintro ⟨hinput, hidle, houtput⟩
    rw [Pool.unanswered, hinput, Pool.held_of_idle hidle, Pool.finished_of_idle hidle, houtput]
    rfl
  · intro h
    simp only [Pool.unanswered, Nat.add_eq_zero_iff, List.length_eq_zero_iff] at h
    obtain ⟨⟨⟨hinput, hheld⟩, hfinished⟩, houtput⟩ := h
    exact ⟨hinput, Pool.idle_of_empty hheld hfinished, houtput⟩

/-- A pool with a worker that has something left to do is never stuck while its reader waits. -/
theorem Pool.exists_step (hworkers : pool.workers ≠ [])
    (hpossible : ∀ job, ∃ result, program.possible job result)
    (hwaiting : program.waiting pool.reader) (hleft : ¬ pool.Drained) :
    ∃ event next, PoolStep program pool event next := by
  obtain ⟨input, workers, output, reader⟩ := pool
  by_cases hidle : ∀ worker ∈ workers, worker = .idle
  · cases input with
    | cons job rest =>
      cases workers with
      | nil => exact absurd rfl hworkers
      | cons worker others =>
        obtain rfl := hidle worker List.mem_cons_self
        exact ⟨_, _, .get [] rest [] others job output reader⟩
    | nil =>
      cases output with
      | nil => exact absurd ⟨rfl, hidle, rfl⟩ hleft
      | cons message rest => exact ⟨_, _, .receive [] workers [] rest message reader hwaiting⟩
  · push Not at hidle
    obtain ⟨worker, hworker, hbusy⟩ := hidle
    obtain ⟨left, right, rfl⟩ := List.append_of_mem hworker
    cases worker with
    | idle => exact absurd rfl hbusy
    | holding job =>
      obtain ⟨result, hresult⟩ := hpossible job
      exact ⟨_, _, .work input left right job result output reader hresult⟩
    | finished message => exact ⟨_, _, .put input left right message output reader⟩

theorem Pool.start_workers_idle (input : List α) (workers : ℕ) (reader : ω) :
    ∀ worker ∈ (Pool.start (β := β) input workers reader).workers, worker = .idle :=
  fun _ hworker => List.eq_of_mem_replicate hworker

section
variable {input : List α} {workers : ℕ} {reader : ω} {final : Pool α β ω}
  {trace : List (PoolEvent α ρ β)}

theorem PoolRun.received_length
    (h : PoolRun program (Pool.start input workers reader) trace final) :
    (received trace).length + final.unanswered = input.length := by
  have hjobs := h.jobs.length_eq
  have hmessages := h.messages.length_eq
  simp only [List.length_append, List.length_map, Pool.held_of_idle (Pool.start_workers_idle _ _ _),
    Pool.finished_of_idle (Pool.start_workers_idle _ _ _), List.length_nil] at hjobs hmessages
  simp only [Pool.start, List.length_nil] at hjobs hmessages
  unfold Pool.unanswered
  omega

theorem PoolRun.exists_of_received
    (h : PoolRun program (Pool.start input workers reader) trace final) {message : β}
    (hmessage : message ∈ received trace) :
    ∃ job ∈ input, ∃ result, program.possible job result ∧ program.answer job result = message := by
  have hanswer := h.messages.mem_iff.mp (List.mem_append_right _ hmessage)
  rw [Pool.finished_of_idle (Pool.start_workers_idle _ _ _)] at hanswer
  obtain ⟨w, hw, rfl⟩ := List.mem_map.mp hanswer
  have hjob := h.jobs.mem_iff.mp (List.mem_append_right _ (List.mem_map_of_mem hw))
  rw [Pool.held_of_idle (Pool.start_workers_idle _ _ _), List.append_nil] at hjob
  exact ⟨w.1, hjob, w.2, h.possible w hw, rfl⟩

theorem PoolRun.length_le (h : PoolRun program (Pool.start input workers reader) trace final) :
    trace.length ≤ 4 * input.length := by
  have hsteps := h.stepsLeft
  have hstart : (Pool.start (β := β) input workers reader).stepsLeft = 4 * input.length := by
    rw [Pool.stepsLeft, Pool.held_of_idle (Pool.start_workers_idle _ _ _),
      Pool.finished_of_idle (Pool.start_workers_idle _ _ _)]
    rfl
  omega

/-- Once nothing is left, every job was worked on once and every message was received once. -/
theorem PoolRun.complete (h : PoolRun program (Pool.start input workers reader) trace final)
    (hdrained : final.Drained) :
    (worked trace).map Prod.fst ~ input ∧
      received trace ~ (worked trace).map fun w => program.answer w.1 w.2 := by
  obtain ⟨hinput, hidle, houtput⟩ := hdrained
  have hjobs := h.jobs
  have hmessages := h.messages
  rw [hinput, Pool.held_of_idle hidle, Pool.held_of_idle (Pool.start_workers_idle _ _ _)] at hjobs
  rw [Pool.finished_of_idle hidle, houtput,
    Pool.finished_of_idle (Pool.start_workers_idle _ _ _)] at hmessages
  exact ⟨by simpa [Pool.start] using hjobs, hmessages⟩

end

end

end OsirisArm.Library
