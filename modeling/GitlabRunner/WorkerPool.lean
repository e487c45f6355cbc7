import GitlabRunner.ActionRuns
import Mathlib.Data.List.Perm.Basic
import Mathlib.Data.List.Nodup

/-!
# The worker pool of the run command

`RunCommand.Run` of `commands/multi.go` keeps as many `processRunners` goroutines as the
configuration asks for.
-/

namespace GitlabRunner.Workers

open List ActionRuns Option

inductive Signal where
  | quit
  | term
  | interrupt
  | kill
  deriving DecidableEq, Repr

/-- The positions of `processRunners`: at the test of `stopSignal`, in the `select`,
in `processRunner`, and at the last receive. -/
inductive WorkerPc where
  | checking
  | selecting
  | processing
  | draining
  deriving DecidableEq, Repr

structure Worker where
  id : Nat
  pc : WorkerPc
  deriving DecidableEq, Repr

/-- The positions of `startWorkers`: at the test of `stopSignal`, at the receive,
before the `go` statement, and returned. -/
inductive StarterPc where
  | checking
  | receiving
  | launching (id : Nat)
  | returned
  deriving DecidableEq, Repr

/-- The positions of `interruptRun`: not started, before the read of `stopSignal`,
and in the send to `runSignal`. -/
inductive PumpPc where
  | absent
  | reading
  | sending (signal : Option Signal)
  deriving DecidableEq, Repr

/-- The positions of `Run`.  `shrinking` and `growing` are the tests of the two
loops of `updateWorkers`, whose `select` is entered when the test succeeds;
`stopping` and `starting` are before the assignments behind the two sends.
`updated` is the return of `updateWorkers` and `configuring` the `select` of
`updateConfig`.  The last loop tests at `draining` and counts down at
`drained`. -/
inductive RunPc where
  | checking
  | updating
  | shrinking (buildLimit : Int)
  | stopping (buildLimit : Int)
  | growing (buildLimit : Int)
  | starting (buildLimit : Int)
  | updated (buildLimit : Int) (signaled : Option Signal)
  | configuring
  | draining
  | drained
  | finishing
  | finished
  | fatal
  deriving DecidableEq, Repr

/-- The run command and its goroutines.  `runSignal` is the content of the buffered
channel of that name.  The last three fields are ghosts: the ids that were sent to
`startWorkers`, the ids of the workers that have received from `stopWorker`, and
the number of times that `currentWorkers` was decremented. -/
structure Pool where
  concurrent : Int
  stopSignal : Option Signal
  runSignal : Option (Option Signal)
  currentWorkers : Int
  workerIndex : Nat
  pc : RunPc
  starter : StarterPc
  pump : PumpPc
  workers : List Worker
  handed : List Nat
  ended : List Nat
  decrements : Nat
  deriving DecidableEq, Repr

/-- The steps.  `run` is a step of `Run` that waits for nobody, `reload` the end of
`updateConfig` after a timer or a reload signal, `interrupted` a receive from
`runSignal`, `stopWorker` and `startWorker` the two rendezvous.  `signal` is a
signal that the service receives from `stopSignals`, and `stop` its call of
`Stop`. -/
inductive Action where
  | run
  | reload (concurrent : Int)
  | interrupted
  | stopWorker (worker : Nat)
  | startWorker
  | starter
  | worker (worker : Nat)
  | signal (signal : Signal)
  | stop
  | pump
  deriving DecidableEq, Repr

def runStep (pool : Pool) : Option Pool :=
  match pool.pc with
  | .checking =>
    if pool.stopSignal = none then some { pool with pc := .updating }
    else some { pool with pc := .draining }
  | .updating =>
    if pool.concurrent < 1 then some { pool with pc := .fatal }
    else some { pool with pc := .shrinking pool.concurrent }
  | .shrinking buildLimit =>
    if pool.currentWorkers > buildLimit then none
    else some { pool with pc := .growing buildLimit }
  | .stopping buildLimit =>
    some
      { pool with
        currentWorkers := pool.currentWorkers - 1
        decrements := pool.decrements + 1
        pc := .shrinking buildLimit }
  | .growing buildLimit =>
    if pool.currentWorkers < buildLimit then none
    else some { pool with pc := .updated buildLimit none }
  | .starting buildLimit =>
    some
      { pool with
        currentWorkers := pool.currentWorkers + 1
        workerIndex := pool.workerIndex + 1
        pc := .growing buildLimit }
  | .updated _ signaled =>
    if signaled = none then some { pool with pc := .configuring }
    else some { pool with pc := .draining }
  | .draining =>
    if pool.currentWorkers > 0 then none
    else some { pool with pc := .finishing }
  | .drained =>
    some
      { pool with
        currentWorkers := pool.currentWorkers - 1
        decrements := pool.decrements + 1
        pc := .draining }
  | .finishing => some { pool with pc := .finished }
  | .configuring => none
  | .finished => none
  | .fatal => none

def Pool.interruptedPc (pool : Pool) (signaled : Option Signal) : Option RunPc :=
  match pool.pc with
  | .shrinking buildLimit =>
    if pool.currentWorkers > buildLimit then some (.updated buildLimit signaled)
    else none
  | .growing buildLimit =>
    if pool.currentWorkers < buildLimit then some (.updated buildLimit signaled)
    else none
  | .configuring => some (if signaled = none then .checking else .draining)
  | _ => none

def Pool.stoppedPc (pool : Pool) : Option RunPc :=
  match pool.pc with
  | .shrinking buildLimit =>
    if pool.currentWorkers > buildLimit then some (.stopping buildLimit) else none
  | .draining => if pool.currentWorkers > 0 then some .drained else none
  | _ => none

def Pool.startedPc (pool : Pool) : Option RunPc :=
  match pool.pc with
  | .growing buildLimit =>
    if pool.currentWorkers < buildLimit then some (.starting buildLimit) else none
  | _ => none

def WorkerPc.waits : WorkerPc → Bool
  | .selecting => true
  | .draining => true
  | .checking => false
  | .processing => false

/-- The next step of a worker that is not a receive from `stopWorker`: the test of
`stopSignal`, a receive from `runners`, or the end of `processRunner`. -/
def WorkerPc.next (stopSignal : Option Signal) : WorkerPc → Option WorkerPc
  | .checking => some (if stopSignal = none then .selecting else .draining)
  | .selecting => some .processing
  | .processing => some .checking
  | .draining => none

def starterStep (pool : Pool) : Option Pool :=
  match pool.starter with
  | .checking =>
    if pool.stopSignal = none then some { pool with starter := .receiving }
    else some { pool with starter := .returned }
  | .launching id =>
    some
      { pool with
        workers := pool.workers ++ [⟨id, .checking⟩]
        starter := .checking }
  | .receiving => none
  | .returned => none

/-- The next step of `interruptRun`; the send waits while the channel is full. -/
def pumpStep (pool : Pool) : Option Pool :=
  match pool.pump with
  | .absent => none
  | .reading => some { pool with pump := .sending pool.stopSignal }
  | .sending signal =>
    if pool.runSignal = none then
      some { pool with runSignal := some signal, pump := .reading }
    else none

def step (pool : Pool) : Action → Option Pool
  | .run => runStep pool
  | .reload concurrent =>
    if pool.pc = .configuring then
      some { pool with concurrent := concurrent, pc := .checking }
    else none
  | .interrupted =>
    pool.runSignal.bind fun signaled =>
      (pool.interruptedPc signaled).map fun pc =>
        { pool with runSignal := none, pc := pc }
  | .stopWorker index =>
    pool.workers[index]?.bind fun worker =>
      if worker.pc.waits then
        pool.stoppedPc.map fun pc =>
          { pool with
            workers := pool.workers.eraseIdx index
            ended := worker.id :: pool.ended
            pc := pc }
      else none
  | .startWorker =>
    if pool.starter = .receiving then
      pool.startedPc.map fun pc =>
        { pool with
          starter := .launching pool.workerIndex
          handed := pool.workerIndex :: pool.handed
          pc := pc }
    else none
  | .starter => starterStep pool
  | .worker index =>
    pool.workers[index]?.bind fun worker =>
      (worker.pc.next pool.stopSignal).map fun pc =>
        { pool with workers := pool.workers.set index { worker with pc := pc } }
  | .signal signal => some { pool with stopSignal := some signal }
  | .stop =>
    if pool.pump = .absent then some { pool with pump := .reading } else none
  | .pump => pumpStep pool

def start (concurrent : Int) : Pool where
  concurrent := concurrent
  stopSignal := none
  runSignal := none
  currentWorkers := 0
  workerIndex := 0
  pc := .checking
  starter := .checking
  pump := .absent
  workers := []
  handed := []
  ended := []
  decrements := 0

/-- The worker that was handed to `startWorkers` and has no goroutine yet. -/
def StarterPc.held : StarterPc → List Nat
  | .launching id => [id]
  | .checking => []
  | .receiving => []
  | .returned => []

/-- The ids of the live workers: those that were started or handed to
`startWorkers` and have not received from `stopWorker`. -/
def Pool.live (pool : Pool) : List Nat :=
  pool.starter.held ++ pool.workers.map Worker.id

def RunPc.uncounted : RunPc → Nat
  | .starting _ => 1
  | _ => 0

def RunPc.unpaid : RunPc → Nat
  | .stopping _ => 1
  | .drained => 1
  | _ => 0

/-- `Run` is between two of its steps, not behind a send whose assignment is still
to come. -/
def RunPc.settled (pc : RunPc) : Prop :=
  pc.uncounted = 0 ∧ pc.unpaid = 0

def RunPc.isOver : RunPc → Bool
  | .finishing => true
  | .finished => true
  | _ => false

/-- The bound on `currentWorkers` in the second loop of `updateWorkers`. -/
def RunPc.WithinLimit (currentWorkers : Int) : RunPc → Prop
  | .growing buildLimit => currentWorkers ≤ buildLimit
  | .starting buildLimit => currentWorkers < buildLimit
  | _ => True

variable {pool next : Pool} {pc : RunPc} {uncounted unpaid : Nat}

/-- The assignments behind a send that are still to come. -/
def RunPc.Owes (pc : RunPc) (uncounted unpaid : Nat) : Prop :=
  pc.uncounted = uncounted ∧ pc.unpaid = unpaid

/-- `Run` moves from between two of its steps, and no worker comes or goes by that. -/
structure Pool.Turn (pool : Pool) (pc : RunPc) (uncounted unpaid : Nat) : Prop where
  before : pool.pc.settled
  after : pc.Owes uncounted unpaid
  emptied : pc.isOver = true → pool.currentWorkers ≤ 0 ∨ pool.pc.isOver = true
  bounded : pc.WithinLimit pool.currentWorkers

/-- What a step can do, as far as the accounts and the signals are concerned. -/
inductive Stepped (pool : Pool) : Action → Pool → Prop where
  | turned {pc : RunPc} (turn : pool.Turn pc 0 0)
    (returns : ∀ buildLimit, pc = .updated buildLimit none →
      pool.pc = .growing buildLimit ∧ buildLimit ≤ pool.currentWorkers) :
    Stepped pool .run { pool with pc := pc }
  | stopped {pc : RunPc} (before : pool.pc.Owes 0 1) (after : pc.settled)
    (running : pc.isOver = false) (bounded : pc.WithinLimit (pool.currentWorkers - 1))
    (stays : ∀ buildLimit signaled, pc ≠ .updated buildLimit signaled) :
    Stepped pool .run
      { pool with
        currentWorkers := pool.currentWorkers - 1
        decrements := pool.decrements + 1
        pc := pc }
  | started {buildLimit : Int} (atPc : pool.pc = .starting buildLimit) :
    Stepped pool .run
      { pool with
        currentWorkers := pool.currentWorkers + 1
        workerIndex := pool.workerIndex + 1
        pc := .growing buildLimit }
  | reloaded {concurrent : Int} (turn : pool.Turn .checking 0 0) :
    Stepped pool (.reload concurrent) { pool with concurrent := concurrent, pc := .checking }
  | interrupted {signaled : Option Signal} {pc : RunPc} (buffered : pool.runSignal = some signaled)
    (turn : pool.Turn pc 0 0)
    (returns : ∀ buildLimit, pc = .updated buildLimit none → signaled = none) :
    Stepped pool .interrupted { pool with runSignal := none, pc := pc }
  | stopWorker {index : Nat} {worker : Worker} {pc : RunPc}
    (found : pool.workers[index]? = some worker) (turn : pool.Turn pc 0 1) :
    Stepped pool (.stopWorker index)
      { pool with
        workers := pool.workers.eraseIdx index
        ended := worker.id :: pool.ended
        pc := pc }
  | startWorker {pc : RunPc} (receiving : pool.starter = .receiving) (turn : pool.Turn pc 1 0) :
    Stepped pool .startWorker
      { pool with
        starter := .launching pool.workerIndex
        handed := pool.workerIndex :: pool.handed
        pc := pc }
  | moved {action : Action} {starter : StarterPc} {workers : List Worker}
    (live : (starter.held ++ workers.map Worker.id).Perm pool.live) :
    Stepped pool action { pool with starter := starter, workers := workers }
  | signal {signal : Signal} : Stepped pool (.signal signal) { pool with stopSignal := some signal }
  | stop : Stepped pool .stop { pool with pump := .reading }
  | read (present : pool.pump ≠ .absent) :
    Stepped pool .pump { pool with pump := .sending pool.stopSignal }
  | sent {signal : Option Signal} (atPc : pool.pump = .sending signal) :
    Stepped pool .pump { pool with runSignal := some signal, pump := .reading }

theorem Pool.turn_of_running {oldPc : RunPc} (atPc : pool.pc = oldPc)
    (before : oldPc.settled) (after : pc.Owes uncounted unpaid) (running : pc.isOver = false)
    (bounded : pc.WithinLimit pool.currentWorkers) : pool.Turn pc uncounted unpaid where
  before := by rwa [atPc]
  after := after
  emptied := by simp [running]
  bounded := bounded

open Pool

theorem stepped_run (stepTo : runStep pool = some next) : Stepped pool .run next := by
  revert stepTo
  fun_cases runStep pool with
  | case1 atPc | case2 atPc | case3 atPc | case4 atPc | case11 _ atPc | case12 _ _ atPc =>
    rintro ⟨⟩
    exact .turned (turn_of_running atPc ⟨rfl, rfl⟩ ⟨rfl, rfl⟩ rfl trivial) nofun
  | case6 buildLimit atPc small =>
    rintro ⟨⟩
    exact .turned (turn_of_running atPc ⟨rfl, rfl⟩ ⟨rfl, rfl⟩ rfl (Int.not_lt.mp small)) nofun
  | case7 _ atPc | case15 atPc =>
    rintro ⟨⟩
    exact .stopped (by rw [atPc]; exact ⟨rfl, rfl⟩) ⟨rfl, rfl⟩ rfl trivial nofun
  | case9 buildLimit atPc enough =>
    rintro ⟨⟩
    refine .turned (turn_of_running atPc ⟨rfl, rfl⟩ ⟨rfl, rfl⟩ rfl trivial) ?_
    rintro limit ⟨⟩
    exact ⟨atPc, Int.not_lt.mp enough⟩
  | case10 buildLimit atPc =>
    rintro ⟨⟩
    exact .started atPc
  | case14 atPc empty =>
    rintro ⟨⟩
    exact .turned ⟨by rw [atPc]; exact ⟨rfl, rfl⟩, ⟨rfl, rfl⟩,
      fun _ => .inl (Int.not_lt.mp empty), trivial⟩ nofun
  | case16 atPc =>
    rintro ⟨⟩
    exact .turned ⟨by rw [atPc]; exact ⟨rfl, rfl⟩, ⟨rfl, rfl⟩,
      fun _ => .inr (by rw [atPc]; rfl), trivial⟩ nofun
  | case5 | case8 | case13 | case17 | case18 | case19 => nofun

theorem Pool.turn_interruptedPc {signaled : Option Signal}
    (received : pool.interruptedPc signaled = some pc) :
    pool.Turn pc 0 0 ∧ ∀ buildLimit, pc = .updated buildLimit none → signaled = none := by
  revert received
  fun_cases interruptedPc pool signaled with
  | case1 _ atPc | case3 _ atPc =>
    rintro ⟨⟩
    exact ⟨turn_of_running atPc ⟨rfl, rfl⟩ ⟨rfl, rfl⟩ rfl trivial, by rintro _ ⟨⟩; rfl⟩
  | case5 atPc =>
    rintro ⟨⟩
    split
    · exact ⟨turn_of_running atPc ⟨rfl, rfl⟩ ⟨rfl, rfl⟩ rfl trivial, nofun⟩
    · exact ⟨turn_of_running atPc ⟨rfl, rfl⟩ ⟨rfl, rfl⟩ rfl trivial, nofun⟩
  | case2 | case4 | case6 => nofun

theorem Pool.turn_stoppedPc (stopped : pool.stoppedPc = some pc) : pool.Turn pc 0 1 := by
  revert stopped
  fun_cases stoppedPc pool with
  | case1 _ atPc | case3 atPc =>
    rintro ⟨⟩
    exact turn_of_running atPc ⟨rfl, rfl⟩ ⟨rfl, rfl⟩ rfl trivial
  | case2 | case4 | case5 => nofun

theorem Pool.turn_startedPc (started : pool.startedPc = some pc) : pool.Turn pc 1 0 := by
  revert started
  fun_cases startedPc pool with
  | case1 _ atPc small =>
    rintro ⟨⟩
    exact turn_of_running atPc ⟨rfl, rfl⟩ ⟨rfl, rfl⟩ rfl small
  | case2 | case3 => nofun

theorem stepped_starter (stepTo : starterStep pool = some next) : Stepped pool .starter next := by
  revert stepTo
  fun_cases starterStep pool with
  | case1 atPc | case2 atPc =>
    rintro ⟨⟩
    exact .moved (by rw [live, atPc]; rfl)
  | case3 id atPc =>
    rintro ⟨⟩
    refine .moved ?_
    rw [live, atPc, map_append]
    exact @perm_append_comm Nat _ [id]
  | case4 | case5 => nofun

theorem stepped_pump (stepTo : pumpStep pool = some next) : Stepped pool .pump next := by
  revert stepTo
  fun_cases pumpStep pool with
  | case2 atPc =>
    rintro ⟨⟩
    exact .read (by rw [atPc]; nofun)
  | case3 signal atPc =>
    rintro ⟨⟩
    exact .sent atPc
  | case1 | case4 => nofun

theorem map_id_set {workers : List Worker} {index : Nat} {worker : Worker}
    (found : workers[index]? = some worker) (pc : WorkerPc) :
    (workers.set index { worker with pc := pc }).map Worker.id = workers.map Worker.id := by
  obtain ⟨inRange, isWorker⟩ := List.getElem?_eq_some_iff.mp found
  rw [map_set, ← isWorker, ← getElem_map Worker.id (h := by simpa using inRange)]
  exact set_getElem_self _

variable {action : Action}

theorem stepped (stepTo : step pool action = some next) : Stepped pool action next := by
  revert stepTo
  fun_cases step pool action with
  | case1 => exact stepped_run
  | case2 concurrent atPc =>
    rintro ⟨⟩
    exact .reloaded (turn_of_running atPc ⟨rfl, rfl⟩ ⟨rfl, rfl⟩ rfl trivial)
  | case4 =>
    intro stepTo
    obtain ⟨signaled, buffered, received⟩ := bind_eq_some_iff.mp stepTo
    obtain ⟨pc, isPc, rfl⟩ := map_eq_some_iff.mp received
    obtain ⟨turn, returns⟩ := turn_interruptedPc isPc
    exact .interrupted buffered turn returns
  | case5 index =>
    intro stepTo
    obtain ⟨worker, found, stops⟩ := bind_eq_some_iff.mp stepTo
    split at stops
    · obtain ⟨pc, isPc, rfl⟩ := map_eq_some_iff.mp stops
      exact .stopWorker found (turn_stoppedPc isPc)
    · cases stops
  | case6 receiving =>
    intro stepTo
    obtain ⟨pc, isPc, rfl⟩ := map_eq_some_iff.mp stepTo
    exact .startWorker receiving (turn_startedPc isPc)
  | case8 => exact stepped_starter
  | case9 index =>
    intro stepTo
    obtain ⟨worker, found, moves⟩ := bind_eq_some_iff.mp stepTo
    obtain ⟨pc, _, rfl⟩ := map_eq_some_iff.mp moves
    exact .moved (by rw [map_id_set found, live])
  | case10 signal =>
    rintro ⟨⟩
    exact .signal
  | case11 =>
    rintro ⟨⟩
    exact .stop
  | case13 => exact stepped_pump
  | case3 | case7 | case12 => nofun

/-- The accounting of the pool, at every position of `Run`. -/
structure Pool.Sound (pool : Pool) : Prop where
  count : (pool.live.length : Int) + pool.pc.unpaid =
    pool.currentWorkers + pool.pc.uncounted
  numbered : pool.handed = (List.range (pool.workerIndex + pool.pc.uncounted)).reverse
  partition : (pool.ended ++ pool.live).Perm pool.handed
  paid : pool.ended.length = pool.decrements + pool.pc.unpaid
  emptied : pool.pc.isOver = true → pool.currentWorkers ≤ 0
  bounded : pool.pc.WithinLimit pool.currentWorkers

theorem sound_start (concurrent : Int) : (start concurrent).Sound where
  count := rfl
  numbered := rfl
  partition := List.Perm.refl _
  paid := rfl
  emptied := fun _ => Int.le_refl 0
  bounded := trivial

/-- The part of the accounting that does not look at the position of `Run`. -/
structure Pool.Accounts (pool : Pool) (uncounted unpaid : Nat) : Prop where
  count : (pool.live.length : Int) + unpaid = pool.currentWorkers + uncounted
  numbered : pool.handed = (List.range (pool.workerIndex + uncounted)).reverse
  partition : (pool.ended ++ pool.live).Perm pool.handed
  paid : pool.ended.length = pool.decrements + unpaid

theorem Pool.Sound.accounts (sound : pool.Sound) (owes : pool.pc.Owes uncounted unpaid) :
    pool.Accounts uncounted unpaid := by
  obtain ⟨rfl, rfl⟩ := owes
  exact ⟨sound.count, sound.numbered, sound.partition, sound.paid⟩

theorem Pool.Accounts.sound (accounts : pool.Accounts uncounted unpaid)
    (owes : pool.pc.Owes uncounted unpaid)
    (emptied : pool.pc.isOver = true → pool.currentWorkers ≤ 0)
    (bounded : pool.pc.WithinLimit pool.currentWorkers) : pool.Sound := by
  obtain ⟨rfl, rfl⟩ := owes
  exact ⟨accounts.count, accounts.numbered, accounts.partition, accounts.paid, emptied, bounded⟩

/-- A turn keeps the accounting if it has settled what `Run` owes behind it. -/
theorem Pool.Sound.turn (sound : pool.Sound) (turn : pool.Turn pc uncounted unpaid)
    (accounts : pool.Accounts 0 0 → next.Accounts uncounted unpaid) (atPc : next.pc = pc)
    (same : next.currentWorkers = pool.currentWorkers) : next.Sound := by
  subst atPc
  apply (accounts (sound.accounts turn.before)).sound turn.after
  · rw [same]
    exact fun isOver => (turn.emptied isOver).elim id sound.emptied
  · rw [same]
    exact turn.bounded

/-- A worker that receives from `stopWorker` moves from the live to the ended
ones. -/
theorem Pool.Accounts.stopWorker (accounts : pool.Accounts 0 0) {index : Nat}
    {worker : Worker} (found : pool.workers[index]? = some worker) :
    Pool.Accounts
      { pool with
        workers := pool.workers.eraseIdx index
        ended := worker.id :: pool.ended
        pc := pc } 0 1 := by
  obtain ⟨count, numbered, partition, paid⟩ := accounts
  obtain ⟨inRange, isWorker⟩ := List.getElem?_eq_some_iff.mp found
  have removed : (worker.id :: (pool.workers.eraseIdx index).map Worker.id).Perm
      (pool.workers.map Worker.id) := by
    rw [← map_cons, ← isWorker]
    exact (getElem_cons_eraseIdx_perm inRange).map Worker.id
  refine ⟨?_, numbered, ?_, congrArg (· + 1) paid⟩
  · have shorter := removed.length_eq
    simp only [length_cons, length_map] at shorter
    simp only [live, length_append, length_map] at count ⊢
    omega
  · have moved : (worker.id :: pool.ended ++
        (pool.starter.held ++ (pool.workers.eraseIdx index).map Worker.id)).Perm
        (pool.ended ++ pool.live) := by
      rw [cons_append, live, ← append_assoc, ← append_assoc]
      exact perm_middle.symm.trans (removed.append_left _)
    exact moved.trans partition

theorem Pool.Accounts.startWorker (accounts : pool.Accounts 0 0)
    (receiving : pool.starter = .receiving) :
    Pool.Accounts
      { pool with
        starter := .launching pool.workerIndex
        handed := pool.workerIndex :: pool.handed
        pc := pc } 1 0 := by
  obtain ⟨count, numbered, partition, paid⟩ := accounts
  simp only [live, receiving, StarterPc.held, nil_append] at count partition
  refine ⟨?_, ?_, ?_, paid⟩
  · simp only [live, StarterPc.held, length_append, length_cons, length_nil]
    omega
  · simp only [numbered, range_succ, reverse_append]
    rfl
  · simp only [live, StarterPc.held, cons_append, nil_append]
    exact perm_middle.trans (partition.cons pool.workerIndex)

/-- The accounting survives every step, whatever is sent to `runSignal`. -/
theorem Pool.Sound.step (sound : pool.Sound)
    (stepTo : step pool action = some next) : next.Sound := by
  cases stepped stepTo with
  | turned turn | reloaded turn | interrupted _ turn =>
    exact sound.turn turn (fun accounts => ⟨accounts.1, accounts.2, accounts.3, accounts.4⟩) rfl rfl
  | stopped before after running bounded _ =>
    obtain ⟨count, numbered, partition, paid⟩ := sound.accounts before
    refine Pool.Accounts.sound ⟨?_, numbered, partition, paid⟩ after (by simp [running]) bounded
    change (pool.live.length : Int) + 0 = pool.currentWorkers - 1 + 0
    omega
  | started atPc =>
    obtain ⟨count, numbered, partition, paid⟩ :=
      sound.accounts (by rw [atPc]; exact ⟨rfl, rfl⟩ : pool.pc.Owes 1 0)
    have bounded := sound.bounded
    rw [atPc] at bounded
    refine Pool.Accounts.sound ⟨?_, numbered, partition, paid⟩ ⟨rfl, rfl⟩ nofun bounded
    change (pool.live.length : Int) + 0 = pool.currentWorkers + 1 + 0
    omega
  | stopWorker found turn => exact sound.turn turn (·.stopWorker found) rfl rfl
  | startWorker receiving turn => exact sound.turn turn (·.startWorker receiving) rfl rfl
  | moved live =>
    have count := sound.count
    rw [← live.length_eq] at count
    exact ⟨count, sound.numbered, (live.append_left _).trans sound.partition, sound.paid,
      sound.emptied, sound.bounded⟩
  | signal | stop | read | sent =>
    exact ⟨sound.count, sound.numbered, sound.partition, sound.paid, sound.emptied, sound.bounded⟩

/-- The condition on a step: `Stop` is called only after `runWait` has recorded a
signal. -/
def stopsOnSignal (pool : Pool) (action : Action) : Prop :=
  action = .stop → pool.stopSignal ≠ none

instance (pool : Pool) (action : Action) : Decidable (stopsOnSignal pool action) :=
  inferInstanceAs (Decidable (_ → _))

/-- Whatever travels through `runSignal` is a signal, so `updateWorkers` returns
`nil` only at its end. -/
structure Pool.Signaled (pool : Pool) : Prop where
  recorded : pool.pump ≠ .absent → pool.stopSignal ≠ none
  sent : pool.pump ≠ .sending none
  buffered : pool.runSignal ≠ some none
  scaled : ∀ buildLimit, pool.pc = .updated buildLimit none →
    pool.currentWorkers = buildLimit

theorem signaled_start (concurrent : Int) : (start concurrent).Signaled where
  recorded := fun started => (started rfl).elim
  sent := nofun
  buffered := nofun
  scaled := nofun

theorem Pool.Signaled.step (signaled : pool.Signaled) (sound : pool.Sound)
    (condition : stopsOnSignal pool action) (stepTo : step pool action = some next) :
    next.Signaled := by
  obtain ⟨recorded, sent, buffered, scaled⟩ := signaled
  cases stepped stepTo with
  | turned turn returns =>
    refine ⟨recorded, sent, buffered, fun buildLimit returned => ?_⟩
    obtain ⟨atPc, enough⟩ := returns buildLimit returned
    have bounded := sound.bounded
    rw [atPc] at bounded
    exact Int.le_antisymm bounded enough
  | stopped _ _ _ _ stays =>
    exact ⟨recorded, sent, buffered, fun buildLimit returned => (stays _ _ returned).elim⟩
  | started | reloaded => exact ⟨recorded, sent, buffered, nofun⟩
  | interrupted isBuffered _ returns =>
    refine ⟨recorded, sent, nofun, fun buildLimit returned => (buffered ?_).elim⟩
    rw [isBuffered, returns buildLimit returned]
  | stopWorker _ turn =>
    refine ⟨recorded, sent, buffered, ?_⟩
    rintro buildLimit rfl
    cases turn.after.2
  | startWorker _ turn =>
    refine ⟨recorded, sent, buffered, ?_⟩
    rintro buildLimit rfl
    cases turn.after.1
  | moved => exact ⟨recorded, sent, buffered, scaled⟩
  | signal => exact ⟨fun _ => nofun, sent, buffered, scaled⟩
  | stop => exact ⟨fun _ => condition rfl, nofun, buffered, scaled⟩
  | read present =>
    refine ⟨fun _ => recorded present, ?_, buffered, scaled⟩
    rintro sends
    injection sends with absent
    exact recorded present absent
  | sent atPc =>
    refine ⟨fun _ => recorded (by rw [atPc]; nofun), nofun, ?_, scaled⟩
    rintro full
    injection full with absent
    apply sent
    rw [atPc, absent]

/-- The size of the pool is exact.  Between the steps of `Run` the live workers are
those that `currentWorkers` counts, and they are as many as the configuration asked
for when `updateWorkers` returns `nil`.  Every worker that has ended was counted
down, no id was handed out twice, and each of them belongs to one worker that is
live or has ended.  When `Run` sends on `runFinished`, no worker is live. -/
structure Pool.Exact (pool : Pool) : Prop where
  counted : pool.pc.settled → (pool.live.length : Int) = pool.currentWorkers
  scaled : ∀ buildLimit, pool.pc = .updated buildLimit none →
    (pool.live.length : Int) = buildLimit
  paid : pool.ended.length = pool.decrements + pool.pc.unpaid
  unique : pool.handed.Nodup
  tracked : (pool.ended ++ pool.live).Perm pool.handed
  emptied : pool.pc.isOver = true → pool.live = [] ∧ pool.workers = []

theorem Pool.Sound.counted (sound : pool.Sound) (settled : pool.pc.settled) :
    (pool.live.length : Int) = pool.currentWorkers := by
  have count := sound.count
  rw [settled.1, settled.2] at count
  omega

theorem RunPc.settled_of_isOver (finished : pc.isOver = true) : pc.settled := by
  cases pc <;> first | exact ⟨rfl, rfl⟩ | cases finished

theorem Pool.exact_of_sound (sound : pool.Sound) (signaled : pool.Signaled) :
    pool.Exact where
  counted := sound.counted
  scaled := by
    intro buildLimit returned
    have settled : pool.pc.settled := by
      rw [returned]
      exact ⟨rfl, rfl⟩
    rw [sound.counted settled]
    exact signaled.scaled buildLimit returned
  paid := sound.paid
  unique := by
    rw [sound.numbered]
    exact nodup_reverse.mpr nodup_range
  tracked := sound.partition
  emptied := by
    intro finished
    have count := sound.counted (RunPc.settled_of_isOver finished)
    have none := sound.emptied finished
    have empty : pool.live = [] := by
      apply eq_nil_of_length_eq_zero
      omega
    have noWorker := (append_eq_nil_iff.mp empty).2
    exact ⟨empty, map_eq_nil_iff.mp noWorker⟩

/-- In every run in which `Stop` is called only after a signal was recorded, the
size of the pool is exact in every state reached. -/
theorem pool_exact {concurrent : Int} {actions : List Action} {pool : Pool}
    (condition : MeetsAlong step stopsOnSignal (start concurrent) actions)
    (reached : run step (start concurrent) actions = some pool) :
    pool.Exact := by
  have invariant := run_invariant
    (fun pool : Pool => pool.Sound ∧ pool.Signaled)
    (fun pool action next holds meets stepTo =>
      ⟨holds.1.step stepTo, holds.2.step holds.1 meets stepTo⟩)
    ⟨sound_start concurrent, signaled_start concurrent⟩ condition reached
  exact Pool.exact_of_sound invariant.1 invariant.2

def oneWorker : List Action :=
  [.run, .run, .run, .starter, .startWorker, .run, .run, .run, .starter, .worker 0,
    .worker 0, .signal .term, .stop, .pump, .pump, .interrupted, .worker 0, .worker 0,
    .stopWorker 0, .run, .run, .run]

theorem pool_exact_oneWorker :
    ∃ pool, MeetsAlong step stopsOnSignal (start 1) oneWorker ∧
      run step (start 1) oneWorker = some pool ∧
      pool.pc = .finished ∧ pool.ended = [0] ∧ pool.Exact := by
  obtain ⟨pool, reached, position⟩ := map_eq_some_iff.mp (by decide :
    (run step (start 1) oneWorker).map (fun pool => (pool.pc, pool.ended)) =
      some (.finished, [0]))
  have condition : MeetsAlong step stopsOnSignal (start 1) oneWorker := by
    decide
  injection position with atPc ended
  exact ⟨pool, condition, reached, atPc, ended, pool_exact condition reached⟩

/-- The size is wrong without the condition: a service that calls `Stop` without a
recorded signal pumps `nil` into `runSignal`, and `updateWorkers` returns `nil`
before it has started the workers. -/
theorem updateWorkers_cut_short :
    ¬ ∀ (concurrent : Int) (actions : List Action) (pool : Pool),
      1 ≤ concurrent → (∀ value, Action.reload value ∈ actions → 1 ≤ value) →
      run step (start concurrent) actions = some pool → pool.Exact := by
  intro always
  obtain ⟨pool, reached, position⟩ := map_eq_some_iff.mp (by decide :
    (run step (start 2)
      [.run, .run, .run, .stop, .pump, .pump, .interrupted]).map
        (fun pool => (pool.pc, pool.live)) = some (.updated 2 none, []))
  injection position with returned live
  have sized := always 2 _ pool (by decide) (by simp) reached
  have scaled := sized.scaled 2 returned
  rw [live] at scaled
  cases scaled

def RunPc.buildLimit : RunPc → Option Int
  | .shrinking buildLimit => some buildLimit
  | .stopping buildLimit => some buildLimit
  | .growing buildLimit => some buildLimit
  | .starting buildLimit => some buildLimit
  | .updated buildLimit _ => some buildLimit
  | _ => none

/-- `Run` has read the limit that it works with from the configuration. -/
theorem buildLimit_of_step (stepTo : step pool action = some next) :
    next.pc.buildLimit = none ∨ next.pc.buildLimit = pool.pc.buildLimit ∨
      next.pc.buildLimit = some pool.concurrent := by
  cases action with
  | run | starter | pump => grind [step, runStep, starterStep, pumpStep, RunPc.buildLimit]
  | reload | signal | stop => grind [step, RunPc.buildLimit]
  | _ =>
    simp only [step, bind_eq_some_iff, map_eq_some_iff, ite_none_right_eq_some] at stepTo
    grind [interruptedPc, stoppedPc, startedPc, RunPc.buildLimit]

/-- No configuration so far has asked for more than `limit` workers, and no more are live. -/
structure Pool.Capped (limit : Int) (pool : Pool) : Prop where
  concurrent : pool.concurrent ≤ limit
  asked : ∀ buildLimit, pool.pc.buildLimit = some buildLimit → buildLimit ≤ limit
  live : pool.live.length ≤ limit

theorem Pool.Capped.step {limit : Int} (capped : pool.Capped limit) (sound : pool.Sound)
    (reloads : ∀ value, action = .reload value → value ≤ limit)
    (stepTo : step pool action = some next) : next.Capped limit := by
  have asked : ∀ buildLimit, next.pc.buildLimit = some buildLimit → buildLimit ≤ limit := by
    intro buildLimit reads
    rcases buildLimit_of_step stepTo with none | same | fresh
    · cases none.symm.trans reads
    · exact capped.asked buildLimit (same.symm.trans reads)
    · cases fresh.symm.trans reads
      exact capped.concurrent
  have count := (sound.step stepTo).count
  cases stepped stepTo with
  | @startWorker pc _ turn =>
    refine ⟨capped.concurrent, asked, ?_⟩
    have bounded := turn.bounded
    cases pc with
    | starting buildLimit =>
      have := asked buildLimit rfl
      simp only [RunPc.uncounted, RunPc.unpaid, RunPc.WithinLimit] at count bounded
      omega
    | _ => cases turn.after.1
  | stopWorker _ turn =>
    refine ⟨capped.concurrent, asked, ?_⟩
    have counted := sound.counted turn.before
    have live := capped.live
    rw [turn.after.1, turn.after.2] at count
    dsimp only at count
    omega
  | reloaded => exact ⟨reloads _ rfl, asked, capped.live⟩
  | moved live => exact ⟨capped.concurrent, asked, live.length_eq ▸ capped.live⟩
  | _ => exact ⟨capped.concurrent, asked, capped.live⟩

/-- Whatever the order of the goroutines, the signals and the reloads, there are never more live
workers than the greatest `concurrent` of the configurations so far, and none when `Run` is
over. -/
theorem live_capped {limit concurrent : Int} {actions : List Action} (natural : 0 ≤ limit)
    (initial : concurrent ≤ limit) (reloads : ∀ value, .reload value ∈ actions → value ≤ limit)
    (reached : run step (start concurrent) actions = some pool) :
    pool.live.length ≤ limit ∧ (pool.pc.isOver = true → pool.live = []) := by
  have meets : MeetsAlong step (fun _ action => ∀ value, action = .reload value → value ≤ limit)
      (start concurrent) actions := by
    apply meetsAlong_of_forall
    rintro _ member _ value rfl
    exact reloads value member
  obtain ⟨sound, capped⟩ := run_invariant (fun pool : Pool => pool.Sound ∧ pool.Capped limit)
    (fun _ _ _ holds meets stepTo => ⟨holds.1.step stepTo, holds.2.step holds.1 meets stepTo⟩)
    ⟨sound_start concurrent, initial, nofun, natural⟩ meets reached
  refine ⟨capped.live, fun isOver => ?_⟩
  have counted := sound.counted (RunPc.settled_of_isOver isOver)
  have none := sound.emptied isOver
  apply eq_nil_of_length_eq_zero
  omega

theorem live_capped_one : ∃ pool, run step (start 1) oneWorker = some pool ∧
    pool.live.length ≤ (1 : Int) ∧ (pool.pc.isOver = true → pool.live = []) := by
  obtain ⟨pool, reached⟩ := isSome_iff_exists.mp (by decide :
    (run step (start 1) oneWorker).isSome = true)
  exact ⟨pool, reached, live_capped (by decide) (by decide) (by simp [oneWorker]) reached⟩

end GitlabRunner.Workers
