import CourseDb.Common.Text
import CourseDb.Lib.Conformance
import CourseDb.Lib.Fallible
import CourseDb.Lib.KeyedLog

/-! # The task queue

Tasks wait in a queue, are looked up in a map and are logged to a file at every
change of their status. Each critical section of the source is one call here;
a task that a worker has picked up and not finished is `executing`. The log is
modelled by its records: the text form is a lossless third-party codec.
-/

namespace CourseDb

open Fallible (fail)

inductive TaskStatus where
  | kQueued
  | kRunning
  | kCompleted
  | kFailed
  | kCancelled
deriving DecidableEq, Repr

def TaskStatus.isTerminal (s : TaskStatus) : Bool :=
  s = .kCompleted || s = .kFailed || s = .kCancelled

structure TaskInfo where
  requestId : ByteString
  sql : ByteString
  database : ByteString
  userId : ByteString
  status : TaskStatus := .kQueued
  progress : ℤ := 0
  result : ByteString := []
  error : ByteString := []
  submittedMs : ℤ := 0
  startedMs : ℤ := 0
  finishedMs : ℤ := 0
  retryCount : ℤ := 0
deriving DecidableEq

abbrev TaskMap := AList fun _ : ByteString => TaskInfo

abbrev TaskIteration := Iteration (Σ _ : ByteString, TaskInfo)

structure TaskQueue where
  pendingQueue : List TaskInfo := []
  taskMap : TaskMap := ∅
  /-- The records of the log file, if it exists. -/
  wal : Option (List TaskInfo) := none
  running : Bool := false
  /-- The worker threads that have not left their loop. -/
  workers : ℕ := 0
  /-- The tasks handed to the executor whose call has not returned. -/
  executing : List TaskInfo := []
  /-- The request ids the executor was called with, in order. -/
  executed : List ByteString := []

namespace TaskQueue

abbrev Action (α : Type) := Fallible Status TaskQueue α

structure Config where
  taskQueueMax : ℕ
  taskQueueWorkers : ℕ
  walPath : String

def kMaxCompletedResults : ℕ := 10000

def records (q : TaskQueue) : List TaskInfo := q.wal.getD []

/-- The last record of a request id in the log. -/
def recorded (q : TaskQueue) (id : ByteString) : Option TaskInfo :=
  KeyedLog.latest TaskInfo.requestId q.records id

variable (cfg : Config)

def ioError (message : String) : Status := ⟨.kIoError, message⟩

/-- `opens` tells whether the log file could be opened. -/
def appendWal (opens : Bool) (info : TaskInfo) : Action Unit :=
  if opens then Fallible.modify fun q => { q with wal := some (q.records ++ [info]) }
  else fail (ioError ("cannot open task WAL: " ++ cfg.walPath))

def submit (opens : Bool) (requestId sql database userId : ByteString) (now : ℤ) :
    Action ByteString := do
  let q ← Fallible.read
  if q.pendingQueue.length ≥ cfg.taskQueueMax then
    fail ⟨.kInternalError, "task queue is full"⟩
  else
    let task : TaskInfo := { requestId, sql, database, userId, submittedMs := now }
    appendWal cfg opens task
    Fallible.modify fun q =>
      { q with taskMap := q.taskMap.insert requestId task
               pendingQueue := q.pendingQueue ++ [task] }
    return requestId

def taskNotFound (requestId : ByteString) : Status :=
  ⟨.kNotFound, "task not found: " ++ quoted requestId⟩

def getStatus (requestId : ByteString) : Action TaskInfo := do
  let q ← Fallible.read
  match q.taskMap.lookup requestId with
  | none => fail (taskNotFound requestId)
  | some task => return task

def cancel (opens : Bool) (requestId : ByteString) (now : ℤ) : Action Unit := do
  let task ← getStatus requestId
  if task.status.isTerminal then
    fail ⟨.kInvalidArgument, "task is already in terminal state"⟩
  else
    let task := { task with status := .kCancelled, finishedMs := now }
    Fallible.modify fun q =>
      { q with taskMap := q.taskMap.insert requestId task
               pendingQueue := q.pendingQueue.eraseP fun t => t.requestId = requestId }
    appendWal cfg opens task

/-- An append whose status the caller ignores. -/
def logged (opens : Bool) (info : TaskInfo) (q : TaskQueue) : TaskQueue :=
  (appendWal cfg opens info q).2

/-- The front of a worker's loop: an idle worker takes the first waiting task. -/
def pickUp (opens : Bool) (now : ℤ) (q : TaskQueue) : TaskQueue :=
  match q.pendingQueue with
  | [] => q
  | task :: rest =>
    if q.executing.length < q.workers then
      let q := { q with pendingQueue := rest }
      match q.taskMap.lookup task.requestId with
      | none =>
        { logged cfg opens task q with
            executing := q.executing ++ [task]
            executed := q.executed ++ [task.requestId] }
      | some known =>
        if known.status = .kCancelled then q
        else
          let task' := { known with status := .kRunning, startedMs := now }
          let q := { q with taskMap := q.taskMap.insert task.requestId task' }
          { logged cfg opens task' q with
              executing := q.executing ++ [task']
              executed := q.executed ++ [task'.requestId] }
    else q

/-- Drop the first entry of the map if the map is full and the entry is final. -/
def evict (iteration : TaskIteration) (requestId : ByteString)
    (q : TaskQueue) : TaskQueue :=
  if q.taskMap.keys.length > kMaxCompletedResults then
    match iteration.order q.taskMap.entries with
    | [] => q
    | oldest :: _ =>
      if oldest.2.status.isTerminal ∧ oldest.1 ≠ requestId then
        { q with taskMap := q.taskMap.erase oldest.1 }
      else q
  else q

/-- What the executor returned: its status, and the result it left in the task. -/
abbrev Outcome := Except Status ByteString

def finished (known : TaskInfo) (outcome : Outcome) (now : ℤ) : TaskInfo :=
  match outcome with
  | .ok result => { known with status := .kCompleted, progress := 100, result, finishedMs := now }
  | .error e => { known with status := .kFailed, error := ascii e.message, finishedMs := now }

/-- The end of a worker's loop for the `i`-th executing task. A worker whose
queue was stopped leaves its loop afterwards. -/
def finish (opens : Bool) (iteration : TaskIteration) (i : ℕ)
    (outcome : Outcome) (now : ℤ) (q : TaskQueue) : TaskQueue :=
  match q.executing[i]? with
  | none => q
  | some task =>
    let q := { q with executing := q.executing.eraseIdx i
                      workers := if q.running then q.workers else q.workers - 1 }
    match q.taskMap.lookup task.requestId with
    | none => q
    | some known =>
      if known.status = .kCancelled then q
      else
        let known := finished known outcome now
        let q := { q with taskMap := q.taskMap.insert task.requestId known }
        evict iteration task.requestId (logged cfg opens known q)

/-- How the file operations of a replay end, and the orders in which its two
maps are walked. -/
structure ReplayIo where
  reads : Bool := true
  writes : Bool := true
  renames : Bool := true
  renameMessage : String := ""
  latestOrder : TaskIteration := Iteration.inOrder _
  mapOrder : TaskIteration := Iteration.inOrder _

def ReplayIo.Succeeds (io : ReplayIo) : Prop :=
  io.reads = true ∧ io.writes = true ∧ io.renames = true

/-- A task as a replay restores it. -/
def requeue (task : TaskInfo) : TaskInfo :=
  if task.status.isTerminal then task else { task with status := .kQueued }

def replayEntry (q : TaskQueue) (e : Σ _ : ByteString, TaskInfo) : TaskQueue :=
  let q' := { q with taskMap := q.taskMap.insert e.1 (requeue e.2) }
  if e.2.status.isTerminal then q'
  else { q' with pendingQueue := q'.pendingQueue ++ [requeue e.2] }

def replayWal (io : ReplayIo) : Action Unit := do
  let q ← Fallible.read
  match q.wal with
  | none => return ()
  | some log =>
    if !io.reads then
      fail (ioError ("cannot open task WAL for replay: " ++ cfg.walPath))
    else
      let latest := KeyedLog.collect TaskInfo.requestId log
      Fallible.modify fun q => (io.latestOrder.order latest.entries).foldl replayEntry q
      if !io.writes then
        fail (ioError ("cannot compact task WAL: " ++ cfg.walPath ++ ".tmp"))
      else if !io.renames then
        fail (ioError ("cannot rename WAL after compact: " ++ io.renameMessage))
      else
        Fallible.modify fun q =>
          { q with wal := some ((io.mapOrder.order q.taskMap.entries).map Sigma.snd) }

def start (io : ReplayIo) : Action Unit := do
  replayWal cfg io
  Fallible.modify fun q =>
    { q with running := true, workers := q.workers + max 1 cfg.taskQueueWorkers }

/-- `Stop` up to the point where it waits for the workers to leave. -/
def stop (q : TaskQueue) : TaskQueue := { q with running := false }

/-- An idle worker of a stopped queue leaves its loop. -/
def leave (q : TaskQueue) : TaskQueue :=
  if !q.running ∧ q.executing.length < q.workers then { q with workers := q.workers - 1 } else q

def restart (io : ReplayIo) (q : TaskQueue) : Except Status Unit × TaskQueue :=
  start cfg io { wal := q.wal }

/-- A critical section of the running queue. -/
inductive Call where
  | submit (opens : Bool) (requestId sql database userId : ByteString) (now : ℤ)
  | cancel (opens : Bool) (requestId : ByteString) (now : ℤ)
  | pickUp (opens : Bool) (now : ℤ)
  | finish (opens : Bool) (iteration : TaskIteration) (i : ℕ)
      (outcome : Outcome) (now : ℤ)

inductive Event where
  | call (c : Call)
  | start (io : ReplayIo)
  | stop
  | leave
  | crash (io : ReplayIo)

def perform (q : TaskQueue) : Call → Except Status Unit × TaskQueue
  | .submit opens id sql database user now =>
    ((submit cfg opens id sql database user now q).1.map fun _ => (),
      (submit cfg opens id sql database user now q).2)
  | .cancel opens id now => cancel cfg opens id now q
  | .pickUp opens now => (.ok (), pickUp cfg opens now q)
  | .finish opens iteration i outcome now => (.ok (), finish cfg opens iteration i outcome now q)

def step (q : TaskQueue) : Event → Except Status Unit × TaskQueue
  | .call c => perform cfg q c
  | .start io => start cfg io q
  | .stop => (.ok (), stop q)
  | .leave => (.ok (), leave q)
  | .crash io => restart cfg io q

end TaskQueue

end CourseDb
