import CourseDb.Queue.TaskQueue

/-! # Runs of the task queue

The last record of a task in the log is its entry in the map, waiting tasks are
queued in the map, and executing tasks are running or were cancelled. From this
follow recovery after a crash, and finality of the terminal states along runs
that start the queue only when no task is left to do.
-/

namespace CourseDb.TaskQueue

open Fallible (bind_ok bind_apply)
open TaskInfo (requestId)
open KeyedLog

variable {cfg : Config} {q q' : TaskQueue} {id : ByteString} {t : TaskInfo} {io : ReplayIo}
  {e : Event}

/-- The map, the log, the waiting and the executing tasks fit together. -/
structure Consistent (q : TaskQueue) : Prop where
  mapped : ∀ id t, q.taskMap.lookup id = some t → q.recorded id = some t
  waiting : ∀ t ∈ q.pendingQueue, q.taskMap.lookup t.requestId = some t ∧ t.status = .kQueued
  waitingOnce : (q.pendingQueue.map requestId).Nodup
  executing : ∀ t ∈ q.executing, ∃ r, q.recorded t.requestId = some r ∧
    (r.status = .kRunning ∨ r.status = .kCancelled)
  executingOnce : (q.executing.map requestId).Nodup

theorem Consistent.requestId_eq (h : q.Consistent) (ht : q.taskMap.lookup id = some t) :
    t.requestId = id :=
  (mem_of_latest (h.mapped id t ht)).2

/-- The state after a change of one task was stored in the map and in the log. -/
structure Stored (q q' : TaskQueue) (t : TaskInfo) : Prop where
  map_eq : q'.taskMap = q.taskMap.insert t.requestId t
  wal_eq : q'.wal = some (q.records ++ [t])

theorem Stored.recorded (h : Stored q q' t) (id : ByteString) :
    q'.recorded id = if t.requestId = id then some t else q.recorded id := by
  rw [TaskQueue.recorded, TaskQueue.records, h.wal_eq]
  exact latest_append _ _ _

theorem Stored.lookup (h : Stored q q' t) (id : ByteString) :
    q'.taskMap.lookup id = if t.requestId = id then some t else q.taskMap.lookup id := by
  rw [h.map_eq]
  split_ifs with hid
  · rw [← hid, AList.lookup_insert]
  · rw [AList.lookup_insert_ne (Ne.symm hid)]

theorem Stored.consistent (h : Stored q q' t) (hq : q.Consistent)
    (hwaiting : ∀ p ∈ q'.pendingQueue,
      p = t ∧ t.status = .kQueued ∨ p ∈ q.pendingQueue ∧ p.requestId ≠ t.requestId)
    (hwaitingOnce : (q'.pendingQueue.map requestId).Nodup)
    (hexecuting : ∀ e ∈ q'.executing,
      t.status = .kRunning ∨ t.status = .kCancelled ∨ e.requestId ≠ t.requestId)
    (hbefore : ∀ e ∈ q'.executing, e.requestId ≠ t.requestId → e ∈ q.executing)
    (hexecutingOnce : (q'.executing.map requestId).Nodup) : q'.Consistent where
  mapped id r hr := by
    rw [h.lookup] at hr
    rw [h.recorded]
    split_ifs at hr ⊢
    · exact hr
    · exact hq.mapped id r hr
  waiting p hp := by
    rw [h.lookup]
    obtain ⟨rfl, hqueued⟩ | ⟨hmem, hne⟩ := hwaiting p hp
    · exact ⟨if_pos rfl, hqueued⟩
    · rw [if_neg hne.symm]
      exact hq.waiting p hmem
  waitingOnce := hwaitingOnce
  executing e he := by
    rw [h.recorded]
    by_cases hid : t.requestId = e.requestId
    · rw [if_pos hid]
      obtain hrun | hcancelled | hne := hexecuting e he
      · exact ⟨t, rfl, .inl hrun⟩
      · exact ⟨t, rfl, .inr hcancelled⟩
      · exact absurd hid.symm hne
    · rw [if_neg hid]
      exact hq.executing e (hbefore e he (Ne.symm hid))
  executingOnce := hexecutingOnce

theorem logged_true (info : TaskInfo) (q : TaskQueue) :
    logged cfg true info q = { q with wal := some (q.records ++ [info]) } := rfl

/-- A submitted task is new in the log. -/
theorem submit_cases (cfg : Config) (id sql database user : ByteString) (now : ℤ)
    (q : TaskQueue) :
    (submit cfg true id sql database user now q).2 = q ∨
    ∃ t : TaskInfo, t.requestId = id ∧ t.status = .kQueued ∧
      (submit cfg true id sql database user now q).2 =
        { q with
            taskMap := q.taskMap.insert id t
            wal := some (q.records ++ [t])
            pendingQueue := q.pendingQueue ++ [t] } := by
  by_cases hfull : q.pendingQueue.length ≥ cfg.taskQueueMax
  · left
    simp [submit, bind_apply, hfull]
  · refine .inr ⟨{ requestId := id, sql, database, userId := user, submittedMs := now },
      rfl, rfl, ?_⟩
    simp [submit, bind_apply, hfull, appendWal]

theorem cancel_cases (cfg : Config) (id : ByteString) (now : ℤ) (q : TaskQueue) :
    ((∃ e, (cancel cfg true id now q).1 = .error e) ∧ (cancel cfg true id now q).2 = q) ∨
    ∃ t, q.taskMap.lookup id = some t ∧ t.status.isTerminal = false ∧
      cancel cfg true id now q = (.ok (),
        { q with
            taskMap := q.taskMap.insert id { t with status := .kCancelled, finishedMs := now }
            wal := some (q.records ++ [{ t with status := .kCancelled, finishedMs := now }])
            pendingQueue := q.pendingQueue.eraseP fun t => t.requestId = id }) := by
  cases hlookup : q.taskMap.lookup id with
  | none =>
    left
    simp [cancel, getStatus, bind_apply, hlookup]
  | some t =>
    cases hterminal : t.status.isTerminal with
    | true =>
      left
      simp [cancel, getStatus, bind_apply, hlookup, hterminal]
    | false =>
      refine .inr ⟨t, rfl, hterminal, ?_⟩
      simp [cancel, getStatus, bind_apply, hlookup, hterminal, appendWal]
      rfl

theorem pickUp_cases (cfg : Config) (hq : q.Consistent) (now : ℤ) :
    pickUp cfg true now q = q ∨
    ∃ t rest, q.pendingQueue = t :: rest ∧ q.taskMap.lookup t.requestId = some t ∧
      t.status = .kQueued ∧ pickUp cfg true now q =
        { q with
            taskMap := q.taskMap.insert t.requestId
              { t with status := .kRunning, startedMs := now }
            wal := some (q.records ++ [{ t with status := .kRunning, startedMs := now }])
            pendingQueue := rest
            executing := q.executing ++ [{ t with status := .kRunning, startedMs := now }]
            executed := q.executed ++ [t.requestId] } := by
  cases hpending : q.pendingQueue with
  | nil => exact .inl (by simp [pickUp, hpending])
  | cons t rest =>
    by_cases hidle : q.executing.length < q.workers
    · obtain ⟨hlookup, hqueued⟩ := hq.waiting t (by simp [hpending])
      refine .inr ⟨t, rest, rfl, hlookup, hqueued, ?_⟩
      simp [pickUp, hpending, hidle, hlookup, hqueued, logged_true]
      rfl
    · exact .inl (by simp [pickUp, hpending, hidle])

theorem evict_cases (iteration : TaskIteration) (q : TaskQueue) :
    evict iteration id q = q ∨ ∃ id' t, q.taskMap.lookup id' = some t ∧
      t.status.isTerminal = true ∧ evict iteration id q =
        { q with taskMap := q.taskMap.erase id' } := by
  unfold evict
  split_ifs with hfull
  · split
    · exact .inl rfl
    · rename_i oldest rest horder
      split_ifs with hfinal
      · have hmem : oldest ∈ q.taskMap.entries :=
          (iteration.perm _).subset (horder ▸ List.mem_cons_self)
        exact .inr ⟨oldest.1, oldest.2, AList.mem_lookup_iff.mpr hmem, hfinal.1, rfl⟩
      · exact .inl rfl
  · exact .inl rfl

theorem finish_cases (cfg : Config) (hq : q.Consistent)
    (iteration : TaskIteration) (i : ℕ) (outcome : Outcome) (now : ℤ) :
    finish cfg true iteration i outcome now q = q ∨
    ∃ task workers, q.executing[i]? = some task ∧
      (finish cfg true iteration i outcome now q =
          { q with executing := q.executing.eraseIdx i, workers } ∨
        ∃ t, q.taskMap.lookup task.requestId = some t ∧ t.status = .kRunning ∧
          finish cfg true iteration i outcome now q = evict iteration task.requestId
            { q with
                taskMap := q.taskMap.insert task.requestId (finished t outcome now)
                wal := some (q.records ++ [finished t outcome now])
                executing := q.executing.eraseIdx i
                workers }) := by
  cases htask : q.executing[i]? with
  | none => exact .inl (by simp [finish, htask])
  | some task =>
    refine .inr ⟨task, if q.running then q.workers else q.workers - 1, rfl, ?_⟩
    obtain ⟨r, hr, hstatus⟩ := hq.executing task (List.mem_of_getElem? htask)
    cases hlookup : q.taskMap.lookup task.requestId with
    | none => exact .inl (by simp [finish, htask, hlookup])
    | some t =>
      obtain rfl : t = r := Option.some.inj ((hq.mapped _ _ hlookup).symm.trans hr)
      obtain hrunning | hcancelled := hstatus
      · refine .inr ⟨t, rfl, hrunning, ?_⟩
        simp [finish, htask, hlookup, hrunning, logged_true]
        rfl
      · exact .inl (by simp [finish, htask, hlookup, hcancelled])

section Effects

variable {l : List TaskInfo}

/-- One task that was not final got a new record, and possibly was handed to the executor. -/
structure Changed (q q' : TaskQueue) (t : TaskInfo) : Prop extends Stored q q' t where
  wasOpen : ∀ r, q.recorded t.requestId = some r → r.status.isTerminal = false
  executed : q'.executed = q.executed ∧ (t.status = .kQueued → q.recorded t.requestId = none) ∨
    q'.executed = q.executed ++ [t.requestId] ∧ t.status = .kRunning ∧
      ∃ r, q.taskMap.lookup t.requestId = some r ∧ r.status = .kQueued
  executing : ∀ e ∈ q'.executing, e ∈ q.executing ∨ e.requestId ∈ q'.executed

/-- Nothing but the waiting and executing tasks changed. -/
structure Skipped (q q' : TaskQueue) : Prop where
  map_eq : q'.taskMap = q.taskMap
  wal_eq : q'.wal = q.wal
  executed : q'.executed = q.executed
  executing : ∀ e ∈ q'.executing, e ∈ q.executing

/-- A final entry may have been dropped from the map. -/
def Evicted (q q' : TaskQueue) : Prop :=
  q' = q ∨ ∃ id t, q.taskMap.lookup id = some t ∧ t.status.isTerminal = true ∧
    q' = { q with taskMap := q.taskMap.erase id }

/-- What a call can do to a queue. -/
structure Effect (q q' : TaskQueue) : Prop where
  exists_mid : ∃ mid, mid.Consistent ∧ (Skipped q mid ∨ ∃ t, Changed q mid t) ∧ Evicted mid q'

theorem Skipped.refl (q : TaskQueue) : Skipped q q :=
  ⟨rfl, rfl, rfl, fun _ he => he⟩

theorem Skipped.recorded (h : Skipped q q') (id : ByteString) :
    q'.recorded id = q.recorded id := by
  rw [TaskQueue.recorded, TaskQueue.records, h.wal_eq]
  rfl

theorem Effect.of_skipped (hq : q'.Consistent) (h : Skipped q q') : Effect q q' :=
  ⟨q', hq, .inl h, .inl rfl⟩

theorem Effect.of_changed (hq : q'.Consistent) (h : Changed q q' t) : Effect q q' :=
  ⟨q', hq, .inr ⟨t, h⟩, .inl rfl⟩

theorem lookup_erase_some {m : TaskMap} {id' : ByteString} (h : (m.erase id').lookup id = some t) :
    id ≠ id' ∧ m.lookup id = some t := by
  by_cases hid : id = id'
  · rw [hid, AList.lookup_erase] at h
    cases h
  · rw [AList.lookup_erase_ne hid] at h
    exact ⟨hid, h⟩

theorem Evicted.consistent (h : Evicted q q') (hq : q.Consistent) : q'.Consistent := by
  obtain rfl | ⟨id, t, ht, hterminal, rfl⟩ := h
  · exact hq
  · refine { hq with mapped := fun id' r hr => hq.mapped id' r (lookup_erase_some hr).2, waiting := ?_ }
    intro p hp
    obtain ⟨hlookup, hqueued⟩ := hq.waiting p hp
    refine ⟨?_, hqueued⟩
    -- a waiting task is queued in the map, so it is not the one that was dropped
    have hne : p.requestId ≠ id := by
      rintro rfl
      obtain rfl := Option.some.inj (hlookup.symm.trans ht)
      rw [hqueued] at hterminal
      cases hterminal
    rw [AList.lookup_erase_ne hne, hlookup]

theorem Evicted.recorded (h : Evicted q q') (id : ByteString) :
    q'.recorded id = q.recorded id := by
  obtain rfl | ⟨_, _, _, _, rfl⟩ := h <;> rfl

theorem Effect.consistent (h : Effect q q') : q'.Consistent := by
  obtain ⟨mid, hmid, -, hevicted⟩ := h.exists_mid
  exact hevicted.consistent hmid

/-- The id of a new task is not in the log. -/
theorem submit_effect (hq : q.Consistent) (hfresh : q.recorded id = none)
    (sql database user : ByteString) (now : ℤ) :
    Effect q (submit cfg true id sql database user now q).2 := by
  obtain heq | ⟨t, rfl, hqueued, heq⟩ := submit_cases cfg id sql database user now q
  · rw [heq]
    exact .of_skipped hq (.refl q)
  · have hnew : ∀ p ∈ q.pendingQueue, p.requestId ≠ t.requestId := by
      intro p hp hid
      have hp' := hq.mapped _ _ (hq.waiting p hp).1
      rw [hid, hfresh] at hp'
      cases hp'
    have hnotRunning : ∀ e ∈ q.executing, e.requestId ≠ t.requestId := by
      intro e he hid
      obtain ⟨r, hr, -⟩ := hq.executing e he
      rw [hid, hfresh] at hr
      cases hr
    rw [heq]
    refine .of_changed (t := t) ?_ ⟨⟨rfl, rfl⟩, ?_, .inl ⟨rfl, fun _ => hfresh⟩, fun e he => .inl he⟩
    · refine Stored.consistent (t := t) ⟨rfl, rfl⟩ hq ?_ ?_ (fun e he => .inr (.inr (hnotRunning e he)))
        (fun e he _ => he) hq.executingOnce
      · intro p hp
        obtain hp | hp := List.mem_append.mp hp
        · exact .inr ⟨hp, hnew p hp⟩
        · exact .inl ⟨List.mem_singleton.mp hp, hqueued⟩
      · rw [List.map_append]
        refine List.Nodup.append hq.waitingOnce (List.nodup_singleton _) ?_
        rintro x hx hlast
        obtain ⟨p, hp, rfl⟩ := List.mem_map.mp hx
        exact hnew p hp (List.mem_singleton.mp hlast)
    · intro r hr
      rw [hfresh] at hr
      cases hr

theorem requestId_ne_of_mem_eraseP (h : (l.map requestId).Nodup) {p : TaskInfo}
    (hp : p ∈ l.eraseP fun t => t.requestId = id) : p.requestId ≠ id := by
  induction l with
  | nil => cases hp
  | cons a l ih =>
    obtain ⟨hnew, hrest⟩ := List.nodup_cons.mp h
    by_cases ha : a.requestId = id
    · simp only [ha, decide_true, List.eraseP_cons_of_pos] at hp
      intro hid
      exact hnew (List.mem_map.mpr ⟨p, hp, hid.trans ha.symm⟩)
    · simp only [ha, decide_false, Bool.false_eq_true, not_false_eq_true, List.eraseP_cons_of_neg,
        List.mem_cons] at hp
      obtain rfl | hp := hp
      · exact ha
      · exact ih hrest hp

theorem requestId_ne_of_mem_eraseIdx (h : (l.map requestId).Nodup) {i : ℕ}
    {task e : TaskInfo} (ht : l[i]? = some task) (he : e ∈ l.eraseIdx i) :
    e.requestId ≠ task.requestId := by
  obtain ⟨j, hj, hji⟩ := List.mem_eraseIdx_iff_getElem?.mp he
  intro hid
  have hj' : (l.map requestId)[j]? = some task.requestId := by simp [hji, hid]
  have hi' : (l.map requestId)[i]? = some task.requestId := by simp [ht]
  obtain ⟨hlt, -⟩ := List.getElem?_eq_some_iff.mp hj'
  exact hj ((List.getElem?_inj hlt h).mp (hj'.trans hi'.symm))

theorem cancel_effect (cfg : Config) (hq : q.Consistent) (id : ByteString) (now : ℤ) :
    Effect q (cancel cfg true id now q).2 := by
  obtain ⟨-, heq⟩ | ⟨t, ht, hopen, heq⟩ := cancel_cases cfg id now q
  · rw [heq]
    exact .of_skipped hq (.refl q)
  · obtain rfl := hq.requestId_eq ht
    rw [heq]
    refine .of_changed (t := { t with status := .kCancelled, finishedMs := now }) ?_
      ⟨⟨rfl, rfl⟩, ?_, .inl ⟨rfl, nofun⟩, fun e he => .inl he⟩
    · refine Stored.consistent ⟨rfl, rfl⟩ hq ?_ ?_ (fun e he => .inr (.inl rfl))
        (fun e he _ => he) hq.executingOnce
      · exact fun p hp =>
          .inr ⟨List.mem_of_mem_eraseP hp, requestId_ne_of_mem_eraseP hq.waitingOnce hp⟩
      · exact (List.eraseP_sublist.map _).nodup hq.waitingOnce
    · intro r hr
      obtain rfl := Option.some.inj ((hq.mapped _ _ ht).symm.trans hr)
      exact hopen

theorem pickUp_effect (cfg : Config) (hq : q.Consistent) (now : ℤ) :
    Effect q (pickUp cfg true now q) := by
  obtain heq | ⟨t, rest, hpending, ht, hqueued, heq⟩ := pickUp_cases cfg hq now
  · rw [heq]
    exact .of_skipped hq (.refl q)
  · have hrecorded := hq.mapped _ _ ht
    have hnotRunning : ∀ e ∈ q.executing, e.requestId ≠ t.requestId := by
      intro e he hid
      obtain ⟨r, hr, hstatus⟩ := hq.executing e he
      rw [hid, hrecorded] at hr
      obtain rfl := Option.some.inj hr
      simp [hqueued] at hstatus
    have honce := hq.waitingOnce
    rw [hpending, List.map_cons, List.nodup_cons] at honce
    rw [heq]
    refine .of_changed (t := { t with status := .kRunning, startedMs := now }) ?_
      ⟨⟨rfl, rfl⟩, ?_, .inr ⟨rfl, rfl, t, ht, hqueued⟩, ?_⟩
    · refine Stored.consistent ⟨rfl, rfl⟩ hq ?_ honce.2 (fun e he => .inl rfl) ?_ ?_
      · exact fun p hp => .inr ⟨by simp [hpending, hp],
          fun hid => honce.1 (hid ▸ List.mem_map_of_mem hp)⟩
      · intro e he hne
        obtain he | he := List.mem_append.mp he
        · exact he
        · rw [List.mem_singleton.mp he] at hne
          exact absurd rfl hne
      · rw [List.map_append]
        refine List.Nodup.append hq.executingOnce (List.nodup_singleton _) ?_
        rintro x hx hlast
        obtain ⟨e, he, rfl⟩ := List.mem_map.mp hx
        exact hnotRunning e he (List.mem_singleton.mp hlast)
    · intro r hr
      obtain rfl := Option.some.inj (hrecorded.symm.trans hr)
      rw [hqueued]
      rfl
    · intro e he
      obtain he | he := List.mem_append.mp he
      · exact .inl he
      · rw [List.mem_singleton.mp he]
        exact .inr (by simp)

theorem finished_requestId (t : TaskInfo) (outcome : Outcome) (now : ℤ) :
    (finished t outcome now).requestId = t.requestId := by
  cases outcome <;> rfl

theorem finished_terminal (t : TaskInfo) (outcome : Outcome) (now : ℤ) :
    (finished t outcome now).status.isTerminal = true := by
  cases outcome <;> rfl

theorem finish_effect (cfg : Config) (hq : q.Consistent)
    (iteration : TaskIteration) (i : ℕ) (outcome : Outcome) (now : ℤ) :
    Effect q (finish cfg true iteration i outcome now q) := by
  obtain heq | ⟨task, workers, htask, heq | ⟨t, ht, hrunning, heq⟩⟩ :=
    finish_cases cfg hq iteration i outcome now
  · rw [heq]
    exact .of_skipped hq (.refl q)
  · rw [heq]
    refine .of_skipped ?_ ⟨rfl, rfl, rfl, fun e he => List.mem_of_mem_eraseIdx he⟩
    exact { hq with
      executing := fun e he => hq.executing e (List.mem_of_mem_eraseIdx he)
      executingOnce := ((List.eraseIdx_sublist ..).map _).nodup hq.executingOnce }
  · have hid := hq.requestId_eq ht
    have hrecorded := hq.mapped _ _ ht
    rw [heq, ← hid, ← finished_requestId t outcome now]
    refine ⟨{ q with
        taskMap := q.taskMap.insert (finished t outcome now).requestId (finished t outcome now)
        wal := some (q.records ++ [finished t outcome now])
        executing := q.executing.eraseIdx i
        workers }, ?_,
      .inr ⟨finished t outcome now, ⟨⟨rfl, rfl⟩, ?_, .inl ⟨rfl, ?_⟩, ?_⟩⟩, evict_cases iteration _⟩
    · refine Stored.consistent (t := finished t outcome now) ⟨rfl, rfl⟩ hq ?_ hq.waitingOnce
        ?_ (fun e he _ => List.mem_of_mem_eraseIdx he)
        (((List.eraseIdx_sublist ..).map _).nodup hq.executingOnce)
      · intro p hp
        refine .inr ⟨hp, fun hsame => ?_⟩
        obtain ⟨hp', hqueued⟩ := hq.waiting p hp
        rw [hsame, finished_requestId, hid, ht] at hp'
        obtain rfl := Option.some.inj hp'
        rw [hrunning] at hqueued
        cases hqueued
      · intro e he
        refine .inr (.inr ?_)
        rw [finished_requestId, hid]
        exact requestId_ne_of_mem_eraseIdx hq.executingOnce htask he
    · intro r hr
      rw [finished_requestId, hid, hrecorded] at hr
      obtain rfl := Option.some.inj hr
      rw [hrunning]
      rfl
    · intro hqueued
      have := finished_terminal t outcome now
      rw [hqueued] at this
      cases this
    · exact fun e he => .inl (List.mem_of_mem_eraseIdx he)

/-- The log file opens, and a new task has an id that the log does not have. -/
def Call.Admissible (q : TaskQueue) : Call → Prop
  | .submit opens id _ _ _ _ => opens = true ∧ q.recorded id = none
  | .cancel opens _ _ => opens = true
  | .pickUp opens _ => opens = true
  | .finish opens _ _ _ _ => opens = true

theorem perform_effect (cfg : Config) (hq : q.Consistent) {c : Call} (hc : c.Admissible q) :
    Effect q (perform cfg q c).2 := by
  cases c with
  | submit opens id sql database user now =>
    obtain ⟨rfl, hfresh⟩ := hc
    exact submit_effect hq hfresh sql database user now
  | cancel opens id now =>
    obtain rfl := hc
    exact cancel_effect cfg hq id now
  | pickUp opens now =>
    obtain rfl := hc
    exact pickUp_effect cfg hq now
  | finish opens iteration i outcome now =>
    obtain rfl := hc
    exact finish_effect cfg hq iteration i outcome now

/-- A final record stays the last record of its task. -/
def Settled (q : TaskQueue) (t : TaskInfo) : Prop :=
  q.recorded t.requestId = some t ∧ t.status.isTerminal = true

theorem Effect.settled (h : Effect q q') (ht : q.Settled t) : q'.Settled t := by
  obtain ⟨mid, -, hstep, hevicted⟩ := h.exists_mid
  refine ⟨?_, ht.2⟩
  rw [hevicted.recorded]
  obtain hskipped | ⟨r, hchanged⟩ := hstep
  · rw [hskipped.recorded, ht.1]
  · have hne : r.requestId ≠ t.requestId := by
      intro hid
      have := hchanged.wasOpen t (hid ▸ ht.1)
      rw [ht.2] at this
      cases this
    rw [hchanged.toStored.recorded, if_neg hne, ht.1]

/-- No record follows a final one. -/
def FinalRecords (q : TaskQueue) : Prop :=
  Final requestId (fun t => t.status.isTerminal = true) q.records

theorem Effect.finalRecords (h : Effect q q') (hq : q.FinalRecords) : q'.FinalRecords := by
  obtain ⟨mid, -, hstep, hevicted⟩ := h.exists_mid
  have hrecords : q'.records = mid.records := by
    obtain rfl | ⟨_, _, _, _, rfl⟩ := hevicted <;> rfl
  rw [FinalRecords, hrecords]
  obtain hskipped | ⟨r, hchanged⟩ := hstep
  · rw [records, hskipped.wal_eq]
    exact hq
  · rw [records, hchanged.wal_eq]
    refine hq.append fun b hb => ?_
    rw [hchanged.wasOpen b hb]
    exact Bool.false_ne_true

end Effects

theorem requeue_requestId (t : TaskInfo) : (requeue t).requestId = t.requestId := by
  unfold requeue
  split_ifs <;> rfl

theorem requeue_of_terminal (h : t.status.isTerminal = true) : requeue t = t := if_pos h

theorem requeue_of_open (h : t.status.isTerminal = false) :
    requeue t = { t with status := .kQueued } := by
  rw [requeue, h]
  rfl

theorem requeue_terminal (t : TaskInfo) :
    (requeue t).status.isTerminal = t.status.isTerminal := by
  unfold requeue
  split_ifs with h
  · rfl
  · rw [Bool.not_eq_true] at h
    rw [h]
    rfl

theorem foldl_replayEntry (entries : List (Σ _ : ByteString, TaskInfo)) (q : TaskQueue) :
    entries.foldl replayEntry q =
      { q with
          taskMap := insertAll q.taskMap (entries.map fun e => ⟨e.1, requeue e.2⟩)
          pendingQueue := q.pendingQueue ++
            (entries.filter fun e => !e.2.status.isTerminal).map fun e => requeue e.2 } := by
  induction entries generalizing q with
  | nil => simp [insertAll]
  | cons e entries ih =>
    rw [List.foldl_cons, ih, replayEntry]
    cases hterminal : e.2.status.isTerminal <;> simp [insertAll, hterminal]

/-- What a replay makes of a queue: every recorded task is in the map, and the
tasks that are not final wait once more. -/
structure Replayed (q q' : TaskQueue) : Prop where
  lookup : ∀ id, q'.taskMap.lookup id = (q.recorded id).map requeue
  recorded : ∀ id, q'.recorded id = (q.recorded id).map requeue
  finalRecords : q'.FinalRecords
  waiting : ∃ tasks, q'.pendingQueue = q.pendingQueue ++ tasks ∧
    (tasks.map requestId).Nodup ∧ ∀ t, t ∈ tasks ↔
      ∃ r, q.recorded t.requestId = some r ∧ r.status.isTerminal = false ∧ t = requeue r
  executing : q'.executing = q.executing
  executed : q'.executed = q.executed

/-- The tasks that are not final, in the order the replayed map is walked. -/
theorem replayed_tasks {entries : List (Σ _ : ByteString, TaskInfo)}
    (h : entries.Perm (collect requestId q.records).entries) :
    (((entries.filter fun e => !e.2.status.isTerminal).map fun e => requeue e.2).map
      requestId).Nodup ∧
    ∀ t, t ∈ (entries.filter fun e => !e.2.status.isTerminal).map (fun e => requeue e.2) ↔
      ∃ r, q.recorded t.requestId = some r ∧ r.status.isTerminal = false ∧ t = requeue r := by
  have hmem : ∀ e : Σ _ : ByteString, TaskInfo, e ∈ entries ↔ q.recorded e.1 = some e.2 :=
    fun e => (h.mem_iff).trans AList.mem_lookup_iff.symm
  have hkey : ∀ e ∈ entries, e.2.requestId = e.1 := fun e he => (mem_of_latest ((hmem e).mp he)).2
  constructor
  · have hnodup : entries.NodupKeys := (List.perm_nodupKeys h).mpr (AList.nodupKeys _)
    have hids : ((entries.filter fun e => !e.2.status.isTerminal).map fun e => requeue e.2).map
        requestId = (entries.filter fun e => !e.2.status.isTerminal).map Sigma.fst := by
      rw [List.map_map]
      refine List.map_congr_left fun e he => ?_
      exact (requeue_requestId e.2).trans (hkey e (List.mem_of_mem_filter he))
    rw [hids]
    exact (List.filter_sublist.map _).nodup hnodup
  · intro t
    constructor
    · intro ht
      obtain ⟨e, he, rfl⟩ := List.mem_map.mp ht
      obtain ⟨he, hopen⟩ := List.mem_filter.mp he
      refine ⟨e.2, ?_, by simpa using hopen, rfl⟩
      rw [requeue_requestId, hkey e he]
      exact (hmem e).mp he
    · rintro ⟨r, hr, hopen, rfl⟩
      rw [requeue_requestId] at hr
      refine List.mem_map.mpr ⟨⟨r.requestId, r⟩, List.mem_filter.mpr ⟨?_, by simp [hopen]⟩, rfl⟩
      exact (hmem _).mpr hr

theorem replayWal_spec (cfg : Config) (hq : q.Consistent) (hio : io.Succeeds) :
    (replayWal cfg io q).1 = .ok () ∧ Replayed q (replayWal cfg io q).2 := by
  obtain ⟨hreads, hwrites, hrenames⟩ := hio
  -- the map has no entry that the log does not have
  have hunrecorded : ∀ id, q.recorded id = none → q.taskMap.lookup id = none := by
    intro id hid
    by_contra hsome
    obtain ⟨t, ht⟩ := Option.ne_none_iff_exists'.mp hsome
    rw [hq.mapped id t ht] at hid
    cases hid
  cases hwal : q.wal with
  | none =>
    have hrecords : q.records = [] := by rw [records, hwal]; rfl
    have hrecorded : ∀ id, q.recorded id = none := fun id => by rw [recorded, hrecords]; rfl
    have heq : replayWal cfg io q = (.ok (), q) := by simp [replayWal, bind_apply, hwal]
    rw [heq]
    refine ⟨rfl, ⟨fun id => ?_, fun id => ?_, ?_, ⟨[], by simp [hrecorded]⟩, rfl, rfl⟩⟩
    · rw [hrecorded, hunrecorded id (hrecorded id)]
      rfl
    · rw [hrecorded]
      rfl
    · rw [FinalRecords, hrecords]
      exact List.Pairwise.nil
  | some log =>
    obtain rfl : q.records = log := by rw [records, hwal]; rfl
    have hperm := io.latestOrder.perm (collect requestId q.records).entries
    obtain ⟨hnodup, htasks⟩ := replayed_tasks hperm
    set entries := io.latestOrder.order (collect requestId q.records).entries
    set map := insertAll q.taskMap (entries.map fun e => ⟨e.1, requeue e.2⟩) with hmap
    have heq : replayWal cfg io q = (.ok (),
        { q with
            taskMap := map
            wal := some ((io.mapOrder.order map.entries).map Sigma.snd)
            pendingQueue := q.pendingQueue ++
              (entries.filter fun e => !e.2.status.isTerminal).map fun e => requeue e.2 }) := by
      simp [replayWal, bind_apply, hwal, hreads, hwrites, hrenames, foldl_replayEntry,
        entries, map]
    have hlookup : ∀ id, map.lookup id = (q.recorded id).map requeue := by
      intro id
      rw [lookup_insertAll_map hperm]
      change ((q.recorded id).map requeue).or _ = _
      cases hid : q.recorded id with
      | none => exact hunrecorded id hid
      | some t => rfl
    have hkeys : ∀ id t, map.lookup id = some t → t.requestId = id := by
      intro id t ht
      rw [hlookup] at ht
      obtain ⟨r, hr, rfl⟩ := Option.map_eq_some_iff.mp ht
      rw [requeue_requestId]
      exact (mem_of_latest hr).2
    rw [heq]
    refine ⟨rfl, ⟨hlookup, fun id => ?_, ?_, ⟨_, rfl, hnodup, htasks⟩, rfl, rfl⟩⟩
    · rw [← hlookup]
      exact latest_values (io.mapOrder.perm _) hkeys id
    · exact Final.values (io.mapOrder.perm _) hkeys

theorem Replayed.consistent (h : Replayed q q') (hq : q.Consistent)
    (hdone : ∀ id t, q.taskMap.lookup id = some t → t.status.isTerminal = true)
    (hidle : ∀ e ∈ q.executing, ∀ r, q.recorded e.requestId = some r →
      r.status.isTerminal = true) : q'.Consistent := by
  obtain ⟨tasks, hpending, hnodup, htasks⟩ := h.waiting
  have hempty : q.pendingQueue = [] := by
    refine List.eq_nil_iff_forall_not_mem.mpr fun t ht => ?_
    obtain ⟨hlookup, hqueued⟩ := hq.waiting t ht
    have := hdone _ _ hlookup
    rw [hqueued] at this
    cases this
  rw [hempty, List.nil_append] at hpending
  refine ⟨fun id t ht => ?_, fun t ht => ?_, by rwa [hpending], fun e he => ?_, ?_⟩
  · rw [h.recorded, ← h.lookup, ht]
  · obtain ⟨r, hr, hopen, heq⟩ := (htasks t).mp (hpending ▸ ht)
    refine ⟨by rw [h.lookup, hr, Option.map_some, ← heq], ?_⟩
    rw [heq, requeue_of_open hopen]
  · rw [h.executing] at he
    obtain ⟨r, hr, hstatus⟩ := hq.executing e he
    refine ⟨r, ?_, hstatus⟩
    rw [h.recorded, hr, Option.map_some, requeue_of_terminal (hidle e he r hr)]
  · rw [h.executing]
    exact hq.executingOnce

theorem Replayed.settled (h : Replayed q q') (ht : q.Settled t) : q'.Settled t := by
  refine ⟨?_, ht.2⟩
  rw [h.recorded, ht.1, Option.map_some, requeue_of_terminal ht.2]

theorem start_spec (cfg : Config) (hq : q.Consistent) (hio : io.Succeeds) :
    (start cfg io q).1 = .ok () ∧ Replayed q (start cfg io q).2 := by
  obtain ⟨hok, h⟩ := replayWal_spec cfg hq hio
  have hrun : replayWal cfg io q = (.ok (), (replayWal cfg io q).2) := by rw [← hok]
  rw [start, bind_ok hrun]
  exact ⟨rfl, ⟨h.lookup, h.recorded, h.finalRecords, h.waiting, h.executing, h.executed⟩⟩

theorem consistent_of_wal (wal : Option (List TaskInfo)) (running : Bool) (workers : ℕ) :
    Consistent { wal, running, workers } where
  mapped _ _ h := by cases h
  waiting _ h := by cases h
  waitingOnce := List.nodup_nil
  executing _ h := by cases h
  executingOnce := List.nodup_nil

theorem restart_spec (cfg : Config) (q : TaskQueue) (hio : io.Succeeds) :
    (restart cfg io q).1 = .ok () ∧ Replayed { wal := q.wal } (restart cfg io q).2 :=
  start_spec cfg (consistent_of_wal q.wal false 0) hio

theorem restart_consistent (cfg : Config) (q : TaskQueue) (hio : io.Succeeds) :
    (restart cfg io q).2.Consistent :=
  (restart_spec cfg q hio).2.consistent (consistent_of_wal q.wal false 0)
    (fun _ _ h => by cases h) (fun _ h => by cases h)

/-- Events between crashes: critical sections whose log appends succeed. -/
def Event.Recoverable (q : TaskQueue) : Event → Prop
  | .call c => c.Admissible q
  | .crash io => io.Succeeds
  | .start _ | .stop | .leave => False

/-- The queue between two events of such a run. -/
structure Sound (q : TaskQueue) : Prop where
  consistent : q.Consistent
  finalRecords : q.FinalRecords

theorem start_sound (cfg : Config) (io : ReplayIo) : (start cfg io {}).2.Sound :=
  ⟨consistent_of_wal none true _, List.Pairwise.nil⟩

theorem Sound.step (hq : q.Sound) (he : e.Recoverable q) : (step cfg q e).2.Sound := by
  cases e with
  | call c =>
    have h := perform_effect cfg hq.consistent he
    exact ⟨h.consistent, h.finalRecords hq.finalRecords⟩
  | crash io => exact ⟨restart_consistent cfg q he, (restart_spec cfg q he).2.finalRecords⟩
  | start io => exact he.elim
  | stop => exact he.elim
  | leave => exact he.elim

theorem Settled.step (ht : q.Settled t) (hq : q.Sound) (he : e.Recoverable q) :
    (step cfg q e).2.Settled t := by
  cases e with
  | call c => exact (perform_effect cfg hq.consistent he).settled ht
  | crash io => exact (restart_spec cfg q he).2.settled ht
  | start io => exact he.elim
  | stop => exact he.elim
  | leave => exact he.elim

/-- What a restart finds in the log of a queue that crashed. -/
theorem restart_recovers (cfg : Config) (hq : q.Consistent) (hio : io.Succeeds) :
    (∀ id t, q.taskMap.lookup id = some t →
      (restart cfg io q).2.taskMap.lookup id = some (requeue t)) ∧
    ∀ t, t ∈ (restart cfg io q).2.pendingQueue ↔
      (restart cfg io q).2.taskMap.lookup t.requestId = some t ∧ t.status.isTerminal = false := by
  obtain ⟨-, h⟩ := restart_spec cfg q hio
  refine ⟨fun id t ht => ?_, fun t => ?_⟩
  · rw [h.lookup]
    exact congrArg (Option.map requeue) (hq.mapped id t ht)
  · obtain ⟨tasks, hpending, -, htasks⟩ := h.waiting
    rw [hpending, List.nil_append, htasks, h.lookup, Option.map_eq_some_iff]
    constructor
    · rintro ⟨r, hr, hopen, rfl⟩
      exact ⟨⟨r, hr, rfl⟩, (requeue_terminal r).trans hopen⟩
    · rintro ⟨⟨r, hr, rfl⟩, hopen⟩
      exact ⟨r, hr, (requeue_terminal r).symm.trans hopen, rfl⟩

theorem Settled.notWaiting (ht : q.Settled t) (hio : io.Succeeds) :
    t.requestId ∉ (restart cfg io q).2.pendingQueue.map requestId := by
  intro hmem
  obtain ⟨p, hp, hid⟩ := List.mem_map.mp hmem
  have hqueued := ((restart_consistent cfg q hio).waiting p hp)
  have hlookup := (restart_spec cfg q hio).2.lookup p.requestId
  rw [hid] at hqueued hlookup
  have hrecorded : ({ wal := q.wal } : TaskQueue).recorded t.requestId = some t := ht.1
  rw [hqueued.1, hrecorded, Option.map_some, requeue_of_terminal ht.2] at hlookup
  obtain rfl := Option.some.inj hlookup
  have hterminal := ht.2
  rw [hqueued.2] at hterminal
  cases hterminal

/-- In a run from an empty directory, a restart after a crash at any moment
finds every task again, and makes exactly the unfinished ones wait. -/
theorem taskQueue_recovers (cfg : Config) (io₀ io : ReplayIo) (before after : List Event)
    (hrun : Along (step cfg) (fun q e => e.Recoverable q) (start cfg io₀ {}).2 (before ++ after))
    (hio : io.Succeeds) :
    let earlier := finalState (step cfg) (start cfg io₀ {}).2 before
    let crashed := finalState (step cfg) (start cfg io₀ {}).2 (before ++ after)
    let recovered := (restart cfg io crashed).2
    (restart cfg io crashed).1 = .ok () ∧
      (∀ id t, crashed.taskMap.lookup id = some t → recovered.taskMap.lookup id =
        some (if t.status.isTerminal then t else { t with status := .kQueued })) ∧
      (∀ t, t ∈ recovered.pendingQueue ↔
        recovered.taskMap.lookup t.requestId = some t ∧ t.status.isTerminal = false) ∧
      (recovered.pendingQueue.map requestId).Nodup ∧
      ∀ r ∈ earlier.records, r.status.isTerminal = true →
        r.requestId ∉ recovered.pendingQueue.map requestId := by
  intro earlier crashed recovered
  obtain ⟨hbefore, hafter⟩ := Along.append.mp hrun
  have hearlier : earlier.Sound :=
    Along.invariant (I := Sound) (fun q e hq he => hq.step he) (start_sound cfg io₀) hbefore
  have hcrashed : crashed.Sound :=
    Along.invariant (I := Sound) (fun q e hq he => hq.step he) (start_sound cfg io₀) hrun
  obtain ⟨hmapped, hwaiting⟩ := restart_recovers cfg hcrashed.consistent hio
  refine ⟨(restart_spec cfg crashed hio).1, hmapped, hwaiting,
    (restart_consistent cfg crashed hio).waitingOnce, fun r hr hterminal => ?_⟩
  have hsettled : crashed.Settled r := by
    have h := Along.invariant (I := fun q => q.Sound ∧ q.Settled r)
      (fun q e hq he => ⟨hq.1.step he, hq.2.step hq.1 he⟩)
      ⟨hearlier, hearlier.finalRecords.latest_eq hr hterminal, hterminal⟩ hafter
    rw [← finalState_append] at h
    exact h.2
  exact hsettled.notWaiting hio

/-- A task that a worker had picked up waits again after a crash. -/
theorem taskQueue_recovers_picked_up :
    let cfg : Config := { taskQueueMax := 4, taskQueueWorkers := 2, walPath := "tasks.wal" }
    let run : List Event := [.call (.submit true [1] [] [] [] 0), .call (.pickUp true 1)]
    let recovered := (restart cfg {} (finalState (step cfg) (start cfg {} {}).2 run)).2
    recovered.pendingQueue.map requestId = [[1]] ∧
      ∀ t, t ∈ recovered.pendingQueue ↔
        recovered.taskMap.lookup t.requestId = some t ∧ t.status.isTerminal = false := by
  intro cfg run recovered
  exact ⟨by decide, (taskQueue_recovers cfg {} {} [] run ⟨⟨rfl, by decide⟩, rfl, trivial⟩
    ⟨rfl, rfl, rfl⟩).2.2.1⟩

/-- No task was handed to the executor twice, and none that may still be handed
to it was handed to it before. -/
structure Once (q : TaskQueue) : Prop where
  nodup : q.executed.Nodup
  queued : ∀ id t, q.taskMap.lookup id = some t → t.status = .kQueued → id ∉ q.executed
  unmapped : ∀ id t, q.recorded id = some t → q.taskMap.lookup id = none →
    t.status.isTerminal = false → id ∉ q.executed
  recorded : ∀ id ∈ q.executed, q.recorded id ≠ none
  executing : ∀ e ∈ q.executing, e.requestId ∈ q.executed

theorem Skipped.once (h : Skipped q q') (hq : q.Once) : q'.Once := by
  refine ⟨by rw [h.executed]; exact hq.nodup, ?_, ?_, ?_, ?_⟩
  · rw [h.map_eq, h.executed]
    exact hq.queued
  · intro id t ht
    rw [h.recorded] at ht
    rw [h.map_eq, h.executed]
    exact hq.unmapped id t ht
  · intro id hid
    rw [h.executed] at hid
    rw [h.recorded]
    exact hq.recorded id hid
  · intro e he
    rw [h.executed]
    exact hq.executing e (h.executing e he)

/-- A changed task that is queued afterwards is new, and a task handed to the
executor was queued. -/
theorem Changed.executed_cases (h : Changed q q' t) (hq : q.Once) :
    q'.executed = q.executed ∧ (t.status = .kQueued → t.requestId ∉ q.executed) ∨
      q'.executed = q.executed ++ [t.requestId] ∧ t.status ≠ .kQueued ∧
        t.requestId ∉ q.executed := by
  obtain ⟨hsame, hnew⟩ | ⟨hmore, hrunning, r, hr, hqueued⟩ := h.executed
  · exact .inl ⟨hsame, fun hqueued hid => hq.recorded _ hid (hnew hqueued)⟩
  · exact .inr ⟨hmore, by simp [hrunning], hq.queued _ r hr hqueued⟩

theorem Changed.notMem_executed (h : Changed q q' t) (hq : q.Once) (hid : id ∉ q.executed)
    (hne : t.requestId ≠ id) : id ∉ q'.executed := by
  obtain ⟨hsame, -⟩ | ⟨hmore, -, -⟩ := h.executed_cases hq
  · rwa [hsame]
  · simp [hmore, hid, Ne.symm hne]

theorem Changed.once (h : Changed q q' t) (hq : q.Once) : q'.Once := by
  have hlookup := h.toStored.lookup
  have hrecorded := h.toStored.recorded
  refine ⟨?_, ?_, ?_, ?_, ?_⟩
  · obtain ⟨hsame, -⟩ | ⟨hmore, -, hnew⟩ := h.executed_cases hq
    · rw [hsame]
      exact hq.nodup
    · rw [hmore]
      exact List.Nodup.append hq.nodup (List.nodup_singleton _) (by simpa using hnew)
  · intro id r hr hqueued
    rw [hlookup] at hr
    split_ifs at hr with hid
    · obtain rfl := Option.some.inj hr
      obtain ⟨hsame, hnew⟩ | ⟨-, hnot, -⟩ := h.executed_cases hq
      · rw [hsame, ← hid]
        exact hnew hqueued
      · exact absurd hqueued hnot
    · exact h.notMem_executed hq (hq.queued id r hr hqueued) hid
  · intro id r hr hnone hopen
    rw [hlookup] at hnone
    rw [hrecorded] at hr
    split_ifs at hr hnone with hid
    exact h.notMem_executed hq (hq.unmapped id r hr hnone hopen) hid
  · intro id hmem
    rw [hrecorded]
    split_ifs with hid
    · simp
    · refine hq.recorded id (by_contra fun hnot => ?_)
      exact h.notMem_executed hq hnot hid hmem
  · intro e he
    obtain hbefore | hnow := h.executing e he
    · obtain ⟨hsame, -⟩ | ⟨hmore, -, -⟩ := h.executed_cases hq
      · rw [hsame]
        exact hq.executing e hbefore
      · rw [hmore]
        exact List.mem_append_left _ (hq.executing e hbefore)
    · exact hnow

theorem Evicted.once (h : Evicted q q') (hc : q.Consistent) (hq : q.Once) : q'.Once := by
  obtain rfl | ⟨id, t, ht, hterminal, rfl⟩ := h
  · exact hq
  · refine ⟨hq.nodup, fun id' r hr => hq.queued id' r (lookup_erase_some hr).2, ?_,
      hq.recorded, hq.executing⟩
    intro id' r hr hnone hopen
    by_cases hid : id' = id
    · -- the dropped entry was the last record, and it was final
      subst hid
      obtain rfl := Option.some.inj ((hc.mapped _ _ ht).symm.trans hr)
      rw [hopen] at hterminal
      cases hterminal
    · rw [AList.lookup_erase_ne hid] at hnone
      exact hq.unmapped id' r hr hnone hopen

theorem Effect.once (h : Effect q q') (hq : q.Once) : q'.Once := by
  obtain ⟨mid, hmid, hskipped | ⟨t, hchanged⟩, hevicted⟩ := h.exists_mid
  · exact hevicted.once hmid (hskipped.once hq)
  · exact hevicted.once hmid (hchanged.once hq)

theorem Effect.executed (h : Effect q q') (hc : q.Consistent) (ht : q.Settled t)
    (hnot : t.requestId ∉ q.executed) : t.requestId ∉ q'.executed := by
  obtain ⟨mid, -, hstep, hevicted⟩ := h.exists_mid
  have hexecuted : q'.executed = mid.executed := by
    obtain rfl | ⟨_, _, _, _, rfl⟩ := hevicted <;> rfl
  rw [hexecuted]
  obtain hskipped | ⟨r, hchanged⟩ := hstep
  · rwa [hskipped.executed]
  · obtain ⟨hsame, -⟩ | ⟨hmore, -, known, hknown, hqueued⟩ := hchanged.executed
    · rwa [hsame]
    · have hne : t.requestId ≠ r.requestId := by
        intro hid
        rw [← hid] at hknown
        obtain rfl := Option.some.inj ((hc.mapped _ _ hknown).symm.trans ht.1)
        have hterminal := ht.2
        rw [hqueued] at hterminal
        cases hterminal
      simp [hmore, hnot, hne]

/-- No mapped task is waiting or running. -/
def Done (q : TaskQueue) : Prop :=
  ∀ id t, q.taskMap.lookup id = some t → t.status.isTerminal = true

/-- The task of an executing worker has a final record when all mapped tasks do. -/
theorem Once.executing_terminal (hq : q.Once) (hc : q.Consistent) (hdone : q.Done) :
    ∀ e ∈ q.executing, ∀ r, q.recorded e.requestId = some r → r.status.isTerminal = true := by
  intro e he r hr
  by_contra hopen
  rw [Bool.not_eq_true] at hopen
  cases hlookup : q.taskMap.lookup e.requestId with
  | none => exact hq.unmapped _ r hr hlookup hopen (hq.executing e he)
  | some t =>
    obtain rfl := Option.some.inj ((hc.mapped _ _ hlookup).symm.trans hr)
    rw [hdone _ _ hlookup] at hopen
    cases hopen

theorem Replayed.once (h : Replayed q q') (hc : q.Consistent) (hq : q.Once) (hdone : q.Done) :
    q'.Once := by
  refine ⟨by rw [h.executed]; exact hq.nodup, ?_, ?_, ?_, ?_⟩
  · intro id t ht hqueued
    rw [h.lookup] at ht
    obtain ⟨r, hr, rfl⟩ := Option.map_eq_some_iff.mp ht
    have hopen : r.status.isTerminal = false := by
      rw [← requeue_terminal, hqueued]
      rfl
    rw [h.executed]
    cases hlookup : q.taskMap.lookup id with
    | none => exact hq.unmapped id r hr hlookup hopen
    | some known =>
      obtain rfl := Option.some.inj ((hc.mapped _ _ hlookup).symm.trans hr)
      rw [hdone _ _ hlookup] at hopen
      cases hopen
  · intro id t ht hnone
    rw [h.recorded, ← h.lookup, hnone] at ht
    cases ht
  · intro id hid
    rw [h.executed] at hid
    rw [h.recorded, Ne, Option.map_eq_none_iff]
    exact hq.recorded id hid
  · rw [h.executing, h.executed]
    exact hq.executing

/-- Critical sections whose log appends succeed, and starts of a queue that has
nothing left to do. -/
def Event.Orderly (q : TaskQueue) : Event → Prop
  | .call c => c.Admissible q
  | .start io => io.Succeeds ∧ q.Done
  | .stop | .leave => True
  | .crash _ => False

/-- The queue between two events of an orderly run. -/
structure Ordered (q : TaskQueue) : Prop where
  consistent : q.Consistent
  once : q.Once

theorem ordered_of_wal (wal : Option (List TaskInfo)) : Ordered { wal } where
  consistent := consistent_of_wal wal false 0
  once :=
    { nodup := List.nodup_nil
      queued := fun _ _ _ _ => List.not_mem_nil
      unmapped := fun _ _ _ _ _ => List.not_mem_nil
      recorded := nofun
      executing := nofun }

theorem leave_cases (q : TaskQueue) : ∃ workers, leave q = { q with workers } := by
  unfold leave
  split_ifs
  · exact ⟨_, rfl⟩
  · exact ⟨q.workers, rfl⟩

theorem Ordered.workers (hq : q.Ordered) (running : Bool) (workers : ℕ) :
    Ordered { q with running, workers } :=
  ⟨⟨hq.consistent.mapped, hq.consistent.waiting, hq.consistent.waitingOnce,
      hq.consistent.executing, hq.consistent.executingOnce⟩,
    ⟨hq.once.nodup, hq.once.queued, hq.once.unmapped, hq.once.recorded, hq.once.executing⟩⟩

theorem Ordered.after (hq : q.Ordered) (he : e.Orderly q) : (step cfg q e).2.Ordered := by
  cases e with
  | call c =>
    have h := perform_effect cfg hq.consistent he
    exact ⟨h.consistent, h.once hq.once⟩
  | start io =>
    have h := (start_spec cfg hq.consistent he.1).2
    exact ⟨h.consistent hq.consistent he.2 (hq.once.executing_terminal hq.consistent he.2),
      h.once hq.consistent hq.once he.2⟩
  | stop => exact hq.workers false q.workers
  | leave =>
    obtain ⟨workers, hleave⟩ := leave_cases q
    change (leave q).Ordered
    rw [hleave]
    exact hq.workers q.running workers
  | crash io => exact he.elim

/-- Final records stay, and their tasks are not handed to the executor any more. -/
theorem Ordered.settled (hq : q.Ordered) (he : e.Orderly q) (ht : q.Settled t) :
    (step cfg q e).2.Settled t ∧
      (t.requestId ∉ q.executed → t.requestId ∉ (step cfg q e).2.executed) := by
  cases e with
  | call c =>
    have h := perform_effect cfg hq.consistent he
    exact ⟨h.settled ht, h.executed hq.consistent ht⟩
  | start io =>
    have h := (start_spec cfg hq.consistent he.1).2
    exact ⟨h.settled ht, fun hnot => h.executed ▸ hnot⟩
  | stop => exact ⟨ht, id⟩
  | leave =>
    obtain ⟨workers, hleave⟩ := leave_cases q
    change (leave q).Settled t ∧ (_ → _ ∉ (leave q).executed)
    rw [hleave]
    exact ⟨ht, id⟩
  | crash io => exact he.elim

/-- Along orderly runs of one queue object, on any log left by earlier ones: a
terminal entry never changes, no task is executed twice, and a task cancelled
before it was picked up is never executed. -/
theorem taskQueue_final_once (cfg : Config) (wal : Option (List TaskInfo))
    (before after : List Event)
    (hrun : Along (step cfg) (fun q e => e.Orderly q) { wal } (before ++ after)) :
    let earlier := finalState (step cfg) { wal } before
    let later := finalState (step cfg) { wal } (before ++ after)
    (∀ id t t', earlier.taskMap.lookup id = some t → t.status.isTerminal = true →
        later.taskMap.lookup id = some t' → t'.status = t.status) ∧
      later.executed.Nodup ∧
      ∀ id t, earlier.taskMap.lookup id = some t → t.status = .kCancelled →
        id ∉ earlier.executed → id ∉ later.executed := by
  intro earlier later
  obtain ⟨hbefore, hafter⟩ := Along.append.mp hrun
  have hearlier : earlier.Ordered :=
    Along.invariant (I := Ordered) (fun q e hq he => hq.after he) (ordered_of_wal wal) hbefore
  have hlater : later.Ordered :=
    Along.invariant (I := Ordered) (fun q e hq he => hq.after he) (ordered_of_wal wal) hrun
  have hsettled : ∀ t, earlier.Settled t → later.Settled t ∧
      (t.requestId ∉ earlier.executed → t.requestId ∉ later.executed) := by
    intro t ht
    have h := Along.invariant (I := fun q => q.Ordered ∧ q.Settled t ∧
        (t.requestId ∉ earlier.executed → t.requestId ∉ q.executed))
      (fun q e hq he => ⟨hq.1.after he, (hq.1.settled he hq.2.1).1,
        fun hnot => (hq.1.settled he hq.2.1).2 (hq.2.2 hnot)⟩) ⟨hearlier, ht, id⟩ hafter
    rw [← finalState_append] at h
    exact h.2
  refine ⟨fun id t t' ht hterminal ht' => ?_, hlater.once.nodup, fun id t ht hcancelled hnot => ?_⟩
  · have hrecorded := hearlier.consistent.mapped id t ht
    obtain rfl := hearlier.consistent.requestId_eq ht
    have hstays := (hsettled t ⟨hrecorded, hterminal⟩).1.1
    rw [hlater.consistent.mapped _ _ ht'] at hstays
    rw [Option.some.inj hstays]
  · have hrecorded := hearlier.consistent.mapped id t ht
    obtain rfl := hearlier.consistent.requestId_eq ht
    exact (hsettled t ⟨hrecorded, by rw [hcancelled]; rfl⟩).2 hnot

def smallConfig : Config := { taskQueueMax := 4, taskQueueWorkers := 1, walPath := "tasks.wal" }

/-- A task submitted to a started queue is executed and keeps its final state. -/
theorem taskQueue_final_once_started :
    let run : List Event := [.start {}, .call (.submit true [1] [] [] [] 0), .call (.pickUp true 1),
      .call (.finish true (Iteration.inOrder _) 0 (.ok []) 2)]
    (finalState (step smallConfig) {} (run ++ [.stop])).executed.Nodup := by
  intro run
  exact (taskQueue_final_once smallConfig none run [.stop]
    ⟨⟨⟨rfl, rfl, rfl⟩, fun _ _ h => by cases h⟩, ⟨rfl, by decide⟩, rfl, rfl, trivial, trivial⟩).2.1

/-- A task submitted before the start waits twice: it is executed twice, and its
completed state is lost. -/
theorem taskQueue_executes_twice :
    let run : List Event := [.call (.submit true [1] [] [] [] 0), .start {},
      .call (.pickUp true 1), .call (.finish true (Iteration.inOrder _) 0 (.ok []) 2)]
    let completed := finalState (step smallConfig) {} run
    let later := finalState (step smallConfig) {} (run ++ [.call (.pickUp true 3)])
    (completed.taskMap.lookup [1]).map TaskInfo.status = some .kCompleted ∧
      (later.taskMap.lookup [1]).map TaskInfo.status = some .kRunning ∧
      later.executed = [[1], [1]] := by
  decide

end CourseDb.TaskQueue
