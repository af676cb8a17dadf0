import CourseDb.Queue.TaskQueueRuns

/-! # How many final tasks the map holds

Tasks become final when a worker finishes them, when they are cancelled and when
a log is replayed. Only the first of these looks at the size of the map, and it
drops one task at most. The map stays within its limit exactly along the runs in
which no other step goes beyond it.
-/

namespace CourseDb.TaskQueue

open Fallible (bind_apply)
open KeyedLog

variable {cfg : Config} {q : TaskQueue} {m : TaskMap} {id : ByteString} {t : TaskInfo}

/-- The ids of the completed, failed and cancelled tasks of a map. -/
def finalIds (m : TaskMap) : Finset ByteString :=
  (m.keys.filter fun id => (m.lookup id).any fun t => t.status.isTerminal).toFinset

theorem mem_finalIds :
    id ∈ finalIds m ↔ ∃ t, m.lookup id = some t ∧ t.status.isTerminal = true := by
  rw [finalIds, List.mem_toFinset, List.mem_filter, Option.any_eq_true]
  refine ⟨And.right, fun h => ⟨?_, h⟩⟩
  obtain ⟨t, ht, -⟩ := h
  exact AList.mem_keys.mp (AList.lookup_isSome.mp (by rw [ht]; rfl))

theorem finalIds_card_le (m : TaskMap) : (finalIds m).card ≤ m.keys.length :=
  (List.toFinset_card_le _).trans (List.length_filter_le _ _)

theorem finalIds_insert_final (h : t.status.isTerminal = true) :
    finalIds (m.insert id t) = insert id (finalIds m) := by
  ext id'
  rw [Finset.mem_insert, mem_finalIds, mem_finalIds]
  by_cases hid : id' = id
  · subst hid
    simp [h]
  · simp [hid, AList.lookup_insert_ne hid]

theorem finalIds_insert_open (h : t.status.isTerminal = false) :
    finalIds (m.insert id t) = (finalIds m).erase id := by
  ext id'
  rw [Finset.mem_erase, mem_finalIds, mem_finalIds]
  by_cases hid : id' = id
  · subst hid
    simp [h]
  · simp [hid, AList.lookup_insert_ne hid]

theorem finalIds_erase : finalIds (m.erase id) = (finalIds m).erase id := by
  ext id'
  rw [Finset.mem_erase, mem_finalIds, mem_finalIds]
  by_cases hid : id' = id
  · subst hid
    simp
  · simp [hid, AList.lookup_erase_ne hid]

theorem not_mem_finalIds (hlookup : m.lookup id = some t) (hopen : t.status.isTerminal = false) :
    id ∉ finalIds m := by
  rw [mem_finalIds]
  rintro ⟨t', ht', hfinal⟩
  rw [hlookup] at ht'
  cases ht'
  rw [hopen] at hfinal
  cases hfinal

/-- The map holds no more final tasks than it should. -/
def Bounded (q : TaskQueue) : Prop := (finalIds q.taskMap).card ≤ kMaxCompletedResults

def IsOpen (q : TaskQueue) (id : ByteString) : Prop :=
  ∃ t, q.taskMap.lookup id = some t ∧ t.status.isTerminal = false

/-- The tasks that are final after the replay of a log: those whose last record is final, and
those of the map without a record. -/
def finalIdsAfter (m : TaskMap) (log : List TaskInfo) : Finset ByteString :=
  finalIds (collect TaskInfo.requestId log) ∪
    (finalIds m).filter fun id => latest TaskInfo.requestId log id = none

/-- The step takes a full map beyond its limit. -/
def Overflows (q : TaskQueue) : Event → Prop
  | .call (.cancel _ id _) => (finalIds q.taskMap).card = kMaxCompletedResults ∧ q.IsOpen id
  | .call (.finish _ iteration i outcome now) =>
    (finalIds q.taskMap).card = kMaxCompletedResults ∧ ∃ task known,
      q.executing[i]? = some task ∧ q.taskMap.lookup task.requestId = some known ∧
      known.status.isTerminal = false ∧
      -- the walk over the map begins with a task that is open, or with the finished one
      ∀ oldest ∈ (iteration.order
        (q.taskMap.insert task.requestId (finished known outcome now)).entries).head?,
        oldest.2.status.isTerminal = false ∨ oldest.1 = task.requestId
  | .start io => io.reads = true ∧ ∃ log, q.wal = some log ∧
    kMaxCompletedResults < (finalIdsAfter q.taskMap log).card
  | .crash io => io.reads = true ∧ ∃ log, q.wal = some log ∧
    kMaxCompletedResults < (finalIds (collect TaskInfo.requestId log)).card
  | _ => False

theorem logged_taskMap (opens : Bool) (info : TaskInfo) :
    (logged cfg opens info q).taskMap = q.taskMap := by
  cases opens <;> rfl

theorem bounded_insert_open (h : q.Bounded) (ht : t.status.isTerminal = false) :
    (finalIds (q.taskMap.insert id t)).card ≤ kMaxCompletedResults := by
  rw [finalIds_insert_open ht]
  exact (Finset.card_le_card (Finset.erase_subset _ _)).trans h

theorem submit_bounded (h : q.Bounded) (opens : Bool) (id sql database user : ByteString)
    (now : ℤ) : (submit cfg opens id sql database user now q).2.Bounded := by
  cases opens with
  | false =>
    have hkept : (submit cfg false id sql database user now q).2 = q := by
      by_cases hfull : q.pendingQueue.length ≥ cfg.taskQueueMax <;>
        simp [submit, bind_apply, hfull, appendWal]
    rwa [hkept]
  | true =>
    rcases submit_cases cfg id sql database user now q with hkept | ⟨t, -, hqueued, hstored⟩
    · rwa [hkept]
    · rw [hstored]
      exact bounded_insert_open h (by rw [hqueued]; rfl)

theorem pickUp_bounded (h : q.Bounded) (opens : Bool) (now : ℤ) :
    (pickUp cfg opens now q).Bounded := by
  rw [pickUp]
  cases hpending : q.pendingQueue with
  | nil => exact h
  | cons task rest =>
    dsimp only
    split_ifs with hidle
    · cases hlookup : q.taskMap.lookup task.requestId with
      | none =>
        rw [Bounded, logged_taskMap]
        exact h
      | some known =>
        dsimp only
        split_ifs with hcancelled
        · exact h
        · rw [Bounded, logged_taskMap]
          exact bounded_insert_open h rfl
    · exact h

/-- A cancelled task becomes final, whether or not the log can be written. -/
theorem cancel_taskMap (cfg : Config) (opens : Bool) (id : ByteString) (now : ℤ) (q : TaskQueue) :
    (cancel cfg opens id now q).2.taskMap = q.taskMap ∧ ¬ q.IsOpen id ∨
      ∃ t t', q.taskMap.lookup id = some t ∧ t.status.isTerminal = false ∧
        t'.status.isTerminal = true ∧
        (cancel cfg opens id now q).2.taskMap = q.taskMap.insert id t' := by
  cases hlookup : q.taskMap.lookup id with
  | none =>
    left
    simp [cancel, getStatus, bind_apply, IsOpen, hlookup]
  | some t =>
    cases hterminal : t.status.isTerminal with
    | true =>
      left
      simp [cancel, getStatus, bind_apply, IsOpen, hlookup, hterminal]
    | false =>
      refine .inr ⟨t, { t with status := .kCancelled, finishedMs := now }, rfl, hterminal, rfl, ?_⟩
      cases opens <;>
        simp [cancel, getStatus, bind_apply, hlookup, hterminal, appendWal]

theorem cancel_bounded_iff (h : q.Bounded) (opens : Bool) (now : ℤ) :
    (cancel cfg opens id now q).2.Bounded ↔ ¬ q.Overflows (.call (.cancel opens id now)) := by
  rcases cancel_taskMap cfg opens id now q with
    ⟨hmap, hopen⟩ | ⟨t, t', hlookup, hopen, hfinal, hmap⟩
  · rw [Bounded, hmap]
    exact iff_of_true h fun hover => hopen hover.2
  · have hnew := not_mem_finalIds hlookup hopen
    rw [Bounded, hmap, finalIds_insert_final hfinal, Finset.card_insert_of_notMem hnew]
    have hiff : q.Overflows (.call (.cancel opens id now)) ↔
        (finalIds q.taskMap).card = kMaxCompletedResults :=
      ⟨And.left, fun hfull => ⟨hfull, t, hlookup, hopen⟩⟩
    rw [Bounded] at h
    rw [hiff]
    omega

theorem evict_taskMap {iteration : TaskIteration} (id : ByteString)
    (hfull : kMaxCompletedResults < q.taskMap.keys.length) :
    ∃ oldest ∈ q.taskMap.entries, (iteration.order q.taskMap.entries).head? = some oldest ∧
      (evict iteration id q).taskMap =
        if oldest.2.status.isTerminal ∧ oldest.1 ≠ id then q.taskMap.erase oldest.1
        else q.taskMap := by
  have hperm := iteration.perm q.taskMap.entries
  cases horder : iteration.order q.taskMap.entries with
  | nil =>
    rw [horder] at hperm
    have hempty : q.taskMap.keys = [] := by
      rw [AList.keys, hperm.symm.eq_nil]
      rfl
    rw [hempty] at hfull
    cases hfull
  | cons oldest rest =>
    refine ⟨oldest, hperm.subset (horder ▸ List.mem_cons_self), rfl, ?_⟩
    rw [evict, if_pos hfull, horder]
    dsimp only
    split_ifs <;> rfl

theorem evict_bounded (iteration : TaskIteration) (h : q.Bounded) :
    (evict iteration id q).Bounded := by
  obtain hkept | ⟨id', t, -, -, herased⟩ : evict iteration id q = q ∨ _ := evict_cases iteration q
  · rwa [hkept]
  · rw [herased, Bounded, finalIds_erase]
    exact (Finset.card_le_card (Finset.erase_subset _ _)).trans h

theorem finish_taskMap (cfg : Config) (opens : Bool)
    (iteration : TaskIteration) (i : ℕ) (outcome : Outcome) (now : ℤ)
    (q : TaskQueue) :
    (finish cfg opens iteration i outcome now q).taskMap = q.taskMap ∧
        (∀ task known, q.executing[i]? = some task →
          q.taskMap.lookup task.requestId = some known → known.status = .kCancelled) ∨
      ∃ task known q', q.executing[i]? = some task ∧
        q.taskMap.lookup task.requestId = some known ∧
        q'.taskMap = q.taskMap.insert task.requestId (finished known outcome now) ∧
        finish cfg opens iteration i outcome now q = evict iteration task.requestId q' := by
  rw [finish]
  cases htask : q.executing[i]? with
  | none => exact .inl ⟨rfl, fun _ _ h => by cases h⟩
  | some task =>
    dsimp only
    cases hlookup : q.taskMap.lookup task.requestId with
    | none =>
      refine .inl ⟨rfl, fun task' known htask' hknown => ?_⟩
      cases htask'
      rw [hlookup] at hknown
      cases hknown
    | some known =>
      dsimp only
      by_cases hcancelled : known.status = .kCancelled
      · rw [if_pos hcancelled]
        refine .inl ⟨rfl, fun task' known' htask' hknown => ?_⟩
        cases htask'
        rw [hlookup] at hknown
        cases hknown
        exact hcancelled
      · rw [if_neg hcancelled]
        exact .inr ⟨task, known, _, rfl, hlookup, logged_taskMap _ _, rfl⟩

theorem finish_bounded_iff (h : q.Bounded) (opens : Bool)
    (iteration : TaskIteration) (i : ℕ) (outcome : Outcome) (now : ℤ) :
    (finish cfg opens iteration i outcome now q).Bounded ↔
      ¬ q.Overflows (.call (.finish opens iteration i outcome now)) := by
  rcases finish_taskMap cfg opens iteration i outcome now q with
    ⟨hmap, hcancelled⟩ | ⟨task, known, q', htask, hlookup, hmap, hfinish⟩
  · rw [Bounded, hmap]
    refine iff_of_true h ?_
    rintro ⟨-, task, known, htask, hlookup, hopen, -⟩
    rw [hcancelled task known htask hlookup] at hopen
    cases hopen
  · have hfinal : (finalIds q'.taskMap) = insert task.requestId (finalIds q.taskMap) := by
      rw [hmap, finalIds_insert_final (finished_terminal known outcome now)]
    rw [hfinish]
    by_cases hover : known.status.isTerminal = false ∧
        (finalIds q.taskMap).card = kMaxCompletedResults
    · -- the map is full, so that the walk over it decides
      obtain ⟨hopen, hcard⟩ := hover
      have hcard' : (finalIds q'.taskMap).card = kMaxCompletedResults + 1 := by
        rw [hfinal, Finset.card_insert_of_notMem (not_mem_finalIds hlookup hopen), hcard]
      have hfull : kMaxCompletedResults < q'.taskMap.keys.length := by
        have := finalIds_card_le q'.taskMap
        omega
      obtain ⟨oldest, hmem, hhead, hevict⟩ := evict_taskMap task.requestId hfull
      have hlookup' : q'.taskMap.lookup oldest.1 = some oldest.2 := AList.mem_lookup_iff.mpr hmem
      rw [Bounded, hevict]
      split_ifs with hdrop
      · have hin : oldest.1 ∈ finalIds q'.taskMap := mem_finalIds.mpr ⟨_, hlookup', hdrop.1⟩
        rw [finalIds_erase, Finset.card_erase_of_mem hin, hcard']
        refine iff_of_true le_rfl ?_
        rintro ⟨-, task', known', htask', hknown', -, hwalk⟩
        rw [htask] at htask'
        cases htask'
        rw [hlookup] at hknown'
        cases hknown'
        rw [← hmap, hhead] at hwalk
        rcases hwalk oldest rfl with hopen' | hself
        · rw [hopen'] at hdrop
          cases hdrop.1
        · exact hdrop.2 hself
      · rw [hcard']
        refine iff_of_false (by omega) (not_not_intro ⟨hcard, task, known, htask, hlookup, hopen, ?_⟩)
        intro first hfirst
        rw [← hmap, hhead] at hfirst
        cases hfirst
        rw [not_and_or, not_not, Bool.not_eq_true] at hdrop
        exact hdrop
    · refine iff_of_true (evict_bounded iteration ?_) ?_
      · rw [Bounded, hfinal]
        rw [Bounded] at h
        cases hopen : known.status.isTerminal with
        | true =>
          rwa [Finset.insert_eq_self.mpr (mem_finalIds.mpr ⟨known, hlookup, hopen⟩)]
        | false =>
          have hlt : (finalIds q.taskMap).card ≠ kMaxCompletedResults := fun hcard =>
            hover ⟨hopen, hcard⟩
          exact (Finset.card_insert_le _ _).trans (by omega)
      · rintro ⟨hcard, task', known', htask', hknown', hopen, -⟩
        rw [htask] at htask'
        cases htask'
        rw [hlookup] at hknown'
        cases hknown'
        exact hover ⟨hopen, hcard⟩

theorem replayWal_finalIds (cfg : Config) (io : ReplayIo) (q : TaskQueue) :
    finalIds (replayWal cfg io q).2.taskMap =
      match q.wal with
      | none => finalIds q.taskMap
      | some log => if io.reads then finalIdsAfter q.taskMap log else finalIds q.taskMap := by
  cases hwal : q.wal with
  | none => simp [replayWal, bind_apply, hwal]
  | some log =>
    dsimp only
    split_ifs with hreads
    · have hmap : (replayWal cfg io q).2.taskMap = insertAll q.taskMap
          ((io.latestOrder.order (collect TaskInfo.requestId log).entries).map
            fun e => ⟨e.1, requeue e.2⟩) := by
        cases hwrites : io.writes <;> cases hrenames : io.renames <;>
          simp [replayWal, bind_apply, hwal, hreads, hwrites, hrenames, foldl_replayEntry]
      rw [hmap]
      ext id
      rw [mem_finalIds, lookup_insertAll_map (io.latestOrder.perm _) requeue id, finalIdsAfter,
        Finset.mem_union, Finset.mem_filter, mem_finalIds, mem_finalIds, latest]
      cases (collect TaskInfo.requestId log).lookup id with
      | none => simp
      | some t => simp [requeue_terminal]
    · simp [replayWal, bind_apply, hwal, hreads]

theorem start_taskMap (cfg : Config) (io : ReplayIo) (q : TaskQueue) :
    (start cfg io q).2.taskMap = (replayWal cfg io q).2.taskMap := by
  rw [start, bind_apply]
  rcases replayWal cfg io q with ⟨e | u, q'⟩ <;> rfl

theorem start_bounded_iff (h : q.Bounded) (io : ReplayIo) :
    (start cfg io q).2.Bounded ↔ ¬ q.Overflows (.start io) := by
  rw [Bounded, start_taskMap, replayWal_finalIds]
  cases hwal : q.wal with
  | none =>
    refine iff_of_true h ?_
    rintro ⟨-, log, hlog, -⟩
    rw [hwal] at hlog
    cases hlog
  | some log =>
    split_ifs with hreads
    · have hiff : q.Overflows (.start io) ↔
          kMaxCompletedResults < (finalIdsAfter q.taskMap log).card := by
        refine ⟨?_, fun hlt => ⟨hreads, log, hwal, hlt⟩⟩
        rintro ⟨-, log', hlog, hlt⟩
        rw [hwal] at hlog
        cases hlog
        exact hlt
      rw [hiff, not_lt]
    · exact iff_of_true h fun hover => hreads hover.1

theorem restart_bounded_iff (io : ReplayIo) :
    (restart cfg io q).2.Bounded ↔ ¬ q.Overflows (.crash io) := by
  have hempty : finalIds (∅ : TaskMap) = ∅ := rfl
  have hnew : Bounded { wal := q.wal } := Nat.zero_le _
  rw [restart, start_bounded_iff hnew]
  simp only [Overflows, finalIdsAfter, hempty, Finset.filter_empty, Finset.union_empty]

/-- The steps that take a map within its limit beyond it. -/
theorem step_bounded_iff (h : q.Bounded) (e : Event) :
    (step cfg q e).2.Bounded ↔ ¬ q.Overflows e := by
  cases e with
  | call c =>
    cases c with
    | submit opens id sql database user now =>
      exact iff_of_true (submit_bounded h opens id sql database user now) not_false
    | cancel opens id now => exact cancel_bounded_iff h opens now
    | pickUp opens now => exact iff_of_true (pickUp_bounded h opens now) not_false
    | finish opens iteration i outcome now => exact finish_bounded_iff h opens iteration i outcome now
  | start io => exact start_bounded_iff h io
  | stop => exact iff_of_true h not_false
  | leave =>
    obtain ⟨workers, hleave⟩ := leave_cases q
    rw [step, hleave]
    exact iff_of_true h not_false
  | crash io => exact restart_bounded_iff io

/-- A queue on any log stays within the limit throughout a run exactly if no step of the run
goes beyond it. -/
theorem taskQueue_bounded_iff (cfg : Config) (wal : Option (List TaskInfo)) (run : List Event) :
    (∀ done, done <+: run → (finalState (step cfg) { wal } done).Bounded) ↔
      Along (step cfg) (fun q e => ¬ q.Overflows e) { wal } run := by
  have hnew : Bounded { wal } := Nat.zero_le _
  have hall : Along (step cfg) (fun _ _ => True) { wal } run :=
    Along.of_forall_mem fun _ _ => trivial
  have hkeep : ∀ q e, Bounded q → True → ¬ Overflows q e → Bounded (step cfg q e).2 :=
    fun q e h _ hfits => (step_bounded_iff h e).mpr hfits
  have hover : ∀ q e, Bounded q → True → Overflows q e → ¬ Bounded (step cfg q e).2 :=
    fun q e h _ hover hbounded => (step_bounded_iff h e).mp hbounded hover
  exact Along.forall_prefix_iff (fun _ h => h) hkeep hover hnew hall

/-! ## Cancelled tasks stay -/

/-- Submit tasks with new ids and cancel each at once. -/
def cancelRounds (n : ℕ) : List Event :=
  (List.range n).flatMap fun i =>
    [.call (.submit true (List.replicate i 0) [] [] [] 0), .call (.cancel true (List.replicate i 0) 0)]

theorem submit_cancel (hpending : q.pendingQueue = []) (id : ByteString) :
    let q' := finalState (step smallConfig) q
      [.call (.submit true id [] [] [] 0), .call (.cancel true id 0)]
    q'.pendingQueue = [] ∧ finalIds q'.taskMap = insert id (finalIds q.taskMap) := by
  intro q'
  have hq' : q' = (cancel smallConfig true id 0
      (submit smallConfig true id [] [] [] 0 q).2).2 := rfl
  rw [hq']
  constructor
  · simp [submit, cancel, getStatus, bind_apply, appendWal, hpending, smallConfig,
      TaskStatus.isTerminal]
  · simp [submit, cancel, getStatus, bind_apply, appendWal, hpending, smallConfig,
      TaskStatus.isTerminal, finalIds_insert_final]

theorem finalIds_cancelRounds (n : ℕ) :
    (finalState (step smallConfig) {} (cancelRounds n)).pendingQueue = [] ∧
      finalIds (finalState (step smallConfig) {} (cancelRounds n)).taskMap =
        (Finset.range n).image fun i => List.replicate i 0 := by
  induction n with
  | zero => exact ⟨rfl, rfl⟩
  | succ n ih =>
    obtain ⟨hpending, hfinal⟩ := ih
    have hrounds : cancelRounds (n + 1) = cancelRounds n ++
        [.call (.submit true (List.replicate n 0) [] [] [] 0),
          .call (.cancel true (List.replicate n 0) 0)] := by
      simp [cancelRounds, List.range_succ]
    rw [hrounds, finalState_append]
    obtain ⟨hpending', hfinal'⟩ := submit_cancel hpending (List.replicate n 0)
    refine ⟨hpending', ?_⟩
    rw [hfinal', hfinal, Finset.range_add_one, Finset.image_insert]

/-- One more cancelled task than the limit allows. -/
theorem taskQueue_exceeds_limit :
    (finalIds (finalState (step smallConfig) {}
      (cancelRounds (kMaxCompletedResults + 1))).taskMap).card = kMaxCompletedResults + 1 := by
  rw [(finalIds_cancelRounds _).2, Finset.card_image_of_injective, Finset.card_range]
  exact fun i j h => by simpa using congrArg List.length h

end CourseDb.TaskQueue
