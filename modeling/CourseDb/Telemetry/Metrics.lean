import CourseDb.Common.Value
import CourseDb.Lib.Tally
import Mathlib.Data.Int.Interval
import Mathlib.Data.Nat.Size
import Mathlib.Data.Rat.Defs

/-! # Metrics of a node

Requests are counted in one bucket for each second, in a deque that forgets the
seconds before a window. A double is the number that it stands for. Quotients
and percentiles are taken exactly; a count is rounded when it becomes a double.

The buckets are compared with a recount of the history. The counts of all
seconds in the window are right; what a snapshot reports as the error rate of
the last minute is that of the last 61 seconds.
-/

namespace CourseDb

/-- The readings of the clock in one call, in seconds and in milliseconds. -/
structure Reading where
  sec : ℤ
  ms : ℤ

/-- The counts of one second are `std::uint64_t` values. -/
structure SecondBucket where
  secondTs : ℤ
  count : ℕ
  errors : ℕ

structure MetricsSnapshot where
  nodeId : ByteString
  rpsCurrent : ℚ
  rpsAvg10min : ℚ
  rpsMax10min : ℚ
  latencyAvgMs : ℚ
  latencyP95Ms : ℚ
  latencyP99Ms : ℚ
  errorRate1min : ℚ
  totalRequests : ℕ
  totalErrors : ℕ
  snapshotTimestamp : ℤ

structure NodeMetrics where
  nodeId : ByteString
  windowSeconds : ℤ := 600
  latencyWindowSeconds : ℤ := 10
  buckets : List SecondBucket := []
  latencyBuf : List ℤ := []
  latencyTs : List ℤ := []
  totalRequests : ℕ := 0
  totalErrors : ℕ := 0

namespace NodeMetrics

/-- `static_cast<double>` of a count: 53 binary digits, rounded to the nearest, ties to even. -/
def toDouble (n : ℕ) : ℕ :=
  let ulp := 2 ^ (n.size - 53)
  let below := n / ulp
  if 2 * (n % ulp) < ulp ∨ 2 * (n % ulp) = ulp ∧ below % 2 = 0 then
    below * ulp
  else
    (below + 1) * ulp

def increment (n : ℕ) : ℕ := (n + 1) % 2 ^ 64

/-- A sum of `std::uint64_t` values. -/
def sum64 (counts : List ℕ) : ℕ := counts.foldl (fun sum count => (sum + count) % 2 ^ 64) 0

def advanceBuckets (nowSec : ℤ) (m : NodeMetrics) : NodeMetrics :=
  let buckets :=
    if m.buckets.getLast?.all fun bucket => bucket.secondTs < nowSec then
      m.buckets ++ [⟨nowSec, 0, 0⟩]
    else
      m.buckets
  let cutoff := nowSec - m.windowSeconds
  { m with buckets := buckets.dropWhile fun bucket => bucket.secondTs ≤ cutoff }

/-- The loop that pops both deques while the oldest latency is out of the window. -/
def expireLatencies (nowMs : ℤ) (m : NodeMetrics) : NodeMetrics :=
  let cutoff := nowMs - m.latencyWindowSeconds * 1000
  let expired := (m.latencyTs.takeWhile fun ts => ts < cutoff).length
  { m with latencyTs := m.latencyTs.drop expired, latencyBuf := m.latencyBuf.drop expired }

def countRequest (isError : Bool) (bucket : SecondBucket) : SecondBucket :=
  { bucket with
    count := increment bucket.count
    errors := if isError then increment bucket.errors else bucket.errors }

/-- Count a request in `buckets_.back()`, which an empty deque does not have. -/
def addToBack (isError : Bool) (buckets : List SecondBucket) : Option (List SecondBucket) :=
  buckets.getLast?.map fun bucket => buckets.dropLast ++ [countRequest isError bucket]

/-- The result is `none` if the call touches the back of an empty deque. -/
def recordRequest (now : Reading) (durationMs : ℤ) (isError : Bool) (m : NodeMetrics) :
    Option NodeMetrics := do
  let m := { m with
    totalRequests := increment m.totalRequests
    totalErrors := if isError then increment m.totalErrors else m.totalErrors }
  let m := m.advanceBuckets now.sec
  let buckets ← addToBack isError m.buckets
  return expireLatencies now.ms { m with
    buckets
    latencyBuf := m.latencyBuf ++ [durationMs]
    latencyTs := m.latencyTs ++ [now.ms] }

/-- The requests in the window over the seconds since its first bucket. -/
def averageRate (nowSec : ℤ) : List SecondBucket → ℚ
  | [] => 0
  | front :: buckets =>
    sum64 ((front :: buckets).map SecondBucket.count) / max 1 (nowSec - front.secondTs + 1)

def maxRate (buckets : List SecondBucket) : ℕ := (buckets.map SecondBucket.count).foldl max 0

def errorRate (nowSec : ℤ) (buckets : List SecondBucket) : ℚ :=
  let recent := buckets.filter fun bucket => nowSec - 60 ≤ bucket.secondTs
  let errors := sum64 (recent.map SecondBucket.errors)
  let total := sum64 (recent.map SecondBucket.count)
  if 0 < total then errors / total else 0

/-- The element of a sorted list at a percentage of its last index. -/
def percentile (percent : ℕ) (sorted : List ℤ) : ℤ :=
  sorted.getD (percent * (sorted.length - 1) / 100) 0

def snapshot (now : Reading) (m : NodeMetrics) : MetricsSnapshot × NodeMetrics :=
  let m := (m.advanceBuckets now.sec).expireLatencies now.ms
  let sorted := m.latencyBuf.mergeSort
  ({ nodeId := m.nodeId
     rpsCurrent := toDouble ((m.buckets.getLast?.map SecondBucket.count).getD 0)
     rpsAvg10min := averageRate now.sec m.buckets
     rpsMax10min := toDouble (maxRate m.buckets)
     latencyAvgMs := sorted.sum / sorted.length
     latencyP95Ms := percentile 95 sorted
     latencyP99Ms := percentile 99 sorted
     errorRate1min := errorRate now.sec m.buckets
     totalRequests := m.totalRequests
     totalErrors := m.totalErrors
     snapshotTimestamp := now.ms },
   m)

/-- A call of the object, at a reading of the clock. -/
inductive Call where
  | recordRequest (now : Reading) (durationMs : ℤ) (isError : Bool)
  | snapshot (now : Reading)

namespace Call

def now : Call → Reading
  | recordRequest now _ _ => now
  | snapshot now => now

def isRequest : Call → Bool
  | recordRequest .. => true
  | snapshot _ => false

def isError : Call → Bool
  | recordRequest _ _ isError => isError
  | snapshot _ => false

end Call

def step (m : NodeMetrics) : Call → Option NodeMetrics
  | .recordRequest now durationMs isError => m.recordRequest now durationMs isError
  | .snapshot now => some (m.snapshot now).2

def run (m : NodeMetrics) (calls : List Call) : Option NodeMetrics := calls.foldlM step m

end NodeMetrics

end CourseDb

namespace CourseDb.NodeMetrics

open Tally
open Call (isRequest)

variable {m : NodeMetrics} {calls : List Call} {W last T : ℤ} {secs : List ℤ}

def Call.sec (call : Call) : ℤ := call.now.sec

/-- The clock does not go back in the history. -/
def Nondecreasing (calls : List Call) : Prop := calls.Pairwise fun a b => a.sec ≤ b.sec

/-- The requests of the history in one second. -/
def requestsAt (calls : List Call) (sec : ℤ) : ℕ := countAt Call.sec isRequest calls sec

def errorsAt (calls : List Call) (sec : ℤ) : ℕ := countAt Call.sec Call.isError calls sec

/-- The requests of the history in some of the seconds. -/
def requestsIn (calls : List Call) (secs : Finset ℤ) : ℕ :=
  countIn Call.sec isRequest calls secs

def errorsIn (calls : List Call) (secs : Finset ℤ) : ℕ := countIn Call.sec Call.isError calls secs

/-- The last seconds up to and including one. -/
noncomputable def lastSeconds (T length : ℤ) : Finset ℤ := Finset.Icc (T - length + 1) T

/-- What a snapshot should report about the history. -/
structure Recounts (snap : MetricsSnapshot) (calls : List Call) (W T : ℤ) : Prop where
  totalRequests_eq : snap.totalRequests = calls.countP isRequest
  totalErrors_eq : snap.totalErrors = calls.countP Call.isError
  rpsCurrent_eq : snap.rpsCurrent = requestsAt calls T
  rpsMax_eq : snap.rpsMax10min = ((lastSeconds T W).sup (requestsAt calls) : ℕ)
  errorRate_eq : snap.errorRate1min =
    (errorsIn calls (lastSeconds T (min W 60)) : ℚ) / requestsIn calls (lastSeconds T (min W 60))

/-- The second before the last sixty does not change the error rate of these. -/
def SameErrorRate (calls : List Call) (T : ℤ) : Prop :=
  errorsAt calls (T - 60) * requestsIn calls (lastSeconds T 60) =
      errorsIn calls (lastSeconds T 60) * requestsAt calls (T - 60) ∧
    (requestsIn calls (lastSeconds T 60) = 0 → errorsAt calls (T - 60) = 0)

theorem Call.isRequest_of_isError (call : Call) (h : call.isError = true) :
    call.isRequest = true := by
  cases call with
  | recordRequest now durationMs isError => rfl
  | snapshot now => cases h

theorem errorsAt_le (calls : List Call) (sec : ℤ) : errorsAt calls sec ≤ requestsAt calls sec :=
  countAt_mono Call.isRequest_of_isError sec

theorem errorsIn_le (calls : List Call) (S : Finset ℤ) : errorsIn calls S ≤ requestsIn calls S := by
  rw [errorsIn, requestsIn, countIn_eq_sum, countIn_eq_sum]
  exact Finset.sum_le_sum fun sec _ => errorsAt_le calls sec

section Buckets

variable {now : Reading}

/-- The bucket that a second of the history should have. -/
def bucketOf (calls : List Call) (sec : ℤ) : SecondBucket :=
  ⟨sec, requestsAt calls sec % 2 ^ 64, errorsAt calls sec % 2 ^ 64⟩

/-- The buckets are those of some seconds, in order; the other seconds of the window have no
requests. -/
structure Counts (W : ℤ) (calls : List Call) (last : ℤ) (m : NodeMetrics) (secs : List ℤ) :
    Prop where
  window_eq : m.windowSeconds = W
  totalRequests_eq : m.totalRequests = calls.countP isRequest % 2 ^ 64
  totalErrors_eq : m.totalErrors = calls.countP Call.isError % 2 ^ 64
  increasing : secs.Pairwise (· < ·)
  buckets_eq : m.buckets = secs.map (bucketOf calls)
  le_last : ∀ sec ∈ secs, sec ≤ last
  complete : ∀ sec, last - W < sec → sec ∉ secs → requestsAt calls sec = 0

theorem Counts.mono (h : Counts W calls last m secs) (hle : last ≤ T) : Counts W calls T m secs :=
  { h with
    le_last := fun sec hsec => (h.le_last sec hsec).trans hle
    complete := fun sec hsec => h.complete sec (by omega) }

theorem bucketOf_of_no_requests {sec : ℤ} (h : requestsAt calls sec = 0) :
    bucketOf calls sec = ⟨sec, 0, 0⟩ := by
  have herrors : errorsAt calls sec = 0 := Nat.le_zero.mp (h ▸ errorsAt_le calls sec)
  rw [bucketOf, h, herrors]
  rfl

theorem Counts.push (h : Counts W calls last m secs) (hW : 1 ≤ W) (hle : last ≤ T) :
    ∃ earlier, (earlier ++ [T]).Pairwise (· < ·) ∧ (∀ sec ∈ secs, sec ∈ earlier ++ [T]) ∧
      (if m.buckets.getLast?.all fun bucket => bucket.secondTs < T then
          m.buckets ++ [⟨T, 0, 0⟩]
        else
          m.buckets) = (earlier ++ [T]).map (bucketOf calls) := by
  have hnone (hnot : T ∉ secs) : bucketOf calls T = ⟨T, 0, 0⟩ :=
    bucketOf_of_no_requests (h.complete T (by omega) hnot)
  rw [h.buckets_eq]
  rcases List.eq_nil_or_concat' secs with rfl | ⟨init, back, rfl⟩
  · refine ⟨[], by simp, by simp, ?_⟩
    simp [hnone]
  have hinc := h.increasing
  rcases ((h.le_last back (by simp)).trans hle).lt_or_eq with hlt | rfl
  · have hall : ∀ sec ∈ init ++ [back], sec < T := by
      intro sec hsec
      rcases List.mem_append.mp hsec with hinit | hsec
      · have hsec := (List.pairwise_append.mp hinc).2.2 sec hinit back (by simp)
        omega
      · rwa [List.mem_singleton.mp hsec]
    refine ⟨init ++ [back], List.pairwise_append.mpr ⟨hinc, by simp, ?_⟩, ?_, ?_⟩
    · simpa using hall
    · exact fun sec hsec => List.mem_append_left _ hsec
    · have hT : T ∉ init ++ [back] := fun hmem => lt_irrefl T (hall T hmem)
      have hlast : ((init ++ [back]).map (bucketOf calls)).getLast? = some (bucketOf calls back) := by
        simp
      rw [hlast, if_pos (by exact decide_eq_true hlt)]
      simp [hnone hT]
  · refine ⟨init, hinc, fun sec hsec => hsec, ?_⟩
    simp [bucketOf]

/-- After `AdvanceBuckets` the last bucket is that of this second and the others are in the
window. -/
theorem Counts.advance (h : Counts W calls last m secs) (hW : 1 ≤ W) (hle : last ≤ T) :
    ∃ earlier, Counts W calls T (m.advanceBuckets T) (earlier ++ [T]) ∧
      ∀ sec ∈ earlier ++ [T], T - W < sec := by
  obtain ⟨earlier, hinc, hsub, hbuckets⟩ := h.push hW hle
  have hkept : (earlier ++ [T]).filter (fun sec => T - W < sec) =
      earlier.filter (fun sec => T - W < sec) ++ [T] := by
    have hT : T - W < T := by omega
    rw [List.filter_append, List.filter_singleton, decide_eq_true hT]
    rfl
  have hdrop : (m.advanceBuckets T).buckets =
      ((earlier ++ [T]).filter fun sec => T - W < sec).map (bucketOf calls) := by
    have hsorted : ((earlier ++ [T]).map (bucketOf calls)).Pairwise fun a b =>
        decide (b.secondTs ≤ T - W) = true → decide (a.secondTs ≤ T - W) = true := by
      refine List.pairwise_map.mpr (hinc.imp fun {a b} hlt hb => ?_)
      have hb' : b ≤ T - W := of_decide_eq_true hb
      exact decide_eq_true (show a ≤ T - W by omega)
    change List.dropWhile (fun bucket => decide (bucket.secondTs ≤ T - m.windowSeconds))
      (if m.buckets.getLast?.all fun bucket => bucket.secondTs < T then
        m.buckets ++ [⟨T, 0, 0⟩] else m.buckets) = _
    rw [hbuckets, h.window_eq, dropWhile_eq_filter hsorted, List.filter_map]
    congr 1
    refine List.filter_congr fun sec _ => ?_
    change (!decide (sec ≤ T - W)) = decide (T - W < sec)
    rw [← decide_not, decide_eq_decide, not_le]
  refine ⟨earlier.filter fun sec => T - W < sec, ?_, ?_⟩
  · rw [← hkept]
    exact
      { window_eq := h.window_eq
        totalRequests_eq := h.totalRequests_eq
        totalErrors_eq := h.totalErrors_eq
        increasing := hinc.filter _
        buckets_eq := hdrop
        le_last := by
          intro sec hsec
          rcases List.mem_append.mp (List.mem_filter.mp hsec).1 with hearlier | hsec
          · exact ((List.pairwise_append.mp hinc).2.2 sec hearlier T (by simp)).le
          · exact (List.mem_singleton.mp hsec).le
        complete := by
          intro sec hsec hnot
          refine h.complete sec (by omega) fun hmem => hnot ?_
          exact List.mem_filter.mpr ⟨hsub sec hmem, decide_eq_true hsec⟩ }
  · rw [← hkept]
    intro sec hsec
    simpa using (List.mem_filter.mp hsec).2

theorem Counts.expireLatencies (h : Counts W calls last m secs) (nowMs : ℤ) :
    Counts W calls last (m.expireLatencies nowMs) secs := { h with }

theorem increment_mod (n : ℕ) : increment (n % 2 ^ 64) = (n + 1) % 2 ^ 64 := by
  unfold increment
  omega

theorem bucketOf_record (now : Reading) (durationMs : ℤ) (isError : Bool) (sec : ℤ) :
    bucketOf (calls ++ [.recordRequest now durationMs isError]) sec =
      if now.sec = sec then countRequest isError (bucketOf calls sec) else bucketOf calls sec := by
  simp only [bucketOf, requestsAt, errorsAt, countAt_append_singleton, isRequest, Call.isError,
    Call.sec, Call.now, true_and]
  by_cases hsec : now.sec = sec
  · cases isError <;>
      simp only [hsec, countRequest, increment_mod, and_true, Bool.false_eq_true, if_true, if_false,
        Nat.add_zero]
  · simp only [hsec, and_false, if_false, Nat.add_zero]

theorem addToBack_concat (isError : Bool) (buckets : List SecondBucket) (back : SecondBucket) :
    addToBack isError (buckets ++ [back]) = some (buckets ++ [countRequest isError back]) := by
  simp [addToBack]

theorem recordRequest_eq {isError : Bool} {buckets : List SecondBucket}
    (h : addToBack isError (m.advanceBuckets now.sec).buckets = some buckets) (durationMs : ℤ) :
    m.recordRequest now durationMs isError =
      some (expireLatencies now.ms { m.advanceBuckets now.sec with
        totalRequests := increment m.totalRequests
        totalErrors := if isError then increment m.totalErrors else m.totalErrors
        buckets
        latencyBuf := m.latencyBuf ++ [durationMs]
        latencyTs := m.latencyTs ++ [now.ms] }) := by
  change (addToBack isError (m.advanceBuckets now.sec).buckets).bind _ = _
  rw [h]
  rfl

theorem Counts.record (h : Counts W calls last m secs) (hW : 1 ≤ W) (hle : last ≤ now.sec)
    (durationMs : ℤ) (isError : Bool) :
    ∃ m' secs', m.recordRequest now durationMs isError = some m' ∧
      Counts W (calls ++ [.recordRequest now durationMs isError]) now.sec m' secs' := by
  obtain ⟨earlier, hcounts, -⟩ := h.advance hW hle
  have hother : ∀ sec ∈ earlier, now.sec ≠ sec := by
    intro sec hsec
    exact ((List.pairwise_append.mp hcounts.increasing).2.2 sec hsec now.sec (by simp)).ne'
  have hback : addToBack isError (m.advanceBuckets now.sec).buckets =
      some ((earlier ++ [now.sec]).map
        (bucketOf (calls ++ [.recordRequest now durationMs isError]))) := by
    have hearlier : earlier.map (bucketOf (calls ++ [.recordRequest now durationMs isError])) =
        earlier.map (bucketOf calls) := by
      refine List.map_congr_left fun sec hsec => ?_
      rw [bucketOf_record, if_neg (hother sec hsec)]
    rw [hcounts.buckets_eq, List.map_append, List.map_append, List.map_singleton,
      List.map_singleton, addToBack_concat, hearlier, bucketOf_record, if_pos rfl]
  refine ⟨_, earlier ++ [now.sec], recordRequest_eq hback durationMs,
    Counts.expireLatencies ?_ now.ms⟩
  exact
    { window_eq := h.window_eq
      totalRequests_eq := by
        rw [h.totalRequests_eq, increment_mod, List.countP_append]
        rfl
      totalErrors_eq := by
        rw [h.totalErrors_eq, List.countP_append]
        cases isError with
        | false => rfl
        | true => exact increment_mod _
      increasing := hcounts.increasing
      buckets_eq := rfl
      le_last := hcounts.le_last
      complete := by
        intro sec hsec hnot
        have hne : now.sec ≠ sec := fun heq => hnot (by simp [heq])
        rw [requestsAt, countAt_append_singleton, if_neg fun hc => hne hc.2]
        exact hcounts.complete sec hsec hnot }

theorem Counts.snapshot (h : Counts W calls last m secs) (hW : 1 ≤ W) (hle : last ≤ now.sec) :
    ∃ secs', Counts W (calls ++ [.snapshot now]) now.sec (m.snapshot now).2 secs' := by
  obtain ⟨earlier, hcounts, -⟩ := h.advance hW hle
  have hrequests (sec : ℤ) : requestsAt (calls ++ [.snapshot now]) sec = requestsAt calls sec := by
    rw [requestsAt, countAt_append_singleton]
    rfl
  have herrors (sec : ℤ) : errorsAt (calls ++ [.snapshot now]) sec = errorsAt calls sec := by
    rw [errorsAt, countAt_append_singleton]
    rfl
  refine ⟨earlier ++ [now.sec], Counts.expireLatencies ?_ now.ms⟩
  exact
    { hcounts with
      totalRequests_eq := by
        rw [List.countP_append]
        exact hcounts.totalRequests_eq
      totalErrors_eq := by
        rw [List.countP_append]
        exact hcounts.totalErrors_eq
      buckets_eq := by
        rw [hcounts.buckets_eq]
        refine List.map_congr_left fun sec _ => ?_
        rw [bucketOf, bucketOf, hrequests, herrors]
      complete := by
        intro sec hsec hnot
        rw [hrequests]
        exact hcounts.complete sec hsec hnot }

/-- No history touches an empty deque, and the buckets count it. -/
theorem run_counts (nodeId : ByteString) (hW : 1 ≤ W) (hmono : Nondecreasing calls) :
    ∃ m secs, run { nodeId, windowSeconds := W } calls = some m ∧
      ∀ last, (∀ call ∈ calls, call.sec ≤ last) → Counts W calls last m secs := by
  induction calls using List.reverseRecOn with
  | nil =>
    refine ⟨_, [], rfl, fun last _ => ?_⟩
    exact
      { window_eq := rfl
        totalRequests_eq := rfl
        totalErrors_eq := rfl
        increasing := List.Pairwise.nil
        buckets_eq := rfl
        le_last := by simp
        complete := fun _ _ _ => rfl }
  | append_singleton calls call ih =>
    obtain ⟨hcalls, -, hlast⟩ := List.pairwise_append.mp hmono
    obtain ⟨m, secs, hrun, hcounts⟩ := ih hcalls
    have hnow := hcounts call.sec fun c hc => hlast c hc call (by simp)
    have hstep : ∃ m' secs', step m call = some m' ∧
        Counts W (calls ++ [call]) call.sec m' secs' := by
      cases call with
      | recordRequest now durationMs isError => exact hnow.record hW le_rfl durationMs isError
      | snapshot now =>
        obtain ⟨secs', hsecs⟩ := hnow.snapshot hW le_rfl
        exact ⟨_, secs', rfl, hsecs⟩
    obtain ⟨m', secs', hm', hcounts'⟩ := hstep
    refine ⟨m', secs', ?_, fun last hle => hcounts'.mono (hle call (by simp))⟩
    rw [run, List.foldlM_append, ← run, hrun]
    simpa using hm'

end Buckets

section Snapshot

theorem mem_lastSeconds {sec length : ℤ} :
    sec ∈ lastSeconds T length ↔ T - length < sec ∧ sec ≤ T := by
  rw [lastSeconds, Finset.mem_Icc]
  omega

theorem sum64_eq (counts : List ℕ) : sum64 counts = counts.sum % 2 ^ 64 := by
  have hfold (sum : ℕ) : counts.foldl (fun sum count => (sum + count) % 2 ^ 64) (sum % 2 ^ 64) =
      (sum + counts.sum) % 2 ^ 64 := by
    induction counts generalizing sum with
    | nil => rfl
    | cons count counts ih =>
      rw [List.foldl_cons, Nat.mod_add_mod, ih, List.sum_cons, Nat.add_assoc]
  have hzero := hfold 0
  rwa [Nat.zero_add] at hzero

theorem bucketOf_count (hlt : calls.countP isRequest < 2 ^ 64) (sec : ℤ) :
    (bucketOf calls sec).count = requestsAt calls sec :=
  Nat.mod_eq_of_lt ((countAt_le _ _ _ _).trans_lt hlt)

theorem errors_le_requests (calls : List Call) :
    calls.countP Call.isError ≤ calls.countP isRequest :=
  List.countP_mono_left fun call _ => Call.isRequest_of_isError call

theorem bucketOf_errors (hlt : calls.countP isRequest < 2 ^ 64) (sec : ℤ) :
    (bucketOf calls sec).errors = errorsAt calls sec :=
  Nat.mod_eq_of_lt (((countAt_le _ _ _ _).trans (errors_le_requests calls)).trans_lt hlt)

section

variable (h : Counts W calls T m secs) (hwindow : ∀ sec ∈ secs, T - W < sec)
include h hwindow

theorem Counts.maxRate_eq (hlt : calls.countP isRequest < 2 ^ 64) :
    maxRate m.buckets = (lastSeconds T W).sup (requestsAt calls) := by
  rw [h.buckets_eq, maxRate, List.map_map]
  have hcount : SecondBucket.count ∘ bucketOf calls = requestsAt calls :=
    funext (bucketOf_count hlt)
  rw [hcount]
  refine foldl_max_map_eq_sup (fun sec hsec => ?_) fun sec hsec hnot => ?_
  · exact mem_lastSeconds.mpr ⟨hwindow sec hsec, h.le_last sec hsec⟩
  · exact h.complete sec (mem_lastSeconds.mp hsec).1 hnot

theorem Counts.sum_recent_eq {f : ℤ → ℕ} (hf : ∀ sec, f sec ≤ requestsAt calls sec) :
    ((secs.filter fun sec => T - 60 ≤ sec).map f).sum =
      ∑ sec ∈ lastSeconds T (min W 61), f sec := by
  refine sum_map_eq_sum ?_ (fun sec hsec => ?_) fun sec hsec hnot => ?_
  · exact (h.increasing.imp fun hlt => hlt.ne).filter _
  · obtain ⟨hmem, hrecent⟩ := List.mem_filter.mp hsec
    have hlow := hwindow sec hmem
    have hrecent' : T - 60 ≤ sec := of_decide_eq_true hrecent
    exact mem_lastSeconds.mpr ⟨by omega, h.le_last sec hmem⟩
  · obtain ⟨hlow, -⟩ := mem_lastSeconds.mp hsec
    have hzero := h.complete sec (by omega) fun hmem =>
      hnot (List.mem_filter.mpr ⟨hmem, decide_eq_true (show T - 60 ≤ sec by omega)⟩)
    have hle := hf sec
    omega

theorem Counts.errorRate_eq (hlt : calls.countP isRequest < 2 ^ 64) :
    errorRate T m.buckets =
      (errorsIn calls (lastSeconds T (min W 61)) : ℚ) /
        requestsIn calls (lastSeconds T (min W 61)) := by
  have hrecent : m.buckets.filter (fun bucket => T - 60 ≤ bucket.secondTs) =
      (secs.filter fun sec => T - 60 ≤ sec).map (bucketOf calls) := by
    rw [h.buckets_eq, List.filter_map]
    rfl
  have herrors : sum64 (((secs.filter fun sec => T - 60 ≤ sec).map (bucketOf calls)).map
      SecondBucket.errors) = errorsIn calls (lastSeconds T (min W 61)) := by
    have hbuckets : SecondBucket.errors ∘ bucketOf calls = errorsAt calls :=
      funext (bucketOf_errors hlt)
    rw [List.map_map, hbuckets, sum64_eq, h.sum_recent_eq hwindow (errorsAt_le calls), errorsIn,
      countIn_eq_sum]
    refine Nat.mod_eq_of_lt (((countIn_eq_sum _ _ _ _).symm.trans_le ?_).trans_lt hlt)
    exact (countIn_le _ _ _ _).trans (errors_le_requests calls)
  have hrequests : sum64 (((secs.filter fun sec => T - 60 ≤ sec).map (bucketOf calls)).map
      SecondBucket.count) = requestsIn calls (lastSeconds T (min W 61)) := by
    have hbuckets : SecondBucket.count ∘ bucketOf calls = requestsAt calls :=
      funext (bucketOf_count hlt)
    rw [List.map_map, hbuckets, sum64_eq, h.sum_recent_eq hwindow fun _ => le_rfl, requestsIn,
      countIn_eq_sum]
    exact Nat.mod_eq_of_lt (((countIn_eq_sum _ _ _ _).symm.trans_le (countIn_le _ _ _ _)).trans_lt hlt)
  unfold errorRate
  simp only [hrecent, herrors, hrequests]
  split_ifs with hpos
  · rfl
  · rw [Nat.eq_zero_of_not_pos hpos, Nat.cast_zero, div_zero]

end

/-- Whether a second more changes a rate. -/
theorem rate_add_eq_iff {e r e' r' : ℕ} (he : e ≤ r) (he' : e' ≤ r') :
    ((e' + e : ℕ) : ℚ) / (r' + r : ℕ) = (e : ℚ) / r ↔ e' * r = e * r' ∧ (r = 0 → e' = 0) := by
  rcases Nat.eq_zero_or_pos r with rfl | hr
  · obtain rfl : e = 0 := Nat.le_zero.mp he
    simp only [Nat.add_zero, Nat.cast_zero, div_zero, div_eq_zero_iff, Nat.cast_eq_zero, mul_zero,
      zero_mul, true_and, forall_const]
    omega
  · have hr' : ((r : ℕ) : ℚ) ≠ 0 := Nat.cast_ne_zero.mpr hr.ne'
    have hsum : ((r' + r : ℕ) : ℚ) ≠ 0 := Nat.cast_ne_zero.mpr (by omega)
    rw [div_eq_div_iff hsum hr', ← Nat.cast_mul, ← Nat.cast_mul, Nat.cast_inj, add_mul, mul_add]
    omega

theorem lastSeconds_succ (T : ℤ) {length : ℤ} (hlength : 0 ≤ length) :
    lastSeconds T (length + 1) = insert (T - length) (lastSeconds T length) := by
  ext sec
  rw [Finset.mem_insert, mem_lastSeconds, mem_lastSeconds]
  omega

theorem countIn_lastSeconds_succ (p : Call → Bool) (T length : ℤ) (hlength : 0 ≤ length) :
    countIn Call.sec p calls (lastSeconds T (length + 1)) =
      countAt Call.sec p calls (T - length) + countIn Call.sec p calls (lastSeconds T length) := by
  have hnot : T - length ∉ lastSeconds T length := by
    rw [mem_lastSeconds]
    omega
  rw [countIn_eq_sum, lastSeconds_succ T hlength, Finset.sum_insert hnot, countIn_eq_sum]

/-- The code's minute has 61 seconds, if the window is that long. -/
theorem errorRate_eq_iff (calls : List Call) (W T : ℤ) :
    (errorsIn calls (lastSeconds T (min W 61)) : ℚ) / requestsIn calls (lastSeconds T (min W 61)) =
        (errorsIn calls (lastSeconds T (min W 60)) : ℚ) /
          requestsIn calls (lastSeconds T (min W 60)) ↔
      W ≤ 60 ∨ SameErrorRate calls T := by
  by_cases hW : W ≤ 60
  · rw [min_eq_left hW, min_eq_left (by omega)]
    exact iff_of_true rfl (.inl hW)
  · have herrors : errorsIn calls (lastSeconds T 61) =
        errorsAt calls (T - 60) + errorsIn calls (lastSeconds T 60) :=
      countIn_lastSeconds_succ Call.isError T 60 (by norm_num)
    have hrequests : requestsIn calls (lastSeconds T 61) =
        requestsAt calls (T - 60) + requestsIn calls (lastSeconds T 60) :=
      countIn_lastSeconds_succ isRequest T 60 (by norm_num)
    rw [min_eq_right (by omega), min_eq_right (by omega), or_iff_right hW, herrors, hrequests]
    exact rate_add_eq_iff (errorsIn_le calls _) (errorsAt_le calls _)

/-- The history is counted without overflow, its counts are doubles, and the second before the
last minute does not change the error rate. -/
structure Recountable (calls : List Call) (W T : ℤ) : Prop where
  requests_lt : calls.countP isRequest < 2 ^ 64
  current_exact : toDouble (requestsAt calls T) = requestsAt calls T
  max_exact : toDouble ((lastSeconds T W).sup (requestsAt calls)) =
    (lastSeconds T W).sup (requestsAt calls)
  errorRate_same : W ≤ 60 ∨ SameErrorRate calls T

/-- No history touches an empty deque, and exactly on these histories a snapshot reports what a
recount gives. -/
theorem snapshot_recounts_iff (nodeId : ByteString) (hW : 1 ≤ W) {now : Reading}
    (hmono : Nondecreasing (calls ++ [.snapshot now])) :
    ∃ m, run { nodeId, windowSeconds := W } calls = some m ∧
      (Recounts (m.snapshot now).1 calls W now.sec ↔ Recountable calls W now.sec) := by
  obtain ⟨hcalls, -, hlast⟩ := List.pairwise_append.mp hmono
  obtain ⟨m, secs, hrun, hcounts⟩ := run_counts nodeId hW hcalls
  refine ⟨m, hrun, ?_⟩
  have hnow := hcounts now.sec fun call hcall => hlast call hcall (.snapshot now) (by simp)
  obtain ⟨earlier, hadvanced, hwindow⟩ := hnow.advance hW le_rfl
  -- a total that is right has not overflowed
  by_cases hlt : calls.countP isRequest < 2 ^ 64
  swap
  · refine iff_of_false (fun h => hlt ?_) fun h => hlt h.requests_lt
    have htotal := h.totalRequests_eq
    change (m.advanceBuckets now.sec).totalRequests = _ at htotal
    rw [hadvanced.totalRequests_eq] at htotal
    omega
  have hcurrent : (((m.snapshot now).1.rpsCurrent : ℚ)) = toDouble (requestsAt calls now.sec) := by
    change ((toDouble (((m.advanceBuckets now.sec).buckets.getLast?.map SecondBucket.count).getD 0) :
      ℕ) : ℚ) = _
    rw [hadvanced.buckets_eq]
    simp [bucketOf_count hlt]
  have hmax : (m.snapshot now).1.rpsMax10min =
      toDouble ((lastSeconds now.sec W).sup (requestsAt calls)) := by
    rw [← hadvanced.maxRate_eq hwindow hlt]
    rfl
  have hrate := hadvanced.errorRate_eq hwindow hlt
  constructor
  · intro h
    refine ⟨hlt, ?_, ?_, (errorRate_eq_iff calls W now.sec).mp ?_⟩
    · exact Nat.cast_injective (hcurrent.symm.trans h.rpsCurrent_eq)
    · exact Nat.cast_injective (hmax.symm.trans h.rpsMax_eq)
    · exact hrate.symm.trans h.errorRate_eq
  · intro h
    have herrors := (errors_le_requests calls).trans_lt hlt
    exact
      { totalRequests_eq := hadvanced.totalRequests_eq.trans (Nat.mod_eq_of_lt hlt)
        totalErrors_eq := hadvanced.totalErrors_eq.trans (Nat.mod_eq_of_lt herrors)
        rpsCurrent_eq := by rw [hcurrent, h.current_exact]
        rpsMax_eq := by rw [hmax, h.max_exact]
        errorRate_eq := hrate.trans ((errorRate_eq_iff calls W now.sec).mpr h.errorRate_same) }

theorem toDouble_of_lt {n : ℕ} (h : n < 2 ^ 53) : toDouble n = n := by
  have hsize : n.size - 53 = 0 := Nat.sub_eq_zero_of_le (Nat.size_le.mpr h)
  simp [toDouble, hsize, Nat.mod_one]

/-- A request in second 5, and a snapshot a minute later. -/
theorem snapshot_recounts_minute_later :
    ∃ m, run { nodeId := [], windowSeconds := 600 } [.recordRequest ⟨5, 5000⟩ 3 false] = some m ∧
      Recounts (m.snapshot ⟨65, 65000⟩).1 [.recordRequest ⟨5, 5000⟩ 3 false] 600 65 := by
  have hmono : Nondecreasing
      ([.recordRequest ⟨5, 5000⟩ 3 false] ++ [.snapshot ⟨65, 65000⟩]) := by
    simp [Nondecreasing, Call.sec, Call.now]
  obtain ⟨m, hrun, hiff⟩ := snapshot_recounts_iff [] (show (1 : ℤ) ≤ 600 by norm_num) hmono
  refine ⟨m, hrun, hiff.mpr ⟨by decide, toDouble_of_lt (by decide), toDouble_of_lt ?_, .inr ?_⟩⟩
  · refine lt_of_le_of_lt (Finset.sup_le fun sec _ => countAt_le _ _ _ sec) ?_
    decide
  · refine ⟨?_, fun _ => rfl⟩
    simp [errorsIn, errorsAt, countIn, countAt, Call.isError]

/-- An error in second 0 is in the error rate of the minute that ends with second 60. -/
theorem snapshot_counts_second_too_many :
    ∃ m, run { nodeId := [], windowSeconds := 600 } [.recordRequest ⟨0, 0⟩ 1 true] = some m ∧
      (m.snapshot ⟨60, 60000⟩).1.errorRate1min = 1 ∧
      requestsIn [.recordRequest ⟨0, 0⟩ 1 true] (lastSeconds 60 60) = 0 := by
  refine ⟨_, rfl, ?_, ?_⟩
  · decide +kernel
  · decide +kernel

end Snapshot

end CourseDb.NodeMetrics
