-- The books of the thread pool: the counters agree with the workers, slow work
-- that is queued is noted in `wq`, and the loop has been told of each request
-- that it is to call back.
import Linuxc.UvThreadpoolSteps

namespace linuxc.threadpool

open event_runs

/-! ## The counters -/

/-- The counters count the workers, and never more than the threshold have slow work. -/
structure Counts (p : Pool) : Prop where
  idle : p.idle_threads = p.count Worker.isIdle
  slow : p.slow_io_work_running = p.count Worker.holdsSlow
  bound : p.slow_io_work_running ≤ p.slowWorkThreadThreshold
  threads : p.workers ≠ []

theorem nthreads_pos (val : Option Int) : 0 < nthreads val := by
  unfold nthreads
  cases val with
  | none => simp
  | some val =>
    simp only
    split
    · omega
    · split <;> omega

theorem count_start (val : Option Int) {f : Worker → Bool} (h : f (.locking false) = false) :
    (start val).count f = 0 := by
  rw [count_eq_zero]
  intro a ha
  rw [List.eq_of_mem_replicate ha, h]

theorem counts_start (val : Option Int) : Counts (start val) where
  idle := (count_start val rfl).symm
  slow := (count_start val rfl).symm
  bound := Nat.zero_le _
  threads := by
    have := nthreads_pos val
    simp only [start, ne_eq, List.replicate_eq_nil_iff]
    omega

section counts

variable {p p₁ p' : Pool} {t w : Nat} {a b : Worker} {is_slow_work : Bool}

/-- Worker `t` goes from `a` to `b`, and the counters go with it. -/
theorem counts_set (hc : Counts p) (h : p.workers[t]? = some a) (hset : p'.workers = p.workers.set t b)
    (hidle : p'.idle_threads + a.isIdle.toNat = p.idle_threads + b.isIdle.toNat)
    (hslow : p'.slow_io_work_running + a.holdsSlow.toNat = p.slow_io_work_running + b.holdsSlow.toNat)
    (hbound : p'.slow_io_work_running ≤ p.slowWorkThreadThreshold) : Counts p' where
  idle := by
    have hcount := count_set Worker.isIdle h hset
    have := hc.idle
    omega
  slow := by
    have hcount := count_set Worker.holdsSlow h hset
    have := hc.slow
    omega
  bound := by rwa [threshold_set hset]
  threads := by
    rw [hset]
    simpa using hc.threads

theorem counts_woken (hc : Counts p) (h : p.workers[t]? = some .waiting) :
    Counts (p.setWorker t .woken) :=
  counts_set hc h rfl rfl rfl hc.bound

theorem counts_nudged (h : Nudged p p') (hc : Counts p) : Counts p' := by
  cases h with
  | nobody h => exact hc
  | woke t h => exact counts_woken hc h

/-- A worker that counts has its place in the counter. -/
theorem held_pos (hc : Counts p) (h : p.workers[t]? = some (.locking true)) :
    0 < p.slow_io_work_running := by
  rw [hc.slow]
  exact count_pos h rfl

theorem idle_pos (hc : Counts p) (h : p.workers[t]? = some a) (ha : a.isIdle = true) :
    0 < p.idle_threads := by
  rw [hc.idle]
  exact count_pos h ha

theorem counts_turned (hc : Counts p) (h : Turned p t p') : Counts p' := by
  have hbound := hc.bound
  cases h with
  | locked is_slow_work h =>
    cases is_slow_work with
    | false => exact counts_set hc h rfl rfl rfl hbound
    | true =>
      have hpos := held_pos hc h
      refine counts_set hc h rfl rfl ?_ ?_
      · change p.slow_io_work_running - 1 + 1 = p.slow_io_work_running
        omega
      · change p.slow_io_work_running - 1 ≤ _
        omega
  | woken h =>
    have hpos := idle_pos hc h rfl
    refine counts_set hc h rfl ?_ rfl hbound
    change p.idle_threads - 1 + 1 = p.idle_threads
    omega

theorem turned_self (h : Turned p t p') : p'.workers[t]? = some (.locking false) := by
  cases h with
  | locked is_slow_work h => exact workers_setWorker_self h
  | woken h => exact workers_setWorker_self h

theorem counts_takenSlow {wq : List Msg} {pending : List Nat} (hc : Counts p)
    (ht : p.workers[t]? = some (.locking false))
    (hrun : p.slow_io_work_running < p.slowWorkThreadThreshold) :
    Counts (p.takenSlow t w wq pending) :=
  counts_set hc ht rfl rfl rfl hrun

theorem counts_looked (hc : Counts p) (ht : p.workers[t]? = some (.locking false))
    (h : Looked p t p') : Counts p' := by
  cases h with
  | waits wq hleft hqueued hwq hbusy => exact counts_set hc ht rfl rfl rfl hc.bound
  | takes w wq hleft hqueued => exact counts_set hc ht rfl rfl rfl hc.bound
  | slow w pending wq p' hrun hsched hpending hwq honce hmore hnudged =>
    have htaken : Counts (p.takenSlow t w wq pending) := counts_takenSlow hc ht hrun
    rcases hnudged with ⟨rfl, -⟩ | hnudged
    · exact htaken
    · exact counts_nudged hnudged htaken

theorem counts_posted {kind : Kind} (hc : Counts p) (h : Posted p w kind p') : Counts p' := by
  cases h with
  | work p' hkind hnudged => exact counts_nudged hnudged { hc with }
  | behind hkind hsched => exact { hc with }
  | schedules p' hkind hsched hnudged => exact counts_nudged hnudged { hc with }

theorem counts_moved {e : Event} (hc : Counts p) (h : Moved p e p') : Counts p' := by
  cases h with
  | submitted w kind target p' hcancelling hnew h => exact counts_posted (p := p.prepared w kind) { hc with } h
  | entered t target p₁ p' hturned hlooked =>
    exact counts_looked (counts_turned hc hturned) (turned_self hturned) hlooked
  | finished t w is_slow_work h => exact counts_set hc h rfl rfl rfl hc.bound
  | spurious t h => exact counts_woken hc h
  | _ => exact { hc with }

end counts

/-! ## The queues -/

/-- The message is in `wq` at most once, and is there while slow work waits. What is handed to the loop
is announced. -/
structure Queues (p : Pool) : Prop where
  once : p.wq.count .run_slow_work_message ≤ 1
  scheduled : p.slow_io_pending_wq ≠ [] → p.Scheduled
  sent : p.loop_wq ≠ [] → p.async = true ∨ p.control = .gathering
  finishing : p.done_wq ≠ [] → p.control = .finishing

theorem queues_start (val : Option Int) : Queues (start val) where
  once := by simp [start]
  scheduled := by simp [start]
  sent := by simp [start]
  finishing := by simp [start]

section queues

variable {p p₁ p' : Pool} {t w : Nat}

theorem queues_nudged (h : Nudged p p') (hq : Queues p) : Queues p' := by
  cases h with
  | nobody h => exact hq
  | woke t h => exact { hq with }

theorem queues_turned (hq : Queues p) (h : Turned p t p') : Queues p' := by
  cases h with
  | locked is_slow_work h => exact { hq with }
  | woken h => exact { hq with }

theorem scheduled_left {wq : List Msg} (hq : Queues p) (hleft : Left p wq)
    (hpending : p.slow_io_pending_wq ≠ []) : .run_slow_work_message ∈ wq :=
  (hleft.dropped (hq.scheduled hpending)).resolve_right hpending

theorem queues_looked (hq : Queues p) (h : Looked p t p') : Queues p' := by
  cases h with
  | waits wq hleft hqueued hwq hbusy =>
    exact { hq with once := hleft.once, scheduled := scheduled_left (p := p) hq hleft }
  | takes w wq hleft hqueued =>
    exact { hq with once := hleft.once, scheduled := scheduled_left (p := p) hq hleft }
  | slow w pending wq p' hrun hsched hpending hwq honce hmore hnudged =>
    have htaken : Queues (p.takenSlow t w wq pending) :=
      { hq with once := honce, scheduled := hmore.mpr }
    rcases hnudged with ⟨rfl, -⟩ | hnudged
    · exact htaken
    · exact queues_nudged hnudged htaken

theorem queues_posted {kind : Kind} (hq : Queues p) (h : Posted p w kind p') : Queues p' := by
  cases h with
  | work p' hkind hnudged =>
    refine queues_nudged hnudged { hq with once := ?_, scheduled := fun h => ?_ }
    · simpa using hq.once
    · exact List.mem_append_left _ (hq.scheduled h)
  | behind hkind hsched => exact { hq with scheduled := fun _ => hsched }
  | schedules p' hkind hsched hnudged =>
    exact queues_nudged hnudged { hq with
      once := once_append hsched
      scheduled := fun _ => List.mem_append_right _ (List.mem_singleton_self _) }

theorem queues_unlink (hq : Queues p) : Queues { p.unlink w with cancelling := some w } where
  once := by
    have := hq.once
    change (p.wq.filter _).count _ ≤ 1
    rwa [List.count_filter (by simp)]
  scheduled h := by
    have hpending : p.slow_io_pending_wq ≠ [] := by
      intro hnil
      exact h (by simp [Pool.unlink, hnil])
    have hsched : .run_slow_work_message ∈ p.wq := hq.scheduled hpending
    exact List.mem_filter.mpr ⟨hsched, by simp⟩
  sent h := by
    refine hq.sent fun hnil => h ?_
    simp [Pool.unlink, hnil]
  finishing h := by
    refine hq.finishing fun hnil => h ?_
    simp [Pool.unlink, hnil]

theorem queues_moved {e : Event} (hq : Queues p) (h : Moved p e p') : Queues p' := by
  cases h with
  | submitted w kind target p' hcancelling hnew h =>
    exact queues_posted (p := p.prepared w kind) { hq with } h
  | withdrew w hcancelling hlinked hwork => exact queues_unlink hq
  | busy w hcancelling hsub hcalled hbusy => exact { hq with }
  | cancelled w hcancelling => exact { hq with sent := fun _ => .inl rfl }
  | entered t target p₁ p' hturned hlooked => exact queues_looked (queues_turned hq hturned) hlooked
  | finished t w is_slow_work h => exact { hq with sent := fun _ => .inl rfl }
  | spurious t h => exact { hq with }
  | woke hcontrol hasync =>
    refine { hq with sent := fun _ => .inr rfl, finishing := fun h => ?_ }
    have := hq.finishing h
    rw [hcontrol] at this
    cases this
  | gathered hcontrol =>
    exact { hq with sent := fun h => absurd rfl h, finishing := fun _ => rfl }
  | called w done_wq hcontrol hdone => exact { hq with finishing := fun _ => hcontrol }
  | ended hcontrol hdone =>
    refine { hq with sent := fun h => ?_, finishing := fun h => absurd hdone h }
    have := hq.sent h
    rw [hcontrol] at this
    exact .inl (this.resolve_right (by simp))

/-- The loop takes the queue when nothing is left of the last round. -/
theorem gathering_empty (hq : Queues p) (hcontrol : p.control = .gathering) : p.done_wq = [] := by
  by_contra hne
  have := hq.finishing hne
  rw [hcontrol] at this
  cases this

end queues

end linuxc.threadpool
