-- The laws of the thread pool that hold of every order of its steps: nothing
-- fails, each request lives one life, slow work never takes every worker, and
-- both sides serve in the order of arrival.
import Linuxc.UvThreadpoolLives

namespace linuxc.threadpool

open event_runs

/-! ## Nothing fails -/

/-- In no run does a worker call a NULL `work` or `uv__cancelled`, or turn in its loop for ever. -/
theorem no_step_of_the_pool_fails (val : Option Int) (es : List Event) (c : Check) :
    run step (start val) es ≠ .error (.failed c) := by
  have hgives : Gives Refuses (run step (start val) es) Sound :=
    run_gives (P := fun _ p => Sound p) (R := fun _ => Refuses) (sound_start val) (fun _ _ _ => id)
      (fun _ p e hs => gives_mono (moved e hs) (fun _ => id) fun _ h => h.1) es
  intro h
  have hrefuses : Refuses (.failed c) := reason_of_gives hgives h
  cases hrefuses

/-! ## The life of a request -/

/-- What has been seen of a request is always a story of one life: it begins at most once, and never
after a cancel that came in time, and it is called back at most once, at the end, with the error that
says which of the two it was. -/
theorem each_request_lives_one_life {val : Option Int} {es : List Event} {p : Pool}
    (h : run step (start val) es = .ok p) (w : Nat) :
    ∃ life : Life, p.trace.filter (Act.about w) = life.story w := by
  obtain ⟨life, hlife⟩ := (sound_run h).alive w
  exact ⟨life, congrArg View.story hlife⟩

/-- Two workers, two slow requests and one that is not. One slow request is cancelled in time, the
other too late. -/
def threeRequests : List Event :=
  [.enter 0 none, .enter 1 none, .submit 5 .slow_io (some 1), .submit 6 .slow_io none,
    .submit 7 .cpu (some 0), .enter 1 none, .enter 0 none, .cancel 6, .cancelled, .cancel 5, .finish 1,
    .wake, .gather, .done, .done, .leave]

/-- The request that was cancelled too late runs, and is called back with 0. -/
theorem the_late_cancel_leaves_the_request_running :
    ∃ p, run step (start (some 2)) threeRequests = .ok p ∧
      p.trace.filter (Act.about 5) =
        [.submitted 5 .slow_io, .began 5 true, .busy 5 UV_EBUSY, .ran 5, .done 5 0] ∧
      ∃ life : Life, p.trace.filter (Act.about 5) = life.story 5 := by
  have hseen : (run step (start (some 2)) threeRequests).toOption.map
      (fun p => p.trace.filter (Act.about 5)) =
      some [.submitted 5 .slow_io, .began 5 true, .busy 5 UV_EBUSY, .ran 5, .done 5 0] := by
    decide +kernel
  obtain ⟨p, hp, hstory⟩ := ran hseen
  exact ⟨p, hp, hstory, each_request_lives_one_life hp 5⟩

/-! ## Slow work -/

theorem length_nudged {p p' : Pool} (h : Nudged p p') : p'.workers.length = p.workers.length := by
  cases h with
  | nobody h => rfl
  | woke t h => exact List.length_set

theorem length_looked {p p' : Pool} {t : Nat} (h : Looked p t p') :
    p'.workers.length = p.workers.length := by
  cases h with
  | waits wq hleft hqueued hwq hbusy => exact List.length_set
  | takes w wq hleft hqueued => exact List.length_set
  | slow w pending wq p' hrun hsched hpending hwq honce hmore hnudged =>
    have htaken : (p.takenSlow t w wq pending).workers.length = p.workers.length := List.length_set
    rcases hnudged with ⟨rfl, -⟩ | hnudged
    · exact htaken
    · exact (length_nudged hnudged).trans htaken

/-- There are always as many workers as at the start. -/
theorem length_moved {p p' : Pool} {e : Event} (h : Moved p e p') :
    p'.workers.length = p.workers.length := by
  cases h with
  | submitted w kind target p' hcancelling hnew h =>
    cases h with
    | work p' hkind hnudged => exact (length_nudged hnudged).trans rfl
    | behind hkind hsched => rfl
    | schedules p' hkind hsched hnudged => exact (length_nudged hnudged).trans rfl
  | entered t target p₁ p' hturned hlooked =>
    refine (length_looked hlooked).trans ?_
    cases hturned <;> exact List.length_set
  | finished t w is_slow_work h => exact List.length_set
  | spurious t h => exact List.length_set
  | _ => rfl

theorem length_run {val : Option Int} {es : List Event} {p : Pool}
    (h : run step (start val) es = .ok p) : p.workers.length = nthreads val := by
  have hboth : Sound p ∧ p.workers.length = nthreads val := by
    refine run_keeps (P := fun p => Sound p ∧ p.workers.length = nthreads val)
      ⟨sound_start val, List.length_replicate⟩ (fun p e p' hp hstep => ?_) h
    obtain ⟨hs', hmoved⟩ := of_gives (moved e hp.1) hstep
    exact ⟨hs', (length_moved hmoved).trans hp.2⟩
  exact hboth.2

theorem runsSlow_le {p : Pool} (hc : Counts p) : p.count Worker.runsSlow ≤ p.slow_io_work_running := by
  rw [hc.slow]
  refine count_mono fun a ha => ?_
  cases a <;> first | exact ha | cases ha

/-- At no time do more than half of the workers, rounded up, run slow work. So of two or more workers
there is always one that does not. -/
theorem slow_work_never_takes_every_worker {val : Option Int} {es : List Event} {p : Pool}
    (h : run step (start val) es = .ok p) :
    p.count Worker.runsSlow ≤ (nthreads val + 1) / 2 ∧
      (1 < nthreads val → ∃ worker ∈ p.workers, worker.runsSlow = false) := by
  have hc := (sound_run h).counts
  have hlength := length_run h
  have hbound := hc.bound
  unfold Pool.slowWorkThreadThreshold at hbound
  rw [hlength] at hbound
  have hle := runsSlow_le hc
  refine ⟨by omega, fun htwo => ?_⟩
  by_contra hall
  have hevery : p.count Worker.runsSlow = p.workers.length := by
    refine List.countP_eq_length.mpr fun a ha => ?_
    by_contra hslow
    exact hall ⟨a, ha, Bool.eq_false_iff.mpr hslow⟩
  omega

/-- With two workers, one runs the slow request, and the other the one that is not slow, though the
second slow request came before it. -/
theorem the_second_worker_is_left_for_other_work :
    ∃ p, run step (start (some 2)) (threeRequests.take 7) = .ok p ∧
      p.workers = [.running 7 false, .running 5 true] ∧ p.count Worker.runsSlow ≤ (2 + 1) / 2 := by
  have hseen : (run step (start (some 2)) (threeRequests.take 7)).toOption.map (·.workers) =
      some [.running 7 false, .running 5 true] := by decide +kernel
  obtain ⟨p, hp, hworkers⟩ := ran hseen
  exact ⟨p, hp, hworkers, (slow_work_never_takes_every_worker hp).1⟩

/-! ## The order of arrival -/

/-- The requests of the slow kind, or of the others, in the order in which they were submitted. -/
def posted (slow : Bool) (trace : List Act) : List Nat :=
  trace.filterMap fun
    | .submitted w kind => if decide (kind = .slow_io) = slow then some w else none
    | _ => none

/-- Those that workers have begun to run, in order. -/
def begun (slow : Bool) (trace : List Act) : List Nat :=
  trace.filterMap fun
    | .began w is_slow_work => if is_slow_work = slow then some w else none
    | _ => none

/-- A request is handed to the loop, by a worker or by a cancel. When it is cancelled once more it
goes behind the others. -/
def handing (queue : List Nat) : Act → List Nat
  | .ran w => queue ++ [w]
  | .cancelled w => queue.filter (· ≠ w) ++ [w]
  | _ => queue

/-- Those that were handed to the loop, in order. -/
def handedOver (trace : List Act) : List Nat := trace.foldl handing []

/-- Those that were called back, in order. -/
def calledBack (trace : List Act) : List Nat :=
  trace.filterMap fun
    | .done w _ => some w
    | _ => none

/-- The request has not been cancelled, and is not being cancelled now. -/
def kept (cancelling : Option Nat) (trace : List Act) (w : Nat) : Bool :=
  .cancelled w ∉ trace ∧ cancelling ≠ some w

/-- Who has been served and who waits, together: all that have come and are still there, in the order
in which they came. -/
structure InOrder (p : Pool) : Prop where
  fast : begun false p.trace ++ p.queued = (posted false p.trace).filter (kept p.cancelling p.trace)
  slow : begun true p.trace ++ p.slow_io_pending_wq =
    (posted true p.trace).filter (kept p.cancelling p.trace)
  handed : calledBack p.trace ++ (p.done_wq ++ p.loop_wq) =
    (handedOver p.trace).filter fun w => p.cancelling ≠ some w

theorem inOrder_start (val : Option Int) : InOrder (start val) := ⟨rfl, rfl, rfl⟩

section order

variable {p p' : Pool} {t v w : Nat} {slow : Bool} {as bs : List Act} {cancelling : Option Nat}

@[simp] theorem posted_append : posted slow (as ++ bs) = posted slow as ++ posted slow bs :=
  List.filterMap_append

@[simp] theorem begun_append : begun slow (as ++ bs) = begun slow as ++ begun slow bs :=
  List.filterMap_append

@[simp] theorem calledBack_append : calledBack (as ++ bs) = calledBack as ++ calledBack bs :=
  List.filterMap_append

@[simp] theorem handedOver_concat {act : Act} : handedOver (as ++ [act]) = handing (handedOver as) act :=
  List.foldl_concat _ _ _ _

/-- An act that is no cancel takes no request back. -/
theorem kept_concat {act : Act} (h : ∀ v, act ≠ .cancelled v) :
    kept cancelling (as ++ [act]) = kept cancelling as := by
  funext v
  simp [kept, (h v).symm]

/-- A request that is being cancelled is taken back as when it has been. -/
theorem kept_cancelled : kept none (as ++ [.cancelled w]) = kept (some w) as := by
  funext v
  by_cases hvw : v = w
  · simp [kept, hvw]
  · simp [kept, hvw, Ne.symm hvw]

theorem kept_cancelling : kept (some w) as = fun v => decide (v ≠ w) && kept none as v := by
  funext v
  by_cases hvw : v = w
  · simp [kept, hvw]
  · simp [kept, hvw, Ne.symm hvw]

theorem mem_begun : w ∈ begun slow as ↔ .began w slow ∈ as := by
  unfold begun
  rw [List.mem_filterMap]
  constructor
  · rintro ⟨act, hact, hw⟩
    cases act with
    | began v is_slow_work =>
      simp only [Option.ite_none_right_eq_some, Option.some.injEq] at hw
      obtain ⟨rfl, rfl⟩ := hw
      exact hact
    | _ => cases hw
  · intro h
    exact ⟨_, h, if_pos rfl⟩

theorem mem_calledBack : w ∈ calledBack as ↔ ∃ err, .done w err ∈ as := by
  unfold calledBack
  rw [List.mem_filterMap]
  constructor
  · rintro ⟨act, hact, hw⟩
    cases act with
    | done v err =>
      obtain rfl := Option.some.inj hw
      exact ⟨err, hact⟩
    | _ => cases hw
  · rintro ⟨err, h⟩
    exact ⟨_, h, rfl⟩

/-- An act that is no cancel: who begins was the first of those that wait, who is submitted is the last. -/
theorem order_concat {waits waits' : List Nat} {act : Act}
    (h : begun slow as ++ waits = (posted slow as).filter (kept cancelling as))
    (hact : ∀ v, act ≠ .cancelled v)
    (hwaits : begun slow [act] ++ waits' = waits ++ (posted slow [act]).filter (kept cancelling as)) :
    begun slow (as ++ [act]) ++ waits' =
      (posted slow (as ++ [act])).filter (kept cancelling (as ++ [act])) := by
  rw [kept_concat hact, begun_append, posted_append, List.filter_append, ← h, List.append_assoc,
    List.append_assoc, hwaits]

/-- The end of a cancel takes no more requests back than its beginning. -/
theorem order_cancelled {waits : List Nat}
    (h : begun slow as ++ waits = (posted slow as).filter (kept (some w) as)) :
    begun slow (as ++ [.cancelled w]) ++ waits =
      (posted slow (as ++ [.cancelled w])).filter (kept none (as ++ [.cancelled w])) := by
  rw [kept_cancelled, begun_append, posted_append]
  show begun slow as ++ [] ++ waits = (posted slow as ++ []).filter _
  rw [List.append_nil, List.append_nil, h]

/-- On the side of the loop: who is called back was the first of those that wait, who is handed over
is the last. -/
theorem handed_concat {waits waits' more : List Nat} {act : Act} {f : Nat → Bool}
    (h : calledBack as ++ waits = (handedOver as).filter f)
    (hhanding : ∀ queue, handing queue act = queue ++ more)
    (hwaits : calledBack [act] ++ waits' = waits ++ more.filter f) :
    calledBack (as ++ [act]) ++ waits' = (handedOver (as ++ [act])).filter f := by
  rw [handedOver_concat, hhanding, calledBack_append, List.filter_append, ← h, List.append_assoc,
    List.append_assoc, hwaits]

/-- A step with one act, which is no cancel: whom the act serves was the first of those that waited,
and whom it brings is the last of those that wait now. -/
theorem inOrder_acted {q : Pool} {act : Act} {more : List Nat} (ho : InOrder p)
    (htrace : q.trace = p.trace ++ [act]) (hcancelling : q.cancelling = p.cancelling)
    (hact : ∀ v, act ≠ .cancelled v) (hhanding : ∀ queue, handing queue act = queue ++ more)
    (hfast : begun false [act] ++ q.queued =
      p.queued ++ (posted false [act]).filter (kept p.cancelling p.trace))
    (hslow : begun true [act] ++ q.slow_io_pending_wq =
      p.slow_io_pending_wq ++ (posted true [act]).filter (kept p.cancelling p.trace))
    (hhanded : calledBack [act] ++ (q.done_wq ++ q.loop_wq) =
      p.done_wq ++ p.loop_wq ++ more.filter fun w => p.cancelling ≠ some w) : InOrder q := by
  refine ⟨?_, ?_, ?_⟩
  · rw [htrace, hcancelling]
    exact order_concat ho.fast hact hfast
  · rw [htrace, hcancelling]
    exact order_concat ho.slow hact hslow
  · rw [htrace, hcancelling]
    exact handed_concat ho.handed hhanding hhanded

theorem inOrder_nudged (h : Nudged p p') (ho : InOrder p) : InOrder p' := by
  cases h with
  | nobody h => exact ho
  | woke t h => exact { ho with }

theorem inOrder_turned (h : Turned p t p') (ho : InOrder p) : InOrder p' := by
  cases h with
  | locked is_slow_work h => exact { ho with }
  | woken h => exact { ho with }

/-- A request that was the first of its queue begins. -/
theorem inOrder_begin {q : Pool} {is_slow_work : Bool} (ho : InOrder p) (htrace : q.trace = p.trace)
    (hcancelling : q.cancelling = p.cancelling) (hloop : q.done_wq ++ q.loop_wq = p.done_wq ++ p.loop_wq)
    (hfast : p.queued = if is_slow_work then q.queued else w :: q.queued)
    (hslow : p.slow_io_pending_wq =
      if is_slow_work then w :: q.slow_io_pending_wq else q.slow_io_pending_wq) :
    InOrder (q.begin t w is_slow_work) := by
  have htrace' : (q.begin t w is_slow_work).trace = p.trace ++ [.began w is_slow_work] := by
    rw [← htrace]
    rfl
  refine inOrder_acted ho htrace' hcancelling (by simp) (fun _ => (List.append_nil _).symm) ?_ ?_ ?_
  · rw [hfast]
    cases is_slow_work <;> exact (List.append_nil _).symm
  · rw [hslow]
    cases is_slow_work <;> exact (List.append_nil _).symm
  · exact hloop.trans (List.append_nil _).symm

theorem inOrder_looked (h : Looked p t p') (ho : InOrder p) : InOrder p' := by
  cases h with
  | waits wq hleft hqueued hwq hbusy =>
    refine { ho with fast := ?_ }
    have hfast := ho.fast
    rw [hqueued, ← hwq] at hfast
    exact hfast
  | takes w wq hleft hqueued => exact inOrder_begin (q := { p with wq }) ho rfl rfl rfl hqueued rfl
  | slow w pending wq p' hrun hsched hpending hwq honce hmore hnudged =>
    have htaken : InOrder (p.takenSlow t w wq pending) :=
      inOrder_begin (q := { p with
        wq
        slow_io_work_running := p.slow_io_work_running + 1
        slow_io_pending_wq := pending }) ho rfl rfl rfl hwq.symm hpending
    rcases hnudged with ⟨rfl, -⟩ | hnudged
    · exact htaken
    · exact inOrder_nudged hnudged htaken

/-- A new request has not been cancelled. -/
theorem kept_new (ha : Alive p) (hcancelling : p.cancelling = none)
    (hnew : (p.works w).submitted = false) : kept p.cancelling p.trace w = true := by
  obtain ⟨life, hlife⟩ := ha w
  obtain rfl := life_of_new hlife hnew
  apply decide_eq_true
  refine ⟨fun hmem => ?_, by simp [hcancelling]⟩
  have hstory := mem_story hlife hmem (by simp [Act.about])
  cases hstory

/-- A new request goes behind all others of its kind. -/
theorem inOrder_posted {kind : Kind} (ha : Alive p) (hcancelling : p.cancelling = none)
    (hnew : (p.works w).submitted = false) (h : Posted (p.prepared w kind) w kind p')
    (ho : InOrder p) : InOrder p' := by
  have hself := kept_new ha hcancelling hnew
  cases h with
  | work p' hkind hnudged =>
    apply inOrder_nudged hnudged
    refine inOrder_acted ho rfl rfl (by simp) (fun _ => (List.append_nil _).symm) ?_ ?_ ?_
    · simp [Pool.prepared, Pool.log, Pool.setWork, Pool.queued, begun, posted, hkind, hself]
    · simp [Pool.prepared, Pool.log, Pool.setWork, begun, posted, hkind]
    · exact (List.append_nil _).symm
  | behind hkind hsched =>
    refine inOrder_acted ho rfl rfl (by simp) (fun _ => (List.append_nil _).symm) ?_ ?_ ?_
    · simp [Pool.prepared, Pool.log, Pool.setWork, Pool.queued, begun, posted, hkind]
    · simp [Pool.prepared, Pool.log, Pool.setWork, begun, posted, hkind, hself]
    · exact (List.append_nil _).symm
  | schedules p' hkind hsched hnudged =>
    apply inOrder_nudged hnudged
    refine inOrder_acted ho rfl rfl (by simp) (fun _ => (List.append_nil _).symm) ?_ ?_ ?_
    · simp [Pool.prepared, Pool.log, Pool.setWork, Pool.queued, begun, posted, hkind]
    · simp [Pool.prepared, Pool.log, Pool.setWork, begun, posted, hkind, hself]
    · exact (List.append_nil _).symm

/-- Who is taken out of those that wait, and has not been served, is left out of all. -/
theorem filter_out {served waits all : List Nat} {f : Nat → Bool} (hout : w ∉ served)
    (h : served ++ waits = all.filter f) :
    served ++ waits.filter (· ≠ w) = all.filter fun v => decide (v ≠ w) && f v := by
  have hserved : served.filter (· ≠ w) = served := by
    apply List.filter_eq_self.mpr
    intro v hv
    have hvw : v ≠ w := by
      rintro rfl
      exact hout hv
    simpa using hvw
  rw [← List.filter_filter, ← h, List.filter_append, hserved]

/-- A request that is taken out of its queue has not begun, nor been called back. -/
theorem inOrder_withdrew (ha : Alive p) (hcancelling : p.cancelling = none)
    (hlinked : p.linked w = true) (hwork : (p.works w).work ≠ .null) (ho : InOrder p) :
    InOrder { p.unlink w with cancelling := some w } := by
  obtain ⟨life, hlife⟩ := ha w
  have hlives := life_of_linked hlife hlinked hwork
  have hbegun : ∀ slow, w ∉ begun slow p.trace := by
    intro slow hmem
    have hstory := mem_story hlife (mem_begun.mp hmem) (by simp [Act.about])
    rcases hlives with ⟨kind, rfl⟩ | ⟨kind, k, rfl⟩ <;> simp [Life.story] at hstory
  have hcalled : w ∉ calledBack p.trace := by
    intro hmem
    obtain ⟨err, hdone⟩ := mem_calledBack.mp hmem
    have hstory := mem_story hlife hdone (by simp [Act.about])
    rcases hlives with ⟨kind, rfl⟩ | ⟨kind, k, rfl⟩ <;> simp [Life.story] at hstory
  have hfast := ho.fast
  have hslow := ho.slow
  have hhanded := ho.handed
  rw [hcancelling] at hfast hslow hhanded
  refine ⟨?_, ?_, ?_⟩
  · show _ ++ requests (p.wq.filter (· ≠ .work w)) = _
    rw [requests_filter]
    exact (filter_out (hbegun false) hfast).trans (congrArg (List.filter · _) kept_cancelling.symm)
  · exact (filter_out (hbegun true) hslow).trans (congrArg (List.filter · _) kept_cancelling.symm)
  · show _ ++ (p.done_wq.filter (· ≠ w) ++ p.loop_wq.filter (· ≠ w)) = _
    rw [← List.filter_append]
    refine (filter_out hcalled hhanded).trans ?_
    congr 1
    funext v
    simp [eq_comm]

/-- What a cancel has taken out of its queue goes to the loop. -/
theorem inOrder_cancelled (hcancelling : p.cancelling = some w) (ho : InOrder p) :
    InOrder (p.cancelled w) := by
  have hfast := ho.fast
  have hslow := ho.slow
  have hhanded := ho.handed
  rw [hcancelling] at hfast hslow hhanded
  refine ⟨order_cancelled hfast, order_cancelled hslow, ?_⟩
  have hsame : (handedOver p.trace).filter (· ≠ w) =
      (handedOver p.trace).filter fun v => some w ≠ some v := by
    congr 1
    funext v
    simp [eq_comm]
  show calledBack (p.trace ++ [_]) ++ (p.done_wq ++ (p.loop_wq ++ [w])) =
    (handedOver (p.trace ++ [.cancelled w])).filter fun v => (none : Option Nat) ≠ some v
  rw [handedOver_concat, calledBack_append]
  show calledBack p.trace ++ [] ++ _ = ((handedOver p.trace).filter (· ≠ w) ++ [w]).filter _
  rw [hsame, ← hhanded]
  simp

/-- A request that a worker has run goes to the loop. -/
theorem inOrder_finished {is_slow_work : Bool} (ha : Alive p)
    (h : p.workers[t]? = some (.running w is_slow_work)) (ho : InOrder p) :
    InOrder (p.finished t w is_slow_work) := by
  have hcancelling : p.cancelling ≠ some w := by
    intro hw
    obtain ⟨life, hlife⟩ := ha w
    obtain ⟨kind, i, rfl⟩ := life_of_running hlife h
    obtain ⟨kind', k, hlife'⟩ := life_of_cancelling hlife hw
    cases hlife'
  have hself : [w].filter (fun v => p.cancelling ≠ some v) = [w] :=
    List.filter_cons_of_pos (by simpa using hcancelling)
  refine inOrder_acted ho rfl rfl (by simp) (fun _ => rfl) ?_ ?_ ?_
  · exact (List.append_nil _).symm
  · exact (List.append_nil _).symm
  · rw [hself, List.append_assoc]
    rfl

theorem inOrder_moved {e : Event} (hq : Queues p) (ha : Alive p) (h : Moved p e p') (ho : InOrder p) :
    InOrder p' := by
  cases h with
  | submitted w kind target p' hcancelling hnew h => exact inOrder_posted ha hcancelling hnew h ho
  | withdrew w hcancelling hlinked hwork => exact inOrder_withdrew ha hcancelling hlinked hwork ho
  | busy w hcancelling hsub hcalled hbusy =>
    refine inOrder_acted ho rfl rfl (by simp) (fun _ => (List.append_nil _).symm) ?_ ?_ ?_
    · exact (List.append_nil _).symm
    · exact (List.append_nil _).symm
    · exact (List.append_nil _).symm
  | cancelled w hcancelling => exact inOrder_cancelled hcancelling ho
  | entered t target p₁ p' hturned hlooked => exact inOrder_looked hlooked (inOrder_turned hturned ho)
  | finished t w is_slow_work h => exact inOrder_finished ha h ho
  | spurious t h => exact { ho with }
  | woke hcontrol hasync => exact { ho with }
  | gathered hcontrol =>
    have hhanded := ho.handed
    rw [gathering_empty hq hcontrol] at hhanded
    refine { ho with handed := ?_ }
    rw [List.append_nil]
    exact hhanded
  | called w done_wq hcontrol hdone =>
    refine inOrder_acted ho rfl rfl (by simp) (fun _ => (List.append_nil _).symm) ?_ ?_ ?_
    · exact (List.append_nil _).symm
    · exact (List.append_nil _).symm
    · rw [hdone]
      exact (List.append_nil _).symm
  | ended hcontrol hdone => exact { ho with }

end order

/-- Slow requests, and apart from them the others, begin in the order in which they were submitted:
those that have begun, and then those that wait, are all that were submitted and not cancelled.
Requests are called back in the order in which they were handed to the loop: those that have been, and
then those that wait, are all that were handed over, but for one that is being cancelled once more. -/
theorem each_queue_is_served_in_order {val : Option Int} {es : List Event} {p : Pool}
    (h : run step (start val) es = .ok p) :
    begun false p.trace ++ p.queued = (posted false p.trace).filter (kept p.cancelling p.trace) ∧
      begun true p.trace ++ p.slow_io_pending_wq =
        (posted true p.trace).filter (kept p.cancelling p.trace) ∧
      calledBack p.trace ++ (p.done_wq ++ p.loop_wq) =
        (handedOver p.trace).filter fun w => p.cancelling ≠ some w := by
  have hboth : Sound p ∧ InOrder p := by
    refine run_keeps (P := fun p => Sound p ∧ InOrder p) ⟨sound_start val, inOrder_start val⟩
      (fun p e p' hp hstep => ?_) h
    obtain ⟨hs', hmoved⟩ := of_gives (moved e hp.1) hstep
    exact ⟨hs', inOrder_moved hp.1.queues hp.1.alive hmoved hp.2⟩
  exact ⟨hboth.2.fast, hboth.2.slow, hboth.2.handed⟩

/-- Of two slow requests, the first has begun, and the second was cancelled and called back. -/
theorem the_cancelled_request_is_left_out :
    ∃ p, run step (start (some 2)) threeRequests = .ok p ∧
      posted true p.trace = [5, 6] ∧ begun true p.trace = [5] ∧ handedOver p.trace = [6, 5] ∧
      begun true p.trace ++ p.slow_io_pending_wq =
        (posted true p.trace).filter (kept p.cancelling p.trace) ∧
      calledBack p.trace ++ (p.done_wq ++ p.loop_wq) =
        (handedOver p.trace).filter fun w => p.cancelling ≠ some w := by
  have hseen : (run step (start (some 2)) threeRequests).toOption.map
      (fun p => (posted true p.trace, begun true p.trace, handedOver p.trace)) =
      some ([5, 6], [5], [6, 5]) := by decide +kernel
  obtain ⟨p, hp, hview⟩ := ran hseen
  obtain ⟨hposted, hbegun, hhanded⟩ := Prod.ext_iff.mp hview |>.imp id Prod.ext_iff.mp
  exact ⟨p, hp, hposted, hbegun, hhanded, (each_queue_is_served_in_order hp).2⟩

end linuxc.threadpool
