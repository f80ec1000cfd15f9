-- The life of a request, as the program sees it, and how the pool keeps it: a
-- request is in one place at a time, runs at most once, never after it has been
-- cancelled, and is called back once.
import Linuxc.UvThreadpoolBooks

namespace linuxc.threadpool

open event_runs

/-! ## The life of a request -/

/-- Where a request is in its life. `i` cancels have come too late while it ran and `j` after that;
`k` have come in time. -/
inductive Life
  | unborn
  | posted (kind : Kind)
  | running (kind : Kind) (i : Nat)
  | ran (kind : Kind) (i j : Nat)
  | withdrawn (kind : Kind) (k : Nat)
  | cancelled (kind : Kind) (k : Nat)
  | done (kind : Kind) (i j : Nat)
  | doneCancelled (kind : Kind) (k : Nat)

/-- What can be seen of request `w` up to then: it is submitted, begins and has run, or is cancelled,
and is called back. -/
def Life.story (w : Nat) : Life → List Act
  | .unborn => []
  | .posted kind => [.submitted w kind]
  | .running kind i =>
    [.submitted w kind, .began w (kind = .slow_io)] ++ List.replicate i (.busy w UV_EBUSY)
  | .ran kind i j =>
    [.submitted w kind, .began w (kind = .slow_io)] ++ List.replicate i (.busy w UV_EBUSY) ++
      [.ran w] ++ List.replicate j (.busy w UV_EBUSY)
  | .withdrawn kind k => [.submitted w kind] ++ List.replicate k (.cancelled w)
  | .cancelled kind k => [.submitted w kind] ++ List.replicate (k + 1) (.cancelled w)
  | .done kind i j =>
    [.submitted w kind, .began w (kind = .slow_io)] ++ List.replicate i (.busy w UV_EBUSY) ++
      [.ran w] ++ List.replicate j (.busy w UV_EBUSY) ++ [.done w 0]
  | .doneCancelled kind k =>
    [.submitted w kind] ++ List.replicate (k + 1) (.cancelled w) ++ [.done w UV_ECANCELED]

def Life.work : Life → Work
  | .unborn => ⟨false, .null, false⟩
  | .posted _ => ⟨true, .given, false⟩
  | .running _ _ => ⟨true, .given, false⟩
  | .ran _ _ _ => ⟨true, .null, false⟩
  | .withdrawn _ k => ⟨true, if k = 0 then .given else .cancelled, false⟩
  | .cancelled _ _ => ⟨true, .cancelled, false⟩
  | .done _ _ _ => ⟨true, .null, true⟩
  | .doneCancelled _ _ => ⟨true, .cancelled, true⟩

/-- What the pool holds of one request: how often it is in the queues of the workers, run by a worker
and in the queues of the loop, whether it is being cancelled, its `work` and what has been seen of it. -/
@[ext] structure View where
  queued : Nat
  pending : Nat
  running : Nat
  handed : Nat
  cancelling : Bool
  work : Work
  story : List Act

/-- What the pool is to hold of a request. -/
def Life.view (w : Nat) (life : Life) : View where
  queued :=
    match life with
    | .posted kind => if kind = .slow_io then 0 else 1
    | _ => 0
  pending :=
    match life with
    | .posted kind => if kind = .slow_io then 1 else 0
    | _ => 0
  running :=
    match life with
    | .running _ _ => 1
    | _ => 0
  handed :=
    match life with
    | .ran _ _ _ => 1
    | .cancelled _ _ => 1
    | _ => 0
  cancelling :=
    match life with
    | .withdrawn _ _ => true
    | _ => false
  work := life.work
  story := life.story w

/-- The act is about request `w`. -/
def Act.about (w : Nat) : Act → Bool
  | .submitted v _ => v = w
  | .began v _ => v = w
  | .ran v => v = w
  | .cancelled v => v = w
  | .busy v _ => v = w
  | .done v _ => v = w

def Pool.view (p : Pool) (w : Nat) : View where
  queued := p.queued.count w
  pending := p.slow_io_pending_wq.count w
  running := p.count (Worker.runs w)
  handed := p.loop_wq.count w + p.done_wq.count w
  cancelling := p.cancelling = some w
  work := p.works w
  story := p.trace.filter (Act.about w)

/-- Each request is somewhere in its life. -/
def Alive (p : Pool) : Prop := ∀ w, ∃ life : Life, p.view w = life.view w

theorem alive_start (val : Option Int) : Alive (start val) := by
  intro w
  refine ⟨.unborn, ?_⟩
  have hcount : (start val).count (Worker.runs w) = 0 := count_start val rfl
  unfold Pool.view
  rw [hcount]
  rfl

section places

variable {p : Pool} {w t : Nat} {life : Life} {is_slow_work : Bool}

theorem life_of_queued (h : p.view w = life.view w) (hw : w ∈ p.queued) :
    ∃ kind, life = .posted kind ∧ kind ≠ .slow_io := by
  have hpos : 0 < (p.view w).queued := List.count_pos_iff.mpr hw
  rw [h] at hpos
  cases life with
  | posted kind =>
    refine ⟨kind, rfl, ?_⟩
    rintro rfl
    exact absurd hpos (by simp [Life.view])
  | _ => exact absurd hpos (by simp [Life.view])

theorem life_of_pending (h : p.view w = life.view w) (hw : w ∈ p.slow_io_pending_wq) :
    life = .posted .slow_io := by
  have hpos : 0 < (p.view w).pending := List.count_pos_iff.mpr hw
  rw [h] at hpos
  cases life with
  | posted kind => cases kind <;> first | rfl | exact absurd hpos (by simp [Life.view])
  | _ => exact absurd hpos (by simp [Life.view])

theorem life_of_running (h : p.view w = life.view w)
    (hw : p.workers[t]? = some (.running w is_slow_work)) : ∃ kind i, life = .running kind i := by
  have hpos : 0 < (p.view w).running := count_pos hw (by simp [Worker.runs])
  rw [h] at hpos
  cases life with
  | running kind i => exact ⟨kind, i, rfl⟩
  | _ => exact absurd hpos (by simp [Life.view])

theorem life_of_handed (h : p.view w = life.view w) (hw : w ∈ p.loop_wq ∨ w ∈ p.done_wq) :
    (∃ kind i j, life = .ran kind i j) ∨ ∃ kind k, life = .cancelled kind k := by
  have hpos : 0 < (p.view w).handed := by
    rcases hw with hw | hw
    · exact Nat.add_pos_left (List.count_pos_iff.mpr hw) _
    · exact Nat.add_pos_right _ (List.count_pos_iff.mpr hw)
  rw [h] at hpos
  cases life with
  | ran kind i j => exact .inl ⟨kind, i, j, rfl⟩
  | cancelled kind k => exact .inr ⟨kind, k, rfl⟩
  | _ => exact absurd hpos (by simp [Life.view])

theorem life_of_cancelling (h : p.view w = life.view w) (hw : p.cancelling = some w) :
    ∃ kind k, life = .withdrawn kind k := by
  have hcancelling : (p.view w).cancelling = true := decide_eq_true hw
  rw [h] at hcancelling
  cases life with
  | withdrawn kind k => exact ⟨kind, k, rfl⟩
  | _ => exact absurd hcancelling (by simp [Life.view])

theorem life_of_new (h : p.view w = life.view w) (hw : (p.works w).submitted = false) :
    life = .unborn := by
  have hsub : (p.view w).work.submitted = false := hw
  rw [h] at hsub
  cases life with
  | unborn => rfl
  | _ => exact absurd hsub (by simp [Life.view, Life.work])

/-- What has been seen of a request belongs to its life. -/
theorem mem_story {act : Act} (h : p.view w = life.view w) (hact : act ∈ p.trace)
    (hw : act.about w = true) : act ∈ life.story w := by
  have hmem : act ∈ (p.view w).story := List.mem_filter.mpr ⟨hact, hw⟩
  rw [h] at hmem
  exact hmem

end places

/-! ## What the steps leave alone -/

section frames

variable {p p' : Pool} {t v w : Nat} {a b : Worker} {is_slow_work : Bool} {act : Act}

theorem about_append (h : act.about v = false) :
    (p.trace ++ [act]).filter (Act.about v) = p.trace.filter (Act.about v) := by
  simp [List.filter_append, h]

/-- A worker that runs nothing, before and after, does not matter to any request. -/
theorem runs_set (h : p.workers[t]? = some a) (hset : p'.workers = p.workers.set t b)
    (hruns : a.runs v = b.runs v) : p'.count (Worker.runs v) = p.count (Worker.runs v) := by
  have hcount := count_set (Worker.runs v) h hset
  rw [hruns] at hcount
  omega

theorem view_nudged (h : Nudged p p') : p'.view v = p.view v := by
  cases h with
  | nobody h => rfl
  | woke t h => exact View.ext rfl rfl (runs_set h rfl rfl) rfl rfl rfl rfl

theorem view_turned (h : Turned p t p') : p'.view v = p.view v := by
  cases h with
  | locked is_slow_work h => exact View.ext rfl rfl (runs_set h rfl rfl) rfl rfl rfl rfl
  | woken h => exact View.ext rfl rfl (runs_set h rfl rfl) rfl rfl rfl rfl

theorem view_posted {kind : Kind} (hvw : v ≠ w) (h : Posted p w kind p') : p'.view v = p.view v := by
  have hcount : ∀ l : List Nat, (l ++ [w]).count v = l.count v := by
    intro l
    rw [List.count_append, List.count_singleton, if_neg (by simpa using hvw.symm), Nat.add_zero]
  cases h with
  | work p' hkind hnudged =>
    refine (view_nudged hnudged).trans (View.ext ?_ rfl rfl rfl rfl rfl rfl)
    change (requests (p.wq ++ [.work w])).count v = _
    rw [requests_append]
    exact hcount _
  | behind hkind hsched => exact View.ext rfl (hcount _) rfl rfl rfl rfl rfl
  | schedules p' hkind hsched hnudged =>
    refine (view_nudged hnudged).trans (View.ext ?_ (hcount _) rfl rfl rfl rfl rfl)
    change (requests (p.wq ++ [.run_slow_work_message])).count v = _
    simp [Pool.view, Pool.queued]

theorem view_begin (hvw : v ≠ w) (ht : p.workers[t]? = some (.locking false)) :
    (p.begin t w is_slow_work).view v = p.view v := by
  refine View.ext rfl rfl (runs_set ht rfl ?_) rfl rfl rfl (about_append ?_)
  · simpa [Worker.runs] using hvw.symm
  · simpa [Act.about] using hvw.symm

theorem view_finished (hvw : v ≠ w) (ht : p.workers[t]? = some (.running w is_slow_work)) :
    (p.finished t w is_slow_work).view v = p.view v := by
  refine View.ext rfl rfl (runs_set ht rfl ?_) ?_ rfl (if_neg hvw) (about_append ?_)
  · simpa [Worker.runs] using hvw.symm
  · change (p.loop_wq ++ [w]).count v + p.done_wq.count v = _
    simp [Pool.view, hvw.symm]
  · simpa [Act.about] using hvw.symm

theorem view_unlink (hvw : v ≠ w) (hcancelling : p.cancelling = none) :
    { p.unlink w with cancelling := some w : Pool }.view v = p.view v := by
  have hcount : ∀ l : List Nat, (l.filter (· ≠ w)).count v = l.count v := fun l =>
    List.count_filter (by simpa using hvw)
  refine View.ext ?_ (hcount _) rfl ?_ ?_ rfl rfl
  · change (requests (p.wq.filter (· ≠ .work w))).count v = _
    rw [requests_filter]
    exact hcount _
  · exact congrArg₂ (· + ·) (hcount _) (hcount _)
  · simp [Pool.view, hcancelling, hvw.symm]

theorem view_cancelled (hvw : v ≠ w) (hcancelling : p.cancelling = some w) :
    (p.cancelled w).view v = p.view v := by
  refine View.ext rfl rfl rfl ?_ ?_ (if_neg hvw) (about_append ?_)
  · change (p.loop_wq ++ [w]).count v + p.done_wq.count v = _
    simp [Pool.view, hvw.symm]
  · simp [Pool.view, Pool.cancelled, Pool.setWork, Pool.log, hcancelling, hvw.symm]
  · simpa [Act.about] using hvw.symm

theorem view_calledBack {done_wq : List Nat} (hvw : v ≠ w) (hdone : p.done_wq = w :: done_wq) :
    (p.calledBack w done_wq).view v = p.view v := by
  refine View.ext rfl rfl rfl ?_ rfl (if_neg hvw) (about_append ?_)
  · change p.loop_wq.count v + done_wq.count v = _
    simp [Pool.view, hdone, hvw.symm]
  · simpa [Act.about] using hvw.symm

end frames

/-! ## Each step is one of the life -/

section lives

variable {p p' q : Pool} {t w : Nat} {is_slow_work : Bool}

theorem alive_of (w : Nat) (ha : Alive p) (hother : ∀ v, v ≠ w → p'.view v = p.view v)
    (hself : ∀ life, p.view w = Life.view w life → ∃ life', p'.view w = Life.view w life') :
    Alive p' := by
  intro v
  obtain ⟨life, hlife⟩ := ha v
  by_cases hvw : v = w
  · subst hvw
    exact hself life hlife
  · exact ⟨life, (hother v hvw).trans hlife⟩

theorem alive_same (ha : Alive p) (h : ∀ v, p'.view v = p.view v) : Alive p' :=
  alive_of 0 ha (fun v _ => h v) fun life hlife => ⟨life, (h 0).trans hlife⟩

theorem alive_nudged (h : Nudged p p') (ha : Alive p) : Alive p' :=
  alive_same ha fun _ => view_nudged h

/-- A request that has left its queue begins to run. -/
theorem view_begin_self (kind : Kind) (ht : q.workers[t]? = some (.locking false))
    (hview : q.view w = { (Life.posted kind).view w with queued := 0, pending := 0 }) :
    (q.begin t w (kind = .slow_io)).view w = (Life.running kind 0).view w := by
  rw [View.ext_iff] at hview
  obtain ⟨hqueued, hpending, hrunning, hhanded, hcancelling, hwork, hstory⟩ := hview
  refine View.ext hqueued hpending ?_ hhanded hcancelling hwork ?_
  · have hcount := count_set (p := q) (q := q.begin t w (kind = .slow_io)) (Worker.runs w) ht rfl
    have hnone : q.count (Worker.runs w) = 0 := hrunning
    simp only [Worker.runs, hnone, decide_true, Bool.toNat_true, Bool.toNat_false] at hcount
    exact hcount
  · change (q.trace ++ [_]).filter (Act.about w) = _
    rw [List.filter_append, show q.trace.filter (Act.about w) = _ from hstory]
    simp [Life.view, Life.story, Act.about]

theorem alive_looked (ha : Alive p) (ht : p.workers[t]? = some (.locking false)) (h : Looked p t p') :
    Alive p' := by
  cases h with
  | waits wq hleft hqueued hwq hbusy =>
    refine alive_same ha fun v => View.ext ?_ rfl (runs_set ht rfl rfl) rfl rfl rfl rfl
    change (requests wq).count v = p.queued.count v
    rw [hwq, hqueued]
  | takes w wq hleft hqueued =>
    refine alive_of w ha (fun v hvw => (view_begin (p := { p with wq }) hvw ht).trans ?_)
      fun life hlife => ?_
    · refine View.ext ?_ rfl rfl rfl rfl rfl rfl
      change (requests wq).count v = p.queued.count v
      rw [hqueued, List.count_cons_of_ne hvw.symm]
    · obtain ⟨kind, rfl, hkind⟩ := life_of_queued hlife (by simp [hqueued])
      have hfast : false = decide (kind = .slow_io) := by simp [hkind]
      refine ⟨.running kind 0, ?_⟩
      rw [hfast]
      refine view_begin_self kind (q := { p with wq }) ht ?_
      rw [View.ext_iff] at hlife ⊢
      refine ⟨?_, ?_, hlife.2.2⟩
      · have hone : p.queued.count w = 1 := by
          rw [show p.queued.count w = _ from hlife.1]
          simp [Life.view, hkind]
        rw [hqueued, List.count_cons_self] at hone
        exact Nat.succ.inj hone
      · rw [show ({ p with wq : Pool }.view w).pending = _ from hlife.2.1]
        simp [Life.view, hkind]
  | slow w pending wq p' hrun hsched hpending hwq honce hmore hnudged =>
    have htaken : Alive (p.takenSlow t w wq pending) := by
      refine alive_of w ha (fun v hvw => (view_begin (p := { p with
        wq
        slow_io_work_running := p.slow_io_work_running + 1
        slow_io_pending_wq := pending }) hvw ht).trans ?_) fun life hlife => ?_
      · refine View.ext (congrArg (List.count v) hwq) ?_ rfl rfl rfl rfl rfl
        change pending.count v = p.slow_io_pending_wq.count v
        rw [hpending, List.count_cons_of_ne hvw.symm]
      · obtain rfl := life_of_pending hlife (by simp [hpending])
        refine ⟨.running .slow_io 0, view_begin_self .slow_io (q := { p with
          wq
          slow_io_work_running := p.slow_io_work_running + 1
          slow_io_pending_wq := pending }) ht ?_⟩
        rw [View.ext_iff] at hlife ⊢
        refine ⟨(congrArg (List.count w) hwq).trans hlife.1, ?_, hlife.2.2⟩
        have hone : p.slow_io_pending_wq.count w = 1 := hlife.2.1
        rw [hpending, List.count_cons_self] at hone
        exact Nat.succ.inj hone
    rcases hnudged with ⟨rfl, -⟩ | hnudged
    · exact htaken
    · exact alive_nudged hnudged htaken

theorem story_append {act : Act} {story : List Act} (h : (p.view w).story = story)
    (hact : act.about w = true) : (p.trace ++ [act]).filter (Act.about w) = story ++ [act] := by
  rw [List.filter_append, show p.trace.filter (Act.about w) = _ from h]
  simp [hact]

theorem count_append_self (l : List Nat) : (l ++ [w]).count w = l.count w + 1 := by simp

theorem count_filter_self (l : List Nat) : (l.filter (· ≠ w)).count w = 0 := by
  rw [List.count_eq_zero]
  simp

theorem alive_submitted {kind : Kind} (ha : Alive p) (hnew : (p.works w).submitted = false)
    (h : Posted (p.prepared w kind) w kind p') : Alive p' := by
  refine alive_of w ha (fun v hvw => (view_posted hvw h).trans ?_) fun life hlife => ?_
  · refine View.ext rfl rfl rfl rfl rfl (if_neg hvw) (about_append ?_)
    simpa [Act.about] using hvw.symm
  · obtain rfl := life_of_new hlife hnew
    rw [View.ext_iff] at hlife
    obtain ⟨hqueued, hpending, hrunning, hhanded, hcancelling, -, hstory⟩ := hlife
    refine ⟨.posted kind, ?_⟩
    have hstory' : (p.prepared w kind).trace.filter (Act.about w) = [.submitted w kind] :=
      story_append hstory (by simp [Act.about])
    cases h with
    | work p' hkind hnudged =>
      refine (view_nudged hnudged).trans
        (View.ext ?_ ?_ hrunning hhanded hcancelling (if_pos rfl) hstory')
      · change (requests (p.wq ++ [.work w])).count w = _
        rw [requests_append]
        change (p.queued ++ [w]).count w = _
        rw [count_append_self, show p.queued.count w = 0 from hqueued]
        simp [Life.view, hkind]
      · exact hpending.trans (by simp [Life.view, hkind])
    | behind hkind hsched =>
      subst hkind
      refine View.ext hqueued ?_ hrunning hhanded hcancelling (if_pos rfl) hstory'
      exact (count_append_self _).trans (congrArg (· + 1) hpending)
    | schedules p' hkind hsched hnudged =>
      subst hkind
      refine (view_nudged hnudged).trans
        (View.ext ?_ ?_ hrunning hhanded hcancelling (if_pos rfl) hstory')
      · change (requests (p.wq ++ [.run_slow_work_message])).count w = _
        simp only [requests_append, requests_message, requests_nil, List.append_nil]
        exact hqueued
      · exact (count_append_self _).trans (congrArg (· + 1) hpending)

/-- What is in a queue and has something to run is queued, or cancelled. -/
theorem life_of_linked {life : Life} (hlife : p.view w = life.view w) (hlinked : p.linked w = true)
    (hwork : (p.works w).work ≠ .null) :
    (∃ kind, life = .posted kind) ∨ ∃ kind k, life = .cancelled kind k := by
  rcases of_decide_eq_true hlinked with hmem | hmem | hmem
  · obtain ⟨kind, rfl, -⟩ := life_of_queued hlife (mem_requests.mpr hmem)
    exact .inl ⟨kind, rfl⟩
  · exact .inl ⟨.slow_io, life_of_pending hlife hmem⟩
  · rcases life_of_handed hlife hmem with ⟨kind, i, j, rfl⟩ | ⟨kind, k, rfl⟩
    · have hnull : (p.view w).work.work = .null := by
        rw [hlife]
        rfl
      exact absurd hnull hwork
    · exact .inr ⟨kind, k, rfl⟩

theorem alive_withdrew (ha : Alive p) (hcancelling : p.cancelling = none) (hlinked : p.linked w = true)
    (hwork : (p.works w).work ≠ .null) : Alive { p.unlink w with cancelling := some w } := by
  refine alive_of w ha (fun v hvw => view_unlink hvw hcancelling) fun life hlife => ?_
  have hqueued : (requests (p.wq.filter (· ≠ .work w))).count w = 0 := by
    rw [requests_filter]
    exact count_filter_self _
  have hhanded : (p.loop_wq.filter (· ≠ w)).count w + (p.done_wq.filter (· ≠ w)).count w = 0 := by
    rw [count_filter_self, count_filter_self]
  have hself : decide (some w = some w) = true := decide_eq_true rfl
  rcases life_of_linked hlife hlinked hwork with ⟨kind, rfl⟩ | ⟨kind, k, rfl⟩
  · rw [View.ext_iff] at hlife
    obtain ⟨-, -, hrunning, -, -, hworks, hstory⟩ := hlife
    exact ⟨.withdrawn kind 0, View.ext hqueued (count_filter_self _) hrunning hhanded hself hworks hstory⟩
  · rw [View.ext_iff] at hlife
    obtain ⟨-, -, hrunning, -, -, hworks, hstory⟩ := hlife
    exact ⟨.withdrawn kind (k + 1),
      View.ext hqueued (count_filter_self _) hrunning hhanded hself hworks hstory⟩

theorem alive_busy (ha : Alive p) (hcancelling : p.cancelling = none)
    (hsub : (p.works w).submitted = true) (hcalled : (p.works w).called = false)
    (hbusy : p.linked w = true → (p.works w).work = .null) : Alive (p.log (.busy w UV_EBUSY)) := by
  refine alive_of w ha (fun v hvw => View.ext rfl rfl rfl rfl rfl rfl (about_append ?_))
    fun life hlife => ?_
  · simpa [Act.about] using hvw.symm
  have hview := hlife
  rw [View.ext_iff] at hlife
  obtain ⟨hqueued, hpending, hrunning, hhanded, hcan, hworks, hstory⟩ := hlife
  have hmore : (p.trace ++ [Act.busy w UV_EBUSY]).filter (Act.about w) = _ :=
    story_append hstory (by simp [Act.about])
  have hno : p.linked w = true → (p.works w).work ≠ .null → False := fun h hne => hne (hbusy h)
  have hworks' : p.works w = life.work := hworks
  cases life with
  | unborn =>
    rw [hworks'] at hsub
    cases hsub
  | posted kind =>
    refine absurd ?_ (hno · (by rw [hworks']; simp [Life.work]))
    by_cases hkind : kind = .slow_io
    · subst hkind
      have hmem : w ∈ p.slow_io_pending_wq :=
        List.count_pos_iff.mp (by rw [show p.slow_io_pending_wq.count w = 1 from hpending]; omega)
      exact decide_eq_true (.inr (.inl hmem))
    · have hone : p.queued.count w = 1 := hqueued.trans (by simp [Life.view, hkind])
      have hmem : w ∈ p.queued := List.count_pos_iff.mp (by omega)
      exact decide_eq_true (.inl (mem_requests.mp hmem))
  | running kind i =>
    refine ⟨.running kind (i + 1), View.ext hqueued hpending hrunning hhanded hcan hworks ?_⟩
    refine hmore.trans ?_
    simp [Life.view, Life.story, List.replicate_succ']
  | ran kind i j =>
    refine ⟨.ran kind i (j + 1), View.ext hqueued hpending hrunning hhanded hcan hworks ?_⟩
    refine hmore.trans ?_
    simp [Life.view, Life.story, List.replicate_succ']
  | withdrawn kind k =>
    have : p.cancelling = some w := of_decide_eq_true hcan
    rw [hcancelling] at this
    cases this
  | cancelled kind k =>
    refine absurd ?_ (hno · (by rw [hworks']; simp [Life.work]))
    have hone : p.loop_wq.count w + p.done_wq.count w = 1 := hhanded
    by_cases hmem : w ∈ p.loop_wq
    · exact decide_eq_true (.inr (.inr (.inl hmem)))
    · rw [List.count_eq_zero.mpr hmem] at hone
      exact decide_eq_true (.inr (.inr (.inr (List.count_pos_iff.mp (by omega)))))
  | done kind i j =>
    rw [hworks'] at hcalled
    cases hcalled
  | doneCancelled kind k =>
    rw [hworks'] at hcalled
    cases hcalled

theorem alive_cancelled (ha : Alive p) (hcancelling : p.cancelling = some w) :
    Alive (p.cancelled w) := by
  refine alive_of w ha (fun v hvw => view_cancelled hvw hcancelling) fun life hlife => ?_
  obtain ⟨kind, k, rfl⟩ := life_of_cancelling hlife hcancelling
  rw [View.ext_iff] at hlife
  obtain ⟨hqueued, hpending, hrunning, hhanded, -, hworks, hstory⟩ := hlife
  refine ⟨.cancelled kind k, View.ext hqueued hpending hrunning ?_ rfl ?_ ?_⟩
  · have hnone : p.loop_wq.count w + p.done_wq.count w = 0 := hhanded
    change (p.loop_wq ++ [w]).count w + p.done_wq.count w = 1
    rw [count_append_self]
    omega
  · refine (if_pos rfl).trans ?_
    rw [show p.works w = _ from hworks]
    rfl
  · refine (story_append hstory (by simp [Act.about])).trans ?_
    simp [Life.view, Life.story, List.replicate_succ']

theorem alive_finished (ha : Alive p) (ht : p.workers[t]? = some (.running w is_slow_work)) :
    Alive (p.finished t w is_slow_work) := by
  refine alive_of w ha (fun v hvw => view_finished hvw ht) fun life hlife => ?_
  obtain ⟨kind, i, rfl⟩ := life_of_running hlife ht
  rw [View.ext_iff] at hlife
  obtain ⟨hqueued, hpending, hrunning, hhanded, hcancelling, hworks, hstory⟩ := hlife
  refine ⟨.ran kind i 0, View.ext hqueued hpending ?_ ?_ hcancelling ?_ ?_⟩
  · have hcount := count_set (q := p.finished t w is_slow_work) (Worker.runs w) ht rfl
    have hone : p.count (Worker.runs w) = 1 := hrunning
    simp only [Worker.runs, hone, decide_true, Bool.toNat_true, Bool.toNat_false] at hcount
    exact Nat.succ.inj hcount
  · have hnone : p.loop_wq.count w + p.done_wq.count w = 0 := hhanded
    change (p.loop_wq ++ [w]).count w + p.done_wq.count w = 1
    rw [count_append_self]
    omega
  · refine (if_pos rfl).trans ?_
    rw [show p.works w = _ from hworks]
    rfl
  · refine (story_append hstory (by simp [Act.about])).trans ?_
    simp [Life.view, Life.story]

theorem alive_calledBack {done_wq : List Nat} (ha : Alive p) (hdone : p.done_wq = w :: done_wq) :
    Alive (p.calledBack w done_wq) := by
  refine alive_of w ha (fun v hvw => view_calledBack hvw hdone) fun life hlife => ?_
  have hhanded' : life.view w = p.view w → (life.view w).handed = 1 →
      p.loop_wq.count w + done_wq.count w = 0 := by
    intro hview hone
    rw [hview] at hone
    change p.loop_wq.count w + p.done_wq.count w = 1 at hone
    rw [hdone, List.count_cons_self] at hone
    omega
  have hwork : p.works w = life.work := congrArg View.work hlife
  rcases life_of_handed hlife (.inr (by simp [hdone])) with ⟨kind, i, j, rfl⟩ | ⟨kind, k, rfl⟩
  · have hnone := hhanded' hlife.symm rfl
    rw [View.ext_iff] at hlife
    obtain ⟨hqueued, hpending, hrunning, -, hcancelling, -, hstory⟩ := hlife
    refine ⟨.done kind i j, View.ext hqueued hpending hrunning hnone hcancelling ?_ ?_⟩
    · refine (if_pos rfl).trans ?_
      rw [show p.works w = _ from hwork]
      rfl
    · refine (story_append hstory (by simp [Act.about])).trans ?_
      simp [hwork, Life.work, Life.view, Life.story]
  · have hnone := hhanded' hlife.symm rfl
    rw [View.ext_iff] at hlife
    obtain ⟨hqueued, hpending, hrunning, -, hcancelling, -, hstory⟩ := hlife
    refine ⟨.doneCancelled kind k, View.ext hqueued hpending hrunning hnone hcancelling ?_ ?_⟩
    · refine (if_pos rfl).trans ?_
      rw [show p.works w = _ from hwork]
      rfl
    · refine (story_append hstory (by simp [Act.about])).trans ?_
      simp [hwork, Life.work, Life.view, Life.story]

theorem alive_moved {e : Event} (hq : Queues p) (ha : Alive p) (h : Moved p e p') : Alive p' := by
  cases h with
  | submitted w kind target p' hcancelling hnew h => exact alive_submitted ha hnew h
  | withdrew w hcancelling hlinked hwork => exact alive_withdrew ha hcancelling hlinked hwork
  | busy w hcancelling hsub hcalled hbusy => exact alive_busy ha hcancelling hsub hcalled hbusy
  | cancelled w hcancelling => exact alive_cancelled ha hcancelling
  | entered t target p₁ p' hturned hlooked =>
    exact alive_looked (alive_same ha fun _ => view_turned hturned) (turned_self hturned) hlooked
  | finished t w is_slow_work h => exact alive_finished ha h
  | spurious t h => exact alive_nudged (.woke t h) ha
  | woke hcontrol hasync => exact ha
  | gathered hcontrol =>
    have hnil := gathering_empty hq hcontrol
    refine alive_same ha fun v => View.ext rfl rfl rfl ?_ rfl rfl rfl
    simp [Pool.view, hnil]
  | called w done_wq hcontrol hdone => exact alive_calledBack ha hdone
  | ended hcontrol hdone => exact ha

/-- What a worker runs was handed in by the program. -/
theorem given_of_alive (ha : Alive p) (ht : p.workers[t]? = some (.running w is_slow_work)) :
    (p.works w).work = .given := by
  obtain ⟨life, hlife⟩ := ha w
  obtain ⟨kind, i, rfl⟩ := life_of_running hlife ht
  exact congrArg (fun view => view.work.work) hlife

end lives

/-! ## Runs -/

/-- All that holds of the pool between its steps. -/
structure Sound (p : Pool) : Prop where
  counts : Counts p
  queues : Queues p
  alive : Alive p

theorem sound_start (val : Option Int) : Sound (start val) :=
  ⟨counts_start val, queues_start val, alive_start val⟩

theorem moved {p : Pool} (e : Event) (hs : Sound p) :
    Gives Refuses (step p e) fun p' => Sound p' ∧ Moved p e p' := by
  refine gives_mono (step.spec e hs.queues.once fun t w is_slow_work ht => given_of_alive hs.alive ht)
    (fun _ => id) fun p' h => ⟨⟨?_, ?_, ?_⟩, h⟩
  · exact counts_moved hs.counts h
  · exact queues_moved hs.queues h
  · exact alive_moved hs.queues hs.alive h

theorem sound_run {val : Option Int} {es : List Event} {p : Pool}
    (h : run step (start val) es = .ok p) : Sound p :=
  run_keeps (sound_start val) (fun _ e _ hs hstep => (of_gives (moved e hs) hstep).1) h

end linuxc.threadpool
