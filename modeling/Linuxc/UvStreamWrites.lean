-- The laws of the writes of a stream, in every run: no assertion of libuv fails
-- by itself, each write is called back once and in its turn, the kernel gets
-- the bytes in their order, and write_queue_size is what is still to be sent.
import Linuxc.UvStreamBooks

namespace linuxc.uv_stream

open event_runs

/-! ## No assertion fails -/

theorem Moved.closing {s s' : Stream} {e : Event} (h : Moved s e s') (hcl : s'.closing = true) :
    s.closing = true ∨ e = .uvClose := by
  cases h with
  | closes h => exact .inr rfl
  | writes id bufs answers _ hbufs hw hreq hsize h =>
    obtain ⟨_, _, _, _, _, _, rfl⟩ := h.same
    exact .inl hcl
  | readOne answer count ev _ hc hr h => cases h <;> exact .inl hcl
  | ioWrites soError ev answers _ hc hfd h =>
    obtain ⟨_, _, _, _, _, _, rfl⟩ := h.same
    exact .inl hcl
  | drains soError _ hc hq h =>
    obtain ⟨_, _, _, _, rfl⟩ := h.same
    exact .inl hcl
  | closed soError _ hc h =>
    obtain ⟨_, _, _, _, rfl⟩ := h.same
    exact .inl hcl
  | _ => exact .inl hcl

def readable : PollEvents := ⟨true, false, false, false⟩
def writable : PollEvents := ⟨false, true, false, false⟩

/-- A connection that sends two writes, and is closed before all of the second is gone. -/
def session : List Event := [
  .uvConnect 0, .uvWrite 1 [⟨100, 5⟩] [], .poll writable 0, .resume [] 0,
  .poll writable 0, .resume [] 0, .resume [.wrote 3] 0, .resume [] 0,
  .uvWrite 2 [⟨200, 4⟩] [], .uvReadStart,
  .poll writable 0, .resume [] 0, .resume [.wrote 2, .wrote 1] 0, .callback, .resume [] 0,
  .poll readable 0, .readOne (.bytes 7 9), .resume [] 0, .resume [] 0,
  .uvClose]

def ending : List Event := [.finishClose, .callback, .resume [] 0, .uvWrite 3 [⟨300, 1⟩] []]

theorem the_session_runs : ∃ s s', run step start session = .ok s ∧ run step s ending = .ok s' ∧
    s'.trace = [.accepted 1 [⟨100, 5⟩], .connectCb 0, .handed [100, 101, 102],
      .accepted 2 [⟨200, 4⟩], .handed [103, 104], .handed [200], .writeCb 1 0, .readCb 7, .closing,
      .writeCb 2 UV_ECANCELED, .closeCb, .refused 3 UV_EBADF] := by
  have hseen : (run step start (session ++ ending)).toOption.map (fun s => s.trace) = some
      [.accepted 1 [⟨100, 5⟩], .connectCb 0, .handed [100, 101, 102],
        .accepted 2 [⟨200, 4⟩], .handed [103, 104], .handed [200], .writeCb 1 0, .readCb 7, .closing,
        .writeCb 2 UV_ECANCELED, .closeCb, .refused 3 UV_EBADF] := by decide +kernel
  obtain ⟨s', hrun, htrace⟩ := ran hseen
  obtain ⟨s, h, h'⟩ := run_append_ok.mp hrun
  exact ⟨s, s', h, h', htrace⟩

/-! ## After uv_close -/

/-- What is still said after `uv_close`. -/
def Act.late : Act → Bool
  | .refused _ _ | .writeCb _ _ | .connectCb _ | .shutdownCb _ | .closeCb => true
  | _ => false

/-- What becomes of the writes in flight when the handle is being closed: those that are over keep
their status, and the others are cancelled. -/
def Stream.settled (s : Stream) : List (Nat × Int) :=
  writeCbs s.trace ++
    ((s.control.pq ++ s.writeCompletedQueue).map (fun r => (r.id, r.error)) ++
      s.writeQueue.map fun r => (r.id, UV_ECANCELED))

/-- The close is over. -/
def Stream.isOver (s : Stream) : Bool := s.closed && decide (s.control = .idle)

/-- A step after `uv_close`: few things are said, and the end of the close is said once. -/
structure Late (s s' : Stream) : Prop where
  acts : ∃ acts, s'.trace = s.trace ++ acts ∧ (∀ a ∈ acts, a.late = true) ∧
    acts.count .closeCb + s.isOver.toNat = s'.isOver.toNat
  settled : s'.settled = s.settled

section late

variable {s s' : Stream}

theorem isOver_of_busy (hc : s.control ≠ .idle) : s.isOver = false := by
  simp [Stream.isOver, hc]

theorem isOver_of_not_closed (hc : s.closed = false) : s.isOver = false := by
  simp [Stream.isOver, hc]

theorem late_silent (htrace : s'.trace = s.trace) (hover : s'.isOver = s.isOver)
    (hsettled : s'.settled = s.settled) : Late s s' :=
  ⟨⟨[], by simp [htrace], by simp, by simp [hover]⟩, hsettled⟩

/-- Libuv goes on to a place where it calls nothing back. -/
theorem late_goto {control : Control} (hpq : s.control.pq = []) (hpq' : control.pq = [])
    (hover : (s.goto control).isOver = s.isOver) : Late s (s.goto control) :=
  late_silent rfl hover (by simp [Stream.settled, Stream.goto, hpq, hpq'])

theorem late_said {a : Act} (htrace : s'.trace = s.trace ++ [a]) (ha : a.late = true)
    (hnot : a ≠ .closeCb) (hover : s'.isOver = s.isOver) (hsettled : s'.settled = s.settled) :
    Late s s' :=
  ⟨⟨[a], htrace, by simpa using ha, by simp [hover, hnot]⟩, hsettled⟩

theorem settled_flush {acts : List Act} {closed connectReq : Bool} {activeReqs : Nat}
    {after : After} (hpq : s.control.pq = []) (hacts : writeCbs acts = []) :
    ((({ s with closed, connectReq, activeReqs, trace := s.trace ++ acts } : Stream).flush
      UV_ECANCELED).callbacks after).settled = s.settled := by
  simp [Stream.settled, Stream.callbacks, Stream.goto, Stream.flush, hpq, hacts]

theorem settled_of_queues (htrace : writeCbs s'.trace = writeCbs s.trace)
    (hqueue : s'.writeQueue = s.writeQueue) (hdone : s'.writeCompletedQueue = s.writeCompletedQueue)
    (hpq : s'.control.pq = s.control.pq) : s'.settled = s.settled := by
  unfold Stream.settled
  rw [htrace, hqueue, hdone, hpq]

theorem Drained.said (h : Drained s s') :
    ∃ acts, s'.trace = s.trace ++ acts ∧ (∀ a ∈ acts, a.late = true) ∧ writeCbs acts = [] ∧
      acts.count .closeCb = 0 := by
  cases h with
  | plain hr => exact ⟨[], by simp, by simp, rfl, rfl⟩
  | shuts err hr herr hcl =>
    exact ⟨[.shutdownCb err], rfl, by simp [Act.late], by simp [Act.calledBack], by simp⟩

theorem late_moved {e : Event} (hs : Sound s) (hcl : s.closing = true) (h : Moved s e s') :
    Late s s' := by
  have hfd := hs.flags.closing hcl
  have hoff := hs.flags.off hfd
  have hw : s.writable = false := Bool.eq_false_iff.mpr fun h => by
    rw [hs.flags.writable h] at hfd
    cases hfd
  -- a place before the close: libuv is busy there, and not closed
  have hbusy : s.control ≠ .idle → s.isOver = false := isOver_of_busy
  have hnot : s.control ≠ .idle → (∀ pq, s.control ≠ .calling pq .destroy) →
      (s.goto .idle).isOver = s.isOver := by
    intro hidle hcontrol
    rw [hbusy hidle]
    exact isOver_of_not_closed (hs.flags.not_closed hidle hcontrol)
  cases h with
  | connects delayedError hfd hcl' hd => simp [hcl] at hcl'
  | opens hfd hcl' hreq => simp [hcl] at hcl'
  | refuses id bufs err hw herr =>
    exact late_said rfl rfl (by simp) rfl
      (settled_of_queues (by simp [Stream.log, Act.calledBack]) rfl rfl rfl)
  | queues id bufs hbufs hw' hreq => simp [hw] at hw'
  | writes id bufs answers _ hbufs hw' hreq hsize h => simp [hw] at hw'
  | waits id bufs hbufs hw' hreq => simp [hw] at hw'
  | startsReading hr => simp [hs.flags.readable hr] at hfd
  | stopsReading => exact late_silent rfl rfl rfl
  | shutsDown hw' hshut hreq => simp [hw] at hw'
  | closes hcl' => simp [hcl] at hcl'
  | staysConnecting e pending ev hc h hreq => simp [h.fd hs.flags] at hfd
  | connected e pending ev error pollout hc h hreq herr hsource hout hstays => simp [h.fd hs.flags] at hfd
  | reads e pending ev hc h hreq hin => simp [h.fd hs.flags] at hfd
  | ready e pending ev hc h hreq => simp [h.fd hs.flags] at hfd
  | destroysConnecting hc hcl hclosed hreq =>
    refine late_said (a := .connectCb UV_ECANCELED) rfl rfl (by simp) ?_
      (settled_flush (by rw [hc]; rfl) (by simp [Act.calledBack]))
    rw [isOver_of_not_closed hclosed]
    exact isOver_of_busy (by simp [Stream.callbacks, Stream.goto])
  | destroys hc hcl hclosed hreq =>
    refine late_silent rfl ?_ ?_
    · rw [isOver_of_not_closed hclosed]
      exact isOver_of_busy (by simp [Stream.callbacks, Stream.goto])
    · simp [Stream.settled, Stream.callbacks, Stream.goto, Stream.flush, hc, Control.pq]
  | readOne answer count ev _ hc hr h => simp [hoff] at hr
  | called req pq after hc =>
    refine late_said rfl rfl (by simp) ?_ ?_
    · rw [hbusy (by simp [hc])]
      exact isOver_of_busy (by simp [Stream.goto])
    · simp [Stream.settled, Stream.goto, Stream.log, hc, Act.calledBack]
  | connectFailed soError error hc herr =>
    refine late_silent rfl ?_ ?_
    · rw [hbusy (by simp [hc])]
      exact isOver_of_busy (by simp [Stream.callbacks, Stream.goto])
    · simp [Stream.settled, Stream.callbacks, Stream.goto, Stream.flush, hc, Control.pq]
  | connectReturned soError error hc h =>
    exact late_goto (by rw [hc]; rfl) rfl (hnot (by simp [hc]) (by simp [hc]))
  | readEnded soError count ev hc =>
    refine late_goto (by rw [hc]; rfl) rfl ?_
    rw [hbusy (by simp [hc])]
    exact isOver_of_busy (by simp [Stream.goto])
  | readFailed soError ev hc =>
    refine late_silent rfl ?_ (settled_of_queues rfl rfl rfl (by rw [hc]; rfl))
    rw [hbusy (by simp [hc])]
    exact isOver_of_busy (by simp [Stream.goto])
  | readClosed soError ev hc hfd =>
    exact late_goto (by rw [hc]; rfl) rfl (hnot (by simp [hc]) (by simp [hc]))
  | hangsUp soError ev hc hr => simp [hoff] at hr
  | goesOn soError ev hc =>
    refine late_goto (by rw [hc]; rfl) rfl ?_
    rw [hbusy (by simp [hc])]
    exact isOver_of_busy (by simp [Stream.goto])
  | ioWrites soError ev answers s₁ hc hfd' h => simp [hfd] at hfd'
  | ioEnds soError ev hc h =>
    exact late_goto (by rw [hc]; rfl) rfl (hnot (by simp [hc]) (by simp [hc]))
  | drains soError s₁ hc hq h =>
    obtain ⟨acts, htrace, hacts, hcbs, hcount⟩ := h.said
    obtain ⟨_, _, _, _, rfl⟩ := h.same
    refine ⟨⟨acts, htrace, hacts, ?_⟩, settled_of_queues ?_ rfl rfl (by rw [hc]; rfl)⟩
    · have hover := hnot (by simp [hc]) (by simp [hc])
      rw [hcount, Nat.zero_add]
      exact congrArg Bool.toNat hover.symm
    · exact (congrArg writeCbs htrace).trans (by simp [hcbs])
  | returns soError after hc h =>
    refine late_goto (by rw [hc]; rfl) rfl (hnot (by simp [hc]) ?_)
    rintro pq hc'
    rw [hc] at hc'
    cases hc'
    rcases h with h | ⟨h, -⟩ <;> cases h
  | closed soError s₁ hc h =>
    have hclosed := hs.flags.destroyed [] hc
    obtain ⟨acts, htrace, hacts, hcbs, hcount⟩ := h.said
    obtain ⟨_, _, _, _, rfl⟩ := h.same
    refine ⟨⟨acts ++ [.closeCb], ?_, ?_, ?_⟩, settled_of_queues ?_ rfl rfl (by rw [hc]; rfl)⟩
    · rw [← List.append_assoc, ← htrace]
      rfl
    · intro a ha
      rcases List.mem_append.mp ha with ha | ha
      · exact hacts a ha
      · rw [List.mem_singleton.mp ha]
        rfl
    · rw [hbusy (by simp [hc]), List.count_append, hcount]
      simp [Stream.isOver, Stream.goto, Stream.log, hclosed]
    · have hcbs' := congrArg writeCbs htrace
      simp only [writeCbs_append, hcbs, List.append_nil] at hcbs'
      simp [Stream.goto, Stream.log, Act.calledBack, hcbs']

theorem Moved.keeps_closing {e : Event} (hcl : s.closing = true) (h : Moved s e s') :
    s'.closing = true := by
  cases h with
  | closes h => rfl
  | writes id bufs answers _ hbufs hw hreq hsize h =>
    obtain ⟨_, _, _, _, _, _, rfl⟩ := h.same
    exact hcl
  | readOne answer count ev _ hc hr h => cases h <;> exact hcl
  | ioWrites soError ev answers _ hc hfd h =>
    obtain ⟨_, _, _, _, _, _, rfl⟩ := h.same
    exact hcl
  | drains soError _ hc hq h =>
    obtain ⟨_, _, _, _, rfl⟩ := h.same
    exact hcl
  | closed soError _ hc h =>
    obtain ⟨_, _, _, _, rfl⟩ := h.same
    exact hcl
  | _ => exact hcl

theorem Moved.close (h : Moved s .uvClose s') : s'.closing = true ∧ s'.closed = s.closed := by
  cases h with
  | closes hcl => exact ⟨rfl, rfl⟩
  | staysConnecting _ pending ev hc h hreq => cases h
  | connected _ pending ev error pollout hc h hreq herr hsource hout hstays => cases h
  | reads _ pending ev hc h hreq hin => cases h
  | ready _ pending ev hc h hreq => cases h

end late

/-- From `uv_close` on. -/
theorem late_run {s₀ s : Stream} {es : List Event} (hs : Sound s₀) (hcl : s₀.closing = true)
    (h : run step s₀ es = .ok s) : Late s₀ s := by
  have hrun : Late s₀ s ∧ Sound s ∧ s.closing = true := by
    refine run_keeps (P := fun s => Late s₀ s ∧ Sound s ∧ s.closing = true) ⟨?_, hs, hcl⟩ ?_ h
    · exact late_silent rfl rfl rfl
    · rintro s e s' ⟨⟨⟨acts, htrace, hacts, hcount⟩, hsettled⟩, hs, hcl⟩ hstep
      have hm := of_gives (moved hs e) hstep
      obtain ⟨⟨acts', htrace', hacts', hcount'⟩, hsettled'⟩ := late_moved hs hcl hm
      refine ⟨⟨⟨acts ++ acts', ?_, ?_, ?_⟩, hsettled'.trans hsettled⟩, sound_moved hs hm,
        hm.keeps_closing hcl⟩
      · rw [htrace', htrace, List.append_assoc]
      · intro a ha
        rcases List.mem_append.mp ha with ha | ha
        · exact hacts a ha
        · exact hacts' a ha
      · rw [List.count_append]
        omega
  exact hrun.1

theorem closing_run {s : Stream} {es : List Event} (h : run step start es = .ok s)
    (hclose : .uvClose ∈ es) : s.closing = true := by
  have hrun : Sound s ∧ (.uvClose ∈ es → s.closing = true) := by
    refine run_invariant (P := fun es s => Sound s ∧ (.uvClose ∈ es → s.closing = true))
      ⟨sound_start, by simp⟩ ?_ h
    rintro es s e s' ⟨hs, hcl⟩ hstep
    have hm := of_gives (moved hs e) hstep
    refine ⟨sound_moved hs hm, fun hmem => ?_⟩
    rcases List.mem_append.mp hmem with hmem | hmem
    · exact hm.keeps_closing (hcl hmem)
    · obtain rfl := List.mem_singleton.mp hmem
      exact hm.close.1
  exact hrun.2 hclose

/-- After `uv_close` nothing is accepted, nothing is sent and nothing is read: there are only the
callbacks that are due, and refusals. -/
theorem nothing_is_sent_or_read_after_a_close {s s' : Stream} {es fs : List Event}
    (h : run step start es = .ok s) (hclose : .uvClose ∈ es) (h' : run step s fs = .ok s') :
    ∃ acts, s'.trace = s.trace ++ acts ∧ ∀ a ∈ acts, a.late = true := by
  obtain ⟨acts, htrace, hacts, -⟩ := (late_run (sound_run h) (closing_run h hclose) h').acts
  exact ⟨acts, htrace, hacts⟩

theorem the_session_ends_with_callbacks_and_refusals :
    ∃ s s', run step start session = .ok s ∧ run step s ending = .ok s' ∧
      ∃ acts, s'.trace = s.trace ++ acts ∧ ∀ a ∈ acts, a.late = true := by
  obtain ⟨s, s', h, h', -⟩ := the_session_runs
  exact ⟨s, s', h, h', nothing_is_sent_or_read_after_a_close h (by decide) h'⟩

/-! ## Each write is called back once, and in its turn -/

theorem Wrote.no_end {s s' : Stream} {answers : List Answer} (h : Wrote s answers s') :
    s'.trace.count .closeCb = s.trace.count .closeCb := by
  induction h with
  | empty s hq => rfl
  | whole s s' req queue n answers hq ht h ih =>
    rw [ih]
    simp [Stream.finish, Stream.took, Stream.log]
  | enough s req queue n hq ht => simp [Stream.finish, Stream.took, Stream.log]
  | part s req queue n rest hq ht hrest => simp [Stream.took, Stream.log]
  | again s hq => rfl
  | error s req queue err hq herr => rfl

/-- The end of a close is not said before its time. -/
theorem Moved.no_end {s s' : Stream} {e : Event} (hs : Flags s) (hcl : s.closing = false)
    (h : Moved s e s') : s'.trace.count .closeCb = s.trace.count .closeCb := by
  cases h with
  | writes id bufs answers _ hbufs hw hreq hsize h =>
    rw [h.no_end]
    simp [Stream.enqueue, Stream.log]
  | destroysConnecting hc hcl' hclosed hreq => simp [hcl] at hcl'
  | destroys hc hcl' hclosed hreq => simp [hcl] at hcl'
  | readOne answer count ev _ hc hr h => cases h <;> simp [Stream.eof, Stream.log, Stream.goto]
  | ioWrites soError ev answers _ hc hfd h => exact h.no_end
  | drains soError _ hc hq h =>
    obtain ⟨acts, htrace, -, -, hcount⟩ := h.said
    simp [Stream.goto, htrace, hcount]
  | closed soError _ hc h =>
    have hcl' := hs.closed (hs.destroyed [] hc)
    simp [hcl] at hcl'
  | _ => simp [Stream.eof, Stream.enqueue, Stream.flush, Stream.callbacks, Stream.log, Stream.goto]

theorem Flags.not_over {s : Stream} (hs : Flags s) (hcl : s.closing = false) : s.closed = false :=
  Bool.eq_false_iff.mpr fun h => by
    have := hs.closed h
    simp [hcl] at this

/-- The end of a close is said once, when the close is over. -/
theorem end_run {s : Stream} {es : List Event} (h : run step start es = .ok s) :
    s.trace.count .closeCb = s.isOver.toNat := by
  have hrun : Sound s ∧ s.trace.count .closeCb = s.isOver.toNat := by
    refine run_keeps (P := fun s => Sound s ∧ s.trace.count .closeCb = s.isOver.toNat)
      ⟨sound_start, rfl⟩ ?_ h
    rintro s e s' ⟨hs, hcount⟩ hstep
    have hm := of_gives (moved hs e) hstep
    have hs' := sound_moved hs hm
    refine ⟨hs', ?_⟩
    by_cases hcl : s.closing = true
    · obtain ⟨acts, htrace, -, hover⟩ := (late_moved hs hcl hm).acts
      rw [htrace, List.count_append]
      omega
    · replace hcl : s.closing = false := by simpa using hcl
      have hopen := hs.flags.not_over hcl
      have hopen' : s'.closed = false := by
        by_cases hcl' : s'.closing = true
        · rcases hm.closing hcl' with h | rfl
          · simp [hcl] at h
          · rw [hm.close.2, hopen]
        · exact hs'.flags.not_over (by simpa using hcl')
      rw [hm.no_end hs.flags hcl, hcount, isOver_of_not_closed hopen, isOver_of_not_closed hopen']
  exact hrun.2

theorem isOver_of_end {s : Stream} {es : List Event} (h : run step start es = .ok s)
    (hend : .closeCb ∈ s.trace) : s.isOver = true := by
  have hcount := end_run h
  have hpos := List.count_pos_iff.mpr hend
  cases hover : s.isOver with
  | true => rfl
  | false =>
    rw [hover, Bool.toNat_false] at hcount
    omega

/-- A close that is over leaves no write in flight. -/
theorem inflight_of_end {s : Stream} {es : List Event} (h : run step start es = .ok s)
    (hend : .closeCb ∈ s.trace) : s.control.pq = [] ∧ s.writeCompletedQueue = [] ∧
      s.writeQueue = [] := by
  have hover := isOver_of_end h hend
  simp only [Stream.isOver, Bool.and_eq_true, decide_eq_true_eq] at hover
  obtain ⟨-, hq, hdone, -⟩ := (sound_run h).flags.ended hover.1
  exact ⟨by rw [hover.2]; rfl, hdone, hq⟩

/-- Every write that `uv_write` accepts is called back at most once and in its turn, and when the
handle is closed every one has been called back. The end of the close is said once. -/
theorem each_write_is_called_back_once_and_in_turn {s : Stream} {es : List Event}
    (h : run step start es = .ok s) :
    (writeCbs s.trace).map Prod.fst <+: (acceptedWrites s.trace).map Prod.fst ∧
      s.trace.count .closeCb ≤ 1 ∧
      (.closeCb ∈ s.trace →
        (writeCbs s.trace).map Prod.fst = (acceptedWrites s.trace).map Prod.fst) := by
  obtain ⟨past, hl⟩ := (sound_run h).books.ledger
  have hids : (acceptedWrites s.trace).map Prod.fst =
      (writeCbs s.trace).map Prod.fst ++ s.inflight.map (·.id) := by
    rw [hl.accepted, hl.called]
    simp [Function.comp_def]
  refine ⟨⟨_, hids.symm⟩, ?_, fun hend => ?_⟩
  · rw [end_run h]
    cases s.isOver <;> decide
  · obtain ⟨hpq, hdone, hq⟩ := inflight_of_end h hend
    rw [hids]
    simp [Stream.inflight, hpq, hdone, hq]

theorem both_writes_of_the_session_are_called_back :
    ∃ s, run step start (session ++ ending) = .ok s ∧
      (writeCbs s.trace).map Prod.fst = (acceptedWrites s.trace).map Prod.fst := by
  obtain ⟨s, s', h, h', htrace⟩ := the_session_runs
  have hrun := run_append_ok.mpr ⟨s, h, h'⟩
  exact ⟨s', hrun, (each_write_is_called_back_once_and_in_turn hrun).2.2 (by simp [htrace])⟩

/-- The writes in flight at `uv_close` are all called back before its end, in their turn: those that
were over with their own status, and those that still waited as cancelled. -/
theorem a_close_settles_every_write {s s' : Stream} {es fs : List Event}
    (h : run step start es = .ok s) (hclose : .uvClose ∈ es) (h' : run step s fs = .ok s')
    (hend : .closeCb ∈ s'.trace) :
    writeCbs s'.trace = writeCbs s.trace ++
      ((s.control.pq ++ s.writeCompletedQueue).map (fun r => (r.id, r.error)) ++
        s.writeQueue.map fun r => (r.id, UV_ECANCELED)) := by
  have hsettled := (late_run (sound_run h) (closing_run h hclose) h').settled
  obtain ⟨hpq, hdone, hq⟩ := inflight_of_end (run_append_ok.mpr ⟨s, h, h'⟩) hend
  have hs' : s'.settled = writeCbs s'.trace := by simp [Stream.settled, hpq, hdone, hq]
  rw [← hs', hsettled]
  rfl

theorem the_close_settles_the_session :
    ∃ s s', run step start session = .ok s ∧ run step s ending = .ok s' ∧
      writeCbs s'.trace = writeCbs s.trace ++
        ((s.control.pq ++ s.writeCompletedQueue).map (fun r => (r.id, r.error)) ++
          s.writeQueue.map fun r => (r.id, UV_ECANCELED)) := by
  obtain ⟨s, s', h, h', htrace⟩ := the_session_runs
  exact ⟨s, s', h, h', a_close_settles_every_write h (by decide) h' (by simp [htrace])⟩

/-! ## The bytes -/

/-- The kernel gets the bytes of the accepted writes in their order: of each write the first bytes,
and all of them when the write is called back with status 0. -/
theorem the_kernel_gets_the_bytes_in_order {s : Stream} {es : List Event}
    (h : run step start es = .ok s) :
    ∃ sent : List (List Nat), handedBytes s.trace = sent.flatten ∧
      List.Forall₂ (fun bytes w => bytes <+: addresses w.2) sent (acceptedWrites s.trace) ∧
      ∀ (i : Nat) (id : Nat), (writeCbs s.trace)[i]? = some (id, 0) →
        ∃ bufs, (acceptedWrites s.trace)[i]? = some (id, bufs) ∧ sent[i]? = some (addresses bufs) := by
  obtain ⟨past, hl⟩ := (sound_run h).books.ledger
  refine ⟨(past ++ s.inflight).map WriteReq.sent, ?_, ?_, ?_⟩
  · rw [hl.handed, List.flatMap_def]
  · rw [hl.accepted, List.forall₂_map_left_iff, List.forall₂_map_right_iff, List.forall₂_same]
    exact fun r hr => List.take_prefix _ _
  · intro i id hi
    rw [hl.called, List.getElem?_map] at hi
    obtain ⟨r, hr, hreq⟩ := Option.map_eq_some_iff.mp hi
    simp only [Prod.mk.injEq] at hreq
    have hmem := List.mem_of_getElem? hr
    have hwhole := (hl.finished r hmem).whole hreq.2
    have hr' : (past ++ s.inflight)[i]? = some r := by
      rw [List.getElem?_append_left (List.getElem?_eq_some_iff.mp hr).1, hr]
    refine ⟨r.bufs, ?_, ?_⟩
    · rw [hl.accepted, List.getElem?_map, hr', Option.map_some, hreq.1]
    · have hsent : r.sent = addresses r.bufs := by
        unfold WriteReq.sent
        rw [hwhole.1, ← length_addresses, ← length_addresses]
        exact List.take_length
      rw [List.getElem?_map, hr', Option.map_some, hsent]

theorem the_bytes_of_the_session_are_in_order :
    ∃ s, run step start session = .ok s ∧ ∃ sent : List (List Nat),
      handedBytes s.trace = sent.flatten ∧
        List.Forall₂ (fun bytes w => bytes <+: addresses w.2) sent (acceptedWrites s.trace) ∧
        ∀ (i : Nat) (id : Nat), (writeCbs s.trace)[i]? = some (id, 0) →
          ∃ bufs, (acceptedWrites s.trace)[i]? = some (id, bufs) ∧
            sent[i]? = some (addresses bufs) := by
  obtain ⟨s, s', h, -, -⟩ := the_session_runs
  exact ⟨s, h, the_kernel_gets_the_bytes_in_order h⟩

/-- The bytes of a write were sent, or are owed. -/
theorem tally_accepted {l : List WriteReq}
    (hl : ∀ r ∈ l, addresses r.rest <:+ addresses r.bufs ∧ r.owed = countBufs r.rest) :
    tally (fun w => countBufs w.2) (l.map fun r => (r.id, r.bufs)) =
      (l.flatMap WriteReq.sent).length + tally WriteReq.owed l := by
  induction l with
  | nil => rfl
  | cons r l ih =>
    obtain ⟨hplace, howed⟩ := hl r List.mem_cons_self
    have hlen := congrArg List.length (WriteReq.sent_append hplace)
    have hrest := ih fun r hr => hl r (List.mem_cons_of_mem _ hr)
    simp only [List.length_append, length_addresses] at hlen
    simp only [List.map_cons, tally_cons, List.flatMap_cons, List.length_append]
    omega

theorem WriteReq.Over.owed {r : WriteReq} (h : r.Over) : r.owed = countBufs r.rest := by
  by_cases herr : r.error = 0
  · obtain ⟨hrest, hbufs⟩ := h.whole herr
    simp [WriteReq.owed, hrest, hbufs, countBufs]
  · exact if_pos (h.failed herr)

/-- As long as no write was called back with an error, `write_queue_size` is what was accepted and is
still to be handed over. -/
theorem the_size_is_what_is_still_to_be_sent {s : Stream} {es : List Event}
    (h : run step start es = .ok s) (hfine : ∀ w ∈ writeCbs s.trace, w.2 = 0) :
    tally (fun w => countBufs w.2) (acceptedWrites s.trace) =
      (handedBytes s.trace).length + s.writeQueueSize := by
  have hbooks := (sound_run h).books
  obtain ⟨past, hl⟩ := hbooks.ledger
  have hpast : tally WriteReq.owed past = 0 := by
    refine tally_eq_zero fun r hr => ?_
    have hzero : r.error = 0 := hfine (r.id, r.error) (by
      rw [hl.called]
      exact List.mem_map_of_mem hr)
    obtain ⟨-, hbufs⟩ := (hl.finished r hr).whole hzero
    simp [WriteReq.owed, hbufs]
  have hall : ∀ r ∈ past ++ s.inflight,
      addresses r.rest <:+ addresses r.bufs ∧ r.owed = countBufs r.rest := by
    intro r hr
    refine ⟨hl.place r hr, ?_⟩
    simp only [Stream.inflight, ← List.append_assoc, List.mem_append] at hr
    rcases hr with ((hr | hr) | hr) | hr
    · exact (hl.finished r hr).owed
    · exact (hbooks.finished r (List.mem_append_left _ hr)).owed
    · exact (hbooks.finished r (List.mem_append_right _ hr)).owed
    · exact if_pos (hbooks.waiting r hr).hasBufs
  rw [hl.accepted, hl.handed, tally_accepted hall, tally_append, hpast, hbooks.size]
  omega

theorem three_bytes_of_the_session_are_still_to_be_sent :
    ∃ s, run step start session = .ok s ∧
      tally (fun w => countBufs w.2) (acceptedWrites s.trace) =
        (handedBytes s.trace).length + s.writeQueueSize ∧ s.writeQueueSize = 3 := by
  have hseen : (run step start session).toOption.map
      (fun s => (writeCbs s.trace, s.writeQueueSize)) = some ([(1, 0)], 3) := by decide +kernel
  obtain ⟨s, h, hview⟩ := ran hseen
  simp only [Prod.mk.injEq] at hview
  exact ⟨s, h, the_size_is_what_is_still_to_be_sent h (by simp [hview.1]), hview.2⟩

end linuxc.uv_stream
