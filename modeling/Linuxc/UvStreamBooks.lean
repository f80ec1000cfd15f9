-- Every event keeps the flags and the books of a stream.
import Linuxc.UvStreamSteps

namespace linuxc.uv_stream

open event_runs

/-! ## The flags -/

/-- `uv__write` changes the queues, and what the watcher waits for. -/
theorem Wrote.same {s s' : Stream} {answers : List Answer} (h : Wrote s answers s') :
    ∃ pollout pending size queue completed trace, s' = { s with
      pollout
      pending
      writeQueueSize := size
      writeQueue := queue
      writeCompletedQueue := completed
      trace } := by
  induction h with
  | empty s hq => exact ⟨_, _, _, _, _, _, rfl⟩
  | whole s s' req queue n answers hq ht h ih =>
    obtain ⟨pollout, pending, size, queue, completed, trace, rfl⟩ := ih
    exact ⟨_, _, _, _, _, _, rfl⟩
  | enough s req queue n hq ht => exact ⟨_, _, _, _, _, _, rfl⟩
  | part s req queue n rest hq ht hrest => exact ⟨_, _, _, _, _, _, rfl⟩
  | again s hq => exact ⟨_, _, _, _, _, _, rfl⟩
  | error s req queue err hq herr => exact ⟨_, _, _, _, _, _, rfl⟩

theorem Wrote.of_nil {s s' : Stream} {answers : List Answer} (h : Wrote s answers s')
    (hq : s.writeQueue = []) : s' = s := by
  cases h <;> simp_all

section flags

variable {s s' : Stream}

theorem Flags.unused (hs : Flags s) (hfd : s.fd = false) (hcl : s.closing = false) :
    s.control = .idle ∧ s.connectReq = false ∧ s.writeQueue = [] ∧ s.shutdownReq = false ∧
      s.shut = false ∧ s.closed = false := by
  have hno : ¬ (s.fd = true ∨ s.closing = true) := by simp [hfd, hcl]
  refine ⟨?_, ?_, ?_, ?_, ?_, ?_⟩
  · exact Classical.byContradiction fun h => hno (hs.used h).2
  · exact Bool.eq_false_iff.mpr fun h => hno (hs.connecting h)
  · exact Classical.byContradiction fun h => hno (hs.queued h)
  · exact Bool.eq_false_iff.mpr fun h => hno (hs.shutting h).2.2
  · exact Bool.eq_false_iff.mpr fun h => hno (hs.shut h).2.2
  · exact Bool.eq_false_iff.mpr fun h => hno (.inr (hs.closed h))

theorem Flags.open_not_closed (hs : Flags s) (hfd : s.fd = true) : s.closed = false :=
  Bool.eq_false_iff.mpr fun h => by
    have hcl := hs.closed h
    rw [hs.open_not_closing hfd] at hcl
    cases hcl

/-- A descriptor that is open stays open. -/
theorem Flags.opened (hs : Flags s) (hfd : s.fd = false) (hcl : s.closing = false) {connectReq : Bool}
    {delayedError : Int} {pollout pending : Bool} {activeReqs : Nat} {trace : List Act}
    (hd : delayedError ≤ 0) :
    Flags { s with
      fd := true
      readable := true
      writable := true
      connectReq
      delayedError
      activeReqs
      pollout
      pending
      trace } := by
  obtain ⟨hidle, -, -, hsr, hshut, hclosed⟩ := hs.unused hfd hcl
  exact {
    readable := fun _ => rfl
    writable := fun _ => rfl
    reading := fun _ => rfl
    pollin := hs.pollin
    pollout := fun _ => rfl
    pending := fun _ => rfl
    closing := fun h => by simp [hcl] at h
    closed := hs.closed
    delayed := hd
    connecting := fun _ => .inl rfl
    used := fun h => absurd hidle h
    queued := fun _ => .inl rfl
    ended := fun h => by simp [hclosed] at h
    destroyed := fun pq h => by simp [hidle] at h
    shutting := fun h => by simp [hsr] at h
    shut := fun h => by simp [hshut] at h }

theorem Flags.enqueue (hs : Flags s) (hw : s.writable = true) (req : WriteReq) :
    Flags (s.enqueue req) :=
  { hs with
    queued := fun _ => .inl (hs.writable hw)
    ended := fun h => by
      have hcl := hs.open_not_closed (hs.writable hw)
      simp [Stream.enqueue, Stream.log, hcl] at h
    shut := fun h => by
      have := (hs.shut h).1
      simp [hw] at this }

theorem Flags.wrote {answers : List Answer} (hs : Flags s) (hfd : s.fd = true)
    (h : Wrote s answers s') : Flags s' := by
  have hnil := h.of_nil
  obtain ⟨pollout, pending, size, queue, completed, trace, rfl⟩ := h.same
  have hclosed := hs.open_not_closed hfd
  exact { hs with
    pollout := fun _ => hfd
    pending := fun _ => hfd
    queued := fun _ => .inl hfd
    ended := fun h => by simp [hclosed] at h
    shut := fun h => by
      have hshut := hs.shut h
      have heq := congrArg Stream.writeQueue (hnil hshut.2.1)
      exact ⟨hshut.1, heq.trans hshut.2.1, hshut.2.2⟩ }

theorem Flags.drained (hs : Flags s) (hq : s.writeQueue = []) (hopen : s.fd = true ∨ s.closing = true)
    (h : Drained s s') : Flags s' := by
  cases h with
  | plain hr => exact { hs with pollout := fun h => by simp at h }
  | shuts err hr herr hcl =>
    exact { hs with
      pollout := fun h => by simp [Stream.log] at h
      shutting := fun h => by simp [Stream.log] at h
      shut := fun _ => ⟨(hs.shutting hr).2.1, hq, hopen⟩ }

/-- What is on the way in libuv is not at its end: it goes on to a place before the close. -/
theorem Flags.goto (hs : Flags s) {control : Control} (hopen : s.fd = true ∨ s.closing = true)
    (hreq : s.connectReq = false) (hclosed : s.closed = true → control = .idle)
    (hcontrol : ∀ pq, control ≠ .calling pq .destroy) : Flags (s.goto control) :=
  { hs with
    used := fun _ => ⟨hreq, hopen⟩
    ended := fun h => by
      obtain ⟨hreq, hq, hdone, -⟩ := hs.ended h
      exact ⟨hreq, hq, hdone, .inl (hclosed h)⟩
    destroyed := fun pq h => absurd h (hcontrol pq) }

/-- In the middle of `uv__stream_io` the handle is not closed yet. -/
theorem Flags.not_closed (hs : Flags s) (hidle : s.control ≠ .idle)
    (hcontrol : ∀ pq, s.control ≠ .calling pq .destroy) : s.closed = false :=
  Bool.eq_false_iff.mpr fun h => by
    obtain ⟨-, -, -, h | ⟨pq, h⟩⟩ := hs.ended h
    · exact hidle h
    · exact hcontrol pq h

theorem Flags.readOne {count : Nat} {ev : PollEvents} (hs : Flags s)
    (hc : s.control = .reading (count + 1) ev) (hr : s.reading = true)
    (h : ReadOne s count ev s') : Flags s' := by
  have hidle : s.control ≠ .idle := by simp [hc]
  have hclosed := hs.not_closed hidle (by simp [hc])
  obtain ⟨hreq, hopen⟩ := hs.used hidle
  have hgo : ∀ control, (∀ pq, control ≠ .calling pq .destroy) → Flags (s.goto control) :=
    fun control h => hs.goto hopen hreq (fun h => by simp [hclosed] at h) h
  cases h with
  | noBuffer => exact { hgo (.read ev) (by simp) with }
  | part n hn => exact { hgo (.read ev) (by simp) with }
  | full n hn => exact { hgo (.reading count ev) (by simp) with }
  | again => exact { hgo (.read ev) (by simp) with pollin := hr.symm }
  | eof =>
    exact { hgo (.read ev) (by simp) with
      reading := fun h => by simp [Stream.eof, Stream.log, Stream.goto] at h
      pollin := rfl }
  | error err herr =>
    exact { hgo (.readFailed ev) (by simp) with
      readable := fun h => by simp [Stream.log, Stream.goto] at h
      writable := fun h => by simp [Stream.log, Stream.goto] at h
      shutting := fun h => ⟨(hs.shutting h).1, rfl, (hs.shutting h).2.2⟩
      shut := fun h => ⟨rfl, (hs.shut h).2⟩ }

/-- The write callbacks begin, after `uv__write` or after the queue was flushed. -/
theorem Flags.callbacks {after : After} (hs : Flags s) (hopen : s.fd = true ∨ s.closing = true)
    (hreq : s.connectReq = false) (hclosed : s.closed = true → s.writeQueue = [])
    (hafter : s.closed = true ↔ after = .destroy) : Flags (s.callbacks after) :=
  { hs with
    used := fun _ => ⟨hreq, hopen⟩
    ended := fun h => ⟨hreq, hclosed h, rfl, .inr ⟨s.writeCompletedQueue, by
      rw [hafter.mp h]
      rfl⟩⟩
    destroyed := fun pq h => hafter.mpr (by
      simp only [Stream.callbacks, Stream.goto, Control.calling.injEq] at h
      exact h.2) }

theorem Flags.flush (hs : Flags s) {error : Int} (hclosed : s.closed = false) :
    Flags (s.flush error) :=
  { hs with
    queued := fun h => absurd rfl h
    ended := fun h => by simp [Stream.flush, hclosed] at h
    shut := fun h => ⟨(hs.shut h).1, rfl, (hs.shut h).2.2⟩ }

theorem Flags.destroyed_of_closing (hs : Flags s) (hcl : s.closing = true) {connectReq : Bool}
    {activeReqs : Nat} {trace : List Act} (hreq : connectReq = false) :
    Flags (({ s with closed := true, connectReq, activeReqs, trace }.flush
      UV_ECANCELED).callbacks .destroy) :=
  { hs with
    closed := fun _ => hcl
    connecting := fun h => by simp [Stream.flush, Stream.callbacks, Stream.goto, hreq] at h
    used := fun _ => ⟨hreq, .inr hcl⟩
    queued := fun h => absurd rfl h
    ended := fun _ => ⟨hreq, rfl, rfl, .inr ⟨_, rfl⟩⟩
    destroyed := fun _ _ => rfl
    shut := fun h => ⟨(hs.shut h).1, rfl, (hs.shut h).2.2⟩ }

end flags

theorem Drained.same {s s' : Stream} (h : Drained s s') :
    ∃ shutdownReq activeReqs shut trace,
      s' = { s with pollout := false, shutdownReq, activeReqs, shut, trace } := by
  cases h with
  | plain hr => exact ⟨_, _, _, _, rfl⟩
  | shuts err hr herr hcl => exact ⟨_, _, _, _, rfl⟩

theorem flags_moved {s s' : Stream} {e : Event} (hs : Flags s) (h : Moved s e s') : Flags s' := by
  cases h with
  | connects delayedError hfd hcl hd => exact hs.opened hfd hcl hd
  | opens hfd hcl hreq => exact hs.opened hfd hcl hs.delayed
  | refuses id bufs err hw herr => exact { hs with }
  | queues id bufs hbufs hw hreq => exact hs.enqueue hw _
  | writes id bufs answers _ hbufs hw hreq hsize h =>
    exact (hs.enqueue hw _).wrote (hs.writable hw) h
  | waits id bufs hbufs hw hreq =>
    exact { hs.enqueue hw (newReq id bufs) with pollout := fun _ => hs.writable hw }
  | startsReading hr =>
    exact { hs with reading := fun _ => hs.readable hr, pollin := rfl }
  | stopsReading =>
    exact { hs with reading := fun h => by simp at h, pollin := rfl }
  | shutsDown hw hshut hreq =>
    exact { hs with
      writable := fun h => by simp at h
      pending := fun _ => hs.writable hw
      shutting := fun _ => ⟨hshut, rfl, .inl (hs.writable hw)⟩
      shut := fun h => by simp [hshut] at h }
  | closes hcl =>
    exact { hs with
      readable := fun h => by simp [Stream.log] at h
      writable := fun h => by simp [Stream.log] at h
      reading := fun h => by simp [Stream.log] at h
      pollin := rfl
      pollout := fun h => by simp [Stream.log] at h
      pending := fun h => by simp [Stream.log] at h
      closing := fun _ => rfl
      closed := fun _ => rfl
      connecting := fun _ => .inr rfl
      used := fun h => ⟨(hs.used h).1, .inr rfl⟩
      queued := fun _ => .inr rfl
      shutting := fun h => ⟨(hs.shutting h).1, rfl, .inr rfl⟩
      shut := fun h => ⟨rfl, (hs.shut h).2.1, .inr rfl⟩ }
  | staysConnecting e pending ev hc h hreq =>
    have hfd := h.fd hs
    exact { hs with pending := fun _ => hfd, delayed := Int.le_refl 0 }
  | connected e pending ev error pollout hc h hreq herr hsource hout hstays =>
    have hfd := h.fd hs
    have hclosed := hs.open_not_closed hfd
    exact { hs with
      pollout := fun h => hs.pollout (hout h)
      pending := fun _ => hfd
      delayed := Int.le_refl 0
      connecting := fun h => by simp [Stream.log, Stream.goto] at h
      used := fun _ => ⟨rfl, .inl hfd⟩
      ended := fun h => by simp [Stream.log, Stream.goto, hclosed] at h
      destroyed := fun pq h => by simp [Stream.goto] at h }
  | reads e pending ev hc h hreq hin =>
    have hfd := h.fd hs
    have hclosed := hs.open_not_closed hfd
    have hgo : Flags (s.goto (.reading 32 ev)) :=
      hs.goto (.inl hfd) hreq (fun h => by simp [hclosed] at h) (by simp)
    exact { hgo with pending := fun _ => hfd }
  | ready e pending ev hc h hreq =>
    have hfd := h.fd hs
    have hclosed := hs.open_not_closed hfd
    have hgo : Flags (s.goto (.read ev)) :=
      hs.goto (.inl hfd) hreq (fun h => by simp [hclosed] at h) (by simp)
    exact { hgo with pending := fun _ => hfd }
  | destroysConnecting hc hcl hclosed hreq => exact hs.destroyed_of_closing hcl rfl
  | destroys hc hcl hclosed hreq => exact hs.destroyed_of_closing hcl hreq
  | readOne answer count ev _ hc hr h => exact hs.readOne hc hr h
  | called req pq after hc =>
    obtain ⟨hreq, hopen⟩ := hs.used (by simp [hc])
    exact { hs with
      used := fun _ => ⟨hreq, hopen⟩
      ended := fun h => by
        obtain ⟨-, hq, hdone, hcontrol⟩ := hs.ended h
        rw [hc] at hcontrol
        simp only [reduceCtorEq, Control.calling.injEq, false_or] at hcontrol
        obtain ⟨_, -, rfl⟩ := hcontrol
        exact ⟨hreq, hq, hdone, .inr ⟨pq, rfl⟩⟩
      destroyed := fun pq' h => by
        simp only [Stream.goto, Control.calling.injEq] at h
        exact hs.destroyed _ (by rw [hc, h.2]) }
  | connectFailed soError error hc herr =>
    obtain ⟨hreq, hopen⟩ := hs.used (by simp [hc])
    have hclosed := hs.not_closed (by simp [hc]) (by simp [hc])
    refine (hs.flush hclosed).callbacks hopen hreq (fun _ => rfl) ?_
    simp [Stream.flush, hclosed]
  | connectReturned soError error hc h =>
    obtain ⟨hreq, hopen⟩ := hs.used (by simp [hc])
    exact hs.goto hopen hreq (fun _ => rfl) (by simp)
  | readEnded soError count ev hc =>
    obtain ⟨hreq, hopen⟩ := hs.used (by simp [hc])
    have hclosed := hs.not_closed (by simp [hc]) (by simp [hc])
    exact hs.goto hopen hreq (fun h => by simp [hclosed] at h) (by simp)
  | readFailed soError ev hc =>
    obtain ⟨hreq, hopen⟩ := hs.used (by simp [hc])
    have hclosed := hs.not_closed (by simp [hc]) (by simp [hc])
    have hgo : Flags (s.goto (.read ev)) :=
      hs.goto hopen hreq (fun h => by simp [hclosed] at h) (by simp)
    exact { hgo with reading := fun h => by simp [Stream.goto] at h, pollin := rfl }
  | readClosed soError ev hc hfd =>
    obtain ⟨hreq, hopen⟩ := hs.used (by simp [hc])
    exact hs.goto hopen hreq (fun _ => rfl) (by simp)
  | hangsUp soError ev hc hr =>
    obtain ⟨hreq, hopen⟩ := hs.used (by simp [hc])
    have hclosed := hs.not_closed (by simp [hc]) (by simp [hc])
    have hgo : Flags (s.goto (.writing ev)) :=
      hs.goto hopen hreq (fun h => by simp [hclosed] at h) (by simp)
    exact { hgo with
      reading := fun h => by simp [Stream.eof, Stream.log, Stream.goto] at h
      pollin := rfl }
  | goesOn soError ev hc =>
    obtain ⟨hreq, hopen⟩ := hs.used (by simp [hc])
    have hclosed := hs.not_closed (by simp [hc]) (by simp [hc])
    exact hs.goto hopen hreq (fun h => by simp [hclosed] at h) (by simp)
  | ioWrites soError ev answers s₁ hc hfd h =>
    obtain ⟨hreq, -⟩ := hs.used (by simp [hc])
    have hs' := hs.wrote hfd h
    obtain ⟨_, _, _, _, _, _, rfl⟩ := h.same
    have hclosed := hs.open_not_closed hfd
    refine hs'.callbacks (.inl hfd) hreq (fun h => by simp [hclosed] at h) ?_
    simp [hclosed]
  | ioEnds soError ev hc h =>
    obtain ⟨hreq, hopen⟩ := hs.used (by simp [hc])
    exact hs.goto hopen hreq (fun _ => rfl) (by simp)
  | drains soError s₁ hc hq h =>
    obtain ⟨hreq, hopen⟩ := hs.used (by simp [hc])
    have hs' := hs.drained hq hopen h
    obtain ⟨_, _, _, _, rfl⟩ := h.same
    exact hs'.goto hopen hreq (fun _ => rfl) (by simp)
  | returns soError after hc h =>
    obtain ⟨hreq, hopen⟩ := hs.used (by simp [hc])
    exact hs.goto hopen hreq (fun _ => rfl) (by simp)
  | closed soError s₁ hc h =>
    obtain ⟨hreq, hopen⟩ := hs.used (by simp [hc])
    obtain ⟨-, hq, -, -⟩ := hs.ended (hs.destroyed [] hc)
    have hs' := hs.drained hq hopen h
    obtain ⟨_, _, _, _, rfl⟩ := h.same
    have hgo : Flags (Stream.goto _ .idle) := hs'.goto hopen hreq (fun _ => rfl) (by simp)
    exact { hgo with }

/-! ## The ledger -/

section trace

variable {trace acts : List Act} {a : Act}

@[simp] theorem acceptedWrites_append :
    acceptedWrites (trace ++ acts) = acceptedWrites trace ++ acceptedWrites acts :=
  List.flatMap_append

@[simp] theorem acceptedWrites_singleton : acceptedWrites [a] = a.acceptedWrite :=
  List.flatMap_singleton _ _

@[simp] theorem writeCbs_append : writeCbs (trace ++ acts) = writeCbs trace ++ writeCbs acts :=
  List.flatMap_append

@[simp] theorem writeCbs_singleton : writeCbs [a] = a.calledBack :=
  List.flatMap_singleton _ _

@[simp] theorem handedBytes_append :
    handedBytes (trace ++ acts) = handedBytes trace ++ handedBytes acts :=
  List.flatMap_append

@[simp] theorem handedBytes_singleton : handedBytes [a] = a.handedOver :=
  List.flatMap_singleton _ _

/-- Nothing was accepted, called back or handed over in between. -/
structure SameWrites (trace trace' : List Act) : Prop where
  accepted : acceptedWrites trace' = acceptedWrites trace
  called : writeCbs trace' = writeCbs trace
  handed : handedBytes trace' = handedBytes trace

theorem sameWrites_refl : SameWrites trace trace := ⟨rfl, rfl, rfl⟩

theorem sameWrites_snoc (haccepted : a.acceptedWrite = []) (hcalled : a.calledBack = [])
    (hhanded : a.handedOver = []) : SameWrites trace (trace ++ [a]) := by
  refine ⟨?_, ?_, ?_⟩
  · simp [haccepted]
  · simp [hcalled]
  · simp [hhanded]

end trace

section ledger

variable {past flight flight' : List WriteReq} {trace trace' : List Act}

/-- A write is what was sent of it and what is left. -/
theorem WriteReq.sent_append {r : WriteReq} (h : addresses r.rest <:+ addresses r.bufs) :
    r.sent ++ addresses r.rest = addresses r.bufs := by
  obtain ⟨front, hfront⟩ := h
  have hlen : countBufs r.bufs - countBufs r.rest = front.length := by
    rw [← length_addresses, ← length_addresses, ← hfront, List.length_append]
    omega
  unfold WriteReq.sent
  rw [hlen, ← hfront, List.take_left]

/-- The writes in flight change without a call or a callback, and the kernel takes `bytes`. -/
theorem Ledger.change (bytes : List Nat) (hl : Ledger past flight trace)
    (hids : flight'.map (fun r => (r.id, r.bufs)) = flight.map fun r => (r.id, r.bufs))
    (hplace : ∀ r ∈ flight', addresses r.rest <:+ addresses r.bufs)
    (hsent : flight'.flatMap WriteReq.sent = flight.flatMap WriteReq.sent ++ bytes)
    (haccepted : acceptedWrites trace' = acceptedWrites trace)
    (hcalled : writeCbs trace' = writeCbs trace)
    (hhanded : handedBytes trace' = handedBytes trace ++ bytes) : Ledger past flight' trace' where
  finished := hl.finished
  place := fun r hr => by
    rcases List.mem_append.mp hr with hr | hr
    · exact hl.place r (List.mem_append_left _ hr)
    · exact hplace r hr
  accepted := by
    rw [haccepted, hl.accepted, List.map_append, List.map_append, hids]
  called := by rw [hcalled, hl.called]
  handed := by
    rw [hhanded, hl.handed, List.flatMap_append, List.flatMap_append, hsent, List.append_assoc]

/-- One write changes, and none behind it has been started. -/
theorem Ledger.replace {front queue : List WriteReq} {r r' : WriteReq} (bytes : List Nat)
    (hl : Ledger past (front ++ r :: queue) trace) (hid : r'.id = r.id) (hbufs : r'.bufs = r.bufs)
    (hrest : addresses r.rest = bytes ++ addresses r'.rest)
    (hunsent : ∀ q ∈ queue, q.rest = q.bufs)
    (haccepted : acceptedWrites trace' = acceptedWrites trace)
    (hcalled : writeCbs trace' = writeCbs trace)
    (hhanded : handedBytes trace' = handedBytes trace ++ bytes) :
    Ledger past (front ++ r' :: queue) trace' := by
  have hplace : addresses r.rest <:+ addresses r.bufs := hl.place r (by simp)
  have hplace' : addresses r'.rest <:+ addresses r'.bufs := by
    rw [hbufs]
    exact List.IsSuffix.trans ⟨bytes, hrest.symm⟩ hplace
  have hsent : r'.sent = r.sent ++ bytes := by
    have hall : r'.sent ++ addresses r'.rest = (r.sent ++ bytes) ++ addresses r'.rest := by
      rw [List.append_assoc, ← hrest, WriteReq.sent_append hplace, WriteReq.sent_append hplace',
        hbufs]
    exact List.append_cancel_right hall
  have hnone : queue.flatMap WriteReq.sent = [] := by
    refine List.flatMap_eq_nil_iff.mpr fun q hq => ?_
    unfold WriteReq.sent
    rw [hunsent q hq, Nat.sub_self, List.take_zero]
  refine hl.change bytes ?_ ?_ ?_ haccepted hcalled hhanded
  · simp [hid, hbufs]
  · intro q hq
    rcases List.mem_append.mp hq with hq | hq
    · exact hl.place q (by simp [hq])
    · rcases List.mem_cons.mp hq with rfl | hq
      · exact hplace'
      · exact hl.place q (by simp [hq])
  · simp [hsent, hnone]

/-- A new write is behind all others. -/
theorem Ledger.enqueue (hl : Ledger past flight trace) (id : Nat) (bufs : List libuv.UvBuf) :
    Ledger past (flight ++ [newReq id bufs]) (trace ++ [.accepted id bufs]) := by
  have hsent : (newReq id bufs).sent = [] := by
    unfold WriteReq.sent newReq
    rw [Nat.sub_self, List.take_zero]
  refine ⟨hl.finished, ?_, ?_, ?_, ?_⟩
  · intro r hr
    rw [← List.append_assoc] at hr
    rcases List.mem_append.mp hr with hr | hr
    · exact hl.place r hr
    · obtain rfl := List.mem_singleton.mp hr
      exact List.suffix_refl _
  · simp [hl.accepted, Act.acceptedWrite, newReq]
  · simp [hl.called, Act.calledBack]
  · simp [hl.handed, Act.handedOver, hsent]

/-- The first write in flight is called back. -/
theorem Ledger.callback {r : WriteReq} (hl : Ledger past (r :: flight) trace) (hr : r.Over) :
    Ledger (past ++ [r]) flight (trace ++ [.writeCb r.id r.error]) where
  finished := by
    intro q hq
    rcases List.mem_append.mp hq with hq | hq
    · exact hl.finished q hq
    · rwa [List.mem_singleton.mp hq]
  place := by simpa using hl.place
  accepted := by simp [hl.accepted, Act.acceptedWrite]
  called := by simp [hl.called, Act.calledBack]
  handed := by simp [hl.handed, Act.handedOver]

end ledger

/-! ## The books -/

theorem Takes.count {n : Nat} {before rest : List libuv.UvBuf} (ht : Takes n before rest) :
    countBufs rest + n = countBufs before := by
  have h := congrArg List.length ht.rest
  rw [List.length_drop, length_addresses, length_addresses] at h
  have := ht.le
  omega

section books

variable {s s' : Stream} {req : WriteReq} {queue : List WriteReq} {n : Nat}

/-- What happens besides does not touch the writes. -/
theorem Books.quiet (hs : Books s) (hqueue : s'.writeQueue = s.writeQueue)
    (hpq : s'.control.pq = s.control.pq) (hdone : s'.writeCompletedQueue = s.writeCompletedQueue)
    (hsize : s'.writeQueueSize = s.writeQueueSize)
    (hactive : s'.activeReqs + s.connectReq.toNat + s.shutdownReq.toNat =
      s.activeReqs + s'.connectReq.toNat + s'.shutdownReq.toNat)
    (htrace : SameWrites s.trace s'.trace) : Books s' := by
  have hflight : s'.inflight = s.inflight := by
    unfold Stream.inflight
    rw [hqueue, hpq, hdone]
  obtain ⟨past, hl⟩ := hs.ledger
  refine ⟨hqueue ▸ hs.waiting, hqueue ▸ hs.unsent, ?_, ?_, ?_, past, ?_⟩
  · rw [hpq, hdone]
    exact hs.finished
  · rw [hsize, hflight]
    exact hs.size
  · have := hs.active
    rw [hflight]
    omega
  · rw [hflight]
    exact hl.change [] rfl (fun r hr => hl.place r (List.mem_append_right _ hr)) (by simp)
      htrace.accepted htrace.called (by simp [htrace.handed])

theorem Stream.inflight_of_queue (hq : s.writeQueue = req :: queue) :
    s.inflight = (s.control.pq ++ s.writeCompletedQueue) ++ req :: queue := by
  unfold Stream.inflight
  rw [hq, List.append_assoc]

theorem Books.enqueue (hs : Books s) (id : Nat) {bufs : List libuv.UvBuf} (hbufs : bufs ≠ []) :
    Books (s.enqueue (newReq id bufs)) := by
  have hflight : (s.enqueue (newReq id bufs)).inflight = s.inflight ++ [newReq id bufs] := by
    simp [Stream.inflight, Stream.enqueue, Stream.log, List.append_assoc]
  obtain ⟨past, hl⟩ := hs.ledger
  refine ⟨?_, ?_, hs.finished, ?_, ?_, past, ?_⟩
  · intro r hr
    simp only [Stream.enqueue, Stream.log, List.mem_append, List.mem_singleton] at hr
    rcases hr with hr | rfl
    · exact hs.waiting r hr
    · exact ⟨rfl, rfl, hbufs⟩
  · intro r hr
    have hunsent := hs.unsent
    simp only [Stream.enqueue, Stream.log] at hr
    cases hq : s.writeQueue with
    | nil => simp [hq] at hr
    | cons q qs =>
      rw [hq] at hr hunsent
      simp only [List.cons_append, List.tail_cons, List.mem_append, List.mem_singleton] at hr hunsent
      rcases hr with hr | rfl
      · exact hunsent r hr
      · rfl
  · have hsize := hs.size
    rw [hflight]
    simp only [Stream.enqueue, Stream.log, tally_append, tally_cons, tally_nil, WriteReq.owed,
      newReq, if_true]
    omega
  · have hactive := hs.active
    rw [hflight]
    simp only [Stream.enqueue, Stream.log, List.length_append, List.length_singleton]
    omega
  · rw [hflight]
    exact hl.enqueue id bufs

/-- The first write of the queue gets on by `bytes`: it stays there, or it is over. -/
theorem Books.first (r' : WriteReq) (bytes : List Nat) (hs : Books s)
    (hq : s.writeQueue = req :: queue) (hid : r'.id = req.id) (hbufs : r'.bufs = req.bufs)
    (hrest : addresses req.rest = bytes ++ addresses r'.rest)
    (hplace : s'.writeQueue = r' :: queue ∧ s'.writeCompletedQueue = s.writeCompletedQueue ∧
        r'.Waiting ∨
      s'.writeQueue = queue ∧ s'.writeCompletedQueue = s.writeCompletedQueue ++ [r'] ∧ r'.Over)
    (hsize : s'.writeQueueSize + countBufs req.rest = s.writeQueueSize + r'.owed)
    (hsame : s'.control = s.control ∧ s'.activeReqs = s.activeReqs ∧
      s'.connectReq = s.connectReq ∧ s'.shutdownReq = s.shutdownReq)
    (haccepted : acceptedWrites s'.trace = acceptedWrites s.trace)
    (hcalled : writeCbs s'.trace = writeCbs s.trace)
    (hhanded : handedBytes s'.trace = handedBytes s.trace ++ bytes) : Books s' := by
  obtain ⟨hcontrol, hactive, hconnect, hshutdown⟩ := hsame
  have hw := hs.waiting req (by simp [hq])
  have hunsent : ∀ r ∈ queue, r.rest = r.bufs := fun r hr => hs.unsent r (by rw [hq]; exact hr)
  have hflight := Stream.inflight_of_queue hq
  have hflight' : s'.inflight = (s.control.pq ++ s.writeCompletedQueue) ++ r' :: queue := by
    unfold Stream.inflight
    rcases hplace with ⟨hqueue, hdone, -⟩ | ⟨hqueue, hdone, -⟩ <;> simp [hqueue, hdone, hcontrol]
  obtain ⟨past, hl⟩ := hs.ledger
  refine ⟨?_, ?_, ?_, ?_, ?_, past, ?_⟩
  · intro r hr
    have hold : ∀ r ∈ queue, r.Waiting := fun r hr => hs.waiting r (by simp [hq, hr])
    rcases hplace with ⟨hqueue, -, hw'⟩ | ⟨hqueue, -, -⟩ <;> rw [hqueue] at hr
    · rcases List.mem_cons.mp hr with rfl | hr
      · exact hw'
      · exact hold r hr
    · exact hold r hr
  · intro r hr
    rcases hplace with ⟨hqueue, -, -⟩ | ⟨hqueue, -, -⟩ <;> rw [hqueue] at hr
    · exact hunsent r hr
    · exact hunsent r (List.mem_of_mem_tail hr)
  · intro r hr
    rw [hcontrol] at hr
    rcases hplace with ⟨-, hdone, -⟩ | ⟨-, hdone, hover⟩ <;> rw [hdone] at hr
    · exact hs.finished r hr
    · rw [← List.append_assoc] at hr
      rcases List.mem_append.mp hr with hr | hr
      · exact hs.finished r hr
      · rwa [List.mem_singleton.mp hr]
  · have hold := hs.size
    rw [hflight] at hold
    rw [hflight']
    simp only [tally_append, tally_cons] at hold ⊢
    have howed : req.owed = countBufs req.rest := if_pos hw.hasBufs
    omega
  · have hold := hs.active
    rw [hflight] at hold
    rw [hflight', hactive, hold, hconnect, hshutdown]
    simp
  · rw [hflight']
    rw [hflight] at hl
    exact hl.replace bytes hid hbufs hrest hunsent haccepted hcalled hhanded

/-- What the round of a write takes is handed over. -/
theorem Takes.split {before rest : List libuv.UvBuf} (ht : Takes n before rest) :
    addresses before = (addresses before).take n ++ addresses rest := by
  rw [ht.rest, List.take_append_drop]

theorem Books.part {rest : List libuv.UvBuf} (hs : Books s) (hq : s.writeQueue = req :: queue)
    (ht : Takes n req.rest rest) (hrest : rest ≠ []) : Books (s.took req queue n rest) := by
  have hw := hs.waiting req (by simp [hq])
  have hpay := hs.payable.size
  have hcount := ht.count
  refine hs.first { req with rest } _ hq rfl rfl ht.split (.inl ⟨rfl, rfl, ?_⟩) ?_
    ⟨rfl, rfl, rfl, rfl⟩ ?_ ?_ ?_
  · exact ⟨hw.error, hw.hasBufs, hrest⟩
  · simp only [hq, tally_cons] at hpay
    simp only [Stream.took, Stream.log, WriteReq.owed, hw.hasBufs, if_true]
    omega
  · simp [Stream.took, Stream.log, Act.acceptedWrite]
  · simp [Stream.took, Stream.log, Act.calledBack]
  · simp [Stream.took, Stream.log, Act.handedOver]

theorem Books.whole (hs : Books s) (hq : s.writeQueue = req :: queue) (ht : Takes n req.rest []) :
    Books ((s.took req queue n []).finish { req with rest := [] } queue) := by
  have hw := hs.waiting req (by simp [hq])
  have hpay := hs.payable.size
  have hcount := ht.count
  refine hs.first { req with rest := [], hasBufs := false } _ hq rfl rfl ht.split
    (.inr ⟨rfl, ?_, ?_⟩) ?_ ⟨rfl, rfl, rfl, rfl⟩ ?_ ?_ ?_
  · simp [Stream.finish, Stream.took, Stream.log, hw.error]
  · exact ⟨Int.le_of_eq hw.error, fun _ => ⟨rfl, rfl⟩, fun h => absurd hw.error h⟩
  · simp only [hq, tally_cons] at hpay
    simp only [countBufs] at hcount
    simp only [Stream.finish, Stream.took, Stream.log, WriteReq.owed, Bool.false_eq_true, if_false]
    omega
  · simp [Stream.finish, Stream.took, Stream.log, Act.acceptedWrite]
  · simp [Stream.finish, Stream.took, Stream.log, Act.calledBack]
  · simp [Stream.finish, Stream.took, Stream.log, Act.handedOver]

theorem Books.failed {err : Int} (hs : Books s) (hq : s.writeQueue = req :: queue) (herr : err < 0) :
    Books (s.finish { req with error := err } queue) := by
  have hw := hs.waiting req (by simp [hq])
  have hne : err ≠ 0 := by omega
  refine hs.first { req with error := err } [] hq rfl rfl rfl (.inr ⟨rfl, ?_, ?_⟩) ?_
    ⟨rfl, rfl, rfl, rfl⟩ rfl rfl ?_
  · simp [Stream.finish, hne]
  · exact ⟨Int.le_of_lt herr, fun h => absurd h hne, fun _ => hw.hasBufs⟩
  · simp [Stream.finish, WriteReq.owed, hw.hasBufs]
  · simp [Stream.finish]

theorem Books.wrote {answers : List Answer} (hs : Books s) (h : Wrote s answers s') : Books s' := by
  induction h with
  | empty s hq => exact hs
  | whole s s' req queue n answers hq ht h ih => exact ih (hs.whole hq ht)
  | enough s req queue n hq ht => exact hs.whole hq ht
  | part s req queue n rest hq ht hrest => exact { hs.part hq ht hrest with }
  | again s hq => exact { hs with }
  | error s req queue err hq herr => exact { hs.failed hq herr with }

/-- `uv__stream_flush_write_queue` gives each write in the queue the error. -/
theorem Books.flush {error : Int} (hs : Books s) (herr : error < 0) : Books (s.flush error) := by
  have hne : error ≠ 0 := by omega
  have howed : ∀ l : List WriteReq,
      tally WriteReq.owed (l.map fun req => { req with error }) = tally WriteReq.owed l := by
    intro l
    induction l with
    | nil => rfl
    | cons r l ih => simp [ih, WriteReq.owed]
  have hflight : (s.flush error).inflight = s.control.pq ++ (s.writeCompletedQueue ++
      s.writeQueue.map fun req => { req with error }) := by
    simp [Stream.inflight, Stream.flush]
  obtain ⟨past, hl⟩ := hs.ledger
  refine ⟨by simp [Stream.flush], by simp [Stream.flush], ?_, ?_, ?_, past, ?_⟩
  · intro r hr
    simp only [Stream.flush, ← List.append_assoc] at hr
    rcases List.mem_append.mp hr with hr | hr
    · exact hs.finished r hr
    · obtain ⟨q, hq, rfl⟩ := List.mem_map.mp hr
      exact ⟨Int.le_of_lt herr, fun h => absurd h hne, fun _ => (hs.waiting q hq).hasBufs⟩
  · have hold := hs.size
    rw [hflight]
    simpa [Stream.flush, Stream.inflight, howed] using hold
  · have hold := hs.active
    rw [hflight]
    simpa [Stream.flush, Stream.inflight] using hold
  · rw [hflight]
    refine hl.change [] ?_ ?_ ?_ rfl rfl ?_
    · simp [Stream.inflight]
    · intro r hr
      simp only [← List.append_assoc] at hr
      rcases List.mem_append.mp hr with hr | hr
      · refine hl.place r (List.mem_append_right _ ?_)
        simp only [Stream.inflight, ← List.append_assoc]
        exact List.mem_append_left _ hr
      · obtain ⟨q, hq, rfl⟩ := List.mem_map.mp hr
        exact hl.place q (List.mem_append_right _ (by simp [Stream.inflight, hq]))
    · have hsent : (s.writeQueue.map fun req => { req with error }).flatMap WriteReq.sent =
          s.writeQueue.flatMap WriteReq.sent := List.flatMap_map _ _ _
      simp [Stream.inflight, hsent]
    · simp [Stream.flush]

/-- `uv__write_callbacks` takes the completed writes over. -/
theorem Books.callbacks {after : After} (hs : Books s) (hpq : s.control.pq = []) :
    Books (s.callbacks after) := by
  have hflight : (s.callbacks after).inflight = s.inflight := by
    simp [Stream.inflight, Stream.callbacks, Stream.goto, hpq]
  have hover := hs.finished
  obtain ⟨past, hl⟩ := hs.ledger
  refine ⟨hs.waiting, hs.unsent, ?_, ?_, ?_, past, ?_⟩
  · simpa [Stream.callbacks, Stream.goto, hpq] using hover
  · rw [hflight]
    exact hs.size
  · rw [hflight]
    exact hs.active
  · rw [hflight]
    exact hl

theorem Books.called {pq : List WriteReq} {after : After} (hs : Books s)
    (hc : s.control = .calling (req :: pq) after) :
    Books (({ s with
      activeReqs := s.activeReqs - 1
      writeQueueSize := s.writeQueueSize - req.owed }.log
        [.writeCb req.id req.error]).goto (.calling pq after)) := by
  have hflight : s.inflight = req :: (pq ++ (s.writeCompletedQueue ++ s.writeQueue)) := by
    simp [Stream.inflight, hc, Control.pq]
  have hsize := hs.size
  have hactive := hs.active
  have hover : ∀ r ∈ req :: (pq ++ s.writeCompletedQueue), r.Over := by
    have h := hs.finished
    rwa [hc] at h
  rw [hflight] at hsize hactive
  obtain ⟨past, hl⟩ := hs.ledger
  rw [hflight] at hl
  refine ⟨hs.waiting, hs.unsent, ?_, ?_, ?_, past ++ [req], ?_⟩
  · exact fun r hr => hover r (List.mem_cons_of_mem _ hr)
  · simp only [tally_cons] at hsize
    simp only [Stream.inflight, Stream.goto, Stream.log, Control.pq]
    omega
  · simp only [List.length_cons] at hactive
    simp only [Stream.inflight, Stream.goto, Stream.log, Control.pq]
    omega
  · exact hl.callback (hover req List.mem_cons_self)

theorem Books.drained (hs : Books s) (h : Drained s s') : Books s' := by
  cases h with
  | plain hr => exact { hs with }
  | shuts err hr herr hcl =>
    have hactive := hs.active
    rw [hr] at hactive
    refine hs.quiet rfl rfl rfl rfl ?_ (sameWrites_snoc rfl rfl rfl)
    simp only [Stream.log, hr, Bool.toNat_true, Bool.toNat_false] at hactive ⊢
    omega

theorem Books.goto {control : Control} (hs : Books s) (hpq : s.control.pq = [])
    (hpq' : control.pq = []) : Books (s.goto control) :=
  hs.quiet rfl (hpq'.trans hpq.symm) rfl rfl rfl sameWrites_refl

theorem Books.readOne {count : Nat} {ev : PollEvents} (hs : Books s) (hpq : s.control.pq = [])
    (h : ReadOne s count ev s') : Books s' := by
  cases h with
  | noBuffer => exact hs.quiet rfl hpq.symm rfl rfl rfl (sameWrites_snoc rfl rfl rfl)
  | part n hn => exact hs.quiet rfl hpq.symm rfl rfl rfl (sameWrites_snoc rfl rfl rfl)
  | full n hn => exact hs.quiet rfl hpq.symm rfl rfl rfl (sameWrites_snoc rfl rfl rfl)
  | again => exact hs.quiet rfl hpq.symm rfl rfl rfl (sameWrites_snoc rfl rfl rfl)
  | eof => exact hs.quiet rfl hpq.symm rfl rfl rfl (sameWrites_snoc rfl rfl rfl)
  | error err herr => exact hs.quiet rfl hpq.symm rfl rfl rfl (sameWrites_snoc rfl rfl rfl)

end books

theorem books_moved {s s' : Stream} {e : Event} (hf : Flags s) (hs : Books s)
    (h : Moved s e s') : Books s' := by
  cases h with
  | connects delayedError hfd hcl hd =>
    refine hs.quiet rfl rfl rfl rfl ?_ sameWrites_refl
    simp only [(hf.unused hfd hcl).2.1, Bool.toNat_true, Bool.toNat_false]
  | opens hfd hcl hreq => exact hs.quiet rfl rfl rfl rfl rfl (sameWrites_snoc rfl rfl rfl)
  | refuses id bufs err hw herr =>
    exact hs.quiet rfl rfl rfl rfl rfl (sameWrites_snoc rfl rfl rfl)
  | queues id bufs hbufs hw hreq => exact hs.enqueue id hbufs
  | writes id bufs answers _ hbufs hw hreq hsize h => exact (hs.enqueue id hbufs).wrote h
  | waits id bufs hbufs hw hreq => exact { hs.enqueue id hbufs with }
  | startsReading hr => exact { hs with }
  | stopsReading => exact { hs with }
  | shutsDown hw hshut hreq =>
    refine hs.quiet rfl rfl rfl rfl ?_ sameWrites_refl
    simp only [hreq, Bool.toNat_true, Bool.toNat_false]
    omega
  | closes hcl => exact hs.quiet rfl rfl rfl rfl rfl (sameWrites_snoc rfl rfl rfl)
  | staysConnecting e pending ev hc h hreq => exact { hs with }
  | connected e pending ev error pollout hc h hreq herr hsource hout hstays =>
    have hactive := hs.active
    rw [hreq] at hactive
    refine hs.quiet rfl (by rw [hc]; rfl) rfl rfl ?_ (sameWrites_snoc rfl rfl rfl)
    simp only [Stream.log, Stream.goto, hreq, Bool.toNat_true, Bool.toNat_false] at hactive ⊢
    omega
  | reads e pending ev hc h hreq hin =>
    exact hs.quiet rfl (by rw [hc]; rfl) rfl rfl rfl sameWrites_refl
  | ready e pending ev hc h hreq =>
    exact hs.quiet rfl (by rw [hc]; rfl) rfl rfl rfl sameWrites_refl
  | destroysConnecting hc hcl hclosed hreq =>
    have hactive := hs.active
    rw [hreq] at hactive
    have hcancel : Books ({ s with
        closed := true
        connectReq := false
        activeReqs := s.activeReqs - 1 }.log [.connectCb UV_ECANCELED]) := by
      refine hs.quiet rfl rfl rfl rfl ?_ (sameWrites_snoc rfl rfl rfl)
      simp only [Stream.log, hreq, Bool.toNat_true, Bool.toNat_false] at hactive ⊢
      omega
    exact (hcancel.flush (by decide)).callbacks (by simp [Stream.flush, Stream.log, hc, Control.pq])
  | destroys hc hcl hclosed hreq =>
    have hclosed : Books { s with closed := true } := { hs with }
    exact (hclosed.flush (by decide)).callbacks (by simp [Stream.flush, hc, Control.pq])
  | readOne answer count ev _ hc hr h => exact hs.readOne (by rw [hc]; rfl) h
  | called req pq after hc => exact hs.called hc
  | connectFailed soError error hc herr =>
    exact (hs.flush (by decide)).callbacks (by simp [Stream.flush, hc, Control.pq])
  | connectReturned soError error hc h => exact hs.goto (by rw [hc]; rfl) rfl
  | readEnded soError count ev hc => exact hs.goto (by rw [hc]; rfl) rfl
  | readFailed soError ev hc =>
    exact hs.quiet rfl (by rw [hc]; rfl) rfl rfl rfl sameWrites_refl
  | readClosed soError ev hc hfd => exact hs.goto (by rw [hc]; rfl) rfl
  | hangsUp soError ev hc hr =>
    exact hs.quiet rfl (by rw [hc]; rfl) rfl rfl rfl (sameWrites_snoc rfl rfl rfl)
  | goesOn soError ev hc => exact hs.goto (by rw [hc]; rfl) rfl
  | ioWrites soError ev answers s₁ hc hfd h =>
    have hs' := hs.wrote h
    obtain ⟨_, _, _, _, _, _, rfl⟩ := h.same
    exact hs'.callbacks (by simp [hc, Control.pq])
  | ioEnds soError ev hc h => exact hs.goto (by rw [hc]; rfl) rfl
  | drains soError s₁ hc hq h =>
    have hs' := hs.drained h
    obtain ⟨_, _, _, _, rfl⟩ := h.same
    exact hs'.goto (by simp [hc]) rfl
  | returns soError after hc h => exact hs.goto (by rw [hc]; rfl) rfl
  | closed soError s₁ hc h =>
    have hs' := hs.drained h
    obtain ⟨_, _, _, _, rfl⟩ := h.same
    exact hs'.quiet rfl (by simp [Stream.log, Stream.goto, hc, Control.pq]) rfl rfl rfl
      (sameWrites_snoc rfl rfl rfl)

/-! ## Every run -/

theorem sound_moved {s s' : Stream} {e : Event} (hs : Sound s) (h : Moved s e s') : Sound s' where
  flags := flags_moved hs.flags h
  books := books_moved hs.flags hs.books h

theorem sound_step {s s' : Stream} {e : Event} (hs : Sound s) (h : step s e = .ok s') : Sound s' :=
  sound_moved hs (of_gives (moved hs e) h)

theorem sound_run {s : Stream} {es : List Event} (h : run step start es = .ok s) : Sound s :=
  run_keeps sound_start (fun _ _ _ hs hstep => sound_step hs hstep) h

end linuxc.uv_stream
