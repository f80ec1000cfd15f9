-- What each event does to a stream. The flags say which calls are possible, the
-- books account for every request, and with both no assertion fails that the
-- program could not break itself.
import Linuxc.UvStream

namespace linuxc.uv_stream

open event_runs

/-! ## Buffers -/

theorem length_addresses (bufs : List libuv.UvBuf) : (addresses bufs).length = countBufs bufs := by
  induction bufs with
  | nil => rfl
  | cons b bs ih => simp [addresses, countBufs, ih]

/-- `uv__write_req_update` goes past the first `n` bytes, when there are as many. -/
theorem update_spec {n : Nat} {bufs : List libuv.UvBuf} (hbufs : bufs ≠ [])
    (hn : n ≤ countBufs bufs) :
    ∃ rest, update n bufs = some rest ∧ addresses rest = (addresses bufs).drop n := by
  induction bufs generalizing n with
  | nil => exact absurd rfl hbufs
  | cons b bs ih =>
    have hlen := length_addresses bs
    simp only [countBufs] at hn
    simp only [update, addresses]
    by_cases hlt : n < b.len
    · have hcond : ¬ 0 < n - n := by omega
      have hsub : ¬ b.len - n = 0 := by omega
      refine ⟨⟨b.base + n, b.len - n⟩ :: bs, by simp [hlt, hsub], ?_⟩
      rw [addresses, List.drop_append_of_le_length (by simp; omega), List.drop_range']
      simp
    · have hdrop : (List.range' b.base b.len ++ addresses bs).drop n =
          (addresses bs).drop (n - b.len) := by
        rw [List.drop_append, List.drop_eq_nil_of_le (by simp; omega)]
        simp
      rw [hdrop]
      by_cases hmore : 0 < n - b.len
      · have hbs : bs ≠ [] := by
          rintro rfl
          simp only [countBufs] at hn
          omega
        obtain ⟨rest, hrest, haddr⟩ := ih hbs (n := n - b.len) (by omega)
        exact ⟨rest, by simpa [hlt, hmore] using hrest, haddr⟩
      · have hzero : n - b.len = 0 := by omega
        exact ⟨bs, by simp [hlt, hzero], by simp [hzero]⟩

theorem countBufs_take_le (n : Nat) (bufs : List libuv.UvBuf) :
    countBufs (bufs.take n) ≤ countBufs bufs := by
  induction bufs generalizing n with
  | nil => simp
  | cons b bs ih =>
    cases n with
    | zero => simp [countBufs]
    | succ n =>
      simp only [List.take_succ_cons, countBufs]
      exact Nat.add_le_add_left (ih n) _

/-! ## The flags -/

/-- The descriptor is open from `uv_accept` or `uv_tcp_connect` to `uv_close`, and whatever else a
handle does is done in between. -/
structure Flags (s : Stream) : Prop where
  readable : s.readable = true → s.fd = true
  writable : s.writable = true → s.fd = true
  reading : s.reading = true → s.fd = true
  pollin : s.pollin = s.reading
  pollout : s.pollout = true → s.fd = true
  pending : s.pending = true → s.fd = true
  closing : s.closing = true → s.fd = false
  closed : s.closed = true → s.closing = true
  delayed : s.delayedError ≤ 0
  connecting : s.connectReq = true → s.fd = true ∨ s.closing = true
  used : s.control ≠ .idle → s.connectReq = false ∧ (s.fd = true ∨ s.closing = true)
  queued : s.writeQueue ≠ [] → s.fd = true ∨ s.closing = true
  ended : s.closed = true → s.connectReq = false ∧ s.writeQueue = [] ∧ s.writeCompletedQueue = [] ∧
    (s.control = .idle ∨ ∃ pq, s.control = .calling pq .destroy)
  destroyed : ∀ pq, s.control = .calling pq .destroy → s.closed = true
  shutting : s.shutdownReq = true →
    s.shut = false ∧ s.writable = false ∧ (s.fd = true ∨ s.closing = true)
  shut : s.shut = true →
    s.writable = false ∧ s.writeQueue = [] ∧ (s.fd = true ∨ s.closing = true)

/-! ## The books -/

/-- The write is in the queue, and some of it is still to be sent. -/
structure WriteReq.Waiting (r : WriteReq) : Prop where
  error : r.error = 0
  hasBufs : r.hasBufs = true
  rest : r.rest ≠ []

/-- The write is over: all of it was sent, or there was an error. -/
structure WriteReq.Over (r : WriteReq) : Prop where
  error : r.error ≤ 0
  whole : r.error = 0 → r.rest = [] ∧ r.hasBufs = false
  failed : r.error ≠ 0 → r.hasBufs = true

/-- What a write has in `write_queue_size`. -/
def WriteReq.owed (r : WriteReq) : Nat := if r.hasBufs then countBufs r.rest else 0

/-- The bytes that the kernel took of a write. -/
def WriteReq.sent (r : WriteReq) : List Nat :=
  (addresses r.bufs).take (countBufs r.bufs - countBufs r.rest)

@[simp] theorem Control.pq_calling {pq : List WriteReq} {after : After} :
    (Control.calling pq after).pq = pq := rfl

/-- The writes that were accepted and not called back, in their order. -/
def Stream.inflight (s : Stream) : List WriteReq :=
  s.control.pq ++ (s.writeCompletedQueue ++ s.writeQueue)

def Act.acceptedWrite : Act → List (Nat × List libuv.UvBuf)
  | .accepted id bufs => [(id, bufs)]
  | _ => []

def Act.calledBack : Act → List (Nat × Int)
  | .writeCb id status => [(id, status)]
  | _ => []

def Act.handedOver : Act → List Nat
  | .handed bytes => bytes
  | _ => []

/-- The writes that `uv_write` accepted. -/
def acceptedWrites (trace : List Act) : List (Nat × List libuv.UvBuf) :=
  trace.flatMap Act.acceptedWrite

/-- The writes that were called back. -/
def writeCbs (trace : List Act) : List (Nat × Int) := trace.flatMap Act.calledBack

/-- The bytes that the kernel took. -/
def handedBytes (trace : List Act) : List Nat := trace.flatMap Act.handedOver

/-- The writes in their order: those that are over, and those in flight. Each is at some place of
its buffers, and all before it in the queue are whole. -/
structure Ledger (past flight : List WriteReq) (trace : List Act) : Prop where
  finished : ∀ r ∈ past, r.Over
  place : ∀ r ∈ past ++ flight, addresses r.rest <:+ addresses r.bufs
  accepted : acceptedWrites trace = (past ++ flight).map fun r => (r.id, r.bufs)
  called : writeCbs trace = past.map fun r => (r.id, r.error)
  handed : handedBytes trace = (past ++ flight).flatMap WriteReq.sent

structure Books (s : Stream) : Prop where
  waiting : ∀ r ∈ s.writeQueue, r.Waiting
  unsent : ∀ r ∈ s.writeQueue.tail, r.rest = r.bufs
  finished : ∀ r ∈ s.control.pq ++ s.writeCompletedQueue, r.Over
  size : s.writeQueueSize = tally WriteReq.owed s.inflight
  active : s.activeReqs = s.connectReq.toNat + s.shutdownReq.toNat + s.inflight.length
  ledger : ∃ past, Ledger past s.inflight s.trace

structure Sound (s : Stream) : Prop where
  flags : Flags s
  books : Books s

theorem sound_start : Sound start where
  flags := by constructor <;> simp [start]
  books := by
    refine ⟨by simp [start], by simp [start], by simp [start, Control.pq], rfl, rfl, [], ?_⟩
    exact ⟨by simp, by simp [start, Stream.inflight, Control.pq], rfl, rfl, rfl⟩

/-! ## What stops a step -/

section stops

variable {α : Type} {R : Stop → Prop} {Q : α → Prop} {b : Bool} {c : Check} {f : Unit → Except Stop α}

theorem guarded_gives (hR : R .notNow) (h : b = true → Gives R (f ()) Q) :
    Gives R (guarded b >>= f) Q := by
  cases b with
  | false => exact hR
  | true => exact h rfl

theorem check_gives (hb : b = true) (h : Gives R (f ()) Q) : Gives R (check c b >>= f) Q := by
  subst hb
  exact h

end stops

/-! ## The loop of the writes -/

/-- `n` bytes of the first write are gone, and `rest` is left of it. -/
def Stream.took (s : Stream) (req : WriteReq) (queue : List WriteReq) (n : Nat)
    (rest : List libuv.UvBuf) : Stream :=
  { s with
    writeQueueSize := s.writeQueueSize - n
    writeQueue := { req with rest } :: queue }.log [.handed ((addresses req.rest).take n)]

/-- `n` bytes of a write with `before` left, and `rest` after. -/
structure Takes (n : Nat) (before rest : List libuv.UvBuf) : Prop where
  le : n ≤ countBufs before
  rest : addresses rest = (addresses before).drop n

/-- What `uv__write` does with some answers. -/
inductive Wrote : Stream → List Answer → Stream → Prop
  | empty (s : Stream) (hq : s.writeQueue = []) : Wrote s [] s
  | whole (s s' : Stream) (req : WriteReq) (queue : List WriteReq) (n : Nat) (answers : List Answer)
      (hq : s.writeQueue = req :: queue) (ht : Takes n req.rest [])
      (h : Wrote ((s.took req queue n []).finish { req with rest := [] } queue) answers s') :
      Wrote s (.wrote n :: answers) s'
  | enough (s : Stream) (req : WriteReq) (queue : List WriteReq) (n : Nat)
      (hq : s.writeQueue = req :: queue) (ht : Takes n req.rest []) :
      Wrote s [.wrote n] ((s.took req queue n []).finish { req with rest := [] } queue)
  | part (s : Stream) (req : WriteReq) (queue : List WriteReq) (n : Nat) (rest : List libuv.UvBuf)
      (hq : s.writeQueue = req :: queue) (ht : Takes n req.rest rest) (hrest : rest ≠ []) :
      Wrote s [.wrote n] { s.took req queue n rest with pollout := true }
  | again (s : Stream) (hq : s.writeQueue ≠ []) : Wrote s [.again] { s with pollout := true }
  | error (s : Stream) (req : WriteReq) (queue : List WriteReq) (err : Int)
      (hq : s.writeQueue = req :: queue) (herr : err < 0) :
      Wrote s [.error err] { s.finish { req with error := err } queue with pollout := false }

/-- What is owed for the queue is in `write_queue_size`, and no write in it is all sent. -/
structure Payable (s : Stream) : Prop where
  rest : ∀ r ∈ s.writeQueue, r.rest ≠ []
  size : tally (fun r => countBufs r.rest) s.writeQueue ≤ s.writeQueueSize

theorem writeLoop_gives (count : Nat) {s : Stream} (answers : List Answer) (hs : Payable s) :
    Gives (· = .notNow) (writeLoop count s answers) fun r =>
      r.2 = [] → Wrote s answers r.1 := by
  induction answers generalizing s count with
  | nil =>
    unfold writeLoop
    split
    · rename_i hq
      exact gives_ok fun _ => .empty s hq
    · exact gives_error rfl
    all_goals contradiction
  | cons answer answers ih =>
    unfold writeLoop
    split
    · exact gives_ok fun h => absurd h (by simp)
    · contradiction
    · rename_i req queue n answers' hq ha
      cases ha
      refine guarded_gives rfl fun hn => ?_
      have hle : n ≤ countBufs req.rest :=
        Nat.le_trans (by simpa using hn) (countBufs_take_le _ _)
      have hsize := hs.size
      simp only [hq, tally_cons] at hsize
      refine check_gives (by simp; omega) ?_
      obtain ⟨rest, hrest, haddr⟩ := update_spec (hs.rest req (by simp [hq])) hle
      have ht : Takes n req.rest rest := ⟨hle, haddr⟩
      refine gives_bind_ok (by rw [hrest]; rfl) ?_
      dsimp only
      split
      · rename_i hnil
        subst hnil
        have hcount : countBufs req.rest = n := by
          have h := congrArg List.length haddr
          simp only [addresses, List.length_nil, List.length_drop, length_addresses] at h
          omega
        cases count with
        | zero =>
          refine gives_pure fun h => ?_
          dsimp only at h
          subst h
          exact .enough s req queue n hq ht
        | succ count =>
          have hs' : Payable ((s.took req queue n []).finish { req with rest := [] } queue) := by
            refine ⟨fun r hr => hs.rest r (by rw [hq]; exact List.mem_cons_of_mem _ hr), ?_⟩
            simp only [Stream.finish, Stream.took, Stream.log]
            omega
          exact gives_mono (ih count hs') (fun _ h => h) fun r h hr =>
            .whole s r.1 req queue n answers hq ht (h hr)
      · rename_i hne
        refine gives_pure fun h => ?_
        dsimp only at h
        subst h
        exact .part s req queue n rest hq ht hne
    · rename_i hq ha
      cases ha
      refine gives_ok fun h => ?_
      dsimp only at h
      subst h
      exact .again s (by simp [hq])
    · rename_i req queue err answers' hq ha
      cases ha
      refine guarded_gives rfl fun herr => gives_pure fun h => ?_
      dsimp only at h
      subst h
      exact .error s req queue err hq (by simpa using herr)

theorem write_gives {s : Stream} (answers : List Answer) (hfd : s.fd = true) (hs : Payable s) :
    Gives (· = .notNow) (s.write answers) (Wrote s answers) := by
  unfold Stream.write
  refine check_gives hfd (gives_bind (writeLoop_gives 32 answers hs) ?_)
  rintro ⟨s', left⟩ h
  exact guarded_gives rfl fun hleft => gives_pure (h (by simpa using hleft))

/-! ## What each event does -/

/-- The new request of `uv_write`. -/
def newReq (id : Nat) (bufs : List libuv.UvBuf) : WriteReq := ⟨id, bufs, bufs, 0, true⟩

/-- The loop comes to the handle: the descriptor is ready, or the handle was pending. -/
inductive Ready (s : Stream) : Event → Bool → PollEvents → Prop
  | poll (ev : PollEvents) (soError : Int) (hfd : s.fd = true)
      (hout : ev.pollout = true → s.pollout = true) : Ready s (.poll ev soError) s.pending ev
  | pending (soError : Int) (hp : s.pending = true) :
      Ready s (.runPending soError) false ⟨false, true, false, false⟩

/-- What the kernel says of the connection. -/
def Event.soError : Event → Int
  | .poll _ soError | .runPending soError => soError
  | _ => 0

/-- What `uv__drain` does. -/
inductive Drained (s : Stream) : Stream → Prop
  | plain (hr : s.shutdownReq = false) : Drained s { s with pollout := false }
  | shuts (err : Int) (hr : s.shutdownReq = true) (herr : err ≤ 0)
      (hcl : s.closing = true → err = UV_ECANCELED) :
      Drained s ({ s with
        pollout := false
        shutdownReq := false
        activeReqs := s.activeReqs - 1
        shut := s.shut ∨ err = 0 }.log [.shutdownCb err])

/-- What a step of `uv__read` does. -/
inductive ReadOne (s : Stream) (count : Nat) (ev : PollEvents) : Stream → Prop
  | noBuffer : ReadOne s count ev ((s.log [.readCb UV_ENOBUFS]).goto (.read ev))
  | part (n : Nat) (hn : 0 < n) :
      ReadOne s count ev (({ s with readPartial := true }.log [.readCb n]).goto (.read ev))
  | full (n : Nat) (hn : 0 < n) : ReadOne s count ev ((s.log [.readCb n]).goto (.reading count ev))
  | again : ReadOne s count ev (({ s with pollin := true }.log [.readCb 0]).goto (.read ev))
  | eof : ReadOne s count ev (s.eof.goto (.read ev))
  | error (err : Int) (herr : err < 0) :
      ReadOne s count ev (({ s with readable := false, writable := false }.log
        [.readCb err]).goto (.readFailed ev))

inductive Moved (s : Stream) : Event → Stream → Prop
  | connects (delayedError : Int) (hfd : s.fd = false) (hcl : s.closing = false)
      (hd : delayedError ≤ 0) :
      Moved s (.uvConnect delayedError) { s with
        fd := true
        readable := true
        writable := true
        connectReq := true
        delayedError
        activeReqs := s.activeReqs + 1
        pollout := true
        pending := s.pending ∨ delayedError ≠ 0 }
  | opens (hfd : s.fd = false) (hcl : s.closing = false) (hreq : s.connectReq = false) :
      Moved s .uvOpen ({ s with fd := true, readable := true, writable := true }.log [.opened])
  | refuses (id : Nat) (bufs : List libuv.UvBuf) (err : Int) (hw : s.writable = false)
      (herr : err < 0) : Moved s (.uvWrite id bufs []) (s.log [.refused id err])
  | queues (id : Nat) (bufs : List libuv.UvBuf) (hbufs : bufs ≠ []) (hw : s.writable = true)
      (hreq : s.connectReq = true) : Moved s (.uvWrite id bufs []) (s.enqueue (newReq id bufs))
  | writes (id : Nat) (bufs : List libuv.UvBuf) (answers : List Answer) (s' : Stream)
      (hbufs : bufs ≠ []) (hw : s.writable = true) (hreq : s.connectReq = false)
      (hsize : s.writeQueueSize = 0) (h : Wrote (s.enqueue (newReq id bufs)) answers s') :
      Moved s (.uvWrite id bufs answers) s'
  | waits (id : Nat) (bufs : List libuv.UvBuf) (hbufs : bufs ≠ []) (hw : s.writable = true)
      (hreq : s.connectReq = false) :
      Moved s (.uvWrite id bufs []) { s.enqueue (newReq id bufs) with pollout := true }
  | startsReading (hr : s.readable = true) :
      Moved s .uvReadStart { s with reading := true, readEof := false, pollin := true }
  | stopsReading : Moved s .uvReadStop { s with reading := false, pollin := false }
  | shutsDown (hw : s.writable = true) (hshut : s.shut = false) (hreq : s.shutdownReq = false) :
      Moved s .uvShutdown { s with
        shutdownReq := true
        activeReqs := s.activeReqs + 1
        writable := false
        pending := s.pending ∨ s.writeQueue = [] }
  | closes (hcl : s.closing = false) :
      Moved s .uvClose ({ s with
        closing := true
        fd := false
        readable := false
        writable := false
        reading := false
        pollin := false
        pollout := false
        pending := false }.log [.closing])
  | staysConnecting (e : Event) (pending : Bool) (ev : PollEvents) (hc : s.control = .idle)
      (h : Ready s e pending ev) (hreq : s.connectReq = true) :
      Moved s e { s with pending, delayedError := 0 }
  | connected (e : Event) (pending : Bool) (ev : PollEvents) (error : Int) (pollout : Bool)
      (hc : s.control = .idle) (h : Ready s e pending ev) (hreq : s.connectReq = true)
      (herr : error ≤ 0) (hsource : error = s.delayedError ∨ error = e.soError)
      (hout : pollout = true → s.pollout = true)
      (hstays : 0 ≤ error → s.writeQueue ≠ [] → pollout = s.pollout) :
      Moved s e (({ s with
        connectReq := false
        delayedError := 0
        activeReqs := s.activeReqs - 1
        pollout
        pending }.log [.connectCb error]).goto (.connected error))
  | reads (e : Event) (pending : Bool) (ev : PollEvents) (hc : s.control = .idle)
      (h : Ready s e pending ev) (hreq : s.connectReq = false)
      (hin : ev.pollin = true ∨ ev.pollerr = true ∨ ev.pollhup = true) :
      Moved s e ({ s with pending, readPartial := false }.goto (.reading 32 ev))
  | ready (e : Event) (pending : Bool) (ev : PollEvents) (hc : s.control = .idle)
      (h : Ready s e pending ev) (hreq : s.connectReq = false) :
      Moved s e ({ s with pending }.goto (.read ev))
  | destroysConnecting (hc : s.control = .idle) (hcl : s.closing = true) (hclosed : s.closed = false)
      (hreq : s.connectReq = true) :
      Moved s .finishClose ((({ s with
        closed := true
        connectReq := false
        activeReqs := s.activeReqs - 1 }.log [.connectCb UV_ECANCELED]).flush
          UV_ECANCELED).callbacks .destroy)
  | destroys (hc : s.control = .idle) (hcl : s.closing = true) (hclosed : s.closed = false)
      (hreq : s.connectReq = false) :
      Moved s .finishClose (({ s with closed := true }.flush UV_ECANCELED).callbacks .destroy)
  | readOne (answer : ReadAnswer) (count : Nat) (ev : PollEvents) (s' : Stream)
      (hc : s.control = .reading (count + 1) ev) (hr : s.reading = true)
      (h : ReadOne s count ev s') : Moved s (.readOne answer) s'
  | called (req : WriteReq) (pq : List WriteReq) (after : After)
      (hc : s.control = .calling (req :: pq) after) :
      Moved s .callback (({ s with
        activeReqs := s.activeReqs - 1
        writeQueueSize := s.writeQueueSize - req.owed }.log
          [.writeCb req.id req.error]).goto (.calling pq after))
  | connectFailed (soError error : Int) (hc : s.control = .connected error) (herr : error < 0) :
      Moved s (.resume [] soError) ((s.flush UV_ECANCELED).callbacks .connect)
  | connectReturned (soError error : Int) (hc : s.control = .connected error)
      (h : s.fd = false ∨ 0 ≤ error) : Moved s (.resume [] soError) (s.goto .idle)
  | readEnded (soError : Int) (count : Nat) (ev : PollEvents) (hc : s.control = .reading count ev) :
      Moved s (.resume [] soError) (s.goto (.read ev))
  | readFailed (soError : Int) (ev : PollEvents) (hc : s.control = .readFailed ev) :
      Moved s (.resume [] soError) ({ s with reading := false, pollin := false }.goto (.read ev))
  | readClosed (soError : Int) (ev : PollEvents) (hc : s.control = .read ev) (hfd : s.fd = false) :
      Moved s (.resume [] soError) (s.goto .idle)
  | hangsUp (soError : Int) (ev : PollEvents) (hc : s.control = .read ev) (hr : s.reading = true) :
      Moved s (.resume [] soError) (s.eof.goto (.writing ev))
  | goesOn (soError : Int) (ev : PollEvents) (hc : s.control = .read ev) :
      Moved s (.resume [] soError) (s.goto (.writing ev))
  | ioWrites (soError : Int) (ev : PollEvents) (answers : List Answer) (s' : Stream)
      (hc : s.control = .writing ev) (hfd : s.fd = true) (h : Wrote s answers s') :
      Moved s (.resume answers soError) (s'.callbacks .io)
  | ioEnds (soError : Int) (ev : PollEvents) (hc : s.control = .writing ev)
      (h : s.fd = false ∨ ev.pollout = false) : Moved s (.resume [] soError) (s.goto .idle)
  | drains (soError : Int) (s' : Stream) (hc : s.control = .calling [] .io) (hq : s.writeQueue = [])
      (h : Drained s s') : Moved s (.resume [] soError) (s'.goto .idle)
  | returns (soError : Int) (after : After) (hc : s.control = .calling [] after)
      (h : after = .connect ∨ after = .io ∧ s.writeQueue ≠ []) :
      Moved s (.resume [] soError) (s.goto .idle)
  | closed (soError : Int) (s' : Stream) (hc : s.control = .calling [] .destroy)
      (h : Drained s s') : Moved s (.resume [] soError) ((s'.log [.closeCb]).goto .idle)

/-- Why a step may be refused: it is not its turn, or the program asks for what `uv_write` and
`uv_close` forbid by an assertion. -/
inductive Refused (s : Stream) (e : Event) : Stop → Prop
  | notNow : Refused s e .notNow
  | nbufs (id : Nat) (answers : List Answer) (he : e = .uvWrite id [] answers) :
      Refused s e (.failed .nbufs)
  | closing (he : e = .uvClose) (hcl : s.closing = true) : Refused s e (.failed .closing)

section gives

variable {s : Stream}

theorem Flags.open_not_closing (hs : Flags s) (hfd : s.fd = true) : s.closing = false := by
  cases hcl : s.closing with
  | false => rfl
  | true => rw [hs.closing hcl] at hfd; cases hfd

/-- After `uv_close` nothing is read and the watcher is stopped. -/
theorem Flags.off (hs : Flags s) (hfd : s.fd = false) :
    s.reading = false ∧ s.pollin = false ∧ s.pollout = false ∧ s.pending = false := by
  have hr : s.reading = false := by
    cases h : s.reading with
    | false => rfl
    | true => rw [hs.reading h] at hfd; cases hfd
  refine ⟨hr, hs.pollin.trans hr, ?_, ?_⟩
  · cases h : s.pollout with
    | false => rfl
    | true => rw [hs.pollout h] at hfd; cases hfd
  · cases h : s.pending with
    | false => rfl
    | true => rw [hs.pending h] at hfd; cases hfd

theorem Flags.stop_reading (hs : Flags s) (hr : s.reading = false) :
    { s with reading := false, pollin := false } = s := by
  have hp := hs.pollin.trans hr
  cases s
  simp_all

theorem Books.payable (hs : Books s) : Payable s where
  rest := fun r hr => (hs.waiting r hr).rest
  size := by
    have howed : ∀ l : List WriteReq, (∀ r ∈ l, r.Waiting) →
        tally (fun r => countBufs r.rest) l = tally WriteReq.owed l := by
      intro l hl
      induction l with
      | nil => rfl
      | cons r l ih =>
        have hr := (hl r (by simp)).hasBufs
        simp [WriteReq.owed, hr, ih fun r hr => hl r (List.mem_cons_of_mem _ hr)]
    rw [hs.size, Stream.inflight, howed _ hs.waiting]
    simp only [tally_append]
    omega

/-- A connect and a shutdown that are asked for are active requests. -/
theorem Books.active_pos (hs : Books s) (h : s.connectReq = true ∨ s.shutdownReq = true) :
    0 < s.activeReqs := by
  rw [hs.active]
  rcases h with h | h <;> simp only [h, Bool.toNat_true] <;> omega

theorem unregister_ok (h : 0 < s.activeReqs) :
    s.unregister = .ok { s with activeReqs := s.activeReqs - 1 } := by
  unfold Stream.unregister check
  simp [h]

theorem drain_gives {R : Stop → Prop} {soError : Int} (hs : Sound s) (hq : s.writeQueue = [])
    (herr : soError ≤ 0) : Gives R (s.drain soError) (Drained s) := by
  unfold Stream.drain
  refine check_gives (by simp [hq]) ?_
  have hout : (if s.closing then s else { s with pollout := false }) =
      { s with pollout := false } := by
    split
    · rename_i hcl
      have hoff := (hs.flags.off (hs.flags.closing hcl)).2.2.1
      cases s
      simp_all
    · rfl
  rw [hout]
  dsimp only
  split
  · rename_i h
    refine gives_bind_ok (unregister_ok (hs.books.active_pos (.inr h.1))) (gives_pure ?_)
    dsimp only
    refine .shuts _ h.1 ?_ ?_
    · split
      · decide
      · exact herr
    · intro hcl
      rw [if_pos hcl]
  · rename_i h
    refine gives_pure (.plain ?_)
    cases hreq : s.shutdownReq with
    | false => rfl
    | true => simp [hreq, (hs.flags.shutting hreq).1] at h

theorem readRound_gives {count : Nat} {ev : PollEvents} (answer : ReadAnswer) (hfd : s.fd = true) :
    Gives (· = .notNow) (s.readRound count ev answer) (ReadOne s count ev) := by
  cases answer with
  | noBuffer => exact gives_pure .noBuffer
  | bytes n len =>
    refine guarded_gives rfl fun hn => check_gives hfd ?_
    simp only [decide_eq_true_eq] at hn
    split
    · exact gives_pure (.part n hn.1)
    · exact gives_pure (.full n hn.1)
  | again => exact check_gives hfd (gives_pure .again)
  | eof => exact check_gives hfd (gives_pure .eof)
  | error err =>
    refine guarded_gives rfl fun herr => check_gives hfd (gives_pure (.error err ?_))
    simpa using herr

theorem uvWrite_gives (hs : Sound s) (id : Nat) (bufs : List libuv.UvBuf) (answers : List Answer) :
    Gives (Refused s (.uvWrite id bufs answers)) (s.uvWrite id bufs answers)
      (Moved s (.uvWrite id bufs answers)) := by
  unfold Stream.uvWrite
  by_cases hbufs : bufs = []
  · subst hbufs
    exact .nbufs id answers rfl
  refine check_gives (by simpa using hbufs) ?_
  dsimp only
  by_cases hw : s.writable = true
  · have hfd := hs.flags.writable hw
    rw [if_neg (by simp [hw, hfd])]
    change Gives _ (if s.connectReq = true then _ else _) _
    by_cases hreq : s.connectReq = true
    · rw [if_pos hreq]
      refine guarded_gives .notNow fun ha => ?_
      obtain rfl : answers = [] := by simpa using ha
      exact gives_pure (.queues id bufs hbufs hw hreq)
    · rw [if_neg hreq]
      replace hreq : s.connectReq = false := by simpa using hreq
      by_cases hsize : s.writeQueueSize = 0
      · rw [if_pos (by simpa using hsize)]
        have hp := hs.books.payable
        have hpay : Payable (s.enqueue (newReq id bufs)) := by
          refine ⟨?_, ?_⟩
          · intro r hr
            simp only [Stream.enqueue, Stream.log, List.mem_append, List.mem_singleton] at hr
            rcases hr with hr | rfl
            · exact hp.rest r hr
            · exact hbufs
          · have := hp.size
            simp only [Stream.enqueue, Stream.log, newReq, tally_append, tally_cons, tally_nil]
            omega
        refine gives_mono (write_gives (s := s.enqueue (newReq id bufs)) answers hfd hpay) ?_ ?_
        · rintro r rfl
          exact .notNow
        · exact fun s' h => .writes id bufs answers s' hbufs hw hreq hsize h
      · rw [if_neg (by simpa using hsize)]
        refine guarded_gives .notNow fun ha => ?_
        obtain rfl : answers = [] := by simpa using ha
        exact gives_pure (.waits id bufs hbufs hw hreq)
  · have herr : (if s.fd then (if s.writable then 0 else UV_EPIPE) else UV_EBADF) < 0 := by
      rw [if_neg hw]
      split <;> decide
    rw [if_pos herr]
    refine guarded_gives .notNow fun ha => ?_
    obtain rfl : answers = [] := by simpa using ha
    exact gives_pure (.refuses id bufs _ (by simpa using hw) herr)

theorem Ready.fd {e : Event} {pending : Bool} {ev : PollEvents} (hs : Flags s)
    (h : Ready s e pending ev) : s.fd = true := by
  cases h with
  | poll ev soError hfd hout => exact hfd
  | pending soError hp => exact hs.pending hp

theorem io_gives {e : Event} {pending : Bool} {ev : PollEvents} {soError : Int} (hs : Sound s)
    (hc : s.control = .idle) (h : Ready s e pending ev) (hso : e.soError = soError)
    (herr : soError ≤ 0) :
    Gives (Refused s e) (({ s with pending } : Stream).io ev soError) (Moved s e) := by
  have hfd := h.fd hs.flags
  unfold Stream.io
  refine check_gives (by simp [hs.flags.open_not_closing hfd]) ?_
  split
  · rename_i hreq
    have hle : (if s.delayedError ≠ 0 then s.delayedError else soError) ≤ 0 := by
      split
      · exact hs.flags.delayed
      · exact herr
    have hpos := hs.books.active_pos (.inl hreq)
    have hsource : (if s.delayedError ≠ 0 then s.delayedError else soError) = s.delayedError ∨
        (if s.delayedError ≠ 0 then s.delayedError else soError) = e.soError := by
      split
      · exact .inl rfl
      · exact .inr hso.symm
    unfold Stream.connect
    dsimp only
    generalize (if s.delayedError ≠ 0 then s.delayedError else soError) = error at hle hsource ⊢
    split
    · exact gives_pure (.staysConnecting e pending ev hc h hreq)
    · refine gives_bind_ok (unregister_ok hpos) (gives_pure ?_)
      dsimp only
      split
      · rename_i hcond
        exact .connected e pending ev error false hc h hreq hle hsource (by simp) fun h0 hne => by
          rcases hcond with hneg | hq
          · omega
          · exact absurd hq hne
      · exact .connected e pending ev error s.pollout hc h hreq hle hsource id fun _ _ => rfl
  · rename_i hreq
    replace hreq : s.connectReq = false := by simpa using hreq
    refine check_gives hfd ?_
    split
    · rename_i hin
      exact gives_pure (.reads e pending ev hc h hreq hin)
    · exact gives_pure (.ready e pending ev hc h hreq)

theorem cancelConnect_ok (hreq : s.connectReq = true) (hpos : 0 < s.activeReqs) :
    s.cancelConnect = .ok ({ s with
      connectReq := false
      activeReqs := s.activeReqs - 1 }.log [.connectCb UV_ECANCELED]) := by
  unfold Stream.cancelConnect
  rw [if_pos hreq, unregister_ok hpos]
  rfl

theorem cancelConnect_none (hreq : s.connectReq = false) : s.cancelConnect = .ok s := by
  unfold Stream.cancelConnect
  rw [hreq]
  rfl

theorem destroy_gives {R : Stop → Prop} (hs : Sound s) (hc : s.control = .idle)
    (hcl : s.closing = true) (hclosed : s.closed = false) :
    Gives R s.destroy (Moved s .finishClose) := by
  have hoff := hs.flags.off (hs.flags.closing hcl)
  unfold Stream.destroy
  refine check_gives (by simp [hoff]) ?_
  by_cases hreq : s.connectReq = true
  · have hpos := hs.books.active_pos (.inl hreq)
    exact gives_bind_ok (cancelConnect_ok (s := { s with closed := true }) hreq hpos)
      (gives_pure (.destroysConnecting hc hcl hclosed hreq))
  · replace hreq : s.connectReq = false := by simpa using hreq
    exact gives_bind_ok (cancelConnect_none (s := { s with closed := true }) hreq)
      (gives_pure (.destroys hc hcl hclosed hreq))

theorem callback_gives {R : Stop → Prop} {req : WriteReq} {pq : List WriteReq} {after : After}
    (hs : Sound s) (hc : s.control = .calling (req :: pq) after) :
    Gives R (s.callback req pq after) (Moved s .callback) := by
  have hactive := hs.books.active
  have hsize := hs.books.size
  simp only [Stream.inflight, hc, Control.pq, List.cons_append, tally_cons, List.length_cons]
    at hactive hsize
  have howed : req.owed ≤ s.writeQueueSize := by omega
  unfold Stream.callback
  refine gives_bind_ok (unregister_ok (by omega)) (check_gives (decide_eq_true howed) ?_)
  exact gives_pure (.called req pq after hc)

theorem afterCallbacks_gives {R : Stop → Prop} {soError : Int} {after : After} (hs : Sound s)
    (hc : s.control = .calling [] after) (herr : soError ≤ 0) :
    Gives R (s.afterCallbacks soError after) (Moved s (.resume [] soError)) := by
  cases after with
  | io =>
    unfold Stream.afterCallbacks
    by_cases hq : s.writeQueue = []
    · rw [if_pos hq]
      exact gives_bind (drain_gives hs hq herr) fun s' h => gives_pure (.drains soError s' hc hq h)
    · rw [if_neg hq]
      exact gives_pure (.returns soError .io hc (.inr ⟨rfl, hq⟩))
  | connect => exact gives_pure (.returns soError .connect hc (.inl rfl))
  | destroy =>
    obtain ⟨-, hq, hdone, -⟩ := hs.flags.ended (hs.flags.destroyed [] hc)
    have hsize : s.writeQueueSize = 0 := by
      rw [hs.books.size]
      simp [Stream.inflight, hc, hq, hdone, Control.pq]
    unfold Stream.afterCallbacks
    refine gives_bind (drain_gives hs hq herr) fun s' h => check_gives ?_ ?_
    · cases h <;> simp [Stream.log, hsize]
    · exact gives_pure (.closed soError s' hc h)

theorem resume_gives (hs : Sound s) (answers : List Answer) {soError : Int} (herr : soError ≤ 0) :
    Gives (· = .notNow) (s.resume answers soError) (Moved s (.resume answers soError)) := by
  unfold Stream.resume
  split
  · exact gives_error rfl
  · rename_i error hc
    refine guarded_gives rfl fun ha => ?_
    obtain rfl : answers = [] := by simpa using ha
    refine gives_pure ?_
    split
    · rename_i h
      exact .connectFailed soError error hc h.2
    · rename_i h
      refine .connectReturned soError error hc ?_
      cases hfd : s.fd with
      | false => exact .inl rfl
      | true => exact .inr (by simpa [hfd] using h)
  · rename_i count ev hc
    refine guarded_gives rfl fun ha => ?_
    obtain ⟨rfl, -⟩ : answers = [] ∧ _ := by simpa using ha
    exact gives_pure (.readEnded soError count ev hc)
  · rename_i ev hc
    refine guarded_gives rfl fun ha => ?_
    obtain rfl : answers = [] := by simpa using ha
    have hm := Moved.readFailed (s := s) soError ev hc
    refine gives_pure ?_
    split
    · exact hm
    · rename_i hr
      rwa [hs.flags.stop_reading (by simpa using hr)] at hm
  · rename_i ev hc
    refine guarded_gives rfl fun ha => ?_
    obtain rfl : answers = [] := by simpa using ha
    refine gives_pure ?_
    unfold Stream.afterRead
    split
    · rename_i hfd
      exact .readClosed soError ev hc (by simpa using hfd)
    · split
      · rename_i h
        exact .hangsUp soError ev hc h.2.1
      · exact .goesOn soError ev hc
  · rename_i ev hc
    unfold Stream.ioWrite
    split
    · rename_i h
      exact gives_bind (write_gives answers h.1 hs.books.payable) fun s' hw =>
        gives_pure (.ioWrites soError ev answers s' hc h.1 hw)
    · rename_i h
      refine guarded_gives rfl fun ha => ?_
      obtain rfl : answers = [] := by simpa using ha
      refine gives_pure (.ioEnds soError ev hc ?_)
      cases hfd : s.fd with
      | false => exact .inl rfl
      | true =>
        cases hout : ev.pollout with
        | false => exact .inr rfl
        | true => simp [hfd, hout] at h
  · rename_i after hc
    refine guarded_gives rfl fun ha => ?_
    obtain rfl : answers = [] := by simpa using ha
    exact afterCallbacks_gives hs hc herr
  · exact gives_error rfl

theorem moved (hs : Sound s) (e : Event) : Gives (Refused s e) (step s e) (Moved s e) := by
  have hnot : ∀ r : Stop, r = .notNow → Refused s e r := by
    rintro r rfl
    exact .notNow
  unfold step
  cases e with
  | uvConnect delayedError =>
    refine guarded_gives .notNow fun h => ?_
    simp only [Bool.not_eq_true', decide_eq_true_eq] at h
    exact gives_pure (.connects delayedError h.1 h.2.1 h.2.2.2)
  | uvOpen =>
    refine guarded_gives .notNow fun h => ?_
    simp only [Bool.not_eq_true', decide_eq_true_eq] at h
    exact gives_pure (.opens h.1 h.2.1 h.2.2)
  | uvWrite id bufs answers => exact uvWrite_gives hs id bufs answers
  | uvReadStart =>
    refine guarded_gives .notNow fun h => ?_
    simp only [Bool.not_eq_true', decide_eq_true_eq] at h
    exact check_gives (hs.flags.readable h.2.2) (gives_pure (.startsReading h.2.2))
  | uvReadStop =>
    have hm := Moved.stopsReading (s := s)
    refine gives_pure ?_
    split
    · exact hm
    · rename_i hr
      rwa [hs.flags.stop_reading (by simpa using hr)] at hm
  | uvShutdown =>
    refine guarded_gives .notNow fun h => ?_
    simp only [Bool.not_eq_true', decide_eq_true_eq] at h
    exact check_gives (hs.flags.writable h.1) (gives_pure (.shutsDown h.1 h.2.1 h.2.2.1))
  | uvClose =>
    unfold Stream.uvClose
    cases hcl : s.closing with
    | true => exact .closing rfl hcl
    | false => exact gives_pure (.closes hcl)
  | poll ev soError =>
    refine guarded_gives .notNow fun h => ?_
    simp only [decide_eq_true_eq] at h
    obtain ⟨hc, hactive, -, hout, herr⟩ := h
    have hfd : s.fd = true := by
      rcases hactive with hin | hout
      · exact hs.flags.reading (hs.flags.pollin ▸ hin)
      · exact hs.flags.pollout hout
    exact io_gives hs hc (.poll ev soError hfd hout) rfl herr
  | runPending soError =>
    refine guarded_gives .notNow fun h => ?_
    simp only [decide_eq_true_eq] at h
    exact io_gives hs h.1 (.pending soError h.2.1) rfl h.2.2
  | finishClose =>
    refine guarded_gives .notNow fun h => ?_
    simp only [decide_eq_true_eq] at h
    exact destroy_gives hs h.1 h.2.1 (by simpa using h.2.2)
  | readOne answer =>
    dsimp only
    split
    · rename_i count ev hc
      refine guarded_gives .notNow fun hr => ?_
      exact gives_mono (readRound_gives answer (hs.flags.reading hr)) hnot fun s' h =>
        .readOne answer count ev s' hc hr h
    · exact .notNow
  | callback =>
    dsimp only
    split
    · rename_i req pq after hc
      exact callback_gives hs hc
    · exact .notNow
  | resume answers soError =>
    refine guarded_gives .notNow fun herr => ?_
    exact gives_mono (resume_gives hs answers (by simpa using herr)) hnot fun s' h => h

end gives

end linuxc.uv_stream
