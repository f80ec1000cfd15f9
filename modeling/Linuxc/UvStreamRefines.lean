-- The stream of the demo programs is what stream.c does: act by act, a run of
-- stream.c is a run of libuv.Stream. The programs hand in one buffer with each
-- write, and a connection that has broken takes no more bytes.
import Linuxc.UvRules
import Linuxc.UvStreamWrites

namespace linuxc.uv_stream

open event_runs

/-! ## The acts of the abstract stream -/

/-- The acts that `libuv.Stream` can show. In every memory in which the buffer of the first write that is
not all sent has been written, `transmit` takes the bytes that are handed over. -/
inductive Shows : libuv.Stream → Act → libuv.Stream → Prop
  | opened (t : libuv.Stream) (hp : t.phase = .connecting) :
      Shows t .opened { t with phase := .connected }
  | connected (t : libuv.Stream) (status : Int) (hp : t.phase = .connecting) :
      Shows t (.connectCb status) { t with phase := if status < 0 then .failed else .connected }
  | cancelled (t : libuv.Stream) (hp : t.phase = .closing) : Shows t (.connectCb UV_ECANCELED) t
  | accepted (t t' : libuv.Stream) (id : Nat) (buf : libuv.UvBuf)
      (h : t.write true id buf = (true, t')) : Shows t (.accepted id [buf]) t'
  | refused (t : libuv.Stream) (id : Nat) (err : Int) : Shows t (.refused id err) t
  | closing (t t' : libuv.Stream) (h : t.close = .ok t') : Shows t .closing t'
  | nothing (t : libuv.Stream) : Shows t (.handed []) t
  | handed (t t' : libuv.Stream) (q : libuv.Request) (n : Nat)
      (hq : t.queue.find? (fun q => q.sent < q.len) = some q)
      (h : ∀ (m : libuv.Memory) (b : libuv.Block), libuv.getBytes m q.base = .ok b →
        q.len ≤ b.written.length → t.transmit m n = .ok ((b.written.drop q.sent).take n, t')) :
      Shows t (.handed (List.range' (q.base + q.sent) n)) t'
  | wrote (t t' : libuv.Stream) (id : Nat) (status : Int) (h : t.complete id status = .ok t') :
      Shows t (.writeCb id status) t'
  | read (t : libuv.Stream) (nread : Int) (h : t.isOpen = true) : Shows t (.readCb nread) t
  | shutdown (t : libuv.Stream) (status : Int) : Shows t (.shutdownCb status) t
  | closed (t t' : libuv.Stream) (h : t.finishClose = .ok t') : Shows t .closeCb t'

inductive Follows : libuv.Stream → List Act → libuv.Stream → Prop
  | nil (t : libuv.Stream) : Follows t [] t
  | snoc (t t' t'' : libuv.Stream) (acts : List Act) (a : Act) (h : Follows t acts t')
      (ha : Shows t' a t'') : Follows t (acts ++ [a]) t''

theorem Follows.append {t t' t'' : libuv.Stream} {acts acts' : List Act} (h : Follows t acts t')
    (h' : Follows t' acts' t'') : Follows t (acts ++ acts') t'' := by
  induction h' with
  | nil => simpa using h
  | snoc t₁ t₂ acts' a h' ha ih =>
    rw [← List.append_assoc]
    exact .snoc t t₁ t₂ _ a ih ha

theorem Shows.follows {t t' : libuv.Stream} {a : Act} (h : Shows t a t') : Follows t [a] t' :=
  .snoc t t t' [] a (.nil t) h

/-! ## What the kernel says -/

def Answer.isError : Answer → Bool
  | .error _ => true
  | _ => false

def Answer.takes : Answer → Bool
  | .wrote n => 0 < n
  | _ => false

/-- What the kernel says of the connection and of the writes. -/
def Event.said : Event → List Answer
  | .uvConnect err | .poll _ err | .runPending err => if err < 0 then [.error err] else []
  | .uvWrite _ _ answers | .resume answers _ => answers
  | _ => []

/-- A connection that has broken takes no more bytes. -/
def Sticky (answers : List Answer) : Prop :=
  answers.Pairwise fun a b => a.isError = true → b.takes = false

/-- The programs hand in one buffer with a write. -/
def Event.single : Event → Bool
  | .uvWrite _ bufs _ => bufs.length = 1
  | _ => true

/-! ## The refinement -/

/-- A write as the abstract stream has it. -/
def WriteReq.request (r : WriteReq) : libuv.Request :=
  match r.bufs with
  | [b] => ⟨r.id, b.base, b.len, b.len - countBufs r.rest⟩
  | _ => ⟨r.id, 0, 0, 0⟩

/-- Where the handle is in its life. -/
def Stream.inPhase (s : Stream) (phase : libuv.Phase) : Prop :=
  if s.closing then phase = if s.isOver then .closed else .closing
  else if s.connectReq ∨ ¬ s.fd then phase = .connecting
  else phase = .connected ∨ phase = .failed

structure Refines (s : Stream) (t : libuv.Stream) : Prop where
  single : ∀ r ∈ s.inflight, ∃ b, r.bufs = [b]
  queue : t.queue = s.inflight.map WriteReq.request
  phase : s.inPhase t.phase
  failed : t.phase = .failed → ∃ status < 0, .connectCb status ∈ s.trace

/-- The connection is all right: no write and no connect has failed. -/
structure Healthy (s : Stream) : Prop where
  delayed : s.delayedError = 0
  fine : ∀ r ∈ s.control.pq ++ s.writeCompletedQueue, r.error = 0
  control : ∀ error, s.control = .connected error → 0 ≤ error
  told : ∀ status, .connectCb status ∈ s.trace → 0 ≤ status

/-! ## The queue -/

theorem advance_append {n : Nat} {front queue : List libuv.Request} {q : libuv.Request}
    (hfront : ∀ r ∈ front, ¬ r.sent < r.len) (hq : q.sent < q.len) :
    libuv.advance n (front ++ q :: queue) = front ++ { q with sent := q.sent + n } :: queue := by
  induction front with
  | nil => simp [libuv.advance, hq]
  | cons r front ih =>
    have hr := hfront r List.mem_cons_self
    have htail := ih fun r h => hfront r (List.mem_cons_of_mem _ h)
    simp [libuv.advance, hr, htail]

/-- The first write that is not all sent gets on, in every memory that has its bytes. -/
theorem shows_handed {t : libuv.Stream} {front queue : List libuv.Request} {q : libuv.Request}
    {n : Nat} (hqueue : t.queue = front ++ q :: queue) (hfront : ∀ r ∈ front, ¬ r.sent < r.len)
    (hp : t.phase = .connected) (hpos : 0 < n) (hn : q.sent + n ≤ q.len) :
    Shows t (.handed (List.range' (q.base + q.sent) n))
      { t with queue := front ++ { q with sent := q.sent + n } :: queue } := by
  have hlt : q.sent < q.len := by omega
  have hfind : t.queue.find? (fun q => q.sent < q.len) = some q := by
    have hnone : front.find? (fun q => q.sent < q.len) = none := by simpa using hfront
    rw [hqueue, List.find?_append, hnone, Option.none_or, List.find?_cons_of_pos (by simpa using hlt)]
  refine .handed t _ q n hfind ?_
  intro m b hb hlen
  have hload : libuv.orFault .outOfBounds (b.load q.sent n) = .ok ((b.written.drop q.sent).take n) := by
    rw [libuv.Block.load_some (by omega)]
    rfl
  unfold libuv.Stream.transmit
  rw [hfind]
  simp only
  rw [if_pos ⟨hp, hpos, hn⟩, hqueue, advance_append hfront hlt]
  exact bind_ok_iff.mpr ⟨b, hb, bind_ok_iff.mpr ⟨_, hload, rfl⟩⟩

/-- What is left of a write with one buffer is the end of the buffer. -/
theorem WriteReq.single_rest {r : WriteReq} {b : libuv.UvBuf} (hb : r.bufs = [b])
    (hplace : addresses r.rest <:+ addresses r.bufs) :
    countBufs r.rest ≤ b.len ∧
      addresses r.rest = List.range' (b.base + (b.len - countBufs r.rest)) (countBufs r.rest) := by
  have hbufs : addresses r.bufs = List.range' b.base b.len := by simp [hb, addresses]
  have hlen : countBufs r.rest ≤ b.len := by
    have := hplace.length_le
    rw [hbufs, length_addresses, List.length_range'] at this
    exact this
  refine ⟨hlen, ?_⟩
  have hdrop := List.suffix_iff_eq_drop.mp hplace
  rw [hbufs, length_addresses, List.length_range', List.drop_range'] at hdrop
  rw [hdrop]
  congr 1 <;> omega

theorem WriteReq.request_of_single {r : WriteReq} {b : libuv.UvBuf} (hb : r.bufs = [b]) :
    r.request = ⟨r.id, b.base, b.len, b.len - countBufs r.rest⟩ := by
  simp [WriteReq.request, hb]

theorem WriteReq.request_sent {r : WriteReq} {b : libuv.UvBuf} (hb : r.bufs = [b])
    (hrest : r.rest = []) : ¬ r.request.sent < r.request.len := by
  simp [WriteReq.request_of_single hb, hrest, countBufs]

/-! ## The writes -/

theorem Stream.request_map {s : Stream} {req : WriteReq} {queue : List WriteReq}
    (hq : s.writeQueue = req :: queue) : s.inflight.map WriteReq.request =
      (s.control.pq ++ s.writeCompletedQueue).map WriteReq.request ++
        req.request :: queue.map WriteReq.request := by
  rw [Stream.inflight_of_queue hq, List.map_append, List.map_cons]

/-- The kernel takes bytes of the first write. -/
theorem seen_took {s : Stream} {t : libuv.Stream} {req : WriteReq} {queue : List WriteReq} {n : Nat}
    {rest : List libuv.UvBuf} (hs : Books s) (hsingle : ∀ r ∈ s.inflight, ∃ b, r.bufs = [b])
    (ht : t.queue = s.inflight.map WriteReq.request) (hq : s.writeQueue = req :: queue)
    (htakes : Takes n req.rest rest)
    (hfine : 0 < n → t.phase = .connected ∧ ∀ r ∈ s.control.pq ++ s.writeCompletedQueue, r.error = 0) :
    Shows t (.handed ((addresses req.rest).take n)) { t with
      queue := (s.control.pq ++ s.writeCompletedQueue).map WriteReq.request ++
        { req with rest }.request :: queue.map WriteReq.request } := by
  obtain ⟨past, hl⟩ := hs.ledger
  have hflight := Stream.inflight_of_queue hq
  have hin : req ∈ s.inflight := by simp [hflight]
  obtain ⟨b, hb⟩ := hsingle req hin
  obtain ⟨hle, haddr⟩ := WriteReq.single_rest hb (hl.place req (List.mem_append_right _ hin))
  have hcount := htakes.count
  have hreq := WriteReq.request_of_single hb
  have hreq' : ({ req with rest } : WriteReq).request =
      { req.request with sent := req.request.sent + n } := by
    rw [WriteReq.request_of_single (r := { req with rest }) hb, hreq]
    simp only [libuv.Request.mk.injEq, true_and]
    omega
  rw [Stream.request_map hq] at ht
  by_cases hpos : 0 < n
  · obtain ⟨hp, hdone⟩ := hfine hpos
    have hfront : ∀ r ∈ (s.control.pq ++ s.writeCompletedQueue).map WriteReq.request,
        ¬ r.sent < r.len := by
      intro r hr
      obtain ⟨q, hq', rfl⟩ := List.mem_map.mp hr
      obtain ⟨b', hb'⟩ := hsingle q (by rw [hflight]; exact List.mem_append_left _ hq')
      exact WriteReq.request_sent hb' ((hs.finished q hq').whole (hdone q hq')).1
    have hshows := shows_handed ht hfront hp hpos (n := n) (by rw [hreq]; dsimp only; omega)
    rw [hreq', haddr, List.take_range'_of_length_ge (by omega)]
    rw [hreq] at hshows ⊢
    exact hshows
  · obtain rfl : n = 0 := by omega
    rw [hreq', List.take_zero]
    have hsame : ({ t with
        queue := (s.control.pq ++ s.writeCompletedQueue).map WriteReq.request ++
          { req.request with sent := req.request.sent + 0 } :: queue.map WriteReq.request } :
        libuv.Stream) = t := by
      simp only [Nat.add_zero]
      rw [← ht]
    rw [hsame]
    exact .nothing t

/-- A round of `uv__write` with an error: the write stays in flight. -/
theorem seen_failed {s : Stream} {req : WriteReq} {queue : List WriteReq} {err : Int} (herr : err < 0)
    (hq : s.writeQueue = req :: queue) :
    (s.finish { req with error := err } queue).inflight.map WriteReq.request =
      s.inflight.map WriteReq.request := by
  have hne : err ≠ 0 := by omega
  rw [Stream.request_map hq]
  simp [Stream.inflight, Stream.finish, hne, WriteReq.request]

/-- The bytes may flow: the kernel takes none, or the connection is made, no write has failed, and none
will go on after a failure. -/
def Flowing (s : Stream) (t : libuv.Stream) (answers : List Answer) : Prop :=
  (∀ a ∈ answers, a.takes = false) ∨
    t.phase = .connected ∧ (∀ r ∈ s.control.pq ++ s.writeCompletedQueue, r.error = 0) ∧
      Sticky answers

theorem Flowing.fine {s : Stream} {t : libuv.Stream} {n : Nat} {answers : List Answer}
    (hflow : Flowing s t (.wrote n :: answers)) (hpos : 0 < n) :
    t.phase = .connected ∧ ∀ r ∈ s.control.pq ++ s.writeCompletedQueue, r.error = 0 := by
  rcases hflow with hnone | ⟨hp, hdone, -⟩
  · have := hnone (.wrote n) List.mem_cons_self
    simp only [Answer.takes, decide_eq_false_iff_not] at this
    omega
  · exact ⟨hp, hdone⟩

/-- The first write is all sent, and the next may follow. -/
theorem seen_whole {s : Stream} {t : libuv.Stream} {req : WriteReq} {queue : List WriteReq} {n : Nat}
    {answers : List Answer} (hs : Books s) (hsingle : ∀ r ∈ s.inflight, ∃ b, r.bufs = [b])
    (ht : t.queue = s.inflight.map WriteReq.request) (hflow : Flowing s t (.wrote n :: answers))
    (hq : s.writeQueue = req :: queue) (htakes : Takes n req.rest []) {s₁ : Stream}
    (hs₁ : s₁ = (s.took req queue n []).finish { req with rest := [] } queue) :
    s₁.trace = s.trace ++ [.handed ((addresses req.rest).take n)] ∧
      Shows t (.handed ((addresses req.rest).take n))
        { t with queue := s₁.inflight.map WriteReq.request } ∧
      (∀ r ∈ s₁.inflight, ∃ b, r.bufs = [b]) ∧
      Flowing s₁ { t with queue := s₁.inflight.map WriteReq.request } answers := by
  have herr := (hs.waiting req (by simp [hq])).error
  have hflight := Stream.inflight_of_queue hq
  have hmap : s₁.inflight.map WriteReq.request =
      (s.control.pq ++ s.writeCompletedQueue).map WriteReq.request ++
        ({ req with rest := [] } : WriteReq).request :: queue.map WriteReq.request := by
    subst hs₁
    simp [Stream.inflight, Stream.finish, Stream.took, Stream.log, herr, WriteReq.request]
  have hshows := seen_took hs hsingle ht hq htakes hflow.fine
  refine ⟨by subst hs₁; rfl, by rw [hmap]; exact hshows, ?_, ?_⟩
  · subst hs₁
    intro r hr
    simp only [Stream.inflight, Stream.finish, Stream.took, Stream.log, herr, if_true,
      List.mem_append, List.mem_singleton] at hr
    rcases hr with hr | (hr | rfl) | hr
    · exact hsingle r (by simp [hflight, hr])
    · exact hsingle r (by simp [hflight, hr])
    · exact hsingle req (by simp [hflight])
    · exact hsingle r (by simp [hflight, hr])
  · rcases hflow with hnone | ⟨hp, hdone, hsticky⟩
    · exact .inl fun a ha => hnone a (List.mem_cons_of_mem _ ha)
    · refine .inr ⟨hp, ?_, (List.pairwise_cons.mp hsticky).2⟩
      subst hs₁
      intro r hr
      simp only [Stream.finish, Stream.took, Stream.log, herr, if_true, List.mem_append,
        List.mem_singleton] at hr
      rcases hr with hr | hr | rfl
      · exact hdone r (List.mem_append_left _ hr)
      · exact hdone r (List.mem_append_right _ hr)
      · rfl

theorem seen_wrote {s s' : Stream} {t : libuv.Stream} {answers : List Answer} (hs : Books s)
    (hsingle : ∀ r ∈ s.inflight, ∃ b, r.bufs = [b])
    (ht : t.queue = s.inflight.map WriteReq.request) (hflow : Flowing s t answers)
    (h : Wrote s answers s') :
    (∃ acts, s'.trace = s.trace ++ acts ∧
        Follows t acts { t with queue := s'.inflight.map WriteReq.request }) ∧
      ∀ r ∈ s'.inflight, ∃ b, r.bufs = [b] := by
  induction h generalizing t with
  | empty s hq =>
    refine ⟨⟨[], by simp, ?_⟩, hsingle⟩
    rw [← ht]
    exact .nil t
  | whole s s' req queue n answers hq htakes h ih =>
    obtain ⟨htrace, hshows, hsingle', hflow'⟩ := seen_whole hs hsingle ht hflow hq htakes rfl
    obtain ⟨⟨acts, hacts, hfollows⟩, hsingle''⟩ := ih (hs.whole hq htakes) hsingle' rfl hflow'
    refine ⟨⟨_, ?_, hshows.follows.append hfollows⟩, hsingle''⟩
    rw [hacts, htrace, List.append_assoc]
  | enough s req queue n hq htakes =>
    obtain ⟨htrace, hshows, hsingle', -⟩ := seen_whole hs hsingle ht hflow hq htakes rfl
    exact ⟨⟨_, htrace, hshows.follows⟩, hsingle'⟩
  | part s req queue n rest hq htakes hrest =>
    have hshows := seen_took hs hsingle ht hq htakes hflow.fine
    have hflight := Stream.inflight_of_queue hq
    have hflight' : ({ s.took req queue n rest with pollout := true } : Stream).inflight =
        (s.control.pq ++ s.writeCompletedQueue) ++ { req with rest } :: queue :=
      Stream.inflight_of_queue rfl
    refine ⟨⟨_, rfl, ?_⟩, ?_⟩
    · rw [hflight', List.map_append, List.map_cons]
      exact hshows.follows
    · intro r hr
      rw [hflight'] at hr
      rcases List.mem_append.mp hr with hr | hr
      · exact hsingle r (by rw [hflight]; exact List.mem_append_left _ hr)
      · rcases List.mem_cons.mp hr with rfl | hr
        · exact hsingle req (by simp [hflight])
        · exact hsingle r (by simp [hflight, hr])
  | again s hq =>
    refine ⟨⟨[], by simp, ?_⟩, hsingle⟩
    have hsame : ({ s with pollout := true } : Stream).inflight = s.inflight := rfl
    rw [hsame, ← ht]
    exact .nil t
  | error s req queue err hq herr =>
    have hflight := Stream.inflight_of_queue hq
    have hmap : ({ s.finish { req with error := err } queue with pollout := false } :
        Stream).inflight.map WriteReq.request = s.inflight.map WriteReq.request :=
      seen_failed herr hq
    refine ⟨⟨[], by simp [Stream.finish], ?_⟩, ?_⟩
    · rw [hmap, ← ht]
      exact .nil t
    · have hne : err ≠ 0 := by omega
      intro r hr
      simp only [Stream.inflight, Stream.finish, hne, if_false, List.mem_append,
        List.mem_singleton] at hr
      rcases hr with hr | (hr | rfl) | hr
      · exact hsingle r (by simp [hflight, hr])
      · exact hsingle r (by simp [hflight, hr])
      · exact hsingle req (by simp [hflight])
      · exact hsingle r (by simp [hflight, hr])

/-! ## The connection is all right -/

section healthy

variable {s s' : Stream}

theorem Healthy.keep (hh : Healthy s) (hdelayed : s'.delayedError = s.delayedError)
    (hpq : s'.control.pq = s.control.pq) (hdone : s'.writeCompletedQueue = s.writeCompletedQueue)
    (hcontrol : ∀ error, s'.control = .connected error → s.control = .connected error)
    (htrace : ∀ status, .connectCb status ∈ s'.trace → .connectCb status ∈ s.trace) :
    Healthy s' where
  delayed := hdelayed.trans hh.delayed
  fine := by rw [hpq, hdone]; exact hh.fine
  control := fun error h => hh.control error (hcontrol error h)
  told := fun status h => hh.told status (htrace status h)

theorem Healthy.wrote {answers : List Answer} (hb : Books s) (hh : Healthy s)
    (hno : ∀ a ∈ answers, a.isError = false) (h : Wrote s answers s') : Healthy s' := by
  have hwhole : ∀ {s : Stream} {req : WriteReq} {queue : List WriteReq} {n : Nat}, Books s →
      Healthy s → s.writeQueue = req :: queue →
        Healthy ((s.took req queue n []).finish { req with rest := [] } queue) := by
    intro s req queue n hb hh hq
    have herr := (hb.waiting req (by simp [hq])).error
    refine ⟨hh.delayed, ?_, hh.control, ?_⟩
    · intro r hr
      simp only [Stream.finish, Stream.took, Stream.log, herr, if_true, List.mem_append,
        List.mem_singleton] at hr
      rcases hr with hr | hr | rfl
      · exact hh.fine r (List.mem_append_left _ hr)
      · exact hh.fine r (List.mem_append_right _ hr)
      · rfl
    · simpa [Stream.finish, Stream.took, Stream.log] using hh.told
  induction h with
  | empty s hq => exact hh
  | whole s s' req queue n answers hq ht h ih =>
    exact ih (hb.whole hq ht) (hwhole hb hh hq) fun a ha => hno a (List.mem_cons_of_mem _ ha)
  | enough s req queue n hq ht => exact hwhole hb hh hq
  | part s req queue n rest hq ht hrest =>
    exact hh.keep rfl rfl rfl (fun _ h => h) (by simp [Stream.took, Stream.log])
  | again s hq => exact hh.keep rfl rfl rfl (fun _ h => h) (fun _ h => h)
  | error s req queue err hq herr =>
    have := hno (.error err) List.mem_cons_self
    simp [Answer.isError] at this

theorem healthy_moved {e : Event} (hs : Sound s) (hh : s.closing = false → Healthy s)
    (hno : ∀ a ∈ e.said, a.isError = false) (h : Moved s e s') (hcl' : s'.closing = false) :
    Healthy s' := by
  have hcl : s.closing = false := Bool.eq_false_iff.mpr fun h' => by
    simp [h.keeps_closing h'] at hcl'
  replace hh := hh hcl
  cases h with
  | connects delayedError hfd hcl hd =>
    refine ⟨?_, hh.fine, hh.control, hh.told⟩
    by_cases hneg : delayedError < 0
    · simp [Event.said, hneg, Answer.isError] at hno
    · dsimp only
      omega
  | writes id bufs answers _ hbufs hw hreq hsize h =>
    have hh' : Healthy (s.enqueue (newReq id bufs)) :=
      hh.keep rfl rfl rfl (fun _ h => h) (by simp [Stream.enqueue, Stream.log])
    exact hh'.wrote (hs.books.enqueue id hbufs) hno h
  | closes hcl => simp [Stream.log] at hcl'
  | staysConnecting e pending ev hc h hreq => exact ⟨rfl, hh.fine, hh.control, hh.told⟩
  | connected e pending ev error pollout hc h hreq herr hsource hout hstays =>
    have hso : 0 ≤ e.soError := by
      by_cases hneg : e.soError < 0
      · cases h with
        | poll ev soError hfd hout =>
          simp only [Event.soError] at hneg
          simp [Event.said, hneg, Answer.isError] at hno
        | pending soError hp =>
          simp only [Event.soError] at hneg
          simp [Event.said, hneg, Answer.isError] at hno
      · omega
    have hok : 0 ≤ error := by
      rcases hsource with rfl | rfl
      · exact Int.le_of_eq hh.delayed.symm
      · exact hso
    refine ⟨rfl, ?_, ?_, ?_⟩
    · intro r hr
      exact hh.fine r (List.mem_append_right _ hr)
    · intro error' h
      cases h
      exact hok
    · intro status h
      rcases List.mem_append.mp h with h | h
      · exact hh.told status h
      · simp only [List.mem_singleton, Act.connectCb.injEq] at h
        omega
  | destroysConnecting hc hcl'' hclosed hreq => simp [hcl] at hcl''
  | destroys hc hcl'' hclosed hreq => simp [hcl] at hcl''
  | readOne answer count ev _ hc hr h =>
    cases h <;> exact hh.keep rfl (by rw [hc]; rfl) rfl (by simp [Stream.goto])
      (by simp [Stream.eof, Stream.log, Stream.goto])
  | called req pq after hc =>
    have hfine := hh.fine
    rw [hc] at hfine
    refine ⟨hh.delayed, fun r hr => hfine r (List.mem_cons_of_mem _ hr), by simp [Stream.goto], ?_⟩
    simpa [Stream.log, Stream.goto] using hh.told
  | connectFailed soError error hc herr =>
    have := hh.control error hc
    omega
  | ioWrites soError ev answers _ hc hfd h =>
    have hh' := hh.wrote hs.books hno h
    refine ⟨hh'.delayed, ?_, by simp [Stream.callbacks, Stream.goto], hh'.told⟩
    intro r hr
    exact hh'.fine r (List.mem_append_right _ (by simpa [Stream.callbacks, Stream.goto] using hr))
  | drains soError _ hc hq h =>
    cases h <;> exact hh.keep rfl (by rw [hc]; rfl) rfl (by simp [Stream.goto])
      (by simp [Stream.log, Stream.goto])
  | closed soError _ hc h =>
    have := hs.flags.closed (hs.flags.destroyed [] hc)
    simp [hcl] at this
  | refuses id bufs err hw herr =>
    exact hh.keep rfl rfl rfl (fun _ h => h) (by simp [Stream.log])
  | opens hfd hcl hreq => exact hh.keep rfl rfl rfl (fun _ h => h) (by simp [Stream.log])
  | queues id bufs hbufs hw hreq =>
    exact hh.keep rfl rfl rfl (fun _ h => h) (by simp [Stream.enqueue, Stream.log])
  | waits id bufs hbufs hw hreq =>
    exact hh.keep rfl rfl rfl (fun _ h => h) (by simp [Stream.enqueue, Stream.log])
  | startsReading hr => exact hh.keep rfl rfl rfl (fun _ h => h) (fun _ h => h)
  | stopsReading => exact hh.keep rfl rfl rfl (fun _ h => h) (fun _ h => h)
  | shutsDown hw hshut hreq => exact hh.keep rfl rfl rfl (fun _ h => h) (fun _ h => h)
  | reads e pending ev hc h hreq hin =>
    exact hh.keep rfl (by rw [hc]; rfl) rfl (by simp [Stream.goto]) (fun _ h => h)
  | ready e pending ev hc h hreq =>
    exact hh.keep rfl (by rw [hc]; rfl) rfl (by simp [Stream.goto]) (fun _ h => h)
  | hangsUp soError ev hc hr =>
    exact hh.keep rfl (by rw [hc]; rfl) rfl (by simp [Stream.goto])
      (by simp [Stream.eof, Stream.log, Stream.goto])
  | connectReturned soError error hc h =>
    exact hh.keep rfl (by rw [hc]; rfl) rfl (by simp [Stream.goto]) (fun _ h => h)
  | readEnded soError count ev hc =>
    exact hh.keep rfl (by rw [hc]; rfl) rfl (by simp [Stream.goto]) (fun _ h => h)
  | readFailed soError ev hc =>
    exact hh.keep rfl (by rw [hc]; rfl) rfl (by simp [Stream.goto]) (fun _ h => h)
  | readClosed soError ev hc hfd =>
    exact hh.keep rfl (by rw [hc]; rfl) rfl (by simp [Stream.goto]) (fun _ h => h)
  | goesOn soError ev hc =>
    exact hh.keep rfl (by rw [hc]; rfl) rfl (by simp [Stream.goto]) (fun _ h => h)
  | ioEnds soError ev hc h =>
    exact hh.keep rfl (by rw [hc]; rfl) rfl (by simp [Stream.goto]) (fun _ h => h)
  | returns soError after hc h =>
    exact hh.keep rfl (by rw [hc]; rfl) rfl (by simp [Stream.goto]) (fun _ h => h)

end healthy

/-! ## The simulation -/

section simulation

variable {s s' : Stream} {t : libuv.Stream}

/-- The abstract stream takes part in a step with some acts. -/
def Simulates (s s' : Stream) (t : libuv.Stream) : Prop :=
  ∃ acts t', s'.trace = s.trace ++ acts ∧ Follows t acts t' ∧ Refines s' t'

/-- A step that the abstract stream does not see. -/
theorem simulates_nothing (hr : Refines s t) (htrace : s'.trace = s.trace)
    (hsingle : ∀ r ∈ s'.inflight, ∃ b, r.bufs = [b])
    (hqueue : s'.inflight.map WriteReq.request = s.inflight.map WriteReq.request)
    (hphase : s'.inPhase t.phase) : Simulates s s' t :=
  ⟨[], t, by simp [htrace], .nil t, hsingle, hr.queue.trans hqueue.symm, hphase, by
    rw [htrace]
    exact hr.failed⟩

/-- Libuv goes on, and nothing is seen of it. -/
theorem simulates_same (hr : Refines s t) (htrace : s'.trace = s.trace)
    (hflight : s'.inflight = s.inflight) (hphase : s'.inPhase t.phase) : Simulates s s' t :=
  simulates_nothing hr htrace (by rw [hflight]; exact hr.single) (by rw [hflight]) hphase

/-- An act that leaves the queue. -/
theorem simulates_act {a : Act} {t' : libuv.Stream} (hr : Refines s t)
    (htrace : s'.trace = s.trace ++ [a]) (hshows : Shows t a t') (hqueue : t'.queue = t.queue)
    (hflight : s'.inflight = s.inflight) (hphase : s'.inPhase t'.phase)
    (hfailed : t'.phase = .failed → ∃ status < 0, .connectCb status ∈ s'.trace) :
    Simulates s s' t :=
  ⟨[a], t', htrace, hshows.follows, by rw [hflight]; exact hr.single, by
    rw [hqueue, hflight, hr.queue], hphase, hfailed⟩

theorem inPhase_congr {phase : libuv.Phase} (h : s.inPhase phase) (hcl : s'.closing = s.closing)
    (hover : s'.isOver = s.isOver) (hreq : s'.connectReq = s.connectReq) (hfd : s'.fd = s.fd) :
    s'.inPhase phase := by
  unfold Stream.inPhase at h ⊢
  rwa [hcl, hover, hreq, hfd]

theorem Refines.failed_mem {trace : List Act} (hr : Refines s t) (hsub : s.trace ⊆ trace) :
    t.phase = .failed → ∃ status < 0, .connectCb status ∈ trace := fun h =>
  let ⟨status, hneg, hmem⟩ := hr.failed h
  ⟨status, hneg, hsub hmem⟩

/-- An open handle is open in both. -/
theorem Refines.isOpen (hr : Refines s t) (hcl : s.closing = false) : t.isOpen = true := by
  have h := hr.phase
  simp only [Stream.inPhase, hcl, Bool.false_eq_true, if_false] at h
  unfold libuv.Stream.isOpen
  split at h
  · simp [h]
  · rcases h with h | h <;> simp [h]

/-- What the kernel takes is what the abstract stream transmits. -/
theorem flowing {es : List Event} {e : Event} (hs : Flags s) (hr : Refines s t)
    (hh : (∀ a ∈ es.flatMap Event.said, a.isError = false) → s.closing = false → Healthy s)
    (hsticky : Sticky ((es ++ [e]).flatMap Event.said)) (hfd : s.fd = true)
    (hreq : s.connectReq = false) : Flowing s t e.said := by
  rw [List.flatMap_append, List.flatMap_singleton] at hsticky
  obtain ⟨-, hlast, hcross⟩ := List.pairwise_append.mp hsticky
  by_cases hno : ∀ a ∈ es.flatMap Event.said, a.isError = false
  · have hcl := hs.open_not_closing hfd
    have hh' := hh hno hcl
    refine .inr ⟨?_, hh'.fine, hlast⟩
    have h := hr.phase
    simp only [Stream.inPhase, hcl, hreq, hfd, Bool.false_eq_true, if_false, not_true_eq_false,
      or_self] at h
    refine h.resolve_right fun hfailed => ?_
    obtain ⟨status, hneg, hmem⟩ := hr.failed hfailed
    have := hh'.told status hmem
    omega
  · simp only [not_forall, Bool.not_eq_false] at hno
    obtain ⟨a, ha, herr⟩ := hno
    exact .inl fun b hb => hcross a ha b hb herr

/-- `uv_write` accepts a write, and both put it at the end of the queue. -/
theorem seen_enqueue (hr : Refines s t) (hcl : s.closing = false) (id : Nat) (buf : libuv.UvBuf) :
    ∃ t', Shows t (.accepted id [buf]) t' ∧ Refines (s.enqueue (newReq id [buf])) t' ∧
      t'.phase = t.phase := by
  have hflight : (s.enqueue (newReq id [buf])).inflight = s.inflight ++ [newReq id [buf]] := by
    simp [Stream.inflight, Stream.enqueue, Stream.log, List.append_assoc]
  have hopen := hr.isOpen hcl
  refine ⟨{ t with queue := t.queue ++ [⟨id, buf.base, buf.len, 0⟩] }, .accepted t _ id buf ?_,
    ⟨?_, ?_, ?_, ?_⟩, rfl⟩
  · simp [libuv.Stream.write, hopen]
  · intro r h
    rw [hflight] at h
    rcases List.mem_append.mp h with h | h
    · exact hr.single r h
    · obtain rfl := List.mem_singleton.mp h
      exact ⟨buf, rfl⟩
  · rw [hflight, hr.queue, List.map_append]
    simp [WriteReq.request, newReq, countBufs]
  · exact inPhase_congr hr.phase rfl rfl rfl rfl
  · exact hr.failed_mem (List.subset_append_left _ _)

/-- `uv_write` tries to write, and both do. -/
theorem simulates_wrote {answers : List Answer} {s₁ : Stream} {t₁ : libuv.Stream} {acts : List Act}
    (hb : Books s₁) (hr : Refines s₁ t₁) (htrace : s₁.trace = s.trace ++ acts)
    (hfollows : Follows t acts t₁) (hflow : Flowing s₁ t₁ answers) (h : Wrote s₁ answers s') :
    Simulates s s' t := by
  obtain ⟨⟨acts', htrace', hfollows'⟩, hsingle⟩ := seen_wrote hb hr.single hr.queue hflow h
  refine ⟨acts ++ acts', _, ?_, hfollows.append hfollows', hsingle, rfl, ?_, ?_⟩
  · rw [htrace', htrace, List.append_assoc]
  · obtain ⟨_, _, _, _, _, _, rfl⟩ := h.same
    exact inPhase_congr hr.phase rfl rfl rfl rfl
  · refine hr.failed_mem ?_
    rw [htrace']
    exact List.subset_append_left _ _

/-- One step after the other. -/
theorem Simulates.trans {s₁ : Stream} (h : Simulates s s₁ t)
    (h' : ∀ t₁, Refines s₁ t₁ → Simulates s₁ s' t₁) : Simulates s s' t := by
  obtain ⟨acts, t₁, htrace, hfollows, hr⟩ := h
  obtain ⟨acts', t₂, htrace', hfollows', hr'⟩ := h' t₁ hr
  exact ⟨acts ++ acts', t₂, by rw [htrace', htrace, List.append_assoc], hfollows.append hfollows', hr'⟩

theorem simulates_flush {after : After} {error : Int} (closed : Bool) (hr : Refines s t)
    (hpq : s.control.pq = [])
    (hphase : ((({ s with closed } : Stream).flush error).callbacks after).inPhase t.phase) :
    Simulates s ((({ s with closed } : Stream).flush error).callbacks after) t := by
  have hflight : ((({ s with closed } : Stream).flush error).callbacks after).inflight =
      s.writeCompletedQueue ++ s.writeQueue.map fun req => { req with error } := by
    simp [Stream.inflight, Stream.callbacks, Stream.flush, Stream.goto]
  have hold : s.inflight = s.writeCompletedQueue ++ s.writeQueue := by
    simp [Stream.inflight, hpq]
  refine simulates_nothing hr rfl ?_ ?_ hphase
  · intro r h
    rw [hflight] at h
    rcases List.mem_append.mp h with h | h
    · exact hr.single r (by simp [hold, h])
    · obtain ⟨q, hq, rfl⟩ := List.mem_map.mp h
      exact hr.single q (by simp [hold, hq])
  · rw [hflight, hold, List.map_append, List.map_append, List.map_map]
    congr 1

theorem over_of_busy (h : s.control ≠ .idle) (h' : s'.control ≠ .idle) : s'.isOver = s.isOver :=
  (isOver_of_busy h').trans (isOver_of_busy h).symm

theorem over_of_not_closed (h : s.closed = false) (h' : s'.closed = false) : s'.isOver = s.isOver :=
  (isOver_of_not_closed h').trans (isOver_of_not_closed h).symm

theorem inflight_congr (hqueue : s'.writeQueue = s.writeQueue)
    (hdone : s'.writeCompletedQueue = s.writeCompletedQueue)
    (hpq : s'.control.pq = s.control.pq) : s'.inflight = s.inflight := by
  unfold Stream.inflight
  rw [hqueue, hdone, hpq]

theorem simulates_goto {control : Control} (hr : Refines s t) (hpq : s.control.pq = [])
    (hpq' : control.pq = []) (hover : (s.goto control).isOver = s.isOver) :
    Simulates s (s.goto control) t :=
  simulates_same hr rfl (inflight_congr rfl rfl (hpq'.trans hpq.symm))
    (inPhase_congr hr.phase rfl hover rfl rfl)

theorem simulates_drained (hr : Refines s t) (h : Drained s s') : Simulates s s' t := by
  cases h with
  | plain hreq => exact simulates_same hr rfl rfl (inPhase_congr hr.phase rfl rfl rfl rfl)
  | shuts err hreq herr hcl =>
    exact simulates_act hr rfl (.shutdown t err) rfl rfl (inPhase_congr hr.phase rfl rfl rfl rfl)
      (hr.failed_mem (List.subset_append_left _ _))

/-- A read goes to a handle that is open. -/
theorem simulates_readOne {count : Nat} {ev : PollEvents} (hs : Sound s) (hr : Refines s t)
    (hc : s.control = .reading (count + 1) ev) (hread : s.reading = true)
    (h : ReadOne s count ev s') : Simulates s s' t := by
  have hopen := hr.isOpen (hs.flags.open_not_closing (hs.flags.reading hread))
  have hidle : s.control ≠ .idle := by simp [hc]
  cases h <;>
    exact simulates_act hr rfl (.read t _ hopen) rfl (inflight_congr rfl rfl (by rw [hc]; rfl))
      (inPhase_congr hr.phase rfl (over_of_busy hidle (by simp [Stream.goto])) rfl rfl)
      (hr.failed_mem (List.subset_append_left _ _))

/-- The write callback that is due is the one of the first write in flight. -/
theorem simulates_called {req : WriteReq} {pq : List WriteReq} {after : After} (hs : Sound s)
    (hr : Refines s t) (hc : s.control = .calling (req :: pq) after) :
    Simulates s (({ s with
      activeReqs := s.activeReqs - 1
      writeQueueSize := s.writeQueueSize - req.owed }.log
        [.writeCb req.id req.error]).goto (.calling pq after)) t := by
  have hflight : s.inflight = req :: (pq ++ (s.writeCompletedQueue ++ s.writeQueue)) := by
    simp [Stream.inflight, hc]
  obtain ⟨b, hb⟩ := hr.single req (by simp [hflight])
  have hover := hs.books.finished req (by simp [hc])
  have hqueue := hr.queue
  rw [hflight, List.map_cons] at hqueue
  have hid : req.request.req = req.id := by rw [WriteReq.request_of_single hb]
  have hdone : ¬ (req.error = 0 ∧ req.request.sent < req.request.len) := fun h =>
    WriteReq.request_sent hb (hover.whole h.1).1 h.2
  refine ⟨[.writeCb req.id req.error], _, rfl, Shows.follows (.wrote t
    { t with queue := (pq ++ (s.writeCompletedQueue ++ s.writeQueue)).map WriteReq.request }
    req.id req.error ?_), ?_, rfl, ?_, hr.failed_mem (List.subset_append_left _ _)⟩
  · unfold libuv.Stream.complete
    rw [hqueue, List.find?_cons_of_pos (by simp [hid]), List.eraseP_cons_of_pos (by simp [hid])]
    simp only
    rw [if_neg hdone]
  · exact fun r h => hr.single r (by rw [hflight]; exact List.mem_cons_of_mem _ h)
  · exact inPhase_congr hr.phase rfl (over_of_busy (by simp [hc]) (by simp [Stream.goto])) rfl rfl

theorem simulates_moved {e : Event} (hs : Sound s) (hr : Refines s t) (hsingle : e.single = true)
    (hflow : s.fd = true → s.connectReq = false → Flowing s t e.said) (h : Moved s e s') :
    Simulates s s' t := by
  have hphase := hr.phase
  have hmid : s.control ≠ .idle → (∀ pq, s.control ≠ .calling pq .destroy) →
      (s.goto .idle).isOver = s.isOver := by
    intro hidle hcontrol
    rw [isOver_of_busy hidle]
    exact isOver_of_not_closed (hs.flags.not_closed hidle hcontrol)
  cases h with
  | connects delayedError hfd hcl hd =>
    refine simulates_same hr rfl rfl ?_
    simp only [Stream.inPhase, hcl, hfd, Bool.false_eq_true, if_false, not_false_eq_true,
      or_true, if_true] at hphase
    simpa [Stream.inPhase, hcl] using hphase
  | opens hfd hcl hreq =>
    simp only [Stream.inPhase, hcl, hfd, Bool.false_eq_true, if_false, not_false_eq_true,
      or_true, if_true] at hphase
    refine simulates_act hr rfl (.opened t hphase) rfl rfl ?_ (by simp)
    simp [Stream.inPhase, Stream.log, hcl, hreq]
  | refuses id bufs err hw herr =>
    exact simulates_act hr rfl (.refused t id err) rfl rfl (inPhase_congr hphase rfl rfl rfl rfl)
      (hr.failed_mem (List.subset_append_left _ _))
  | queues id bufs hbufs hw hreq =>
    have hcl := hs.flags.open_not_closing (hs.flags.writable hw)
    obtain ⟨buf, rfl⟩ := List.length_eq_one_iff.mp (by simpa [Event.single] using hsingle)
    obtain ⟨t', hshows, hr', -⟩ := seen_enqueue hr hcl id buf
    exact ⟨_, t', rfl, hshows.follows, hr'⟩
  | writes id bufs answers _ hbufs hw hreq hsize h =>
    have hfd := hs.flags.writable hw
    have hcl := hs.flags.open_not_closing hfd
    obtain ⟨buf, rfl⟩ := List.length_eq_one_iff.mp (by simpa [Event.single] using hsingle)
    obtain ⟨t', hshows, hr', hp⟩ := seen_enqueue hr hcl id buf
    refine simulates_wrote (hs.books.enqueue id hbufs) hr' rfl hshows.follows ?_ h
    rcases hflow hfd hreq with hno | ⟨hc, hfine, hsticky⟩
    · exact .inl hno
    · exact .inr ⟨hp.trans hc, hfine, hsticky⟩
  | waits id bufs hbufs hw hreq =>
    have hcl := hs.flags.open_not_closing (hs.flags.writable hw)
    obtain ⟨buf, rfl⟩ := List.length_eq_one_iff.mp (by simpa [Event.single] using hsingle)
    obtain ⟨t', hshows, hr', -⟩ := seen_enqueue hr hcl id buf
    exact ⟨_, t', rfl, hshows.follows, { hr' with }⟩
  | startsReading hr' => exact simulates_same hr rfl rfl (inPhase_congr hphase rfl rfl rfl rfl)
  | stopsReading => exact simulates_same hr rfl rfl (inPhase_congr hphase rfl rfl rfl rfl)
  | shutsDown hw hshut hreq => exact simulates_same hr rfl rfl (inPhase_congr hphase rfl rfl rfl rfl)
  | closes hcl =>
    have hopen := hr.isOpen hcl
    simp only [libuv.Stream.isOpen, decide_eq_true_eq] at hopen
    have hclosed := hs.flags.not_over hcl
    refine simulates_act hr rfl (.closing t { t with phase := .closing, reading := false } ?_) rfl
      rfl ?_ (by simp)
    · simp [libuv.Stream.close, hopen]
    · simp [Stream.inPhase, Stream.isOver, Stream.log, hclosed]
  | staysConnecting e pending ev hc h hreq =>
    exact simulates_same hr rfl rfl (inPhase_congr hphase rfl rfl rfl rfl)
  | connected e pending ev error pollout hc h hreq herr hsource hout hstays =>
    have hfd := h.fd hs.flags
    have hcl := hs.flags.open_not_closing hfd
    simp only [Stream.inPhase, hcl, hreq, Bool.false_eq_true, if_false, true_or, if_true] at hphase
    refine simulates_act hr rfl (.connected t error hphase) rfl ?_ ?_ ?_
    · simp [Stream.inflight, Stream.log, Stream.goto, hc, Control.pq]
    · simp only [Stream.inPhase, Stream.log, Stream.goto, hcl, hfd, Bool.false_eq_true, if_false,
        not_true_eq_false, or_self]
      split
      · exact .inr rfl
      · exact .inl rfl
    · intro hfailed
      dsimp only at hfailed
      split at hfailed
      · rename_i hneg
        exact ⟨error, hneg, by simp [Stream.log, Stream.goto]⟩
      · cases hfailed
  | reads e pending ev hc h hreq hin =>
    have hclosed := hs.flags.open_not_closed (h.fd hs.flags)
    exact simulates_same hr rfl (inflight_congr rfl rfl (by rw [hc]; rfl))
      (inPhase_congr hphase rfl (over_of_not_closed hclosed hclosed) rfl rfl)
  | ready e pending ev hc h hreq =>
    have hclosed := hs.flags.open_not_closed (h.fd hs.flags)
    exact simulates_same hr rfl (inflight_congr rfl rfl (by rw [hc]; rfl))
      (inPhase_congr hphase rfl (over_of_not_closed hclosed hclosed) rfl rfl)
  | destroysConnecting hc hcl hclosed hreq =>
    have hp : t.phase = .closing := by
      simpa [Stream.inPhase, hcl, isOver_of_not_closed hclosed] using hphase
    have hcancel : Simulates s ({ s with
        connectReq := false
        activeReqs := s.activeReqs - 1 }.log [.connectCb UV_ECANCELED]) t := by
      refine simulates_act hr rfl (.cancelled t hp) rfl rfl ?_
        (hr.failed_mem (List.subset_append_left _ _))
      simp [Stream.inPhase, Stream.log, Stream.isOver, hcl, hclosed, hp]
    refine hcancel.trans fun t₁ hr₁ => simulates_flush true hr₁ (by simp [Stream.log, hc, Control.pq])
      (inPhase_congr hr₁.phase rfl ?_ rfl rfl)
    exact (isOver_of_busy (by simp [Stream.callbacks, Stream.goto])).trans
      (isOver_of_not_closed hclosed).symm
  | destroys hc hcl hclosed hreq =>
    refine simulates_flush true hr (by rw [hc]; rfl) (inPhase_congr hphase rfl ?_ rfl rfl)
    exact (isOver_of_busy (by simp [Stream.callbacks, Stream.goto])).trans
      (isOver_of_not_closed hclosed).symm
  | readOne answer count ev _ hc hread h => exact simulates_readOne hs hr hc hread h
  | called req pq after hc => exact simulates_called hs hr hc
  | connectFailed soError error hc herr =>
    exact simulates_flush s.closed hr (by rw [hc]; rfl) (inPhase_congr hphase rfl
      (over_of_busy (by simp [hc]) (by simp [Stream.callbacks, Stream.goto])) rfl rfl)
  | connectReturned soError error hc h =>
    exact simulates_goto hr (by rw [hc]; rfl) rfl (hmid (by simp [hc]) (by simp [hc]))
  | readEnded soError count ev hc =>
    exact simulates_goto hr (by rw [hc]; rfl) rfl (over_of_busy (by simp [hc]) (by simp [Stream.goto]))
  | readFailed soError ev hc =>
    exact simulates_same hr rfl (inflight_congr rfl rfl (by rw [hc]; rfl))
      (inPhase_congr hphase rfl (over_of_busy (by simp [hc]) (by simp [Stream.goto])) rfl rfl)
  | readClosed soError ev hc hfd =>
    exact simulates_goto hr (by rw [hc]; rfl) rfl (hmid (by simp [hc]) (by simp [hc]))
  | hangsUp soError ev hc hread =>
    have hcl := hs.flags.open_not_closing (hs.flags.reading hread)
    exact simulates_act hr rfl (.read t _ (hr.isOpen hcl)) rfl
      (inflight_congr rfl rfl (by rw [hc]; rfl))
      (inPhase_congr hphase rfl (over_of_busy (by simp [hc]) (by simp [Stream.goto])) rfl rfl)
      (hr.failed_mem (List.subset_append_left _ _))
  | goesOn soError ev hc =>
    exact simulates_goto hr (by rw [hc]; rfl) rfl (over_of_busy (by simp [hc]) (by simp [Stream.goto]))
  | ioWrites soError ev answers s₁ hc hfd h =>
    have hreq := (hs.flags.used (by simp [hc])).1
    have hw := simulates_wrote (s := s) hs.books hr (List.append_nil _).symm (.nil t) (hflow hfd hreq) h
    obtain ⟨_, _, _, _, _, _, rfl⟩ := h.same
    refine hw.trans fun t₁ hr₁ => simulates_same hr₁ rfl ?_ (inPhase_congr hr₁.phase rfl
      (over_of_busy (by simp [hc]) (by simp [Stream.callbacks, Stream.goto])) rfl rfl)
    simp [Stream.inflight, Stream.callbacks, Stream.goto, hc, Control.pq]
  | ioEnds soError ev hc h =>
    exact simulates_goto hr (by rw [hc]; rfl) rfl (hmid (by simp [hc]) (by simp [hc]))
  | drains soError s₁ hc hq h =>
    have hd := simulates_drained hr h
    have hover := hmid (by simp [hc]) (by simp [hc])
    obtain ⟨_, _, _, _, rfl⟩ := h.same
    exact hd.trans fun t₁ hr₁ => simulates_goto hr₁ (by simp [hc]) rfl hover
  | returns soError after hc h =>
    refine simulates_goto hr (by rw [hc]; rfl) rfl (hmid (by simp [hc]) ?_)
    rintro pq hc'
    rw [hc] at hc'
    cases hc'
    rcases h with h | ⟨h, -⟩ <;> cases h
  | closed soError s₁ hc h =>
    have hclosed := hs.flags.destroyed [] hc
    have hcl := hs.flags.closed hclosed
    obtain ⟨-, hq, hdone, -⟩ := hs.flags.ended hclosed
    have hd := simulates_drained hr h
    obtain ⟨_, _, _, _, rfl⟩ := h.same
    refine hd.trans fun t₁ hr₁ => ?_
    have hp : t₁.phase = .closing := by
      simpa [Stream.inPhase, hcl, Stream.isOver, hc] using hr₁.phase
    have hnone : t₁.queue = [] := by
      rw [hr₁.queue]
      simp [Stream.inflight, hc, hq, hdone]
    refine simulates_act hr₁ rfl (.closed t₁ { t₁ with phase := .closed } ?_) rfl ?_ ?_ (by simp)
    · simp [libuv.Stream.finishClose, hp, hnone]
    · simp [Stream.inflight, Stream.log, Stream.goto, hc, Control.pq]
    · simp [Stream.inPhase, Stream.isOver, Stream.log, Stream.goto, hcl, hclosed]

end simulation

/-- Before anything happens. -/
def fresh : libuv.Stream := ⟨.connecting, false, []⟩

theorem refines_start : Refines start fresh where
  single := by simp [start, Stream.inflight, Control.pq]
  queue := rfl
  phase := by simp [Stream.inPhase, start, fresh]
  failed := by simp [fresh]

theorem healthy_start : Healthy start := by
  constructor <;> simp [start, Control.pq]

/-- What a run of stream.c says and does is what a run of the abstract stream says and does. -/
theorem every_run_of_stream_c_is_one_of_the_stream {s : Stream} {es : List Event}
    (h : run step start es = .ok s) (hsingle : ∀ e ∈ es, e.single = true)
    (hsticky : Sticky (es.flatMap Event.said)) : ∃ t, Follows fresh s.trace t ∧ Refines s t := by
  have hrun : Sound s ∧
      ((∀ a ∈ es.flatMap Event.said, a.isError = false) → s.closing = false → Healthy s) ∧
      ((∀ e ∈ es, e.single = true) → Sticky (es.flatMap Event.said) →
        ∃ t, Follows fresh s.trace t ∧ Refines s t) := by
    refine run_invariant (P := fun es s => Sound s ∧
      ((∀ a ∈ es.flatMap Event.said, a.isError = false) → s.closing = false → Healthy s) ∧
      ((∀ e ∈ es, e.single = true) → Sticky (es.flatMap Event.said) →
        ∃ t, Follows fresh s.trace t ∧ Refines s t)) ⟨sound_start, ?_, ?_⟩ ?_ h
    · exact fun _ _ => healthy_start
    · exact fun _ _ => ⟨fresh, .nil fresh, refines_start⟩
    · rintro es s e s' ⟨hs, hh, hr⟩ hstep
      have hm := of_gives (moved hs e) hstep
      refine ⟨sound_moved hs hm, fun hno hcl => ?_, fun hsingle hsticky => ?_⟩
      · rw [List.flatMap_append, List.flatMap_singleton] at hno
        exact healthy_moved hs (hh fun a ha => hno a (List.mem_append_left _ ha))
          (fun a ha => hno a (List.mem_append_right _ ha)) hm hcl
      · have hbefore : Sticky (es.flatMap Event.said) := by
          rw [List.flatMap_append] at hsticky
          exact (List.pairwise_append.mp hsticky).1
        obtain ⟨t, hfollows, href⟩ := hr (fun e he => hsingle e (List.mem_append_left _ he)) hbefore
        obtain ⟨acts, t', htrace, hfollows', href'⟩ := simulates_moved hs href
          (hsingle e (by simp)) (fun hfd hreq => flowing hs.flags href hh hsticky hfd hreq) hm
        exact ⟨t', by rw [htrace]; exact hfollows.append hfollows', href'⟩
  exact hrun.2.2 hsingle hsticky

theorem the_session_is_one_of_the_stream : ∃ s, run step start (session ++ ending) = .ok s ∧
    ∃ t, Follows fresh s.trace t ∧ Refines s t := by
  obtain ⟨s, s', h, h', -⟩ := the_session_runs
  have hrun := run_append_ok.mpr ⟨s, h, h'⟩
  exact ⟨s', hrun, every_run_of_stream_c_is_one_of_the_stream hrun (by decide) (by
    unfold Sticky
    decide)⟩

end linuxc.uv_stream
