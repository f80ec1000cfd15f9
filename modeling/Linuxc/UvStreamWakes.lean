-- What a stream waits for. Whenever libuv is done with a handle and something is
-- still to be done for it, the loop is going to come back to it.
import Linuxc.UvStreamWrites

namespace linuxc.uv_stream

open event_runs

/-! ## Nothing is forgotten -/

/-- Libuv is about to write, or to flush the queue. -/
def Control.due : Control → Bool
  | .connected error => error < 0
  | .read ev | .writing ev => ev.pollout
  | _ => false

/-- Why the loop comes back to a handle, or does not have to. -/
structure Wake (s : Stream) : Prop where
  connecting : s.connectReq = true → s.closing = true ∨ s.pollout = true
  queued : s.writeQueue ≠ [] → s.closing = true ∨ s.connectReq = true ∨ s.pollout = true ∨
    s.pending = true ∨ s.control.due = true
  completed : s.writeCompletedQueue ≠ [] → s.closing = true ∨ s.pending = true ∨ s.control.due = true
  made : s.writeCompletedQueue ≠ [] → s.connectReq = false ∧ (s.fd = true ∨ s.closing = true)

theorem wake_start : Wake start := by constructor <;> simp [start]

section wake

variable {s s' : Stream}

/-- What does not take a reason away. -/
theorem Wake.keep (hw : Wake s) (hqueue : s'.writeQueue = s.writeQueue)
    (hdone : s'.writeCompletedQueue = s.writeCompletedQueue) (hreq : s'.connectReq = s.connectReq)
    (hfd : s'.fd = s.fd) (hcl : s'.closing = s.closing) (hout : s.pollout = true → s'.pollout = true)
    (hpending : s.pending = true → s'.pending = true)
    (hdue : s.control.due = true → s.closing = true ∨ s'.control.due = true) : Wake s' where
  connecting := by
    rw [hreq, hcl]
    exact fun h => (hw.connecting h).imp_right hout
  queued := by
    rw [hqueue, hcl, hreq]
    intro h
    rcases hw.queued h with h | h | h | h | h
    · exact .inl h
    · exact .inr (.inl h)
    · exact .inr (.inr (.inl (hout h)))
    · exact .inr (.inr (.inr (.inl (hpending h))))
    · rcases hdue h with h | h
      · exact .inl h
      · exact .inr (.inr (.inr (.inr h)))
  completed := by
    rw [hdone, hcl]
    intro h
    rcases hw.completed h with h | h | h
    · exact .inl h
    · exact .inr (.inl (hpending h))
    · rcases hdue h with h | h
      · exact .inl h
      · exact .inr (.inr h)
  made := by
    rw [hdone, hreq, hfd, hcl]
    exact hw.made

/-- `uv__write` does not leave off without a reason to come back. -/
theorem Wrote.wakes {answers : List Answer} (h : Wrote s answers s') :
    (s'.writeQueue = [] ∨ s'.pollout = true ∨ s'.pending = true) ∧
      (s.pending = true → s'.pending = true) ∧
      (s'.writeCompletedQueue = s.writeCompletedQueue ∨ s'.pending = true) := by
  induction h with
  | empty s hq => exact ⟨.inl hq, id, .inl rfl⟩
  | whole s s' req queue n answers hq ht h ih => exact ⟨ih.1, fun _ => ih.2.1 rfl, .inr (ih.2.1 rfl)⟩
  | enough s req queue n hq ht => exact ⟨.inr (.inr rfl), fun _ => rfl, .inr rfl⟩
  | part s req queue n rest hq ht hrest => exact ⟨.inr (.inl rfl), id, .inl rfl⟩
  | again s hq => exact ⟨.inr (.inl rfl), id, .inl rfl⟩
  | error s req queue err hq herr => exact ⟨.inr (.inr rfl), fun _ => rfl, .inr rfl⟩

theorem wake_of_closing (hcl : s'.closing = true)
    (hmade : s'.writeCompletedQueue ≠ [] → s'.connectReq = false) : Wake s' where
  connecting := fun _ => .inl hcl
  queued := fun _ => .inl hcl
  completed := fun _ => .inl hcl
  made := fun h => ⟨hmade h, .inr hcl⟩

theorem wake_of_wrote {answers : List Answer} (hreq : s.connectReq = false)
    (hfd : s.fd = true) (hdue : s.writeCompletedQueue ≠ [] → s.closing = true ∨ s.pending = true ∨
      s.control.due = true) (h : Wrote s answers s') : Wake s' := by
  obtain ⟨hqueue, hpending, hdone⟩ := h.wakes
  obtain ⟨_, _, _, _, _, _, rfl⟩ := h.same
  refine ⟨fun h => by simp [hreq] at h, ?_, ?_, fun _ => ⟨hreq, .inl hfd⟩⟩
  · rintro h
    rcases hqueue with hq | hout | hp
    · exact absurd hq h
    · exact .inr (.inr (.inl hout))
    · exact .inr (.inr (.inr (.inl hp)))
  · rintro h
    rcases hdone with heq | hp
    · rcases hdue (heq ▸ h) with hcl | hp | hd
      · exact .inl hcl
      · exact .inr (.inl (hpending hp))
      · exact .inr (.inr hd)
    · exact .inr (.inl hp)

theorem wake_moved {e : Event} (hs : Sound s) (hw : Wake s) (h : Moved s e s') : Wake s' := by
  have hgone : s.control ≠ .idle → s.fd = false → s.closing = true := by
    intro hc hfd
    simpa [hfd] using (hs.flags.used hc).2
  have hnew : s.fd = false → s.closing = false → s.writeCompletedQueue = [] := by
    intro hfd hcl
    exact Classical.byContradiction fun h => by simpa [hfd, hcl] using (hw.made h).2
  cases h with
  | connects delayedError hfd hcl hd =>
    have hq := (hs.flags.unused hfd hcl).2.2.1
    have hdone := hnew hfd hcl
    exact ⟨fun _ => .inr rfl, fun h => absurd hq h, fun h => absurd hdone h, fun h => absurd hdone h⟩
  | opens hfd hcl hreq =>
    have hq := (hs.flags.unused hfd hcl).2.2.1
    have hdone := hnew hfd hcl
    exact ⟨hw.connecting, fun h => absurd hq h, fun h => absurd hdone h, fun h => absurd hdone h⟩
  | refuses id bufs err hw' herr =>
    exact hw.keep rfl rfl rfl rfl rfl (fun h => h) (fun h => h) .inr
  | queues id bufs hbufs hw' hreq =>
    exact ⟨hw.connecting, fun _ => .inr (.inl hreq), hw.completed, hw.made⟩
  | writes id bufs answers _ hbufs hw' hreq hsize h =>
    have hfd := hs.flags.writable hw'
    exact wake_of_wrote (s := s.enqueue (newReq id bufs)) hreq hfd hw.completed h
  | waits id bufs hbufs hw' hreq =>
    exact ⟨fun _ => .inr rfl, fun _ => .inr (.inr (.inl rfl)), hw.completed, hw.made⟩
  | startsReading hr => exact hw.keep rfl rfl rfl rfl rfl (fun h => h) (fun h => h) .inr
  | stopsReading => exact hw.keep rfl rfl rfl rfl rfl (fun h => h) (fun h => h) .inr
  | shutsDown hw' hshut hreq =>
    exact hw.keep rfl rfl rfl rfl rfl (fun h => h) (by simp +contextual) .inr
  | closes hcl => exact wake_of_closing rfl fun h => (hw.made h).1
  | staysConnecting e pending ev hc h hreq =>
    have hcl := hs.flags.open_not_closing (h.fd hs.flags)
    have hout : s.pollout = true := by simpa [hcl] using hw.connecting hreq
    have hdone : s.writeCompletedQueue = [] := Classical.byContradiction fun h => by
      simpa [hreq] using (hw.made h).1
    exact ⟨fun _ => .inr hout, fun _ => .inr (.inl hreq), fun h => absurd hdone h, hw.made⟩
  | connected e pending ev error pollout hc h hreq herr hsource hout hstays =>
    have hcl := hs.flags.open_not_closing (h.fd hs.flags)
    have hout : s.pollout = true := by simpa [hcl] using hw.connecting hreq
    have hdone : s.writeCompletedQueue = [] := Classical.byContradiction fun h => by
      simpa [hreq] using (hw.made h).1
    refine ⟨fun h => by simp [Stream.log, Stream.goto] at h, fun hq => ?_, fun h => absurd hdone h,
      fun h => absurd hdone h⟩
    by_cases hneg : error < 0
    · exact .inr (.inr (.inr (.inr (by simpa [Stream.goto, Control.due] using hneg))))
    · exact .inr (.inr (.inl ((hstays (by omega) hq).trans hout)))
  | reads e pending ev hc h hreq hin =>
    cases h with
    | poll ev soError hfd hout =>
      exact hw.keep rfl rfl rfl rfl rfl (fun h => h) (fun h => h) (by simp [hc, Control.due])
    | pending soError hp => simp at hin
  | ready e pending ev hc h hreq =>
    cases h with
    | poll ev soError hfd hout =>
      exact hw.keep rfl rfl rfl rfl rfl (fun h => h) (fun h => h) (by simp [hc, Control.due])
    | pending soError hp =>
      exact ⟨hw.connecting, fun _ => .inr (.inr (.inr (.inr rfl))), fun _ => .inr (.inr rfl), hw.made⟩
  | destroysConnecting hc hcl hclosed hreq => exact wake_of_closing hcl fun _ => rfl
  | destroys hc hcl hclosed hreq => exact wake_of_closing hcl fun _ => hreq
  | readOne answer count ev _ hc hr h =>
    cases h <;>
      exact hw.keep rfl rfl rfl rfl rfl (fun h => h) (fun h => h) (by simp [hc, Control.due])
  | called req pq after hc =>
    exact hw.keep rfl rfl rfl rfl rfl (fun h => h) (fun h => h) (by simp [hc, Control.due])
  | connectFailed soError error hc herr =>
    exact ⟨hw.connecting, fun h => absurd rfl h, fun h => absurd rfl h, fun h => absurd rfl h⟩
  | connectReturned soError error hc h =>
    refine hw.keep rfl rfl rfl rfl rfl (fun h => h) (fun h => h) fun hdue => .inl ?_
    refine hgone (by simp [hc]) (h.resolve_right fun h0 => ?_)
    simp only [hc, Control.due, decide_eq_true_eq] at hdue
    omega
  | readEnded soError count ev hc =>
    exact hw.keep rfl rfl rfl rfl rfl (fun h => h) (fun h => h) (by simp [hc, Control.due])
  | readFailed soError ev hc =>
    exact hw.keep rfl rfl rfl rfl rfl (fun h => h) (fun h => h) (by simp [hc, Control.due])
  | readClosed soError ev hc hfd =>
    exact hw.keep rfl rfl rfl rfl rfl (fun h => h) (fun h => h) fun _ =>
      .inl (hgone (by simp [hc]) hfd)
  | hangsUp soError ev hc hr =>
    refine hw.keep rfl rfl rfl rfl rfl (fun h => h) (fun h => h) ?_
    rw [hc]
    exact .inr
  | goesOn soError ev hc =>
    refine hw.keep rfl rfl rfl rfl rfl (fun h => h) (fun h => h) ?_
    rw [hc]
    exact .inr
  | ioWrites soError ev answers s₁ hc hfd h =>
    have hreq := (hs.flags.used (by simp [hc])).1
    obtain ⟨hqueue, -, -⟩ := h.wakes
    obtain ⟨_, _, _, _, _, _, rfl⟩ := h.same
    refine ⟨fun h => by simp [Stream.callbacks, Stream.goto, hreq] at h, fun h => ?_,
      fun h => absurd rfl h, fun h => absurd rfl h⟩
    rcases hqueue with hq | hout | hp
    · exact absurd hq h
    · exact .inr (.inr (.inl hout))
    · exact .inr (.inr (.inr (.inl hp)))
  | ioEnds soError ev hc h =>
    refine hw.keep rfl rfl rfl rfl rfl (fun h => h) (fun h => h) fun hdue => .inl ?_
    refine hgone (by simp [hc]) (h.resolve_right fun hno => ?_)
    simp [hc, Control.due, hno] at hdue
  | drains soError s₁ hc hq h =>
    have hreq := (hs.flags.used (by simp [hc])).1
    have hdue : s.control.due = false := by rw [hc]; rfl
    obtain ⟨_, _, _, _, rfl⟩ := h.same
    refine ⟨fun h => by simp [Stream.goto, hreq] at h, fun h => absurd hq h, fun h => ?_, hw.made⟩
    rcases hw.completed h with hcl | hp | hd
    · exact .inl hcl
    · exact .inr (.inl hp)
    · simp [hdue] at hd
  | returns soError after hc h =>
    exact hw.keep rfl rfl rfl rfl rfl (fun h => h) (fun h => h) (by simp [hc, Control.due])
  | closed soError s₁ hc h =>
    have hclosed := hs.flags.destroyed [] hc
    obtain ⟨hreq, -⟩ := hs.flags.ended hclosed
    obtain ⟨_, _, _, _, rfl⟩ := h.same
    exact wake_of_closing (hs.flags.closed hclosed) fun _ => hreq

end wake

theorem wake_run {s : Stream} {es : List Event} (h : run step start es = .ok s) : Wake s := by
  have hrun : Sound s ∧ Wake s := by
    refine run_keeps (P := fun s => Sound s ∧ Wake s) ⟨sound_start, wake_start⟩ ?_ h
    rintro s e s' ⟨hs, hw⟩ hstep
    have hm := of_gives (moved hs e) hstep
    exact ⟨sound_moved hs hm, wake_moved hs hw hm⟩
  exact hrun.2

/-- Between two events of the loop no write is forgotten: while one is in the queue, or is over and not
called back, a close is still to be finished, or the watcher waits until the descriptor is writable, or
the handle is pending. -/
theorem a_waiting_write_is_never_forgotten {s : Stream} {es : List Event}
    (h : run step start es = .ok s) (hidle : s.control = .idle)
    (hwaits : s.writeQueue ≠ [] ∨ s.writeCompletedQueue ≠ []) :
    s.closing = true ∧ s.closed = false ∨ s.pollout = true ∨ s.pending = true := by
  have hw := wake_run h
  have hs := sound_run h
  have hdue : s.control.due = false := by rw [hidle]; rfl
  have hclosed : s.closed = false := Bool.eq_false_iff.mpr fun h => by
    obtain ⟨-, hq, hdone, -⟩ := hs.flags.ended h
    rcases hwaits with hne | hne
    · exact hne hq
    · exact hne hdone
  rcases hwaits with hq | hdone
  · rcases hw.queued hq with hcl | hreq | hout | hp | hd
    · exact .inl ⟨hcl, hclosed⟩
    · rcases hw.connecting hreq with hcl | hout
      · exact .inl ⟨hcl, hclosed⟩
      · exact .inr (.inl hout)
    · exact .inr (.inl hout)
    · exact .inr (.inr hp)
    · simp [hdue] at hd
  · rcases hw.completed hdone with hcl | hp | hd
    · exact .inl ⟨hcl, hclosed⟩
    · exact .inr (.inr hp)
    · simp [hdue] at hd

theorem the_session_waits_until_it_can_write :
    ∃ s, run step start (session.take 8) = .ok s ∧
      (s.closing = true ∧ s.closed = false ∨ s.pollout = true ∨ s.pending = true) := by
  have hseen : (run step start (session.take 8)).toOption.map
      (fun s => (s.control, s.writeQueue.length)) = some (.idle, 1) := by decide +kernel
  obtain ⟨s, h, hview⟩ := ran hseen
  simp only [Prod.mk.injEq] at hview
  refine ⟨s, h, a_waiting_write_is_never_forgotten h hview.1 (.inl ?_)⟩
  rw [← List.length_pos_iff]
  omega

/-! ## The requests that are not writes -/

def Event.asksConnect : Event → Nat
  | .uvConnect _ => 1
  | _ => 0

def Event.asksShutdown : Event → Nat
  | .uvShutdown => 1
  | _ => 0

def Act.endsConnect : Act → Nat
  | .connectCb _ => 1
  | _ => 0

def Act.endsShutdown : Act → Nat
  | .shutdownCb _ => 1
  | _ => 0

/-- A connect and a shutdown are called back, or still asked for. -/
structure Asked (es : List Event) (s : Stream) : Prop where
  connect : tally Act.endsConnect s.trace + s.connectReq.toNat = tally Event.asksConnect es
  shutdown : tally Act.endsShutdown s.trace + s.shutdownReq.toNat = tally Event.asksShutdown es

theorem Wrote.asks {s s' : Stream} {answers : List Answer} (h : Wrote s answers s') :
    tally Act.endsConnect s'.trace = tally Act.endsConnect s.trace ∧
      tally Act.endsShutdown s'.trace = tally Act.endsShutdown s.trace := by
  induction h with
  | empty s hq => exact ⟨rfl, rfl⟩
  | whole s s' req queue n answers hq ht h ih =>
    rw [ih.1, ih.2]
    simp [Stream.finish, Stream.took, Stream.log, Act.endsConnect, Act.endsShutdown]
  | enough s req queue n hq ht =>
    simp [Stream.finish, Stream.took, Stream.log, Act.endsConnect, Act.endsShutdown]
  | part s req queue n rest hq ht hrest =>
    simp [Stream.took, Stream.log, Act.endsConnect, Act.endsShutdown]
  | again s hq => exact ⟨rfl, rfl⟩
  | error s req queue err hq herr => exact ⟨rfl, rfl⟩

theorem Ready.asks {s : Stream} {e : Event} {pending : Bool} {ev : PollEvents}
    (h : Ready s e pending ev) : e.asksConnect = 0 ∧ e.asksShutdown = 0 := by
  cases h <;> exact ⟨rfl, rfl⟩

theorem Drained.asks {s s' : Stream} (h : Drained s s') :
    tally Act.endsConnect s'.trace = tally Act.endsConnect s.trace ∧
      tally Act.endsShutdown s'.trace = tally Act.endsShutdown s.trace + s.shutdownReq.toNat ∧
      s'.shutdownReq = false := by
  cases h with
  | plain hr => exact ⟨rfl, by simp [hr], hr⟩
  | shuts err hr herr hcl => simp [Stream.log, Act.endsConnect, Act.endsShutdown, hr]

theorem asked_moved {es : List Event} {s s' : Stream} {e : Event} (hf : Flags s) (ha : Asked es s)
    (h : Moved s e s') : Asked (es ++ [e]) s' := by
  obtain ⟨hconnect, hshutdown⟩ := ha
  have hsame : tally Act.endsConnect s'.trace + s'.connectReq.toNat =
        tally Act.endsConnect s.trace + s.connectReq.toNat + e.asksConnect ∧
      tally Act.endsShutdown s'.trace + s'.shutdownReq.toNat =
        tally Act.endsShutdown s.trace + s.shutdownReq.toNat + e.asksShutdown := by
    cases h with
    | connects delayedError hfd hcl hd =>
      simp [(hf.unused hfd hcl).2.1, Event.asksConnect, Event.asksShutdown]
    | shutsDown hw hshut hreq => simp [hreq, Event.asksConnect, Event.asksShutdown]
    | writes id bufs answers _ hbufs hw hreq hsize h =>
      obtain ⟨hconnect, hshutdown⟩ := h.asks
      obtain ⟨_, _, _, _, _, _, rfl⟩ := h.same
      rw [hconnect, hshutdown]
      simp [Stream.enqueue, Stream.log, Act.endsConnect, Act.endsShutdown, Event.asksConnect,
        Event.asksShutdown]
    | staysConnecting _ pending ev hc h hreq => simp [h.asks]
    | connected _ pending ev error pollout hc h hreq herr hsource hout hstays =>
      simp [h.asks, Stream.log, Stream.goto, Act.endsConnect, Act.endsShutdown, hreq]
    | reads _ pending ev hc h hreq hin => simp [h.asks, Stream.goto]
    | ready _ pending ev hc h hreq => simp [h.asks, Stream.goto]
    | readOne answer count ev _ hc hr h =>
      cases h <;> simp [Stream.eof, Stream.log, Stream.goto, Act.endsConnect, Act.endsShutdown,
        Event.asksConnect, Event.asksShutdown]
    | ioWrites soError ev answers _ hc hfd h =>
      obtain ⟨hconnect, hshutdown⟩ := h.asks
      obtain ⟨_, _, _, _, _, _, rfl⟩ := h.same
      exact ⟨congrArg (· + s.connectReq.toNat) hconnect, congrArg (· + s.shutdownReq.toNat) hshutdown⟩
    | drains soError _ hc hq h =>
      obtain ⟨hconnect, hshutdown, hreq⟩ := h.asks
      obtain ⟨_, _, _, _, rfl⟩ := h.same
      simp [Stream.goto, hconnect, hshutdown, hreq, Event.asksConnect, Event.asksShutdown]
    | closed soError _ hc h =>
      obtain ⟨hconnect, hshutdown, hreq⟩ := h.asks
      obtain ⟨_, _, _, _, rfl⟩ := h.same
      simp [Stream.log, Stream.goto, hconnect, hshutdown, hreq, Act.endsConnect, Act.endsShutdown,
        Event.asksConnect, Event.asksShutdown]
    | _ =>
      simp_all [Stream.eof, Stream.enqueue, Stream.flush, Stream.callbacks, Stream.log, Stream.goto,
        Act.endsConnect, Act.endsShutdown, Event.asksConnect, Event.asksShutdown]
  refine ⟨?_, ?_⟩
  · rw [hsame.1, hconnect]
    simp
  · rw [hsame.2, hshutdown]
    simp

/-- A close that is over leaves no shutdown behind. -/
theorem over_moved {s s' : Stream} {e : Event} (hs : Flags s)
    (ho : s.isOver = true → s.shutdownReq = false) (h : Moved s e s') (hover : s'.isOver = true) :
    s'.shutdownReq = false := by
  simp only [Stream.isOver, Bool.and_eq_true, decide_eq_true_eq] at ho hover
  have hmid : s.control ≠ .idle → (∀ pq, s.control ≠ .calling pq .destroy) → s.closed ≠ true := by
    intro hidle hcontrol
    simp [hs.not_closed hidle hcontrol]
  have hopen : s.fd = true → s.closed ≠ true := fun hfd => by simp [hs.open_not_closed hfd]
  cases h with
  | connects delayedError hfd hcl hd => exact absurd hover.1 (by simp [(hs.unused hfd hcl).2])
  | opens hfd hcl hreq => exact absurd hover.1 (by simp [Stream.log, (hs.unused hfd hcl).2])
  | queues id bufs hbufs hw hreq => exact absurd hover.1 (hopen (hs.writable hw))
  | writes id bufs answers _ hbufs hw hreq hsize h =>
    obtain ⟨_, _, _, _, _, _, rfl⟩ := h.same
    exact absurd hover.1 (hopen (hs.writable hw))
  | waits id bufs hbufs hw hreq => exact absurd hover.1 (hopen (hs.writable hw))
  | shutsDown hw hshut hreq => exact absurd hover.1 (hopen (hs.writable hw))
  | staysConnecting _ pending ev hc h hreq => exact absurd hover.1 (hopen (h.fd hs))
  | readOne answer count ev _ hc hr h => cases h <;> simp [Stream.goto] at hover
  | ioWrites soError ev answers _ hc hfd h => simp [Stream.callbacks, Stream.goto] at hover
  | connectReturned soError error hc h =>
    exact absurd hover.1 (hmid (by simp [hc]) (by simp [hc]))
  | readClosed soError ev hc hfd => exact absurd hover.1 (hmid (by simp [hc]) (by simp [hc]))
  | ioEnds soError ev hc h => exact absurd hover.1 (hmid (by simp [hc]) (by simp [hc]))
  | drains soError _ hc hq h =>
    obtain ⟨_, _, _, _, rfl⟩ := h.same
    exact absurd hover.1 (hmid (by simp [hc]) (by simp [hc]))
  | returns soError after hc h =>
    refine absurd hover.1 (hmid (by simp [hc]) fun pq hc' => ?_)
    rw [hc] at hc'
    cases hc'
    rcases h with h | ⟨h, -⟩ <;> cases h
  | closed soError s₁ hc h => exact h.asks.2.2
  | refuses id bufs err hw herr => exact ho hover
  | startsReading hr => exact ho hover
  | stopsReading => exact ho hover
  | closes hcl => exact ho hover
  | _ => simp [Stream.callbacks, Stream.goto] at hover

/-- A connect and a shutdown, too, are called back at most once, and by the end of the close each has
been called back. -/
theorem each_request_is_called_back_once {s : Stream} {es : List Event}
    (h : run step start es = .ok s) :
    tally Act.endsConnect s.trace ≤ tally Event.asksConnect es ∧
      tally Act.endsShutdown s.trace ≤ tally Event.asksShutdown es ∧
      (.closeCb ∈ s.trace →
        tally Act.endsConnect s.trace = tally Event.asksConnect es ∧
          tally Act.endsShutdown s.trace = tally Event.asksShutdown es) := by
  have hrun : Sound s ∧ Asked es s ∧ (s.isOver = true → s.shutdownReq = false) := by
    refine run_invariant
      (P := fun es s => Sound s ∧ Asked es s ∧ (s.isOver = true → s.shutdownReq = false))
      ⟨sound_start, ⟨rfl, rfl⟩, fun _ => rfl⟩ ?_ h
    rintro es s e s' ⟨hs, ha, ho⟩ hstep
    have hm := of_gives (moved hs e) hstep
    exact ⟨sound_moved hs hm, asked_moved hs.flags ha hm, over_moved hs.flags ho hm⟩
  obtain ⟨hs, ⟨hconnect, hshutdown⟩, ho⟩ := hrun
  refine ⟨by omega, by omega, fun hend => ?_⟩
  have hover := isOver_of_end h hend
  have hover' := hover
  simp only [Stream.isOver, Bool.and_eq_true, decide_eq_true_eq] at hover'
  rw [(hs.flags.ended hover'.1).1] at hconnect
  rw [ho hover] at hshutdown
  exact ⟨by simpa using hconnect, by simpa using hshutdown⟩

theorem the_connect_of_the_session_is_called_back :
    ∃ s, run step start (session ++ ending) = .ok s ∧
      tally Act.endsConnect s.trace = tally Event.asksConnect (session ++ ending) := by
  obtain ⟨s, s', h, h', htrace⟩ := the_session_runs
  have hrun := run_append_ok.mpr ⟨s, h, h'⟩
  exact ⟨s', hrun, ((each_request_is_called_back_once hrun).2.2 (by simp [htrace])).1⟩

/-! ## The shutdown -/

/-- After the shutdown nothing is accepted and nothing is handed over. -/
structure Shut (s₀ s : Stream) : Prop where
  shut : s.shut = true
  accepted : acceptedWrites s.trace = acceptedWrites s₀.trace
  handed : handedBytes s.trace = handedBytes s₀.trace

theorem Drained.writes {s s' : Stream} (h : Drained s s') :
    SameWrites s.trace s'.trace ∧ (s.shut = true → s'.shut = true) := by
  cases h with
  | plain hr => exact ⟨sameWrites_refl, fun h => h⟩
  | shuts err hr herr hcl =>
    exact ⟨sameWrites_snoc rfl rfl rfl, fun h => by simp [Stream.log, h]⟩

theorem shut_moved {s₀ s s' : Stream} {e : Event} (hs : Flags s) (hsh : Shut s₀ s)
    (h : Moved s e s') : Shut s₀ s' := by
  obtain ⟨hshut, haccepted, hhanded⟩ := hsh
  obtain ⟨hw', hq, -⟩ := hs.shut hshut
  cases h with
  | connects delayedError hfd hcl hd => simp [(hs.unused hfd hcl).2] at hshut
  | writes id bufs answers _ hbufs hw hreq hsize h => simp [hw] at hw'
  | ioWrites soError ev answers _ hc hfd h =>
    have heq := h.of_nil hq
    subst heq
    exact ⟨hshut, haccepted, hhanded⟩
  | readOne answer count ev _ hc hr h =>
    cases h <;> exact ⟨hshut, by simpa [Stream.eof, Stream.log, Stream.goto, Act.acceptedWrite],
      by simpa [Stream.eof, Stream.log, Stream.goto, Act.handedOver]⟩
  | drains soError _ hc hq h =>
    obtain ⟨hsame, hstays⟩ := h.writes
    exact ⟨hstays hshut, hsame.accepted.trans haccepted, hsame.handed.trans hhanded⟩
  | closed soError _ hc h =>
    obtain ⟨hsame, hstays⟩ := h.writes
    refine ⟨hstays hshut, ?_, ?_⟩
    · simp [Stream.log, Stream.goto, Act.acceptedWrite, hsame.accepted, haccepted]
    · simp [Stream.log, Stream.goto, Act.handedOver, hsame.handed, hhanded]
  | _ =>
    refine ⟨?_, ?_, ?_⟩ <;>
      simp_all [Stream.eof, Stream.flush, Stream.callbacks, Stream.log, Stream.goto,
        Act.acceptedWrite, Act.handedOver]

theorem Wrote.tells {s s' : Stream} {answers : List Answer} (h : Wrote s answers s') :
    .shutdownCb 0 ∈ s'.trace ↔ .shutdownCb 0 ∈ s.trace := by
  induction h with
  | empty s hq => exact Iff.rfl
  | whole s s' req queue n answers hq ht h ih =>
    rw [ih]
    simp [Stream.finish, Stream.took, Stream.log]
  | enough s req queue n hq ht => simp [Stream.finish, Stream.took, Stream.log]
  | part s req queue n rest hq ht hrest => simp [Stream.took, Stream.log]
  | again s hq => exact Iff.rfl
  | error s req queue err hq herr => exact Iff.rfl

theorem Drained.tells {s s' : Stream} (h : Drained s s')
    (ht : .shutdownCb 0 ∈ s.trace → s.shut = true) : .shutdownCb 0 ∈ s'.trace → s'.shut = true := by
  cases h with
  | plain hr => exact ht
  | shuts err hr herr hcl =>
    intro hmem
    simp only [Stream.log, List.mem_append, List.mem_singleton, Act.shutdownCb.injEq] at hmem ⊢
    rcases hmem with hmem | rfl
    · simp [ht hmem]
    · simp

theorem told_moved {s s' : Stream} {e : Event} (ht : .shutdownCb 0 ∈ s.trace → s.shut = true)
    (h : Moved s e s') : .shutdownCb 0 ∈ s'.trace → s'.shut = true := by
  cases h with
  | writes id bufs answers _ hbufs hw hreq hsize h =>
    rw [h.tells]
    obtain ⟨_, _, _, _, _, _, rfl⟩ := h.same
    simpa [Stream.enqueue, Stream.log] using ht
  | ioWrites soError ev answers _ hc hfd h =>
    have htells := h.tells
    obtain ⟨_, _, _, _, _, _, rfl⟩ := h.same
    exact fun hmem => ht (htells.mp hmem)
  | readOne answer count ev _ hc hr h =>
    cases h <;> simpa [Stream.eof, Stream.log, Stream.goto] using ht
  | drains soError _ hc hq h => exact h.tells ht
  | closed soError _ hc h => simpa [Stream.log, Stream.goto] using h.tells ht
  | _ => simpa [Stream.eof, Stream.enqueue, Stream.flush, Stream.callbacks, Stream.log, Stream.goto,
      UV_ECANCELED] using ht

/-- Once the shutdown has been called back with status 0, no write is accepted and no byte is handed
over any more. -/
theorem nothing_is_sent_after_the_shutdown {s s' : Stream} {es fs : List Event}
    (h : run step start es = .ok s) (hdone : .shutdownCb 0 ∈ s.trace) (h' : run step s fs = .ok s') :
    acceptedWrites s'.trace = acceptedWrites s.trace ∧ handedBytes s'.trace = handedBytes s.trace := by
  have htold : Sound s ∧ (.shutdownCb 0 ∈ s.trace → s.shut = true) := by
    refine run_keeps (P := fun s => Sound s ∧ (.shutdownCb 0 ∈ s.trace → s.shut = true))
      ⟨sound_start, by simp [start]⟩ ?_ h
    rintro s e s' ⟨hs, ht⟩ hstep
    have hm := of_gives (moved hs e) hstep
    exact ⟨sound_moved hs hm, told_moved ht hm⟩
  have hrun : Sound s' ∧ Shut s s' := by
    refine run_keeps (P := fun s' => Sound s' ∧ Shut s s') ⟨htold.1, htold.2 hdone, rfl, rfl⟩ ?_ h'
    rintro s₁ e s₂ ⟨hs, hsh⟩ hstep
    have hm := of_gives (moved hs e) hstep
    exact ⟨sound_moved hs hm, shut_moved hs.flags hsh hm⟩
  exact ⟨hrun.2.accepted, hrun.2.handed⟩

/-- A connection that sends one write and shuts down. -/
def leaving : List Event := [
  .uvOpen, .uvWrite 1 [⟨100, 5⟩] [.again], .uvShutdown, .poll writable 0, .resume [] 0,
  .resume [.wrote 5] 0, .callback, .resume [] 0]

theorem nothing_is_sent_after_leaving :
    ∃ s s', run step start leaving = .ok s ∧ run step s [.uvWrite 2 [⟨200, 1⟩] [], .uvClose] = .ok s' ∧
      acceptedWrites s'.trace = acceptedWrites s.trace ∧
        handedBytes s'.trace = handedBytes s.trace := by
  have hseen : (run step start (leaving ++ [.uvWrite 2 [⟨200, 1⟩] [], .uvClose])).toOption.map
      (fun s => s.closing) = some true := by decide +kernel
  obtain ⟨s', hrun, -⟩ := ran hseen
  obtain ⟨s, h, h'⟩ := run_append_ok.mp hrun
  have hdone : (run step start leaving).toOption.map
      (fun s => decide (Act.shutdownCb 0 ∈ s.trace)) = some true := by decide +kernel
  obtain ⟨m, hm, hmem⟩ := ran hdone
  rw [h] at hm
  cases hm
  exact ⟨s, s', h, h', nothing_is_sent_after_the_shutdown h (by simpa using hmem) h'⟩

/-- Libuv comes back to a shutdown that was asked of a made connection. -/
structure ShutWake (s : Stream) : Prop where
  made : s.connectReq = false ∧ (s.fd = true ∨ s.closing = true)
  fine : ∀ error, s.control = .connected error → 0 ≤ error
  wakes : s.shutdownReq = true → s.closing = true ∨ s.pending = true ∨ s.writeQueue ≠ [] ∨
    s.control.due = true ∨ ∃ pq, s.control = .calling pq .io

theorem ShutWake.keep {s s' : Stream} (hw : ShutWake s) (hreq : s'.connectReq = s.connectReq)
    (hfd : s'.fd = s.fd) (hcl : s'.closing = s.closing)
    (hfine : ∀ error, s'.control = .connected error → s.control = .connected error)
    (hshutdown : s'.shutdownReq = s.shutdownReq) (hpending : s.pending = true → s'.pending = true)
    (hqueue : s.writeQueue ≠ [] → s'.writeQueue ≠ [])
    (hdue : s.control.due = true ∨ (∃ pq, s.control = .calling pq .io) → s.closing = true ∨
      s'.writeQueue ≠ [] ∨ s'.control.due = true ∨ ∃ pq, s'.control = .calling pq .io) :
    ShutWake s' where
  made := by rw [hreq, hfd, hcl]; exact hw.made
  fine := fun error h => hw.fine error (hfine error h)
  wakes := by
    rw [hshutdown, hcl]
    intro h
    rcases hw.wakes h with h | h | h | h
    · exact .inl h
    · exact .inr (.inl (hpending h))
    · exact .inr (.inr (.inl (hqueue h)))
    · rcases hdue h with h | h
      · exact .inl h
      · exact .inr (.inr h)

theorem shutWake_of_closing {s : Stream} (hcl : s.closing = true) (hreq : s.connectReq = false)
    (hfine : ∀ error, s.control = .connected error → 0 ≤ error) : ShutWake s :=
  ⟨⟨hreq, .inr hcl⟩, hfine, fun _ => .inl hcl⟩

theorem shutWake_moved {s s' : Stream} {e : Event} (hs : Flags s) (hw : ShutWake s)
    (h : Moved s e s') : ShutWake s' := by
  obtain ⟨hreq, hopen⟩ := hw.made
  have hclosing : s.fd = false → s.closing = true := fun hfd => by simpa [hfd] using hopen
  -- a write is accepted only before the shutdown is asked for
  have hfree : s.writable = true → s.shutdownReq = true → False := fun hwr hsh => by
    simp [(hs.shutting hsh).2.1] at hwr
  cases h with
  | connects delayedError hfd hcl hd => simp [hfd, hcl] at hopen
  | opens hfd hcl hreq => simp [hfd, hcl] at hopen
  | refuses id bufs err hw' herr =>
    exact hw.keep rfl rfl rfl (fun _ h => h) rfl (fun h => h) (fun h => h) fun h => .inr (.inr h)
  | queues id bufs hbufs hw' hreq' => simp [hreq] at hreq'
  | writes id bufs answers _ hbufs hw' hreq' hsize h =>
    obtain ⟨_, _, _, _, _, _, rfl⟩ := h.same
    exact ⟨hw.made, hw.fine, fun h => (hfree hw' h).elim⟩
  | waits id bufs hbufs hw' hreq' => exact ⟨hw.made, hw.fine, fun h => (hfree hw' h).elim⟩
  | startsReading hr =>
    exact hw.keep rfl rfl rfl (fun _ h => h) rfl (fun h => h) (fun h => h) fun h => .inr (.inr h)
  | stopsReading =>
    exact hw.keep rfl rfl rfl (fun _ h => h) rfl (fun h => h) (fun h => h) fun h => .inr (.inr h)
  | shutsDown hw' hshut hreq' =>
    refine ⟨hw.made, hw.fine, fun _ => ?_⟩
    by_cases hq : s.writeQueue = []
    · exact .inr (.inl (by simp [hq]))
    · exact .inr (.inr (.inl hq))
  | closes hcl => exact shutWake_of_closing rfl hreq hw.fine
  | staysConnecting e pending ev hc h hreq' => simp [hreq] at hreq'
  | connected e pending ev error pollout hc h hreq' herr hsource hout hstays => simp [hreq] at hreq'
  | reads e pending ev hc h hreq hin =>
    cases h with
    | poll ev soError hfd hout =>
      exact hw.keep rfl rfl rfl (by simp [Stream.goto]) rfl (fun h => h) (fun h => h)
        (by simp [hc, Control.due])
    | pending soError hp => simp at hin
  | ready e pending ev hc h hreq =>
    cases h with
    | poll ev soError hfd hout =>
      exact hw.keep rfl rfl rfl (by simp [Stream.goto]) rfl (fun h => h) (fun h => h)
        (by simp [hc, Control.due])
    | pending soError hp =>
      exact ⟨⟨hreq, hopen⟩, by simp [Stream.goto], fun _ => .inr (.inr (.inr (.inl rfl)))⟩
  | destroysConnecting hc hcl hclosed hreq' => simp [hreq] at hreq'
  | destroys hc hcl hclosed hreq =>
    exact shutWake_of_closing hcl hreq (by simp [Stream.callbacks, Stream.goto])
  | readOne answer count ev _ hc hr h =>
    cases h <;>
      exact hw.keep rfl rfl rfl (by simp [Stream.goto]) rfl (fun h => h) (fun h => h)
        (by simp [hc, Control.due])
  | called req pq after hc =>
    refine hw.keep rfl rfl rfl (by simp [Stream.goto]) rfl (fun h => h) (fun h => h) ?_
    rw [hc]
    rintro (h | ⟨_, h⟩) <;> cases h
    exact .inr (.inr (.inr ⟨pq, rfl⟩))
  | connectFailed soError error hc herr =>
    have := hw.fine error hc
    omega
  | connectReturned soError error hc h =>
    have hfine := hw.fine error hc
    refine hw.keep rfl rfl rfl (by simp [Stream.goto]) rfl (fun h => h) (fun h => h) ?_
    rw [hc]
    rintro (h | ⟨_, h⟩)
    · simp only [Control.due, decide_eq_true_eq] at h
      omega
    · cases h
  | readEnded soError count ev hc =>
    exact hw.keep rfl rfl rfl (by simp [Stream.goto]) rfl (fun h => h) (fun h => h)
      (by simp [hc, Control.due])
  | readFailed soError ev hc =>
    exact hw.keep rfl rfl rfl (by simp [Stream.goto]) rfl (fun h => h) (fun h => h)
      (by simp [hc, Control.due])
  | readClosed soError ev hc hfd =>
    exact hw.keep rfl rfl rfl (by simp [Stream.goto]) rfl (fun h => h) (fun h => h) fun _ =>
      .inl (hclosing hfd)
  | hangsUp soError ev hc hr =>
    refine hw.keep rfl rfl rfl (by simp [Stream.goto]) rfl (fun h => h) (fun h => h) ?_
    rw [hc]
    rintro (h | ⟨_, h⟩)
    · exact .inr (.inr (.inl h))
    · cases h
  | goesOn soError ev hc =>
    refine hw.keep rfl rfl rfl (by simp [Stream.goto]) rfl (fun h => h) (fun h => h) ?_
    rw [hc]
    rintro (h | ⟨_, h⟩)
    · exact .inr (.inr (.inl h))
    · cases h
  | ioWrites soError ev answers _ hc hfd h =>
    obtain ⟨_, _, _, _, _, _, rfl⟩ := h.same
    exact ⟨⟨hreq, hopen⟩, by simp [Stream.callbacks, Stream.goto],
      fun _ => .inr (.inr (.inr (.inr ⟨_, rfl⟩)))⟩
  | ioEnds soError ev hc h =>
    refine hw.keep rfl rfl rfl (by simp [Stream.goto]) rfl (fun h => h) (fun h => h) ?_
    rw [hc]
    rintro (hdue | ⟨_, hdue⟩)
    · refine .inl (hclosing (h.resolve_right fun hno => ?_))
      simp [Control.due, hno] at hdue
    · cases hdue
  | drains soError s₁ hc hq h =>
    have hno := h.asks.2.2
    obtain ⟨_, _, _, _, rfl⟩ := h.same
    exact ⟨⟨hreq, hopen⟩, by simp [Stream.goto], fun h => by simp [Stream.goto, hno] at h⟩
  | returns soError after hc h =>
    refine hw.keep rfl rfl rfl (by simp [Stream.goto]) rfl (fun h => h) (fun h => h) ?_
    rw [hc]
    rintro (hdue | ⟨_, hdue⟩) <;> cases hdue
    rcases h with h | ⟨-, h⟩
    · cases h
    · exact .inr (.inl h)
  | closed soError s₁ hc h =>
    have hno := h.asks.2.2
    obtain ⟨_, _, _, _, rfl⟩ := h.same
    exact ⟨⟨hreq, hopen⟩, by simp [Stream.goto], fun h => by simp [Stream.log, Stream.goto, hno] at h⟩

theorem Moved.shutdown {s s' : Stream} (h : Moved s .uvShutdown s') :
    s.writable = true ∧ s.shutdownReq = false := by
  cases h with
  | shutsDown hw hshut hreq => exact ⟨hw, hreq⟩
  | staysConnecting _ pending ev hc h hreq => cases h
  | connected _ pending ev error pollout hc h hreq herr hsource hout hstays => cases h
  | reads _ pending ev hc h hreq hin => cases h
  | ready _ pending ev hc h hreq => cases h

/-- A shutdown that is asked for when the connection is made is never forgotten: between two events of
the loop it waits only for writes, for a close, or for its turn. -/
theorem a_shutdown_of_a_made_connection_is_never_forgotten {s s₁ s' : Stream} {es fs : List Event}
    (h : run step start es = .ok s) (hreq : s.connectReq = false)
    (hfine : ∀ error, s.control = .connected error → 0 ≤ error) (hask : step s .uvShutdown = .ok s₁)
    (h' : run step s₁ fs = .ok s') (hidle : s'.control = .idle) (hwaits : s'.shutdownReq = true) :
    s'.closing = true ∨ s'.pending = true ∨ s'.writeQueue ≠ [] := by
  have hs := sound_run h
  have hm := of_gives (moved hs .uvShutdown) hask
  obtain ⟨hw, hno⟩ := hm.shutdown
  have hwake : ShutWake s :=
    ⟨⟨hreq, .inl (hs.flags.writable hw)⟩, hfine, fun h => by simp [hno] at h⟩
  have hstart : Sound s₁ ∧ ShutWake s₁ := ⟨sound_moved hs hm, shutWake_moved hs.flags hwake hm⟩
  have hrun : Sound s' ∧ ShutWake s' := by
    refine run_keeps (P := fun s => Sound s ∧ ShutWake s) hstart ?_ h'
    rintro s e s' ⟨hs, hw⟩ hstep
    have hm := of_gives (moved hs e) hstep
    exact ⟨sound_moved hs hm, shutWake_moved hs.flags hw hm⟩
  rcases hrun.2.wakes hwaits with h | h | h | h | ⟨pq, h⟩
  · exact .inl h
  · exact .inr (.inl h)
  · exact .inr (.inr h)
  · simp [hidle, Control.due] at h
  · simp [hidle] at h

theorem the_shutdown_of_leaving_waits_for_the_write :
    ∃ s s₁, run step start (leaving.take 2) = .ok s ∧ step s .uvShutdown = .ok s₁ ∧
      (s₁.closing = true ∨ s₁.pending = true ∨ s₁.writeQueue ≠ []) := by
  have hbefore : (run step start (leaving.take 2)).toOption.map
      (fun s => (s.connectReq, s.control)) = some (false, .idle) := by decide +kernel
  have hseen : (run step start (leaving.take 3)).toOption.map
      (fun s => (s.control, s.shutdownReq)) = some (.idle, true) := by decide +kernel
  obtain ⟨s, h, hview⟩ := ran hbefore
  obtain ⟨s₁, hrun, hview₁⟩ := ran hseen
  obtain ⟨m, hm, hask⟩ := run_snoc_ok.mp (show run step start (leaving.take 2 ++ [.uvShutdown]) =
    .ok s₁ from hrun)
  rw [h] at hm
  cases hm
  simp only [Prod.mk.injEq] at hview hview₁
  refine ⟨s, s₁, h, hask, a_shutdown_of_a_made_connection_is_never_forgotten h hview.1 ?_ hask
    (run_nil : run step s₁ [] = .ok s₁) hview₁.1 hview₁.2⟩
  simp [hview.2]

-- a shutdown that is asked for before the connection is made may be forgotten: here nothing is left
-- that libuv would come back for
example : (run step start [.uvConnect 0, .uvShutdown, .runPending 0, .resume [] 0]).toOption.map
    (fun s => (s.shutdownReq, s.pollout, s.pending, s.writeQueue, s.control)) =
      some (true, false, false, [], .idle) := by decide +kernel

end linuxc.uv_stream
