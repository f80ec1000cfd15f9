-- No send is forgotten: a handle that is pending will be looked at, and the
-- trace of a handle says whether it is.
import Linuxc.UvAsyncQueues

namespace linuxc.async

open event_runs slots

/-! ## Pending handles are looked at -/

/-- While the loop has not been told to stop: an open handle that is pending is closing, or has a thread
that is about to write for it; or the eventfd is readable, or the loop has read it and has yet to look at
the handle. -/
structure Awake (l : Loop) : Prop where
  reading : l.control = .reading → 0 < l.fd.getD 0
  awake : l.control ≠ .stopping → l.control ≠ .stopped → ∀ h, (l.handles h).phase = .opened →
    (l.handles h).pending = true →
    l.spinning = some h ∨ 0 < l.writers h ∨ 0 < l.fd.getD 0 ∨ l.control = .moving ∨ h ∈ l.queue

theorem awake_start (n : Nat) : Awake (start n) where
  reading hcontrol := by cases hcontrol
  awake _ _ h hphase := by cases hphase

section awake

variable {l l' : Loop} {h : Nat}

theorem awake_sends (ha : Awake l) (hs : Sends l l') : Awake l' where
  reading hcontrol := by
    rw [hs.control] at hcontrol
    exact hs.readable (ha.reading hcontrol)
  awake hstopping hstopped h hphase hpending := by
    rw [hs.control] at hstopping hstopped ⊢
    rw [hs.phase] at hphase
    rw [hs.spinning, hs.queue]
    rcases hs.awake h hpending with ⟨hbefore, hle⟩ | hw | hfd
    · rcases ha.awake hstopping hstopped h hphase hbefore with hspin | hw | hfd | hwhere
      · exact .inl hspin
      · exact .inr (.inl (Nat.lt_of_lt_of_le hw hle))
      · exact .inr (.inr (.inl (hs.readable hfd)))
      · exact .inr (.inr (.inr hwhere))
    · exact .inr (.inl hw)
    · exact .inr (.inr (.inl hfd))

theorem awake_moved {e : Event} (hl : Listed l) (ha : Awake l) (hm : Moved l e l') : Awake l' := by
  have hsends : e.sends = true → Awake l' := fun he => awake_sends ha (sends_moved hm he)
  cases hm with
  | opened h async_cb hspin hcontrol hphase =>
    refine ⟨ha.reading, fun hstopping hstopped h' hphase' hpending => ?_⟩
    have hne : h' ≠ h := by
      rintro rfl
      have hset : false = true := (congrArg Handle.pending (if_pos rfl)).symm.trans hpending
      cases hset
    have hsame : (l.init h async_cb).handles h' = l.handles h' := setHandle_ne hne
    rw [hsame] at hphase' hpending
    exact ha.awake hstopping hstopped h' hphase' hpending
  | closing h hspin hcontrol hphase =>
    refine ⟨ha.reading, fun hstopping hstopped h' hphase' hpending => ?_⟩
    by_cases hne : h' = h
    · exact .inl (congrArg some hne.symm)
    · have hsame : (l.spin h).handles h' = l.handles h' := setHandle_ne hne
      rw [hsame] at hphase' hpending
      exact .inr ((ha.awake hstopping hstopped h' hphase' hpending).resolve_left (by simp [hspin]))
  | closed h hspin hbusy hcontrol =>
    refine ⟨ha.reading, fun hstopping hstopped h' hphase' hpending => ?_⟩
    have hne : h' ≠ h := by
      rintro rfl
      have hclosed : Phase.closed = .opened := (congrArg Handle.phase (if_pos rfl)).symm.trans hphase'
      cases hclosed
    have hsame := @setHandle_ne l h h' { l.handles h with phase := .closed } hne
    rcases ha.awake hstopping hstopped h' ((congrArg Handle.phase hsame).symm.trans hphase')
      ((congrArg Handle.pending hsame).symm.trans hpending) with hspin' | hw | hfd | hmoving | hmem
    · exact absurd (Option.some.inj (hspin'.symm.trans hspin)) hne
    · exact .inr (.inl hw)
    · exact .inr (.inr (.inl hfd))
    · exact .inr (.inr (.inr (.inl hmoving)))
    · exact .inr (.inr (.inr (.inr (List.mem_filter.mpr ⟨hmem, by simpa using hne⟩))))
  | silenced h hspin hbusy hcontrol =>
    exact ⟨ha.reading, fun hstopping => absurd hcontrol hstopping⟩
  | polled hspin hcontrol hfd => exact ⟨fun _ => hfd, fun _ _ _ _ _ => .inr (.inr (.inl hfd))⟩
  | read hcontrol =>
    exact ⟨fun h => (by cases h), fun _ _ _ _ _ => .inr (.inr (.inr (.inl rfl)))⟩
  | moved hcontrol =>
    refine ⟨fun h => (by cases h), fun _ _ h hphase _ => .inr (.inr (.inr (.inr ?_)))⟩
    have hmem := (hl.opened h).mpr hphase
    rwa [hl.empty (by simp [hcontrol]) (by simp [hcontrol])] at hmem
  | visited h queue acts hspin hcontrol hqueue hacts =>
    refine ⟨fun hreading => absurd (hcontrol.symm.trans hreading) (by simp),
      fun hstopping hstopped h' hphase hpending => ?_⟩
    have hne : h' ≠ h := by
      rintro rfl
      have hset : false = true := (congrArg Handle.pending (if_pos rfl)).symm.trans hpending
      cases hset
    have hsame := @setHandle_ne l h h' { l.handles h with pending := false } hne
    rcases ha.awake hstopping hstopped h' ((congrArg Handle.phase hsame).symm.trans hphase)
      ((congrArg Handle.pending hsame).symm.trans hpending) with hspin' | hw | hfd | hmoving | hmem
    · exact .inl hspin'
    · exact .inr (.inl hw)
    · exact .inr (.inr (.inl hfd))
    · exact .inr (.inr (.inr (.inl hmoving)))
    · rw [hqueue] at hmem
      exact .inr (.inr (.inr (.inr ((List.mem_cons.mp hmem).resolve_left hne))))
  | ended hspin hcontrol hqueue =>
    refine ⟨fun h => (by cases h), fun _ _ h hphase hpending => ?_⟩
    rcases ha.awake (by simp [hcontrol]) (by simp [hcontrol]) h hphase hpending
      with hspin' | hw | hfd | hmoving | hmem
    · exact .inl hspin'
    · exact .inr (.inl hw)
    · exact .inr (.inr (.inl hfd))
    · exact absurd (hcontrol.symm.trans hmoving) (by simp)
    · rw [hqueue] at hmem
      cases hmem
  | stopping hspin hcontrol hfd => exact ⟨fun h => (by cases h), fun hstopping => absurd rfl hstopping⟩
  | silencing h queue hspin hcontrol hqueue =>
    exact ⟨fun hreading => absurd (hcontrol.symm.trans hreading) (by simp),
      fun hstopping => absurd hcontrol hstopping⟩
  | stopped hspin hcontrol hqueue => exact ⟨fun h => (by cases h), fun _ hstopped => absurd rfl hstopped⟩
  | _ => exact hsends rfl

end awake

/-! ## What has been seen -/

/-- Whether a handle waits for its callback, after an act more. -/
def ring (h : Nat) (waits : Bool) : Act → Bool
  | .opened h' => if h' = h then false else waits
  | .sent h' => if h' = h then true else waits
  | .called h' => if h' = h then false else waits
  | _ => waits

/-- A send of the handle has not been answered by a callback. -/
def rung (h : Nat) (trace : List Act) : Bool := trace.foldl (ring h) false

theorem rung_append (h : Nat) (trace : List Act) (act : Act) :
    rung h (trace ++ [act]) = ring h (rung h trace) act := by
  simp [rung, List.foldl_append]

/-- The trace and the state tell the same. A callback comes only when a send waits for it; and neither
a callback nor a write comes for a handle that is closed, or after the loop has stopped. -/
structure Traced (l : Loop) : Prop where
  waits : ∀ h, (l.handles h).phase = .opened → (l.handles h).async_cb = true → l.spinning ≠ some h →
    l.control ≠ .stopping → l.control ≠ .stopped → (l.handles h).pending = rung h l.trace
  closed : ∀ h, .closed h ∈ l.trace ↔ (l.handles h).phase = .closed
  stopped : .stopped ∈ l.trace ↔ l.control = .stopped
  called : Each (fun before act => ∀ h, act = .called h →
    rung h before = true ∧ .closed h ∉ before ∧ .stopped ∉ before) l.trace
  wrote : Each (fun before act => ∀ h, act = .wrote h → .closed h ∉ before ∧ .stopped ∉ before) l.trace

theorem traced_start (n : Nat) : Traced (start n) where
  waits _ hphase := by cases hphase
  closed h := by simp [start]
  stopped := by simp [start]
  called := each_nil
  wrote := each_nil

section traced

variable {l l' m : Loop} {t h : Nat} {act : Act}

theorem not_closed_of_opened (ht : Traced l) (hphase : (l.handles h).phase = .opened) :
    .closed h ∉ l.trace := by
  intro hmem
  rw [ht.closed h, hphase] at hmem
  cases hmem

theorem not_stopped (ht : Traced l) (hcontrol : l.control ≠ .stopped) : .stopped ∉ l.trace :=
  fun hmem => hcontrol (ht.stopped.mp hmem)

/-- A step without an act. -/
theorem traced_same (ht : Traced l) (htrace : l'.trace = l.trace)
    (hphase : ∀ h, (l'.handles h).phase = (l.handles h).phase)
    (hstopped : l'.control = .stopped ↔ l.control = .stopped)
    (hrung : ∀ h, (l'.handles h).phase = .opened → (l'.handles h).async_cb = true →
      l'.spinning ≠ some h → l'.control ≠ .stopping → l'.control ≠ .stopped →
      (l'.handles h).pending = rung h l.trace) : Traced l' where
  waits h := by
    rw [htrace]
    exact hrung h
  closed h := by rw [htrace, hphase, ht.closed h]
  stopped := by rw [htrace, hstopped, ht.stopped]
  called := by
    rw [htrace]
    exact ht.called
  wrote := by
    rw [htrace]
    exact ht.wrote

/-- A step with an act that is no callback, no write and no end. -/
theorem traced_log (ht : Traced l) (htrace : l'.trace = l.trace ++ [act])
    (hcalled : ∀ h, act ≠ .called h) (hwrote : ∀ h, act ≠ .wrote h)
    (hclosed : ∀ h, (l'.handles h).phase = .closed ↔ (l.handles h).phase = .closed ∨ act = .closed h)
    (hstopped : l'.control = .stopped ↔ l.control = .stopped ∨ act = .stopped)
    (hrung : ∀ h, (l'.handles h).phase = .opened → (l'.handles h).async_cb = true →
      l'.spinning ≠ some h → l'.control ≠ .stopping → l'.control ≠ .stopped →
      (l'.handles h).pending = ring h (rung h l.trace) act) : Traced l' where
  waits h := by
    rw [htrace, rung_append]
    exact hrung h
  closed h := by
    rw [htrace, List.mem_append, List.mem_singleton, ht.closed h, hclosed]
    exact or_congr Iff.rfl eq_comm
  stopped := by
    rw [htrace, List.mem_append, List.mem_singleton, ht.stopped, hstopped]
    exact or_congr Iff.rfl eq_comm
  called := by
    rw [htrace]
    exact each_concat ht.called fun h hact => absurd hact (hcalled h)
  wrote := by
    rw [htrace]
    exact each_concat ht.wrote fun h hact => absurd hact (hwrote h)

/-- The trace of a handle that is left as it is, when the act is not about it. -/
theorem waits_of (ht : Traced l) (hsame : (m.handles h) = l.handles h)
    (hring : ∀ waits, ring h waits act = waits) (hspin : l.spinning ≠ some h)
    (hstopping : l.control ≠ .stopping) (hstopped : l.control ≠ .stopped)
    (hphase : (m.handles h).phase = .opened) (hcb : (m.handles h).async_cb = true) :
    (m.handles h).pending = ring h (rung h l.trace) act := by
  rw [hsame] at hphase hcb ⊢
  rw [hring]
  exact ht.waits h hphase hcb hspin hstopping hstopped

theorem traced_visited {queue : List Nat} {acts : List Act} (hl : Listed l) (ht : Traced l)
    (hspin : l.spinning = none) (hcontrol : l.control = .visiting) (hqueue : l.queue = h :: queue)
    (hacts : acts = if (l.handles h).pending ∧ (l.handles h).async_cb then [.called h] else []) :
    Traced { l.setHandle h { l.handles h with pending := false } with
      queue
      async_handles := l.async_handles ++ [h]
      trace := l.trace ++ acts } := by
  have hopened : (l.handles h).phase = .opened := (hl.opened h).mp (by simp [hqueue])
  have hself := @setHandle_self l h { l.handles h with pending := false }
  have hphase : ∀ h', ((l.setHandle h { l.handles h with pending := false }).handles h').phase =
      (l.handles h').phase := fun h' => setHandle_same Handle.phase rfl
  have hwaits : (l.handles h).async_cb = true → (l.handles h).pending = rung h l.trace := fun hcb =>
    ht.waits h hopened hcb (by simp [hspin]) (by simp [hcontrol]) (by simp [hcontrol])
  by_cases hcalled : (l.handles h).pending ∧ (l.handles h).async_cb
  · rw [if_pos hcalled] at hacts
    subst hacts
    refine ⟨fun h' hphase' hcb hspin' hstopping hstopped => ?_, fun h' => ?_, ?_, ?_, ?_⟩
    · rw [rung_append]
      by_cases hne : h' = h
      · subst hne
        simp only [ring, if_pos]
        exact congrArg Handle.pending hself
      · exact waits_of ht (setHandle_ne hne) (fun _ => if_neg (Ne.symm hne)) hspin' hstopping hstopped
          hphase' hcb
    · rw [hphase, ← ht.closed h']
      simp
    · change .stopped ∈ l.trace ++ [Act.called h] ↔ l.control = .stopped
      rw [← ht.stopped]
      simp
    · refine each_concat ht.called fun h' hact => ?_
      obtain rfl : h = h' := Act.called.inj hact
      exact ⟨(hwaits hcalled.2).symm.trans hcalled.1, not_closed_of_opened ht hopened,
        not_stopped ht (by simp [hcontrol])⟩
    · exact each_concat ht.wrote fun h' hact => by cases hact
  · rw [if_neg hcalled] at hacts
    subst hacts
    refine traced_same ht (List.append_nil _) hphase Iff.rfl fun h' hphase' hcb hspin' hstopping hstopped => ?_
    by_cases hne : h' = h
    · subst hne
      have hcb' : (l.handles h').async_cb = true := (congrArg Handle.async_cb hself).symm.trans hcb
      rw [← hwaits hcb']
      have hclear : (l.handles h').pending = false := by
        by_contra hset
        exact hcalled ⟨by simpa using hset, hcb'⟩
      exact (congrArg Handle.pending hself).trans hclear.symm
    · have hsame := @setHandle_ne l h h' { l.handles h with pending := false } hne
      rw [← ht.waits h' ((hphase h').symm.trans hphase') ((congrArg Handle.async_cb hsame).symm.trans hcb)
        hspin' hstopping hstopped]
      exact congrArg Handle.pending hsame

/-- A thread goes on, and changes nothing but the busy flag of its handle. -/
theorem traced_busy (ht : Traced l) (busy : Nat) (sender : Sender) :
    Traced ((l.setHandle h { l.handles h with busy }).setThread t sender) := by
  refine traced_same ht rfl (fun _ => setHandle_same Handle.phase rfl) Iff.rfl
    fun h' hphase hcb hspin hstopping hstopped => ?_
  have hphase' : (l.handles h').phase = .opened :=
    (@setHandle_same l h h' { l.handles h with busy } _ Handle.phase rfl).symm.trans hphase
  have hcb' : (l.handles h').async_cb = true :=
    (@setHandle_same l h h' { l.handles h with busy } _ Handle.async_cb rfl).symm.trans hcb
  rw [← ht.waits h' hphase' hcb' hspin hstopping hstopped]
  exact setHandle_same Handle.pending rfl

theorem traced_exchanged (ht : Traced l) : Traced (l.exchange t h) := by
  refine traced_log ht rfl (by simp) (by simp) (fun h' => ?_) (by simp [Loop.exchange, Loop.log,
    Loop.setThread, Loop.setHandle]) fun h' hphase hcb hspin hstopping hstopped => ?_
  · have hphase : ((l.exchange t h).handles h').phase = (l.handles h').phase :=
      setHandle_same Handle.phase rfl
    rw [hphase]
    simp
  · by_cases hne : h' = h
    · subst hne
      simp only [ring, if_pos]
      exact congrArg Handle.pending (if_pos rfl)
    · exact waits_of ht (setHandle_ne hne) (fun _ => if_neg (Ne.symm hne)) hspin hstopping hstopped hphase hcb

theorem traced_wrote {n : Nat} (hq : Quieted l) (ht : Traced l) (hthread : l.threads[t]? = some (.writing h))
    (hfd : l.fd ≠ none) : Traced (({ l with fd := some n }.setThread t (.leaving h)).log (.wrote h)) := by
  have hwriter : 0 < l.writers h := countP_pos hthread (by simp [Sender.writes])
  have hclosed : .closed h ∉ l.trace := by
    intro hmem
    have := (hq.closed h ((ht.closed h).mp hmem)).2
    omega
  have hstopped : .stopped ∉ l.trace := fun hmem => hfd (hq.off (ht.stopped.mp hmem))
  refine ⟨fun h' hphase hcb hspin hstopping hstopped => ?_, fun h' => ?_, ?_, ?_, ?_⟩
  · change _ = rung h' (l.trace ++ [_])
    rw [rung_append]
    exact ht.waits h' hphase hcb hspin hstopping hstopped
  · have := ht.closed h'
    simpa [Loop.log, Loop.setThread] using this
  · have := ht.stopped
    simpa [Loop.log, Loop.setThread] using this
  · exact each_concat ht.called fun h' hact => by cases hact
  · refine each_concat ht.wrote fun h' hact => ?_
    obtain rfl : h = h' := Act.wrote.inj hact
    exact ⟨hclosed, hstopped⟩

theorem traced_moved {e : Event} (hl : Listed l) (hq : Quieted l) (ht : Traced l) (hm : Moved l e l') :
    Traced l' := by
  cases hm with
  | coalesced t h hthread hphase hpending =>
    refine traced_log ht rfl (by simp) (by simp) (by simp [Loop.log]) (by simp [Loop.log])
      fun h' hphase' hcb hspin hstopping hstopped => ?_
    by_cases hne : h' = h
    · subst hne
      simp only [ring, if_pos]
      exact hpending
    · exact waits_of (m := l) ht rfl (fun _ => if_neg (Ne.symm hne)) hspin hstopping hstopped hphase' hcb
  | loaded t h hthread hphase => exact traced_same ht rfl (fun _ => rfl) Iff.rfl ht.waits
  | entered t h hthread => exact traced_busy ht _ _
  | exchanged t h hthread => exact traced_exchanged ht
  | wrote t h n hthread hfd hn => exact traced_wrote hq ht hthread hfd
  | left t h hthread => exact traced_busy ht _ _
  | opened h async_cb hspin hcontrol hphase =>
    refine traced_log ht rfl (by simp) (by simp) (fun h' => ?_)
      (by simp [Loop.init, Loop.log, Loop.setHandle]) fun h' hphase' hcb hspin' hstopping hstopped => ?_
    · by_cases hne : h' = h
      · subst hne
        simp [Loop.init, Loop.log, Loop.setHandle, hphase]
      · have hsame : (l.init h async_cb).handles h' = l.handles h' := setHandle_ne hne
        rw [hsame]
        simp
    · by_cases hne : h' = h
      · subst hne
        simp only [ring, if_pos]
        exact congrArg Handle.pending (if_pos rfl)
      · exact waits_of ht (setHandle_ne hne) (fun _ => if_neg (Ne.symm hne)) hspin' hstopping hstopped
          hphase' hcb
  | closing h hspin hcontrol hphase =>
    refine traced_same ht rfl (phase_spin l h) Iff.rfl fun h' hphase' hcb hspin' hstopping hstopped => ?_
    have hne : h' ≠ h := fun heq => hspin' (congrArg some heq.symm)
    have hsame : (l.spin h).handles h' = l.handles h' := setHandle_ne hne
    rw [hsame] at hphase' hcb ⊢
    exact ht.waits h' hphase' hcb (by simp [hspin]) hstopping hstopped
  | closed h hspin hbusy hcontrol =>
    refine traced_log ht rfl (by simp) (by simp) (fun h' => ?_) (by simp [Loop.log, Loop.setHandle])
      fun h' hphase' hcb hspin' hstopping hstopped => ?_
    · by_cases hne : h' = h
      · subst hne
        exact iff_of_true (congrArg Handle.phase (if_pos rfl)) (.inr rfl)
      · have hsame := @setHandle_ne l h h' { l.handles h with phase := .closed } hne
        have hact : Act.closed h ≠ .closed h' := fun heq => hne (Act.closed.inj heq).symm
        exact (iff_of_eq (congrArg (·.phase = .closed) hsame)).trans (or_iff_left hact).symm
    · have hne : h' ≠ h := by
        rintro rfl
        have hclosed : Phase.closed = .opened := (congrArg Handle.phase (if_pos rfl)).symm.trans hphase'
        cases hclosed
      refine waits_of ht (setHandle_ne hne) (fun _ => rfl) ?_ hstopping hstopped hphase' hcb
      rw [hspin]
      exact fun heq => hne (Option.some.inj heq).symm
  | silenced h hspin hbusy hcontrol =>
    exact traced_same ht rfl (fun _ => rfl) Iff.rfl fun _ _ _ _ hstopping => absurd hcontrol hstopping
  | polled hspin hcontrol hfd =>
    exact traced_same ht rfl (fun _ => rfl) (by simp [hcontrol]) fun h hphase hcb hspin' _ _ =>
      ht.waits h hphase hcb hspin' (by simp [hcontrol]) (by simp [hcontrol])
  | read hcontrol =>
    exact traced_same ht rfl (fun _ => rfl) (by simp [hcontrol]) fun h hphase hcb hspin' _ _ =>
      ht.waits h hphase hcb hspin' (by simp [hcontrol]) (by simp [hcontrol])
  | moved hcontrol =>
    exact traced_same ht rfl (fun _ => rfl) (by simp [hcontrol]) fun h hphase hcb hspin' _ _ =>
      ht.waits h hphase hcb hspin' (by simp [hcontrol]) (by simp [hcontrol])
  | visited h queue acts hspin hcontrol hqueue hacts =>
    exact traced_visited hl ht hspin hcontrol hqueue hacts
  | ended hspin hcontrol hqueue =>
    exact traced_same ht rfl (fun _ => rfl) (by simp [hcontrol]) fun h hphase hcb hspin' _ _ =>
      ht.waits h hphase hcb hspin' (by simp [hcontrol]) (by simp [hcontrol])
  | stopping hspin hcontrol hfd =>
    exact traced_same ht rfl (fun _ => rfl) (by simp [hcontrol]) fun _ _ _ _ hstopping => absurd rfl hstopping
  | silencing h queue hspin hcontrol hqueue =>
    exact traced_same ht rfl (phase_spin _ h) Iff.rfl fun _ _ _ _ hstopping => absurd hcontrol hstopping
  | stopped hspin hcontrol hqueue =>
    exact traced_log ht rfl (by simp) (by simp) (by simp [Loop.log]) (by simp [Loop.log])
      fun _ _ _ _ _ hstopped => absurd rfl hstopped

end traced

/-! ## Runs -/

/-- All that holds of the loop and the threads between their steps. -/
structure Sound (l : Loop) : Prop where
  busy : Busy l
  listed : Listed l
  quieted : Quieted l
  awake : Awake l
  traced : Traced l

theorem sound_start (n : Nat) : Sound (start n) :=
  ⟨busy_start n, listed_start n, quieted_start n, awake_start n, traced_start n⟩

theorem sound_moved {l l' : Loop} {e : Event} (hs : Sound l) (hm : Moved l e l') : Sound l' where
  busy := busy_moved hs.busy hm
  listed := listed_moved hs.listed hm
  quieted := quieted_moved hs.busy hs.listed hs.quieted hm
  awake := awake_moved hs.listed hs.awake hm
  traced := traced_moved hs.listed hs.quieted hs.traced hm

/-- Nobody writes to the eventfd when it is closed. -/
theorem no_writer {l : Loop} (hs : Sound l) (hfd : l.fd = none) (h : Nat) : l.writers h = 0 := by
  have hunused : (l.handles h).phase = .unused → l.writers h = 0 := by
    intro hphase
    have := hs.busy.known h hphase
    have := holds_le l h
    have := writers_le l h
    omega
  rcases hs.quieted.fd hfd with hstopped | hall
  · cases hphase : (l.handles h).phase with
    | unused => exact hunused hphase
    | opened => exact (hs.quieted.stopped hstopped h hphase).2
    | closed => exact (hs.quieted.closed h hphase).2
  · exact hunused (hall h)

theorem moved {l : Loop} (e : Event) (hs : Sound l) :
    Gives (· = .notNow) (step l e) fun l' => Sound l' ∧ Moved l e l' := by
  refine gives_mono (step.spec l e) ?_ fun l' hm => ⟨sound_moved hs hm, hm⟩
  rintro stop (rfl | ⟨-, hfd, h, hpos⟩)
  · rfl
  · have := no_writer hs hfd h
    omega

theorem sound_run {n : Nat} {es : List Event} {l : Loop} (h : run step (start n) es = .ok l) : Sound l :=
  run_keeps (sound_start n) (fun _ e _ hs hstep => (of_gives (moved e hs) hstep).1) h

end linuxc.async
