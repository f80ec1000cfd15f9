-- What the async handles keep while threads send: those that are open are in the
-- queues once, and one that is closed, or whose loop has stopped, has no thread
-- that could still write for it.
import Linuxc.UvAsyncSteps

namespace linuxc.async

open event_runs slots

/-! ## Steps of the threads -/

/-- It is a step of a thread in `uv_async_send`. -/
def Event.sends : Event → Bool
  | .load _ _ => true
  | .enter _ => true
  | .exchange _ => true
  | .write _ => true
  | .leave _ => true
  | _ => false

/-- What a step of a thread leaves of the loop: a thread comes to write only for a handle that was not
pending, and a handle that becomes pending has such a thread. -/
structure Sends (l l' : Loop) : Prop where
  control : l'.control = l.control
  spinning : l'.spinning = l.spinning
  queue : l'.queue = l.queue
  async_handles : l'.async_handles = l.async_handles
  phase : ∀ h, (l'.handles h).phase = (l.handles h).phase
  async_cb : ∀ h, (l'.handles h).async_cb = (l.handles h).async_cb
  pending : ∀ h, (l.handles h).pending = true → (l'.handles h).pending = true
  fd : l'.fd = none ↔ l.fd = none
  readable : 0 < l.fd.getD 0 → 0 < l'.fd.getD 0
  silent : ∀ h, (l.handles h).pending = true → l'.writers h ≤ l.writers h
  awake : ∀ h, (l'.handles h).pending = true →
    (l.handles h).pending = true ∧ l.writers h ≤ l'.writers h ∨ 0 < l'.writers h ∨ 0 < l'.fd.getD 0

section sends

variable {l l' m : Loop} {t h : Nat} {a b : Sender}

theorem writers_set (h : Nat) (ht : l.threads[t]? = some a) (hset : m.threads = l.threads.set t b) :
    m.writers h + (a.writes h).toNat = l.writers h + (b.writes h).toNat := by
  have hcount := countP_set (Sender.writes h) ht (b := b)
  unfold Loop.writers Loop.count
  rw [hset]
  exact hcount

/-- A thread goes on, and does not come to write nor leave off. -/
theorem sends_set (ht : l.threads[t]? = some a) (hset : l'.threads = l.threads.set t b)
    (hwrites : ∀ h, b.writes h = a.writes h) (hcontrol : l'.control = l.control)
    (hspinning : l'.spinning = l.spinning) (hqueue : l'.queue = l.queue)
    (hasync : l'.async_handles = l.async_handles) (hfd : l'.fd = l.fd)
    (hphase : ∀ h, (l'.handles h).phase = (l.handles h).phase)
    (hcb : ∀ h, (l'.handles h).async_cb = (l.handles h).async_cb)
    (hpending : ∀ h, (l'.handles h).pending = (l.handles h).pending) : Sends l l' := by
  have hwriters : ∀ h, l'.writers h = l.writers h := by
    intro h
    have := writers_set h ht hset
    rw [hwrites] at this
    omega
  refine ⟨hcontrol, hspinning, hqueue, hasync, hphase, hcb, fun h => ?_, by rw [hfd], ?_, fun h _ => ?_,
    fun h hp => .inl ⟨?_, ?_⟩⟩
  · rw [hpending]
    exact id
  · rw [hfd]
    exact id
  · exact Nat.le_of_eq (hwriters h)
  · rwa [hpending] at hp
  · exact Nat.le_of_eq (hwriters h).symm

theorem sends_moved {e : Event} (hm : Moved l e l') (he : e.sends = true) : Sends l l' := by
  cases hm with
  | coalesced t h ht hphase hpending =>
    exact ⟨rfl, rfl, rfl, rfl, fun _ => rfl, fun _ => rfl, fun _ => id, Iff.rfl, id,
      fun _ _ => Nat.le_refl _, fun _ hp => .inl ⟨hp, Nat.le_refl _⟩⟩
  | loaded t h ht hphase =>
    exact sends_set ht rfl (fun _ => rfl) rfl rfl rfl rfl rfl (fun _ => rfl) (fun _ => rfl) fun _ => rfl
  | entered t h ht =>
    exact sends_set ht rfl (fun _ => rfl) rfl rfl rfl rfl rfl (fun _ => setHandle_same Handle.phase rfl)
      (fun _ => setHandle_same Handle.async_cb rfl) fun _ => setHandle_same Handle.pending rfl
  | left t h ht =>
    exact sends_set ht rfl (fun _ => rfl) rfl rfl rfl rfl rfl (fun _ => setHandle_same Handle.phase rfl)
      (fun _ => setHandle_same Handle.async_cb rfl) fun _ => setHandle_same Handle.pending rfl
  | wrote t h n ht hfd hn =>
    have hwriters : ∀ h', (({ l with fd := some n }.setThread t (.leaving h)).log (.wrote h)).writers h' ≤
        l.writers h' := by
      intro h'
      have := writers_set (m := ({ l with fd := some n }.setThread t (.leaving h)).log (.wrote h)) h' ht rfl
      simp only [Sender.writes, Bool.toNat_false] at this
      omega
    refine ⟨rfl, rfl, rfl, rfl, fun _ => rfl, fun _ => rfl, fun _ => id, ?_, fun _ => hn,
      fun h' _ => hwriters h', fun _ _ => .inr (.inr hn)⟩
    exact ⟨fun h => absurd h (by simp [Loop.log, Loop.setThread]), fun h => absurd h hfd⟩
  | exchanged t h ht =>
    have hpending : ∀ h', (l.handles h').pending = true → ((l.exchange t h).handles h').pending = true := by
      intro h' hp
      by_cases hne : h' = h
      · subst hne
        exact congrArg Handle.pending (if_pos rfl)
      · exact (congrArg Handle.pending (setHandle_ne hne)).trans hp
    have hwriters := fun h' => writers_set (m := l.exchange t h) h' ht rfl
    refine ⟨rfl, rfl, rfl, rfl, fun _ => setHandle_same Handle.phase rfl,
      fun _ => setHandle_same Handle.async_cb rfl, hpending, Iff.rfl, id, fun h' hp => ?_, fun h' hp => ?_⟩
    · have := hwriters h'
      by_cases hset : (l.handles h).pending = true
      · rw [if_pos hset] at this
        exact Nat.le_of_eq this
      · have hne : h ≠ h' := by
          rintro rfl
          exact hset hp
        rw [if_neg hset] at this
        simp only [Sender.writes, hne, decide_false, Bool.toNat_false] at this
        omega
    · have := hwriters h'
      by_cases hset : (l.handles h).pending = true
      · rw [if_pos hset] at this
        refine .inl ⟨?_, Nat.le_of_eq this.symm⟩
        by_cases hne : h' = h
        · rw [hne]
          exact hset
        · exact (congrArg Handle.pending (setHandle_ne hne)).symm.trans hp
      · rw [if_neg hset] at this
        by_cases hne : h' = h
        · subst hne
          simp only [Sender.writes, decide_true, Bool.toNat_true, Bool.toNat_false] at this
          exact .inr (.inl (by omega))
        · refine .inl ⟨(congrArg Handle.pending (setHandle_ne hne)).symm.trans hp, ?_⟩
          simp only [Sender.writes, Ne.symm hne, decide_false, Bool.toNat_false] at this
          omega
  | _ => cases he

end sends

/-! ## The queue of handles -/

/-- The handles that are open are in the queues, once. The local queue is empty but while the loop goes
through it. The handle that the loop spins on is open, and is pending so that nobody comes to write. -/
structure Listed (l : Loop) : Prop where
  nodup : (l.queue ++ l.async_handles).Nodup
  opened : ∀ h, h ∈ l.queue ++ l.async_handles ↔ (l.handles h).phase = .opened
  empty : l.control ≠ .visiting → l.control ≠ .stopping → l.queue = []
  spinning : ∀ h, l.spinning = some h → (l.handles h).phase = .opened ∧ (l.handles h).pending = true ∧
    (l.control = .outside ∨ l.control = .visiting ∨ l.control = .stopping)

theorem listed_start (n : Nat) : Listed (start n) where
  nodup := List.nodup_nil
  opened h := by simp [start]
  empty _ _ := rfl
  spinning h hspin := by cases hspin

section listed

variable {l l' : Loop} {h : Nat}

theorem listed_sends (hl : Listed l) (hs : Sends l l') : Listed l' where
  nodup := by
    rw [hs.queue, hs.async_handles]
    exact hl.nodup
  opened h := by
    rw [hs.queue, hs.async_handles, hs.phase]
    exact hl.opened h
  empty := by
    rw [hs.queue, hs.control]
    exact hl.empty
  spinning h hspin := by
    rw [hs.spinning] at hspin
    obtain ⟨hphase, hpending, hcontrol⟩ := hl.spinning h hspin
    rw [hs.phase, hs.control]
    exact ⟨hphase, hs.pending h hpending, hcontrol⟩

/-- A handle that is looked at goes to the back of the other queue. -/
theorem perm_rotate {h : Nat} {queue handles : List Nat} :
    (queue ++ (handles ++ [h])).Perm (h :: queue ++ handles) := by
  rw [← List.append_assoc]
  exact List.perm_append_singleton h (queue ++ handles)

theorem listed_perm (hl : Listed l) (hperm : (l'.queue ++ l'.async_handles).Perm (l.queue ++ l.async_handles))
    (hphase : ∀ h, (l'.handles h).phase = (l.handles h).phase)
    (hempty : l'.control ≠ .visiting → l'.control ≠ .stopping → l'.queue = [])
    (hspinning : ∀ h, l'.spinning = some h → (l'.handles h).phase = .opened ∧
      (l'.handles h).pending = true ∧
      (l'.control = .outside ∨ l'.control = .visiting ∨ l'.control = .stopping)) : Listed l' where
  nodup := hperm.nodup_iff.mpr hl.nodup
  opened h := by rw [hperm.mem_iff, hphase, hl.opened h]
  empty := hempty
  spinning := hspinning

theorem phase_spin (l : Loop) (h h' : Nat) : ((l.spin h).handles h').phase = (l.handles h').phase :=
  @setHandle_same l h h' { l.handles h with pending := true } _ Handle.phase rfl

theorem pending_spin (l : Loop) (h : Nat) : ((l.spin h).handles h).pending = true :=
  congrArg Handle.pending (if_pos rfl)

theorem listed_opened {async_cb : Bool} (hl : Listed l) (hspin : l.spinning = none)
    (hphase : (l.handles h).phase = .unused) : Listed (l.init h async_cb) := by
  have hnot : h ∉ l.queue ++ l.async_handles := by
    intro hmem
    have := (hl.opened h).mp hmem
    rw [hphase] at this
    cases this
  have hlists : (l.init h async_cb).queue ++ (l.init h async_cb).async_handles =
      (l.queue ++ l.async_handles) ++ [h] := by
    rw [List.append_assoc]
    rfl
  refine ⟨?_, fun h' => ?_, hl.empty, fun h' hspin' => ?_⟩
  · rw [hlists]
    refine List.nodup_append.mpr ⟨hl.nodup, by simp, fun h' hmem h'' hsingle => ?_⟩
    obtain rfl := List.mem_singleton.mp hsingle
    exact ne_of_mem_of_not_mem hmem hnot
  · rw [hlists, List.mem_append, List.mem_singleton, hl.opened h']
    by_cases hne : h' = h
    · subst hne
      exact iff_of_true (.inr rfl) (congrArg Handle.phase (if_pos rfl))
    · have hsame : ((l.init h async_cb).handles h').phase = (l.handles h').phase :=
        congrArg Handle.phase (setHandle_ne hne)
      rw [hsame]
      exact or_iff_left hne
  · exact absurd (hspin.symm.trans hspin') (by simp)

theorem listed_closed (hl : Listed l) (hspin : l.spinning = some h) (hcontrol : l.control ≠ .stopping) :
    Listed (({ l with
      spinning := none
      async_handles := l.async_handles.filter (· ≠ h)
      queue := l.queue.filter (· ≠ h) }.setHandle h { l.handles h with phase := .closed }).log (.closed h)) := by
  refine ⟨?_, fun h' => ?_, fun hv _ => ?_, fun h' hspin' => by cases hspin'⟩
  · change (l.queue.filter (· ≠ h) ++ l.async_handles.filter (· ≠ h)).Nodup
    rw [← List.filter_append]
    exact hl.nodup.filter _
  · change h' ∈ l.queue.filter (· ≠ h) ++ l.async_handles.filter (· ≠ h) ↔ _
    rw [← List.filter_append, List.mem_filter, hl.opened h']
    by_cases hne : h' = h
    · subst hne
      refine iff_of_false (by simp) fun hopened => ?_
      have hclosed : Phase.closed = .opened := (congrArg Handle.phase (if_pos rfl)).symm.trans hopened
      cases hclosed
    · have hsame := congrArg Handle.phase (@setHandle_ne l h h' { l.handles h with phase := .closed } hne)
      change _ ↔ ((l.setHandle h _).handles h').phase = _
      rw [hsame]
      simp [hne]
  · rw [show l.queue = [] from hl.empty hv hcontrol]
    rfl

theorem listed_moved {e : Event} (hl : Listed l) (hm : Moved l e l') : Listed l' := by
  have hsends : e.sends = true → Listed l' := fun he => listed_sends hl (sends_moved hm he)
  cases hm with
  | opened h async_cb hspin hcontrol hphase => exact listed_opened hl hspin hphase
  | closing h hspin hcontrol hphase =>
    refine listed_perm hl (List.Perm.refl _) (fun _ => setHandle_same Handle.phase rfl) hl.empty
      fun h' hspin' => ?_
    obtain rfl : h = h' := Option.some.inj hspin'
    exact ⟨(phase_spin l h h).trans hphase, pending_spin l h, hcontrol.imp id .inl⟩
  | closed h hspin hbusy hcontrol => exact listed_closed hl hspin hcontrol
  | silenced h hspin hbusy hcontrol => exact { hl with spinning := fun h' hspin' => by cases hspin' }
  | polled hspin hcontrol hfd =>
    refine { hl with empty := fun _ _ => hl.empty ?_ ?_, spinning := fun h' hspin' => ?_ }
    · simp [hcontrol]
    · simp [hcontrol]
    · exact absurd (hspin.symm.trans hspin') (by simp)
  | read hcontrol =>
    refine { hl with empty := fun _ _ => hl.empty ?_ ?_, spinning := fun h' hspin' => ?_ }
    · simp [hcontrol]
    · simp [hcontrol]
    · have := (hl.spinning h' hspin').2.2
      simp [hcontrol] at this
  | moved hcontrol =>
    have hnil : l.queue = [] := hl.empty (by simp [hcontrol]) (by simp [hcontrol])
    refine listed_perm hl ?_ (fun _ => rfl) (fun hv => absurd rfl hv) fun h' hspin' => ?_
    · simp [hnil]
    · have := (hl.spinning h' hspin').2.2
      simp [hcontrol] at this
  | visited h queue acts hspin hcontrol hqueue hacts =>
    refine listed_perm hl ?_ (fun _ => setHandle_same Handle.phase rfl) (fun hv => absurd hcontrol hv)
      fun h' hspin' => absurd (hspin.symm.trans hspin') (by simp)
    rw [hqueue]
    exact perm_rotate
  | ended hspin hcontrol hqueue =>
    exact { hl with
      empty := fun _ _ => hqueue
      spinning := fun h' hspin' => absurd (hspin.symm.trans hspin') (by simp) }
  | stopping hspin hcontrol hfd =>
    have hnil : l.queue = [] := hl.empty (by simp [hcontrol]) (by simp [hcontrol])
    refine listed_perm hl ?_ (fun _ => rfl) (fun _ hs => absurd rfl hs)
      fun h' hspin' => absurd (hspin.symm.trans hspin') (by simp)
    simp [hnil]
  | silencing h queue hspin hcontrol hqueue =>
    refine listed_perm hl ?_ (fun _ => setHandle_same Handle.phase rfl) (fun _ hs => absurd hcontrol hs)
      fun h' hspin' => ?_
    · change (queue ++ (l.async_handles ++ [h])).Perm _
      rw [hqueue]
      exact perm_rotate
    · obtain rfl : h = h' := Option.some.inj hspin'
      have hopened : (l.handles h).phase = .opened := (hl.opened h).mp (by simp [hqueue])
      exact ⟨(phase_spin _ h h).trans hopened, pending_spin _ h, .inr (.inr hcontrol)⟩
  | stopped hspin hcontrol hqueue =>
    exact { hl with
      empty := fun _ _ => hqueue
      spinning := fun h' hspin' => absurd (hspin.symm.trans hspin') (by simp) }
  | _ => exact hsends rfl

end listed

/-! ## Silence -/

/-- The handle is pending and no thread is about to write for it, so none will. -/
def Silent (l : Loop) (h : Nat) : Prop := (l.handles h).pending = true ∧ l.writers h = 0

/-- What is closed is silent, and so is every handle when the loop has stopped, which closes the
eventfd. Without an eventfd no handle has been opened yet. -/
structure Quieted (l : Loop) : Prop where
  closed : ∀ h, (l.handles h).phase = .closed → Silent l h
  stopping : l.control = .stopping → ∀ h ∈ l.async_handles,
    (l.handles h).pending = true ∧ (l.spinning = some h ∨ l.writers h = 0)
  stopped : l.control = .stopped → ∀ h, (l.handles h).phase = .opened → Silent l h
  fd : l.fd = none → l.control = .stopped ∨ ∀ h, (l.handles h).phase = .unused
  off : l.control = .stopped → l.fd = none

theorem quieted_start (n : Nat) : Quieted (start n) where
  closed h hphase := by cases hphase
  stopping hcontrol := by cases hcontrol
  stopped hcontrol := by cases hcontrol
  fd _ := .inr fun _ => rfl
  off hcontrol := by cases hcontrol

section quieted

variable {l l' : Loop} {h : Nat}

theorem silent_sends (hs : Sends l l') (h : Nat) (hsilent : Silent l h) : Silent l' h := by
  have := hs.silent h hsilent.1
  have := hsilent.2
  exact ⟨hs.pending h hsilent.1, by omega⟩

theorem quieted_sends (hq : Quieted l) (hs : Sends l l') : Quieted l' where
  closed h hphase := by
    rw [hs.phase] at hphase
    exact silent_sends hs h (hq.closed h hphase)
  stopping hcontrol h hmem := by
    rw [hs.control] at hcontrol
    rw [hs.async_handles] at hmem
    obtain ⟨hpending, hspin⟩ := hq.stopping hcontrol h hmem
    rw [hs.spinning]
    exact ⟨hs.pending h hpending, hspin.imp id fun hw => (silent_sends hs h ⟨hpending, hw⟩).2⟩
  stopped hcontrol h hphase := by
    rw [hs.control] at hcontrol
    rw [hs.phase] at hphase
    exact silent_sends hs h (hq.stopped hcontrol h hphase)
  fd hfd := by
    rw [hs.control]
    exact (hq.fd (hs.fd.mp hfd)).imp id fun hall h => (hs.phase h).trans (hall h)
  off hcontrol := by
    rw [hs.control] at hcontrol
    exact hs.fd.mpr (hq.off hcontrol)

/-- No thread writes for a handle that is not busy. -/
theorem writers_eq_zero (hb : Busy l) (hbusy : (l.handles h).busy = 0) : l.writers h = 0 := by
  have := writers_le l h
  have := hb.busy h
  omega

/-- An open handle is on a loop that runs, or is silent. -/
theorem fd_of_opened (hq : Quieted l) (hphase : (l.handles h).phase = .opened)
    (hcontrol : l.control ≠ .stopped) : l.fd ≠ none := by
  intro hfd
  rcases hq.fd hfd with hstopped | hall
  · exact hcontrol hstopped
  · rw [hall h] at hphase
    cases hphase

/-- Silence is kept when the handle stays pending. -/
theorem silent_of (hpending : (l.handles h).pending = true → (l'.handles h).pending = true)
    (hthreads : l'.threads = l.threads) (hsilent : Silent l h) : Silent l' h := by
  refine ⟨hpending hsilent.1, ?_⟩
  have hw := hsilent.2
  unfold Loop.writers Loop.count at hw ⊢
  rwa [hthreads]

theorem pending_of_spin {h' : Nat} (hpending : (l.handles h').pending = true) :
    ((l.spin h).handles h').pending = true := by
  by_cases hne : h' = h
  · rw [hne]
    exact pending_spin l h
  · exact (congrArg Handle.pending (setHandle_ne hne)).trans hpending

/-- The loop goes on, and is neither stopping nor stopped after it. -/
theorem quieted_on (hclosed : ∀ h, (l'.handles h).phase = .closed → Silent l' h)
    (hstopping : l'.control ≠ .stopping) (hstopped : l'.control ≠ .stopped) (hfd : l'.fd ≠ none) :
    Quieted l' where
  closed := hclosed
  stopping hcontrol := absurd hcontrol hstopping
  stopped hcontrol := absurd hcontrol hstopped
  fd hnone := absurd hnone hfd
  off hcontrol := absurd hcontrol hstopped

theorem quieted_moved {e : Event} (hb : Busy l) (hl : Listed l) (hq : Quieted l) (hm : Moved l e l') :
    Quieted l' := by
  have hsends : e.sends = true → Quieted l' := fun he => quieted_sends hq (sends_moved hm he)
  have hon : ∀ {m : Loop}, l.control = .outside ∨ l.control = .visiting → m.control = l.control →
      m.control ≠ .stopping ∧ m.control ≠ .stopped := by
    intro m hcontrol hsame
    rw [hsame]
    rcases hcontrol with hcontrol | hcontrol <;> simp [hcontrol]
  cases hm with
  | opened h async_cb hspin hcontrol hphase =>
    obtain ⟨hstopping, hstopped⟩ := hon (m := l.init h async_cb) hcontrol rfl
    refine quieted_on (fun h' hclosed => ?_) hstopping hstopped (by simp [Loop.init, Loop.log, Loop.setHandle])
    have hne : h' ≠ h := by
      rintro rfl
      have hopened : Phase.opened = .closed := (congrArg Handle.phase (if_pos rfl)).symm.trans hclosed
      cases hopened
    have hsame : (l.init h async_cb).handles h' = l.handles h' := setHandle_ne hne
    rw [hsame] at hclosed
    exact silent_of (fun hp => (congrArg Handle.pending hsame).trans hp) rfl (hq.closed h' hclosed)
  | closing h hspin hcontrol hphase =>
    obtain ⟨hstopping, hstopped⟩ := hon (m := l.spin h) hcontrol rfl
    refine quieted_on (fun h' hclosed => ?_) hstopping hstopped (fd_of_opened (l := l) hq hphase hstopped)
    rw [phase_spin] at hclosed
    exact silent_of pending_of_spin rfl (hq.closed h' hclosed)
  | closed h hspin hbusy hcontrol =>
    obtain ⟨hphase, hpending, hwhere⟩ := hl.spinning h hspin
    have hwhere' : l.control = .outside ∨ l.control = .visiting :=
      hwhere.imp id fun h => h.resolve_right hcontrol
    have hstopped : l.control ≠ .stopped := (hon (m := l) hwhere' rfl).2
    refine quieted_on (fun h' hclosed => ?_) hcontrol hstopped (fd_of_opened (l := l) hq hphase hstopped)
    by_cases hne : h' = h
    · subst hne
      exact ⟨(congrArg Handle.pending (if_pos rfl)).trans hpending, writers_eq_zero (l := l) hb hbusy⟩
    · have hsame := @setHandle_ne l h h' { l.handles h with phase := .closed } hne
      have hclosed' : (l.handles h').phase = .closed := (congrArg Handle.phase hsame).symm.trans hclosed
      exact silent_of (fun hp => (congrArg Handle.pending hsame).trans hp) rfl (hq.closed h' hclosed')
  | silenced h hspin hbusy hcontrol =>
    refine { hq with stopping := fun _ h' hmem => ?_ }
    obtain ⟨hpending, hspin'⟩ := hq.stopping hcontrol h' hmem
    refine ⟨hpending, .inr ?_⟩
    rcases hspin' with hspin' | hw
    · obtain rfl : h = h' := Option.some.inj (hspin.symm.trans hspin')
      exact writers_eq_zero (l := l) hb hbusy
    · exact hw
  | polled hspin hcontrol hfd =>
    refine quieted_on hq.closed (by simp) (by simp) fun hnone => ?_
    rw [show l.fd = none from hnone] at hfd
    exact absurd hfd (by simp)
  | read hcontrol => exact quieted_on hq.closed (by simp) (by simp) (by simp)
  | moved hcontrol =>
    refine { hq with
      stopping := fun h => by cases h
      stopped := fun h => by cases h
      fd := fun hfd => .inr ((hq.fd hfd).resolve_left (by simp [hcontrol]))
      off := fun h => by cases h }
  | visited h queue acts hspin hcontrol hqueue hacts =>
    obtain ⟨hstopping, hstopped⟩ := hon (m := l) (.inr hcontrol) rfl
    have hopened : (l.handles h).phase = .opened := (hl.opened h).mp (by simp [hqueue])
    refine quieted_on (fun h' hclosed => ?_) hstopping hstopped (fd_of_opened (l := l) hq hopened hstopped)
    have hclosed' : (l.handles h').phase = .closed :=
      (@setHandle_same l h h' { l.handles h with pending := false } _ Handle.phase rfl).symm.trans hclosed
    have hne : h' ≠ h := by
      rintro rfl
      rw [hopened] at hclosed'
      cases hclosed'
    exact silent_of (fun hp => (congrArg Handle.pending (setHandle_ne hne)).trans hp) rfl
      (hq.closed h' hclosed')
  | ended hspin hcontrol hqueue =>
    refine { hq with
      stopping := fun h => by cases h
      stopped := fun h => by cases h
      fd := fun hfd => .inr ((hq.fd hfd).resolve_left (by simp [hcontrol]))
      off := fun h => by cases h }
  | stopping hspin hcontrol hfd =>
    exact { hq with
      stopping := fun _ h hmem => by cases hmem
      stopped := fun h => by cases h
      fd := fun hnone => absurd hnone hfd
      off := fun h => by cases h }
  | silencing h queue hspin hcontrol hqueue =>
    have hopened : (l.handles h).phase = .opened := (hl.opened h).mp (by simp [hqueue])
    have hfd := fd_of_opened hq hopened (by simp [hcontrol])
    refine ⟨fun h' hclosed => ?_, fun _ h' hmem => ?_, fun hstopped => ?_, fun hnone => absurd hnone hfd,
      fun hstopped => ?_⟩
    · have hclosed' : (l.handles h').phase = .closed := (phase_spin _ h h').symm.trans hclosed
      exact silent_of (l := l) pending_of_spin rfl (hq.closed h' hclosed')
    · rcases List.mem_append.mp hmem with hmem | hmem
      · obtain ⟨hpending, hspin'⟩ := hq.stopping hcontrol h' hmem
        refine ⟨pending_of_spin hpending, .inr ?_⟩
        exact hspin'.resolve_left (by simp [hspin])
      · obtain rfl := List.mem_singleton.mp hmem
        exact ⟨pending_spin _ h', .inl rfl⟩
    · exact absurd (hcontrol.symm.trans hstopped) (by simp)
    · exact absurd (hcontrol.symm.trans hstopped) (by simp)
  | stopped hspin hcontrol hqueue =>
    refine { hq with
      stopping := fun h => by cases h
      stopped := fun _ h hphase => ?_
      fd := fun _ => .inl rfl
      off := fun _ => rfl }
    have hmem : h ∈ l.async_handles := by
      have := (hl.opened h).mpr hphase
      rwa [hqueue] at this
    obtain ⟨hpending, hspin'⟩ := hq.stopping hcontrol h hmem
    exact ⟨hpending, hspin'.resolve_left (by simp [hspin])⟩
  | _ => exact hsends rfl

end quieted

end linuxc.async
