-- What each step of the async handles does, and what all steps keep: the busy
-- flags count the threads in the critical section, and the handles that are
-- open are in the queue once.
import Linuxc.Slots
import Linuxc.UvAsync

namespace linuxc.async

open event_runs slots

/-! ## Threads -/

/-- The thread holds the busy flag of `h`. -/
def Sender.holds (h : Nat) : Sender → Bool
  | .entered h' => h' = h
  | .writing h' => h' = h
  | .leaving h' => h' = h
  | _ => false

/-- The thread is about to write to the eventfd, for `h`. -/
def Sender.writes (h : Nat) : Sender → Bool
  | .writing h' => h' = h
  | _ => false

/-- The thread is in `uv_async_send` of `h`. -/
def Sender.uses (h : Nat) : Sender → Bool
  | .outside => false
  | .loaded h' => h' = h
  | .entered h' => h' = h
  | .writing h' => h' = h
  | .leaving h' => h' = h

def Loop.count (l : Loop) (f : Sender → Bool) : Nat := l.threads.countP f

/-- How many threads are about to write for `h`. -/
def Loop.writers (l : Loop) (h : Nat) : Nat := l.count (Sender.writes h)

section fields

variable {l : Loop} {h h' t : Nat} {handle : Handle} {sender : Sender}

theorem setHandle_self : (l.setHandle h handle).handles h = handle := if_pos rfl

theorem setHandle_ne (hne : h' ≠ h) : (l.setHandle h handle).handles h' = l.handles h' := if_neg hne

/-- What a change of one handle leaves of the others, and of itself when it keeps `f`. -/
theorem setHandle_same {β : Type} (f : Handle → β) (hf : f handle = f (l.handles h)) :
    f ((l.setHandle h handle).handles h') = f (l.handles h') := by
  by_cases hne : h' = h
  · subst hne
    rw [setHandle_self, hf]
  · rw [setHandle_ne hne]

end fields

/-! ## What each event does -/

/-- All that an event can do. -/
inductive Moved (l : Loop) : Event → Loop → Prop
  | coalesced (t h : Nat) (ht : l.threads[t]? = some .outside) (hphase : (l.handles h).phase ≠ .unused)
      (hpending : (l.handles h).pending = true) : Moved l (.load t h) (l.log (.sent h))
  | loaded (t h : Nat) (ht : l.threads[t]? = some .outside) (hphase : (l.handles h).phase ≠ .unused) :
      Moved l (.load t h) (l.setThread t (.loaded h))
  | entered (t h : Nat) (ht : l.threads[t]? = some (.loaded h)) : Moved l (.enter t) (l.enter t h)
  | exchanged (t h : Nat) (ht : l.threads[t]? = some (.entered h)) :
      Moved l (.exchange t) (l.exchange t h)
  | wrote (t h n : Nat) (ht : l.threads[t]? = some (.writing h)) (hfd : l.fd ≠ none) (hn : 0 < n) :
      Moved l (.write t) (({ l with fd := some n }.setThread t (.leaving h)).log (.wrote h))
  | left (t h : Nat) (ht : l.threads[t]? = some (.leaving h)) : Moved l (.leave t) (l.leave t h)
  | opened (h : Nat) (async_cb : Bool) (hspin : l.spinning = none)
      (hcontrol : l.control = .outside ∨ l.control = .visiting) (hphase : (l.handles h).phase = .unused) :
      Moved l (.init h async_cb) (l.init h async_cb)
  | closing (h : Nat) (hspin : l.spinning = none)
      (hcontrol : l.control = .outside ∨ l.control = .visiting) (hphase : (l.handles h).phase = .opened) :
      Moved l (.close h) (l.spin h)
  | closed (h : Nat) (hspin : l.spinning = some h) (hbusy : (l.handles h).busy = 0)
      (hcontrol : l.control ≠ .stopping) :
      Moved l .spun (({ l with
        spinning := none
        async_handles := l.async_handles.filter (· ≠ h)
        queue := l.queue.filter (· ≠ h) }.setHandle h { l.handles h with phase := .closed }).log (.closed h))
  | silenced (h : Nat) (hspin : l.spinning = some h) (hbusy : (l.handles h).busy = 0)
      (hcontrol : l.control = .stopping) : Moved l .spun { l with spinning := none }
  | polled (hspin : l.spinning = none) (hcontrol : l.control = .outside) (hfd : 0 < l.fd.getD 0) :
      Moved l .poll { l with control := .reading }
  | read (hcontrol : l.control = .reading) : Moved l .read { l with fd := some 0, control := .moving }
  | moved (hcontrol : l.control = .moving) :
      Moved l .move { l with queue := l.async_handles, async_handles := [], control := .visiting }
  | visited (h : Nat) (queue : List Nat) (acts : List Act) (hspin : l.spinning = none)
      (hcontrol : l.control = .visiting) (hqueue : l.queue = h :: queue)
      (hacts : acts = if (l.handles h).pending ∧ (l.handles h).async_cb then [.called h] else []) :
      Moved l .visit { l.setHandle h { l.handles h with pending := false } with
        queue
        async_handles := l.async_handles ++ [h]
        trace := l.trace ++ acts }
  | ended (hspin : l.spinning = none) (hcontrol : l.control = .visiting) (hqueue : l.queue = []) :
      Moved l .visit { l with control := .outside }
  | stopping (hspin : l.spinning = none) (hcontrol : l.control = .outside) (hfd : l.fd ≠ none) :
      Moved l .stop { l with queue := l.async_handles, async_handles := [], control := .stopping }
  | silencing (h : Nat) (queue : List Nat) (hspin : l.spinning = none) (hcontrol : l.control = .stopping)
      (hqueue : l.queue = h :: queue) :
      Moved l .stopNext ({ l with queue, async_handles := l.async_handles ++ [h] }.spin h)
  | stopped (hspin : l.spinning = none) (hcontrol : l.control = .stopping) (hqueue : l.queue = []) :
      Moved l .stopNext ({ l with fd := none, control := .stopped }.log .stopped)

/-- Why a step is refused: it is not its turn, unless a thread writes to a closed eventfd. -/
def Refuses (l : Loop) (stop : Stop) : Prop :=
  stop = .notNow ∨ stop = .aborted ∧ l.fd = none ∧ ∃ h, 0 < l.writers h

theorem guarded.spec (l : Loop) (b : Bool) : Gives (Refuses l) (guarded b) fun _ => b = true := by
  unfold guarded
  split
  · exact gives_ok ‹_›
  · exact gives_error (.inl rfl)

theorem free.spec {l : Loop} (h : l.free = true) :
    l.spinning = none ∧ (l.control = .outside ∨ l.control = .visiting) := of_decide_eq_true h

theorem spun.spec {l : Loop} {h : Nat} (hspin : l.spinning = some h) (hbusy : (l.handles h).busy = 0) :
    Moved l .spun (l.spun h) := by
  unfold Loop.spun
  split
  · exact .silenced h hspin hbusy ‹_›
  · exact .closed h hspin hbusy ‹_›

theorem visit.spec {l : Loop} (hspin : l.spinning = none) (hcontrol : l.control = .visiting) :
    Moved l .visit l.visit := by
  unfold Loop.visit
  split
  · exact .ended hspin hcontrol ‹_›
  · rename_i h queue hqueue
    have hvisited := Moved.visited h queue _ hspin hcontrol hqueue rfl
    by_cases hcalled : (l.handles h).pending ∧ (l.handles h).async_cb
    · simp only [if_pos hcalled] at hvisited ⊢
      exact hvisited
    · simp only [if_neg hcalled, List.append_nil] at hvisited ⊢
      exact hvisited

theorem stopNext.spec {l : Loop} (hspin : l.spinning = none) (hcontrol : l.control = .stopping) :
    Moved l .stopNext l.stopNext := by
  unfold Loop.stopNext
  split
  · exact .stopped hspin hcontrol ‹_›
  · exact .silencing _ _ hspin hcontrol ‹_›

theorem write.spec {l : Loop} {t h : Nat} (ht : l.threads[t]? = some (.writing h)) :
    Gives (Refuses l) (l.write t h) (Moved l (.write t)) := by
  unfold Loop.write
  cases hfd : l.fd with
  | none => exact gives_error (.inr ⟨rfl, hfd, h, countP_pos ht (by simp [Sender.writes])⟩)
  | some n =>
    refine gives_ok (.wrote t h _ ht (by simp [hfd]) ?_)
    split <;> omega

theorem step.spec (l : Loop) (e : Event) : Gives (Refuses l) (step l e) (Moved l e) := by
  cases e with
  | load t h =>
    refine gives_bind (guarded.spec l _) fun _ hguard => gives_pure ?_
    obtain ⟨ht, hphase⟩ := of_decide_eq_true hguard
    unfold Loop.load
    split
    · exact .coalesced t h ht hphase ‹_›
    · exact .loaded t h ht hphase
  | enter t =>
    simp only [step]
    split
    · exact gives_ok (.entered t _ ‹_›)
    · exact gives_error (.inl rfl)
  | exchange t =>
    simp only [step]
    split
    · exact gives_ok (.exchanged t _ ‹_›)
    · exact gives_error (.inl rfl)
  | write t =>
    simp only [step]
    split
    · exact write.spec ‹_›
    · exact gives_error (.inl rfl)
  | leave t =>
    simp only [step]
    split
    · exact gives_ok (.left t _ ‹_›)
    · exact gives_error (.inl rfl)
  | init h async_cb =>
    refine gives_bind (guarded.spec l _) fun _ hguard => gives_pure ?_
    obtain ⟨hfree, hphase⟩ := of_decide_eq_true hguard
    exact .opened h async_cb (free.spec hfree).1 (free.spec hfree).2 hphase
  | close h =>
    refine gives_bind (guarded.spec l _) fun _ hguard => gives_pure ?_
    obtain ⟨hfree, hphase⟩ := of_decide_eq_true hguard
    exact .closing h (free.spec hfree).1 (free.spec hfree).2 hphase
  | spun =>
    simp only [step]
    split
    · exact gives_error (.inl rfl)
    · rename_i h hspin
      exact gives_bind (guarded.spec l _) fun _ hguard =>
        gives_pure (spun.spec hspin (of_decide_eq_true hguard))
  | poll =>
    refine gives_bind (guarded.spec l _) fun _ hguard => gives_pure ?_
    obtain ⟨hspin, hcontrol, hfd⟩ := of_decide_eq_true hguard
    exact .polled hspin hcontrol hfd
  | read =>
    exact gives_bind (guarded.spec l _) fun _ hguard => gives_pure (.read (of_decide_eq_true hguard))
  | move =>
    exact gives_bind (guarded.spec l _) fun _ hguard => gives_pure (.moved (of_decide_eq_true hguard))
  | visit =>
    refine gives_bind (guarded.spec l _) fun _ hguard => gives_pure ?_
    obtain ⟨hspin, hcontrol⟩ := of_decide_eq_true hguard
    exact visit.spec hspin hcontrol
  | stop =>
    refine gives_bind (guarded.spec l _) fun _ hguard => gives_pure ?_
    obtain ⟨hspin, hcontrol, hfd⟩ := of_decide_eq_true hguard
    exact .stopping hspin hcontrol hfd
  | stopNext =>
    refine gives_bind (guarded.spec l _) fun _ hguard => gives_pure ?_
    obtain ⟨hspin, hcontrol⟩ := of_decide_eq_true hguard
    exact stopNext.spec hspin hcontrol

/-! ## The busy flags -/

/-- The busy flag of a handle counts the threads that hold it, and no thread uses a handle before it is
opened. -/
structure Busy (l : Loop) : Prop where
  busy : ∀ h, (l.handles h).busy = l.count (Sender.holds h)
  known : ∀ h, (l.handles h).phase = .unused → l.count (Sender.uses h) = 0

theorem count_start (n : Nat) {f : Sender → Bool} (h : f .outside = false) : (start n).count f = 0 := by
  unfold Loop.count
  rw [countP_eq_zero]
  intro a ha
  rw [List.eq_of_mem_replicate ha, h]

theorem busy_start (n : Nat) : Busy (start n) where
  busy _ := (count_start n rfl).symm
  known _ _ := count_start n rfl

section busy

variable {l l' : Loop} {t h : Nat} {a b : Sender}

theorem holds_le (l : Loop) (h : Nat) : l.count (Sender.holds h) ≤ l.count (Sender.uses h) := by
  apply List.countP_mono_left
  intro a _ ha
  cases a <;> first | exact ha | cases ha

theorem writers_le (l : Loop) (h : Nat) : l.writers h ≤ l.count (Sender.holds h) := by
  apply List.countP_mono_left
  intro a _ ha
  cases a <;> first | exact ha | cases ha

/-- A thread goes from `a` to `b`, and the busy flag goes with it. -/
theorem busy_set (hb : Busy l) (ht : l.threads[t]? = some a) (hset : l'.threads = l.threads.set t b)
    (hbusy : ∀ h, (l'.handles h).busy + (a.holds h).toNat = (l.handles h).busy + (b.holds h).toNat)
    (hphase : ∀ h, (l'.handles h).phase = (l.handles h).phase)
    (huses : ∀ h, (l.handles h).phase = .unused → b.uses h = true → a.uses h = true) : Busy l' where
  busy h := by
    have hcount := countP_set (Sender.holds h) ht (b := b)
    have := hbusy h
    have := hb.busy h
    unfold Loop.count at *
    rw [hset]
    omega
  known h hunused := by
    rw [hphase] at hunused
    have hcount := countP_set (Sender.uses h) ht (b := b)
    have hnone := hb.known h hunused
    have hle : (b.uses h).toNat ≤ (a.uses h).toNat := by
      cases hbu : b.uses h with
      | false => simp
      | true => simp [huses h hunused hbu]
    unfold Loop.count at *
    rw [hset]
    omega

theorem busy_same (hb : Busy l) (hthreads : l'.threads = l.threads)
    (hbusy : ∀ h, (l'.handles h).busy = (l.handles h).busy)
    (hphase : ∀ h, (l'.handles h).phase = .unused → (l.handles h).phase = .unused) : Busy l' where
  busy h := by
    rw [hbusy, hb.busy]
    unfold Loop.count
    rw [hthreads]
  known h hunused := by
    unfold Loop.count
    rw [hthreads]
    exact hb.known h (hphase h hunused)

/-- A change of what is pending leaves the busy flags. -/
theorem busy_pending (hb : Busy l) (hthreads : l'.threads = l.threads) (pending : Bool)
    (hhandles : l'.handles = (l.setHandle h { l.handles h with pending }).handles) : Busy l' := by
  apply busy_same hb hthreads
  · intro h'
    rw [hhandles]
    exact setHandle_same Handle.busy rfl
  · intro h' hunused
    have hsame : (l'.handles h').phase = (l.handles h').phase := by
      rw [hhandles]
      exact setHandle_same Handle.phase rfl
    exact hsame.symm.trans hunused

theorem busy_moved {e : Event} (hb : Busy l) (hm : Moved l e l') : Busy l' := by
  cases hm with
  | coalesced t h ht hphase hpending => exact { hb with }
  | loaded t h ht hphase =>
    apply busy_set hb ht rfl
    · intro h'
      rfl
    · intro h'
      rfl
    · intro h' hunused huses
      obtain rfl : h = h' := by simpa [Sender.uses] using huses
      exact absurd hunused hphase
  | entered t h ht =>
    apply busy_set hb ht rfl
    · intro h'
      by_cases hne : h' = h
      · subst hne
        simp [Loop.enter, Loop.setThread, setHandle_self, Sender.holds]
      · simp [Loop.enter, Loop.setThread, setHandle_ne hne, Sender.holds, Ne.symm hne]
    · intro h'
      exact setHandle_same Handle.phase rfl
    · intro h' _ huses
      exact huses
  | exchanged t h ht =>
    apply busy_set hb ht rfl
    · intro h'
      have hsame : ((l.exchange t h).handles h').busy = (l.handles h').busy :=
        setHandle_same Handle.busy rfl
      rw [hsame]
      split <;> rfl
    · intro h'
      exact setHandle_same Handle.phase rfl
    · intro h' _ huses
      revert huses
      split <;> exact id
  | wrote t h n ht hfd hn =>
    apply busy_set hb ht rfl
    · intro h'
      rfl
    · intro h'
      rfl
    · intro h' _ huses
      exact huses
  | left t h ht =>
    apply busy_set hb ht rfl
    · intro h'
      by_cases hne : h' = h
      · subst hne
        have hpos : 0 < (l.handles h').busy := by
          rw [hb.busy]
          exact countP_pos ht (by simp [Sender.holds])
        simp only [Loop.leave, Loop.setThread, setHandle_self, Sender.holds, decide_true, Bool.toNat_true,
          Bool.toNat_false]
        omega
      · simp [Loop.leave, Loop.setThread, setHandle_ne hne, Sender.holds, Ne.symm hne]
    · intro h'
      exact setHandle_same Handle.phase rfl
    · intro h' _ huses
      cases huses
  | opened h async_cb hspin hcontrol hphase =>
    refine busy_same hb rfl ?_ ?_
    · intro h'
      apply setHandle_same Handle.busy
      -- no thread holds a handle that is not open yet
      have := hb.known h hphase
      have := holds_le l h
      have := hb.busy h
      change 0 = (l.handles h).busy
      omega
    · intro h' hunused
      by_cases hne : h' = h
      · subst hne
        exact hphase
      · exact (congrArg Handle.phase (setHandle_ne hne)).symm.trans hunused
  | closed h hspin hbusy hcontrol =>
    refine busy_same hb rfl ?_ ?_
    · intro h'
      exact setHandle_same Handle.busy rfl
    · intro h' hunused
      by_cases hne : h' = h
      · subst hne
        have hclosed : Phase.closed = .unused := (congrArg Handle.phase (if_pos rfl)).symm.trans hunused
        cases hclosed
      · exact (congrArg Handle.phase (setHandle_ne hne)).symm.trans hunused
  | closing h hspin hcontrol hphase => exact busy_pending hb rfl true rfl
  | visited h queue acts hspin hcontrol hqueue hacts => exact busy_pending hb rfl false rfl
  | silencing h queue hspin hcontrol hqueue => exact busy_pending hb rfl true rfl
  | _ => exact { hb with }

end busy

end linuxc.async
