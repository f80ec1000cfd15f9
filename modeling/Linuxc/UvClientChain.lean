-- The send chain of libuv-client.c over whole runs: on_connect, on_write and
-- send_data keep one link of it alive, number the sends, and free each request,
-- buffer and timer once.
import Linuxc.UvClientSteps

namespace linuxc.libuv_client

open event_runs block_heap libuv

/-! ## What a run says -/

/-- The request or the timer that an event is about. -/
def Event.about : Event → Option Nat
  | .wrote req _ => some req
  | .timer t _ _ => some t
  | .timerClosed t => some t
  | _ => none

/-- A call of `on_write`. -/
def Event.isWrote : Event → Bool
  | .wrote _ _ => true
  | _ => false

/-- A call of `send_data`: by `on_connect`, or by a timer. -/
def Event.isSend : Event → Bool
  | .connected status _ _ => 0 ≤ status
  | .timer _ _ _ => true
  | _ => false

def Event.isWroteOf (req : Nat) : Event → Bool
  | .wrote r _ => r = req
  | _ => false

def Event.isTimerOf (t : Nat) : Event → Bool
  | .timer u _ _ => u = t
  | _ => false

def Event.isTimerClosedOf (t : Nat) : Event → Bool
  | .timerClosed u => u = t
  | _ => false

def Act.isAccepted : Act → Bool
  | .uvWrite _ _ true => true
  | _ => false

/-- The number in a line of `send_data`. -/
def Act.sentNumber : Act → Option Nat
  | .print (.sent _ _ k) => some k
  | _ => none

def sentNumbers (trace : List Act) : List Nat := trace.filterMap Act.sentNumber

/-! ## The stages of a write and of a timer -/

/-- An accepted write is queued until its callback, which frees its request and its buffer. -/
inductive WriteStage (es : List Event) (s : State) (r b : Nat) : Prop
  | queued (q : Request) (hq : q ∈ s.client.queue) (hr : q.req = r) (hb : q.base = b)
      (hn : es.countP (Event.isWroteOf r) = 0)
  | done (hr : r ∈ s.heap.freed) (hb : b ∈ s.heap.freed) (hn : es.countP (Event.isWroteOf r) = 1)

/-- A timer is armed until it fires, and then closing until its close callback frees it. -/
inductive TimerStage (es : List Event) (s : State) (t : Nat) : Prop
  | armed (ht : t ∈ s.armed) (hf : es.countP (Event.isTimerOf t) = 0)
      (hc : es.countP (Event.isTimerClosedOf t) = 0)
  | closing (ht : t ∈ s.closing) (hf : es.countP (Event.isTimerOf t) = 1)
      (hc : es.countP (Event.isTimerClosedOf t) = 0)
  | freed (ht : t ∈ s.heap.freed) (hf : es.countP (Event.isTimerOf t) = 1)
      (hc : es.countP (Event.isTimerClosedOf t) = 1)

/-- What the events so far say about the state. -/
structure Chain (es : List Event) (s : State) : Prop where
  sound : Sound 0 s
  sendCount : s.sendCount = es.countP Event.isWrote
  accepted : s.trace.countP Act.isAccepted = es.countP Event.isWrote + s.client.queue.length
  calls : es.countP Event.isSend = s.trace.countP Act.isAccepted + s.trace.countP Act.isRefusal
  numbers : sentNumbers s.trace = List.range' 1 (es.countP Event.isSend)
  writes : ∀ r b, .uvWrite r b true ∈ s.trace → WriteStage es s r b
  timers : ∀ t, .timerStart t ∈ s.trace → TimerStage es s t
  closes : ∀ t, s.trace.count (.timerClose t) = es.countP (Event.isTimerOf t)
  young : ∀ p, s.heap.size ≤ p → ∀ e ∈ es, e.about ≠ some p

theorem chain_start : Chain [] start where
  sound := sound_start
  sendCount := rfl
  accepted := rfl
  calls := rfl
  numbers := rfl
  writes := by simp [start]
  timers := by simp [start]
  closes := by simp [start]
  young := by simp

/-! ## What one event changes -/

section step

variable {s s' : State} {e : Event} {es : List Event} {p : Nat}

/-- An event is only about a live block. -/
theorem about_live (hs : Sound 0 s) (h : Moved s e s') (hp : e.about = some p) :
    (s.heap.get p).isSome := by
  cases h with
  | writes q status client heap t hph hr hq hsent hc ht =>
    simp only [Event.about, Option.some.injEq] at hp
    subst hp
    rw [(hs.queued q (hq.mem_iff.mpr List.mem_cons_self)).req]
    rfl
  | fires t timestamp accepts heap ht hw =>
    simp only [Event.about, Option.some.injEq] at hp
    subst hp
    rw [hs.timers _ (List.mem_append_left _ ht)]
    rfl
  | timerCloses t heap ht hc =>
    simp only [Event.about, Option.some.injEq] at hp
    subst hp
    rw [hs.timers _ (List.mem_append_right _ ht)]
    rfl
  | _ => simp [Event.about] at hp

/-- Each event is one change to the heap. -/
theorem moved_change (h : Moved s e s') : ∃ gone new, Change s.heap s'.heap gone new := by
  cases h with
  | connects status timestamp accepts heap hp hpos hw => exact ⟨_, _, hw.change⟩
  | writes q status client heap t hp hr hq hsent hc ht => exact ⟨_, _, hc⟩
  | fires t timestamp accepts heap ht hw => exact ⟨_, _, hw.change⟩
  | timerCloses t heap ht hc => exact ⟨_, _, hc⟩
  | reads timestamp bytes heap hp hb hc => exact ⟨_, _, hc⟩
  | readsNothing timestamp heap hp hc => exact ⟨_, _, hc⟩
  | readFails timestamp out heap hp hn hc => exact ⟨_, _, hc⟩
  | _ => exact ⟨[], [], Change.refl _⟩

theorem freed_mono (h : Moved s e s') (hp : p ∈ s.heap.freed) : p ∈ s'.heap.freed := by
  obtain ⟨gone, new, hc⟩ := moved_change h
  rw [hc.mem_freed_iff (Heap.mem_freed_iff.mp hp).1]
  exact .inl hp

theorem not_about_freed (hs : Sound 0 s) (h : Moved s e s') (hp : p ∈ s.heap.freed) :
    e.about ≠ some p := by
  intro habout
  have hlive := about_live hs h habout
  rw [(Heap.mem_freed_iff.mp hp).2] at hlive
  cases hlive

theorem not_about_young (hs : Sound 0 s) (h : Moved s e s') (hp : s.heap.size ≤ p) :
    e.about ≠ some p := by
  intro habout
  have hlive := about_live hs h habout
  rw [Heap.get_eq_none_of_size_le hp] at hlive
  cases hlive

theorem countP_snoc {f : Event → Bool} :
    (es ++ [e]).countP f = es.countP f + if f e then 1 else 0 := by
  rw [List.countP_append, List.countP_singleton]

/-- An event counts for no other block than the one it is about. -/
theorem counts_of_not_about (es : List Event) (h : e.about ≠ some p) :
    (es ++ [e]).countP (Event.isWroteOf p) = es.countP (Event.isWroteOf p) ∧
      (es ++ [e]).countP (Event.isTimerOf p) = es.countP (Event.isTimerOf p) ∧
      (es ++ [e]).countP (Event.isTimerClosedOf p) = es.countP (Event.isTimerClosedOf p) := by
  cases e <;>
    simp_all [Event.about, Event.isWroteOf, Event.isTimerOf, Event.isTimerClosedOf]

theorem counts_of_none (h : ∀ e ∈ es, e.about ≠ some p) :
    es.countP (Event.isWroteOf p) = 0 ∧ es.countP (Event.isTimerOf p) = 0 ∧
      es.countP (Event.isTimerClosedOf p) = 0 := by
  induction es using List.reverseRecOn with
  | nil => simp
  | append_singleton es e ih =>
    obtain ⟨h1, h2, h3⟩ := counts_of_not_about es (h e (by simp))
    rw [h1, h2, h3]
    exact ih fun x hx => h x (List.mem_append_left _ hx)

/-! ## The books of one event -/

theorem moved_sendCount (h : Moved s e s') :
    s'.sendCount = s.sendCount + if e.isWrote then 1 else 0 := by
  cases h <;> rfl

/-- An accepted write is queued until its callback. -/
theorem moved_accepted (h : Moved s e s') :
    s'.trace.countP Act.isAccepted + s.client.queue.length =
      s.trace.countP Act.isAccepted + s'.client.queue.length + if e.isWrote then 1 else 0 := by
  cases h with
  | connects status timestamp accepts heap hp hpos hw =>
    cases accepts <;>
      simp [State.sent, State.log, State.withPhase, List.countP_cons, Act.isAccepted, Event.isWrote]
    omega
  | writes q status client heap t hp hr hq hsent hc ht =>
    have hlen := hq.length_eq
    rw [List.length_cons] at hlen
    unfold writeErrors
    split <;> simp [State.log, Act.isAccepted, Event.isWrote, hlen]
    all_goals omega
  | fires t timestamp accepts heap ht hw =>
    cases hok : accepts && s.client.isOpen <;>
      simp [State.sent, State.log, State.setTimers, List.countP_cons, Act.isAccepted, Event.isWrote]
    omega
  | readFails timestamp out heap hp hn hc =>
    unfold readErrors
    split <;> simp [State.log, State.withPhase, Act.isAccepted, Event.isWrote]
  | transmits n bytes client ht =>
    obtain rfl : client = { s.client with queue := advance n s.client.queue } := ht.stream
    simp [length_advance, Event.isWrote]
  | _ => simp [State.log, State.withPhase, Act.isAccepted, Event.isWrote]

/-- Each call of `send_data` hands one write to `uv_write`. -/
theorem moved_calls (h : Moved s e s') :
    s'.trace.countP Act.isAccepted + s'.trace.countP Act.isRefusal =
      s.trace.countP Act.isAccepted + s.trace.countP Act.isRefusal + if e.isSend then 1 else 0 := by
  cases h with
  | connectFails status timestamp accepts hp hneg =>
    simp [State.log, State.withPhase, Act.isAccepted, Act.isRefusal, Event.isSend, hneg]
  | connects status timestamp accepts heap hp hpos hw =>
    cases accepts <;>
      simp [State.sent, State.log, State.withPhase, List.countP_cons, Act.isAccepted, Act.isRefusal,
        Event.isSend, hpos] <;> omega
  | writes q status client heap t hp hr hq hsent hc ht =>
    unfold writeErrors
    split <;> simp [State.log, Act.isAccepted, Act.isRefusal, Event.isSend]
  | fires t timestamp accepts heap ht hw =>
    cases hok : accepts && s.client.isOpen <;>
      simp [State.sent, State.log, State.setTimers, List.countP_cons, Act.isAccepted, Act.isRefusal,
        Event.isSend] <;> omega
  | readFails timestamp out heap hp hn hc =>
    unfold readErrors
    split <;> simp [State.log, State.withPhase, Act.isAccepted, Act.isRefusal, Event.isSend]
  | _ => simp [State.log, State.withPhase, Act.isAccepted, Act.isRefusal, Event.isSend]

/-- Each call of `send_data` prints `send_count + 1`, and nothing else prints a number. -/
theorem moved_numbers (h : Moved s e s') :
    sentNumbers s'.trace = sentNumbers s.trace ++ if e.isSend then [s.sendCount + 1] else [] := by
  unfold sentNumbers
  cases h with
  | connectFails status timestamp accepts hp hneg =>
    simp [State.log, State.withPhase, Act.sentNumber, Event.isSend, Int.not_le.mpr hneg]
  | connects status timestamp accepts heap hp hpos hw =>
    simp [State.sent, State.log, State.withPhase, List.filterMap_cons, Act.sentNumber, Event.isSend, hpos]
  | writes q status client heap t hp hr hq hsent hc ht =>
    unfold writeErrors
    split <;> simp [State.log, Act.sentNumber, Event.isSend]
  | fires t timestamp accepts heap ht hw =>
    simp [State.sent, State.log, State.setTimers, List.filterMap_cons, Act.sentNumber, Event.isSend]
  | readFails timestamp out heap hp hn hc =>
    unfold readErrors
    split <;> simp [State.log, State.withPhase, Act.sentNumber, Event.isSend]
  | _ => simp [State.log, State.withPhase, Act.sentNumber, Event.isSend]

/-- A timer is closed when it fires, and only then. -/
theorem moved_closes (h : Moved s e s') (t : Nat) :
    s'.trace.count (.timerClose t) =
      s.trace.count (.timerClose t) + if e.isTimerOf t then 1 else 0 := by
  cases h with
  | connects status timestamp accepts heap hp hpos hw =>
    simp [State.sent, State.log, State.withPhase, Event.isTimerOf]
  | writes q status client heap t hp hr hq hsent hc ht =>
    unfold writeErrors
    split <;> simp [State.log, Event.isTimerOf]
  | fires u timestamp accepts heap ht hw =>
    simp [State.sent, State.log, State.setTimers, List.count_cons, Event.isTimerOf]
  | readFails timestamp out heap hp hn hc =>
    unfold readErrors
    split <;> simp [State.log, State.withPhase, Event.isTimerOf]
  | _ => simp [State.log, State.withPhase, Event.isTimerOf]

/-- When `send_data` is called, the chain has no other link. -/
theorem send_idle (hs : Sound 0 s) (h : Moved s e s') (he : e.isSend = true) :
    s.client.queue.length = 0 ∧ s.trace.countP Act.isRefusal = 0 := by
  have hchain := hs.chain
  have hone := links_le_one s.client.phase
  cases h with
  | connectFails status timestamp accepts hp hneg =>
    simp [Event.isSend] at he
    omega
  | connects status timestamp accepts heap hp hpos hw =>
    rw [hp] at hchain
    simp only [links] at hchain
    omega
  | fires t timestamp accepts heap ht hw =>
    have := List.length_pos_of_mem ht
    omega
  | _ => simp [Event.isSend] at he

/-! ## The stages of one event -/

/-- A queued write stays queued until its callback frees it. -/
theorem moved_queue (hs : Sound 0 s) (h : Moved s e s') {q : Request} (hq : q ∈ s.client.queue) :
    (e.isWroteOf q.req = true ∧ q.req ∈ s'.heap.freed ∧ q.base ∈ s'.heap.freed) ∨
      (e.isWroteOf q.req = false ∧
        ∃ q' ∈ s'.client.queue, q'.req = q.req ∧ q'.base = q.base) := by
  cases h with
  | connects status timestamp accepts heap hp hpos hw =>
    refine .inr ⟨rfl, q, ?_, rfl, rfl⟩
    cases accepts <;> simp [State.sent, State.log, State.withPhase, hq]
  | writes q₀ status client heap t hp hr hperm hsent hc ht =>
    have hchain := hs.chain
    have hone := links_le_one s.client.phase
    have hlen := hperm.length_eq
    rw [List.length_cons] at hlen
    have hnil : client.queue = [] := List.length_eq_zero_iff.mp (by omega)
    rw [hnil] at hperm
    obtain rfl : q = q₀ := List.mem_singleton.mp (hperm.mem_iff.mp hq)
    obtain ⟨b, hb, -⟩ := (hs.queued q hq).buf
    refine .inl ⟨by simp [Event.isWroteOf], ?_, ?_⟩
    · exact (hc.mem_freed_iff (Heap.lt_size_of_get (hs.queued q hq).req)).mpr (.inr (by simp))
    · exact (hc.mem_freed_iff (Heap.lt_size_of_get hb)).mpr (.inr (by simp))
  | fires t timestamp accepts heap ht hw =>
    refine .inr ⟨rfl, q, ?_, rfl, rfl⟩
    cases hok : accepts && s.client.isOpen <;> simp [State.sent, State.log, State.setTimers, hq]
  | transmits n bytes client ht =>
    obtain rfl : client = { s.client with queue := advance n s.client.queue } := ht.stream
    exact .inr ⟨rfl, mem_advance hq⟩
  | _ => exact .inr ⟨rfl, q, hq, rfl, rfl⟩

/-- A write is accepted with a new request, and is queued then. -/
theorem moved_new_write (h : Moved s e s') {r b : Nat} (hw : .uvWrite r b true ∈ s'.trace) :
    .uvWrite r b true ∈ s.trace ∨
      (s.heap.size ≤ r ∧ ∃ q ∈ s'.client.queue, q.req = r ∧ q.base = b) := by
  cases h with
  | connects status timestamp accepts heap hp hpos hnew =>
    cases accepts <;> simp [State.sent, State.log, State.withPhase] at hw ⊢
    · exact .inl hw
    · rcases hw with hw | ⟨rfl, rfl⟩
      · exact .inl hw
      · exact .inr ⟨Nat.le_refl _, .inr ⟨rfl, rfl⟩⟩
  | writes q status client heap t hp hr hq hsent hc ht =>
    unfold writeErrors at hw
    split at hw <;> simp [State.log] at hw <;> exact .inl hw
  | fires t timestamp accepts heap ht hnew =>
    cases hok : accepts && s.client.isOpen <;>
      simp [State.sent, State.log, State.setTimers, hok] at hw ⊢
    · exact .inl hw
    · rcases hw with hw | ⟨rfl, rfl⟩
      · exact .inl hw
      · exact .inr ⟨Nat.le_refl _, .inr ⟨rfl, rfl⟩⟩
  | readFails timestamp out heap hp hn hc =>
    unfold readErrors at hw
    split at hw <;> simp [State.log, State.withPhase] at hw <;> exact .inl hw
  | _ =>
    simp [State.log, State.withPhase] at hw
    exact .inl hw

/-- An armed timer stays armed until it fires, and is closing then. -/
theorem moved_armed (hs : Sound 0 s) (h : Moved s e s') {t : Nat} (ht : t ∈ s.armed) :
    e.isTimerClosedOf t = false ∧ ((e.isTimerOf t = true ∧ t ∈ s'.closing) ∨
      (e.isTimerOf t = false ∧ t ∈ s'.armed)) := by
  cases h with
  | writes q status client heap u hp hr hq hsent hc hu =>
    exact ⟨rfl, .inr ⟨rfl, List.mem_append_left _ ht⟩⟩
  | fires u timestamp accepts heap hu hw =>
    refine ⟨rfl, ?_⟩
    by_cases hut : u = t
    · exact .inl ⟨by simp [Event.isTimerOf, hut], by simp [State.sent, State.log, State.setTimers, hut]⟩
    · refine .inr ⟨by simp [Event.isTimerOf, hut], ?_⟩
      exact (List.mem_erase_of_ne (Ne.symm hut)).mpr ht
  | timerCloses u heap hu hc =>
    have hne : u ≠ t := by
      rintro rfl
      exact (List.nodup_append.mp hs.timers_nodup).2.2 u ht u hu rfl
    exact ⟨by simp [Event.isTimerClosedOf, hne], .inr ⟨rfl, ht⟩⟩
  | _ => exact ⟨rfl, .inr ⟨rfl, ht⟩⟩

/-- A closing timer stays closing until its close callback frees it. -/
theorem moved_closing (hs : Sound 0 s) (h : Moved s e s') {t : Nat} (ht : t ∈ s.closing) :
    e.isTimerOf t = false ∧ ((e.isTimerClosedOf t = true ∧ t ∈ s'.heap.freed) ∨
      (e.isTimerClosedOf t = false ∧ t ∈ s'.closing)) := by
  cases h with
  | fires u timestamp accepts heap hu hw =>
    have hne : u ≠ t := by
      rintro rfl
      exact (List.nodup_append.mp hs.timers_nodup).2.2 u hu u ht rfl
    refine ⟨by simp [Event.isTimerOf, hne], .inr ⟨rfl, ?_⟩⟩
    exact List.mem_append_left _ ht
  | timerCloses u heap hu hc =>
    refine ⟨rfl, ?_⟩
    by_cases hut : u = t
    · subst hut
      have hlt := Heap.lt_size_of_get (hs.timers u (List.mem_append_right _ hu))
      exact .inl ⟨by simp [Event.isTimerClosedOf], (hc.mem_freed_iff hlt).mpr (.inr (by simp))⟩
    · refine .inr ⟨by simp [Event.isTimerClosedOf, hut], ?_⟩
      exact (List.mem_erase_of_ne (Ne.symm hut)).mpr ht
  | _ => exact ⟨rfl, .inr ⟨rfl, ht⟩⟩

/-- A timer is started as a new block, and is armed then. -/
theorem moved_new_timer (h : Moved s e s') {t : Nat} (ht : .timerStart t ∈ s'.trace) :
    .timerStart t ∈ s.trace ∨ (s.heap.size ≤ t ∧ t ∈ s'.armed) := by
  cases h with
  | connects status timestamp accepts heap hp hpos hw =>
    simp [State.sent, State.log, State.withPhase] at ht
    exact .inl ht
  | writes q status client heap u hp hr hq hsent hc hu =>
    have hnew : s.heap.size ≤ u := hc.fresh u List.mem_cons_self
    unfold writeErrors at ht
    split at ht <;> simp [State.log] at ht ⊢ <;> rcases ht with ht | rfl
    all_goals first
      | exact .inl ht
      | exact .inr ⟨hnew, .inr rfl⟩
  | fires u timestamp accepts heap hu hw =>
    simp [State.sent, State.log, State.setTimers] at ht
    exact .inl ht
  | readFails timestamp out heap hp hn hc =>
    unfold readErrors at ht
    split at ht <;> simp [State.log, State.withPhase] at ht <;> exact .inl ht
  | _ =>
    simp [State.log, State.withPhase] at ht
    exact .inl ht

theorem WriteStage.step (hs : Sound 0 s) (h : Moved s e s') {r b : Nat}
    (hw : WriteStage es s r b) : WriteStage (es ++ [e]) s' r b := by
  cases hw with
  | queued q hq hr hb hn =>
    subst hr hb
    rcases moved_queue hs h hq with ⟨he, hfr, hfb⟩ | ⟨he, q', hq', hr', hb'⟩
    · exact .done hfr hfb (by rw [countP_snoc, hn, if_pos he])
    · exact .queued q' hq' hr' hb' (by rw [countP_snoc, hn, he]; rfl)
  | done hr hb hn =>
    have hcount := (counts_of_not_about es (not_about_freed hs h hr)).1
    exact .done (freed_mono h hr) (freed_mono h hb) (hcount.trans hn)

theorem TimerStage.step (hs : Sound 0 s) (h : Moved s e s') {t : Nat}
    (hw : TimerStage es s t) : TimerStage (es ++ [e]) s' t := by
  cases hw with
  | armed ht hf hc =>
    obtain ⟨hec, hmoved⟩ := moved_armed hs h ht
    have hc' : (es ++ [e]).countP (Event.isTimerClosedOf t) = 0 := by
      rw [countP_snoc, hc, hec]
      rfl
    rcases hmoved with ⟨he, ht'⟩ | ⟨he, ht'⟩
    · exact .closing ht' (by rw [countP_snoc, hf, if_pos he]) hc'
    · exact .armed ht' (by rw [countP_snoc, hf, he]; rfl) hc'
  | closing ht hf hc =>
    obtain ⟨hef, hmoved⟩ := moved_closing hs h ht
    have hf' : (es ++ [e]).countP (Event.isTimerOf t) = 1 := by
      rw [countP_snoc, hf, hef]
      rfl
    rcases hmoved with ⟨he, ht'⟩ | ⟨he, ht'⟩
    · exact .freed ht' hf' (by rw [countP_snoc, hc, if_pos he])
    · exact .closing ht' hf' (by rw [countP_snoc, hc, he]; rfl)
  | freed ht hf hc =>
    obtain ⟨-, hf', hc'⟩ := counts_of_not_about es (not_about_freed hs h ht)
    exact .freed (freed_mono h ht) (hf'.trans hf) (hc'.trans hc)

theorem write_counts (hs : Sound 0 s) {r b : Nat} (hw : WriteStage es s r b) :
    s.heap.freed.count r = es.countP (Event.isWroteOf r) ∧
      s.heap.freed.count b = es.countP (Event.isWroteOf r) ∧
      es.countP (Event.isWroteOf r) ≤ 1 := by
  cases hw with
  | queued q hq hr hb hn =>
    subst hr hb
    obtain ⟨b, hb, -⟩ := (hs.queued q hq).buf
    rw [hn, Heap.count_freed_of_get (hs.queued q hq).req, Heap.count_freed_of_get hb]
    exact ⟨rfl, rfl, Nat.zero_le _⟩
  | done hr hb hn =>
    rw [hn, List.count_eq_one_of_mem s.heap.once hr, List.count_eq_one_of_mem s.heap.once hb]
    exact ⟨rfl, rfl, Nat.le_refl _⟩

theorem timer_counts (hs : Sound 0 s) {t : Nat} (hw : TimerStage es s t) :
    s.heap.freed.count t = es.countP (Event.isTimerClosedOf t) ∧
      es.countP (Event.isTimerClosedOf t) ≤ es.countP (Event.isTimerOf t) ∧
      es.countP (Event.isTimerOf t) ≤ 1 := by
  cases hw with
  | armed ht hf hc =>
    rw [hf, hc, Heap.count_freed_of_get (hs.timers t (List.mem_append_left _ ht))]
    exact ⟨rfl, Nat.le_refl _, Nat.zero_le _⟩
  | closing ht hf hc =>
    rw [hf, hc, Heap.count_freed_of_get (hs.timers t (List.mem_append_right _ ht))]
    exact ⟨rfl, Nat.zero_le _, Nat.le_refl _⟩
  | freed ht hf hc =>
    rw [hf, hc, List.count_eq_one_of_mem s.heap.once ht]
    exact ⟨rfl, Nat.le_refl _, Nat.le_refl _⟩

/-! ## Every run -/

theorem Chain.step (hc : Chain es s) (h : Moved s e s') : Chain (es ++ [e]) s' where
  sound := hc.sound.step h
  sendCount := by
    rw [moved_sendCount h, countP_snoc, hc.sendCount]
  accepted := by
    have := moved_accepted h
    have := hc.accepted
    rw [countP_snoc]
    omega
  calls := by
    rw [moved_calls h, countP_snoc, hc.calls]
  numbers := by
    rw [moved_numbers h, countP_snoc, hc.numbers]
    split
    · rename_i he
      obtain ⟨hq, hr⟩ := send_idle hc.sound h he
      have hnext : s.sendCount = es.countP Event.isSend := by
        rw [hc.calls, hc.accepted, hc.sendCount, hq, hr]
        rfl
      rw [hnext, List.range'_concat]
      simp
      omega
    · simp
  writes := by
    intro r b hw
    rcases moved_new_write h hw with hw | ⟨hr, q, hq, hqr, hqb⟩
    · exact (hc.writes r b hw).step hc.sound h
    · have hnone := (counts_of_none (hc.young r hr)).1
      have hcount := (counts_of_not_about es (not_about_young hc.sound h hr)).1
      exact .queued q hq hqr hqb (hcount.trans hnone)
  timers := by
    intro t ht
    rcases moved_new_timer h ht with ht | ⟨hyoung, harmed⟩
    · exact (hc.timers t ht).step hc.sound h
    · obtain ⟨-, hf, hcl⟩ := counts_of_none (hc.young t hyoung)
      obtain ⟨-, hf', hcl'⟩ := counts_of_not_about es (not_about_young hc.sound h hyoung)
      exact .armed harmed (hf'.trans hf) (hcl'.trans hcl)
  closes := by
    intro t
    rw [moved_closes h, countP_snoc, hc.closes]
  young := by
    intro p hp x hx
    obtain ⟨gone, new, hchange⟩ := moved_change h
    have hp' := Nat.le_trans hchange.size_le hp
    rcases List.mem_append.mp hx with hx | hx
    · exact hc.young p hp' x hx
    · rw [List.mem_singleton.mp hx]
      exact not_about_young hc.sound h hp'

end step

/-- Why a run of the client stops: libuv holds an event back, or `send_count` overflows after
as many calls of `on_write`. -/
def RunStops (es : List Event) (r : Stop) : Prop :=
  r = .notNow ∨ (r = .fault .intOverflow ∧ INT_MAX ≤ es.countP Event.isWrote)

theorem chain_run (es : List Event) : Gives (RunStops es) (run step start es) (Chain es) := by
  refine run_gives chain_start ?_ ?_ es
  · rintro es e r (rfl | ⟨rfl, hmax⟩)
    · exact .inl rfl
    · refine .inr ⟨rfl, ?_⟩
      rw [countP_snoc]
      omega
  · intro es s e hc
    refine gives_mono (step_spec hc.sound e) ?_ fun s' h => hc.step h
    rintro r (rfl | ⟨rfl, hmax⟩)
    · exact .inl rfl
    · refine .inr ⟨rfl, ?_⟩
      rw [hc.sendCount] at hmax
      rw [countP_snoc]
      omega

/-! ## The law -/

/-- At most one write is accepted and not called back or timer armed, the sends are numbered in
order, each accepted write frees its request and its buffer in its own callback and each timer
fires, is closed and is freed once. The only thing that can go wrong is that `send_count` runs
out, after 2147483647 calls of `on_write`. -/
theorem the_send_chain_is_single_and_numbered (es : List Event) :
    (∀ s, run step start es = .ok s →
      s.trace.countP Act.isAccepted = es.countP Event.isWrote + s.client.queue.length ∧
      s.client.queue.length + s.armed.length ≤ 1 ∧
      s.sendCount = es.countP Event.isWrote ∧
      sentNumbers s.trace = List.range' 1 (es.countP Event.isSend) ∧
      (∀ r b, .uvWrite r b true ∈ s.trace →
        s.heap.freed.count r = es.countP (Event.isWroteOf r) ∧
        s.heap.freed.count b = es.countP (Event.isWroteOf r) ∧
        es.countP (Event.isWroteOf r) ≤ 1) ∧
      (∀ t, .timerStart t ∈ s.trace →
        s.trace.count (.timerClose t) = es.countP (Event.isTimerOf t) ∧
        s.heap.freed.count t = es.countP (Event.isTimerClosedOf t) ∧
        es.countP (Event.isTimerClosedOf t) ≤ es.countP (Event.isTimerOf t) ∧
        es.countP (Event.isTimerOf t) ≤ 1)) ∧
    ∀ f, run step start es = .error (.fault f) →
      f = .intOverflow ∧ INT_MAX ≤ es.countP Event.isWrote := by
  refine ⟨fun s hrun => ?_, fun f hrun => ?_⟩
  · have hc := of_gives (chain_run es) hrun
    have hchain := hc.sound.chain
    have hone := links_le_one s.client.phase
    refine ⟨hc.accepted, by omega, hc.sendCount, hc.numbers, fun r b hw => ?_, fun t ht => ?_⟩
    · exact write_counts hc.sound (hc.writes r b hw)
    · exact ⟨hc.closes t, timer_counts hc.sound (hc.timers t ht)⟩
  · rcases reason_of_gives (chain_run es) hrun with hr | ⟨hr, hmax⟩
    · cases hr
    · cases hr
      exact ⟨rfl, hmax⟩

/-- A run of two sends: the first write fails, its timer fires, and the second write waits. -/
def twoSends : List Event :=
  [.connected 0 "12:00:00" true, .wrote 0 (-32), .timer 2 "12:00:01" true, .timerClosed 2]

theorem the_chain_of_two_sends_is_numbered :
    ∃ s, run step start twoSends = .ok s ∧ s.client.queue.length + s.armed.length ≤ 1 ∧
      sentNumbers s.trace = [1, 2] ∧ s.heap.freed.count 0 = 1 ∧ s.heap.freed.count 1 = 1 ∧
      s.trace.count (.timerClose 2) = 1 ∧ s.heap.freed.count 2 = 1 := by
  have hran : (run step start twoSends).toOption.map State.trace =
      some [.print .connected, .uvWrite 0 1 true, .print (.sent "12:00:00" 102400 1),
        .print (.writeError (-32)), .timerStart 2, .uvWrite 3 4 true,
        .print (.sent "12:00:01" 102400 2), .timerClose 2] := by decide +kernel
  obtain ⟨s, hrun, htrace⟩ := ran hran
  obtain ⟨-, hone, -, hnumbers, hwrites, htimers⟩ :=
    (the_send_chain_is_single_and_numbered twoSends).1 s hrun
  obtain ⟨hreq, hbase, -⟩ := hwrites 0 1 (by simp [htrace])
  obtain ⟨hclose, hfree, -⟩ := htimers 2 (by simp [htrace])
  exact ⟨s, hrun, hone, hnumbers, hreq, hbase, hclose, hfree⟩

end linuxc.libuv_client
