-- What each event does to the client, and the invariant that carries it: the
-- heap holds what the queue of writes and the timers need, and at most one
-- link of the chain write, timer, write is alive.
import Linuxc.UvClient

namespace linuxc.libuv_client

open event_runs block_heap libuv

/-! ## The invariant -/

/-- The request and the buffer of a refused write: nothing points to them any more. -/
def Act.lost : Act → List Nat
  | .uvWrite req base false => [req, base]
  | _ => []

def Act.isRefusal : Act → Bool
  | .uvWrite _ _ false => true
  | _ => false

/-- The blocks that are in use or lost. -/
def State.owned (s : State) : List Nat :=
  blocks s.client.queue ++ s.armed ++ s.closing ++ s.trace.flatMap Act.lost

/-- The links of the chain that the client should have: none before it is connected, and one
from then on. -/
def links : Phase → Nat
  | .connecting => 0
  | .failed => 0
  | .connected => 1
  | .closing => 1
  | .closed => 1

theorem links_le_one (phase : Phase) : links phase ≤ 1 := by
  cases phase <;> decide

/-- What holds of the client when the running callback has taken `k` links of the chain out of it;
between two callbacks `k` is 0. A link is a queued write, an armed timer, or the refusal that
ended the chain. -/
structure Sound (k : Nat) (s : State) : Prop where
  queued : ∀ q ∈ s.client.queue, Queued fillByte s.heap q
  timers : ∀ t ∈ s.armed ++ s.closing, s.heap.get t = some .timer
  ledger : Owns s.heap s.owned
  chain : s.client.queue.length + s.armed.length + s.trace.countP Act.isRefusal + k =
    links s.client.phase
  reading : s.client.reading = true → s.client.phase = .connected

theorem sound_start : Sound 0 start where
  queued := by simp [start]
  timers := by simp [start]
  ledger := owns_empty
  chain := rfl
  reading := by simp [start]

theorem Sound.timers_nodup {k : Nat} {s : State} (hs : Sound k s) :
    (s.armed ++ s.closing).Nodup := by
  refine hs.ledger.nodup.sublist ?_
  unfold State.owned
  rw [List.append_assoc (blocks s.client.queue)]
  exact (List.sublist_append_right _ _).trans (List.sublist_append_left _ _)

/-! ## What each event does -/

/-- What a write callback prints first. -/
def writeErrors (status : Int) : List Act :=
  if status ≠ 0 then [.print (.writeError status)] else []

/-- What a read that fails prints. -/
def readErrors (err : Int) : List Act :=
  if err ≠ UV_EOF then [.print (.readError err)] else []

/-- The write of a send that has not begun. -/
def newRequest (m : Memory) : Request := ⟨m.size, m.size + 1, BUFFER_SIZE, 0⟩

/-- The state after a send, when the heap is `heap` and `uv_write` has answered. -/
def State.sent (s : State) (heap : Memory) (timestamp : String) (accepted : Bool) : State :=
  { s with heap, client := { s.client with
    queue := if accepted then s.client.queue ++ [newRequest s.heap] else s.client.queue } }.log
    [.uvWrite s.heap.size (s.heap.size + 1) accepted,
      .print (.sent timestamp BUFFER_SIZE (s.sendCount + 1))]

def State.withPhase (s : State) (phase : Phase) (reading : Bool) : State :=
  { s with client := { s.client with phase, reading } }

def State.setTimers (s : State) (armed closing : List Nat) : State := { s with armed, closing }

inductive Moved (s : State) : Event → State → Prop
  | connectFails (status : Int) (timestamp : String) (accepts : Bool)
      (hp : s.client.phase = .connecting) (hs : status < 0) :
      Moved s (.connected status timestamp accepts)
        ((s.withPhase .failed s.client.reading).log [.print (.connectionError status)])
  | connects (status : Int) (timestamp : String) (accepts : Bool) (heap : Memory)
      (hp : s.client.phase = .connecting) (hs : 0 ≤ status)
      (hw : NewWrite fillByte BUFFER_SIZE s.heap heap (newRequest s.heap)) :
      Moved s (.connected status timestamp accepts)
        (((s.withPhase .connected true).log [.print .connected]).sent heap timestamp accepts)
  | writes (q : Request) (status : Int) (client : Stream) (heap : Memory) (t : Nat)
      (hp : client.phase = s.client.phase) (hr : client.reading = s.client.reading)
      (hq : s.client.queue.Perm (q :: client.queue)) (hsent : status = 0 → q.len ≤ q.sent)
      (hc : Change s.heap heap [q.req, q.base] [t]) (ht : heap.get t = some .timer) :
      Moved s (.wrote q.req status)
        ({ s with heap, client, sendCount := s.sendCount + 1, armed := s.armed ++ [t] }.log
          (writeErrors status ++ [Act.timerStart t]))
  | fires (t : Nat) (timestamp : String) (accepts : Bool) (heap : Memory) (ht : t ∈ s.armed)
      (hw : NewWrite fillByte BUFFER_SIZE s.heap heap (newRequest s.heap)) :
      Moved s (.timer t timestamp accepts)
        (((s.setTimers (s.armed.erase t) (s.closing ++ [t])).sent heap timestamp
          (accepts && s.client.isOpen)).log [.timerClose t])
  | timerCloses (t : Nat) (heap : Memory) (ht : t ∈ s.closing) (hc : Change s.heap heap [t] []) :
      Moved s (.timerClosed t) { s with heap, closing := s.closing.erase t }
  | reads (timestamp : String) (bytes : List UInt8) (heap : Memory)
      (hp : s.client.phase = .connected) (hb : (Readout.data bytes).Possible)
      (hc : Change s.heap heap [] []) :
      Moved s (.read timestamp (.data bytes))
        ({ s with heap }.log [.print (.received timestamp bytes.length)])
  | readsNothing (timestamp : String) (heap : Memory) (hp : s.client.phase = .connected)
      (hc : Change s.heap heap [] []) : Moved s (.read timestamp .again) { s with heap }
  | readFails (timestamp : String) (out : Readout) (heap : Memory)
      (hp : s.client.phase = .connected) (hn : out.nread < 0) (hc : Change s.heap heap [] []) :
      Moved s (.read timestamp out)
        (({ s with heap }.withPhase .closing false).log
          (readErrors out.nread ++ [Act.uvClose]))
  | transmits (n : Nat) (bytes : List UInt8) (client : Stream)
      (ht : Transmitted fillByte s.client s.heap n (bytes, client)) :
      Moved s (.transmit n) { s with client }
  | closes (hp : s.client.phase = .closing) (hq : s.client.queue = []) :
      Moved s .clientClosed (s.withPhase .closed s.client.reading)

/-- Why an event of the client stops: libuv holds it back, or `send_count` overflows. -/
def Stops (s : State) (r : Stop) : Prop :=
  r = .notNow ∨ (r = .fault .intOverflow ∧ INT_MAX ≤ s.sendCount)

theorem of_held {α : Type} {s : State} {x : Except Stop α} {P : α → Prop}
    (h : Gives Held x P) : Gives (Stops s) x P := gives_mono h (fun _ hr => .inl hr) fun _ ha => ha

theorem intSucc_spec (s : State) :
    Gives (Stops s) (intSucc s.sendCount) fun k => k = s.sendCount + 1 := by
  unfold intSucc
  split
  · exact gives_ok rfl
  · exact gives_error (.inr ⟨rfl, by omega⟩)

theorem closeTimer_ok {s : State} {t : Nat} (ht : s.heap.get t = some .timer)
    (hc : t ∉ s.closing) :
    s.closeTimer t = .ok ({ s with closing := s.closing ++ [t] }.log [.timerClose t]) := by
  unfold State.closeTimer
  rw [ht]
  exact if_neg hc

theorem sendData_spec (s : State) (timestamp : String) (accepts : Bool) (handle : Option Nat)
    (hh : ∀ t, handle = some t → s.heap.get t = some .timer ∧ t ∉ s.closing) :
    Gives (Stops s) (sendData s timestamp accepts handle) fun s' =>
      ∃ heap, NewWrite fillByte BUFFER_SIZE s.heap heap (newRequest s.heap) ∧
        s' = handle.elim (s.sent heap timestamp (accepts && s.client.isOpen)) fun t =>
          ((s.setTimers s.armed (s.closing ++ [t])).sent heap timestamp
            (accepts && s.client.isOpen)).log [.timerClose t] := by
  have hsent : ∀ heap k, { s with heap, client := (s.client.write accepts s.heap.size
      ⟨s.heap.size + 1, BUFFER_SIZE⟩).2 }.log [.uvWrite s.heap.size (s.heap.size + 1)
        (s.client.write accepts s.heap.size ⟨s.heap.size + 1, BUFFER_SIZE⟩).1, k] =
      { s with heap, client := { s.client with queue := if accepts && s.client.isOpen then
        s.client.queue ++ [newRequest s.heap] else s.client.queue } }.log
          [.uvWrite s.heap.size (s.heap.size + 1) (accepts && s.client.isOpen), k] := by
    intro heap k
    unfold Stream.write
    split <;> simp [*, newRequest]
  unfold sendData
  refine gives_bind (of_never (mallocWriteReq_spec s.heap BUFFER_SIZE)) ?_
  rintro ⟨wr, buf, m⟩ hnew
  obtain rfl : wr = s.heap.size := hnew.req_eq
  obtain rfl : buf = ⟨s.heap.size + 1, BUFFER_SIZE⟩ := hnew.buf_eq
  refine gives_bind (of_never (memset_spec fillByte hnew.buf (Nat.le_refl _))) ?_
  rintro heap ⟨hsize, b, -, hw, hget⟩
  have hfill : NewWrite fillByte BUFFER_SIZE s.heap heap (newRequest s.heap) :=
    hnew.filled (hw.trans (by simp [Block.fresh])) hsize hget
  refine gives_bind (intSucc_spec s) ?_
  rintro _ rfl
  simp only
  rw [hsent]
  cases handle with
  | none => exact gives_ok ⟨heap, hfill, rfl⟩
  | some t =>
    obtain ⟨ht, hclosing⟩ := hh t rfl
    have htimer := hfill.change.get_of_not_mem ht List.not_mem_nil
    exact gives_of_ok (closeTimer_ok (s := s.sent heap timestamp _) htimer hclosing)
      ⟨heap, hfill, rfl⟩

/-- The callback of a read that failed closes the handle. -/
theorem readFails_spec {s : State} (out : Readout) {m heap : Memory} {base : Option Nat}
    (timestamp : String) (hp : s.client.phase = .connected) (hn : out.nread < 0)
    (hfree : free m base = .ok heap) (hc : Change s.heap heap [] []) :
    Gives (Stops s) (onRead { s with heap := m } timestamp ⟨out.nread, base⟩)
      (Moved s (.read timestamp out)) := by
  have hclose : ∀ s' : State, s'.client = s.client →
      s'.uvClose = .ok ((s'.withPhase .closing false).log [.uvClose]) := by
    intro s' hs'
    simp [State.uvClose, Stream.close, hs', hp, State.withPhase, bind, Except.bind, pure, Except.pure]
  have hmoved := Moved.readFails timestamp out heap hp hn hc
  unfold readErrors at hmoved
  unfold onRead
  simp only
  rw [if_neg (Int.not_lt.mpr (Int.le_of_lt hn)), if_pos hn]
  by_cases heof : out.nread ≠ UV_EOF
  · rw [if_pos heof] at hmoved ⊢
    refine gives_bind_ok (hclose _ rfl) (gives_bind_ok hfree (gives_pure ?_))
    simpa [State.log, State.withPhase] using hmoved
  · rw [if_neg heof] at hmoved ⊢
    exact gives_bind_ok (hclose _ rfl) (gives_bind_ok hfree (gives_pure hmoved))

/-- A sound client takes every event that libuv delivers, unless `send_count` overflows. -/
theorem step_spec {s : State} (hs : Sound 0 s) (e : Event) :
    Gives (Stops s) (step s e) (Moved s e) := by
  cases e with
  | connected status timestamp accepts =>
    simp only [step]
    split
    · rename_i hp
      unfold onConnect
      split
      · rename_i hneg
        exact gives_pure (Moved.connectFails status timestamp accepts hp hneg)
      · rename_i hpos
        refine gives_mono (sendData_spec _ timestamp accepts none (by simp)) (fun _ hr => hr) ?_
        rintro _ ⟨heap, hw, rfl⟩
        have hopen : (accepts && Stream.isOpen ⟨.connected, true, s.client.queue⟩) = accepts := by
          simp [Stream.isOpen]
        show Moved _ _ (State.sent _ heap timestamp
          (accepts && Stream.isOpen ⟨.connected, true, s.client.queue⟩))
        rw [hopen]
        exact Moved.connects status timestamp accepts heap hp (Int.not_lt.mp hpos) hw
    · exact gives_error (.inl rfl)
  | wrote req status =>
    unfold step
    refine gives_bind (of_held (complete_spec s.client req status)) ?_
    rintro client ⟨hp, hr, q, rfl, hsent, hperm⟩
    have hq := hs.queued q (hperm.mem_iff.mpr List.mem_cons_self)
    obtain ⟨b, hb, -⟩ := hq.buf
    have hheap : ∀ s' : State, s'.heap = s.heap →
        Gives Never (freeWriteReq s'.heap q.req) fun m' => Change s.heap m' [q.req, q.base] [] := by
      intro s' hs'
      rw [hs']
      exact freeWriteReq_spec hq.req hb
    unfold onWrite
    refine gives_bind (of_never (hheap _ (by split <;> rfl))) ?_
    intro m hm
    refine gives_bind (P := fun k => k = s.sendCount + 1) ?_ ?_
    · split <;> exact intSucc_spec s
    rintro _ rfl
    have hc := hm.trans (Change.alloc m Cell.timer) (by simp)
    refine gives_pure ?_
    have hmoved := Moved.writes (s := s) q status client _ _ hp hr hperm hsent (by simpa using hc)
      (by simp [Heap.get_alloc])
    unfold writeErrors at hmoved
    split <;> simpa [*, State.log] using hmoved
  | timer t timestamp accepts =>
    simp only [step]
    split
    · rename_i ht
      have htimer := hs.timers t (List.mem_append_left _ ht)
      refine gives_mono (sendData_spec _ timestamp accepts (some t) ?_) (fun _ hr => hr) ?_
      · rintro _ ⟨⟩
        exact ⟨htimer, fun hc => (List.nodup_append.mp hs.timers_nodup).2.2 t ht t hc rfl⟩
      · rintro _ ⟨heap, hw, rfl⟩
        exact Moved.fires t timestamp accepts heap ht hw
    · exact gives_error (.inl rfl)
  | timerClosed t =>
    simp only [step]
    split
    · rename_i ht
      have htimer := hs.timers t (List.mem_append_right _ ht)
      obtain ⟨m, hfree, hsize, -, hget⟩ := Heap.free_spec htimer
      refine gives_bind_ok (orFault_ok hfree) (gives_pure (Moved.timerCloses t m ht ?_))
      exact (Change.refl s.heap).free_old (Heap.lt_size_of_get htimer) hsize hget
    · exact gives_error (.inl rfl)
  | read timestamp out =>
    unfold step
    refine gives_bind (of_held (read_spec s.client s.heap out)) ?_
    rintro ⟨args, m⟩ ⟨hp, -, hposs, hhand⟩
    obtain ⟨heap, hfree, hc⟩ := hhand.freed
    have hnread : args.nread = out.nread := hhand.nread
    simp only [onRead]
    rw [hnread]
    cases out with
    | data bytes =>
      have hpos : 0 < (Readout.data bytes).nread := Int.natCast_pos.mpr hposs.1
      rw [if_pos hpos]
      exact gives_bind_ok rfl (gives_bind_ok hfree (gives_pure (.reads timestamp bytes heap hp hposs hc)))
    | again => exact gives_bind_ok rfl (gives_bind_ok hfree (gives_pure (.readsNothing timestamp heap hp hc)))
    | fail err => exact readFails_spec (.fail err) timestamp hp hposs hfree hc
    | hangup => exact readFails_spec .hangup timestamp hp (by decide) hfree hc
  | transmit n =>
    unfold step
    refine gives_bind (of_held (transmit_spec n hs.queued)) ?_
    rintro ⟨bytes, client⟩ ht
    exact gives_pure (Moved.transmits n bytes client ht)
  | clientClosed =>
    simp only [step, Stream.finishClose]
    split
    · rename_i h
      exact gives_pure (Moved.closes h.1 h.2)
    · exact gives_error (.inl rfl)

/-! ## Every event keeps the invariant -/

section keeps

variable {k : Nat} {s : State}

theorem lost_of_not_refusal {a : Act} (h : a.isRefusal = false) : a.lost = [] := by
  cases a with
  | uvWrite req base accepted =>
    cases accepted with
    | true => rfl
    | false => cases h
  | _ => rfl

theorem Sound.log (hs : Sound k s) {acts : List Act} (h : ∀ a ∈ acts, a.isRefusal = false) :
    Sound k (s.log acts) where
  queued := hs.queued
  timers := hs.timers
  ledger := by
    have hlost : acts.flatMap Act.lost = [] := by
      rw [List.flatMap_eq_nil_iff]
      exact fun a ha => lost_of_not_refusal (h a ha)
    have howned : (s.log acts).owned = s.owned := by
      simp [State.owned, State.log, List.flatMap_append, hlost]
    rw [howned]
    exact hs.ledger
  chain := by
    have hnone : acts.countP Act.isRefusal = 0 := by
      rw [List.countP_eq_zero]
      intro a ha
      simp [h a ha]
    have := hs.chain
    simp only [State.log, List.countP_append, hnone]
    exact this
  reading := hs.reading

theorem Sound.withPhase (hs : Sound k s) {phase : Phase} {reading : Bool} (j : Nat)
    (hlinks : links phase = links s.client.phase + j) (hr : reading = true → phase = .connected) :
    Sound (k + j) (s.withPhase phase reading) where
  queued := hs.queued
  timers := hs.timers
  ledger := hs.ledger
  chain := by
    have := hs.chain
    simp only [State.withPhase]
    omega
  reading := hr

/-- A callback that leaves the heap as it was before keeps the invariant. -/
theorem Sound.change (hs : Sound k s) {heap : Memory} (hc : Change s.heap heap [] []) :
    Sound k { s with heap } where
  queued := fun q hq => (hs.queued q hq).change hc List.not_mem_nil List.not_mem_nil
  timers := fun t ht => hc.get_of_not_mem (hs.timers t ht) List.not_mem_nil
  ledger := hc.owns hs.ledger
  chain := hs.chain
  reading := hs.reading

/-- A send puts the missing link back, as a queued write or as a refusal. -/
theorem Sound.sent (hs : Sound (k + 1) s) {heap : Memory} (timestamp : String) (accepted : Bool)
    (hw : NewWrite fillByte BUFFER_SIZE s.heap heap (newRequest s.heap)) : Sound k (s.sent heap timestamp accepted) := by
  have hold : ∀ q ∈ s.client.queue, Queued fillByte heap q := fun q hq =>
    (hs.queued q hq).change hw.change List.not_mem_nil List.not_mem_nil
  have htimers : ∀ t ∈ s.armed ++ s.closing, heap.get t = some .timer := fun t ht =>
    hw.change.get_of_not_mem (hs.timers t ht) List.not_mem_nil
  have hledger : Owns heap ([s.heap.size + 1, s.heap.size] ++ s.owned) := hw.change.owns hs.ledger
  have hchain := hs.chain
  cases accepted with
  | true =>
    refine ⟨?_, htimers, hledger.perm ?_, ?_, hs.reading⟩
    · intro q hq
      rcases List.mem_append.mp hq with hq | hq
      · exact hold q hq
      · rw [List.mem_singleton.mp hq]
        exact hw.queued
    · rw [List.perm_iff_count]
      intro p
      simp only [State.owned, State.sent, State.log, newRequest, blocks, List.flatMap_append,
        List.flatMap_cons, List.flatMap_nil, Act.lost, List.count_append, List.count_cons,
        List.count_nil, if_true]
      omega
    · simp only [State.sent, State.log, List.countP_append, List.countP_cons, List.countP_nil,
        List.length_append, List.length_singleton, Act.isRefusal, if_true, Bool.false_eq_true,
        if_false]
      omega
  | false =>
    refine ⟨hold, htimers, hledger.perm ?_, ?_, hs.reading⟩
    · rw [List.perm_iff_count]
      intro p
      simp only [State.owned, State.sent, State.log, newRequest, blocks, List.flatMap_append,
        List.flatMap_cons, List.flatMap_nil, Act.lost, List.count_append, List.count_cons,
        List.count_nil, Bool.false_eq_true, if_false]
      omega
    · simp only [State.sent, State.log, List.countP_append, List.countP_cons, List.countP_nil,
        Act.isRefusal, if_true, Bool.false_eq_true, if_false]
      omega

/-- A timer that fires hands its link to the callback. -/
theorem Sound.fire (hs : Sound k s) {t : Nat} (ht : t ∈ s.armed) :
    Sound (k + 1) (s.setTimers (s.armed.erase t) (s.closing ++ [t])) where
  queued := hs.queued
  timers := by
    intro u hu
    have hperm := List.perm_cons_erase ht
    refine hs.timers u ?_
    simp only [State.setTimers, List.mem_append, List.mem_singleton] at hu ⊢
    rcases hu with hu | hu | rfl
    · exact .inl (List.mem_of_mem_erase hu)
    · exact .inr hu
    · exact .inl ht
  ledger := by
    refine hs.ledger.perm ?_
    rw [List.perm_iff_count]
    intro p
    have hcount := (List.perm_cons_erase ht).count_eq p
    rw [List.count_cons] at hcount
    simp only [State.owned, State.setTimers, List.count_append, List.count_cons, List.count_nil]
    omega
  chain := by
    have := hs.chain
    have hlen := (List.perm_cons_erase ht).length_eq
    rw [List.length_cons] at hlen
    simp only [State.setTimers]
    omega
  reading := hs.reading

/-- A write callback frees its request and buffer, and turns its link into an armed timer. -/
theorem Sound.write (hs : Sound k s) {q : Request} {client : Stream} {heap : Memory} {t n : Nat}
    (hp : client.phase = s.client.phase) (hr : client.reading = s.client.reading)
    (hq : s.client.queue.Perm (q :: client.queue)) (hc : Change s.heap heap [q.req, q.base] [t])
    (ht : heap.get t = some .timer) :
    Sound k { s with heap, client, sendCount := n, armed := s.armed ++ [t] } where
  queued := by
    intro x hx
    have := links_le_one s.client.phase
    have hchain := hs.chain
    have hlen := hq.length_eq
    have hpos : 0 < client.queue.length := List.length_pos_of_mem hx
    rw [List.length_cons] at hlen
    omega
  timers := by
    intro u hu
    simp only [List.mem_append, List.mem_singleton] at hu
    by_cases hut : u = t
    · rw [hut]
      exact ht
    have htimer := hs.timers u (by simp only [List.mem_append]; tauto)
    have hmem := hs.queued q (hq.mem_iff.mpr List.mem_cons_self)
    obtain ⟨b, hb, -⟩ := hmem.buf
    refine hc.get_of_not_mem htimer ?_
    -- a timer is neither a request nor a buffer
    simp only [List.mem_cons, List.not_mem_nil, or_false]
    rintro (rfl | rfl)
    · rw [hmem.req] at htimer
      cases htimer
    · rw [hb] at htimer
      cases htimer
  ledger := by
    have howned : s.owned.Perm ([q.req, q.base] ++ (blocks client.queue ++ s.armed ++ s.closing ++
        s.trace.flatMap Act.lost)) := by
      rw [List.perm_iff_count]
      intro p
      have hcount := (hq.flatMap_right fun q => [q.req, q.base]).count_eq p
      simp only [State.owned, blocks, List.flatMap_cons, List.count_append] at hcount ⊢
      omega
    refine (hc.owns (hs.ledger.perm howned)).perm ?_
    rw [List.perm_iff_count]
    intro p
    simp only [State.owned, List.count_append]
    omega
  chain := by
    have := hs.chain
    have hlen := hq.length_eq
    rw [List.length_cons] at hlen
    simp only [List.length_append, List.length_singleton, hp]
    omega
  reading := by
    rw [hr, hp]
    exact hs.reading

/-- The close callback of a timer frees it. -/
theorem Sound.timerCloses (hs : Sound k s) {t : Nat} {heap : Memory} (ht : t ∈ s.closing)
    (hc : Change s.heap heap [t] []) : Sound k { s with heap, closing := s.closing.erase t } where
  queued := by
    intro q hq
    have htimer := hs.timers t (List.mem_append_right _ ht)
    have hmem := hs.queued q hq
    obtain ⟨b, hb, -⟩ := hmem.buf
    refine hmem.change hc ?_ ?_
    · rw [List.mem_singleton]
      rintro rfl
      rw [hmem.req] at htimer
      cases htimer
    · rw [List.mem_singleton]
      rintro rfl
      rw [hb] at htimer
      cases htimer
  timers := by
    intro u hu
    obtain ⟨-, hclosing, hapart⟩ := List.nodup_append.mp hs.timers_nodup
    have hmem : u ∈ s.armed ++ s.closing ∧ u ≠ t := by
      rcases List.mem_append.mp hu with hu | hu
      · exact ⟨List.mem_append_left _ hu, hapart u hu t ht⟩
      · rw [hclosing.mem_erase_iff] at hu
        exact ⟨List.mem_append_right _ hu.2, hu.1⟩
    exact hc.get_of_not_mem (hs.timers u hmem.1) (by simpa using hmem.2)
  ledger := by
    have howned : s.owned.Perm ([t] ++ (blocks s.client.queue ++ s.armed ++ s.closing.erase t ++
        s.trace.flatMap Act.lost)) := by
      rw [List.perm_iff_count]
      intro p
      have hcount := (List.perm_cons_erase ht).count_eq p
      rw [List.count_cons] at hcount
      simp only [State.owned, List.count_append, List.count_cons, List.count_nil]
      omega
    exact hc.owns (hs.ledger.perm howned)
  chain := hs.chain
  reading := hs.reading

theorem Sound.transmit (hs : Sound k s) {n : Nat} {bytes : List UInt8} {client : Stream}
    (ht : Transmitted fillByte s.client s.heap n (bytes, client)) : Sound k { s with client } := by
  obtain rfl : client = { s.client with queue := advance n s.client.queue } := ht.stream
  refine ⟨ht.queued, hs.timers, ?_, ?_, hs.reading⟩
  · have hledger := hs.ledger
    simp only [State.owned] at hledger ⊢
    rw [blocks_advance]
    exact hledger
  · have hchain := hs.chain
    simp only
    rw [length_advance]
    exact hchain

/-- Every event keeps the invariant. -/
theorem Sound.step {s' : State} {e : Event} (hs : Sound 0 s) (h : Moved s e s') : Sound 0 s' := by
  cases h with
  | connectFails status timestamp accepts hp hneg =>
    refine (hs.withPhase 0 (by rw [hp]; rfl) ?_).log (by simp [Act.isRefusal])
    intro hr
    rw [hs.reading hr] at hp
    cases hp
  | connects status timestamp accepts heap hp hpos hw =>
    have hopen : Sound 1 (s.withPhase .connected true) :=
      hs.withPhase 1 (by rw [hp]; rfl) fun _ => rfl
    exact (hopen.log (by simp [Act.isRefusal])).sent timestamp accepts hw
  | writes q status client heap t hp hr hq hsent hc ht =>
    refine (hs.write hp hr hq hc ht).log ?_
    unfold writeErrors
    split <;> simp [Act.isRefusal]
  | fires t timestamp accepts heap ht hw =>
    have hsent := (hs.fire ht).sent timestamp (accepts && s.client.isOpen) hw
    exact hsent.log (by simp [Act.isRefusal])
  | timerCloses t heap ht hc => exact hs.timerCloses ht hc
  | reads timestamp bytes heap hp hb hc => exact (hs.change hc).log (by simp [Act.isRefusal])
  | readsNothing timestamp heap hp hc => exact hs.change hc
  | readFails timestamp out heap hp hn hc =>
    have hclosed : Sound 0 ({ s with heap }.withPhase .closing false) :=
      (hs.change hc).withPhase 0 (by simp only [hp]; rfl) (by simp)
    refine hclosed.log ?_
    unfold readErrors
    split <;> simp [Act.isRefusal]
  | transmits n bytes client ht => exact hs.transmit ht
  | closes hp hq =>
    refine hs.withPhase 0 (by rw [hp]; rfl) ?_
    intro hr
    rw [hs.reading hr] at hp
    cases hp

/-- Every run of the client keeps the invariant. -/
theorem sound_run {es : List Event} (h : run libuv_client.step start es = .ok s) : Sound 0 s :=
  run_keeps sound_start (fun _ e _ hs hstep => hs.step (of_gives (step_spec hs e) hstep)) h

end keeps

end linuxc.libuv_client
