-- The bytes of the client: what on_read counts, what its accepted writes still
-- hold, and what each event takes from the connection and hands to it.
import Linuxc.UvClientChain

namespace linuxc.libuv_client

open event_runs block_heap libuv

/-! ## What is counted -/

/-- What a line of `on_read` counts. -/
def Act.received : Act → Nat
  | .print (.received _ nread) => nread.toNat
  | _ => 0

/-- The handle is closed, or a write fails or is refused. -/
def Act.isTrouble : Act → Bool
  | .uvClose => true
  | .print (.writeError _) => true
  | .uvWrite _ _ false => true
  | _ => false

def State.received (s : State) : Nat := tally Act.received s.trace

def State.accepted (s : State) : Nat := s.trace.countP Act.isAccepted

def State.held (s : State) : Nat := libuv.held s.client.queue

def State.troubled (s : State) : Bool := s.trace.any Act.isTrouble

/-- The bytes that an event takes from those that have come in. -/
def Event.taken : Event → List UInt8
  | .read _ out => out.bytes
  | _ => []

/-- How many bytes an event hands to the kernel. -/
def Event.handed : Event → Nat
  | .transmit n => n
  | _ => 0

/-- The bytes that an event hands to the kernel. -/
def State.hands (s : State) : Event → Except Stop (List UInt8)
  | .transmit n => do
    let (bytes, _) ← s.client.transmit s.heap n
    return bytes
  | _ => return []

/-! ## The books of one event -/

section step

variable {s s' : State} {e : Event}

/-- Only 'C' goes to the kernel. -/
theorem hands_spec (hs : Sound 0 s) (e : Event) :
    Gives Held (s.hands e) fun bytes => bytes = List.replicate e.handed fillByte := by
  cases e with
  | transmit n =>
    refine gives_bind (transmit_spec n hs.queued) ?_
    rintro ⟨bytes, client⟩ ht
    exact gives_pure ht.bytes
  | _ => exact gives_pure rfl

theorem moved_trace (h : Moved s e s') : ∃ acts, s'.trace = s.trace ++ acts := by
  cases h with
  | connects status timestamp accepts heap hp hpos hw =>
    exact ⟨_, List.append_assoc _ _ _⟩
  | fires t timestamp accepts heap ht hw => exact ⟨_, List.append_assoc _ _ _⟩
  | timerCloses t heap ht hc => exact ⟨[], (List.append_nil _).symm⟩
  | readsNothing timestamp heap hp hc => exact ⟨[], (List.append_nil _).symm⟩
  | transmits n bytes client ht => exact ⟨[], (List.append_nil _).symm⟩
  | closes hp hq => exact ⟨[], (List.append_nil _).symm⟩
  | _ => exact ⟨_, rfl⟩

theorem moved_troubled (h : Moved s e s') (ht : s'.troubled = false) : s.troubled = false := by
  obtain ⟨acts, hacts⟩ := moved_trace h
  unfold State.troubled at ht ⊢
  rw [hacts, List.any_append, Bool.or_eq_false_iff] at ht
  exact ht.1

/-- `on_read` counts what was taken. -/
theorem moved_received (h : Moved s e s') : s'.received = s.received + e.taken.length := by
  unfold State.received
  cases h with
  | writes q status client heap t hp hr hq hsent hc ht =>
    unfold writeErrors
    split <;> simp [State.log, Act.received, Event.taken]
  | readFails timestamp out heap hp hn hc =>
    rw [Event.taken, Readout.bytes_of_neg hn]
    unfold readErrors
    split <;> simp [State.log, State.withPhase, Act.received]
  | _ => simp [State.sent, State.log, State.withPhase, State.setTimers, Act.received, Event.taken]

/-- A send holds as much as it writes. -/
theorem held_sent (s : State) (heap : Memory) (timestamp : String) (accepted : Bool) :
    (s.sent heap timestamp accepted).held + BUFFER_SIZE * s.accepted =
      s.held + BUFFER_SIZE * (s.sent heap timestamp accepted).accepted := by
  cases accepted with
  | true =>
    have hone : (s.sent heap timestamp true).accepted = s.accepted + 1 := by
      simp [State.accepted, State.sent, State.log, List.countP_cons, Act.isAccepted]
    have hheld : (s.sent heap timestamp true).held = s.held + BUFFER_SIZE := by
      simp [State.held, State.sent, State.log, held_append, libuv.held, newRequest]
    rw [hone, hheld, Nat.mul_succ]
    omega
  | false =>
    simp [State.held, State.accepted, State.sent, State.log, Act.isAccepted]

theorem accepted_writeErrors (status : Int) (t : Nat) :
    (writeErrors status ++ [Act.timerStart t]).countP Act.isAccepted = 0 := by
  unfold writeErrors
  split <;> simp [Act.isAccepted]

/-- What is held and handed over was written. Without trouble, what was written is held or handed
over. -/
theorem moved_held (h : Moved s e s') :
    s'.held + e.handed + BUFFER_SIZE * s.accepted ≤ s.held + BUFFER_SIZE * s'.accepted ∧
      (s'.troubled = false →
        s'.held + e.handed + BUFFER_SIZE * s.accepted = s.held + BUFFER_SIZE * s'.accepted) := by
  cases h with
  | connects status timestamp accepts heap hp hpos hw =>
    have hbooks := held_sent ((s.withPhase .connected true).log [.print .connected]) heap timestamp
      accepts
    have haccepted : ((s.withPhase .connected true).log [.print .connected]).accepted =
        s.accepted := by
      simp [State.accepted, State.log, State.withPhase, Act.isAccepted]
    rw [haccepted] at hbooks
    exact ⟨Nat.le_of_eq hbooks, fun _ => hbooks⟩
  | writes q status client heap t hp hr hq hsent hc ht =>
    have hheld : libuv.held s.client.queue = q.len - q.sent + libuv.held client.queue :=
      held_perm hq
    simp only [State.held, State.accepted, State.log, List.countP_append,
      accepted_writeErrors status t, Event.handed, hheld, Nat.add_zero]
    refine ⟨by omega, fun htrouble => ?_⟩
    have hstatus : status = 0 := by
      by_contra hne
      simp [State.troubled, writeErrors, hne, Act.isTrouble] at htrouble
    have := hsent hstatus
    omega
  | fires t timestamp accepts heap ht hw =>
    have hbooks := held_sent (s.setTimers (s.armed.erase t) (s.closing ++ [t])) heap timestamp
      (accepts && s.client.isOpen)
    have haccepted : ∀ s : State, (s.log [.timerClose t]).accepted = s.accepted := by
      simp [State.accepted, State.log, Act.isAccepted]
    rw [haccepted]
    exact ⟨Nat.le_of_eq hbooks, fun _ => hbooks⟩
  | readFails timestamp out heap hp hn hc =>
    unfold readErrors
    split <;> simp [State.held, State.accepted, State.log, State.withPhase, Act.isAccepted, Event.handed]
  | transmits n bytes client ht =>
    obtain rfl : client = { s.client with queue := advance n s.client.queue } := ht.stream
    have hbooks : libuv.held (advance n s.client.queue) + n = libuv.held s.client.queue := ht.held
    simp only [State.held, State.accepted, Event.handed, hbooks, Nat.le_refl, implies_true, true_and]
  | _ => simp [State.held, State.accepted, State.log, State.withPhase, Act.isAccepted, Event.handed]

end step

end linuxc.libuv_client
