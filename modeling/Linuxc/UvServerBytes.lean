-- The bytes of the server, connection by connection: what echo_read counts,
-- what the accepted replies still hold, and what each event takes from its
-- connection and hands to it. An event touches no other connection.
import Linuxc.UvServerSteps

namespace linuxc.libuv_server

open event_runs block_heap libuv

variable {κ : Type} [DecidableEq κ]

/-! ## What is counted -/

/-- What a line of `echo_read` counts for connection `k`. -/
def Act.echoed (k : κ) : Act κ → Nat
  | .print (some k') (.received _ nread) => if k' = k then nread.toNat else 0
  | _ => 0

/-- Connection `k` is closed, or a write on it fails or is refused. -/
def Act.isTroubleOf (k : κ) : Act κ → Bool
  | .uvClose k' => k' = k
  | .print (some k') (.writeError _) => k' = k
  | .uvWrite k' _ _ _ false => k' = k
  | _ => false

def State.echoed (s : State κ) (k : κ) : Nat := tally (Act.echoed k) s.trace

def State.held (s : State κ) (k : κ) : Nat :=
  (s.conns.lookup k).elim 0 fun conn => libuv.held conn.stream.queue

def State.troubled (s : State κ) (k : κ) : Bool := s.trace.any (Act.isTroubleOf k)

/-- The connection of an event. -/
def Event.key : Event κ → κ
  | .connection _ k _ => k
  | .read k _ _ _ => k
  | .wrote k _ _ => k
  | .transmit k _ => k
  | .closed k => k

/-- The bytes that an event takes from those that have come in. -/
def Event.taken : Event κ → List UInt8
  | .read _ _ _ out => out.bytes
  | _ => []

/-- How many bytes an event hands to the kernel. -/
def Event.handed : Event κ → Nat
  | .transmit _ n => n
  | _ => 0

/-- The bytes that an event hands to the kernel. -/
def State.hands (s : State κ) : Event κ → Except Stop (List UInt8)
  | .transmit k n => do
    let conn ← s.getConn k
    let (bytes, _) ← conn.stream.transmit s.heap n
    return bytes
  | _ => return []

theorem held_of_lookup {s : State κ} {k : κ} {conn : Conn} (hk : s.conns.lookup k = some conn) :
    s.held k = libuv.held conn.stream.queue := by
  simp [State.held, hk]

theorem held_of_new {s : State κ} {k : κ} (hk : s.conns.lookup k = none) : s.held k = 0 := by
  simp [State.held, hk]

@[simp] theorem held_log (s : State κ) (acts : List (Act κ)) (k : κ) :
    (s.log acts).held k = s.held k := rfl

@[simp] theorem held_setConn (s : State κ) (k : κ) (conn : Conn) :
    (s.setConn k conn).held k = libuv.held conn.stream.queue := by
  simp [State.held, State.setConn]

/-! ## The books of one event -/

section step

variable {s s' : State κ} {e : Event κ}

/-- Only 'S' goes to the kernel. -/
theorem hands_spec (hs : Sound s) (e : Event κ) :
    Gives Held (s.hands e) fun bytes => bytes = List.replicate e.handed fillByte := by
  cases e with
  | transmit k n =>
    refine gives_bind (getConn_spec hs k) fun conn hk => ?_
    refine gives_bind (transmit_spec n (hs.conns k conn hk).queued) ?_
    rintro ⟨bytes, stream⟩ ht
    exact gives_pure ht.bytes
  | _ => exact gives_pure rfl

/-- What the server does in an event is about the connection of the event. -/
def Act.isAbout (k : κ) : Act κ → Prop
  | .print k' _ => k' = some k ∨ k' = none
  | .uvWrite k' _ _ _ _ => k' = k
  | .uvClose k' => k' = k

/-- An event adds to the trace what it does, and changes no other connection. -/
theorem moved_frame (h : Moved s e s') :
    (∃ acts, s'.trace = s.trace ++ acts ∧ ∀ a ∈ acts, a.isAbout e.key) ∧
      ∀ k, k ≠ e.key → s'.conns.lookup k = s.conns.lookup k := by
  have hother : ∀ (s : State κ) (k₀ : κ) (conn : Conn) (k : κ), k ≠ k₀ →
      (s.setConn k₀ conn).conns.lookup k = s.conns.lookup k := fun s k₀ conn k hne =>
    AList.lookup_insert_ne hne
  have hnone : ∀ (trace : List (Act κ)) (k : κ),
      ∃ acts, trace = trace ++ acts ∧ ∀ a ∈ acts, a.isAbout k :=
    fun trace k => ⟨[], (List.append_nil _).symm, by simp⟩
  cases h with
  | connectionFails status k accepted hneg =>
    exact ⟨⟨_, rfl, by simp [Act.isAbout]⟩, fun _ _ => rfl⟩
  | accepts status k heap h hpos hk hc hh => exact ⟨hnone _ _, hother _ k _⟩
  | acceptFails status k heap h hpos hk hc hh =>
    exact ⟨⟨_, rfl, by simp [Act.isAbout, Event.key]⟩, hother _ k _⟩
  | replies k timestamp accepts bytes conn heap q hk hp hb hw =>
    exact ⟨⟨_, rfl, by simp [replyActs, Act.isAbout, Event.key]⟩, hother _ k _⟩
  | readsNothing k timestamp accepts heap hc => exact ⟨hnone _ _, fun _ _ => rfl⟩
  | readFails k timestamp accepts out conn heap hk hp hn hc =>
    refine ⟨⟨_, rfl, ?_⟩, hother _ k _⟩
    unfold readErrors
    split <;> simp [Act.isAbout, Event.key]
  | writes k q status conn stream heap hk hp hr hq hsent hc =>
    refine ⟨⟨_, rfl, ?_⟩, hother _ k _⟩
    unfold writeErrors
    split <;> simp [Act.isAbout, Event.key]
  | transmits k n conn bytes stream hk ht => exact ⟨hnone _ _, hother _ k _⟩
  | closes k conn hk hp hq => exact ⟨hnone _ _, hother _ k _⟩

theorem moved_troubled (h : Moved s e s') {k : κ} (ht : s'.troubled k = false) :
    s.troubled k = false := by
  obtain ⟨⟨acts, hacts, -⟩, -⟩ := moved_frame h
  unfold State.troubled at ht ⊢
  rw [hacts, List.any_append, Bool.or_eq_false_iff] at ht
  exact ht.1

/-- The books of the other connections stay as they are. -/
theorem moved_others (h : Moved s e s') {k : κ} (hk : k ≠ e.key) :
    s'.echoed k = s.echoed k ∧ s'.held k = s.held k := by
  obtain ⟨⟨acts, hacts, habout⟩, hconns⟩ := moved_frame h
  have hzero : tally (Act.echoed k) acts = 0 := by
    clear hacts
    induction acts with
    | nil => rfl
    | cons a acts ih =>
      rw [tally_cons, ih fun a ha => habout a (List.mem_cons_of_mem _ ha), Nat.add_zero]
      have ha := habout a List.mem_cons_self
      cases a with
      | print k' line =>
        rcases ha with rfl | rfl
        · cases line <;> simp [Act.echoed, Ne.symm hk]
        · rfl
      | _ => rfl
  constructor
  · unfold State.echoed
    rw [hacts, tally_append, hzero, Nat.add_zero]
  · unfold State.held
    rw [hconns k hk]

/-- `echo_read` counts what was taken. -/
theorem moved_echoed (h : Moved s e s') :
    s'.echoed e.key = s.echoed e.key + e.taken.length := by
  unfold State.echoed
  cases h with
  | readFails k timestamp accepts out conn heap hk hp hn hc =>
    rw [Event.taken, Readout.bytes_of_neg hn]
    unfold readErrors
    split <;> simp [State.log, State.setConn, Act.echoed]
  | writes k q status conn stream heap hk hp hr hq hsent hc =>
    unfold writeErrors
    split <;> simp [State.log, State.setConn, Act.echoed, Event.taken]
  | replies k timestamp accepts bytes conn heap q hk hp hb hw =>
    simp [State.log, State.setConn, replyActs, Act.echoed, Event.taken, Event.key, hw.len]
  | _ => simp [State.log, State.setConn, Act.echoed, Event.taken]

/-- What is held and handed over was counted by `echo_read`. Without trouble, what was counted is
held or handed over. -/
theorem moved_held (h : Moved s e s') :
    s'.held e.key + e.handed + s.echoed e.key ≤ s.held e.key + s'.echoed e.key ∧
      (s'.troubled e.key = false →
        s'.held e.key + e.handed + s.echoed e.key = s.held e.key + s'.echoed e.key) := by
  rw [moved_echoed h]
  cases h with
  | accepts status k heap h hpos hk hc hh =>
    simp [Event.key, Event.handed, Event.taken, held_of_new hk, libuv.held]
  | acceptFails status k heap h hpos hk hc hh =>
    simp [Event.key, Event.handed, Event.taken, held_of_new hk, libuv.held]
  | replies k timestamp accepts bytes conn heap q hk hp hb hw =>
    have hq : libuv.held [q] = bytes.length := by
      simp [libuv.held, hw.len, hw.unsent]
    simp only [Event.key, Event.handed, Event.taken, Readout.bytes_data, held_log, held_setConn,
      held_of_lookup hk, Conn.setQueue]
    cases accepts with
    | true =>
      rw [if_pos rfl, held_append, hq]
      omega
    | false =>
      have htrouble : (({ s with heap }.setConn k (conn.setQueue conn.stream.queue)).log
          (replyActs k timestamp q false)).troubled k = true := by
        simp [State.troubled, State.log, replyActs, Act.isTroubleOf]
      rw [if_neg (by decide)]
      refine ⟨by omega, fun hnone => ?_⟩
      exact absurd (htrouble.symm.trans hnone) (by decide)
  | readFails k timestamp accepts out conn heap hk hp hn hc =>
    rw [Event.taken, Readout.bytes_of_neg hn]
    simp [Event.key, Event.handed, held_of_lookup hk, Conn.setPhase]
  | writes k q status conn stream heap hk hp hr hq hsent hc =>
    have hheld : libuv.held conn.stream.queue = q.len - q.sent + libuv.held stream.queue :=
      held_perm hq
    simp only [Event.key, Event.handed, Event.taken, held_log, held_setConn, held_of_lookup hk, hheld,
      List.length_nil]
    refine ⟨by omega, fun htrouble => ?_⟩
    have hstatus : status = 0 := by
      by_contra hne
      simp [State.troubled, State.log, writeErrors, hne, Act.isTroubleOf] at htrouble
    have := hsent hstatus
    omega
  | transmits k n conn bytes stream hk ht =>
    have hbooks : libuv.held (advance n conn.stream.queue) + n = libuv.held conn.stream.queue :=
      ht.held
    simp [Event.key, Event.handed, Event.taken, held_of_lookup hk, Conn.setQueue, hbooks]
  | closes k conn hk hp hq =>
    simp [Event.key, Event.handed, Event.taken, held_of_lookup hk, Conn.setPhase]
  | _ => simp [State.held, State.log, Event.key, Event.handed, Event.taken]

end step

end linuxc.libuv_server
