-- The heap of the server over whole runs: nothing is freed twice or used after
-- it was freed, and each connection is closed once. But a uv_tcp_t is never
-- freed, so the heap is bounded by the live work only until a close completes.
import Linuxc.UvServerSteps

namespace linuxc.libuv_server

open event_runs block_heap libuv

variable {κ : Type} [DecidableEq κ]

/-! ## What is asked of a run -/

/-- Each live block is the handle of a connection that is not closed, or the request or the copy
of a reply whose callback is still to come. -/
def Bounded (s : State κ) : Prop :=
  ∀ p, (s.heap.get p).isSome →
    (∃ k conn, s.conns.lookup k = some conn ∧ conn.stream.phase ≠ .closed ∧ p = conn.handle) ∨
      ∃ k conn q, s.conns.lookup k = some conn ∧ q ∈ conn.stream.queue ∧
        (p = q.req ∨ p = q.base)

/-- The heap is bounded by the live work, and `uv_close` was called once at most for each
connection. -/
structure Tidy (s : State κ) : Prop where
  bounded : Bounded s
  closed_once : ∀ k, s.trace.count (.uvClose k) ≤ 1

/-- The close of a connection completes. -/
def Event.isClosed : Event κ → Bool
  | .closed _ => true
  | _ => false

/-- `uv_write` refuses a reply. -/
def Event.isRefused : Event κ → Bool
  | .read _ _ accepts (.data _) => !accepts
  | _ => false

/-! ## The phases of a connection -/

def State.phaseOf (s : State κ) (k : κ) : Option Phase :=
  (s.conns.lookup k).map fun conn => conn.stream.phase

/-- How often `uv_close` was called for a connection in a phase. -/
def closes : Option Phase → Nat
  | some .closing => 1
  | some .closed => 1
  | _ => 0

/-- What an event does to the phase of connection `k`. -/
inductive Turned (k : κ) (e : Event κ) : Option Phase → Option Phase → Prop
  | stays (p : Option Phase) : Turned k e p p
  | opens : Turned k e none (some .connected)
  | failsToOpen : Turned k e none (some .closing)
  | beginsToClose : Turned k e (some .connected) (some .closing)
  | closes (he : e = .closed k) : Turned k e (some .closing) (some .closed)

theorem count_uvClose (k₀ k : κ) :
    [Act.uvClose k₀].count (Act.uvClose k) = if k = k₀ then 1 else 0 := by
  rw [List.count_singleton]
  by_cases heq : k = k₀
  · simp [heq]
  · simp [heq, Ne.symm heq]

theorem phaseOf_of_lookup {s : State κ} {k : κ} {conn : Conn} (hk : s.conns.lookup k = some conn) :
    s.phaseOf k = some conn.stream.phase := by
  simp [State.phaseOf, hk]

theorem phaseOf_of_new {s : State κ} {k : κ} (hk : s.conns.lookup k = none) :
    s.phaseOf k = none := by
  simp [State.phaseOf, hk]

@[simp] theorem phaseOf_log (s : State κ) (acts : List (Act κ)) (k : κ) :
    (s.log acts).phaseOf k = s.phaseOf k := rfl

@[simp] theorem phaseOf_setConn (s : State κ) (k : κ) (conn : Conn) :
    (s.setConn k conn).phaseOf k = some conn.stream.phase := by
  simp [State.phaseOf, State.setConn]

theorem phaseOf_setConn_ne (s : State κ) {k k' : κ} (conn : Conn) (h : k' ≠ k) :
    (s.setConn k conn).phaseOf k' = s.phaseOf k' := by
  simp [State.phaseOf, State.setConn, AList.lookup_insert_ne h]

section step

variable {s s' : State κ} {e : Event κ}

theorem moved_turned (h : Moved s e s') (k : κ) : Turned k e (s.phaseOf k) (s'.phaseOf k) := by
  cases h with
  | connectionFails status k₀ accepted hneg => exact .stays _
  | accepts status k₀ heap h hpos hk hc hh =>
    by_cases heq : k = k₀
    · subst heq
      rw [phaseOf_of_new hk, phaseOf_setConn]
      exact .opens
    · rw [phaseOf_setConn_ne _ _ heq]
      exact .stays _
  | acceptFails status k₀ heap h hpos hk hc hh =>
    by_cases heq : k = k₀
    · subst heq
      rw [phaseOf_of_new hk, phaseOf_log, phaseOf_setConn]
      exact .failsToOpen
    · rw [phaseOf_log, phaseOf_setConn_ne _ _ heq]
      exact .stays _
  | replies k₀ timestamp accepts bytes conn heap q hk hp hb hw =>
    by_cases heq : k = k₀
    · subst heq
      rw [phaseOf_of_lookup hk, phaseOf_log, phaseOf_setConn]
      exact .stays _
    · rw [phaseOf_log, phaseOf_setConn_ne _ _ heq]
      exact .stays _
  | readsNothing k₀ timestamp accepts heap hc => exact .stays _
  | readFails k₀ timestamp accepts out conn heap hk hp hn hc =>
    by_cases heq : k = k₀
    · subst heq
      rw [phaseOf_of_lookup hk, hp, phaseOf_log, phaseOf_setConn]
      exact .beginsToClose
    · rw [phaseOf_log, phaseOf_setConn_ne _ _ heq]
      exact .stays _
  | writes k₀ q status conn stream heap hk hp hr hq hsent hc =>
    by_cases heq : k = k₀
    · subst heq
      rw [phaseOf_of_lookup hk, ← hp, phaseOf_log, phaseOf_setConn]
      exact .stays _
    · rw [phaseOf_log, phaseOf_setConn_ne _ _ heq]
      exact .stays _
  | transmits k₀ n conn bytes stream hk ht =>
    by_cases heq : k = k₀
    · subst heq
      rw [phaseOf_of_lookup hk, phaseOf_setConn]
      exact .stays _
    · rw [phaseOf_setConn_ne _ _ heq]
      exact .stays _
  | closes k₀ conn hk hp hq =>
    by_cases heq : k = k₀
    · subst heq
      rw [phaseOf_of_lookup hk, hp, phaseOf_setConn]
      exact .closes rfl
    · rw [phaseOf_setConn_ne _ _ heq]
      exact .stays _

/-- The books of `uv_close` when one connection changes. -/
theorem closes_changed {k₀ : κ} {p : Option Phase} (heap : Memory) (conn' : Conn)
    (acts : List (Act κ)) (n : Nat) (hp : s.phaseOf k₀ = p)
    (hcount : ∀ k, acts.count (Act.uvClose k) = if k = k₀ then n else 0)
    (hn : n + closes p = closes (some conn'.stream.phase)) (k : κ) :
    (({ s with heap }.setConn k₀ conn').log acts).trace.count (Act.uvClose k) +
        closes (s.phaseOf k) =
      s.trace.count (Act.uvClose k) +
        closes ((({ s with heap }.setConn k₀ conn').log acts).phaseOf k) := by
  have htrace : (({ s with heap }.setConn k₀ conn').log acts).trace = s.trace ++ acts := rfl
  rw [htrace, List.count_append, hcount, phaseOf_log]
  by_cases heq : k = k₀
  · subst heq
    rw [if_pos rfl, phaseOf_setConn, hp]
    omega
  · rw [if_neg heq, phaseOf_setConn_ne _ _ heq]
    rfl

/-- `uv_close` is called for a connection when it leaves the open phases. -/
theorem moved_closes (h : Moved s e s') (k : κ) :
    s'.trace.count (.uvClose k) + closes (s.phaseOf k) =
      s.trace.count (.uvClose k) + closes (s'.phaseOf k) := by
  cases h with
  | connectionFails status k₀ accepted hneg => simp [State.log, State.phaseOf]
  | accepts status k₀ heap h hpos hk hc hh =>
    have hnew := closes_changed heap ⟨h, ⟨.connected, true, []⟩⟩ [] 0 (phaseOf_of_new hk)
      (by simp) rfl k
    simpa [State.log] using hnew
  | acceptFails status k₀ heap h hpos hk hc hh =>
    exact closes_changed heap _ [.uvClose k₀] 1 (phaseOf_of_new hk) (count_uvClose k₀) rfl k
  | replies k₀ timestamp accepts bytes conn heap q hk hp hb hw =>
    have hsame : ∀ queue, (conn.setQueue queue).stream.phase = conn.stream.phase := fun _ => rfl
    refine closes_changed heap _ (replyActs k₀ timestamp q accepts) 0 (phaseOf_of_lookup hk) ?_ ?_ k
    · simp [replyActs]
    · rw [hsame, Nat.zero_add]
  | readsNothing k₀ timestamp accepts heap hc => rfl
  | readFails k₀ timestamp accepts out conn heap hk hp hn hc =>
    have hopen : s.phaseOf k₀ = some .connected := by rw [phaseOf_of_lookup hk, hp]
    refine closes_changed heap (conn.setPhase .closing false) (readErrors k₀ out.nread ++ [.uvClose k₀])
      1 hopen ?_ rfl k
    intro k
    rw [List.count_append, count_uvClose]
    unfold readErrors
    split <;> simp
  | writes k₀ q status conn stream heap hk hp hr hq hsent hc =>
    have hsame : s.phaseOf k₀ = some stream.phase := by rw [phaseOf_of_lookup hk, hp]
    refine closes_changed heap _ (writeErrors k₀ status) 0 hsame ?_ (Nat.zero_add _) k
    intro k
    unfold writeErrors
    split <;> simp
  | transmits k₀ n conn bytes stream hk ht =>
    have hsame := closes_changed s.heap (conn.setQueue (advance n conn.stream.queue)) [] 0
      (phaseOf_of_lookup hk) (by simp) (Nat.zero_add _) k
    simpa [State.log] using hsame
  | closes k₀ conn hk hp hq =>
    have hclosing : s.phaseOf k₀ = some .closing := by rw [phaseOf_of_lookup hk, hp]
    have hclosed := closes_changed s.heap (conn.setPhase .closed conn.stream.reading) [] 0
      hclosing (by simp) rfl k
    simpa [State.log] using hclosed

/-- A block is lost when `uv_write` refuses a reply, and only then. -/
theorem moved_lost (h : Moved s e s') :
    s'.trace.flatMap Act.lost ≠ [] ↔ s.trace.flatMap Act.lost ≠ [] ∨ e.isRefused = true := by
  cases h with
  | acceptFails status k heap h hpos hk hc hh =>
    simp [State.log, State.setConn, Act.lost, Event.isRefused]
  | connectionFails status k accepted hneg => simp [State.log, Act.lost, Event.isRefused]
  | replies k timestamp accepts bytes conn heap q hk hp hb hw =>
    cases accepts <;> simp [State.log, State.setConn, replyActs, Act.lost, Event.isRefused]
  | readFails k timestamp accepts out conn heap hk hp hn hc =>
    have hout : (Event.read k timestamp accepts out).isRefused = false := by
      cases out with
      | data bytes => exact absurd hn (Int.not_lt.mpr (Int.natCast_nonneg _))
      | _ => rfl
    have hlost := lost_readErrors k out.nread
    rw [hout]
    simp only [State.log, State.setConn, List.flatMap_append, hlost]
    simp
  | writes k q status conn stream heap hk hp hr hq hsent hc =>
    have hlost := lost_writeErrors k status
    simp only [State.log, State.setConn, List.flatMap_append, hlost]
    simp [Event.isRefused]
  | _ => simp [State.setConn, Event.isRefused]

/-- A connection is closed when its close completes, and it stays closed. -/
theorem moved_closed (h : Moved s e s') :
    (∃ k, s'.phaseOf k = some .closed) ↔
      (∃ k, s.phaseOf k = some .closed) ∨ e.isClosed = true := by
  constructor
  · rintro ⟨k, hk⟩
    have hturned := moved_turned h k
    rw [hk] at hturned
    generalize hp : s.phaseOf k = p at hturned
    cases hturned with
    | stays => exact .inl ⟨k, hp⟩
    | closes he => exact .inr (by simp [he, Event.isClosed])
  · rintro (⟨k, hk⟩ | he)
    · have hturned := moved_turned h k
      rw [hk] at hturned
      generalize hp : s'.phaseOf k = p at hturned
      cases hturned
      exact ⟨k, hp⟩
    · cases h with
      | closes k conn hk hp hq => exact ⟨k, by simp [Conn.setPhase]⟩
      | _ => simp [Event.isClosed] at he

end step

/-! ## Who owns a live block -/

section owners

variable {s : State κ} {k k' : κ} {conn conn' : Conn} {p : Nat}

/-- No block is owned by two connections. -/
theorem owner_unique (hs : Sound s) (hk : s.conns.lookup k = some conn) (hp : p ∈ conn.owned)
    (hk' : s.conns.lookup k' = some conn') (hp' : p ∈ conn'.owned) : k' = k := by
  by_contra hne
  obtain ⟨rest, hperm, -, hothers⟩ := connsOwned_of_lookup hk
  have hnodup : (conn.owned ++ rest).Nodup := by
    refine hperm.nodup_iff.mp ?_
    exact hs.ledger.nodup.sublist (List.sublist_append_left _ _)
  exact (List.nodup_append.mp hnodup).2.2 p hp p (hothers k' conn' hne hk' p hp') rfl

/-- The owner that boundedness names is a connection in the ledger. -/
theorem Bounded.owner (hb : Bounded s) (hp : (s.heap.get p).isSome) :
    ∃ k conn, s.conns.lookup k = some conn ∧ p ∈ conn.owned := by
  rcases hb p hp with ⟨k, conn, hk, -, rfl⟩ | ⟨k, conn, q, hk, hq, hpq⟩
  · exact ⟨k, conn, hk, List.mem_cons_self⟩
  · refine ⟨k, conn, hk, List.mem_cons_of_mem _ (List.mem_flatMap.mpr ⟨q, hq, ?_⟩)⟩
    simpa using hpq

/-- The handle of a closed connection is live, and it is no work any more. -/
theorem Bounded.not_closed (hs : Sound s) (hb : Bounded s) (k : κ) :
    s.phaseOf k ≠ some .closed := by
  intro hclosed
  obtain ⟨conn, hk, hphase⟩ := Option.map_eq_some_iff.mp hclosed
  have hhandle := (hs.conns k conn hk).handle
  rcases hb conn.handle (by simp [hhandle]) with ⟨k', conn', hk', hopen, hsame⟩ | ⟨k', conn', q, hk', hq, hpq⟩
  · have hin : conn.handle ∈ conn'.owned := by
      rw [hsame]
      exact List.mem_cons_self
    obtain rfl := owner_unique hs hk List.mem_cons_self hk' hin
    rw [hk] at hk'
    cases hk'
    exact hopen hphase
  · have hqueued := (hs.conns k' conn' hk').queued q hq
    obtain ⟨b, hbuf, -⟩ := hqueued.buf
    rcases hpq with hpq | hpq
    · rw [hpq, hqueued.req] at hhandle
      cases hhandle
    · rw [hpq, hbuf] at hhandle
      cases hhandle

/-- The blocks of a refused reply are live, and no connection owns them. -/
theorem Bounded.lost_nil (hs : Sound s) (hb : Bounded s) : s.trace.flatMap Act.lost = [] := by
  rw [List.eq_nil_iff_forall_not_mem]
  intro p hp
  have hlive := hs.ledger.mem_iff.mp (List.mem_append_right _ hp)
  obtain ⟨k, conn, hk, hown⟩ := hb.owner hlive
  exact (List.nodup_append.mp hs.ledger.nodup).2.2 p (mem_connsOwned hk hown) p hp rfl

theorem bounded_iff (hs : Sound s) :
    Bounded s ↔ (∀ k, s.phaseOf k ≠ some .closed) ∧ s.trace.flatMap Act.lost = [] := by
  refine ⟨fun hb => ⟨hb.not_closed hs, hb.lost_nil hs⟩, ?_⟩
  rintro ⟨hopen, hlost⟩ p hp
  have hin := hs.ledger.mem_iff.mpr hp
  rw [State.owned, hlost, List.append_nil] at hin
  obtain ⟨⟨k, conn⟩, hentry, hown⟩ := List.mem_flatMap.mp hin
  have hk : s.conns.lookup k = some conn := List.mem_dlookup s.conns.nodupKeys hentry
  rcases List.mem_cons.mp hown with rfl | hblock
  · refine .inl ⟨k, conn, hk, fun hclosed => hopen k ?_, rfl⟩
    rw [phaseOf_of_lookup hk, hclosed]
  · obtain ⟨q, hq, hpq⟩ := List.mem_flatMap.mp hblock
    exact .inr ⟨k, conn, q, hk, hq, by simpa using hpq⟩

end owners

/-! ## Every run -/

/-- What the events so far say about the state. -/
structure Books (es : List (Event κ)) (s : State κ) : Prop where
  sound : Sound s
  closes : ∀ k, s.trace.count (.uvClose k) = closes (s.phaseOf k)
  closed : (∃ k, s.phaseOf k = some .closed) ↔ ∃ e ∈ es, e.isClosed = true
  lost : s.trace.flatMap Act.lost ≠ [] ↔ ∃ e ∈ es, e.isRefused = true

theorem books_start : Books [] (start κ) where
  sound := sound_start
  closes := by simp [start, State.phaseOf, linuxc.libuv_server.closes]
  closed := by simp [start, State.phaseOf]
  lost := by simp [start]

theorem Books.step {es : List (Event κ)} {s s' : State κ} {e : Event κ} (hb : Books es s)
    (h : Moved s e s') : Books (es ++ [e]) s' where
  sound := hb.sound.step h
  closes := by
    intro k
    have hcount := moved_closes h k
    rw [hb.closes] at hcount
    omega
  closed := by
    rw [moved_closed h, hb.closed]
    simp [or_and_right, exists_or]
  lost := by
    rw [moved_lost h, hb.lost]
    simp [or_and_right, exists_or]

theorem books_run (es : List (Event κ)) :
    Gives Held (run step (start κ) es) (Books es) := by
  refine run_gives (R := fun _ => Held) books_start (fun _ _ _ hr => hr) ?_ es
  intro es s e hb
  exact gives_mono (step_spec hb.sound e) (fun _ hr => hr) fun s' h => hb.step h

/-! ## The law -/

/-- A tidy server whose connections are all closed and whose callbacks have all run holds no
block. -/
theorem Tidy.nothing_left {s : State κ} (ht : Tidy s)
    (hend : ∀ k conn, s.conns.lookup k = some conn →
      conn.stream.phase = .closed ∧ conn.stream.queue = []) (p : Nat) : s.heap.get p = none := by
  rw [← Option.not_isSome_iff_eq_none]
  intro hp
  rcases ht.bounded p hp with ⟨k, conn, hk, hopen, -⟩ | ⟨k, conn, q, hk, hq, -⟩
  · exact hopen (hend k conn hk).1
  · rw [(hend k conn hk).2] at hq
    cases hq

/-- But the server still holds the handle of every connection it ever had. -/
theorem the_server_keeps_every_handle (es : List (Event κ)) (s : State κ)
    (h : run step (start κ) es = .ok s) (k : κ) (conn : Conn) (hk : s.conns.lookup k = some conn) :
    s.heap.get conn.handle = some .tcp := by
  have hbooks := of_gives (books_run es) h
  exact (hbooks.sound.conns k conn hk).handle

/-- In no run does the server free a block twice, use a block that was freed or close a
connection twice. Its heap is bounded by the live work exactly as long as no connection's close
has completed and `uv_write` has refused no reply. -/
theorem the_servers_heap_is_bounded_until_a_connection_has_closed (es : List (Event κ)) :
    (∀ f, run step (start κ) es ≠ .error (.fault f)) ∧
      ∀ s, run step (start κ) es = .ok s →
        (∀ k, s.trace.count (.uvClose k) ≤ 1) ∧
        (Tidy s ↔ ∀ e ∈ es, e.isClosed = false ∧ e.isRefused = false) := by
  refine ⟨fun f hrun => ?_, fun s hrun => ?_⟩
  · have hheld : Held (.fault f) := reason_of_gives (books_run es) hrun
    cases hheld
  · have hbooks := of_gives (books_run es) hrun
    have honce : ∀ k, s.trace.count (.uvClose k) ≤ 1 := by
      intro k
      rw [hbooks.closes]
      unfold closes
      split <;> omega
    have htidy : Tidy s ↔ Bounded s := ⟨fun ht => ht.bounded, fun hb => ⟨hb, honce⟩⟩
    refine ⟨honce, ?_⟩
    rw [htidy, bounded_iff hbooks.sound]
    constructor
    · rintro ⟨hopen, hlost⟩ e he
      constructor
      · rw [← Bool.not_eq_true]
        intro hclosed
        obtain ⟨k, hk⟩ := hbooks.closed.mpr ⟨e, he, hclosed⟩
        exact hopen k hk
      · rw [← Bool.not_eq_true]
        intro hrefused
        exact hbooks.lost.mpr ⟨e, he, hrefused⟩ hlost
    · intro hes
      constructor
      · intro k hk
        obtain ⟨e, he, hclosed⟩ := hbooks.closed.mp ⟨k, hk⟩
        rw [(hes e he).1] at hclosed
        cases hclosed
      · by_contra hlost
        obtain ⟨e, he, hrefused⟩ := hbooks.lost.mp hlost
        rw [(hes e he).2] at hrefused
        cases hrefused

/-- A client connects, sends three bytes and gets its reply, and then a connection fails. -/
def oneReply : List (Event Nat) :=
  [.connection 0 7 true, .read 7 "12:00:00" true (.data [67, 67, 67]), .transmit 7 3, .wrote 7 2 0,
    .connection (-24) 8 true]

theorem the_server_is_tidy_after_one_reply :
    ∃ s, run step (start Nat) oneReply = .ok s ∧ s.heap.freed = [2, 3, 1] ∧ Tidy s := by
  have hran : (run step (start Nat) oneReply).toOption.map (fun s => s.heap.freed) =
      some [2, 3, 1] := by decide +kernel
  obtain ⟨s, hrun, hfreed⟩ := ran hran
  refine ⟨s, hrun, hfreed, ?_⟩
  refine (((the_servers_heap_is_bounded_until_a_connection_has_closed oneReply).2 s hrun).2).mpr ?_
  decide

/-- A client connects and goes away, and its connection is closed. -/
def oneVisit : List (Event Nat) :=
  [.connection 0 7 true, .read 7 "12:00:00" true (.fail UV_EOF), .closed 7]

/-- Every connection is closed and every callback has run, and the `uv_tcp_t` is still there. -/
theorem a_server_keeps_the_handle_of_a_closed_connection :
    (∃ s, run step (start Nat) oneVisit = .ok s ∧ s.trace = [.uvClose 7] ∧
      s.phaseOf 7 = some .closed ∧ (s.heap.get 0).isSome = true ∧ ¬ Tidy s) ∧
      ¬ ∀ es s, run step (start Nat) es = .ok s → Tidy s := by
  have hran : (run step (start Nat) oneVisit).toOption.map
      (fun s => (s.trace, s.phaseOf 7, (s.heap.get 0).isSome)) =
        some ([.uvClose 7], some .closed, true) := by decide +kernel
  obtain ⟨s, hrun, hview⟩ := ran hran
  simp only [Prod.mk.injEq] at hview
  obtain ⟨htrace, hphase, hlive⟩ := hview
  have hsound := (of_gives (books_run oneVisit) hrun).sound
  have hbad : ¬ Tidy s := fun ht => ht.bounded.not_closed hsound 7 hphase
  exact ⟨⟨s, hrun, htrace, hphase, hlive, hbad⟩, fun h => hbad (h _ s hrun)⟩

end linuxc.libuv_server
