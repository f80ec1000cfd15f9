-- The client and the close of its handle. on_read closes the handle when a read
-- fails, but nothing tells the chain of on_write and send_data: the next timer
-- writes to the closed handle, and what it allocated is lost.
import Linuxc.UvClientChain

namespace linuxc.libuv_client

open event_runs block_heap libuv

/-! ## What is asked of a run -/

/-- Each line of `send_data` comes right after a call of `uv_write`. -/
def Paired (trace : List Act) : Prop :=
  ∀ pre post timestamp size k, trace = pre ++ .print (.sent timestamp size k) :: post →
    ∃ pre' r b accepted, pre = pre' ++ [.uvWrite r b accepted]

/-- The client never writes to a handle it has closed, prints a send only for a write that was
accepted, and each request and buffer it allocates is in the queue or freed by its callback. -/
structure Proper (es : List Event) (s : State) : Prop where
  no_write_after_close : ∀ pre post, s.trace = pre ++ .uvClose :: post →
    ∀ r b accepted, .uvWrite r b accepted ∉ post
  lines_accepted : ∀ pre post timestamp size k,
    s.trace = pre ++ .print (.sent timestamp size k) :: post →
      ∃ pre' r b, pre = pre' ++ [.uvWrite r b true]
  handed_over : ∀ r b accepted, .uvWrite r b accepted ∈ s.trace →
    accepted = true ∧ WriteStage es s r b

/-- `on_read` gets an end of file or an error. -/
def Event.isReadFailure : Event → Bool
  | .read _ out => out.nread < 0
  | _ => false

/-- `uv_write` refuses the write of a call of `send_data`, although the handle is open. -/
def Event.isRefused : Event → Bool
  | .connected status _ accepts => 0 ≤ status && !accepts
  | .timer _ _ accepts => !accepts
  | _ => false

/-- Neither of the two. -/
def Event.Benign (e : Event) : Prop := e.isReadFailure = false ∧ e.isRefused = false

/-! ## The lines of a run -/

theorem paired_append {trace acts : List Act} (h : Paired trace) (ha : Paired acts) :
    Paired (trace ++ acts) := by
  intro pre post timestamp size k heq
  rcases List.append_eq_append_iff.mp heq with ⟨mid, hpre, hacts⟩ | ⟨mid, htrace, hpost⟩
  · obtain ⟨pre', r, b, accepted, rfl⟩ := ha mid post timestamp size k hacts
    exact ⟨trace ++ pre', r, b, accepted, by rw [hpre, List.append_assoc]⟩
  · cases mid with
    | nil =>
      obtain ⟨pre', r, b, accepted, hnil⟩ := ha [] post timestamp size k hpost.symm
      simp at hnil
    | cons x mid =>
      rw [List.cons_append, List.cons.injEq] at hpost
      obtain ⟨rfl, -⟩ := hpost
      exact h pre mid timestamp size k htrace

theorem paired_of_no_line {acts : List Act} (h : ∀ a ∈ acts, a.sentNumber = none) :
    Paired acts := by
  intro pre post timestamp size k heq
  have hline := h (.print (.sent timestamp size k)) (by simp [heq])
  cases hline

theorem paired_send (r b : Nat) (accepted : Bool) (timestamp : String) (size k : Nat) :
    Paired [.uvWrite r b accepted, .print (.sent timestamp size k)] := by
  intro pre post timestamp' size' k' heq
  cases pre with
  | nil => simp at heq
  | cons a pre =>
    simp only [List.cons_append, List.cons.injEq] at heq
    obtain ⟨rfl, heq⟩ := heq
    cases pre with
    | nil => exact ⟨[], r, b, accepted, rfl⟩
    | cons a pre => simp at heq

section step

variable {s s' : State} {e : Event} {es : List Event}

theorem moved_paired (h : Moved s e s') (hp : Paired s.trace) : Paired s'.trace := by
  cases h with
  | connects status timestamp accepts heap hph hpos hw =>
    have hline : Paired [Act.print .connected] := paired_of_no_line (by simp [Act.sentNumber])
    exact paired_append (paired_append hp hline) (paired_send _ _ _ _ _ _)
  | fires t timestamp accepts heap ht hw =>
    have hline : Paired [Act.timerClose t] := paired_of_no_line (by simp [Act.sentNumber])
    exact paired_append (paired_append hp (paired_send _ _ _ _ _ _)) hline
  | connectFails status timestamp accepts hph hneg =>
    exact paired_append hp (paired_of_no_line (by simp [Act.sentNumber]))
  | writes q status client heap t hph hr hq hsent hc ht =>
    refine paired_append hp (paired_of_no_line ?_)
    unfold writeErrors
    split <;> simp [Act.sentNumber]
  | reads timestamp bytes heap hph hb hc =>
    exact paired_append hp (paired_of_no_line (by simp [Act.sentNumber]))
  | readFails timestamp out heap hph hn hc =>
    refine paired_append hp (paired_of_no_line ?_)
    unfold readErrors
    split <;> simp [Act.sentNumber]
  | _ => exact hp

/-! ## As long as no read fails -/

/-- The handle has not been closed and no write has been refused. -/
structure Open (s : State) : Prop where
  not_closed : .uvClose ∉ s.trace
  not_refused : s.trace.countP Act.isRefusal = 0
  isOpen : s.client.isOpen = true

theorem open_start : Open start where
  not_closed := by simp [start]
  not_refused := rfl
  isOpen := rfl

theorem Open.step (ho : Open s) (h : Moved s e s') (he : e.Benign) : Open s' := by
  obtain ⟨hread, hrefused⟩ := he
  obtain ⟨hclosed, hnone, hopen⟩ := ho
  cases h with
  | connectFails status timestamp accepts hp hneg =>
    exact ⟨by simpa [State.log, State.withPhase] using hclosed,
      by simpa [State.log, State.withPhase, Act.isRefusal] using hnone, rfl⟩
  | connects status timestamp accepts heap hp hpos hw =>
    have haccepts : accepts = true := by simpa [Event.isRefused, hpos] using hrefused
    subst haccepts
    refine ⟨by simpa [State.sent, State.log, State.withPhase] using hclosed, ?_, rfl⟩
    simpa [State.sent, State.log, State.withPhase, List.countP_cons, Act.isRefusal] using hnone
  | writes q status client heap t hp hr hq hsent hc ht =>
    refine ⟨?_, ?_, ?_⟩
    · unfold writeErrors
      split <;> simpa [State.log] using hclosed
    · unfold writeErrors
      split <;> simpa [State.log, Act.isRefusal] using hnone
    · simpa [State.log, Stream.isOpen, hp] using hopen
  | fires t timestamp accepts heap ht hw =>
    have haccepts : accepts = true := by simpa [Event.isRefused] using hrefused
    subst haccepts
    rw [hopen]
    refine ⟨by simpa [State.sent, State.log, State.setTimers] using hclosed, ?_, ?_⟩
    · simpa [State.sent, State.log, State.setTimers, List.countP_cons, Act.isRefusal] using hnone
    · simpa [State.sent, State.log, State.setTimers, Stream.isOpen] using hopen
  | reads timestamp bytes heap hp hb hc =>
    exact ⟨by simpa [State.log] using hclosed, by simpa [State.log, Act.isRefusal] using hnone, hopen⟩
  | readFails timestamp out heap hp hn hc => simp [Event.isReadFailure, hn] at hread
  | transmits n bytes client ht =>
    obtain rfl : client = { s.client with queue := advance n s.client.queue } := ht.stream
    exact ⟨hclosed, hnone, hopen⟩
  | closes hp hq => simp [Stream.isOpen, hp] at hopen
  | _ => exact ⟨hclosed, hnone, hopen⟩

/-! ## Once a read has failed -/

theorem moved_links (h : Moved s e s') : links s.client.phase ≤ links s'.client.phase := by
  cases h with
  | connectFails status timestamp accepts hp hneg => simp [hp, links]
  | connects status timestamp accepts heap hp hpos hw => simp [hp, links]
  | writes q status client heap t hp hr hq hsent hc ht =>
    exact Nat.le_of_eq (congrArg links hp.symm)
  | readFails timestamp out heap hp hn hc => simp [State.log, State.withPhase, hp, links]
  | transmits n bytes client ht =>
    obtain rfl : client = { s.client with queue := advance n s.client.queue } := ht.stream
    exact Nat.le_refl _
  | closes hp hq => simp [State.withPhase, hp, links]
  | _ => exact Nat.le_refl _

/-- A read that fails and a write that is refused both come after the connect. -/
theorem links_of_not_benign (hs : Sound 0 s) (h : Moved s e s') (he : ¬ e.Benign) :
    links s'.client.phase = 1 := by
  have hle := moved_links h
  have hone := links_le_one s'.client.phase
  cases h with
  | connectFails status timestamp accepts hp hneg =>
    simp [Event.Benign, Event.isReadFailure, Event.isRefused] at he
    omega
  | connects status timestamp accepts heap hp hpos hw => rfl
  | fires t timestamp accepts heap ht hw =>
    have hchain := hs.chain
    have := List.length_pos_of_mem ht
    omega
  | reads timestamp bytes heap hp hb hc => exact congrArg links hp
  | readsNothing timestamp heap hp hc => exact congrArg links hp
  | readFails timestamp out heap hp hn hc => rfl
  | _ => simp [Event.Benign, Event.isReadFailure, Event.isRefused] at he

end step

/-! ## Every run -/

theorem paired_run {es : List Event} {s : State} (h : run step start es = .ok s) :
    Paired s.trace := by
  have hboth : Sound 0 s ∧ Paired s.trace := by
    refine run_keeps (P := fun s => Sound 0 s ∧ Paired s.trace)
      ⟨sound_start, paired_of_no_line (by simp [start])⟩ ?_ h
    rintro s e s' ⟨hs, hp⟩ hstep
    have hmoved := of_gives (step_spec hs e) hstep
    exact ⟨hs.step hmoved, moved_paired hmoved hp⟩
  exact hboth.2

theorem open_run {es : List Event} {s : State} (h : run step start es = .ok s)
    (hes : ∀ e ∈ es, e.Benign) : Open s := by
  have hboth : Sound 0 s ∧ ((∀ e ∈ es, e.Benign) → Open s) := by
    refine run_invariant (P := fun es s => Sound 0 s ∧ ((∀ e ∈ es, e.Benign) → Open s))
      ⟨sound_start, fun _ => open_start⟩ ?_ h
    rintro es s e s' ⟨hs, ho⟩ hstep
    have hmoved := of_gives (step_spec hs e) hstep
    refine ⟨hs.step hmoved, fun hall => ?_⟩
    exact (ho fun x hx => hall x (List.mem_append_left _ hx)).step hmoved (hall e (by simp))
  exact hboth.2 hes

theorem links_run {es : List Event} {s : State} (h : run step start es = .ok s)
    (hes : ∃ e ∈ es, ¬ e.Benign) : links s.client.phase = 1 := by
  have hboth : Sound 0 s ∧ ((∃ e ∈ es, ¬ e.Benign) → links s.client.phase = 1) := by
    refine run_invariant
      (P := fun es s => Sound 0 s ∧ ((∃ e ∈ es, ¬ e.Benign) → links s.client.phase = 1))
      ⟨sound_start, by simp⟩ ?_ h
    rintro es s e s' ⟨hs, hl⟩ hstep
    have hmoved := of_gives (step_spec hs e) hstep
    refine ⟨hs.step hmoved, ?_⟩
    rintro ⟨x, hx, hbad⟩
    rcases List.mem_append.mp hx with hx | hx
    · have hle := moved_links hmoved
      rw [hl ⟨x, hx, hbad⟩] at hle
      exact Nat.le_antisymm (links_le_one _) hle
    · rw [List.mem_singleton.mp hx] at hbad
      exact links_of_not_benign hs hmoved hbad
  exact hboth.2 hes

theorem proper_of_open {es : List Event} {s : State} (hc : Chain es s) (hp : Paired s.trace)
    (ho : Open s) : Proper es s := by
  have haccepted : ∀ r b accepted, .uvWrite r b accepted ∈ s.trace → accepted = true := by
    intro r b accepted hw
    have hnone := List.countP_eq_zero.mp ho.not_refused _ hw
    cases accepted with
    | true => rfl
    | false => exact absurd rfl hnone
  constructor
  · intro pre post heq
    exact absurd (by simp [heq]) ho.not_closed
  · intro pre post timestamp size k heq
    obtain ⟨pre', r, b, accepted, rfl⟩ := hp pre post timestamp size k heq
    obtain rfl := haccepted r b accepted (by simp [heq])
    exact ⟨pre', r, b, rfl⟩
  · intro r b accepted hw
    obtain rfl := haccepted r b accepted hw
    exact ⟨rfl, hc.writes r b hw⟩

/-- A chain that has ended has ended with a refused write. -/
theorem refused_of_ended {s : State} (hs : Sound 0 s) (hl : links s.client.phase = 1)
    (hq : s.client.queue = []) (ha : s.armed = []) : ∃ r b, .uvWrite r b false ∈ s.trace := by
  have hchain := hs.chain
  rw [hl, hq, ha] at hchain
  have hpos : 0 < s.trace.countP Act.isRefusal := by
    simp only [List.length_nil] at hchain
    omega
  obtain ⟨a, ha, hrefusal⟩ := List.countP_pos_iff.mp hpos
  cases a with
  | uvWrite r b accepted =>
    cases accepted with
    | true => cases hrefusal
    | false => exact ⟨r, b, ha⟩
  | _ => cases hrefusal

/-! ## The law -/

/-- As long as no read fails and no write is refused, the client sends properly in every state.
Once a read has failed it does not: when the write and the timer that were under way have been
called back, there has been a write that nothing will ever call back. -/
theorem the_client_sends_properly_until_a_read_fails (es : List Event) (s : State)
    (h : run step start es = .ok s) :
    ((∀ e ∈ es, e.Benign) → Proper es s) ∧
      ((∃ e ∈ es, ¬ e.Benign) → s.client.queue = [] → s.armed = [] → ¬ Proper es s) := by
  have hc := of_gives (chain_run es) h
  refine ⟨fun hes => proper_of_open hc (paired_run h) (open_run h hes), ?_⟩
  intro hes hq ha hproper
  obtain ⟨r, b, hw⟩ := refused_of_ended hc.sound (links_run h hes) hq ha
  have hrefused := (hproper.handed_over r b false hw).1
  cases hrefused

theorem the_client_sends_twice_properly :
    ∃ s, run step start twoSends = .ok s ∧ Proper twoSends s := by
  have hran : (run step start twoSends).toOption.map State.sendCount = some 1 := by decide +kernel
  obtain ⟨s, hrun, -⟩ := ran hran
  refine ⟨s, hrun, (the_client_sends_properly_until_a_read_fails twoSends s hrun).1 ?_⟩
  simp [twoSends, Event.Benign, Event.isReadFailure, Event.isRefused]

/-- The server closes while the first write waits: `on_read` closes the handle, the write is
cancelled, and its timer fires on the closed handle. -/
def closedWhileSending : List Event :=
  [.connected 0 "12:00:00" true, .read "12:00:00" (.fail UV_EOF), .wrote 0 (-125), .clientClosed,
    .timer 3 "12:00:01" true]

/-- The client writes to its closed handle, is refused and says that it sent. -/
theorem a_client_that_was_closed_says_that_it_sent :
    (∃ s, run step start closedWhileSending = .ok s ∧
      s.trace = [.print .connected, .uvWrite 0 1 true, .print (.sent "12:00:00" 102400 1), .uvClose,
        .print (.writeError (-125)), .timerStart 3, .uvWrite 4 5 false,
        .print (.sent "12:00:01" 102400 2), .timerClose 3] ∧ ¬ Proper closedWhileSending s) ∧
      ¬ ∀ es s, run step start es = .ok s → Proper es s := by
  have hran : (run step start closedWhileSending).toOption.map State.trace =
      some [.print .connected, .uvWrite 0 1 true, .print (.sent "12:00:00" 102400 1), .uvClose,
        .print (.writeError (-125)), .timerStart 3, .uvWrite 4 5 false,
        .print (.sent "12:00:01" 102400 2), .timerClose 3] := by decide +kernel
  obtain ⟨s, hrun, htrace⟩ := ran hran
  have hbad : ¬ Proper closedWhileSending s := by
    intro hproper
    have hrefused := (hproper.handed_over 4 5 false (by simp [htrace])).1
    cases hrefused
  exact ⟨⟨s, hrun, htrace, hbad⟩, fun h => hbad (h _ s hrun)⟩

end linuxc.libuv_client
