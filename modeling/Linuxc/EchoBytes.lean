-- Where the bytes of the net are. Each connection is two legs, one each way,
-- and what the server reads from the first it writes into the second: so a
-- client reads back what it sent, less what is still under way.
import Linuxc.EchoNet

namespace linuxc.echo_net

open event_runs legs libuv

variable {ι : Type} [DecidableEq ι]

/-! ## Nothing goes wrong -/

structure Sound (s : Net ι) : Prop where
  clients : ∀ c, libuv_client.Sound 0 (s.clients c)
  server : libuv_server.Sound s.server

theorem sound_start : Sound (start ι) where
  clients := fun _ => libuv_client.sound_start
  server := libuv_server.sound_start

/-- Why an event of the net stops: libuv holds it back, or a `send_count` overflows. -/
def Stops (r : Stop) : Prop := r = .notNow ∨ r = .fault .intOverflow

section step

variable {s s' : Net ι} {e : Event ι}

theorem of_held {α : Type} {x : Except Stop α} {P : α → Prop} (h : Gives Held x P) :
    Gives Stops x P := gives_mono h (fun _ hr => .inl hr) fun _ ha => ha

theorem step_spec (hs : Sound s) (e : Event ι) : Gives Stops (step s e) Sound := by
  cases e with
  | client c e =>
    refine gives_bind (of_held (libuv_client.hands_spec (hs.clients c) e)) fun bytes _ => ?_
    refine gives_bind (gives_mono (libuv_client.step_spec (hs.clients c) e) ?_ fun _ h => h) ?_
    · rintro r (hr | ⟨hr, -⟩)
      · exact .inl hr
      · exact .inr hr
    · intro client hmoved
      refine gives_bind (of_held (receive_spec _ _)) fun down _ => gives_pure ⟨fun c' => ?_, hs.server⟩
      by_cases hc : c' = c
      · subst hc
        simpa [Net.setClient] using (hs.clients c').step hmoved
      · simpa [Net.setClient, hc] using hs.clients c'
  | server e =>
    refine gives_bind (of_held (libuv_server.hands_spec hs.server e)) fun bytes _ => ?_
    refine gives_bind (of_held (libuv_server.step_spec hs.server e)) fun server hmoved => ?_
    refine gives_bind (of_held (receive_spec _ _)) fun up _ => ?_
    exact gives_pure ⟨hs.clients, hs.server.step hmoved⟩
  | drop c up down =>
    simp only [step]
    split
    · exact gives_ok ⟨hs.clients, hs.server⟩
    · exact gives_error (.inl rfl)

end step

/-- What a client has queued can go on the wire. -/
theorem transmit_ok {s : Net ι} (hs : Sound s) (c : ι) {n : Nat} {q : Request}
    (hp : (s.clients c).client.phase = .connected)
    (hq : (s.clients c).client.queue.find? (fun q => q.sent < q.len) = some q) (hpos : 0 < n)
    (hn : q.sent + n ≤ q.len) :
    step s (.client c (.transmit n)) = .ok (s.setClient c
      { s.clients c with client := { (s.clients c).client with
        queue := advance n (s.clients c).client.queue } }
      (s.up c ++ List.replicate n libuv_client.fillByte) (s.down c)) := by
  have hok := libuv.transmit_ok (hs.clients c).queued hp hq hpos hn
  have hhands : (s.clients c).hands (.transmit n) =
      .ok (List.replicate n libuv_client.fillByte) := bind_ok_iff.mpr ⟨_, hok, rfl⟩
  have hstep : libuv_client.step (s.clients c) (.transmit n) = .ok { s.clients c with
      client := { (s.clients c).client with queue := advance n (s.clients c).client.queue } } :=
    bind_ok_iff.mpr ⟨_, hok, rfl⟩
  have hnone : receive (s.down c) [] = .ok (s.down c) := if_pos List.nil_prefix
  exact bind_ok_iff.mpr ⟨_, hhands, bind_ok_iff.mpr ⟨_, hstep, bind_ok_iff.mpr ⟨_, hnone, rfl⟩⟩⟩

theorem sound_run (es : List (Event ι)) : Gives Stops (run step (start ι) es) Sound := by
  refine run_gives (P := fun _ => Sound) (R := fun _ => Stops) sound_start (fun _ _ _ hr => hr) ?_ es
  exact fun _ s e hs => step_spec hs e

/-! ## The legs -/

/-- From a client to the server: `send_data` writes, `echo_read` reads. -/
def Net.upLeg (s : Net ι) (c : ι) : Leg where
  written := libuv_client.BUFFER_SIZE * (s.clients c).accepted
  queued := (s.clients c).held
  wire := (s.up c).length
  read := s.server.echoed c

/-- From the server to a client: `echo_read` writes, `on_read` reads. -/
def Net.downLeg (s : Net ι) (c : ι) : Leg where
  written := s.server.echoed c
  queued := s.server.held c
  wire := (s.down c).length
  read := (s.clients c).received

section legs

variable {s s' : Net ι} {e : Event ι}

theorem legs_client (hs : Sound s) {c : ι} {e : libuv_client.Event} {bytes down : List UInt8}
    {client : libuv_client.State} (hb : (s.clients c).hands e = .ok bytes)
    (hc : libuv_client.step (s.clients c) e = .ok client) (hr : s.down c = e.taken ++ down)
    {clean : Prop} (hclean : clean → client.troubled = false) :
    Leg.Step clean (s.upLeg c) ((s.setClient c client (s.up c ++ bytes) down).upLeg c) ∧
      Leg.Step clean (s.downLeg c) ((s.setClient c client (s.up c ++ bytes) down).downLeg c) := by
  have hmoved := of_gives (libuv_client.step_spec (hs.clients c) e) hc
  have hbytes := of_gives (libuv_client.hands_spec (hs.clients c) e) hb
  obtain ⟨hle, heq⟩ := libuv_client.moved_held hmoved
  constructor
  · have hwrites := Leg.Step.writes (s.upLeg c) _ client.held e.handed hle (heq ∘ hclean)
    simpa [Net.upLeg, Net.setClient, hbytes] using hwrites
  · have hlen : (s.downLeg c).wire = e.taken.length + down.length := by
      simp [Net.downLeg, hr]
    have hreads := @Leg.Step.reads clean (s.downLeg c) _ _ hlen
    have hreceived := libuv_client.moved_received hmoved
    simpa [Net.downLeg, Net.setClient, hreceived] using hreads

theorem legs_server (hs : Sound s) {e : libuv_server.Event ι} {bytes up : List UInt8}
    {server : libuv_server.State ι} (hb : s.server.hands e = .ok bytes)
    (hc : libuv_server.step s.server e = .ok server) (hr : s.up e.key = e.taken ++ up)
    {clean : Prop} (hclean : clean → server.troubled e.key = false) :
    Leg.Step clean (s.upLeg e.key)
        ((s.setServer e.key server up (s.down e.key ++ bytes)).upLeg e.key) ∧
      Leg.Step clean (s.downLeg e.key)
        ((s.setServer e.key server up (s.down e.key ++ bytes)).downLeg e.key) := by
  have hmoved := of_gives (libuv_server.step_spec hs.server e) hc
  have hbytes := of_gives (libuv_server.hands_spec hs.server e) hb
  obtain ⟨hle, heq⟩ := libuv_server.moved_held hmoved
  constructor
  · have hlen : (s.upLeg e.key).wire = e.taken.length + up.length := by
      simp [Net.upLeg, hr]
    have hreads := @Leg.Step.reads clean (s.upLeg e.key) _ _ hlen
    have hechoed := libuv_server.moved_echoed hmoved
    simpa [Net.upLeg, Net.setServer, hechoed] using hreads
  · have hwrites := Leg.Step.writes (s.downLeg e.key) _ (server.held e.key) e.handed hle
      (heq ∘ hclean)
    simpa [Net.downLeg, Net.setServer, hbytes] using hwrites

/-- Each event is a step of both legs of each connection. -/
theorem moved_legs (hs : Sound s) (h : Moved s e s') (c : ι) :
    Leg.Step (s'.troubled c = false) (s.upLeg c) (s'.upLeg c) ∧
      Leg.Step (s'.troubled c = false) (s.downLeg c) (s'.downLeg c) := by
  cases h with
  | client c₀ e bytes client down hb hc hr =>
    by_cases heq : c = c₀
    · subst heq
      refine legs_client hs hb hc hr fun hclean => ?_
      simpa [Net.troubled, Net.setClient] using (Bool.or_eq_false_iff.mp hclean).1
    · have hup : (s.setClient c₀ client (s.up c₀ ++ bytes) down).upLeg c = s.upLeg c := by
        simp [Net.upLeg, Net.setClient, heq]
      have hdown : (s.setClient c₀ client (s.up c₀ ++ bytes) down).downLeg c = s.downLeg c := by
        simp [Net.downLeg, Net.setClient, heq]
      rw [hup, hdown]
      exact ⟨.stays _, .stays _⟩
  | server e bytes server up hb hc hr =>
    by_cases heq : c = e.key
    · subst heq
      refine legs_server hs hb hc hr fun hclean => ?_
      simpa [Net.troubled, Net.setServer] using (Bool.or_eq_false_iff.mp hclean).2
    · have hmoved := of_gives (libuv_server.step_spec hs.server e) hc
      obtain ⟨hechoed, hheld⟩ := libuv_server.moved_others hmoved heq
      have hup : (s.setServer e.key server up (s.down e.key ++ bytes)).upLeg c = s.upLeg c := by
        simp [Net.upLeg, Net.setServer, heq, hechoed]
      have hdown : (s.setServer e.key server up (s.down e.key ++ bytes)).downLeg c =
          s.downLeg c := by
        simp [Net.downLeg, Net.setServer, heq, hechoed, hheld]
      rw [hup, hdown]
      exact ⟨.stays _, .stays _⟩
  | drop c₀ up down ht hu hd =>
    by_cases heq : c = c₀
    · subst heq
      have hsame : (s.setServer c s.server up down).troubled c = s.troubled c := rfl
      have hlost : ¬ (s.setServer c s.server up down).troubled c = false := by
        rw [hsame, ht]
        decide
      have hup := Leg.Step.loses (s.upLeg c) up.length hu.length_le hlost
      have hdown := Leg.Step.loses (s.downLeg c) down.length hd.length_le hlost
      exact ⟨by simpa [Net.upLeg, Net.setServer] using hup,
        by simpa [Net.downLeg, Net.setServer] using hdown⟩
    · have hup : (s.setServer c₀ s.server up down).upLeg c = s.upLeg c := by
        simp [Net.upLeg, Net.setServer, heq]
      have hdown : (s.setServer c₀ s.server up down).downLeg c = s.downLeg c := by
        simp [Net.downLeg, Net.setServer, heq]
      rw [hup, hdown]
      exact ⟨.stays _, .stays _⟩

/-- Trouble does not go away. -/
theorem moved_troubled (hs : Sound s) (h : Moved s e s') {c : ι} (ht : s'.troubled c = false) :
    s.troubled c = false := by
  obtain ⟨hclient, hserver⟩ := Bool.or_eq_false_iff.mp ht
  refine Bool.or_eq_false_iff.mpr ?_
  cases h with
  | client c₀ e bytes client down hb hc hr =>
    refine ⟨?_, hserver⟩
    by_cases heq : c = c₀
    · subst heq
      have hmoved := of_gives (libuv_client.step_spec (hs.clients c) e) hc
      exact libuv_client.moved_troubled hmoved (by simpa [Net.setClient] using hclient)
    · simpa [Net.setClient, heq] using hclient
  | server e bytes server up hb hc hr =>
    have hmoved := of_gives (libuv_server.step_spec hs.server e) hc
    exact ⟨hclient, libuv_server.moved_troubled hmoved hserver⟩
  | drop c₀ up down ht hu hd => exact ⟨hclient, hserver⟩

end legs

/-! ## Every run -/

section runs

variable {es : List (Event ι)} {s : Net ι}

/-- Only 'C' travels up and only 'S' comes down, whatever is dropped. -/
theorem fill_run (h : run step (start ι) es = .ok s) (c : ι) :
    (∀ b ∈ s.up c, b = libuv_client.fillByte) ∧ ∀ b ∈ s.down c, b = libuv_server.fillByte := by
  refine (run_keeps (P := fun s => Sound s ∧ (∀ b ∈ s.up c, b = libuv_client.fillByte) ∧
    ∀ b ∈ s.down c, b = libuv_server.fillByte) ⟨sound_start, by simp [start], by simp [start]⟩
      ?_ h).2
  rintro s e s' ⟨hs, hup, hdown⟩ hstep
  refine ⟨of_gives (step_spec hs e) hstep, ?_⟩
  cases moved_of_step hstep with
  | client c₀ e bytes client down hb hc hr =>
    by_cases heq : c = c₀
    · subst heq
      obtain rfl := of_gives (libuv_client.hands_spec (hs.clients c) e) hb
      rw [hr] at hdown
      simp only [Net.setClient, Function.update_self]
      refine ⟨fun b hb => ?_, fun b hb => hdown b (List.mem_append_right _ hb)⟩
      rcases List.mem_append.mp hb with hb | hb
      · exact hup b hb
      · exact List.eq_of_mem_replicate hb
    · simpa [Net.setClient, heq] using ⟨hup, hdown⟩
  | server e bytes server up hb hc hr =>
    by_cases heq : c = e.key
    · subst heq
      obtain rfl := of_gives (libuv_server.hands_spec hs.server e) hb
      rw [hr] at hup
      simp only [Net.setServer, Function.update_self]
      refine ⟨fun b hb => hup b (List.mem_append_right _ hb), fun b hb => ?_⟩
      rcases List.mem_append.mp hb with hb | hb
      · exact hdown b hb
      · exact List.eq_of_mem_replicate hb
    · simpa [Net.setServer, heq] using ⟨hup, hdown⟩
  | drop c₀ up down ht hu hd =>
    by_cases heq : c = c₀
    · subst heq
      simp only [Net.setServer, Function.update_self]
      exact ⟨fun b hb => hup b (hu.subset hb), fun b hb => hdown b (hd.subset hb)⟩
    · simpa [Net.setServer, heq] using ⟨hup, hdown⟩

theorem balanced_run (h : run step (start ι) es = .ok s) (c : ι) :
    (s.upLeg c).Balanced (s.troubled c = false) ∧
      (s.downLeg c).Balanced (s.troubled c = false) := by
  refine (run_keeps (P := fun s => Sound s ∧ (s.upLeg c).Balanced (s.troubled c = false) ∧
    (s.downLeg c).Balanced (s.troubled c = false)) ⟨sound_start, ?_, ?_⟩ ?_ h).2
  · exact ⟨Nat.zero_le _, fun _ => rfl⟩
  · exact ⟨Nat.zero_le _, fun _ => rfl⟩
  · rintro s e s' ⟨hs, hup, hdown⟩ hstep
    have hmoved := moved_of_step hstep
    obtain ⟨hstepUp, hstepDown⟩ := moved_legs hs hmoved c
    have hclean : s'.troubled c = false → s.troubled c = false := moved_troubled hs hmoved
    exact ⟨of_gives (step_spec hs e) hstep, hup.step hclean hstepUp, hdown.step hclean hstepDown⟩

end runs

/-! ## The laws -/

/-- A client never counts more bytes than the server has counted for it, and the server never more
than the client has sent. As long as there is no trouble on the connection, what the client has
sent and not yet got back is held in the two queues and on the two wires. -/
theorem no_byte_is_made_up_and_none_is_lost_without_trouble (es : List (Event ι)) (s : Net ι)
    (h : run step (start ι) es = .ok s) (c : ι) :
    (s.clients c).received ≤ s.server.echoed c ∧
      s.server.echoed c ≤ libuv_client.BUFFER_SIZE * (s.clients c).accepted ∧
      (s.troubled c = false →
        libuv_client.BUFFER_SIZE * (s.clients c).accepted = (s.clients c).received +
          ((s.clients c).held + (s.up c).length + (s.server.held c + (s.down c).length))) := by
  obtain ⟨hup, hdown⟩ := balanced_run h c
  exact hup.join hdown rfl

/-- A client connects, and the server takes the connection. -/
def meeting : List (Event Nat) :=
  [.client 7 (.connected 0 "12:00:00" true), .server (.connection 0 7 true)]

/-- Then, when three bytes have gone up, the server reads two of them, one comes back, and the
client reads it. -/
def echo : List (Event Nat) :=
  [.server (.read 7 "12:00:00" true (.data [67, 67])), .server (.transmit 7 1),
    .client 7 (.read "12:00:00" (.data [83]))]

/-- The net after the meeting. -/
def met : Net Nat :=
  match run step (start Nat) meeting with
  | .ok s => s
  | .error _ => start Nat

/-- And when three bytes have gone up. -/
def threeUp : Net Nat :=
  met.setClient 7 { met.clients 7 with client := { (met.clients 7).client with
    queue := advance 3 (met.clients 7).client.queue } }
    (met.up 7 ++ List.replicate 3 libuv_client.fillByte) (met.down 7)

theorem run_met : run step (start Nat) meeting = .ok met := by
  have hran : (run step (start Nat) meeting).toOption.map (fun s => s.server.conns.keys) =
      some [7] := by decide +kernel
  obtain ⟨s, hrun, -⟩ := ran hran
  unfold met
  rw [hrun]

theorem step_threeUp : step met (.client 7 (.transmit 3)) = .ok threeUp := by
  have hsound := of_gives (sound_run meeting) run_met
  exact transmit_ok hsound 7 (q := ⟨0, 1, 102400, 0⟩) (by decide +kernel) (by decide +kernel)
    (by decide) (by decide)

theorem one_byte_has_come_back :
    ∃ s, run step (start Nat) (meeting ++ .client 7 (.transmit 3) :: echo) = .ok s ∧
      s.upLeg 7 = ⟨102400, 102397, 1, 2⟩ ∧ s.downLeg 7 = ⟨2, 1, 0, 1⟩ ∧
      libuv_client.BUFFER_SIZE * (s.clients 7).accepted = (s.clients 7).received +
        ((s.clients 7).held + (s.up 7).length + (s.server.held 7 + (s.down 7).length)) := by
  have hran : (run step threeUp echo).toOption.map
      (fun s => (s.upLeg 7, s.downLeg 7, s.troubled 7)) =
        some (⟨102400, 102397, 1, 2⟩, ⟨2, 1, 0, 1⟩, false) := by decide +kernel
  obtain ⟨s, hecho, hview⟩ := ran hran
  simp only [Prod.mk.injEq] at hview
  obtain ⟨hup, hdown, hclean⟩ := hview
  have hrun : run step (start Nat) (meeting ++ .client 7 (.transmit 3) :: echo) = .ok s := by
    refine run_append_ok.mpr ⟨met, run_met, ?_⟩
    rw [run_cons, step_threeUp]
    exact hecho
  have hlaw := no_byte_is_made_up_and_none_is_lost_without_trouble _ s hrun 7
  exact ⟨s, hrun, hup, hdown, hlaw.2.2 hclean⟩

end linuxc.echo_net
