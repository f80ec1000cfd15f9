-- The clients and the server together. Each connection is two wires, one each
-- way, and a wire is a queue of bytes: a write that libuv gets on with adds to
-- its end, and a read takes from its front as much as it finds.
import Linuxc.Legs
import Linuxc.UvClientBytes
import Linuxc.UvServerBytes
import Mathlib.Logic.Function.Basic

namespace linuxc.echo_net

open event_runs legs libuv

variable {ι : Type} [DecidableEq ι]

/-! ## The net -/

/-- The clients, the server, and the bytes that are on their way from each client to the server
and back. -/
structure Net (ι : Type) where
  clients : ι → libuv_client.State
  server : libuv_server.State ι
  up : ι → List UInt8
  down : ι → List UInt8

def start (ι : Type) : Net ι :=
  ⟨fun _ => libuv_client.start, libuv_server.start ι, fun _ => [], fun _ => []⟩

/-- One of the ends of a connection was closed, or a write on it failed or was refused. -/
def Net.troubled (s : Net ι) (c : ι) : Bool := (s.clients c).troubled || s.server.troubled c

/-- An event of one of the programs; or the wires of a connection lose bytes. The connection of a
client is known to the server by the name of the client. -/
inductive Event (ι : Type)
  | client (c : ι) (e : libuv_client.Event)
  | server (e : libuv_server.Event ι)
  | drop (c : ι) (up down : List UInt8)
  deriving DecidableEq, Repr

/-- What is left on a wire when a read takes its first bytes. -/
def receive (wire bytes : List UInt8) : Except Stop (List UInt8) :=
  if bytes <+: wire then .ok (wire.drop bytes.length) else .error .notNow

/-- The net when client `c` has changed, with its wires. -/
def Net.setClient (s : Net ι) (c : ι) (client : libuv_client.State) (up down : List UInt8) : Net ι where
  clients := Function.update s.clients c client
  server := s.server
  up := Function.update s.up c up
  down := Function.update s.down c down

/-- The net when the server has changed, with the wires of connection `c`. -/
def Net.setServer (s : Net ι) (c : ι) (server : libuv_server.State ι) (up down : List UInt8) :
    Net ι where
  clients := s.clients
  server := server
  up := Function.update s.up c up
  down := Function.update s.down c down

/-- Only a connection in trouble loses bytes. -/
def step (s : Net ι) : Event ι → Except Stop (Net ι)
  | .client c e => do
    let bytes ← (s.clients c).hands e
    let client ← libuv_client.step (s.clients c) e
    let down ← receive (s.down c) e.taken
    return s.setClient c client (s.up c ++ bytes) down
  | .server e => do
    let bytes ← s.server.hands e
    let server ← libuv_server.step s.server e
    let up ← receive (s.up e.key) e.taken
    return s.setServer e.key server up (s.down e.key ++ bytes)
  | .drop c up down =>
    if s.troubled c ∧ up.Sublist (s.up c) ∧ down.Sublist (s.down c) then
      .ok (s.setServer c s.server up down)
    else .error .notNow

/-! ## What each event does -/

inductive Moved (s : Net ι) : Event ι → Net ι → Prop
  | client (c : ι) (e : libuv_client.Event) (bytes : List UInt8) (client : libuv_client.State)
      (down : List UInt8) (hb : (s.clients c).hands e = .ok bytes)
      (hc : libuv_client.step (s.clients c) e = .ok client) (hr : s.down c = e.taken ++ down) :
      Moved s (.client c e) (s.setClient c client (s.up c ++ bytes) down)
  | server (e : libuv_server.Event ι) (bytes : List UInt8) (server : libuv_server.State ι)
      (up : List UInt8) (hb : s.server.hands e = .ok bytes)
      (hs : libuv_server.step s.server e = .ok server) (hr : s.up e.key = e.taken ++ up) :
      Moved s (.server e) (s.setServer e.key server up (s.down e.key ++ bytes))
  | drop (c : ι) (up down : List UInt8) (ht : s.troubled c = true) (hu : up.Sublist (s.up c))
      (hd : down.Sublist (s.down c)) : Moved s (.drop c up down) (s.setServer c s.server up down)

section step

variable {s s' : Net ι} {e : Event ι}

theorem receive_spec (wire bytes : List UInt8) :
    Gives Held (receive wire bytes) fun rest => wire = bytes ++ rest := by
  unfold receive
  split
  · rename_i hprefix
    obtain ⟨rest, rfl⟩ := hprefix
    exact gives_ok (by rw [List.drop_left])
  · exact gives_error rfl

theorem moved_of_step (h : step s e = .ok s') : Moved s e s' := by
  cases e with
  | client c e =>
    simp only [step, bind_ok_iff] at h
    obtain ⟨bytes, hb, client, hc, down, hr, h⟩ := h
    obtain rfl := Except.ok.inj h
    have hrest := of_gives (receive_spec (s.down c) e.taken) hr
    exact .client c e bytes client down hb hc hrest
  | server e =>
    simp only [step, bind_ok_iff] at h
    obtain ⟨bytes, hb, server, hs, up, hr, h⟩ := h
    obtain rfl := Except.ok.inj h
    have hrest := of_gives (receive_spec (s.up e.key) e.taken) hr
    exact .server e bytes server up hb hs hrest
  | drop c up down =>
    simp only [step] at h
    split at h
    · rename_i hdrop
      obtain rfl := Except.ok.inj h
      exact .drop c up down hdrop.1 hdrop.2.1 hdrop.2.2
    · cases h

end step

/-! ## The net runs the two programs -/

/-- The events of client `c`. -/
def Event.ofClient (c : ι) : Event ι → List libuv_client.Event
  | .client c' e => if c' = c then [e] else []
  | _ => []

/-- The events of the server. -/
def Event.ofServer : Event ι → List (libuv_server.Event ι)
  | .server e => [e]
  | _ => []

section programs

variable {es : List (Event ι)} {s : Net ι}

/-- In a run of the net, each client does a run of its own. -/
theorem client_run (h : run step (start ι) es = .ok s) (c : ι) :
    run libuv_client.step libuv_client.start (es.flatMap (Event.ofClient c)) =
      .ok (s.clients c) := by
  refine run_view (fun s : Net ι => s.clients c) ?_ h
  intro s e s' hstep
  cases moved_of_step hstep with
  | client c' e bytes client down hb hc hr =>
    by_cases heq : c' = c
    · subst heq
      simpa only [Event.ofClient, Net.setClient, if_true, Function.update_self, run_singleton] using hc
    · simp [Event.ofClient, Net.setClient, heq, Function.update_of_ne (Ne.symm heq)]
  | _ => rfl

/-- In a run of the net, the server does a run of its own. -/
theorem server_run (h : run step (start ι) es = .ok s) :
    run libuv_server.step (libuv_server.start ι) (es.flatMap Event.ofServer) = .ok s.server := by
  refine run_view Net.server ?_ h
  intro s e s' hstep
  cases moved_of_step hstep with
  | server e bytes server up hb hs hr => exact run_singleton.trans hs
  | _ => rfl

end programs

end linuxc.echo_net
