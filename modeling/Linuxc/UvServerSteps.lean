-- What each event does to the server, and the ledger that carries it: the live
-- blocks are the handles of the connections, the requests and copies of the
-- queued replies, and those of the replies that uv_write refused.
import Linuxc.UvServer

namespace linuxc.libuv_server

open event_runs block_heap libuv

variable {κ : Type} [DecidableEq κ]

/-! ## The invariant -/

/-- The request and the copy of a refused reply: nothing points to them any more. -/
def Act.lost : Act κ → List Nat
  | .uvWrite _ req base _ false => [req, base]
  | _ => []

/-- The blocks that a connection uses. -/
def Conn.owned (conn : Conn) : List Nat := conn.handle :: blocks conn.stream.queue

/-- The blocks that all connections use. -/
def connsOwned (conns : AList fun _ : κ => Conn) : List Nat :=
  conns.entries.flatMap fun e => e.2.owned

def State.owned (s : State κ) : List Nat := connsOwned s.conns ++ s.trace.flatMap Act.lost

/-- What a connection has between two callbacks. -/
structure Conn.Sound (m : Memory) (conn : Conn) : Prop where
  handle : m.get conn.handle = some .tcp
  queued : ∀ q ∈ conn.stream.queue, Queued fillByte m q
  reading : conn.stream.reading = true → conn.stream.phase = .connected

structure Sound (s : State κ) : Prop where
  conns : ∀ k conn, s.conns.lookup k = some conn → conn.Sound s.heap
  ledger : Owns s.heap s.owned

theorem sound_start : Sound (start κ) where
  conns := by simp [start]
  ledger := owns_empty

theorem mem_connsOwned {conns : AList fun _ : κ => Conn} {k : κ} {conn : Conn} {p : Nat}
    (hk : conns.lookup k = some conn) (hp : p ∈ conn.owned) : p ∈ connsOwned conns :=
  List.mem_flatMap.mpr ⟨⟨k, conn⟩, List.of_mem_dlookup hk, hp⟩

/-- The blocks of one connection, and the rest, which does not change with it. -/
theorem connsOwned_of_lookup {conns : AList fun _ : κ => Conn} {k : κ} {conn : Conn}
    (hk : conns.lookup k = some conn) :
    ∃ rest, (connsOwned conns).Perm (conn.owned ++ rest) ∧
      (∀ conn', (connsOwned (conns.insert k conn')).Perm (conn'.owned ++ rest)) ∧
      ∀ k' conn', k' ≠ k → conns.lookup k' = some conn' → ∀ p ∈ conn'.owned, p ∈ rest := by
  have hin : (⟨k, conn⟩ : Sigma fun _ : κ => Conn) ∈ conns.entries := List.of_mem_dlookup hk
  obtain ⟨conn₀, l₁, l₂, -, hentries, herase⟩ := List.exists_of_kerase (List.mem_keys_of_mem hin)
  obtain rfl : conn = conn₀ := conns.nodupKeys.eq_of_mk_mem hin (by simp [hentries])
  refine ⟨(l₁ ++ l₂).flatMap fun e => e.2.owned, ?_, fun conn' => ?_, ?_⟩
  · unfold connsOwned
    rw [hentries, List.perm_iff_count]
    intro p
    simp only [List.flatMap_append, List.flatMap_cons, List.count_append]
    omega
  · unfold connsOwned
    rw [AList.entries_insert, herase, List.flatMap_cons]
  · intro k' conn' hne hk' p hp
    have hin' : (⟨k', conn'⟩ : Sigma fun _ : κ => Conn) ∈ conns.entries := List.of_mem_dlookup hk'
    refine List.mem_flatMap.mpr ⟨⟨k', conn'⟩, ?_, hp⟩
    rw [hentries] at hin'
    simp only [List.mem_append, List.mem_cons, Sigma.mk.injEq] at hin' ⊢
    rcases hin' with hl | ⟨heq, -⟩ | hl
    · exact .inl hl
    · exact absurd heq hne
    · exact .inr hl

theorem connsOwned_of_new {conns : AList fun _ : κ => Conn} {k : κ}
    (hk : conns.lookup k = none) (conn : Conn) :
    connsOwned (conns.insert k conn) = conn.owned ++ connsOwned conns := by
  unfold connsOwned
  rw [AList.entries_insert_of_notMem (AList.lookup_eq_none.mp hk), List.flatMap_cons]

theorem Conn.Sound.change {m m' : Memory} {conn : Conn} {gone new : List Nat} (hs : conn.Sound m)
    (hc : Change m m' gone new) (h : ∀ p ∈ conn.owned, p ∉ gone) : conn.Sound m' where
  handle := hc.get_of_not_mem hs.handle (h _ List.mem_cons_self)
  queued := by
    intro q hq
    have hmem : ∀ p ∈ [q.req, q.base], p ∈ conn.owned := fun p hp =>
      List.mem_cons_of_mem _ (List.mem_flatMap.mpr ⟨q, hq, hp⟩)
    exact (hs.queued q hq).change hc (h _ (hmem _ (by simp))) (h _ (hmem _ (by simp)))
  reading := hs.reading

/-! ## Every change keeps the invariant -/

section keeps

variable {s : State κ} {k : κ} {conn conn' : Conn} {heap : Memory}

/-- One connection changes: of its blocks those in `gone` are freed and those in `keep` stay, and
the new ones are its own, or lost in what the server does. -/
theorem Sound.update {gone new keep : List Nat} {acts : List (Act κ)} (hs : Sound s)
    (hk : s.conns.lookup k = some conn) (hc : Change s.heap heap gone new)
    (hold : conn.owned.Perm (gone ++ keep))
    (hnew : (new ++ keep).Perm (conn'.owned ++ acts.flatMap Act.lost))
    (hconn : conn'.Sound heap) : Sound (({ s with heap }.setConn k conn').log acts) := by
  obtain ⟨rest, hperm, hinsert, hothers⟩ := connsOwned_of_lookup hk
  have hledger : Owns s.heap (gone ++ (keep ++ rest ++ s.trace.flatMap Act.lost)) := by
    refine hs.ledger.perm ?_
    rw [List.perm_iff_count]
    intro p
    have h1 := hperm.count_eq p
    have h2 := hold.count_eq p
    simp only [State.owned, List.count_append] at h1 h2 ⊢
    omega
  refine ⟨?_, (hc.owns hledger).perm ?_⟩
  · intro k' conn'' hk'
    simp only [State.log, State.setConn] at hk'
    by_cases heq : k' = k
    · subst heq
      rw [AList.lookup_insert, Option.some.injEq] at hk'
      rw [← hk']
      exact hconn
    · rw [AList.lookup_insert_ne heq] at hk'
      refine (hs.conns k' conn'' hk').change hc fun p hp hgone => ?_
      have hrest := hothers k' conn'' heq hk' p hp
      exact (List.nodup_append.mp hledger.nodup).2.2 p hgone p (by simp [hrest]) rfl
  · rw [List.perm_iff_count]
    intro p
    have h1 := (hinsert conn').count_eq p
    have h2 := hnew.count_eq p
    simp only [State.owned, State.log, State.setConn, List.flatMap_append, List.count_append]
      at h1 h2 ⊢
    omega

theorem Sound.setConn (hs : Sound s) (hk : s.conns.lookup k = some conn)
    (howned : conn'.owned = conn.owned) (hconn : conn'.Sound s.heap) : Sound (s.setConn k conn') := by
  have hnew : Sound (({ s with heap := s.heap }.setConn k conn').log []) :=
    hs.update hk (Change.refl s.heap) (List.Perm.refl ([] ++ conn.owned)) (by simp [howned]) hconn
  simpa [State.log] using hnew

/-- A new connection has one new block. -/
theorem Sound.create {acts : List (Act κ)} {h : Nat} (hs : Sound s) (hk : s.conns.lookup k = none)
    (hc : Change s.heap heap [] [h]) (hh : heap.get h = some .tcp) {stream : Stream}
    (hq : stream.queue = []) (hr : stream.reading = true → stream.phase = .connected)
    (hacts : acts.flatMap Act.lost = []) :
    Sound (({ s with heap }.setConn k ⟨h, stream⟩).log acts) := by
  refine ⟨?_, ?_⟩
  · intro k' conn' hk'
    simp only [State.log, State.setConn] at hk'
    by_cases heq : k' = k
    · subst heq
      rw [AList.lookup_insert, Option.some.injEq] at hk'
      subst hk'
      exact ⟨hh, by simp [hq], hr⟩
    · rw [AList.lookup_insert_ne heq] at hk'
      exact (hs.conns k' conn' hk').change hc fun _ _ => List.not_mem_nil
  · have hledger : Owns heap ([h] ++ s.owned) := hc.owns hs.ledger
    have howned : (({ s with heap }.setConn k ⟨h, stream⟩).log acts).owned = [h] ++ s.owned := by
      simp [State.owned, State.log, State.setConn, connsOwned_of_new hk, hacts, Conn.owned, hq,
        blocks]
    rw [howned]
    exact hledger

theorem Sound.change (hs : Sound s) (hc : Change s.heap heap [] []) : Sound { s with heap } where
  conns := fun k conn hk => (hs.conns k conn hk).change hc fun _ _ => List.not_mem_nil
  ledger := hc.owns hs.ledger

theorem Sound.log (hs : Sound s) {acts : List (Act κ)} (h : acts.flatMap Act.lost = []) :
    Sound (s.log acts) where
  conns := hs.conns
  ledger := by
    have howned : (s.log acts).owned = s.owned := by
      simp [State.owned, State.log, h]
    rw [howned]
    exact hs.ledger

end keeps

/-! ## What each event does -/

/-- What a write callback prints. -/
def writeErrors (k : κ) (status : Int) : List (Act κ) :=
  if status ≠ 0 then [.print k (.writeError status)] else []

/-- What a read that fails prints. -/
def readErrors (k : κ) (err : Int) : List (Act κ) :=
  if err ≠ UV_EOF then [.print k (.readError err)] else []

/-- What a reply says: how much was read, the write, and that it was sent. -/
def replyActs (k : κ) (timestamp : String) (q : Request) (accepted : Bool) : List (Act κ) :=
  [.print k (.received timestamp q.len), .uvWrite k q.req q.base q.len accepted,
    .print k (.sent timestamp q.len)]

def Conn.setQueue (conn : Conn) (queue : List Request) : Conn :=
  { conn with stream := { conn.stream with queue } }

def Conn.setPhase (conn : Conn) (phase : Phase) (reading : Bool) : Conn :=
  { conn with stream := { conn.stream with phase, reading } }

inductive Moved (s : State κ) : Event κ → State κ → Prop
  | connectionFails (status : Int) (k : κ) (accepted : Bool) (hs : status < 0) :
      Moved s (.connection status k accepted) (s.log [.print none (.newConnectionError status)])
  | accepts (status : Int) (k : κ) (heap : Memory) (h : Nat) (hs : 0 ≤ status)
      (hk : s.conns.lookup k = none) (hc : Change s.heap heap [] [h])
      (hh : heap.get h = some .tcp) :
      Moved s (.connection status k true)
        ({ s with heap }.setConn k ⟨h, ⟨.connected, true, []⟩⟩)
  | acceptFails (status : Int) (k : κ) (heap : Memory) (h : Nat) (hs : 0 ≤ status)
      (hk : s.conns.lookup k = none) (hc : Change s.heap heap [] [h])
      (hh : heap.get h = some .tcp) :
      Moved s (.connection status k false)
        (({ s with heap }.setConn k ⟨h, ⟨.closing, false, []⟩⟩).log [.uvClose k])
  | replies (k : κ) (timestamp : String) (accepts : Bool) (bytes : List UInt8) (conn : Conn)
      (heap : Memory) (q : Request) (hk : s.conns.lookup k = some conn)
      (hp : conn.stream.phase = .connected) (hb : (Readout.data bytes).Possible)
      (hw : NewWrite fillByte bytes.length s.heap heap q) :
      Moved s (.read k timestamp accepts (.data bytes))
        (({ s with heap }.setConn k (conn.setQueue
          (if accepts then conn.stream.queue ++ [q] else conn.stream.queue))).log
            (replyActs k timestamp q accepts))
  | readsNothing (k : κ) (timestamp : String) (accepts : Bool) (heap : Memory)
      (hc : Change s.heap heap [] []) : Moved s (.read k timestamp accepts .again) { s with heap }
  | readFails (k : κ) (timestamp : String) (accepts : Bool) (out : Readout) (conn : Conn)
      (heap : Memory) (hk : s.conns.lookup k = some conn) (hp : conn.stream.phase = .connected)
      (hn : out.nread < 0) (hc : Change s.heap heap [] []) :
      Moved s (.read k timestamp accepts out)
        (({ s with heap }.setConn k (conn.setPhase .closing false)).log
          (readErrors k out.nread ++ [Act.uvClose k]))
  | writes (k : κ) (q : Request) (status : Int) (conn : Conn) (stream : Stream) (heap : Memory)
      (hk : s.conns.lookup k = some conn) (hp : stream.phase = conn.stream.phase)
      (hr : stream.reading = conn.stream.reading)
      (hq : conn.stream.queue.Perm (q :: stream.queue)) (hsent : status = 0 → q.len ≤ q.sent)
      (hc : Change s.heap heap [q.req, q.base] []) :
      Moved s (.wrote k q.req status)
        (({ s with heap }.setConn k { conn with stream }).log (writeErrors k status))
  | transmits (k : κ) (n : Nat) (conn : Conn) (bytes : List UInt8) (stream : Stream)
      (hk : s.conns.lookup k = some conn)
      (ht : Transmitted fillByte conn.stream s.heap n (bytes, stream)) :
      Moved s (.transmit k n) (s.setConn k (conn.setQueue (advance n conn.stream.queue)))
  | closes (k : κ) (conn : Conn) (hk : s.conns.lookup k = some conn)
      (hp : conn.stream.phase = .closing) (hq : conn.stream.queue = []) :
      Moved s (.closed k) (s.setConn k (conn.setPhase .closed conn.stream.reading))

section specs

variable {s : State κ} {k : κ} {conn : Conn}

theorem getConn_spec (hs : Sound s) (k : κ) :
    Gives Held (s.getConn k) fun conn => s.conns.lookup k = some conn := by
  unfold State.getConn
  cases hk : s.conns.lookup k with
  | none => exact gives_error rfl
  | some conn =>
    simp only
    rw [(hs.conns k conn hk).handle]
    exact gives_ok rfl

/-- Reading `n` bytes makes a reply of `n` bytes, and the read buffer is gone at the end. -/
theorem replies_spec {bytes : List UInt8} {r : ReadArgs × Memory} (timestamp : String)
    (accepts : Bool) (hk : s.conns.lookup k = some conn)
    (hp : conn.stream.phase = .connected) (hb : (Readout.data bytes).Possible)
    (hhand : Handed s.heap (.data bytes) r) :
    Gives Held (echoRead { s with heap := r.2 } k conn timestamp accepts r.1)
      (Moved s (.read k timestamp accepts (.data bytes))) := by
  cases hhand with
  | null hup => cases hup
  | buffer p b m₁ change get read =>
    have hpos : 0 < (Readout.data bytes).nread := Int.natCast_pos.mpr hb.1
    have hn : (Readout.data bytes).nread.toNat = bytes.length := rfl
    have hopen : conn.stream.isOpen = true := by simp [Stream.isOpen, hp]
    have hplt : p < m₁.size := Heap.lt_size_of_get get
    unfold echoRead
    simp only
    rw [if_pos hpos, hn]
    refine gives_bind (of_never (mallocWriteReq_spec m₁ bytes.length)) ?_
    rintro ⟨req, buf, m⟩ hnew
    obtain rfl : req = m₁.size := hnew.req_eq
    obtain rfl : buf = ⟨m₁.size + 1, bytes.length⟩ := hnew.buf_eq
    have hsrc := hnew.change.get_of_not_mem get List.not_mem_nil
    refine gives_bind_ok (orFault_ok rfl) ?_
    refine gives_bind (of_never (memcpy_spec hnew.buf hsrc (read bytes rfl) (Nat.le_refl _))) ?_
    rintro m' ⟨hsize, b₁, hsize₁, -, hget⟩
    have hbuf : m'.get (m₁.size + 1) = some (.bytes b₁) := by
      rw [hget, if_pos rfl]
    have hroom : bytes.length ≤ b₁.size := Nat.le_of_eq hsize₁.symm
    refine gives_bind (of_never (memset_spec fillByte hbuf hroom)) ?_
    rintro m₂ ⟨hsize', b₂, -, hw, hget'⟩
    have hfull : b₂.written = List.replicate bytes.length fillByte := by
      have hfits : b₁.written.length ≤ bytes.length := Nat.le_trans b₁.fits (Nat.le_of_eq hsize₁)
      rw [hw, List.drop_eq_nil_of_le hfits, List.append_nil]
    have hfilled : NewWrite fillByte bytes.length m₁ m₂ ⟨m₁.size, m₁.size + 1, bytes.length, 0⟩ := by
      refine hnew.filled hfull (hsize'.trans hsize) fun x => ?_
      rw [hget', hget]
      split <;> simp [*]
    obtain ⟨m₃, hfree, hsize₃, -, hget₃⟩ :=
      Heap.free_spec (hfilled.change.get_of_not_mem get List.not_mem_nil)
    have hmoved := Moved.replies k timestamp accepts bytes conn m₃ _ hk hp hb
      (hfilled.freed change hplt hsize₃ hget₃)
    refine gives_bind_ok rfl (gives_bind_ok (orFault_ok hfree) (gives_pure ?_))
    unfold Stream.write
    rw [hopen, Bool.and_true]
    cases accepts <;>
      simpa [State.log, State.setConn, Conn.setQueue, replyActs, Readout.nread] using hmoved

/-- The callback of a read that failed closes the connection. -/
theorem readFails_spec {m heap : Memory} {base : Option Nat} (out : Readout) (timestamp : String)
    (accepts : Bool) (hk : s.conns.lookup k = some conn) (hp : conn.stream.phase = .connected)
    (hn : out.nread < 0) (hfree : free m base = .ok heap) (hc : Change s.heap heap [] []) :
    Gives Held (echoRead { s with heap := m } k conn timestamp accepts ⟨out.nread, base⟩)
      (Moved s (.read k timestamp accepts out)) := by
  have hclose : ∀ s' : State κ,
      s'.uvClose k conn = .ok ((s'.setConn k (conn.setPhase .closing false)).log [.uvClose k]) := by
    intro s'
    simp [State.uvClose, Stream.close, hp, Conn.setPhase, bind, Except.bind, pure, Except.pure]
  have hmoved := Moved.readFails k timestamp accepts out conn heap hk hp hn hc
  unfold readErrors at hmoved
  unfold echoRead
  simp only
  rw [if_neg (Int.not_lt.mpr (Int.le_of_lt hn)), if_pos hn]
  by_cases heof : out.nread ≠ UV_EOF
  · rw [if_pos heof] at hmoved ⊢
    refine gives_bind_ok (hclose _) (gives_bind_ok hfree (gives_pure ?_))
    simpa [State.log, State.setConn] using hmoved
  · rw [if_neg heof] at hmoved ⊢
    exact gives_bind_ok (hclose _) (gives_bind_ok hfree (gives_pure hmoved))

/-- A sound server takes every event that libuv delivers: nothing ever goes wrong. -/
theorem step_spec (hs : Sound s) (e : Event κ) : Gives Held (step s e) (Moved s e) := by
  cases e with
  | connection status k accepted =>
    simp only [step]
    split
    · exact gives_error rfl
    · rename_i hnew
      unfold onNewConnection
      split
      · rename_i hneg
        exact gives_pure (Moved.connectionFails status k accepted hneg)
      · rename_i hpos
        have hk : s.conns.lookup k = none := by
          cases hk : s.conns.lookup k with
          | none => rfl
          | some conn => exact absurd ⟨Int.not_lt.mp hpos, by simp [hk]⟩ hnew
        have hc := Change.alloc s.heap Cell.tcp
        have hh : (s.heap.alloc .tcp).2.get s.heap.size = some .tcp := by simp [Heap.get_alloc]
        cases accepted with
        | true => exact gives_pure (Moved.accepts status k _ _ (Int.not_lt.mp hpos) hk hc hh)
        | false => exact gives_pure (Moved.acceptFails status k _ _ (Int.not_lt.mp hpos) hk hc hh)
  | read k timestamp accepts out =>
    unfold step
    refine gives_bind (getConn_spec hs k) fun conn hk => ?_
    refine gives_bind (read_spec conn.stream s.heap out) ?_
    rintro ⟨args, m⟩ ⟨hp, -, hposs, hhand⟩
    obtain ⟨heap, hfree, hc⟩ := hhand.freed
    have hnread : args.nread = out.nread := hhand.nread
    obtain ⟨nread, base⟩ := args
    simp only at hnread hfree ⊢
    subst hnread
    cases out with
    | data bytes => exact replies_spec timestamp accepts hk hp hposs hhand
    | again => exact gives_bind_ok rfl (gives_bind_ok hfree (gives_pure (.readsNothing k timestamp accepts heap hc)))
    | fail err => exact readFails_spec (.fail err) timestamp accepts hk hp hposs hfree hc
    | hangup => exact readFails_spec .hangup timestamp accepts hk hp (by decide) hfree hc
  | wrote k req status =>
    unfold step
    refine gives_bind (getConn_spec hs k) fun conn hk => ?_
    refine gives_bind (complete_spec conn.stream req status) ?_
    rintro stream ⟨hp, hr, q, rfl, hsent, hperm⟩
    have hq := (hs.conns k conn hk).queued q (hperm.mem_iff.mpr List.mem_cons_self)
    obtain ⟨b, hb, -⟩ := hq.buf
    have hmoved : ∀ heap, Change s.heap heap [q.req, q.base] [] → Moved s _ _ := fun heap hc =>
      Moved.writes k q status conn stream heap hk hp hr hperm hsent hc
    unfold writeErrors at hmoved
    unfold echoWrite
    split
    · rename_i hstatus
      refine gives_bind (of_never (freeWriteReq_spec hq.req hb)) fun heap hc => gives_pure ?_
      simpa [hstatus, State.log, State.setConn] using hmoved heap hc
    · rename_i hstatus
      refine gives_bind (of_never (freeWriteReq_spec hq.req hb)) fun heap hc => gives_pure ?_
      simpa [hstatus, State.log, State.setConn] using hmoved heap hc
  | transmit k n =>
    unfold step
    refine gives_bind (getConn_spec hs k) fun conn hk => ?_
    refine gives_bind (transmit_spec n (hs.conns k conn hk).queued) ?_
    rintro ⟨bytes, stream⟩ ht
    obtain rfl : stream = { conn.stream with queue := advance n conn.stream.queue } := ht.stream
    exact gives_pure (Moved.transmits k n conn bytes _ hk ht)
  | closed k =>
    unfold step
    refine gives_bind (getConn_spec hs k) fun conn hk => ?_
    simp only [Stream.finishClose]
    split
    · rename_i h
      exact gives_bind_ok rfl (gives_pure (Moved.closes k conn hk h.1 h.2))
    · exact gives_error rfl

end specs

/-! ## Every run keeps the invariant -/

section runs

variable {s s' : State κ} {e : Event κ}

omit [DecidableEq κ] in
theorem lost_writeErrors (k : κ) (status : Int) : (writeErrors k status).flatMap Act.lost = [] := by
  unfold writeErrors
  split <;> rfl

omit [DecidableEq κ] in
theorem lost_readErrors (k : κ) (err : Int) :
    (readErrors k err ++ [Act.uvClose k]).flatMap Act.lost = [] := by
  unfold readErrors
  split <;> rfl

/-- A reply that is accepted belongs to its connection, and one that is refused is lost. -/
theorem Sound.reply {k : κ} {conn : Conn} {heap : Memory} {q : Request} {n : Nat} (hs : Sound s)
    (timestamp : String) (accepts : Bool) (hk : s.conns.lookup k = some conn)
    (hw : NewWrite fillByte n s.heap heap q) :
    Sound (({ s with heap }.setConn k (conn.setQueue
      (if accepts then conn.stream.queue ++ [q] else conn.stream.queue))).log
        (replyActs k timestamp q accepts)) := by
  have hconn := (hs.conns k conn hk).change hw.change fun _ _ => List.not_mem_nil
  refine hs.update hk hw.change (List.Perm.refl _) ?_ ⟨hconn.handle, ?_, hconn.reading⟩
  · rw [List.perm_iff_count]
    intro p
    cases accepts <;>
      simp only [Conn.owned, Conn.setQueue, blocks, replyActs, Act.lost, List.flatMap_append,
        List.flatMap_cons, List.flatMap_nil, List.count_append, List.count_cons, List.count_nil,
        if_true, Bool.false_eq_true, if_false] <;>
      omega
  · intro x hx
    cases accepts with
    | true =>
      rcases List.mem_append.mp hx with hx | hx
      · exact hconn.queued x hx
      · rw [List.mem_singleton.mp hx]
        exact hw.queued
    | false => exact hconn.queued x hx

/-- A write callback frees the request and the copy of its reply. -/
theorem Sound.write {k : κ} {conn : Conn} {stream : Stream} {heap : Memory} {q : Request}
    (hs : Sound s) (status : Int) (hk : s.conns.lookup k = some conn)
    (hp : stream.phase = conn.stream.phase) (hr : stream.reading = conn.stream.reading)
    (hq : conn.stream.queue.Perm (q :: stream.queue))
    (hc : Change s.heap heap [q.req, q.base] []) :
    Sound (({ s with heap }.setConn k { conn with stream }).log (writeErrors k status)) := by
  have hconn := hs.conns k conn hk
  have hold : conn.owned.Perm ([q.req, q.base] ++ (conn.handle :: blocks stream.queue)) := by
    rw [List.perm_iff_count]
    intro p
    have hcount := (hq.flatMap_right fun q => [q.req, q.base]).count_eq p
    simp only [Conn.owned, blocks, List.flatMap_cons, List.count_append, List.count_cons]
      at hcount ⊢
    omega
  obtain ⟨rest, hperm, -, -⟩ := connsOwned_of_lookup hk
  have hnodup : ([q.req, q.base] ++ (conn.handle :: blocks stream.queue)).Nodup := by
    refine (hold.nodup_iff).mp ?_
    have howned : (connsOwned s.conns).Nodup := hs.ledger.nodup.sublist (List.sublist_append_left _ _)
    exact ((hperm.nodup_iff).mp howned).sublist (List.sublist_append_left _ _)
  have hkept : ∀ p ∈ conn.handle :: blocks stream.queue, p ∉ [q.req, q.base] := fun p hp hgone =>
    (List.nodup_append.mp hnodup).2.2 p hgone p hp rfl
  refine hs.update hk hc hold (by simp [Conn.owned, lost_writeErrors]) ?_
  refine Conn.Sound.change (m := s.heap) ⟨hconn.handle, ?_, ?_⟩ hc hkept
  · exact fun x hx => hconn.queued x (hq.mem_iff.mpr (List.mem_cons_of_mem _ hx))
  · rw [hr, hp]
    exact hconn.reading

theorem Sound.step (hs : Sound s) (h : Moved s e s') : Sound s' := by
  cases h with
  | connectionFails status k accepted hneg => exact hs.log rfl
  | accepts status k heap h hpos hk hc hh =>
    have hnew : Sound (({ s with heap }.setConn k ⟨h, ⟨.connected, true, []⟩⟩).log []) :=
      hs.create hk hc hh rfl (fun _ => rfl) rfl
    simpa [State.log] using hnew
  | acceptFails status k heap h hpos hk hc hh => exact hs.create hk hc hh rfl (by simp) rfl
  | replies k timestamp accepts bytes conn heap q hk hp hb hw =>
    exact hs.reply timestamp accepts hk hw
  | readsNothing k timestamp accepts heap hc => exact hs.change hc
  | readFails k timestamp accepts out conn heap hk hp hn hc =>
    have hconn := (hs.conns k conn hk).change hc fun _ _ => List.not_mem_nil
    refine hs.update hk hc (List.Perm.refl _) ?_ ⟨hconn.handle, hconn.queued, by simp [Conn.setPhase]⟩
    rw [lost_readErrors]
    simp [Conn.owned, Conn.setPhase]
  | writes k q status conn stream heap hk hp hr hq hsent hc => exact hs.write status hk hp hr hq hc
  | transmits k n conn bytes stream hk ht =>
    have hconn := hs.conns k conn hk
    refine hs.setConn hk ?_ ⟨hconn.handle, ht.queued, hconn.reading⟩
    simp [Conn.owned, Conn.setQueue, blocks_advance]
  | closes k conn hk hp hq =>
    have hconn := hs.conns k conn hk
    have hreading : conn.stream.reading = true → Phase.closed = .connected := by
      intro hr
      rw [hconn.reading hr] at hp
      cases hp
    exact hs.setConn hk rfl ⟨hconn.handle, hconn.queued, hreading⟩

end runs

end linuxc.libuv_server
