-- What the operations of libuv and of the C library do when a program keeps
-- their rules: one rule each, with the change to the heap as a whole. A program
-- that keeps them never stops with a fault.
import Linuxc.Uv

namespace linuxc.libuv

open event_runs block_heap

/-- The reasons of a computation that never stops. -/
def Never (_ : Stop) : Prop := False

/-- The one reason of an event that libuv may hold back and that the program gets through. -/
def Held (r : Stop) : Prop := r = .notNow

theorem orFault_ok {α : Type} {f : Fault} {x : Option α} {a : α} (hx : x = some a) :
    orFault f x = .ok a := by
  subst hx
  rfl

theorem of_never {α : Type} {R : Stop → Prop} {x : Except Stop α} {P : α → Prop}
    (h : Gives Never x P) : Gives R x P := gives_mono h (fun _ hr => hr.elim) fun _ ha => ha

/-! ## Memory -/

section memory

theorem Block.memset_some {b : Block} (c : UInt8) {n : Nat} (hn : n ≤ b.size) :
    ∃ b', b.memset c n = some b' ∧ b'.size = b.size ∧
      b'.written = List.replicate n c ++ b.written.drop n :=
  ⟨_, dif_pos hn, rfl, rfl⟩

theorem Block.store_some {b : Block} {bytes : List UInt8} (hn : bytes.length ≤ b.size) :
    ∃ b', b.store bytes = some b' ∧ b'.size = b.size ∧
      b'.written = bytes ++ b.written.drop bytes.length :=
  ⟨_, dif_pos hn, rfl, rfl⟩

theorem Block.load_some {b : Block} {off n : Nat} (hn : off + n ≤ b.written.length) :
    b.load off n = some ((b.written.drop off).take n) := if_pos hn

variable {m : Memory} {p : Nat} {b : Block} {buf : UvBuf}

theorem getBytes_ok (h : m.get p = some (.bytes b)) : getBytes m p = .ok b := by
  unfold getBytes
  rw [h]

theorem getReq_ok (h : m.get p = some (.writeReq (some buf))) : getReq m p = .ok buf := by
  unfold getReq
  rw [h]

theorem setReq_spec {old : Option UvBuf} (buf : UvBuf) (h : m.get p = some (.writeReq old)) :
    Gives Never (setReq m p buf) fun m' => m'.size = m.size ∧
      ∀ q, m'.get q = if q = p then some (.writeReq (some buf)) else m.get q := by
  obtain ⟨m', hput, hsize, -, hget⟩ := Heap.put_spec (.writeReq (some buf)) h
  unfold setReq
  rw [h]
  simp only
  rw [orFault_ok hput]
  exact ⟨hsize, hget⟩

theorem memset_spec (c : UInt8) {n : Nat} (h : m.get p = some (.bytes b)) (hn : n ≤ b.size) :
    Gives Never (memset m p c n) fun m' => m'.size = m.size ∧
      ∃ b', b'.size = b.size ∧ b'.written = List.replicate n c ++ b.written.drop n ∧
        ∀ q, m'.get q = if q = p then some (.bytes b') else m.get q := by
  obtain ⟨b', hb', hsize', hw⟩ := Block.memset_some c hn
  obtain ⟨m', hput, hsize, -, hget⟩ := Heap.put_spec (Cell.bytes b') h
  unfold memset
  refine gives_bind_ok (getBytes_ok h) (gives_bind_ok (orFault_ok hb') ?_)
  rw [orFault_ok hput]
  exact ⟨hsize, b', hsize', hw, hget⟩

theorem store_spec {bytes : List UInt8} (h : m.get p = some (.bytes b))
    (hn : bytes.length ≤ b.size) :
    Gives Never (store m p bytes) fun m' => m'.size = m.size ∧
      ∃ b', b'.size = b.size ∧ b'.written = bytes ++ b.written.drop bytes.length ∧
        ∀ q, m'.get q = if q = p then some (.bytes b') else m.get q := by
  obtain ⟨b', hb', hsize', hw⟩ := Block.store_some hn
  obtain ⟨m', hput, hsize, -, hget⟩ := Heap.put_spec (Cell.bytes b') h
  unfold store
  refine gives_bind_ok (getBytes_ok h) (gives_bind_ok (orFault_ok hb') ?_)
  rw [orFault_ok hput]
  exact ⟨hsize, b', hsize', hw, hget⟩

theorem memcpy_spec {src n : Nat} {bs : Block} (h : m.get p = some (.bytes b))
    (hsrc : m.get src = some (.bytes bs)) (hread : n ≤ bs.written.length) (hn : n ≤ b.size) :
    Gives Never (memcpy m p src n) fun m' => m'.size = m.size ∧
      ∃ b', b'.size = b.size ∧ b'.written = bs.written.take n ++ b.written.drop n ∧
        ∀ q, m'.get q = if q = p then some (.bytes b') else m.get q := by
  have hlen : (bs.written.take n).length = n := by
    rw [List.length_take]
    omega
  have hload : bs.load 0 n = some (bs.written.take n) := Block.load_some (by omega)
  unfold memcpy
  refine gives_bind_ok (getBytes_ok hsrc) (gives_bind_ok (orFault_ok hload) ?_)
  have hstore := store_spec h (Nat.le_trans (Nat.le_of_eq hlen) hn)
  rwa [hlen] at hstore

end memory

/-! ## What both programs do -/

theorem freeWriteReq_spec {m : Memory} {req : Nat} {buf : UvBuf} {b : Block}
    (hreq : m.get req = some (.writeReq (some buf))) (hbuf : m.get buf.base = some (.bytes b)) :
    Gives Never (freeWriteReq m req) fun m' => Change m m' [req, buf.base] [] := by
  obtain ⟨m₁, hfree, hsize, -, hget⟩ := Heap.free_spec hbuf
  have hc : Change m m₁ [buf.base] [] :=
    (Change.refl m).free_old (Heap.lt_size_of_get hbuf) hsize hget
  have hne : req ∉ [buf.base] := by
    intro hmem
    rw [List.mem_singleton.mp hmem, hbuf] at hreq
    cases hreq
  obtain ⟨m₂, hfree₂, hsize₂, -, hget₂⟩ := Heap.free_spec (hc.get_of_not_mem hreq hne)
  unfold freeWriteReq
  refine gives_bind_ok (getReq_ok hreq) (gives_bind_ok (orFault_ok hfree) ?_)
  simp only [free]
  rw [orFault_ok hfree₂]
  exact hc.free_old (Heap.lt_size_of_get hreq) hsize₂ hget₂

/-- What `mallocWriteReq` hands on: two new blocks, the first of which points to the second. -/
structure NewWriteReq (m : Memory) (n : Nat) (r : Nat × UvBuf × Memory) : Prop where
  req_eq : r.1 = m.size
  buf_eq : r.2.1 = ⟨m.size + 1, n⟩
  change : Change m r.2.2 [] [m.size + 1, m.size]
  req : r.2.2.get m.size = some (.writeReq (some ⟨m.size + 1, n⟩))
  buf : r.2.2.get (m.size + 1) = some (.bytes (.fresh n))

theorem mallocWriteReq_spec (m : Memory) (n : Nat) :
    Gives Never (mallocWriteReq m n) (NewWriteReq m n) := by
  have hc : Change m ((m.alloc (.writeReq none)).2.alloc (.bytes (.fresh n))).2 []
      [m.size + 1, m.size] := by
    have h₁ := Change.alloc m (Cell.writeReq none)
    simpa using h₁.trans (Change.alloc _ (Cell.bytes (.fresh n))) (by simp)
  have hreq : ((m.alloc (.writeReq none)).2.alloc (.bytes (.fresh n))).2.get m.size =
      some (.writeReq none) := by
    simp [Heap.get_alloc]
  unfold mallocWriteReq
  refine gives_bind (setReq_spec _ hreq) ?_
  rintro m' ⟨hsize, hget⟩
  refine gives_pure ⟨rfl, by simp, hc.put (by simp) hsize hget, by simp [hget], ?_⟩
  simp [hget, Heap.get_alloc]

theorem allocBuffer_change (m : Memory) (n : Nat) : Change m (allocBuffer m n).2 [] [m.size] :=
  Change.alloc m _

/-! ## The queue of writes -/

/-- The bytes of the queued writes that are still to be sent. -/
def held : List Request → Nat
  | [] => 0
  | q :: qs => q.len - q.sent + held qs

/-- The blocks that the queued writes use. -/
def blocks (qs : List Request) : List Nat := qs.flatMap fun q => [q.req, q.base]

/-- A queued write has its request and its buffer, and the buffer is full of `c`. -/
structure Queued (c : UInt8) (m : Memory) (q : Request) : Prop where
  req : m.get q.req = some (.writeReq (some ⟨q.base, q.len⟩))
  buf : ∃ b, m.get q.base = some (.bytes b) ∧ b.written = List.replicate q.len c
  sent : q.sent ≤ q.len

theorem Queued.change {c : UInt8} {m m' : Memory} {q : Request} {gone new : List Nat}
    (hq : Queued c m q) (hc : Change m m' gone new) (hreq : q.req ∉ gone) (hbase : q.base ∉ gone) :
    Queued c m' q := by
  obtain ⟨b, hb, hw⟩ := hq.buf
  exact ⟨hc.get_of_not_mem hq.req hreq, ⟨b, hc.get_of_not_mem hb hbase, hw⟩, hq.sent⟩

theorem held_append (qs qs' : List Request) : held (qs ++ qs') = held qs + held qs' := by
  induction qs with
  | nil => simp [held]
  | cons q qs ih =>
    simp only [List.cons_append, held, ih]
    omega

theorem held_perm {qs qs' : List Request} (h : qs.Perm qs') : held qs = held qs' := by
  induction h with
  | nil => rfl
  | cons q _ ih => simp [held, ih]
  | swap q r qs =>
    simp only [held]
    omega
  | trans _ _ ih ih' => exact ih.trans ih'

/-- A new request `q` with a new buffer of `n` bytes that is full of `c`. -/
structure NewWrite (c : UInt8) (n : Nat) (m m' : Memory) (q : Request) : Prop where
  change : Change m m' [] [q.base, q.req]
  queued : Queued c m' q
  len : q.len = n
  unsent : q.sent = 0

theorem NewWriteReq.filled {c : UInt8} {n : Nat} {m m' : Memory} {b : Block}
    {r : Nat × UvBuf × Memory} (hr : NewWriteReq m n r) (hw : b.written = List.replicate n c)
    (hsize : m'.size = r.2.2.size)
    (hget : ∀ q, m'.get q = if q = m.size + 1 then some (.bytes b) else r.2.2.get q) :
    NewWrite c n m m' ⟨m.size, m.size + 1, n, 0⟩ where
  change := hr.change.put List.mem_cons_self hsize hget
  queued := by
    refine ⟨?_, ⟨b, by simp [hget], hw⟩, Nat.zero_le n⟩
    rw [hget, if_neg (Nat.ne_of_lt (Nat.lt_succ_self _))]
    exact hr.req
  len := rfl
  unsent := rfl

theorem perm_of_find? {α : Type} {p : α → Bool} {a : α} {l : List α} (h : l.find? p = some a) :
    l.Perm (a :: l.eraseP p) := by
  induction l with
  | nil => cases h
  | cons x l ih =>
    by_cases hx : p x
    · rw [List.find?_cons_of_pos hx] at h
      cases h
      rw [List.eraseP_cons_of_pos hx]
    · rw [List.find?_cons_of_neg hx] at h
      rw [List.eraseP_cons_of_neg hx]
      exact ((ih h).cons x).trans (List.Perm.swap a x _)

theorem complete_spec (s : Stream) (req : Nat) (status : Int) :
    Gives Held (s.complete req status) fun s' =>
      s'.phase = s.phase ∧ s'.reading = s.reading ∧
        ∃ q, q.req = req ∧ (status = 0 → q.len ≤ q.sent) ∧ s.queue.Perm (q :: s'.queue) := by
  unfold Stream.complete
  split
  · exact gives_error rfl
  · rename_i q hq
    split
    · exact gives_error rfl
    · rename_i hdone
      have hreq : q.req = req := by simpa using List.find?_some hq
      exact gives_ok ⟨rfl, rfl, q, hreq, by omega, perm_of_find? hq⟩

theorem blocks_advance (n : Nat) (qs : List Request) : blocks (advance n qs) = blocks qs := by
  induction qs with
  | nil => rfl
  | cons q qs ih =>
    unfold advance
    split
    · rfl
    · simpa [blocks] using ih

theorem length_advance (n : Nat) (qs : List Request) : (advance n qs).length = qs.length := by
  induction qs with
  | nil => rfl
  | cons q qs ih =>
    unfold advance
    split
    · rfl
    · simp [ih]

/-- What is sent of a write does not change its request and its buffer. -/
theorem mem_advance {n : Nat} {q : Request} {qs : List Request} (h : q ∈ qs) :
    ∃ q' ∈ advance n qs, q'.req = q.req ∧ q'.base = q.base := by
  induction qs with
  | nil => cases h
  | cons x qs ih =>
    unfold advance
    rcases List.mem_cons.mp h with rfl | h
    · split
      · exact ⟨_, List.mem_cons_self, rfl, rfl⟩
      · exact ⟨q, List.mem_cons_self, rfl, rfl⟩
    · split
      · exact ⟨q, List.mem_cons_of_mem _ h, rfl, rfl⟩
      · obtain ⟨q', hq', hsame⟩ := ih h
        exact ⟨q', List.mem_cons_of_mem _ hq', hsame⟩

/-- When the next write has `n` bytes left, they are no longer held. -/
theorem held_advance {n : Nat} {q : Request} {qs : List Request}
    (hq : qs.find? (fun q => q.sent < q.len) = some q) (hn : q.sent + n ≤ q.len) :
    held (advance n qs) + n = held qs := by
  induction qs with
  | nil => cases hq
  | cons x qs ih =>
    unfold advance
    by_cases hx : x.sent < x.len
    · rw [List.find?_cons_of_pos (by simpa using hx)] at hq
      cases hq
      rw [if_pos hx]
      simp only [held]
      omega
    · rw [List.find?_cons_of_neg (by simpa using hx)] at hq
      have := ih hq
      rw [if_neg hx]
      simp only [held] at this ⊢
      omega

theorem queued_advance {c : UInt8} {m : Memory} {n : Nat} {q : Request} {qs : List Request}
    (hq : qs.find? (fun q => q.sent < q.len) = some q) (hn : q.sent + n ≤ q.len)
    (h : ∀ x ∈ qs, Queued c m x) : ∀ x ∈ advance n qs, Queued c m x := by
  induction qs with
  | nil => cases hq
  | cons y qs ih =>
    unfold advance
    by_cases hy : y.sent < y.len
    · rw [List.find?_cons_of_pos (by simpa using hy)] at hq
      cases hq
      rw [if_pos hy]
      intro x hx
      rcases List.mem_cons.mp hx with rfl | hx
      · have hold := h q List.mem_cons_self
        exact ⟨hold.req, hold.buf, hn⟩
      · exact h x (List.mem_cons_of_mem _ hx)
    · rw [List.find?_cons_of_neg (by simpa using hy)] at hq
      rw [if_neg hy]
      intro x hx
      rcases List.mem_cons.mp hx with rfl | hx
      · exact h x List.mem_cons_self
      · exact ih hq (fun z hz => h z (List.mem_cons_of_mem _ hz)) x hx

/-- What `uv__write` does to a queue of writes that have their buffers. -/
structure Transmitted (c : UInt8) (s : Stream) (m : Memory) (n : Nat)
    (r : List UInt8 × Stream) : Prop where
  connected : s.phase = .connected
  pos : 0 < n
  bytes : r.1 = List.replicate n c
  stream : r.2 = { s with queue := advance n s.queue }
  held : held (advance n s.queue) + n = held s.queue
  queued : ∀ q ∈ advance n s.queue, Queued c m q

/-- What is queued on an open connection can go on, as much of it as the kernel takes. -/
theorem transmit_ok {c : UInt8} {s : Stream} {m : Memory} {n : Nat} {q : Request}
    (h : ∀ q ∈ s.queue, Queued c m q) (hp : s.phase = .connected)
    (hq : s.queue.find? (fun q => q.sent < q.len) = some q) (hpos : 0 < n)
    (hn : q.sent + n ≤ q.len) :
    s.transmit m n = .ok (List.replicate n c, { s with queue := advance n s.queue }) := by
  obtain ⟨b, hb, hw⟩ := (h q (List.mem_of_find?_eq_some hq)).buf
  have hroom : q.sent + n ≤ b.written.length := by
    rw [hw, List.length_replicate]
    exact hn
  have hbytes : (b.written.drop q.sent).take n = List.replicate n c := by
    rw [hw, List.drop_replicate, List.take_replicate]
    congr 1
    omega
  have hload : orFault .outOfBounds (b.load q.sent n) = .ok (List.replicate n c) := by
    rw [Block.load_some hroom, hbytes]
    rfl
  unfold Stream.transmit
  rw [hq]
  simp only
  rw [if_pos ⟨hp, hpos, hn⟩]
  exact bind_ok_iff.mpr ⟨b, getBytes_ok hb, bind_ok_iff.mpr ⟨_, hload, rfl⟩⟩

theorem transmit_spec {c : UInt8} {s : Stream} {m : Memory} (n : Nat)
    (h : ∀ q ∈ s.queue, Queued c m q) :
    Gives Held (s.transmit m n) (Transmitted c s m n) := by
  cases hq : s.queue.find? (fun q => q.sent < q.len) with
  | none =>
    unfold Stream.transmit
    rw [hq]
    exact gives_error rfl
  | some q =>
    by_cases hn : s.phase = .connected ∧ 0 < n ∧ q.sent + n ≤ q.len
    · obtain ⟨hp, hpos, hle⟩ := hn
      refine gives_of_ok (transmit_ok h hp hq hpos hle) ?_
      exact ⟨hp, hpos, rfl, rfl, held_advance hq hle, queued_advance hq hle h⟩
    · unfold Stream.transmit
      rw [hq]
      simp only
      rw [if_neg hn]
      exact gives_error rfl

/-! ## Reads -/

/-- What `read` can find on a stream. -/
def Readout.Possible : Readout → Prop
  | .data bytes => 0 < bytes.length ∧ bytes.length ≤ SUGGESTED_SIZE
  | .again => True
  | .fail err => err < 0
  | .hangup => True

@[simp] theorem Readout.bytes_data (bytes : List UInt8) : (Readout.data bytes).bytes = bytes := rfl

@[simp] theorem Readout.bytes_again : Readout.again.bytes = [] := rfl

theorem Readout.bytes_of_neg {out : Readout} (h : out.nread < 0) : out.bytes = [] := by
  cases out with
  | data bytes => exact absurd h (Int.not_lt.mpr (Int.natCast_nonneg _))
  | _ => rfl

/-- What the read callback is given: a new block that starts with the bytes that were read, or a
null buffer. -/
inductive Handed (m : Memory) (out : Readout) : ReadArgs × Memory → Prop
  | buffer (p : Nat) (b : Block) (m' : Memory) (change : Change m m' [] [p])
      (get : m'.get p = some (.bytes b))
      (read : ∀ bytes, out = .data bytes → bytes.length ≤ b.written.length) :
      Handed m out (⟨out.nread, some p⟩, m')
  | null (hup : out = .hangup) : Handed m out (⟨out.nread, none⟩, m)

theorem read_spec (s : Stream) (m : Memory) (out : Readout) :
    Gives Held (s.read m out) fun r =>
      s.phase = .connected ∧ s.reading = true ∧ out.Possible ∧ Handed m out r := by
  have hc := allocBuffer_change m SUGGESTED_SIZE
  have hget : (allocBuffer m SUGGESTED_SIZE).2.get m.size =
      some (.bytes (.fresh SUGGESTED_SIZE)) := by
    simp [allocBuffer, Heap.get_alloc]
  unfold Stream.read
  split
  · rename_i hopen
    cases out with
    | data bytes =>
      simp only
      split
      · rename_i hlen
        refine gives_bind (of_never (store_spec hget hlen.2)) ?_
        rintro m' ⟨hsize, b, -, hw, hget'⟩
        refine gives_pure ⟨hopen.1, hopen.2, hlen, .buffer _ b m' ?_ ?_ ?_⟩
        · exact hc.put List.mem_cons_self hsize hget'
        · rw [hget', if_pos rfl]
        · rintro _ ⟨⟩
          rw [hw, List.length_append]
          omega
      · exact gives_error rfl
    | again => exact gives_pure ⟨hopen.1, hopen.2, trivial, .buffer _ _ _ hc hget (by simp)⟩
    | fail err =>
      simp only
      split
      · rename_i herr
        exact gives_pure ⟨hopen.1, hopen.2, herr, .buffer _ _ _ hc hget (by simp)⟩
      · exact gives_error rfl
    | hangup => exact gives_pure ⟨hopen.1, hopen.2, trivial, .null rfl⟩
  · exact gives_error rfl

/-- A write made between the read and the `free` of the read buffer. -/
theorem NewWrite.freed {c : UInt8} {n p : Nat} {m m₁ m₂ m₃ : Memory} {q : Request}
    (hw : NewWrite c n m₁ m₂ q) (hc : Change m m₁ [] [p]) (hp : p < m₁.size)
    (hsize : m₃.size = m₂.size) (hget : ∀ x, m₃.get x = if x = p then none else m₂.get x) :
    NewWrite c n m m₃ q where
  change := by
    have hbase : q.base ≠ p := fun h => absurd (hw.change.fresh q.base (by simp)) (by omega)
    have hreq : q.req ≠ p := fun h => absurd (hw.change.fresh q.req (by simp)) (by omega)
    have hfree := (hc.trans hw.change (by simp)).free_new (by simp) hsize hget
    simpa [List.erase_cons, hbase, hreq] using hfree
  queued := by
    obtain ⟨b, hb, hfull⟩ := hw.queued.buf
    have hbase : q.base ≠ p := fun h => absurd (hw.change.fresh q.base (by simp)) (by omega)
    have hreq : q.req ≠ p := fun h => absurd (hw.change.fresh q.req (by simp)) (by omega)
    refine ⟨?_, ⟨b, ?_, hfull⟩, hw.queued.sent⟩
    · rw [hget, if_neg hreq]
      exact hw.queued.req
    · rw [hget, if_neg hbase]
      exact hb
  len := hw.len
  unsent := hw.unsent

theorem Handed.nread {m : Memory} {out : Readout} {r : ReadArgs × Memory} (h : Handed m out r) :
    r.1.nread = out.nread := by
  cases h <;> rfl

/-- The read callback can free what it was given, and then the heap is as before. -/
theorem Handed.freed {m : Memory} {out : Readout} {r : ReadArgs × Memory} (h : Handed m out r) :
    ∃ m', free r.2 r.1.base = .ok m' ∧ Change m m' [] [] := by
  cases h with
  | buffer p b m₁ change get read =>
    obtain ⟨m₂, hfree, hsize, -, hget⟩ := Heap.free_spec get
    refine ⟨m₂, orFault_ok hfree, ?_⟩
    simpa using change.free_new List.mem_cons_self hsize hget
  | null hup => exact ⟨m, rfl, Change.refl m⟩

end linuxc.libuv
