import EmbassyImxrt.Buffered.Trace

/-!
# The single-character read against the ring

Two paths take characters out of the RX FIFO: the handler, which moves them
into the ring, and the single-character `Read::read` of `embedded_hal`, which
reads `FIFORD` itself.  Each path alone keeps arrival order: what the handler
read, followed by what the FIFO still holds, is a subsequence of what arrived
(`rx_read_in_order`).  But the single-character read returns the FIFO's head,
which arrived after every byte the handler has already put in the ring
(`serialRead_after_handler_reads`), so mixing the two interfaces hands the
reader a later byte before earlier ones (`serial_read_overtakes_ring`).

The error path makes progress: each call that finds a sticky fault flag in
`STAT` reports it and clears it, and leaves the FIFO alone.  Polled with no
overflow, the read reports the parity, framing and noise flags that are set,
once each and in this order, and then returns the FIFO's head
(`serialPolls_stickyFaults`); it cannot keep failing on a flag it has reported.

## Strategy

`Sys.fifoOrder` is the handler's reads followed by the FIFO.  A character
arriving extends it and what arrived alike; a handler run moves a prefix of the
FIFO to the reads (`Uart.drainRx_fifo`), which leaves it unchanged; the
single-character read drops part of the FIFO (`Uart.serialRead_rxFifo`); no
other step touches it.

For the error path, `Uart.stickyFaults` lists the flags a read will report, in
the order the code tests them; a read that reports one removes it from the
front of that list and nothing else (`Uart.serialRead_of_stickyFaults_cons`),
and a read that finds the list empty returns the head.  The run lemma is an
induction on the list.
-/

namespace EmbassyImxrt.Buffered

open List

variable {s s' : Sys}

/-- What the handler read, followed by what the RX FIFO still holds. -/
def Sys.fifoOrder (s : Sys) : List UInt8 :=
  s.ghost.fifoRead.map Prod.fst ++ s.uart.rxFifo.map RxEntry.data

/-- A handler run moves a prefix of the FIFO to its reads. -/
theorem Sys.interrupt_fifoOrder (s : Sys) (hw : Hardware) :
    (s.interrupt hw).fifoOrder = s.fifoOrder := by
  obtain ⟨pre, hdata, hsplit⟩ := Uart.drainRx_fifo (s.acked hw)
  have hfifo : s.uart.rxFifo = pre ++ (s.acked hw).drainRx.1.rxFifo := by simpa using hsplit
  rw [Sys.fifoOrder, Sys.interrupt_fifoRead, Sys.interrupt_rxFifo, Sys.fifoOrder, hfifo]
  simp [← hdata, Function.comp_def]

/-- A character arriving extends the FIFO, unless the FIFO is full and the
character is lost. -/
theorem Sys.receive_fifoOrder (s : Sys) (e : RxEntry) :
    (s.receive e).fifoOrder =
      s.fifoOrder ++ if s.uart.rxFifo.length < rxFifoDepth then [e.data] else [] := by
  simp only [Sys.fifoOrder, Sys.receive, Uart.receive, decide_eq_true_eq]
  split_ifs <;> simp

theorem Sys.LineFrame.fifoOrder (hf : s.LineFrame s') : s'.fifoOrder = s.fifoOrder := by
  rw [Sys.fifoOrder, hf.fifoRead, hf.rxFifo, Sys.fifoOrder]

theorem Step.fifoOrder (hs : Step s s')
    (h : s.fifoOrder <+ s.ghost.received.map RxEntry.data) :
    s'.fifoOrder <+ s'.ghost.received.map RxEntry.data := by
  rcases hs.cases_shape with ⟨e, rfl⟩ | rfl | ⟨hw, rfl⟩ | ⟨rxerr, rfl⟩ | hf
  · have hlost : (if s.uart.rxFifo.length < rxFifoDepth then [e.data] else []) <+ [e.data] := by
      split_ifs
      · exact Sublist.refl _
      · exact nil_sublist _
    rw [Sys.receive_fifoOrder]
    simpa [Sys.receive] using h.append hlost
  · exact h
  · rw [Sys.interrupt_fifoOrder]
    exact h
  · exact (Sublist.append (Sublist.refl _) ((Uart.serialRead_rxFifo s.uart rxerr).map _)).trans h
  · rw [hf.fifoOrder, hf.received]
    exact h

theorem fifoOrder_sublist {txBuffer rxBuffer : Option (List UInt8)} {s : Sys}
    (hs : Reachable (Sys.init txBuffer rxBuffer) s) :
    s.fifoOrder <+ s.ghost.received.map RxEntry.data := by
  have hinit : (Sys.init txBuffer rxBuffer).fifoOrder = [] := by
    cases txBuffer <;> cases rxBuffer <;> rfl
  exact Reachable.induct (P := fun s => s.fifoOrder <+ s.ghost.received.map RxEntry.data)
    (by show _ <+ _; rw [hinit]; exact nil_sublist _) (fun _ _ h hs => hs.fifoOrder h) hs

/-- Over every run from a construction: the characters the handler read,
followed by those the FIFO still holds, are a subsequence of the characters
that arrived, in arrival order. -/
theorem rx_read_in_order (txBuffer rxBuffer : Option (List UInt8)) (s : Sys)
    (hs : Reachable (Sys.init txBuffer rxBuffer) s) :
    s.ghost.fifoRead.map Prod.fst ++ s.uart.rxFifo.map RxEntry.data <+
      s.ghost.received.map RxEntry.data :=
  fifoOrder_sublist hs

/-- The handler moves `0x41` into the ring; `0x42` arrives and the
single-character read takes it out of the FIFO, so that only `0x41` is left of
the two. -/
theorem rx_read_in_order_serial_read :
    let s := ((((Sys.init none (some [0, 0, 0, 0])).receive ⟨0x41, 0⟩).interrupt
      ⟨false, false, false, 0⟩).receive ⟨0x42, 0⟩).serialRead false
    Reachable (Sys.init none (some [0, 0, 0, 0])) s ∧
      s.ghost.fifoRead.map Prod.fst ++ s.uart.rxFifo.map RxEntry.data <+
        s.ghost.received.map RxEntry.data :=
  have hs := Reachable.step (.step (.step (.step .init (.receive _ _))
    (.interrupt _ _ (by decide) (by decide))) (.receive _ _)) (.serialRead _ _ (by decide) (by decide))
  ⟨hs, rx_read_in_order none _ _ hs⟩

/-- A clean character arrives and the handler moves it into the ring; a second
clean character arrives and stays in the FIFO, the RX level interrupt being
masked.  The single-character read returns the second one while the first is
still in the ring: the reader gets `0x42` before `0x41`. -/
theorem serial_read_overtakes_ring :
    ∃ s, Reachable (Sys.init none (some [0, 0, 0, 0])) s ∧ s.uart.rxBuf.contents = [0x41] ∧
      s.ghost.returned = [0x42] ∧
      (s.ghost.received.filter fun e => !e.faulty).map RxEntry.data = [0x41, 0x42] := by
  obtain ⟨s, hs, hp⟩ := reach_of_run (Sys.init none (some [0, 0, 0, 0]))
    [.receive ⟨0x41, 0⟩, .interrupt ⟨false, false, false, 0⟩, .receive ⟨0x42, 0⟩,
      .serialRead false]
    (fun s => s.uart.rxBuf.contents == [0x41] && s.ghost.returned == [0x42] &&
      (s.ghost.received.filter fun e => !e.faulty).map RxEntry.data == [0x41, 0x42]) (by decide)
  simp only [Bool.and_eq_true, beq_iff_eq] at hp
  exact ⟨s, hs, hp.1.1, hp.1.2, hp.2⟩

/-! ## Sticky faults are reported once each -/

namespace Uart

/-- The sticky faults of `STAT` the single-character read reports, in the
order it tests them: parity, framing, noise. -/
def stickyFaults (stat : BitVec 32) : List Error :=
  (if stat &&& rxeParityErr != 0 then [.Parity] else []) ++
    (if stat &&& rxeFramErr != 0 then [.Framing] else []) ++
    (if stat &&& rxeNoise != 0 then [.Noise] else [])

/-- The results of `n` calls of the single-character read, with no FIFO
overflow and nothing arriving in between. -/
def serialPolls (u : Uart) : Nat → List (Except NbError UInt8)
  | 0 => []
  | n + 1 => (u.serialRead false).2 :: (u.serialRead false).1.serialPolls n

theorem stickyFaults_clear_parity (stat : BitVec 32) :
    stickyFaults (stat &&& ~~~rxeParityErr) =
      (if stat &&& rxeFramErr != 0 then [.Framing] else []) ++
        (if stat &&& rxeNoise != 0 then [.Noise] else []) := by
  simp only [stickyFaults, and_not_and_self, and_not_and_of_disjoint stat (m := rxeParityErr)
    (by decide : rxeParityErr &&& rxeFramErr = 0), and_not_and_of_disjoint stat (m := rxeParityErr)
    (by decide : rxeParityErr &&& rxeNoise = 0)]
  simp

theorem stickyFaults_clear_framing {stat : BitVec 32} (hp : stat &&& rxeParityErr = 0) :
    stickyFaults (stat &&& ~~~rxeFramErr) = if stat &&& rxeNoise != 0 then [.Noise] else [] := by
  simp only [stickyFaults, and_not_and_self, and_not_and_of_disjoint stat (m := rxeFramErr)
    (by decide : rxeFramErr &&& rxeParityErr = 0), and_not_and_of_disjoint stat (m := rxeFramErr)
    (by decide : rxeFramErr &&& rxeNoise = 0), hp]
  simp

theorem stickyFaults_clear_noise {stat : BitVec 32} (hp : stat &&& rxeParityErr = 0)
    (hf : stat &&& rxeFramErr = 0) : stickyFaults (stat &&& ~~~rxeNoise) = [] := by
  simp only [stickyFaults, and_not_and_self, and_not_and_of_disjoint stat (m := rxeNoise)
    (by decide : rxeNoise &&& rxeParityErr = 0), and_not_and_of_disjoint stat (m := rxeNoise)
    (by decide : rxeNoise &&& rxeFramErr = 0), hp, hf]
  simp

variable {u : Uart} {e : RxEntry} {rest : List RxEntry}

/-- With no sticky fault set, the read returns the FIFO's head. -/
theorem serialRead_of_stickyFaults_nil (hfifo : u.rxFifo = e :: rest)
    (h : stickyFaults u.stat = []) : (u.serialRead false).2 = .ok e.data := by
  simp only [stickyFaults, List.append_eq_nil, ite_eq_right_iff, List.cons_ne_nil, imp_false,
    bne_iff_ne, ne_eq, not_not] at h
  obtain ⟨⟨hp, hf⟩, hn⟩ := h
  simp [serialRead, hfifo, hp, hf, hn]

/-- A read that finds a sticky fault reports the first one, clears it, and
leaves the FIFO as it was. -/
theorem serialRead_of_stickyFaults_cons (hfifo : u.rxFifo = e :: rest) {err : Error}
    {errs : List Error} (h : stickyFaults u.stat = err :: errs) :
    (u.serialRead false).2 = .error (.Other err) ∧ (u.serialRead false).1.rxFifo = e :: rest ∧
      stickyFaults (u.serialRead false).1.stat = errs := by
  simp only [serialRead, hfifo, Bool.false_eq_true, if_false]
  cases hp : u.stat &&& rxeParityErr != 0
  · have hp' : u.stat &&& rxeParityErr = 0 := by simpa using hp
    cases hf : u.stat &&& rxeFramErr != 0
    · have hf' : u.stat &&& rxeFramErr = 0 := by simpa using hf
      cases hn : u.stat &&& rxeNoise != 0
      · have hn' : u.stat &&& rxeNoise = 0 := by simpa using hn
        simp [stickyFaults, hp', hf', hn'] at h
      · -- noise only
        simp only [stickyFaults, hp, hf, hn, if_true, Bool.false_eq_true, if_false,
          List.nil_append, List.cons.injEq] at h ⊢
        obtain ⟨rfl, rfl⟩ := h
        exact ⟨rfl, trivial, stickyFaults_clear_noise hp' hf'⟩
    · -- framing, no parity
      simp only [stickyFaults, hp, hf, if_true, Bool.false_eq_true, if_false, List.nil_append,
        List.cons_append, List.cons.injEq] at h ⊢
      obtain ⟨rfl, rfl⟩ := h
      exact ⟨rfl, trivial, stickyFaults_clear_framing hp'⟩
  · -- parity
    simp only [stickyFaults, hp, if_true, List.cons_append, List.singleton_append,
      List.cons.injEq] at h ⊢
    obtain ⟨rfl, rfl⟩ := h
    exact ⟨rfl, trivial, stickyFaults_clear_parity _⟩

/-- From every state with a character in the RX FIFO: polled with no overflow
and nothing arriving, the single-character read reports each sticky fault of
`STAT` once, parity before framing before noise, and then returns the FIFO's
head. -/
theorem serialPolls_stickyFaults (u : Uart) (e : RxEntry) (rest : List RxEntry)
    (hfifo : u.rxFifo = e :: rest) :
    u.serialPolls ((stickyFaults u.stat).length + 1) =
      (stickyFaults u.stat).map (fun err => .error (.Other err)) ++ [.ok e.data] := by
  generalize hfs : stickyFaults u.stat = fs
  induction fs generalizing u with
  | nil => simp [serialPolls, serialRead_of_stickyFaults_nil hfifo hfs]
  | cons err errs ih =>
    obtain ⟨hres, hfifo', hfs'⟩ := serialRead_of_stickyFaults_cons hfifo hfs
    rw [List.length_cons, serialPolls, hres, ih _ hfifo' hfs']
    rfl

/-- A character that raised the parity and noise flags: two errors, then the
character. -/
theorem serialPolls_stickyFaults_parity_noise :
    let u := { Uart.boot with rxFifo := [⟨0x41, rxeParityErr ||| rxeNoise⟩],
                              stat := rxeParityErr ||| rxeNoise }
    u.rxFifo = [⟨0x41, rxeParityErr ||| rxeNoise⟩] ∧
      stickyFaults u.stat = [.Parity, .Noise] ∧
      u.serialPolls ((stickyFaults u.stat).length + 1) =
        (stickyFaults u.stat).map (fun err => .error (.Other err)) ++ [.ok 0x41] :=
  ⟨rfl, by decide, serialPolls_stickyFaults _ ⟨0x41, rxeParityErr ||| rxeNoise⟩ [] rfl⟩

end Uart

end EmbassyImxrt.Buffered
