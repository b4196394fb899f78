import EmbassyImxrt.Buffered.System

/-!
# No received byte is lost, duplicated or reordered

Over every run of the system from a construction with an RX slice of `n > 0`
bytes, the bytes handed to the reader through the ring, followed by the bytes
the ring still holds, are exactly the characters the handler read through
`FIFORD`, in order; the ring holds at most `n` bytes; and the handler read no
character while `STAT` showed a fault.

## Strategy

`RxStream n` is the invariant: the ring is well formed with capacity `n`, the
stream equation holds, a slice borrowed by `fill_buf` is a prefix of what the
ring holds, and every read was made on a clean `STAT`.  Each step keeps it:

* steps that touch none of it (`Sys.RxFrame`) trivially;
* the handler appends to the ring what it reads (`Uart.drainRx_contents`);
* `try_read`'s pop hands out a prefix and drops it (`pop_append_contents`);
* `fill_buf` borrows a prefix (`RingBuffer.read_popBuf`), and the handler only
  appends, so at `consume(k)` the first `k` bytes of the slice are the first `k`
  the ring holds, which `pop_done` drops.

The borrowed-slice clause is what makes the zero-copy path work: between
`fill_buf` and `consume` the handler may run any number of times, and the held
slice stays the next part of the stream (`fill_buf_slice_in_order`).
-/

namespace EmbassyImxrt.Buffered

/-- The RX stream invariant of an attachment of an RX ring of capacity `n`. -/
structure RxStream (n : Nat) (s : Sys) : Prop where
  inv : s.uart.rxBuf.Inv
  len_eq : s.uart.rxBuf.len = n
  stream : s.ghost.ringReturned ++ s.uart.rxBuf.contents = s.ghost.fifoRead.map Prod.fst
  held : ∀ slice, s.rx = .holding slice → slice <+: s.uart.rxBuf.contents
  clean : ∀ p ∈ s.ghost.fifoRead, p.2 &&& rxeMask = 0

namespace RxStream

variable {n : Nat} {s : Sys}

theorem init (txBuffer : Option (List UInt8)) {rxBuffer : List UInt8} (hrx : rxBuffer ≠ []) :
    RxStream rxBuffer.length (Sys.init txBuffer (some rxBuffer)) := by
  have hbuf : (Sys.init txBuffer (some rxBuffer)).uart.rxBuf = RingBuffer.new.init rxBuffer := by
    cases txBuffer <;> rfl
  refine ⟨?_, ?_, ?_, (fun _ h => by cases h), fun _ h => by cases h⟩ <;> rw [hbuf]
  · exact RingBuffer.init_inv hrx _
  · exact RingBuffer.len_init _ _
  · simp [RingBuffer.contents_init, Sys.init]

theorem frame {s' : Sys} (h : RxStream n s) (hf : s.RxFrame s') : RxStream n s' := by
  obtain ⟨hbuf, hread, hret, hheld⟩ := hf
  refine ⟨?_, ?_, ?_, fun slice hs => ?_, ?_⟩ <;> simp only [hbuf, hread, hret]
  · exact h.inv
  · exact h.len_eq
  · exact h.stream
  · exact h.held slice (hheld slice hs)
  · exact h.clean

/-- The handler appends to the ring exactly what it reads, on a clean `STAT`. -/
theorem interrupt (h : RxStream n s) (hw : Hardware) : RxStream n (s.interrupt hw) := by
  have hbuf : (s.acked hw).rxBuf = s.uart.rxBuf := by simp
  obtain ⟨hinv, hcont⟩ := Uart.drainRx_contents (hbuf ▸ h.inv : (s.acked hw).rxBuf.Inv)
  rw [hbuf] at hcont
  refine ⟨?_, ?_, ?_, fun slice hs => ?_, ?_⟩
  · rw [Sys.interrupt_rxBuf]; exact hinv
  · rw [Sys.interrupt_rxBuf, Uart.drainRx_len, hbuf, h.len_eq]
  · rw [Sys.interrupt_rxBuf, Sys.interrupt_fifoRead, hcont]
    show s.ghost.ringReturned ++ _ = _
    rw [← List.append_assoc, h.stream]
    simp [Function.comp_def]
  · rw [Sys.interrupt_rxBuf, hcont]
    exact (h.held slice hs).trans (List.prefix_append _ _)
  · rw [Sys.interrupt_fifoRead]
    intro p hp
    rcases List.mem_append.mp hp with hp | hp
    · exact h.clean p hp
    · obtain ⟨b, hb, rfl⟩ := List.mem_map.mp hp
      have := Uart.drainRx_clean (s.acked hw) (List.ne_nil_of_mem hb)
      simpa using this

/-- `try_read`'s pop hands the reader a prefix of the ring and drops it. -/
theorem readPop (h : RxStream n s) (t : Task) (len : Nat) :
    RxStream n (s.readPop t len) := by
  have hsplit := RingBuffer.pop_append_contents h.inv len
  have hinv := RingBuffer.pop_inv h.inv len
  unfold Sys.readPop
  split_ifs with hlen hnil
  · exact h.frame ⟨rfl, rfl, rfl, fun _ h => by cases h⟩
  · refine ⟨hinv, h.len_eq, ?_, (fun _ h => by cases h), h.clean⟩
    rw [← h.stream, ← hsplit]
    simp [Uart.tryReadPop] at hnil ⊢
    simp [hnil]
  · refine ⟨hinv, h.len_eq, ?_, (fun _ h => by cases h), h.clean⟩
    rw [← h.stream, ← hsplit]
    simp [Uart.tryReadPop, Uart.rearmRx]

/-- `fill_buf` borrows a prefix of the ring. -/
theorem fillPop (h : RxStream n s) (t : Task) : RxStream n (s.fillPop t) := by
  unfold Sys.fillPop
  split_ifs
  · exact h.frame ⟨rfl, rfl, rfl, fun _ h => by cases h⟩
  · refine ⟨h.inv, h.len_eq, h.stream, fun slice hs => ?_, h.clean⟩
    cases hs
    rw [Uart.rxSlice, RingBuffer.read_popBuf h.inv le_rfl]
    exact List.take_prefix _ _

/-- `consume(k)` hands the reader the first `k` bytes of the borrowed slice,
which are the first `k` the ring holds, and drops them. -/
theorem consume (h : RxStream n s) {slice : List UInt8} {k : Nat} (hrx : s.rx = .holding slice)
    (hk : k ≤ slice.length) : RxStream n (s.consume slice k) := by
  have hpre := h.held slice hrx
  have hcount : k ≤ s.uart.rxBuf.count := by
    rw [← RingBuffer.length_contents]; exact hk.trans hpre.length_le
  have htake : slice.take k = s.uart.rxBuf.contents.take k := by
    rw [List.prefix_iff_eq_take.mp hpre, List.take_take, Nat.min_eq_left hk]
  refine ⟨RingBuffer.popDone_inv h.inv hcount, h.len_eq, ?_, (fun _ h => by cases h), h.clean⟩
  simp only [Sys.consume, Uart.consume, Uart.rearmRx]
  rw [RingBuffer.contents_popDone h.inv hcount, htake, List.append_assoc, List.take_append_drop,
    h.stream]

theorem step {s' : Sys} (h : RxStream n s) (hs : Step s s') : RxStream n s' := by
  cases hs with
  | receive e => exact h.frame (Sys.receive_rxFrame _ e)
  | rxdHigh => exact h.frame (Sys.rxdHigh_rxFrame _)
  | interrupt hw _ _ => exact h.interrupt hw
  | readPop t len _ => exact h.readPop t len
  | fillPop t _ => exact h.fillPop t
  | take op t mark _ => exact h.frame (Sys.take_rxFrame _ op t mark)
  | rxRegister op t _ _ => exact h.frame (Sys.rxRegister_rxFrame _ op t)
  | consume _ _ hrx hk => exact h.consume hrx hk
  | rxDrop _ _ _ => exact h.frame (Sys.idle_rxFrame _)
  | release _ _ => exact h.frame (Sys.idle_rxFrame _)
  | serialRead rxerr _ _ => exact h.frame (Sys.serialRead_rxFrame _ rxerr)
  | writePoll t buf _ => exact h.frame (Sys.writePoll_rxFrame _ t buf)
  | flushPoll t _ => exact h.frame (Sys.flushPoll_rxFrame _ t)
  | txRegister op t _ _ => exact h.frame (Sys.txRegister_rxFrame _ op t)
  | txDrop _ _ _ => exact h.frame (Sys.txIdle_rxFrame _)
  | blockingWrite buf _ => exact h.frame (Sys.blockingWrite_rxFrame _ buf)

/-- The invariant holds over every run from a construction with an RX slice. -/
theorem reachable (txBuffer : Option (List UInt8)) {rxBuffer : List UInt8} (hrx : rxBuffer ≠ [])
    {s : Sys} (hs : Reachable (Sys.init txBuffer (some rxBuffer)) s) : RxStream rxBuffer.length s :=
  Reachable.induct (init txBuffer hrx) (fun _ _ h hs => h.step hs) hs

end RxStream

/-- Over every run from a construction with an RX slice of `N > 0` bytes: the
bytes returned through the ring (`buf[..n]` of each `Ok(n)` of `try_read`, the
first `k` bytes of each slice at its `consume(k)`) followed by the ring's
contents are the characters the handler read through `FIFORD`, in order; the
ring holds at most `N` bytes; and no character was read while `STAT` showed a
fault. -/
theorem rx_ring_stream (txBuffer : Option (List UInt8)) (rxBuffer : List UInt8)
    (hrx : rxBuffer ≠ []) (s : Sys) (hs : Reachable (Sys.init txBuffer (some rxBuffer)) s) :
    s.ghost.ringReturned ++ s.uart.rxBuf.contents = s.ghost.fifoRead.map Prod.fst ∧
      s.uart.rxBuf.contents.length ≤ rxBuffer.length ∧
      ∀ p ∈ s.ghost.fifoRead, p.2 &&& rxeMask = 0 := by
  have h := RxStream.reachable txBuffer hrx hs
  refine ⟨h.stream, ?_, h.clean⟩
  rw [RingBuffer.length_contents, ← h.len_eq]
  exact h.inv.count_le

/-- A two-byte ring after one clean character arrived and the handler moved
it in. -/
theorem rx_ring_stream_one_char :
    let s := ((Sys.init none (some [0, 0])).receive ⟨0x41, 0⟩).interrupt ⟨false, false, false, 0⟩
    ([0, 0] : List UInt8) ≠ [] ∧ Reachable (Sys.init none (some [0, 0])) s ∧
      (s.ghost.ringReturned ++ s.uart.rxBuf.contents = s.ghost.fifoRead.map Prod.fst ∧
        s.uart.rxBuf.contents.length ≤ 2 ∧ ∀ p ∈ s.ghost.fifoRead, p.2 &&& rxeMask = 0) :=
  have hs := Reachable.step (.step .init (.receive _ _)) (.interrupt _ _ (by decide) (by decide))
  ⟨by decide, hs, rx_ring_stream none [0, 0] (by decide) _ hs⟩

/-- While a task holds the slice `fill_buf` returned, however many handler runs
come in between, the slice is the next part of the stream: what the ring
returned so far, followed by the slice, is a prefix of the characters the
handler read. -/
theorem fill_buf_slice_in_order (txBuffer : Option (List UInt8)) (rxBuffer : List UInt8)
    (hrx : rxBuffer ≠ []) (s : Sys) (hs : Reachable (Sys.init txBuffer (some rxBuffer)) s)
    (slice : List UInt8) (hhold : s.rx = .holding slice) :
    s.ghost.ringReturned ++ slice <+: s.ghost.fifoRead.map Prod.fst := by
  have h := RxStream.reachable txBuffer hrx hs
  rw [← h.stream]
  exact (List.prefix_append_right_inj _).mpr (h.held slice hhold)

/-- `fill_buf` returns the one character in the ring; a second one arrives and
a handler run, fired by the TX level since the first run masked the RX level,
moves it in behind the held slice. -/
theorem fill_buf_slice_in_order_handler_between :
    let s := ((((((Sys.init none (some [0, 0, 0, 0])).receive ⟨0x41, 0⟩).interrupt
      ⟨false, false, false, 0⟩).fillPop 1).receive ⟨0x42, 0⟩).interrupt ⟨true, false, false, 0⟩)
    ([0, 0, 0, 0] : List UInt8) ≠ [] ∧ Reachable (Sys.init none (some [0, 0, 0, 0])) s ∧
      s.rx = .holding [0x41] ∧ s.ghost.ringReturned ++ [0x41] <+: s.ghost.fifoRead.map Prod.fst :=
  have hs := Reachable.step (.step (.step (.step (.step .init (.receive _ _))
    (.interrupt _ _ (by decide) (by decide))) (.fillPop _ 1 (by decide))) (.receive _ _))
    (.interrupt _ _ (by decide) (by decide))
  ⟨by decide, hs, rfl, fill_buf_slice_in_order none _ (by decide) _ hs _ rfl⟩

end EmbassyImxrt.Buffered
