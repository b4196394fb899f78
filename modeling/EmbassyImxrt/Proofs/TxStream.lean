import EmbassyImxrt.Buffered.System

/-!
# No accepted byte is lost, duplicated or reordered

Over every run of the system from a construction with a TX slice of `n > 0`
bytes, the bytes the handler wrote to `FIFOWR`, followed by the bytes the TX
ring still holds, are exactly `buf[..n]` of every `write` and
`blocking_write` call that returned `Ok(n)`, in call order; and every such
`n` is at most `buf.len()`.  In particular a `flush` that returns `Ok(())`
finds every accepted byte written to `FIFOWR` (`flush_ok_drained`).

## Strategy

`TxStream n` is the invariant.  Each step keeps it:

* steps that touch none of it (`Sys.TxFrame`) trivially;
* the handler moves a prefix of the ring into the FIFO
  (`Uart.drainTx_contents`);
* a push appends the prefix of `buf` it copied (`RingBuffer.contents_push`),
  which is the `buf[..n]` recorded with the `Ok(n)`; a push that copied
  nothing leaves the ring as it was.
-/

namespace EmbassyImxrt.Buffered

/-- The bytes the writes that returned accepted, in call order. -/
def accepted (writes : List (List UInt8 × Nat)) : List UInt8 :=
  (writes.map fun w => w.1.take w.2).flatten

@[simp] theorem accepted_append (writes : List (List UInt8 × Nat)) (buf : List UInt8) (n : Nat) :
    accepted (writes ++ [(buf, n)]) = accepted writes ++ buf.take n := by
  simp [accepted]

/-- The TX stream invariant of an attachment of a TX ring of capacity `n`. -/
structure TxStream (n : Nat) (s : Sys) : Prop where
  inv : s.uart.txBuf.Inv
  len_eq : s.uart.txBuf.len = n
  stream : s.ghost.fifoWritten ++ s.uart.txBuf.contents = accepted s.ghost.writes
  bounded : ∀ w ∈ s.ghost.writes, w.2 ≤ w.1.length

namespace TxStream

variable {n : Nat} {s : Sys}

theorem init (rxBuffer : Option (List UInt8)) {txBuffer : List UInt8} (htx : txBuffer ≠ []) :
    TxStream txBuffer.length (Sys.init (some txBuffer) rxBuffer) := by
  have hbuf : (Sys.init (some txBuffer) rxBuffer).uart.txBuf = RingBuffer.new.init txBuffer := by
    cases rxBuffer <;> rfl
  refine ⟨?_, ?_, ?_, fun _ h => by cases h⟩ <;> rw [hbuf]
  · exact RingBuffer.init_inv htx _
  · exact RingBuffer.len_init _ _
  · simp [RingBuffer.contents_init, Sys.init, accepted]

theorem frame {s' : Sys} (h : TxStream n s) (hf : s.TxFrame s') : TxStream n s' := by
  obtain ⟨hbuf, hfifo, hwrites⟩ := hf
  refine ⟨?_, ?_, ?_, ?_⟩ <;> simp only [hbuf, hfifo, hwrites]
  exacts [h.inv, h.len_eq, h.stream, h.bounded]

/-- Recording an `Ok(0)` for an empty buffer keeps the invariant. -/
theorem recordEmpty {s' : Sys} (h : TxStream n s) (htx : s'.uart.txBuf = s.uart.txBuf)
    (hfifo : s'.ghost.fifoWritten = s.ghost.fifoWritten)
    (hwrites : s'.ghost.writes = s.ghost.writes ++ [([], 0)]) : TxStream n s' := by
  refine ⟨htx ▸ h.inv, htx ▸ h.len_eq, ?_, ?_⟩
  · rw [htx, hfifo, hwrites, accepted_append, h.stream]
    simp
  · rw [hwrites]
    intro w hw
    rcases List.mem_append.mp hw with hw | hw
    · exact h.bounded w hw
    · simp [List.mem_singleton.mp hw]

/-- A push of `buf` into the ring, recorded as `Ok(n)` when it copied `n > 0`
bytes and not recorded when it copied none, keeps the invariant. -/
theorem push {s' : Sys} (h : TxStream n s) (buf : List UInt8)
    (htx : s'.uart.txBuf = (s.uart.txBuf.push buf).1)
    (hfifo : s'.ghost.fifoWritten = s.ghost.fifoWritten)
    (hwrites : s'.ghost.writes = s.ghost.writes ∧ (s.uart.txBuf.push buf).2 = 0 ∨
      s'.ghost.writes = s.ghost.writes ++ [(buf, (s.uart.txBuf.push buf).2)]) :
    TxStream n s' := by
  have hcont := RingBuffer.contents_push h.inv buf
  refine ⟨htx ▸ RingBuffer.push_inv h.inv buf, by rw [htx, RingBuffer.push_len, h.len_eq], ?_, ?_⟩
  · rcases hwrites with ⟨hwrites, hzero⟩ | hwrites
    · rw [htx, hfifo, hwrites, hcont, hzero, List.take_zero, List.append_nil, h.stream]
    · rw [htx, hfifo, hwrites, hcont, accepted_append, ← List.append_assoc, h.stream]
  · rcases hwrites with ⟨hwrites, -⟩ | hwrites <;> rw [hwrites]
    · exact h.bounded
    · intro w hw
      rcases List.mem_append.mp hw with hw | hw
      · exact h.bounded w hw
      · rw [List.mem_singleton.mp hw]
        exact RingBuffer.push_le_length _ _

/-- The handler writes to `FIFOWR` a prefix of the ring and drops it. -/
theorem interrupt (h : TxStream n s) (hw : Hardware) : TxStream n (s.interrupt hw) := by
  have hbuf : (s.acked hw).drainRx.1.txBuf = s.uart.txBuf := by simp
  obtain ⟨hinv, hcont⟩ := Uart.drainTx_contents (hbuf ▸ h.inv) hw.txRoom
  rw [hbuf] at hcont
  refine ⟨?_, ?_, ?_, h.bounded⟩
  · rw [Sys.interrupt_txBuf]; exact hinv
  · rw [Sys.interrupt_txBuf, Uart.drainTx_len, hbuf, h.len_eq]
  · rw [Sys.interrupt_txBuf, Sys.interrupt_fifoWritten, List.append_assoc, hcont]
    exact h.stream

theorem writePoll (h : TxStream n s) (t : Task) (buf : List UInt8) :
    TxStream n (s.writePoll t buf) := by
  unfold Sys.writePoll
  split_ifs with hbuf hzero
  · exact h.recordEmpty rfl rfl rfl
  · exact h.push buf rfl rfl (.inl ⟨rfl, hzero⟩)
  · exact h.push buf rfl rfl (.inr rfl)

theorem blockingWrite (h : TxStream n s) (buf : List UInt8) :
    TxStream n (s.blockingWrite buf) := by
  unfold Sys.blockingWrite
  split_ifs with hbuf
  · exact h.recordEmpty rfl rfl rfl
  · simp only [Uart.blockingWriteStep]
    split_ifs with hzero
    · exact h.push buf rfl rfl (.inr rfl)
    · exact h.push buf rfl rfl (.inl ⟨List.append_nil _, not_not.mp hzero⟩)

theorem step {s' : Sys} (h : TxStream n s) (hs : Step s s') : TxStream n s' := by
  cases hs with
  | receive e => exact h.frame (Sys.receive_txFrame _ e)
  | rxdHigh => exact h.frame (Sys.rxdHigh_txFrame _)
  | interrupt hw _ _ => exact h.interrupt hw
  | readPop t len _ => exact h.frame (Sys.readPop_txFrame _ t len)
  | fillPop t _ => exact h.frame (Sys.fillPop_txFrame _ t)
  | take op t mark _ => exact h.frame (Sys.take_txFrame _ op t mark)
  | rxRegister op t _ _ => exact h.frame (Sys.rxRegister_txFrame _ op t)
  | consume slice k _ _ => exact h.frame (Sys.consume_txFrame _ slice k)
  | rxDrop _ _ _ => exact h.frame ⟨rfl, rfl, rfl⟩
  | release _ _ => exact h.frame ⟨rfl, rfl, rfl⟩
  | serialRead rxerr _ _ => exact h.frame (Sys.serialRead_txFrame _ rxerr)
  | writePoll t buf _ => exact h.writePoll t buf
  | flushPoll t _ => exact h.frame (Sys.flushPoll_txFrame _ t)
  | txRegister op t _ _ => exact h.frame (Sys.txRegister_txFrame _ op t)
  | txDrop _ _ _ => exact h.frame ⟨rfl, rfl, rfl⟩
  | blockingWrite buf _ => exact h.blockingWrite buf

/-- The invariant holds over every run from a construction with a TX slice. -/
theorem reachable (rxBuffer : Option (List UInt8)) {txBuffer : List UInt8} (htx : txBuffer ≠ [])
    {s : Sys} (hs : Reachable (Sys.init (some txBuffer) rxBuffer) s) : TxStream txBuffer.length s :=
  Reachable.induct (init rxBuffer htx) (fun _ _ h hs => h.step hs) hs

end TxStream

/-- Over every run from a construction with a TX slice of `N > 0` bytes: the
bytes written to `FIFOWR` followed by the TX ring's contents are `buf[..n]` of
every `write` or `blocking_write` that returned `Ok(n)`, in call order; every
such `n` is at most `buf.len()`; and the ring holds at most `N` bytes. -/
theorem tx_ring_stream (rxBuffer : Option (List UInt8)) (txBuffer : List UInt8)
    (htx : txBuffer ≠ []) (s : Sys) (hs : Reachable (Sys.init (some txBuffer) rxBuffer) s) :
    s.ghost.fifoWritten ++ s.uart.txBuf.contents =
        (s.ghost.writes.map fun w => w.1.take w.2).flatten ∧
      (∀ w ∈ s.ghost.writes, w.2 ≤ w.1.length) ∧
      s.uart.txBuf.contents.length ≤ txBuffer.length := by
  have h := TxStream.reachable rxBuffer htx hs
  refine ⟨h.stream, h.bounded, ?_⟩
  rw [RingBuffer.length_contents, ← h.len_eq]
  exact h.inv.count_le

/-- A four-byte ring after a three-byte `write` and a handler run that moved
two of the bytes into a FIFO with room for two. -/
theorem tx_ring_stream_partial_drain :
    let s := ((Sys.init (some [0, 0, 0, 0]) none).writePoll 2 [1, 2, 3]).interrupt
      ⟨false, false, false, 2⟩
    ([0, 0, 0, 0] : List UInt8) ≠ [] ∧ Reachable (Sys.init (some [0, 0, 0, 0]) none) s ∧
      (s.ghost.fifoWritten ++ s.uart.txBuf.contents =
          (s.ghost.writes.map fun w => w.1.take w.2).flatten ∧
        (∀ w ∈ s.ghost.writes, w.2 ≤ w.1.length) ∧ s.uart.txBuf.contents.length ≤ 4) :=
  have hs := Reachable.step (.step .init (.writePoll (Sys.init _ _) 2 [1, 2, 3] rfl))
    (.interrupt _ _ (by decide) (by decide))
  ⟨by decide, hs, tx_ring_stream none [0, 0, 0, 0] (by decide) _ hs⟩

/-- When a `flush` poll returns `Ok(())`, every byte the writes accepted has
been written to `FIFOWR`, in call order. -/
theorem flush_ok_drained (rxBuffer : Option (List UInt8)) (txBuffer : List UInt8)
    (htx : txBuffer ≠ []) (s : Sys) (hs : Reachable (Sys.init (some txBuffer) rxBuffer) s)
    (t : Task) (hok : (s.flushPoll t).tx = .idle) :
    s.ghost.fifoWritten = (s.ghost.writes.map fun w => w.1.take w.2).flatten := by
  have h := TxStream.reachable rxBuffer htx hs
  have hempty : s.uart.txBuf.isEmpty := by
    unfold Sys.flushPoll at hok
    split_ifs at hok with hne
    simpa using hne
  have hnil : s.uart.txBuf.contents = [] := by
    rw [← List.length_eq_zero, RingBuffer.length_contents]
    exact (RingBuffer.isEmpty_iff h.inv).mp hempty
  rw [← List.append_nil s.ghost.fifoWritten, ← hnil]
  exact h.stream

/-- A three-byte `write`, a handler run into a FIFO with room for eight, then a
`flush`. -/
theorem flush_ok_drained_after_write :
    let s := ((Sys.init (some [0, 0, 0, 0]) none).writePoll 2 [1, 2, 3]).interrupt
      ⟨false, false, false, 8⟩
    ([0, 0, 0, 0] : List UInt8) ≠ [] ∧ Reachable (Sys.init (some [0, 0, 0, 0]) none) s ∧
      (s.flushPoll 2).tx = .idle ∧
      s.ghost.fifoWritten = (s.ghost.writes.map fun w => w.1.take w.2).flatten :=
  have hs := Reachable.step (.step .init (.writePoll (Sys.init _ _) 2 [1, 2, 3] rfl))
    (.interrupt _ _ (by decide) (by decide))
  ⟨by decide, hs, rfl, flush_ok_drained none [0, 0, 0, 0] (by decide) _ hs 2 rfl⟩

end EmbassyImxrt.Buffered
