import EmbassyImxrt.Buffered.Trace
import EmbassyImxrt.Proofs.RxStream
import EmbassyImxrt.Proofs.TxStream

/-!
# Wake-ups and the interrupt enables

A task that returns `Pending` relies on a later handler run to wake it, and a
handler run happens only while some enabled source can fire the line.  Three
ways the driver breaks this:

* a poll checks the ring, then registers its waker.  A handler run between the
  two moves data and wakes whatever the slot held before, which is not the
  polling task (`Sys.interrupt_woken`); the poll then returns `Pending` with
  data in the ring and, once the run has masked the RX level interrupt,
  nothing left to fire the line (`read_wakeup_lost`);
* `fill_buf` never re-arms the RX level interrupt: after a handler run masks
  it on a fault, a `fill_buf` that returned the error and polls again suspends
  on a line no arrival can fire (`fill_buf_suspended_with_rx_masked`);
* the TX level interrupt is enabled only by `init_buffers`: once a handler run
  has acknowledged it, it stays masked for good (`txlvl_stays_masked`), and
  bytes left in the TX ring after that run wait for the next `write` to pend
  the line (`tx_tail_stranded`).

The error interrupt enables of `INTEN` fare the same way: the first handler
run that finds a source it acknowledges flagged in `INTSTAT` (TX idle or an
error) clears all four, and nothing sets them again (`inten_stays_cleared`).

While the RX level interrupt is armed the RX path does make progress: a
character waiting on a clean `STAT` fires the line, and the run moves it into
the ring unless the ring is full (`rx_progress`); likewise a pended line fires,
and the run moves stored bytes to the FIFO while it has room (`tx_progress`).

## Strategy

`Step.enables` says that only a handler run changes `INTEN` or the TX level
enable, and the acknowledgement only clears them: no step raises the TX level
enable (`Step.txlvl_le`), sets a bit of `INTEN` (`Step.inten_le`) or disables
the line (`Step.irqEnabled`); the run results follow along `Reachable`.  The refuting runs are replayed with `reach_of_run`
and end in states where no source can fire the line (`Uart.silent`, or the
stronger `Uart.dead`, which no arrival can change).
-/

namespace EmbassyImxrt.Buffered

variable {s s' : Sys}

/-! ## A line nothing can fire -/

/-- No source can fire the line, whatever arrives: it is not pended, every
`INTSTAT` source is disabled, and all four FIFO interrupts are masked. -/
def Uart.dead (u : Uart) : Bool :=
  !u.irqPending && u.inten == 0 && u.fifointen == ⟨false, false, false, false⟩

/-- A dead line does not fire, whatever `STAT`, the FIFOs and the hardware
show. -/
theorem Uart.fires_of_dead {u : Uart} (h : u.dead) (hw : Hardware) : u.fires hw = false := by
  simp only [dead, Bool.and_eq_true, Bool.not_eq_true', beq_iff_eq] at h
  obtain ⟨⟨hpend, hinten⟩, hfifo⟩ := h
  simp [fires, intstat, fifointstat, hpend, hinten, hfifo]

/-! ## The interrupt enables -/

/-- A step other than a handler run leaves `INTEN`, the TX level enable and the
line enable as they were. -/
theorem Step.enables (hs : Step s s') : (∃ hw, s' = s.interrupt hw) ∨
    s'.uart.inten = s.uart.inten ∧ s'.uart.fifointen.txlvl = s.uart.fifointen.txlvl ∧
      s'.uart.irqEnabled = s.uart.irqEnabled := by
  rcases hs.cases_shape with ⟨e, rfl⟩ | rfl | ⟨hw, rfl⟩ | ⟨rxerr, rfl⟩ | hf
  · exact .inr ⟨rfl, rfl, rfl⟩
  · exact .inr ⟨rfl, rfl, rfl⟩
  · exact .inl ⟨hw, rfl⟩
  · have h := congrArg (fun u : Uart => (u.inten, u.fifointen, u.irqEnabled))
      (Uart.serialRead_fst s.uart rxerr)
    exact .inr ⟨congrArg Prod.fst h, congrArg (·.2.1.txlvl) h, congrArg (·.2.2) h⟩
  · exact .inr ⟨hf.inten, hf.txlvl, hf.irqEnabled⟩

/-- No step raises the TX level enable. -/
theorem Step.txlvl_le (hs : Step s s') (h : s'.uart.fifointen.txlvl) : s.uart.fifointen.txlvl := by
  rcases hs.enables with ⟨hw, rfl⟩ | ⟨-, htx, -⟩
  · exact s.interrupt_txlvl hw h
  · rwa [htx] at h

/-- No step sets a bit of `INTEN`. -/
theorem Step.inten_le (hs : Step s s') {i : Nat} (h : s'.uart.inten.getLsbD i) :
    s.uart.inten.getLsbD i := by
  rcases hs.enables with ⟨hw, rfl⟩ | ⟨hinten, -, -⟩
  · exact s.interrupt_inten hw h
  · rwa [hinten] at h

/-- Once the TX level interrupt is masked, it stays masked over every run from
there. -/
theorem txlvl_stays_masked {s₀ s : Sys} (h₀ : s₀.uart.fifointen.txlvl = false)
    (hs : Reachable s₀ s) : s.uart.fifointen.txlvl = false :=
  Reachable.induct (P := fun s => s.uart.fifointen.txlvl = false) h₀
    (fun _ _ h hstep => Bool.eq_false_iff.mpr fun h' => by simpa [h] using hstep.txlvl_le h') hs

/-- A TX-only handle: a handler run fired by the TX level masks it; a later
`write` pends the line and the run it causes leaves the level masked. -/
theorem txlvl_stays_masked_after_write :
    let s₀ := (Sys.init (some [0, 0, 0, 0]) none).interrupt ⟨true, false, false, 0⟩
    let s := (s₀.writePoll 1 [7]).interrupt ⟨false, false, false, 8⟩
    s₀.uart.fifointen.txlvl = false ∧ Reachable s₀ s ∧ s.uart.fifointen.txlvl = false :=
  have hs := Reachable.step (.step .init (.writePoll _ 1 [7] (by decide)))
    (.interrupt _ _ (by decide) (by decide))
  ⟨by decide, hs, txlvl_stays_masked (by decide) hs⟩

/-- The enables of a mask that are clear in `INTEN` stay clear over a step. -/
theorem Step.inten_and_eq_zero (hs : Step s s') {m : BitVec 32}
    (h : s.uart.inten &&& m = 0) : s'.uart.inten &&& m = 0 := by
  apply BitVec.eq_of_getLsbD_eq
  intro i
  have hi := congrArg (fun v => v.getLsbD i) h
  simp only [BitVec.getLsbD_and] at hi ⊢
  cases h' : s'.uart.inten.getLsbD i
  · simp
  · simpa [hs.inten_le h'] using hi

/-- Clearing the acknowledged enables clears the four error enables. -/
theorem and_not_ackIntEn_and_errorIntEn (x : BitVec 32) : x &&& ~~~ackIntEn &&& errorIntEn = 0 := by
  apply BitVec.eq_of_getLsbD_eq
  intro i
  simp only [ackIntEn, BitVec.getLsbD_and, BitVec.getLsbD_not, BitVec.getLsbD_or,
    BitVec.getLsbD_zero]
  cases errorIntEn.getLsbD i <;> simp

/-- A handler run that finds an acknowledged source flagged in `INTSTAT`
clears the four error enables. -/
theorem Sys.interrupt_inten_of_ack (hw : Hardware) (hack : s.uart.intstat &&& ackIntEn ≠ 0) :
    (s.interrupt hw).uart.inten &&& errorIntEn = 0 := by
  have hinten : (s.interrupt hw).uart.inten = (s.acked hw).inten := by
    simp [Sys.interrupt, onInterrupt]
  have hacked : (s.acked hw).inten = s.uart.inten &&& ~~~ackIntEn := by
    have hint : ({ s.uart with irqPending := false } : Uart).intstat = s.uart.intstat := rfl
    simp only [Sys.acked, Uart.acknowledge, hint, bne_iff_ne, ne_eq, hack, not_false_eq_true,
      if_true]
    split_ifs <;> rfl
  rw [hinten, hacked, and_not_ackIntEn_and_errorIntEn]

/-- The first handler run that finds a source it acknowledges flagged in
`INTSTAT` (TX idle, or a framing, parity, noise or autobaud error) clears the
four error interrupt enables of `INTEN`, and they stay clear over every run
from there: only `init_buffers` sets them. -/
theorem inten_stays_cleared {s₀ s : Sys} (hw : Hardware)
    (hack : s₀.uart.intstat &&& ackIntEn ≠ 0) (hs : Reachable (s₀.interrupt hw) s) :
    s.uart.inten &&& errorIntEn = 0 :=
  Reachable.induct (P := fun s => s.uart.inten &&& errorIntEn = 0)
    (Sys.interrupt_inten_of_ack hw hack) (fun _ _ h hstep => hstep.inten_and_eq_zero h) hs

/-- A framing error fires the line and the handler run clears the four error
enables; a later parity error finds its enable clear. -/
theorem inten_stays_cleared_parity :
    let s₀ := (Sys.init none (some [0, 0, 0, 0])).receive ⟨0x41, rxeFramErr⟩
    let hw : Hardware := ⟨false, false, false, 0⟩
    let s := (s₀.interrupt hw).receive ⟨0x42, rxeParityErr⟩
    s₀.uart.intstat &&& ackIntEn ≠ 0 ∧ Reachable (s₀.interrupt hw) s ∧
      s.uart.inten &&& errorIntEn = 0 :=
  have hs := Reachable.step .init (.receive _ _)
  ⟨by decide, hs, inten_stays_cleared _ (by decide) hs⟩

/-- No step disables the line. -/
theorem Step.irqEnabled (hs : Step s s') : s'.uart.irqEnabled = s.uart.irqEnabled := by
  rcases hs.enables with ⟨hw, rfl⟩ | ⟨-, -, hen⟩
  · exact s.interrupt_irqEnabled hw
  · exact hen

/-- The line stays enabled over every run from a construction. -/
theorem irqEnabled_of_reachable {txBuffer rxBuffer : Option (List UInt8)} {s : Sys}
    (hs : Reachable (Sys.init txBuffer rxBuffer) s) : s.uart.irqEnabled :=
  Reachable.induct (P := fun s => s.uart.irqEnabled = true)
    (by cases txBuffer <;> cases rxBuffer <;> rfl) (fun _ _ h hstep => hstep.irqEnabled.trans h) hs

/-! ## Progress of the RX path -/

/-- Progress while the RX level interrupt is armed: over every run from a
construction with an RX slice, when `STAT` shows no fault and a character waits
in the FIFO, the line fires whatever the hardware reports, and the run it
causes reads the FIFO's first characters, as many as the free slice of the
ring takes, which is at least one unless the ring is full. -/
theorem rx_progress (txBuffer : Option (List UInt8)) (rxBuffer : List UInt8)
    (hrx : rxBuffer ≠ []) (s : Sys) (hs : Reachable (Sys.init txBuffer (some rxBuffer)) s)
    (hw : Hardware) (hclean : s.uart.stat &&& rxeMask = 0) (harmed : s.uart.fifointen.rxlvl)
    (hwait : s.uart.rxFifo ≠ []) :
    s.uart.fires hw ∧
      (s.interrupt hw).ghost.fifoRead.map Prod.fst = s.ghost.fifoRead.map Prod.fst ++
        (s.uart.rxFifo.take s.uart.rxBuf.pushBuf.2).map RxEntry.data ∧
      (s.uart.rxBuf.count < rxBuffer.length →
        s.ghost.fifoRead.length < (s.interrupt hw).ghost.fifoRead.length) := by
  have h := RxStream.reachable txBuffer hrx hs
  have hen := irqEnabled_of_reachable hs
  have havail : (s.acked hw).rxBuf.isAvailable := by
    simpa using (RingBuffer.isAvailable_iff _).mpr h.inv.len_pos
  have hread : (s.acked hw).drainRx.2.1 =
      (s.uart.rxFifo.take s.uart.rxBuf.pushBuf.2).map RxEntry.data := by
    rw [Uart.drainRx_read havail, Uart.rxDrainLoop, rxLoop_of_clean (by simpa using hclean)]
    simp
  refine ⟨?_, ?_, fun hroom => ?_⟩
  · have hne : s.uart.rxFifo.isEmpty = false := by simpa using hwait
    simp [Uart.fires, Uart.fifointstat, hen, harmed, hne]
  · rw [Sys.interrupt_fifoRead, List.map_append, List.map_map, hread]
    simp only [Function.comp_def, List.map_id']
  · have hpos := (RingBuffer.pushBuf_spec h.inv).2.1 (by rw [h.len_eq]; exact hroom)
    have := List.length_pos.mpr hwait
    rw [Sys.interrupt_fifoRead, List.length_append, List.length_map, hread, List.length_map,
      List.length_take]
    omega

/-- A clean character arrives in an empty two-byte ring's FIFO. -/
theorem rx_progress_one_char :
    let s := (Sys.init none (some [0, 0])).receive ⟨0x41, 0⟩
    ([0, 0] : List UInt8) ≠ [] ∧ Reachable (Sys.init none (some [0, 0])) s ∧
      s.uart.stat &&& rxeMask = 0 ∧ s.uart.fifointen.rxlvl = true ∧ s.uart.rxFifo ≠ [] ∧
      (s.uart.fires ⟨false, false, false, 0⟩ ∧
        (s.interrupt ⟨false, false, false, 0⟩).ghost.fifoRead.map Prod.fst =
          s.ghost.fifoRead.map Prod.fst ++
            (s.uart.rxFifo.take s.uart.rxBuf.pushBuf.2).map RxEntry.data ∧
        (s.uart.rxBuf.count < 2 →
          s.ghost.fifoRead.length < (s.interrupt ⟨false, false, false, 0⟩).ghost.fifoRead.length)) :=
  have hs := Reachable.step .init (.receive _ _)
  ⟨by decide, hs, by decide, rfl, by decide,
    rx_progress none [0, 0] (by decide) _ hs ⟨false, false, false, 0⟩ (by decide) rfl (by decide)⟩

/-! ## Progress of the TX path -/

/-- Progress after a pend: over every run from a construction with a TX slice,
while the line is pended, as every `write` that returned `Ok(n)` leaves it, it
fires whatever the hardware reports, and the run it causes writes to `FIFOWR`
the first stored bytes, as many as the slice `pop_buf` hands out holds and the
FIFO takes: at least one when the ring holds one and the FIFO has room. -/
theorem tx_progress (rxBuffer : Option (List UInt8)) (txBuffer : List UInt8)
    (htx : txBuffer ≠ []) (s : Sys) (hs : Reachable (Sys.init (some txBuffer) rxBuffer) s)
    (hw : Hardware) (hpend : s.uart.irqPending) :
    s.uart.fires hw ∧
      (s.interrupt hw).ghost.fifoWritten = s.ghost.fifoWritten ++
        s.uart.txBuf.contents.take (min s.uart.txBuf.popBuf.2 hw.txRoom) ∧
      (s.uart.txBuf.contents ≠ [] → 0 < hw.txRoom →
        s.ghost.fifoWritten.length < (s.interrupt hw).ghost.fifoWritten.length) := by
  have h := TxStream.reachable rxBuffer htx hs
  have hen := irqEnabled_of_reachable hs
  have hwritten : ((s.acked hw).drainRx.1.drainTx hw.txRoom).2.1 =
      s.uart.txBuf.contents.take (min s.uart.txBuf.popBuf.2 hw.txRoom) := by
    rw [Uart.drainTx_written (by simpa using h.inv)]
    simp
  refine ⟨by simp [Uart.fires, hen, hpend], by rw [Sys.interrupt_fifoWritten, hwritten],
    fun hne hroom => ?_⟩
  have hstored : 0 < s.uart.txBuf.count := by
    rw [← RingBuffer.length_contents]; exact List.length_pos.mpr hne
  have hpos := (RingBuffer.popBuf_spec h.inv).2.1 hstored
  rw [Sys.interrupt_fifoWritten, hwritten, List.length_append, List.length_take,
    RingBuffer.length_contents]
  omega

/-- A three-byte `write` pends the line; the run writes two bytes into a FIFO
with room for two. -/
theorem tx_progress_after_write :
    let s := (Sys.init (some [0, 0, 0, 0]) none).writePoll 2 [1, 2, 3]
    let hw : Hardware := ⟨false, false, false, 2⟩
    ([0, 0, 0, 0] : List UInt8) ≠ [] ∧ Reachable (Sys.init (some [0, 0, 0, 0]) none) s ∧
      s.uart.irqPending = true ∧
      (s.uart.fires hw ∧
        (s.interrupt hw).ghost.fifoWritten = s.ghost.fifoWritten ++
          s.uart.txBuf.contents.take (min s.uart.txBuf.popBuf.2 hw.txRoom) ∧
        (s.uart.txBuf.contents ≠ [] → 0 < hw.txRoom →
          s.ghost.fifoWritten.length < (s.interrupt hw).ghost.fifoWritten.length)) :=
  have hs := Reachable.step .init (.writePoll (Sys.init _ _) 2 [1, 2, 3] rfl)
  ⟨by decide, hs, rfl, tx_progress none [0, 0, 0, 0] (by decide) _ hs _ rfl⟩

/-! ## Runs that strand a task -/

/-- A `read` poll finds the ring empty and no error.  Before it registers, a
character arrives and a handler run moves it into the ring, wakes the empty
slot, and masks the RX level and TX level interrupts.  The poll then returns
`Pending` with the character in the ring, no wake after its check, and a line
that nothing fires. -/
theorem read_wakeup_lost :
    ∃ s, Reachable (Sys.init none (some [0, 0, 0, 0])) s ∧ s.rx = .checked (.read 1) 1 0 ∧
      s.uart.rxBuf.contents = [0x41] ∧ s.ghost.wakes = [] ∧
      (s.rxRegister (.read 1) 1).uart.silent := by
  obtain ⟨s, hs, hp⟩ := reach_of_run (Sys.init none (some [0, 0, 0, 0]))
    [.readPop 1 1, .take, .receive ⟨0x41, 0⟩, .interrupt ⟨true, false, false, 0⟩]
    (fun s => s.rx == .checked (.read 1) 1 0 && s.uart.rxBuf.contents == [0x41] &&
      s.ghost.wakes == [] && (s.rxRegister (.read 1) 1).uart.silent) (by decide)
  simp only [Bool.and_eq_true, beq_iff_eq] at hp
  exact ⟨s, hs, hp.1.1.1, hp.1.1.2, hp.1.2, hp.2⟩

/-- A character with a framing error arrives; the handler latches it and masks
every source.  `fill_buf` returns `Err(Framing)` without re-arming; polled
again it finds nothing and suspends, with the ring attached, the RX level
interrupt masked and a line that no arrival can fire. -/
theorem fill_buf_suspended_with_rx_masked :
    ∃ s, Reachable (Sys.init none (some [0, 0, 0, 0])) s ∧ s.uart.rxBuf.isAvailable ∧
      s.rx = .suspended .fill 1 ∧ s.uart.fifointen.rxlvl = false ∧ s.uart.dead ∧
      s.ghost.wakes = [] := by
  obtain ⟨s, hs, hp⟩ := reach_of_run (Sys.init none (some [0, 0, 0, 0]))
    [.receive ⟨0x41, rxeFramErr⟩, .interrupt ⟨true, false, false, 0⟩, .fillPop 1, .take,
      .fillPop 1, .take, .rxRegister]
    (fun s => s.uart.rxBuf.isAvailable && s.rx == .suspended .fill 1 &&
      !s.uart.fifointen.rxlvl && s.uart.dead && s.ghost.wakes == []) (by decide)
  simp only [Bool.and_eq_true, beq_iff_eq, Bool.not_eq_true'] at hp
  exact ⟨s, hs, hp.1.1.1.1, hp.1.1.1.2, hp.1.1.2, hp.1.2, hp.2⟩

/-- The spec's scenario: a 31-byte `write` into a 32-byte TX ring pends the
line; the handler moves 8 bytes, then 8 more on a run fired by the TX level,
which it masks.  Fifteen bytes stay in the ring, a `flush` suspends on them,
and nothing fires the line. -/
theorem tx_tail_stranded :
    ∃ s, Reachable (Sys.init (some (List.replicate 32 0)) none) s ∧ s.uart.txBuf.isAvailable ∧
      s.uart.txBuf.count = 15 ∧ s.uart.fifointen.txlvl = false ∧ s.uart.irqPending = false ∧
      s.tx = .suspended .flush 2 ∧ s.uart.silent := by
  obtain ⟨s, hs, hp⟩ := reach_of_run (Sys.init (some (List.replicate 32 0)) none)
    [.writePoll 2 ((List.range 31).map Nat.toUInt8), .interrupt ⟨false, false, false, 8⟩,
      .interrupt ⟨true, false, false, 8⟩, .flushPoll 2, .txRegister]
    (fun s => s.uart.txBuf.isAvailable && s.uart.txBuf.count == 15 &&
      !s.uart.fifointen.txlvl && !s.uart.irqPending && s.tx == .suspended .flush 2 &&
      s.uart.silent) (by decide)
  simp only [Bool.and_eq_true, beq_iff_eq, Bool.not_eq_true'] at hp
  exact ⟨s, hs, hp.1.1.1.1.1, hp.1.1.1.1.2, hp.1.1.1.2, hp.1.1.2, hp.1.2, hp.2⟩

end EmbassyImxrt.Buffered
