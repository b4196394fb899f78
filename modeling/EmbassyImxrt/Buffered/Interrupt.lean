import EmbassyImxrt.Buffered.Driver

/-!
# The interrupt handler

`BufferedInterruptHandler::on_interrupt`, in the order the code runs it:

1. `acknowledge`: clear the enables of the flagged `INTSTAT` sources, and the
   TX and RX FIFO enables whose `FIFOINTSTAT` bits are set (the diagnostics
   that follow are left out: they do not change any state);
2. `drainRx`: move characters from the RX FIFO into the free slice of the RX
   ring while the FIFO is non-empty and `STAT` shows no fault; on a fault,
   latch `STAT` into the error word and stop without reading the character;
   wake the reader if anything happened; mask the RX level interrupt if the
   ring is full or a fault was seen;
3. `drainTx`: move bytes from the stored slice of the TX ring into the TX
   FIFO while it takes them, and wake the writer if any moved.

The two loops are `rxLoop` and `txLoop`, by recursion on the slice they walk.
`STAT` does not change while the handler runs, so the RX loop either reads a
prefix of the FIFO or stops at once (`rxLoop_eq`), and the TX loop writes a
prefix of the slice (`txLoop_eq`).  From these and the ring lemmas:
`drainRx_contents` (the ring gains exactly the characters read) and
`drainTx_contents` (the ring loses exactly the bytes written).
-/

namespace EmbassyImxrt.Buffered

/-- The RX loop of `on_interrupt` over a free slice of `room` cells, with
`STAT` reading `stat`: the characters read through `FIFORD`, whether a fault
stopped the loop, and the FIFO after. -/
def rxLoop (stat : BitVec 32) : Nat → List RxEntry → List UInt8 × Bool × List RxEntry
  | 0, fifo => ([], false, fifo)
  | _ + 1, [] => ([], false, [])
  | room + 1, e :: rest =>
    if stat &&& rxeMask != 0 then ([], true, e :: rest)
    else
      let (bytes, error, fifo) := rxLoop stat room rest
      (e.data :: bytes, error, fifo)

/-- The TX loop of `on_interrupt` over a stored slice, with a TX FIFO that
takes `room` more bytes: the bytes written to `FIFOWR`. -/
def txLoop : Nat → List UInt8 → List UInt8
  | 0, _ => []
  | _ + 1, [] => []
  | room + 1, b :: rest => b :: txLoop room rest

/-- A fault flag in `STAT` stops the RX loop before it reads anything. -/
theorem rxLoop_of_fault {stat : BitVec 32} (h : stat &&& rxeMask != 0) :
    ∀ (room : Nat) (fifo : List RxEntry),
      rxLoop stat room fifo = ([], decide (0 < room) && !fifo.isEmpty, fifo)
  | 0, _ => rfl
  | _ + 1, [] => by simp [rxLoop]
  | _ + 1, _ :: _ => by rw [rxLoop, if_pos h]; simp

/-- With no fault flag in `STAT` the RX loop reads as much of the FIFO as the
slice takes. -/
theorem rxLoop_of_clean {stat : BitVec 32} (h : (stat &&& rxeMask != 0) = false) :
    ∀ (room : Nat) (fifo : List RxEntry),
      rxLoop stat room fifo = ((fifo.take room).map RxEntry.data, false, fifo.drop room)
  | 0, fifo => rfl
  | _ + 1, [] => rfl
  | room + 1, e :: rest => by
    have h' : stat &&& rxeMask = 0 := by simpa using h
    simp [rxLoop, h', rxLoop_of_clean h room rest]

theorem txLoop_eq : ∀ (room : Nat) (bytes : List UInt8), txLoop room bytes = bytes.take room
  | 0, _ => rfl
  | _ + 1, [] => rfl
  | room + 1, b :: rest => by simp [txLoop, txLoop_eq room rest]

/-- What the RX loop reads is the data of a prefix of the FIFO, and what it
leaves is the rest. -/
theorem rxLoop_split (stat : BitVec 32) (room : Nat) (fifo : List RxEntry) :
    ∃ pre, pre.map RxEntry.data = (rxLoop stat room fifo).1 ∧
      fifo = pre ++ (rxLoop stat room fifo).2.2 ∧ pre.length ≤ room := by
  cases h : stat &&& rxeMask != 0
  · rw [rxLoop_of_clean h]
    exact ⟨fifo.take room, rfl, (List.take_append_drop _ _).symm,
      (List.length_take_le _ _)⟩
  · rw [rxLoop_of_fault h]
    exact ⟨[], rfl, rfl, by simp⟩

namespace Uart

/-- The acknowledgements at the top of `on_interrupt`. -/
def acknowledge (u : Uart) (hw : Hardware) : Uart :=
  let fs := u.fifointstat hw
  let u := if u.intstat &&& ackIntEn != 0 then { u with inten := u.inten &&& ~~~ackIntEn } else u
  let u := if fs.txlvl || fs.txerr then
    { u with fifointen := { u.fifointen with txlvl := false, txerr := false } } else u
  if fs.rxlvl || fs.rxerr then
    { u with fifointen := { u.fifointen with rxlvl := false, rxerr := false } } else u

/-- The RX part of `on_interrupt`: the state after, the characters read
through `FIFORD`, whether a fault stopped the drain, and the tasks woken. -/
def drainRx (u : Uart) : Uart × List UInt8 × Bool × List Task :=
  if u.rxBuf.isAvailable then
    let loop := rxLoop u.stat u.rxBuf.pushBuf.2 u.rxFifo
    let bytes := loop.1
    let error := loop.2.1
    let rxBuf := u.rxBuf.write u.rxBuf.pushBuf.1 bytes
    let rxBuf := if bytes ≠ [] then rxBuf.pushDone bytes.length else rxBuf
    let u' := { u with rxFifo := loop.2.2, rxBuf,
                       rxError := if error then u.rxError ||| u.stat else u.rxError }
    let u' := if rxBuf.isFull || error then
      { u' with fifointen := { u'.fifointen with rxlvl := false } } else u'
    (u', bytes, error, if bytes ≠ [] || error then wake u.rxWaker else [])
  else (u, [], false, [])

/-- The TX part of `on_interrupt`, with a TX FIFO that takes `room` more
bytes: the state after, the bytes written to `FIFOWR`, and the tasks woken. -/
def drainTx (u : Uart) (room : Nat) : Uart × List UInt8 × List Task :=
  if u.txBuf.isAvailable then
    let written := txLoop room (u.txBuf.read u.txBuf.popBuf.1 u.txBuf.popBuf.2)
    if written ≠ [] then
      ({ u with txBuf := u.txBuf.popDone written.length }, written, wake u.txWaker)
    else (u, written, [])
  else (u, [], [])

end Uart

/-- One run of the handler, as the rest of the system sees it. -/
structure Pass where
  uart : Uart
  /-- Characters read through `FIFORD`, in order. -/
  fifoRead : List UInt8
  /-- A fault stopped the RX drain and was latched. -/
  latched : Bool
  /-- Bytes written to `FIFOWR`, in order. -/
  fifoWritten : List UInt8
  /-- Tasks made runnable. -/
  woken : List Task

/-- `on_interrupt`. -/
def onInterrupt (u : Uart) (hw : Hardware) : Pass :=
  let rx := (u.acknowledge hw).drainRx
  let tx := rx.1.drainTx hw.txRoom
  ⟨tx.1, rx.2.1, rx.2.2.1, tx.2.1, rx.2.2.2 ++ tx.2.2⟩

namespace Uart

/-! ## What each part leaves alone -/

/-- The acknowledgement writes only `INTENCLR` and `FIFOINTENCLR`. -/
theorem acknowledge_eq (u : Uart) (hw : Hardware) :
    u.acknowledge hw =
      { u with inten := (u.acknowledge hw).inten, fifointen := (u.acknowledge hw).fifointen } := by
  simp only [acknowledge]; split_ifs <;> rfl

@[simp] theorem acknowledge_rxBuf (u : Uart) (hw : Hardware) :
    (u.acknowledge hw).rxBuf = u.rxBuf := by
  rw [acknowledge_eq]

@[simp] theorem acknowledge_txBuf (u : Uart) (hw : Hardware) :
    (u.acknowledge hw).txBuf = u.txBuf := by
  rw [acknowledge_eq]

@[simp] theorem acknowledge_rxFifo (u : Uart) (hw : Hardware) :
    (u.acknowledge hw).rxFifo = u.rxFifo := by
  rw [acknowledge_eq]

@[simp] theorem acknowledge_stat (u : Uart) (hw : Hardware) :
    (u.acknowledge hw).stat = u.stat := by
  rw [acknowledge_eq]

@[simp] theorem acknowledge_rxError (u : Uart) (hw : Hardware) :
    (u.acknowledge hw).rxError = u.rxError := by
  rw [acknowledge_eq]

@[simp] theorem acknowledge_wakers (u : Uart) (hw : Hardware) :
    (u.acknowledge hw).rxWaker = u.rxWaker ∧ (u.acknowledge hw).txWaker = u.txWaker := by
  rw [acknowledge_eq]; exact ⟨rfl, rfl⟩

theorem acknowledge_txlvl (u : Uart) (hw : Hardware) (h : (u.acknowledge hw).fifointen.txlvl) :
    u.fifointen.txlvl := by
  simp only [acknowledge] at h; split_ifs at h <;> simp_all

/-- The acknowledgement only clears bits of `INTEN`. -/
theorem acknowledge_inten (u : Uart) (hw : Hardware) {i : Nat}
    (h : (u.acknowledge hw).inten.getLsbD i) : u.inten.getLsbD i := by
  simp only [acknowledge] at h; split_ifs at h <;> simp_all

/-- The RX drain changes only the RX FIFO, the RX ring, `rx_error` and the RX
level enable. -/
theorem drainRx_fst (u : Uart) :
    u.drainRx.1 =
      { u with rxFifo := u.drainRx.1.rxFifo, rxBuf := u.drainRx.1.rxBuf,
               rxError := u.drainRx.1.rxError,
               fifointen := { u.fifointen with rxlvl := u.drainRx.1.fifointen.rxlvl } } := by
  unfold drainRx
  split
  · dsimp only
    split <;> split <;> rfl
  · rfl

@[simp] theorem drainRx_txlvl (u : Uart) : u.drainRx.1.fifointen.txlvl = u.fifointen.txlvl := by
  rw [drainRx_fst]

/-- The TX drain changes only the TX ring. -/
theorem drainTx_fst (u : Uart) (room : Nat) :
    (u.drainTx room).1 = { u with txBuf := (u.drainTx room).1.txBuf } := by
  simp only [drainTx]; split_ifs <;> rfl

@[simp] theorem drainTx_fifointen (u : Uart) (room : Nat) :
    (u.drainTx room).1.fifointen = u.fifointen := by
  rw [drainTx_fst]

@[simp] theorem drainRx_inten (u : Uart) : u.drainRx.1.inten = u.inten := by
  rw [drainRx_fst]

@[simp] theorem drainTx_inten (u : Uart) (room : Nat) : (u.drainTx room).1.inten = u.inten := by
  rw [drainTx_fst]

@[simp] theorem acknowledge_irqEnabled (u : Uart) (hw : Hardware) :
    (u.acknowledge hw).irqEnabled = u.irqEnabled := by
  rw [acknowledge_eq]

@[simp] theorem drainRx_irqEnabled (u : Uart) : u.drainRx.1.irqEnabled = u.irqEnabled := by
  rw [drainRx_fst]

@[simp] theorem drainTx_irqEnabled (u : Uart) (room : Nat) :
    (u.drainTx room).1.irqEnabled = u.irqEnabled := by
  rw [drainTx_fst]

@[simp] theorem acknowledge_rxOverrun (u : Uart) (hw : Hardware) :
    (u.acknowledge hw).rxOverrun = u.rxOverrun := by
  rw [acknowledge_eq]

@[simp] theorem drainRx_rxOverrun (u : Uart) : u.drainRx.1.rxOverrun = u.rxOverrun := by
  rw [drainRx_fst]

@[simp] theorem drainTx_rxOverrun (u : Uart) (room : Nat) :
    (u.drainTx room).1.rxOverrun = u.rxOverrun := by
  rw [drainTx_fst]

@[simp] theorem drainTx_rxError (u : Uart) (room : Nat) :
    (u.drainTx room).1.rxError = u.rxError := by
  rw [drainTx_fst]

@[simp] theorem drainRx_txBuf (u : Uart) : u.drainRx.1.txBuf = u.txBuf := by
  rw [drainRx_fst]

@[simp] theorem drainRx_txWaker (u : Uart) : u.drainRx.1.txWaker = u.txWaker := by
  rw [drainRx_fst]

/-- The RX drain wakes at most the registered reader. -/
theorem drainRx_woken (u : Uart) {t : Task} (h : t ∈ u.drainRx.2.2.2) : u.rxWaker = some t := by
  unfold drainRx at h
  split at h
  · dsimp only at h
    split at h
    · simpa [wake] using h
    · cases h
  · cases h

/-- The TX drain wakes at most the registered writer. -/
theorem drainTx_woken (u : Uart) (room : Nat) {t : Task} (h : t ∈ (u.drainTx room).2.2) :
    u.txWaker = some t := by
  simp only [drainTx] at h
  split_ifs at h <;> simp_all [wake]

@[simp] theorem drainTx_rxBuf (u : Uart) (room : Nat) : (u.drainTx room).1.rxBuf = u.rxBuf := by
  rw [drainTx_fst]

@[simp] theorem drainTx_stat (u : Uart) (room : Nat) : (u.drainTx room).1.stat = u.stat := by
  rw [drainTx_fst]

@[simp] theorem drainTx_len (u : Uart) (room : Nat) :
    (u.drainTx room).1.txBuf.len = u.txBuf.len := by
  simp only [drainTx]; split_ifs <;> rfl

@[simp] theorem drainTx_rxFifo (u : Uart) (room : Nat) :
    (u.drainTx room).1.rxFifo = u.rxFifo := by
  rw [drainTx_fst]

/-! ## The RX drain -/

variable {u : Uart}

/-- The loop the RX drain runs. -/
abbrev rxDrainLoop (u : Uart) : List UInt8 × Bool × List RxEntry :=
  rxLoop u.stat u.rxBuf.pushBuf.2 u.rxFifo

theorem drainRx_of_unavailable (h : u.rxBuf.isAvailable = false) :
    u.drainRx = (u, [], false, []) := by
  simp [drainRx, h]

theorem drainRx_read (h : u.rxBuf.isAvailable) : u.drainRx.2.1 = u.rxDrainLoop.1 := by
  simp [drainRx, h]

theorem drainRx_latched (h : u.rxBuf.isAvailable) : u.drainRx.2.2.1 = u.rxDrainLoop.2.1 := by
  simp [drainRx, h]

theorem drainRx_rxFifo (h : u.rxBuf.isAvailable) : u.drainRx.1.rxFifo = u.rxDrainLoop.2.2 := by
  simp only [drainRx, h, if_true]; split_ifs <;> rfl

theorem drainRx_rxError (h : u.rxBuf.isAvailable) :
    u.drainRx.1.rxError = if u.rxDrainLoop.2.1 then u.rxError ||| u.stat else u.rxError := by
  simp only [drainRx, h, if_true]; split_ifs <;> rfl

@[simp] theorem drainRx_stat (u : Uart) : u.drainRx.1.stat = u.stat := by
  rw [drainRx_fst]

@[simp] theorem drainRx_len (u : Uart) : u.drainRx.1.rxBuf.len = u.rxBuf.len := by
  unfold drainRx
  split
  · dsimp only
    split <;> split <;> rfl
  · rfl

/-- The RX drain reads a prefix of the FIFO. -/
theorem drainRx_fifo (u : Uart) :
    ∃ pre, pre.map RxEntry.data = u.drainRx.2.1 ∧ u.rxFifo = pre ++ u.drainRx.1.rxFifo := by
  cases havail : u.rxBuf.isAvailable
  · exact ⟨[], by simp [drainRx_of_unavailable havail], by simp [drainRx_of_unavailable havail]⟩
  · obtain ⟨pre, hdata, hsplit, -⟩ := rxLoop_split u.stat u.rxBuf.pushBuf.2 u.rxFifo
    exact ⟨pre, by rw [drainRx_read havail, hdata], by rw [drainRx_rxFifo havail]; exact hsplit⟩

/-- The RX drain appends to the RX ring exactly the characters it read. -/
theorem drainRx_contents (h : u.rxBuf.Inv) :
    u.drainRx.1.rxBuf.Inv ∧ u.drainRx.1.rxBuf.contents = u.rxBuf.contents ++ u.drainRx.2.1 := by
  obtain ⟨pre, hdata, -, hroom⟩ := rxLoop_split u.stat u.rxBuf.pushBuf.2 u.rxFifo
  have hfit : u.rxDrainLoop.1.length ≤ u.rxBuf.pushBuf.2 := by
    rw [← hdata, List.length_map]; exact hroom
  have hspec := (RingBuffer.pushBuf_spec h).1
  have havail : u.rxBuf.isAvailable := (RingBuffer.isAvailable_iff _).mpr h.len_pos
  simp only [drainRx, havail, if_true]
  by_cases hnil : u.rxDrainLoop.1 = []
  · simp only [hnil, ne_eq, not_true_eq_false, if_false, List.append_nil, RingBuffer.write_nil]
    split_ifs <;> exact ⟨h, rfl⟩
  · have hinv := RingBuffer.pushDone_inv (RingBuffer.write_inv h u.rxBuf.pushBuf.1 u.rxDrainLoop.1)
      (k := u.rxDrainLoop.1.length) (by rw [RingBuffer.write_count, RingBuffer.write_len]; omega)
    simp only [hnil, ne_eq, not_false_eq_true, if_true]
    split_ifs <;> exact ⟨hinv, RingBuffer.contents_write_pushDone h hfit⟩

/-- The RX drain reads only while `STAT` shows no fault. -/
theorem drainRx_clean (u : Uart) (h : u.drainRx.2.1 ≠ []) : u.stat &&& rxeMask = 0 := by
  cases havail : u.rxBuf.isAvailable
  · simp [drainRx_of_unavailable havail] at h
  · by_contra hfault
    rw [drainRx_read havail, rxDrainLoop, rxLoop_of_fault (by simpa using hfault)] at h
    exact h rfl

/-! ## The TX drain -/

/-- The TX loop over the slice `pop_buf` hands out writes the first stored
bytes, as many as the slice holds and the FIFO takes. -/
theorem txLoop_popBuf (h : u.txBuf.Inv) (room : Nat) :
    txLoop room (u.txBuf.read u.txBuf.popBuf.1 u.txBuf.popBuf.2) =
      u.txBuf.contents.take (min u.txBuf.popBuf.2 room) := by
  rw [txLoop_eq, RingBuffer.read_popBuf h le_rfl, List.take_take, Nat.min_comm]

/-- The TX drain writes to `FIFOWR` the first stored bytes, as many as the
slice `pop_buf` hands out holds and the FIFO takes. -/
theorem drainTx_written (h : u.txBuf.Inv) (room : Nat) :
    (u.drainTx room).2.1 = u.txBuf.contents.take (min u.txBuf.popBuf.2 room) := by
  have havail : u.txBuf.isAvailable := (RingBuffer.isAvailable_iff _).mpr h.len_pos
  simp only [drainTx, havail, if_true, txLoop_popBuf h room]
  split_ifs <;> rfl

/-- The TX drain writes to `FIFOWR` a prefix of the stored bytes and drops
exactly those from the TX ring. -/
theorem drainTx_contents (h : u.txBuf.Inv) (room : Nat) :
    (u.drainTx room).1.txBuf.Inv ∧
      (u.drainTx room).2.1 ++ (u.drainTx room).1.txBuf.contents = u.txBuf.contents := by
  have havail : u.txBuf.isAvailable := (RingBuffer.isAvailable_iff _).mpr h.len_pos
  have hle := (RingBuffer.popBuf_spec h).1
  simp only [drainTx, havail, if_true, txLoop_popBuf h room]
  split_ifs with hne
  · have hk : (u.txBuf.contents.take (min u.txBuf.popBuf.2 room)).length ≤ u.txBuf.count := by
      rw [List.length_take, RingBuffer.length_contents]; omega
    refine ⟨RingBuffer.popDone_inv h hk, ?_⟩
    dsimp only
    rw [RingBuffer.contents_popDone h hk]
    exact List.prefix_iff_eq_append.mp (List.take_prefix _ _)
  · dsimp only
    rw [not_not.mp hne]
    exact ⟨h, rfl⟩

end Uart

end EmbassyImxrt.Buffered
