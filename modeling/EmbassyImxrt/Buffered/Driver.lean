import EmbassyImxrt.Buffered.Hardware

/-!
# The task-side operations of the buffered driver

The functions of `BufferedUart`, `BufferedUartRx` and `BufferedUartTx` in
`uart/buffered.rs`, each as a function of the flat `Uart` record.  A poll
function returns the state after the poll and its `Poll` result; what a task
does between polls (suspend, retry, give up) is the business of `System.lean`.

`try_read` and `fill_buf` are written as the code writes them: a pop, then,
only if it yielded nothing, the error take of `get_rx_error`.  Their two halves
are also named (`tryReadPop`, `tryReadEmpty`, `rxSlice`), because the system
model lets the handler run between them.

The RX re-arm `fifointenset().write(|w| w.rxlvl().set_bit())` is `rearmRx`.
`try_read` performs it on both its `Ok` and its `Err` path, `consume` always;
`fill_buf` never.
-/

namespace EmbassyImxrt.Buffered

namespace Uart

/-! ## Construction and destruction -/

/-- `init_buffers`: attach the given slices, enable the error interrupts and
both FIFO level interrupts, unpend and enable the line. -/
def initBuffers (u : Uart) (txBuffer rxBuffer : Option (List UInt8)) : Uart :=
  let u := match txBuffer with
    | some b => { u with txBuf := u.txBuf.init b }
    | none => u
  let u := match rxBuffer with
    | some b => { u with rxBuf := u.rxBuf.init b }
    | none => u
  { u with inten := u.inten ||| errorIntEn,
           fifointen := { u.fifointen with rxlvl := true, txlvl := true },
           irqPending := false, irqEnabled := true }

/-- `Drop for BufferedUartRx`: detach the RX ring; disable the line if the TX
ring is not attached either. -/
def dropRx (u : Uart) : Uart :=
  let u := { u with rxBuf := u.rxBuf.deinit }
  if !u.txBuf.isAvailable then { u with irqEnabled := false } else u

/-- `Drop for BufferedUartTx`. -/
def dropTx (u : Uart) : Uart :=
  let u := { u with txBuf := u.txBuf.deinit }
  if !u.rxBuf.isAvailable then { u with irqEnabled := false } else u

/-- Both drops, in either order, end in the same state. -/
theorem dropRx_dropTx (u : Uart) :
    u.dropRx.dropTx = { u with rxBuf := u.rxBuf.deinit, txBuf := u.txBuf.deinit,
                               irqEnabled := false } ∧
      u.dropTx.dropRx = { u with rxBuf := u.rxBuf.deinit, txBuf := u.txBuf.deinit,
                                 irqEnabled := false } := by
  cases hrx : u.rxBuf.isAvailable <;> cases htx : u.txBuf.isAvailable <;>
    simp [dropRx, dropTx, hrx, htx]

/-- The line is disabled with the second half dropped, whichever it is: the two
drops, in either order, detach both rings and disable the line; a drop while
the other half's ring is attached leaves the line as it was. -/
theorem drop_halves (u : Uart) :
    u.dropRx.dropTx = u.dropTx.dropRx ∧
      u.dropRx.dropTx = { u with rxBuf := u.rxBuf.deinit, txBuf := u.txBuf.deinit,
                                 irqEnabled := false } ∧
      (u.txBuf.isAvailable → u.dropRx.irqEnabled = u.irqEnabled) ∧
      (u.rxBuf.isAvailable → u.dropTx.irqEnabled = u.irqEnabled) := by
  obtain ⟨hrt, htr⟩ := dropRx_dropTx u
  exact ⟨hrt.trans htr.symm, hrt, fun h => by simp [dropRx, h], fun h => by simp [dropTx, h]⟩

/-! ## Receiving -/

/-- `get_rx_error`: take the latched error word and report its most urgent
flag, noise before parity before framing before break. -/
def getRxError (u : Uart) : Uart × Option Error :=
  let errs := u.rxError
  ({ u with rxError := 0 },
    if errs &&& rxeNoise != 0 then some .Noise
    else if errs &&& rxeParityErr != 0 then some .Parity
    else if errs &&& rxeFramErr != 0 then some .Framing
    else if errs &&& rxeBreak != 0 then some .Break
    else none)

/-- `fifointenset().write(|w| w.rxlvl().set_bit())`: re-arm the RX level
interrupt. -/
def rearmRx (u : Uart) : Uart :=
  { u with fifointen := { u.fifointen with rxlvl := true } }

/-- The pop of `try_read` into a destination of `len` bytes: the bytes copied
out of the RX ring. -/
def tryReadPop (u : Uart) (len : Nat) : Uart × List UInt8 :=
  ({ u with rxBuf := (u.rxBuf.pop len).1 }, (u.rxBuf.pop len).2)

/-- The rest of `try_read` after a pop that copied nothing: the error take,
and the re-arm if there was an error to report. -/
def tryReadEmpty (u : Uart) : Uart × Poll (Except Error (List UInt8)) :=
  match u.getRxError.2 with
  | none => (u.getRxError.1, .pending)
  | some e => (u.getRxError.1.rearmRx, .ready (.error e))

/-- `try_read`: the bytes copied into `buf[..n]` on `Ok(n)`. -/
def tryRead (u : Uart) (len : Nat) : Uart × Poll (Except Error (List UInt8)) :=
  if len = 0 then (u, .ready (.ok []))
  else
    let popped := u.tryReadPop len
    if popped.2 = [] then popped.1.tryReadEmpty else (popped.1.rearmRx, .ready (.ok popped.2))

/-- One poll of `read`: `try_read`, and the registration of the polling task
if it is pending. -/
def read (u : Uart) (t : Task) (len : Nat) : Uart × Poll (Except Error (List UInt8)) :=
  match u.tryRead len with
  | (u, .ready r) => (u, .ready r)
  | (u, .pending) => ({ u with rxWaker := some t }, .pending)

/-- The slice `fill_buf` borrows: what `pop_buf` hands out, read in place. -/
def rxSlice (u : Uart) : List UInt8 :=
  u.rxBuf.read u.rxBuf.popBuf.1 u.rxBuf.popBuf.2

/-- One poll of `fill_buf`. -/
def fillBuf (u : Uart) (t : Task) : Uart × Poll (Except Error (List UInt8)) :=
  if u.rxSlice = [] then
    match u.getRxError.2 with
    | none => ({ u.getRxError.1 with rxWaker := some t }, .pending)
    | some e => (u.getRxError.1, .ready (.error e))
  else (u, .ready (.ok u.rxSlice))

/-- `consume`: release `amt` bytes of the borrowed slice and re-arm. -/
def consume (u : Uart) (amt : Nat) : Uart :=
  rearmRx { u with rxBuf := u.rxBuf.popDone amt }

/-- `read_ready`. -/
def readReady (u : Uart) : Bool :=
  !u.rxBuf.isEmpty

/-- On a well-formed RX ring, `read_ready` agrees with the two read paths: it
is true exactly when `fill_buf` would borrow a non-empty slice, and exactly
when the pop of `try_read` into a non-empty buffer copies some bytes. -/
theorem readReady_iff (u : Uart) (h : u.rxBuf.Inv) :
    (u.readReady ↔ u.rxSlice ≠ []) ∧
      ∀ len, 0 < len → (u.readReady ↔ (u.tryReadPop len).2 ≠ []) := by
  have hready : u.readReady ↔ 0 < u.rxBuf.count := by
    simp [readReady, Bool.eq_false_iff, RingBuffer.isEmpty_iff h, Nat.pos_iff_ne_zero]
  obtain ⟨hle, hpos, -⟩ := RingBuffer.popBuf_spec h
  refine ⟨?_, fun len hlen => ?_⟩
  · rw [hready, rxSlice, RingBuffer.read_popBuf h le_rfl, ← List.length_pos, List.length_take,
      RingBuffer.length_contents]
    omega
  · rw [hready, tryReadPop, RingBuffer.pop_snd h, ← List.length_pos, List.length_take,
      RingBuffer.length_contents]
    omega

/-- A two-byte ring holding one byte. -/
theorem readReady_iff_one_byte :
    let u := { Uart.boot with rxBuf := ((RingBuffer.new.init [0, 0]).push [0x41]).1 }
    u.rxBuf.Inv ∧ u.readReady = true ∧ ((u.readReady ↔ u.rxSlice ≠ []) ∧
      ∀ len, 0 < len → (u.readReady ↔ (u.tryReadPop len).2 ≠ [])) :=
  have h0 : (RingBuffer.new.init [0, 0]).Inv := RingBuffer.init_inv (by decide) _
  have h := RingBuffer.push_inv h0 [0x41]
  ⟨h, rfl, readReady_iff _ h⟩

/-- `nb::Error`. -/
inductive NbError
  | WouldBlock
  | Other (e : Error)
  deriving DecidableEq, Repr

/-- `embedded_hal_02::serial::Read::read` for `BufferedUartRx` (also behind
`embedded_hal_nb::serial::Read` and the `BufferedUart` impls): one character
straight from `FIFORD`.  `rxerr` is `FIFOSTAT.RXERR` as the call reads it; on
an overflow the call empties the FIFO and clears the flag. -/
def serialRead (u : Uart) (rxerr : Bool) : Uart × Except NbError UInt8 :=
  match u.rxFifo with
  | [] => (u, .error .WouldBlock)
  | e :: rest =>
    if rxerr then ({ u with rxFifo := [], rxOverrun := false }, .error (.Other .Read))
    else if u.stat &&& rxeParityErr != 0 then
      ({ u with stat := u.stat &&& ~~~rxeParityErr }, .error (.Other .Parity))
    else if u.stat &&& rxeFramErr != 0 then
      ({ u with stat := u.stat &&& ~~~rxeFramErr }, .error (.Other .Framing))
    else if u.stat &&& rxeNoise != 0 then
      ({ u with stat := u.stat &&& ~~~rxeNoise }, .error (.Other .Noise))
    else ({ u with rxFifo := rest }, .ok e.data)

/-- The single-character read changes only the RX FIFO, its overflow flag and
`STAT`. -/
theorem serialRead_fst (u : Uart) (rxerr : Bool) :
    (u.serialRead rxerr).1 =
      { u with rxFifo := (u.serialRead rxerr).1.rxFifo,
               rxOverrun := (u.serialRead rxerr).1.rxOverrun,
               stat := (u.serialRead rxerr).1.stat } := by
  unfold serialRead
  split <;> (repeat' split) <;> rfl

/-- The single-character read leaves `STAT` as it was or clears its parity,
framing or noise flag. -/
theorem serialRead_stat (u : Uart) (rxerr : Bool) :
    (u.serialRead rxerr).1.stat = u.stat ∨
      ∃ m ∈ [rxeParityErr, rxeFramErr, rxeNoise],
        (u.serialRead rxerr).1.stat = u.stat &&& ~~~m := by
  unfold serialRead
  split
  · exact .inl rfl
  split
  · exact .inl rfl
  split
  · exact .inr ⟨rxeParityErr, .head _, rfl⟩
  split
  · exact .inr ⟨rxeFramErr, .tail _ (.head _), rfl⟩
  split
  · exact .inr ⟨rxeNoise, .tail _ (.tail _ (.head _)), rfl⟩
  · exact .inl rfl

/-- `Ok(b)` of the single-character read is the data of the FIFO's head, which
it removes; nothing else changes, the ring least of all. -/
theorem serialRead_ok {u : Uart} {rxerr : Bool} {b : UInt8} (h : (u.serialRead rxerr).2 = .ok b) :
    ∃ e rest, u.rxFifo = e :: rest ∧ e.data = b ∧
      (u.serialRead rxerr).1 = { u with rxFifo := rest } := by
  cases hfifo : u.rxFifo with
  | nil => simp [serialRead, hfifo] at h
  | cons e rest =>
    simp only [serialRead, hfifo] at h ⊢
    split_ifs at h ⊢
    cases h
    exact ⟨e, rest, rfl, rfl, rfl⟩

/-- The single-character read leaves a part of the FIFO: all of it, none of it
(on an overflow), or all but the head. -/
theorem serialRead_rxFifo (u : Uart) (rxerr : Bool) :
    List.Sublist (u.serialRead rxerr).1.rxFifo u.rxFifo := by
  cases hfifo : u.rxFifo with
  | nil => simp [serialRead, hfifo]
  | cons e rest =>
    simp only [serialRead, hfifo]
    split_ifs <;> simp [hfifo]

/-! ## Transmitting -/

/-- One poll of `write`: push what fits; pend the line on success, register
the task when nothing fits. -/
def write (u : Uart) (t : Task) (buf : List UInt8) : Uart × Poll (Except Error Nat) :=
  if buf = [] then (u, .ready (.ok 0))
  else
    let pushed := u.txBuf.push buf
    if pushed.2 = 0 then ({ u with txBuf := pushed.1, txWaker := some t }, .pending)
    else ({ u with txBuf := pushed.1, irqPending := true }, .ready (.ok pushed.2))

/-- One poll of `flush`. -/
def flush (u : Uart) (t : Task) : Uart × Poll (Except Error Unit) :=
  if !u.txBuf.isEmpty then ({ u with txWaker := some t }, .pending) else (u, .ready (.ok ()))

/-- One iteration of the loop of `blocking_write` on a non-empty buffer:
`some n` when the push copied `n > 0` bytes and the call returns `Ok(n)`,
`none` when it goes round again. -/
def blockingWriteStep (u : Uart) (buf : List UInt8) : Uart × Option Nat :=
  let pushed := u.txBuf.push buf
  if pushed.2 ≠ 0 then ({ u with txBuf := pushed.1, irqPending := true }, some pushed.2)
  else ({ u with txBuf := pushed.1 }, none)

theorem blockingWriteStep_snd {u : Uart} {buf : List UInt8} {n : Nat}
    (h : (u.blockingWriteStep buf).2 = some n) : n = (u.txBuf.push buf).2 ∧ 0 < n := by
  simp only [blockingWriteStep] at h
  split_ifs at h with h0
  cases h
  exact ⟨rfl, Nat.pos_of_ne_zero h0⟩

@[simp] theorem blockingWriteStep_txBuf (u : Uart) (buf : List UInt8) :
    (u.blockingWriteStep buf).1.txBuf = (u.txBuf.push buf).1 := by
  simp only [blockingWriteStep]; split_ifs <;> rfl

/-- The loop of `blocking_write` on a non-empty `buf`, its iterations finding
the states `us` in turn (a handler run or another task may change the state
between two iterations): the `n` of the iteration that returns `Ok(n)`, the
state that iteration found, and the states not looked at; `none` when no state
of `us` lets it return. -/
def blockingWriteLoop (buf : List UInt8) : List Uart → Option (Nat × Uart × List Uart)
  | [] => none
  | u :: us =>
    match (u.blockingWriteStep buf).2 with
    | some n => some (n, u, us)
    | none => blockingWriteLoop buf us

theorem blockingWriteLoop_some {buf : List UInt8} :
    ∀ {us : List Uart} {n : Nat} {u : Uart} {rest : List Uart},
      blockingWriteLoop buf us = some (n, u, rest) → (u.blockingWriteStep buf).2 = some n
  | [], _, _, _, h => by cases h
  | _ :: _, _, _, _, h => by
    simp only [blockingWriteLoop] at h
    split at h
    · next hstep => cases h; exact hstep
    · exact blockingWriteLoop_some h

/-- A `blocking_write` call that returned `Ok(n)`: the slice it was given, the
state its returning iteration found, and `n`. -/
structure WriteCall where
  buf : List UInt8
  found : Uart
  n : Nat

/-- How `bwrite_all` ends. -/
inductive BwriteAllEnd
  /-- `Ok(())`, after the `blocking_write` calls listed, in call order. -/
  | ok (calls : List WriteCall)
  /-- `panic!("zero-length write.")`. -/
  | zeroLengthWrite
  /-- `&buffer[n..]` with `n > buffer.len()`. -/
  | sliceOutOfRange
  /-- A `blocking_write` call that does not return on the states given. -/
  | blocked

/-- `bwrite_all` of `embedded_hal_02::blocking::serial::Write`, the same for
`BufferedUartTx` and `BufferedUart`, its `blocking_write` calls' iterations
finding the states `us` in turn.  `buffer` is non-empty at each call, so the
emptiness test of `blocking_write` passes and its loop runs; it has no `Err`
path. -/
def bwriteAll (buffer : List UInt8) (us : List Uart) : BwriteAllEnd :=
  if _hempty : buffer = [] then .ok []
  else
    match blockingWriteLoop buffer us with
    | none => .blocked
    | some (n, u, rest) =>
      if _h0 : n = 0 then .zeroLengthWrite
      else if _hlen : buffer.length < n then .sliceOutOfRange
      else
        match bwriteAll (buffer.drop n) rest with
        | .ok calls => .ok (⟨buffer, u, n⟩ :: calls)
        | e => e
termination_by buffer.length
decreasing_by
  have := List.length_pos.mpr _hempty
  simp only [List.length_drop]
  omega

/-- `busy`: the transmitter is not idle. -/
def busy (u : Uart) : Bool :=
  u.stat &&& txIdle == 0

end Uart

end EmbassyImxrt.Buffered
