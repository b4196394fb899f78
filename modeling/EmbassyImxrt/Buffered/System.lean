import EmbassyImxrt.Buffered.Interrupt

/-!
# The buffered UART as a system

Three parties share a `Uart`: the line, which delivers characters to the RX
FIFO and goes high after a break; the interrupt handler, which runs whenever
the line fires and runs to completion; and the two tasks that use the RX and
the TX handle.  A task is
preempted by the handler at any instruction boundary, so each poll is cut
where the code reads shared state and acts on what it read later:

* an RX poll (`read`, `blocking_read`, `fill_buf`) is the pop (`readPop`,
  `fillPop`), then, only if it yielded nothing, the error take (`take`), then,
  for a poll that found nothing at all, the waker registration
  (`rxRegister`), after which the poll has returned `Pending`;
* a TX poll (`write`, `flush`) is the push or the emptiness test
  (`writePoll`, `flushPoll`), then the registration (`txRegister`);
* a `fill_buf` that returned a slice leaves the task holding it until its
  `consume` (or until it drops it);
* an iteration of the loop of `blocking_write` (`blockingWrite`) and the
  single-character `serialRead` are one step each.

`RxPhase` and `TxPhase` record where each task is.  `Ghost` records what an
observer of the run sees and the code does not keep: every character the line
delivered, every character the handler read through `FIFORD` (with the `STAT`
value it read before it), the bytes handed to the reader, the errors it was
given, the positions at which drains stopped on a fault, the tasks made
runnable, the bytes written to `FIFOWR`, and every `Ok(n)` a write returned
with its buffer.

`Step` allows any of these at any time, subject only to where the tasks are,
to the handler running only when the line fires (`Uart.fires`), and to the
handler and the single-character read finding `FIFOSTAT.RXERR` as the state
has it.
`Reachable` is the closure from a construction (`Sys.init`).
-/

namespace EmbassyImxrt.Buffered

/-- The RX operations a poll can belong to. -/
inductive RxOp
  /-- `read`, `blocking_read` or `embedded_io::Read`, into `len` bytes. -/
  | read (len : Nat)
  /-- `fill_buf`. -/
  | fill
  deriving DecidableEq, Repr

/-- Where the task using the RX handle is. -/
inductive RxPhase
  /-- No poll in flight. -/
  | idle
  /-- The pop of a poll by task `t` found nothing; the error take is next.
  `mark` counts the wakes before the poll began. -/
  | popped (op : RxOp) (t : Task) (mark : Nat)
  /-- The poll found no data and no error; the registration is next. -/
  | checked (op : RxOp) (t : Task) (mark : Nat)
  /-- Registered: the poll returned `Pending`. -/
  | suspended (op : RxOp) (t : Task)
  /-- `fill_buf` returned this slice; `consume` is next. -/
  | holding (slice : List UInt8)
  deriving DecidableEq, Repr

/-- A new RX poll may begin: nothing is in flight, a poll returned `Pending`,
or a `blocking_read` goes round its loop. -/
def RxPhase.pollable : RxPhase → Bool
  | .idle | .suspended .. => true
  | .checked (.read _) .. => true
  | _ => false

/-- The TX operations a poll can belong to. -/
inductive TxOp
  | write (buf : List UInt8)
  | flush
  deriving DecidableEq, Repr

/-- Where the task using the TX handle is. -/
inductive TxPhase
  | idle
  /-- The push found no room, or the flush found bytes; the registration is
  next. -/
  | checked (op : TxOp) (t : Task) (mark : Nat)
  /-- Registered: the poll returned `Pending`. -/
  | suspended (op : TxOp) (t : Task)
  deriving DecidableEq, Repr

/-- A new TX poll may begin. -/
def TxPhase.pollable : TxPhase → Bool
  | .idle | .suspended .. => true
  | _ => false

/-- What an observer of the run records. -/
structure Ghost where
  /-- Every character the line delivered to the RX FIFO. -/
  received : List RxEntry := []
  /-- Every character the handler read through `FIFORD`, with `STAT` as the
  handler read it just before. -/
  fifoRead : List (UInt8 × BitVec 32) := []
  /-- Bytes handed to the reader through the RX ring: `buf[..n]` of each
  `Ok(n)` of `try_read`, the first `k` bytes of each `fill_buf` slice at its
  `consume(k)`. -/
  ringReturned : List UInt8 := []
  /-- Bytes handed to the reader through any read interface, in the order the
  calls returned. -/
  returned : List UInt8 := []
  /-- Errors `try_read` and `fill_buf` returned. -/
  rxErrors : List Error := []
  /-- For each drain that stopped on a fault, the position in the received
  stream of the character it stopped at. -/
  latches : List Nat := []
  /-- Tasks made runnable, in order. -/
  wakes : List Task := []
  /-- Bytes written to `FIFOWR`, in order. -/
  fifoWritten : List UInt8 := []
  /-- The buffer and the count of every `Ok(n)` of `write` and
  `blocking_write`. -/
  writes : List (List UInt8 × Nat) := []

/-- The whole system. -/
structure Sys where
  uart : Uart
  rx : RxPhase
  tx : TxPhase
  ghost : Ghost

namespace Sys

/-- The system right after a handle was built: `init_buffers` on the booted
peripheral, with the given RX and TX slices. -/
def init (txBuffer rxBuffer : Option (List UInt8)) : Sys :=
  ⟨Uart.boot.initBuffers txBuffer rxBuffer, .idle, .idle, {}⟩

/-- The position in the received stream of the character at the head of the
RX FIFO. -/
def headPosition (s : Sys) : Nat :=
  s.ghost.received.length - s.uart.rxFifo.length

/-- The line delivers a character. -/
def receive (s : Sys) (e : RxEntry) : Sys :=
  { s with uart := s.uart.receive e,
           ghost := { s.ghost with received := s.ghost.received ++ [e] } }

/-- The line goes high after a break. -/
def rxdHigh (s : Sys) : Sys :=
  { s with uart := s.uart.rxdHigh }

/-- The line is taken: exception entry clears its pending bit, and
`on_interrupt` runs. -/
def interrupt (s : Sys) (hw : Hardware) : Sys :=
  let p := onInterrupt { s.uart with irqPending := false } hw
  { s with uart := p.uart,
           ghost := { s.ghost with
             fifoRead := s.ghost.fifoRead ++ p.fifoRead.map fun b => (b, s.uart.stat)
             latches := s.ghost.latches ++
               if p.latched then [s.headPosition + p.fifoRead.length] else []
             wakes := s.ghost.wakes ++ p.woken
             fifoWritten := s.ghost.fifoWritten ++ p.fifoWritten } }

/-! ## The RX task -/

/-- The pop of a `read` poll by task `t` into `len` bytes.  A zero-length
destination completes at once with `Ok(0)`; bytes copied complete the poll
with `Ok(n)` and the re-arm. -/
def readPop (s : Sys) (t : Task) (len : Nat) : Sys :=
  if len = 0 then { s with rx := .idle }
  else if (s.uart.tryReadPop len).2 = [] then
    { s with uart := (s.uart.tryReadPop len).1, rx := .popped (.read len) t s.ghost.wakes.length }
  else
    { s with uart := (s.uart.tryReadPop len).1.rearmRx, rx := .idle,
             ghost := { s.ghost with
               ringReturned := s.ghost.ringReturned ++ (s.uart.tryReadPop len).2
               returned := s.ghost.returned ++ (s.uart.tryReadPop len).2 } }

/-- The `pop_buf` of a `fill_buf` poll by task `t`: a non-empty slice
completes the poll with `Ok(slice)`. -/
def fillPop (s : Sys) (t : Task) : Sys :=
  if s.uart.rxSlice = [] then { s with rx := .popped .fill t s.ghost.wakes.length }
  else { s with rx := .holding s.uart.rxSlice }

/-- The error take of a poll whose pop found nothing: `Err(e)` completes it,
with the re-arm of `tryReadEmpty` for `read` and without one for `fill_buf`;
no error leaves the registration to do. -/
def take (s : Sys) (op : RxOp) (t : Task) (mark : Nat) : Sys :=
  match s.uart.getRxError.2 with
  | none => { s with uart := s.uart.getRxError.1, rx := .checked op t mark }
  | some e =>
    { s with uart := (match op with | .read _ => s.uart.getRxError.1.rearmRx
                                    | .fill => s.uart.getRxError.1),
             rx := .idle, ghost := { s.ghost with rxErrors := s.ghost.rxErrors ++ [e] } }

/-- The registration of the RX waker; the poll returns `Pending`. -/
def rxRegister (s : Sys) (op : RxOp) (t : Task) : Sys :=
  { s with uart := { s.uart with rxWaker := some t }, rx := .suspended op t }

/-- `consume(k)` of the first `k` bytes of a held slice. -/
def consume (s : Sys) (slice : List UInt8) (k : Nat) : Sys :=
  { s with uart := s.uart.consume k, rx := .idle,
           ghost := { s.ghost with ringReturned := s.ghost.ringReturned ++ slice.take k
                                   returned := s.ghost.returned ++ slice.take k } }

/-- The single-character `serialRead`. -/
def serialRead (s : Sys) (rxerr : Bool) : Sys :=
  { s with uart := (s.uart.serialRead rxerr).1,
           ghost := { s.ghost with
             returned := s.ghost.returned ++ (s.uart.serialRead rxerr).2.toOption.toList } }

/-! ## The TX task -/

/-- The push of a `write` poll by task `t`: `Ok(0)` for an empty buffer,
`Ok(n)` and a pend when `n > 0` bytes fit, the registration next when none
fit. -/
def writePoll (s : Sys) (t : Task) (buf : List UInt8) : Sys :=
  if buf = [] then
    { s with tx := .idle, ghost := { s.ghost with writes := s.ghost.writes ++ [([], 0)] } }
  else if (s.uart.txBuf.push buf).2 = 0 then
    { s with uart := { s.uart with txBuf := (s.uart.txBuf.push buf).1 },
             tx := .checked (.write buf) t s.ghost.wakes.length }
  else
    { s with uart := { s.uart with txBuf := (s.uart.txBuf.push buf).1, irqPending := true },
             tx := .idle,
             ghost := { s.ghost with writes := s.ghost.writes ++ [(buf, (s.uart.txBuf.push buf).2)] } }

/-- The emptiness test of a `flush` poll by task `t`. -/
def flushPoll (s : Sys) (t : Task) : Sys :=
  if !s.uart.txBuf.isEmpty then { s with tx := .checked .flush t s.ghost.wakes.length }
  else { s with tx := .idle }

/-- The registration of the TX waker; the poll returns `Pending`. -/
def txRegister (s : Sys) (op : TxOp) (t : Task) : Sys :=
  { s with uart := { s.uart with txWaker := some t }, tx := .suspended op t }

/-- One iteration of `blocking_write` (or of the `embedded_hal` writes built
on it); an empty buffer returns `Ok(0)` at once. -/
def blockingWrite (s : Sys) (buf : List UInt8) : Sys :=
  if buf = [] then { s with ghost := { s.ghost with writes := s.ghost.writes ++ [([], 0)] } }
  else
    { s with uart := (s.uart.blockingWriteStep buf).1,
             ghost := { s.ghost with
               writes := s.ghost.writes ++ ((s.uart.blockingWriteStep buf).2.map (buf, ·)).toList } }

end Sys

/-- One step of the system. -/
inductive Step : Sys → Sys → Prop
  | receive (s : Sys) (e : RxEntry) : Step s (s.receive e)
  | rxdHigh (s : Sys) : Step s s.rxdHigh
  | interrupt (s : Sys) (hw : Hardware) (hfires : s.uart.fires hw)
      (hrxerr : hw.rxerr = s.uart.rxOverrun) : Step s (s.interrupt hw)
  | readPop (s : Sys) (t : Task) (len : Nat) (hrx : s.rx.pollable) : Step s (s.readPop t len)
  | fillPop (s : Sys) (t : Task) (hrx : s.rx.pollable) : Step s (s.fillPop t)
  | take (s : Sys) (op : RxOp) (t : Task) (mark : Nat) (hrx : s.rx = .popped op t mark) :
      Step s (s.take op t mark)
  | rxRegister (s : Sys) (op : RxOp) (t : Task) (mark : Nat) (hrx : s.rx = .checked op t mark) :
      Step s (s.rxRegister op t)
  | consume (s : Sys) (slice : List UInt8) (k : Nat) (hrx : s.rx = .holding slice)
      (hk : k ≤ slice.length) : Step s (s.consume slice k)
  | rxDrop (s : Sys) (op : RxOp) (t : Task) (hrx : s.rx = .suspended op t) :
      Step s { s with rx := .idle }
  | release (s : Sys) (slice : List UInt8) (hrx : s.rx = .holding slice) :
      Step s { s with rx := .idle }
  | serialRead (s : Sys) (rxerr : Bool) (hrx : s.rx = .idle)
      (hrxerr : rxerr = s.uart.rxOverrun) : Step s (s.serialRead rxerr)
  | writePoll (s : Sys) (t : Task) (buf : List UInt8) (htx : s.tx.pollable) :
      Step s (s.writePoll t buf)
  | flushPoll (s : Sys) (t : Task) (htx : s.tx.pollable) : Step s (s.flushPoll t)
  | txRegister (s : Sys) (op : TxOp) (t : Task) (mark : Nat) (htx : s.tx = .checked op t mark) :
      Step s (s.txRegister op t)
  | txDrop (s : Sys) (op : TxOp) (t : Task) (htx : s.tx = .suspended op t) :
      Step s { s with tx := .idle }
  | blockingWrite (s : Sys) (buf : List UInt8) (htx : s.tx = .idle) : Step s (s.blockingWrite buf)

/-! ## What each step leaves alone -/

namespace Sys

/-- `s'` differs from `s` in nothing the RX stream is made of: the RX ring,
the characters read through `FIFORD`, the bytes returned through the ring;
and no borrowed slice appears. -/
structure RxFrame (s s' : Sys) : Prop where
  rxBuf : s'.uart.rxBuf = s.uart.rxBuf
  fifoRead : s'.ghost.fifoRead = s.ghost.fifoRead
  ringReturned : s'.ghost.ringReturned = s.ghost.ringReturned
  holding : ∀ slice, s'.rx = .holding slice → s.rx = .holding slice

/-- `s'` differs from `s` in nothing the TX stream is made of: the TX ring,
the bytes written to `FIFOWR`, the writes that returned. -/
structure TxFrame (s s' : Sys) : Prop where
  txBuf : s'.uart.txBuf = s.uart.txBuf
  fifoWritten : s'.ghost.fifoWritten = s.ghost.fifoWritten
  writes : s'.ghost.writes = s.ghost.writes

variable (s : Sys)

theorem receive_rxFrame (e : RxEntry) : RxFrame s (s.receive e) :=
  ⟨rfl, rfl, rfl, fun _ h => h⟩

theorem receive_txFrame (e : RxEntry) : TxFrame s (s.receive e) :=
  ⟨rfl, rfl, rfl⟩

theorem rxdHigh_rxFrame : RxFrame s s.rxdHigh :=
  ⟨rfl, rfl, rfl, fun _ h => h⟩

theorem rxdHigh_txFrame : TxFrame s s.rxdHigh :=
  ⟨rfl, rfl, rfl⟩

theorem take_rxFrame (op : RxOp) (t : Task) (mark : Nat) : RxFrame s (s.take op t mark) := by
  unfold take
  split <;> cases op <;> exact ⟨rfl, rfl, rfl, fun _ h => by cases h⟩

theorem take_txFrame (op : RxOp) (t : Task) (mark : Nat) : TxFrame s (s.take op t mark) := by
  unfold take
  split <;> cases op <;> exact ⟨rfl, rfl, rfl⟩

theorem rxRegister_rxFrame (op : RxOp) (t : Task) : RxFrame s (s.rxRegister op t) :=
  ⟨rfl, rfl, rfl, fun _ h => by cases h⟩

theorem rxRegister_txFrame (op : RxOp) (t : Task) : TxFrame s (s.rxRegister op t) :=
  ⟨rfl, rfl, rfl⟩

theorem idle_rxFrame : RxFrame s { s with rx := .idle } :=
  ⟨rfl, rfl, rfl, fun _ h => by cases h⟩

theorem serialRead_rxFrame (rxerr : Bool) : RxFrame s (s.serialRead rxerr) :=
  ⟨(congrArg Uart.rxBuf (Uart.serialRead_fst s.uart rxerr) :), rfl, rfl, fun _ h => h⟩

theorem serialRead_txFrame (rxerr : Bool) : TxFrame s (s.serialRead rxerr) :=
  ⟨(congrArg Uart.txBuf (Uart.serialRead_fst s.uart rxerr) :), rfl, rfl⟩

theorem readPop_txFrame (t : Task) (len : Nat) : TxFrame s (s.readPop t len) := by
  unfold readPop
  split_ifs <;> exact ⟨rfl, rfl, rfl⟩

theorem fillPop_txFrame (t : Task) : TxFrame s (s.fillPop t) := by
  unfold fillPop
  split_ifs <;> exact ⟨rfl, rfl, rfl⟩

theorem consume_txFrame (slice : List UInt8) (k : Nat) : TxFrame s (s.consume slice k) :=
  ⟨rfl, rfl, rfl⟩

theorem writePoll_rxFrame (t : Task) (buf : List UInt8) : RxFrame s (s.writePoll t buf) := by
  unfold writePoll
  split_ifs <;> exact ⟨rfl, rfl, rfl, fun _ h => h⟩

theorem flushPoll_rxFrame (t : Task) : RxFrame s (s.flushPoll t) := by
  unfold flushPoll
  split_ifs <;> exact ⟨rfl, rfl, rfl, fun _ h => h⟩

theorem txRegister_rxFrame (op : TxOp) (t : Task) : RxFrame s (s.txRegister op t) :=
  ⟨rfl, rfl, rfl, fun _ h => h⟩

theorem txIdle_rxFrame : RxFrame s { s with tx := .idle } :=
  ⟨rfl, rfl, rfl, fun _ h => h⟩

theorem flushPoll_txFrame (t : Task) : TxFrame s (s.flushPoll t) := by
  unfold flushPoll
  split_ifs <;> exact ⟨rfl, rfl, rfl⟩

theorem txRegister_txFrame (op : TxOp) (t : Task) : TxFrame s (s.txRegister op t) :=
  ⟨rfl, rfl, rfl⟩

theorem blockingWrite_rxFrame (buf : List UInt8) : RxFrame s (s.blockingWrite buf) := by
  have hbuf : (s.uart.blockingWriteStep buf).1.rxBuf = s.uart.rxBuf := by
    simp only [Uart.blockingWriteStep]; split_ifs <;> rfl
  unfold blockingWrite
  split_ifs
  · exact ⟨rfl, rfl, rfl, fun _ h => h⟩
  · exact ⟨hbuf, rfl, rfl, fun _ h => h⟩

/-! ## What the handler does to the two rings -/

/-- The state `on_interrupt` starts from once the line is taken and the
acknowledgements are done. -/
abbrev acked (hw : Hardware) : Uart :=
  ({ s.uart with irqPending := false } : Uart).acknowledge hw

theorem interrupt_rxBuf (hw : Hardware) :
    (s.interrupt hw).uart.rxBuf = (s.acked hw).drainRx.1.rxBuf := by
  simp [interrupt, onInterrupt]

theorem interrupt_fifoRead (hw : Hardware) :
    (s.interrupt hw).ghost.fifoRead =
      s.ghost.fifoRead ++ (s.acked hw).drainRx.2.1.map fun b => (b, s.uart.stat) := rfl

theorem interrupt_latches (hw : Hardware) :
    (s.interrupt hw).ghost.latches = s.ghost.latches ++
      if (s.acked hw).drainRx.2.2.1 then [s.headPosition + (s.acked hw).drainRx.2.1.length]
      else [] := rfl

@[simp] theorem interrupt_stat (hw : Hardware) : (s.interrupt hw).uart.stat = s.uart.stat := by
  simp [interrupt, onInterrupt]

@[simp] theorem interrupt_rxOverrun (hw : Hardware) :
    (s.interrupt hw).uart.rxOverrun = s.uart.rxOverrun := by
  simp [interrupt, onInterrupt]

theorem interrupt_txlvl (hw : Hardware) (h : (s.interrupt hw).uart.fifointen.txlvl) :
    s.uart.fifointen.txlvl := by
  have h' : (s.acked hw).fifointen.txlvl := by simpa [interrupt, onInterrupt] using h
  exact Uart.acknowledge_txlvl { s.uart with irqPending := false } hw h'

@[simp] theorem interrupt_irqEnabled (hw : Hardware) :
    (s.interrupt hw).uart.irqEnabled = s.uart.irqEnabled := by
  simp [interrupt, onInterrupt]

theorem interrupt_inten (hw : Hardware) {i : Nat} (h : (s.interrupt hw).uart.inten.getLsbD i) :
    s.uart.inten.getLsbD i := by
  have h' : (s.acked hw).inten.getLsbD i := by simpa [interrupt, onInterrupt] using h
  exact Uart.acknowledge_inten { s.uart with irqPending := false } hw h'

/-- Every task a handler run makes runnable was registered in one of the two
slots when the run started. -/
theorem interrupt_woken (hw : Hardware) {t : Task}
    (h : t ∈ (s.interrupt hw).ghost.wakes.drop s.ghost.wakes.length) :
    s.uart.rxWaker = some t ∨ s.uart.txWaker = some t := by
  have hwakes : (s.interrupt hw).ghost.wakes = s.ghost.wakes ++
      ((s.acked hw).drainRx.2.2.2 ++ ((s.acked hw).drainRx.1.drainTx hw.txRoom).2.2) := rfl
  rw [hwakes, List.drop_left] at h
  rcases List.mem_append.mp h with h | h
  · exact .inl (by simpa using Uart.drainRx_woken _ h)
  · exact .inr (by simpa using Uart.drainTx_woken _ _ h)

theorem interrupt_rxFifo (hw : Hardware) :
    (s.interrupt hw).uart.rxFifo = (s.acked hw).drainRx.1.rxFifo := by
  simp [interrupt, onInterrupt]

theorem interrupt_txBuf (hw : Hardware) :
    (s.interrupt hw).uart.txBuf = ((s.acked hw).drainRx.1.drainTx hw.txRoom).1.txBuf := rfl

theorem interrupt_fifoWritten (hw : Hardware) :
    (s.interrupt hw).ghost.fifoWritten =
      s.ghost.fifoWritten ++ ((s.acked hw).drainRx.1.drainTx hw.txRoom).2.1 := rfl

end Sys

/-- `s'` differs from `s` in nothing of the line: `STAT`, the RX FIFO and its
overflow flag, `INTEN`, the TX level enable and the line enable; nor in the
characters that arrived and those the handler read. -/
structure Sys.LineFrame (s s' : Sys) : Prop where
  stat : s'.uart.stat = s.uart.stat
  rxFifo : s'.uart.rxFifo = s.uart.rxFifo
  rxOverrun : s'.uart.rxOverrun = s.uart.rxOverrun
  inten : s'.uart.inten = s.uart.inten
  txlvl : s'.uart.fifointen.txlvl = s.uart.fifointen.txlvl
  irqEnabled : s'.uart.irqEnabled = s.uart.irqEnabled
  received : s'.ghost.received = s.ghost.received
  fifoRead : s'.ghost.fifoRead = s.ghost.fifoRead

namespace Sys

variable (s : Sys)

theorem readPop_lineFrame (t : Task) (len : Nat) : s.LineFrame (s.readPop t len) := by
  unfold readPop
  split_ifs <;> exact ⟨rfl, rfl, rfl, rfl, rfl, rfl, rfl, rfl⟩

theorem fillPop_lineFrame (t : Task) : s.LineFrame (s.fillPop t) := by
  unfold fillPop
  split_ifs <;> exact ⟨rfl, rfl, rfl, rfl, rfl, rfl, rfl, rfl⟩

theorem take_lineFrame (op : RxOp) (t : Task) (mark : Nat) : s.LineFrame (s.take op t mark) := by
  unfold take
  split <;> (try cases op) <;> exact ⟨rfl, rfl, rfl, rfl, rfl, rfl, rfl, rfl⟩

theorem writePoll_lineFrame (t : Task) (buf : List UInt8) : s.LineFrame (s.writePoll t buf) := by
  unfold writePoll
  split_ifs <;> exact ⟨rfl, rfl, rfl, rfl, rfl, rfl, rfl, rfl⟩

theorem flushPoll_lineFrame (t : Task) : s.LineFrame (s.flushPoll t) := by
  unfold flushPoll
  split_ifs <;> exact ⟨rfl, rfl, rfl, rfl, rfl, rfl, rfl, rfl⟩

theorem blockingWrite_lineFrame (buf : List UInt8) : s.LineFrame (s.blockingWrite buf) := by
  simp only [blockingWrite, Uart.blockingWriteStep]
  split_ifs <;> exact ⟨rfl, rfl, rfl, rfl, rfl, rfl, rfl, rfl⟩

theorem rxRegister_lineFrame (op : RxOp) (t : Task) : s.LineFrame (s.rxRegister op t) :=
  ⟨rfl, rfl, rfl, rfl, rfl, rfl, rfl, rfl⟩

theorem consume_lineFrame (slice : List UInt8) (k : Nat) : s.LineFrame (s.consume slice k) :=
  ⟨rfl, rfl, rfl, rfl, rfl, rfl, rfl, rfl⟩

theorem txRegister_lineFrame (op : TxOp) (t : Task) : s.LineFrame (s.txRegister op t) :=
  ⟨rfl, rfl, rfl, rfl, rfl, rfl, rfl, rfl⟩

theorem setRx_lineFrame (rx : RxPhase) : s.LineFrame { s with rx } :=
  ⟨rfl, rfl, rfl, rfl, rfl, rfl, rfl, rfl⟩

theorem setTx_lineFrame (tx : TxPhase) : s.LineFrame { s with tx } :=
  ⟨rfl, rfl, rfl, rfl, rfl, rfl, rfl, rfl⟩

end Sys

/-- Every step is a character arriving, the line going high, a handler run, a
single-character read, or a step of a task that leaves the line alone. -/
theorem Step.cases_shape {s s' : Sys} (hs : Step s s') :
    (∃ e, s' = s.receive e) ∨ s' = s.rxdHigh ∨ (∃ hw, s' = s.interrupt hw) ∨
      (∃ rxerr, s' = s.serialRead rxerr) ∨ s.LineFrame s' := by
  cases hs with
  | receive e => exact .inl ⟨e, rfl⟩
  | rxdHigh => exact .inr (.inl rfl)
  | interrupt hw _ _ => exact .inr (.inr (.inl ⟨hw, rfl⟩))
  | serialRead rxerr _ _ => exact .inr (.inr (.inr (.inl ⟨rxerr, rfl⟩)))
  | readPop t len _ => exact .inr (.inr (.inr (.inr (s.readPop_lineFrame t len))))
  | fillPop t _ => exact .inr (.inr (.inr (.inr (s.fillPop_lineFrame t))))
  | take op t mark _ => exact .inr (.inr (.inr (.inr (s.take_lineFrame op t mark))))
  | rxRegister op t _ _ => exact .inr (.inr (.inr (.inr (s.rxRegister_lineFrame op t))))
  | consume slice k _ _ => exact .inr (.inr (.inr (.inr (s.consume_lineFrame slice k))))
  | rxDrop _ _ _ | release _ _ => exact .inr (.inr (.inr (.inr (s.setRx_lineFrame _))))
  | writePoll t buf _ => exact .inr (.inr (.inr (.inr (s.writePoll_lineFrame t buf))))
  | flushPoll t _ => exact .inr (.inr (.inr (.inr (s.flushPoll_lineFrame t))))
  | txRegister op t _ _ => exact .inr (.inr (.inr (.inr (s.txRegister_lineFrame op t))))
  | txDrop _ _ _ => exact .inr (.inr (.inr (.inr (s.setTx_lineFrame _))))
  | blockingWrite buf _ => exact .inr (.inr (.inr (.inr (s.blockingWrite_lineFrame buf))))

/-- The states reachable from a construction. -/
inductive Reachable (s₀ : Sys) : Sys → Prop
  | init : Reachable s₀ s₀
  | step {s s' : Sys} : Reachable s₀ s → Step s s' → Reachable s₀ s'

/-- An invariant that holds at the start and is kept by every step holds in
every reachable state. -/
theorem Reachable.induct {s₀ : Sys} {P : Sys → Prop} (h₀ : P s₀)
    (hstep : ∀ s s', P s → Step s s' → P s') {s : Sys} (h : Reachable s₀ s) : P s := by
  induction h with
  | init => exact h₀
  | step _ hs ih => exact hstep _ _ ih hs

end EmbassyImxrt.Buffered
