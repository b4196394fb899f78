import EmbassyImxrt.RingBuffer.Queue

/-!
# The USART as the buffered driver sees it

The buffered driver of `uart/buffered.rs` talks to a Flexcomm USART through a
handful of registers and to the interrupt controller through one line.  This
file fixes the part of that hardware the driver reads or writes, and the
driver's shared `State`, as one flat record `Uart`:

* the receive FIFO, as the list of characters not yet read through `FIFORD`,
  each with the `STAT` fault flags its reception raised, at most
  `rxFifoDepth` of them: a character that arrives at a full FIFO is lost and
  raises `FIFOSTAT.RXERR`, which only a write of `1` clears;
* `STAT`, whose noise, parity and framing flags (bits 15, 14, 13) are sticky:
  a faulty character sets them and only a write of `1` clears them.  Bit 10,
  `RXBRK`, which the driver tests alongside them, is not: it shows the line
  held low for a break, and clears when `RXD` goes high again, before the
  next character or on its own (`rxdHigh`);
* `INTENSET` as a mask in the bit positions of `STAT`, so that `INTSTAT` is
  `STAT &&& INTENSET`;
* the four enables of `FIFOINTENSET` (RX/TX level, RX/TX error);
* the line's enable and pending bits.

What else the hardware reports while the handler runs (the TX level and TX
error conditions, how many bytes the TX FIFO still takes) is not state here:
it is the `Hardware` input of one handler run, chosen freely.  Its RX error
condition is `FIFOSTAT.RXERR`, which a run of the system takes from the state
(`Step.interrupt`).

The wakers are the single slots of the design: `register` overwrites the slot,
`wake` makes the slot's task runnable and leaves it registered, waking an empty
slot does nothing.
-/

namespace EmbassyImxrt.Buffered

/-- A task, as far as a waker slot is concerned. -/
abbrev Task := Nat

/-! ## Register bits -/

/-- `RXE_NOISE`: `STAT` bit 15. -/
def rxeNoise : BitVec 32 := 1 <<< 15

/-- `RXE_PARITYERR`: `STAT` bit 14. -/
def rxeParityErr : BitVec 32 := 1 <<< 14

/-- `RXE_FRAMERR`: `STAT` bit 13. -/
def rxeFramErr : BitVec 32 := 1 <<< 13

/-- `RXE_BREAK`: `STAT` bit 10. -/
def rxeBreak : BitVec 32 := 1 <<< 10

/-- The RX FIFO's depth: `FIFOCFG.SIZE` reads 16 entries on the Flexcomm
USART. -/
def rxFifoDepth : Nat := 16

/-- The four fault flags the RX drain tests. -/
def rxeMask : BitVec 32 := rxeBreak ||| rxeFramErr ||| rxeNoise ||| rxeParityErr

/-- `TXIDLE`, `STAT`/`INTSTAT`/`INTENSET` bit 3. -/
def txIdle : BitVec 32 := 1 <<< 3

/-- `ABERR`, bit 16: autobaud error. -/
def abErr : BitVec 32 := 1 <<< 16

/-- The `INTENSET` bits `init_buffers` sets: framing, parity, noise and
autobaud errors. -/
def errorIntEn : BitVec 32 := rxeFramErr ||| rxeParityErr ||| rxeNoise ||| abErr

/-- The `INTENCLR` bits the handler writes when one of them is flagged:
TX idle and the four error interrupts. -/
def ackIntEn : BitVec 32 := txIdle ||| errorIntEn

/-- Clearing a mask leaves the bits of a mask disjoint from it as they were. -/
theorem and_not_and_of_disjoint (x : BitVec 32) {m m' : BitVec 32} (h : m &&& m' = 0) :
    x &&& ~~~m &&& m' = x &&& m' := by
  apply BitVec.eq_of_getLsbD_eq
  intro i
  have := congrArg (fun v => v.getLsbD i) h
  simp only [BitVec.getLsbD_and, BitVec.getLsbD_not, BitVec.getLsbD_zero] at this ⊢
  cases hm : m.getLsbD i <;> cases hm' : m'.getLsbD i <;> simp_all

@[simp] theorem and_not_and_self (x m : BitVec 32) : x &&& ~~~m &&& m = 0 := by
  apply BitVec.eq_of_getLsbD_eq
  intro i
  simp only [BitVec.getLsbD_and, BitVec.getLsbD_not, BitVec.getLsbD_zero]
  cases m.getLsbD i <;> simp

/-- A flag of a mask raised in `x` is raised in `x ||| y`. -/
theorem or_and_ne_zero {x m : BitVec 32} (y : BitVec 32) (h : x &&& m ≠ 0) :
    (x ||| y) &&& m ≠ 0 := by
  intro h0
  apply h
  apply BitVec.eq_of_getLsbD_eq
  intro i
  have := congrArg (fun v => v.getLsbD i) h0
  simp only [BitVec.getLsbD_and, BitVec.getLsbD_or, BitVec.getLsbD_zero] at this ⊢
  cases hx : x.getLsbD i <;> cases hm : m.getLsbD i <;> simp_all

/-! ## State -/

/-- One received character as the RX FIFO holds it. -/
structure RxEntry where
  /-- The data bits `FIFORD` returns. -/
  data : UInt8
  /-- The `STAT` flags its reception raised. -/
  status : BitVec 32
  deriving DecidableEq, Repr

/-- The character carries a fault flag. -/
def RxEntry.faulty (e : RxEntry) : Bool :=
  e.status &&& rxeMask != 0

/-- The enables of `FIFOINTENSET`. -/
structure FifoIntEn where
  txerr : Bool
  rxerr : Bool
  txlvl : Bool
  rxlvl : Bool
  deriving DecidableEq, Repr

/-- Errors the buffered driver reports. -/
inductive Error
  | Read
  | Parity
  | Framing
  | Noise
  | Break
  deriving DecidableEq, Repr

/-- `core::task::Poll`. -/
inductive Poll (α : Type)
  | ready (a : α)
  | pending
  deriving DecidableEq, Repr

/-- The buffered driver's shared `State` together with the registers of its
USART and its interrupt line. -/
structure Uart where
  txWaker : Option Task
  txBuf : RingBuffer
  rxWaker : Option Task
  rxBuf : RingBuffer
  rxError : BitVec 32
  /-- Received characters not yet read through `FIFORD`, oldest first. -/
  rxFifo : List RxEntry
  /-- `FIFOSTAT.RXERR`: a character arrived at a full RX FIFO and was lost. -/
  rxOverrun : Bool
  stat : BitVec 32
  inten : BitVec 32
  fifointen : FifoIntEn
  irqEnabled : Bool
  irqPending : Bool

/-- What the hardware reports during one run of the handler, beyond the
registers kept as state. -/
structure Hardware where
  /-- The TX FIFO level condition. -/
  txlvl : Bool
  /-- The TX FIFO error condition. -/
  txerr : Bool
  /-- The RX FIFO error condition, `FIFOSTAT.RXERR`. -/
  rxerr : Bool
  /-- How many writes to `FIFOWR` the TX FIFO takes before `txnotfull`
  clears. -/
  txRoom : Nat
  deriving DecidableEq, Repr

namespace Uart

/-- The state before any handle exists: `State::new()`, an empty FIFO, all
flags and enables clear, the line disabled. -/
def boot : Uart :=
  ⟨none, RingBuffer.new, none, RingBuffer.new, 0, [], false, 0, 0,
    ⟨false, false, false, false⟩, false, false⟩

/-- `INTSTAT`. -/
def intstat (u : Uart) : BitVec 32 :=
  u.stat &&& u.inten

/-- `FIFOINTSTAT`: the raw FIFO conditions masked by their enables.  The RX
level condition is a non-empty RX FIFO (trigger level `0`). -/
def fifointstat (u : Uart) (hw : Hardware) : FifoIntEn :=
  ⟨hw.txerr && u.fifointen.txerr, hw.rxerr && u.fifointen.rxerr,
    hw.txlvl && u.fifointen.txlvl, !u.rxFifo.isEmpty && u.fifointen.rxlvl⟩

/-- The line fires: it is enabled, and pended by software or driven by an
enabled source. -/
def fires (u : Uart) (hw : Hardware) : Bool :=
  u.irqEnabled && (u.irqPending || u.intstat != 0 ||
    (u.fifointstat hw).txerr || (u.fifointstat hw).rxerr ||
    (u.fifointstat hw).txlvl || (u.fifointstat hw).rxlvl)

/-- No source can fire the line, whatever the FIFOs report: it is not
pended, no enabled `INTSTAT` flag is raised, the FIFO error and TX level
interrupts are masked, and the RX level one is masked or has nothing to
report. -/
def silent (u : Uart) : Bool :=
  !u.irqPending && u.intstat == 0 && !u.fifointen.txerr && !u.fifointen.rxerr &&
    !u.fifointen.txlvl && (u.rxFifo.isEmpty || !u.fifointen.rxlvl)

theorem fires_of_silent {u : Uart} (h : u.silent) (hw : Hardware) : u.fires hw = false := by
  simp only [silent, Bool.and_eq_true, Bool.not_eq_true', beq_iff_eq, Bool.or_eq_true] at h
  obtain ⟨⟨⟨⟨⟨hpend, hstat⟩, htxerr⟩, hrxerr⟩, htxlvl⟩, hrxlvl⟩ := h
  simp only [fires, fifointstat, hpend, hstat, htxerr, hrxerr, htxlvl]
  rcases hrxlvl with h | h <;> simp [h]

/-- A character arrives and raises its flags in `STAT`.  `RXBRK` then shows
whether it is a break: before a character that is not, `RXD` went high.  The
character joins the RX FIFO, or, if the FIFO is full, is lost and raises
`FIFOSTAT.RXERR`. -/
def receive (u : Uart) (e : RxEntry) : Uart :=
  let room := decide (u.rxFifo.length < rxFifoDepth)
  { u with rxFifo := if room then u.rxFifo ++ [e] else u.rxFifo,
           rxOverrun := u.rxOverrun || !room,
           stat := u.stat &&& ~~~rxeBreak ||| e.status }

/-- `RXD` goes high after a break: `RXBRK` clears. -/
def rxdHigh (u : Uart) : Uart :=
  { u with stat := u.stat &&& ~~~rxeBreak }

/-- `AtomicWaker::wake` on a slot: the task made runnable, if any. -/
def wake (slot : Option Task) : List Task :=
  slot.toList

end Uart

end EmbassyImxrt.Buffered
