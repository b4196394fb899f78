import EmbassyImxrt.Proofs.RxStream
import EmbassyImxrt.Proofs.TxStream
import EmbassyImxrt.Proofs.SerialRead

/-!
# Loopback: the reader gets what the writer wrote, in order

The `buffered-uart` example splits one `BufferedUart` into a writer task, which
calls `write_all`, and a reader task, which calls `read_exact`; with the TX pin
wired to the RX pin, the line delivers what the transmitter sent.  Over every
run of the system from a construction with both slices non-empty in which the
characters the line delivered are a prefix of those written to `FIFOWR`:

* the bytes handed to the reader through the ring, followed by those the ring
  still holds, are a subsequence of the bytes the `write` and `blocking_write`
  calls accepted, in the order the calls returned (`loopback_in_order`): the
  reader is handed no byte that was not written, and none out of order;
* if the reader uses only the ring's interfaces, as the example's does, and
  `FIFOSTAT` shows no RX FIFO overflow, they are a prefix of it, and so is what
  follows them in the RX FIFO (`loopback_ring_prefix`): no byte is lost either.

Two things make the difference.  The single-character read of `embedded_hal`
takes characters out of the RX FIFO past the ring (`SerialRead.lean`), and on
an overflow it empties the FIFO.  A character that arrives at a full FIFO is
lost, and `FIFOSTAT.RXERR` records it; only that read clears the flag, so
without it the flag is clear exactly when no character has been lost
(`overrun_iff_lost`).  A drain that stops at a faulty character loses nothing:
the character stays at the head of the FIFO.

## Strategy

Four facts about the same run, each an invariant: the ring returned a prefix
of what the handler read (`RxStream`), the handler read a subsequence of what
arrived (`fifoOrder_sublist`), what arrived is a prefix of what was written to
`FIFOWR` (the wiring), and that is a prefix of what the writes accepted
(`TxStream`).  Without the single-character read and while the FIFO has not
overflowed the second is an equality: no other move takes a character out of
the FIFO but the handler, which appends it to its reads, and every arrival
joins the FIFO (`RingStep.fifoOrder`, by `RingStep.cases_shape`, which says
what each move does).  The overflow flag is raised for good once a character
is lost, so the equality is carried as an implication from the flag being
clear, and a raised flag as a length gap (`RingStep.overrun_lost`).
-/

namespace EmbassyImxrt.Buffered

open List

/-- Over every run of a loopback: what the ring returned to the reader and what
it still holds is a subsequence of what the writes accepted. -/
theorem loopback_in_order (txBuffer rxBuffer : List UInt8) (htx : txBuffer ≠ [])
    (hrx : rxBuffer ≠ []) (s : Sys)
    (hs : Reachable (Sys.init (some txBuffer) (some rxBuffer)) s)
    (hline : s.ghost.received.map RxEntry.data <+: s.ghost.fifoWritten) :
    s.ghost.ringReturned ++ s.uart.rxBuf.contents <+ accepted s.ghost.writes := by
  have hread : s.ghost.fifoRead.map Prod.fst <+ s.ghost.received.map RxEntry.data :=
    (sublist_append_left _ _).trans (fifoOrder_sublist hs)
  have hwritten : s.ghost.fifoWritten <+: accepted s.ghost.writes :=
    ⟨_, (TxStream.reachable _ htx hs).stream⟩
  rw [(RxStream.reachable _ hrx hs).stream]
  exact hread.trans (hline.sublist.trans hwritten.sublist)

/-- Two bytes written, sent, looped back, moved into the ring by the handler
and read. -/
theorem loopback_in_order_two_bytes :
    let s := (((((((Sys.init (some [0, 0, 0, 0]) (some [0, 0, 0, 0])).writePoll 2
      [0x41, 0x42]).interrupt ⟨false, false, false, 8⟩).receive ⟨0x41, 0⟩).receive
      ⟨0x42, 0⟩).interrupt ⟨false, false, false, 0⟩).readPop 1 2)
    ([0, 0, 0, 0] : List UInt8) ≠ [] ∧ ([0, 0, 0, 0] : List UInt8) ≠ [] ∧
      Reachable (Sys.init (some [0, 0, 0, 0]) (some [0, 0, 0, 0])) s ∧
      s.ghost.received.map RxEntry.data <+: s.ghost.fifoWritten ∧
      s.ghost.ringReturned = [0x41, 0x42] ∧
      s.ghost.ringReturned ++ s.uart.rxBuf.contents <+ accepted s.ghost.writes := by
  intro s
  have hs : Reachable (Sys.init (some [0, 0, 0, 0]) (some [0, 0, 0, 0])) s :=
    Reachable.step (.step (.step (.step (.step (.step .init
      (.writePoll (Sys.init _ _) 2 [0x41, 0x42] rfl)) (.interrupt _ _ (by decide) (by decide)))
      (.receive _ _)) (.receive _ _)) (.interrupt _ _ (by decide) (by decide))) (.readPop _ 1 2 rfl)
  exact ⟨by decide, by decide, hs, by decide, by decide,
    loopback_in_order [0, 0, 0, 0] [0, 0, 0, 0] (by decide) (by decide) _ hs (by decide)⟩

/-! ## A reader on the ring's interfaces only -/

variable {s s' : Sys}

/-- Without the single-character read and while the RX FIFO has not
overflowed, a move keeps the handler's reads, followed by the FIFO, equal to
what arrived. -/
theorem RingStep.fifoOrder (hs : RingStep s s')
    (h : s.uart.rxOverrun = false → s.fifoOrder = s.ghost.received.map RxEntry.data) :
    s'.uart.rxOverrun = false → s'.fifoOrder = s'.ghost.received.map RxEntry.data := by
  rcases hs.cases_shape with ⟨e, rfl⟩ | rfl | ⟨hw, rfl⟩ | hf
  · intro hkept
    simp only [Sys.receive, Uart.receive, Bool.or_eq_false_iff, Bool.not_eq_false',
      decide_eq_true_eq] at hkept
    rw [Sys.receive_fifoOrder, if_pos hkept.2, h hkept.1]
    simp [Sys.receive]
  · exact h
  · rw [Sys.interrupt_rxOverrun, Sys.interrupt_fifoOrder]
    exact h
  · rw [hf.rxOverrun, hf.fifoOrder, hf.received]
    exact h

theorem RingReachable.fifoOrder {txBuffer rxBuffer : Option (List UInt8)}
    (hs : RingReachable (Sys.init txBuffer rxBuffer) s) :
    s.uart.rxOverrun = false → s.fifoOrder = s.ghost.received.map RxEntry.data :=
  RingReachable.induct
    (P := fun s => s.uart.rxOverrun = false → s.fifoOrder = s.ghost.received.map RxEntry.data)
    (fun _ => by cases txBuffer <;> cases rxBuffer <;> rfl) (fun _ _ h hs => hs.fifoOrder h) hs

/-- Without the single-character read, a raised overflow flag stays matched by
a character that arrived and is neither among the handler's reads nor in the
FIFO. -/
theorem RingStep.overrun_lost (hs : RingStep s s')
    (hle : s.fifoOrder.length ≤ s.ghost.received.length)
    (h : s.uart.rxOverrun = true → s.fifoOrder.length < s.ghost.received.length) :
    s'.uart.rxOverrun = true → s'.fifoOrder.length < s'.ghost.received.length := by
  rcases hs.cases_shape with ⟨e, rfl⟩ | rfl | ⟨hw, rfl⟩ | hf
  · intro hov
    simp only [Sys.receive, Uart.receive, Bool.or_eq_true, Bool.not_eq_true',
      decide_eq_false_iff_not] at hov
    rw [Sys.receive_fifoOrder]
    simp only [Sys.receive, List.length_append, List.length_singleton]
    split_ifs with hroom
    · have := h (hov.resolve_right (not_not.mpr hroom))
      simp only [List.length_singleton]
      omega
    · simp only [List.length_nil]
      omega
  · exact h
  · rw [Sys.interrupt_rxOverrun, Sys.interrupt_fifoOrder]
    exact h
  · rw [hf.rxOverrun, hf.fifoOrder, hf.received]
    exact h

theorem RingReachable.receives {s₀ : Sys} :
    ∀ (es : List RxEntry) {s : Sys}, RingReachable s₀ s → RingReachable s₀ (es.foldl Sys.receive s)
  | [], _, hs => hs
  | e :: es, _, hs => RingReachable.receives es (hs.step (.receive _ e))

/-- In a system whose reader uses only the ring's interfaces, `FIFOSTAT.RXERR`
is clear exactly when no character the line delivered has been lost: the
characters the handler read, followed by those the FIFO holds, are all of
those that arrived, in order. -/
theorem overrun_iff_lost {txBuffer rxBuffer : Option (List UInt8)} (s : Sys)
    (hs : RingReachable (Sys.init txBuffer rxBuffer) s) :
    s.uart.rxOverrun = false ↔
      s.ghost.fifoRead.map Prod.fst ++ s.uart.rxFifo.map RxEntry.data =
        s.ghost.received.map RxEntry.data := by
  have hlt : s.uart.rxOverrun = true → s.fifoOrder.length < s.ghost.received.length := by
    induction hs with
    | init => cases txBuffer <;> cases rxBuffer <;> exact fun h => by cases h
    | step hprev hstep ih =>
      have hle := (fifoOrder_sublist hprev.reachable).length_le
      rw [List.length_map] at hle
      exact hstep.overrun_lost hle ih
  refine ⟨hs.fifoOrder, fun heq => ?_⟩
  cases hov : s.uart.rxOverrun
  · rfl
  · have hlen := congrArg List.length heq
    have := hlt hov
    rw [List.length_map] at hlen
    exact absurd hlen (Nat.ne_of_lt this)

/-- Seventeen characters arrive at a sixteen-entry FIFO that nothing drains:
the last one is lost, and the flag shows it. -/
theorem overrun_iff_lost_seventeen :
    let s := (List.replicate 17 (⟨0x41, 0⟩ : RxEntry)).foldl Sys.receive
      (Sys.init none (some [0, 0]))
    RingReachable (Sys.init none (some [0, 0])) s ∧ s.uart.rxOverrun = true ∧
      (s.uart.rxOverrun = false ↔
        s.ghost.fifoRead.map Prod.fst ++ s.uart.rxFifo.map RxEntry.data =
          s.ghost.received.map RxEntry.data) :=
  have hs := RingReachable.receives (List.replicate 17 ⟨0x41, 0⟩) .init
  ⟨hs, by decide, overrun_iff_lost _ hs⟩

/-- Over every run of a loopback whose reader uses only the ring, while
`FIFOSTAT` shows no RX FIFO overflow: what the ring returned to the reader,
what it still holds and what the RX FIFO still holds are, in this order, a
prefix of what the writes accepted. -/
theorem loopback_ring_prefix (txBuffer rxBuffer : List UInt8) (htx : txBuffer ≠ [])
    (hrx : rxBuffer ≠ []) (s : Sys)
    (hs : RingReachable (Sys.init (some txBuffer) (some rxBuffer)) s)
    (hline : s.ghost.received.map RxEntry.data <+: s.ghost.fifoWritten)
    (hkept : s.uart.rxOverrun = false) :
    s.ghost.ringReturned ++ s.uart.rxBuf.contents ++ s.uart.rxFifo.map RxEntry.data <+:
      accepted s.ghost.writes := by
  have hreach := hs.reachable
  have horder : s.ghost.ringReturned ++ s.uart.rxBuf.contents ++ s.uart.rxFifo.map RxEntry.data =
      s.ghost.received.map RxEntry.data := by
    rw [(RxStream.reachable _ hrx hreach).stream, ← hs.fifoOrder hkept]
    rfl
  rw [horder]
  exact hline.trans ⟨_, (TxStream.reachable _ htx hreach).stream⟩

/-- The same two bytes, the reader using `read` only. -/
theorem loopback_ring_prefix_two_bytes :
    let s := (((((((Sys.init (some [0, 0, 0, 0]) (some [0, 0, 0, 0])).writePoll 2
      [0x41, 0x42]).interrupt ⟨false, false, false, 8⟩).receive ⟨0x41, 0⟩).receive
      ⟨0x42, 0⟩).interrupt ⟨false, false, false, 0⟩).readPop 1 2)
    ([0, 0, 0, 0] : List UInt8) ≠ [] ∧ ([0, 0, 0, 0] : List UInt8) ≠ [] ∧
      RingReachable (Sys.init (some [0, 0, 0, 0]) (some [0, 0, 0, 0])) s ∧
      s.ghost.received.map RxEntry.data <+: s.ghost.fifoWritten ∧ s.uart.rxOverrun = false ∧
      s.ghost.ringReturned = [0x41, 0x42] ∧
      s.ghost.ringReturned ++ s.uart.rxBuf.contents ++ s.uart.rxFifo.map RxEntry.data <+:
        accepted s.ghost.writes :=
  have hs := RingReachable.step (.step (.step (.step (.step (.step .init
    (.writePoll _ 2 [0x41, 0x42] (by decide))) (.interrupt _ _ (by decide) (by decide)))
    (.receive _ _)) (.receive _ _)) (.interrupt _ _ (by decide) (by decide)))
    (.readPop _ 1 2 (by decide))
  ⟨by decide, by decide, hs, by decide, by decide, by decide,
    loopback_ring_prefix [0, 0, 0, 0] [0, 0, 0, 0] (by decide) (by decide) _ hs (by decide)
      (by decide)⟩

end EmbassyImxrt.Buffered
