import EmbassyImxrt.Proofs.RxStream
import EmbassyImxrt.Proofs.TxStream

/-!
# Two slices: the wrap of the rings

`pop_buf` and `push_buf` hand out contiguous slices, and a slice stops at the
end of the storage.  One run of `on_interrupt` therefore writes to `FIFOWR` at
most the stored bytes before the wrap of the TX ring, and fills at most the
free cells before the wrap of the RX ring; one `write` accepts at most the free
cells before the wrap of the TX ring.  The rest then lies in one slice
(`RingBuffer.popBuf_popDone`, `RingBuffer.pushBuf_pushDone`), so a second pass
finishes the job:

* two runs whose TX FIFO takes every stored byte write them all to `FIFOWR`,
  in order, and leave the TX ring empty (`tx_drained_by_two_runs`);
* so do runs whose FIFO takes one byte each, as many as the ring holds bytes
  (`tx_drained_by_runs`): each run on a non-empty ring writes at least one;
* two runs on a clean `STAT` move the FIFO's first characters into the RX
  ring, as many as it has free cells, and leave the rest in the FIFO
  (`rx_filled_by_two_runs`);
* two `write` polls, the second with what the first did not take, accept as
  much of the buffer as the TX ring had free cells (`write_accepts_by_two_polls`).

One pass is not enough in any of these: the witnesses start from rings whose
cursors sit one cell before the end of the storage.  The results are about
what the handler and the writer do when they run; whether the line fires again
for a second run is the subject of `Wakeups.lean`.

## Strategy

One lemma per direction says what one pass does (`Sys.interrupt_tx`,
`Sys.interrupt_rx_of_clean`, `Sys.writePoll_accepted`), from the drain lemmas
of `Interrupt.lean` and the two-slice lemmas of the ring; each theorem composes
two of them, or, for `tx_drained_by_runs`, all of them by induction on the runs
with the ring's count as the measure, and what is left is list algebra
(`List.take_add`, `List.drop_drop`).
-/

namespace EmbassyImxrt.Buffered

/-! ## One run of each drain -/

namespace Uart

variable {u : Uart}

/-- A TX drain whose FIFO takes `pop_buf`'s whole slice leaves the rest of the
ring in one slice. -/
theorem drainTx_popBuf (h : u.txBuf.Inv) {room : Nat} (hroom : u.txBuf.popBuf.2 ≤ room) :
    (u.drainTx room).1.txBuf.popBuf.2 = (u.drainTx room).1.txBuf.count := by
  have havail : u.txBuf.isAvailable := (RingBuffer.isAvailable_iff _).mpr h.len_pos
  obtain ⟨hle, hpos, -⟩ := RingBuffer.popBuf_spec h
  simp only [drainTx, havail, if_true, txLoop_popBuf h room, Nat.min_eq_left hroom]
  split_ifs with hne
  · simp only [List.length_take, RingBuffer.length_contents, Nat.min_eq_left hle]
    rw [RingBuffer.popBuf_popDone h, RingBuffer.count_popDone h hle]
  · have h0 := congrArg List.length (not_not.mp hne)
    simp only [List.length_take, RingBuffer.length_contents, List.length_nil] at h0
    dsimp only
    omega

/-- A TX drain over a ring whose bytes lie in one slice, with a FIFO that takes
them all, writes them all and empties the ring. -/
theorem drainTx_all (h : u.txBuf.Inv) {room : Nat} (hone : u.txBuf.popBuf.2 = u.txBuf.count)
    (hroom : u.txBuf.count ≤ room) :
    (u.drainTx room).2.1 = u.txBuf.contents ∧ (u.drainTx room).1.txBuf.contents = [] := by
  have hall : (u.drainTx room).2.1 = u.txBuf.contents := by
    rw [drainTx_written h, hone, Nat.min_eq_left hroom, ← RingBuffer.length_contents,
      List.take_length]
  have hsplit := (drainTx_contents h room).2
  rw [hall] at hsplit
  exact ⟨hall, List.append_right_eq_self.mp hsplit⟩

/-- A TX drain with room in the FIFO writes at least one byte of a non-empty
ring. -/
theorem drainTx_count_lt (h : u.txBuf.Inv) {room : Nat} (hroom : 0 < room)
    (hc : 0 < u.txBuf.count) : (u.drainTx room).1.txBuf.count < u.txBuf.count := by
  have hpos := (RingBuffer.popBuf_spec h).2.1 hc
  have hlen := congrArg List.length (drainTx_contents h room).2
  rw [drainTx_written h, List.length_append, List.length_take, RingBuffer.length_contents,
    RingBuffer.length_contents] at hlen
  omega

/-- An RX drain on a clean `STAT` moves the FIFO's first characters into the
ring, as many as `push_buf`'s slice takes; if the FIFO fills the slice, the
free cells left lie in one slice. -/
theorem drainRx_of_clean (h : u.rxBuf.Inv) (hclean : u.stat &&& rxeMask = 0) :
    u.drainRx.1.rxBuf.Inv ∧
      u.drainRx.1.rxBuf.contents =
        u.rxBuf.contents ++ (u.rxFifo.take u.rxBuf.pushBuf.2).map RxEntry.data ∧
      u.drainRx.1.rxFifo = u.rxFifo.drop u.rxBuf.pushBuf.2 ∧
      (u.rxBuf.pushBuf.2 ≤ u.rxFifo.length →
        u.drainRx.1.rxBuf.pushBuf.2 = u.rxBuf.len - u.rxBuf.count - u.rxBuf.pushBuf.2) := by
  have havail : u.rxBuf.isAvailable := (RingBuffer.isAvailable_iff _).mpr h.len_pos
  have hloop : rxLoop u.stat u.rxBuf.pushBuf.2 u.rxFifo =
      ((u.rxFifo.take u.rxBuf.pushBuf.2).map RxEntry.data, false,
        u.rxFifo.drop u.rxBuf.pushBuf.2) :=
    rxLoop_of_clean (by simp [hclean]) _ _
  obtain ⟨hinv, hcontents⟩ := drainRx_contents h
  refine ⟨hinv, by rw [hcontents, drainRx_read havail, rxDrainLoop, hloop],
    by rw [drainRx_rxFifo havail, rxDrainLoop, hloop], fun hlong => ?_⟩
  have hlen : ((u.rxFifo.take u.rxBuf.pushBuf.2).map RxEntry.data).length = u.rxBuf.pushBuf.2 := by
    simp [hlong]
  generalize (u.rxFifo.take u.rxBuf.pushBuf.2).map RxEntry.data = bytes at hloop hlen
  have hbuf : u.drainRx.1.rxBuf =
      if bytes ≠ [] then (u.rxBuf.write u.rxBuf.pushBuf.1 bytes).pushDone u.rxBuf.pushBuf.2
      else u.rxBuf.write u.rxBuf.pushBuf.1 bytes := by
    simp only [drainRx, havail, if_true, hloop, hlen]
    split_ifs <;> rfl
  rw [hbuf]
  split_ifs with hne
  · exact RingBuffer.pushBuf_pushDone (RingBuffer.write_inv h _ _)
  · have h0 := congrArg List.length (not_not.mp hne)
    have := (RingBuffer.pushBuf_spec h).2.1
    rw [hlen, List.length_nil] at h0
    rw [RingBuffer.write_pushBuf]
    omega

end Uart

/-! ## One handler run -/

namespace Sys

variable {s : Sys}

/-- What one handler run does to the TX ring: it writes to `FIFOWR` a prefix
of the stored bytes and drops it; if the FIFO takes `pop_buf`'s whole slice,
the bytes it leaves lie in one slice; if they already did and the FIFO takes
them all, it empties the ring; if the FIFO has room, it writes at least one
byte of a non-empty ring. -/
theorem interrupt_tx (h : s.uart.txBuf.Inv) (hw : Hardware) :
    (s.interrupt hw).uart.txBuf.Inv ∧
      (∃ written, (s.interrupt hw).ghost.fifoWritten = s.ghost.fifoWritten ++ written ∧
        written ++ (s.interrupt hw).uart.txBuf.contents = s.uart.txBuf.contents) ∧
      (s.uart.txBuf.popBuf.2 ≤ hw.txRoom →
        (s.interrupt hw).uart.txBuf.popBuf.2 = (s.interrupt hw).uart.txBuf.count) ∧
      (s.uart.txBuf.popBuf.2 = s.uart.txBuf.count → s.uart.txBuf.count ≤ hw.txRoom →
        (s.interrupt hw).uart.txBuf.contents = []) ∧
      (0 < hw.txRoom → 0 < s.uart.txBuf.count →
        (s.interrupt hw).uart.txBuf.count < s.uart.txBuf.count) := by
  rw [interrupt_fifoWritten, interrupt_txBuf]
  generalize hu : (s.acked hw).drainRx.1 = u
  have hbuf : u.txBuf = s.uart.txBuf := by rw [← hu]; simp
  rw [← hbuf] at h ⊢
  exact ⟨(Uart.drainTx_contents h _).1, ⟨_, rfl, (Uart.drainTx_contents h _).2⟩,
    Uart.drainTx_popBuf h, fun hone hroom => (Uart.drainTx_all h hone hroom).2,
    Uart.drainTx_count_lt h⟩

theorem interrupt_txBuf_count_le (h : s.uart.txBuf.Inv) (hw : Hardware) :
    (s.interrupt hw).uart.txBuf.count ≤ s.uart.txBuf.count := by
  obtain ⟨-, ⟨_, -, hC⟩, -⟩ := interrupt_tx h hw
  have := congrArg List.length hC
  simp only [List.length_append, RingBuffer.length_contents] at this
  omega

/-- What one handler run on a clean `STAT` does to the RX side: it moves the
FIFO's first characters into the RX ring, as many as `push_buf`'s slice takes,
and if the FIFO fills the slice the free cells left lie in one slice. -/
theorem interrupt_rx_of_clean (h : s.uart.rxBuf.Inv) (hclean : s.uart.stat &&& rxeMask = 0)
    (hw : Hardware) :
    (s.interrupt hw).uart.rxBuf.Inv ∧
      (s.interrupt hw).uart.rxBuf.contents =
        s.uart.rxBuf.contents ++ (s.uart.rxFifo.take s.uart.rxBuf.pushBuf.2).map RxEntry.data ∧
      (s.interrupt hw).uart.rxFifo = s.uart.rxFifo.drop s.uart.rxBuf.pushBuf.2 ∧
      (s.uart.rxBuf.pushBuf.2 ≤ s.uart.rxFifo.length →
        (s.interrupt hw).uart.rxBuf.pushBuf.2 =
          s.uart.rxBuf.len - s.uart.rxBuf.count - s.uart.rxBuf.pushBuf.2) := by
  rw [interrupt_rxBuf, interrupt_rxFifo]
  generalize hu : s.acked hw = u
  have hbuf : u.rxBuf = s.uart.rxBuf := by rw [← hu]; simp
  have hfifo : u.rxFifo = s.uart.rxFifo := by rw [← hu]; simp
  have hstat : u.stat = s.uart.stat := by rw [← hu]; simp
  rw [← hbuf] at h
  rw [← hstat] at hclean
  rw [← hbuf, ← hfifo]
  exact Uart.drainRx_of_clean h hclean

/-- Handler runs one after another, each with room for a byte in the TX FIFO,
at least as many as the TX ring holds bytes: they write all of them to
`FIFOWR`, in order, and leave the ring empty.  The measure is the ring's
count, which each run on a non-empty ring lowers. -/
theorem foldl_interrupt_tx :
    ∀ (hws : List Hardware) (s : Sys), s.uart.txBuf.Inv → (∀ hw ∈ hws, 0 < hw.txRoom) →
      s.uart.txBuf.count ≤ hws.length →
      (hws.foldl Sys.interrupt s).ghost.fifoWritten = s.ghost.fifoWritten ++ s.uart.txBuf.contents ∧
        (hws.foldl Sys.interrupt s).uart.txBuf.contents = []
  | [], s, _, _, hlen => by
    have hnil : s.uart.txBuf.contents = [] :=
      List.eq_nil_of_length_eq_zero (by rw [RingBuffer.length_contents]; simpa using hlen)
    simp [hnil]
  | hw :: hws, s, h, hroom, hlen => by
    obtain ⟨hinv, ⟨w, hF, hC⟩, -, -, hlt⟩ := interrupt_tx h hw
    have hle := interrupt_txBuf_count_le h hw
    have hlt := hlt (hroom hw (List.mem_cons_self _ _))
    have hcount : (s.interrupt hw).uart.txBuf.count ≤ hws.length := by
      rw [List.length_cons] at hlen
      rcases Nat.eq_zero_or_pos s.uart.txBuf.count with h0 | hpos
      · omega
      · have := hlt hpos; omega
    obtain ⟨hF', hC'⟩ := foldl_interrupt_tx hws _ hinv
      (fun hw' h' => hroom hw' (List.mem_cons_of_mem _ h')) hcount
    rw [List.foldl_cons]
    exact ⟨by rw [hF', hF, List.append_assoc, hC], hC'⟩

end Sys

/-! ## Two handler runs -/

/-- Over every run from a construction with a TX slice: two handler runs whose
TX FIFO takes every byte the TX ring holds write all of them to `FIFOWR`, in
order, and leave the ring empty. -/
theorem tx_drained_by_two_runs (rxBuffer : Option (List UInt8)) (txBuffer : List UInt8)
    (htx : txBuffer ≠ []) (s : Sys) (hs : Reachable (Sys.init (some txBuffer) rxBuffer) s)
    (hw₁ hw₂ : Hardware) (h₁ : s.uart.txBuf.count ≤ hw₁.txRoom)
    (h₂ : s.uart.txBuf.count ≤ hw₂.txRoom) :
    ((s.interrupt hw₁).interrupt hw₂).ghost.fifoWritten =
        s.ghost.fifoWritten ++ s.uart.txBuf.contents ∧
      ((s.interrupt hw₁).interrupt hw₂).uart.txBuf.contents = [] := by
  have h := (TxStream.reachable rxBuffer htx hs).inv
  obtain ⟨hinv, ⟨w₁, hF₁, hC₁⟩, hone, -, -⟩ := Sys.interrupt_tx h hw₁
  have hcount := (Sys.interrupt_txBuf_count_le h hw₁).trans h₂
  obtain ⟨-, ⟨w₂, hF₂, hC₂⟩, -, hempty, -⟩ := Sys.interrupt_tx hinv hw₂
  have hempty := hempty (hone ((RingBuffer.popBuf_spec h).1.trans h₁)) hcount
  rw [hempty, List.append_nil] at hC₂
  exact ⟨by rw [hF₂, hF₁, hC₂, List.append_assoc, hC₁], hempty⟩

/-- A four-byte TX ring whose three stored bytes wrap around the end of the
storage: the first run writes one, the second the other two. -/
theorem tx_drained_by_two_runs_wrapped :
    let s := ((((Sys.init (some [0, 0, 0, 0]) none).writePoll 1 [1, 2, 3]).interrupt
      ⟨false, false, false, 3⟩).writePoll 1 [4, 5, 6]).writePoll 1 [5, 6]
    let hw : Hardware := ⟨false, false, false, 4⟩
    Reachable (Sys.init (some [0, 0, 0, 0]) none) s ∧ s.uart.txBuf.count ≤ hw.txRoom ∧
      (s.interrupt hw).uart.txBuf.contents = [5, 6] ∧
      ((s.interrupt hw).interrupt hw).ghost.fifoWritten =
          s.ghost.fifoWritten ++ s.uart.txBuf.contents ∧
        ((s.interrupt hw).interrupt hw).uart.txBuf.contents = [] := by
  intro s hw
  have hs : Reachable (Sys.init (some [0, 0, 0, 0]) none) s :=
    .step (.step (.step (.step .init (.writePoll _ 1 [1, 2, 3] rfl)) (.interrupt _ _ (by decide) (by decide)))
      (.writePoll _ 1 [4, 5, 6] rfl)) (.writePoll _ 1 [5, 6] rfl)
  exact ⟨hs, by decide, by decide,
    tx_drained_by_two_runs none [0, 0, 0, 0] (by decide) s hs hw hw (by decide) (by decide)⟩

/-- Over every run from a construction with a TX slice: handler runs one after
another, each with room for a byte in the TX FIFO, at least as many as the TX
ring holds bytes, write all of them to `FIFOWR`, in order, and leave the ring
empty. -/
theorem tx_drained_by_runs (rxBuffer : Option (List UInt8)) (txBuffer : List UInt8)
    (htx : txBuffer ≠ []) (s : Sys) (hs : Reachable (Sys.init (some txBuffer) rxBuffer) s)
    (hws : List Hardware) (hroom : ∀ hw ∈ hws, 0 < hw.txRoom)
    (hlen : s.uart.txBuf.count ≤ hws.length) :
    (hws.foldl Sys.interrupt s).ghost.fifoWritten = s.ghost.fifoWritten ++ s.uart.txBuf.contents ∧
      (hws.foldl Sys.interrupt s).uart.txBuf.contents = [] :=
  Sys.foldl_interrupt_tx hws s (TxStream.reachable rxBuffer htx hs).inv hroom hlen

/-- Three stored bytes, three runs whose TX FIFO takes one byte each. -/
theorem tx_drained_by_runs_one_byte_each :
    let s := ((((Sys.init (some [0, 0, 0, 0]) none).writePoll 1 [1, 2, 3]).interrupt
      ⟨false, false, false, 3⟩).writePoll 1 [4, 5, 6]).writePoll 1 [5, 6]
    let hws : List Hardware := [⟨false, false, false, 1⟩, ⟨true, false, false, 1⟩,
      ⟨true, false, false, 1⟩]
    Reachable (Sys.init (some [0, 0, 0, 0]) none) s ∧ (∀ hw ∈ hws, 0 < hw.txRoom) ∧
      s.uart.txBuf.count ≤ hws.length ∧
      (hws.foldl Sys.interrupt s).ghost.fifoWritten =
          s.ghost.fifoWritten ++ s.uart.txBuf.contents ∧
        (hws.foldl Sys.interrupt s).uart.txBuf.contents = [] := by
  intro s hws
  have hs : Reachable (Sys.init (some [0, 0, 0, 0]) none) s :=
    .step (.step (.step (.step .init (.writePoll _ 1 [1, 2, 3] rfl)) (.interrupt _ _ (by decide) (by decide)))
      (.writePoll _ 1 [4, 5, 6] rfl)) (.writePoll _ 1 [5, 6] rfl)
  have hroom : ∀ hw ∈ hws, 0 < hw.txRoom := by decide
  exact ⟨hs, hroom, by decide,
    tx_drained_by_runs none [0, 0, 0, 0] (by decide) s hs hws hroom (by decide)⟩

/-- Over every run from a construction with an RX slice: while `STAT` shows no
fault, two handler runs move the FIFO's first characters into the RX ring, as
many as it has free cells, and leave the rest in the FIFO. -/
theorem rx_filled_by_two_runs (txBuffer : Option (List UInt8)) (rxBuffer : List UInt8)
    (hrx : rxBuffer ≠ []) (s : Sys) (hs : Reachable (Sys.init txBuffer (some rxBuffer)) s)
    (hclean : s.uart.stat &&& rxeMask = 0) (hw₁ hw₂ : Hardware) :
    ((s.interrupt hw₁).interrupt hw₂).uart.rxBuf.contents = s.uart.rxBuf.contents ++
        (s.uart.rxFifo.take (s.uart.rxBuf.len - s.uart.rxBuf.count)).map RxEntry.data ∧
      ((s.interrupt hw₁).interrupt hw₂).uart.rxFifo =
        s.uart.rxFifo.drop (s.uart.rxBuf.len - s.uart.rxBuf.count) := by
  have h := (RxStream.reachable txBuffer hrx hs).inv
  obtain ⟨hinv, hC₁, hF₁, hslice⟩ := Sys.interrupt_rx_of_clean h hclean hw₁
  obtain ⟨-, hC₂, hF₂, -⟩ :=
    Sys.interrupt_rx_of_clean hinv (by rw [Sys.interrupt_stat]; exact hclean) hw₂
  have hfit := (RingBuffer.pushBuf_spec h).1
  rw [hC₂, hF₂, hC₁, hF₁, List.append_assoc, ← List.map_append]
  by_cases hlong : s.uart.rxBuf.pushBuf.2 ≤ s.uart.rxFifo.length
  · rw [hslice hlong]
    generalize hm : s.uart.rxBuf.len - s.uart.rxBuf.count - s.uart.rxBuf.pushBuf.2 = m
    have hfree : s.uart.rxBuf.len - s.uart.rxBuf.count = s.uart.rxBuf.pushBuf.2 + m := by omega
    rw [hfree, List.take_add, List.drop_drop]
    exact ⟨rfl, rfl⟩
  · have hnil : s.uart.rxFifo.drop s.uart.rxBuf.pushBuf.2 = [] := List.drop_eq_nil_of_le (by omega)
    rw [hnil, List.take_nil, List.append_nil, List.drop_nil, List.take_of_length_le (by omega),
      List.take_of_length_le (by omega), List.drop_eq_nil_of_le (by omega)]
    exact ⟨rfl, rfl⟩


/-- A four-byte RX ring whose cursors sit before the last cell, with five
clean characters waiting: the first run moves one, the second three more, and
the fifth stays in the FIFO. -/
theorem rx_filled_by_two_runs_wrapped :
    let s := ((((((((((Sys.init none (some [0, 0, 0, 0])).receive ⟨1, 0⟩).receive ⟨2, 0⟩).receive
      ⟨3, 0⟩).interrupt ⟨false, false, false, 0⟩).readPop 1 3).receive ⟨4, 0⟩).receive
      ⟨5, 0⟩).receive ⟨6, 0⟩).receive ⟨7, 0⟩).receive ⟨8, 0⟩
    let hw : Hardware := ⟨false, false, false, 0⟩
    Reachable (Sys.init none (some [0, 0, 0, 0])) s ∧ s.uart.stat &&& rxeMask = 0 ∧
      (s.interrupt hw).uart.rxBuf.contents = [4] ∧
      ((s.interrupt hw).interrupt hw).uart.rxBuf.contents = s.uart.rxBuf.contents ++
          (s.uart.rxFifo.take (s.uart.rxBuf.len - s.uart.rxBuf.count)).map RxEntry.data ∧
        ((s.interrupt hw).interrupt hw).uart.rxFifo =
          s.uart.rxFifo.drop (s.uart.rxBuf.len - s.uart.rxBuf.count) := by
  intro s hw
  have hs : Reachable (Sys.init none (some [0, 0, 0, 0])) s :=
    .step (.step (.step (.step (.step (.step (.step (.step (.step (.step .init
      (.receive _ _)) (.receive _ _)) (.receive _ _)) (.interrupt _ _ (by decide) (by decide)))
      (.readPop _ 1 3 rfl)) (.receive _ _)) (.receive _ _)) (.receive _ _)) (.receive _ _))
      (.receive _ _)
  exact ⟨hs, by decide, by decide,
    rx_filled_by_two_runs none [0, 0, 0, 0] (by decide) s hs (by decide) hw hw⟩

/-! ## The writer's side -/

namespace Sys

variable {s : Sys}

/-- A `write` poll adds to what the writes accepted the prefix of `buf` its
push copied. -/
theorem writePoll_accepted (t : Task) (buf : List UInt8) :
    accepted (s.writePoll t buf).ghost.writes =
      accepted s.ghost.writes ++ buf.take (s.uart.txBuf.push buf).2 := by
  unfold writePoll
  split_ifs with hbuf hzero
  · simp [hbuf]
  · simp [hzero]
  · exact accepted_append _ _ _

theorem writePoll_txBuf {buf : List UInt8} (hbuf : buf ≠ []) (t : Task) :
    (s.writePoll t buf).uart.txBuf = (s.uart.txBuf.push buf).1 := by
  unfold writePoll
  rw [if_neg hbuf]
  split_ifs <;> rfl

end Sys

/-- Over every run from a construction with a TX slice: a `write` poll of
`buf`, then one of `&buf[n..]` for the `n` the first copied, with nothing in
between, accept the first bytes of `buf`, as many as the TX ring had free
cells. -/
theorem write_accepts_by_two_polls (rxBuffer : Option (List UInt8)) (txBuffer : List UInt8)
    (htx : txBuffer ≠ []) (s : Sys) (hs : Reachable (Sys.init (some txBuffer) rxBuffer) s)
    (t : Task) (buf : List UInt8) :
    accepted ((s.writePoll t buf).writePoll t (buf.drop (s.uart.txBuf.push buf).2)).ghost.writes =
      accepted s.ghost.writes ++ buf.take (s.uart.txBuf.len - s.uart.txBuf.count) := by
  have h := (TxStream.reachable rxBuffer htx hs).inv
  have hfit := (RingBuffer.pushBuf_spec h).1
  rw [Sys.writePoll_accepted, Sys.writePoll_accepted, List.append_assoc, RingBuffer.push_snd]
  congr 1
  by_cases hall : buf.length ≤ s.uart.txBuf.pushBuf.2
  · -- the first poll takes all of `buf`
    rw [Nat.min_eq_right hall, List.drop_length, List.take_nil, List.append_nil, List.take_length,
      List.take_of_length_le (by omega)]
  · -- the first poll fills its slice; the second takes what is free after the wrap
    have hbuf : buf ≠ [] := by rintro rfl; simp at hall
    rw [Nat.min_eq_left (by omega), Sys.writePoll_txBuf hbuf, RingBuffer.push_snd,
      RingBuffer.pushBuf_push h (by omega)]
    obtain ⟨m, hm⟩ : ∃ m, s.uart.txBuf.len - s.uart.txBuf.count = s.uart.txBuf.pushBuf.2 + m :=
      ⟨_, (Nat.add_sub_cancel' (by omega)).symm⟩
    rw [hm, List.take_add, Nat.add_sub_cancel_left]
    congr 1
    rcases le_total m (buf.drop s.uart.txBuf.pushBuf.2).length with hle | hle
    · rw [Nat.min_eq_left hle]
    · rw [Nat.min_eq_right hle, List.take_length, List.take_of_length_le hle]

/-- A four-byte TX ring whose cursors sit before the last cell: a write of
three bytes accepts one, the write of the other two accepts both. -/
theorem write_accepts_by_two_polls_wrapped :
    let s := ((Sys.init (some [0, 0, 0, 0]) none).writePoll 1 [1, 2, 3]).interrupt
      ⟨false, false, false, 3⟩
    Reachable (Sys.init (some [0, 0, 0, 0]) none) s ∧ (s.uart.txBuf.push [4, 5, 6]).2 = 1 ∧
      accepted ((s.writePoll 1 [4, 5, 6]).writePoll 1
          ([4, 5, 6].drop (s.uart.txBuf.push [4, 5, 6]).2)).ghost.writes =
        accepted s.ghost.writes ++ [4, 5, 6].take (s.uart.txBuf.len - s.uart.txBuf.count) := by
  intro s
  have hs : Reachable (Sys.init (some [0, 0, 0, 0]) none) s :=
    .step (.step .init (.writePoll _ 1 [1, 2, 3] rfl)) (.interrupt _ _ (by decide) (by decide))
  exact ⟨hs, by decide, write_accepts_by_two_polls none [0, 0, 0, 0] (by decide) s hs 1 _⟩

end EmbassyImxrt.Buffered
