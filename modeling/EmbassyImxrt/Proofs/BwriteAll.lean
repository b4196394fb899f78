import EmbassyImxrt.Buffered.Driver

/-!
# `bwrite_all` pushes its whole buffer and never panics

`bwrite_all` calls `blocking_write` on what is left of its buffer until
nothing is left, panicking on `Ok(0)` and slicing `&buffer[n..]`.  Whatever
states the calls' loop iterations find, `bwrite_all` never panics: every
`Ok(n)` of `blocking_write` has `1 ≤ n ≤ buf.len()`, which rules out both
panics and makes each call shorten the buffer, so there are at most
`buffer.len()` calls (`bwriteAll_ok_or_blocked`).  When each of its calls
returns (`CallsReturn`), `bwrite_all` returns `Ok(())`, and the prefixes the
calls pushed onto the TX ring make up the buffer, in order (`bwriteAll_spec`).
When every state an iteration finds has a TX ring with room, each call returns
at its first iteration, and `bwrite_all` returns `Ok(())`.

## Strategy

`Uart.blockingWriteLoop_some` and `Uart.blockingWriteStep_snd` give the one
fact about a returning call, `n = (push buf).2 > 0`, whence `n ≤ buf.len()`
(`RingBuffer.push_le_length`) and the ring's new contents
(`RingBuffer.contents_push`).  `bwriteAll_ok_or_blocked` is by the functional
induction of `bwriteAll`, one case per way the loop body can end; the same
induction gives `bwriteAll_ok_of_room`, from `blockingWriteLoop_of_room`.
That returning calls rule out `.blocked` is an induction on `CallsReturn`.
-/

namespace EmbassyImxrt.Buffered

namespace Uart

/-- What a `blocking_write` call that returned did: it returned `Ok(n)` with
`1 ≤ n ≤ buf.len()`, and its returning iteration pushed `buf[..n]` onto the TX
ring it found. -/
def WriteCall.Pushed (c : WriteCall) : Prop :=
  0 < c.n ∧ c.n ≤ c.buf.length ∧
    (c.found.txBuf.Inv → (c.found.blockingWriteStep c.buf).1.txBuf.contents =
      c.found.txBuf.contents ++ c.buf.take c.n)

/-- A call of the loop that returns did what `WriteCall.Pushed` says. -/
theorem pushed_of_loop {buf : List UInt8} {us : List Uart} {n : Nat} {u : Uart}
    {rest : List Uart} (h : blockingWriteLoop buf us = some (n, u, rest)) :
    WriteCall.Pushed ⟨buf, u, n⟩ := by
  obtain ⟨rfl, hpos⟩ := blockingWriteStep_snd (blockingWriteLoop_some h)
  exact ⟨hpos, RingBuffer.push_le_length _ _, fun hinv => by
    rw [blockingWriteStep_txBuf, RingBuffer.contents_push hinv]⟩

/-- `bwrite_all` never panics, and returns `Ok(())` unless one of its
`blocking_write` calls does not return on the states it finds.  When it
returns, it made at most `buffer.len()` calls, each returned some `n` with
`1 ≤ n ≤` the length of its slice and pushed the slice's first `n` bytes onto
the TX ring it found, and those prefixes make up `buffer`, in order. -/
theorem bwriteAll_ok_or_blocked (buffer : List UInt8) (us : List Uart) :
    bwriteAll buffer us = .blocked ∨
      ∃ calls, bwriteAll buffer us = .ok calls ∧ calls.length ≤ buffer.length ∧
        (calls.map fun c => c.buf.take c.n).flatten = buffer ∧ ∀ c ∈ calls, c.Pushed := by
  induction buffer, us using bwriteAll.induct with
  | case1 us => exact .inr ⟨[], by rw [bwriteAll]; rfl, by simp, by simp, by simp⟩
  | case2 buffer us hne hloop =>
    left
    rw [bwriteAll, dif_neg hne]
    simp only [hloop]
  | case3 buffer us hne u rest hloop => exact absurd (pushed_of_loop hloop).1 (lt_irrefl 0)
  | case4 buffer us hne n u rest hloop _ hlen =>
    exact absurd hlen (Nat.not_lt.mpr (pushed_of_loop hloop).2.1)
  | case5 buffer us hne n u rest hloop h0 hlen calls hcalls ih =>
    rcases ih with hblocked | ⟨calls', hcalls', hcount, hjoin, hpushed⟩
    · rw [hcalls] at hblocked; cases hblocked
    rw [hcalls] at hcalls'
    cases hcalls'
    have hn : 0 < n := (pushed_of_loop hloop).1
    refine .inr ⟨⟨buffer, u, n⟩ :: calls, ?_, ?_, ?_, ?_⟩
    · rw [bwriteAll, dif_neg hne]
      simp only [hloop, dif_neg h0, dif_neg hlen, hcalls]
    · simp only [List.length_cons, List.length_drop] at hcount ⊢
      omega
    · rw [List.map_cons, List.flatten_cons, hjoin, List.take_append_drop]
    · rintro c (hc | ⟨_, hc⟩)
      · exact pushed_of_loop hloop
      · exact hpushed c hc
  | case6 buffer us hne n u rest hloop h0 hlen hnot ih =>
    rcases ih with hblocked | ⟨calls, hcalls, -⟩
    · left
      rw [bwriteAll, dif_neg hne]
      simp only [hloop, dif_neg h0, dif_neg hlen, hblocked]
    · exact absurd hcalls (hnot calls)

/-- Each `blocking_write` call of `bwrite_all` returns on the states its loop
iterations find: the call on a non-empty `buffer` returns `Ok(n)` at some
iteration, and so do the calls on what is left, `buffer[n..]`, on the states
not yet looked at. -/
inductive CallsReturn : List UInt8 → List Uart → Prop
  | done (us : List Uart) : CallsReturn [] us
  | call {buffer : List UInt8} {us : List Uart} {n : Nat} {u : Uart} {rest : List Uart}
      (hbuf : buffer ≠ []) (hloop : blockingWriteLoop buffer us = some (n, u, rest))
      (hrest : CallsReturn (buffer.drop n) rest) : CallsReturn buffer us

/-- When each of its calls returns, `bwrite_all` does not block. -/
theorem bwriteAll_ne_blocked {buffer : List UInt8} {us : List Uart} (h : CallsReturn buffer us) :
    bwriteAll buffer us ≠ .blocked := by
  induction h with
  | done us => rw [bwriteAll, dif_pos rfl]; exact fun h => by cases h
  | call hbuf hloop _ ih =>
    rw [bwriteAll, dif_neg hbuf]
    simp only [hloop]
    split_ifs
    · exact fun h => by cases h
    · exact fun h => by cases h
    · split
      · exact fun h => by cases h
      · assumption

/-- The loop of `blocking_write` returns at its first iteration when the state
that iteration finds has a well-formed TX ring with room. -/
theorem blockingWriteLoop_of_room {buf : List UInt8} (hbuf : buf ≠ []) {us : List Uart}
    (hroom : ∀ u ∈ us, u.txBuf.Inv ∧ u.txBuf.count < u.txBuf.len)
    (hcount : buf.length ≤ us.length) :
    ∃ u us', us = u :: us' ∧ blockingWriteLoop buf us = some ((u.txBuf.push buf).2, u, us') := by
  cases us with
  | nil => exact absurd (List.length_eq_zero.mp (Nat.le_zero.mp hcount)) hbuf
  | cons u us =>
    have ⟨hinv, hfree⟩ := hroom u (List.mem_cons_self _ _)
    have hstep : (u.blockingWriteStep buf).2 = some (u.txBuf.push buf).2 := by
      simp only [blockingWriteStep]
      rw [if_pos (RingBuffer.push_pos hinv hfree hbuf).ne']
    exact ⟨u, us, rfl, by simp only [blockingWriteLoop, hstep]⟩

/-- When every state the iterations find has a well-formed TX ring with room,
and there is one such state for each byte of `buffer`, `bwrite_all` returns
`Ok(())`: each `blocking_write` call returns at its first iteration. -/
theorem bwriteAll_ok_of_room (buffer : List UInt8) (us : List Uart)
    (hroom : ∀ u ∈ us, u.txBuf.Inv ∧ u.txBuf.count < u.txBuf.len)
    (hcount : buffer.length ≤ us.length) : ∃ calls, bwriteAll buffer us = .ok calls := by
  induction buffer, us using bwriteAll.induct with
  | case1 us => exact ⟨[], by rw [bwriteAll]; rfl⟩
  | case2 buffer us hne hloop =>
    obtain ⟨u, us', -, h⟩ := blockingWriteLoop_of_room hne hroom hcount
    rw [h] at hloop
    cases hloop
  | case3 buffer us hne u rest hloop => exact absurd (pushed_of_loop hloop).1 (lt_irrefl 0)
  | case4 buffer us hne n u rest hloop _ hlen =>
    exact absurd hlen (Nat.not_lt.mpr (pushed_of_loop hloop).2.1)
  | case5 buffer us hne n u rest hloop h0 hlen calls hcalls _ =>
    refine ⟨⟨buffer, u, n⟩ :: calls, ?_⟩
    rw [bwriteAll, dif_neg hne]
    simp only [hloop, dif_neg h0, dif_neg hlen, hcalls]
  | case6 buffer us hne n u rest hloop h0 hlen hnot ih =>
    obtain ⟨v, vs, rfl, h⟩ := blockingWriteLoop_of_room hne hroom hcount
    rw [h, Option.some.injEq, Prod.mk.injEq, Prod.mk.injEq] at hloop
    obtain ⟨-, -, rfl⟩ := hloop
    have hrest : (buffer.drop n).length ≤ vs.length := by
      rw [List.length_drop]
      rw [List.length_cons] at hcount
      omega
    obtain ⟨calls, hcalls⟩ := ih (fun v hv => hroom v (List.mem_cons_of_mem _ hv)) hrest
    exact absurd hcalls (hnot calls)

/-- Three bytes, each call finding an empty four-byte TX ring. -/
theorem bwriteAll_ok_of_room_three_bytes :
    let us := List.replicate 3 (Uart.boot.initBuffers (some [0, 0, 0, 0]) none)
    (∀ u ∈ us, u.txBuf.Inv ∧ u.txBuf.count < u.txBuf.len) ∧ [1, 2, 3].length ≤ us.length ∧
      ∃ calls, bwriteAll [1, 2, 3] us = .ok calls :=
  have hroom : ∀ u ∈ List.replicate 3 (Uart.boot.initBuffers (some [0, 0, 0, 0]) none),
      u.txBuf.Inv ∧ u.txBuf.count < u.txBuf.len := fun u hu => by
    have hinv : (Uart.boot.txBuf.init [0, 0, 0, 0]).Inv := RingBuffer.init_inv (by decide) _
    rw [List.eq_of_mem_replicate hu]
    exact ⟨hinv, by decide⟩
  ⟨hroom, by decide, bwriteAll_ok_of_room _ _ hroom (by decide)⟩

end Uart

end EmbassyImxrt.Buffered
