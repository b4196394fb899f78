import EmbassyImxrt.RingBuffer.Basic

/-!
# The ring buffer is a bounded FIFO queue

`contents` reads the stored bytes off the storage from the read cursor.  This
file proves what each operation does to them, for every ring satisfying
`RingBuffer.Inv`:

* `push_buf` hands out a free slice whose cells follow the stored bytes
  (`pushBuf_spec`), so writing it and publishing it appends exactly the bytes
  written (`contents_write_pushDone`);
* `pop_buf` hands out a slice of the stored bytes, read in place, that is a
  prefix of `contents` (`read_popBuf`), and `pop_done k` drops the first `k`
  (`contents_popDone`);
* the copying `push` and `pop` of the drivers are the two combined;
* a slice stops at the end of the storage, so the stored bytes, and the free
  cells, lie in at most two slices: once the first is used whole, the next
  `pop_buf` (`push_buf`) hands out all the rest (`popBuf_popDone`,
  `pushBuf_pushDone`).

The cursor facts are all `omega` once `slot`, `wrap` and `count` are unfolded;
the one non-arithmetic step is that the cells of the free slice are not cells
of stored bytes, which is `slot_inj`: a window of `len` consecutive cursor
values names `len` different cells.

The abstract side is `ByteQueue`, a list of bytes with a capacity bound carried
as a field, and the two nondeterministic steps a producer and a consumer may
take on it.  `push_refines` and `pop_refines` show the ring's copying `push`
and `pop` take exactly such steps.
-/

namespace EmbassyImxrt

namespace RingBuffer

variable {r : RingBuffer}

/-! ## Cursor arithmetic -/

theorem slot_inj {n x a b : Nat} (ha : a < n) (hb : b < n)
    (h : slot n (x + a) = slot n (x + b)) : a = b := by
  unfold slot at h
  split_ifs at h <;> omega

/-- `slot` is the remainder modulo `len` of a cursor value below `3 * len`. -/
theorem slot_eq {len x y : Nat} (hy : y < len) (hx : x = y ∨ x = y + len ∨ x = y + 2 * len) :
    slot len x = y := by
  unfold slot
  split_ifs <;> omega

/-- The read cursor advanced by the count is the write cursor, up to one wrap
of `2 * len`. -/
theorem start_add_count (h : r.Inv) :
    r.start + r.count = r.«end» ∨ r.start + r.count = r.«end» + 2 * r.len := by
  have := h.start_lt
  unfold count
  split <;> omega

/-- A cursor below `2 * len`, brought below `len` as `push_buf` and `pop_buf`
do. -/
theorem reduce_cursor {n x : Nat} (hx : x < 2 * n) :
    ∃ y, (if x ≥ n then x - n else x) = y ∧ y < n ∧ (x = y ∨ x = y + n) := by
  split_ifs <;> exact ⟨_, rfl, by omega, by omega⟩

/-- What `push_buf` hands out: a slice that fits in the free space, non-empty
unless the ring is full, whose cells are the ones after the stored bytes. -/
theorem pushBuf_spec (h : r.Inv) :
    r.count + r.pushBuf.2 ≤ r.len ∧ (r.count < r.len → 0 < r.pushBuf.2) ∧
      ∀ j < r.pushBuf.2, slot r.len (r.start + (r.count + j)) = r.pushBuf.1 + j := by
  have := h.count_le; have := start_add_count h
  obtain ⟨s, hs, _, _⟩ := reduce_cursor h.start_lt
  obtain ⟨e, he, _, _⟩ := reduce_cursor h.end_lt
  generalize r.count = c at *
  simp only [pushBuf, hs, he]
  split_ifs <;> exact ⟨by omega, fun _ => by omega, fun j hj => slot_eq (by omega) (by omega)⟩

/-- What `pop_buf` hands out: a prefix of the stored bytes, non-empty unless
the ring is empty, lying in consecutive cells. -/
theorem popBuf_spec (h : r.Inv) :
    r.popBuf.2 ≤ r.count ∧ (0 < r.count → 0 < r.popBuf.2) ∧
      ∀ j < r.popBuf.2, slot r.len (r.start + j) = r.popBuf.1 + j := by
  have := h.count_le; have := start_add_count h
  obtain ⟨s, hs, _, _⟩ := reduce_cursor h.start_lt
  obtain ⟨e, he, _, _⟩ := reduce_cursor h.end_lt
  generalize r.count = c at *
  simp only [popBuf, hs, he]
  split_ifs <;> exact ⟨by omega, fun _ => by omega, fun j hj => slot_eq (by omega) (by omega)⟩

theorem count_pushDone (h : r.Inv) {k : Nat} (hk : r.count + k ≤ r.len) :
    (r.pushDone k).count = r.count + k := by
  have := h.start_lt; have := h.end_lt
  simp only [pushDone, count, wrap] at hk ⊢
  split_ifs at hk ⊢ <;> omega

theorem pushDone_inv (h : r.Inv) {k : Nat} (hk : r.count + k ≤ r.len) : (r.pushDone k).Inv := by
  refine ⟨h.len_pos, h.start_lt, ?_, by rw [count_pushDone h hk]; exact hk⟩
  have := h.end_lt
  simp only [pushDone, wrap]
  split_ifs <;> omega

theorem count_popDone (h : r.Inv) {k : Nat} (hk : k ≤ r.count) :
    (r.popDone k).count = r.count - k := by
  have := h.start_lt; have := h.end_lt; have hc := h.count_le
  simp only [popDone, count, wrap] at hk hc ⊢
  split_ifs at hk hc ⊢ <;> omega

theorem popDone_inv (h : r.Inv) {k : Nat} (hk : k ≤ r.count) : (r.popDone k).Inv := by
  refine ⟨h.len_pos, ?_, h.end_lt,
    by rw [count_popDone h hk]; exact (Nat.sub_le _ _).trans h.count_le⟩
  have := h.start_lt; have := h.count_le
  simp only [popDone, wrap]
  split_ifs <;> omega

/-! ## The stored bytes -/

/-- Releasing `k` stored bytes drops them from the front of the queue. -/
theorem contents_popDone (h : r.Inv) {k : Nat} (hk : k ≤ r.count) :
    (r.popDone k).contents = r.contents.drop k := by
  apply List.ext_getElem (by simp [count_popDone h hk])
  intro i h₁ _
  have := h.start_lt; have := h.count_le
  have hi : i < r.count - k := by simpa [count_popDone h hk] using h₁
  simp only [contents, List.getElem_drop, List.getElem_map, List.getElem_range, popDone_buf,
    popDone_len]
  congr 1
  simp only [popDone, wrap, slot]
  split_ifs <;> omega

/-- The slice `pop_buf` hands out, read in place, is a prefix of the stored
bytes. -/
theorem read_popBuf (h : r.Inv) {n : Nat} (hn : n ≤ r.popBuf.2) :
    r.read r.popBuf.1 n = r.contents.take n := by
  obtain ⟨hle, -, hslot⟩ := popBuf_spec h
  apply List.ext_getElem (by rw [length_read, List.length_take, length_contents]; omega)
  intro i h₁ _
  simp only [read, contents, List.getElem_take, List.getElem_map, List.getElem_range]
  rw [hslot i (by simp at h₁; omega)]

/-- Writing bytes into the slice `push_buf` hands out and publishing them
appends exactly those bytes to the queue. -/
theorem contents_write_pushDone (h : r.Inv) {bytes : List UInt8} (hk : bytes.length ≤ r.pushBuf.2) :
    ((r.write r.pushBuf.1 bytes).pushDone bytes.length).contents = r.contents ++ bytes := by
  obtain ⟨hfit, -, hslot⟩ := pushBuf_spec h
  have hcount : ((r.write r.pushBuf.1 bytes).pushDone bytes.length).count =
      r.count + bytes.length :=
    count_pushDone (write_inv h _ _) (by rw [write_count, write_len]; omega)
  apply List.ext_getElem (by simp [hcount])
  intro i h₁ _
  have hi : i < r.count + bytes.length := by simpa [hcount] using h₁
  simp only [contents, List.getElem_append, List.getElem_map, List.getElem_range, pushDone_buf,
    pushDone_start, pushDone_len, write_start, write_len, List.length_map, List.length_range]
  split_ifs with hlt
  · -- a stored byte: its cell is not in the written slice
    simp only [write, ite_eq_right_iff, and_imp]
    intro hlo hhi
    have hcell := hslot (slot r.len (r.start + i) - r.pushBuf.1) (by omega)
    have := slot_inj (n := r.len) (x := r.start) (a := i)
      (b := r.count + (slot r.len (r.start + i) - r.pushBuf.1))
      (by have := h.count_le; omega) (by omega) (by omega)
    omega
  · -- a written byte: its cell is in the slice, at its offset in `bytes`
    obtain ⟨j, rfl⟩ : ∃ j, i = r.count + j := ⟨i - r.count, by omega⟩
    have hj : j < bytes.length := by omega
    rw [hslot j (by omega)]
    simp [write, hj, List.getD_eq_getElem?_getD, List.getElem?_eq_getElem hj]

/-! ## The two slices -/

theorem slot_lt {n x : Nat} (hx : x < 2 * n) : slot n x < n := by
  unfold slot; split_ifs <;> omega

/-- The cursor reduction of `push_buf` and `pop_buf` is `slot`. -/
theorem reduce_eq_slot {n x : Nat} (hx : x < 2 * n) :
    (if x ≥ n then x - n else x) = slot n x := by
  unfold slot; split_ifs <;> omega

/-- A cursor advanced by at most the cells left before the end of the storage
names the next cell, or cell `0` at the end. -/
theorem slot_wrap {x k : Nat} (hx : x < 2 * r.len) (hk : slot r.len x + k ≤ r.len) :
    slot r.len (r.wrap (x + k)) = if slot r.len x + k < r.len then slot r.len x + k else 0 := by
  unfold wrap slot at *; split_ifs at hk ⊢ <;> omega

/-- The count, read off the cells of the two cursors: equal cursors hold
nothing, equal cells and different cursors a full ring. -/
theorem count_eq (h : r.Inv) :
    r.count = if r.start = r.«end» then 0
      else if slot r.len r.start < slot r.len r.«end» then slot r.len r.«end» - slot r.len r.start
      else r.len - slot r.len r.start + slot r.len r.«end» := by
  have := h.start_lt; have := h.end_lt; have hc := h.count_le
  simp only [count, slot] at hc ⊢
  split_ifs at hc ⊢ <;> omega

theorem start_ne_end_or_slot_eq (r : RingBuffer) :
    r.start ≠ r.«end» ∨ slot r.len r.start = slot r.len r.«end» := by
  by_cases h : r.start = r.«end»
  · exact .inr (h ▸ rfl)
  · exact .inl h

/-- `push_buf`'s slice: the free cells up to the end of the storage. -/
theorem pushBuf_snd (h : r.Inv) :
    r.pushBuf.2 = min (r.len - r.count) (r.len - slot r.len r.«end») := by
  have := slot_lt h.start_lt; have := slot_lt h.end_lt; have := start_ne_end_or_slot_eq r
  simp only [pushBuf, reduce_eq_slot h.start_lt, reduce_eq_slot h.end_lt, count_eq h]
  split_ifs <;> omega

/-- `pop_buf`'s slice: the stored bytes up to the end of the storage. -/
theorem popBuf_snd (h : r.Inv) : r.popBuf.2 = min r.count (r.len - slot r.len r.start) := by
  have := slot_lt h.start_lt; have := slot_lt h.end_lt; have := start_ne_end_or_slot_eq r
  simp only [popBuf, reduce_eq_slot h.start_lt, reduce_eq_slot h.end_lt, count_eq h]
  split_ifs <;> omega

/-- Once the slice `push_buf` handed out is filled whole, the next `push_buf`
hands out every free cell left. -/
theorem pushBuf_pushDone (h : r.Inv) :
    (r.pushDone r.pushBuf.2).pushBuf.2 = r.len - r.count - r.pushBuf.2 := by
  have hfit := (pushBuf_spec h).1
  have hn := pushBuf_snd h
  have := slot_lt h.end_lt
  rw [pushBuf_snd (pushDone_inv h hfit), count_pushDone h hfit, pushDone_len, pushDone,
    slot_wrap h.end_lt (by omega)]
  split_ifs <;> omega

/-- Once the slice `pop_buf` handed out is released whole, the next `pop_buf`
hands out every byte left. -/
theorem popBuf_popDone (h : r.Inv) :
    (r.popDone r.popBuf.2).popBuf.2 = r.count - r.popBuf.2 := by
  have hle := (popBuf_spec h).1
  have hn := popBuf_snd h
  have := slot_lt h.start_lt; have := h.count_le
  rw [popBuf_snd (popDone_inv h hle), count_popDone h hle, popDone_len, popDone,
    slot_wrap h.start_lt (by omega)]
  split_ifs <;> omega

/-! ## The copying `push` and `pop` -/

theorem push_snd (r : RingBuffer) (src : List UInt8) :
    (r.push src).2 = min r.pushBuf.2 src.length := rfl

/-- A push that fills its slice leaves every free cell left in one slice. -/
theorem pushBuf_push (h : r.Inv) {src : List UInt8} (hlong : r.pushBuf.2 ≤ src.length) :
    (r.push src).1.pushBuf.2 = r.len - r.count - r.pushBuf.2 := by
  rw [push, Nat.min_eq_left hlong]
  exact pushBuf_pushDone (write_inv h _ _)

theorem push_inv (h : r.Inv) (src : List UInt8) : (r.push src).1.Inv := by
  obtain ⟨hfit, -, -⟩ := pushBuf_spec h
  exact pushDone_inv (write_inv h _ _) (by rw [write_count, write_len]; omega)

/-- `push` appends the prefix of `src` it copied. -/
theorem contents_push (h : r.Inv) (src : List UInt8) :
    (r.push src).1.contents = r.contents ++ src.take (r.push src).2 := by
  have hlen : (src.take (min r.pushBuf.2 src.length)).length = min r.pushBuf.2 src.length := by
    simp
  have := contents_write_pushDone h
    (show (src.take (min r.pushBuf.2 src.length)).length ≤ r.pushBuf.2 by rw [hlen]; omega)
  rw [hlen] at this
  exact this

/-- `push` copies at least one byte into a ring that is not full. -/
theorem push_pos (h : r.Inv) {src : List UInt8} (hfree : r.count < r.len) (hsrc : src ≠ []) :
    0 < (r.push src).2 := by
  have := (pushBuf_spec h).2.1 hfree
  have := List.length_pos.mpr hsrc
  rw [push_snd]
  omega

@[simp] theorem push_len (r : RingBuffer) (src : List UInt8) : (r.push src).1.len = r.len := rfl

theorem push_le_length (r : RingBuffer) (src : List UInt8) : (r.push src).2 ≤ src.length := by
  rw [push_snd]
  omega

theorem pop_inv (h : r.Inv) (dstLen : Nat) : (r.pop dstLen).1.Inv :=
  popDone_inv h ((Nat.min_le_left _ _).trans (popBuf_spec h).1)

/-- `pop` copies out a prefix of the stored bytes, at most `dstLen` of them. -/
theorem pop_snd (h : r.Inv) (dstLen : Nat) :
    (r.pop dstLen).2 = r.contents.take (min r.popBuf.2 dstLen) :=
  read_popBuf h (by omega)

/-- `pop` drops from the queue exactly the bytes it copied out. -/
theorem contents_pop (h : r.Inv) (dstLen : Nat) :
    (r.pop dstLen).1.contents = r.contents.drop (r.pop dstLen).2.length := by
  have := (popBuf_spec h).1
  simp only [pop, length_read]
  exact contents_popDone h (by omega)

/-- What `pop` copies out, followed by what it leaves, is what the ring held. -/
theorem pop_append_contents (h : r.Inv) (dstLen : Nat) :
    (r.pop dstLen).2 ++ (r.pop dstLen).1.contents = r.contents := by
  rw [contents_pop h, pop_snd h]
  exact List.prefix_iff_eq_append.mp (List.take_prefix _ _)

@[simp] theorem pop_len (r : RingBuffer) (dstLen : Nat) : (r.pop dstLen).1.len = r.len := rfl

/-- `pop` copies at least one byte out of a non-empty ring into a non-empty
destination. -/
theorem pop_pos (h : r.Inv) {dstLen : Nat} (hstored : 0 < r.count) (hdst : 0 < dstLen) :
    (r.pop dstLen).2 ≠ [] := by
  have := (popBuf_spec h).2.1 hstored
  rw [← List.length_pos, pop, length_read]
  omega

/-! ## Attaching and detaching -/

theorem init_inv {storage : List UInt8} (hlen : storage ≠ []) (r : RingBuffer) :
    (r.init storage).Inv := by
  have := List.length_pos.mpr hlen
  exact ⟨this, by dsimp only [init]; omega, by dsimp only [init]; omega, by simp [init, count]⟩

theorem contents_init (storage : List UInt8) (r : RingBuffer) : (r.init storage).contents = [] := by
  simp [init, contents, count]

@[simp] theorem len_init (storage : List UInt8) (r : RingBuffer) :
    (r.init storage).len = storage.length := rfl

@[simp] theorem isAvailable_deinit (r : RingBuffer) : r.deinit.isAvailable = false := rfl

end RingBuffer

/-! ## The abstract queue -/

/-- A bounded FIFO queue of bytes: what a ring buffer is for.  The bound is a
field, so no queue over its capacity can be built. -/
structure ByteQueue where
  capacity : Nat
  items : List UInt8
  bounded : items.length ≤ capacity

namespace ByteQueue

/-- A producer step: some prefix of `src` is appended, as much as fits at most,
and at least one byte whenever there is room and something to send. -/
def PushStep (q : ByteQueue) (src : List UInt8) (q' : ByteQueue) (n : Nat) : Prop :=
  q'.capacity = q.capacity ∧ q'.items = q.items ++ src.take n ∧ n ≤ src.length ∧
    (q.items.length < q.capacity → src ≠ [] → 0 < n)

/-- A consumer step: a prefix of the queue, at most `dstLen` bytes of it, is
removed and handed out, and at least one byte whenever the queue holds one and
the destination has room. -/
def PopStep (q : ByteQueue) (dstLen : Nat) (q' : ByteQueue) (out : List UInt8) : Prop :=
  q'.capacity = q.capacity ∧ out = q.items.take out.length ∧
    q'.items = q.items.drop out.length ∧ out.length ≤ dstLen ∧
    (q.items ≠ [] → 0 < dstLen → out ≠ [])

end ByteQueue

namespace RingBuffer

variable {r : RingBuffer}

/-- The queue a well-formed ring stands for. -/
def toQueue (r : RingBuffer) (h : r.Inv) : ByteQueue :=
  ⟨r.len, r.contents, by simpa using h.count_le⟩

/-- The copying `push` is a producer step of the abstract queue. -/
theorem push_refines (h : r.Inv) (src : List UInt8) :
    (r.toQueue h).PushStep src ((r.push src).1.toQueue (push_inv h src)) (r.push src).2 := by
  refine ⟨rfl, contents_push h src, push_le_length r src, fun hfree hsrc => ?_⟩
  exact push_pos h (by simpa [toQueue] using hfree) hsrc

/-- Two bytes pushed onto an empty four-cell ring. -/
theorem push_refines_two_bytes :
    let r := new.init [0, 0, 0, 0]
    ∃ h : r.Inv, (r.toQueue h).PushStep [1, 2] ((r.push [1, 2]).1.toQueue (push_inv h [1, 2]))
      (r.push [1, 2]).2 :=
  ⟨init_inv (by decide) _, push_refines (init_inv (by decide) _) [1, 2]⟩

/-- The copying `pop` is a consumer step of the abstract queue. -/
theorem pop_refines (h : r.Inv) (dstLen : Nat) :
    (r.toQueue h).PopStep dstLen ((r.pop dstLen).1.toQueue (pop_inv h dstLen)) (r.pop dstLen).2 := by
  have hout := pop_snd h dstLen
  refine ⟨rfl, ?_, contents_pop h dstLen, ?_, fun hne hdst => pop_pos h ?_ hdst⟩
  · conv_lhs => rw [hout]
    simp [toQueue, hout, List.take_take]
  · simp only [hout, List.length_take, length_contents]
    omega
  · simpa [toQueue] using List.length_pos.mpr hne

/-- One byte popped from a four-cell ring holding two. -/
theorem pop_refines_one_byte :
    let r := ((new.init [0, 0, 0, 0]).push [1, 2]).1
    ∃ h : r.Inv, (r.toQueue h).PopStep 1 ((r.pop 1).1.toQueue (pop_inv h 1)) (r.pop 1).2 :=
  have h0 : (new.init [0, 0, 0, 0]).Inv := init_inv (by decide) _
  have h := push_inv h0 [1, 2]
  ⟨h, pop_refines h 1⟩

end RingBuffer

end EmbassyImxrt
