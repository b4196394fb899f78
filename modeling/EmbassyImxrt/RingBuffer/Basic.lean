import Mathlib.Data.List.Range

/-!
# The byte ring buffer

Both directions of the buffered UART move bytes through a `RingBuffer` of
`embassy_hal_internal::atomic_ring_buffer`.  That crate is not part of this
repository, so the ring is modelled here from the design's description of it:
a caller-supplied array of `len` bytes, a read cursor `start` and a write
cursor `end`, both kept modulo `2 * len` so that a full ring and an empty one
are told apart, and a producer and a consumer that each borrow the largest
contiguous slice they may touch (`push_buf`, `pop_buf`) and then publish how
much of it they used (`push_done`, `pop_done`).

A cursor value `x < 3 * len` names the cell `slot len x`, which is `x` taken
modulo `len` written with two subtractions, so that all index arithmetic below
stays within `omega`.  The bytes the ring holds are read off the storage from
the read cursor (`contents`); `Queue.lean` proves that every operation acts on
them as a bounded FIFO queue.

The storage is a total function `Nat → UInt8`, of which cells `0 .. len - 1`
are the caller's slice.  The null-pointer test of `is_available` is folded
into `len ≠ 0`: `init` and `deinit` always set the two together.
-/

namespace EmbassyImxrt

/-- Modelled from the spec: the single-producer single-consumer byte ring of
`embassy_hal_internal::atomic_ring_buffer`, which this repository uses but
does not contain.  `start` and `end` are the read and write cursors, each in
`[0, 2 * len)`; the ring holds `end - start` bytes modulo `2 * len`. -/
structure RingBuffer where
  /-- The backing storage; the first `len` cells are the caller's slice. -/
  buf : Nat → UInt8
  /-- The capacity, `0` while no storage is attached. -/
  len : Nat
  /-- The read cursor. -/
  start : Nat
  /-- The write cursor. -/
  «end» : Nat

namespace RingBuffer

/-- The cell that cursor value `x < 3 * len` names: `x % len`. -/
def slot (len x : Nat) : Nat :=
  if x < len then x else if x < 2 * len then x - len else x - 2 * len

/-- `RingBuffer::new`: no storage attached. -/
def new : RingBuffer := ⟨fun _ => 0, 0, 0, 0⟩

/-- `init`: store the caller's slice and its length, with both cursors at `0`.
A slice of length `0` leaves the ring detached. -/
def init (r : RingBuffer) (storage : List UInt8) : RingBuffer :=
  { r with buf := fun i => storage.getD i 0, len := storage.length, start := 0, «end» := 0 }

/-- `deinit`: detach the storage. -/
def deinit (r : RingBuffer) : RingBuffer :=
  { r with len := 0, start := 0, «end» := 0 }

/-- `is_available`: storage is attached. -/
def isAvailable (r : RingBuffer) : Bool :=
  r.len != 0

/-- `wrap`: bring a cursor advanced by at most `2 * len` back below `2 * len`. -/
def wrap (r : RingBuffer) (n : Nat) : Nat :=
  if n ≥ 2 * r.len then n - 2 * r.len else n

/-- `len()`: the number of bytes the ring holds. -/
def count (r : RingBuffer) : Nat :=
  if r.«end» ≥ r.start then r.«end» - r.start else 2 * r.len - r.start + r.«end»

/-- `is_full`. -/
def isFull (r : RingBuffer) : Bool :=
  r.wrap (r.start + r.len) == r.«end»

/-- `is_empty`. -/
def isEmpty (r : RingBuffer) : Bool :=
  r.start == r.«end»

/-- `Writer::push_buf`: the offset and length of the largest contiguous free
slice after the write cursor; length `0` when the ring is full. -/
def pushBuf (r : RingBuffer) : Nat × Nat :=
  let empty := r.start = r.«end»
  let start := if r.start ≥ r.len then r.start - r.len else r.start
  let «end» := if r.«end» ≥ r.len then r.«end» - r.len else r.«end»
  if start = «end» ∧ ¬empty then (0, 0)
  else («end», if start > «end» then start - «end» else r.len - «end»)

/-- `Writer::push_done`: publish `n` written bytes. -/
def pushDone (r : RingBuffer) (n : Nat) : RingBuffer :=
  { r with «end» := r.wrap (r.«end» + n) }

/-- `Reader::pop_buf`: the offset and length of the largest contiguous slice
of stored bytes after the read cursor; length `0` when the ring is empty. -/
def popBuf (r : RingBuffer) : Nat × Nat :=
  if r.start = r.«end» then (0, 0)
  else
    let start := if r.start ≥ r.len then r.start - r.len else r.start
    let «end» := if r.«end» ≥ r.len then r.«end» - r.len else r.«end»
    (start, if «end» > start then «end» - start else r.len - start)

/-- `Reader::pop_done`: release `n` read bytes. -/
def popDone (r : RingBuffer) (n : Nat) : RingBuffer :=
  { r with start := r.wrap (r.start + n) }

/-- Copy `bytes` into the storage from cell `offset` on. -/
def write (r : RingBuffer) (offset : Nat) (bytes : List UInt8) : RingBuffer :=
  { r with buf := fun i =>
      if offset ≤ i ∧ i < offset + bytes.length then bytes.getD (i - offset) 0 else r.buf i }

/-- The `n` bytes of storage from cell `offset` on: a slice handed out by
`push_buf` or `pop_buf`, read in place. -/
def read (r : RingBuffer) (offset n : Nat) : List UInt8 :=
  (List.range n).map fun i => r.buf (offset + i)

/-- `Writer::push` with the copying writer of `write` and `blocking_write`:
copy as much of `src` as fits in the free slice, publish it, and return the
count. -/
def push (r : RingBuffer) (src : List UInt8) : RingBuffer × Nat :=
  let n := min r.pushBuf.2 src.length
  ((r.write r.pushBuf.1 (src.take n)).pushDone n, n)

/-- `Reader::pop` with the copying reader of `try_read`, for a destination of
`dstLen` bytes: the ring after, and the bytes copied out. -/
def pop (r : RingBuffer) (dstLen : Nat) : RingBuffer × List UInt8 :=
  let n := min r.popBuf.2 dstLen
  (r.popDone n, r.read r.popBuf.1 n)

/-- The bytes the ring holds, oldest first, read from the storage. -/
def contents (r : RingBuffer) : List UInt8 :=
  (List.range r.count).map fun i => r.buf (slot r.len (r.start + i))

/-- What every reachable ring satisfies while storage is attached. -/
structure Inv (r : RingBuffer) : Prop where
  len_pos : 0 < r.len
  start_lt : r.start < 2 * r.len
  end_lt : r.«end» < 2 * r.len
  count_le : r.count ≤ r.len

/-! ## Field lemmas -/

@[simp] theorem write_len (r : RingBuffer) (o : Nat) (bs : List UInt8) :
    (r.write o bs).len = r.len := rfl

@[simp] theorem write_start (r : RingBuffer) (o : Nat) (bs : List UInt8) :
    (r.write o bs).start = r.start := rfl

@[simp] theorem write_end (r : RingBuffer) (o : Nat) (bs : List UInt8) :
    (r.write o bs).«end» = r.«end» := rfl

@[simp] theorem pushDone_len (r : RingBuffer) (n : Nat) : (r.pushDone n).len = r.len := rfl

@[simp] theorem pushDone_start (r : RingBuffer) (n : Nat) :
    (r.pushDone n).start = r.start := rfl

@[simp] theorem pushDone_buf (r : RingBuffer) (n : Nat) : (r.pushDone n).buf = r.buf := rfl

@[simp] theorem popDone_len (r : RingBuffer) (n : Nat) : (r.popDone n).len = r.len := rfl

@[simp] theorem popDone_end (r : RingBuffer) (n : Nat) : (r.popDone n).«end» = r.«end» := rfl

@[simp] theorem popDone_buf (r : RingBuffer) (n : Nat) : (r.popDone n).buf = r.buf := rfl

@[simp] theorem write_count (r : RingBuffer) (o : Nat) (bs : List UInt8) :
    (r.write o bs).count = r.count := rfl

@[simp] theorem write_pushBuf (r : RingBuffer) (o : Nat) (bs : List UInt8) :
    (r.write o bs).pushBuf = r.pushBuf := rfl

@[simp] theorem write_nil (r : RingBuffer) (o : Nat) : r.write o [] = r := by
  have hout : ∀ i, ¬(o ≤ i ∧ i < o) := fun i => by omega
  simp [write, hout]

@[simp] theorem length_contents (r : RingBuffer) : r.contents.length = r.count := by
  simp [contents]

@[simp] theorem length_read (r : RingBuffer) (o n : Nat) : (r.read o n).length = n := by
  simp [read]

theorem write_inv {r : RingBuffer} (h : r.Inv) (o : Nat) (bs : List UInt8) :
    (r.write o bs).Inv :=
  ⟨h.len_pos, h.start_lt, h.end_lt, h.count_le⟩

/-! ## The queries -/

theorem isAvailable_iff (r : RingBuffer) : r.isAvailable ↔ 0 < r.len := by
  simp [isAvailable, Nat.pos_iff_ne_zero]

theorem isEmpty_iff {r : RingBuffer} (h : r.Inv) : r.isEmpty ↔ r.count = 0 := by
  have := h.start_lt; have := h.end_lt
  simp only [isEmpty, count, beq_iff_eq]
  split <;> omega

theorem isFull_iff {r : RingBuffer} (h : r.Inv) : r.isFull ↔ r.count = r.len := by
  have := h.start_lt; have := h.end_lt; have hc := h.count_le
  simp only [isFull, wrap, count, beq_iff_eq] at hc ⊢
  split_ifs at hc ⊢ <;> omega

end RingBuffer

end EmbassyImxrt
