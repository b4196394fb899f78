import EmbassyImxrt.Crc.Engine

/-!
# `feed_bytes` is byte-wise feeding, at every alignment

`feed_bytes` splits its slice with `align_to::<u32>` according to the slice's
address and writes the aligned middle as 32-bit words.  Since a word loaded
little-endian is fed back by the engine as the four bytes it was loaded from,
the engine sees the slice's bytes in order whatever the split, and
`feed_bytes` returns what writing the same bytes one at a time with
`feed_byte` returns (`feedBytes_eq_feedEach`); so a message can be fed in
parts from any addresses (`feedBytes_append`), and a buffer of whole words
fed with `feed_words` gives the checksum of its bytes (`feedWords_loadWords`).

## Strategy

Three facts about data, none about the engine's arithmetic: the word round
trip (`wordBytes_loadWord`), the split that `align_to` makes puts the slice
back together (`alignTo_bytes`), and a fold of 32-bit writes is the fold of
8-bit writes over the words' bytes (`foldl_write32`).
-/

namespace EmbassyImxrt.Crc

theorem toNat_toUInt8 (n : Nat) : n.toUInt8.toNat = n % 256 := by
  simp [Nat.toUInt8, UInt8.ofNat, UInt8.toNat, BitVec.toNat_ofNat]

/-- The engine takes back, from a word loaded little-endian, the four bytes it
was loaded from, in memory order. -/
theorem wordBytes_loadWord (b0 b1 b2 b3 : UInt8) :
    Engine.wordBytes (loadWord b0 b1 b2 b3) = [b0, b1, b2, b3] := by
  have h0 := b0.toNat_lt_size; have h1 := b1.toNat_lt_size
  have h2 := b2.toNat_lt_size; have h3 := b3.toNat_lt_size
  simp only [UInt8.size] at h0 h1 h2 h3
  have hword : (loadWord b0 b1 b2 b3).toNat =
      b0.toNat + 256 * b1.toNat + 65536 * b2.toNat + 16777216 * b3.toNat :=
    UInt32.toNat_ofNat_of_lt (by simp [UInt32.size]; omega)
  simp only [Engine.wordBytes, hword, List.cons.injEq, and_true]
  refine ⟨?_, ?_, ?_, ?_⟩ <;> apply UInt8.toNat.inj <;> rw [toNat_toUInt8] <;> omega

/-- The words of a run of bytes, fed back as bytes, followed by the bytes that
did not fill a word, are the run. -/
theorem loadWords_bytes :
    ∀ l : List UInt8, ((loadWords l).map Engine.wordBytes).flatten ++ l.drop (l.length / 4 * 4) = l
  | b0 :: b1 :: b2 :: b3 :: rest => by
    have hdrop : (rest.length + 1 + 1 + 1 + 1) / 4 * 4 = rest.length / 4 * 4 + 4 := by omega
    simp only [loadWords, List.map_cons, List.flatten_cons, wordBytes_loadWord, List.length_cons,
      hdrop, List.drop_succ_cons, List.append_assoc, List.cons_append, List.nil_append,
      loadWords_bytes rest]
  | [] | [_] | [_, _] | [_, _, _] => by simp [loadWords]

/-- The three parts `align_to` makes, with the words fed back as bytes, make up
the slice, at every address. -/
theorem alignTo_bytes (addr : Nat) (bytes : List UInt8) :
    (alignTo addr bytes).1 ++ ((alignTo addr bytes).2.1.map Engine.wordBytes).flatten ++
      (alignTo addr bytes).2.2 = bytes := by
  simp only [alignTo]
  split_ifs
  · simp
  · simp only [List.append_assoc, loadWords_bytes, List.take_append_drop]

/-- A run of 32-bit writes is the run of 8-bit writes of the words' bytes. -/
theorem foldl_write32 :
    ∀ (e : Engine) (words : List UInt32),
      words.foldl Engine.write32 e = ((words.map Engine.wordBytes).flatten).foldl Engine.write8 e
  | _, [] => rfl
  | e, w :: ws => by
    rw [List.foldl_cons, foldl_write32 _ ws, List.map_cons, List.flatten_cons, List.foldl_append]
    rfl

/-- The bytes written one at a time with `feed_byte`: the engine after, and the
checksum the last call returned (`SUM` as it stands, for no bytes). -/
def feedEach (e : Engine) (bytes : List UInt8) : Engine × UInt32 :=
  bytes.foldl (fun acc b => feedByte acc.1 b) (e, e.sum)

theorem feedEach_eq :
    ∀ (e : Engine) (bytes : List UInt8),
      feedEach e bytes = (bytes.foldl Engine.write8 e, (bytes.foldl Engine.write8 e).sum)
  | _, [] => rfl
  | e, b :: bs => feedEach_eq (e.write8 b) bs

/-- `feed_bytes` makes the 8-bit writes of its slice's bytes, in order. -/
theorem feedBytes_eq_foldl (e : Engine) (addr : Nat) (bytes : List UInt8) :
    feedBytes e addr bytes =
      (bytes.foldl Engine.write8 e, (bytes.foldl Engine.write8 e).sum) := by
  rw [feedBytes, foldl_write32, ← List.foldl_append, ← List.foldl_append,
    ← List.append_assoc, alignTo_bytes]

/-- From every engine state (so under every `Config`), for every content and
every address of the slice: `feed_bytes` leaves the engine as writing the same
bytes one at a time with `feed_byte` does, and returns the same checksum. -/
theorem feedBytes_eq_feedEach (e : Engine) (addr : Nat) (bytes : List UInt8) :
    feedBytes e addr bytes = feedEach e bytes := by
  rw [feedEach_eq, feedBytes_eq_foldl]

/-- A message may be fed in parts, each from its own address: `feed_bytes` on
consecutive parts leaves the engine as `feed_bytes` on the whole message does,
at any address, and the last call returns the same checksum. -/
theorem feedBytes_append (e : Engine) (addr₁ addr₂ addr : Nat) (xs ys : List UInt8) :
    feedBytes (feedBytes e addr₁ xs).1 addr₂ ys = feedBytes e addr (xs ++ ys) := by
  simp only [feedBytes_eq_foldl, List.foldl_append]

/-- A buffer fed as words, loaded little-endian as on the RT6xx, gives the
checksum of the buffer fed as bytes: for every buffer of whole words, from
every engine state and at every address of the byte view. -/
theorem feedWords_loadWords (e : Engine) (addr : Nat) (bytes : List UInt8)
    (hwords : bytes.length % 4 = 0) :
    feedWords e (loadWords bytes) = feedBytes e addr bytes := by
  have hbytes := loadWords_bytes bytes
  rw [show bytes.length / 4 * 4 = bytes.length by omega, List.drop_length, List.append_nil]
    at hbytes
  rw [feedWords, feedBytes_eq_foldl, foldl_write32, hbytes]

/-- Two words' worth of bytes. -/
theorem feedWords_loadWords_two_words :
    [0x31, 0x32, 0x33, 0x34, 0x35, 0x36, 0x37, 0x38].length % 4 = 0 ∧
      feedWords (new Config.default) (loadWords [0x31, 0x32, 0x33, 0x34, 0x35, 0x36, 0x37, 0x38]) =
        feedBytes (new Config.default) 3 [0x31, 0x32, 0x33, 0x34, 0x35, 0x36, 0x37, 0x38] :=
  ⟨rfl, feedWords_loadWords _ 3 _ rfl⟩

end EmbassyImxrt.Crc
