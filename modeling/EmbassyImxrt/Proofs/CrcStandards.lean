import EmbassyImxrt.Proofs.CrcFeedBytes

/-!
# `feed_bytes` computes the CRC its configuration names

The engine shifts data into its register most significant bit first, as its
reference manual describes it (`Mode.shiftIn`), and `Config` chooses the
polynomial, the reversals, the complements and the seed.  This file proves
that `feed_bytes`, for every slice and every address of it, returns the CRC of
the textbook algorithm those choices name, for both bit orders:

* with neither order reversed, the algorithm that shifts most significant bit
  first, each byte XORed into the top of the register (`feedBytes_msbFirst`):
  `Config::default()` is CRC-16/CCITT-FALSE;
* with both reversed, the reflected algorithm, whose register shifts the other
  way, each byte XORed into its bottom, with the polynomial and the seed
  reversed (`feedBytes_reflected`): CRC-32 and CRC-16/ARC are of this kind.

The algorithms are written byte-wise, as implementations write them
(`crcMsbFirst`, `crcReflected`), and their check values are evaluated below.
No standard CRC complements its input; `input_complement` is reduced to the
other settings instead: `feed_bytes` with it set returns what it returns with
it clear for the complemented bytes (`feedBytes_inputComplement`).

## Strategy

Each result is a refinement by induction over the bytes, under a relation
between the engine's 32-bit register and the algorithm's register of the
polynomial's width: the register's low bits, or their reversal.  A shift keeps
the relation (`shiftIn_setWidth`, `reverseBits_shiftIn`, both read off
`Mode.getLsbD_shiftIn`, which says what a shift does to each bit); the
algorithm's XOR of a whole byte before its eight shifts is the engine's one
data bit per shift, because a shift commutes with XOR up to the bit shifted
out (`msbShift_xor`, `lsbShift_xor`); and `SUM` reads the algorithm's result
off the register (`sum_setWidth`, `sum_reverseBits`).  Every bit-vector
equation is read bit by bit, with `BitVec.eq_of_getLsbD_eq`.
-/

namespace EmbassyImxrt.Crc

/-! ## The algorithms -/

section Algorithms

variable {w : Nat}

/-- One shift of a register that shifts most significant bit first: the bit
shifted out decides whether the polynomial is XORed in. -/
def msbShift (poly crc : BitVec w) : BitVec w :=
  if crc.getLsbD (w - 1) then (crc <<< 1) ^^^ poly else crc <<< 1

/-- A byte into such a register: XORed into its top byte, then eight shifts. -/
def msbByte (poly crc : BitVec w) (b : UInt8) : BitVec w :=
  (List.range 8).foldl (fun crc _ => msbShift poly crc)
    (crc ^^^ (b.toBitVec.setWidth w <<< (w - 8)))

/-- The CRC of a message, most significant bit first, from the register `init`,
with the result XORed with `xorout`. -/
def crcMsbFirst (poly init xorout : BitVec w) (bytes : List UInt8) : BitVec w :=
  bytes.foldl (msbByte poly) init ^^^ xorout

/-- One shift of a reflected register, which shifts least significant bit first. -/
def lsbShift (poly crc : BitVec w) : BitVec w :=
  if crc.getLsbD 0 then (crc >>> 1) ^^^ poly else crc >>> 1

/-- A byte into a reflected register: XORed into its low byte, then eight
shifts. -/
def lsbByte (poly crc : BitVec w) (b : UInt8) : BitVec w :=
  (List.range 8).foldl (fun crc _ => lsbShift poly crc) (crc ^^^ b.toBitVec.setWidth w)

/-- The CRC of a message with a reflected register. -/
def crcReflected (poly init xorout : BitVec w) (bytes : List UInt8) : BitVec w :=
  bytes.foldl (lsbByte poly) init ^^^ xorout

end Algorithms

set_option maxRecDepth 20000 in
/-- CRC-32 (ISO-HDLC): reflected, polynomial `0x04C11DB7` reversed. -/
example : crcReflected (0xEDB88320 : BitVec 32) 0xFFFFFFFF 0xFFFFFFFF
    [0x31, 0x32, 0x33, 0x34, 0x35, 0x36, 0x37, 0x38, 0x39] = 0xCBF43926 := by
  decide

set_option maxRecDepth 20000 in
/-- CRC-16/CCITT-FALSE. -/
example : crcMsbFirst (0x1021 : BitVec 16) 0xFFFF 0
    [0x31, 0x32, 0x33, 0x34, 0x35, 0x36, 0x37, 0x38, 0x39] = 0x29B1 := by
  decide

set_option maxRecDepth 20000 in
/-- CRC-16/ARC: reflected, polynomial `0x8005` reversed. -/
example : crcReflected (0xA001 : BitVec 16) 0 0
    [0x31, 0x32, 0x33, 0x34, 0x35, 0x36, 0x37, 0x38, 0x39] = 0xBB3D := by
  decide

/-! ## Shifting a byte in bit by bit -/

section Linearity

variable {w : Nat} (poly : BitVec w)

/-- A shift with a data bit, as the engine makes it: the data bit meets the bit
shifted out. -/
def dataShift (crc : BitVec w) (bit : Bool) : BitVec w :=
  if crc.getLsbD (w - 1) != bit then (crc <<< 1) ^^^ poly else crc <<< 1

/-- The reflected shift with a data bit, which meets bit `0`. -/
def reflectedShift (crc : BitVec w) (bit : Bool) : BitVec w :=
  if crc.getLsbD 0 != bit then (crc >>> 1) ^^^ poly else crc >>> 1

/-- A shift of a register XORed with `y` is the data shift with the bit of `y`
shifted out, XORed with `y` shifted. -/
theorem msbShift_xor (c y : BitVec w) :
    msbShift poly (c ^^^ y) = dataShift poly c (y.getLsbD (w - 1)) ^^^ (y <<< 1) := by
  simp only [msbShift, dataShift, BitVec.getLsbD_xor, BitVec.shiftLeft_xor_distrib]
  cases c.getLsbD (w - 1) <;> cases y.getLsbD (w - 1) <;> simp only [Bool.xor_false,
    Bool.xor_true, Bool.not_true, Bool.not_false, bne_self_eq_false, Bool.bne_false, Bool.bne_true,
    Bool.false_eq_true, Bool.true_bne, if_true, if_false] <;> ac_rfl

theorem lsbShift_xor (c y : BitVec w) :
    lsbShift poly (c ^^^ y) = reflectedShift poly c (y.getLsbD 0) ^^^ (y >>> 1) := by
  simp only [lsbShift, reflectedShift, BitVec.getLsbD_xor, BitVec.ushiftRight_xor_distrib]
  cases c.getLsbD 0 <;> cases y.getLsbD 0 <;> simp only [Bool.xor_false,
    Bool.xor_true, Bool.not_true, Bool.not_false, bne_self_eq_false, Bool.bne_false, Bool.bne_true,
    Bool.false_eq_true, Bool.true_bne, if_true, if_false] <;> ac_rfl

theorem ushiftRight_succ (y : BitVec w) (n : Nat) : y >>> n >>> 1 = y >>> (n + 1) := by
  apply BitVec.eq_of_getLsbD_eq
  intro j
  simp only [BitVec.getLsbD_ushiftRight]
  congr 1
  omega

/-- `n` shifts of a register XORed with `y` are `n` data shifts, the data bits
read off the top of `y` as it shifts out, XORed with `y` shifted `n` times. -/
theorem msbShifts_xor (c y : BitVec w) (n : Nat) :
    (List.range n).foldl (fun crc _ => msbShift poly crc) (c ^^^ y) =
      (List.range n).foldl (fun crc i => dataShift poly crc ((y <<< i).getLsbD (w - 1))) c ^^^
        (y <<< n) := by
  induction n with
  | zero => simp
  | succ n ih =>
    rw [List.range_succ, List.foldl_append, List.foldl_append, ih]
    simp only [List.foldl_cons, List.foldl_nil, msbShift_xor, BitVec.shiftLeft_add]

theorem lsbShifts_xor (c y : BitVec w) (n : Nat) :
    (List.range n).foldl (fun crc _ => lsbShift poly crc) (c ^^^ y) =
      (List.range n).foldl (fun crc i => reflectedShift poly crc ((y >>> i).getLsbD 0)) c ^^^
        (y >>> n) := by
  induction n with
  | zero => simp
  | succ n ih =>
    rw [List.range_succ, List.foldl_append, List.foldl_append, ih]
    simp only [List.foldl_cons, List.foldl_nil, lsbShift_xor, ushiftRight_succ]

/-- The byte-wise algorithm shifts the byte's bits in most significant first. -/
theorem msbByte_eq (hw : 8 ≤ w) (c : BitVec w) (b : UInt8) :
    msbByte poly c b =
      (List.range 8).foldl (fun crc i => dataShift poly crc (b.toBitVec.getLsbD (7 - i))) c := by
  have hout : (b.toBitVec.setWidth w <<< (w - 8)) <<< 8 = 0#w := by
    apply BitVec.eq_of_getLsbD_eq
    intro j
    have hj := j.isLt
    simp only [BitVec.getLsbD_shiftLeft, BitVec.getLsbD_setWidth, BitVec.getLsbD_zero]
    by_cases h : (j : Nat) < 8
    · simp [h]
    · simp [h, show (j : Nat) - 8 < w - 8 by omega]
  rw [msbByte, msbShifts_xor, hout, BitVec.xor_zero]
  apply List.foldl_ext
  intro crc i hi
  have hi := List.mem_range.mp hi
  congr 1
  simp (disch := omega) only [BitVec.getLsbD_shiftLeft, BitVec.getLsbD_setWidth, decide_eq_true,
    decide_eq_false, Bool.true_and, Bool.not_false, Bool.and_true,
    show w - 1 - i - (w - 8) = 7 - i by omega]

theorem lsbByte_eq (hw : 8 ≤ w) (c : BitVec w) (b : UInt8) :
    lsbByte poly c b =
      (List.range 8).foldl (fun crc i => reflectedShift poly crc (b.toBitVec.getLsbD i)) c := by
  have hout : b.toBitVec.setWidth w >>> 8 = 0#w := by
    apply BitVec.eq_of_getLsbD_eq
    intro j
    simp [BitVec.getLsbD_ge b.toBitVec (8 + j) (by omega)]
  rw [lsbByte, lsbShifts_xor, hout, BitVec.xor_zero]
  apply List.foldl_ext
  intro crc i hi
  have hi := List.mem_range.mp hi
  congr 1
  simp (disch := omega) only [BitVec.getLsbD_ushiftRight, BitVec.getLsbD_setWidth, decide_eq_true,
    Bool.true_and, Nat.add_zero]

end Linearity

/-! ## The engine's register as a bit vector -/

theorem toBitVec_shiftRight (x y : UInt32) :
    (x >>> y).toBitVec = x.toBitVec >>> (y.toNat % 32) := by
  show (x.toBitVec >>> (UInt32.mod y 32).toBitVec) = _
  simp [UInt32.mod, BitVec.ushiftRight_eq', UInt32.toNat]

theorem toBitVec_shiftLeft (x y : UInt32) :
    (x <<< y).toBitVec = x.toBitVec <<< (y.toNat % 32) := by
  show (x.toBitVec <<< (UInt32.mod y 32).toBitVec) = _
  simp [UInt32.mod, BitVec.shiftLeft_eq', UInt32.toNat]

theorem toNat_toUInt32 {k : Nat} (hk : k < 32) : k.toUInt32.toNat = k := by
  simp [Nat.toUInt32, UInt32.toNat, UInt32.ofNat]
  omega

/-- Bit `k` of a register, moved to bit `0`. -/
theorem toBitVec_bit (x : UInt32) {k : Nat} (hk : k < 32) :
    ((x >>> k.toUInt32) &&& 1).toBitVec = if x.toBitVec.getLsbD k then 1#32 else 0#32 := by
  apply BitVec.eq_of_getLsbD_eq
  intro i
  show (UInt32.land _ _).toBitVec.getLsbD i = _
  simp only [UInt32.land, toBitVec_shiftRight, toNat_toUInt32 hk, Nat.mod_eq_of_lt hk]
  by_cases hi : (i : Nat) = 0 <;> split <;> simp_all [BitVec.getLsbD_ushiftRight]

/-- Bit `k` of a register, read as the engine's model reads it. -/
theorem testBit_eq (x : UInt32) {k : Nat} (hk : k < 32) :
    ((x >>> k.toUInt32) &&& 1 == 1) = x.toBitVec.getLsbD k := by
  have hbits := toBitVec_bit x hk
  cases hb : x.toBitVec.getLsbD k
  · rw [hb, if_neg Bool.false_ne_true] at hbits
    exact beq_false_of_ne fun h =>
      absurd (hbits.symm.trans (congrArg UInt32.toBitVec h)) (by decide)
  · rw [hb, if_pos rfl] at hbits
    exact beq_iff_eq.mpr (UInt32.eq_of_toBitVec_eq hbits)

theorem getLsbD_toUInt32 (b : UInt8) (i : Nat) :
    b.toUInt32.toBitVec.getLsbD i = b.toBitVec.getLsbD i :=
  rfl

theorem foldl_write8_mode (e : Engine) (bytes : List UInt8) :
    (bytes.foldl Engine.write8 e).mode = e.mode := by
  induction bytes generalizing e with
  | nil => rfl
  | cons b bs ih => exact ih _

/-! ## Bit reversal -/

/-- One step of `reverseBits`: bit `i` of `x` is set at bit `k`. -/
theorem getLsbD_reverseStep (acc x : UInt32) {i k : Nat} (hi : i < 32) (hk : k < 32) (j : Nat) :
    (acc ||| ((x >>> i.toUInt32) &&& 1) <<< k.toUInt32).toBitVec.getLsbD j =
      (acc.toBitVec.getLsbD j || (decide (j = k) && x.toBitVec.getLsbD i)) := by
  show (UInt32.lor _ _).toBitVec.getLsbD j = _
  simp only [UInt32.lor, BitVec.getLsbD_or, toBitVec_shiftLeft, toNat_toUInt32 hk,
    Nat.mod_eq_of_lt hk, toBitVec_bit x hi]
  congr 1
  by_cases hj : j = k
  · subst hj; split <;> simp_all
  · split
    · simp [BitVec.getLsbD_shiftLeft, hj]
      omega
    · simp [hj]

theorem getLsbD_reverseFold (x : UInt32) {n : Nat} (hn : n ≤ 32) (j : Nat) :
    ∀ (l : List Nat) (acc : UInt32), (∀ i ∈ l, i < n) →
      (l.foldl (fun acc i => acc ||| ((x >>> i.toUInt32) &&& 1) <<< (n - 1 - i).toUInt32)
        acc).toBitVec.getLsbD j =
        (acc.toBitVec.getLsbD j || l.any fun i => decide (j = n - 1 - i) && x.toBitVec.getLsbD i)
  | [], acc, _ => by simp
  | i :: l, acc, hl => by
    have hi := hl i (List.mem_cons_self _ _)
    rw [List.foldl_cons,
      getLsbD_reverseFold x hn j l _ fun i hi => hl i (List.mem_cons_of_mem _ hi),
      getLsbD_reverseStep _ _ (by omega) (by omega), List.any_cons, Bool.or_assoc]

/-- Bit `j` of `reverseBits n x` is bit `n - 1 - j` of `x`. -/
theorem getLsbD_reverseBits (x : UInt32) {n : Nat} (hn : n ≤ 32) (j : Nat) :
    (reverseBits n x).toBitVec.getLsbD j = (decide (j < n) && x.toBitVec.getLsbD (n - 1 - j)) := by
  rw [reverseBits, getLsbD_reverseFold x hn j _ _ fun i hi => List.mem_range.mp hi]
  apply Bool.eq_iff_iff.mpr
  simp only [show (0 : UInt32).toBitVec = 0#32 from rfl, BitVec.getLsbD_zero, Bool.false_or,
    List.any_eq_true, List.mem_range, Bool.and_eq_true, decide_eq_true_eq]
  constructor
  · rintro ⟨i, hi, rfl, hx⟩
    exact ⟨by omega, by rwa [show n - 1 - (n - 1 - i) = i by omega]⟩
  · rintro ⟨hj, hx⟩
    exact ⟨n - 1 - j, by omega, by omega, hx⟩

/-! ## A shift of the engine's register -/

namespace Mode

theorem width_cases (m : Mode) : m.width = 16 ∨ m.width = 32 := by
  unfold width
  split <;> simp

theorem getLsbD_mask (m : Mode) (j : Nat) : m.mask.toBitVec.getLsbD j = decide (j < m.width) := by
  have h16 : ∀ j : Fin 32, (0xffff : UInt32).toBitVec.getLsbD j = decide ((j : Nat) < 16) := by
    decide
  have h32 : ∀ j : Fin 32, (0xffffffff : UInt32).toBitVec.getLsbD j = decide ((j : Nat) < 32) := by
    decide
  unfold mask
  by_cases hj : j < 32
  · rcases m.width_cases with h | h <;> rw [h]
    · exact h16 ⟨j, hj⟩
    · exact h32 ⟨j, hj⟩
  · rw [BitVec.getLsbD_ge _ _ (by omega)]
    rcases m.width_cases with h | h <;> simp [h] <;> omega

/-- Bit `k` after a shift: bit `k - 1` of the register, within the width, XORed
with bit `k` of the polynomial when the bit shifted out differs from the data
bit. -/
theorem getLsbD_shiftIn (m : Mode) (crc : UInt32) (bit : Bool) (k : Nat) :
    (m.shiftIn crc bit).toBitVec.getLsbD k =
      ((decide (k < m.width) && !decide (k < 1) && crc.toBitVec.getLsbD (k - 1)) ^^
        ((crc.toBitVec.getLsbD (m.width - 1) != bit) && m.poly.toBitVec.getLsbD k)) := by
  have hw := m.width_cases
  have htop := testBit_eq crc (k := m.width - 1) (by omega)
  have hshift : ((crc <<< 1) &&& m.mask).toBitVec.getLsbD k =
      (decide (k < m.width) && !decide (k < 1) && crc.toBitVec.getLsbD (k - 1)) := by
    show (UInt32.land _ _).toBitVec.getLsbD k = _
    simp only [UInt32.land, BitVec.getLsbD_and, toBitVec_shiftLeft, getLsbD_mask,
      BitVec.getLsbD_shiftLeft, show (1 : UInt32).toNat % 32 = 1 from rfl]
    by_cases hk : k < m.width
    · simp [hk, show k < 32 by omega]
    · simp [hk]
  simp only [shiftIn, htop]
  split
  · show (UInt32.xor _ _).toBitVec.getLsbD k = _
    rw [UInt32.xor, BitVec.getLsbD_xor, hshift]
    simp_all
  · rw [hshift]
    simp_all

end Mode


/-- The register's low `width` bits after a shift are the data shift of those
bits. -/
theorem shiftIn_setWidth (m : Mode) (crc : UInt32) (bit : Bool) :
    (m.shiftIn crc bit).toBitVec.setWidth m.width =
      dataShift (m.poly.toBitVec.setWidth m.width) (crc.toBitVec.setWidth m.width) bit := by
  have hw := m.width_cases
  have htop : (crc.toBitVec.setWidth m.width).getLsbD (m.width - 1) =
      crc.toBitVec.getLsbD (m.width - 1) := by
    simp [BitVec.getLsbD_setWidth, show m.width - 1 < m.width by omega]
  apply BitVec.eq_of_getLsbD_eq
  intro j
  have hj := j.isLt
  rw [dataShift, htop]
  split <;> simp_all [Mode.getLsbD_shiftIn, BitVec.getLsbD_setWidth, BitVec.getLsbD_shiftLeft,
    show (j : Nat) - 1 < m.width by omega]

/-- The register reversed within its width, after a shift, is the reversed
register after a reflected shift with the reversed polynomial. -/
theorem reverseBits_shiftIn (m : Mode) (crc : UInt32) (bit : Bool) :
    (reverseBits m.width (m.shiftIn crc bit)).toBitVec.setWidth m.width =
      reflectedShift ((reverseBits m.width m.poly).toBitVec.setWidth m.width)
        ((reverseBits m.width crc).toBitVec.setWidth m.width) bit := by
  have hw := m.width_cases
  have hle : m.width ≤ 32 := by omega
  have htop : ((reverseBits m.width crc).toBitVec.setWidth m.width).getLsbD 0 =
      crc.toBitVec.getLsbD (m.width - 1) := by
    simp [getLsbD_reverseBits _ hle, show 0 < m.width by omega]
  apply BitVec.eq_of_getLsbD_eq
  intro j
  have hj := j.isLt
  rw [reflectedShift, htop]
  have hidx : m.width - 1 - (j : Nat) - 1 = m.width - 1 - (1 + j) := by omega
  have hin : (decide (m.width - 1 - (j : Nat) < m.width) && !decide (m.width - 1 - (j : Nat) < 1)) =
      decide (1 + (j : Nat) < m.width) := by
    by_cases h : 1 + (j : Nat) < m.width
    · simp [h, show m.width - 1 - (j : Nat) < m.width by omega]
      omega
    · simp [h]
      omega
  split <;> rename_i hbit <;> simp only [BitVec.getLsbD_setWidth, getLsbD_reverseBits _ hle,
    Mode.getLsbD_shiftIn, BitVec.getLsbD_ushiftRight, BitVec.getLsbD_xor, hbit, hj, decide_True,
    Bool.true_and, Bool.and_self_left, hidx, hin, Bool.false_and, Bool.xor_false]

/-! ## Bytes and messages -/

theorem foldl_shiftIn_setWidth (m : Mode) (f : Nat → Bool) :
    ∀ (l : List Nat) (crc : UInt32),
      (l.foldl (fun crc i => m.shiftIn crc (f i)) crc).toBitVec.setWidth m.width =
        l.foldl (fun c i => dataShift (m.poly.toBitVec.setWidth m.width) c (f i))
          (crc.toBitVec.setWidth m.width)
  | [], _ => rfl
  | i :: l, crc => by rw [List.foldl_cons, foldl_shiftIn_setWidth m f l, shiftIn_setWidth]; rfl

theorem foldl_reverseBits_shiftIn (m : Mode) (f : Nat → Bool) :
    ∀ (l : List Nat) (crc : UInt32),
      (reverseBits m.width (l.foldl (fun crc i => m.shiftIn crc (f i)) crc)).toBitVec.setWidth
          m.width =
        l.foldl (fun c i => reflectedShift ((reverseBits m.width m.poly).toBitVec.setWidth m.width)
          c (f i)) ((reverseBits m.width crc).toBitVec.setWidth m.width)
  | [], _ => rfl
  | i :: l, crc => by
    rw [List.foldl_cons, foldl_reverseBits_shiftIn m f l, reverseBits_shiftIn]
    rfl

/-- An 8-bit write of a byte neither reversed nor complemented is the byte into
the register of the algorithm that shifts most significant bit first. -/
theorem write8_setWidth (e : Engine) (hrvs : e.mode.bitRvsWr = false)
    (hcmpl : e.mode.cmplWr = false) (b : UInt8) :
    (e.write8 b).crc.toBitVec.setWidth e.mode.width =
      msbByte (e.mode.poly.toBitVec.setWidth e.mode.width) (e.crc.toBitVec.setWidth e.mode.width)
        b := by
  have hw := e.mode.width_cases
  have hbit : ∀ crc, ∀ i ∈ List.range 8,
      e.mode.shiftIn crc ((b.toUInt32 >>> (7 - i).toUInt32) &&& 1 == 1) =
        e.mode.shiftIn crc (b.toBitVec.getLsbD (7 - i)) := by
    intro crc i hi
    rw [testBit_eq _ (by have := List.mem_range.mp hi; omega), getLsbD_toUInt32]
  simp only [Engine.write8, hrvs, hcmpl, Bool.false_eq_true, if_false]
  rw [List.foldl_ext _ _ _ hbit, msbByte_eq _ (by omega)]
  exact foldl_shiftIn_setWidth _ _ _ _

/-- With the byte reversed, an 8-bit write is, reversed, the byte into the
reflected register. -/
theorem reverseBits_write8 (e : Engine) (hrvs : e.mode.bitRvsWr = true)
    (hcmpl : e.mode.cmplWr = false) (b : UInt8) :
    (reverseBits e.mode.width (e.write8 b).crc).toBitVec.setWidth e.mode.width =
      lsbByte ((reverseBits e.mode.width e.mode.poly).toBitVec.setWidth e.mode.width)
        ((reverseBits e.mode.width e.crc).toBitVec.setWidth e.mode.width) b := by
  have hw := e.mode.width_cases
  have hbit : ∀ crc, ∀ i ∈ List.range 8,
      e.mode.shiftIn crc ((reverseBits 8 b.toUInt32 >>> (7 - i).toUInt32) &&& 1 == 1) =
        e.mode.shiftIn crc (b.toBitVec.getLsbD i) := by
    intro crc i hi
    have hi := List.mem_range.mp hi
    rw [testBit_eq _ (by omega), getLsbD_reverseBits _ (by omega), getLsbD_toUInt32,
      show 8 - 1 - (7 - i) = i by omega, decide_eq_true (by omega : 7 - i < 8), Bool.true_and]
  simp only [Engine.write8, hrvs, hcmpl, Bool.false_eq_true, if_true, if_false]
  rw [List.foldl_ext _ _ _ hbit, lsbByte_eq _ (by omega)]
  exact foldl_reverseBits_shiftIn _ _ _ _

theorem foldl_write8_setWidth (m : Mode) (hrvs : m.bitRvsWr = false) (hcmpl : m.cmplWr = false) :
    ∀ (bytes : List UInt8) (e : Engine), e.mode = m →
      (bytes.foldl Engine.write8 e).crc.toBitVec.setWidth m.width =
        bytes.foldl (msbByte (m.poly.toBitVec.setWidth m.width)) (e.crc.toBitVec.setWidth m.width)
  | [], _, _ => rfl
  | b :: bs, e, he => by
    rw [List.foldl_cons, List.foldl_cons, foldl_write8_setWidth m hrvs hcmpl bs (e.write8 b) he]
    subst he
    rw [write8_setWidth e hrvs hcmpl]

theorem foldl_reverseBits_write8 (m : Mode) (hrvs : m.bitRvsWr = true) (hcmpl : m.cmplWr = false) :
    ∀ (bytes : List UInt8) (e : Engine), e.mode = m →
      (reverseBits m.width (bytes.foldl Engine.write8 e).crc).toBitVec.setWidth m.width =
        bytes.foldl (lsbByte ((reverseBits m.width m.poly).toBitVec.setWidth m.width))
          ((reverseBits m.width e.crc).toBitVec.setWidth m.width)
  | [], _, _ => rfl
  | b :: bs, e, he => by
    rw [List.foldl_cons, List.foldl_cons, foldl_reverseBits_write8 m hrvs hcmpl bs (e.write8 b) he]
    subst he
    rw [reverseBits_write8 e hrvs hcmpl]


/-! ## `SUM` -/

/-- The register and the mask: the register's low `width` bits. -/
theorem getLsbD_land_mask (e : Engine) (j : Nat) :
    (e.crc &&& e.mode.mask).toBitVec.getLsbD j =
      (decide (j < e.mode.width) && e.crc.toBitVec.getLsbD j) := by
  show (UInt32.land _ _).toBitVec.getLsbD j = _
  rw [UInt32.land, BitVec.getLsbD_and, Mode.getLsbD_mask, Bool.and_comm]

/-- The complement of `SUM`: the mask, which is all ones within the width. -/
theorem toBitVec_mask (m : Mode) : m.mask.toBitVec = (BitVec.allOnes m.width).setWidth 32 := by
  apply BitVec.eq_of_getLsbD_eq
  intro j
  simp [Mode.getLsbD_mask]

/-- `SUM` without the reversal: the register's low `width` bits, complemented
if `CMPL_SUM` is set. -/
theorem sum_setWidth (e : Engine) (hrvs : e.mode.bitRvsSum = false) :
    e.sum.toBitVec = (e.crc.toBitVec.setWidth e.mode.width ^^^
      if e.mode.cmplSum then BitVec.allOnes _ else 0).setWidth 32 := by
  have hs : (e.crc &&& e.mode.mask).toBitVec =
      (e.crc.toBitVec.setWidth e.mode.width).setWidth 32 := by
    apply BitVec.eq_of_getLsbD_eq
    intro j
    rw [getLsbD_land_mask]
    simp [BitVec.getLsbD_setWidth]
  simp only [Engine.sum, hrvs, Bool.false_eq_true, if_false]
  split
  · show (UInt32.xor _ _).toBitVec = _
    rw [UInt32.xor, hs, toBitVec_mask, BitVec.setWidth_xor]
  · exact hs.trans (congrArg _ BitVec.xor_zero.symm)

/-- `SUM` with the reversal: the register reversed within its width,
complemented if `CMPL_SUM` is set. -/
theorem sum_reverseBits (e : Engine) (hrvs : e.mode.bitRvsSum = true) :
    e.sum.toBitVec = ((reverseBits e.mode.width e.crc).toBitVec.setWidth e.mode.width ^^^
      if e.mode.cmplSum then BitVec.allOnes _ else 0).setWidth 32 := by
  have hw := e.mode.width_cases
  have hle : e.mode.width ≤ 32 := by omega
  have hs : (reverseBits e.mode.width (e.crc &&& e.mode.mask)).toBitVec =
      ((reverseBits e.mode.width e.crc).toBitVec.setWidth e.mode.width).setWidth 32 := by
    apply BitVec.eq_of_getLsbD_eq
    intro j
    simp only [getLsbD_reverseBits _ hle, getLsbD_land_mask, BitVec.getLsbD_setWidth]
    by_cases hj : (j : Nat) < e.mode.width
    · simp [hj, show e.mode.width - 1 - (j : Nat) < e.mode.width by omega]
    · simp [hj]
  simp only [Engine.sum, hrvs, if_true]
  split
  · show (UInt32.xor _ _).toBitVec = _
    rw [UInt32.xor, hs, toBitVec_mask, BitVec.setWidth_xor]
  · exact hs.trans (congrArg _ BitVec.xor_zero.symm)

/-! ## `feed_bytes` computes the configured algorithm -/

/-- Configured with neither bit order reversed and the input not complemented,
`feed_bytes` returns the CRC of the message shifted in most significant bit
first, with the polynomial `Polynomial` selects, the seed as the initial
register (its low bits, for a 16-bit polynomial), and the result complemented
if `crc_complement` is set: for every slice and every address of it. -/
theorem feedBytes_msbFirst (config : Config) (hin : config.bitOrderInputReverse = false)
    (hcmpl : config.inputComplement = false) (hout : config.bitOrderCrcReverse = false)
    (addr : Nat) (bytes : List UInt8) :
    (feedBytes (new config) addr bytes).2.toBitVec =
      (crcMsbFirst ((new config).mode.poly.toBitVec.setWidth (new config).mode.width)
        (config.seed.toBitVec.setWidth _) (if config.crcComplement then BitVec.allOnes _ else 0)
        bytes).setWidth 32 := by
  have hsum : (bytes.foldl Engine.write8 (new config)).mode.bitRvsSum = false := by
    rw [foldl_write8_mode]
    exact hout
  rw [feedBytes_eq_foldl, sum_setWidth _ hsum, foldl_write8_mode,
    foldl_write8_setWidth _ hin hcmpl _ _ rfl]
  rfl

/-- CRC-16/CCITT-FALSE of `123456789`, with the default configuration. -/
theorem feedBytes_msbFirst_default :
    Config.default.bitOrderInputReverse = false ∧ Config.default.inputComplement = false ∧
      Config.default.bitOrderCrcReverse = false ∧
      (feedBytes (new Config.default) 2
        [0x31, 0x32, 0x33, 0x34, 0x35, 0x36, 0x37, 0x38, 0x39]).2.toBitVec =
        (crcMsbFirst
          ((new Config.default).mode.poly.toBitVec.setWidth (new Config.default).mode.width)
          (Config.default.seed.toBitVec.setWidth _)
          (if Config.default.crcComplement then BitVec.allOnes _ else 0)
          [0x31, 0x32, 0x33, 0x34, 0x35, 0x36, 0x37, 0x38, 0x39]).setWidth 32 :=
  ⟨rfl, rfl, rfl, feedBytes_msbFirst Config.default rfl rfl rfl 2 _⟩

/-- Configured with both bit orders reversed and the input not complemented,
`feed_bytes` returns the CRC of the message with a reflected register: the
polynomial `Polynomial` selects, reversed within its width; the seed reversed
within it as the initial register; the result complemented if `crc_complement`
is set: for every slice and every address of it. -/
theorem feedBytes_reflected (config : Config) (hin : config.bitOrderInputReverse = true)
    (hcmpl : config.inputComplement = false) (hout : config.bitOrderCrcReverse = true)
    (addr : Nat) (bytes : List UInt8) :
    (feedBytes (new config) addr bytes).2.toBitVec =
      (crcReflected
        ((reverseBits (new config).mode.width (new config).mode.poly).toBitVec.setWidth
          (new config).mode.width)
        ((reverseBits (new config).mode.width config.seed).toBitVec.setWidth _)
        (if config.crcComplement then BitVec.allOnes _ else 0) bytes).setWidth 32 := by
  have hsum : (bytes.foldl Engine.write8 (new config)).mode.bitRvsSum = true := by
    rw [foldl_write8_mode]
    exact hout
  rw [feedBytes_eq_foldl, sum_reverseBits _ hsum, foldl_write8_mode,
    foldl_reverseBits_write8 _ hin hcmpl _ _ rfl]
  rfl

/-- `crc32Config`: CRC-32, reflected and complemented, seed `0xFFFFFFFF`. -/
def crc32Config : Config :=
  ⟨.Crc32, true, false, true, true, 0xffffffff⟩

/-- CRC-32 of `123456789`, fed from an odd address. -/
theorem feedBytes_reflected_crc32 :
    crc32Config.bitOrderInputReverse = true ∧ crc32Config.inputComplement = false ∧
      crc32Config.bitOrderCrcReverse = true ∧
      (feedBytes (new crc32Config) 1
        [0x31, 0x32, 0x33, 0x34, 0x35, 0x36, 0x37, 0x38, 0x39]).2.toBitVec =
        (crcReflected
          ((reverseBits (new crc32Config).mode.width (new crc32Config).mode.poly).toBitVec.setWidth
            (new crc32Config).mode.width)
          ((reverseBits (new crc32Config).mode.width crc32Config.seed).toBitVec.setWidth _)
          (if crc32Config.crcComplement then BitVec.allOnes _ else 0)
          [0x31, 0x32, 0x33, 0x34, 0x35, 0x36, 0x37, 0x38, 0x39]).setWidth 32 :=
  ⟨rfl, rfl, rfl, feedBytes_reflected crc32Config rfl rfl rfl 1 _⟩

/-- The reflected polynomials of CRC-32 and CRC-16/ARC are the reversals of the
ones `Polynomial::Crc32` and `Polynomial::Crc16` select. -/
example : (reverseBits 32 0x04C11DB7).toBitVec = 0xEDB88320 ∧
    (reverseBits 16 0x8005).toBitVec = 0xA001 := by
  decide

/-! ## The input complement -/

/-- An 8-bit write shifts in, from bit 7 down (or from bit 0 up if `BIT_RVS_WR`
is set), the bits of the byte, each flipped if `CMPL_WR` is set. -/
theorem write8_crc (e : Engine) (b : UInt8) :
    (e.write8 b).crc = (List.range 8).foldl (fun crc i => e.mode.shiftIn crc
      (e.mode.cmplWr ^^
        if e.mode.bitRvsWr then b.toBitVec.getLsbD i else b.toBitVec.getLsbD (7 - i))) e.crc := by
  have hff : ∀ k : Fin 8, (0xff : UInt32).toBitVec.getLsbD k = true := by decide
  apply List.foldl_ext
  intro crc i hi
  have hi := List.mem_range.mp hi
  congr 1
  rw [testBit_eq _ (by omega)]
  cases hr : e.mode.bitRvsWr <;> cases hc : e.mode.cmplWr <;>
    simp only [hr, hc, if_true, if_false, Bool.false_eq_true, Bool.false_xor, Bool.true_xor]
  · rw [getLsbD_toUInt32]
  · show (UInt32.xor _ _).toBitVec.getLsbD _ = _
    rw [UInt32.xor, BitVec.getLsbD_xor, getLsbD_toUInt32, hff ⟨7 - i, by omega⟩, Bool.xor_true]
  · rw [getLsbD_reverseBits _ (by omega), getLsbD_toUInt32, show 8 - 1 - (7 - i) = i by omega,
      decide_eq_true (by omega : 7 - i < 8), Bool.true_and]
  · show (UInt32.xor _ _).toBitVec.getLsbD _ = _
    rw [UInt32.xor, BitVec.getLsbD_xor, hff ⟨7 - i, by omega⟩, Bool.xor_true,
      getLsbD_reverseBits _ (by omega), getLsbD_toUInt32, show 8 - 1 - (7 - i) = i by omega,
      decide_eq_true (by omega : 7 - i < 8), Bool.true_and]

/-- With `CMPL_WR` set, an 8-bit write of a byte moves the register as the same
write of the complemented byte with `CMPL_WR` clear. -/
theorem write8_cmplWr {e₁ e₀ : Engine} (hcrc : e₁.crc = e₀.crc)
    (hshift : e₁.mode.shiftIn = e₀.mode.shiftIn) (hrvs : e₁.mode.bitRvsWr = e₀.mode.bitRvsWr)
    (h₁ : e₁.mode.cmplWr = true) (h₀ : e₀.mode.cmplWr = false) (b : UInt8) :
    (e₁.write8 b).crc = (e₀.write8 (~~~b)).crc := by
  have hnot : ∀ k < 8, (~~~b).toBitVec.getLsbD k = !b.toBitVec.getLsbD k := fun k hk => by
    show (~~~b.toBitVec).getLsbD k = _
    simp [BitVec.getLsbD_not, hk]
  rw [write8_crc, write8_crc, hcrc, hshift, hrvs, h₁, h₀]
  apply List.foldl_ext
  intro crc i hi
  have hi := List.mem_range.mp hi
  congr 1
  split <;> rw [hnot _ (by omega)] <;> simp

theorem foldl_write8_cmplWr :
    ∀ (bytes : List UInt8) {e₁ e₀ : Engine}, e₁.crc = e₀.crc →
      e₁.mode.shiftIn = e₀.mode.shiftIn → e₁.mode.bitRvsWr = e₀.mode.bitRvsWr →
      e₁.mode.cmplWr = true → e₀.mode.cmplWr = false →
      (bytes.foldl Engine.write8 e₁).crc = ((bytes.map fun b => ~~~b).foldl Engine.write8 e₀).crc
  | [], _, _, hcrc, _, _, _, _ => hcrc
  | b :: bs, _, _, hcrc, hshift, hrvs, h₁, h₀ =>
    foldl_write8_cmplWr bs (write8_cmplWr hcrc hshift hrvs h₁ h₀ b) hshift hrvs h₁ h₀

/-- Under every configuration, for every slice and every address of it:
`feed_bytes` with `input_complement` set returns what it returns with the flag
clear for the slice's bytes complemented. -/
theorem feedBytes_inputComplement (config : Config) (addr : Nat) (bytes : List UInt8) :
    (feedBytes (new { config with inputComplement := true }) addr bytes).2 =
      (feedBytes (new { config with inputComplement := false }) addr
        (bytes.map fun b => ~~~b)).2 := by
  have hcrc : (bytes.foldl Engine.write8 (new { config with inputComplement := true })).crc =
      ((bytes.map fun b => ~~~b).foldl Engine.write8
        (new { config with inputComplement := false })).crc :=
    foldl_write8_cmplWr bytes rfl rfl rfl rfl rfl
  simp only [feedBytes_eq_foldl, Engine.sum, foldl_write8_mode, hcrc]
  rfl

end EmbassyImxrt.Crc
