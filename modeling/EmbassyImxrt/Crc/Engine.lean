import Mathlib.Data.List.Range

/-!
# The CRC driver and the engine it drives

`crc.rs` configures the CRC engine through `MODE` and `SEED`, feeds it data
through the 8-, 16- and 32-bit write ports of `WR_DATA`, and reads the
checksum from `SUM`.  The engine is hardware; it is modelled here as its
reference manual describes it:

* `CRC_POLY` selects CRC-CCITT (`0x1021`), CRC-16 (`0x8005`) or CRC-32
  (`0x04C11DB7`), with a 16-bit register for the first two;
* every byte written is bit-reversed if `BIT_RVS_WR` is set, complemented if
  `CMPL_WR` is set, and shifted into the register most significant bit first;
  a 16- or 32-bit write feeds its bytes in this way from bits `[7:0]` up;
* `SUM` is the register, bit-reversed if `BIT_RVS_SUM` is set and
  complemented if `CMPL_SUM` is set.

`feed_bytes` splits its slice with `align_to::<u32>` and writes the aligned
middle as words, each a little-endian load of four bytes of memory.
-/

namespace EmbassyImxrt.Crc

/-! ## Configuration -/

/-- `Polynomial`. -/
inductive Polynomial
  | Crc32
  | Crc16
  | CrcCcitt
  deriving DecidableEq, Repr

/-- `From<Polynomial> for u8`: the value of the `CRC_POLY` field. -/
def Polynomial.toU8 : Polynomial → UInt8
  | .Crc16 => 1
  | .CrcCcitt => 0
  | _ => 2

/-- `Config`. -/
structure Config where
  polynomial : Polynomial
  bitOrderInputReverse : Bool
  inputComplement : Bool
  bitOrderCrcReverse : Bool
  crcComplement : Bool
  seed : UInt32
  deriving DecidableEq, Repr

/-- `Config::default()`. -/
def Config.default : Config :=
  ⟨.CrcCcitt, false, false, false, false, 0xffff⟩

/-! ## The engine -/

/-- The `MODE` register. -/
structure Mode where
  crcPoly : UInt8
  bitRvsWr : Bool
  cmplWr : Bool
  bitRvsSum : Bool
  cmplSum : Bool
  deriving DecidableEq, Repr

/-- The engine: `MODE` and the CRC register. -/
structure Engine where
  mode : Mode
  crc : UInt32
  deriving DecidableEq, Repr

namespace Mode

/-- The register width `CRC_POLY` selects. -/
def width (m : Mode) : Nat :=
  if m.crcPoly = 0 ∨ m.crcPoly = 1 then 16 else 32

/-- The polynomial `CRC_POLY` selects. -/
def poly (m : Mode) : UInt32 :=
  if m.crcPoly = 0 then 0x1021 else if m.crcPoly = 1 then 0x8005 else 0x04C11DB7

/-- The bits of the register. -/
def mask (m : Mode) : UInt32 :=
  if m.width = 16 then 0xffff else 0xffffffff

/-- Shift one data bit into the register. -/
def shiftIn (m : Mode) (crc : UInt32) (bit : Bool) : UInt32 :=
  let top := (crc >>> (m.width - 1).toUInt32) &&& 1 == 1
  let shifted := (crc <<< 1) &&& m.mask
  if top != bit then shifted ^^^ m.poly else shifted

end Mode

/-- The low `n` bits of `x` in reverse order. -/
def reverseBits (n : Nat) (x : UInt32) : UInt32 :=
  (List.range n).foldl (fun acc i => acc ||| (((x >>> i.toUInt32) &&& 1) <<< (n - 1 - i).toUInt32)) 0

namespace Engine

/-- An 8-bit write to `WR_DATA`. -/
def write8 (e : Engine) (b : UInt8) : Engine :=
  let d := if e.mode.bitRvsWr then reverseBits 8 b.toUInt32 else b.toUInt32
  let d := if e.mode.cmplWr then d ^^^ 0xff else d
  let crc := (List.range 8).foldl
    (fun crc i => e.mode.shiftIn crc ((d >>> (7 - i).toUInt32) &&& 1 == 1)) e.crc
  { e with crc }

/-- The bytes of a 32-bit write, in the order the engine takes them: bits
`[7:0]`, `[15:8]`, `[23:16]`, `[31:24]`. -/
def wordBytes (w : UInt32) : List UInt8 :=
  [w.toNat.toUInt8, (w.toNat / 256).toUInt8, (w.toNat / 65536).toUInt8,
    (w.toNat / 16777216).toUInt8]

/-- A 16-bit write to `WR_DATA`. -/
def write16 (e : Engine) (h : UInt16) : Engine :=
  [h.toNat.toUInt8, (h.toNat / 256).toUInt8].foldl write8 e

/-- A 32-bit write to `WR_DATA`. -/
def write32 (e : Engine) (w : UInt32) : Engine :=
  (wordBytes w).foldl write8 e

/-- `SUM`. -/
def sum (e : Engine) : UInt32 :=
  let s := e.crc &&& e.mode.mask
  let s := if e.mode.bitRvsSum then reverseBits e.mode.width s else s
  if e.mode.cmplSum then s ^^^ e.mode.mask else s

end Engine

/-! ## The driver -/

/-- `reconfigure`: write `MODE` from the configuration, then `SEED`. -/
def reconfigure (_e : Engine) (config : Config) : Engine :=
  ⟨⟨config.polynomial.toU8, config.bitOrderInputReverse, config.inputComplement,
    config.bitOrderCrcReverse, config.crcComplement⟩, config.seed⟩

/-- `Crc::new`: the engine after `reconfigure`; its state before does not
matter, `reconfigure` writing both registers. -/
def new (config : Config) : Engine :=
  reconfigure ⟨⟨0, false, false, false, false⟩, 0⟩ config

/-- `feed_byte`. -/
def feedByte (e : Engine) (byte : UInt8) : Engine × UInt32 :=
  (e.write8 byte, (e.write8 byte).sum)

/-- `feed_halfword`. -/
def feedHalfword (e : Engine) (halfword : UInt16) : Engine × UInt32 :=
  (e.write16 halfword, (e.write16 halfword).sum)

/-- `feed_halfwords`. -/
def feedHalfwords (e : Engine) (halfwords : List UInt16) : Engine × UInt32 :=
  (halfwords.foldl Engine.write16 e, (halfwords.foldl Engine.write16 e).sum)

/-- `feed_word`. -/
def feedWord (e : Engine) (word : UInt32) : Engine × UInt32 :=
  (e.write32 word, (e.write32 word).sum)

/-- `feed_words`. -/
def feedWords (e : Engine) (words : List UInt32) : Engine × UInt32 :=
  (words.foldl Engine.write32 e, (words.foldl Engine.write32 e).sum)

/-- The `u32` a little-endian load reads from four consecutive bytes. -/
def loadWord (b0 b1 b2 b3 : UInt8) : UInt32 :=
  UInt32.ofNat (b0.toNat + 256 * b1.toNat + 65536 * b2.toNat + 16777216 * b3.toNat)

/-- The words of a byte sequence that starts at a 4-aligned address, as many as
fit. -/
def loadWords : List UInt8 → List UInt32
  | b0 :: b1 :: b2 :: b3 :: rest => loadWord b0 b1 b2 b3 :: loadWords rest
  | _ => []

/-- `<[u8]>::align_to::<u32>` on the slice `bytes` at address `addr`: the bytes
before the first 4-aligned address (all of them if the slice ends first), the
whole words from there, and the bytes after the last whole word. -/
def alignTo (addr : Nat) (bytes : List UInt8) : List UInt8 × List UInt32 × List UInt8 :=
  let offset := (4 - addr % 4) % 4
  if bytes.length < offset then (bytes, [], [])
  else
    let rest := bytes.drop offset
    (bytes.take offset, loadWords rest, rest.drop (rest.length / 4 * 4))

/-- `feed_bytes` on the slice `bytes` at address `addr`: the prefix with 8-bit
writes, the words with 32-bit writes, the suffix with 8-bit writes, then
`SUM`. -/
def feedBytes (e : Engine) (addr : Nat) (bytes : List UInt8) : Engine × UInt32 :=
  let parts := alignTo addr bytes
  let e := parts.1.foldl Engine.write8 e
  let e := parts.2.1.foldl Engine.write32 e
  let e := parts.2.2.foldl Engine.write8 e
  (e, e.sum)

set_option maxRecDepth 20000 in
/-- The check value of CRC-32: `123456789` with reflected input and output,
seed `0xFFFFFFFF` and a complemented sum. -/
example : (feedBytes (new ⟨.Crc32, true, false, true, true, 0xffffffff⟩) 0
    [0x31, 0x32, 0x33, 0x34, 0x35, 0x36, 0x37, 0x38, 0x39]).2 = 0xcbf43926 := by decide

set_option maxRecDepth 20000 in
/-- The check value of CRC-16/CCITT-FALSE, the default configuration. -/
example : (feedBytes (new Config.default) 1
    [0x31, 0x32, 0x33, 0x34, 0x35, 0x36, 0x37, 0x38, 0x39]).2 = 0x29b1 := by decide

end EmbassyImxrt.Crc
