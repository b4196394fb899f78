import Mathlib.Data.BitVec

/-!
# The UUID and its byte representations

`uuid.rs` reads the four 32-bit UUID registers of `SYSCTL0` and packs them
into a `u128`, register `k` shifted left by `32k`; its byte views are the
`to_le_bytes`, `to_be_bytes` and `to_ne_bytes` of that `u128`.  This file shows
that the packing keeps every register whole, in bits `[32k + 31 : 32k]`
(`ofU128_toU128`), and that the byte views are the registers' own bytes: the
little-endian one (the native one on the RT6xx cores) lists the registers in
order, each little-endian, and the big-endian one lists them in reverse order,
each big-endian (`toLeBytes_toBeBytes`).

## Strategy

Everything is read bit by bit.  `getLsbD_toU128` says which register bit each
bit of the `u128` is; an equation of bit vectors is then closed by
`BitVec.eq_of_getLsbD_eq` and that lemma, with `omega` deciding the index
ranges.
-/

namespace EmbassyImxrt

/-! ## The model -/

/-- `Uuid`: the four UUID registers. -/
structure Uuid where
  uuid0 : BitVec 32
  uuid1 : BitVec 32
  uuid2 : BitVec 32
  uuid3 : BitVec 32
  deriving DecidableEq, Repr

/-- `u128::to_le_bytes`: byte `i` is bits `[8i + 7 : 8i]`. -/
def u128LeBytes (x : BitVec 128) : List (BitVec 8) :=
  (List.range 16).map fun i => x.extractLsb' (8 * i) 8

/-- `u128::to_be_bytes`: the most significant byte first. -/
def u128BeBytes (x : BitVec 128) : List (BitVec 8) :=
  (List.range 16).map fun i => x.extractLsb' (8 * (15 - i)) 8

theorem u128BeBytes_eq_reverse (x : BitVec 128) : u128BeBytes x = (u128LeBytes x).reverse := rfl

namespace Uuid

/-- `Uuid::read`, on the values of the registers `SYSCTL0.UUID[0..3]`. -/
def read (uuid : Fin 4 → BitVec 32) : Uuid :=
  ⟨uuid 0, uuid 1, uuid 2, uuid 3⟩

/-- `to_u128`. -/
def toU128 (u : Uuid) : BitVec 128 :=
  u.uuid3.setWidth 128 <<< 96 ||| u.uuid2.setWidth 128 <<< 64 |||
    u.uuid1.setWidth 128 <<< 32 ||| u.uuid0.setWidth 128

/-- `to_ne_bytes`: the RT6xx cores are little-endian. -/
def toNeBytes (u : Uuid) : List (BitVec 8) :=
  u128LeBytes u.toU128

/-- `to_be_bytes`. -/
def toBeBytes (u : Uuid) : List (BitVec 8) :=
  u128BeBytes u.toU128

/-- `to_le_bytes`. -/
def toLeBytes (u : Uuid) : List (BitVec 8) :=
  u128LeBytes u.toU128

/-! ## Reading the registers back -/

/-- The registers, read back from bits `[32k + 31 : 32k]` of a `u128`. -/
def ofU128 (x : BitVec 128) : Uuid :=
  ⟨x.extractLsb' 0 32, x.extractLsb' 32 32, x.extractLsb' 64 32, x.extractLsb' 96 32⟩

/-- The bytes of a register, least significant first. -/
def le32 (w : BitVec 32) : List (BitVec 8) :=
  (List.range 4).map fun i => w.extractLsb' (8 * i) 8

/-- The bytes of a register, most significant first. -/
def be32 (w : BitVec 32) : List (BitVec 8) :=
  (le32 w).reverse

/-- Bit `j` of `to_u128` is bit `j mod 32` of register `j / 32`. -/
theorem getLsbD_toU128 (u : Uuid) {j : Nat} (hj : j < 128) :
    u.toU128.getLsbD j =
      if j < 32 then u.uuid0.getLsbD j else if j < 64 then u.uuid1.getLsbD (j - 32)
      else if j < 96 then u.uuid2.getLsbD (j - 64) else u.uuid3.getLsbD (j - 96) := by
  simp only [toU128, BitVec.getLsbD_or, BitVec.getLsbD_shiftLeft, BitVec.getLsbD_setWidth]
  split_ifs <;> simp (disch := omega) only [decide_eq_true, decide_eq_false, BitVec.getLsbD_ge,
    Bool.true_and, Bool.false_and, Bool.and_false, Bool.and_true, Bool.not_true, Bool.not_false,
    Bool.or_false, Bool.false_or]

/-- `to_u128` keeps every register whole: register `k` is bits
`[32k + 31 : 32k]` of the result. -/
theorem ofU128_toU128 (u : Uuid) : ofU128 u.toU128 = u := by
  simp only [ofU128]
  congr <;> apply BitVec.eq_of_getLsbD_eq <;> intro i <;> have := i.isLt <;>
    simp (disch := omega) only [getLsbD_toU128, BitVec.getLsbD_extractLsb', decide_eq_true, if_pos,
      if_neg, Bool.true_and, Nat.add_sub_cancel_left, Nat.zero_add]

/-- Every `u128` is the packing of the registers read back from it, so
`to_u128` is a bijection. -/
theorem toU128_ofU128 (x : BitVec 128) : (ofU128 x).toU128 = x := by
  apply BitVec.eq_of_getLsbD_eq
  intro j
  have := j.isLt
  rw [getLsbD_toU128 _ j.isLt]
  simp only [ofU128, BitVec.getLsbD_extractLsb']
  split_ifs <;> simp (disch := omega) only [decide_eq_true, Bool.true_and] <;> congr 1 <;> omega

/-! ## The byte views -/

/-- The byte views are the registers' own bytes: the little-endian one lists
the registers in order, each little-endian; the big-endian one lists them in
reverse order, each big-endian. -/
theorem toLeBytes_toBeBytes (u : Uuid) :
    u.toLeBytes = le32 u.uuid0 ++ le32 u.uuid1 ++ le32 u.uuid2 ++ le32 u.uuid3 ∧
      u.toBeBytes = be32 u.uuid3 ++ be32 u.uuid2 ++ be32 u.uuid1 ++ be32 u.uuid0 := by
  have hle : u.toLeBytes = le32 u.uuid0 ++ le32 u.uuid1 ++ le32 u.uuid2 ++ le32 u.uuid3 := by
    simp only [toLeBytes, u128LeBytes, le32, List.range_succ, List.range_zero, List.map_append,
      List.map_cons, List.map_nil, List.nil_append, List.cons_append, List.singleton_append,
      List.cons.injEq, and_true]
    and_intros <;> apply BitVec.eq_of_getLsbD_eq <;> intro i <;> have := i.isLt <;>
      simp (disch := omega) only [getLsbD_toU128, BitVec.getLsbD_extractLsb', decide_eq_true,
        if_pos, if_neg, Bool.true_and] <;> congr 1 <;> omega
  refine ⟨hle, ?_⟩
  rw [toBeBytes, u128BeBytes_eq_reverse, ← toLeBytes, hle]
  simp only [be32, List.reverse_append, List.append_assoc]

/-- The register values `0x03020100`, ..., `0x0f0e0d0c` give the bytes
`0, 1, ..., 15` in native order. -/
example : (Uuid.mk 0x03020100 0x07060504 0x0b0a0908 0x0f0e0d0c).toNeBytes =
    (List.range 16).map (BitVec.ofNat 8) := by
  decide

end Uuid

end EmbassyImxrt
