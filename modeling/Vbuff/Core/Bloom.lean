import Vbuff.Lib.MachineInt
import Vbuff.Types.Clip

/-!
# The Bloom filter

A bit array in which every value inserted has four bits set.  A value with a bit missing was
never inserted; a value with all four set may or may not have been.  Nothing ever clears a bit,
so a filter goes on reporting what it reported once (`mightContain_insert_of`).
-/

namespace Vbuff.Core

open ByteString MachineInt Vbuff.Types

/-- A filter has bits: a position is a remainder by their number. -/
structure BloomFilter where
  bits : List (BitVec 64)
  hashFunctions : UInt8
  bits_pos : 0 < bits.length
  deriving DecidableEq

namespace BloomFilter

theorem divCeil_nextPowerOfTwo_pos (n : ℕ) : 0 < divCeil (nextPowerOfTwo n) 64 := by
  have hpower : 0 < nextPowerOfTwo n := by
    unfold nextPowerOfTwo
    split
    · exact Nat.one_pos
    · exact Nat.two_pow_pos _
  exact Nat.div_pos (by omega) (by decide)

def withCapacity (expectedItems bitsPerItem : ℕ) : BloomFilter :=
  let bitCount := nextPowerOfTwo (saturatingMulUsize (max expectedItems 1) (max bitsPerItem 4))
  { bits := List.replicate (divCeil bitCount 64) 0#64
    hashFunctions := 4
    bits_pos := by
      rw [List.length_replicate]
      exact divCeil_nextPowerOfTwo_pos _ }

variable (blake3 : Bytes → ContentHash)

/-- The bits of a value: multiples of the second half of its digest, from the first half on. -/
def positions (self : BloomFilter) (value : Bytes) : List ℕ :=
  let bytes := (blake3 value).toList
  let h1 := (ofLeBytes (bytes.take 8)).toUInt64
  let h2 := (ofLeBytes ((bytes.drop 8).take 8)).toUInt64 ||| 1
  let bitCount := self.bits.length * 64
  (List.range self.hashFunctions.toNat).map fun index =>
    (h1 + index.toUInt64 * h2).toNat % bitCount

/-- `bits[bit / 64] |= 1 << (bit % 64)`. -/
def setBit (bits : List (BitVec 64)) (bit : ℕ) : List (BitVec 64) :=
  bits.modify (bit / 64) (· ||| 1#64 <<< (bit % 64))

/-- `bits[bit / 64] & (1 << (bit % 64)) != 0`. -/
def testBit (bits : List (BitVec 64)) (bit : ℕ) : Bool :=
  (bits.getD (bit / 64) 0#64 &&& 1#64 <<< (bit % 64)) ≠ 0#64

theorem length_setBit (bits : List (BitVec 64)) (bit : ℕ) :
    (setBit bits bit).length = bits.length := List.length_modify ..

theorem length_foldl_setBit (bits : List (BitVec 64)) (positions : List ℕ) :
    (positions.foldl setBit bits).length = bits.length := by
  induction positions generalizing bits with
  | nil => rfl
  | cons bit rest ih => rw [List.foldl_cons, ih, length_setBit]

def insert (self : BloomFilter) (value : Bytes) : BloomFilter :=
  { self with
    bits := (self.positions blake3 value).foldl setBit self.bits
    bits_pos := by
      rw [length_foldl_setBit]
      exact self.bits_pos }

/-- `false` is definitive. -/
def mightContain (self : BloomFilter) (value : Bytes) : Bool :=
  (self.positions blake3 value).all (testBit self.bits)

/-! ## Bits -/

theorem testBit_iff {bits : List (BitVec 64)} {bit : ℕ} :
    testBit bits bit = true ↔ (bits.getD (bit / 64) 0#64).getLsbD (bit % 64) = true := by
  have hone : (1#64 <<< (bit % 64) : BitVec 64) = BitVec.twoPow 64 (bit % 64) :=
    (BitVec.twoPow_eq 64 (bit % 64)).symm
  have hpow : BitVec.twoPow 64 (bit % 64) ≠ 0#64 := by
    intro h
    have hbit := congrArg (fun word => BitVec.getLsbD word (bit % 64)) h
    simp [Nat.mod_lt] at hbit
  rw [testBit, decide_eq_true_eq, hone, BitVec.and_twoPow]
  split
  case isTrue hset => exact iff_of_true hpow hset
  case isFalse hclear => exact iff_of_false (not_not_intro rfl) hclear

theorem getD_setBit (bits : List (BitVec 64)) (bit word : ℕ) (h : word < bits.length) :
    (setBit bits bit).getD word 0#64 =
      if bit / 64 = word then bits.getD word 0#64 ||| 1#64 <<< (bit % 64)
      else bits.getD word 0#64 := by
  rw [setBit, List.getD_eq_getElem?_getD, List.getElem?_modify, List.getD_eq_getElem?_getD,
    List.getElem?_eq_getElem h]
  split <;> rfl

/-- Setting a bit clears no other one. -/
theorem testBit_setBit_of {bits : List (BitVec 64)} {bit other : ℕ}
    (h : testBit bits other = true) : testBit (setBit bits bit) other = true := by
  rw [testBit_iff] at h ⊢
  have hword : other / 64 < bits.length := by
    by_contra hout
    rw [List.getD_eq_default _ _ (by omega)] at h
    simp at h
  rw [getD_setBit _ _ _ hword]
  split
  · rw [BitVec.getLsbD_or, h, Bool.true_or]
  · exact h

theorem testBit_setBit_self {bits : List (BitVec 64)} {bit : ℕ} (h : bit < bits.length * 64) :
    testBit (setBit bits bit) bit = true := by
  have hword : bit / 64 < bits.length := Nat.div_lt_of_lt_mul (by omega)
  rw [testBit_iff, getD_setBit _ _ _ hword, if_pos rfl, BitVec.getLsbD_or, ← BitVec.twoPow_eq,
    BitVec.getLsbD_twoPow]
  simp [Nat.mod_lt]

theorem testBit_foldl_setBit_of {bits : List (BitVec 64)} {positions : List ℕ} {other : ℕ}
    (h : testBit bits other = true) : testBit (positions.foldl setBit bits) other = true := by
  induction positions generalizing bits with
  | nil => exact h
  | cons bit rest ih => exact ih (testBit_setBit_of h)

theorem testBit_foldl_setBit {bits : List (BitVec 64)} {positions : List ℕ}
    (hrange : ∀ bit ∈ positions, bit < bits.length * 64) {bit : ℕ} (h : bit ∈ positions) :
    testBit (positions.foldl setBit bits) bit = true := by
  induction positions generalizing bits with
  | nil => exact absurd h List.not_mem_nil
  | cons first rest ih =>
    rw [List.foldl_cons]
    rcases List.mem_cons.mp h with rfl | hrest
    · exact testBit_foldl_setBit_of (testBit_setBit_self (hrange _ List.mem_cons_self))
    · refine ih (fun b hb => ?_) hrest
      rw [length_setBit]
      exact hrange b (List.mem_cons_of_mem _ hb)

/-! ## Values -/

theorem length_bits_insert (filter : BloomFilter) (value : Bytes) :
    (filter.insert blake3 value).bits.length = filter.bits.length := length_foldl_setBit ..

theorem positions_insert (filter : BloomFilter) (value other : Bytes) :
    (filter.insert blake3 value).positions blake3 other = filter.positions blake3 other := by
  simp only [positions, length_bits_insert]
  rfl

theorem positions_lt {filter : BloomFilter} {value : Bytes} {bit : ℕ}
    (h : bit ∈ filter.positions blake3 value) : bit < filter.bits.length * 64 := by
  obtain ⟨index, -, rfl⟩ := List.mem_map.mp h
  exact Nat.mod_lt _ (Nat.mul_pos filter.bits_pos (by decide))

theorem mightContain_insert_of {filter : BloomFilter} {value other : Bytes}
    (h : filter.mightContain blake3 other = true) :
    (filter.insert blake3 value).mightContain blake3 other = true := by
  rw [mightContain, List.all_eq_true] at h ⊢
  intro bit hbit
  rw [positions_insert] at hbit
  exact testBit_foldl_setBit_of (h bit hbit)

theorem mightContain_insert_self (filter : BloomFilter) (value : Bytes) :
    (filter.insert blake3 value).mightContain blake3 value = true := by
  rw [mightContain, List.all_eq_true]
  intro bit hbit
  rw [positions_insert] at hbit
  exact testBit_foldl_setBit (fun b hb => positions_lt blake3 hb) hbit

theorem mightContain_foldl_insert_of {filter : BloomFilter} {values : List Bytes} {other : Bytes}
    (h : filter.mightContain blake3 other = true) :
    (values.foldl (insert blake3) filter).mightContain blake3 other = true := by
  induction values generalizing filter with
  | nil => exact h
  | cons value rest ih => exact ih (mightContain_insert_of blake3 h)

/-- A filter filled with values reports all of them. -/
theorem mightContain_foldl_insert {filter : BloomFilter} {values : List Bytes} {value : Bytes}
    (h : value ∈ values) :
    (values.foldl (insert blake3) filter).mightContain blake3 value = true := by
  induction values generalizing filter with
  | nil => exact absurd h List.not_mem_nil
  | cons first rest ih =>
    rw [List.foldl_cons]
    rcases List.mem_cons.mp h with rfl | hrest
    · exact mightContain_foldl_insert_of blake3 (mightContain_insert_self blake3 _ _)
    · exact ih hrest

end BloomFilter

end Vbuff.Core
