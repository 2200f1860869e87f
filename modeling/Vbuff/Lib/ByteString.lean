import Mathlib

/-!
# Byte strings and fixed-width integers

A byte string is a list of `UInt8`.  `leBytes w n` and `beBytes w n` are the
`w`-byte little- and big-endian encodings of a natural number, higher bits
dropped; `ofLeBytes` reads a little-endian string back.  Everything a format
needs from them is here: the widths, the round trips in both directions, and
injectivity below the width.
-/

namespace ByteString

/-- A byte string. -/
abbrev Bytes := List UInt8

/-- The `w` low bytes of `n`, least significant first. -/
def leBytes : ℕ → ℕ → Bytes
  | 0, _ => []
  | w + 1, n => UInt8.ofNat n :: leBytes w (n / 256)

/-- The `w` low bytes of `n`, most significant first. -/
def beBytes (w n : ℕ) : Bytes := (leBytes w n).reverse

/-- The number a little-endian byte string denotes. -/
def ofLeBytes : Bytes → ℕ
  | [] => 0
  | b :: bs => b.toNat + 256 * ofLeBytes bs

@[simp] theorem length_leBytes (w n : ℕ) : (leBytes w n).length = w := by
  induction w generalizing n with
  | zero => rfl
  | succ w ih => simp [leBytes, ih]

@[simp] theorem length_beBytes (w n : ℕ) : (beBytes w n).length = w := by
  simp [beBytes]

/-- Reading an encoding back gives the number, up to the bits the width drops. -/
theorem ofLeBytes_leBytes (w n : ℕ) : ofLeBytes (leBytes w n) = n % 256 ^ w := by
  induction w generalizing n with
  | zero => simp [leBytes, ofLeBytes, Nat.mod_one]
  | succ w ih =>
      have hbyte : (UInt8.ofNat n).toNat = n % 256 := by simp
      rw [leBytes, ofLeBytes, ih, hbyte, pow_succ, Nat.mul_comm (256 ^ w) 256, Nat.mod_mul]

theorem ofLeBytes_leBytes_of_lt {w n : ℕ} (h : n < 256 ^ w) :
    ofLeBytes (leBytes w n) = n := by
  rw [ofLeBytes_leBytes, Nat.mod_eq_of_lt h]

/-- A byte string is the encoding of the number it denotes. -/
theorem leBytes_ofLeBytes (bs : Bytes) : leBytes bs.length (ofLeBytes bs) = bs := by
  induction bs with
  | nil => rfl
  | cons b bs ih =>
      have hb : b.toNat < 256 := b.toNat_lt
      have hlow : UInt8.ofNat (b.toNat + 256 * ofLeBytes bs) = b := by
        apply UInt8.toNat_inj.mp
        simp only [UInt8.toNat_ofNat']
        omega
      have hhigh : (b.toNat + 256 * ofLeBytes bs) / 256 = ofLeBytes bs := by omega
      rw [List.length_cons, ofLeBytes, leBytes, hlow, hhigh, ih]

theorem ofLeBytes_lt (bs : Bytes) : ofLeBytes bs < 256 ^ bs.length := by
  induction bs with
  | nil => simp [ofLeBytes]
  | cons b bs ih =>
      have hb : b.toNat < 256 := b.toNat_lt
      rw [ofLeBytes, List.length_cons, pow_succ]
      omega

theorem ofLeBytes_append (xs ys : Bytes) :
    ofLeBytes (xs ++ ys) = ofLeBytes xs + 256 ^ xs.length * ofLeBytes ys := by
  induction xs with
  | nil => simp [ofLeBytes]
  | cons x xs ih =>
      rw [List.cons_append, ofLeBytes, ih, ofLeBytes, List.length_cons, pow_succ]
      ring

/-- A string in front of an encoding is the low part of a wider encoding. -/
theorem append_leBytes (bs : Bytes) {w n : ℕ} (h : n < 256 ^ w) :
    bs ++ leBytes w n = leBytes (bs.length + w) (ofLeBytes bs + 256 ^ bs.length * n) := by
  have hread : ofLeBytes (bs ++ leBytes w n) = ofLeBytes bs + 256 ^ bs.length * n := by
    rw [ofLeBytes_append, ofLeBytes_leBytes_of_lt h]
  have hwidth : (bs ++ leBytes w n).length = bs.length + w := by
    rw [List.length_append, length_leBytes]
  rw [← hread, ← hwidth, leBytes_ofLeBytes]

theorem leBytes_zero (w : ℕ) : leBytes w 0 = List.replicate w 0 := by
  induction w with
  | zero => rfl
  | succ w ih => rw [leBytes, ih]; rfl

/-- A number that needs fewer bytes is padded with zeros. -/
theorem leBytes_add {w n : ℕ} (h : n < 256 ^ w) (k : ℕ) :
    leBytes (w + k) n = leBytes w n ++ List.replicate k 0 := by
  have hpad := append_leBytes (leBytes w n) (w := k) (Nat.pow_pos (n := k) (by decide : 0 < 256))
  rw [length_leBytes, ofLeBytes_leBytes_of_lt h, Nat.mul_zero, Nat.add_zero] at hpad
  rw [← hpad, leBytes_zero]

/-- Below the width the little-endian encoding is injective. -/
theorem leBytes_inj {w m n : ℕ} (hm : m < 256 ^ w) (hn : n < 256 ^ w)
    (h : leBytes w m = leBytes w n) : m = n := by
  rw [← ofLeBytes_leBytes_of_lt hm, ← ofLeBytes_leBytes_of_lt hn, h]

/-- Below the width the big-endian encoding is injective. -/
theorem beBytes_inj {w m n : ℕ} (hm : m < 256 ^ w) (hn : n < 256 ^ w)
    (h : beBytes w m = beBytes w n) : m = n :=
  leBytes_inj hm hn (List.reverse_injective h)

/-! ## Reading big-endian fields out of a slice -/

/-- The number a big-endian byte string denotes. -/
def ofBeBytes (bs : Bytes) : ℕ := ofLeBytes bs.reverse

theorem ofBeBytes_beBytes_of_lt {w n : ℕ} (h : n < 256 ^ w) : ofBeBytes (beBytes w n) = n := by
  rw [ofBeBytes, beBytes, List.reverse_reverse, ofLeBytes_leBytes_of_lt h]

theorem beBytes_ofBeBytes (bs : Bytes) : beBytes bs.length (ofBeBytes bs) = bs := by
  rw [ofBeBytes, beBytes, ← List.length_reverse, leBytes_ofLeBytes, List.reverse_reverse]

theorem ofBeBytes_lt (bs : Bytes) : ofBeBytes bs < 256 ^ bs.length := by
  rw [ofBeBytes, ← List.length_reverse]
  exact ofLeBytes_lt _

/-- `to_be_bytes`, as an array. -/
def beArray (w n : ℕ) : Vector UInt8 w := ⟨(beBytes w n).toArray, by simp⟩

@[simp] theorem toList_beArray (w n : ℕ) : (beArray w n).toList = beBytes w n := rfl

theorem beArray_ofBeBytes {w : ℕ} (v : Vector UInt8 w) : beArray w (ofBeBytes v.toList) = v := by
  apply Vector.toList_inj.mp
  have hread := beBytes_ofBeBytes v.toList
  rwa [Vector.length_toList] at hread

/-- `slice::get(start..stop)`. -/
def getRange (bytes : Bytes) (start stop : ℕ) : Option Bytes :=
  if start ≤ stop ∧ stop ≤ bytes.length then some ((bytes.take stop).drop start) else none

/-- `&bytes[start..]`; `none` is the panic. -/
def sliceFrom (bytes : Bytes) (start : ℕ) : Option Bytes :=
  if start ≤ bytes.length then some (bytes.drop start) else none

/-- `<[u8; N]>::try_from`. -/
def arrayOf (n : ℕ) (bytes : Bytes) : Option (Vector UInt8 n) :=
  if h : bytes.length = n then some ⟨bytes.toArray, h⟩ else none

/-- Digests of 32 bytes are ordered byte by byte. -/
instance transOrdDigest : Std.TransOrd (Vector UInt8 32) := inferInstance

/-- A range that is there is the front of what follows its start. -/
theorem getRange_of_drop {bytes field rest : Bytes} {start : ℕ} (hstart : start ≤ bytes.length)
    (hdrop : bytes.drop start = field ++ rest) :
    getRange bytes start (start + field.length) = some field := by
  have hlen := congrArg List.length hdrop
  rw [List.length_drop, List.length_append] at hlen
  rw [getRange, if_pos ⟨Nat.le_add_right _ _, by omega⟩, List.drop_take, Nat.add_sub_cancel_left,
    hdrop, List.take_left]

theorem arrayOf_toList {n : ℕ} (v : Vector UInt8 n) : arrayOf n v.toList = some v := by
  rw [arrayOf, dif_pos (Vector.length_toList)]
  congr 1

/-- A string that is long enough starts with an array. -/
theorem exists_array_append {n : ℕ} {bytes : Bytes} (h : n ≤ bytes.length) :
    ∃ (v : Vector UInt8 n) (rest : Bytes), bytes = v.toList ++ rest := by
  refine ⟨⟨(bytes.take n).toArray, ?_⟩, bytes.drop n, ?_⟩
  · simp [h]
  · exact (List.take_append_drop n bytes).symm

/-! ## Strings -/

/-- The UTF-8 bytes of a string. -/
def asBytes (s : String) : Bytes := s.toUTF8.data.toList

theorem asBytes_injective : Function.Injective asBytes := by
  intro s t h
  apply String.toByteArray_inj.mp
  exact ByteArray.ext (Array.toList_inj.mp h)

end ByteString

/-! ## Lowercase hexadecimal

Two digits a byte, the high one first.  The text of a byte string determines it.
-/

namespace Hex

open ByteString

/-- The digit of a number below sixteen. -/
def hexDigit (n : ℕ) : Char := "0123456789abcdef".toList.getD n '0'

/-- The two digits of a byte. -/
def hexByte (byte : UInt8) : List Char := [hexDigit (byte.toNat / 16), hexDigit (byte.toNat % 16)]

/-- The text of a byte string. -/
def toHex (bytes : Bytes) : String := String.ofList (bytes.flatMap hexByte)

theorem hexDigit_inj : ∀ m < 16, ∀ n < 16, hexDigit m = hexDigit n → m = n := by decide

theorem hexByte_injective : Function.Injective hexByte := by
  intro a b h
  simp only [hexByte, List.cons.injEq, and_true] at h
  have ha := a.toNat_lt
  have hb := b.toNat_lt
  have hhigh := hexDigit_inj _ (by omega) _ (by omega) h.1
  have hlow := hexDigit_inj _ (by omega) _ (by omega) h.2
  apply UInt8.toNat_inj.mp
  omega

theorem flatMap_hexByte_injective :
    Function.Injective fun bytes : Bytes => bytes.flatMap hexByte := by
  intro xs ys h
  induction xs generalizing ys with
  | nil => cases ys with
    | nil => rfl
    | cons y ys => cases h
  | cons x xs ih => cases ys with
    | nil => cases h
    | cons y ys =>
        obtain ⟨hhead, htail⟩ := List.append_inj h rfl
        rw [hexByte_injective hhead, ih htail]

theorem toHex_injective : Function.Injective toHex := fun _ _ h =>
  flatMap_hexByte_injective (String.ofList_injective h)

/-- There are two digits a byte. -/
theorem length_toHex (bytes : Bytes) : (toHex bytes).toList.length = 2 * bytes.length := by
  rw [toHex, String.toList_ofList]
  induction bytes with
  | nil => rfl
  | cons byte bytes ih =>
      rw [List.flatMap_cons, List.length_append, ih, List.length_cons]
      show 2 + _ = _
      omega

end Hex
