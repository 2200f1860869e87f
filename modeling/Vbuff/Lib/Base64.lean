import Vbuff.Lib.ByteString

/-!
# Base64 for URLs, without padding

Three bytes are four digits; one or two left over are two or three, whose unused bits are zero.
`decode` takes what `encode` gives and nothing else: a digit outside the alphabet, a length that no
string has and unused bits that are set are refused.
-/

namespace Base64

open ByteString

def alphabet : List Char :=
  "ABCDEFGHIJKLMNOPQRSTUVWXYZabcdefghijklmnopqrstuvwxyz0123456789-_".toList

/-- The digit of a number below 64. -/
def digit (n : ℕ) : Char := alphabet.getD n 'A'

/-- The number of a digit. -/
def value (c : Char) : ℕ := alphabet.idxOf c

def encode : Bytes → List Char
  | a :: b :: c :: rest =>
      digit (a.toNat / 4) :: digit (a.toNat % 4 * 16 + b.toNat / 16) ::
        digit (b.toNat % 16 * 4 + c.toNat / 64) :: digit (c.toNat % 64) :: encode rest
  | [a, b] => [digit (a.toNat / 4), digit (a.toNat % 4 * 16 + b.toNat / 16),
      digit (b.toNat % 16 * 4)]
  | [a] => [digit (a.toNat / 4), digit (a.toNat % 4 * 16)]
  | [] => []

/-- The bytes digits stand for, whatever the unused bits. -/
def bytesOf : List Char → Bytes
  | w :: x :: y :: z :: rest =>
      UInt8.ofNat (value w * 4 + value x / 16) ::
        UInt8.ofNat (value x % 16 * 16 + value y / 4) ::
        UInt8.ofNat (value y % 4 * 64 + value z) :: bytesOf rest
  | [w, x, y] => [UInt8.ofNat (value w * 4 + value x / 16),
      UInt8.ofNat (value x % 16 * 16 + value y / 4)]
  | [w, x] => [UInt8.ofNat (value w * 4 + value x / 16)]
  | _ => []

def decode (text : List Char) : Option Bytes :=
  if encode (bytesOf text) = text then some (bytesOf text) else none

theorem length_alphabet : alphabet.length = 64 := by decide

theorem nodup_alphabet : alphabet.Nodup := by decide

theorem value_digit (n : ℕ) (h : n < 64) : value (digit n) = n := by
  have hlength : n < alphabet.length := by rwa [length_alphabet]
  rw [digit, List.getD_eq_getElem _ _ hlength, value, nodup_alphabet.idxOf_getElem]

theorem digit_mem (n : ℕ) (h : n < 64) : digit n ∈ alphabet := by
  have hlength : n < alphabet.length := by rwa [length_alphabet]
  rw [digit, List.getD_eq_getElem _ _ hlength]
  exact List.getElem_mem hlength

/-- A number is put together from its high and low parts. -/
theorem byte_eq (byte : UInt8) {n : ℕ} (h : n = byte.toNat) : UInt8.ofNat n = byte := by
  rw [h, UInt8.ofNat_toNat]

theorem bytesOf_encode (bytes : Bytes) : bytesOf (encode bytes) = bytes := by
  fun_induction encode bytes with
  | case1 a b c rest ih =>
      have ha := a.toNat_lt
      have hb := b.toNat_lt
      have hc := c.toNat_lt
      rw [bytesOf, ih, value_digit _ (by omega), value_digit _ (by omega), value_digit _ (by omega),
        value_digit _ (by omega)]
      rw [byte_eq a (by omega), byte_eq b (by omega),
        byte_eq c (by omega)]
  | case2 a b =>
      have ha := a.toNat_lt
      have hb := b.toNat_lt
      rw [bytesOf, value_digit _ (by omega), value_digit _ (by omega), value_digit _ (by omega)]
      rw [byte_eq a (by omega), byte_eq b (by omega)]
  | case3 a =>
      have ha := a.toNat_lt
      rw [bytesOf, value_digit _ (by omega), value_digit _ (by omega)]
      rw [byte_eq a (by omega)]
  | case4 => rfl

/-- What is encoded is decoded, and nothing else. -/
theorem decode_eq_some {text : List Char} {bytes : Bytes} :
    decode text = some bytes ↔ encode bytes = text := by
  rw [decode]
  constructor
  · intro h
    split at h
    · rw [← Option.some.inj h]
      assumption
    · cases h
  · rintro rfl
    rw [bytesOf_encode, if_pos rfl]

theorem decode_encode (bytes : Bytes) : decode (encode bytes) = some bytes :=
  decode_eq_some.mpr rfl

theorem encode_injective : Function.Injective encode :=
  Function.LeftInverse.injective bytesOf_encode

theorem length_encode (bytes : Bytes) : (encode bytes).length = (4 * bytes.length + 2) / 3 := by
  fun_induction encode bytes with
  | case1 a b c rest ih =>
      simp only [List.length_cons, ih]
      omega
  | case2 a b => simp only [List.length_cons, List.length_nil]
  | case3 a => simp only [List.length_cons, List.length_nil]
  | case4 => rfl

theorem mem_alphabet_of_mem_encode {bytes : Bytes} {c : Char} (h : c ∈ encode bytes) :
    c ∈ alphabet := by
  fun_induction encode bytes with
  | case1 a b c' rest ih =>
      have ha := a.toNat_lt
      have hb := b.toNat_lt
      have hc := c'.toNat_lt
      simp only [List.mem_cons] at h
      rcases h with rfl | rfl | rfl | rfl | h
      · exact digit_mem _ (by omega)
      · exact digit_mem _ (by omega)
      · exact digit_mem _ (by omega)
      · exact digit_mem _ (by omega)
      · exact ih h
  | case2 a b =>
      have ha := a.toNat_lt
      have hb := b.toNat_lt
      simp only [List.mem_cons, List.not_mem_nil, or_false] at h
      rcases h with rfl | rfl | rfl
      · exact digit_mem _ (by omega)
      · exact digit_mem _ (by omega)
      · exact digit_mem _ (by omega)
  | case3 a =>
      have ha := a.toNat_lt
      simp only [List.mem_cons, List.not_mem_nil, or_false] at h
      rcases h with rfl | rfl
      · exact digit_mem _ (by omega)
      · exact digit_mem _ (by omega)
  | case4 => exact absurd h List.not_mem_nil

/-- Digits take one byte each in UTF-8. -/
theorem utf8Size_of_mem_alphabet {c : Char} (h : c ∈ alphabet) : c.utf8Size = 1 := by
  have hascii : alphabet.all (fun c => decide (c.toNat ≤ 127)) = true := by decide
  have hle : c.val ≤ 0x7f := of_decide_eq_true (List.all_eq_true.mp hascii c h)
  rw [Char.utf8Size]
  exact if_pos hle

end Base64
