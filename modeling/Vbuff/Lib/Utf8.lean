import Vbuff.Lib.ByteString
import Vbuff.Lib.Text

/-!
# Texts in bytes

`decode` is `std::str::from_utf8`: it is there for the bytes of a text and for no others
(`decode_eq_some`).  A line feed is a byte of its own and part of no other character, so the lines
of the bytes are the bytes of the lines (`splitOnP_encode`).

`fromUtf8Lossy` is `String::from_utf8_lossy`, which puts one U+FFFD for each broken character.
-/

namespace Utf8

open ByteString Text

/-- The UTF-8 bytes of a text. -/
def encode (t : Chars) : Bytes := t.flatMap String.utf8EncodeChar

/-- `std::str::from_utf8`. -/
def decode (bytes : Bytes) : Option Chars :=
  (String.fromUTF8? ⟨bytes.toArray⟩).map String.toList

@[simp] theorem encode_nil : encode [] = [] := rfl

theorem encode_cons (c : Char) (t : Chars) :
    encode (c :: t) = String.utf8EncodeChar c ++ encode t := rfl

theorem encode_append (s t : Chars) : encode (s ++ t) = encode s ++ encode t := List.flatMap_append

theorem length_encode (t : Chars) : (encode t).length = utf8Len t := by
  rw [encode, List.length_flatMap, utf8Len]
  simp only [String.length_utf8EncodeChar]

theorem toByteArray_eq_iff {s : String} {bytes : Bytes} :
    s.toByteArray = ⟨bytes.toArray⟩ ↔ encode s.toList = bytes := by
  have hdata : s.toByteArray.data = (encode s.toList).toArray := by
    rw [← String.utf8Encode_toList, List.utf8Encode, List.data_toByteArray]
    rfl
  rw [ByteArray.ext_iff, hdata]
  exact ⟨fun h => List.toArray_inj h, fun h => congrArg List.toArray h⟩

/-- Bytes are decoded exactly if they are those of a text. -/
theorem decode_eq_some {bytes : Bytes} {t : Chars} : decode bytes = some t ↔ encode t = bytes := by
  rw [decode, Option.map_eq_some_iff]
  constructor
  · rintro ⟨s, hs, rfl⟩
    unfold String.fromUTF8? at hs
    split at hs
    case isTrue hvalid =>
      obtain rfl := Option.some.inj hs
      exact toByteArray_eq_iff.mp rfl
    case isFalse => cases hs
  · intro h
    refine ⟨String.ofList t, ?_, String.toList_ofList⟩
    have hbytes : (String.ofList t).toByteArray = ⟨bytes.toArray⟩ :=
      toByteArray_eq_iff.mpr (by rw [String.toList_ofList, h])
    unfold String.fromUTF8?
    rw [dif_pos (hbytes ▸ (String.ofList t).isValidUTF8)]
    exact congrArg some (String.toByteArray_inj.mp hbytes.symm)

theorem decode_encode (t : Chars) : decode (encode t) = some t := decode_eq_some.mpr rfl

theorem encode_injective : Function.Injective encode := by
  intro s t h
  have hdecode := decode_encode s
  rw [h, decode_encode] at hdecode
  exact (Option.some.inj hdecode).symm

/-- The bytes of a text as a string. -/
theorem asBytes_ofList (t : Chars) : asBytes (String.ofList t) = encode t := by
  have hbytes : (String.ofList t).toByteArray = ⟨(encode t).toArray⟩ :=
    toByteArray_eq_iff.mpr (by rw [String.toList_ofList])
  exact congrArg (fun bytes : ByteArray => bytes.data.toList) hbytes

theorem length_asBytes_ofList (t : Chars) : (asBytes (String.ofList t)).length = utf8Len t := by
  rw [asBytes_ofList, length_encode]

/-! ## Broken bytes -/

def isContinuation (byte : UInt8) : Bool := byte &&& 0xC0 == 0x80

/-- The second bytes a character of three or four bytes may have, by its first one. -/
def fitsSecond (first second : UInt8) : Bool :=
  if first == 0xE0 then 0xA0 ≤ second && second ≤ 0xBF
  else if first == 0xED then 0x80 ≤ second && second ≤ 0x9F
  else if first == 0xF0 then 0x90 ≤ second && second ≤ 0xBF
  else if first == 0xF4 then 0x80 ≤ second && second ≤ 0x8F
  else isContinuation second

/-- How many of the bytes behind the first one belong with it. -/
def continuationLen (first : UInt8) (rest : Bytes) : ℕ :=
  if 0xC2 ≤ first && first ≤ 0xDF then ((rest.take 1).takeWhile isContinuation).length
  else if 0xE0 ≤ first && first ≤ 0xEF then
    match rest with
    | second :: rest =>
        if fitsSecond first second then 1 + ((rest.take 1).takeWhile isContinuation).length else 0
    | [] => 0
  else if 0xF0 ≤ first && first ≤ 0xF4 then
    match rest with
    | second :: rest =>
        if fitsSecond first second then 1 + ((rest.take 2).takeWhile isContinuation).length else 0
    | [] => 0
  else 0

/-- `String::from_utf8_lossy`: bytes that begin a character and do not end it are one U+FFFD. -/
def fromUtf8Lossy : Bytes → Chars
  | [] => []
  | first :: rest =>
      let len := continuationLen first rest
      ((decode (first :: rest.take len)).getD ['\uFFFD']) ++ fromUtf8Lossy (rest.drop len)
  termination_by bytes => bytes.length
  decreasing_by
    rw [List.length_drop, List.length_cons]
    omega

/-! ## Lines -/

/-- An ASCII byte is in the bytes of no other character. -/
theorem of_mem_utf8EncodeChar {c : Char} {b : UInt8} (hb : b.toNat < 128)
    (h : b ∈ String.utf8EncodeChar c) : c.val.toNat = b.toNat := by
  have hbyte : ∀ n : ℕ, b = UInt8.ofNat n → n % 256 = b.toNat := by
    intro n hn
    rw [hn, UInt8.toNat_ofNat']
  unfold String.utf8EncodeChar at h
  dsimp only at h
  split at h
  case isTrue =>
    have := hbyte _ (List.mem_singleton.mp h)
    omega
  case isFalse =>
    split at h
    case isTrue =>
      simp only [List.mem_cons, List.not_mem_nil, or_false] at h
      rcases h with h | h <;>
      · have := hbyte _ h
        omega
    case isFalse =>
      split at h
      all_goals
        simp only [List.mem_cons, List.not_mem_nil, or_false] at h
      · rcases h with h | h | h <;>
        · have := hbyte _ h
          omega
      · rcases h with h | h | h | h <;>
        · have := hbyte _ h
          omega

theorem lf_mem_utf8EncodeChar {c : Char} (h : (0x0A : UInt8) ∈ String.utf8EncodeChar c) :
    c = '\n' := Char.ext (UInt32.toNat_inj.mp (of_mem_utf8EncodeChar (by decide) h))

theorem exists_of_mem_encode {t : Chars} {b : UInt8} (hb : b.toNat < 128) (h : b ∈ encode t) :
    ∃ c ∈ t, c.val.toNat = b.toNat := by
  obtain ⟨c, hc, hmem⟩ := List.mem_flatMap.mp h
  exact ⟨c, hc, of_mem_utf8EncodeChar hb hmem⟩

/-- What no separator is in goes in front of the first piece. -/
theorem splitOnP_append_of_forall {α : Type*} {p : α → Bool} {xs : List α}
    (h : ∀ x ∈ xs, p x = false) (ys : List α) :
    (xs ++ ys).splitOnP p = (ys.splitOnP p).modifyHead (xs ++ ·) := by
  induction xs with
  | nil =>
      rw [List.nil_append]
      cases ys.splitOnP p <;> rfl
  | cons x xs ih =>
      rw [List.cons_append, List.splitOnP_cons_eq_if_modifyHead, h x List.mem_cons_self,
        if_neg Bool.false_ne_true, ih fun y hy => h y (List.mem_cons_of_mem _ hy),
        List.modifyHead_modifyHead]
      rfl

/-- The lines of the bytes of a text are the bytes of its lines. -/
theorem splitOnP_encode (t : Chars) :
    (encode t).splitOnP (· == 0x0A) = (t.splitOnP (· == '\n')).map encode := by
  induction t with
  | nil => rfl
  | cons c t ih =>
      rw [encode_cons]
      by_cases hc : c = '\n'
      · subst hc
        have hbytes : String.utf8EncodeChar '\n' = [0x0A] := by decide
        rw [hbytes, List.singleton_append, List.splitOnP_cons_eq_if_modifyHead,
          if_pos (beq_self_eq_true _), List.splitOnP_cons_eq_if_modifyHead,
          if_pos (beq_self_eq_true _), ih, List.map_cons, encode_nil]
      · have hplain : ∀ b ∈ String.utf8EncodeChar c, (b == 0x0A) = false := by
          intro b hb
          rw [beq_eq_false_iff_ne]
          rintro rfl
          exact hc (lf_mem_utf8EncodeChar hb)
        rw [splitOnP_append_of_forall hplain, ih, List.splitOnP_cons_eq_if_modifyHead,
          if_neg (by simpa using hc)]
        cases t.splitOnP (· == '\n') <;> rfl

end Utf8
