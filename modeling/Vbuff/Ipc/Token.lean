import Vbuff.Lib.Base64
import Vbuff.Lib.Result
import Vbuff.Lib.Text
import Vbuff.Types.Mac

/-!
# Signed tokens

`v1.`, the claims in base64 and their MAC in base64.  The dots are outside the alphabet, so that a
token is taken apart in one way.
-/

namespace Vbuff.Ipc

open ByteString Result Text Vbuff.Types

abbrev Bytes32 := Vector UInt8 32

/-- `MacDomain::legacy_ascii_separated` at a dot. -/
def dotSeparated (label : String) : MacDomain := { label, separator := .Ascii 0x2E }

/-- How the claims of a kind of token are written, read and authenticated. -/
structure TokenCodec (Claims : Type) where
  hmac : Hmac
  /-- `serde_json::to_vec`. -/
  toVec : Claims → Except String Bytes
  /-- `serde_json::from_slice`. -/
  fromSlice : Bytes → Except String Claims

namespace TokenCodec

variable {Claims : Type} (codec : TokenCodec Claims) (domain : MacDomain)

/-- What is written is read back. -/
def ReadsBack : Prop :=
  ∀ claims json, codec.toVec claims = .ok json → codec.fromSlice json = .ok claims

/-- `token_proof`. -/
def tokenProof (key : Bytes32) (payload : Chars) : Bytes32 :=
  hmacProof codec.hmac domain key.toList [asBytes (String.ofList payload)]

/-- `v1.{payload}.{signature}`. -/
def format (payload signature : Chars) : Chars :=
  ['v', '1'] ++ '.' :: (payload ++ '.' :: signature)

/-- `encode`, where the claims can be written. -/
def token (key : Bytes32) (json : Bytes) : Chars :=
  format (Base64.encode json)
    (Base64.encode (codec.tokenProof domain key (Base64.encode json)).toList)

/-- The payload and the signature of three parts of which the first is `v1`. -/
def splitToken (token : Chars) : Option (Chars × Chars) :=
  match split (· == '.') token with
  | [version, payload, signature] =>
      if version = ['v', '1'] then some (payload, signature) else none
  | _ => none

end TokenCodec

namespace TokenCodec

variable {Claims : Type} {codec : TokenCodec Claims} {domain : MacDomain}

theorem dot_notMem_encode (bytes : Bytes) : '.' ∉ Base64.encode bytes := by
  intro h
  have hdot : '.' ∉ Base64.alphabet := by decide
  exact hdot (Base64.mem_alphabet_of_mem_encode h)

/-- A token is taken apart where it was put together. -/
theorem splitToken_eq_some {token payload signature : Chars}
    (h : splitToken token = some (payload, signature)) :
    token = format payload signature := by
  rw [splitToken] at h
  split at h
  · rename_i version payload' signature' hsplit
    split at h
    · rename_i hversion
      obtain ⟨rfl, rfl⟩ := Prod.mk.inj (Option.some.inj h)
      have hjoin : ['.'].intercalate (token.splitOn '.') = token := List.intercalate_splitOn '.'
      rw [show token.splitOn '.' = _ from hsplit, hversion] at hjoin
      rw [← hjoin]
      simp [List.intercalate, format]
    · cases h
  · cases h

theorem splitToken_format {payload signature : Chars} (hpayload : '.' ∉ payload)
    (hsignature : '.' ∉ signature) :
    splitToken (format payload signature) = some (payload, signature) := by
  have hnone : ∀ {part : Chars}, '.' ∉ part → ∀ c ∈ part, (c == '.') = false := by
    intro part hpart c hc
    refine beq_false_of_ne ?_
    rintro rfl
    exact hpart hc
  have hparts : split (· == '.') (format payload signature) = [['v', '1'], payload, signature] := by
    have hversion : ∀ c ∈ ['v', '1'], (c == '.') = false := hnone (by simp)
    rw [split, format, List.splitOnP_append_cons_of_forall_mem hversion '.' rfl,
      List.splitOnP_append_cons_of_forall_mem (hnone hpayload) '.' rfl,
      List.splitOnP_eq_singleton (hnone hsignature)]
  rw [splitToken, hparts]
  rfl

theorem splitToken_token (key : Bytes32) (json : Bytes) :
    splitToken (codec.token domain key json) = some (Base64.encode json,
      Base64.encode (codec.tokenProof domain key (Base64.encode json)).toList) :=
  splitToken_format (dot_notMem_encode _) (dot_notMem_encode _)

/-- A token is made from one payload. -/
theorem token_inj {key : Bytes32} {json json' : Bytes}
    (h : codec.token domain key json = codec.token domain key json') : json = json' := by
  have hparts : splitToken (codec.token domain key json) = some (Base64.encode json, _) :=
    splitToken_token key json
  rw [h, splitToken_token] at hparts
  have hpayload := (Prod.mk.inj (Option.some.inj hparts)).1
  have hdecoded := Base64.decode_encode json
  rw [← hpayload, Base64.decode_encode] at hdecoded
  exact (Option.some.inj hdecoded).symm

theorem utf8Len_encode (bytes : Bytes) :
    utf8Len (Base64.encode bytes) = (4 * bytes.length + 2) / 3 := by
  have hone : (Base64.encode bytes).map Char.utf8Size =
      List.replicate (Base64.encode bytes).length 1 := by
    rw [List.eq_replicate_iff, List.length_map]
    refine ⟨rfl, fun n hn => ?_⟩
    obtain ⟨c, hc, rfl⟩ := List.mem_map.mp hn
    exact Base64.utf8Size_of_mem_alphabet (Base64.mem_alphabet_of_mem_encode hc)
  rw [utf8Len, hone, List.sum_replicate, smul_eq_mul, mul_one, Base64.length_encode]

/-- The bytes of a token: 47 and those of its payload. -/
theorem utf8Len_token (key : Bytes32) (json : Bytes) :
    utf8Len (codec.token domain key json) = 47 + (4 * json.length + 2) / 3 := by
  have hversion : utf8Len ['v', '1'] = 2 := by decide
  have hdot : ∀ part : Chars, utf8Len ('.' :: part) = 1 + utf8Len part := fun part => by
    rw [utf8Len, List.map_cons, List.sum_cons]
    rfl
  rw [token, format, utf8Len_append, hdot, utf8Len_append, hdot, utf8Len_encode, utf8Len_encode,
    Vector.length_toList, hversion]
  omega

end TokenCodec

end Vbuff.Ipc
