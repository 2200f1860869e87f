import Vbuff.Lib.ByteString
import Vbuff.Lib.MachineInt
import Vbuff.Sync.Clock

/-!
# Padding of transport payloads

A payload goes out behind its length, in a buffer whose size is the next power of two, the rest
filled with noise.  `unpad` reads the length and takes that many bytes.

What was padded comes back, and the size tells no more than the bucket (`unpad_of_pad`,
`pad_outcome`).  `unpad` asks that the size is a bucket and that the length fits in it, and not
that the bucket is the least one for the length; a string that it accepts is one that padding
can make exactly when it is (`exists_pad_iff`).
-/

namespace Vbuff.Sync

open ByteString MachineInt

namespace Wire

def HEADER_BYTES : ℕ := 8

def MIN_BUCKET_BYTES : ℕ := 64

def MAX_BUCKET_BYTES : ℕ := 64 * 1024 * 1024

def bucketSize (payloadLen : ℕ) : Except SyncError ℕ :=
  match checkedAddUsize payloadLen HEADER_BYTES with
  | none => .error (.Invalid "payload is too large")
  | some required =>
      match (checkedNextPowerOfTwo (max required MIN_BUCKET_BYTES)).filter
          (· ≤ MAX_BUCKET_BYTES) with
      | none => .error (.Invalid "payload exceeds transport limit")
      | some bucket => .ok bucket

/-- `getrandom::fill`: a buffer of random bytes, or none. -/
abbrev Fill := (n : ℕ) → Option (Vector UInt8 n)

def padToBucket (fill : Fill) (payload : Bytes) : Except SyncError Bytes :=
  match bucketSize payload.length with
  | .error e => .error e
  | .ok bucket =>
      -- the front of the buffer is written over, and the rest is left to the noise
      let front := leBytes HEADER_BYTES payload.length ++ payload
      if front.length < bucket then
        match (fill (bucket - front.length)).map Vector.toList with
        | none => .error .Crypto
        | some noise => .ok (front ++ noise)
      else .ok front

/-- `none` is a slice out of bounds. -/
def unpad (padded : Bytes) : Option (Except SyncError Bytes) :=
  if ¬ (MIN_BUCKET_BYTES ≤ padded.length ∧ padded.length ≤ MAX_BUCKET_BYTES)
      ∨ isPowerOfTwo padded.length = false then
    some (.error (.Invalid "invalid padded envelope size"))
  else
    (getRange padded 0 HEADER_BYTES).bind fun header =>
      match arrayOf 8 header with
      | none => some (.error (.Invalid "missing length prefix"))
      | some bytes =>
          match usizeOfU64 (ofLeBytes bytes.toList).toUInt64 with
          | none => some (.error (.Invalid "padded payload length exceeds this platform"))
          | some length =>
              match (checkedAddUsize HEADER_BYTES length).filter (· ≤ padded.length) with
              | none => some (.error (.Invalid "invalid padded payload length"))
              | some stop => (getRange padded HEADER_BYTES stop).map .ok

/-- The bucket of a length. -/
def bucket (payloadLen : ℕ) : ℕ := nextPowerOfTwo (max (payloadLen + HEADER_BYTES) MIN_BUCKET_BYTES)

/-- The length a padded string starts with. -/
def prefixOf (padded : Bytes) : ℕ := ofLeBytes (padded.take HEADER_BYTES)

/-- The size is that of a bucket, and the length it starts with fits. -/
def WellFormed (padded : Bytes) : Prop :=
  (MIN_BUCKET_BYTES ≤ padded.length ∧ padded.length ≤ MAX_BUCKET_BYTES) ∧
    isPowerOfTwo padded.length = true ∧ HEADER_BYTES + prefixOf padded ≤ padded.length

/-- A limit drops what a check lets through. -/
theorem filter_checked_eq_none {c : Prop} [Decidable c] {n limit : ℕ} (h : limit < n) :
    (if c then some n else none).filter (· ≤ limit) = none := by
  rw [Option.filter_eq_none_iff]
  intro m hm
  split at hm
  case isTrue =>
    rw [← Option.some.inj hm, decide_eq_true_iff]
    exact not_le.mpr h
  case isFalse => cases hm

/-! ## Buckets -/

theorem max_bucket_eq_pow : MAX_BUCKET_BYTES = 2 ^ 26 := rfl

theorem le_bucket (n : ℕ) : max (n + HEADER_BYTES) MIN_BUCKET_BYTES ≤ bucket n :=
  le_nextPowerOfTwo _

theorem bucket_le {n : ℕ} (h : n + HEADER_BYTES ≤ MAX_BUCKET_BYTES) :
    bucket n ≤ MAX_BUCKET_BYTES := by
  rw [max_bucket_eq_pow] at h ⊢
  exact nextPowerOfTwo_le (max_le h (by decide))

/-- The bucket is the least power of two, from the smallest bucket on, with room for the length. -/
theorem bucket_le_of_room {n size : ℕ} (hpower : isPowerOfTwo size = true)
    (hmin : MIN_BUCKET_BYTES ≤ size) (hroom : n + HEADER_BYTES ≤ size) : bucket n ≤ size := by
  obtain ⟨k, rfl⟩ := exists_pow_of_isPowerOfTwo hpower
  exact nextPowerOfTwo_le (max_le hroom hmin)

theorem bucketSize_of_le {n : ℕ} (h : n + HEADER_BYTES ≤ MAX_BUCKET_BYTES) :
    bucketSize n = .ok (bucket n) := by
  have hmax : MAX_BUCKET_BYTES ≤ usizeMax := by decide
  have hbucket := bucket_le h
  have hnext : checkedNextPowerOfTwo (max (n + HEADER_BYTES) MIN_BUCKET_BYTES) = some (bucket n) :=
    if_pos (hbucket.trans hmax)
  rw [bucketSize, checkedAddUsize, if_pos (h.trans hmax)]
  dsimp only
  rw [hnext, Option.filter_some, if_pos (decide_eq_true hbucket)]

theorem bucketSize_of_lt {n : ℕ} (h : MAX_BUCKET_BYTES < n + HEADER_BYTES) :
    ∃ reason, bucketSize n = .error (.Invalid reason) := by
  unfold bucketSize checkedAddUsize
  split
  case h_1 => exact ⟨_, rfl⟩
  case h_2 required hrequired =>
    have hsum : n + HEADER_BYTES = required := by
      split at hrequired
      case isTrue => exact Option.some.inj hrequired
      case isFalse => cases hrequired
    have hover : MAX_BUCKET_BYTES < nextPowerOfTwo (max required MIN_BUCKET_BYTES) :=
      (h.trans_eq hsum).trans_le ((le_max_left _ _).trans (le_nextPowerOfTwo _))
    rw [checkedNextPowerOfTwo, filter_checked_eq_none hover]
    exact ⟨_, rfl⟩

/-! ## Padding -/

/-- A payload with room in the largest bucket is padded, unless the noise fails. -/
theorem pad_outcome (fill : Fill) {payload : Bytes}
    (h : payload.length + HEADER_BYTES ≤ MAX_BUCKET_BYTES) :
    (padToBucket fill payload = .error .Crypto ∧ ∃ n, fill n = none) ∨
      ∃ noise : Bytes,
        padToBucket fill payload =
            .ok (leBytes HEADER_BYTES payload.length ++ payload ++ noise) ∧
          HEADER_BYTES + payload.length + noise.length = bucket payload.length := by
  have hroom := (le_max_left _ _).trans (le_bucket payload.length)
  have hfront : (leBytes HEADER_BYTES payload.length ++ payload).length =
      HEADER_BYTES + payload.length := by
    rw [List.length_append, length_leBytes]
  rw [padToBucket, bucketSize_of_le h]
  dsimp only
  rw [hfront]
  split
  case isTrue hshort =>
    cases hfill : fill (bucket payload.length - (HEADER_BYTES + payload.length)) with
    | none => exact Or.inl ⟨rfl, _, hfill⟩
    | some noise =>
        refine Or.inr ⟨noise.toList, rfl, ?_⟩
        rw [Vector.length_toList]
        omega
  case isFalse hfull =>
    refine Or.inr ⟨[], by rw [List.append_nil], ?_⟩
    rw [List.length_nil]
    omega

/-! ## Reading -/

theorem prefixOf_lt (padded : Bytes) : prefixOf padded < 2 ^ 64 := by
  have hlt := ofLeBytes_lt (padded.take HEADER_BYTES)
  have hlength : (padded.take HEADER_BYTES).length ≤ 8 := List.length_take_le _ _
  calc prefixOf padded < 256 ^ (padded.take HEADER_BYTES).length := hlt
    _ ≤ 256 ^ 8 := Nat.pow_le_pow_right (by decide) hlength
    _ = 2 ^ 64 := by norm_num

/-- What is read of a string of a bucket's size. -/
theorem unpad_of_size {padded : Bytes}
    (hsize : MIN_BUCKET_BYTES ≤ padded.length ∧ padded.length ≤ MAX_BUCKET_BYTES)
    (hpower : isPowerOfTwo padded.length = true) :
    unpad padded =
      if HEADER_BYTES + prefixOf padded ≤ padded.length then
        some (.ok ((padded.drop HEADER_BYTES).take (prefixOf padded)))
      else some (.error (.Invalid "invalid padded payload length")) := by
  have hheader : HEADER_BYTES ≤ padded.length := le_trans (by decide) hsize.1
  have hlength : (padded.take HEADER_BYTES).length = 8 := List.length_take_of_le hheader
  have hrange : getRange padded 0 HEADER_BYTES = some (padded.take HEADER_BYTES) :=
    if_pos ⟨Nat.zero_le _, hheader⟩
  have hlen := prefixOf_lt padded
  have hnat : (prefixOf padded).toUInt64.toNat = prefixOf padded := Nat.mod_eq_of_lt hlen
  have husize : usizeOfU64 (prefixOf padded).toUInt64 = some (prefixOf padded) := by
    rw [usizeOfU64, hnat]
    exact if_pos (Nat.le_sub_one_of_lt hlen)
  rw [unpad, if_neg (by rw [hpower]; simpa using hsize), hrange, Option.bind_some, arrayOf,
    dif_pos hlength]
  dsimp only
  rw [show ofLeBytes (Vector.toList ⟨(padded.take HEADER_BYTES).toArray, hlength⟩) =
    prefixOf padded from rfl, husize]
  dsimp only
  by_cases hfits : HEADER_BYTES + prefixOf padded ≤ padded.length
  · have hadd : checkedAddUsize HEADER_BYTES (prefixOf padded) =
        some (HEADER_BYTES + prefixOf padded) :=
      if_pos (hfits.trans (hsize.2.trans (by decide)))
    have htail : getRange padded HEADER_BYTES (HEADER_BYTES + prefixOf padded) =
        some ((padded.drop HEADER_BYTES).take (prefixOf padded)) := by
      rw [getRange, if_pos ⟨Nat.le_add_right _ _, hfits⟩, List.drop_take, Nat.add_sub_cancel_left]
    rw [if_pos hfits, hadd, Option.filter_some, if_pos (decide_eq_true hfits)]
    dsimp only
    rw [htail, Option.map_some]
  · rw [if_neg hfits, checkedAddUsize, filter_checked_eq_none (not_le.mp hfits)]

theorem unpad_of_wellFormed {padded : Bytes} (h : WellFormed padded) :
    unpad padded = some (.ok ((padded.drop HEADER_BYTES).take (prefixOf padded))) := by
  rw [unpad_of_size h.1 h.2.1, if_pos h.2.2]

theorem unpad_of_not_wellFormed {padded : Bytes} (h : ¬ WellFormed padded) :
    ∃ e, unpad padded = some (.error e) := by
  by_cases hsize : (MIN_BUCKET_BYTES ≤ padded.length ∧ padded.length ≤ MAX_BUCKET_BYTES) ∧
      isPowerOfTwo padded.length = true
  · rw [unpad_of_size hsize.1 hsize.2, if_neg fun hfits => h ⟨hsize.1, hsize.2, hfits⟩]
    exact ⟨_, rfl⟩
  · rw [not_and_or, Bool.not_eq_true] at hsize
    rw [unpad, if_pos hsize]
    exact ⟨_, rfl⟩

/-- Where the length says, and by as many bytes, the payload is found. -/
theorem wellFormed_pad {payload noise : Bytes}
    (h : payload.length + HEADER_BYTES ≤ MAX_BUCKET_BYTES)
    (hnoise : HEADER_BYTES + payload.length + noise.length = bucket payload.length) :
    WellFormed (leBytes HEADER_BYTES payload.length ++ payload ++ noise) ∧
      unpad (leBytes HEADER_BYTES payload.length ++ payload ++ noise) = some (.ok payload) := by
  have hlength : (leBytes HEADER_BYTES payload.length ++ payload ++ noise).length =
      bucket payload.length := by
    rw [List.length_append, List.length_append, length_leBytes, hnoise]
  have hroom := le_bucket payload.length
  have hlen : prefixOf (leBytes HEADER_BYTES payload.length ++ payload ++ noise) =
      payload.length := by
    rw [prefixOf, List.append_assoc, List.take_left' (length_leBytes _ _)]
    refine ofLeBytes_leBytes_of_lt ?_
    have hmax : MAX_BUCKET_BYTES < 256 ^ HEADER_BYTES := by decide
    omega
  have hformed : WellFormed (leBytes HEADER_BYTES payload.length ++ payload ++ noise) := by
    rw [WellFormed, hlength, hlen]
    refine ⟨⟨(le_max_right _ _).trans hroom, bucket_le h⟩, isPowerOfTwo_nextPowerOfTwo _, ?_⟩
    rw [Nat.add_comm]
    exact (le_max_left _ _).trans hroom
  refine ⟨hformed, ?_⟩
  rw [unpad_of_wellFormed hformed, hlen, List.append_assoc,
    List.drop_left' (length_leBytes _ _), List.take_left]

/-! ## What padding can make -/

/-- A source of noise that has one buffer. -/
def Fill.of (noise : Bytes) : Fill := fun n =>
  if h : noise.length = n then some ⟨noise.toArray, h⟩ else none

/-- Any noise that fills the bucket can come out. -/
theorem pad_of_noise {payload noise : Bytes}
    (h : payload.length + HEADER_BYTES ≤ MAX_BUCKET_BYTES)
    (hnoise : HEADER_BYTES + payload.length + noise.length = bucket payload.length) :
    padToBucket (Fill.of noise) payload =
      .ok (leBytes HEADER_BYTES payload.length ++ payload ++ noise) := by
  have hfront : (leBytes HEADER_BYTES payload.length ++ payload).length =
      HEADER_BYTES + payload.length := by
    rw [List.length_append, length_leBytes]
  have hrest : noise.length = bucket payload.length - (HEADER_BYTES + payload.length) := by omega
  rw [padToBucket, bucketSize_of_le h]
  dsimp only
  rw [hfront]
  by_cases hshort : HEADER_BYTES + payload.length < bucket payload.length
  · rw [if_pos hshort, Fill.of, dif_pos hrest, Option.map_some]
    rfl
  · have hnil : noise = [] := by
      rw [← List.length_eq_zero_iff]
      omega
    rw [if_neg hshort, hnil, List.append_nil]

/-- A well-formed string is its length, what is read, and the rest. -/
theorem WellFormed.split {padded : Bytes} (h : WellFormed padded) :
    padded = leBytes HEADER_BYTES (prefixOf padded) ++
      (padded.drop HEADER_BYTES).take (prefixOf padded) ++
        padded.drop (HEADER_BYTES + prefixOf padded) := by
  have hheader : HEADER_BYTES ≤ padded.length := le_trans (Nat.le_add_right _ _) h.2.2
  have htake : leBytes HEADER_BYTES (prefixOf padded) = padded.take HEADER_BYTES := by
    have hread := leBytes_ofLeBytes (padded.take HEADER_BYTES)
    rwa [List.length_take_of_le hheader] at hread
  rw [htake, List.append_assoc, ← List.drop_drop, List.take_append_drop, List.take_append_drop]

/-- What is accepted came from padding the payload that is read, with some noise, exactly when its
size is the bucket of that payload. -/
theorem exists_pad_iff {padded payload : Bytes} (h : unpad padded = some (.ok payload)) :
    (∃ fill, padToBucket fill payload = .ok padded) ↔ padded.length = bucket payload.length := by
  have hformed : WellFormed padded := by
    by_contra hnot
    obtain ⟨e, he⟩ := unpad_of_not_wellFormed hnot
    rw [he] at h
    cases h
  have hpayload : (padded.drop HEADER_BYTES).take (prefixOf padded) = payload := by
    rw [unpad_of_wellFormed hformed] at h
    exact Except.ok.inj (Option.some.inj h)
  have hsplit := hformed.split
  obtain ⟨hsize, -, hfits⟩ := hformed
  have hlength : prefixOf padded = payload.length := by
    rw [← hpayload, List.length_take, List.length_drop]
    omega
  have hmax : payload.length + HEADER_BYTES ≤ MAX_BUCKET_BYTES := by omega
  rw [hpayload, hlength] at hsplit
  constructor
  · rintro ⟨fill, hpad⟩
    rcases pad_outcome fill hmax with ⟨hcrypto, -⟩ | ⟨noise, hok, hnoise⟩
    · rw [hcrypto] at hpad
      cases hpad
    · rw [hok] at hpad
      rw [← Except.ok.inj hpad, List.length_append, List.length_append, length_leBytes, hnoise]
  · intro hbucket
    refine ⟨Fill.of (padded.drop (HEADER_BYTES + payload.length)), ?_⟩
    conv_rhs => rw [hsplit]
    refine pad_of_noise hmax ?_
    rw [List.length_drop, ← hbucket]
    omega

/-- **Padding round-trips, hides the length in its bucket and refuses what the largest bucket has
no room for, and unpadding accepts exactly the well-formed strings.**  Of these, padding makes the
ones of the least size. -/
theorem padding_outcomes (payload : Bytes) :
    (payload.length + HEADER_BYTES ≤ MAX_BUCKET_BYTES → ∀ fill,
      (padToBucket fill payload = .error .Crypto ∧ ∃ n, fill n = none) ∨
        ∃ padded, padToBucket fill payload = .ok padded ∧ unpad padded = some (.ok payload) ∧
          padded.length = bucket payload.length) ∧
      (isPowerOfTwo (bucket payload.length) = true ∧
        MIN_BUCKET_BYTES ≤ bucket payload.length ∧
        payload.length + HEADER_BYTES ≤ bucket payload.length ∧
        ∀ size, isPowerOfTwo size = true → MIN_BUCKET_BYTES ≤ size →
          payload.length + HEADER_BYTES ≤ size → bucket payload.length ≤ size) ∧
      (MAX_BUCKET_BYTES < payload.length + HEADER_BYTES → ∀ fill,
        ∃ reason, padToBucket fill payload = .error (.Invalid reason)) ∧
      (∀ padded, ∃ result, unpad padded = some result ∧
        ((∃ read, result = .ok read) ↔ WellFormed padded)) ∧
      ∀ padded, unpad padded = some (.ok payload) →
        ((∃ fill, padToBucket fill payload = .ok padded) ↔
          padded.length = bucket payload.length) := by
  have hroom := le_bucket payload.length
  refine ⟨?_, ?_, ?_, ?_, fun padded => exists_pad_iff⟩
  · intro h fill
    rcases pad_outcome fill h with hcrypto | ⟨noise, hok, hnoise⟩
    · exact Or.inl hcrypto
    · refine Or.inr ⟨_, hok, (wellFormed_pad h hnoise).2, ?_⟩
      rw [List.length_append, List.length_append, length_leBytes, hnoise]
  · exact ⟨isPowerOfTwo_nextPowerOfTwo _, (le_max_right _ _).trans hroom,
      (le_max_left _ _).trans hroom, fun size => bucket_le_of_room⟩
  · intro h fill
    obtain ⟨reason, hreason⟩ := bucketSize_of_lt h
    exact ⟨reason, by rw [padToBucket, hreason]⟩
  · intro padded
    by_cases hformed : WellFormed padded
    · exact ⟨_, unpad_of_wellFormed hformed, iff_of_true ⟨_, rfl⟩ hformed⟩
    · obtain ⟨e, he⟩ := unpad_of_not_wellFormed hformed
      refine ⟨_, he, iff_of_false ?_ hformed⟩
      rintro ⟨read, hread⟩
      cases hread

/-- A string of 128 zeros is read as the empty payload, which is padded to 64 bytes. -/
theorem unpad_of_larger_bucket :
    unpad (List.replicate 128 0) = some (.ok []) ∧
      ∀ fill payload, padToBucket fill payload ≠ .ok (List.replicate 128 0) := by
  have hread : unpad (List.replicate 128 0) = some (.ok []) := by decide +kernel
  refine ⟨hread, ?_⟩
  intro fill payload hpad
  by_cases h : payload.length + HEADER_BYTES ≤ MAX_BUCKET_BYTES
  · rcases pad_outcome fill h with ⟨hcrypto, -⟩ | ⟨noise, hok, hnoise⟩
    · rw [hcrypto] at hpad
      cases hpad
    · rw [hok] at hpad
      have hback := (wellFormed_pad h hnoise).2
      rw [Except.ok.inj hpad, hread] at hback
      obtain rfl : [] = payload := Except.ok.inj (Option.some.inj hback)
      have hlength := (exists_pad_iff hread).mp ⟨fill, by rw [hok, Except.ok.inj hpad]⟩
      rw [List.length_replicate] at hlength
      exact absurd hlength (by decide)
  · obtain ⟨reason, hreason⟩ := bucketSize_of_lt (not_le.mp h)
    rw [padToBucket, hreason] at hpad
    cases hpad

end Wire

end Vbuff.Sync
