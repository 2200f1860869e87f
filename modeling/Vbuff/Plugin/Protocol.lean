import Vbuff.Lib.Attempt
import Vbuff.Lib.Framing
import Vbuff.Plugin.Manifest

/-!
# Frames between the host and a plugin

A frame is a JSON payload behind its length, and three functions agree on that: one writes a frame,
one reads it out of a buffer that holds nothing else, and one off the front of a stream.

All of them are about bytes of the form `frameBytes payload`, for a payload of no more than
`MAX_FRAME_BYTES`, and such bytes mark their own end; so the three agree on every input
(`frames_agree`).  What JSON says of a frame is a parameter.
-/

namespace Vbuff.Plugin

open ByteString Framing MachineInt Result

def MAX_FRAME_BYTES : ℕ := 8 * 1024 * 1024

/-- The size of a `u32`. -/
def LENGTH_PREFIX_BYTES : ℕ := 4

/-- What `serde_json` does with a type of frames. -/
structure JsonCodec (T : Type) where
  /-- `serde_json::to_vec`. -/
  toVec : T → Except String Bytes
  /-- `serde_json::from_slice`. -/
  fromSlice : Bytes → Except String T

/-- Every frame is written, and read back. -/
def JsonCodec.RoundTrips {T : Type} (codec : JsonCodec T) : Prop :=
  ∀ frame, ∃ payload, codec.toVec frame = .ok payload ∧ codec.fromSlice payload = .ok frame

variable {T : Type} (codec : JsonCodec T)

def encodeFrame (frame : T) : Except PluginError Bytes := do
  let payload ← serialized (codec.toVec frame)
  ensure (payload.length ≤ MAX_FRAME_BYTES) (.InvalidInput "plugin frame is too large")
  ensure (payload.length < 2 ^ 32) (.InvalidInput "plugin frame is too large")
  pure (beBytes LENGTH_PREFIX_BYTES payload.length ++ payload)

def decodeFrame (frame : Bytes) : Except PluginError T := do
  ensure (LENGTH_PREFIX_BYTES ≤ frame.length) (.InvalidInput "plugin frame header is truncated")
  let payloadLen := ofBeBytes (frame.take LENGTH_PREFIX_BYTES)
  ensure (payloadLen ≤ MAX_FRAME_BYTES) (.InvalidInput "plugin frame is too large")
  let expectedLen ← okOr (checkedAddUsize LENGTH_PREFIX_BYTES payloadLen)
    (.InvalidInput "plugin frame length overflow")
  ensure (frame.length = expectedLen)
    (.InvalidInput "plugin frame length does not match its payload")
  serialized (codec.fromSlice (frame.drop LENGTH_PREFIX_BYTES))

/-- `Read::read_exact` into a buffer of `n` bytes; the state is what the reader has left. -/
def readExact (n : ℕ) (e : PluginError) : Attempt Bytes PluginError Bytes := fun reader =>
  if n ≤ reader.length then (reader.drop n, .ok (reader.take n)) else ([], .error e)

def readFrame : Attempt Bytes PluginError T := do
  let header ← readExact LENGTH_PREFIX_BYTES (.InvalidInput "plugin frame header is truncated")
  let payloadLen := ofBeBytes header
  Attempt.ensure (payloadLen ≤ MAX_FRAME_BYTES) (.InvalidInput "plugin frame is too large")
  let payload ← readExact payloadLen (.InvalidInput "plugin frame payload is truncated")
  Attempt.ofExcept (serialized (codec.fromSlice payload))

/-- Successive calls of `read_frame`. -/
def readFrames (calls : ℕ) : Attempt Bytes PluginError (List T) :=
  Attempt.mapEach (fun _ => readFrame codec) (List.replicate calls ())

/-! ## The bytes of a frame -/

/-- A payload behind its length. -/
def frameBytes (payload : Bytes) : Bytes := beBytes LENGTH_PREFIX_BYTES payload.length ++ payload

variable {codec} {bytes rest payload : Bytes} {frame : T}

theorem lt_of_le_max {n : ℕ} (h : n ≤ MAX_FRAME_BYTES) : n < 256 ^ LENGTH_PREFIX_BYTES :=
  lt_of_le_of_lt h (by decide)

theorem take_frameBytes (payload rest : Bytes) :
    (frameBytes payload ++ rest).take LENGTH_PREFIX_BYTES =
      beBytes LENGTH_PREFIX_BYTES payload.length := by
  rw [frameBytes, List.append_assoc]
  exact List.take_left' (length_beBytes _ _)

theorem drop_frameBytes (payload rest : Bytes) :
    (frameBytes payload ++ rest).drop LENGTH_PREFIX_BYTES = payload ++ rest := by
  rw [frameBytes, List.append_assoc]
  exact List.drop_left' (length_beBytes _ _)

/-- Bytes that begin with a length, and go on at least that long. -/
theorem eq_frameBytes (hheader : LENGTH_PREFIX_BYTES ≤ bytes.length) {payloadLen : ℕ}
    (hread : ofBeBytes (bytes.take LENGTH_PREFIX_BYTES) = payloadLen)
    (hlong : payloadLen ≤ (bytes.drop LENGTH_PREFIX_BYTES).length) :
    ((bytes.drop LENGTH_PREFIX_BYTES).take payloadLen).length = payloadLen ∧
      bytes = frameBytes ((bytes.drop LENGTH_PREFIX_BYTES).take payloadLen) ++
        (bytes.drop LENGTH_PREFIX_BYTES).drop payloadLen := by
  have hlength : ((bytes.drop LENGTH_PREFIX_BYTES).take payloadLen).length = payloadLen :=
    List.length_take_of_le hlong
  have hleading : beBytes LENGTH_PREFIX_BYTES payloadLen = bytes.take LENGTH_PREFIX_BYTES := by
    have hwritten := beBytes_ofBeBytes (bytes.take LENGTH_PREFIX_BYTES)
    rwa [List.length_take_of_le hheader, hread] at hwritten
  refine ⟨hlength, ?_⟩
  rw [frameBytes, hlength, hleading, List.append_assoc, List.take_append_drop,
    List.take_append_drop]

/-- A frame marks its own end. -/
theorem delimits_frameBytes :
    Delimits {payload | payload.length ≤ MAX_FRAME_BYTES} frameBytes id :=
  (delimits_lengthPrefixed (delimits_beBytes LENGTH_PREFIX_BYTES)).mono fun _ h => lt_of_le_max h

theorem encodeFrame_eq_ok_iff :
    encodeFrame codec frame = .ok bytes ↔
      ∃ payload, codec.toVec frame = .ok payload ∧ payload.length ≤ MAX_FRAME_BYTES ∧
        bytes = frameBytes payload := by
  unfold encodeFrame
  simp only [bind_eq_ok, serialized_eq_ok, ensure_eq_ok]
  constructor
  · rintro ⟨payload, hpayload, _, hmax, _, -, h⟩
    exact ⟨payload, hpayload, hmax, (Except.ok.inj h).symm⟩
  · rintro ⟨payload, hpayload, hmax, rfl⟩
    exact ⟨payload, hpayload, (), hmax, (), lt_of_le_max hmax, rfl⟩

/-- A length that was let through leaves room for its header. -/
theorem checkedAdd_lengthPrefix {n : ℕ} (h : n ≤ MAX_FRAME_BYTES) :
    checkedAddUsize LENGTH_PREFIX_BYTES n = some (LENGTH_PREFIX_BYTES + n) := by
  refine if_pos ?_
  rw [LENGTH_PREFIX_BYTES, usizeMax]
  rw [MAX_FRAME_BYTES] at h
  omega

theorem decodeFrame_eq_ok_iff :
    decodeFrame codec bytes = .ok frame ↔
      ∃ payload, payload.length ≤ MAX_FRAME_BYTES ∧ bytes = frameBytes payload ∧
        codec.fromSlice payload = .ok frame := by
  unfold decodeFrame
  simp only [bind_eq_ok, serialized_eq_ok, ensure_eq_ok, okOr_eq_ok]
  constructor
  · rintro ⟨_, hheader, _, hmax, expected, hexpected, _, hlength, hframe⟩
    rw [checkedAdd_lengthPrefix hmax] at hexpected
    obtain rfl := Option.some.inj hexpected
    have hdrop : (bytes.drop LENGTH_PREFIX_BYTES).length =
        ofBeBytes (bytes.take LENGTH_PREFIX_BYTES) := by
      rw [List.length_drop, hlength, Nat.add_sub_cancel_left]
    obtain ⟨-, hsplit⟩ := eq_frameBytes hheader rfl hdrop.ge
    rw [← hdrop, List.take_length, List.drop_length, List.append_nil] at hsplit
    exact ⟨_, hdrop.trans_le hmax, hsplit, hframe⟩
  · rintro ⟨payload, hmax, rfl, hframe⟩
    have htake := take_frameBytes payload []
    have hdrop := drop_frameBytes payload []
    rw [List.append_nil] at htake hdrop
    rw [htake, hdrop, ofBeBytes_beBytes_of_lt (lt_of_le_max hmax), checkedAdd_lengthPrefix hmax]
    have hlength : (frameBytes payload).length = LENGTH_PREFIX_BYTES + payload.length := by
      rw [frameBytes, List.length_append, length_beBytes]
    refine ⟨(), ?_, (), hmax, _, rfl, (), hlength, ?_⟩
    · rw [hlength]
      exact Nat.le_add_right _ _
    · rwa [List.append_nil]

theorem readExact_eq_ok {n : ℕ} {e : PluginError} {reader left taken : Bytes} :
    readExact n e reader = (left, .ok taken) ↔
      n ≤ reader.length ∧ left = reader.drop n ∧ taken = reader.take n := by
  unfold readExact
  split
  case isTrue h =>
    rw [Prod.mk.injEq, Except.ok.injEq]
    exact ⟨fun ⟨hleft, htaken⟩ => ⟨h, hleft.symm, htaken.symm⟩,
      fun ⟨_, hleft, htaken⟩ => ⟨hleft.symm, htaken.symm⟩⟩
  case isFalse h =>
    exact iff_of_false (fun heq => by cases (Prod.mk.inj heq).2) fun hread => h hread.1

theorem readFrame_eq_ok_iff :
    readFrame codec bytes = (rest, .ok frame) ↔
      ∃ payload, payload.length ≤ MAX_FRAME_BYTES ∧ bytes = frameBytes payload ++ rest ∧
        codec.fromSlice payload = .ok frame := by
  unfold readFrame
  simp only [Attempt.bind_eq_ok, readExact_eq_ok, Attempt.ensure_apply_eq_ok,
    Attempt.ofExcept_apply, Prod.mk.injEq, serialized_eq_ok]
  constructor
  · rintro ⟨_, _, ⟨hheader, rfl, rfl⟩, _, _, ⟨hmax, rfl⟩, _, _, ⟨hlong, rfl, rfl⟩, rfl, hframe⟩
    obtain ⟨hlength, hsplit⟩ := eq_frameBytes hheader rfl hlong
    exact ⟨_, hlength.trans_le hmax, hsplit, hframe⟩
  · rintro ⟨payload, hmax, rfl, hframe⟩
    have hread := ofBeBytes_beBytes_of_lt (lt_of_le_max hmax)
    have hheader : LENGTH_PREFIX_BYTES ≤ (frameBytes payload ++ rest).length := by
      rw [frameBytes, List.append_assoc, List.length_append, length_beBytes]
      exact Nat.le_add_right _ _
    refine ⟨_, _, ⟨hheader, rfl, rfl⟩, ⟨⟩, _, ⟨?_, rfl⟩, _, _, ⟨?_, rfl, rfl⟩, ?_, ?_⟩
    · rw [take_frameBytes, hread]
      exact hmax
    · rw [take_frameBytes, hread, drop_frameBytes, List.length_append]
      exact Nat.le_add_right _ _
    · rw [take_frameBytes, hread, drop_frameBytes, List.drop_left]
    · rw [take_frameBytes, hread, drop_frameBytes, List.take_left]
      exact hframe

/-! ## Agreement -/

/-- What was written is read back, frame by frame, and no more is read. -/
theorem readFrames_encodings (hcodec : codec.RoundTrips) {frames : List T} {encodings : List Bytes}
    (h : List.Forall₂ (fun frame bytes => encodeFrame codec frame = .ok bytes) frames encodings) :
    readFrames codec frames.length (encodings.flatten ++ rest) = (rest, .ok frames) := by
  induction h with
  | nil => rfl
  | @cons frame bytes frames encodings hencode _ ih =>
    obtain ⟨payload, hpayload, hmax, rfl⟩ := encodeFrame_eq_ok_iff.mp hencode
    obtain ⟨written, hwritten, hread⟩ := hcodec frame
    obtain rfl := Except.ok.inj (hwritten.symm.trans hpayload)
    have hframe : readFrame codec (frameBytes written ++ (encodings.flatten ++ rest)) =
        (encodings.flatten ++ rest, .ok frame) :=
      readFrame_eq_ok_iff.mpr ⟨written, hmax, rfl, hread⟩
    rw [List.flatten_cons, List.append_assoc]
    refine (Attempt.bind_of_ok hframe).trans ?_
    exact Attempt.bind_of_ok ih

/-- Bytes that are accepted begin with no other frame. -/
theorem eq_of_prefix_readFrame {part : Bytes} {other : T}
    (hencode : encodeFrame codec frame = .ok bytes) (hpart : part <+: bytes)
    (hread : readFrame codec part = (rest, .ok other)) : part = bytes := by
  obtain ⟨payload, -, hmax, rfl⟩ := encodeFrame_eq_ok_iff.mp hencode
  obtain ⟨payload', hmax', rfl, -⟩ := readFrame_eq_ok_iff.mp hread
  obtain ⟨tail, htail⟩ := hpart
  rw [List.append_assoc, ← List.append_nil (frameBytes payload)] at htail
  obtain ⟨hsame, hnone⟩ := delimits_frameBytes hmax' hmax htail
  obtain ⟨rfl, -⟩ := List.append_eq_nil_iff.mp hnone
  rw [show payload' = payload from hsame, List.append_nil]

theorem encodeFrame_error_iff (hcodec : codec.RoundTrips) :
    (∃ e, encodeFrame codec frame = .error e) ↔
      ∃ payload, codec.toVec frame = .ok payload ∧ MAX_FRAME_BYTES < payload.length := by
  obtain ⟨payload, hpayload, -⟩ := hcodec frame
  constructor
  · rintro ⟨e, he⟩
    refine ⟨payload, hpayload, not_le.mp fun hmax => ?_⟩
    rw [encodeFrame_eq_ok_iff.mpr ⟨payload, hpayload, hmax, rfl⟩] at he
    cases he
  · rintro ⟨_, hwritten, hlong⟩
    cases hencode : encodeFrame codec frame with
    | error e => exact ⟨e, rfl⟩
    | ok bytes =>
      obtain ⟨_, hagain, hmax, -⟩ := encodeFrame_eq_ok_iff.mp hencode
      obtain rfl := Except.ok.inj (hwritten.symm.trans hagain)
      exact absurd hmax (not_le.mpr hlong)

/-- A length over the limit is refused with the payload unread. -/
theorem readFrame_of_long {header : Bytes} (hheader : header.length = LENGTH_PREFIX_BYTES)
    (hlong : MAX_FRAME_BYTES < ofBeBytes header) :
    readFrame codec (header ++ rest) =
      (rest, .error (.InvalidInput "plugin frame is too large")) := by
  have hread : readExact LENGTH_PREFIX_BYTES (.InvalidInput "plugin frame header is truncated")
      (header ++ rest) = (rest, .ok header) := by
    refine readExact_eq_ok.mpr ⟨?_, (List.drop_left' hheader).symm, (List.take_left' hheader).symm⟩
    rw [List.length_append, hheader]
    exact Nat.le_add_right _ _
  refine (Attempt.bind_of_ok hread).trans (Attempt.bind_of_error ?_)
  rw [Attempt.ensure, if_neg (not_le.mpr hlong)]
  rfl

theorem decodeFrame_of_long {header : Bytes} (hheader : header.length = LENGTH_PREFIX_BYTES)
    (hlong : MAX_FRAME_BYTES < ofBeBytes header) :
    decodeFrame codec (header ++ rest) =
      .error (.InvalidInput "plugin frame is too large") := by
  have hthere : LENGTH_PREFIX_BYTES ≤ (header ++ rest).length := by
    rw [List.length_append, hheader]
    exact Nat.le_add_right _ _
  rw [decodeFrame, ensure_of hthere, ok_bind]
  dsimp only
  rw [List.take_left' hheader, ensure_of_not (not_le.mpr hlong)]
  rfl

/-- Writing a frame and the two ways to read one agree on what a frame is. -/
theorem frames_agree (hcodec : codec.RoundTrips) :
    (∀ frames encodings,
      List.Forall₂ (fun frame bytes => encodeFrame codec frame = .ok bytes) frames encodings →
        readFrames codec frames.length encodings.flatten = ([], .ok frames)) ∧
      (∀ bytes frame,
        decodeFrame codec bytes = .ok frame ↔ readFrame codec bytes = ([], .ok frame)) ∧
      (∀ frame bytes part, encodeFrame codec frame = .ok bytes → part <+: bytes → part ≠ bytes →
        (∀ other, decodeFrame codec part ≠ .ok other) ∧
          ∀ rest other, readFrame codec part ≠ (rest, .ok other)) ∧
      (∀ frame, (∃ e, encodeFrame codec frame = .error e) ↔
        ∃ payload, codec.toVec frame = .ok payload ∧ MAX_FRAME_BYTES < payload.length) ∧
      ∀ header rest : Bytes, header.length = LENGTH_PREFIX_BYTES →
        MAX_FRAME_BYTES < ofBeBytes header →
        readFrame codec (header ++ rest) =
            (rest, .error (.InvalidInput "plugin frame is too large")) ∧
          decodeFrame codec (header ++ rest) =
            .error (.InvalidInput "plugin frame is too large") := by
  have hagree : ∀ bytes frame,
      decodeFrame codec bytes = .ok frame ↔ readFrame codec bytes = ([], .ok frame) := by
    intro bytes frame
    rw [decodeFrame_eq_ok_iff, readFrame_eq_ok_iff]
    simp only [List.append_nil]
  refine ⟨fun frames encodings h => ?_, hagree, fun frame bytes part hencode hpart hproper => ?_,
    fun _ => encodeFrame_error_iff hcodec,
    fun _ _ hheader hlong => ⟨readFrame_of_long hheader hlong, decodeFrame_of_long hheader hlong⟩⟩
  · have hread : readFrames codec frames.length (encodings.flatten ++ []) = ([], .ok frames) :=
      readFrames_encodings hcodec h
    rwa [List.append_nil] at hread
  · have hnone : ∀ rest other, readFrame codec part ≠ (rest, .ok other) :=
      fun _ _ hread => hproper (eq_of_prefix_readFrame hencode hpart hread)
    exact ⟨fun other hdecode => hnone [] other ((hagree part other).mp hdecode), hnone⟩

/-- JSON of the type with one value. -/
def nullCodec : JsonCodec Unit where
  toVec _ := .ok (asBytes "null")
  fromSlice bytes := if bytes = asBytes "null" then .ok () else .error "expected unit"

theorem frames_agree_null :
    readFrames nullCodec 2 [0, 0, 0, 4, 110, 117, 108, 108, 0, 0, 0, 4, 110, 117, 108, 108] =
      ([], .ok [(), ()]) := by
  have hread : nullCodec.fromSlice (asBytes "null") = .ok () := by
    simp only [nullCodec, if_true]
  have hround : nullCodec.RoundTrips := fun () => ⟨asBytes "null", rfl, hread⟩
  exact (frames_agree hround).1 [(), ()]
    [[0, 0, 0, 4, 110, 117, 108, 108], [0, 0, 0, 4, 110, 117, 108, 108]]
    (.cons (by decide +kernel) (.cons (by decide +kernel) .nil))

end Vbuff.Plugin
