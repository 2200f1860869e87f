import Vbuff.Lib.ByteString
import Vbuff.Lib.MachineInt
import Vbuff.Lib.Result
import Vbuff.Sync.Chain

/-!
# The portable vault container

A header of fixed-width big-endian fields and the ciphertext they announce.  The reader
walks the bytes with a cursor; where it indexes instead of asking, an index out of range
would panic, and the outer `Option` of `fromBytes` is that panic.

`layout` is the container as the concatenation of its raw fields.  Every byte string of
at least the header's length is a layout (`exists_layout`), and the reader on a layout
is a plain sequence of checks (`fromBytes_layout`); reading back and writing out are then
inverse field by field.
-/

namespace Vbuff.Sync

open ByteString MachineInt Result

namespace VaultExport

/-- The bytes of `VBUFFVLT`. -/
def magic : Vector UInt8 8 := #v[0x56, 0x42, 0x55, 0x46, 0x46, 0x56, 0x4C, 0x54]

def headerBytes : ℕ := 8 + 2 + 8 + 8 + 32 + 24 + 8

def maxPlaintextBytes : ℕ := 512 * 1024 * 1024

def maxCiphertextBytes : ℕ := maxPlaintextBytes + 16

def maxSerializedBytes : ℕ := headerBytes + maxCiphertextBytes

def maxRecords : ℕ := 1000000

end VaultExport

open VaultExport

structure PortableVault where
  schema : UInt16
  createdAtMs : UInt64
  recordCount : UInt64
  plaintextHash : Bytes32
  nonce : Vector UInt8 24
  ciphertext : Bytes
  deriving DecidableEq

/-- What the header must say. -/
def PortableVault.ValidShape (vault : PortableVault) : Prop :=
  vault.schema = 1 ∧ vault.recordCount ≤ (maxRecords : ℕ).toUInt64 ∧
    16 ≤ vault.ciphertext.length ∧ vault.ciphertext.length ≤ maxCiphertextBytes

instance decidableValidShape (vault : PortableVault) : Decidable vault.ValidShape :=
  inferInstanceAs (Decidable (_ ∧ _ ∧ _ ∧ _))

namespace PortableVault

def validateShape (self : PortableVault) : Except SyncError Unit :=
  ensure self.ValidShape (.Invalid "invalid portable vault header")

def toBytes (self : PortableVault) : Except SyncError Bytes := do
  self.validateShape
  .ok (magic.toList ++ beBytes 2 self.schema.toNat ++ beBytes 8 self.createdAtMs.toNat ++
    beBytes 8 self.recordCount.toNat ++ self.plaintextHash.toList ++ self.nonce.toList ++
    beBytes 8 self.ciphertext.length.toUInt64.toNat ++ self.ciphertext)

/-- The next `n` bytes, and the cursor behind them. -/
def take (n : ℕ) (bytes : Bytes) (cursor : ℕ) : Except SyncError (Vector UInt8 n × ℕ) := do
  let stop ← okOr (checkedAddUsize cursor n) (.Invalid "truncated portable vault")
  let value ← okOr (getRange bytes cursor stop) (.Invalid "truncated portable vault")
  let array ← okOr (arrayOf n value) (.Invalid "truncated portable vault")
  .ok (array, stop)

/-- `u16::from_be_bytes`. -/
def u16FromBeBytes (bytes : Vector UInt8 2) : UInt16 := (ofBeBytes bytes.toList).toUInt16

/-- `u64::from_be_bytes`. -/
def u64FromBeBytes (bytes : Vector UInt8 8) : UInt64 := (ofBeBytes bytes.toList).toUInt64

/-- The header fields, the cursor behind them, and the checks on the announced length. -/
def readHeader (bytes : Bytes) : Except SyncError (PortableVault × ℕ) := do
  ensure (¬ (bytes.length < headerBytes ∨ maxSerializedBytes < bytes.length))
    (.Invalid "vault container size is invalid")
  let (found, cursor) ← take 8 bytes 0
  ensure (found = magic) (.Invalid "invalid portable vault magic")
  let (schema, cursor) ← take 2 bytes cursor
  let (createdAtMs, cursor) ← take 8 bytes cursor
  let (recordCount, cursor) ← take 8 bytes cursor
  let (plaintextHash, cursor) ← take 32 bytes cursor
  let (nonce, cursor) ← take 24 bytes cursor
  let (ciphertextLen, cursor) ← take 8 bytes cursor
  let ciphertextLen ←
    okOr (usizeOfU64 (u64FromBeBytes ciphertextLen)) (.Invalid "invalid vault ciphertext length")
  let expectedLen ←
    okOr (checkedAddUsize cursor ciphertextLen) (.Invalid "invalid vault ciphertext length")
  ensure (expectedLen = bytes.length) (.Invalid "invalid vault ciphertext length")
  .ok ({ schema := u16FromBeBytes schema
         createdAtMs := u64FromBeBytes createdAtMs
         recordCount := u64FromBeBytes recordCount
         plaintextHash, nonce, ciphertext := [] }, cursor)

/-- `none` is a panic of the index `bytes[cursor..]`. -/
def fromBytes (bytes : Bytes) : Option (Except SyncError PortableVault) :=
  match readHeader bytes with
  | .error e => some (.error e)
  | .ok (header, cursor) => do
      let ciphertext ← sliceFrom bytes cursor
      let vault := { header with ciphertext }
      some (vault.validateShape.map fun _ => vault)

/-! ## The raw fields -/

/-- A container as its raw fields. -/
structure Raw where
  magic : Vector UInt8 8
  schema : Vector UInt8 2
  createdAtMs : Vector UInt8 8
  recordCount : Vector UInt8 8
  plaintextHash : Bytes32
  nonce : Vector UInt8 24
  ciphertextLen : Vector UInt8 8
  ciphertext : Bytes

/-- The fields in their order. -/
def layout (raw : Raw) : Bytes :=
  raw.magic.toList ++ (raw.schema.toList ++ (raw.createdAtMs.toList ++ (raw.recordCount.toList ++
    (raw.plaintextHash.toList ++ (raw.nonce.toList ++ (raw.ciphertextLen.toList ++
      raw.ciphertext))))))

theorem length_layout (raw : Raw) : (layout raw).length = headerBytes + raw.ciphertext.length := by
  simp [layout, headerBytes]
  omega

/-- Every byte string with room for a header is a container of raw fields. -/
theorem exists_layout {bytes : Bytes} (h : headerBytes ≤ bytes.length) :
    ∃ raw, bytes = layout raw := by
  unfold headerBytes at h
  obtain ⟨magic, rest, rfl⟩ := exists_array_append (n := 8) (by omega : 8 ≤ bytes.length)
  rw [List.length_append, Vector.length_toList] at h
  obtain ⟨schema, rest, rfl⟩ := exists_array_append (n := 2) (by omega : 2 ≤ rest.length)
  rw [List.length_append, Vector.length_toList] at h
  obtain ⟨createdAtMs, rest, rfl⟩ := exists_array_append (n := 8) (by omega : 8 ≤ rest.length)
  rw [List.length_append, Vector.length_toList] at h
  obtain ⟨recordCount, rest, rfl⟩ := exists_array_append (n := 8) (by omega : 8 ≤ rest.length)
  rw [List.length_append, Vector.length_toList] at h
  obtain ⟨plaintextHash, rest, rfl⟩ := exists_array_append (n := 32) (by omega : 32 ≤ rest.length)
  rw [List.length_append, Vector.length_toList] at h
  obtain ⟨nonce, rest, rfl⟩ := exists_array_append (n := 24) (by omega : 24 ≤ rest.length)
  rw [List.length_append, Vector.length_toList] at h
  obtain ⟨ciphertextLen, ciphertext, rfl⟩ :=
    exists_array_append (n := 8) (by omega : 8 ≤ rest.length)
  exact ⟨⟨magic, schema, createdAtMs, recordCount, plaintextHash, nonce, ciphertextLen,
    ciphertext⟩, rfl⟩

/-- The next field is read, and what follows it is left. -/
theorem take_of_drop {n cursor : ℕ} {bytes rest : Bytes} {field : Vector UInt8 n}
    (hfits : bytes.length ≤ usizeMax) (hcursor : cursor ≤ bytes.length)
    (hdrop : bytes.drop cursor = field.toList ++ rest) :
    take n bytes cursor = .ok (field, cursor + n) ∧ cursor + n ≤ bytes.length ∧
      bytes.drop (cursor + n) = rest := by
  have hlen := congrArg List.length hdrop
  rw [List.length_drop, List.length_append, Vector.length_toList] at hlen
  have hrange := getRange_of_drop hcursor hdrop
  rw [Vector.length_toList] at hrange
  refine ⟨?_, by omega, ?_⟩
  · rw [take, checkedAddUsize, if_pos (by omega)]
    show (okOr (getRange bytes cursor (cursor + n)) _ >>= _) = _
    rw [hrange]
    show (okOr (arrayOf n field.toList) _ >>= _) = _
    rw [arrayOf_toList]
    rfl
  · rw [← List.drop_drop, hdrop, List.drop_left' Vector.length_toList]

/-- A sum that has to be an admitted length is checked by its value alone: one that
overflows is a wrong length too. -/
theorem checkedSum_bind {α : Type} {a b total : ℕ} (htotal : total ≤ usizeMax) (e : SyncError)
    (f : Unit → Except SyncError α) :
    (okOr (checkedAddUsize a b) e >>= fun sum => ensure (sum = total) e >>= f) =
      ensure (a + b = total) e >>= f := by
  rw [checkedAddUsize]
  split
  case isTrue => rw [okOr_some, ok_bind]
  case isFalse hover =>
    rw [okOr_none, error_bind, ensure_of_not (by omega), error_bind]

/-- The header a container's raw fields spell. -/
def Raw.header (raw : Raw) : PortableVault where
  schema := u16FromBeBytes raw.schema
  createdAtMs := u64FromBeBytes raw.createdAtMs
  recordCount := u64FromBeBytes raw.recordCount
  plaintextHash := raw.plaintextHash
  nonce := raw.nonce
  ciphertext := []

/-- On a container of admitted size the reader checks the magic and the length. -/
theorem readHeader_layout (raw : Raw)
    (hsize : headerBytes + raw.ciphertext.length ≤ maxSerializedBytes) :
    readHeader (layout raw) = (do
      ensure (raw.magic = magic) (.Invalid "invalid portable vault magic")
      ensure (headerBytes + (u64FromBeBytes raw.ciphertextLen).toNat =
        headerBytes + raw.ciphertext.length) (.Invalid "invalid vault ciphertext length")
      .ok (raw.header, headerBytes)) := by
  have hlen := length_layout raw
  have hfits : (layout raw).length ≤ usizeMax := by
    rw [hlen]
    exact hsize.trans (by decide)
  -- one field after another, each from where the last one ended
  obtain ⟨hmagic, hcursor, hrest⟩ := take_of_drop hfits (Nat.zero_le _) (List.drop_zero)
  obtain ⟨hschema, hcursor, hrest⟩ := take_of_drop hfits hcursor hrest
  obtain ⟨hcreated, hcursor, hrest⟩ := take_of_drop hfits hcursor hrest
  obtain ⟨hcount, hcursor, hrest⟩ := take_of_drop hfits hcursor hrest
  obtain ⟨hhash, hcursor, hrest⟩ := take_of_drop hfits hcursor hrest
  obtain ⟨hnonce, hcursor, hrest⟩ := take_of_drop hfits hcursor hrest
  obtain ⟨hannounced, hcursor, hrest⟩ := take_of_drop hfits hcursor hrest
  -- the announced length fits a `usize` of 64 bits
  have hwidth : usizeOfU64 (u64FromBeBytes raw.ciphertextLen) =
      some (u64FromBeBytes raw.ciphertextLen).toNat :=
    if_pos (Nat.le_sub_one_of_lt (UInt64.toNat_lt _))
  rw [readHeader, hlen, ensure_of (by omega)]
  by_cases hfound : raw.magic = magic
  · simp only [ok_bind, hmagic, ensure_of hfound, hschema, hcreated, hcount, hhash, hnonce,
      hannounced, hwidth, okOr_some]
    exact checkedSum_bind (hsize.trans (by decide)) _ _
  · simp only [ok_bind, hmagic, ensure_of_not hfound, error_bind]

theorem sliceFrom_layout (raw : Raw) :
    sliceFrom (layout raw) headerBytes = some raw.ciphertext := by
  have hlen := length_layout raw
  rw [sliceFrom, if_pos (by omega)]
  have hsplit : layout raw = (raw.magic.toList ++ raw.schema.toList ++ raw.createdAtMs.toList ++
      raw.recordCount.toList ++ raw.plaintextHash.toList ++ raw.nonce.toList ++
      raw.ciphertextLen.toList) ++ raw.ciphertext := by
    simp only [layout, List.append_assoc]
  rw [hsplit, List.drop_left' (by simp [headerBytes])]

/-- The vault a container's raw fields spell. -/
def Raw.vault (raw : Raw) : PortableVault := { raw.header with ciphertext := raw.ciphertext }

/-- On a container of admitted size the reader never indexes out of range: it checks the
magic, the length and the shape. -/
theorem fromBytes_layout (raw : Raw)
    (hsize : headerBytes + raw.ciphertext.length ≤ maxSerializedBytes) :
    fromBytes (layout raw) = some (do
      ensure (raw.magic = magic) (.Invalid "invalid portable vault magic")
      ensure (headerBytes + (u64FromBeBytes raw.ciphertextLen).toNat =
        headerBytes + raw.ciphertext.length) (.Invalid "invalid vault ciphertext length")
      raw.vault.validateShape
      .ok raw.vault) := by
  rw [fromBytes, readHeader_layout raw hsize]
  by_cases hfound : raw.magic = magic
  · rw [ensure_of hfound, ok_bind, ok_bind]
    by_cases hlength : headerBytes + (u64FromBeBytes raw.ciphertextLen).toNat =
        headerBytes + raw.ciphertext.length
    · rw [ensure_of hlength, ok_bind, ok_bind]
      show (sliceFrom (layout raw) headerBytes >>= _) = _
      rw [sliceFrom_layout]
      show some (raw.vault.validateShape.map _) = _
      cases raw.vault.validateShape <;> rfl
    · rw [ensure_of_not hlength, error_bind, error_bind]
  · rw [ensure_of_not hfound, error_bind, error_bind]

/-! ## Reading back and writing out -/

/-- The raw fields a vault is written as. -/
def raw (self : PortableVault) : Raw where
  magic := magic
  schema := beArray 2 self.schema.toNat
  createdAtMs := beArray 8 self.createdAtMs.toNat
  recordCount := beArray 8 self.recordCount.toNat
  plaintextHash := self.plaintextHash
  nonce := self.nonce
  ciphertextLen := beArray 8 self.ciphertext.length.toUInt64.toNat
  ciphertext := self.ciphertext

theorem toBytes_eq_ok {vault : PortableVault} {bytes : Bytes} :
    vault.toBytes = .ok bytes ↔ vault.ValidShape ∧ bytes = layout vault.raw := by
  simp only [toBytes, validateShape, bind_eq_ok, ensure_eq_ok, exists_const, layout, raw,
    toList_beArray, List.append_assoc, Except.ok.injEq, eq_comm (b := bytes)]

theorem u16FromBeBytes_beArray (a : UInt16) : u16FromBeBytes (beArray 2 a.toNat) = a := by
  rw [u16FromBeBytes, toList_beArray, ofBeBytes_beBytes_of_lt a.toNat_lt]
  exact UInt16.ofNat_toNat

theorem u64FromBeBytes_beArray (a : UInt64) : u64FromBeBytes (beArray 8 a.toNat) = a := by
  rw [u64FromBeBytes, toList_beArray, ofBeBytes_beBytes_of_lt a.toNat_lt]
  exact UInt64.ofNat_toNat

theorem beArray_u16FromBeBytes (v : Vector UInt8 2) : beArray 2 (u16FromBeBytes v).toNat = v := by
  have hlt := ofBeBytes_lt v.toList
  rw [Vector.length_toList] at hlt
  rw [u16FromBeBytes, show (ofBeBytes v.toList).toUInt16.toNat = ofBeBytes v.toList from
    Nat.mod_eq_of_lt hlt, beArray_ofBeBytes]

theorem beArray_u64FromBeBytes (v : Vector UInt8 8) : beArray 8 (u64FromBeBytes v).toNat = v := by
  have hlt := ofBeBytes_lt v.toList
  rw [Vector.length_toList] at hlt
  rw [u64FromBeBytes, show (ofBeBytes v.toList).toUInt64.toNat = ofBeBytes v.toList from
    Nat.mod_eq_of_lt hlt, beArray_ofBeBytes]

/-- A vault is what its raw fields spell. -/
theorem raw_vault (vault : PortableVault) : vault.raw.vault = vault := by
  show (⟨u16FromBeBytes (beArray 2 vault.schema.toNat),
    u64FromBeBytes (beArray 8 vault.createdAtMs.toNat),
    u64FromBeBytes (beArray 8 vault.recordCount.toNat), vault.plaintextHash, vault.nonce,
    vault.ciphertext⟩ : PortableVault) = vault
  rw [u16FromBeBytes_beArray, u64FromBeBytes_beArray, u64FromBeBytes_beArray]

/-- Raw fields with the right magic and length are those their vault is written as. -/
theorem vault_raw {fields : Raw} (hmagic : fields.magic = magic)
    (hlength : (u64FromBeBytes fields.ciphertextLen).toNat = fields.ciphertext.length) :
    fields.vault.raw = fields := by
  show (⟨magic, beArray 2 (u16FromBeBytes fields.schema).toNat,
    beArray 8 (u64FromBeBytes fields.createdAtMs).toNat,
    beArray 8 (u64FromBeBytes fields.recordCount).toNat, fields.plaintextHash, fields.nonce,
    beArray 8 fields.ciphertext.length.toUInt64.toNat, fields.ciphertext⟩ : Raw) = fields
  have hlen : fields.ciphertext.length.toUInt64 = u64FromBeBytes fields.ciphertextLen := by
    rw [← hlength]
    exact UInt64.ofNat_toNat
  rw [hlen, beArray_u16FromBeBytes, beArray_u64FromBeBytes, beArray_u64FromBeBytes,
    beArray_u64FromBeBytes, ← hmagic]

/-- A byte string of inadmissible size is refused before it is read. -/
theorem fromBytes_of_size {bytes : Bytes}
    (h : bytes.length < headerBytes ∨ maxSerializedBytes < bytes.length) :
    fromBytes bytes = some (.error (.Invalid "vault container size is invalid")) := by
  rw [fromBytes, readHeader, ensure_of_not (not_not.mpr h), error_bind]

/-- The reader accepts exactly what the writer writes. -/
theorem fromBytes_eq_ok_iff {bytes : Bytes} {vault : PortableVault} :
    fromBytes bytes = some (.ok vault) ↔ vault.toBytes = .ok bytes := by
  constructor
  · intro h
    by_cases hsize : bytes.length < headerBytes ∨ maxSerializedBytes < bytes.length
    · rw [fromBytes_of_size hsize] at h
      cases h
    · rw [not_or, not_lt, not_lt] at hsize
      obtain ⟨fields, rfl⟩ := exists_layout hsize.1
      rw [length_layout] at hsize
      rw [fromBytes_layout fields hsize.2, Option.some.injEq] at h
      -- what the reader checked is what the writer requires
      simp only [validateShape, bind_eq_ok, ensure_eq_ok, exists_const, Except.ok.injEq] at h
      obtain ⟨hmagic, hlength, hshape, rfl⟩ := h
      rw [toBytes_eq_ok, vault_raw hmagic (Nat.add_left_cancel hlength)]
      exact ⟨hshape, rfl⟩
  · intro h
    obtain ⟨hshape, rfl⟩ := toBytes_eq_ok.mp h
    have hbound : vault.ciphertext.length ≤ maxCiphertextBytes := hshape.2.2.2
    have hlength : (u64FromBeBytes (beArray 8 vault.ciphertext.length.toUInt64.toNat)).toNat =
        vault.ciphertext.length := by
      rw [u64FromBeBytes_beArray]
      exact Nat.mod_eq_of_lt (hbound.trans_lt (by decide))
    rw [fromBytes_layout vault.raw (Nat.add_le_add_left hbound _), raw_vault, validateShape]
    have hmagic : vault.raw.magic = magic := rfl
    have hannounced : headerBytes + (u64FromBeBytes vault.raw.ciphertextLen).toNat =
        headerBytes + vault.raw.ciphertext.length := congrArg (headerBytes + ·) hlength
    rw [ensure_of hmagic, ensure_of hannounced, ensure_of hshape]
    rfl

/-- No byte string makes the reader index out of range. -/
theorem fromBytes_ne_none (bytes : Bytes) : fromBytes bytes ≠ none := by
  by_cases hsize : bytes.length < headerBytes ∨ maxSerializedBytes < bytes.length
  · rw [fromBytes_of_size hsize]
    exact Option.some_ne_none _
  · rw [not_or, not_lt, not_lt] at hsize
    obtain ⟨fields, rfl⟩ := exists_layout hsize.1
    rw [length_layout] at hsize
    rw [fromBytes_layout fields hsize.2]
    exact Option.some_ne_none _

/-- Reading back what was written gives the vault, writing out what was read gives the
bytes, the accepted strings are exactly the written ones, and the reader never panics. -/
theorem fromBytes_toBytes :
    (∀ vault : PortableVault, vault.ValidShape →
      ∃ bytes, vault.toBytes = .ok bytes ∧ fromBytes bytes = some (.ok vault)) ∧
    (∀ bytes vault, fromBytes bytes = some (.ok vault) → vault.toBytes = .ok bytes) ∧
    (∀ bytes, (∃ vault, fromBytes bytes = some (.ok vault)) ↔
      ∃ vault : PortableVault, vault.toBytes = .ok bytes) ∧
    ∀ bytes, fromBytes bytes ≠ none := by
  refine ⟨fun vault hshape => ?_, fun bytes vault => fromBytes_eq_ok_iff.mp,
    fun bytes => exists_congr fun vault => fromBytes_eq_ok_iff, fromBytes_ne_none⟩
  have hwritten : vault.toBytes = .ok (layout vault.raw) := toBytes_eq_ok.mpr ⟨hshape, rfl⟩
  exact ⟨layout vault.raw, hwritten, fromBytes_eq_ok_iff.mpr hwritten⟩

/-- The smallest container: no records, and a ciphertext that is only a tag. -/
def plainVault : PortableVault where
  schema := 1
  createdAtMs := 1000
  recordCount := 0
  plaintextHash := Vector.replicate 32 7
  nonce := Vector.replicate 24 5
  ciphertext := List.replicate 16 3

theorem fromBytes_toBytes_plain :
    ∃ bytes, plainVault.toBytes = .ok bytes ∧ fromBytes bytes = some (.ok plainVault) :=
  fromBytes_toBytes.1 plainVault (by decide)

end PortableVault

end Vbuff.Sync
