import Vbuff.Lib.Framing
import Vbuff.Sync.Clock

/-!
# Domain-separated preimages

The builder every signed record of the sync crate goes through.  A preimage is the
domain label, one `0x00`, and then fields that are either of fixed width or behind a
`u32` big-endian length.  A field too long for its length prefix poisons the builder,
and `finish` refuses.

`Writes w fits out` is the specification of a builder step: it appends `out` when its
fields fit and poisons the builder when they do not.  Steps compose
(`Writes.andThen`), and a finished preimage is read back with `finish_eq_ok`.  The
second half gives the framing rule of each field.
-/

namespace Vbuff.Sync

open ByteString Framing

/-- The largest length a `u32` prefix can hold, plus one. -/
def lengthLimit : ℕ := 2 ^ 32

structure Preimage where
  buf : Bytes
  overflow : Bool
  deriving DecidableEq, Repr

namespace Preimage

/-- Start a preimage with `domain` and the single terminator. -/
def new (domain : Bytes) : Preimage := { buf := domain ++ [0], overflow := false }

/-- Append a fixed-width field verbatim. -/
def fixed (self : Preimage) (bytes : Bytes) : Preimage := { self with buf := self.buf ++ bytes }

/-- Append a variable-length field behind its length, or poison the builder. -/
def var (self : Preimage) (bytes : Bytes) : Preimage :=
  if bytes.length < lengthLimit then
    { self with buf := self.buf ++ beBytes 4 bytes.length ++ bytes }
  else { self with overflow := true }

def byte (self : Preimage) (value : UInt8) : Preimage := { self with buf := self.buf ++ [value] }

/-- Append an optional variable-length field. -/
def optional (self : Preimage) (value : Option Bytes) : Preimage :=
  match value with
  | none => self.byte 0
  | some bytes => (self.byte 1).var bytes

def u32Be (self : Preimage) (value : UInt32) : Preimage := self.fixed (beBytes 4 value.toNat)

def u64Be (self : Preimage) (value : UInt64) : Preimage := self.fixed (beBytes 8 value.toNat)

/-- The finished bytes, unless a field overflowed its length prefix. -/
def finish (self : Preimage) : Except SyncError Bytes :=
  if self.overflow then .error (.Invalid "preimage field exceeds the u32 length prefix")
  else .ok self.buf

/-! ## What a step writes -/

/-- The step `w` appends `out` when its fields fit and poisons the builder otherwise. -/
structure Writes (w : Preimage → Preimage) (fits : Prop) (out : Bytes) : Prop where
  buf_eq : ∀ p, fits → (w p).buf = p.buf ++ out
  overflow_iff : ∀ p, (w p).overflow = true ↔ p.overflow = true ∨ ¬ fits

/-- The bytes of a variable-length field. -/
def varBytes (bytes : Bytes) : Bytes := beBytes 4 bytes.length ++ bytes

/-- The bytes of an optional variable-length field. -/
def optionalBytes (value : Option Bytes) : Bytes :=
  value.elim [0] fun bytes => 1 :: varBytes bytes

theorem writes_fixed (bytes : Bytes) : Writes (·.fixed bytes) True bytes where
  buf_eq _ _ := rfl
  overflow_iff p := by simp [fixed]

theorem writes_byte (value : UInt8) : Writes (·.byte value) True [value] where
  buf_eq _ _ := rfl
  overflow_iff p := by simp [byte]

theorem writes_var (bytes : Bytes) :
    Writes (·.var bytes) (bytes.length < lengthLimit) (varBytes bytes) where
  buf_eq p hfits := by rw [var, if_pos hfits, varBytes, List.append_assoc]
  overflow_iff p := by
    rw [var]
    split
    case isTrue hfits => simp only [not_true_eq_false, or_false, hfits]
    case isFalse hlong => simp only [not_false_eq_true, or_true, hlong]

theorem writes_u32Be (value : UInt32) :
    Writes (·.u32Be value) True (beBytes 4 value.toNat) := writes_fixed _

theorem writes_u64Be (value : UInt64) :
    Writes (·.u64Be value) True (beBytes 8 value.toNat) := writes_fixed _

/-- One step after another. -/
theorem Writes.andThen {w w' : Preimage → Preimage} {fits fits' : Prop} {out out' : Bytes}
    (h : Writes w fits out) (h' : Writes w' fits' out') :
    Writes (fun p => w' (w p)) (fits ∧ fits') (out ++ out') where
  buf_eq p hfits := by
    rw [h'.buf_eq _ hfits.2, h.buf_eq _ hfits.1, List.append_assoc]
  overflow_iff p := by
    rw [h'.overflow_iff, h.overflow_iff, not_and_or, or_assoc]

theorem Writes.congr {w : Preimage → Preimage} {fits fits' : Prop} {out out' : Bytes}
    (h : Writes w fits out) (hfits : fits ↔ fits') (hout : out = out') :
    Writes w fits' out' := by
  rwa [← hout, ← propext hfits]

theorem writes_optional (value : Option Bytes) :
    Writes (·.optional value) (∀ bytes ∈ value, bytes.length < lengthLimit)
      (optionalBytes value) := by
  cases value with
  | none => exact (writes_byte 0).congr (by simp) rfl
  | some bytes => exact ((writes_byte 1).andThen (writes_var bytes)).congr (by simp) rfl

/-- What a finished preimage says. -/
theorem Writes.finish_eq_ok {w : Preimage → Preimage} {fits : Prop} {out : Bytes}
    (h : Writes w fits out) (domain bytes : Bytes) :
    (w (new domain)).finish = .ok bytes ↔ fits ∧ bytes = domain ++ [0] ++ out := by
  have hoverflow := h.overflow_iff (new domain)
  rw [finish]
  split
  case isTrue hpoisoned =>
    have hlong : ¬ fits := (hoverflow.mp hpoisoned).resolve_left Bool.false_ne_true
    exact iff_of_false (by simp) fun hfits => hlong hfits.1
  case isFalse hclean =>
    have hfits : fits := by
      by_contra hlong
      exact hclean (hoverflow.mpr (Or.inr hlong))
    rw [Except.ok.injEq, h.buf_eq _ hfits, and_iff_right hfits, eq_comm]
    exact Iff.rfl

/-! ## How a field is framed -/

theorem delimits_var : Delimits {bytes | bytes.length < lengthLimit} varBytes id :=
  delimits_lengthPrefixed (delimits_beBytes 4)

/-- A string field. -/
theorem delimits_str :
    Delimits {s | (asBytes s).length < lengthLimit} (fun s => varBytes (asBytes s)) id :=
  (delimits_var.comap asBytes fun _ hs => hs).map fun _ _ _ _ h => asBytes_injective h

/-- An optional string field. -/
theorem delimits_optionalStr :
    Delimits {o : Option String | ∀ s ∈ o, (asBytes s).length < lengthLimit}
      (fun o => optionalBytes (o.map asBytes)) id := by
  have hopt := (delimits_optional delimits_var 0 1 (by decide)).comap
    (Option.map asBytes) (V := {o : Option String | ∀ s ∈ o, (asBytes s).length < lengthLimit})
    (by
      rintro (_ | s) ho bytes hbytes
      · exact absurd hbytes (by simp)
      · rw [← Option.some.inj hbytes]
        exact ho s rfl)
  exact hopt.map fun _ _ _ _ h => Option.map_injective asBytes_injective h

/-- The bytes of a hybrid clock: node, physical time, counter. -/
def clockBytes (clock : HybridLogicalClock) : Bytes :=
  varBytes (asBytes clock.nodeId) ++ beBytes 8 clock.physicalMs.toNat ++
    beBytes 4 clock.logical.toNat

theorem writes_clock (clock : HybridLogicalClock) :
    Writes (fun p => ((p.var (asBytes clock.nodeId)).u64Be clock.physicalMs).u32Be clock.logical)
      ((asBytes clock.nodeId).length < lengthLimit) (clockBytes clock) :=
  (((writes_var _).andThen (writes_u64Be _)).andThen (writes_u32Be _)).congr
    (by rw [and_true, and_true]) rfl

theorem delimits_clock :
    Delimits {clock : HybridLogicalClock | (asBytes clock.nodeId).length < lengthLimit}
      clockBytes id := by
  have hfields := ((delimits_str.comap HybridLogicalClock.nodeId fun _ hc => hc).append
    (delimits_u64.comap HybridLogicalClock.physicalMs fun _ _ => Set.mem_univ _)).append
    (delimits_u32.comap HybridLogicalClock.logical fun _ _ => Set.mem_univ _)
  refine hfields.map ?_
  rintro ⟨p, l, n⟩ - ⟨p', l', n'⟩ - h
  simp only [id_eq, Prod.mk.injEq] at h
  obtain ⟨⟨rfl, rfl⟩, rfl⟩ := h
  rfl

/-- A label without a terminator of its own, followed by the terminator. -/
theorem delimits_domain :
    Delimits {domain : Bytes | 0 ∉ domain} (fun domain => domain ++ [0]) id :=
  delimits_terminated 0

end Preimage

end Vbuff.Sync
