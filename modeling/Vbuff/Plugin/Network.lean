import Vbuff.Lib.AddressBlock
import Vbuff.Plugin.Manifest

/-!
# Addresses a plugin may fetch from

`allows_resolved_address` is asked about every address a host name resolves to.  It knows the
ranges of both families that are not public, and takes an IPv4 address out of an IPv6 one when it is
mapped.

The other formats that carry an IPv4 address are not taken apart, and the newer of the two
documentation blocks of IPv6 is not known: the filter holds for an address exactly if it is not one
of those (`filterHolds_iff`).
-/

namespace Vbuff.Plugin

open AddressBlock

structure Ipv4Addr where
  o0 : UInt8
  o1 : UInt8
  o2 : UInt8
  o3 : UInt8
  deriving DecidableEq, Repr

structure Ipv6Addr where
  s0 : UInt16
  s1 : UInt16
  s2 : UInt16
  s3 : UInt16
  s4 : UInt16
  s5 : UInt16
  s6 : UInt16
  s7 : UInt16
  deriving DecidableEq, Repr

inductive IpAddr where
  | V4 (address : Ipv4Addr)
  | V6 (address : Ipv6Addr)
  deriving DecidableEq, Repr

/-! ## The standard library -/

namespace Ipv4Addr

variable (address : Ipv4Addr)

def isPrivate : Bool :=
  address.o0 == 10 || (address.o0 == 172 && 16 ≤ address.o1 && address.o1 ≤ 31) ||
    (address.o0 == 192 && address.o1 == 168)

def isLoopback : Bool := address.o0 == 127

def isLinkLocal : Bool := address.o0 == 169 && address.o1 == 254

def isBroadcast : Bool :=
  address.o0 == 255 && address.o1 == 255 && address.o2 == 255 && address.o3 == 255

def isDocumentation : Bool :=
  (address.o0 == 192 && address.o1 == 0 && address.o2 == 2) ||
    (address.o0 == 198 && address.o1 == 51 && address.o2 == 100) ||
    (address.o0 == 203 && address.o1 == 0 && address.o2 == 113)

def isUnspecified : Bool :=
  address.o0 == 0 && address.o1 == 0 && address.o2 == 0 && address.o3 == 0

def isMulticast : Bool := 224 ≤ address.o0 && address.o0 ≤ 239

/-- The address whose octets are those of two segments. -/
def ofSegments (high low : UInt16) : Ipv4Addr :=
  ⟨(high >>> 8).toUInt8, high.toUInt8, (low >>> 8).toUInt8, low.toUInt8⟩

end Ipv4Addr

namespace Ipv6Addr

def UNSPECIFIED : Ipv6Addr := ⟨0, 0, 0, 0, 0, 0, 0, 0⟩

def LOCALHOST : Ipv6Addr := ⟨0, 0, 0, 0, 0, 0, 0, 1⟩

variable (address : Ipv6Addr)

def isLoopback : Bool := address == LOCALHOST

def isUnspecified : Bool := address == UNSPECIFIED

def isMulticast : Bool := address.s0 &&& 0xff00 == 0xff00

def toIpv4Mapped : Option Ipv4Addr :=
  if address.s0 = 0 ∧ address.s1 = 0 ∧ address.s2 = 0 ∧ address.s3 = 0 ∧ address.s4 = 0 ∧
      address.s5 = 0xffff then some (.ofSegments address.s6 address.s7)
  else none

end Ipv6Addr

/-! ## The filter -/

def isPublicV4 (address : Ipv4Addr) : Bool :=
  !address.isPrivate && !address.isLoopback && !address.isLinkLocal && !address.isBroadcast &&
    !address.isDocumentation && !address.isUnspecified && !address.isMulticast &&
    address.o0 != 0 &&
    !(address.o0 == 100 && 64 ≤ address.o1 && address.o1 ≤ 127) &&
    !(address.o0 == 192 && address.o1 == 0 && address.o2 == 0) &&
    !(address.o0 == 192 && address.o1 == 88 && address.o2 == 99) &&
    !(address.o0 == 198 && (address.o1 == 18 || address.o1 == 19)) &&
    address.o0 < 224

def isPublicAddress : IpAddr → Bool
  | .V4 address => isPublicV4 address
  | .V6 address =>
      match address.toIpv4Mapped with
      | some mapped => isPublicV4 mapped
      | none =>
          !address.isLoopback && !address.isUnspecified && !address.isMulticast &&
            address.s0 &&& 0xfe00 != 0xfc00 &&
            address.s0 &&& 0xffc0 != 0xfe80 &&
            address.s0 &&& 0xffc0 != 0xfec0 &&
            !(address.s0 == 0x2001 && address.s1 == 0x0db8)

structure AuthorizedFetch where
  host : String
  port : UInt16
  maxResponseBytes : UInt64
  deriving DecidableEq, Repr

def AuthorizedFetch.allowsResolvedAddress (_self : AuthorizedFetch) (address : IpAddr) : Bool :=
  isPublicAddress address

/-! ## Ranges -/

def Ipv4Addr.bits (address : Ipv4Addr) : ℕ :=
  address.o0.toNat * 2 ^ 24 + address.o1.toNat * 2 ^ 16 + address.o2.toNat * 2 ^ 8 +
    address.o3.toNat

def Ipv6Addr.bits (address : Ipv6Addr) : ℕ :=
  address.s0.toNat * 2 ^ 112 + address.s1.toNat * 2 ^ 96 + address.s2.toNat * 2 ^ 80 +
    address.s3.toNat * 2 ^ 64 + address.s4.toNat * 2 ^ 48 + address.s5.toNat * 2 ^ 32 +
    address.s6.toNat * 2 ^ 16 + address.s7.toNat

def blockV4 (o0 o1 o2 o3 : UInt8) (length : ℕ) : Block 32 :=
  ⟨(Ipv4Addr.mk o0 o1 o2 o3).bits, length⟩

/-- A block of IPv6 addresses with the first segments and the last one given. -/
def blockV6 (s0 s1 s7 : UInt16) (length : ℕ) : Block 128 :=
  ⟨(Ipv6Addr.mk s0 s1 0 0 0 0 0 s7).bits, length⟩

/-- Loopback, private, link-local, multicast, documentation and unspecified addresses. -/
def specialV4 : List (Block 32) :=
  [blockV4 127 0 0 0 8, blockV4 10 0 0 0 8, blockV4 172 16 0 0 12, blockV4 192 168 0 0 16,
    blockV4 169 254 0 0 16, blockV4 224 0 0 0 4, blockV4 192 0 2 0 24, blockV4 198 51 100 0 24,
    blockV4 203 0 113 0 24, blockV4 0 0 0 0 32]

/-- The ranges of IPv4 that are not public, in the order of the filter. -/
def blockedV4 : List (Block 32) :=
  [blockV4 10 0 0 0 8, blockV4 172 16 0 0 12, blockV4 192 168 0 0 16, blockV4 127 0 0 0 8,
    blockV4 169 254 0 0 16, blockV4 255 255 255 255 32, blockV4 192 0 2 0 24,
    blockV4 198 51 100 0 24, blockV4 203 0 113 0 24, blockV4 0 0 0 0 32, blockV4 224 0 0 0 4,
    blockV4 0 0 0 0 8, blockV4 100 64 0 0 10, blockV4 192 0 0 0 24, blockV4 192 88 99 0 24,
    blockV4 198 18 0 0 15, blockV4 224 0 0 0 3]

/-- The ranges of IPv6 that the filter knows, in its order. -/
def blockedV6 : List (Block 128) :=
  [blockV6 0 0 1 128, blockV6 0 0 0 128, blockV6 0xff00 0 0 8, blockV6 0xfc00 0 0 7,
    blockV6 0xfe80 0 0 10, blockV6 0xfec0 0 0 10, blockV6 0x2001 0x0db8 0 32]

/-- Loopback, unspecified, link-local, unique-local and multicast addresses, and the first
documentation block. -/
def knownV6 : List (Block 128) :=
  [blockV6 0 0 1 128, blockV6 0 0 0 128, blockV6 0xfe80 0 0 10, blockV6 0xfc00 0 0 7,
    blockV6 0xff00 0 0 8, blockV6 0x2001 0x0db8 0 32]

/-- The second documentation block. -/
def documentationV6 : Block 128 := blockV6 0x3fff 0 0 20

def specialV6 : List (Block 128) := documentationV6 :: knownV6

/-! ## IPv4 addresses in IPv6 ones -/

inductive TransitionFormat where
  | Mapped
  | Compatible
  | SixToFour
  | Nat64
  deriving DecidableEq, Repr

/-- The IPv4 address that an IPv6 address embeds. -/
def TransitionFormat.embedded (format : TransitionFormat) (address : Ipv6Addr) :
    Option Ipv4Addr :=
  match format with
  | .Mapped => address.toIpv4Mapped
  | .Compatible =>
      if address.s0 = 0 ∧ address.s1 = 0 ∧ address.s2 = 0 ∧ address.s3 = 0 ∧ address.s4 = 0 ∧
          address.s5 = 0 then some (.ofSegments address.s6 address.s7)
      else none
  | .SixToFour =>
      if address.s0 = 0x2002 then some (.ofSegments address.s1 address.s2) else none
  | .Nat64 =>
      if address.s0 = 0x64 ∧ address.s1 = 0xff9b ∧ address.s2 = 0 ∧ address.s3 = 0 ∧
          address.s4 = 0 ∧ address.s5 = 0 then some (.ofSegments address.s6 address.s7)
      else none

/-- What the filter is to do with an address: none in a special range is allowed, and none that
embeds a rejected one. -/
def FilterHolds (fetch : AuthorizedFetch) : IpAddr → Prop
  | .V4 address => Within specialV4 address.bits → fetch.allowsResolvedAddress (.V4 address) = false
  | .V6 address =>
      (Within specialV6 address.bits → fetch.allowsResolvedAddress (.V6 address) = false) ∧
        ∀ format v, TransitionFormat.embedded format address = some v →
          fetch.allowsResolvedAddress (.V4 v) = false →
            fetch.allowsResolvedAddress (.V6 address) = false

/-- The addresses that get past it: those of the second documentation block, and those that embed
an address that is not public in a format that is not taken apart, but for `::` and `::1`. -/
def Bypasses : IpAddr → Prop
  | .V4 _ => False
  | .V6 address =>
      documentationV6.Contains address.bits ∨
        ∃ format ≠ TransitionFormat.Mapped, ∃ v, format.embedded address = some v ∧
          Within blockedV4 v.bits ∧ address ≠ .UNSPECIFIED ∧ address ≠ .LOCALHOST

/-! ## The tests of the filter -/

variable {v : Ipv4Addr}

theorem Ipv4Addr.octets_lt (v : Ipv4Addr) :
    v.o0.toNat < 256 ∧ v.o1.toNat < 256 ∧ v.o2.toNat < 256 ∧ v.o3.toNat < 256 :=
  ⟨v.o0.toNat_lt, v.o1.toNat_lt, v.o2.toNat_lt, v.o3.toNat_lt⟩

theorem contains_one (o : UInt8) : (blockV4 o 0 0 0 8).Contains v.bits ↔ v.o0 = o := by
  have hv := v.octets_lt
  simp only [Block.Contains, blockV4, Ipv4Addr.bits, UInt8.toNat_zero, ← UInt8.toNat_inj]
  omega

theorem contains_two (o p : UInt8) :
    (blockV4 o p 0 0 16).Contains v.bits ↔ v.o0 = o ∧ v.o1 = p := by
  have hv := v.octets_lt
  have hp := p.toNat_lt
  simp only [Block.Contains, blockV4, Ipv4Addr.bits, UInt8.toNat_zero, ← UInt8.toNat_inj]
  omega

theorem contains_three (o p q : UInt8) :
    (blockV4 o p q 0 24).Contains v.bits ↔ v.o0 = o ∧ v.o1 = p ∧ v.o2 = q := by
  have hv := v.octets_lt
  have hp := p.toNat_lt
  have hq := q.toNat_lt
  simp only [Block.Contains, blockV4, Ipv4Addr.bits, UInt8.toNat_zero, ← UInt8.toNat_inj]
  omega

theorem contains_four (o p q r : UInt8) :
    (blockV4 o p q r 32).Contains v.bits ↔ v.o0 = o ∧ v.o1 = p ∧ v.o2 = q ∧ v.o3 = r := by
  have hv := v.octets_lt
  have hp := p.toNat_lt
  have hq := q.toNat_lt
  have hr := r.toNat_lt
  simp only [Block.Contains, blockV4, Ipv4Addr.bits, ← UInt8.toNat_inj]
  omega

theorem contains_private :
    (blockV4 172 16 0 0 12).Contains v.bits ↔ v.o0 = 172 ∧ 16 ≤ v.o1 ∧ v.o1 ≤ 31 := by
  have hv := v.octets_lt
  simp only [Block.Contains, blockV4, Ipv4Addr.bits, UInt8.reduceToNat, ← UInt8.toNat_inj,
    UInt8.le_iff_toNat_le]
  omega

theorem contains_shared :
    (blockV4 100 64 0 0 10).Contains v.bits ↔ v.o0 = 100 ∧ 64 ≤ v.o1 ∧ v.o1 ≤ 127 := by
  have hv := v.octets_lt
  simp only [Block.Contains, blockV4, Ipv4Addr.bits, UInt8.reduceToNat, ← UInt8.toNat_inj,
    UInt8.le_iff_toNat_le]
  omega

theorem contains_benchmarking :
    (blockV4 198 18 0 0 15).Contains v.bits ↔ v.o0 = 198 ∧ (v.o1 = 18 ∨ v.o1 = 19) := by
  have hv := v.octets_lt
  simp only [Block.Contains, blockV4, Ipv4Addr.bits, UInt8.reduceToNat, ← UInt8.toNat_inj]
  omega

theorem contains_multicast :
    (blockV4 224 0 0 0 4).Contains v.bits ↔ 224 ≤ v.o0 ∧ v.o0 ≤ 239 := by
  have hv := v.octets_lt
  simp only [Block.Contains, blockV4, Ipv4Addr.bits, UInt8.reduceToNat, UInt8.le_iff_toNat_le]
  omega

theorem contains_upper : (blockV4 224 0 0 0 3).Contains v.bits ↔ ¬v.o0 < 224 := by
  have hv := v.octets_lt
  simp only [Block.Contains, blockV4, Ipv4Addr.bits, UInt8.reduceToNat, UInt8.lt_iff_toNat_lt]
  omega

/-- The tests are the table, entry by entry. -/
theorem isPublicV4_eq_false_iff (v : Ipv4Addr) :
    isPublicV4 v = false ↔ Within blockedV4 v.bits := by
  simp only [isPublicV4, Ipv4Addr.isPrivate, Ipv4Addr.isLoopback, Ipv4Addr.isLinkLocal,
    Ipv4Addr.isBroadcast, Ipv4Addr.isDocumentation, Ipv4Addr.isUnspecified, Ipv4Addr.isMulticast,
    blockedV4, within_cons, within_nil, contains_one, contains_two, contains_three, contains_four,
    contains_private, contains_shared, contains_benchmarking, contains_multicast, contains_upper,
    Bool.and_eq_false_iff, Bool.not_eq_false', Bool.or_eq_true, Bool.and_eq_true, beq_iff_eq,
    decide_eq_true_eq, bne_eq_false_iff_eq, decide_eq_false_iff_not, or_assoc, and_assoc, or_false]

section

variable {a : Ipv6Addr}

theorem Ipv6Addr.segments_lt (a : Ipv6Addr) :
    a.s0.toNat < 65536 ∧ a.s1.toNat < 65536 ∧ a.s2.toNat < 65536 ∧ a.s3.toNat < 65536 ∧
      a.s4.toNat < 65536 ∧ a.s5.toNat < 65536 ∧ a.s6.toNat < 65536 ∧ a.s7.toNat < 65536 :=
  ⟨a.s0.toNat_lt, a.s1.toNat_lt, a.s2.toNat_lt, a.s3.toNat_lt, a.s4.toNat_lt, a.s5.toNat_lt,
    a.s6.toNat_lt, a.s7.toNat_lt⟩

theorem Ipv6Addr.bits_div_first (a : Ipv6Addr) : a.bits / 2 ^ 112 = a.s0.toNat := by
  have ha := a.segments_lt
  unfold Ipv6Addr.bits
  omega

theorem Ipv6Addr.bits_div_second (a : Ipv6Addr) :
    a.bits / 2 ^ 96 = a.s0.toNat * 2 ^ 16 + a.s1.toNat := by
  have ha := a.segments_lt
  unfold Ipv6Addr.bits
  omega

/-- A block within the first segment. -/
theorem contains_first (s0 : UInt16) {length : ℕ} (hlength : length ≤ 16) :
    (blockV6 s0 0 0 length).Contains a.bits ↔
      a.s0.toNat / 2 ^ (16 - length) = s0.toNat / 2 ^ (16 - length) := by
  have hsplit : 128 - length = 112 + (16 - length) := by omega
  rw [Block.Contains, blockV6, hsplit, Nat.pow_add, ← Nat.div_div_eq_div_mul,
    ← Nat.div_div_eq_div_mul, Ipv6Addr.bits_div_first, Ipv6Addr.bits_div_first]

/-- A mask within a segment. -/
theorem segment_masked {n k : ℕ} (s mask base : UInt16) (hmask : mask.toNat = (2 ^ n - 1) * 2 ^ k)
    (hwidth : n + k = 16) (hbase : base.toNat % 2 ^ k = 0) :
    s &&& mask = base ↔ s.toNat / 2 ^ k = base.toNat / 2 ^ k := by
  have hs : s.toNat < 2 ^ (n + k) := by
    rw [hwidth]
    exact s.toNat_lt
  rw [← UInt16.toNat_inj, UInt16.toNat_and, hmask]
  exact masked_eq_iff hs hbase

theorem contains_multicastV6 : (blockV6 0xff00 0 0 8).Contains a.bits ↔ a.s0 &&& 0xff00 = 0xff00 :=
  (contains_first 0xff00 (by decide)).trans
    (segment_masked (n := 8) (k := 8) a.s0 0xff00 0xff00 rfl rfl rfl).symm

theorem contains_uniqueLocal : (blockV6 0xfc00 0 0 7).Contains a.bits ↔ a.s0 &&& 0xfe00 = 0xfc00 :=
  (contains_first 0xfc00 (by decide)).trans
    (segment_masked (n := 7) (k := 9) a.s0 0xfe00 0xfc00 rfl rfl rfl).symm

theorem contains_linkLocal : (blockV6 0xfe80 0 0 10).Contains a.bits ↔ a.s0 &&& 0xffc0 = 0xfe80 :=
  (contains_first 0xfe80 (by decide)).trans
    (segment_masked (n := 10) (k := 6) a.s0 0xffc0 0xfe80 rfl rfl rfl).symm

theorem contains_siteLocal : (blockV6 0xfec0 0 0 10).Contains a.bits ↔ a.s0 &&& 0xffc0 = 0xfec0 :=
  (contains_first 0xfec0 (by decide)).trans
    (segment_masked (n := 10) (k := 6) a.s0 0xffc0 0xfec0 rfl rfl rfl).symm

/-- A block within the second segment. -/
theorem contains_second (s0 s1 : UInt16) {length : ℕ} (hlength : length ≤ 32) :
    (blockV6 s0 s1 0 length).Contains a.bits ↔
      (a.s0.toNat * 2 ^ 16 + a.s1.toNat) / 2 ^ (32 - length) =
        (s0.toNat * 2 ^ 16 + s1.toNat) / 2 ^ (32 - length) := by
  have hsplit : 128 - length = 96 + (32 - length) := by omega
  rw [Block.Contains, blockV6, hsplit, Nat.pow_add, ← Nat.div_div_eq_div_mul,
    ← Nat.div_div_eq_div_mul, Ipv6Addr.bits_div_second, Ipv6Addr.bits_div_second]

theorem contains_documentation :
    (blockV6 0x2001 0x0db8 0 32).Contains a.bits ↔ a.s0 = 0x2001 ∧ a.s1 = 0x0db8 := by
  have ha := a.segments_lt
  rw [contains_second _ _ (by decide), ← UInt16.toNat_inj, ← UInt16.toNat_inj]
  simp only [UInt16.reduceToNat]
  omega

theorem contains_documentationV6 :
    documentationV6.Contains a.bits ↔ a.s0 = 0x3fff ∧ a.s1.toNat < 2 ^ 12 := by
  have ha := a.segments_lt
  rw [documentationV6, contains_second _ _ (by decide), ← UInt16.toNat_inj]
  simp only [UInt16.reduceToNat]
  omega

theorem Ipv6Addr.ext_toNat {b : Ipv6Addr} :
    a = b ↔ a.s0.toNat = b.s0.toNat ∧ a.s1.toNat = b.s1.toNat ∧ a.s2.toNat = b.s2.toNat ∧
      a.s3.toNat = b.s3.toNat ∧ a.s4.toNat = b.s4.toNat ∧ a.s5.toNat = b.s5.toNat ∧
      a.s6.toNat = b.s6.toNat ∧ a.s7.toNat = b.s7.toNat := by
  obtain ⟨a0, a1, a2, a3, a4, a5, a6, a7⟩ := a
  obtain ⟨b0, b1, b2, b3, b4, b5, b6, b7⟩ := b
  simp only [Ipv6Addr.mk.injEq, UInt16.toNat_inj]

/-- A block of one address. -/
theorem contains_whole (s7 : UInt16) :
    (blockV6 0 0 s7 128).Contains a.bits ↔ a = ⟨0, 0, 0, 0, 0, 0, 0, s7⟩ := by
  have ha := a.segments_lt
  have hs7 := s7.toNat_lt
  rw [Ipv6Addr.ext_toNat]
  simp only [Block.Contains, blockV6, Ipv6Addr.bits, UInt16.toNat_zero]
  omega

/-- The tests of an address that is not mapped are the table, entry by entry. -/
theorem isPublicAddress_eq_false_iff (hmapped : a.toIpv4Mapped = none) :
    isPublicAddress (.V6 a) = false ↔ Within blockedV6 a.bits := by
  rw [isPublicAddress, hmapped]
  simp only [Ipv6Addr.isLoopback, Ipv6Addr.isUnspecified, Ipv6Addr.isMulticast, blockedV6,
    within_cons, within_nil, contains_whole, contains_multicastV6, contains_uniqueLocal,
    contains_linkLocal, contains_siteLocal, contains_documentation, Bool.and_eq_false_iff,
    Bool.not_eq_false', Bool.and_eq_true, beq_iff_eq, bne_eq_false_iff_eq, or_assoc, or_false]
  rfl

/-! ## Which addresses get past -/

theorem toIpv4Mapped_eq_none (h : a.s0 ≠ 0 ∨ a.s5 ≠ 0xffff) : a.toIpv4Mapped = none := by
  refine if_neg ?_
  rintro ⟨hfirst, -, -, -, -, hsixth⟩
  exact h.elim (· hfirst) (· hsixth)

/-- The segments of a mapped address. -/
theorem of_toIpv4Mapped {v : Ipv4Addr} (h : a.toIpv4Mapped = some v) :
    a.s0 = 0 ∧ a.s5 = 0xffff := by
  unfold Ipv6Addr.toIpv4Mapped at h
  split at h
  case isTrue hsegments => exact ⟨hsegments.1, hsegments.2.2.2.2.2⟩
  case isFalse => cases h

/-- An address with another first segment is in none of the ranges. -/
theorem not_within_blockedV6 (hfirst : a.s0 = 0 ∨ a.s0 = 0x64 ∨ a.s0 = 0x2002 ∨ a.s0 = 0x3fff)
    (hunspecified : a ≠ .UNSPECIFIED) (hloopback : a ≠ .LOCALHOST) :
    ¬Within blockedV6 a.bits := by
  simp only [blockedV6, within_cons, within_nil, contains_whole, contains_multicastV6,
    contains_uniqueLocal, contains_linkLocal, contains_siteLocal, contains_documentation, or_false]
  rintro (h | h | h | h | h | h | ⟨h, -⟩)
  · exact hloopback h
  · exact hunspecified h
  all_goals
    rcases hfirst with hs | hs | hs | hs <;> rw [hs] at h <;> exact absurd h (by decide)

/-- A format that is not taken apart shows in the first segment, and not in the sixth. -/
theorem of_embedded {format : TransitionFormat} {v : Ipv4Addr} (hformat : format ≠ .Mapped)
    (h : format.embedded a = some v) :
    (a.s0 = 0 ∨ a.s0 = 0x64 ∨ a.s0 = 0x2002 ∨ a.s0 = 0x3fff) ∧ a.toIpv4Mapped = none := by
  unfold TransitionFormat.embedded at h
  cases format with
  | Mapped => exact absurd rfl hformat
  | Compatible =>
    dsimp only at h
    split at h
    case isTrue hsegments =>
      refine ⟨.inl hsegments.1, toIpv4Mapped_eq_none (.inr ?_)⟩
      rw [hsegments.2.2.2.2.2]
      decide
    case isFalse => cases h
  | SixToFour =>
    dsimp only at h
    split at h
    case isTrue hfirst =>
      refine ⟨.inr (.inr (.inl hfirst)), toIpv4Mapped_eq_none (.inl ?_)⟩
      rw [hfirst]
      decide
    case isFalse => cases h
  | Nat64 =>
    dsimp only at h
    split at h
    case isTrue hsegments =>
      refine ⟨.inr (.inl hsegments.1), toIpv4Mapped_eq_none (.inl ?_)⟩
      rw [hsegments.1]
      decide
    case isFalse => cases h

/-- No mapped address is in a special range. -/
theorem not_within_knownV6 {v : Ipv4Addr} (h : a.toIpv4Mapped = some v) :
    ¬Within knownV6 a.bits := by
  obtain ⟨hfirst, hsixth⟩ := of_toIpv4Mapped h
  have hsub : knownV6 ⊆ blockedV6 := by decide
  intro hwithin
  refine not_within_blockedV6 (.inl hfirst) ?_ ?_ (within_of_subset hsub hwithin)
  · rintro rfl
    exact absurd hsixth (by decide)
  · rintro rfl
    exact absurd hsixth (by decide)

end

/-- The filter does what it is to do for an address exactly if that does not get past it. -/
theorem filterHolds_iff (fetch : AuthorizedFetch) (address : IpAddr) :
    FilterHolds fetch address ↔ ¬Bypasses address := by
  cases address with
  | V4 v =>
    refine iff_of_true (fun hspecial => ?_) id
    have hsub : specialV4 ⊆ blockedV4 := by decide
    exact (isPublicV4_eq_false_iff v).mpr (within_of_subset hsub hspecial)
  | V6 a =>
    constructor
    · rintro ⟨hspecial, hembedded⟩ (hdocumentation | ⟨format, hformat, v, hv, hblocked, hne, hne'⟩)
      · obtain ⟨hfirst, -⟩ := contains_documentationV6.mp hdocumentation
        have hrejected := hspecial ⟨_, List.mem_cons_self, hdocumentation⟩
        have hmapped : a.toIpv4Mapped = none := toIpv4Mapped_eq_none (.inl (by rw [hfirst]; decide))
        refine not_within_blockedV6 (.inr (.inr (.inr hfirst))) ?_ ?_
          ((isPublicAddress_eq_false_iff hmapped).mp hrejected)
        · rintro rfl
          exact absurd hfirst (by decide)
        · rintro rfl
          exact absurd hfirst (by decide)
      · obtain ⟨hfirst, hmapped⟩ := of_embedded hformat hv
        have hrejected := hembedded format v hv ((isPublicV4_eq_false_iff v).mpr hblocked)
        exact not_within_blockedV6 hfirst hne hne'
          ((isPublicAddress_eq_false_iff hmapped).mp hrejected)
    · intro hpasses
      refine ⟨fun hspecial => ?_, fun format v hv hrejected => ?_⟩
      · have hknown : Within knownV6 a.bits :=
          ((within_cons _ _ _).mp hspecial).resolve_left fun h => hpasses (.inl h)
        cases hmapped : a.toIpv4Mapped with
        | some v => exact absurd hknown (not_within_knownV6 hmapped)
        | none =>
          have hsub : knownV6 ⊆ blockedV6 := by decide
          exact (isPublicAddress_eq_false_iff hmapped).mpr (within_of_subset hsub hknown)
      · by_cases hformat : format = .Mapped
        · obtain rfl := hformat
          have hmapped : a.toIpv4Mapped = some v := hv
          rw [AuthorizedFetch.allowsResolvedAddress, isPublicAddress, hmapped]
          exact hrejected
        · have hblocked := (isPublicV4_eq_false_iff v).mp hrejected
          by_cases hne : a = .UNSPECIFIED
          · rw [hne]
            rfl
          · by_cases hne' : a = .LOCALHOST
            · rw [hne']
              rfl
            · exact absurd (.inr ⟨format, hformat, v, hv, hblocked, hne, hne'⟩) hpasses

/-- `64:ff9b::127.0.0.1` is allowed. -/
theorem nat64_loopback_allowed :
    ¬∀ fetch address, FilterHolds fetch address := by
  intro h
  have hrejected := (h ⟨"api.example.com", 443, 1024⟩
    (.V6 ⟨0x64, 0xff9b, 0, 0, 0, 0, 0x7f00, 1⟩)).2 .Nat64 ⟨127, 0, 0, 1⟩ (by decide) (by decide)
  exact absurd hrejected (by decide)

end Vbuff.Plugin
