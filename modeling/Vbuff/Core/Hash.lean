import Vbuff.Lib.Framing
import Vbuff.Lib.StableSort
import Vbuff.Types.Flavor

/-!
# The content hash

Clips are identified by a hash over all their flavors, ordered by MIME.  An entry is
the MIME, the length of the body and the body; the MIME carries no length of its own,
so where it ends has to follow from the MIME strings in use.  `preimage` is what the
hash is fed, and the section on framing says when it can be read back.

Entries of one MIME keep the order they came in.  The section on order says for which flavors that
order shows in the hash.
-/

namespace Vbuff.Core

open ByteString Framing Vbuff.Types

/-- A flavor as seen at capture time.  A slice holds fewer than `2^63` bytes. -/
structure CanonicalFlavor where
  mime : String
  bytes : Bytes
  length_lt : bytes.length < 2 ^ 63
  deriving DecidableEq

namespace CanonicalFlavor

/-- What one flavor adds to the hash. -/
def encode (flavor : CanonicalFlavor) : Bytes :=
  asBytes flavor.mime ++ (leBytes 8 flavor.bytes.length ++ flavor.bytes)

/-- The order of the entries: by MIME, and flavors of one MIME as they came. -/
def mimeLE (a b : CanonicalFlavor) : Prop := a.mime ≤ b.mime

instance : DecidableRel mimeLE := fun a b => inferInstanceAs (Decidable (a.mime ≤ b.mime))

/-- The bytes hashed for a flavor list. -/
def preimage (flavors : List CanonicalFlavor) : Bytes :=
  (flavors.insertionSort mimeLE).flatMap encode

end CanonicalFlavor

open CanonicalFlavor

/-- `content_hash`, over the hash function. -/
def contentHash (blake3 : Bytes → Bytes) (flavors : List CanonicalFlavor) : Bytes :=
  blake3 (preimage flavors)

/-- The bytes a stored flavor contributes: its inline body, or the name of its blob. -/
def hashedBytes (flavor : Flavor) : Bytes :=
  match flavor.body with
  | .Inline bytes => bytes
  | .Spilled blobRef _ => asBytes blobRef

/-- `content_hash_from_flavors`. -/
def contentHashFromFlavors (blake3 : Bytes → Bytes) (flavors : List Flavor) : Bytes :=
  blake3 ((flavors.insertionSort fun a b => a.mime ≤ b.mime).flatMap fun flavor =>
    asBytes flavor.mime ++ (leBytes 8 (hashedBytes flavor).length ++ hashedBytes flavor))

/-! ## Framing -/

/-- No MIME of the set is a proper prefix of another one. -/
def PrefixFree (mimes : Set String) : Prop :=
  ∀ m ∈ mimes, ∀ m' ∈ mimes, asBytes m <+: asBytes m' → m = m'

/-- Among lists over these MIME strings, the hashed bytes determine the flavors. -/
def Unambiguous (mimes : Set String) : Prop :=
  ∀ a b : List CanonicalFlavor, (∀ f ∈ a, f.mime ∈ mimes) → (∀ f ∈ b, f.mime ∈ mimes) →
    preimage a = preimage b → a.Perm b

namespace CanonicalFlavor

variable {mimes : Set String}

theorem encode_mk (m : String) (bytes : Bytes) (h : bytes.length < 2 ^ 63) :
    encode ⟨m, bytes, h⟩ = asBytes m ++ (leBytes 8 bytes.length ++ bytes) := rfl

theorem encode_ne_nil (flavor : CanonicalFlavor) : encode flavor ≠ [] := by
  intro h
  have hlen := congrArg List.length h
  simp [encode] at hlen

theorem delimits_mime (h : PrefixFree mimes) : Delimits mimes asBytes id :=
  delimits_id_iff.mpr h

/-- Body and length are framed whatever the body is. -/
theorem delimits_body :
    Delimits {bytes : Bytes | bytes.length < 2 ^ 63}
      (fun bytes => leBytes 8 bytes.length ++ bytes) id :=
  (delimits_lengthPrefixed (delimits_leBytes 8)).mono fun bytes h =>
    lt_trans (show bytes.length < 2 ^ 63 from h) (by decide)

theorem delimits_encode (h : PrefixFree mimes) :
    Delimits {flavor | flavor.mime ∈ mimes} encode id := by
  have hmime : Delimits {flavor : CanonicalFlavor | flavor.mime ∈ mimes}
      (fun flavor => asBytes flavor.mime) mime :=
    (delimits_mime h).comap mime fun _ hf => hf
  have hbody : Delimits {flavor : CanonicalFlavor | flavor.mime ∈ mimes}
      (fun flavor => leBytes 8 flavor.bytes.length ++ flavor.bytes) bytes :=
    delimits_body.comap bytes fun flavor _ => flavor.length_lt
  refine (hmime.append hbody).map ?_
  intro a _ b _ hab
  obtain ⟨hm, hb⟩ := Prod.mk.injEq _ _ _ _ ▸ hab
  cases a
  cases b
  cases hm
  cases hb
  rfl

theorem preimage_singleton (f : CanonicalFlavor) : preimage [f] = encode f := by
  simp [preimage]

/-- Flavors of one MIME are hashed in the order they came. -/
theorem preimage_pair {f g : CanonicalFlavor} (h : f.mime = g.mime) :
    preimage [f, g] = encode f ++ encode g := by
  have hle : mimeLE f g := le_of_eq h
  simp [preimage, hle]

end CanonicalFlavor

/-- Prefix-free MIME strings frame the entries. -/
theorem unambiguous_of_prefixFree {mimes : Set String} (h : PrefixFree mimes) :
    Unambiguous mimes := by
  intro a b ha hb heq
  have hsorted : a.insertionSort mimeLE = b.insertionSort mimeLE :=
    (delimits_encode h).flatMap_inj (fun flavor _ => encode_ne_nil flavor)
      (fun f hf => ha f ((List.mem_insertionSort mimeLE).mp hf))
      (fun f hf => hb f ((List.mem_insertionSort mimeLE).mp hf)) heq
  have hperm : (a.insertionSort mimeLE).Perm b := hsorted ▸ List.perm_insertionSort mimeLE b
  exact (List.perm_insertionSort mimeLE a).symm.trans hperm

/-!
### When a MIME extends another one

Say `m'` is `m` followed by `x`.  A body of `m` whose length is written with the bytes
of `x` makes the entry of `m` look like one of `m'`; what is left is to choose lengths
so that the two readings end together.  With eight bytes or more `x` holds the whole
length; with fewer it holds the low bytes, and a second entry takes up the rest.
-/

/-- The MIME strings in use: ASCII without NUL, and of a length memory can hold. -/
def Plain (m : String) : Prop :=
  (∀ c ∈ asBytes m, 0 < c.toNat ∧ c.toNat < 128) ∧ (asBytes m).length < 2 ^ 56

namespace CanonicalFlavor

variable {m m' : String} {x : Bytes}

/-- The top byte decides the size of the number. -/
theorem ofLeBytes_concat_bounds (bs : Bytes) {c : UInt8} (h : 0 < c.toNat ∧ c.toNat < 128) :
    256 ^ bs.length ≤ ofLeBytes (bs ++ [c]) ∧ ofLeBytes (bs ++ [c]) < 128 * 256 ^ bs.length := by
  have hvalue : ofLeBytes (bs ++ [c]) = ofLeBytes bs + 256 ^ bs.length * c.toNat := by
    rw [ofLeBytes_append]
    simp [ofLeBytes]
  have hlow : ofLeBytes bs < 256 ^ bs.length := ofLeBytes_lt bs
  constructor
  · nlinarith
  · nlinarith

/-- Eight bytes or more: they are read as the length of a body of `m`. -/
theorem exists_collision_of_long (hm' : Plain m') (hx : asBytes m' = asBytes m ++ x)
    (hlen : 8 ≤ x.length) :
    ∃ f g : CanonicalFlavor, f.mime = m ∧ g.mime = m' ∧ preimage [f] = preimage [g] := by
  obtain ⟨hplain, hsize⟩ := hm'
  have hheader : (x.take 8).length = 8 := by
    rw [List.length_take]
    omega
  obtain ⟨low, top, hsplit⟩ : ∃ low top, x.take 8 = low ++ [top] := by
    rcases List.eq_nil_or_concat (x.take 8) with h | ⟨low, top, h⟩
    · rw [h] at hheader
      cases hheader
    · exact ⟨low, top, by rw [h, List.concat_eq_append]⟩
  have hlow : low.length = 7 := by
    rw [hsplit, List.length_append, List.length_singleton] at hheader
    omega
  have htop : 0 < top.toNat ∧ top.toNat < 128 := by
    have hmem : top ∈ x.take 8 := by
      rw [hsplit]
      exact List.mem_concat_self
    exact hplain top (hx ▸ List.mem_append_right _ (List.mem_of_mem_take hmem))
  have hbounds := ofLeBytes_concat_bounds low htop
  rw [hlow, ← hsplit] at hbounds
  have hxsize : x.length < 2 ^ 56 := by
    rw [hx, List.length_append] at hsize
    omega
  -- `n` is the length the eight bytes spell; the body of `m'` is zeros up to there
  obtain ⟨n, hn⟩ : ∃ n, n = ofLeBytes (x.take 8) := ⟨_, rfl⟩
  have hnx : x.length ≤ n := by omega
  obtain ⟨body, hbody⟩ : ∃ body : Bytes, body =
      x.drop 8 ++ (leBytes 8 (n - x.length) ++ List.replicate (n - x.length) 0) := ⟨_, rfl⟩
  have hbodyLen : body.length = n := by
    simp only [hbody, List.length_append, List.length_drop, length_leBytes, List.length_replicate]
    omega
  have hlength : leBytes 8 n = x.take 8 := by
    have hround := leBytes_ofLeBytes (x.take 8)
    rwa [hheader, ← hn] at hround
  have hzeros : (List.replicate (n - x.length) (0 : UInt8)).length < 2 ^ 63 := by
    rw [List.length_replicate]
    omega
  refine ⟨⟨m, body, by omega⟩, ⟨m', List.replicate (n - x.length) 0, hzeros⟩, rfl, rfl, ?_⟩
  rw [preimage_singleton, preimage_singleton, encode_mk, encode_mk, hbodyLen, hlength, hbody, hx,
    List.length_replicate, List.append_assoc, ← List.append_assoc (x.take 8),
    List.take_append_drop]

/-- Two lengths whose readings end together: the body of `m` of length `x + p * n` holds
the rest of a header, `n` zeros and one more entry with a body of length `d`. -/
theorem exists_lengths {x p size k : ℕ} (hx : x < p) (hp : 256 ≤ p) (hpmax : p ≤ 2 ^ 56)
    (hsize : size < 2 ^ 56) (hk : k < 8) :
    ∃ n d, x + p * n = k + (n + (size + (8 + d))) ∧ x + p * n < 2 ^ 63 := by
  obtain ⟨q, hq⟩ : ∃ q, q = size / (p - 1) := ⟨_, rfl⟩
  obtain ⟨r, rfl⟩ : ∃ r, p = r + 1 := ⟨p - 1, by omega⟩
  have hr : 0 < r := by omega
  rw [Nat.add_sub_cancel] at hq
  have hlow : r * q ≤ size := by
    rw [hq]
    exact Nat.mul_div_le size r
  have hhigh : size < r * q + r := by
    rw [hq]
    exact Nat.lt_mul_div_succ size hr
  have hqr : q ≤ r * q := Nat.le_mul_of_pos_left q hr
  have hvalue : x + (r + 1) * (q + 17) = x + r * q + q + 17 * r + 17 := by ring
  refine ⟨q + 17, x + (r + 1) * (q + 17) - (k + (q + 17 + (size + 8))), ?_, ?_⟩
  · omega
  · omega

/-- Fewer bytes: they are the low bytes of the length. -/
theorem exists_collision_of_short (hm' : Plain m') (hx : asBytes m' = asBytes m ++ x)
    (hpos : 0 < x.length) (hlen : x.length < 8) :
    ∃ f g g' : CanonicalFlavor, f.mime = m ∧ g.mime = m' ∧ g'.mime = m' ∧
      preimage [f] = preimage [g, g'] := by
  obtain ⟨hplain, hsize⟩ := hm'
  have hxlt : ofLeBytes x < 256 ^ x.length := ofLeBytes_lt x
  have hpmin : 256 ^ 1 ≤ 256 ^ x.length := Nat.pow_le_pow_right (by decide) hpos
  have hpmax : 256 ^ x.length ≤ 256 ^ 7 := Nat.pow_le_pow_right (by decide) (by omega)
  obtain ⟨n, d, hsum, hbound⟩ := exists_lengths hxlt (by omega) (by omega) hsize hlen
  -- the high bytes of the length, which `m'` reads as the low bytes of its own
  have hn : n < 256 ^ (8 - x.length) := by
    by_contra hge
    have hmul : 256 ^ x.length * 256 ^ (8 - x.length) ≤ 256 ^ x.length * n :=
      Nat.mul_le_mul_left _ (Nat.le_of_not_lt hge)
    rw [← pow_add, show x.length + (8 - x.length) = 8 by omega] at hmul
    omega
  have hheader : leBytes 8 (ofLeBytes x + 256 ^ x.length * n) = x ++ leBytes (8 - x.length) n := by
    rw [append_leBytes x hn, show x.length + (8 - x.length) = 8 by omega]
  have hheader' : leBytes 8 n = leBytes (8 - x.length) n ++ List.replicate x.length 0 := by
    rw [← leBytes_add hn, show 8 - x.length + x.length = 8 by omega]
  obtain ⟨rest, hrest⟩ : ∃ rest : Bytes, rest = List.replicate x.length 0 ++
      (List.replicate n 0 ++ (asBytes m' ++ (leBytes 8 d ++ List.replicate d 0))) := ⟨_, rfl⟩
  have hbody : rest.length = ofLeBytes x + 256 ^ x.length * n := by
    rw [hrest, hsum]
    simp only [List.length_append, List.length_replicate, length_leBytes]
  refine ⟨⟨m, rest, by omega⟩, ⟨m', List.replicate n 0, by rw [List.length_replicate]; omega⟩,
    ⟨m', List.replicate d 0, by rw [List.length_replicate]; omega⟩, rfl, rfl, rfl, ?_⟩
  rw [preimage_singleton, preimage_pair (show m' = m' from rfl), encode_mk, encode_mk, encode_mk,
    hbody, hheader, List.length_replicate, List.length_replicate, hheader', hrest, hx]
  simp only [List.append_assoc]

end CanonicalFlavor

/-- Plain MIME strings that can be read back are prefix-free. -/
theorem prefixFree_of_unambiguous {mimes : Set String} (hplain : ∀ m ∈ mimes, Plain m)
    (h : Unambiguous mimes) : PrefixFree mimes := by
  intro m hm m' hm' hpre
  by_contra hne
  obtain ⟨x, hx⟩ := hpre
  have hpos : 0 < x.length := by
    by_contra hzero
    have hnil : x = [] := List.length_eq_zero_iff.mp (by omega)
    rw [hnil, List.append_nil] at hx
    exact hne (asBytes_injective hx)
  by_cases hlen : 8 ≤ x.length
  · obtain ⟨f, g, rfl, rfl, heq⟩ := exists_collision_of_long (hplain m' hm') hx.symm hlen
    have hperm : [f].Perm [g] := h [f] [g] (by simpa using hm) (by simpa using hm') heq
    exact hne (congrArg mime (List.singleton_perm_singleton.mp hperm))
  · obtain ⟨f, g, g', rfl, hg, hg', heq⟩ :=
      exists_collision_of_short (hplain m' hm') hx.symm hpos (by omega)
    have hperm : [f].Perm [g, g'] :=
      h [f] [g, g'] (by simpa using hm) (by simp [hg, hg', hm']) heq
    exact absurd hperm.length_eq (by simp)

/-- The hashed bytes determine the flavors over prefix-free MIME strings, and over plain
MIME strings only over those. -/
theorem contentHash_unambiguous_iff (mimes : Set String) :
    (PrefixFree mimes → Unambiguous mimes) ∧
      ((∀ m ∈ mimes, Plain m) → (Unambiguous mimes ↔ PrefixFree mimes)) :=
  ⟨unambiguous_of_prefixFree,
    fun hplain => ⟨prefixFree_of_unambiguous hplain, unambiguous_of_prefixFree⟩⟩

/-- The usual text flavors are framed; a MIME next to an extension of it is not. -/
theorem contentHash_unambiguous_iff_text :
    Unambiguous {"text/plain", "text/html"} ∧ ¬ Unambiguous {"text/plain", "text/plainA"} := by
  constructor
  · refine (contentHash_unambiguous_iff _).1 ?_
    rintro m (rfl | rfl) m' (rfl | rfl) hpre
    · rfl
    · exact absurd hpre (by decide)
    · exact absurd hpre (by decide)
    · rfl
  · intro h
    have hfree : PrefixFree {"text/plain", "text/plainA"} := by
      refine ((contentHash_unambiguous_iff _).2 ?_).mp h
      rintro m (rfl | rfl)
      · exact ⟨by decide +kernel, by decide +kernel⟩
      · exact ⟨by decide +kernel, by decide +kernel⟩
    exact absurd (hfree "text/plain" (.inl rfl) "text/plainA" (.inr rfl) (by decide)) (by decide)

/-- A body of `text/plain` that spells the entries of two other flavors: its length 65
reads as the letter `A`, and the body goes on with an empty body and a second entry. -/
theorem contentHash_preimage_collides :
    let bytes := List.replicate 45 (0x2A : UInt8)
    let body := 0 :: (asBytes "text/plainB" ++ (leBytes 8 45 ++ bytes))
    let a : List CanonicalFlavor := [⟨"text/plain", body, by decide⟩]
    let b : List CanonicalFlavor :=
      [⟨"text/plainA", [], by decide⟩, ⟨"text/plainB", bytes, by decide⟩]
    preimage a = preimage b ∧ ¬ a.Perm b := by
  intro bytes body a b
  refine ⟨by decide +kernel, ?_⟩
  intro hperm
  cases hperm.length_eq

/-! ## Order -/

namespace CanonicalFlavor

theorem preimage_eq_sortByKey (flavors : List CanonicalFlavor) :
    preimage flavors = (StableSort.sortByKey mime flavors).flatMap encode := rfl

/-- Over the same MIME strings in the same order, the hashed bytes determine the bodies. -/
theorem eq_of_flatMap_encode {a b : List CanonicalFlavor} (hmimes : a.map mime = b.map mime)
    (h : a.flatMap encode = b.flatMap encode) : a = b := by
  induction a generalizing b with
  | nil => exact (List.map_eq_nil_iff.mp hmimes.symm).symm
  | cons f rest ih =>
    cases b with
    | nil => cases hmimes
    | cons g rest' =>
      obtain ⟨hmime, htail⟩ := List.cons.inj hmimes
      obtain ⟨m, body, hlt⟩ := f
      obtain ⟨m', body', hlt'⟩ := g
      obtain rfl : m = m' := hmime
      have hframed : (leBytes 8 body.length ++ body) ++ rest.flatMap encode =
          (leBytes 8 body'.length ++ body') ++ rest'.flatMap encode := by
        rw [List.flatMap_cons, List.flatMap_cons, encode_mk, encode_mk, List.append_assoc,
          List.append_assoc (asBytes m)] at h
        exact List.append_cancel_left h
      obtain ⟨hbody, hrest⟩ := delimits_body hlt hlt' hframed
      obtain rfl : body = body' := hbody
      rw [ih htail hrest]

/-- Permuted flavors are hashed over the same MIME strings in the same order. -/
theorem map_mime_sortByKey {flavors flavors' : List CanonicalFlavor}
    (hperm : flavors'.Perm flavors) :
    (StableSort.sortByKey mime flavors').map mime =
      (StableSort.sortByKey mime flavors).map mime := by
  rw [StableSort.map_sortByKey mime id fun _ => rfl, StableSort.map_sortByKey mime id fun _ => rfl]
  exact StableSort.sortByKey_eq_of_perm id (hperm.map mime) fun _ _ _ _ h => h

/-- The order of arrival is in the hashed bytes exactly when there are two bodies of one MIME. -/
theorem preimage_perm_iff {flavors : List CanonicalFlavor} :
    (∀ flavors', flavors'.Perm flavors → preimage flavors' = preimage flavors) ↔
      ∀ a ∈ flavors, ∀ b ∈ flavors, a.mime = b.mime → a.bytes = b.bytes := by
  calc (∀ flavors', flavors'.Perm flavors → preimage flavors' = preimage flavors)
    _ ↔ ∀ flavors', flavors'.Perm flavors →
          StableSort.sortByKey mime flavors' = StableSort.sortByKey mime flavors := by
      refine forall₂_congr fun flavors' hperm => ⟨fun h => ?_, fun h => ?_⟩
      · exact eq_of_flatMap_encode (map_mime_sortByKey hperm) h
      · rw [preimage_eq_sortByKey, h, preimage_eq_sortByKey]
    _ ↔ ∀ a ∈ flavors, ∀ b ∈ flavors, a.mime = b.mime → a = b :=
      StableSort.sortByKey_perm_iff mime
    _ ↔ ∀ a ∈ flavors, ∀ b ∈ flavors, a.mime = b.mime → a.bytes = b.bytes := by
      refine forall₂_congr fun a _ => forall₂_congr fun b _ => imp_congr_right fun hmime => ?_
      refine ⟨fun h => h ▸ rfl, fun hbytes => ?_⟩
      cases a
      cases b
      cases hmime
      cases hbytes
      rfl

end CanonicalFlavor

/-- The flavor is stored inline as it was seen at capture time. -/
def StoredInline (flavor : Flavor) (captured : CanonicalFlavor) : Prop :=
  flavor.mime = captured.mime ∧ flavor.body = .Inline captured.bytes

/-- The stored flavors hash to what the captured ones did. -/
theorem contentHashFromFlavors_eq_contentHash (blake3 : Bytes → Bytes) {stored : List Flavor}
    {captured : List CanonicalFlavor} (h : List.Forall₂ StoredInline stored captured) :
    contentHashFromFlavors blake3 stored = contentHash blake3 captured := by
  let entry (mime : String) (bytes : Bytes) : Bytes :=
    asBytes mime ++ (leBytes 8 bytes.length ++ bytes)
  let seen (flavor : Flavor) : String × Bytes := (flavor.mime, hashedBytes flavor)
  have hseen : stored.map seen = captured.map fun flavor => (flavor.mime, flavor.bytes) := by
    induction h with
    | nil => rfl
    | cons hfirst _ ih =>
      rw [List.map_cons, List.map_cons, ih]
      congr 1
      simp only [seen, hashedBytes, hfirst.1, hfirst.2]
  have hstored : (StableSort.sortByKey Prod.fst (stored.map seen)).flatMap
      (fun pair => entry pair.1 pair.2) =
        (StableSort.sortByKey Flavor.mime stored).flatMap fun flavor =>
          entry flavor.mime (hashedBytes flavor) := by
    rw [← StableSort.map_sortByKey Flavor.mime Prod.fst fun _ => rfl, List.flatMap_map]
  have hcaptured : (StableSort.sortByKey Prod.fst
      (captured.map fun flavor => (flavor.mime, flavor.bytes))).flatMap
        (fun pair => entry pair.1 pair.2) = preimage captured := by
    rw [← StableSort.map_sortByKey mime Prod.fst fun _ => rfl, List.flatMap_map]
    rfl
  rw [contentHash, ← hcaptured, ← hseen, hstored]
  rfl

/-- The preimages of a flavor list in any order. -/
def orderings (flavors : List CanonicalFlavor) : Set Bytes :=
  {bytes | ∃ flavors', flavors'.Perm flavors ∧ preimage flavors' = bytes}

/-- Where the hash has no collision among the orders of a flavor list, it is the same for all of
them exactly when flavors of one MIME have one body; and what is stored inline hashes to what was
captured. -/
theorem contentHash_order_iff (blake3 : Bytes → Bytes) (flavors : List CanonicalFlavor)
    (hinj : Set.InjOn blake3 (orderings flavors)) :
    ((∀ flavors', flavors'.Perm flavors →
          contentHash blake3 flavors' = contentHash blake3 flavors) ∧
        ∀ stored, List.Forall₂ StoredInline stored flavors →
          contentHash blake3 flavors = contentHashFromFlavors blake3 stored) ↔
      ∀ a ∈ flavors, ∀ b ∈ flavors, a.mime = b.mime → a.bytes = b.bytes := by
  rw [← preimage_perm_iff]
  constructor
  · rintro ⟨hsame, -⟩ flavors' hperm
    exact hinj ⟨flavors', hperm, rfl⟩ ⟨flavors, .refl _, rfl⟩ (hsame flavors' hperm)
  · refine fun hsame => ⟨fun flavors' hperm => congrArg blake3 (hsame flavors' hperm), ?_⟩
    exact fun stored hstored => (contentHashFromFlavors_eq_contentHash blake3 hstored).symm

theorem contentHash_order_iff_pair :
    let flavors : List CanonicalFlavor :=
      [⟨"text/plain", [104, 105], by decide⟩, ⟨"text/html", [], by decide⟩]
    ∀ flavors', flavors'.Perm flavors → contentHash id flavors' = contentHash id flavors := by
  intro flavors
  refine ((contentHash_order_iff id flavors Function.injective_id.injOn).mpr ?_).1
  decide

/-- Two bodies of `text/plain`: whichever came first is hashed first. -/
theorem contentHash_order_matters :
    ¬ ∀ (blake3 : Bytes → Bytes) (flavors flavors' : List CanonicalFlavor),
      Function.Injective blake3 → flavors'.Perm flavors →
        contentHash blake3 flavors' = contentHash blake3 flavors := by
  intro h
  have hsame := h id [⟨"text/plain", [97], by decide⟩, ⟨"text/plain", [98], by decide⟩]
    [⟨"text/plain", [98], by decide⟩, ⟨"text/plain", [97], by decide⟩] Function.injective_id
    (List.Perm.swap _ _ _)
  exact absurd hsame (by decide +kernel)

end Vbuff.Core
