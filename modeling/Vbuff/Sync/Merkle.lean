import Vbuff.Lib.HashTree
import Vbuff.Lib.StableSort
import Vbuff.Sync.Chain

/-!
# Merkle range reconciliation

Two devices compare trees over their records and descend where the range hashes differ.
Records are sorted by clock and identifier; the trees are padded to a common power of two
with zero leaves, and a record whose identifiers do not fit their length prefix hashes to
zero as well.

The tree is an instance of `HashTree`, so under a hash without collisions on its nodes a
comparison finds exactly the indices at which the padded leaves differ
(`differingIndices_eq_filter`).  What it means for the records is settled here: which
differences the zero leaves hide (`Masked`), and when the order of the records does
not matter.
-/

namespace Vbuff.Sync

open ByteString StableSort

structure MerkleRecord where
  clock : HybridLogicalClock
  recordId : String
  digest : Bytes32
  deriving DecidableEq

namespace MerkleRecord

/-- What `MerkleTree::new` sorts by. -/
def sortKey (record : MerkleRecord) : HybridLogicalClock ×ₗ String :=
  toLex (record.clock, record.recordId)

/-- The bytes a leaf commits to; no bytes for identifiers beyond the length prefix. -/
def leafPreimage (record : MerkleRecord) : Except SyncError Bytes :=
  Preimage.new (asBytes "vbuff-merkle-leaf-v3")
    |>.fixed record.digest.toList
    |>.var (asBytes record.recordId)
    |>.fixed (leBytes 8 record.clock.physicalMs.toNat)
    |>.fixed (leBytes 4 record.clock.logical.toNat)
    |>.var (asBytes record.clock.nodeId)
    |>.finish

end MerkleRecord

/-- The preimage of an interior node. -/
def nodePreimage (left right : Bytes32) : Except SyncError Bytes :=
  Preimage.new (asBytes "vbuff-merkle-node-v2")
    |>.fixed left.toList
    |>.fixed right.toList
    |>.finish

section Hash

variable (prim : Primitives)

/-- `preimage.finish().map_or([0; 32], |bytes| *blake3::hash(&bytes).as_bytes())`. -/
def hashOrZero (preimage : Except SyncError Bytes) : Bytes32 :=
  match preimage with
  | .ok bytes => prim.hash bytes
  | .error _ => zeroHash

def leafHash (record : MerkleRecord) : Bytes32 := hashOrZero prim record.leafPreimage

/-- The leaf at an index, zero beyond the last. -/
def leafAt (leaves : List Bytes32) (index : ℕ) : Bytes32 := leaves[index]?.getD zeroHash

/-- The hash of the range of `2 ^ depth` leaves from `start`. -/
def rangeHash (leaves : List Bytes32) : ℕ → ℕ → Bytes32
  | 0, start => leafAt leaves start
  | depth + 1, start =>
      let left := rangeHash leaves depth start
      let right := rangeHash leaves depth (start + 2 ^ depth)
      hashOrZero prim (nodePreimage left right)

/-- `differences` with the indices of the range pushed behind them. -/
def diffRange (left right : List Bytes32) : ℕ → ℕ → List ℕ → List ℕ
  | 0, start, differences =>
      if rangeHash prim left 0 start = rangeHash prim right 0 start then differences
      else differences ++ [start]
  | depth + 1, start, differences =>
      if rangeHash prim left (depth + 1) start = rangeHash prim right (depth + 1) start then
        differences
      else
        let differences := diffRange left right depth start differences
        diffRange left right depth (start + 2 ^ depth) differences

/-- The depth of a tree of `n.max(1).next_power_of_two()` leaves. -/
def depthOf (n : ℕ) : ℕ := Nat.clog 2 (max n 1)

end Hash

structure MerkleTree where
  records : List MerkleRecord
  leafHashes : List Bytes32
  deriving DecidableEq

namespace MerkleTree

variable (prim : Primitives)

def new (records : List MerkleRecord) : MerkleTree :=
  let records := sortByKey MerkleRecord.sortKey records
  { records, leafHashes := records.map (leafHash prim) }

def root (self : MerkleTree) : Bytes32 :=
  rangeHash prim self.leafHashes (depthOf self.leafHashes.length) 0

def differingIndices (self other : MerkleTree) : List ℕ :=
  let depth := depthOf (max self.leafHashes.length other.leafHashes.length)
  diffRange prim self.leafHashes other.leafHashes depth 0 []

def record (self : MerkleTree) (index : ℕ) : Option MerkleRecord := self.records[index]?

end MerkleTree

/-! ## The comparison as a descent through hash trees -/

section Descent

variable {prim : Primitives}

theorem nodePreimage_eq_ok (left right : Bytes32) :
    nodePreimage left right =
      .ok (asBytes "vbuff-merkle-node-v2" ++ [0] ++ left.toList ++ right.toList) := rfl

/-- The node hash of the tree. -/
def nodeHash (prim : Primitives) (left right : Bytes32) : Bytes32 :=
  hashOrZero prim (nodePreimage left right)

theorem rangeHash_eq (leaves : List Bytes32) (depth start : ℕ) :
    rangeHash prim leaves depth start =
      HashTree.rangeHash (nodeHash prim) (leafAt leaves) depth start := by
  induction depth generalizing start with
  | zero => rfl
  | succ depth ih =>
      show nodeHash prim (rangeHash prim leaves depth start)
        (rangeHash prim leaves depth (start + 2 ^ depth)) = _
      rw [ih, ih, HashTree.rangeHash]

/-- The source pushes what the descent finds. -/
theorem diffRange_eq (left right : List Bytes32) (depth start : ℕ) (differences : List ℕ) :
    diffRange prim left right depth start differences =
      differences ++
        HashTree.diffRange (nodeHash prim) (leafAt left) (leafAt right) depth start := by
  induction depth generalizing start differences with
  | zero =>
      rw [diffRange, HashTree.diffRange]
      show (if leafAt left start = leafAt right start then _ else _) = _
      split
      · rw [List.append_nil]
      · rfl
  | succ depth ih =>
      rw [diffRange, HashTree.diffRange, rangeHash_eq, rangeHash_eq]
      split
      · rw [List.append_nil]
      · show diffRange prim left right depth (start + 2 ^ depth)
          (diffRange prim left right depth start differences) = _
        rw [ih, ih, List.append_assoc]

theorem nodePreimage_inj {l r l' r' : Bytes32} (h : nodePreimage l r = nodePreimage l' r') :
    l = l' ∧ r = r' := by
  rw [nodePreimage_eq_ok, nodePreimage_eq_ok, Except.ok.injEq, List.append_assoc,
    List.append_assoc _ l'.toList] at h
  have hpair := List.append_inj (List.append_cancel_left h) (by simp)
  exact ⟨Vector.toList_inj.mp hpair.1, Vector.toList_inj.mp hpair.2⟩

/-- The node preimages of the two trees of a comparison. -/
def nodePreimages (prim : Primitives) (left right : List Bytes32) (top : ℕ) : Set Bytes :=
  {preimage | ∃ leaves ∈ [left, right], ∃ depth start, start + 2 ^ (depth + 1) ≤ 2 ^ top ∧
    nodePreimage (rangeHash prim leaves depth start)
      (rangeHash prim leaves depth (start + 2 ^ depth)) = .ok preimage}

theorem nodesApart_of_injOn {left right : List Bytes32} {top : ℕ}
    (h : Set.InjOn prim.hash (nodePreimages prim left right top)) :
    HashTree.NodesApart (nodeHash prim) (leafAt left) (leafAt right) top := by
  intro depth start htop heq
  rw [← rangeHash_eq, ← rangeHash_eq] at heq
  rw [← rangeHash_eq, ← rangeHash_eq, ← rangeHash_eq, ← rangeHash_eq]
  refine nodePreimage_inj (congrArg Except.ok (h ?_ ?_ heq))
  · exact ⟨left, List.mem_cons_self, depth, start, htop, rfl⟩
  · exact ⟨right, List.mem_cons_of_mem _ List.mem_cons_self, depth, start, htop, rfl⟩

end Descent

namespace MerkleTree

variable (prim : Primitives)

/-- The node hash has no collision between the nodes of the two trees. -/
def NodesApart (left right : MerkleTree) : Prop :=
  Set.InjOn prim.hash (nodePreimages prim left.leafHashes right.leafHashes
    (depthOf (max left.leafHashes.length right.leafHashes.length)))

variable {prim} in
/-- A comparison finds the indices at which the padded leaves differ, in order. -/
theorem differingIndices_eq_filter {left right : MerkleTree} (h : NodesApart prim left right) :
    left.differingIndices prim right =
      (List.range (max left.leafHashes.length right.leafHashes.length)).filter
        fun i => leafAt left.leafHashes i ≠ leafAt right.leafHashes i := by
  have hdepth : max left.leafHashes.length right.leafHashes.length ≤
      2 ^ depthOf (max left.leafHashes.length right.leafHashes.length) :=
    (le_max_left _ 1).trans (Nat.le_pow_clog (by decide) _)
  rw [differingIndices]
  show diffRange prim _ _ (depthOf _) 0 [] = _
  rw [diffRange_eq, List.nil_append,
    HashTree.diffRange_eq_filter (nodesApart_of_injOn h) _ 0 (Nat.zero_add _).le,
    ← List.range_eq_range']
  refine HashTree.filter_range_eq hdepth fun i hi => not_not.mpr ?_
  rw [leafAt, leafAt, List.getElem?_eq_none ((le_max_left _ _).trans hi),
    List.getElem?_eq_none ((le_max_right _ _).trans hi)]

/-! ## What the comparison means for the records -/

end MerkleTree

namespace MerkleRecord

/-- An identifier is too long for its length prefix. -/
def OverLong (record : MerkleRecord) : Prop :=
  lengthLimit ≤ (asBytes record.recordId).length ∨
    lengthLimit ≤ (asBytes record.clock.nodeId).length

instance decidableOverLong (record : MerkleRecord) : Decidable record.OverLong :=
  inferInstanceAs (Decidable (_ ∨ _))

/-- The bytes of a leaf, unless its record is over-long. -/
theorem leafPreimage_eq_ok {record : MerkleRecord} {bytes : Bytes} :
    record.leafPreimage = .ok bytes ↔ ¬ record.OverLong ∧
      bytes = asBytes "vbuff-merkle-leaf-v3" ++ [0] ++
        (record.digest.toList ++ Preimage.varBytes (asBytes record.recordId) ++
          leBytes 8 record.clock.physicalMs.toNat ++ leBytes 4 record.clock.logical.toNat ++
          Preimage.varBytes (asBytes record.clock.nodeId)) := by
  have hwrites := ((((Preimage.writes_fixed record.digest.toList).andThen
    (Preimage.writes_var (asBytes record.recordId))).andThen
    (Preimage.writes_fixed (leBytes 8 record.clock.physicalMs.toNat))).andThen
    (Preimage.writes_fixed (leBytes 4 record.clock.logical.toNat))).andThen
    (Preimage.writes_var (asBytes record.clock.nodeId))
  have hfits : (((True ∧ (asBytes record.recordId).length < lengthLimit) ∧ True) ∧ True) ∧
      (asBytes record.clock.nodeId).length < lengthLimit ↔ ¬ record.OverLong := by
    rw [OverLong, not_or, not_le, not_le, true_and, and_true, and_true]
  have hfinish := hwrites.finish_eq_ok (asBytes "vbuff-merkle-leaf-v3") bytes
  rw [hfits] at hfinish
  exact hfinish

end MerkleRecord

section Masking

variable (prim : Primitives)

/-- The leaf of an over-long record is the zero leaf. -/
theorem leafHash_of_overLong {record : MerkleRecord} (h : record.OverLong) :
    leafHash prim record = zeroHash := by
  rw [leafHash]
  cases hpreimage : record.leafPreimage with
  | error e => rfl
  | ok bytes => exact absurd h (MerkleRecord.leafPreimage_eq_ok.mp hpreimage).1

namespace MerkleTree

/-- The leaf sequences differ at an index: a record is there on one side only, or on both
sides with different leaves, and an over-long record differs from every record. -/
def Differs (left right : MerkleTree) (i : ℕ) : Prop :=
  match left.records[i]?, right.records[i]? with
  | none, none => False
  | some r, some s => leafHash prim r ≠ leafHash prim s ∨ r.OverLong ∨ s.OverLong
  | _, _ => True

/-- A difference at an index where both padded leaves are zero: a zero leaf against no
leaf, or an over-long record against a zero leaf. -/
def Masked (left right : MerkleTree) (i : ℕ) : Prop :=
  match left.records[i]?, right.records[i]? with
  | none, none => False
  | some r, some s =>
      (r.OverLong ∨ s.OverLong) ∧ leafHash prim r = zeroHash ∧ leafHash prim s = zeroHash
  | some r, none => leafHash prim r = zeroHash
  | none, some s => leafHash prim s = zeroHash

instance decidableDiffers (left right : MerkleTree) (i : ℕ) :
    Decidable (Differs prim left right i) :=
  match hl : left.records[i]?, hr : right.records[i]? with
  | none, none => isFalse (by simp [Differs, hl, hr])
  | some r, some s =>
      decidable_of_iff (leafHash prim r ≠ leafHash prim s ∨ r.OverLong ∨ s.OverLong)
        (by simp [Differs, hl, hr])
  | some r, none => isTrue (by simp [Differs, hl, hr])
  | none, some s => isTrue (by simp [Differs, hl, hr])

/-- The indices at which the leaf sequences differ, in ascending order. -/
def differing (left right : MerkleTree) : List ℕ :=
  (List.range (max left.records.length right.records.length)).filter (Differs prim left right)

variable {prim}

theorem leafAt_new (records : List MerkleRecord) (i : ℕ) :
    leafAt (new prim records).leafHashes i =
      ((new prim records).records[i]?.map (leafHash prim)).getD zeroHash := by
  show (((new prim records).records.map (leafHash prim))[i]?).getD zeroHash = _
  rw [List.getElem?_map]

/-- The padded leaves differ exactly at the differences that are not masked. -/
theorem leafAt_ne_iff (ls rs : List MerkleRecord) (i : ℕ) :
    leafAt (new prim ls).leafHashes i ≠ leafAt (new prim rs).leafHashes i ↔
      Differs prim (new prim ls) (new prim rs) i ∧ ¬ Masked prim (new prim ls) (new prim rs) i := by
  rw [leafAt_new, leafAt_new, Differs, Masked]
  cases (new prim ls).records[i]? with
  | none =>
      cases (new prim rs).records[i]? with
      | none => simp
      | some s => simp [eq_comm]
  | some r =>
      cases (new prim rs).records[i]? with
      | none => simp
      | some s =>
          simp only [Option.map_some, Option.getD_some]
          constructor
          · intro hne
            exact ⟨Or.inl hne, fun hmasked => hne (hmasked.2.1.trans hmasked.2.2.symm)⟩
          · rintro ⟨hne | hlong, hunmasked⟩
            · exact hne
            · intro heq
              -- one of the two records is too long to be framed, and hashes to zero
              have hzero : leafHash prim r = zeroHash := by
                rcases hlong with hr | hs
                · exact leafHash_of_overLong prim hr
                · rw [heq]
                  exact leafHash_of_overLong prim hs
              exact hunmasked ⟨hlong, hzero, heq.symm.trans hzero⟩

theorem Masked.differs {ls rs : MerkleTree} {i : ℕ} (h : Masked prim ls rs i) :
    Differs prim ls rs i := by
  rw [Masked] at h
  rw [Differs]
  cases hl : ls.records[i]? <;> cases hr : rs.records[i]? <;> simp_all

theorem lt_of_differs {left right : MerkleTree} {i : ℕ} (h : Differs prim left right i) :
    i < max left.records.length right.records.length := by
  by_contra hge
  have hleft := List.getElem?_eq_none ((le_max_left _ _).trans (not_lt.mp hge))
  have hright := List.getElem?_eq_none ((le_max_right _ _).trans (not_lt.mp hge))
  rw [Differs, hleft, hright] at h
  exact h

theorem length_leafHashes_new (records : List MerkleRecord) :
    (new prim records).leafHashes.length = (new prim records).records.length :=
  List.length_map _

variable (prim) in
/-- A comparison reports exactly the differing indices if and only if no difference is
masked by zero leaves. -/
theorem differingIndices_exact_iff (ls rs : List MerkleRecord)
    (h : NodesApart prim (new prim ls) (new prim rs)) :
    (new prim ls).differingIndices prim (new prim rs) =
        differing prim (new prim ls) (new prim rs) ↔
      ∀ i, ¬ Masked prim (new prim ls) (new prim rs) i := by
  rw [differingIndices_eq_filter h, length_leafHashes_new, length_leafHashes_new, differing]
  constructor
  · intro heq i hmasked
    have hmem : i ∈ (List.range (max (new prim ls).records.length
        (new prim rs).records.length)).filter (Differs prim (new prim ls) (new prim rs)) :=
      List.mem_filter.mpr ⟨List.mem_range.mpr (lt_of_differs hmasked.differs),
        decide_eq_true hmasked.differs⟩
    rw [← heq, List.mem_filter, decide_eq_true_eq, leafAt_ne_iff] at hmem
    exact hmem.2.2 hmasked
  · intro hunmasked
    refine List.filter_congr fun i _ => ?_
    rw [decide_eq_decide, leafAt_ne_iff, and_iff_left (hunmasked i)]

/-- A record of a laptop. -/
def laptopRecord (physicalMs : UInt64) (recordId : String) (digest : UInt8) : MerkleRecord :=
  { clock := { physicalMs, logical := 0, nodeId := "l" }, recordId,
    digest := Vector.replicate 32 digest }

/-- Two trees of one node each, with different hashes, have no collision. -/
theorem nodesApart_of_depth_one {left right : MerkleTree}
    (htop : depthOf (max left.leafHashes.length right.leafHashes.length) = 1)
    (hroots : rangeHash prim left.leafHashes 1 0 ≠ rangeHash prim right.leafHashes 1 0) :
    NodesApart prim left right := by
  -- a tree of depth one has one node, its root
  have hroot : ∀ depth start, start + 2 ^ (depth + 1) ≤ 2 ^ 1 → depth = 0 ∧ start = 0 := by
    intro depth start hle
    have hdepth : depth + 1 ≤ 1 :=
      (Nat.pow_le_pow_iff_right (by decide)).mp (le_of_add_le_right hle)
    obtain rfl : depth = 0 := by omega
    exact ⟨rfl, by omega⟩
  rw [NodesApart, htop]
  rintro p ⟨leaves, hleaves, depth, start, hle, hp⟩ q ⟨leaves', hleaves', depth', start', hle', hq⟩
    heq
  obtain ⟨rfl, rfl⟩ := hroot depth start hle
  obtain ⟨rfl, rfl⟩ := hroot depth' start' hle'
  have hleft : rangeHash prim leaves 1 0 = prim.hash p := congrArg (hashOrZero prim) hp
  have hright : rangeHash prim leaves' 1 0 = prim.hash q := congrArg (hashOrZero prim) hq
  have hhash : rangeHash prim leaves 1 0 = rangeHash prim leaves' 1 0 :=
    hleft.trans (heq.trans hright.symm)
  have hsame : leaves = leaves' := by
    rw [List.mem_pair] at hleaves hleaves'
    rcases hleaves with rfl | rfl <;> rcases hleaves' with rfl | rfl
    · rfl
    · exact absurd hhash hroots
    · exact absurd hhash.symm hroots
    · rfl
  rw [hsame, hq] at hp
  exact (Except.ok.inj hp).symm

/-- The law of a comparison, at two trees that differ in the second record. -/
theorem differingIndices_exact_iff_laptop :
    let left := new .replay [laptopRecord 1 "a" 1, laptopRecord 2 "b" 1]
    let right := new .replay [laptopRecord 3 "b" 1, laptopRecord 1 "a" 1]
    left.differingIndices .replay right = [1] ∧ ∀ i, ¬ Masked .replay left right i := by
  intro left right
  have hindices : left.differingIndices .replay right = [1] := by decide +kernel
  have hdiffering : differing .replay left right = [1] := by decide +kernel
  have hapart : NodesApart .replay left right :=
    nodesApart_of_depth_one (by decide +kernel) (by decide +kernel)
  exact ⟨hindices, (differingIndices_exact_iff .replay _ _ hapart).mp
    (hindices.trans hdiffering.symm)⟩

/-- A record with an identifier of `n` letters. -/
def longRecord (n : ℕ) : MerkleRecord :=
  laptopRecord 1 (String.ofList (List.replicate n 'a')) 1

theorem length_longRecord_recordId (n : ℕ) : (asBytes (longRecord n).recordId).length = n := by
  show (String.ofList (List.replicate n 'a')).toByteArray.data.toList.length = n
  rw [Array.length_toList]
  show (String.ofList (List.replicate n 'a')).toByteArray.size = n
  rw [String.toByteArray_ofList]
  induction n with
  | zero => rfl
  | succ n ih =>
      rw [List.replicate_succ, List.utf8Encode_cons, ByteArray.size_append, ih]
      exact Nat.add_comm 1 n

/-- An over-long record is not found against the empty tree, although it is there on one
side only. -/
theorem differingIndices_masks_overLong :
    let left := new .replay [longRecord lengthLimit]
    let right := new .replay []
    NodesApart .replay left right ∧ (longRecord lengthLimit).OverLong ∧
      left.records = [longRecord lengthLimit] ∧ right.records = [] ∧
      left.differingIndices .replay right = [] ∧ differing .replay left right = [0] := by
  intro left right
  have hlong : (longRecord lengthLimit).OverLong :=
    Or.inl (length_longRecord_recordId lengthLimit).ge
  have hzero : leafHash .replay (longRecord lengthLimit) = zeroHash := leafHash_of_overLong _ hlong
  have hdepth : depthOf (max left.leafHashes.length right.leafHashes.length) = 0 := by
    show depthOf 1 = 0
    decide
  have hleaves : left.leafHashes = [zeroHash] := congrArg (fun leaf => [leaf]) hzero
  refine ⟨?_, hlong, rfl, rfl, ?_, ?_⟩
  · rintro p ⟨leaves, -, depth, start, hle, -⟩
    rw [hdepth] at hle
    have hpos : 2 ≤ 2 ^ (depth + 1) := Nat.le_pow (Nat.succ_pos depth)
    omega
  · show diffRange .replay left.leafHashes right.leafHashes (depthOf _) 0 [] = []
    rw [hdepth, hleaves, diffRange]
    rfl
  · rfl

/-- The tree does not depend on the order of its records if and only if no two of them
share clock and identifier. -/
theorem new_perm_iff (records : List MerkleRecord) :
    (∀ records' : List MerkleRecord, records'.Perm records →
      new prim records' = new prim records) ↔
    ∀ r ∈ records, ∀ s ∈ records, r.clock = s.clock → r.recordId = s.recordId → r = s := by
  have htree : ∀ records', new prim records' = new prim records ↔
      sortByKey MerkleRecord.sortKey records' = sortByKey MerkleRecord.sortKey records := by
    intro records'
    refine ⟨congrArg MerkleTree.records, fun heq => ?_⟩
    rw [new, heq, new]
  simp only [htree]
  rw [sortByKey_perm_iff]
  refine forall₂_congr fun r _ => forall₂_congr fun s _ => ?_
  rw [MerkleRecord.sortKey, MerkleRecord.sortKey, toLex_inj, Prod.mk.injEq, and_imp]

/-- Two records with one clock and one identifier stay in the order they were given in. -/
theorem new_keeps_arrival_order :
    let r := laptopRecord 1 "a" 1
    let s := laptopRecord 1 "a" 2
    [s, r].Perm [r, s] ∧ new .replay [s, r] ≠ new .replay [r, s] ∧
      (new .replay [s, r]).root .replay ≠ (new .replay [r, s]).root .replay := by
  intro r s
  exact ⟨List.Perm.swap r s [], by decide +kernel, by decide +kernel⟩

end MerkleTree

end Masking

end Vbuff.Sync
