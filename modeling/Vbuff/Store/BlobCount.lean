import Vbuff.Store.Change

/-!
# Counting references to blobs

`refcount` is what the table says of a blob, `occurrences` how often the rows refer to it.  Adding
the flavors of a row to the table adds their occurrences; taking rows out again succeeds as long
as the table counts at least what they refer to, and subtracts their occurrences.
-/

namespace Vbuff.Store

open ByteString Vbuff.Types Vbuff.Core

/-- The flavor refers to the blob of that name. -/
def refersTo (hash : String) (flavor : Flavor) : Bool :=
  match flavor.body with
  | .Inline _ => false
  | .Spilled blobRef _ => blobRef = hash

/-- How often flavors of one kind refer to a blob of another. -/
def spillCount (flavors : List Flavor) (own : ContentKind) (hash : String) (kind : ContentKind) :
    ℤ :=
  if own = kind then flavors.countP (refersTo hash) else 0

/-- How often the rows refer to a blob. -/
def occurrences (rows : List Row) (hash : String) (kind : ContentKind) : ℤ :=
  (rows.map fun row => spillCount row.flavors row.kind hash kind).sum

/-- What the table says of a blob; 0 when it says nothing. -/
def refcount (blobRefs : List BlobRef) (hash : String) (kind : ContentKind) : ℤ :=
  ((blobRefs.filter (·.isFor hash kind)).map BlobRef.refcount).sum

/-- The primary key of `blob_refs`. -/
def BlobRef.key (blob : BlobRef) : String × ContentKind := (blob.hash, blob.kind)

/-- One row at most for each blob. -/
def Keyed (blobRefs : List BlobRef) : Prop := (blobRefs.map BlobRef.key).Nodup

theorem spillCount_nonneg (flavors : List Flavor) (own : ContentKind) (hash : String)
    (kind : ContentKind) : 0 ≤ spillCount flavors own hash kind := by
  unfold spillCount
  split
  · exact Int.natCast_nonneg _
  · exact le_refl 0

theorem occurrences_nonneg (rows : List Row) (hash : String) (kind : ContentKind) :
    0 ≤ occurrences rows hash kind := by
  refine List.sum_nonneg fun n hn => ?_
  obtain ⟨row, -, rfl⟩ := List.mem_map.mp hn
  exact spillCount_nonneg ..

@[simp] theorem occurrences_nil (hash : String) (kind : ContentKind) :
    occurrences [] hash kind = 0 := rfl

@[simp] theorem occurrences_cons (row : Row) (rows : List Row) (hash : String)
    (kind : ContentKind) : occurrences (row :: rows) hash kind =
      spillCount row.flavors row.kind hash kind + occurrences rows hash kind := by
  simp [occurrences]

theorem occurrences_append (rows rows' : List Row) (hash : String) (kind : ContentKind) :
    occurrences (rows ++ rows') hash kind =
      occurrences rows hash kind + occurrences rows' hash kind := by
  simp [occurrences]

/-- Updates leave the occurrences alone. -/
theorem occurrences_map {f : Row → Row} {rows : List Row}
    (h : ∀ row ∈ rows, (f row).flavors = row.flavors ∧ (f row).kind = row.kind) (hash : String)
    (kind : ContentKind) : occurrences (rows.map f) hash kind = occurrences rows hash kind := by
  unfold occurrences
  rw [List.map_map]
  refine congrArg List.sum (List.map_congr_left fun row hrow => ?_)
  rw [Function.comp_apply, (h row hrow).1, (h row hrow).2]

/-- Rows kept and rows taken out make up the whole. -/
theorem occurrences_filter (p : Row → Bool) (rows : List Row) (hash : String)
    (kind : ContentKind) : occurrences (rows.filter p) hash kind +
      occurrences (rows.filter fun row => !p row) hash kind = occurrences rows hash kind := by
  induction rows with
  | nil => rfl
  | cons row rest ih =>
    rw [occurrences_cons, ← ih]
    cases hp : p row with
    | true =>
      rw [List.filter_cons_of_pos hp, List.filter_cons_of_neg (by simp [hp]), occurrences_cons]
      ring
    | false =>
      rw [List.filter_cons_of_neg (by simp [hp]), List.filter_cons_of_pos (by simp [hp]),
        occurrences_cons]
      ring

theorem spillCount_le_occurrences {rows : List Row} {row : Row} (h : row ∈ rows) (hash : String)
    (kind : ContentKind) :
    spillCount row.flavors row.kind hash kind ≤ occurrences rows hash kind := by
  refine List.single_le_sum (fun n hn => ?_) _ (List.mem_map_of_mem h)
  obtain ⟨other, -, rfl⟩ := List.mem_map.mp hn
  exact spillCount_nonneg ..

theorem spillCount_pos {flavors : List Flavor} {flavor : Flavor} (h : flavor ∈ flavors)
    {blobRef : String} {byteSize : UInt64} (hbody : flavor.body = .Spilled blobRef byteSize)
    (kind : ContentKind) : 0 < spillCount flavors kind blobRef kind := by
  rw [spillCount, if_pos rfl]
  refine Int.natCast_pos.mpr (List.countP_pos_iff.mpr ⟨flavor, h, ?_⟩)
  simp [refersTo, hbody]

/-! ## One reference -/

theorem isFor_iff {blob : BlobRef} {hash : String} {kind : ContentKind} :
    blob.isFor hash kind = true ↔ blob.key = (hash, kind) := by
  simp [BlobRef.isFor, BlobRef.key]

theorem isFor_self (blob : BlobRef) : blob.isFor blob.hash blob.kind = true := isFor_iff.mpr rfl

@[simp] theorem refcount_cons (blob : BlobRef) (blobRefs : List BlobRef) (hash : String)
    (kind : ContentKind) : refcount (blob :: blobRefs) hash kind =
      (if blob.isFor hash kind then blob.refcount else 0) + refcount blobRefs hash kind := by
  rw [refcount, List.filter_cons]
  split
  case isTrue h => rw [List.map_cons, List.sum_cons, refcount]
  case isFalse h => rw [zero_add, refcount]

theorem refcount_append (blobRefs blobRefs' : List BlobRef) (hash : String) (kind : ContentKind) :
    refcount (blobRefs ++ blobRefs') hash kind =
      refcount blobRefs hash kind + refcount blobRefs' hash kind := by
  simp [refcount]

theorem refcount_eq_zero {blobRefs : List BlobRef} {hash : String} {kind : ContentKind}
    (h : ∀ blob ∈ blobRefs, blob.isFor hash kind = false) : refcount blobRefs hash kind = 0 := by
  rw [refcount, List.filter_eq_nil_iff.mpr fun blob hb => by simp [h blob hb]]
  rfl

/-- The table's word on a blob is that of its row. -/
theorem refcount_of_mem {blobRefs : List BlobRef} (hkeyed : Keyed blobRefs) {blob : BlobRef}
    (h : blob ∈ blobRefs) : refcount blobRefs blob.hash blob.kind = blob.refcount := by
  induction blobRefs with
  | nil => exact absurd h List.not_mem_nil
  | cons first rest ih =>
    obtain ⟨hnew, hrest⟩ := List.nodup_cons.mp hkeyed
    rw [refcount_cons]
    rcases List.mem_cons.mp h with rfl | hmem
    · have hothers : ∀ other ∈ rest, other.isFor blob.hash blob.kind = false := by
        intro other hother
        refine Bool.eq_false_iff.mpr fun hfor => hnew ?_
        exact List.mem_map.mpr ⟨other, hother, isFor_iff.mp hfor⟩
      rw [if_pos (isFor_self blob), refcount_eq_zero hothers, add_zero]
    · have hother : ¬first.isFor blob.hash blob.kind = true := fun hfor =>
        hnew (List.mem_map.mpr ⟨blob, hmem, (isFor_iff.mp hfor).symm⟩)
      rw [if_neg hother, zero_add]
      exact ih hrest hmem

theorem exists_of_refcount_pos {blobRefs : List BlobRef} {hash : String} {kind : ContentKind}
    (h : 0 < refcount blobRefs hash kind) :
    ∃ blob ∈ blobRefs, blob.isFor hash kind = true := by
  by_contra hnone
  push Not at hnone
  exact h.ne' (refcount_eq_zero fun blob hb => Bool.eq_false_iff.mpr (hnone blob hb))

/-- A counter changed for one blob, in every row about it. -/
theorem refcount_map {blobRefs : List BlobRef} (hkeyed : Keyed blobRefs) {hash : String}
    {kind : ContentKind} (hpresent : ∃ blob ∈ blobRefs, blob.isFor hash kind = true) (delta : ℤ)
    (hash' : String) (kind' : ContentKind) :
    refcount (blobRefs.map fun blob =>
        if blob.isFor hash kind then { blob with refcount := blob.refcount + delta } else blob)
        hash' kind' =
      refcount blobRefs hash' kind' + if hash = hash' ∧ kind = kind' then delta else 0 := by
  induction blobRefs with
  | nil => obtain ⟨blob, hmem, -⟩ := hpresent; exact absurd hmem List.not_mem_nil
  | cons first rest ih =>
    obtain ⟨hnew, hrest⟩ := List.nodup_cons.mp hkeyed
    rw [List.map_cons, refcount_cons, refcount_cons]
    by_cases hfirst : first.isFor hash kind = true
    · have hothers : rest.map (fun blob =>
          if blob.isFor hash kind then { blob with refcount := blob.refcount + delta } else blob) =
            rest := by
        refine List.map_congr_left (fun other hother => if_neg fun hfor => hnew ?_) |>.trans
          (List.map_id rest)
        rw [isFor_iff.mp hfirst, ← isFor_iff.mp hfor]
        exact List.mem_map_of_mem hother
      obtain ⟨rfl, rfl⟩ : first.hash = hash ∧ first.kind = kind := Prod.mk.inj (isFor_iff.mp hfirst)
      rw [if_pos hfirst, hothers]
      by_cases heq : first.hash = hash' ∧ first.kind = kind'
      · obtain ⟨rfl, rfl⟩ := heq
        simp [BlobRef.isFor]
        ring
      · simp [BlobRef.isFor, heq]
    · rw [if_neg hfirst]
      obtain ⟨blob, hmem, hfor⟩ := hpresent
      rcases List.mem_cons.mp hmem with rfl | hin
      · exact absurd hfor hfirst
      · rw [ih hrest ⟨blob, hin, hfor⟩]
        ring

theorem keyed_map {blobRefs : List BlobRef} (hkeyed : Keyed blobRefs) (hash : String)
    (kind : ContentKind) (delta : ℤ) :
    Keyed (blobRefs.map fun blob =>
      if blob.isFor hash kind then { blob with refcount := blob.refcount + delta } else blob) := by
  have hkeys : (blobRefs.map fun blob =>
      if blob.isFor hash kind then { blob with refcount := blob.refcount + delta } else blob).map
        BlobRef.key = blobRefs.map BlobRef.key := by
    rw [List.map_map]
    refine List.map_congr_left fun blob _ => ?_
    rw [Function.comp_apply]
    split <;> rfl
  rw [Keyed, hkeys]
  exact hkeyed

theorem addReference_spec {blobRefs : List BlobRef} (hkeyed : Keyed blobRefs) (hash : String)
    (kind : ContentKind) (byteSize : UInt64) :
    Keyed (addReference blobRefs hash kind byteSize) ∧ ∀ hash' kind',
      refcount (addReference blobRefs hash kind byteSize) hash' kind' =
        refcount blobRefs hash' kind' + if hash = hash' ∧ kind = kind' then 1 else 0 := by
  unfold addReference
  split
  case isTrue hany =>
    obtain ⟨blob, hmem, hfor⟩ := List.any_eq_true.mp hany
    exact ⟨keyed_map hkeyed hash kind 1,
      fun hash' kind' => refcount_map hkeyed ⟨blob, hmem, hfor⟩ 1 hash' kind'⟩
  case isFalse hnone =>
    refine ⟨?_, fun hash' kind' => ?_⟩
    · rw [Keyed, List.map_append]
      refine List.Nodup.append hkeyed (List.nodup_singleton _) fun key hkey hnew => ?_
      obtain ⟨blob, hmem, rfl⟩ := List.mem_map.mp hkey
      refine hnone (List.any_eq_true.mpr ⟨blob, hmem, isFor_iff.mpr ?_⟩)
      exact List.mem_singleton.mp hnew
    · rw [refcount_append]
      simp [refcount, BlobRef.isFor, List.filter_cons, apply_ite]

/-- A reference that is counted can be dropped. -/
theorem dropReference_spec {blobRefs : List BlobRef} (hkeyed : Keyed blobRefs) {hash : String}
    {kind : ContentKind} (hcounted : 1 ≤ refcount blobRefs hash kind) :
    ∃ blobRefs', dropReference blobRefs hash kind = .ok blobRefs' ∧ Keyed blobRefs' ∧
      ∀ hash' kind', refcount blobRefs' hash' kind' =
        refcount blobRefs hash' kind' - if hash = hash' ∧ kind = kind' then 1 else 0 := by
  have hfine :
      ¬(blobRefs.any fun blob => blob.isFor hash kind && blob.refcount - 1 < 0) = true := by
    rw [List.any_eq_true]
    rintro ⟨blob, hmem, hbad⟩
    rw [Bool.and_eq_true, decide_eq_true_eq] at hbad
    obtain ⟨rfl, rfl⟩ : blob.hash = hash ∧ blob.kind = kind := Prod.mk.inj (isFor_iff.mp hbad.1)
    rw [refcount_of_mem hkeyed hmem] at hcounted
    omega
  refine ⟨_, if_neg hfine, keyed_map hkeyed hash kind (-1), fun hash' kind' => ?_⟩
  rw [show (fun blob : BlobRef =>
      if blob.isFor hash kind then { blob with refcount := blob.refcount - 1 } else blob) =
        fun blob => if blob.isFor hash kind then { blob with refcount := blob.refcount + -1 }
          else blob from rfl,
    refcount_map hkeyed (exists_of_refcount_pos (by omega)) (-1) hash' kind']
  split <;> ring

/-! ## The references of rows -/

theorem spillCount_cons_inline {flavor : Flavor} {bytes : Bytes} (h : flavor.body = .Inline bytes)
    (flavors : List Flavor) (own : ContentKind) (hash : String) (kind : ContentKind) :
    spillCount (flavor :: flavors) own hash kind = spillCount flavors own hash kind := by
  simp [spillCount, refersTo, h]

theorem spillCount_cons_spilled {flavor : Flavor} {blobRef : String} {byteSize : UInt64}
    (h : flavor.body = .Spilled blobRef byteSize) (flavors : List Flavor) (own : ContentKind)
    (hash : String) (kind : ContentKind) :
    spillCount (flavor :: flavors) own hash kind =
      spillCount flavors own hash kind + if blobRef = hash ∧ own = kind then 1 else 0 := by
  by_cases hkind : own = kind
  · by_cases hhash : blobRef = hash <;>
      simp [spillCount, refersTo, h, hkind, hhash]
  · simp [spillCount, hkind]

/-- Adding the flavors of a row always succeeds. -/
theorem addReferences_spec (flavors : List Flavor) (own : ContentKind) {blobRefs : List BlobRef}
    (hkeyed : Keyed blobRefs) :
    ∃ blobRefs', updateBlobReferences blobRefs flavors own 1 = .ok blobRefs' ∧ Keyed blobRefs' ∧
      ∀ hash kind, refcount blobRefs' hash kind =
        refcount blobRefs hash kind + spillCount flavors own hash kind := by
  induction flavors generalizing blobRefs with
  | nil => exact ⟨blobRefs, rfl, hkeyed, fun hash kind => by simp [spillCount]⟩
  | cons flavor rest ih =>
    cases hbody : flavor.body with
    | Inline bytes =>
      obtain ⟨blobRefs', hok, hkeyed', hcount⟩ := ih hkeyed
      refine ⟨blobRefs', ?_, hkeyed', fun hash kind => ?_⟩
      · rw [updateBlobReferences, List.foldlM_cons, updateBlobReference, hbody]
        exact hok
      · rw [spillCount_cons_inline hbody]
        exact hcount hash kind
    | Spilled blobRef byteSize =>
      obtain ⟨hkeyedMid, hcountMid⟩ := addReference_spec hkeyed blobRef own byteSize
      obtain ⟨blobRefs', hok, hkeyed', hcount⟩ := ih hkeyedMid
      refine ⟨blobRefs', ?_, hkeyed', fun hash kind => ?_⟩
      · rw [updateBlobReferences, List.foldlM_cons, updateBlobReference, hbody]
        exact hok
      · rw [hcount, hcountMid, spillCount_cons_spilled hbody]
        ring

/-- The flavors of a row that are counted can be dropped. -/
theorem dropFlavors_spec (flavors : List Flavor) (own : ContentKind) {blobRefs : List BlobRef}
    (hkeyed : Keyed blobRefs)
    (hcounted : ∀ hash kind, spillCount flavors own hash kind ≤ refcount blobRefs hash kind) :
    ∃ blobRefs', updateBlobReferences blobRefs flavors own (-1) = .ok blobRefs' ∧
      Keyed blobRefs' ∧ ∀ hash kind, refcount blobRefs' hash kind =
        refcount blobRefs hash kind - spillCount flavors own hash kind := by
  induction flavors generalizing blobRefs with
  | nil => exact ⟨blobRefs, rfl, hkeyed, fun hash kind => by simp [spillCount]⟩
  | cons flavor rest ih =>
    cases hbody : flavor.body with
    | Inline bytes =>
      simp only [spillCount_cons_inline hbody] at hcounted ⊢
      obtain ⟨blobRefs', hok, hspec⟩ := ih hkeyed hcounted
      refine ⟨blobRefs', ?_, hspec⟩
      rw [updateBlobReferences, List.foldlM_cons, updateBlobReference, hbody]
      exact hok
    | Spilled blobRef byteSize =>
      simp only [spillCount_cons_spilled hbody] at hcounted ⊢
      have hone : 1 ≤ refcount blobRefs blobRef own := by
        have hself := hcounted blobRef own
        rw [if_pos ⟨rfl, rfl⟩] at hself
        have hnonneg := spillCount_nonneg rest own blobRef own
        omega
      obtain ⟨mid, hdrop, hkeyedMid, hcountMid⟩ := dropReference_spec hkeyed hone
      obtain ⟨blobRefs', hok, hkeyed', hcount⟩ := ih hkeyedMid fun hash kind => by
        have hboth := hcounted hash kind
        rw [hcountMid]
        omega
      refine ⟨blobRefs', ?_, hkeyed', fun hash kind => ?_⟩
      · rw [updateBlobReferences, List.foldlM_cons, updateBlobReference, hbody]
        show (dropReference blobRefs blobRef own >>= _) = _
        rw [hdrop]
        exact hok
      · rw [hcount, hcountMid]
        ring

/-- Rows that are counted can be dropped. -/
theorem dropReferences_spec (rows : List Row) {blobRefs : List BlobRef} (hkeyed : Keyed blobRefs)
    (hcounted : ∀ hash kind, occurrences rows hash kind ≤ refcount blobRefs hash kind) :
    ∃ blobRefs', dropReferences rows blobRefs = .ok blobRefs' ∧ Keyed blobRefs' ∧
      ∀ hash kind, refcount blobRefs' hash kind =
        refcount blobRefs hash kind - occurrences rows hash kind := by
  induction rows generalizing blobRefs with
  | nil => exact ⟨blobRefs, rfl, hkeyed, fun hash kind => by simp⟩
  | cons row rest ih =>
    simp only [occurrences_cons] at hcounted ⊢
    obtain ⟨mid, hdrop, hkeyedMid, hcountMid⟩ := dropFlavors_spec row.flavors row.kind hkeyed
      fun hash kind => by
        have hboth := hcounted hash kind
        have hnonneg := occurrences_nonneg rest hash kind
        omega
    obtain ⟨blobRefs', hok, hkeyed', hcount⟩ := ih hkeyedMid fun hash kind => by
      have hboth := hcounted hash kind
      rw [hcountMid]
      omega
    refine ⟨blobRefs', ?_, hkeyed', fun hash kind => ?_⟩
    · rw [dropReferences, List.foldlM_cons, hdrop]
      exact hok
    · rw [hcount, hcountMid]
      ring

/-- Rows that count nothing can be left out of the table. -/
theorem refcount_filter_ne_zero (blobRefs : List BlobRef) (hash : String) (kind : ContentKind) :
    refcount (blobRefs.filter fun blob => blob.refcount ≠ 0) hash kind =
      refcount blobRefs hash kind := by
  induction blobRefs with
  | nil => rfl
  | cons blob rest ih =>
    rw [refcount_cons, ← ih]
    by_cases hzero : blob.refcount = 0
    · rw [List.filter_cons_of_neg (by simp [hzero]), hzero, ite_self, zero_add]
    · rw [List.filter_cons_of_pos (by simp [hzero]), refcount_cons]

end Vbuff.Store
