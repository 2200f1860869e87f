import Vbuff.Lib.Bands
import Vbuff.Store.Reads
import Vbuff.Store.Runs

/-!
# Near duplicates

A fingerprint is cut into four bands, and a lookup within a distance below four asks for a band in
common before it counts bits.  The columns of the bands always hold those of the stored
fingerprint, whether an insert or a backfill wrote it, so the question loses no row.
-/

namespace Vbuff.Store

open ByteString Vbuff.Types Vbuff.Core StableSort Attempt

variable {Regex : Type} {env : Env Regex}

/-! ## Bands -/

theorem hammingDistance_eq (left right : UInt64) :
    hammingDistance left right = Bands.distance 64 left.toNat right.toNat := by
  rw [hammingDistance, UInt64.toNat_xor]
  rfl

theorem toNat_fingerprintBands (hash : UInt64) :
    (fingerprintBands hash).map UInt16.toNat =
      (List.range 4).map fun i => Bands.band 16 i hash.toNat := by
  simp [fingerprintBands, Bands.band, List.range_succ, Nat.shiftRight_eq_div_pow]

theorem fingerprintBands_getElem? (hash : UInt64) {i : ℕ} (hi : i < 4) :
    ((fingerprintBands hash)[i]?).map UInt16.toNat = some (Bands.band 16 i hash.toNat) := by
  rw [← List.getElem?_map, toNat_fingerprintBands, List.getElem?_map,
    List.getElem?_range hi, Option.map_some]

/-- Fingerprints that differ in fewer than four bits have one of their bands in common. -/
theorem exists_band_eq_of_hammingDistance {left right : UInt64}
    (h : hammingDistance left right < 4) :
    ∃ i < 4, (fingerprintBands left)[i]? = (fingerprintBands right)[i]? := by
  rw [hammingDistance_eq] at h
  obtain ⟨i, hi, hband⟩ := Bands.exists_band_eq (w := 16) (k := 4) h
  refine ⟨i, hi, Option.map_injective (fun _ _ => UInt16.toNat_inj.mp) ?_⟩
  rw [fingerprintBands_getElem? left hi, fingerprintBands_getElem? right hi, hband]

/-- What is asked of the columns of the bands. -/
theorem any_band_eq_of_hammingDistance {left right : UInt64} (h : hammingDistance left right < 4) :
    (((fingerprintBands right).zip (fingerprintBands left)).any
      fun bands => bands.1 = bands.2) = true := by
  obtain ⟨i, hi, hband⟩ := exists_band_eq_of_hammingDistance h
  have hleft : i < (fingerprintBands left).length := hi
  have hright : i < (fingerprintBands right).length := hi
  rw [List.getElem?_eq_getElem hleft, List.getElem?_eq_getElem hright] at hband
  refine List.any_eq_true.mpr ⟨_, List.getElem_mem (by simpa using ⟨hright, hleft⟩), ?_⟩
  simpa using (Option.some.inj hband).symm

/-! ## Lookups -/

/-- The row has a fingerprint that near. -/
def withinDistance (column : Row → Option Fingerprint) (fingerprint : UInt64) (maxDistance : ℕ)
    (row : Row) : Bool :=
  (column row).any fun candidate => hammingDistance fingerprint candidate.value ≤ maxDistance

/-- On a row whose bands are those of its fingerprint, the filter by bands lets through whatever is
near enough. -/
theorem nearRow_eq_withinDistance {column : Row → Option Fingerprint} {row : Row}
    (hcolumn : ∀ candidate ∈ column row, candidate = .ofHash candidate.value)
    (fingerprint : UInt64) (maxDistance : ℕ) :
    nearRow column fingerprint maxDistance row =
      withinDistance column fingerprint maxDistance row := by
  rw [nearRow, withinDistance]
  cases hfound : column row with
  | none => rfl
  | some candidate =>
    have hbands : candidate.bands = fingerprintBands candidate.value :=
      congrArg Fingerprint.bands (hcolumn candidate hfound)
    rw [Option.any_some, Option.any_some, hbands]
    by_cases hnear : hammingDistance fingerprint candidate.value ≤ maxDistance
    · by_cases hfar : 4 ≤ maxDistance
      · simp [hnear, hfar]
      · rw [any_band_eq_of_hammingDistance (by omega)]
        simp
    · simp [hnear]

/-- The lookup the documentation speaks of: every row that is shown is measured, in the order of
recency, and the first ones are taken. -/
def findWithinDistance (env : Env Regex) (column : Row → Option Fingerprint) (fingerprint : UInt64)
    (maxDistance limit : ℕ) : Operation (List Clip) := do
  let now ← nowMillis env
  let shown ← query fun db =>
    newestFirst (db.clips.filter fun row =>
      db.visible .Active row && row.unexpired now && !row.sensitive)
  hydratedClips env ((shown.filter (withinDistance column fingerprint maxDistance)).take limit)

/-- The rows both lookups take. -/
theorem filter_nearRow {column : Row → Option Fingerprint} {rows : List Row}
    (hcolumn : ∀ row ∈ rows, ∀ candidate ∈ column row, candidate = .ofHash candidate.value)
    (shown : Row → Bool) (fingerprint : UInt64) (maxDistance : ℕ) :
    newestFirst (rows.filter fun row => shown row && nearRow column fingerprint maxDistance row) =
      (newestFirst (rows.filter shown)).filter (withinDistance column fingerprint maxDistance) := by
  rw [newestFirst, newestFirst, ← sortByKey_filter, List.filter_filter]
  congr 1
  refine List.filter_congr fun row hrow => ?_
  rw [nearRow_eq_withinDistance (hcolumn row hrow), Bool.and_comm]

theorem findNearFingerprint_eq_findWithinDistance {column : Row → Option Fingerprint} {s : Store}
    (hcolumn : ∀ row ∈ s.db.clips, ∀ candidate ∈ column row, candidate = .ofHash candidate.value)
    (fingerprint : UInt64) (maxDistance limit : ℕ) :
    (findNearFingerprint env column fingerprint maxDistance limit s).2 =
      (findWithinDistance env column fingerprint maxDistance limit s).2 := by
  by_cases hzero : limit = 0
  · subst hzero
    rw [findNearFingerprint, if_pos rfl]
    rfl
  · have hrows := filter_nearRow hcolumn (fun row =>
      s.db.visible .Active row && row.unexpired (timestampMillis (env.clock s.calls)) &&
        !row.sensitive) fingerprint maxDistance
    have hlookup : findNearFingerprint env column fingerprint maxDistance limit s =
        hydratedClips env ((newestFirst (s.db.clips.filter fun row =>
          s.db.visible .Active row && row.unexpired (timestampMillis (env.clock s.calls)) &&
            !row.sensitive && nearRow column fingerprint maxDistance row)).take limit)
          (nowMillis env s).1 := by
      rw [findNearFingerprint, if_neg hzero]
      rfl
    rw [hlookup, hrows]
    rfl

/-! ## Reachable stores -/

/-- The bands lose no row: a lookup returns what measuring every row would, and two fingerprints
within a distance that the bands are asked for have one in common. -/
structure NearExact (env : Env Regex) (s : Store) : Prop where
  simhash : ∀ fingerprint maxDistance limit,
    (findNearFingerprint env Row.simhash fingerprint maxDistance limit s).2 =
      (findWithinDistance env Row.simhash fingerprint maxDistance limit s).2
  dhash : ∀ fingerprint maxDistance limit,
    (findNearFingerprint env Row.dhash fingerprint maxDistance limit s).2 =
      (findWithinDistance env Row.dhash fingerprint maxDistance limit s).2
  shared : ∀ left right maxDistance, maxDistance < 4 → hammingDistance left right ≤ maxDistance →
    ∃ i < 4, (fingerprintBands left)[i]? = (fingerprintBands right)[i]?

variable (env) in
/-- Whatever a store was asked for since it was opened, near duplicates are found as if every row
had been measured. -/
theorem near_lookup_lossless (onDisk : Bool) (requests : List Request) :
    NearExact env (runAll env requests (Request.Reopen.after env (new onDisk))) := by
  generalize hstate : runAll env requests (Request.Reopen.after env (new onDisk)) = s
  have hintact : Intact env s := Reachable.intact ⟨onDisk, requests, hstate⟩
  have hbanded : ∀ row ∈ s.db.clips, row.Banded := fun row hrow =>
    (hintact.sound.wellKept row hrow).banded
  refine ⟨fun fingerprint maxDistance limit => ?_, fun fingerprint maxDistance limit => ?_,
    fun left right maxDistance hsmall hnear => ?_⟩
  · exact findNearFingerprint_eq_findWithinDistance (fun row hrow => (hbanded row hrow).simhash)
      fingerprint maxDistance limit
  · exact findNearFingerprint_eq_findWithinDistance (fun row hrow => (hbanded row hrow).dhash)
      fingerprint maxDistance limit
  · exact exists_band_eq_of_hammingDistance (hnear.trans_lt hsmall)

end Vbuff.Store
