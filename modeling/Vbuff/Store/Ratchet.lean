import Vbuff.Store.Runs

/-!
# Privacy only tightens

A row is followed through a run by the sequence number it was born with.  Once it is sensitive it
stays so, its expiry never moves later, and nothing derived from it is left.
-/

namespace Vbuff.Store

open ByteString Vbuff.Types Vbuff.Core

/-! ## Changes -/

section Core

variable {blobRefOf : Bytes → String} {L : Licence} {c c' : Core}

/-- What has become of a sensitive row, if it is there. -/
structure Tightened (row row' : Row) : Prop where
  id : row'.id = row.id
  sensitive : row'.sensitive = true
  expiry : ExpiryLE row'.metadata.expiresAt row.metadata.expiresAt

/-- The row that was born then has been tightened, and none is born then again. -/
structure Follows (row : Row) (c : Core) : Prop where
  born_le : row.born ≤ c.clipSequence
  tightened : ∀ row' ∈ c.clips, row'.born = row.born → Tightened row row'

theorem Follows.step {row : Row} (h : Follows row c) (hchange : Change blobRefOf L c c') :
    Follows row c' := by
  cases hchange with
  | touch f next facets embeddings hrows hseq hfacets hembeddings =>
    refine ⟨?_, fun row' hrow' hborn => ?_⟩
    · have hle := h.born_le
      rcases hseq with ⟨rfl, -⟩ | ⟨moved, rfl, -⟩
      · exact hle
      · exact hle.trans (Int.le_add_one le_rfl)
    · obtain ⟨old, hold, rfl⟩ := List.mem_map.mp hrow'
      have htouched := hrows old hold
      have htight := h.tightened old hold (htouched.born.symm.trans hborn)
      exact ⟨htouched.id.trans htight.id, htouched.sensitive htight.sensitive,
        (htouched.expiry htight.sensitive).trans htight.expiry⟩
  | insert new blobRefs facets embeddings hkept hseq hborn hid hhash hannotated hseen hstored
      hrefs hfacets hembeddings =>
    refine ⟨h.born_le.trans (Int.le_add_one le_rfl), fun row' hrow' hsame => ?_⟩
    rcases List.mem_append.mp hrow' with hold | hnew
    · exact h.tightened row' hold hsame
    · obtain rfl := List.mem_singleton.mp hnew
      have hle := h.born_le
      omega
  | remove p blobRefs hguard hrefs =>
    exact ⟨h.born_le, fun row' hrow' => h.tightened row' (List.mem_of_mem_filter hrow')⟩
  | repair id actual hfree hseen =>
    refine ⟨h.born_le, fun row' hrow' hborn => ?_⟩
    obtain ⟨old, hold, rfl⟩ := List.mem_map.mp hrow'
    have hsame : (if old.id = id then { old with contentHash := actual } else old).born =
        old.born := by split <;> rfl
    have htight := h.tightened old hold (hsame.symm.trans hborn)
    split
    · exact ⟨htight.id, htight.sensitive, htight.expiry⟩
    · exact htight
  | annotate f hid hhold => exact ⟨h.born_le, h.tightened⟩
  | collect hcollect => exact ⟨h.born_le, h.tightened⟩

theorem Follows.run {row : Row} (h : Follows row c) (hchanges : Changes blobRefOf L c c') :
    Follows row c' := by
  induction hchanges with
  | refl => exact h
  | tail _ hchange ih => exact ih.step hchange

theorem follows_self (h : c.Sound) {row : Row} (hrow : row ∈ c.clips)
    (hsensitive : row.sensitive = true) : Follows row c := by
  refine ⟨h.born_le row hrow, fun row' hrow' hborn => ?_⟩
  rw [h.borns.eq_of_eq hrow' hrow hborn]
  exact ⟨rfl, hsensitive, expiryLE_refl _⟩

end Core

/-! ## Runs -/

/-- A sensitive row with its columns, and nothing derived from it. -/
structure Withdrawn (db : Database) (row : Row) : Prop extends row.Shielded where
  sensitive : row.sensitive = true
  column : row.expiresAt = row.metadata.expiresAt.map timestampMillis
  facets : ∀ facet ∈ db.facets, facet.clipId ≠ row.id
  embeddings : ∀ embedding ∈ db.embeddings, embedding.contentHash ≠ row.contentHash

theorem Core.Sound.withdrawn {db : Database} (h : db.core.Sound) {row : Row} (hrow : row ∈ db.clips)
    (hsensitive : row.sensitive = true) : Withdrawn db row where
  toShielded := (h.wellKept row hrow).shielded hsensitive
  sensitive := hsensitive
  column := (h.wellKept row hrow).expiry
  facets facet hfacet hid := by
    obtain ⟨other, hother, hotherId, hclear⟩ := h.facets facet hfacet
    rw [h.ids.eq_of_eq hother hrow (hotherId.trans hid), hsensitive] at hclear
    cases hclear
  embeddings embedding hembedding hhash := by
    obtain ⟨other, hother, hotherHash, hclear⟩ := h.embeddings embedding hembedding
    rw [h.hashes.eq_of_eq hother hrow (hotherHash.trans hhash), hsensitive] at hclear
    cases hclear

section Runs

variable {Regex : Type} {env : Env Regex}

theorem Follows.runAll {row : Row} {s : Store} (h : Follows row s.db.core)
    (requests : List Request) : Follows row (runAll env requests s).db.core := by
  induction requests generalizing s with
  | nil => exact h
  | cons request rest ih => exact ih (h.run (request.changes s))

/-- Of a row that is sensitive in the first store, as long as it is there: it is withdrawn, and
its expiry is no later. -/
def PrivacyRatchet (s s' : Store) : Prop :=
  ∀ row ∈ s.db.clips, row.sensitive = true → ∀ row' ∈ s'.db.clips, row'.born = row.born →
    row'.id = row.id ∧ Withdrawn s'.db row' ∧
      ExpiryLE row'.metadata.expiresAt row.metadata.expiresAt

variable (env) in
/-- Whatever a store is asked for, in any order, the privacy of a row only tightens. -/
theorem privacy_ratchet (onDisk : Bool) (earlier later : List Request) :
    PrivacyRatchet (runAll env earlier (Request.Reopen.after env (new onDisk)))
      (runAll env later (runAll env earlier (Request.Reopen.after env (new onDisk)))) := by
  generalize hstate : runAll env earlier (Request.Reopen.after env (new onDisk)) = s
  have hintact : Intact env s := Reachable.intact ⟨onDisk, earlier, hstate⟩
  intro row hrow hsensitive row' hrow' hborn
  have hfollows : Follows row (runAll env later s).db.core :=
    (follows_self hintact.sound hrow hsensitive).runAll later
  have htight := hfollows.tightened row' hrow' hborn
  exact ⟨htight.id, (hintact.runAll later).sound.withdrawn hrow' htight.sensitive, htight.expiry⟩

end Runs

end Vbuff.Store
