import Vbuff.Store.BlobCount

/-!
# Sound databases

Identifiers, hashes and sequence numbers name one row each; annotations belong to rows, and
facets and embeddings to rows that are not sensitive; the columns of a row agree; and the table
of blobs counts what the rows refer to.  Every change keeps a database sound.
-/

namespace Vbuff.Store

open ByteString Vbuff.Types Vbuff.Core

/-- No two rows have the same value there. -/
def Distinct {κ : Type} (key : Row → κ) (rows : List Row) : Prop := (rows.map key).Nodup

structure Core.Sound (c : Core) : Prop where
  ids : Distinct Row.id c.clips
  hashes : Distinct Row.contentHash c.clips
  seqs : Distinct Row.seq c.clips
  seq_le : ∀ row ∈ c.clips, row.seq ≤ c.clipSequence
  borns : Distinct Row.born c.clips
  born_le : ∀ row ∈ c.clips, row.born ≤ c.clipSequence
  annotationIds : (c.annotations.map AnnotationRow.clipId).Nodup
  annotated : ∀ row ∈ c.clips, ∃ noted ∈ c.annotations, noted.clipId = row.id
  annotates : ∀ noted ∈ c.annotations, ∃ row ∈ c.clips, row.id = noted.clipId
  wellKept : ∀ row ∈ c.clips, row.WellKept
  facets : ∀ facet ∈ c.facets, ∃ row ∈ c.clips, row.id = facet.clipId ∧ row.sensitive = false
  embeddings : ∀ embedding ∈ c.embeddings, ∃ row ∈ c.clips,
    row.contentHash = embedding.contentHash ∧ row.sensitive = false
  keyed : Keyed c.blobRefs
  counts : ∀ hash kind, refcount c.blobRefs hash kind = occurrences c.clips hash kind

/-! ## Distinct values -/

section Distinct

variable {κ : Type} {key : Row → κ} {rows : List Row}

theorem Distinct.eq_of_eq (h : Distinct key rows) {a b : Row} (ha : a ∈ rows) (hb : b ∈ rows)
    (hkey : key a = key b) : a = b := List.inj_on_of_nodup_map h ha hb hkey

theorem Distinct.filter (h : Distinct key rows) (p : Row → Bool) : Distinct key (rows.filter p) :=
  h.sublist (List.Sublist.map key List.filter_sublist)

/-- A map that keeps the values. -/
theorem Distinct.map (h : Distinct key rows) {f : Row → Row}
    (hf : ∀ row ∈ rows, key (f row) = key row) : Distinct key (rows.map f) := by
  have hkeys : (rows.map f).map key = rows.map key := by
    rw [List.map_map]
    exact List.map_congr_left hf
  rw [Distinct, hkeys]
  exact h

/-- A map that keeps the rows apart. -/
theorem Distinct.map_of_inj {κ' : Type} {other : Row → κ'} (h : Distinct other rows)
    {f : Row → Row}
    (hf : ∀ a ∈ rows, ∀ b ∈ rows, key (f a) = key (f b) → a = b) : Distinct key (rows.map f) := by
  rw [Distinct, List.map_map]
  exact (List.nodup_map_iff_inj_on (List.Nodup.of_map other h)).mpr hf

theorem Distinct.concat (h : Distinct key rows) {row : Row}
    (hnew : ∀ other ∈ rows, key other ≠ key row) : Distinct key (rows ++ [row]) := by
  rw [Distinct, List.map_append]
  refine List.Nodup.append h (List.nodup_singleton _) fun k hk hk' => ?_
  obtain ⟨other, hother, rfl⟩ := List.mem_map.mp hk
  exact hnew other hother (List.mem_singleton.mp hk')

end Distinct

/-! ## Changes keep it -/

namespace Core.Sound

variable {blobRefOf : Bytes → String} {L : Licence} {c c' : Core}

theorem touch (h : c.Sound) {f : Row → Row} {next : ℤ} {facets : List FacetRow}
    {embeddings : List EmbeddingRow} (hrows : ∀ row ∈ c.clips, Touched row (f row))
    (hseq : (next = c.clipSequence ∧ ∀ row ∈ c.clips, (f row).seq = row.seq) ∨
      ∃ moved, next = c.clipSequence + 1 ∧
        ∀ row ∈ c.clips, (f row).seq = if row = moved then next else row.seq)
    (hfacets : ∀ facet ∈ facets,
      (facet ∈ c.facets ∧ ∀ row ∈ c.clips, row.id = facet.clipId →
        (f row).sensitive = true → row.sensitive = true) ∨
      ∃ row ∈ c.clips, row.id = facet.clipId ∧ (f row).sensitive = false)
    (hembeddings : ∀ embedding ∈ embeddings,
      (embedding ∈ c.embeddings ∧ ∀ row ∈ c.clips, row.contentHash = embedding.contentHash →
        (f row).sensitive = true → row.sensitive = true) ∨
      ∃ row ∈ c.clips, row.contentHash = embedding.contentHash ∧ (f row).sensitive = false) :
    Core.Sound { c with clips := c.clips.map f, clipSequence := next, facets, embeddings } := by
  have hgrows : c.clipSequence ≤ next := by
    rcases hseq with ⟨rfl, -⟩ | ⟨moved, rfl, -⟩ <;> omega
  have hclear : ∀ row ∈ c.clips, row.sensitive = false →
      ((f row).sensitive = true → row.sensitive = true) → (f row).sensitive = false := by
    intro row _ hrow himp
    refine Bool.eq_false_iff.mpr fun hsensitive => ?_
    rw [himp hsensitive] at hrow
    cases hrow
  refine
    { ids := h.ids.map fun row hrow => (hrows row hrow).id
      hashes := h.hashes.map fun row hrow => (hrows row hrow).contentHash
      seqs := ?seqs
      seq_le := ?seq_le
      borns := h.borns.map fun row hrow => (hrows row hrow).born
      born_le := ?born_le
      annotationIds := h.annotationIds
      annotated := ?annotated
      annotates := ?annotates
      wellKept := ?wellKept
      facets := ?facets
      embeddings := ?embeddings
      keyed := h.keyed
      counts := ?counts }
  case seqs =>
    rcases hseq with ⟨-, hsame⟩ | ⟨moved, hnext, hbump⟩
    · exact h.seqs.map hsame
    · refine h.ids.map_of_inj fun a ha b hb hab => ?_
      have hale := h.seq_le a ha
      have hble := h.seq_le b hb
      rw [hbump a ha, hbump b hb] at hab
      split at hab <;> split at hab
      · rename_i hamoved hbmoved
        exact hamoved.trans hbmoved.symm
      · omega
      · omega
      · exact h.seqs.eq_of_eq ha hb hab
  case seq_le =>
    rintro _ hmem
    obtain ⟨row, hrow, rfl⟩ := List.mem_map.mp hmem
    have hle := h.seq_le row hrow
    rcases hseq with ⟨-, hsame⟩ | ⟨moved, hnext, hbump⟩
    · rw [hsame row hrow]
      exact hle.trans hgrows
    · rw [hbump row hrow]
      split
      · exact le_refl next
      · exact hle.trans hgrows
  case born_le =>
    rintro _ hmem
    obtain ⟨row, hrow, rfl⟩ := List.mem_map.mp hmem
    rw [(hrows row hrow).born]
    exact (h.born_le row hrow).trans hgrows
  case annotated =>
    rintro _ hmem
    obtain ⟨row, hrow, rfl⟩ := List.mem_map.mp hmem
    rw [(hrows row hrow).id]
    exact h.annotated row hrow
  case annotates =>
    intro noted ha
    obtain ⟨row, hrow, hid⟩ := h.annotates noted ha
    exact ⟨f row, List.mem_map_of_mem hrow, (hrows row hrow).id.trans hid⟩
  case wellKept =>
    rintro _ hmem
    obtain ⟨row, hrow, rfl⟩ := List.mem_map.mp hmem
    exact (hrows row hrow).wellKept (h.wellKept row hrow)
  case facets =>
    intro facet hfacet
    rcases hfacets facet hfacet with ⟨hold, himp⟩ | ⟨row, hrow, hid, hrowClear⟩
    · obtain ⟨row, hrow, hid, hrowClear⟩ := h.facets facet hold
      exact ⟨f row, List.mem_map_of_mem hrow, (hrows row hrow).id.trans hid,
        hclear row hrow hrowClear (himp row hrow hid)⟩
    · exact ⟨f row, List.mem_map_of_mem hrow, (hrows row hrow).id.trans hid, hrowClear⟩
  case embeddings =>
    intro embedding hembedding
    rcases hembeddings embedding hembedding with ⟨hold, himp⟩ | ⟨row, hrow, hhash, hrowClear⟩
    · obtain ⟨row, hrow, hhash, hrowClear⟩ := h.embeddings embedding hold
      exact ⟨f row, List.mem_map_of_mem hrow, (hrows row hrow).contentHash.trans hhash,
        hclear row hrow hrowClear (himp row hrow hhash)⟩
    · exact ⟨f row, List.mem_map_of_mem hrow, (hrows row hrow).contentHash.trans hhash, hrowClear⟩
  case counts =>
    intro hash kind
    rw [occurrences_map fun row hrow => ⟨(hrows row hrow).flavors, (hrows row hrow).kind⟩]
    exact h.counts hash kind

theorem insert (h : c.Sound) {row : Row} {blobRefs : List BlobRef} {facets : List FacetRow}
    {embeddings : List EmbeddingRow} (hkept : row.WellKept) (hseq : row.seq = c.clipSequence + 1)
    (hborn : row.born = row.seq) (hid : ∀ other ∈ c.clips, other.id ≠ row.id)
    (hhash : ∀ other ∈ c.clips, other.contentHash ≠ row.contentHash)
    (hannotated : ∀ noted ∈ c.annotations, noted.clipId ≠ row.id)
    (hrefs : updateBlobReferences c.blobRefs row.flavors row.kind 1 = .ok blobRefs)
    (hfacets : ∀ facet ∈ facets, facet ∈ c.facets ∨ (facet.clipId = row.id ∧ row.sensitive = false))
    (hembeddings : ∀ embedding ∈ embeddings, embedding ∈ c.embeddings ∨
      (embedding.contentHash = row.contentHash ∧ row.sensitive = false)) :
    Core.Sound
      { clips := c.clips ++ [row]
        annotations := c.annotations ++ [.new row.id]
        facets
        embeddings
        blobRefs
        clipSequence := c.clipSequence + 1 } := by
  obtain ⟨added, hadd, hkeyed, hcount⟩ := addReferences_spec row.flavors row.kind h.keyed
  rw [hrefs] at hadd
  cases hadd
  have hnew : row ∈ c.clips ++ [row] := List.mem_append_right _ (List.mem_singleton_self row)
  have hold : ∀ other ∈ c.clips, other ∈ c.clips ++ [row] := fun other =>
    List.mem_append_left [row]
  have hcases : ∀ {P : Row → Prop}, (∀ other ∈ c.clips, P other) → P row →
      ∀ other ∈ c.clips ++ [row], P other := by
    intro P hclips hrow other hother
    rcases List.mem_append.mp hother with hin | hlast
    · exact hclips other hin
    · rw [List.mem_singleton.mp hlast]
      exact hrow
  refine
    { ids := h.ids.concat hid
      hashes := h.hashes.concat hhash
      seqs := h.seqs.concat fun other hother => ?_
      seq_le := hcases (fun other hother => ?_) ?_
      borns := h.borns.concat fun other hother => ?_
      born_le := hcases (fun other hother => ?_) ?_
      annotationIds := ?_
      annotated := hcases (fun other hother => ?_) ?_
      annotates := ?_
      wellKept := hcases h.wellKept hkept
      facets := ?_
      embeddings := ?_
      keyed := hkeyed
      counts := ?_ }
  · have hle := h.seq_le other hother
    omega
  · exact (h.seq_le other hother).trans (by simp)
  · exact hseq.le
  · have hle := h.born_le other hother
    omega
  · exact (h.born_le other hother).trans (by simp)
  · exact (hborn.trans hseq).le
  · rw [List.map_append]
    refine List.Nodup.append h.annotationIds (List.nodup_singleton _) fun id hin hlast => ?_
    obtain ⟨noted, ha, rfl⟩ := List.mem_map.mp hin
    exact hannotated noted ha (List.mem_singleton.mp hlast)
  · obtain ⟨noted, ha, hid⟩ := h.annotated other hother
    exact ⟨noted, List.mem_append_left _ ha, hid⟩
  · exact ⟨.new row.id, List.mem_append_right _ (List.mem_singleton_self _), rfl⟩
  · intro noted ha
    rcases List.mem_append.mp ha with hin | hlast
    · obtain ⟨other, hother, hid⟩ := h.annotates noted hin
      exact ⟨other, hold other hother, hid⟩
    · rw [List.mem_singleton.mp hlast]
      exact ⟨row, hnew, rfl⟩
  · intro facet hfacet
    rcases hfacets facet hfacet with hin | ⟨hfacetId, hclear⟩
    · obtain ⟨other, hother, hspec⟩ := h.facets facet hin
      exact ⟨other, hold other hother, hspec⟩
    · exact ⟨row, hnew, hfacetId.symm, hclear⟩
  · intro embedding hembedding
    rcases hembeddings embedding hembedding with hin | ⟨hembeddingHash, hclear⟩
    · obtain ⟨other, hother, hspec⟩ := h.embeddings embedding hin
      exact ⟨other, hold other hother, hspec⟩
    · exact ⟨row, hnew, hembeddingHash.symm, hclear⟩
  · intro hash kind
    rw [occurrences_append, occurrences_cons, occurrences_nil, add_zero, hcount, h.counts]

theorem remove (h : c.Sound) {p : Row → Bool} {blobRefs : List BlobRef}
    (hrefs : dropReferences (c.clips.filter p) c.blobRefs = .ok blobRefs) :
    Core.Sound
      { c with
        clips := c.clips.filter fun row => !p row
        annotations := c.annotations.filter fun noted =>
          !((c.clips.filter p).any fun row => row.id = noted.clipId)
        facets := c.facets.filter fun facet =>
          !((c.clips.filter p).any fun row => row.id = facet.clipId)
        embeddings := c.embeddings.filter fun embedding =>
          !((c.clips.filter p).any fun row => row.contentHash = embedding.contentHash)
        blobRefs } := by
  have hle : ∀ hash kind,
      occurrences (c.clips.filter p) hash kind ≤ refcount c.blobRefs hash kind := by
    intro hash kind
    have hsplit := occurrences_filter p c.clips hash kind
    have hnonneg := occurrences_nonneg (c.clips.filter fun row => !p row) hash kind
    rw [h.counts]
    omega
  obtain ⟨dropped, hdrop, hkeyed, hcount⟩ := dropReferences_spec (c.clips.filter p) h.keyed hle
  rw [hrefs] at hdrop
  cases hdrop
  have hkept : ∀ {row : Row}, row ∈ c.clips.filter (fun row => !p row) →
      row ∈ c.clips ∧ p row = false := by
    intro row hrow
    rw [List.mem_filter, Bool.not_eq_true'] at hrow
    exact hrow
  -- what still refers to a row refers to one that stays
  have hstays : ∀ {κ : Type} [DecidableEq κ] (key : Row → κ) (k : κ) {row : Row},
      row ∈ c.clips → key row = k →
      (!((c.clips.filter p).any fun other => key other = k)) = true →
      row ∈ c.clips.filter fun row => !p row := by
    intro κ _ key k row hrow hkey hnone
    rw [Bool.not_eq_true', List.any_eq_false] at hnone
    refine List.mem_filter.mpr ⟨hrow, ?_⟩
    rw [Bool.not_eq_true']
    refine Bool.eq_false_iff.mpr fun hp => hnone row (List.mem_filter.mpr ⟨hrow, hp⟩) ?_
    exact decide_eq_true hkey
  refine
    { ids := h.ids.filter _
      hashes := h.hashes.filter _
      seqs := h.seqs.filter _
      seq_le := fun row hrow => h.seq_le row (hkept hrow).1
      borns := h.borns.filter _
      born_le := fun row hrow => h.born_le row (hkept hrow).1
      annotationIds := h.annotationIds.sublist (List.Sublist.map _ List.filter_sublist)
      annotated := ?_
      annotates := ?_
      wellKept := fun row hrow => h.wellKept row (hkept hrow).1
      facets := ?_
      embeddings := ?_
      keyed := hkeyed
      counts := ?_ }
  · intro row hrow
    obtain ⟨noted, ha, hid⟩ := h.annotated row (hkept hrow).1
    refine ⟨noted, List.mem_filter.mpr ⟨ha, ?_⟩, hid⟩
    rw [Bool.not_eq_true', List.any_eq_false]
    intro other hother
    rw [List.mem_filter] at hother
    rw [decide_eq_true_eq]
    intro hsame
    have heq := h.ids.eq_of_eq hother.1 (hkept hrow).1 (hsame.trans hid)
    rw [heq, (hkept hrow).2] at hother
    cases hother.2
  · intro noted ha
    obtain ⟨hin, hnone⟩ := List.mem_filter.mp ha
    obtain ⟨row, hrow, hid⟩ := h.annotates noted hin
    exact ⟨row, hstays Row.id noted.clipId hrow hid hnone, hid⟩
  · intro facet hfacet
    obtain ⟨hin, hnone⟩ := List.mem_filter.mp hfacet
    obtain ⟨row, hrow, hid, hclear⟩ := h.facets facet hin
    exact ⟨row, hstays Row.id facet.clipId hrow hid hnone, hid, hclear⟩
  · intro embedding hembedding
    obtain ⟨hin, hnone⟩ := List.mem_filter.mp hembedding
    obtain ⟨row, hrow, hhash, hclear⟩ := h.embeddings embedding hin
    exact ⟨row, hstays Row.contentHash embedding.contentHash hrow hhash hnone, hhash, hclear⟩
  · intro hash kind
    have hsplit := occurrences_filter p c.clips hash kind
    show _ = occurrences (c.clips.filter fun row => !p row) hash kind
    rw [hcount, h.counts]
    omega

theorem repair (h : c.Sound) {id : ClipId} {actual : ContentHash}
    (hfree : ∀ row ∈ c.clips, row.contentHash = actual → row.id = id) :
    Core.Sound
      { c with
        clips := c.clips.map fun row =>
          if row.id = id then { row with contentHash := actual } else row
        embeddings := c.embeddings.filter fun embedding =>
          !(((c.clips.filter (·.id = id)).map Row.contentHash).contains
            embedding.contentHash) } := by
  set f : Row → Row := fun row => if row.id = id then { row with contentHash := actual } else row
    with hf
  have hfield : ∀ {κ : Type} (key : Row → κ),
      (∀ row, key { row with contentHash := actual } = key row) →
        ∀ row, key (f row) = key row := by
    intro κ key hkey row
    rw [hf]
    dsimp only
    split
    · exact hkey row
    · rfl
  have hother : ∀ row : Row, row.id ≠ id → f row = row := fun row hne => if_neg hne
  have hself : ∀ row : Row, row.id = id → (f row).contentHash = actual := by
    intro row hid
    rw [hf]
    dsimp only
    rw [if_pos hid]
  have hmapped : ∀ {P : Row → Prop}, (∀ row ∈ c.clips, P (f row)) →
      ∀ row ∈ c.clips.map f, P row := by
    intro P hP row hrow
    obtain ⟨old, hold, rfl⟩ := List.mem_map.mp hrow
    exact hP old hold
  refine
    { ids := h.ids.map fun row _ => hfield Row.id (fun _ => rfl) row
      hashes := h.ids.map_of_inj fun a ha b hb hab => ?_
      seqs := h.seqs.map fun row _ => hfield Row.seq (fun _ => rfl) row
      seq_le := hmapped fun row hrow => ?_
      borns := h.borns.map fun row _ => hfield Row.born (fun _ => rfl) row
      born_le := hmapped fun row hrow => ?_
      annotationIds := h.annotationIds
      annotated := hmapped fun row hrow => ?_
      annotates := fun noted ha => ?_
      wellKept := hmapped fun row hrow => ?_
      facets := fun facet hfacet => ?_
      embeddings := fun embedding hembedding => ?_
      keyed := h.keyed
      counts := fun hash kind => ?_ }
  · by_cases haid : a.id = id <;> by_cases hbid : b.id = id
    · exact h.ids.eq_of_eq ha hb (haid.trans hbid.symm)
    · rw [hself a haid, hother b hbid] at hab
      exact absurd (hfree b hb hab.symm) hbid
    · rw [hself b hbid, hother a haid] at hab
      exact absurd (hfree a ha hab) haid
    · rw [hother a haid, hother b hbid] at hab
      exact h.hashes.eq_of_eq ha hb hab
  · rw [hfield Row.seq (fun _ => rfl)]
    exact h.seq_le row hrow
  · rw [hfield Row.born (fun _ => rfl)]
    exact h.born_le row hrow
  · rw [hfield Row.id fun _ => rfl]
    exact h.annotated row hrow
  · obtain ⟨row, hrow, hrowId⟩ := h.annotates noted ha
    exact ⟨f row, List.mem_map_of_mem hrow, (hfield Row.id (fun _ => rfl) row).trans hrowId⟩
  · rw [hf]
    dsimp only
    have banded := (h.wellKept row hrow).banded
    split
    · exact ⟨(h.wellKept row hrow).expiry, fun hsensitive =>
        let s := (h.wellKept row hrow).shielded hsensitive
        ⟨s.1, s.2, s.3, s.4, s.5, s.6, s.7, s.8⟩,
        (h.wellKept row hrow).admitted, ⟨banded.1, banded.2⟩⟩
    · exact h.wellKept row hrow
  · obtain ⟨row, hrow, hrowId, hclear⟩ := h.facets facet hfacet
    exact ⟨f row, List.mem_map_of_mem hrow, (hfield Row.id (fun _ => rfl) row).trans hrowId,
      (hfield Row.sensitive (fun _ => rfl) row).trans hclear⟩
  · obtain ⟨hin, hnone⟩ := List.mem_filter.mp hembedding
    obtain ⟨row, hrow, hhash, hclear⟩ := h.embeddings embedding hin
    have hne : row.id ≠ id := by
      intro hid
      rw [Bool.not_eq_true', List.contains_eq_mem, decide_eq_false_iff_not] at hnone
      refine hnone (List.mem_map.mpr ⟨row, List.mem_filter.mpr ⟨hrow, ?_⟩, hhash⟩)
      exact decide_eq_true hid
    refine ⟨f row, List.mem_map_of_mem hrow, ?_⟩
    rw [hother row hne]
    exact ⟨hhash, hclear⟩
  · rw [occurrences_map fun row _ =>
      ⟨hfield Row.flavors (fun _ => rfl) row, hfield Row.kind (fun _ => rfl) row⟩]
    exact h.counts hash kind

theorem annotate (h : c.Sound) {f : AnnotationRow → AnnotationRow}
    (hid : ∀ noted ∈ c.annotations, (f noted).clipId = noted.clipId) :
    Core.Sound { c with annotations := c.annotations.map f } := by
  have hids :
      (c.annotations.map f).map AnnotationRow.clipId = c.annotations.map AnnotationRow.clipId := by
    rw [List.map_map]
    exact List.map_congr_left hid
  refine { h with annotationIds := ?_, annotated := ?_, annotates := ?_ }
  · rw [hids]
    exact h.annotationIds
  · intro row hrow
    obtain ⟨noted, ha, hrowId⟩ := h.annotated row hrow
    exact ⟨f noted, List.mem_map_of_mem ha, (hid noted ha).trans hrowId⟩
  · intro noted hmem
    obtain ⟨old, hold, rfl⟩ := List.mem_map.mp hmem
    obtain ⟨row, hrow, hrowId⟩ := h.annotates old hold
    exact ⟨row, hrow, hrowId.trans (hid old hold).symm⟩

theorem collect (h : c.Sound) :
    Core.Sound { c with blobRefs := c.blobRefs.filter fun blob => blob.refcount ≠ 0 } := by
  refine { h with keyed := ?_, counts := fun hash kind => ?_ }
  · exact h.keyed.sublist (List.Sublist.map _ List.filter_sublist)
  · exact (refcount_filter_ne_zero ..).trans (h.counts hash kind)

theorem step (h : c.Sound) (hchange : Change blobRefOf L c c') : c'.Sound := by
  cases hchange with
  | touch f next facets embeddings hrows hseq hfacets hembeddings =>
    exact h.touch hrows hseq hfacets hembeddings
  | insert row blobRefs facets embeddings hkept hseq hborn hid hhash hannotated hseen hstored
      hrefs hfacets hembeddings =>
    exact h.insert hkept hseq hborn hid hhash hannotated hrefs hfacets hembeddings
  | remove p blobRefs hguard hrefs => exact h.remove hrefs
  | repair id actual hfree hseen => exact h.repair hfree
  | annotate f hid hhold => exact h.annotate hid
  | collect hcollect => exact h.collect

theorem run (h : c.Sound) (hchanges : Changes blobRefOf L c c') : c'.Sound := by
  induction hchanges with
  | refl => exact h
  | tail _ hchange ih => exact ih.step hchange

end Core.Sound

end Vbuff.Store
