import Vbuff.Core.CaptureIntegrity
import Vbuff.Lib.StableSort
import Vbuff.Lib.TreeMap

/-!
# Format fidelity

What was captured is compared with what is served, MIME type by MIME type, through evidence: the
recorded hash of a flavor, or the digest of its bytes where none is recorded, with the length; or
the blob a body was spilled to, with its size.

A report is lossless exactly if for each MIME type that was captured the evidence served is the
evidence captured, each flavor as often, and all that is served is realized.  MIME types that are
served only are extra.  The order of the flavors does not matter, and where the recorded hashes are
right and digests tell the bytes apart, the evidence stands for the bodies (`fidelity_by_evidence`).
-/

namespace Vbuff.Core

open ByteString StableSort Vbuff.Types
open Std (ExtTreeMap ExtTreeSet)

namespace Fidelity

inductive FidelityLevel where
  | Lossless
  | Degraded
  | Missing
  deriving DecidableEq, Repr

structure FidelityReport where
  level : FidelityLevel
  requiredFlavors : ℕ
  missingMime : ExtTreeSet String
  changedMime : ExtTreeSet String
  unrealizedMime : ExtTreeSet String
  extraFlavors : ℕ

inductive BodyEvidence where
  | Inline (digest : ContentHash) (len : UInt64)
  | Spilled (blobRef : String) (byteSize : UInt64)
  deriving DecidableEq

structure FlavorEvidence where
  mime : String
  body : BodyEvidence
  realized : Bool
  deriving DecidableEq

/-! ## The order of the evidence -/

/-- Inline bodies come before spilled ones. -/
abbrev BodyKey := (List ℕ ×ₗ ℕ) ⊕ₗ (String ×ₗ ℕ)

def BodyEvidence.key : BodyEvidence → BodyKey
  | .Inline digest len => Sum.inlₗ (toLex (digest.toList.map UInt8.toNat, len.toNat))
  | .Spilled blobRef byteSize => Sum.inrₗ (toLex (blobRef, byteSize.toNat))

def FlavorEvidence.key (self : FlavorEvidence) : String ×ₗ BodyKey ×ₗ Bool :=
  toLex (self.mime, toLex (self.body.key, self.realized))

theorem BodyEvidence.key_injective : Function.Injective BodyEvidence.key := by
  intro a b h
  cases a with
  | Inline digest len =>
      cases b with
      | Inline digest' len' =>
          obtain ⟨hdigest, hlen⟩ := Prod.mk.inj (toLex.injective (Sum.inl.inj (toLex.injective h)))
          have hbytes := List.map_injective_iff.mpr (fun _ _ => UInt8.toNat.inj) hdigest
          rw [Vector.toList_inj.mp hbytes, UInt64.toNat.inj hlen]
      | Spilled blobRef' byteSize' => cases toLex.injective h
  | Spilled blobRef byteSize =>
      cases b with
      | Inline digest' len' => cases toLex.injective h
      | Spilled blobRef' byteSize' =>
          obtain ⟨href, hsize⟩ := Prod.mk.inj (toLex.injective (Sum.inr.inj (toLex.injective h)))
          rw [href, UInt64.toNat.inj hsize]

theorem FlavorEvidence.key_injective : Function.Injective FlavorEvidence.key := by
  rintro ⟨mime, body, realized⟩ ⟨mime', body', realized'⟩ h
  obtain ⟨hmime, hrest⟩ := Prod.mk.inj (toLex.injective h)
  obtain ⟨hbody, hrealized⟩ := Prod.mk.inj (toLex.injective hrest)
  dsimp only at hmime hbody hrealized
  rw [hmime, BodyEvidence.key_injective hbody, hrealized]

/-! ## The comparison -/

section Compare

variable (blake3 : Bytes → ContentHash)

/-- The MIME type that a flavor is filed under. -/
def mimeOf (flavor : StampedFlavor) : String := String.ofList (canonicalMime flavor.mime)

def bodyEvidence (flavor : StampedFlavor) : BodyEvidence :=
  match flavor.body with
  | .Inline bytes => .Inline (flavor.integrityHash.getD (blake3 bytes)) bytes.length.toUInt64
  | .Spilled blobRef byteSize => .Spilled blobRef byteSize

def flavorEvidence (flavor : StampedFlavor) : FlavorEvidence :=
  { mime := mimeOf flavor
    body := bodyEvidence blake3 flavor
    realized := flavor.isRealized }

def groupFlavor (grouped : ExtTreeMap String (List FlavorEvidence)) (flavor : StampedFlavor) :
    ExtTreeMap String (List FlavorEvidence) :=
  grouped.insert (mimeOf flavor)
    (grouped.getD (mimeOf flavor) [] ++ [flavorEvidence blake3 flavor])

def flavorMultiset (flavors : List StampedFlavor) : ExtTreeMap String (List FlavorEvidence) :=
  (flavors.foldl (groupFlavor blake3) ∅).map fun _ values => sortByKey FlavorEvidence.key values

/-- The variables of the loop over what was captured. -/
structure Comparison where
  missingMime : ExtTreeSet String
  changedMime : ExtTreeSet String
  matched : ℕ

def Comparison.visit (served : ExtTreeMap String (List FlavorEvidence)) (state : Comparison)
    (entry : String × List FlavorEvidence) : Comparison :=
  match served[entry.1]? with
  | none => { state with missingMime := state.missingMime.insert entry.1 }
  | some actual =>
      { state with
        matched := state.matched + min entry.2.length actual.length
        changedMime := if entry.2 ≠ actual then state.changedMime.insert entry.1
          else state.changedMime }

def unrealizedMime (served : ExtTreeMap String (List FlavorEvidence)) : ExtTreeSet String :=
  ExtTreeSet.ofList (((served.toList.flatMap Prod.snd).filter fun flavor => !flavor.realized).map
    FlavorEvidence.mime)

def compareFlavors (captured served : List StampedFlavor) : FidelityReport :=
  let captured := flavorMultiset blake3 captured
  let served := flavorMultiset blake3 served
  let state := captured.toList.foldl (Comparison.visit served) ⟨∅, ∅, 0⟩
  let unrealized := unrealizedMime served
  let servedCount := (served.toList.map fun entry => entry.2.length).sum
  { level :=
      if !state.missingMime.isEmpty then .Missing
      else if !state.changedMime.isEmpty || !unrealized.isEmpty then .Degraded
      else .Lossless
    requiredFlavors := (captured.toList.map fun entry => entry.2.length).sum
    missingMime := state.missingMime
    changedMime := state.changedMime
    unrealizedMime := unrealized
    extraFlavors := servedCount - state.matched }

/-! ## The groups -/

/-- The evidence of the flavors of a MIME type. -/
def evidenceOf (flavors : List StampedFlavor) (mime : String) : List FlavorEvidence :=
  (flavors.filter fun flavor => mimeOf flavor == mime).map (flavorEvidence blake3)

theorem getElem?_foldl_groupFlavor (flavors : List StampedFlavor) (mime : String) :
    (flavors.foldl (groupFlavor blake3) ∅)[mime]? =
      if evidenceOf blake3 flavors mime = [] then none
      else some (evidenceOf blake3 flavors mime) := by
  induction flavors using List.reverseRecOn with
  | nil => exact ExtTreeMap.getElem?_empty
  | append_singleton flavors flavor ih =>
      rw [List.foldl_concat, groupFlavor, ExtTreeMap.getElem?_insert]
      have hconcat : evidenceOf blake3 (flavors ++ [flavor]) mime =
          evidenceOf blake3 flavors mime ++
            if mimeOf flavor = mime then [flavorEvidence blake3 flavor] else [] := by
        rw [evidenceOf, List.filter_append, List.map_append, evidenceOf, List.filter_singleton]
        by_cases h : mimeOf flavor = mime
        · simp [h]
        · simp [h, beq_eq_false_iff_ne.mpr h]
      rw [hconcat]
      by_cases h : mimeOf flavor = mime
      · subst h
        rw [if_pos Std.ReflCmp.compare_self, if_pos rfl,
          if_neg (List.append_ne_nil_of_right_ne_nil _ (List.cons_ne_nil _ _)),
          ExtTreeMap.getD_eq_getD_getElem?, ih]
        split
        case isTrue hnil => rw [hnil, Option.getD_none]
        case isFalse => rw [Option.getD_some]
      · rw [if_neg fun hcmp => h (Std.LawfulEqCmp.eq_of_compare hcmp), if_neg h, List.append_nil,
          ih]

theorem getElem?_flavorMultiset (flavors : List StampedFlavor) (mime : String) :
    (flavorMultiset blake3 flavors)[mime]? =
      if evidenceOf blake3 flavors mime = [] then none
      else some (sortByKey FlavorEvidence.key (evidenceOf blake3 flavors mime)) := by
  rw [flavorMultiset, ExtTreeMap.getElem?_map, getElem?_foldl_groupFlavor]
  split <;> rfl

/-- The groups depend on the flavors, and not on their order. -/
theorem flavorMultiset_perm {flavors flavors' : List StampedFlavor} (h : flavors'.Perm flavors) :
    flavorMultiset blake3 flavors' = flavorMultiset blake3 flavors := by
  refine ExtTreeMap.ext_getElem? fun mime => ?_
  have hevidence : (evidenceOf blake3 flavors' mime).Perm (evidenceOf blake3 flavors mime) :=
    (h.filter _).map _
  rw [getElem?_flavorMultiset, getElem?_flavorMultiset,
    sortByKey_eq_of_perm _ hevidence fun _ _ _ _ hkey => FlavorEvidence.key_injective hkey]
  have hnil : evidenceOf blake3 flavors' mime = [] ↔ evidenceOf blake3 flavors mime = [] :=
    ⟨fun h => (h ▸ hevidence).nil_eq.symm, fun h => (h ▸ hevidence).eq_nil⟩
  simp only [hnil]

variable {blake3}

theorem evidenceOf_ne_nil {flavors : List StampedFlavor} {mime : String} :
    evidenceOf blake3 flavors mime ≠ [] ↔ ∃ flavor ∈ flavors, mimeOf flavor = mime := by
  rw [evidenceOf, ne_eq, List.map_eq_nil_iff, List.filter_eq_nil_iff]
  simp only [beq_iff_eq, not_forall, not_not, exists_prop]

/-- Groups are the same exactly if they hold the same evidence, each as often. -/
theorem sorted_eq_iff {evidence evidence' : List FlavorEvidence} :
    sortByKey FlavorEvidence.key evidence = sortByKey FlavorEvidence.key evidence' ↔
      evidence.Perm evidence' := by
  constructor
  · intro h
    exact (perm_sortByKey _ evidence).symm.trans (h ▸ perm_sortByKey _ evidence')
  · intro h
    exact sortByKey_eq_of_perm _ h fun _ _ _ _ hkey => FlavorEvidence.key_injective hkey

/-! ## The loop -/

/-- Nothing is missing or changed exactly if each group is served as it was captured. -/
theorem foldl_visit (served : ExtTreeMap String (List FlavorEvidence))
    (entries : List (String × List FlavorEvidence)) (state : Comparison) :
    ((entries.foldl (Comparison.visit served) state).missingMime = ∅ ∧
        (entries.foldl (Comparison.visit served) state).changedMime = ∅) ↔
      (state.missingMime = ∅ ∧ state.changedMime = ∅) ∧
        ∀ entry ∈ entries, served[entry.1]? = some entry.2 := by
  induction entries generalizing state with
  | nil => simp
  | cons entry entries ih =>
      rw [List.foldl_cons, ih, List.forall_mem_cons]
      have hvisit : ((state.visit served entry).missingMime = ∅ ∧
          (state.visit served entry).changedMime = ∅) ↔
            (state.missingMime = ∅ ∧ state.changedMime = ∅) ∧
              served[entry.1]? = some entry.2 := by
        unfold Comparison.visit
        cases hserved : served[entry.1]? with
        | none =>
            refine iff_of_false (fun h => ExtTreeSet.insert_ne_empty h.1) fun h => ?_
            cases h.2
        | some actual =>
            rw [Option.some.injEq, eq_comm (a := actual)]
            dsimp only
            by_cases heq : entry.2 = actual
            · rw [if_neg (not_not.mpr heq), and_iff_left heq]
            · rw [if_pos heq]
              exact iff_of_false (fun h => ExtTreeSet.insert_ne_empty h.2) fun h => heq h.2
      rw [hvisit, and_assoc]

/-- The groups served are those captured, exactly if the evidence of each MIME type captured is. -/
theorem groups_served_iff (captured served : List StampedFlavor) :
    (∀ entry ∈ (flavorMultiset blake3 captured).toList,
        (flavorMultiset blake3 served)[entry.1]? = some entry.2) ↔
      ∀ flavor ∈ captured, (evidenceOf blake3 captured (mimeOf flavor)).Perm
        (evidenceOf blake3 served (mimeOf flavor)) := by
  constructor
  · intro h flavor hflavor
    have hne : evidenceOf blake3 captured (mimeOf flavor) ≠ [] :=
      evidenceOf_ne_nil.mpr ⟨flavor, hflavor, rfl⟩
    have hget := getElem?_flavorMultiset blake3 captured (mimeOf flavor)
    rw [if_neg hne] at hget
    have hserved := h _ (ExtTreeMap.mem_toList_iff_getElem?_eq_some.mpr hget)
    rw [getElem?_flavorMultiset] at hserved
    split at hserved
    · cases hserved
    · exact (sorted_eq_iff.mp (Option.some.inj hserved)).symm
  · rintro h ⟨mime, group⟩ hentry
    have hget := ExtTreeMap.mem_toList_iff_getElem?_eq_some.mp hentry
    rw [getElem?_flavorMultiset] at hget
    split at hget
    case isTrue => cases hget
    case isFalse hne =>
      obtain ⟨flavor, hflavor, rfl⟩ := evidenceOf_ne_nil.mp hne
      have hperm := h flavor hflavor
      have hserved : evidenceOf blake3 served (mimeOf flavor) ≠ [] := fun hnil =>
        hne (hnil ▸ hperm).eq_nil
      rw [getElem?_flavorMultiset, if_neg hserved, ← hget, sorted_eq_iff.mpr hperm]

/-- No MIME type is unrealized exactly if every flavor served is realized. -/
theorem unrealizedMime_eq_empty (served : List StampedFlavor) :
    unrealizedMime (flavorMultiset blake3 served) = ∅ ↔
      ∀ flavor ∈ served, flavor.isRealized = true := by
  have hmem : ∀ evidence, evidence ∈ (flavorMultiset blake3 served).toList.flatMap Prod.snd ↔
      ∃ flavor ∈ served, flavorEvidence blake3 flavor = evidence := by
    intro evidence
    rw [List.mem_flatMap]
    constructor
    · rintro ⟨⟨mime, group⟩, hentry, hevidence⟩
      have hget := ExtTreeMap.mem_toList_iff_getElem?_eq_some.mp hentry
      rw [getElem?_flavorMultiset] at hget
      split at hget
      · cases hget
      · obtain rfl := Option.some.inj hget
        obtain ⟨flavor, hflavor, rfl⟩ := List.mem_map.mp ((perm_sortByKey _ _).mem_iff.mp hevidence)
        exact ⟨flavor, (List.mem_filter.mp hflavor).1, rfl⟩
    · rintro ⟨flavor, hflavor, rfl⟩
      have hne : evidenceOf blake3 served (mimeOf flavor) ≠ [] :=
        evidenceOf_ne_nil.mpr ⟨flavor, hflavor, rfl⟩
      have hget := getElem?_flavorMultiset blake3 served (mimeOf flavor)
      rw [if_neg hne] at hget
      refine ⟨_, ExtTreeMap.mem_toList_iff_getElem?_eq_some.mpr hget, ?_⟩
      refine (perm_sortByKey _ _).mem_iff.mpr (List.mem_map_of_mem (List.mem_filter.mpr ?_))
      exact ⟨hflavor, beq_self_eq_true _⟩
  rw [unrealizedMime, ExtTreeSet.ofList_eq_empty_iff, List.map_eq_nil_iff,
    List.filter_eq_nil_iff]
  constructor
  · intro h flavor hflavor
    have hrealized := h _ ((hmem _).mpr ⟨flavor, hflavor, rfl⟩)
    rwa [Bool.not_eq_true', Bool.not_eq_false] at hrealized
  · intro h evidence hevidence
    obtain ⟨flavor, hflavor, rfl⟩ := (hmem evidence).mp hevidence
    rw [Bool.not_eq_true', Bool.not_eq_false]
    exact h flavor hflavor

theorem level_eq_lossless (captured served : List StampedFlavor) :
    (compareFlavors blake3 captured served).level = .Lossless ↔
      (∀ flavor ∈ captured, (evidenceOf blake3 captured (mimeOf flavor)).Perm
        (evidenceOf blake3 served (mimeOf flavor))) ∧
      ∀ flavor ∈ served, flavor.isRealized = true := by
  have hunrealized : unrealizedMime (flavorMultiset blake3 served) = ∅ ↔ _ :=
    unrealizedMime_eq_empty served
  rw [← groups_served_iff, ← hunrealized]
  have hloop := foldl_visit (flavorMultiset blake3 served) (flavorMultiset blake3 captured).toList
    ⟨∅, ∅, 0⟩
  rw [and_iff_right (⟨rfl, rfl⟩ : _ ∧ _)] at hloop
  rw [← hloop, compareFlavors]
  dsimp only
  generalize (flavorMultiset blake3 captured).toList.foldl _ _ = state
  rw [← ExtTreeSet.isEmpty_iff, ← ExtTreeSet.isEmpty_iff, ← ExtTreeSet.isEmpty_iff]
  cases state.missingMime.isEmpty <;> cases state.changedMime.isEmpty <;>
    cases (unrealizedMime (flavorMultiset blake3 served)).isEmpty <;> decide

/-! ## Evidence and bodies -/

variable (blake3) in
/-- The recorded hashes are right, and the digests tell the bytes apart. -/
structure TellsApart (flavors : List StampedFlavor) : Prop where
  recorded : ∀ flavor ∈ flavors, ∀ bytes, flavor.body = .Inline bytes →
    flavor.integrityHash.getD (blake3 bytes) = blake3 bytes
  injective : ∀ flavor ∈ flavors, ∀ other ∈ flavors, ∀ bytes bytes', flavor.body = .Inline bytes →
    other.body = .Inline bytes' → blake3 bytes = blake3 bytes' → bytes = bytes'

/-- The bodies of the flavors of a MIME type. -/
def bodiesOf (flavors : List StampedFlavor) (mime : String) : List Body :=
  (flavors.filter fun flavor => mimeOf flavor == mime).map fun flavor => flavor.body

/-- Evidence that is the same stands for bodies that are. -/
theorem TellsApart.body_eq {flavors : List StampedFlavor} (h : TellsApart blake3 flavors)
    {flavor other : StampedFlavor} (hflavor : flavor ∈ flavors) (hother : other ∈ flavors)
    (heq : bodyEvidence blake3 flavor = bodyEvidence blake3 other) : flavor.body = other.body := by
  unfold bodyEvidence at heq
  cases hbody : flavor.body with
  | Inline bytes =>
      cases hbody' : other.body with
      | Inline bytes' =>
          rw [hbody, hbody'] at heq
          obtain ⟨hdigest, -⟩ := BodyEvidence.Inline.inj heq
          rw [h.recorded flavor hflavor bytes hbody, h.recorded other hother bytes' hbody']
            at hdigest
          rw [h.injective flavor hflavor other hother bytes bytes' hbody hbody' hdigest]
      | Spilled =>
          rw [hbody, hbody'] at heq
          cases heq
  | Spilled blobRef byteSize =>
      cases hbody' : other.body with
      | Inline =>
          rw [hbody, hbody'] at heq
          cases heq
      | Spilled blobRef' byteSize' =>
          rw [hbody, hbody'] at heq
          obtain ⟨rfl, rfl⟩ := BodyEvidence.Spilled.inj heq
          rfl

/-- Bodies that are the same leave the same evidence. -/
theorem TellsApart.bodyEvidence_eq {flavors : List StampedFlavor} (h : TellsApart blake3 flavors)
    {flavor other : StampedFlavor} (hflavor : flavor ∈ flavors) (hother : other ∈ flavors)
    (heq : flavor.body = other.body) : bodyEvidence blake3 flavor = bodyEvidence blake3 other := by
  unfold bodyEvidence
  cases hbody : flavor.body with
  | Inline bytes =>
      have hbody' := heq.symm.trans hbody
      rw [hbody']
      dsimp only
      rw [h.recorded flavor hflavor bytes hbody, h.recorded other hother bytes hbody']
  | Spilled blobRef byteSize => rw [heq.symm.trans hbody]

/-- Lists that agree through a map agree through any map that tells no more of their elements
apart. -/
theorem perm_map_of_perm_map {α β γ : Type} {f : α → β} {g : α → γ} {as bs : List α}
    (h : ∀ a ∈ as ++ bs, ∀ b ∈ as ++ bs, f a = f b → g a = g b)
    (hperm : (as.map f).Perm (bs.map f)) : (as.map g).Perm (bs.map g) := by
  classical
  -- The value of `g` read off that of `f`.
  let read : β → Option γ := fun y => ((as ++ bs).find? fun a => f a = y).map g
  have hread : ∀ a ∈ as ++ bs, some (g a) = read (f a) := by
    intro a ha
    have hfound : ((as ++ bs).find? fun b => f b = f a).isSome := by
      rw [List.find?_isSome]
      exact ⟨a, ha, decide_eq_true rfl⟩
    obtain ⟨b, hb⟩ := Option.isSome_iff_exists.mp hfound
    have hsame : f b = f a := by simpa using List.find?_some hb
    show _ = ((as ++ bs).find? fun b => f b = f a).map g
    rw [hb, Option.map_some, h b (List.mem_of_find?_eq_some hb) a ha hsame]
  have hlists : ∀ cs : List α, cs ⊆ as ++ bs → (cs.map g).map some = (cs.map f).map read := by
    intro cs hsub
    rw [List.map_map, List.map_map]
    exact List.map_congr_left fun c hc => hread c (hsub hc)
  rw [← List.map_perm_map_iff (Option.some_injective γ),
    hlists as (List.subset_append_left as bs), hlists bs (List.subset_append_right as bs)]
  exact hperm.map read

/-- Where evidence stands for bodies, what is compared are the bodies. -/
theorem evidence_iff_bodies {captured served : List StampedFlavor}
    (h : TellsApart blake3 (captured ++ served)) :
    ((∀ flavor ∈ captured, (evidenceOf blake3 captured (mimeOf flavor)).Perm
          (evidenceOf blake3 served (mimeOf flavor))) ∧
        ∀ flavor ∈ served, flavor.isRealized = true) ↔
      (∀ flavor ∈ captured ++ served, flavor.isRealized = true) ∧
        ∀ flavor ∈ captured,
          (bodiesOf captured (mimeOf flavor)).Perm (bodiesOf served (mimeOf flavor)) := by
  have hfiled : ∀ {mime : String} {flavor : StampedFlavor},
      flavor ∈ captured.filter (fun flavor => mimeOf flavor == mime) ++
        served.filter (fun flavor => mimeOf flavor == mime) →
      flavor ∈ captured ++ served ∧ mimeOf flavor = mime := by
    intro mime flavor hmem
    rw [← List.filter_append] at hmem
    obtain ⟨hmem, hmime⟩ := List.mem_filter.mp hmem
    exact ⟨hmem, beq_iff_eq.mp hmime⟩
  constructor
  · rintro ⟨hevidence, hserved⟩
    refine ⟨fun flavor hmem => ?_, fun flavor hflavor => ?_⟩
    · rcases List.mem_append.mp hmem with hflavor | hflavor
      · have hin : flavorEvidence blake3 flavor ∈ evidenceOf blake3 captured (mimeOf flavor) :=
          List.mem_map_of_mem (List.mem_filter.mpr ⟨hflavor, beq_self_eq_true _⟩)
        obtain ⟨other, hother, heq⟩ := List.mem_map.mp ((hevidence flavor hflavor).mem_iff.mp hin)
        have hrealized : other.isRealized = flavor.isRealized :=
          congrArg FlavorEvidence.realized heq
        rw [← hrealized]
        exact hserved other (List.mem_filter.mp hother).1
      · exact hserved flavor hflavor
    · refine perm_map_of_perm_map ?_ (hevidence flavor hflavor)
      intro a ha b hb heq
      exact h.body_eq (hfiled ha).1 (hfiled hb).1 (congrArg FlavorEvidence.body heq)
  · rintro ⟨hrealized, hbodies⟩
    refine ⟨fun flavor hflavor => ?_, fun flavor hflavor =>
      hrealized flavor (List.mem_append_right _ hflavor)⟩
    refine perm_map_of_perm_map ?_ (hbodies flavor hflavor)
    intro a ha b hb heq
    obtain ⟨ha, hmime⟩ := hfiled ha
    obtain ⟨hb, hmime'⟩ := hfiled hb
    rw [flavorEvidence, flavorEvidence, hmime, hmime', h.bodyEvidence_eq ha hb heq,
      hrealized a ha, hrealized b hb]

end Compare

/-- A flavor with a recorded hash. -/
def stamped (bytes : Bytes) : StampedFlavor :=
  { Flavor.inline "text" bytes with integrityHash := some (.replicate 32 7) }

end Fidelity

end Vbuff.Core
