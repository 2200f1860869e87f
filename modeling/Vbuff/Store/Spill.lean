import Vbuff.Store.Evolution

/-!
# How spilling evolves the store

A body is put into a file of its name, or found there already.  What is stored of a clip stands
for its flavors, in files that are there.
-/

namespace Vbuff.Store

open ByteString Vbuff.Types Vbuff.Core Attempt

variable {Regex : Type} {env : Env Regex} {leave : Leave}

/-- The database is left alone. -/
def SameDb (s s' : Store) : Prop := s'.db = s.db

instance : Std.Refl SameDb := ⟨fun _ => rfl⟩

instance : IsTrans Store SameDb := ⟨fun _ _ _ h h' => Eq.trans h' h⟩

/-- `put`, taken apart. -/
theorem put_apply (kind : ContentKind) (bytes : Bytes) (s : Store) :
    put env kind bytes s =
      if validBlobRef (blobRefOf env bytes) then
        match readFile (s.cas.getD []) kind (blobRefOf env bytes) with
        | some present =>
            if present.length = bytes.length ∧ env.blake3 present = env.blake3 bytes then
              ({ s with spilled := s.spilled ++ [bytes] }, .ok (blobRefOf env bytes))
            else
              (s, .error (.Corrupt
                s!"existing CAS blob {blobRefOf env bytes} does not match its hash"))
        | none =>
            ({ s with
                cas := s.cas.map (· ++ [{ kind, blobRef := blobRefOf env bytes, bytes }])
                spilled := s.spilled ++ [bytes] }, .ok (blobRefOf env bytes))
      else (s, .error (.Corrupt "invalid CAS blob reference")) := by
  unfold put pathFor
  by_cases hvalid : validBlobRef (blobRefOf env bytes) = true
  · simp only [bind_apply, ofExcept_apply, if_pos hvalid, gets_apply]
    cases readFile (s.cas.getD []) kind (blobRefOf env bytes) with
    | none => rfl
    | some present =>
      by_cases hsame : present.length = bytes.length ∧ env.blake3 present = env.blake3 bytes
      · simp only [bind_apply, ensure, if_pos hsame]
        rfl
      · simp only [bind_apply, ensure, if_neg hsame]
        rfl
  · simp only [bind_apply, ofExcept_apply, if_neg hvalid]

theorem moves_put (kind : ContentKind) (bytes : Bytes) :
    Moves (Evolves env leave) (put env kind bytes) := by
  intro s
  rw [put_apply]
  split
  case isFalse => exact Std.Refl.refl s
  case isTrue =>
    split
    case h_1 =>
      split
      case isFalse => exact Std.Refl.refl s
      case isTrue =>
        exact
          { calls := le_refl _
            rooted := rfl
            files := fun _ h => h
            named := fun h file hfile =>
              ⟨(h file hfile).1, List.mem_append_left _ (h file hfile).2⟩
            spilled := fun _ h => List.mem_append_left _ h
            seen := fun _ h => h
            changes := .refl }
    case h_2 =>
      refine
        { calls := le_refl _
          rooted := Option.isSome_map
          files := fun file hfile => ?_
          named := fun h file hfile => ?_
          spilled := fun _ h => List.mem_append_left _ h
          seen := fun _ h => h
          changes := .refl }
      · cases hcas : s.cas with
        | none => rw [hcas] at hfile; exact absurd hfile List.not_mem_nil
        | some files =>
          rw [hcas] at hfile
          exact List.mem_append_left _ hfile
      · cases hcas : s.cas with
        | none =>
          simp only [hcas, Option.map_none, Option.getD_none] at hfile
          exact absurd hfile List.not_mem_nil
        | some files =>
          simp only [hcas, Option.map_some, Option.getD_some] at hfile
          rcases List.mem_append.mp hfile with hold | hnew
          · have hnamed := h file (by rw [hcas]; exact hold)
            exact ⟨hnamed.1, List.mem_append_left _ hnamed.2⟩
          · rw [List.mem_singleton.mp hnew]
            exact ⟨rfl, List.mem_append_right _ (List.mem_singleton_self _)⟩

theorem sameDb_put (kind : ContentKind) (bytes : Bytes) : Moves SameDb (put env kind bytes) := by
  intro s
  rw [put_apply]
  split
  · split
    · split <;> exact Std.Refl.refl (r := SameDb) s
    · exact rfl
  · exact rfl

/-- After a body was put away there is a file for it. -/
theorem hasFile_put {kind : ContentKind} {bytes : Bytes} {s s' : Store} {blobRef : String}
    (h : put env kind bytes s = (s', .ok blobRef)) :
    blobRef = blobRefOf env bytes ∧ (s'.cas.isSome = true → HasFile env s' kind bytes) := by
  rw [put_apply] at h
  split at h
  case isFalse => cases h
  case isTrue =>
    split at h
    case h_1 present hpresent =>
      split at h
      case isFalse => cases h
      case isTrue =>
        cases h
        refine ⟨rfl, fun _ => ⟨?_, List.mem_append_right _ (List.mem_singleton_self _)⟩⟩
        obtain ⟨file, hfound, -⟩ := Option.map_eq_some_iff.mp hpresent
        exact ⟨file, List.mem_of_find?_eq_some hfound, by simpa using List.find?_some hfound⟩
    case h_2 =>
      cases h
      refine ⟨rfl, fun hrooted => ⟨?_, List.mem_append_right _ (List.mem_singleton_self _)⟩⟩
      cases hcas : s.cas with
      | none => simp [hcas] at hrooted
      | some files =>
        exact ⟨_, List.mem_append_right _ (List.mem_singleton_self _), rfl, rfl⟩

theorem moves_spillFlavor (kind : ContentKind) (flavor : Flavor) :
    Moves (Evolves env leave) (spillFlavor env kind flavor) := by
  unfold spillFlavor
  split
  · exact moves_pure _
  · split
    · exact moves_pure _
    · exact (moves_put kind _).bind fun _ => moves_pure _

theorem sameDb_spillFlavor (kind : ContentKind) (flavor : Flavor) :
    Moves SameDb (spillFlavor env kind flavor) := by
  unfold spillFlavor
  split
  · exact moves_pure _
  · split
    · exact moves_pure _
    · exact (sameDb_put kind _).bind fun _ => moves_pure _

theorem storedAs_spillFlavor {kind : ContentKind} {flavor stored : Flavor} {s s' : Store}
    (h : spillFlavor env kind flavor s = (s', .ok stored)) :
    s'.cas.isSome = true → StoredAs (HasFile env s') (blobRefOf env) kind stored flavor := by
  intro hrooted
  cases hbody : flavor.body with
  | Spilled blobRef byteSize =>
    simp only [spillFlavor, hbody] at h
    cases h
    exact .inl rfl
  | Inline bytes =>
    simp only [spillFlavor, hbody] at h
    split at h
    case isTrue =>
      cases h
      exact .inl rfl
    case isFalse =>
      obtain ⟨blobRef, mid, hput, h⟩ := bind_eq_ok.mp h
      cases h
      obtain ⟨rfl, hfile⟩ := hasFile_put hput
      exact .inr ⟨bytes, hbody, hfile hrooted, rfl⟩

theorem moves_storedFlavors (clip : Clip) :
    Moves (Evolves env leave) (storedFlavors env clip) := by
  refine (moves_gets _).bind fun rooted => ?_
  split
  · exact Moves.mapEach (moves_spillFlavor _) _
  · exact moves_pure _

theorem sameDb_storedFlavors (clip : Clip) : Moves SameDb (storedFlavors env clip) := by
  refine (moves_gets _).bind fun rooted => ?_
  split
  · exact Moves.mapEach (sameDb_spillFlavor _) _
  · exact moves_pure _

theorem storedAs_refl (s : Store) (kind : ContentKind) (flavors : List Flavor) :
    List.Forall₂ (StoredAs (HasFile env s) (blobRefOf env) kind) flavors flavors :=
  List.forall₂_same.mpr fun _ _ => .inl rfl

/-- What is stored of a clip stands for its flavors. -/
theorem storedFlavors_spec {clip : Clip} {s s' : Store} {stored : List Flavor}
    (h : storedFlavors env clip s = (s', .ok stored)) :
    List.Forall₂ (StoredAs (HasFile env s') (blobRefOf env) clip.metadata.kind) stored
      clip.flavors := by
  obtain ⟨rooted, mid, hrooted, h⟩ := bind_eq_ok.mp h
  cases hrooted
  split at h
  case isFalse =>
    cases h
    exact storedAs_refl ..
  case isTrue hspill =>
    have hevolves : Evolves env .none s s' := by
      have hmoves := Moves.mapEach (R := Evolves env .none)
        (moves_spillFlavor clip.metadata.kind) clip.flavors s
      rw [spillFlavors] at h
      rwa [h] at hmoves
    have hrooted : s'.cas.isSome = true := by
      rw [hevolves.rooted]
      exact (Bool.and_eq_true_iff.mp hspill).2
    have hall := mapEach_forall₂ (R := Evolves env .none)
      (P := fun s stored flavor => s.cas.isSome = true →
        StoredAs (HasFile env s) (blobRefOf env) clip.metadata.kind stored flavor)
      (moves_spillFlavor _) (fun _ _ _ _ h => storedAs_spillFlavor h)
      (fun s s' stored flavor hmoves hstored hrooted =>
        (hstored (hmoves.rooted ▸ hrooted)).mono fun _ _ => hmoves.hasFile) h
    exact hall.imp fun _ _ hstored => hstored hrooted

end Vbuff.Store
