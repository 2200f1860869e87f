import Vbuff.Core.CaptureIntegrity

/-!
# What pruning keeps, and what it reports

Inline flavors of one canonical MIME type and the same bytes are a class.  After any number of turns
the loop holds one survivor of every class it has met: the first one from the source, or else the
first one.  A survivor that is replaced is no longer in the result, but entries that were reported
before go on naming it.
-/

namespace Vbuff.Core

open ByteString Text Vbuff.Types

/-- Canonical MIME type and bytes of an inline flavor. -/
abbrev FlavorClass := Chars × Bytes

def flavorClass (flavor : Flavor) : Option FlavorClass :=
  flavor.body.inlineBytes.map fun bytes => (canonicalMime flavor.mime, bytes)

/-- The flavors as the loop enumerates them. -/
def indexed (flavors : List Flavor) : List CanonicalCandidate :=
  flavors.zipIdx.map fun entry => ⟨entry.2, entry.1⟩

/-- The flavor of the class that is kept of a list: the first from the source, or the first. -/
def survivor (c : FlavorClass) (done : List CanonicalCandidate) : Option CanonicalCandidate :=
  (done.find? fun x => flavorClass x.flavor = some c ∧ x.flavor.origin = .Source).or
    (done.find? fun x => flavorClass x.flavor = some c)

/-- The flavor is not inline, or it is the survivor of its class. -/
def stays (done : List CanonicalCandidate) (x : CanonicalCandidate) : Bool :=
  match flavorClass x.flavor with
  | none => true
  | some c => survivor c done == some x

/-! ## Lists -/

section Lists

variable {α : Type} {p q : α → Bool} {x : α} {l : List α}

theorem find?_set_findIdx (hx : q x = true) (h : l.find? q ≠ none) :
    (l.set (l.findIdx q) x).find? q = some x := by
  induction l with
  | nil => exact absurd rfl h
  | cons a l ih =>
    rw [List.findIdx_cons]
    cases ha : q a with
    | true => rw [cond_true, List.set_cons_zero, List.find?_cons_of_pos hx]
    | false =>
      have hrest : l.find? q ≠ none := by
        rwa [List.find?_cons_of_neg (by rw [ha]; exact Bool.false_ne_true)] at h
      rw [cond_false, List.set_cons_succ,
        List.find?_cons_of_neg (by rw [ha]; exact Bool.false_ne_true), ih hrest]

/-- Replacing an element that is not looked for by another such element. -/
theorem find?_set_findIdx_of_not (hx : p x = false) (hpq : ∀ a, q a = true → p a = false) :
    (l.set (l.findIdx q) x).find? p = l.find? p := by
  induction l with
  | nil => rfl
  | cons a l ih =>
    rw [List.findIdx_cons]
    cases ha : q a with
    | true =>
      rw [cond_true, List.set_cons_zero, List.find?_cons_of_neg (by rw [hx]; exact Bool.false_ne_true),
        List.find?_cons_of_neg (by rw [hpq a ha]; exact Bool.false_ne_true)]
    | false =>
      rw [cond_false, List.set_cons_succ, List.find?_cons, List.find?_cons, ih]

theorem mem_of_find?_decide {P : α → Prop} [DecidablePred P]
    (h : l.find? (fun a => decide (P a)) = some x) : x ∈ l ∧ P x :=
  ⟨List.mem_of_find?_eq_some h, by simpa using List.find?_some h⟩

/-- The first element of a kind, with those before it. -/
theorem exists_first {P : α → Prop} [DecidablePred P] (h : ∃ a ∈ l, P a) :
    ∃ before a after, l = before ++ a :: after ∧ P a ∧ ∀ b ∈ before, ¬P b := by
  obtain ⟨a, ha, hPa⟩ := h
  obtain ⟨first, hfirst⟩ := Option.isSome_iff_exists.mp
    (List.find?_isSome.mpr ⟨a, ha, decide_eq_true hPa⟩ : (l.find? fun a => decide (P a)).isSome)
  obtain ⟨hP, before, after, hl, hbefore⟩ := List.find?_eq_some_iff_append.mp hfirst
  exact ⟨before, first, after, hl, by simpa using hP, fun b hb => by simpa using hbefore b hb⟩

theorem find?_concat (l : List α) (p : α → Bool) (x : α) :
    (l ++ [x]).find? p = (l.find? p).or (if p x then some x else none) := by
  rw [List.find?_append]
  congr 1
  cases hx : p x <;> simp [hx]

end Lists

/-! ## Survivors -/

section Survivor

variable {c : FlavorClass} {done : List CanonicalCandidate} {x y : CanonicalCandidate}

theorem survivor_mem (h : survivor c done = some x) :
    x ∈ done ∧ flavorClass x.flavor = some c := by
  rcases Option.or_eq_some_iff.mp h with hfirst | ⟨-, hfirst⟩
  · obtain ⟨hmem, hclass, -⟩ := mem_of_find?_decide hfirst
    exact ⟨hmem, hclass⟩
  · exact mem_of_find?_decide hfirst

theorem survivor_eq_none_iff :
    survivor c done = none ↔ ∀ x ∈ done, flavorClass x.flavor ≠ some c := by
  rw [survivor, Option.or_eq_none_iff, List.find?_eq_none, List.find?_eq_none]
  simp only [decide_eq_true_eq, not_and]
  exact ⟨fun h => h.2, fun h => ⟨fun x hx hc => absurd hc (h x hx), h⟩⟩

/-- A survivor that is not from the source comes first, and no flavor of its class is. -/
theorem survivor_source (h : survivor c done = some x) (hderived : x.flavor.origin ≠ .Source) :
    ∀ y ∈ done, flavorClass y.flavor = some c → y.flavor.origin ≠ .Source := by
  rcases Option.or_eq_some_iff.mp h with hfirst | ⟨hnone, -⟩
  · exact absurd (mem_of_find?_decide hfirst).2.2 hderived
  · intro y hy hclass hsource
    exact List.find?_eq_none.mp hnone y hy (decide_eq_true ⟨hclass, hsource⟩)

/-- One more flavor takes the place of a survivor that is not from the source, if it is itself. -/
theorem survivor_concat :
    survivor c (done ++ [x]) =
      if flavorClass x.flavor = some c then
        match survivor c done with
        | none => some x
        | some prior =>
            if prior.flavor.origin ≠ .Source ∧ x.flavor.origin = .Source then some x
            else some prior
      else survivor c done := by
  by_cases hclass : flavorClass x.flavor = some c
  · rw [if_pos hclass, survivor, survivor, find?_concat, find?_concat]
    cases hsource : done.find? fun x => flavorClass x.flavor = some c ∧ x.flavor.origin = .Source with
    | some prior =>
      have hprior : prior.flavor.origin = .Source := (mem_of_find?_decide hsource).2.2
      simp [hprior]
    | none =>
      cases hfirst : done.find? fun x => flavorClass x.flavor = some c with
      | none => by_cases hx : x.flavor.origin = .Source <;> simp [hclass, hx]
      | some prior =>
        have hprior : prior.flavor.origin ≠ .Source := fun horigin =>
          List.find?_eq_none.mp hsource prior (List.mem_of_find?_eq_some hfirst)
            (decide_eq_true ⟨(mem_of_find?_decide hfirst).2, horigin⟩)
        by_cases hx : x.flavor.origin = .Source
        · simp [hclass, hx, hprior]
        · simp [hclass, hx]
  · rw [if_neg hclass, survivor, survivor, find?_concat, find?_concat]
    simp [hclass]

/-- A survivor that is not from the source is the first of its class. -/
theorem survivor_split (h : survivor c done = some x) (hderived : x.flavor.origin ≠ .Source) :
    ∃ before between, done = before ++ x :: between ∧
      ∀ y ∈ before, flavorClass y.flavor ≠ some c := by
  rcases Option.or_eq_some_iff.mp h with hfirst | ⟨-, hfirst⟩
  · exact absurd (mem_of_find?_decide hfirst).2.2 hderived
  · obtain ⟨-, before, between, hdone, hbefore⟩ := List.find?_eq_some_iff_append.mp hfirst
    exact ⟨before, between, hdone, fun y hy => by simpa using hbefore y hy⟩

/-- A survivor from the source is final. -/
theorem survivor_append_of_source (h : survivor c done = some x) (hsource : x.flavor.origin = .Source)
    (rest : List CanonicalCandidate) : survivor c (done ++ rest) = some x := by
  induction rest using List.reverseRecOn with
  | nil => rwa [List.append_nil]
  | append_singleton rest y ih =>
    rw [← List.append_assoc, survivor_concat, ih]
    simp [hsource]

/-- Any survivor is final when nothing of its class comes from the source after it. -/
theorem survivor_append_of_derived (h : survivor c done = some x) {rest : List CanonicalCandidate}
    (hderived : ∀ y ∈ rest, flavorClass y.flavor = some c → y.flavor.origin ≠ .Source) :
    survivor c (done ++ rest) = some x := by
  induction rest using List.reverseRecOn with
  | nil => rwa [List.append_nil]
  | append_singleton rest y ih =>
    rw [← List.append_assoc, survivor_concat,
      ih fun z hz => hderived z (List.mem_append_left _ hz)]
    by_cases hclass : flavorClass y.flavor = some c
    · simp [hderived y (List.mem_append_right _ (List.mem_singleton_self y)) hclass]
    · rw [if_neg hclass]

/-- The first flavor of a class survives what comes before it. -/
theorem survivor_first (hbefore : ∀ y ∈ done, flavorClass y.flavor ≠ some c)
    (hx : flavorClass x.flavor = some c) : survivor c (done ++ [x]) = some x := by
  rw [survivor_concat, if_pos hx, survivor_eq_none_iff.mpr hbefore]

/-- A class that is met has a survivor. -/
theorem exists_survivor (hx : x ∈ done) (hclass : flavorClass x.flavor = some c) :
    ∃ y, survivor c done = some y :=
  Option.ne_none_iff_exists'.mp fun hnone => survivor_eq_none_iff.mp hnone x hx hclass

end Survivor

/-! ## The loop -/

section Loop

variable (blake3 : Bytes → ContentHash)

/-- The bucket a class is looked for in. -/
def FlavorClass.bucket (c : FlavorClass) : FlavorIdentity := (c.1, blake3 c.2, c.2.length)

/-- The candidate has the bytes of the class. -/
def FlavorClass.hasBytes (c : FlavorClass) (prior : CanonicalCandidate) : Bool :=
  prior.flavor.body.inlineBytes == some c.2

/-- What the loop has done after the flavors in `done`, the first ones of `all`. -/
structure Tracks (all done : List CanonicalCandidate) (state : Pruning) : Prop where
  found : ∀ c : FlavorClass, (state.canonical (c.bucket blake3)).find? c.hasBytes = survivor c done
  keep : ∀ i, state.keep[i]? = all[i]?.map fun x => decide (done.length ≤ i) || stays done x

theorem flavorClass_eq_some {flavor : Flavor} {c : FlavorClass} :
    flavorClass flavor = some c ↔
      flavor.body.inlineBytes = some c.2 ∧ canonicalMime flavor.mime = c.1 := by
  rw [flavorClass, Option.map_eq_some_iff]
  constructor
  · rintro ⟨bytes, hbytes, rfl⟩
    exact ⟨hbytes, rfl⟩
  · rintro ⟨hbytes, hmime⟩
    exact ⟨c.2, hbytes, Prod.ext hmime rfl⟩

theorem flavorClass_eq_none {flavor : Flavor} :
    flavorClass flavor = none ↔ flavor.body.inlineBytes = none := Option.map_eq_none_iff

/-- A turn leaves the variables alone, or enters a class, or drops one of two. -/
inductive Turn (done : List CanonicalCandidate) (state : Pruning) (x : CanonicalCandidate) :
    Pruning → Prop where
  | spilled (hx : flavorClass x.flavor = none) : Turn done state x state
  | enter (c : FlavorClass) (hx : flavorClass x.flavor = some c) (hnone : survivor c done = none)
      (canonical : FlavorIdentity → List CanonicalCandidate) :
      Turn done state x { state with canonical }
  | replace (c : FlavorClass) (hx : flavorClass x.flavor = some c) (prior : CanonicalCandidate)
      (hprior : survivor c done = some prior) (hderived : prior.flavor.origin ≠ .Source)
      (hsource : x.flavor.origin = .Source)
      (canonical : FlavorIdentity → List CanonicalCandidate) :
      Turn done state x
        { canonical
          keep := state.keep.set prior.index false
          pruned := state.pruned ++ [⟨prior.flavor.mime, x.flavor.mime⟩] }
  | drop (c : FlavorClass) (hx : flavorClass x.flavor = some c) (prior : CanonicalCandidate)
      (hprior : survivor c done = some prior)
      (hstays : ¬(prior.flavor.origin ≠ .Source ∧ x.flavor.origin = .Source)) :
      Turn done state x
        { state with
          keep := state.keep.set x.index false
          pruned := state.pruned ++ [⟨x.flavor.mime, prior.flavor.mime⟩] }

variable {blake3} {all done : List CanonicalCandidate} {state : Pruning} {x : CanonicalCandidate}

/-- One turn on a flavor of the class, over what the loop holds of it. -/
theorem visit_eq (h : Tracks blake3 all done state) {c : FlavorClass}
    (hx : flavorClass x.flavor = some c) :
    state.visit blake3 x =
      match survivor c done with
      | some prior =>
          if prior.flavor.origin ≠ .Source ∧ x.flavor.origin = .Source then
            { canonical := Function.update state.canonical (c.bucket blake3)
                ((state.canonical (c.bucket blake3)).set
                  ((state.canonical (c.bucket blake3)).findIdx c.hasBytes) x)
              keep := state.keep.set prior.index false
              pruned := state.pruned ++ [⟨prior.flavor.mime, x.flavor.mime⟩] }
          else
            { state with
              keep := state.keep.set x.index false
              pruned := state.pruned ++ [⟨x.flavor.mime, prior.flavor.mime⟩] }
      | none =>
          { state with
            canonical := Function.update state.canonical (c.bucket blake3)
              (state.canonical (c.bucket blake3) ++ [x]) } := by
  obtain ⟨hbytes, hmime⟩ := flavorClass_eq_some.mp hx
  rw [← h.found c, List.find?_eq_getElem?_findIdx, Pruning.visit, hbytes]
  dsimp only
  rw [hmime]
  rfl

theorem visit_spilled (hx : flavorClass x.flavor = none) : state.visit blake3 x = state := by
  rw [Pruning.visit, flavorClass_eq_none.mp hx]

theorem turn_visit (h : Tracks blake3 all done state) (x : CanonicalCandidate) :
    Turn done state x (state.visit blake3 x) := by
  cases hx : flavorClass x.flavor with
  | none =>
    rw [visit_spilled hx]
    exact .spilled hx
  | some c =>
    rw [visit_eq h hx]
    cases hprior : survivor c done with
    | none => exact .enter c hx hprior _
    | some prior =>
      dsimp only
      split_ifs with hreplace
      · exact .replace c hx prior hprior hreplace.1 hreplace.2 _
      · exact .drop c hx prior hprior hreplace

theorem fst_eq_of_bucket_eq {c c' : FlavorClass} (h : c'.bucket blake3 = c.bucket blake3) :
    c'.1 = c.1 := (Prod.ext_iff.mp h).1

theorem hasBytes_iff {c c' : FlavorClass} (hx : flavorClass x.flavor = some c)
    (hbucket : c'.bucket blake3 = c.bucket blake3) : c'.hasBytes x = true ↔ c' = c := by
  rw [FlavorClass.hasBytes, (flavorClass_eq_some.mp hx).1, beq_iff_eq, Option.some_inj]
  refine ⟨fun hbytes => Prod.ext (fst_eq_of_bucket_eq hbucket) hbytes.symm, fun heq => by rw [heq]⟩

/-- After the turn every class is found again. -/
theorem found_visit (h : Tracks blake3 all done state) (x : CanonicalCandidate)
    (c' : FlavorClass) :
    ((state.visit blake3 x).canonical (c'.bucket blake3)).find? c'.hasBytes =
      survivor c' (done ++ [x]) := by
  rw [survivor_concat]
  cases hx : flavorClass x.flavor with
  | none => rw [visit_spilled hx, if_neg (by simp), h.found]
  | some c =>
    rw [visit_eq h hx, ← h.found c']
    by_cases hbucket : c'.bucket blake3 = c.bucket blake3
    · by_cases hsame : c' = c
      · subst hsame
        have hmatches : c'.hasBytes x = true := (hasBytes_iff hx hbucket).mpr rfl
        rw [if_pos rfl, h.found]
        cases hprior : survivor c' done with
        | none =>
          have hnone := (h.found c').trans hprior
          simp [hnone, hmatches]
        | some prior =>
          have hsome := (h.found c').trans hprior
          dsimp only
          split_ifs
          · dsimp only
            rw [Function.update_self]
            exact find?_set_findIdx hmatches (by rw [hsome]; exact Option.some_ne_none _)
          · exact hsome
      · have hmatches : c'.hasBytes x = false :=
          Bool.eq_false_iff.mpr fun hx' => hsame ((hasBytes_iff hx hbucket).mp hx')
        have hother : ∀ y, c.hasBytes y = true → c'.hasBytes y = false := by
          intro y hy
          refine Bool.eq_false_iff.mpr fun hy' => hsame ?_
          have hbytes : c'.2 = c.2 :=
            Option.some.inj ((beq_iff_eq.mp hy').symm.trans (beq_iff_eq.mp hy))
          exact Prod.ext (fst_eq_of_bucket_eq hbucket) hbytes
        rw [if_neg fun heq => hsame (Option.some.inj heq).symm]
        cases survivor c done with
        | none => simp [hbucket, hmatches]
        | some prior =>
          dsimp only
          split_ifs
          · dsimp only
            rw [hbucket, Function.update_self]
            exact find?_set_findIdx_of_not hmatches hother
          · rfl
    · have hsame : ¬some c = some c' := fun heq => hbucket (by rw [Option.some.inj heq])
      rw [if_neg hsame]
      cases survivor c done with
      | none => simp [hbucket]
      | some prior =>
        dsimp only
        split_ifs
        · dsimp only
          rw [Function.update_of_ne hbucket]
        · rfl

/-- Every candidate knows its place. -/
def Placed (all : List CanonicalCandidate) : Prop :=
  ∀ (i : ℕ) (y : CanonicalCandidate), all[i]? = some y → y.index = i

theorem stays_of_class {y : CanonicalCandidate} {c : FlavorClass}
    (hy : flavorClass y.flavor = some c) : stays done y = (survivor c done == some y) := by
  rw [stays, hy]

theorem stays_of_spilled {y : CanonicalCandidate} (hy : flavorClass y.flavor = none) :
    stays done y = true := by
  rw [stays, hy]

/-- A flavor whose class keeps its survivor stays or goes as before. -/
theorem stays_concat {y : CanonicalCandidate}
    (h : ∀ c, flavorClass y.flavor = some c → survivor c (done ++ [x]) = survivor c done) :
    stays (done ++ [x]) y = stays done y := by
  cases hy : flavorClass y.flavor with
  | none => rw [stays_of_spilled hy, stays_of_spilled hy]
  | some c => rw [stays_of_class hy, stays_of_class hy, h c hy]

theorem survivor_concat_of_ne {c : FlavorClass} (h : flavorClass x.flavor ≠ some c) :
    survivor c (done ++ [x]) = survivor c done := by
  rw [survivor_concat, if_neg h]

theorem stays_concat_of_class {y : CanonicalCandidate} {c : FlavorClass}
    (hx : flavorClass x.flavor = some c) (hy : flavorClass y.flavor ≠ some c) :
    stays (done ++ [x]) y = stays done y := by
  refine stays_concat fun c' hy' => survivor_concat_of_ne fun heq => hy ?_
  rw [hx] at heq
  rw [hy', Option.some.inj heq]

section Places

variable {rest : List CanonicalCandidate} {y : CanonicalCandidate}

theorem Placed.getElem?_index (hplaced : Placed all) (hx : x ∈ all) : all[x.index]? = some x := by
  obtain ⟨k, hk, hget⟩ := List.getElem_of_mem hx
  have hat : all[k]? = some x := by rw [List.getElem?_eq_getElem hk, hget]
  rwa [hplaced k x hat]

theorem Placed.eq_of_index_eq (hplaced : Placed all) (hx : x ∈ all) (hy : y ∈ all)
    (h : y.index = x.index) : y = x := by
  have hget := hplaced.getElem?_index hy
  rw [h, hplaced.getElem?_index hx] at hget
  exact (Option.some.inj hget).symm

theorem Placed.index_eq (hplaced : Placed all) (hall : all = done ++ x :: rest) :
    x.index = done.length :=
  hplaced _ _ (by rw [hall]; simp)

theorem Placed.index_lt (hplaced : Placed all) (hall : all = done ++ x :: rest) (hy : y ∈ done) :
    y.index < done.length := by
  obtain ⟨k, hk, hget⟩ := List.getElem_of_mem hy
  have hat : all[k]? = some y := by
    rw [hall, List.getElem?_append_left hk, List.getElem?_eq_getElem hk, hget]
  rwa [hplaced k y hat]

theorem Placed.mem_of_lt (hplaced : Placed all) (hall : all = done ++ x :: rest) (hy : y ∈ all)
    (hlt : y.index < done.length) : y ∈ done := by
  have hget := hplaced.getElem?_index hy
  rw [hall, List.getElem?_append_left hlt] at hget
  exact List.mem_of_getElem? hget

theorem Placed.ne_of_mem (hplaced : Placed all) (hall : all = done ++ x :: rest) (hy : y ∈ done) :
    y ≠ x := by
  rintro rfl
  have hlt := hplaced.index_lt hall hy
  have heq := hplaced.index_eq hall
  omega

theorem Placed.index_ne (hplaced : Placed all) (hall : all = done ++ x :: rest) (hy : y ∈ all)
    (hne : y ≠ x) : y.index ≠ done.length := by
  intro heq
  have hx : x ∈ all := hall ▸ List.mem_append_right _ List.mem_cons_self
  exact hne (hplaced.eq_of_index_eq hx hy (heq.trans (hplaced.index_eq hall).symm))

end Places

/-! ### Flags -/

/-- The flag of a flavor after the turns of those in `done`: set before its own turn, and then as
long as the flavor stays. -/
def flagged (done : List CanonicalCandidate) (y : CanonicalCandidate) : Bool :=
  decide (done.length ≤ y.index) || stays done y

section Flags

variable {rest : List CanonicalCandidate} {y : CanonicalCandidate} {c : FlavorClass}

theorem flagged_of_le (h : done.length ≤ y.index) : flagged done y = true := by
  rw [flagged, decide_eq_true h, Bool.true_or]

theorem flagged_of_lt (h : y.index < done.length) : flagged done y = stays done y := by
  rw [flagged, decide_eq_false (not_le.mpr h), Bool.false_or]

theorem flagged_concat_self (h : x.index = done.length) :
    flagged (done ++ [x]) x = stays (done ++ [x]) x := by
  refine flagged_of_lt ?_
  rw [List.length_append, List.length_singleton]
  omega

/-- Another flag is as it was unless what stays changes before it. -/
theorem flagged_concat (hne : y.index ≠ done.length)
    (hsame : y.index < done.length → stays (done ++ [x]) y = stays done y) :
    flagged (done ++ [x]) y = flagged done y := by
  have hlength : (done ++ [x]).length = done.length + 1 := List.length_append
  rcases lt_or_gt_of_ne hne with hlt | hgt
  · rw [flagged_of_lt hlt, flagged_of_lt (by omega), hsame hlt]
  · rw [flagged_of_le hgt.le, flagged_of_le (by omega)]

theorem flagged_concat_of_spilled (hplaced : Placed all) (hall : all = done ++ x :: rest)
    (hx : flavorClass x.flavor = none) (hy : y ∈ all) :
    flagged (done ++ [x]) y = flagged done y := by
  have hindex := hplaced.index_eq hall
  by_cases hself : y = x
  · rw [hself, flagged_concat_self hindex, stays_of_spilled hx, flagged_of_le hindex.ge]
  · refine flagged_concat (hplaced.index_ne hall hy hself) fun _ => stays_concat fun c' _ => ?_
    exact survivor_concat_of_ne (by simp [hx])

/-- The first flavor of its class stays, and none before it goes. -/
theorem flagged_concat_of_enter (hplaced : Placed all) (hall : all = done ++ x :: rest)
    (hx : flavorClass x.flavor = some c) (hnone : survivor c done = none) (hy : y ∈ all) :
    flagged (done ++ [x]) y = flagged done y := by
  have hindex := hplaced.index_eq hall
  by_cases hself : y = x
  · have hnew : survivor c (done ++ [x]) = some x := by
      rw [survivor_concat, if_pos hx, hnone]
    rw [hself, flagged_concat_self hindex, stays_of_class hx, hnew, beq_self_eq_true,
      flagged_of_le hindex.ge]
  · refine flagged_concat (hplaced.index_ne hall hy hself) fun hlt => stays_concat_of_class hx ?_
    exact survivor_eq_none_iff.mp hnone y (hplaced.mem_of_lt hall hy hlt)

/-- A new survivor takes the place of the old one, whose flag alone is cleared. -/
theorem flagged_concat_of_replace (hplaced : Placed all) (hall : all = done ++ x :: rest)
    (hx : flavorClass x.flavor = some c) {prior : CanonicalCandidate}
    (hprior : survivor c done = some prior) (hnew : survivor c (done ++ [x]) = some x)
    (hy : y ∈ all) :
    flagged (done ++ [x]) y = (decide (y ≠ prior) && flagged done y) := by
  have hindex := hplaced.index_eq hall
  obtain ⟨hpriorMem, hpriorClass⟩ := survivor_mem hprior
  have hpriorNe : prior ≠ x := hplaced.ne_of_mem hall hpriorMem
  by_cases hself : y = x
  · rw [hself, flagged_concat_self hindex, stays_of_class hx, hnew, beq_self_eq_true,
      flagged_of_le hindex.ge, decide_eq_true hpriorNe.symm, Bool.and_true]
  · by_cases hgone : y = prior
    · have hstays : (some x == some y) = false :=
        beq_eq_false_iff_ne.mpr fun heq => hself (Option.some.inj heq).symm
      have hlt : y.index < (done ++ [x]).length := by
        rw [hgone, List.length_append]
        exact Nat.lt_succ_of_lt (hplaced.index_lt hall hpriorMem)
      rw [flagged_of_lt hlt, stays_of_class (hgone ▸ hpriorClass), hnew, hstays,
        decide_eq_false (not_not.mpr hgone), Bool.false_and]
    · rw [decide_eq_true hgone, Bool.true_and]
      refine flagged_concat (hplaced.index_ne hall hy hself) fun hlt => ?_
      by_cases hclass : flavorClass y.flavor = some c
      · have hother : (some prior == some y) = false ∧ (some x == some y) = false := by
          rw [beq_eq_false_iff_ne, beq_eq_false_iff_ne]
          exact ⟨fun heq => hgone (Option.some.inj heq).symm,
            fun heq => hself (Option.some.inj heq).symm⟩
        rw [stays_of_class hclass, stays_of_class hclass, hnew, hprior, hother.1, hother.2]
      · exact stays_concat_of_class hx hclass

/-- A flavor that comes after its survivor is the only one to have its flag cleared. -/
theorem flagged_concat_of_drop (hplaced : Placed all) (hall : all = done ++ x :: rest)
    (hx : flavorClass x.flavor = some c) {prior : CanonicalCandidate}
    (hprior : survivor c done = some prior) (hnew : survivor c (done ++ [x]) = some prior)
    (hy : y ∈ all) :
    flagged (done ++ [x]) y = (decide (y ≠ x) && flagged done y) := by
  by_cases hself : y = x
  · have hgone : (some prior == some x) = false :=
      beq_eq_false_iff_ne.mpr fun heq =>
        hplaced.ne_of_mem hall (survivor_mem hprior).1 (Option.some.inj heq)
    rw [hself, flagged_concat_self (hplaced.index_eq hall), stays_of_class hx, hnew, hgone,
      decide_eq_false (not_not.mpr rfl), Bool.false_and]
  · rw [decide_eq_true hself, Bool.true_and]
    refine flagged_concat (hplaced.index_ne hall hy hself) fun _ => stays_concat fun c' _ => ?_
    by_cases hsame : c' = c
    · rw [hsame, hnew, hprior]
    · refine survivor_concat_of_ne fun heq => hsame ?_
      rw [hx] at heq
      exact (Option.some.inj heq).symm

/-- The flag of a flavor is cleared once it does not stay. -/
theorem Tracks.flag (h : Tracks blake3 all done state) (hplaced : Placed all) (hy : y ∈ all) :
    state.keep[y.index]? = some (flagged done y) := by
  rw [h.keep, hplaced.getElem?_index hy, Option.map_some, flagged]

/-- Clearing a flag, over what the flags say. -/
theorem Tracks.getElem?_clear (h : Tracks blake3 all done state) (hplaced : Placed all)
    {z : CanonicalCandidate} (hz : z ∈ all) (hy : y ∈ all) :
    (state.keep.set z.index false)[y.index]? = some (decide (y ≠ z) && flagged done y) := by
  have hold := h.flag hplaced hy
  rw [List.getElem?_set, hold]
  by_cases hself : y = z
  · have hlength : y.index < state.keep.length := (List.getElem?_eq_some_iff.mp hold).1
    rw [if_pos (by rw [hself]), if_pos (hself ▸ hlength), decide_eq_false (not_not.mpr hself),
      Bool.false_and]
  · rw [if_neg fun heq => hself (hplaced.eq_of_index_eq hz hy heq.symm), decide_eq_true hself,
      Bool.true_and]

end Flags

/-- After the turn the flags say what stays. -/
theorem keep_visit {rest : List CanonicalCandidate} (hplaced : Placed all)
    (hall : all = done ++ x :: rest) (h : Tracks blake3 all done state) (i : ℕ) :
    (state.visit blake3 x).keep[i]? =
      all[i]?.map fun y => decide (done.length + 1 ≤ i) || stays (done ++ [x]) y := by
  have hold := h.keep i
  have hx : x ∈ all := hall ▸ List.mem_append_right _ List.mem_cons_self
  have hturn := turn_visit h x
  generalize state.visit blake3 x = state' at hturn ⊢
  cases hget : all[i]? with
  | none =>
    rw [hget] at hold
    cases hturn <;> simp_all
  | some y =>
    obtain rfl : y.index = i := hplaced i y hget
    have hy : y ∈ all := List.mem_of_getElem? hget
    have hlength : (done ++ [x]).length = done.length + 1 := List.length_append
    rw [hget, Option.map_some] at hold
    rw [Option.map_some, ← hlength]
    show _ = some (flagged (done ++ [x]) y)
    cases hturn with
    | spilled hclass => rw [hold, flagged_concat_of_spilled hplaced hall hclass hy, flagged]
    | enter c hclass hnone canonical =>
      dsimp only
      rw [hold, flagged_concat_of_enter hplaced hall hclass hnone hy, flagged]
    | replace c hclass prior hprior hderived hsource canonical =>
      have hnew : survivor c (done ++ [x]) = some x := by
        rw [survivor_concat, if_pos hclass, hprior]
        exact if_pos ⟨hderived, hsource⟩
      have hpriorMem : prior ∈ all := hall ▸ List.mem_append_left _ (survivor_mem hprior).1
      rw [flagged_concat_of_replace hplaced hall hclass hprior hnew hy]
      exact h.getElem?_clear hplaced hpriorMem hy
    | drop c hclass prior hprior hstays =>
      have hnew : survivor c (done ++ [x]) = some prior := by
        rw [survivor_concat, if_pos hclass, hprior]
        exact if_neg hstays
      rw [flagged_concat_of_drop hplaced hall hclass hprior hnew hy]
      exact h.getElem?_clear hplaced hx hy

/-! ### Runs -/

variable (blake3) in
/-- The variables after the turns on these flavors, of so many. -/
def Pruning.after (count : ℕ) (done : List CanonicalCandidate) : Pruning :=
  done.foldl (Pruning.visit blake3)
    { canonical := fun _ => [], keep := List.replicate count true, pruned := [] }

theorem after_concat (count : ℕ) (done : List CanonicalCandidate) (x : CanonicalCandidate) :
    Pruning.after blake3 count (done ++ [x]) = (Pruning.after blake3 count done).visit blake3 x := by
  rw [Pruning.after, List.foldl_append]
  rfl

variable (blake3) in
theorem tracks_after (hplaced : Placed all) {rest : List CanonicalCandidate}
    (hall : all = done ++ rest) : Tracks blake3 all done (Pruning.after blake3 all.length done) := by
  induction done using List.reverseRecOn generalizing rest with
  | nil =>
    refine ⟨fun c => rfl, fun i => ?_⟩
    show (List.replicate all.length true)[i]? = _
    by_cases hi : i < all.length
    · rw [List.getElem?_replicate_of_lt hi, List.getElem?_eq_getElem hi]
      simp
    · rw [List.getElem?_eq_none (by simpa using hi), List.getElem?_eq_none (by simpa using hi)]
      rfl
  | append_singleton done x ih =>
    have hsplit : all = done ++ x :: rest := by rw [hall, List.append_assoc]; rfl
    have hbefore := ih hsplit
    rw [after_concat]
    refine ⟨found_visit hbefore x, fun i => ?_⟩
    rw [keep_visit hplaced hsplit hbefore i, List.length_append, List.length_singleton]

variable (blake3) in
theorem keep_after (hplaced : Placed all) :
    (Pruning.after blake3 all.length all).keep = all.map (stays all) := by
  have htracks := tracks_after blake3 hplaced (List.append_nil all).symm
  refine List.ext_getElem? fun i => ?_
  rw [htracks.keep i, List.getElem?_map]
  cases hget : all[i]? with
  | none => rfl
  | some y =>
    have hi : i < all.length := (List.getElem?_eq_some_iff.mp hget).1
    rw [Option.map_some, Option.map_some, decide_eq_false (by omega), Bool.false_or]

theorem placed_indexed (flavors : List Flavor) : Placed (indexed flavors) := by
  intro i y hy
  obtain ⟨entry, hentry, rfl⟩ := Option.map_eq_some_iff.mp (List.getElem?_map ▸ hy)
  rw [List.getElem?_zipIdx] at hentry
  obtain ⟨flavor, -, rfl⟩ := Option.map_eq_some_iff.mp hentry
  exact Nat.zero_add i

theorem map_flavor_indexed (flavors : List Flavor) :
    (indexed flavors).map CanonicalCandidate.flavor = flavors := by
  rw [indexed, List.map_map]
  exact List.zipIdx_map_fst 0 flavors

theorem length_indexed (flavors : List Flavor) : (indexed flavors).length = flavors.length := by
  rw [indexed, List.length_map, List.length_zipIdx]

/-- The flavors retained are those that stay. -/
theorem retained_eq (flavors : List Flavor) :
    (pruneRedundantFlavors blake3 flavors).1 =
      ((indexed flavors).filter (stays (indexed flavors))).map CanonicalCandidate.flavor := by
  have hkeep := keep_after blake3 (placed_indexed flavors)
  rw [length_indexed] at hkeep
  have hzip : flavors.zip ((indexed flavors).map (stays (indexed flavors))) =
      (indexed flavors).map fun x => (x.flavor, stays (indexed flavors) x) := by
    have hmaps : ((indexed flavors).map CanonicalCandidate.flavor).zip
        ((indexed flavors).map (stays (indexed flavors))) = _ := List.zip_map'
    rwa [map_flavor_indexed] at hmaps
  show ((flavors.zip (Pruning.after blake3 flavors.length (indexed flavors)).keep).filter
    Prod.snd).map Prod.fst = _
  rw [hkeep, hzip, List.filter_map, List.map_map]
  rfl

theorem nodup_indexed (flavors : List Flavor) : (indexed flavors).Nodup := by
  refine List.Nodup.of_map CanonicalCandidate.index ?_
  rw [indexed, List.map_map]
  show (flavors.zipIdx.map Prod.snd).Nodup
  rw [List.zipIdx_map_snd]
  exact List.nodup_range'

theorem mem_retained_iff {flavors : List Flavor} {kept : Flavor} :
    kept ∈ (pruneRedundantFlavors blake3 flavors).1 ↔
      ∃ x ∈ indexed flavors, stays (indexed flavors) x = true ∧ x.flavor = kept := by
  rw [retained_eq, List.mem_map]
  simp [and_assoc]

theorem survivor_retained {flavors : List Flavor} {c : FlavorClass}
    (h : survivor c (indexed flavors) = some x) :
    x.flavor ∈ (pruneRedundantFlavors blake3 flavors).1 := by
  obtain ⟨hmem, hclass⟩ := survivor_mem h
  exact mem_retained_iff.mpr ⟨x, hmem, by rw [stays_of_class hclass, h, beq_self_eq_true], rfl⟩

/-- What is retained of a class is its survivor. -/
theorem eq_survivor_of_retained {flavors : List Flavor} {c : FlavorClass} {kept : Flavor}
    (hkept : kept ∈ (pruneRedundantFlavors blake3 flavors).1) (hclass : flavorClass kept = some c) :
    ∃ x, survivor c (indexed flavors) = some x ∧ x.flavor = kept := by
  obtain ⟨x, -, hstays, rfl⟩ := mem_retained_iff.mp hkept
  rw [stays_of_class hclass] at hstays
  exact ⟨x, beq_iff_eq.mp hstays, rfl⟩

end Loop

/-! ## The report -/

section Report

variable (blake3 : Bytes → ContentHash) (flavors : List Flavor)

/-- The entry a turn reports is for the flavor whose flag it clears, and names a flavor of the result
with the same bytes. -/
def NamesSurvivor (earlier : List CanonicalCandidate) (x : CanonicalCandidate)
    (entry : PrunedFlavor) : Prop :=
  ∃ dropped ∈ indexed flavors,
    (Pruning.after blake3 flavors.length earlier).keep[dropped.index]? = some true ∧
    (Pruning.after blake3 flavors.length (earlier ++ [x])).keep[dropped.index]? = some false ∧
    entry.mime = dropped.flavor.mime ∧
    ∃ kept ∈ (pruneRedundantFlavors blake3 flavors).1, entry.deriveFromMime = kept.mime ∧
      kept.body.inlineBytes = dropped.flavor.body.inlineBytes ∧ kept.body.inlineBytes ≠ none

/-- One flavor of every class is kept, from the source where there is one; what is not inline stays,
and so does the order; and every entry of the report names a flavor that is kept. -/
structure PrunesWell : Prop where
  once : ∀ flavor ∈ flavors, ∀ c, flavorClass flavor = some c →
    ((pruneRedundantFlavors blake3 flavors).1.filter fun kept => flavorClass kept = some c).length =
      1
  prefersSource : ∀ flavor ∈ flavors, ∀ c, flavorClass flavor = some c →
    flavor.origin = .Source → ∀ kept ∈ (pruneRedundantFlavors blake3 flavors).1,
      flavorClass kept = some c → kept.origin = .Source
  spilled : ((pruneRedundantFlavors blake3 flavors).1.filter fun kept =>
      kept.body.inlineBytes = none) = flavors.filter fun flavor => flavor.body.inlineBytes = none
  ordered : (pruneRedundantFlavors blake3 flavors).1.Sublist flavors
  named : ∀ earlier x later, indexed flavors = earlier ++ x :: later → ∀ entry,
    (Pruning.after blake3 flavors.length (earlier ++ [x])).pruned =
        (Pruning.after blake3 flavors.length earlier).pruned ++ [entry] →
      NamesSurvivor blake3 flavors earlier x entry

/-- The first flavor of a class is not from the source, another one comes before the first that is,
and that one has the MIME type in another spelling. -/
def LeavesStaleName : Prop :=
  ∃ before first between source after c,
    flavors = before ++ first :: (between ++ source :: after) ∧
    (∀ flavor ∈ before, flavorClass flavor ≠ some c) ∧
    flavorClass first = some c ∧ first.origin ≠ .Source ∧
    (∃ flavor ∈ between, flavorClass flavor = some c) ∧
    (∀ flavor ∈ between, flavorClass flavor = some c → flavor.origin ≠ .Source) ∧
    flavorClass source = some c ∧ source.origin = .Source ∧ first.mime ≠ source.mime

variable {blake3 flavors}

/-- Of a class that is met, the survivor alone is retained. -/
theorem retained_filter_class {c : FlavorClass} {x : CanonicalCandidate}
    (h : survivor c (indexed flavors) = some x) :
    (pruneRedundantFlavors blake3 flavors).1.filter (fun kept => flavorClass kept = some c) =
      [x.flavor] := by
  obtain ⟨hmem, hclass⟩ := survivor_mem h
  have hsame : ∀ y ∈ indexed flavors, (decide (flavorClass y.flavor = some c) &&
      stays (indexed flavors) y) = (y == x) := by
    intro y _
    by_cases hy : flavorClass y.flavor = some c
    · rw [stays_of_class hy, h, decide_eq_true hy, Bool.true_and, Bool.beq_comm]
      rfl
    · have hne : y ≠ x := fun heq => hy (heq ▸ hclass)
      simp [hy, hne]
  rw [retained_eq, List.filter_map, List.filter_filter]
  show ((indexed flavors).filter fun y => decide (flavorClass y.flavor = some c) &&
    stays (indexed flavors) y).map _ = _
  rw [List.filter_congr hsame, List.filter_beq,
    List.count_eq_one_of_mem (nodup_indexed flavors) hmem]
  rfl

theorem retained_spilled : (pruneRedundantFlavors blake3 flavors).1.filter
    (fun kept => kept.body.inlineBytes = none) =
      flavors.filter fun flavor => flavor.body.inlineBytes = none := by
  have hsame : ∀ y ∈ indexed flavors, (decide (y.flavor.body.inlineBytes = none) &&
      stays (indexed flavors) y) = decide (y.flavor.body.inlineBytes = none) := by
    intro y _
    by_cases hy : y.flavor.body.inlineBytes = none
    · rw [stays_of_spilled (flavorClass_eq_none.mpr hy), Bool.and_true]
    · rw [decide_eq_false hy, Bool.false_and]
  rw [retained_eq, List.filter_map, List.filter_filter]
  conv_rhs => rw [← map_flavor_indexed flavors, List.filter_map]
  exact congrArg (List.map _) (List.filter_congr hsame)

theorem retained_sublist : (pruneRedundantFlavors blake3 flavors).1.Sublist flavors := by
  have hsub : (((indexed flavors).filter (stays (indexed flavors))).map
      CanonicalCandidate.flavor).Sublist ((indexed flavors).map CanonicalCandidate.flavor) :=
    List.filter_sublist.map _
  rwa [map_flavor_indexed, ← retained_eq] at hsub

theorem mem_indexed {flavor : Flavor} (h : flavor ∈ flavors) :
    ∃ x ∈ indexed flavors, x.flavor = flavor := by
  rw [← map_flavor_indexed flavors] at h
  exact List.mem_map.mp h

/-- A class with a flavor from the source keeps one. -/
theorem survivor_from_source {c : FlavorClass} {x y : CanonicalCandidate}
    {done : List CanonicalCandidate} (h : survivor c done = some x) (hy : y ∈ done)
    (hclass : flavorClass y.flavor = some c) (hsource : y.flavor.origin = .Source) :
    x.flavor.origin = .Source := by
  by_contra hderived
  exact survivor_source h hderived y hy hclass hsource

section Turns

variable {earlier later : List CanonicalCandidate} {x : CanonicalCandidate}

variable (blake3) in
theorem tracks_earlier (hall : indexed flavors = earlier ++ x :: later) :
    Tracks blake3 (indexed flavors) earlier (Pruning.after blake3 flavors.length earlier) := by
  have htracks := tracks_after blake3 (placed_indexed flavors) hall
  rwa [length_indexed] at htracks

variable (blake3) in
theorem tracks_earlier_concat (hall : indexed flavors = earlier ++ x :: later) :
    Tracks blake3 (indexed flavors) (earlier ++ [x])
      (Pruning.after blake3 flavors.length (earlier ++ [x])) := by
  have hsplit : indexed flavors = (earlier ++ [x]) ++ later := by
    rw [hall, List.append_assoc]
    rfl
  have htracks := tracks_after blake3 (placed_indexed flavors) hsplit
  rwa [length_indexed] at htracks

variable (blake3) in
theorem turn_at (hall : indexed flavors = earlier ++ x :: later) :
    Turn earlier (Pruning.after blake3 flavors.length earlier) x
      (Pruning.after blake3 flavors.length (earlier ++ [x])) := by
  rw [after_concat]
  exact turn_visit (tracks_earlier blake3 hall) x

theorem index_eq (hall : indexed flavors = earlier ++ x :: later) : x.index = earlier.length :=
  (placed_indexed flavors).index_eq hall

theorem index_lt (hall : indexed flavors = earlier ++ x :: later) {y : CanonicalCandidate}
    (hy : y ∈ earlier) : y.index < earlier.length :=
  (placed_indexed flavors).index_lt hall hy

variable (blake3) in
/-- A survivor from the source that has been met is retained, under its own name. -/
theorem retained_of_survivor {c : FlavorClass} {done rest : List CanonicalCandidate}
    (hall : indexed flavors = done ++ rest) (h : survivor c done = some x)
    (hsource : x.flavor.origin = .Source) :
    x.flavor ∈ (pruneRedundantFlavors blake3 flavors).1 :=
  survivor_retained (hall ▸ survivor_append_of_source h hsource rest)

/-- What is reported for a flavor that loses to an earlier one that is not from the source: the
earlier one is kept, or the first one from the source, which may have another name. -/
theorem named_or_stale (hall : indexed flavors = earlier ++ x :: later) {c : FlavorClass}
    {prior : CanonicalCandidate} (hx : flavorClass x.flavor = some c)
    (hprior : survivor c earlier = some prior) (hderived : prior.flavor.origin ≠ .Source)
    (hxDerived : x.flavor.origin ≠ .Source) :
    (∃ kept ∈ (pruneRedundantFlavors blake3 flavors).1, prior.flavor.mime = kept.mime ∧
      flavorClass kept = some c) ∨ LeavesStaleName flavors := by
  by_cases hlater : ∃ y ∈ later, flavorClass y.flavor = some c ∧ y.flavor.origin = .Source
  · obtain ⟨between, source, after, rfl, ⟨hclass, hsource⟩, hbetween⟩ := exists_first hlater
    have hderivedAll : ∀ y ∈ x :: between, flavorClass y.flavor = some c →
        y.flavor.origin ≠ .Source := by
      intro y hy hyClass
      rcases List.mem_cons.mp hy with rfl | hmem
      · exact hxDerived
      · exact fun hySource => hbetween y hmem ⟨hyClass, hySource⟩
    have hlast : survivor c ((earlier ++ x :: between) ++ [source]) = some source := by
      rw [survivor_concat, if_pos hclass, survivor_append_of_derived hprior hderivedAll]
      exact if_pos ⟨hderived, hsource⟩
    have hsplit : indexed flavors = ((earlier ++ x :: between) ++ [source]) ++ after := by
      rw [hall]
      simp
    have hkept := retained_of_survivor blake3 hsplit hlast hsource
    by_cases hname : prior.flavor.mime = source.flavor.mime
    · exact .inl ⟨source.flavor, hkept, hname, hclass⟩
    · obtain ⟨before, middle, rfl, hbefore⟩ := survivor_split hprior hderived
      have hmiddle := survivor_source hprior hderived
      refine .inr ⟨before.map (·.flavor), prior.flavor, (middle ++ x :: between).map (·.flavor),
        source.flavor, after.map (·.flavor), c, ?_, ?_, (survivor_mem hprior).2, hderived, ?_, ?_,
        hclass, hsource, hname⟩
      · rw [← map_flavor_indexed flavors, hall]
        simp
      · rintro _ hmem
        obtain ⟨y, hy, rfl⟩ := List.mem_map.mp hmem
        exact hbefore y hy
      · exact ⟨x.flavor, List.mem_map_of_mem (by simp), hx⟩
      · rintro _ hmem hyClass
        obtain ⟨y, hy, rfl⟩ := List.mem_map.mp hmem
        rcases List.mem_append.mp hy with hearlier | hlast
        · exact hmiddle y (by simp [hearlier]) hyClass
        · exact hderivedAll y hlast hyClass
  · push Not at hlater
    have hfinal : survivor c (indexed flavors) = some prior := by
      rw [hall]
      refine survivor_append_of_derived hprior fun y hy hyClass => ?_
      rcases List.mem_cons.mp hy with rfl | hmem
      · exact hxDerived
      · exact hlater y hmem hyClass
    exact .inl ⟨prior.flavor, survivor_retained hfinal, rfl, (survivor_mem hprior).2⟩

/-- Without a stale name every entry names a survivor. -/
theorem namesSurvivor_of_fresh (hfresh : ¬LeavesStaleName flavors)
    (hall : indexed flavors = earlier ++ x :: later) {entry : PrunedFlavor}
    (hentry : (Pruning.after blake3 flavors.length (earlier ++ [x])).pruned =
      (Pruning.after blake3 flavors.length earlier).pruned ++ [entry]) :
    NamesSurvivor blake3 flavors earlier x entry := by
  have hplaced := placed_indexed flavors
  have hxMem : x ∈ indexed flavors := by rw [hall]; simp
  have hflag := fun y hy => (tracks_earlier blake3 hall).flag (y := y) hplaced hy
  have hflag' := fun y hy => (tracks_earlier_concat blake3 hall).flag (y := y) hplaced hy
  have hbytes : ∀ {a b : Flavor} {c : FlavorClass}, flavorClass a = some c → flavorClass b = some c →
      a.body.inlineBytes = b.body.inlineBytes ∧ a.body.inlineBytes ≠ none := by
    intro a b c ha hb
    rw [(flavorClass_eq_some.mp ha).1, (flavorClass_eq_some.mp hb).1]
    exact ⟨rfl, Option.some_ne_none _⟩
  have hturn := turn_at blake3 hall
  generalize hstate' : Pruning.after blake3 flavors.length (earlier ++ [x]) = state' at hturn hentry
  cases hturn with
  | spilled => simp at hentry
  | enter => simp at hentry
  | replace c hx prior hprior hderived hsource canonical =>
    obtain ⟨hpriorMem, hpriorClass⟩ := survivor_mem hprior
    have hpriorAll : prior ∈ indexed flavors := by rw [hall]; simp [hpriorMem]
    have hnew : survivor c (earlier ++ [x]) = some x := by
      rw [survivor_concat, if_pos hx, hprior]
      exact if_pos ⟨hderived, hsource⟩
    obtain rfl : ⟨prior.flavor.mime, x.flavor.mime⟩ = entry := by simpa using hentry
    refine ⟨prior, hpriorAll, ?_, ?_, rfl, x.flavor, ?_, rfl, hbytes hx hpriorClass⟩
    · rw [hflag prior hpriorAll, flagged_of_lt (index_lt hall hpriorMem),
        stays_of_class hpriorClass, hprior, beq_self_eq_true]
    · rw [hflag' prior hpriorAll, flagged_concat_of_replace hplaced hall hx hprior hnew hpriorAll,
        decide_eq_false (not_not.mpr rfl), Bool.false_and]
    · have hsplit : indexed flavors = (earlier ++ [x]) ++ later := by rw [hall]; simp
      exact retained_of_survivor blake3 hsplit hnew hsource
  | drop c hx prior hprior hstays =>
    have hpriorClass := (survivor_mem hprior).2
    have hnew : survivor c (earlier ++ [x]) = some prior := by
      rw [survivor_concat, if_pos hx, hprior]
      exact if_neg hstays
    obtain rfl : ⟨x.flavor.mime, prior.flavor.mime⟩ = entry := by simpa using hentry
    obtain ⟨kept, hkept, hname, hkeptClass⟩ :
        ∃ kept ∈ (pruneRedundantFlavors blake3 flavors).1, prior.flavor.mime = kept.mime ∧
          flavorClass kept = some c := by
      by_cases hderived : prior.flavor.origin = .Source
      · exact ⟨prior.flavor, retained_of_survivor blake3 hall hprior hderived, rfl, hpriorClass⟩
      · exact (named_or_stale hall hx hprior hderived fun hsource =>
          hstays ⟨hderived, hsource⟩).resolve_right hfresh
    refine ⟨x, hxMem, ?_, ?_, rfl, kept, hkept, hname, hbytes hkeptClass hx⟩
    · rw [hflag x hxMem, flagged_of_le (index_eq hall).ge]
    · rw [hflag' x hxMem, flagged_concat_of_drop hplaced hall hx hprior hnew hxMem,
        decide_eq_false (not_not.mpr rfl), Bool.false_and]

variable (blake3) in
/-- A flavor that loses to one that is then replaced is reported under the name of that one. -/
theorem not_namesSurvivor (hall : indexed flavors = earlier ++ x :: later) {c : FlavorClass}
    {prior source : CanonicalCandidate} (hx : flavorClass x.flavor = some c)
    (hxDerived : x.flavor.origin ≠ .Source) (hprior : survivor c earlier = some prior)
    (hfinal : survivor c (indexed flavors) = some source)
    (hname : prior.flavor.mime ≠ source.flavor.mime) :
    ∃ entry, (Pruning.after blake3 flavors.length (earlier ++ [x])).pruned =
        (Pruning.after blake3 flavors.length earlier).pruned ++ [entry] ∧
      ¬NamesSurvivor blake3 flavors earlier x entry := by
  have hplaced := placed_indexed flavors
  have hpriorMime := flavorClass_eq_some.mp (survivor_mem hprior).2
  have hturn := turn_at blake3 hall
  refine ⟨⟨x.flavor.mime, prior.flavor.mime⟩, ?_, ?_⟩
  · generalize Pruning.after blake3 flavors.length (earlier ++ [x]) = state' at hturn
    cases hturn with
    | spilled hclass => rw [hclass] at hx; cases hx
    | enter c' hx' hnone =>
      obtain rfl : c = c' := Option.some.inj (hx.symm.trans hx')
      rw [hprior] at hnone
      cases hnone
    | replace _ _ _ _ _ hsource => exact absurd hsource hxDerived
    | drop c' hx' prior' hprior' =>
      obtain rfl : c = c' := Option.some.inj (hx.symm.trans hx')
      obtain rfl : prior = prior' := Option.some.inj (hprior.symm.trans hprior')
      rfl
  · rintro ⟨dropped, hdropped, hset, hcleared, -, kept, hkept, hkeptName, hkeptBytes, -⟩
    rw [(tracks_earlier blake3 hall).flag hplaced hdropped] at hset
    rw [(tracks_earlier_concat blake3 hall).flag hplaced hdropped] at hcleared
    have hnew : survivor c (earlier ++ [x]) = some prior := by
      rw [survivor_concat, if_pos hx, hprior]
      exact if_neg fun h => hxDerived h.2
    -- the turn clears the flag of `x` alone
    rw [flagged_concat_of_drop hplaced hall hx hprior hnew hdropped, Option.some.inj hset,
      Bool.and_true] at hcleared
    have hself : dropped = x := not_not.mp (of_decide_eq_false (Option.some.inj hcleared))
    rw [hself, (flavorClass_eq_some.mp hx).1] at hkeptBytes
    have hkeptClass : flavorClass kept = some c :=
      flavorClass_eq_some.mpr ⟨hkeptBytes, by rw [← hkeptName]; exact hpriorMime.2⟩
    obtain ⟨last, hlast, rfl⟩ := eq_survivor_of_retained hkept hkeptClass
    obtain rfl : source = last := Option.some.inj (hfinal.symm.trans hlast)
    exact hname hkeptName

end Turns

/-- The parts of a list with a stale name, as the loop enumerates them. -/
theorem exists_stale_turn (h : LeavesStaleName flavors) :
    ∃ earlier x later c prior source, indexed flavors = earlier ++ x :: later ∧
      flavorClass x.flavor = some c ∧ x.flavor.origin ≠ .Source ∧
      survivor c earlier = some prior ∧ survivor c (indexed flavors) = some source ∧
      prior.flavor.mime ≠ source.flavor.mime := by
  obtain ⟨before, first, between, source, after, c, hflavors, hbefore, hfirst, hfirstDerived,
    ⟨middle, hmiddle, hmiddleClass⟩, hbetween, hsource, hsourceOrigin, hname⟩ := h
  have hmap := map_flavor_indexed flavors
  generalize hall : indexed flavors = all at hmap ⊢
  rw [hflavors] at hmap
  obtain ⟨before, tail, rfl, rfl, htail⟩ := List.map_eq_append_iff.mp hmap
  obtain ⟨first, tail, rfl, rfl, hrest⟩ := List.map_eq_cons_iff.mp htail
  obtain ⟨between, tail, rfl, rfl, hlate⟩ := List.map_eq_append_iff.mp hrest
  obtain ⟨source, after, rfl, rfl, rfl⟩ := List.map_eq_cons_iff.mp hlate
  obtain ⟨x, hx, rfl⟩ := List.mem_map.mp hmiddle
  obtain ⟨left, right, rfl⟩ := List.append_of_mem hx
  have hderived : ∀ y ∈ left ++ x :: right, flavorClass y.flavor = some c →
      y.flavor.origin ≠ .Source := fun y hy =>
    hbetween y.flavor (List.mem_map_of_mem hy)
  have hstart : survivor c (before ++ [first]) = some first :=
    survivor_first (fun y hy => hbefore y.flavor (List.mem_map_of_mem hy)) hfirst
  have hearlier : survivor c ((before ++ [first]) ++ left) = some first :=
    survivor_append_of_derived hstart fun y hy => hderived y (List.mem_append_left _ hy)
  have hlast : survivor c (((before ++ [first]) ++ (left ++ x :: right)) ++ [source]) =
      some source := by
    rw [survivor_concat, if_pos hsource, survivor_append_of_derived hstart hderived]
    exact if_pos ⟨hfirstDerived, hsourceOrigin⟩
  refine ⟨(before ++ [first]) ++ left, x, right ++ source :: after, c, first, source, by simp,
    hmiddleClass, hderived x (by simp) hmiddleClass, hearlier, ?_, hname⟩
  have hfinal := survivor_append_of_source hlast hsourceOrigin after
  simpa using hfinal

theorem not_prunesWell (hstale : LeavesStaleName flavors) : ¬PrunesWell blake3 flavors := by
  intro h
  obtain ⟨earlier, x, later, c, prior, source, hall, hx, hxDerived, hprior, hfinal, hname⟩ :=
    exists_stale_turn hstale
  obtain ⟨entry, hentry, hnot⟩ :=
    not_namesSurvivor blake3 hall hx hxDerived hprior hfinal hname
  exact hnot (h.named earlier x later hall entry hentry)

end Report

/-- Pruning does all it is meant to exactly when it leaves no stale name in its report. -/
theorem prunesWell_iff (blake3 : Bytes → ContentHash) (flavors : List Flavor) :
    PrunesWell blake3 flavors ↔ ¬LeavesStaleName flavors := by
  constructor
  · exact fun h hstale => not_prunesWell hstale h
  · intro hfresh
    refine
      { once := fun flavor hmem c hclass => ?_
        prefersSource := fun flavor hmem c hclass hsource kept hkept hkeptClass => ?_
        spilled := retained_spilled
        ordered := retained_sublist
        named := fun earlier x later hall entry => namesSurvivor_of_fresh hfresh hall }
    · obtain ⟨y, hy, rfl⟩ := mem_indexed hmem
      obtain ⟨x, hx⟩ := exists_survivor hy hclass
      rw [retained_filter_class hx, List.length_singleton]
    · obtain ⟨y, hy, rfl⟩ := mem_indexed hmem
      obtain ⟨x, hx, rfl⟩ := eq_survivor_of_retained hkept hkeptClass
      exact survivor_from_source hx hy hclass hsource

/-- Two derived flavors before the one from the source: the second one is reported to be derivable
from the first one, which is gone. -/
theorem pruning_leaves_stale_name :
    ¬∃ blake3, PrunesWell blake3 [.derived "Text/Plain" [104], .derived "text/plain" [104],
      .inline "TEXT/PLAIN" [104]] := by
  rintro ⟨blake3, h⟩
  refine not_prunesWell ⟨[], _, [_], _, [], ("text/plain".toList, [104]), rfl, ?_⟩ h
  decide +kernel

end Vbuff.Core
