import Vbuff.Core.PasteGuard
import Vbuff.Lib.Framing
import Vbuff.Lib.StableSort

/-!
# What the paste guard judges

A paste is to be allowed exactly if the clipboard holds the flavors that were written, whatever
their order: the same multiset of guard MIME and content (`SameSet`).  The digest reads the
flavors in an order of its own, by guard MIME and full MIME, and so it depends on the order of
arrival of flavors that tie (`preimage_eq_iff`); and the structural identity is that of the text
that came first.  `allows_iff_sameSet_iff` says for which two lists that makes no difference.
-/

namespace Vbuff.Core

open ByteString Framing StableSort Text Vbuff.Types

namespace PasteGuardFingerprint

/-- What the guard knows a flavor by. -/
def guardPair (flavor : Flavor) : String × Bytes := (guardMime flavor, guardBytes flavor)

/-- The two lists hold the same flavors, each as often, in any order. -/
def SameSet (expected observed : List Flavor) : Prop :=
  (expected.map guardPair).Perm (observed.map guardPair)

/-- The contents under one guard MIME, by full MIME and then by arrival. -/
def contentsOf (mime : String) (flavors : List Flavor) : List Bytes :=
  (sortByKey Flavor.mime (flavors.filter (guardMime · = mime))).map guardBytes

/-- The text that came first, if it can be read, as it is classified. -/
def firstText (flavors : List Flavor) : Option Chars :=
  ((flavors.find? Flavor.isText).bind Flavor.asText).map fun text =>
    trim (replaceCrLf text.toList)

/-- Both are addresses, or both are URLs, or both are neither. -/
def ClassifiedAlike (prim : GuardPrimitives) (text text' : Chars) : Prop :=
  (looksLikeCryptoAddress text = true ∧ looksLikeCryptoAddress text' = true) ∨
    (looksLikeCryptoAddress text = false ∧ looksLikeCryptoAddress text' = false ∧
      (prim.parseUrl text).isSome = (prim.parseUrl text').isSome)

/-- The texts that came first are classified alike, or neither list has one. -/
def FirstAlike (prim : GuardPrimitives) (expected observed : List Flavor) : Prop :=
  Option.Rel (ClassifiedAlike prim) (firstText expected) (firstText observed)

/-- Lengths are hashed in eight bytes; a slice holds fewer bytes than that. -/
structure Sized (flavors : List Flavor) : Prop where
  count : flavors.length < 256 ^ 8
  mimes : ∀ flavor ∈ flavors, (asBytes (guardMime flavor)).length < 256 ^ 8
  contents : ∀ flavor ∈ flavors, (guardBytes flavor).length < 256 ^ 8

/-! ## The order of hashing -/

theorem insertionSort_hashedBefore (flavors : List Flavor) :
    flavors.insertionSort hashedBefore = sortByKey (lexKey guardMime Flavor.mime) flavors := by
  have hsame : hashedBefore = fun left right =>
      lexKey guardMime Flavor.mime left ≤ lexKey guardMime Flavor.mime right := by
    funext left right
    exact propext lexKey_le_iff.symm
  unfold sortByKey
  congr!

/-- The pairs in the order of hashing. -/
def hashedPairs (flavors : List Flavor) : List (String × Bytes) :=
  (flavors.insertionSort hashedBefore).map guardPair

theorem perm_hashedPairs (flavors : List Flavor) :
    (hashedPairs flavors).Perm (flavors.map guardPair) :=
  (List.perm_insertionSort _ flavors).map guardPair

/-- The same pairs are hashed in the same order exactly if under every guard MIME the contents
are. -/
theorem hashedPairs_eq_iff {expected observed : List Flavor} :
    hashedPairs expected = hashedPairs observed ↔
      ∀ mime, contentsOf mime expected = contentsOf mime observed := by
  unfold hashedPairs
  rw [insertionSort_hashedBefore, insertionSort_hashedBefore]
  exact map_sortByKey_lex_eq_iff (fun _ _ => decide_eq_true_iff) guardBytes

/-! ## The digest -/

/-- What is hashed for a pair. -/
def encodePair (pair : String × Bytes) : Bytes :=
  (leBytes 8 (asBytes pair.1).length ++ asBytes pair.1) ++ (leBytes 8 pair.2.length ++ pair.2)

theorem guardPreimage_eq (flavors : List Flavor) :
    guardPreimage flavors =
      leBytes 8 flavors.length ++ (hashedPairs flavors).flatMap encodePair := by
  unfold guardPreimage hashedPairs
  rw [List.flatMap_map]
  refine congrArg (_ ++ ·) (List.flatMap_congr fun flavor _ => ?_)
  unfold guardEntry encodePair guardPair
  dsimp only
  rw [List.append_assoc, List.append_assoc]

/-- Pairs whose lengths fit into eight bytes. -/
def SizedPair (pair : String × Bytes) : Prop :=
  (asBytes pair.1).length < 256 ^ 8 ∧ pair.2.length < 256 ^ 8

theorem delimits_encodePair : Delimits {pair | SizedPair pair} encodePair id := by
  have hbytes := delimits_lengthPrefixed (delimits_leBytes 8)
  have hmime : Delimits {pair : String × Bytes | SizedPair pair}
      (fun pair => leBytes 8 (asBytes pair.1).length ++ asBytes pair.1)
      (fun pair => asBytes pair.1) :=
    hbytes.comap (fun pair : String × Bytes => asBytes pair.1) fun _ h => h.1
  have hcontent : Delimits {pair : String × Bytes | SizedPair pair}
      (fun pair => leBytes 8 pair.2.length ++ pair.2) (fun pair => pair.2) :=
    hbytes.comap (fun pair : String × Bytes => pair.2) fun _ h => h.2
  refine (hmime.append hcontent).map ?_
  intro a _ b _ hab
  obtain ⟨hm, hc⟩ := Prod.ext_iff.mp hab
  exact Prod.ext (asBytes_injective hm) hc

/-- The digest reads the pairs in their order. -/
theorem guardPreimage_eq_iff {expected observed : List Flavor} (hexpected : Sized expected)
    (hobserved : Sized observed) :
    guardPreimage expected = guardPreimage observed ↔
      hashedPairs expected = hashedPairs observed := by
  have hsized : ∀ {flavors : List Flavor}, Sized flavors →
      ∀ pair ∈ hashedPairs flavors, SizedPair pair := by
    intro flavors h pair hpair
    obtain ⟨flavor, hflavor, rfl⟩ :=
      List.mem_map.mp ((perm_hashedPairs flavors).mem_iff.mp hpair)
    simp only [SizedPair, guardPair]
    exact ⟨h.mimes flavor hflavor, h.contents flavor hflavor⟩
  rw [guardPreimage_eq, guardPreimage_eq]
  constructor
  · intro h
    obtain ⟨-, hentries⟩ := delimits_leBytes 8 hexpected.count hobserved.count h
    refine delimits_encodePair.flatMap_inj ?_ (hsized hexpected) (hsized hobserved) hentries
    intro pair _ hempty
    have hlength := congrArg List.length hempty
    unfold encodePair at hlength
    simp [length_leBytes] at hlength
  · intro h
    have hcount : expected.length = observed.length := by
      have hlengths := congrArg List.length h
      rwa [(perm_hashedPairs expected).length_eq, (perm_hashedPairs observed).length_eq,
        List.length_map, List.length_map] at hlengths
    rw [h, hcount]

/-! ## The decision -/

variable {prim : GuardPrimitives} {expected observed : List Flavor}
  {self other : PasteGuardFingerprint}

/-- The identity of a text. -/
def identityOf (prim : GuardPrimitives) (text : Chars) : StructuralIdentity :=
  if looksLikeCryptoAddress text then .CryptoAddress
  else if (prim.parseUrl text).isSome then .Url
  else .Text

/-- What a fingerprint consists of. -/
theorem of_fromFlavors {flavors : List Flavor} (h : fromFlavors prim flavors = some self) :
    self.digest = prim.blake3 (guardPreimage flavors) ∧
      self.identity = ((firstText flavors).map (identityOf prim)).getD .Image := by
  unfold fromFlavors at h
  split at h
  case isTrue => cases h
  case isFalse =>
    dsimp only at h
    unfold firstText
    split at h
    case h_1 text htext =>
      obtain rfl := Option.some.inj h
      refine ⟨rfl, ?_⟩
      rw [htext]
      simp only [Option.map_some, Option.getD_some, identityOf]
    case h_2 hnone =>
      split at h
      case isTrue =>
        obtain rfl := Option.some.inj h
        rw [hnone]
        exact ⟨rfl, rfl⟩
      case isFalse => cases h

theorem identityOf_ne_image (text : Chars) : identityOf prim text ≠ .Image := by
  unfold identityOf
  split
  · exact StructuralIdentity.noConfusion
  · split <;> exact StructuralIdentity.noConfusion

theorem identityOf_eq_iff {text text' : Chars} :
    identityOf prim text = identityOf prim text' ↔ ClassifiedAlike prim text text' := by
  unfold identityOf ClassifiedAlike
  cases looksLikeCryptoAddress text <;> cases looksLikeCryptoAddress text' <;>
    cases (prim.parseUrl text).isSome <;> cases (prim.parseUrl text').isSome <;> simp

theorem identity_eq_iff (hself : fromFlavors prim expected = some self)
    (hother : fromFlavors prim observed = some other) :
    self.identity = other.identity ↔ FirstAlike prim expected observed := by
  rw [(of_fromFlavors hself).2, (of_fromFlavors hother).2]
  unfold FirstAlike
  cases firstText expected with
  | none =>
    cases firstText observed with
    | none => exact iff_of_true rfl .none
    | some text' => exact iff_of_false (identityOf_ne_image text').symm (fun h => nomatch h)
  | some text =>
    cases firstText observed with
    | none => exact iff_of_false (identityOf_ne_image text) (fun h => nomatch h)
    | some text' =>
      refine identityOf_eq_iff.trans ⟨.some, fun h => ?_⟩
      cases h with
      | some halike => exact halike

/-- What the guard really judges by: the contents in the order of hashing, and the texts that
came first. -/
theorem compare_eq_allow_iff (hexpected : Sized expected) (hobserved : Sized observed)
    (hhash : Set.InjOn prim.blake3 {guardPreimage expected, guardPreimage observed})
    (hself : fromFlavors prim expected = some self)
    (hother : fromFlavors prim observed = some other) :
    self.compare (some other) = .Allow ↔
      (∀ mime, contentsOf mime expected = contentsOf mime observed) ∧
        FirstAlike prim expected observed := by
  have hdigest : self.digest = other.digest ↔ guardPreimage expected = guardPreimage observed := by
    rw [(of_fromFlavors hself).1, (of_fromFlavors hother).1]
    exact hhash.eq_iff (Set.mem_insert _ _) (Set.mem_insert_of_mem _ rfl)
  rw [compare_eq_allow]
  unfold Agrees
  simp only [Option.some.injEq, exists_eq_left']
  rw [hdigest, guardPreimage_eq_iff hexpected hobserved, hashedPairs_eq_iff,
    identity_eq_iff hself hother]

/-- What is allowed holds the same flavors. -/
theorem sameSet_of_contentsOf
    (h : ∀ mime, contentsOf mime expected = contentsOf mime observed) :
    SameSet expected observed := by
  have hpairs := hashedPairs_eq_iff.mpr h
  exact ((perm_hashedPairs expected).symm.trans (hpairs ▸ .refl _)).trans
    (perm_hashedPairs observed)

/-- The guard judges the set exactly where the order of arrival does not show: lists with the
same flavors have the same contents under every guard MIME, by full MIME and then by arrival, and
their first texts are classified alike. -/
theorem allows_iff_sameSet_iff (hexpected : Sized expected) (hobserved : Sized observed)
    (hhash : Set.InjOn prim.blake3 {guardPreimage expected, guardPreimage observed})
    (hself : fromFlavors prim expected = some self)
    (hother : fromFlavors prim observed = some other) :
    (self.compare (some other) = .Allow ↔ SameSet expected observed) ↔
      (SameSet expected observed →
        (∀ mime, contentsOf mime expected = contentsOf mime observed) ∧
          FirstAlike prim expected observed) := by
  rw [compare_eq_allow_iff hexpected hobserved hhash hself hother]
  constructor
  · exact fun h => h.mpr
  · exact fun h => ⟨fun hallow => sameSet_of_contentsOf hallow.1, h⟩

/-- Primitives that hash to the last bytes, and know no URL. -/
def plainPrimitives : GuardPrimitives :=
  { blake3 := fun bytes => Vector.ofFn fun i => bytes.getD (bytes.length - 1 - i.val) 0
    parseUrl := fun _ => none }

/-- Two texts of one MIME. -/
def twoTexts : List Flavor := [.inline "text" [97], .inline "text" [98]]

theorem sized_of_small {flavors : List Flavor} (hcount : flavors.length < 256)
    (hmimes : ∀ flavor ∈ flavors, (asBytes (guardMime flavor)).length < 256)
    (hcontents : ∀ flavor ∈ flavors, (guardBytes flavor).length < 256) : Sized flavors := by
  have hpow : 256 ≤ 256 ^ 8 := Nat.le_self_pow (by decide) 256
  exact ⟨hcount.trans_le hpow, fun flavor hflavor => (hmimes flavor hflavor).trans_le hpow,
    fun flavor hflavor => (hcontents flavor hflavor).trans_le hpow⟩

theorem allows_iff_sameSet_iff_twoTexts :
    ∃ self other, fromFlavors plainPrimitives twoTexts = some self ∧
      fromFlavors plainPrimitives [.inline "text" [97]] = some other ∧
        (self.compare (some other) = .Allow ↔ SameSet twoTexts [.inline "text" [97]]) := by
  refine ⟨_, _, rfl, rfl,
    (@allows_iff_sameSet_iff plainPrimitives _ _ _ _ ?_ ?_ ?_ rfl rfl).mpr ?_⟩
  · exact sized_of_small (by decide) (by decide +kernel) (by decide +kernel)
  · exact sized_of_small (by decide) (by decide +kernel) (by decide +kernel)
  · refine Set.injOn_pair.mpr fun hsame => ?_
    exact absurd hsame (by decide +kernel)
  · intro hsame
    exact absurd hsame.length_eq (by decide)

/-- The same two texts in the other order are refused. -/
theorem reordered_is_blocked :
    ∃ self other, fromFlavors plainPrimitives twoTexts = some self ∧
      fromFlavors plainPrimitives twoTexts.reverse = some other ∧
        Set.InjOn plainPrimitives.blake3
          {guardPreimage twoTexts, guardPreimage twoTexts.reverse} ∧
          twoTexts.reverse.Perm twoTexts ∧
            self.compare (some other) = .BlockContentChanged := by
  refine ⟨_, _, rfl, rfl, Set.injOn_pair.mpr fun hsame => ?_, List.reverse_perm _,
    by decide +kernel⟩
  exact absurd hsame (by decide +kernel)

end PasteGuardFingerprint

end Vbuff.Core
