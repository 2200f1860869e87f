import Vbuff.Lib.LastWriter
import Vbuff.Lib.ObservedRemove
import Vbuff.Lib.TreeMap
import Vbuff.Sync.Clock

/-!
# Add-wins observed-remove sets and field-level last-writer-wins registers

A clip is replicated as an `ItemReplica`: its presence and its tags are
observed-remove sets, its other fields are registers over hybrid clocks.

* `OrSet` is an instance of the observed-remove interface
  (`OrSet.implementation`), so over any run of adds, removes and merges it shows
  exactly the additions that no removal it has heard of had observed.
* `LwwRegister.merge` is a last-writer-wins offer whose receiver clamps the
  incoming clock, and only that one (`LwwRegister.toReg_merge`).  Two replicas
  therefore disagree exactly where the clamp, not the clocks, decides.
-/

namespace Vbuff.Sync

open Std (ExtTreeMap ExtTreeSet)

universe u v

/-- The name of one addition. -/
structure Dot where
  deviceId : String
  counter : UInt64

namespace Dot

/-- The fields as a lexicographic pair, the order Rust derives. -/
def key (dot : Dot) : String ×ₗ UInt64 := toLex (dot.deviceId, dot.counter)

theorem key_injective : Function.Injective key := by
  rintro ⟨d, c⟩ ⟨d', c'⟩ h
  simpa [key] using h

instance : LinearOrder Dot := LinearOrder.lift' key key_injective

end Dot

/-- A set of dots. -/
abbrev Dots := ExtTreeSet Dot

/-! ## The observed-remove set -/

structure OrSet (T : Type u) [LinearOrder T] where
  additions : ExtTreeMap T Dots
  removals : Dots

namespace OrSet

variable {T : Type u} [LinearOrder T]

/-- The empty set. -/
def default : OrSet T := { additions := ∅, removals := ∅ }

def add (self : OrSet T) (value : T) (dot : Dot) : OrSet T :=
  { self with
    additions := self.additions.alter value fun dots => some ((dots.getD ∅).insert dot) }

/-- Removes only the dots observed locally; a concurrent unseen add wins. -/
def remove (self : OrSet T) (value : T) : OrSet T :=
  match self.additions[value]? with
  | some dots => { self with removals := self.removals ∪ dots }
  | none => self

def contains (self : OrSet T) (value : T) : Bool :=
  match self.additions[value]? with
  | some dots => dots.toList.any fun dot => !self.removals.contains dot
  | none => false

def values (self : OrSet T) : List T := self.additions.keys.filter self.contains

/-- One entry of the other side's additions, merged into ours. -/
def mergeEntry (additions : ExtTreeMap T Dots) (value : T) (dots : Dots) :
    ExtTreeMap T Dots :=
  additions.alter value fun mine => some (mine.getD ∅ ∪ dots)

def merge (self other : OrSet T) : OrSet T where
  additions := other.additions.foldl mergeEntry self.additions
  removals := self.removals ∪ other.removals

/-! ### What the operations store -/

/-- The dots stored for a value. -/
def dots (self : OrSet T) (value : T) : Dots := self.additions[value]?.getD ∅

/-- A value is contained when one of its dots is not tombstoned. -/
theorem contains_iff {self : OrSet T} {value : T} :
    self.contains value = true ↔ ∃ dot ∈ self.dots value, dot ∉ self.removals := by
  rw [contains, dots]
  cases self.additions[value]? with
  | none => simp
  | some dots => simp [← ExtTreeSet.contains_iff_mem]

theorem mem_values_iff {self : OrSet T} {value : T} :
    value ∈ self.values ↔ self.contains value = true := by
  rw [values, List.mem_filter, and_iff_right_iff_imp, ExtTreeMap.mem_keys]
  intro hcontains
  rw [contains] at hcontains
  rw [ExtTreeMap.mem_iff_isSome_getElem?]
  cases hget : self.additions[value]? with
  | none =>
      rw [hget] at hcontains
      exact absurd hcontains Bool.false_ne_true
  | some dots => rfl

theorem mem_dots_add {self : OrSet T} {value value' : T} {dot dot' : Dot} :
    dot' ∈ (self.add value dot).dots value' ↔
      dot' ∈ self.dots value' ∨ value' = value ∧ dot' = dot := by
  rw [add, dots, dots, ExtTreeMap.getElem?_alter]
  by_cases hvalue : value = value'
  · subst hvalue
    rw [if_pos (compare_eq_iff_eq.mpr rfl), Option.getD_some, ExtTreeSet.mem_insert,
      compare_eq_iff_eq]
    simp only [true_and, or_comm, eq_comm]
  · rw [if_neg (mt compare_eq_iff_eq.mp hvalue)]
    simp only [show value' ≠ value from fun h => hvalue h.symm, false_and, or_false]

@[simp] theorem dots_remove (self : OrSet T) (value value' : T) :
    (self.remove value).dots value' = self.dots value' := by
  rw [remove]
  cases self.additions[value]? <;> rfl

/-- A removal tombstones exactly the dots stored for its value. -/
theorem mem_removals_remove {self : OrSet T} {value : T} {dot : Dot} :
    dot ∈ (self.remove value).removals ↔ dot ∈ self.removals ∨ dot ∈ self.dots value := by
  rw [remove, dots]
  cases self.additions[value]? with
  | none => simp
  | some dots => simp

/-- Two stores of dots for one value, merged. -/
def mergeDots : Option Dots → Option Dots → Option Dots
  | mine, none => mine
  | mine, some dots => some (mine.getD ∅ ∪ dots)

/-- Entries under other keys do not touch a value. -/
theorem getElem?_foldl_of_absent {value : T} :
    ∀ {entries : List (T × Dots)} {mine : ExtTreeMap T Dots},
      (∀ entry ∈ entries, entry.1 ≠ value) →
      (entries.foldl (fun m e => mergeEntry m e.1 e.2) mine)[value]? = mine[value]?
  | [], _, _ => rfl
  | entry :: entries, mine, habsent => by
      obtain ⟨hentry, hrest⟩ := List.forall_mem_cons.mp habsent
      rw [List.foldl_cons, getElem?_foldl_of_absent hrest, mergeEntry,
        ExtTreeMap.getElem?_alter, if_neg (mt compare_eq_iff_eq.mp hentry)]

/-- With distinct keys, the one entry under a value is what reaches it. -/
theorem getElem?_foldl_of_mem {value : T} {dots : Dots} :
    ∀ {entries : List (T × Dots)} {mine : ExtTreeMap T Dots},
      entries.Pairwise (fun a b => ¬ compare a.1 b.1 = .eq) → (value, dots) ∈ entries →
      (entries.foldl (fun m e => mergeEntry m e.1 e.2) mine)[value]? =
        some (mine[value]?.getD ∅ ∪ dots)
  | entry :: entries, mine, hdistinct, hmem => by
      obtain ⟨hhead, hrest⟩ := List.pairwise_cons.mp hdistinct
      rw [List.foldl_cons]
      rcases List.mem_cons.mp hmem with rfl | hmem
      · have habsent : ∀ e ∈ entries, e.1 ≠ value := by
          intro e he heq
          exact hhead e he (compare_eq_iff_eq.mpr heq.symm)
        rw [getElem?_foldl_of_absent habsent, mergeEntry, ExtTreeMap.getElem?_alter,
          if_pos (compare_eq_iff_eq.mpr rfl)]
      · have hne : ¬ compare entry.1 value = .eq := hhead _ hmem
        rw [getElem?_foldl_of_mem hrest hmem, mergeEntry, ExtTreeMap.getElem?_alter,
          if_neg hne]

/-- A merge works value by value. -/
theorem getElem?_merge (self other : OrSet T) (value : T) :
    (self.merge other).additions[value]? =
      mergeDots self.additions[value]? other.additions[value]? := by
  rw [merge, ExtTreeMap.foldl_eq_foldl_toList]
  cases hother : other.additions[value]? with
  | none =>
      refine getElem?_foldl_of_absent fun entry hentry heq => ?_
      rw [show entry = (value, entry.2) from Prod.ext heq rfl,
        ExtTreeMap.mem_toList_iff_getElem?_eq_some, hother] at hentry
      exact absurd hentry (by simp)
  | some dots =>
      exact getElem?_foldl_of_mem ExtTreeMap.distinct_keys_toList
        (ExtTreeMap.mem_toList_iff_getElem?_eq_some.mpr hother)

theorem mem_dots_merge {self other : OrSet T} {value : T} {dot : Dot} :
    dot ∈ (self.merge other).dots value ↔ dot ∈ self.dots value ∨ dot ∈ other.dots value := by
  rw [dots, dots, dots, getElem?_merge]
  cases other.additions[value]? with
  | none => simp [mergeDots]
  | some theirs => simp [mergeDots]

theorem mem_removals_merge {self other : OrSet T} {dot : Dot} :
    dot ∈ (self.merge other).removals ↔ dot ∈ self.removals ∨ dot ∈ other.removals :=
  ExtTreeSet.mem_union_iff

/-! ### Merging is a join -/

theorem ext_iff {self other : OrSet T} :
    self = other ↔ (∀ value : T, self.additions[value]? = other.additions[value]?) ∧
      self.removals = other.removals := by
  constructor
  · rintro rfl
    exact ⟨fun _ => rfl, rfl⟩
  · obtain ⟨additions, removals⟩ := self
    obtain ⟨additions', removals'⟩ := other
    rintro ⟨hadd, rfl⟩
    rw [show additions = additions' from ExtTreeMap.ext_getElem? hadd]

theorem mergeDots_comm (a b : Option Dots) : mergeDots a b = mergeDots b a := by
  cases a <;> cases b <;> simp [mergeDots, TreeSet.union_comm]

theorem mergeDots_assoc (a b c : Option Dots) :
    mergeDots (mergeDots a b) c = mergeDots a (mergeDots b c) := by
  cases a <;> cases b <;> cases c <;> simp [mergeDots, TreeSet.union_assoc]

theorem mergeDots_self (a : Option Dots) : mergeDots a a = a := by
  cases a <;> simp [mergeDots]

theorem merge_comm (s t : OrSet T) : s.merge t = t.merge s := by
  refine ext_iff.mpr ⟨fun value => ?_, TreeSet.union_comm _ _⟩
  rw [getElem?_merge, getElem?_merge, mergeDots_comm]

theorem merge_assoc (s t r : OrSet T) : (s.merge t).merge r = s.merge (t.merge r) := by
  refine ext_iff.mpr ⟨fun value => ?_, TreeSet.union_assoc _ _ _⟩
  simp only [getElem?_merge, mergeDots_assoc]

theorem merge_self (s : OrSet T) : s.merge s = s := by
  refine ext_iff.mpr ⟨fun value => ?_, TreeSet.union_self _⟩
  rw [getElem?_merge, mergeDots_self]

/-! ### Runs of replicas -/

open ObservedRemove

/-- The set as an observed-remove implementation. -/
def implementation (T : Type u) [LinearOrder T] : Implementation T Dot (OrSet T) where
  empty := default
  add := add
  remove := remove
  merge := merge
  dots self value := {dot | dot ∈ self.dots value}
  tombstones self := {dot | dot ∈ self.removals}
  dots_empty value := Set.eq_empty_of_forall_notMem fun dot hdot => by
    simp [dots, default] at hdot
  tombstones_empty := Set.eq_empty_of_forall_notMem fun dot hdot => by
    simp [default] at hdot
  mem_dots_add _ _ _ _ _ := mem_dots_add
  tombstones_add _ _ _ := rfl
  dots_remove self value value' := by rw [dots_remove]
  tombstones_remove _ _ := Set.ext fun _ => mem_removals_remove
  dots_merge _ _ _ := Set.ext fun _ => mem_dots_merge
  tombstones_merge _ _ := Set.ext fun _ => mem_removals_merge

/-- **The replicated set.**  Merging is commutative, associative and idempotent.
Over any run of adds under fresh dots, removals, merges and late or repeated
snapshots, a replica contains a value exactly when it has heard of an addition of
it that no removal it has heard of had observed; an addition that the removals
have not observed therefore survives every merge order. -/
theorem orSet_observedRemove {T : Type u} [LinearOrder T] {ι : Type v} [DecidableEq ι] :
    (∀ s t : OrSet T, s.merge t = t.merge s) ∧
    (∀ s t r : OrSet T, (s.merge t).merge r = s.merge (t.merge r)) ∧
    (∀ s : OrSet T, s.merge s = s) ∧
    ∀ w : World ι T Dot (OrSet T), w.Reachable (implementation T) → ∀ (i : ι) (value : T),
      ((w.node i).state.contains value = true ↔ Visible (w.node i).history value) ∧
      (value ∈ (w.node i).state.values ↔ Visible (w.node i).history value) ∧
      ∀ dot, .add value dot ∈ (w.node i).history →
        (∀ observed, .remove value observed ∈ (w.node i).history → dot ∉ observed) →
        (w.node i).state.contains value = true := by
  refine ⟨merge_comm, merge_assoc, merge_self, fun w hw i value => ?_⟩
  have hcontains : (w.node i).state.contains value = true ↔
      Visible (w.node i).history value := by
    rw [contains_iff]
    exact hw.present_iff i value
  exact ⟨hcontains, mem_values_iff.trans hcontains,
    fun dot hadd hunseen => hcontains.mpr ⟨dot, hadd, hunseen⟩⟩

/-- Two replicas: one adds a tag and the other merges it; then one removes the
tag while the other adds it again, and they merge. -/
theorem orSet_observedRemove_concurrent :
    ∃ w : World Bool String Dot (OrSet String), w.Reachable (implementation String) ∧
      (w.node false).state.contains "tag" = true ∧
      ((w.node false).state.contains "tag" = true ↔
        Visible (w.node false).history "tag") := by
  let I := implementation String
  let w₀ : World Bool String Dot (OrSet String) := World.initial I
  have h₀ : w₀.Reachable I := .refl
  have h₁ := h₀.tail (.add w₀ false "tag" ⟨"a", 1⟩ (Set.notMem_empty _))
  have h₂ := h₁.tail (.merge _ true false)
  have h₃ := h₂.tail (.remove _ false "tag")
  have h₄ := h₃.tail (.add _ true "tag" ⟨"b", 1⟩ (by
    rintro (h | h)
    · exact absurd h (by decide)
    · exact h))
  have h₅ := h₄.tail (.merge _ false true)
  exact ⟨_, h₅, by decide, (orSet_observedRemove.2.2.2 _ h₅ false "tag").1⟩

end OrSet

/-! ## Last-writer-wins registers -/

structure LwwRegister (T : Type u) where
  value : T
  clock : HybridLogicalClock
  deriving DecidableEq

namespace LwwRegister

open MachineInt LastWriter HybridLogicalClock

variable {T : Type u}

def assign (self : LwwRegister T) (value : T) (clock : HybridLogicalClock) (nowMs : UInt64) :
    LwwRegister T :=
  let clock := clock.boundedAt nowMs
  if clock > self.clock then { value, clock } else self

def merge (self other : LwwRegister T) (nowMs : UInt64) : LwwRegister T :=
  self.assign other.value other.clock nowMs

/-- Merge a batch of registers, in the order given. -/
def mergeAll (self : LwwRegister T) (others : List (LwwRegister T)) (nowMs : UInt64) :
    LwwRegister T :=
  others.foldl (fun register other => register.merge other nowMs) self

/-- The register of the general theory. -/
def toReg (self : LwwRegister T) : Reg HybridLogicalClock T :=
  { value := self.value, clock := self.clock }

/-- **A merge is a last-writer-wins offer** whose receiver clamps the incoming
clock. -/
theorem toReg_merge (self other : LwwRegister T) (nowMs : UInt64) :
    (self.merge other nowMs).toReg = offer (·.boundedAt nowMs) self.toReg other.toReg := by
  rw [merge, assign]
  split
  case isTrue hlt =>
    exact (offer_of_lt (k := (·.boundedAt nowMs)) (r := self.toReg) (w := other.toReg) hlt).symm
  case isFalse hle =>
    exact (offer_of_le (k := (·.boundedAt nowMs)) (r := self.toReg) (w := other.toReg)
      (not_lt.mp hle)).symm

/-- A batch of merges is a batch of offers, also when the registers are read off
the items that carry them. -/
theorem toReg_mergeAll_map {α : Type v} (self : LwwRegister T) (reg : α → LwwRegister T)
    (items : List α) (nowMs : UInt64) :
    (self.mergeAll (items.map reg) nowMs).toReg =
      offerAll (·.boundedAt nowMs) (fun item => (reg item).toReg) self.toReg items := by
  induction items generalizing self with
  | nil => rfl
  | cons item items ih =>
      rw [List.map_cons, mergeAll, List.foldl_cons, offerAll, List.foldl_cons, ← toReg_merge]
      exact ih (self.merge (reg item) nowMs)

/-- The values are equal already, or one side's own clock is below what the clamp
leaves of the other's. -/
def Resolves (nowMs : UInt64) (a b : LwwRegister T) : Prop :=
  a.value = b.value ∨ a.clock < b.clock.boundedAt nowMs ∨ b.clock < a.clock.boundedAt nowMs

/-- The writes whose clamped clock is the greatest of the batch, and above the
register's own, carry one value. -/
def WinnersAgree (nowMs : UInt64) (base : LwwRegister T) (others : List (LwwRegister T)) : Prop :=
  ∀ w₁ ∈ others, ∀ w₂ ∈ others,
    base.clock < w₁.clock.boundedAt nowMs → base.clock < w₂.clock.boundedAt nowMs →
    (∀ w ∈ others, w.clock.boundedAt nowMs ≤ w₁.clock.boundedAt nowMs) →
    (∀ w ∈ others, w.clock.boundedAt nowMs ≤ w₂.clock.boundedAt nowMs) →
    w₁.value = w₂.value

theorem merge_agree_iff (nowMs : UInt64) (a b : LwwRegister T) :
    (a.merge b nowMs).value = (b.merge a nowMs).value ↔ a.Resolves nowMs b := by
  have hagree := offer_agree_iff (fun c => boundedAt_le c nowMs) a.toReg b.toReg
  rw [← toReg_merge, ← toReg_merge] at hagree
  exact hagree

/-- The orders of a batch of items, seen by one of their registers. -/
theorem mergeAll_map_agree_iff {α : Type v} (nowMs : UInt64) (base : LwwRegister T)
    (reg : α → LwwRegister T) (items : List α) :
    (∀ ws₁ ws₂ : List α, ws₁.Perm items → ws₂.Perm items →
        (base.mergeAll (ws₁.map reg) nowMs).value = (base.mergeAll (ws₂.map reg) nowMs).value) ↔
      WinnersAgree nowMs base (items.map reg) := by
  have hagree := offerAll_agree_iff (·.boundedAt nowMs) (fun item => (reg item).toReg)
    base.toReg items
  simp only [← toReg_mergeAll_map] at hagree
  refine hagree.trans ?_
  simp only [WinnersAgree, LastWriter.Top, List.forall_mem_map]
  refine ⟨fun h w₁ hmem₁ w₂ hmem₂ hlt₁ hlt₂ hmax₁ hmax₂ => ?_, fun h w₁ w₂ htop₁ htop₂ => ?_⟩
  · exact h w₁ w₂ ⟨hmem₁, hlt₁, hmax₁⟩ ⟨hmem₂, hlt₂, hmax₂⟩
  · exact h w₁ htop₁.1 w₂ htop₂.1 htop₁.2.1 htop₂.2.1 htop₁.2.2 htop₂.2.2

theorem mergeAll_agree_iff (nowMs : UInt64) (base : LwwRegister T)
    (others : List (LwwRegister T)) :
    (∀ ws₁ ws₂, ws₁.Perm others → ws₂.Perm others →
        (base.mergeAll ws₁ nowMs).value = (base.mergeAll ws₂ nowMs).value) ↔
      WinnersAgree nowMs base others := by
  simpa only [List.map_id] using mergeAll_map_agree_iff nowMs base id others

/-- Where neither clock is ahead of the tolerance, registers in which equal clocks
carry equal values agree after merging each other. -/
theorem merge_agree_of_bounded {nowMs : UInt64} {a b : LwwRegister T}
    (ha : a.clock.physicalMs ≤ saturatingAdd64 nowMs maxRemoteFutureMs)
    (hb : b.clock.physicalMs ≤ saturatingAdd64 nowMs maxRemoteFutureMs)
    (heq : a.clock = b.clock → a.value = b.value) :
    (a.merge b nowMs).value = (b.merge a nowMs).value := by
  have hagree := offer_agree_of_fixed (k := (·.boundedAt nowMs)) a.toReg b.toReg
    (boundedAt_eq_self ha) (boundedAt_eq_self hb) heq
  rw [← toReg_merge, ← toReg_merge] at hagree
  exact hagree

/-- So do the orders of a batch in which no clock is ahead of the tolerance. -/
theorem winnersAgree_of_bounded {nowMs : UInt64} {base : LwwRegister T}
    {others : List (LwwRegister T)}
    (hbound : ∀ w ∈ others, w.clock.physicalMs ≤ saturatingAdd64 nowMs maxRemoteFutureMs)
    (heq : ∀ w₁ ∈ others, ∀ w₂ ∈ others, w₁.clock = w₂.clock → w₁.value = w₂.value) :
    WinnersAgree nowMs base others := by
  intro w₁ hmem₁ w₂ hmem₂ _ _ hmax₁ hmax₂
  have hclock : w₁.clock.boundedAt nowMs = w₂.clock.boundedAt nowMs :=
    le_antisymm (hmax₂ w₁ hmem₁) (hmax₁ w₂ hmem₂)
  rw [boundedAt_eq_self (hbound w₁ hmem₁), boundedAt_eq_self (hbound w₂ hmem₂)] at hclock
  exact heq w₁ hmem₁ w₂ hmem₂ hclock

end LwwRegister

/-! ## Replicated items -/

structure ItemFields where
  name : LwwRegister (Option String)
  notes : LwwRegister (Option String)
  color : LwwRegister (Option String)
  pinned : LwwRegister Bool
  tags : OrSet String

def ItemFields.merge (self other : ItemFields) (nowMs : UInt64) : ItemFields where
  name := self.name.merge other.name nowMs
  notes := self.notes.merge other.notes nowMs
  color := self.color.merge other.color nowMs
  pinned := self.pinned.merge other.pinned nowMs
  tags := self.tags.merge other.tags

/-- Item presence is an add-wins set; pinning emits a fresh presence dot, so a
concurrent delete that has not observed it cannot erase the pinned item. -/
structure ItemReplica where
  itemId : String
  presence : OrSet String
  fields : ItemFields

namespace ItemReplica

def new (itemId : String) (fields : ItemFields) (dot : Dot) : ItemReplica :=
  { itemId, presence := OrSet.default.add itemId dot, fields }

def delete (self : ItemReplica) : ItemReplica :=
  { self with presence := self.presence.remove self.itemId }

def pin (self : ItemReplica) (dot : Dot) (clock : HybridLogicalClock) (nowMs : UInt64) :
    ItemReplica :=
  { self with
    presence := self.presence.add self.itemId dot
    fields := { self.fields with pinned := self.fields.pinned.assign true clock nowMs } }

def isPresent (self : ItemReplica) : Bool := self.presence.contains self.itemId

/-- The replica after the call, with what the call returned. -/
def merge (self other : ItemReplica) (nowMs : UInt64) : ItemReplica × Except SyncError Unit :=
  if self.itemId ≠ other.itemId then
    (self, .error (.Invalid "cannot merge replicas with different item IDs"))
  else
    ({ self with
        presence := self.presence.merge other.presence
        fields := self.fields.merge other.fields nowMs }, .ok ())

/-- Merge a batch of replicas, in the order given. -/
def mergeAll (self : ItemReplica) (others : List ItemReplica) (nowMs : UInt64) : ItemReplica :=
  others.foldl (fun replica other => (replica.merge other nowMs).1) self

/-- The values the registers show. -/
def registers (self : ItemReplica) : Option String × Option String × Option String × Bool :=
  (self.fields.name.value, self.fields.notes.value, self.fields.color.value,
    self.fields.pinned.value)

theorem merge_of_eq {self other : ItemReplica} (h : self.itemId = other.itemId)
    (nowMs : UInt64) :
    (self.merge other nowMs).1 =
      { self with
        presence := self.presence.merge other.presence
        fields := self.fields.merge other.fields nowMs } := by
  rw [merge, if_neg (not_not.mpr h)]

theorem merge_of_ne {self other : ItemReplica} (h : self.itemId ≠ other.itemId)
    (nowMs : UInt64) : (self.merge other nowMs).1 = self := by
  rw [merge, if_pos h]

/-- A batch of replicas of one item is merged field by field. -/
theorem mergeAll_eq {self : ItemReplica} {others : List ItemReplica}
    (h : ∀ other ∈ others, self.itemId = other.itemId) (nowMs : UInt64) :
    self.mergeAll others nowMs =
      { itemId := self.itemId
        presence := (others.map presence).foldl OrSet.merge self.presence
        fields :=
          { name := self.fields.name.mergeAll (others.map (·.fields.name)) nowMs
            notes := self.fields.notes.mergeAll (others.map (·.fields.notes)) nowMs
            color := self.fields.color.mergeAll (others.map (·.fields.color)) nowMs
            pinned := self.fields.pinned.mergeAll (others.map (·.fields.pinned)) nowMs
            tags := (others.map (·.fields.tags)).foldl OrSet.merge self.fields.tags } } := by
  induction others generalizing self with
  | nil => rfl
  | cons other others ih =>
      obtain ⟨hother, hothers⟩ := List.forall_mem_cons.mp h
      rw [mergeAll, List.foldl_cons, merge_of_eq hother]
      exact ih hothers

/-- Every register of the two replicas resolves; replicas of different items refuse
each other, and then their registers have to agree already. -/
def Resolves (nowMs : UInt64) (a b : ItemReplica) : Prop :=
  if a.itemId = b.itemId then
    a.fields.name.Resolves nowMs b.fields.name ∧ a.fields.notes.Resolves nowMs b.fields.notes ∧
      a.fields.color.Resolves nowMs b.fields.color ∧
      a.fields.pinned.Resolves nowMs b.fields.pinned
  else a.registers = b.registers

/-- The winners of the batch agree, register by register. -/
def WinnersAgree (nowMs : UInt64) (base : ItemReplica) (others : List ItemReplica) : Prop :=
  base.fields.name.WinnersAgree nowMs (others.map (·.fields.name)) ∧
    base.fields.notes.WinnersAgree nowMs (others.map (·.fields.notes)) ∧
    base.fields.color.WinnersAgree nowMs (others.map (·.fields.color)) ∧
    base.fields.pinned.WinnersAgree nowMs (others.map (·.fields.pinned))

theorem merge_agree_iff (nowMs : UInt64) (a b : ItemReplica) :
    (a.merge b nowMs).1.registers = (b.merge a nowMs).1.registers ↔ a.Resolves nowMs b := by
  rw [Resolves]
  split
  case isTrue hid =>
    rw [merge_of_eq hid, merge_of_eq hid.symm]
    simp only [registers, ItemFields.merge, Prod.mk.injEq, LwwRegister.merge_agree_iff]
  case isFalse hid =>
    rw [merge_of_ne hid, merge_of_ne (Ne.symm hid)]

theorem mergeAll_agree_iff (nowMs : UInt64) {base : ItemReplica} {others : List ItemReplica}
    (hid : ∀ other ∈ others, base.itemId = other.itemId) :
    (∀ ws₁ ws₂ : List ItemReplica, ws₁.Perm others → ws₂.Perm others →
        (base.mergeAll ws₁ nowMs).registers = (base.mergeAll ws₂ nowMs).registers) ↔
      WinnersAgree nowMs base others := by
  have hread : ∀ {ws : List ItemReplica}, ws.Perm others →
      (base.mergeAll ws nowMs).registers =
        ((base.fields.name.mergeAll (ws.map (·.fields.name)) nowMs).value,
          (base.fields.notes.mergeAll (ws.map (·.fields.notes)) nowMs).value,
          (base.fields.color.mergeAll (ws.map (·.fields.color)) nowMs).value,
          (base.fields.pinned.mergeAll (ws.map (·.fields.pinned)) nowMs).value) := by
    intro ws hperm
    rw [mergeAll_eq fun other hother => hid other (hperm.subset hother)]
    rfl
  simp only [WinnersAgree, ← LwwRegister.mergeAll_map_agree_iff]
  constructor
  · intro h
    refine ⟨fun ws₁ ws₂ h₁ h₂ => ?_, fun ws₁ ws₂ h₁ h₂ => ?_, fun ws₁ ws₂ h₁ h₂ => ?_,
      fun ws₁ ws₂ h₁ h₂ => ?_⟩ <;>
    · have heq := h ws₁ ws₂ h₁ h₂
      rw [hread h₁, hread h₂] at heq
      simp only [Prod.mk.injEq] at heq
      tauto
  · rintro ⟨hname, hnotes, hcolor, hpinned⟩ ws₁ ws₂ h₁ h₂
    rw [hread h₁, hread h₂, hname ws₁ ws₂ h₁ h₂, hnotes ws₁ ws₂ h₁ h₂, hcolor ws₁ ws₂ h₁ h₂,
      hpinned ws₁ ws₂ h₁ h₂]

/-- Presence and tags agree in every order, whatever the clocks. -/
theorem mergeAll_sets_perm (nowMs : UInt64) {base : ItemReplica} {ws₁ ws₂ : List ItemReplica}
    (hid : ∀ other ∈ ws₁, base.itemId = other.itemId) (hperm : ws₁.Perm ws₂) :
    (base.mergeAll ws₁ nowMs).presence = (base.mergeAll ws₂ nowMs).presence ∧
      (base.mergeAll ws₁ nowMs).fields.tags = (base.mergeAll ws₂ nowMs).fields.tags := by
  have hcomm : RightCommutative (OrSet.merge (T := String)) :=
    ⟨fun s t r => by rw [OrSet.merge_assoc, OrSet.merge_comm t r, ← OrSet.merge_assoc]⟩
  rw [mergeAll_eq hid, mergeAll_eq fun other hother => hid other (hperm.symm.subset hother)]
  exact ⟨(hperm.map _).foldl_eq _, (hperm.map _).foldl_eq _⟩

/-- **When replicas agree.**  Two registers, or two replicas, that merge each other
show the same values exactly when every register resolves; a batch merged in every
order shows the same values exactly when its possible winners carry one. -/
theorem replicas_agree_iff {T : Type u} (nowMs : UInt64) (a b base : LwwRegister T)
    (writes : List (LwwRegister T)) (left right item : ItemReplica) (others : List ItemReplica)
    (hid : ∀ other ∈ others, item.itemId = other.itemId) :
    ((a.merge b nowMs).value = (b.merge a nowMs).value ↔ a.Resolves nowMs b) ∧
    ((∀ ws₁ ws₂, ws₁.Perm writes → ws₂.Perm writes →
        (base.mergeAll ws₁ nowMs).value = (base.mergeAll ws₂ nowMs).value) ↔
      base.WinnersAgree nowMs writes) ∧
    ((left.merge right nowMs).1.registers = (right.merge left nowMs).1.registers ↔
      left.Resolves nowMs right) ∧
    ((∀ ws₁ ws₂ : List ItemReplica, ws₁.Perm others → ws₂.Perm others →
        (item.mergeAll ws₁ nowMs).registers = (item.mergeAll ws₂ nowMs).registers) ↔
      item.WinnersAgree nowMs others) :=
  ⟨LwwRegister.merge_agree_iff nowMs a b, LwwRegister.mergeAll_agree_iff nowMs base writes,
    merge_agree_iff nowMs left right, mergeAll_agree_iff nowMs hid⟩

/-- An item nobody edited since the first millisecond. -/
def untouched : ItemReplica :=
  let clock := HybridLogicalClock.new "a" 1
  new "clip-1" ⟨⟨none, clock⟩, ⟨none, clock⟩, ⟨none, clock⟩, ⟨false, clock⟩, OrSet.default⟩
    ⟨"a", 1⟩

/-- At an untouched item and a pinned copy of it. -/
theorem replicas_agree_iff_untouched :
    let pinned := untouched.pin ⟨"b", 1⟩ (HybridLogicalClock.new "b" 2) 2
    let name := untouched.fields.name
    (name.merge pinned.fields.name 2).value = (pinned.fields.name.merge name 2).value ∧
      ((untouched.merge pinned 2).1.registers = (pinned.merge untouched 2).1.registers ↔
        untouched.Resolves 2 pinned) := by
  intro pinned name
  obtain ⟨hregister, -, hitem, -⟩ := replicas_agree_iff 2 name pinned.fields.name name []
    untouched pinned untouched [pinned] (by decide)
  exact ⟨hregister.mpr (Or.inl rfl), hitem⟩

/-- Two clocks beyond the tolerance of millisecond 1000.  Each replica finds its own
clock ahead of the clamped one it is offered and keeps its value; and two writes that
the clamp brings to one clock leave whichever came first. -/
theorem clamped_replicas_diverge :
    let a : LwwRegister String := ⟨"left", ⟨301001, 0, "a"⟩⟩
    let b : LwwRegister String := ⟨"right", ⟨301002, 0, "b"⟩⟩
    let b' : LwwRegister String := ⟨"later", ⟨301003, 0, "b"⟩⟩
    let base : LwwRegister String := ⟨"old", ⟨1, 0, "a"⟩⟩
    [a, b, b', base].Pairwise (fun r r' => r.clock ≠ r'.clock) ∧
      (a.merge b 1000).value ≠ (b.merge a 1000).value ∧
      (base.mergeAll [b, b'] 1000).value ≠ (base.mergeAll [b', b] 1000).value := by
  decide

end ItemReplica

end Vbuff.Sync
