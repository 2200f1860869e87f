import Vbuff.Core.CaptureLedger
import Vbuff.Lib.ExpiringRing
import Vbuff.Lib.Mealy

/-!
# Writes of the program are recognised

The ledger is a ring whose entries expire: after any calls under a clock that does not go back,
what a query sees is what pruning leaves of the last writes that were registered
(`follows_after`).

A write whose expiry cannot be represented expires at once.  It then stands behind writes that
expire after it, and is seen as long as one of them is.  As long as every expiry can be
represented, the ledger recognises exactly the writes that have not expired.
-/

namespace Vbuff.Core

open ExpiringRing Vbuff.Types

/-- A call to the ledger. -/
inductive SelfWriteCall where
  | register (hash : ContentHash) (nonce : String) (now : Instant)
  | query (hash : ContentHash) (lineage : CaptureLineage) (now : Instant)
  deriving DecidableEq

def SelfWriteCall.now : SelfWriteCall → Instant
  | .register _ _ now => now
  | .query _ _ now => now

/-- When a write of that time expires. -/
def expiryOf (ttl : Duration) (now : Instant) : Instant := (Instant.checkedAdd now ttl).getD now

/-- The write a call registers. -/
def SelfWriteCall.write? (ttl : Duration) : SelfWriteCall → Option SelfWrite
  | .register hash nonce now => some { hash, nonce, expiresAt := expiryOf ttl now }
  | .query _ _ _ => none

/-- The query is about this write. -/
def SelfWrite.hit (write : SelfWrite) (hash : ContentHash) (lineage : CaptureLineage) : Bool :=
  write.hash == hash || lineage.writeNonce.any fun nonce => nonce == write.nonce

namespace SelfWriteLedger

def step (self : SelfWriteLedger) : SelfWriteCall → SelfWriteLedger × Option Bool
  | .register hash nonce now => (self.register hash nonce now, none)
  | .query hash lineage now => ((self.matchesWrite hash lineage now).1,
      some (self.matchesWrite hash lineage now).2)

/-- The ledger after a list of calls. -/
def afterCalls (ttl : Duration) (capacity : ℕ) (calls : List SelfWriteCall) : SelfWriteLedger :=
  Mealy.after step (new ttl capacity) calls

/-- The last writes that were registered, as many as the ledger holds. -/
def lastWrites (ttl : Duration) (capacity : ℕ) (calls : List SelfWriteCall) : List SelfWrite :=
  (calls.filterMap (·.write? ttl)).rtake (max capacity 1)

/-! ## The ledger is an expiring ring -/

theorem writes_register (self : SelfWriteLedger) (hash : ContentHash) (nonce : String)
    (now : Instant) :
    (self.register hash nonce now).writes =
      push SelfWrite.expiresAt self.capacity now self.writes
        { hash, nonce, expiresAt := expiryOf self.ttl now } := rfl

theorem writes_matchesWrite (self : SelfWriteLedger) (hash : ContentHash)
    (lineage : CaptureLineage) (now : Instant) :
    (self.matchesWrite hash lineage now).1.writes =
      ExpiringRing.prune SelfWrite.expiresAt now self.writes := rfl

theorem matchesWrite_eq (self : SelfWriteLedger) (hash : ContentHash) (lineage : CaptureLineage)
    (now : Instant) :
    (self.matchesWrite hash lineage now).2 =
      (ExpiringRing.prune SelfWrite.expiresAt now self.writes).any (·.hit hash lineage) := rfl

variable {ttl : Duration} {capacity : ℕ} {calls : List SelfWriteCall}

/-- No call changes the bounds. -/
theorem bounds_after (ttl : Duration) (capacity : ℕ) (calls : List SelfWriteCall) :
    (afterCalls ttl capacity calls).ttl = ttl ∧
      (afterCalls ttl capacity calls).capacity = max capacity 1 := by
  induction calls using List.reverseRecOn with
  | nil => exact ⟨rfl, rfl⟩
  | append_singleton calls call ih =>
      rw [afterCalls, Mealy.after_concat]
      cases call with
      | register hash nonce now => exact ih
      | query hash lineage now => exact ih

/-- The clock does not go back over the calls, and has not passed `now`. -/
def InOrder (calls : List SelfWriteCall) (now : Instant) : Prop :=
  (calls.map SelfWriteCall.now ++ [now]).Pairwise (· ≤ ·)

theorem InOrder.concat {call : SelfWriteCall} {now : Instant}
    (h : InOrder (calls ++ [call]) now) : InOrder calls call.now ∧ call.now ≤ now := by
  rw [InOrder, List.map_append, List.map_singleton, List.pairwise_append] at h
  exact ⟨h.1, h.2.2 call.now (List.mem_append_right _ List.mem_cons_self) now List.mem_cons_self⟩

/-- What a query at or after the last call sees of the ring is what it would see of the last
writes. -/
theorem follows_after {now : Instant} (h : InOrder calls now) :
    Follows SelfWrite.expiresAt (max capacity 1) now (afterCalls ttl capacity calls).writes
      (calls.filterMap (·.write? ttl)) := by
  induction calls using List.reverseRecOn generalizing now with
  | nil => exact follows_nil _ _ _
  | append_singleton calls call ih =>
      -- the last call sets the clock for everything before it
      obtain ⟨hcalls, hnow⟩ := h.concat
      have hbefore := ih hcalls
      obtain ⟨httl, hcapacity⟩ := bounds_after ttl capacity calls
      have hcall : Follows SelfWrite.expiresAt (max capacity 1) call.now
          (afterCalls ttl capacity (calls ++ [call])).writes
          ((calls ++ [call]).filterMap (·.write? ttl)) := by
        rw [afterCalls, Mealy.after_concat, List.filterMap_append]
        cases call with
        | register hash nonce time =>
            show Follows _ _ _ ((afterCalls ttl capacity calls).register hash nonce time).writes _
            rw [writes_register, hcapacity, httl]
            exact hbefore.push (by omega) le_rfl _
        | query hash lineage time =>
            show Follows _ _ _
              ((afterCalls ttl capacity calls).matchesWrite hash lineage time).1.writes _
            rw [writes_matchesWrite]
            show Follows _ _ _ _ (calls.filterMap (·.write? ttl) ++ [])
            rw [List.append_nil]
            exact hbefore.prune le_rfl
      exact fun later hlater => hcall later (hnow.trans hlater)

theorem recognised_eq {now : Instant} (h : InOrder calls now) (hash : ContentHash)
    (lineage : CaptureLineage) :
    ((afterCalls ttl capacity calls).matchesWrite hash lineage now).2 =
      (ExpiringRing.prune SelfWrite.expiresAt now (lastWrites ttl capacity calls)).any
        (·.hit hash lineage) := by
  rw [matchesWrite_eq, follows_after h now le_rfl]
  rfl

/-! ## Expiries in order -/

/-- Every registered write has an expiry that can be represented. -/
def Representable (ttl : Duration) (calls : List SelfWriteCall) : Prop :=
  ∀ hash nonce now, .register hash nonce now ∈ calls → now + ttl ≤ Instant.MAX

theorem expiryOf_of_le {now : Instant} (h : now + ttl ≤ Instant.MAX) :
    expiryOf ttl now = now + ttl := by
  rw [expiryOf, Instant.checkedAdd, if_pos h]
  rfl

/-- Writes that expire a fixed time after they were made expire in the order they were made. -/
theorem ordered_lastWrites {now : Instant} (h : InOrder calls now)
    (hrepresentable : Representable ttl calls) :
    (lastWrites ttl capacity calls).Pairwise fun a b => a.expiresAt ≤ b.expiresAt := by
  refine List.Pairwise.sublist (List.drop_sublist _ _) ?_
  have htimes : calls.Pairwise fun a b => a.now ≤ b.now := by
    rw [InOrder, List.pairwise_append] at h
    exact List.pairwise_map.mp h.1
  have hkey : ∀ call ∈ calls, ∀ write, call.write? ttl = some write →
      write.expiresAt = call.now + ttl := by
    intro call hcall write hwrite
    cases call with
    | register hash nonce time =>
        obtain rfl := Option.some.inj hwrite
        exact expiryOf_of_le (hrepresentable hash nonce time hcall)
    | query hash lineage time => cases hwrite
  rw [List.pairwise_filterMap]
  refine htimes.imp_of_mem ?_
  intro a b ha hb hle write hwrite write' hwrite'
  rw [hkey a ha write hwrite, hkey b hb write' hwrite']
  exact Nat.add_le_add_right hle ttl

/-! ## Recognition -/

/-- **A query is recognised exactly when it is about one of the last writes, and that write or
one registered before it among them has not expired.**  Where every expiry can be represented,
that is the case exactly when it is about one of the last writes that has not expired itself. -/
theorem recognised_iff {now : Instant} (h : InOrder calls now) (hash : ContentHash)
    (lineage : CaptureLineage) :
    (((afterCalls ttl capacity calls).matchesWrite hash lineage now).2 = true ↔
      ∃ front write back, lastWrites ttl capacity calls = front ++ write :: back ∧
        write.hit hash lineage = true ∧
          ∃ earlier ∈ front ++ [write], now < earlier.expiresAt) ∧
      (Representable ttl calls →
        (((afterCalls ttl capacity calls).matchesWrite hash lineage now).2 = true ↔
          ∃ write ∈ lastWrites ttl capacity calls,
            write.hit hash lineage = true ∧ now < write.expiresAt)) := by
  rw [recognised_eq h]
  refine ⟨any_prune_iff _ _, ?_⟩
  intro hrepresentable
  rw [List.any_eq_true]
  constructor
  · rintro ⟨write, hmem, hhit⟩
    obtain ⟨hlast, hlive⟩ :=
      (mem_prune_iff_of_ordered (ordered_lastWrites h hrepresentable)).mp hmem
    exact ⟨write, hlast, hhit, hlive⟩
  · rintro ⟨write, hlast, hhit, hlive⟩
    exact ⟨write, (mem_prune_iff_of_ordered (ordered_lastWrites h hrepresentable)).mpr
      ⟨hlast, hlive⟩, hhit⟩

/-- Two writes, three time units apart. -/
def twoWrites : List SelfWriteCall :=
  [.register (.replicate 32 1) "a" 0, .register (.replicate 32 2) "b" 3]

theorem recognised_iff_echo :
    ((afterCalls 5 1 twoWrites).matchesWrite (.replicate 32 2)
      { originDevice := none, writeNonce := none } 7).2 = true := by
  have horder : InOrder twoWrites 7 := by
    unfold InOrder
    decide
  have hrepresentable : Representable 5 twoWrites := by
    intro hash nonce now hmem
    rcases List.mem_cons.mp hmem with heq | hmem
    · cases heq
      decide
    · cases List.mem_singleton.mp hmem
      decide
  exact ((recognised_iff horder _ _).2 hrepresentable).mpr (by decide +kernel)

/-- Two writes close to the last instant: the first expires there, the second cannot. -/
def lateWrites : List SelfWriteCall :=
  [.register (.replicate 32 1) "a" (Instant.MAX - 10),
    .register (.replicate 32 2) "b" (Instant.MAX - 9)]

/-- The second write is recognised after it has expired, behind the first, and no longer when
the first has expired, although its time to live has not passed. -/
theorem lateWrites_not_exact :
    (InOrder lateWrites (Instant.MAX - 5) ∧
      ((afterCalls 10 2 lateWrites).matchesWrite (.replicate 32 2)
        { originDevice := none, writeNonce := none } (Instant.MAX - 5)).2 = true ∧
      ∀ write ∈ lastWrites 10 2 lateWrites,
        write.hit (.replicate 32 2) { originDevice := none, writeNonce := none } = true →
          write.expiresAt ≤ Instant.MAX - 5) ∧
      InOrder lateWrites Instant.MAX ∧
      ((afterCalls 10 2 lateWrites).matchesWrite (.replicate 32 2)
        { originDevice := none, writeNonce := none } Instant.MAX).2 = false ∧
      Instant.MAX < (Instant.MAX - 9) + 10 := by
  unfold InOrder
  decide +kernel

end SelfWriteLedger

end Vbuff.Core
