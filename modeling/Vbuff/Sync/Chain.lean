import Vbuff.Lib.GuardedRun
import Vbuff.Lib.HashChain
import Vbuff.Lib.Result
import Vbuff.Sync.Preimage

/-!
# Signed hash chains

Every append-only log of the sync crate is a `SignedChain`: links that commit to
their predecessor's hash and carry a signature over the bytes that hash was made of.
What goes into a link and who may sign it is a `ChainEntry`; `append` and `verify`
are written once, over any of them.

`Valid` is the property `verify` decides (`verify_eq_ok_iff`).  It is a guarded run in
the sense of `GuardedRun` and a linked list in the sense of `HashChain`, so that

* appending keeps it (`valid_append`) and a failed append changes nothing;
* every prefix of a valid chain is valid (`Valid.take`);
* two valid chains with one head carry the same links (`content_eq_of_head_eq`),
  as long as the hash does not collide on the preimages of the two.

BLAKE3 and Ed25519 are a parameter, `Primitives`.
-/

namespace Vbuff.Sync

open ByteString Framing Result Preimage

/-- `[u8; 32]`: a hash or a key. -/
abbrev Bytes32 := Vector UInt8 32

/-- The hash and the signature scheme. -/
structure Primitives where
  /-- `*blake3::hash(..).as_bytes()`. -/
  hash : Bytes → Bytes32
  SigningKey : Type
  VerifyingKey : Type
  /-- `signing_key.verifying_key().to_bytes()`. -/
  verifyingKey : SigningKey → Bytes32
  sign : SigningKey → Bytes → Vector UInt8 64
  /-- `VerifyingKey::from_bytes`. -/
  fromBytes : Bytes32 → Option VerifyingKey
  verify : VerifyingKey → Bytes → Vector UInt8 64 → Bool

/-- A signature verifies under the key it was made with. -/
def Primitives.SignaturesVerify (prim : Primitives) : Prop :=
  ∀ signingKey, ∃ key, prim.fromBytes (prim.verifyingKey signingKey) = some key ∧
    ∀ message, prim.verify key message (prim.sign signingKey message) = true

/-- The payload of a link: what is hashed and signed, and who may sign it.  The last
four fields say what the encoding is and that a reader can take it apart. -/
structure ChainEntry (E : Type) where
  domain : Bytes
  maxEntries : ℕ
  label : String
  Authority : Type
  State : Type
  default : State
  extendPreimage : E → Preimage → Preimage
  expectedSigningKey : E → ℕ → State → Authority → Except SyncError Bytes32
  apply : E → State → State
  /-- The terminator belongs to the framing. -/
  domain_no_nul : 0 ∉ domain
  Fits : E → Prop
  encode : E → Bytes
  writes : ∀ payload, Writes (extendPreimage payload) (Fits payload) (encode payload)
  delimits : Delimits {payload | Fits payload} encode id

structure ChainLink (E : Type) where
  payload : E
  previousHash : Bytes32
  hash : Bytes32
  signature : Vector UInt8 64
  deriving DecidableEq

structure SignedChain (E : Type) where
  entries : List (ChainLink E)
  deriving DecidableEq

/-- The hash an empty chain ends in. -/
def zeroHash : Bytes32 := Vector.replicate 32 0

variable {E : Type} (entry : ChainEntry E)

/-- The exact bytes hashed and signed for one link. -/
def linkPreimage (payload : E) (previousHash : Bytes32) : Except SyncError Bytes :=
  (entry.extendPreimage payload ((Preimage.new entry.domain).fixed previousHash.toList)).finish

theorem linkPreimage_eq_ok {payload : E} {previousHash : Bytes32} {preimage : Bytes} :
    linkPreimage entry payload previousHash = .ok preimage ↔
      entry.Fits payload ∧ preimage =
        entry.domain ++ [0] ++ (previousHash.toList ++ entry.encode payload) := by
  have hwrites := (writes_fixed previousHash.toList).andThen (entry.writes payload)
  rw [linkPreimage, hwrites.finish_eq_ok, true_and]

/-- The preimage of a link determines its payload and its predecessor. -/
theorem linkPreimage_inj {payload payload' : E} {previousHash previousHash' : Bytes32}
    {preimage : Bytes} (h : linkPreimage entry payload previousHash = .ok preimage)
    (h' : linkPreimage entry payload' previousHash' = .ok preimage) :
    payload = payload' ∧ previousHash = previousHash' := by
  obtain ⟨hfits, heq⟩ := (linkPreimage_eq_ok entry).mp h
  obtain ⟨hfits', heq'⟩ := (linkPreimage_eq_ok entry).mp h'
  have hbody := List.append_cancel_left (heq.symm.trans heq')
  obtain ⟨hprev, hrest⟩ := delimits_vector 32 (Set.mem_univ _) (Set.mem_univ _) hbody
  exact ⟨entry.delimits.determines hfits hfits' hrest, hprev⟩

namespace SignedChain

variable (prim : Primitives)

/-- The empty chain. -/
def default : SignedChain E := ⟨[]⟩

/-- Hash of the last link, or all-zero for an empty chain. -/
def head (self : SignedChain E) : Bytes32 := self.entries.getLast?.elim zeroHash ChainLink.hash

/-- The payload of a link, folded into the replayed state. -/
def applyLink (state : entry.State) (link : ChainLink E) : entry.State :=
  entry.apply link.payload state

def replayPrefix (self : SignedChain E) (links : ℕ) : entry.State :=
  (self.entries.take links).foldl (applyLink entry) entry.default

def replay (self : SignedChain E) : entry.State := self.replayPrefix entry self.entries.length

/-- Append a link signed with `signingKey`: the chain after the call, with what the
call returned. -/
def append (self : SignedChain E) (payload : E) (authority : entry.Authority)
    (signingKey : prim.SigningKey) : SignedChain E × Except SyncError Bytes32 :=
  if self.entries.length ≥ entry.maxEntries then
    (self, .error (.Invalid s!"{entry.label} is full"))
  else
    let index := self.entries.length
    let state := self.replayPrefix entry index
    match entry.expectedSigningKey payload index state authority with
    | .error e => (self, .error e)
    | .ok expected =>
        if prim.verifyingKey signingKey ≠ expected then
          (self, .error (.Invalid
            s!"{entry.label} author key does not match the registered signing key"))
        else
          let previousHash := self.head
          match linkPreimage entry payload previousHash with
          | .error e => (self, .error e)
          | .ok preimage =>
              let hash := prim.hash preimage
              let signature := prim.sign signingKey preimage
              (⟨self.entries ++ [{ payload, previousHash, hash, signature }]⟩, .ok hash)

/-- The loop of `verify`, from the link at `index`. -/
def verifyFrom (authority : entry.Authority) :
    ℕ → entry.State → Bytes32 → List (ChainLink E) → Except SyncError Unit
  | _, _, _, [] => .ok ()
  | index, state, previousHash, link :: links => do
      let preimage ← linkPreimage entry link.payload link.previousHash
      ensure (link.previousHash = previousHash ∧ prim.hash preimage = link.hash)
        (.Invalid s!"{entry.label} hash chain is broken")
      let expected ← entry.expectedSigningKey link.payload index state authority
      let key ← okOr (prim.fromBytes expected) .Crypto
      ensure (prim.verify key preimage link.signature = true) .Crypto
      verifyFrom authority (index + 1) (applyLink entry state link) link.hash links

/-- Re-derive and check the whole chain. -/
def verify (self : SignedChain E) (authority : entry.Authority) : Except SyncError Unit := do
  ensure (self.entries.length ≤ entry.maxEntries)
    (.Invalid s!"{entry.label} exceeds the entry limit")
  verifyFrom entry prim authority 0 entry.default zeroHash self.entries

/-! ## What `verify` decides -/

/-- Where a replay stands before a link. -/
structure Cursor where
  index : ℕ
  state : entry.State
  previousHash : Bytes32

/-- The cursor in front of the first link. -/
def Cursor.start : Cursor entry := ⟨0, entry.default, zeroHash⟩

/-- The cursor behind a link. -/
def Cursor.advance (cursor : Cursor entry) (link : ChainLink E) : Cursor entry :=
  ⟨cursor.index + 1, applyLink entry cursor.state link, link.hash⟩

/-- The entry admits the link: it names a key that may sign it. -/
def Admitted (authority : entry.Authority) (cursor : Cursor entry) (link : ChainLink E) : Prop :=
  ∃ expected,
    entry.expectedSigningKey link.payload cursor.index cursor.state authority = .ok expected

/-- The link continues the chain and carries a signature of the key the entry names. -/
structure LinkValid (authority : entry.Authority) (cursor : Cursor entry)
    (link : ChainLink E) : Prop where
  previousHash_eq : link.previousHash = cursor.previousHash
  signed : ∃ preimage, linkPreimage entry link.payload link.previousHash = .ok preimage ∧
    prim.hash preimage = link.hash ∧
    ∃ expected key,
      entry.expectedSigningKey link.payload cursor.index cursor.state authority = .ok expected ∧
      prim.fromBytes expected = some key ∧ prim.verify key preimage link.signature = true

/-- The chain is within its bound and every link is valid at its place. -/
structure Valid (authority : entry.Authority) (chain : SignedChain E) : Prop where
  bounded : chain.entries.length ≤ entry.maxEntries
  links : GuardedRun.Admits (LinkValid entry prim authority) (Cursor.advance entry)
    (Cursor.start entry) chain.entries

theorem verifyFrom_eq_ok_iff (authority : entry.Authority) (links : List (ChainLink E)) :
    ∀ cursor : Cursor entry,
      verifyFrom entry prim authority cursor.index cursor.state cursor.previousHash links =
          .ok () ↔
        GuardedRun.Admits (LinkValid entry prim authority) (Cursor.advance entry) cursor links := by
  induction links with
  | nil => exact fun _ => iff_of_true rfl trivial
  | cons link links ih =>
      intro cursor
      rw [GuardedRun.admits_cons, ← ih (cursor.advance entry link), verifyFrom]
      simp only [bind_eq_ok, ensure_eq_ok, okOr_eq_ok, exists_const, Cursor.advance]
      constructor
      · rintro ⟨preimage, hpre, ⟨hprev, hhash⟩, expected, hexp, key, hkey, hsig, hrest⟩
        exact ⟨⟨hprev, preimage, hpre, hhash, expected, key, hexp, hkey, hsig⟩, hrest⟩
      · rintro ⟨⟨hprev, preimage, hpre, hhash, expected, key, hexp, hkey, hsig⟩, hrest⟩
        exact ⟨preimage, hpre, ⟨hprev, hhash⟩, expected, hexp, key, hkey, hsig, hrest⟩

theorem verify_eq_ok_iff {self : SignedChain E} {authority : entry.Authority} :
    self.verify entry prim authority = .ok () ↔ self.Valid entry prim authority := by
  rw [verify]
  simp only [bind_eq_ok, ensure_eq_ok, exists_const]
  have hlinks := verifyFrom_eq_ok_iff entry prim authority self.entries (Cursor.start entry)
  exact ⟨fun h => ⟨h.1, hlinks.mp h.2⟩, fun h => ⟨h.bounded, hlinks.mpr h.links⟩⟩

/-! ## Where a replay stands -/

/-- The cursor behind a list of links. -/
theorem foldl_advance (links : List (ChainLink E)) :
    links.foldl (Cursor.advance entry) (Cursor.start entry) =
      ⟨links.length, links.foldl (applyLink entry) entry.default,
        HashChain.head ChainLink.hash zeroHash links⟩ := by
  induction links using List.reverseRecOn with
  | nil => rfl
  | append_singleton links link ih =>
      rw [List.foldl_concat, ih, List.foldl_concat, HashChain.head_concat, List.length_append]
      rfl

theorem replay_eq (self : SignedChain E) :
    self.replay entry = self.entries.foldl (applyLink entry) entry.default := by
  rw [replay, replayPrefix, List.take_length]

/-! ## Appending -/

/-- What a call of `append` can do: refuse and leave the chain alone, or add one link
that the entry admits. -/
theorem append_cases (self : SignedChain E) (payload : E) (authority : entry.Authority)
    (signingKey : prim.SigningKey) :
    (∃ e, self.append entry prim payload authority signingKey = (self, .error e)) ∨
      ∃ preimage, self.entries.length < entry.maxEntries ∧
        entry.expectedSigningKey payload self.entries.length (self.replay entry) authority =
          .ok (prim.verifyingKey signingKey) ∧
        linkPreimage entry payload self.head = .ok preimage ∧
        self.append entry prim payload authority signingKey =
          (⟨self.entries ++
              [{ payload := payload
                 previousHash := self.head
                 hash := prim.hash preimage
                 signature := prim.sign signingKey preimage }]⟩,
            .ok (prim.hash preimage)) := by
  rw [append]
  split
  case isTrue hfull => exact Or.inl ⟨_, rfl⟩
  case isFalse hroom =>
    dsimp only
    split
    case h_1 e hexp => exact Or.inl ⟨e, rfl⟩
    case h_2 expected hexp =>
      split
      case isTrue hkey => exact Or.inl ⟨_, rfl⟩
      case isFalse hkey =>
        split
        case h_1 e hpre => exact Or.inl ⟨e, rfl⟩
        case h_2 preimage hpre =>
          refine Or.inr ⟨preimage, not_le.mp hroom, ?_, hpre, rfl⟩
          rw [not_not.mp hkey]
          exact hexp

/-- A failed append leaves the chain alone. -/
theorem append_of_error {self : SignedChain E} {payload : E} {authority : entry.Authority}
    {signingKey : prim.SigningKey} {e : SyncError}
    (h : (self.append entry prim payload authority signingKey).2 = .error e) :
    (self.append entry prim payload authority signingKey).1 = self := by
  rcases append_cases entry prim self payload authority signingKey with
    ⟨e', heq⟩ | ⟨preimage, -, -, -, heq⟩
  · rw [heq]
  · rw [heq] at h
    exact absurd h (by simp)

/-- Any sequence of appends, successful or not. -/
def appendAll (self : SignedChain E) (authority : entry.Authority)
    (calls : List (E × prim.SigningKey)) : SignedChain E :=
  calls.foldl (fun chain call => (chain.append entry prim call.1 authority call.2).1) self

/-- Every link of a chain was admitted by the entry at its place. -/
def AllAdmitted (authority : entry.Authority) (self : SignedChain E) : Prop :=
  GuardedRun.Admits (Admitted entry authority) (Cursor.advance entry) (Cursor.start entry)
    self.entries

variable {entry prim}

theorem LinkValid.admitted {authority : entry.Authority} {cursor : Cursor entry}
    {link : ChainLink E} (h : LinkValid entry prim authority cursor link) :
    Admitted entry authority cursor link := by
  obtain ⟨-, -, -, expected, -, hexp, -⟩ := h.signed
  exact ⟨expected, hexp⟩

theorem Valid.allAdmitted {self : SignedChain E} {authority : entry.Authority}
    (h : self.Valid entry prim authority) : self.AllAdmitted entry authority :=
  h.links.mono fun _ _ hlink => hlink.admitted

/-- Appending keeps every link admitted. -/
theorem AllAdmitted.append {self : SignedChain E} {authority : entry.Authority}
    (h : self.AllAdmitted entry authority) (payload : E) (signingKey : prim.SigningKey) :
    (self.append entry prim payload authority signingKey).1.AllAdmitted entry authority := by
  rcases append_cases entry prim self payload authority signingKey with
    ⟨e, heq⟩ | ⟨preimage, -, hexp, -, heq⟩
  · rwa [heq]
  · rw [heq, AllAdmitted, GuardedRun.admits_concat, foldl_advance]
    rw [replay_eq] at hexp
    exact ⟨h, _, hexp⟩

/-- Appending keeps a valid chain valid. -/
theorem Valid.append (hsig : prim.SignaturesVerify) {self : SignedChain E}
    {authority : entry.Authority} (h : self.Valid entry prim authority) (payload : E)
    (signingKey : prim.SigningKey) :
    (self.append entry prim payload authority signingKey).1.Valid entry prim authority := by
  rcases append_cases entry prim self payload authority signingKey with
    ⟨e, heq⟩ | ⟨preimage, hroom, hexp, hpre, heq⟩
  · rwa [heq]
  · rw [heq]
    rw [replay_eq] at hexp
    obtain ⟨key, hkey, hverify⟩ := hsig signingKey
    refine ⟨?_, ?_⟩
    · rw [List.length_append]
      exact hroom
    · rw [GuardedRun.admits_concat, foldl_advance]
      exact ⟨h.links, rfl, preimage, hpre, rfl, _, key, hexp, hkey, hverify preimage⟩

theorem valid_default (authority : entry.Authority) :
    (default : SignedChain E).Valid entry prim authority := ⟨Nat.zero_le _, trivial⟩

theorem allAdmitted_default (authority : entry.Authority) :
    (default : SignedChain E).AllAdmitted entry authority := trivial

/-- The run lemma: whatever is appended to the empty chain, the chain is valid. -/
theorem valid_appendAll (hsig : prim.SignaturesVerify) {self : SignedChain E}
    {authority : entry.Authority} (h : self.Valid entry prim authority)
    (calls : List (E × prim.SigningKey)) :
    (self.appendAll entry prim authority calls).Valid entry prim authority := by
  induction calls generalizing self with
  | nil => exact h
  | cons call calls ih => exact ih (h.append hsig call.1 call.2)

theorem allAdmitted_appendAll {self : SignedChain E} {authority : entry.Authority}
    (h : self.AllAdmitted entry authority) (calls : List (E × prim.SigningKey)) :
    (self.appendAll entry prim authority calls).AllAdmitted entry authority := by
  induction calls generalizing self with
  | nil => exact h
  | cons call calls ih => exact ih (h.append call.1 call.2)

theorem Valid.take {self : SignedChain E} {authority : entry.Authority}
    (h : self.Valid entry prim authority) (n : ℕ) :
    (⟨self.entries.take n⟩ : SignedChain E).Valid entry prim authority :=
  ⟨(List.length_take_le' n _).trans h.bounded, h.links.take n⟩

/-! ## What a head commits to -/

/-- A link apart from its signature. -/
def content (link : ChainLink E) : E × Bytes32 × Bytes32 :=
  (link.payload, link.previousHash, link.hash)

variable (entry) in
/-- The preimages of the links of a chain. -/
def preimages (self : SignedChain E) : Set Bytes :=
  {preimage | ∃ link ∈ self.entries,
    linkPreimage entry link.payload link.previousHash = .ok preimage}

/-- The hash tells the preimages apart, and from the genesis hash. -/
structure CollisionFree (hash : Bytes → Bytes32) (preimages : Set Bytes) : Prop where
  injOn : Set.InjOn hash preimages
  ne_zero : ∀ preimage ∈ preimages, hash preimage ≠ zeroHash

theorem linked_of_admits {authority : entry.Authority} {links : List (ChainLink E)} :
    ∀ {cursor : Cursor entry},
      GuardedRun.Admits (LinkValid entry prim authority) (Cursor.advance entry) cursor links →
      HashChain.Linked ChainLink.previousHash ChainLink.hash cursor.previousHash links := by
  induction links with
  | nil => exact fun _ => trivial
  | cons link links ih => exact fun h => ⟨h.1.previousHash_eq, ih h.2⟩

/-- The hash of a link of a valid chain is the hash of its preimage. -/
theorem Valid.exists_preimage {self : SignedChain E} {authority : entry.Authority}
    (h : self.Valid entry prim authority) {link : ChainLink E} (hmem : link ∈ self.entries) :
    ∃ preimage ∈ self.preimages entry,
      linkPreimage entry link.payload link.previousHash = .ok preimage ∧
        prim.hash preimage = link.hash := by
  obtain ⟨n, hn, rfl⟩ := List.getElem_of_mem hmem
  obtain ⟨preimage, hpre, hhash, -⟩ := (h.links.at_index hn).signed
  exact ⟨preimage, ⟨_, hmem, hpre⟩, hpre, hhash⟩

/-- **The head commits to the history.**  Two valid chains with one head carry the
same payloads, predecessors and hashes. -/
theorem Valid.content_eq_of_head_eq {chain chain' : SignedChain E}
    {authority authority' : entry.Authority} (h : chain.Valid entry prim authority)
    (h' : chain'.Valid entry prim authority')
    (hash : CollisionFree prim.hash (chain.preimages entry ∪ chain'.preimages entry))
    (hhead : chain.head = chain'.head) :
    chain.entries.map content = chain'.entries.map content := by
  refine HashChain.eq_of_head_eq (linked_of_admits h.links) (linked_of_admits h'.links)
    (fun link hmem => ?_) (fun link hmem => ?_) (fun link hmem link' hmem' heq => ?_) hhead
  · obtain ⟨preimage, hin, -, hhash⟩ := h.exists_preimage hmem
    rw [← hhash]
    exact hash.ne_zero preimage (Or.inl hin)
  · obtain ⟨preimage, hin, -, hhash⟩ := h'.exists_preimage hmem
    rw [← hhash]
    exact hash.ne_zero preimage (Or.inr hin)
  · -- equal hashes come from one preimage, and a preimage determines the link
    obtain ⟨preimage, hin, hpre, hhash⟩ := h.exists_preimage hmem
    obtain ⟨preimage', hin', hpre', hhash'⟩ := h'.exists_preimage hmem'
    have hsame : preimage = preimage' :=
      hash.injOn (Or.inl hin) (Or.inr hin') (by rw [hhash, hhash', heq])
    subst hsame
    obtain ⟨hpayload, hprev⟩ := linkPreimage_inj entry hpre hpre'
    exact ⟨hprev, by rw [content, content, hpayload, hprev, heq]⟩

/-- **Signed chains.**  Whatever is appended to the empty chain under one authority,
the chain verifies; a failed append leaves the chain alone; every prefix of a
verified chain verifies; and the head of a verified chain commits to its payloads,
predecessors and hashes. -/
theorem signedChain_sound (entry : ChainEntry E) (prim : Primitives)
    (hsig : prim.SignaturesVerify) :
    (∀ (authority : entry.Authority) (calls : List (E × prim.SigningKey)),
      ((default : SignedChain E).appendAll entry prim authority calls).verify entry prim
        authority = .ok ()) ∧
    (∀ (self : SignedChain E) (payload : E) (authority : entry.Authority)
      (signingKey : prim.SigningKey) (e : SyncError),
      (self.append entry prim payload authority signingKey).2 = .error e →
      (self.append entry prim payload authority signingKey).1 = self) ∧
    (∀ (self : SignedChain E) (authority : entry.Authority),
      self.verify entry prim authority = .ok () → ∀ n,
      (⟨self.entries.take n⟩ : SignedChain E).verify entry prim authority = .ok ()) ∧
    ∀ (chain chain' : SignedChain E) (authority authority' : entry.Authority),
      chain.verify entry prim authority = .ok () →
      chain'.verify entry prim authority' = .ok () →
      CollisionFree prim.hash (chain.preimages entry ∪ chain'.preimages entry) →
      chain.head = chain'.head →
      chain.entries.map content = chain'.entries.map content := by
  refine ⟨fun authority calls => ?_, fun self payload authority signingKey e => ?_,
    fun self authority h n => ?_, fun chain chain' authority authority' h h' hash hhead => ?_⟩
  · exact (verify_eq_ok_iff entry prim).mpr (valid_appendAll hsig (valid_default authority) calls)
  · exact append_of_error entry prim
  · exact (verify_eq_ok_iff entry prim).mpr (((verify_eq_ok_iff entry prim).mp h).take n)
  · exact ((verify_eq_ok_iff entry prim).mp h).content_eq_of_head_eq
      ((verify_eq_ok_iff entry prim).mp h') hash hhead

end SignedChain

/-! ## Primitives to evaluate with -/

/-- A hash that keeps the last bytes of its input behind a one, and a signature that
is checked by signing again. -/
def Primitives.replay : Primitives where
  hash preimage := Vector.ofFn fun i =>
    if i.val = 0 then 1 else preimage.getD (preimage.length - i.val) 0
  SigningKey := Bytes32
  VerifyingKey := Bytes32
  verifyingKey key := key
  sign key message := Vector.ofFn fun i => key.toList.getD i 0 + message.getD i 0
  fromBytes := some
  verify key message signature :=
    signature == Vector.ofFn fun i => key.toList.getD i 0 + message.getD i 0

theorem Primitives.replay_signaturesVerify : replay.SignaturesVerify :=
  fun key => ⟨key, rfl, fun _ => beq_self_eq_true _⟩

theorem Primitives.replay_hash_ne_zero (preimage : Bytes) : replay.hash preimage ≠ zeroHash := by
  intro h
  have hfirst := congrArg (fun v : Bytes32 => v[0]) h
  simp [replay, zeroHash] at hfirst

end Vbuff.Sync
