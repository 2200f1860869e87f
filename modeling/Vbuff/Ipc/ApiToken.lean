import Vbuff.Ipc.Token
import Vbuff.Lib.MachineInt
import Vbuff.Types.Clip

/-!
# Local API tokens

A token carries scopes, a time window and a filter of any size.  The verifier takes tokens of up to
2048 bytes; the issuer does not look at the size, so that a large filter gives a token that is
never accepted.
-/

namespace Vbuff.Ipc

open ByteString Result Text MachineInt Vbuff.Types
open Std (ExtTreeSet)

def API_TOKEN_DOMAIN : MacDomain := dotSeparated "vbuff-local-api-v1"

def MAX_TOKEN_BYTES : ℕ := 2048

def MAX_TOKEN_TTL_MS : UInt64 := 30 * 24 * 60 * 60 * 1000

inductive ApiScope where
  | ReadHistory
  | ReadSensitiveHistory
  | WriteHistory
  | SubscribeEvents
  | RunTransforms
  | Diagnostics
  deriving DecidableEq, Repr

instance : Std.LawfulEqCmp (compareOn ApiScope.ctorIdx) where
  compare_self := Std.ReflCmp.compare_self
  eq_of_compare {a b} h := by
    have hidx : a.ctorIdx = b.ctorIdx := compare_eq_iff_eq.mp h
    cases a <;> cases b <;> first | rfl | cases hidx

structure ClipAccessFilter where
  kinds : ExtTreeSet ContentKind (compareOn ContentKind.ctorIdx)
  tags : ExtTreeSet String
  collections : ExtTreeSet String

structure ApiTokenClaims where
  tokenId : Vector UInt8 16
  scopes : ExtTreeSet ApiScope (compareOn ApiScope.ctorIdx)
  issuedAtMs : UInt64
  expiresAtMs : UInt64
  filter : ClipAccessFilter

inductive ApiTokenError where
  | Randomness
  | EmptyScopes
  | InvalidToken
  | InvalidSignature
  | Expired
  | NotYetValid
  | TtlTooLong
  | MissingScope
  deriving DecidableEq, Repr

namespace ApiTokenIssuer

section Issuer

variable (codec : TokenCodec ApiTokenClaims) (signingKey : Bytes32)

def encode (claims : ApiTokenClaims) : Except ApiTokenError Chars :=
  match codec.toVec claims with
  | .error _ => .error .InvalidToken
  | .ok json => .ok (codec.token API_TOKEN_DOMAIN signingKey json)

/-- `random` is what `getrandom` gives. -/
def issueFiltered (random : Option (Vector UInt8 16))
    (scopes : ExtTreeSet ApiScope (compareOn ApiScope.ctorIdx)) (filter : ClipAccessFilter)
    (issuedAtMs ttlMs : UInt64) : Except ApiTokenError Chars := do
  ensure (¬ scopes.isEmpty) .EmptyScopes
  ensure (ttlMs ≠ 0 ∧ ttlMs ≤ MAX_TOKEN_TTL_MS) .TtlTooLong
  let tokenId ← okOr random .Randomness
  let expiresAtMs ← okOr (checkedAdd64 issuedAtMs ttlMs) .TtlTooLong
  encode codec signingKey { tokenId, scopes, issuedAtMs, expiresAtMs, filter }

/-- The claims of a token whose framing and MAC pass. -/
def openToken (token : Chars) : Except ApiTokenError ApiTokenClaims := do
  ensure (utf8Len token ≤ MAX_TOKEN_BYTES) .InvalidToken
  let (payload, signature) ← okOr (TokenCodec.splitToken token) .InvalidToken
  ensure (utf8Len payload ≤ MAX_TOKEN_BYTES ∧ utf8Len signature ≤ 128) .InvalidToken
  let signature ← okOr (Base64.decode signature) .InvalidToken
  ensure (verifyProof (codec.tokenProof API_TOKEN_DOMAIN signingKey payload) signature)
    .InvalidSignature
  let json ← okOr (Base64.decode payload) .InvalidToken
  match codec.fromSlice json with
  | .error _ => .error .InvalidToken
  | .ok claims => .ok claims

def verify (token : Chars) (requiredScope : ApiScope) (nowMs : UInt64) :
    Except ApiTokenError ApiTokenClaims := do
  let claims ← openToken codec signingKey token
  ensure (claims.issuedAtMs ≤ claims.expiresAtMs) .InvalidToken
  let lifetimeMs := claims.expiresAtMs - claims.issuedAtMs
  ensure (lifetimeMs ≠ 0) .InvalidToken
  ensure (lifetimeMs ≤ MAX_TOKEN_TTL_MS) .TtlTooLong
  ensure (claims.issuedAtMs ≤ nowMs) .NotYetValid
  ensure (nowMs < claims.expiresAtMs) .Expired
  ensure (claims.scopes.contains requiredScope) .MissingScope
  .ok claims

end Issuer

variable {codec : TokenCodec ApiTokenClaims} {signingKey : Bytes32}

/-! ## Opening what was put together -/

variable (signingKey) in
/-- A token opens to the claims that were written, unless it is too long. -/
theorem openToken_token (hcodec : codec.ReadsBack) {claims : ApiTokenClaims} {json : Bytes}
    (hjson : codec.toVec claims = .ok json) :
    openToken codec signingKey (codec.token API_TOKEN_DOMAIN signingKey json) =
      if json.length ≤ 1500 then .ok claims else .error .InvalidToken := by
  rw [openToken, TokenCodec.utf8Len_token]
  by_cases hshort : json.length ≤ 1500
  · have hlength : 47 + (4 * json.length + 2) / 3 ≤ MAX_TOKEN_BYTES := by
      rw [MAX_TOKEN_BYTES]
      omega
    have hparts : utf8Len (Base64.encode json) ≤ MAX_TOKEN_BYTES ∧
        utf8Len (Base64.encode (codec.tokenProof API_TOKEN_DOMAIN signingKey
          (Base64.encode json)).toList) ≤ 128 := by
      rw [TokenCodec.utf8Len_encode, TokenCodec.utf8Len_encode, Vector.length_toList,
        MAX_TOKEN_BYTES]
      omega
    have hproof : verifyProof (codec.tokenProof API_TOKEN_DOMAIN signingKey (Base64.encode json))
        (codec.tokenProof API_TOKEN_DOMAIN signingKey (Base64.encode json)).toList = true :=
      beq_self_eq_true _
    rw [if_pos hshort, ensure_of hlength, TokenCodec.splitToken_token]
    simp only [okOr_some, ok_bind, ensure_of hparts, Base64.decode_encode, ensure_of hproof,
      hcodec claims json hjson]
  · have hlength : ¬ 47 + (4 * json.length + 2) / 3 ≤ MAX_TOKEN_BYTES := by
      rw [MAX_TOKEN_BYTES]
      omega
    rw [if_neg hshort, ensure_of_not hlength]
    rfl

/-- What opens is put together from a payload of some claims. -/
theorem exists_of_openToken {token : Chars} {claims : ApiTokenClaims}
    (h : openToken codec signingKey token = .ok claims) :
    ∃ json, codec.fromSlice json = .ok claims ∧
      token = codec.token API_TOKEN_DOMAIN signingKey json := by
  simp only [openToken, bind_eq_ok, ensure_eq_ok, okOr_eq_ok] at h
  obtain ⟨_, -, ⟨payload, signature⟩, hsplit, _, -, tag, htag, _, hproof, json, hjson, h⟩ := h
  have hclaims : codec.fromSlice json = .ok claims := by
    split at h
    · cases h
    · rename_i other hother
      rw [hother, Except.ok.inj h]
  refine ⟨json, hclaims, ?_⟩
  obtain rfl := Base64.decode_eq_some.mp hjson
  rw [TokenCodec.splitToken_eq_some hsplit, TokenCodec.token,
    show (codec.tokenProof API_TOKEN_DOMAIN signingKey (Base64.encode json)).toList = tag from
      beq_iff_eq.mp hproof, Base64.decode_eq_some.mp htag]

/-- What `verify` gives, once the token is open. -/
theorem verify_eq_ok {token : Chars} {scope : ApiScope} {nowMs : UInt64}
    {claims : ApiTokenClaims} :
    verify codec signingKey token scope nowMs = .ok claims ↔
      openToken codec signingKey token = .ok claims ∧
      claims.issuedAtMs ≤ claims.expiresAtMs ∧ claims.expiresAtMs - claims.issuedAtMs ≠ 0 ∧
      claims.expiresAtMs - claims.issuedAtMs ≤ MAX_TOKEN_TTL_MS ∧ claims.issuedAtMs ≤ nowMs ∧
      nowMs < claims.expiresAtMs ∧ scope ∈ claims.scopes := by
  simp only [verify, bind_eq_ok, ensure_eq_ok, ExtTreeSet.contains_iff_mem]
  constructor
  · rintro ⟨opened, hopen, _, horder, _, hzero, _, hlong, _, hstarted, _, hlive, _, hscope, h⟩
    obtain rfl := Except.ok.inj h
    exact ⟨hopen, horder, hzero, hlong, hstarted, hlive, hscope⟩
  · rintro ⟨hopen, horder, hzero, hlong, hstarted, hlive, hscope⟩
    exact ⟨claims, hopen, (), horder, (), hzero, (), hlong, (), hstarted, (), hlive, (), hscope,
      rfl⟩

/-! ## Issued tokens -/

/-- What a call of `issue_filtered` is given, `getrandom` included. -/
structure Issue where
  tokenId : Vector UInt8 16
  scopes : ExtTreeSet ApiScope (compareOn ApiScope.ctorIdx)
  filter : ClipAccessFilter
  issuedAtMs : UInt64
  ttlMs : UInt64

namespace Issue

/-- The claims that are issued. -/
def claims (issue : Issue) : ApiTokenClaims where
  tokenId := issue.tokenId
  scopes := issue.scopes
  issuedAtMs := issue.issuedAtMs
  expiresAtMs := issue.issuedAtMs + issue.ttlMs
  filter := issue.filter

variable (codec signingKey) in
def issued (issue : Issue) : Except ApiTokenError Chars :=
  issueFiltered codec signingKey (some issue.tokenId) issue.scopes issue.filter issue.issuedAtMs
    issue.ttlMs

variable (codec signingKey) in
/-- The token opens for the scopes and the time it was issued for, to its claims, and for nothing
else. -/
def Honoured (issue : Issue) (token : Chars) : Prop :=
  (∀ scope ∈ issue.scopes, ∀ nowMs, issue.issuedAtMs ≤ nowMs →
    nowMs.toNat < issue.issuedAtMs.toNat + issue.ttlMs.toNat →
    verify codec signingKey token scope nowMs = .ok issue.claims) ∧
  ∀ scope nowMs, ¬ (scope ∈ issue.scopes ∧ issue.issuedAtMs ≤ nowMs ∧
      nowMs.toNat < issue.issuedAtMs.toNat + issue.ttlMs.toNat) →
    ∃ e, verify codec signingKey token scope nowMs = .error e

variable (codec) in
/-- The claims take at most 1500 bytes. -/
def Fits (issue : Issue) : Prop :=
  ∀ json, codec.toVec issue.claims = .ok json → json.length ≤ 1500

variable (codec signingKey) in
/-- What the issuer has checked. -/
structure Checked (issue : Issue) (json : Bytes) (token : Chars) : Prop where
  someScope : ∃ scope, scope ∈ issue.scopes
  positive : 0 < issue.ttlMs.toNat
  bounded : issue.ttlMs ≤ MAX_TOKEN_TTL_MS
  expires : issue.claims.expiresAtMs.toNat = issue.issuedAtMs.toNat + issue.ttlMs.toNat
  written : codec.toVec issue.claims = .ok json
  framed : token = codec.token API_TOKEN_DOMAIN signingKey json

theorem checked_of_issued {issue : Issue} {token : Chars}
    (h : issue.issued codec signingKey = .ok token) :
    ∃ json, issue.Checked codec signingKey json token := by
  simp only [issued, issueFiltered, bind_eq_ok, ensure_eq_ok, okOr_eq_ok] at h
  obtain ⟨_, hscopes, _, ⟨hzero, hbounded⟩, _, hid, expires, hexpires, h⟩ := h
  obtain rfl := Option.some.inj hid
  have hfits := checkedAdd64_eq_some.mp hexpires
  obtain rfl : expires = issue.issuedAtMs + issue.ttlMs := by
    rw [← UInt64.toNat_inj, UInt64.toNat_add, ← hfits, Nat.mod_eq_of_lt (UInt64.toNat_lt expires)]
  obtain ⟨scope, hscope⟩ := List.exists_mem_of_ne_nil issue.scopes.toList fun hnil =>
    hscopes (ExtTreeSet.isEmpty_iff.mpr (ExtTreeSet.toList_eq_nil_iff.mp hnil))
  have hpositive : 0 < issue.ttlMs.toNat := by
    rw [Nat.pos_iff_ne_zero]
    exact fun h => hzero (UInt64.toNat_inj.mp h)
  rw [encode] at h
  split at h
  · cases h
  · rename_i json hjson
    exact ⟨json, ⟨scope, ExtTreeSet.mem_toList.mp hscope⟩, hpositive, hbounded, hfits, hjson,
      (Except.ok.inj h).symm⟩

/-- A token that opens to its claims is honoured. -/
theorem Checked.honoured {issue : Issue} {json : Bytes} {token : Chars}
    (h : issue.Checked codec signingKey json token)
    (hopen : openToken codec signingKey token = .ok issue.claims) :
    issue.Honoured codec signingKey token := by
  have hexpires := h.expires
  have hpositive := h.positive
  have horder : issue.claims.issuedAtMs ≤ issue.claims.expiresAtMs := by
    rw [UInt64.le_iff_toNat_le, hexpires]
    exact Nat.le_add_right _ _
  have hlifetime : issue.claims.expiresAtMs - issue.claims.issuedAtMs = issue.ttlMs := by
    rw [← UInt64.toNat_inj, UInt64.toNat_sub_of_le _ _ horder, hexpires]
    exact Nat.add_sub_cancel_left _ _
  have hzero : issue.ttlMs ≠ 0 := by
    intro hzero
    rw [hzero] at hpositive
    exact absurd hpositive (Nat.lt_irrefl 0)
  have hlive : ∀ nowMs : UInt64, nowMs < issue.claims.expiresAtMs ↔
      nowMs.toNat < issue.issuedAtMs.toNat + issue.ttlMs.toNat := fun nowMs => by
    rw [UInt64.lt_iff_toNat_lt, hexpires]
  constructor
  · intro scope hscope nowMs hstarted hbefore
    rw [verify_eq_ok, hlifetime]
    exact ⟨hopen, horder, hzero, h.bounded, hstarted, (hlive nowMs).mpr hbefore, hscope⟩
  · intro scope nowMs hother
    cases hverify : verify codec signingKey token scope nowMs with
    | error e => exact ⟨e, rfl⟩
    | ok claims =>
        obtain ⟨hopened, -, -, -, hstarted, hbefore, hscope⟩ := verify_eq_ok.mp hverify
        obtain rfl := Except.ok.inj (hopen.symm.trans hopened)
        exact absurd ⟨hscope, hstarted, (hlive nowMs).mp hbefore⟩ hother

/-- An issued token is honoured exactly when its claims fit. -/
theorem honoured_iff_fits (hcodec : codec.ReadsBack) {issue : Issue} {token : Chars}
    (h : issue.issued codec signingKey = .ok token) :
    issue.Honoured codec signingKey token ↔ issue.Fits codec := by
  obtain ⟨json, hchecked⟩ := checked_of_issued h
  have hopen := openToken_token signingKey hcodec hchecked.written
  rw [← hchecked.framed] at hopen
  constructor
  · intro hhonoured json' hjson'
    obtain rfl := Except.ok.inj (hchecked.written.symm.trans hjson')
    by_contra hlong
    rw [if_neg hlong] at hopen
    obtain ⟨scope, hscope⟩ := hchecked.someScope
    have hverify := hhonoured.1 scope hscope issue.issuedAtMs (UInt64.le_refl _)
      (Nat.lt_add_of_pos_right hchecked.positive)
    rw [(verify_eq_ok.mp hverify).1] at hopen
    cases hopen
  · intro hfits
    rw [if_pos (hfits json hchecked.written)] at hopen
    exact hchecked.honoured hopen

end Issue

/-- **Tokens are honoured when they fit.**  An issued token opens for its scopes and its time to
its claims, and for nothing else, exactly when its claims take at most 1500 bytes.  Where a MAC is
presented only for claims that were written under the key, no other string opens. -/
theorem issued_honoured_iff (hcodec : codec.ReadsBack) :
    (∀ (issue : Issue) token, issue.issued codec signingKey = .ok token →
      (issue.Honoured codec signingKey token ↔ issue.Fits codec)) ∧
    ∀ (written : Set ApiTokenClaims) token scope nowMs claims,
      (∀ json, token = codec.token API_TOKEN_DOMAIN signingKey json →
        ∃ own ∈ written, codec.toVec own = .ok json) →
      verify codec signingKey token scope nowMs = .ok claims →
      claims ∈ written ∧ encode codec signingKey claims = .ok token := by
  refine ⟨fun issue token h => Issue.honoured_iff_fits hcodec h, ?_⟩
  intro written token scope nowMs claims hideal h
  obtain ⟨json, hclaims, htoken⟩ := exists_of_openToken (verify_eq_ok.mp h).1
  obtain ⟨own, hmem, hjson⟩ := hideal json htoken
  obtain rfl := Except.ok.inj (hclaims.symm.trans (hcodec own json hjson))
  refine ⟨hmem, ?_⟩
  rw [encode, hjson, htoken]

/-! ## A small filter and a large one -/

/-- Whether two claims are the same, part by part. -/
def same (a b : ApiTokenClaims) : Bool :=
  a.tokenId = b.tokenId ∧ a.scopes.toList = b.scopes.toList ∧ a.issuedAtMs = b.issuedAtMs ∧
    a.expiresAtMs = b.expiresAtMs ∧ a.filter.kinds.toList = b.filter.kinds.toList ∧
    a.filter.tags.toList = b.filter.tags.toList ∧
    a.filter.collections.toList = b.filter.collections.toList

theorem eq_of_same {a b : ApiTokenClaims} (h : same a b = true) : a = b := by
  obtain ⟨hid, hscopes, hissued, hexpires, hkinds, htags, hcollections⟩ := of_decide_eq_true h
  obtain ⟨_, _, _, _, _, _, _⟩ := a
  obtain ⟨_, _, _, _, _, _, _⟩ := b
  obtain rfl := hid
  obtain rfl := ExtTreeSet.toList_inj.mp hscopes
  obtain rfl := hissued
  obtain rfl := hexpires
  obtain rfl := ExtTreeSet.toList_inj.mp hkinds
  obtain rfl := ExtTreeSet.toList_inj.mp htags
  obtain rfl := ExtTreeSet.toList_inj.mp hcollections
  rfl

/-- A codec for one value. -/
def codecOf (claims : ApiTokenClaims) (json : Bytes) : TokenCodec ApiTokenClaims where
  hmac _ _ := Vector.replicate 32 0
  toVec other := if same other claims then .ok json else .error "no other is written"
  fromSlice bytes := if bytes = json then .ok claims else .error "expected value"

theorem readsBack_codecOf (claims : ApiTokenClaims) (json : Bytes) :
    (codecOf claims json).ReadsBack := by
  intro other bytes h
  simp only [codecOf] at h ⊢
  split at h
  · rename_i hsame
    rw [if_pos (Except.ok.inj h).symm, eq_of_same hsame]
  · cases h

theorem toVec_codecOf (claims : ApiTokenClaims) (json : Bytes) :
    (codecOf claims json).toVec claims = .ok json := by
  have hsame : same claims claims = true := decide_eq_true ⟨rfl, rfl, rfl, rfl, rfl, rfl, rfl⟩
  simp only [codecOf, hsame, if_true]

/-- A token for reading the history, from 100 to 150. -/
def readHistory (filter : ClipAccessFilter) : Issue where
  tokenId := Vector.replicate 16 0
  scopes := (∅ : ExtTreeSet ApiScope (compareOn ApiScope.ctorIdx)).insert .ReadHistory
  filter := filter
  issuedAtMs := 100
  ttlMs := 50

/-- The claims of `readHistory` as text, around the names of the collections. -/
def readHistoryJson (collections : Bytes) : Bytes :=
  asBytes "\x7b\"token_id\":[0,0,0,0,0,0,0,0,0,0,0,0,0,0,0,0],\"scopes\":[\"read_history\"]," ++
    asBytes "\"issued_at_ms\":100,\"expires_at_ms\":150,\"filter\":\x7b\"kinds\":[],\"tags\":[]," ++
    asBytes "\"collections\":[" ++ collections ++ asBytes "]\x7d\x7d"

/-- The token that `readHistory` gives. -/
theorem issued_readHistory (filter : ClipAccessFilter) (json : Bytes) :
    (readHistory filter).issued (codecOf (readHistory filter).claims json) signingKey =
      .ok ((codecOf (readHistory filter).claims json).token API_TOKEN_DOMAIN signingKey json) := by
  have hscopes : ¬ (readHistory filter).scopes.isEmpty = true := by
    rw [ExtTreeSet.isEmpty_iff]
    exact ExtTreeSet.insert_ne_empty
  have httl : (readHistory filter).ttlMs ≠ 0 ∧ (readHistory filter).ttlMs ≤ MAX_TOKEN_TTL_MS := by
    show (50 : UInt64) ≠ 0 ∧ (50 : UInt64) ≤ MAX_TOKEN_TTL_MS
    decide
  have hexpires : checkedAdd64 (readHistory filter).issuedAtMs (readHistory filter).ttlMs =
      some (readHistory filter).claims.expiresAtMs := by
    show checkedAdd64 100 50 = some 150
    decide
  rw [Issue.issued, issueFiltered, ensure_of hscopes, ensure_of httl, hexpires]
  show encode _ _ (readHistory filter).claims = _
  rw [encode, toVec_codecOf]

/-- With an empty filter the claims fit, and the token is honoured. -/
theorem issued_honoured_iff_empty :
    let issue := readHistory { kinds := ∅, tags := ∅, collections := ∅ }
    let json := readHistoryJson []
    ∃ token, issue.issued (codecOf issue.claims json) (Vector.replicate 32 7) = .ok token ∧
      issue.Honoured (codecOf issue.claims json) (Vector.replicate 32 7) token := by
  intro issue json
  refine ⟨_, issued_readHistory _ json, ?_⟩
  refine ((issued_honoured_iff (readsBack_codecOf issue.claims json)).1 issue _
    (issued_readHistory _ json)).mpr fun written hwritten => ?_
  rw [toVec_codecOf] at hwritten
  rw [← Except.ok.inj hwritten]
  decide +kernel

/-- A collection of 255 letters and one more. -/
def longCollection (last : Char) : String := String.ofList (List.replicate 255 'x' ++ [last])

/-- With six collections of 256 bytes the token is issued, and does not open at all. -/
theorem issued_not_honoured :
    let issue := readHistory
      { kinds := ∅, tags := ∅, collections := ExtTreeSet.ofList ("abcdef".toList.map longCollection) }
    let json := readHistoryJson ([(0x2C : UInt8)].intercalate
      ([0x61, 0x62, 0x63, 0x64, 0x65, 0x66].map fun last =>
        [0x22] ++ List.replicate 255 0x78 ++ [last, 0x22]))
    ∃ token, issue.issued (codecOf issue.claims json) (Vector.replicate 32 7) = .ok token ∧
      ¬ issue.Honoured (codecOf issue.claims json) (Vector.replicate 32 7) token := by
  intro issue json
  refine ⟨_, issued_readHistory _ json, fun hhonoured => ?_⟩
  have hfits := (Issue.honoured_iff_fits (readsBack_codecOf issue.claims json)
    (issued_readHistory _ json)).mp hhonoured json (toVec_codecOf issue.claims json)
  simp only [json, readHistoryJson, List.length_append, List.map_cons, List.map_nil,
    List.intercalate, List.intersperse, List.flatten_cons, List.flatten_nil, List.length_cons,
    List.length_nil, List.length_replicate] at hfits
  omega

end ApiTokenIssuer

end Vbuff.Ipc
