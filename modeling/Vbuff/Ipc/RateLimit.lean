import Vbuff.Lib.ByteString
import Vbuff.Lib.Mealy
import Vbuff.Lib.TreeMap
import Vbuff.Types.Replay

/-!
# Quotas of API tokens

Each token has a count for each kind of call, in the window of its last call.  The counts start anew
when a call falls into a later window, and windows that are over are only dropped when a token
without one arrives.  The table holds 1024 tokens.

A count is the number of calls that were admitted in its window, and a token that has lost its
window has none admitted from the current one on (`Counted`).  Whatever the clock does, a quota is
therefore exact (`exact_per_window`).
-/

namespace Vbuff.Ipc

open Std (ExtTreeMap)

inductive OperationContractError where
  | Invalid (detail : String)
  | CursorExpired
  | RateLimited
  deriving DecidableEq, Repr

def MAX_RATE_LIMIT_TOKENS : ℕ := 1024
def MIN_RATE_LIMIT_WINDOW_MS : UInt64 := 1000
def MAX_RATE_LIMIT_WINDOW_MS : UInt64 := 24 * 60 * 60 * 1000

inductive RateLimitKind where
  | Read
  | Write
  | Paste
  deriving DecidableEq, Repr

instance : Std.LawfulEqCmp (compareOn RateLimitKind.ctorIdx) where
  compare_self := Std.ReflCmp.compare_self
  eq_of_compare {a b} h := by
    have hidx : a.ctorIdx = b.ctorIdx := compare_eq_iff_eq.mp h
    cases a <;> cases b <;> first | rfl | cases hidx

structure RateLimitPolicy where
  windowMs : UInt64
  readsPerWindow : UInt32
  writesPerWindow : UInt32
  pastesPerWindow : UInt32
  deriving DecidableEq, Repr

namespace RateLimitPolicy

def quota (self : RateLimitPolicy) : RateLimitKind → UInt32
  | .Read => self.readsPerWindow
  | .Write => self.writesPerWindow
  | .Paste => self.pastesPerWindow

def isValid (self : RateLimitPolicy) : Bool :=
  MIN_RATE_LIMIT_WINDOW_MS ≤ self.windowMs && self.windowMs ≤ MAX_RATE_LIMIT_WINDOW_MS &&
    0 < self.readsPerWindow && 0 < self.writesPerWindow && 0 < self.pastesPerWindow

/-- The window of a time. -/
def windowId (self : RateLimitPolicy) (nowMs : UInt64) : ℕ := nowMs.toNat / self.windowMs.toNat

end RateLimitPolicy

abbrev TokenHash := Vector UInt8 32

abbrev KindCounts := ExtTreeMap RateLimitKind ℕ (compareOn RateLimitKind.ctorIdx)

/-- A count stays below a quota of 32 bits. -/
structure TokenWindow where
  windowId : ℕ
  counts : KindCounts

def TokenWindow.default : TokenWindow := { windowId := 0, counts := ∅ }

structure TokenRateLimiter where
  policy : RateLimitPolicy
  windows : ExtTreeMap TokenHash TokenWindow
  latestWindowId : Option ℕ
  valid : policy.isValid = true

namespace TokenRateLimiter

def new (policy : RateLimitPolicy) : Except OperationContractError TokenRateLimiter :=
  if valid : policy.isValid = true then
    .ok { policy, windows := ∅, latestWindowId := none, valid }
  else .error (.Invalid "rate_limit_policy_invalid")

/-- The windows once those that are over are dropped, which happens for a new token only. -/
def retained (self : TokenRateLimiter) (tokenHash : TokenHash) (windowId : ℕ) :
    ExtTreeMap TokenHash TokenWindow :=
  if tokenHash ∈ self.windows then self.windows
  else self.windows.filter fun _ window => windowId - 1 ≤ window.windowId

/-- The end of `admit`, for a token that has a window or for which there is room. -/
def count (self : TokenRateLimiter) (tokenHash : TokenHash) (kind : RateLimitKind)
    (windowId : ℕ) : TokenRateLimiter × Except OperationContractError Unit :=
  let window := self.windows.getD tokenHash TokenWindow.default
  let put (window : TokenWindow) : TokenRateLimiter :=
    { self with windows := self.windows.insert tokenHash window }
  if windowId < window.windowId then
    (put window, .error (.Invalid "rate_limit_clock_moved_backward"))
  else
    let window := if window.windowId < windowId then { windowId, counts := ∅ } else window
    let count := window.counts.getD kind 0
    if (self.policy.quota kind).toNat ≤ count then
      (put { window with counts := window.counts.insert kind count }, .error .RateLimited)
    else (put { window with counts := window.counts.insert kind (count + 1) }, .ok ())

/-- `TokenRateLimiter::admit`. -/
def admitCall (self : TokenRateLimiter) (tokenHash : TokenHash) (kind : RateLimitKind)
    (nowMs : UInt64) : TokenRateLimiter × Except OperationContractError Unit :=
  if tokenHash = Vector.replicate 32 0 then
    (self, .error (.Invalid "rate_limit_token_hash_invalid"))
  else
    let windowId := self.policy.windowId nowMs
    if self.latestWindowId.any (windowId < ·) then
      (self, .error (.Invalid "rate_limit_clock_moved_backward"))
    else
      let self := { self with
        latestWindowId := some windowId
        windows := self.retained tokenHash windowId }
      if tokenHash ∉ self.windows ∧ MAX_RATE_LIMIT_TOKENS ≤ self.windows.size then
        (self, .error .RateLimited)
      else self.count tokenHash kind windowId

/-! ## Runs -/

structure Call where
  tokenHash : TokenHash
  kind : RateLimitKind
  nowMs : UInt64
  deriving DecidableEq

def Call.valid (call : Call) : Prop := call.tokenHash ≠ Vector.replicate 32 0

def step (self : TokenRateLimiter) (call : Call) :
    TokenRateLimiter × Except OperationContractError Unit :=
  self.admitCall call.tokenHash call.kind call.nowMs

abbrev Log := List (Call × Except OperationContractError Unit)

section Policy

variable (policy : RateLimitPolicy)

def Call.window (call : Call) : ℕ := policy.windowId call.nowMs

/-- How many calls of a kind were admitted for a token in a window. -/
def admitted (log : Log) (tokenHash : TokenHash) (kind : RateLimitKind) (window : ℕ) : ℕ :=
  log.countP fun entry =>
    decide (entry.1.tokenHash = tokenHash ∧ entry.1.kind = kind ∧
      entry.1.window policy = window) && entry.2.isOk

/-- What a limiter counts of the calls it has answered. -/
structure Counted (log : Log) (s : TokenRateLimiter) : Prop where
  same : s.policy = policy
  latest : ∀ entry ∈ log, entry.1.valid →
    ∃ latest, s.latestWindowId = some latest ∧ entry.1.window policy ≤ latest
  called : ∀ latest, s.latestWindowId = some latest →
    ∃ entry ∈ log, entry.1.valid ∧ entry.1.window policy = latest
  seen : ∀ token window, s.windows[token]? = some window →
    ∃ entry ∈ log, entry.1.valid ∧ entry.1.tokenHash = token ∧
      entry.1.window policy = window.windowId
  counts : ∀ token window, s.windows[token]? = some window → ∀ kind,
    window.counts.getD kind 0 = admitted policy log token kind window.windowId
  later : ∀ token window, s.windows[token]? = some window → ∀ kind later,
    window.windowId < later → admitted policy log token kind later = 0
  dropped : ∀ token, s.windows[token]? = none → ∀ kind window,
    (∀ latest, s.latestWindowId = some latest → latest ≤ window) →
    admitted policy log token kind window = 0
  quota : ∀ token kind window,
    admitted policy log token kind window ≤ (policy.quota kind).toNat
  size : s.windows.size ≤ MAX_RATE_LIMIT_TOKENS

end Policy

/-! ## One call -/

/-- Everything a call can do. -/
inductive Outcome (s : TokenRateLimiter) (call : Call) :
    TokenRateLimiter × Except OperationContractError Unit → Prop where
  | zero (hzero : ¬ call.valid) :
      Outcome s call (s, .error (.Invalid "rate_limit_token_hash_invalid"))
  | rewound (latest : ℕ) (hlatest : s.latestWindowId = some latest)
      (hlt : call.window s.policy < latest) :
      Outcome s call (s, .error (.Invalid "rate_limit_clock_moved_backward"))
  | full (hvalid : call.valid)
      (hlatest : ∀ latest, s.latestWindowId = some latest → latest ≤ call.window s.policy)
      (habsent : s.windows[call.tokenHash]? = none)
      (hsize : s.windows.size = MAX_RATE_LIMIT_TOKENS)
      (hrecent : ∀ (token : TokenHash) (window : TokenWindow), s.windows[token]? = some window →
        call.window s.policy - 1 ≤ window.windowId) :
      Outcome s call ({ s with latestWindowId := some (call.window s.policy) },
        .error .RateLimited)
  | exhausted (window : TokenWindow) (hvalid : call.valid)
      (hlatest : ∀ latest, s.latestWindowId = some latest → latest ≤ call.window s.policy)
      (hwindow : s.windows[call.tokenHash]? = some window)
      (hsame : window.windowId = call.window s.policy)
      (hquota : (s.policy.quota call.kind).toNat ≤ window.counts.getD call.kind 0) :
      Outcome s call ({ s with latestWindowId := some (call.window s.policy) },
        .error .RateLimited)
  | admitted (counts : KindCounts) (hvalid : call.valid)
      (hlatest : ∀ latest, s.latestWindowId = some latest → latest ≤ call.window s.policy)
      (hquota : counts.getD call.kind 0 < (s.policy.quota call.kind).toNat)
      (hcounts : (∃ window, s.windows[call.tokenHash]? = some window ∧
          window.windowId = call.window s.policy ∧ counts = window.counts) ∨
        (counts = ∅ ∧ ∀ window : TokenWindow, s.windows[call.tokenHash]? = some window →
          window.windowId < call.window s.policy))
      (hroom : call.tokenHash ∈ s.windows ∨
        (s.retained call.tokenHash (call.window s.policy)).size < MAX_RATE_LIMIT_TOKENS) :
      Outcome s call
        ({ s with
            latestWindowId := some (call.window s.policy)
            windows := (s.retained call.tokenHash (call.window s.policy)).insert call.tokenHash
              { windowId := call.window s.policy
                counts := counts.insert call.kind (counts.getD call.kind 0 + 1) } },
          .ok ())

theorem mem_retained_self (s : TokenRateLimiter) (token : TokenHash) (windowId : ℕ) :
    token ∈ s.retained token windowId ↔ token ∈ s.windows := by
  rw [retained]
  split
  · rfl
  · next habsent =>
      exact ⟨fun h => absurd (ExtTreeMap.mem_of_mem_filter h) habsent, fun h => absurd h habsent⟩

theorem retained_self (s : TokenRateLimiter) (token : TokenHash) (windowId : ℕ) :
    (s.retained token windowId)[token]? = s.windows[token]? := by
  by_cases hmem : token ∈ s.windows
  · rw [retained, if_pos hmem]
  · rw [ExtTreeMap.getElem?_eq_none hmem,
      ExtTreeMap.getElem?_eq_none fun h => hmem ((s.mem_retained_self token windowId).mp h)]

/-- A window that is dropped was over before the last one. -/
theorem of_retained {s : TokenRateLimiter} {token token' : TokenHash} {windowId : ℕ} :
    (∀ window, (s.retained token windowId)[token']? = some window →
      s.windows[token']? = some window) ∧
    ((s.retained token windowId)[token']? = none →
      ∀ window, s.windows[token']? = some window → window.windowId < windowId) := by
  rw [retained]
  split
  · next hmem =>
      refine ⟨fun _ => id, fun hnone window hwindow => ?_⟩
      rw [hnone] at hwindow
      cases hwindow
  · rw [ExtTreeMap.getElem?_filter']
    refine ⟨fun window h => (Option.filter_eq_some_iff.mp h).1, fun hnone window hwindow => ?_⟩
    rw [hwindow, Option.filter_eq_none_iff] at hnone
    have hover := hnone window rfl
    rw [decide_eq_true_eq] at hover
    omega

theorem size_retained_le (s : TokenRateLimiter) (token : TokenHash) (windowId : ℕ) :
    (s.retained token windowId).size ≤ s.windows.size := by
  rw [retained]
  split
  · exact le_rfl
  · exact ExtTreeMap.size_filter_le_size

theorem quota_pos (s : TokenRateLimiter) (kind : RateLimitKind) :
    0 < (s.policy.quota kind).toNat := by
  have hvalid := s.valid
  simp only [RateLimitPolicy.isValid, Bool.and_eq_true, decide_eq_true_eq] at hvalid
  obtain ⟨⟨⟨-, hreads⟩, hwrites⟩, hpastes⟩ := hvalid
  cases kind
  · exact UInt32.lt_iff_toNat_lt.mp hreads
  · exact UInt32.lt_iff_toNat_lt.mp hwrites
  · exact UInt32.lt_iff_toNat_lt.mp hpastes

/-- A count that is used up is written back as it stands. -/
theorem insert_count_self {counts : KindCounts} {kind : RateLimitKind}
    (hpos : 0 < counts.getD kind 0) : counts.insert kind (counts.getD kind 0) = counts := by
  rw [ExtTreeMap.getD_eq_getD_getElem?] at hpos ⊢
  cases hcount : counts[kind]? with
  | none =>
      rw [hcount] at hpos
      exact absurd hpos (Nat.lt_irrefl 0)
  | some count => exact TreeMap.insert_eq_self hcount

/-- A full table has dropped nothing. -/
theorem retained_of_full {s : TokenRateLimiter} {token : TokenHash} {windowId : ℕ}
    (hsize : s.windows.size ≤ MAX_RATE_LIMIT_TOKENS)
    (hfull : MAX_RATE_LIMIT_TOKENS ≤ (s.retained token windowId).size)
    (habsent : token ∉ s.windows) :
    s.retained token windowId = s.windows ∧ s.windows.size = MAX_RATE_LIMIT_TOKENS ∧
      ∀ (token' : TokenHash) (window : TokenWindow), s.windows[token']? = some window →
        windowId - 1 ≤ window.windowId := by
  have hle := s.size_retained_le token windowId
  rw [retained, if_neg habsent] at hle hfull ⊢
  have hsame := ExtTreeMap.filter_eq_self_iff.mpr
    (ExtTreeMap.size_filter_eq_size_iff.mp (le_antisymm hle (hsize.trans hfull)))
  refine ⟨hsame, by omega, fun token' window hwindow => ?_⟩
  rw [← hsame, ExtTreeMap.getElem?_filter'] at hwindow
  exact of_decide_eq_true (Option.filter_eq_some_iff.mp hwindow).2

/-- A token whose window is over, or that has none, starts anew. -/
theorem count_of_over (s : TokenRateLimiter) {token : TokenHash} {kind : RateLimitKind}
    {windowId : ℕ} (hover : ∀ window : TokenWindow, s.windows[token]? = some window →
      window.windowId < windowId) :
    s.count token kind windowId =
      ({ s with
          windows := s.windows.insert token
            { windowId
              counts := (∅ : KindCounts).insert kind ((∅ : KindCounts).getD kind 0 + 1) } },
        .ok ()) := by
  have hquota : ¬ (s.policy.quota kind).toNat ≤ (∅ : KindCounts).getD kind 0 := by
    rw [ExtTreeMap.getD_empty]
    exact Nat.not_le.mpr (s.quota_pos kind)
  rw [count]
  dsimp only
  rw [ExtTreeMap.getD_eq_getD_getElem?]
  cases hget : s.windows[token]? with
  | none =>
      have hfirst : ¬ windowId < TokenWindow.default.windowId := Nat.not_lt_zero windowId
      rw [Option.getD_none, if_neg hfirst]
      split
      · rfl
      · next hlast =>
          obtain rfl : windowId = TokenWindow.default.windowId := Nat.eq_zero_of_not_pos hlast
          exact if_neg hquota
  | some window =>
      have hlt := hover window hget
      rw [Option.getD_some, if_neg (Nat.lt_asymm hlt), if_pos hlt, if_neg hquota]

theorem count_of_current (s : TokenRateLimiter) {token : TokenHash} {window : TokenWindow}
    (hget : s.windows[token]? = some window) (kind : RateLimitKind) :
    s.count token kind window.windowId =
      if (s.policy.quota kind).toNat ≤ window.counts.getD kind 0 then (s, .error .RateLimited)
      else
        ({ s with
            windows := s.windows.insert token
              { window with counts := window.counts.insert kind (window.counts.getD kind 0 + 1) } },
          .ok ()) := by
  rw [count]
  dsimp only
  rw [ExtTreeMap.getD_eq_getD_getElem?, hget, Option.getD_some, if_neg (Nat.lt_irrefl _),
    if_neg (Nat.lt_irrefl _)]
  split
  · next hquota =>
      rw [insert_count_self ((s.quota_pos kind).trans_le hquota), TreeMap.insert_eq_self hget]
  · rfl

/-- The calls of a limiter whose windows are not ahead of its clock. -/
theorem step_outcome {s : TokenRateLimiter} (hsize : s.windows.size ≤ MAX_RATE_LIMIT_TOKENS)
    (hbehind : ∀ (token : TokenHash) (window : TokenWindow), s.windows[token]? = some window →
      ∃ latest, s.latestWindowId = some latest ∧ window.windowId ≤ latest)
    (call : Call) : Outcome s call (s.step call) := by
  rw [step, admitCall]
  split
  · next hzero => exact .zero fun hvalid => hvalid hzero
  next hvalid =>
  dsimp only
  split
  · next hrewound =>
      obtain ⟨latest, hlatest, hlt⟩ := Option.any_eq_true _ _ |>.mp hrewound
      exact .rewound latest hlatest (of_decide_eq_true hlt)
  next hforward =>
  have hlatest : ∀ latest, s.latestWindowId = some latest → latest ≤ call.window s.policy := by
    intro latest heq
    rw [heq] at hforward
    exact Nat.not_lt.mp fun hlt => hforward (decide_eq_true hlt)
  split
  · next hfull =>
      rw [mem_retained_self] at hfull
      obtain ⟨hsame, hsize, hrecent⟩ := retained_of_full hsize hfull.2 hfull.1
      rw [hsame]
      exact .full hvalid hlatest (ExtTreeMap.getElem?_eq_none hfull.1) hsize hrecent
  next hroom =>
  rw [mem_retained_self] at hroom
  have hplace : call.tokenHash ∈ s.windows ∨
      (s.retained call.tokenHash (call.window s.policy)).size < MAX_RATE_LIMIT_TOKENS := by
    by_cases hmem : call.tokenHash ∈ s.windows
    · exact .inl hmem
    · exact .inr (Nat.not_le.mp fun hsize => hroom ⟨hmem, hsize⟩)
  have hself := s.retained_self call.tokenHash (call.window s.policy)
  by_cases hover : ∀ window : TokenWindow, s.windows[call.tokenHash]? = some window →
      window.windowId < call.window s.policy
  · rw [count_of_over _ (hself ▸ hover)]
    refine .admitted ∅ hvalid hlatest ?_ (.inr ⟨rfl, hover⟩) hplace
    rw [ExtTreeMap.getD_empty]
    exact s.quota_pos call.kind
  · push Not at hover
    obtain ⟨window, hget, hge⟩ := hover
    obtain ⟨latest, heq, hle⟩ := hbehind _ _ hget
    have hsame : window.windowId = call.window s.policy :=
      le_antisymm (hle.trans (hlatest latest heq)) hge
    have hmem : call.tokenHash ∈ s.windows :=
      ExtTreeMap.mem_iff_isSome_getElem?.mpr (by simp [hget])
    have hkept : s.retained call.tokenHash (call.window s.policy) = s.windows := by
      rw [retained, if_pos hmem]
    have hcount := count_of_current
      { s with
        windows := s.retained call.tokenHash (call.window s.policy)
        latestWindowId := some (call.window s.policy) } (hself.trans hget) call.kind
    rw [hsame] at hcount
    refine hcount ▸ ?_
    split
    · next hquota =>
        rw [hkept]
        exact .exhausted window hvalid hlatest hget hsame hquota
    · next hquota =>
        exact .admitted window.counts hvalid hlatest (Nat.not_le.mp hquota)
          (.inl ⟨window, hget, hsame, rfl⟩) hplace

/-! ## Runs of calls -/

variable {policy : RateLimitPolicy}

theorem admitted_concat (log : Log) (call : Call) (answer : Except OperationContractError Unit)
    (token : TokenHash) (kind : RateLimitKind) (window : ℕ) :
    admitted policy (log ++ [(call, answer)]) token kind window =
      admitted policy log token kind window +
        if (call.tokenHash = token ∧ call.kind = kind ∧ call.window policy = window) ∧
          answer.isOk then 1 else 0 := by
  rw [admitted, List.countP_append, List.countP_singleton, admitted]
  simp only [Bool.and_eq_true, decide_eq_true_eq]

/-- An answer other than `Ok` counts for nothing. -/
theorem admitted_concat_error (log : Log) (call : Call) (e : OperationContractError)
    (token : TokenHash) (kind : RateLimitKind) (window : ℕ) :
    admitted policy (log ++ [(call, .error e)]) token kind window =
      admitted policy log token kind window := by
  rw [admitted_concat, if_neg fun h => Bool.false_ne_true h.2, Nat.add_zero]

/-- A call that is refused leaves the windows as they are; the clock may have moved to it. -/
theorem Counted.refused {log : Log} {s : TokenRateLimiter} {call : Call}
    {e : OperationContractError} {clock : Option ℕ} (h : Counted policy log s)
    (hforward : ∀ latest, s.latestWindowId = some latest →
      ∃ latest', clock = some latest' ∧ latest ≤ latest')
    (hbehind : call.valid → ∃ latest, clock = some latest ∧ call.window policy ≤ latest)
    (hcalled : ∀ latest, clock = some latest →
      s.latestWindowId = some latest ∨ (call.valid ∧ call.window policy = latest)) :
    Counted policy (log ++ [(call, .error e)]) { s with latestWindowId := clock } where
  same := h.same
  latest := by
    intro entry hentry hvalid
    rcases List.mem_append.mp hentry with hold | hnew
    · obtain ⟨latest, heq, hle⟩ := h.latest entry hold hvalid
      obtain ⟨latest', heq', hle'⟩ := hforward latest heq
      exact ⟨latest', heq', hle.trans hle'⟩
    · rw [List.mem_singleton.mp hnew] at hvalid ⊢
      exact hbehind hvalid
  called := by
    intro latest heq
    rcases hcalled latest heq with hold | ⟨hvalid, hnew⟩
    · obtain ⟨entry, hentry, hrest⟩ := h.called latest hold
      exact ⟨entry, List.mem_append_left _ hentry, hrest⟩
    · exact ⟨_, List.mem_append_right _ (List.mem_singleton_self _), hvalid, hnew⟩
  seen := by
    intro token window hwindow
    obtain ⟨entry, hentry, hrest⟩ := h.seen token window hwindow
    exact ⟨entry, List.mem_append_left _ hentry, hrest⟩
  counts := by
    intro token window hwindow kind
    rw [admitted_concat_error]
    exact h.counts token window hwindow kind
  later := by
    intro token window hwindow kind later hlt
    rw [admitted_concat_error]
    exact h.later token window hwindow kind later hlt
  dropped := by
    intro token hnone kind window hle
    rw [admitted_concat_error]
    refine h.dropped token hnone kind window fun latest heq => ?_
    obtain ⟨latest', heq', hle'⟩ := hforward latest heq
    exact hle'.trans (hle latest' heq')
  quota := by
    intro token kind window
    rw [admitted_concat_error]
    exact h.quota token kind window
  size := h.size

/-- From the clock on, a token without a window there has had no call admitted. -/
theorem Counted.admitted_eq_zero {log : Log} {s : TokenRateLimiter} (h : Counted policy log s)
    {token : TokenHash} {window : ℕ}
    (hlatest : ∀ latest, s.latestWindowId = some latest → latest ≤ window)
    (hover : ∀ last : TokenWindow, s.windows[token]? = some last → last.windowId < window)
    (kind : RateLimitKind) : admitted policy log token kind window = 0 := by
  cases hget : s.windows[token]? with
  | none => exact h.dropped token hget kind window hlatest
  | some last => exact h.later token last hget kind window (hover last hget)

theorem Counted.behind {log : Log} {s : TokenRateLimiter} (h : Counted policy log s)
    (token : TokenHash) (window : TokenWindow) (hwindow : s.windows[token]? = some window) :
    ∃ latest, s.latestWindowId = some latest ∧ window.windowId ≤ latest := by
  obtain ⟨entry, hentry, hvalid, -, heq⟩ := h.seen token window hwindow
  obtain ⟨latest, hlatest, hle⟩ := h.latest entry hentry hvalid
  exact ⟨latest, hlatest, heq ▸ hle⟩

/-- A call that is admitted is counted in its window. -/
theorem Counted.counted {log : Log} {s : TokenRateLimiter} {call : Call} {counts : KindCounts}
    (h : Counted policy log s) (hvalid : call.valid)
    (hlatest : ∀ latest, s.latestWindowId = some latest → latest ≤ call.window policy)
    (hquota : counts.getD call.kind 0 < (policy.quota call.kind).toNat)
    (hcounts : (∃ window, s.windows[call.tokenHash]? = some window ∧
        window.windowId = call.window policy ∧ counts = window.counts) ∨
      (counts = ∅ ∧ ∀ window : TokenWindow, s.windows[call.tokenHash]? = some window →
        window.windowId < call.window policy))
    (hroom : call.tokenHash ∈ s.windows ∨
      (s.retained call.tokenHash (call.window policy)).size < MAX_RATE_LIMIT_TOKENS) :
    Counted policy (log ++ [(call, .ok ())])
      { s with
        latestWindowId := some (call.window policy)
        windows := (s.retained call.tokenHash (call.window policy)).insert call.tokenHash
          { windowId := call.window policy
            counts := counts.insert call.kind (counts.getD call.kind 0 + 1) } } := by
  have hcount : ∀ kind, counts.getD kind 0 =
      admitted policy log call.tokenHash kind (call.window policy) := by
    intro kind
    rcases hcounts with ⟨window, hget, hsame, rfl⟩ | ⟨rfl, hover⟩
    · rw [← hsame]
      exact h.counts _ window hget kind
    · rw [ExtTreeMap.getD_empty, h.admitted_eq_zero hlatest hover]
  have hle : ∀ window : TokenWindow, s.windows[call.tokenHash]? = some window →
      window.windowId ≤ call.window policy := by
    intro window hget
    obtain ⟨latest, heq, hle⟩ := h.behind _ window hget
    exact hle.trans (hlatest latest heq)
  have hother : ∀ token, call.tokenHash ≠ token → ∀ kind window,
      admitted policy (log ++ [(call, .ok ())]) token kind window =
        admitted policy log token kind window := by
    intro token hne kind window
    rw [admitted_concat, if_neg fun heq => hne heq.1.1, Nat.add_zero]
  refine ⟨h.same, ?_, ?_, ?_, ?_, ?_, ?_, ?_, ?_⟩
  · intro entry hentry hentryValid
    refine ⟨call.window policy, rfl, ?_⟩
    rcases List.mem_append.mp hentry with hold | hnew
    · obtain ⟨latest, heq, hle⟩ := h.latest entry hold hentryValid
      exact hle.trans (hlatest latest heq)
    · rw [List.mem_singleton.mp hnew]
  · rintro latest ⟨⟩
    exact ⟨_, List.mem_append_right _ (List.mem_singleton_self _), hvalid, rfl⟩
  · intro token window hwindow
    simp only [ExtTreeMap.getElem?_insert, Std.LawfulEqCmp.compare_eq_iff_eq] at hwindow
    split at hwindow
    · next heq =>
        obtain rfl := Option.some.inj hwindow
        exact ⟨_, List.mem_append_right _ (List.mem_singleton_self _), hvalid, heq, rfl⟩
    · obtain ⟨entry, hentry, hrest⟩ := h.seen token window (of_retained.1 window hwindow)
      exact ⟨entry, List.mem_append_left _ hentry, hrest⟩
  · intro token window hwindow kind
    simp only [ExtTreeMap.getElem?_insert, Std.LawfulEqCmp.compare_eq_iff_eq] at hwindow
    split at hwindow
    · next heq =>
        subst heq
        obtain rfl := Option.some.inj hwindow
        simp only [ExtTreeMap.getD_insert, Std.LawfulEqCmp.compare_eq_iff_eq]
        rw [admitted_concat, ← hcount]
        by_cases hkind : call.kind = kind
        · rw [if_pos hkind, if_pos ⟨⟨rfl, hkind, rfl⟩, rfl⟩, hkind]
        · rw [if_neg hkind, if_neg fun hall => hkind hall.1.2.1, Nat.add_zero]
    · next hne =>
        rw [hother token hne]
        exact h.counts token window (of_retained.1 window hwindow) kind
  · intro token window hwindow kind later hlt
    simp only [ExtTreeMap.getElem?_insert, Std.LawfulEqCmp.compare_eq_iff_eq] at hwindow
    split at hwindow
    · next heq =>
        subst heq
        obtain rfl := Option.some.inj hwindow
        rw [admitted_concat, if_neg fun hall => hlt.ne hall.1.2.2, Nat.add_zero]
        exact h.admitted_eq_zero (fun latest heq => (hlatest latest heq).trans hlt.le)
          (fun window hget => (hle window hget).trans_lt hlt) kind
    · next hne =>
        rw [hother token hne]
        exact h.later token window (of_retained.1 window hwindow) kind later hlt
  · intro token hnone kind window hclock
    simp only [ExtTreeMap.getElem?_insert, Std.LawfulEqCmp.compare_eq_iff_eq] at hnone
    split at hnone
    · cases hnone
    · next hne =>
        have hfrom := hclock _ rfl
        rw [hother token hne]
        exact h.admitted_eq_zero (fun latest heq => (hlatest latest heq).trans hfrom)
          (fun last hget => (of_retained.2 hnone last hget).trans_le hfrom) kind
  · intro token kind window
    rw [admitted_concat]
    split
    · next hall =>
        obtain ⟨⟨rfl, rfl, rfl⟩, -⟩ := hall
        rw [← hcount]
        exact hquota
    · exact h.quota token kind window
  · rw [ExtTreeMap.size_insert]
    simp only [ExtTreeMap.contains_iff_mem, mem_retained_self]
    have hshrinks := s.size_retained_le call.tokenHash (call.window policy)
    split
    · exact hshrinks.trans h.size
    · next habsent => exact (hroom.resolve_left habsent)

theorem Counted.new {limiter : TokenRateLimiter} (hnew : new policy = .ok limiter) :
    Counted policy [] limiter := by
  rw [TokenRateLimiter.new] at hnew
  split at hnew
  · obtain rfl := Except.ok.inj hnew
    have hnone : ∀ token, (∅ : ExtTreeMap TokenHash TokenWindow)[token]? = none :=
      fun _ => ExtTreeMap.getElem?_empty
    refine ⟨rfl, ?_, ?_, ?_, ?_, ?_, fun _ _ _ _ _ => rfl, fun _ _ _ => Nat.zero_le _, ?_⟩
    · intro entry hentry
      cases hentry
    · intro latest hlatest
      cases hlatest
    · intro token window hwindow
      rw [hnone] at hwindow
      cases hwindow
    · intro token window hwindow
      rw [hnone] at hwindow
      cases hwindow
    · intro token window hwindow
      rw [hnone] at hwindow
      cases hwindow
    · rw [ExtTreeMap.size_empty]
      exact Nat.zero_le _
  · cases hnew

/-- A call keeps the counts, whatever it does. -/
theorem Counted.concat {log : Log} {s : TokenRateLimiter} (h : Counted policy log s) (call : Call) :
    Counted policy (log ++ [(call, (s.step call).2)]) (s.step call).1 := by
  have houtcome := step_outcome h.size h.behind call
  generalize s.step call = next at houtcome
  obtain rfl := h.same
  cases houtcome with
  | zero hzero =>
      exact h.refused (fun latest heq => ⟨latest, heq, le_rfl⟩) (fun hvalid => absurd hvalid hzero)
        fun latest heq => .inl heq
  | rewound latest hlatest hlt =>
      exact h.refused (fun latest heq => ⟨latest, heq, le_rfl⟩)
        (fun _ => ⟨latest, hlatest, hlt.le⟩) fun latest heq => .inl heq
  | full hvalid hlatest habsent hsize hrecent =>
      exact h.refused (fun latest heq => ⟨_, rfl, hlatest latest heq⟩)
        (fun _ => ⟨_, rfl, le_rfl⟩) fun latest heq => .inr ⟨hvalid, Option.some.inj heq⟩
  | exhausted window hvalid hlatest hwindow hsame hquota =>
      exact h.refused (fun latest heq => ⟨_, rfl, hlatest latest heq⟩)
        (fun _ => ⟨_, rfl, le_rfl⟩) fun latest heq => .inr ⟨hvalid, Option.some.inj heq⟩
  | admitted counts hvalid hlatest hquota hcounts hroom =>
      exact h.counted hvalid hlatest hquota hcounts hroom

theorem Counted.run {limiter : TokenRateLimiter} (hnew : TokenRateLimiter.new policy = .ok limiter)
    (calls : List Call) :
    Counted policy (Mealy.trace step limiter calls) (Mealy.after step limiter calls) :=
  Mealy.invariant step (Counted.new hnew) (fun _ _ call h => h.concat call) calls

theorem mem_calls {limiter : TokenRateLimiter} {calls : List Call}
    {entry : Call × Except OperationContractError Unit}
    (hentry : entry ∈ Mealy.trace step limiter calls) : entry.1 ∈ calls :=
  Mealy.trace_map_fst step limiter calls ▸ List.mem_map_of_mem hentry

/-- The table holds 1024 other tokens, each called in the window of the call or the one before. -/
def Crowded (policy : RateLimitPolicy) (calls : List Call) (s : TokenRateLimiter)
    (call : Call) : Prop :=
  call.tokenHash ∉ s.windows ∧ s.windows.size = MAX_RATE_LIMIT_TOKENS ∧
    ∀ token ∈ s.windows, ∃ earlier ∈ calls, earlier.valid ∧ earlier.tokenHash = token ∧
      (earlier.window policy = call.window policy ∨
        earlier.window policy + 1 = call.window policy)

/-- In every run no quota is exceeded; a valid call whose window is not before those of the calls
so far is refused only when its quota is used up or the table is full of other tokens; a refused
call leaves all windows and counts as they are. -/
theorem exact_per_window {limiter : TokenRateLimiter}
    (hnew : TokenRateLimiter.new policy = .ok limiter) (calls : List Call) :
    (∀ token kind window,
      admitted policy (Mealy.trace step limiter calls) token kind window ≤
        (policy.quota kind).toNat) ∧
    ∀ call, ((Mealy.after step limiter calls).step call).2 ≠ .ok () →
      (call.valid →
        (∀ earlier ∈ calls, earlier.valid → earlier.window policy ≤ call.window policy) →
        admitted policy (Mealy.trace step limiter calls) call.tokenHash call.kind
            (call.window policy) = (policy.quota call.kind).toNat ∨
          Crowded policy calls (Mealy.after step limiter calls) call) ∧
      ((Mealy.after step limiter calls).step call).1.windows =
        (Mealy.after step limiter calls).windows := by
  have h := Counted.run hnew calls
  refine ⟨h.quota, fun call hrefused => ?_⟩
  have hmem : ∀ entry ∈ Mealy.trace step limiter calls, entry.1 ∈ calls :=
    fun entry => mem_calls
  generalize Mealy.after step limiter calls = s at h hrefused ⊢
  generalize Mealy.trace step limiter calls = log at h hmem ⊢
  have houtcome := step_outcome h.size h.behind call
  generalize s.step call = next at houtcome hrefused ⊢
  obtain rfl := h.same
  cases houtcome with
  | zero hzero => exact ⟨fun hvalid => absurd hvalid hzero, rfl⟩
  | rewound latest hlatest hlt =>
      refine ⟨fun _ hforward => ?_, rfl⟩
      -- the clock stands at the window of an earlier call
      obtain ⟨entry, hentry, hvalid, rfl⟩ := h.called latest hlatest
      exact absurd hlt (Nat.not_lt.mpr (hforward entry.1 (hmem entry hentry) hvalid))
  | full hvalid hlatest habsent hsize hrecent =>
      refine ⟨fun _ _ => .inr ⟨?_, hsize, ?_⟩, rfl⟩
      · rw [ExtTreeMap.mem_iff_isSome_getElem?, habsent]
        exact Bool.false_ne_true
      · intro token htoken
        have hwindow := ExtTreeMap.getElem?_eq_some_getElem htoken
        obtain ⟨entry, hentry, hentryValid, htokenHash, heq⟩ := h.seen token _ hwindow
        obtain ⟨latest, hclock, hle⟩ := h.behind token _ hwindow
        have hfrom := hrecent token _ hwindow
        have hto := hle.trans (hlatest latest hclock)
        exact ⟨entry.1, hmem entry hentry, hentryValid, htokenHash, by omega⟩
  | exhausted window hvalid hlatest hwindow hsame hquota =>
      refine ⟨fun _ _ => .inl (le_antisymm (h.quota _ _ _) ?_), rfl⟩
      rw [← hsame, ← h.counts _ window hwindow]
      exact hquota
  | admitted counts hvalid hlatest hquota hcounts hroom => exact absurd rfl hrefused

/-- One read in each window of a second, on a run of three reads. -/
theorem exact_per_window_reads :
    let policy : RateLimitPolicy := ⟨1000, 1, 1, 1⟩
    let limiter : TokenRateLimiter := ⟨policy, ∅, none, by decide⟩
    TokenRateLimiter.new policy = .ok limiter ∧
    ∀ token kind window,
      admitted policy (Mealy.trace step limiter [⟨.replicate 32 1, .Read, 0⟩,
        ⟨.replicate 32 1, .Read, 999⟩, ⟨.replicate 32 1, .Read, 1000⟩]) token kind window ≤
          (policy.quota kind).toNat :=
  ⟨rfl, (exact_per_window rfl _).1⟩

end TokenRateLimiter

end Vbuff.Ipc
