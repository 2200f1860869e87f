import Vbuff.Core.Secret

/-!
# Secrets in context

A secret does not stop being one when text is put around it.  Every detector looks for a substring,
at whole words or at single tokens, and a space on either side leaves those of the text as they
are.  The one exception is the bare code, which is the whole of a text.
-/

namespace Vbuff.Core

open Text

/-- The text with something before and after it. -/
def embed (before text after : Chars) : Chars := before ++ ' ' :: (text ++ ' ' :: after)

/-! ## What a scan reports -/

/-- There is a finding of the kind. -/
def Reports (kind : SecretKind) (findings : List SecretFinding) : Prop :=
  ∃ finding ∈ findings, finding.kind = kind

/-- The detector of the kind fires on the token; the other kinds are not found in tokens. -/
def detects (entropyHigh : Chars → Bool) (recoveryContext : Bool) (token : Chars) :
    SecretKind → Bool
  | .CloudCredential => isCloudCredential token
  | .AccessToken => isAccessToken token
  | .JsonWebToken => isJwt token
  | .PaymentCard => isPaymentCard token
  | .RecoveryCode => recoveryContext && isRecoveryCode token
  | .HighEntropy => probableHighEntropy entropyHigh token
  | .PrivateKey | .OneTimePassword => false

/-- The token and the parts of it that are scanned. -/
def pieces (token : Chars) : List Chars :=
  token :: if isStructuredLocator token then split (fun c => "/?&=#\\".toList.contains c) token else []

/-- The lines that stand before and after a private key. -/
def hasPrivateKeyMarkers (text : Chars) : Bool :=
  contains text "-----BEGIN ".toList && contains text "PRIVATE KEY-----".toList

/-- The words of a text that make recovery codes of its tokens. -/
def hasRecoveryContext (text : Chars) : Bool :=
  contains (text.map toAsciiLowercase) "recovery".toList ||
    contains (text.map toAsciiLowercase) "backup code".toList

/-- The words of a text that make one-time codes of its digit runs. -/
def hasOtpContext (text : Chars) : Bool :=
  (split (fun c => !isAsciiAlphanumeric c && c != '-') (text.map toAsciiLowercase)).any fun word =>
    otpContextMarkers.contains (trimMatches (· == '-') word)

section Scan

variable {kind : SecretKind} {findings : List SecretFinding} {entropyHigh : Chars → Bool}
  {recoveryContext : Bool}

theorem reports_pushWhen {fired : Bool} {pushed : SecretKind} {confidence : ℕ} :
    Reports kind (pushWhen fired pushed confidence findings) ↔
      Reports kind findings ∨ (fired = true ∧ pushed = kind) := by
  unfold pushWhen pushOnce
  cases fired with
  | false => simp
  | true =>
    by_cases hknown : findings.any fun finding => finding.kind == pushed
    · simp only [hknown, if_true, true_and, iff_self_or]
      rintro rfl
      obtain ⟨finding, hmem, hkind⟩ := List.any_eq_true.mp hknown
      exact ⟨finding, hmem, beq_iff_eq.mp hkind⟩
    · simp [hknown, Reports, or_and_right, exists_or]

theorem reports_scanToken (token : Chars) :
    Reports kind (scanToken entropyHigh recoveryContext findings token) ↔
      Reports kind findings ∨ detects entropyHigh recoveryContext token kind = true := by
  unfold scanToken
  simp only [reports_pushWhen]
  cases kind <;> simp [detects]

theorem reports_foldl {scan : List SecretFinding → Chars → List SecretFinding}
    {P : Chars → Prop}
    (hscan : ∀ findings token, Reports kind (scan findings token) ↔ Reports kind findings ∨ P token)
    (tokens : List Chars) :
    Reports kind (tokens.foldl scan findings) ↔
      Reports kind findings ∨ ∃ token ∈ tokens, P token := by
  induction tokens generalizing findings with
  | nil => simp
  | cons token tokens ih =>
    rw [List.foldl_cons, ih, hscan, or_assoc, List.exists_mem_cons_iff]

theorem reports_scanTokenAndParts (token : Chars) :
    Reports kind (scanTokenAndParts entropyHigh recoveryContext findings token) ↔
      Reports kind findings ∨
        ∃ piece ∈ pieces token, detects entropyHigh recoveryContext piece kind = true := by
  unfold scanTokenAndParts pieces
  by_cases hlocator : isStructuredLocator token
  · rw [if_pos hlocator, if_pos hlocator,
      reports_foldl (fun findings part => reports_scanToken part), reports_scanToken, or_assoc,
      List.exists_mem_cons_iff]
  · rw [if_neg hlocator, if_neg hlocator, reports_scanToken, List.exists_mem_cons_iff]
    simp

end Scan

/-- A kind is reported by its own detector: the markers of a private key, the rule for one-time
codes, or a scanned piece of a token. -/
theorem reports_detectSecrets {kind : SecretKind} {entropyHigh : Chars → Bool} {text : Chars} :
    Reports kind (detectSecrets entropyHigh text) ↔
      (kind = .PrivateKey ∧ hasPrivateKeyMarkers text = true) ∨
        (kind = .OneTimePassword ∧ otpFinding text (text.map toAsciiLowercase) ≠ none) ∨
        ∃ token ∈ split isTokenSeparator text, ∃ piece ∈ pieces token,
          detects entropyHigh (hasRecoveryContext text) piece kind = true := by
  unfold detectSecrets
  dsimp only
  rw [reports_foldl (fun findings token => reports_scanTokenAndParts token), ← or_assoc]
  refine or_congr ?_ Iff.rfl
  have hsplit : ∀ first second : List SecretFinding,
      Reports kind (first ++ second) ↔ Reports kind first ∨ Reports kind second := by
    intro first second
    simp [Reports, or_and_right, exists_or]
  rw [hsplit]
  refine or_congr ?_ ?_
  · show Reports kind (if hasPrivateKeyMarkers text then _ else _) ↔ _
    cases hasPrivateKeyMarkers text <;> simp [Reports, eq_comm]
  · cases hotp : otpFinding text (text.map toAsciiLowercase) with
    | none => simp [Reports]
    | some finding => simp [Reports, (otpFinding_eq_some hotp).1, eq_comm]

/-! ## Context -/

section Embed

variable {before text after : Chars}

theorem split_embed {p : Char → Bool} (hspace : p ' ' = true) :
    split p (embed before text after) = split p before ++ (split p text ++ split p after) := by
  rw [embed, split, List.splitOnP_append_cons _ _ hspace, List.splitOnP_append_cons _ _ hspace]
  rfl

theorem any_split_embed {p : Char → Bool} {f : Chars → Bool} (hspace : p ' ' = true)
    (h : (split p text).any f = true) : (split p (embed before text after)).any f = true := by
  rw [split_embed hspace, List.any_append, List.any_append, h]
  simp

theorem map_embed {f : Char → Char} (hspace : f ' ' = ' ') :
    (embed before text after).map f = embed (before.map f) (text.map f) (after.map f) := by
  simp [embed, hspace]

theorem contains_embed {needle : Chars} (h : contains text needle = true) :
    contains (embed before text after) needle = true := by
  refine decide_eq_true ((of_decide_eq_true h).trans ?_)
  exact ⟨before ++ [' '], ' ' :: after, by simp [embed]⟩

theorem hasPrivateKeyMarkers_embed (h : hasPrivateKeyMarkers text = true) :
    hasPrivateKeyMarkers (embed before text after) = true := by
  obtain ⟨hbegin, hkey⟩ := Bool.and_eq_true_iff.mp h
  exact Bool.and_eq_true_iff.mpr ⟨contains_embed hbegin, contains_embed hkey⟩

theorem hasRecoveryContext_embed (h : hasRecoveryContext text = true) :
    hasRecoveryContext (embed before text after) = true := by
  unfold hasRecoveryContext at h ⊢
  rw [map_embed (by decide)]
  rcases Bool.or_eq_true_iff.mp h with hrecovery | hbackup
  · rw [contains_embed hrecovery, Bool.true_or]
  · rw [contains_embed hbackup, Bool.or_true]

theorem hasOtpContext_embed (h : hasOtpContext text = true) :
    hasOtpContext (embed before text after) = true := by
  unfold hasOtpContext at h ⊢
  rw [map_embed (by decide)]
  exact any_split_embed (by decide) h

theorem hasOtpDigitRun_embed (h : hasOtpDigitRun text = true) :
    hasOtpDigitRun (embed before text after) = true := any_split_embed (by decide) h

/-- More context makes no detector stop firing. -/
theorem detects_mono {entropyHigh : Chars → Bool} {recoveryContext recoveryContext' : Bool}
    (hcontext : recoveryContext = true → recoveryContext' = true) {piece : Chars}
    {kind : SecretKind} (h : detects entropyHigh recoveryContext piece kind = true) :
    detects entropyHigh recoveryContext' piece kind = true := by
  cases kind with
  | RecoveryCode =>
    obtain ⟨hrecovery, hcode⟩ := Bool.and_eq_true_iff.mp h
    exact Bool.and_eq_true_iff.mpr ⟨hcontext hrecovery, hcode⟩
  | _ => exact h

end Embed

/-! ## Embedding -/

/-- A text of nothing but a few digits, with no word to go by. -/
def bareOtp : SecretFinding := ⟨.OneTimePassword, 90⟩

theorem otpFinding_of_context {text : Chars} (hcontext : hasOtpContext text = true)
    (hrun : hasOtpDigitRun text = true) :
    otpFinding text (text.map toAsciiLowercase) = some ⟨.OneTimePassword, 96⟩ := by
  have hboth : (hasOtpContext text && hasOtpDigitRun text) = true := by rw [hcontext, hrun]; rfl
  exact if_pos hboth

/-- A one-time code that is not a bare one was found by a word. -/
theorem context_of_otpFinding {text : Chars} {finding : SecretFinding}
    (h : otpFinding text (text.map toAsciiLowercase) = some finding) (hbare : finding ≠ bareOtp) :
    hasOtpContext text = true ∧ hasOtpDigitRun text = true := by
  by_contra hnot
  have hboth : ¬(hasOtpContext text && hasOtpDigitRun text) = true := by
    rwa [Bool.and_eq_true]
  have hfound : (if isOtpDigitLength (utf8Len (trim text)) && (trim text).all isAsciiDigit then
      some bareOtp else none) = some finding := (if_neg hboth).symm.trans h
  split_ifs at hfound
  exact hbare (Option.some.inj hfound).symm

theorem mem_pushWhen {finding : SecretFinding} {findings : List SecretFinding} {fired : Bool}
    {kind : SecretKind} {confidence : ℕ} (h : finding ∈ findings) :
    finding ∈ pushWhen fired kind confidence findings := by
  unfold pushWhen pushOnce
  split_ifs
  · exact h
  · exact List.mem_append_left _ h
  · exact h

theorem mem_scanToken {finding : SecretFinding} {findings : List SecretFinding}
    {entropyHigh : Chars → Bool} {recoveryContext : Bool} (token : Chars) (h : finding ∈ findings) :
    finding ∈ scanToken entropyHigh recoveryContext findings token := by
  unfold scanToken
  iterate 6 refine mem_pushWhen ?_
  exact h

theorem mem_foldl {scan : List SecretFinding → Chars → List SecretFinding} {finding : SecretFinding}
    (hscan : ∀ findings token, finding ∈ findings → finding ∈ scan findings token)
    (tokens : List Chars) {findings : List SecretFinding} (h : finding ∈ findings) :
    finding ∈ tokens.foldl scan findings :=
  List.foldlRecOn tokens scan h fun findings hmem token _ => hscan findings token hmem

/-- The finding for one-time codes is there to the end, and it is the only one of its kind. -/
theorem otpFinding_eq_of_mem {entropyHigh : Chars → Bool} {text : Chars} {finding : SecretFinding}
    (h : finding ∈ detectSecrets entropyHigh text) (hkind : finding.kind = .OneTimePassword) :
    otpFinding text (text.map toAsciiLowercase) = some finding := by
  rcases reports_detectSecrets.mp ⟨finding, h, hkind⟩ with
    ⟨hother, -⟩ | ⟨-, hsome⟩ | ⟨token, -, piece, -, hdetected⟩
  · cases hother
  · obtain ⟨found, hfound⟩ := Option.ne_none_iff_exists'.mp hsome
    have hmem : found ∈ detectSecrets entropyHigh text := by
      refine mem_foldl (fun findings token hmem => ?_) _ (List.mem_append_right _ ?_)
      · unfold scanTokenAndParts
        dsimp only
        split_ifs
        · exact mem_foldl (fun _ part => mem_scanToken part) _ (mem_scanToken token hmem)
        · exact mem_scanToken token hmem
      · exact Option.mem_toList.mpr hfound
    have hsame : found = finding := List.inj_on_of_nodup_map
      (detectSecrets_wellFormed entropyHigh text).once hmem h
      ((otpFinding_eq_some hfound).1.trans hkind.symm)
    rw [hfound, hsame]
  · cases hdetected

/-- What is found in a text, a bare code apart, is found in any text with it in the middle. -/
theorem actionableSecrets_embed (entropyHigh : Chars → Bool) (before text after : Chars)
    (finding : SecretFinding) (hfound : finding ∈ actionableSecrets entropyHigh text)
    (hbare : finding ≠ bareOtp) :
    ∃ found ∈ actionableSecrets entropyHigh (embed before text after),
      found.kind = finding.kind := by
  rw [actionableSecrets_eq_detectSecrets] at hfound ⊢
  show Reports finding.kind _
  rw [reports_detectSecrets]
  rcases reports_detectSecrets.mp ⟨finding, hfound, rfl⟩ with
    ⟨hkind, hmarkers⟩ | ⟨hkind, -⟩ | ⟨token, htoken, piece, hpiece, hdetected⟩
  · exact .inl ⟨hkind, hasPrivateKeyMarkers_embed hmarkers⟩
  · have hotp := context_of_otpFinding (otpFinding_eq_of_mem hfound hkind) hbare
    have hthere := otpFinding_of_context (hasOtpContext_embed hotp.1 : hasOtpContext
      (embed before text after) = true) (hasOtpDigitRun_embed hotp.2)
    exact .inr (.inl ⟨hkind, by rw [hthere]; exact Option.some_ne_none _⟩)
  · refine .inr (.inr ⟨token, ?_, piece, hpiece, detects_mono hasRecoveryContext_embed hdetected⟩)
    rw [split_embed (by decide)]
    exact List.mem_append_right _ (List.mem_append_left _ htoken)

/-- A code after its word, and more words around them. -/
theorem actionableSecrets_embed_code :
    ∃ found ∈ actionableSecrets (fun _ => false)
        (embed "Your".toList "code 123456".toList "expires soon".toList),
      found.kind = .OneTimePassword :=
  actionableSecrets_embed (fun _ => false) "Your".toList "code 123456".toList
    "expires soon".toList ⟨.OneTimePassword, 96⟩ (by decide +kernel) (by decide)

end Vbuff.Core
