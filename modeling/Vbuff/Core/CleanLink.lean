import Vbuff.Lib.Result
import Vbuff.Lib.Text

/-!
# Clean links

A link of a known redirect service is replaced by the target it names, and then the tracking
parameters and the fragment are taken off.  URLs are parsed and written by a library; what is used
of it is that the text of a URL is parsed back, and how the parts of a URL change with its setters
(`UrlLaws`).

Only one redirect is taken off.  What is left is clean unless it is a redirect itself
(`cleanLink_idempotent`).
-/

namespace Vbuff.Core

open Result Text

namespace Links

def MAX_URL_BYTES : ℕ := 16 * 1024

inductive CleanLinkError where
  | InvalidSize
  | UnsupportedUrl
  deriving DecidableEq, Repr

/-- The library's URLs. -/
structure UrlLibrary where
  Url : Type
  /-- `Url::parse`. -/
  parse : String → Option Url
  /-- `Url::to_string`. -/
  toString : Url → String
  scheme : Url → String
  hostStr : Url → Option String
  path : Url → String
  username : Url → String
  password : Url → Option String
  queryPairs : Url → List (String × String)
  /-- `set_query(None)`. -/
  clearQuery : Url → Url
  /-- `query_pairs_mut().extend_pairs(_)`. -/
  extendPairs : List (String × String) → Url → Url
  /-- `set_fragment(None)`. -/
  clearFragment : Url → Url

def lower (s : String) : String := String.ofList (s.toList.map toAsciiLowercase)

def isTrackingParameter (key : String) : Bool :=
  let key := lower key
  startsWith key.toList "utm_".toList || startsWith key.toList "mc_".toList ||
    ["fbclid", "gclid", "dclid", "msclkid", "igshid", "ref_src", "ref_url"].contains key

/-- The parameter of a known redirect that holds the target. -/
def targetParameter (host path : String) : Option String :=
  if (host == "www.google.com" || host == "google.com") && path == "/url" then some "q"
  else if host == "l.facebook.com" && path == "/l.php" then some "u"
  else if host == "out.reddit.com" then some "url"
  else none

section Clean

variable (lib : UrlLibrary)

def isSupported (url : lib.Url) : Bool :=
  ["http", "https"].contains (lib.scheme url) && (lib.hostStr url).isSome &&
    (lib.username url).isEmpty && (lib.password url).isNone

/-- The parameter of a URL that is a known redirect. -/
def redirectParameter (url : lib.Url) : Option String := do
  let host ← lib.hostStr url
  targetParameter (lower host) (lib.path url)

def knownRedirectTarget (url : lib.Url) : Except CleanLinkError (Option lib.Url) :=
  match redirectParameter lib url with
  | none => .ok none
  | some parameter => do
      let target ← okOr (((lib.queryPairs url).find? fun pair => pair.1 == parameter).map Prod.snd)
        .UnsupportedUrl
      let target ← okOr (lib.parse target) .UnsupportedUrl
      if isSupported lib target then .ok (some target) else .error .UnsupportedUrl

/-- The URL with other pairs for its query, and no fragment. -/
def withPairs (pairs : List (String × String)) (url : lib.Url) : lib.Url :=
  lib.clearFragment
    (if pairs.isEmpty then lib.clearQuery url else lib.extendPairs pairs (lib.clearQuery url))

def retained (url : lib.Url) : List (String × String) :=
  (lib.queryPairs url).filter fun pair => !isTrackingParameter pair.1

/-- `clean_link`, from the URL on. -/
def cleanUrl (url : lib.Url) : Except CleanLinkError String :=
  if !isSupported lib url then .error .UnsupportedUrl
  else do
    let unwrapped ← knownRedirectTarget lib url
    let url := unwrapped.getD url
    .ok (lib.toString (withPairs lib (retained lib url) url))

def cleanLink (input : String) : Except CleanLinkError String :=
  let input := trim input.toList
  if input.isEmpty || MAX_URL_BYTES < utf8Len input then .error .InvalidSize
  else do
    let url ← okOr (lib.parse (String.ofList input)) .UnsupportedUrl
    cleanUrl lib url

/-- The text is a link of one of the known redirect services. -/
def KnownRedirect (text : String) : Prop :=
  ∃ url, lib.parse text = some url ∧ redirectParameter lib url ≠ none

/-- The parts of a URL before its query. -/
def head (url : lib.Url) : String × Option String × String × String × Option String :=
  (lib.scheme url, lib.hostStr url, lib.path url, lib.username url, lib.password url)

/-- What the library promises.  The text of a URL is parsed back, where the URL has been parsed and
its query then set to some of its pairs; it is not empty, and no blanks are in it.  The setters
change the query and the fragment and nothing else. -/
structure UrlLaws : Prop where
  parse_toString : ∀ input url pairs, lib.parse input = some url → isSupported lib url = true →
    pairs.Sublist (lib.queryPairs url) →
    lib.parse (lib.toString (withPairs lib pairs url)) = some (withPairs lib pairs url)
  parse_empty : lib.parse "" = none
  toString_plain : ∀ input url pairs, lib.parse input = some url → isSupported lib url = true →
    pairs.Sublist (lib.queryPairs url) →
    ∀ c ∈ (lib.toString (withPairs lib pairs url)).toList, isWhitespace c = false
  head_clearQuery : ∀ url, head lib (lib.clearQuery url) = head lib url
  head_extendPairs : ∀ pairs url, head lib (lib.extendPairs pairs url) = head lib url
  head_clearFragment : ∀ url, head lib (lib.clearFragment url) = head lib url
  queryPairs_clearQuery : ∀ url, lib.queryPairs (lib.clearQuery url) = []
  queryPairs_extendPairs : ∀ pairs url,
    lib.queryPairs (lib.extendPairs pairs url) = lib.queryPairs url ++ pairs
  queryPairs_clearFragment : ∀ url, lib.queryPairs (lib.clearFragment url) = lib.queryPairs url
  clearQuery_clearQuery : ∀ url, lib.clearQuery (lib.clearQuery url) = lib.clearQuery url
  clearQuery_extendPairs : ∀ pairs url,
    lib.clearQuery (lib.extendPairs pairs url) = lib.clearQuery url
  clearQuery_clearFragment : ∀ url,
    lib.clearQuery (lib.clearFragment url) = lib.clearFragment (lib.clearQuery url)
  extendPairs_clearFragment : ∀ pairs url,
    lib.extendPairs pairs (lib.clearFragment url) = lib.clearFragment (lib.extendPairs pairs url)
  clearFragment_clearFragment : ∀ url,
    lib.clearFragment (lib.clearFragment url) = lib.clearFragment url

variable {lib}

/-! ## A clean URL -/

theorem UrlLaws.queryPairs_withPairs (laws : UrlLaws lib) (pairs : List (String × String))
    (url : lib.Url) : lib.queryPairs (withPairs lib pairs url) = pairs := by
  rw [withPairs, laws.queryPairs_clearFragment]
  split
  case isTrue hnil => rw [laws.queryPairs_clearQuery, List.isEmpty_iff.mp hnil]
  case isFalse => rw [laws.queryPairs_extendPairs, laws.queryPairs_clearQuery, List.nil_append]

theorem UrlLaws.isSupported_withPairs (laws : UrlLaws lib) (pairs : List (String × String))
    (url : lib.Url) : isSupported lib (withPairs lib pairs url) = isSupported lib url := by
  have hhead : head lib (withPairs lib pairs url) = head lib url := by
    rw [withPairs, laws.head_clearFragment]
    split
    · rw [laws.head_clearQuery]
    · rw [laws.head_extendPairs, laws.head_clearQuery]
  simp only [head, Prod.mk.injEq] at hhead
  obtain ⟨hscheme, hhost, -, husername, hpassword⟩ := hhead
  rw [isSupported, hscheme, hhost, husername, hpassword]
  rfl

/-- The query that is set last counts. -/
theorem UrlLaws.withPairs_withPairs (laws : UrlLaws lib) (pairs pairs' : List (String × String))
    (url : lib.Url) : withPairs lib pairs' (withPairs lib pairs url) = withPairs lib pairs' url := by
  have hclear : lib.clearQuery (withPairs lib pairs url) =
      lib.clearFragment (lib.clearQuery url) := by
    rw [withPairs, laws.clearQuery_clearFragment]
    split
    · rw [laws.clearQuery_clearQuery]
    · rw [laws.clearQuery_extendPairs, laws.clearQuery_clearQuery]
  unfold withPairs at hclear ⊢
  rw [hclear]
  split
  · rw [laws.clearFragment_clearFragment]
  · rw [laws.extendPairs_clearFragment, laws.clearFragment_clearFragment]

theorem retained_retained (laws : UrlLaws lib) (url : lib.Url) :
    retained lib (withPairs lib (retained lib url) url) = retained lib url := by
  rw [retained, laws.queryPairs_withPairs, retained, List.filter_filter]
  simp only [Bool.and_self]

/-- A text without blanks that fits is cleaned as the URL it is. -/
theorem cleanLink_of_parse {text : String} {url : lib.Url} (hne : text ≠ "")
    (hplain : ∀ c ∈ text.toList, isWhitespace c = false)
    (hsize : utf8Len text.toList ≤ MAX_URL_BYTES) (hparse : lib.parse text = some url) :
    cleanLink lib text = cleanUrl lib url := by
  have hnonempty : text.toList.isEmpty = false := by
    rw [List.isEmpty_eq_false_iff]
    exact fun hnil => hne (String.toList_eq_nil_iff.mp hnil)
  rw [cleanLink, trim_eq_self hplain, hnonempty, if_neg (by simpa using hsize),
    String.ofList_toList, hparse, okOr_some, ok_bind]

/-- What is cleaned is a URL that has been parsed. -/
theorem exists_of_cleanLink {input u : String} (h : cleanLink lib input = .ok u) :
    ∃ text url, lib.parse text = some url ∧ isSupported lib url = true ∧
      u = lib.toString (withPairs lib (retained lib url) url) := by
  unfold cleanLink at h
  dsimp only at h
  split at h
  · cases h
  · obtain ⟨url, hparse, h⟩ := bind_eq_ok.mp h
    rw [okOr_eq_ok] at hparse
    unfold cleanUrl at h
    split at h
    case isTrue => cases h
    case isFalse hsupported =>
      rw [Bool.not_eq_true', Bool.not_eq_false] at hsupported
      obtain ⟨unwrapped, htarget, h⟩ := bind_eq_ok.mp h
      obtain rfl := Except.ok.inj h
      unfold knownRedirectTarget at htarget
      split at htarget
      · obtain rfl := Except.ok.inj htarget
        exact ⟨_, url, hparse, hsupported, rfl⟩
      · obtain ⟨text, -, htarget⟩ := bind_eq_ok.mp htarget
        obtain ⟨target, hparsed, htarget⟩ := bind_eq_ok.mp htarget
        rw [okOr_eq_ok] at hparsed
        split at htarget
        case isTrue htargetSupported =>
          obtain rfl := Except.ok.inj htarget
          exact ⟨text, target, hparsed, htargetSupported, rfl⟩
        case isFalse => cases htarget

/-- **What is left is clean, unless it is a redirect itself**: a link that was cleaned and fits the
size limit is left as it is, if it is not a link of a known redirect service.  One that does not
fit is refused. -/
theorem cleanLink_idempotent (laws : UrlLaws lib) {input u : String}
    (h : cleanLink lib input = .ok u) :
    (utf8Len u.toList ≤ MAX_URL_BYTES → ¬ KnownRedirect lib u → cleanLink lib u = .ok u) ∧
      (MAX_URL_BYTES < utf8Len u.toList → cleanLink lib u = .error .InvalidSize) := by
  obtain ⟨text, url, hparse, hsupported, rfl⟩ := exists_of_cleanLink h
  have hsub : (retained lib url).Sublist (lib.queryPairs url) := List.filter_sublist
  have hplain := laws.toString_plain text url _ hparse hsupported hsub
  have hback := laws.parse_toString text url _ hparse hsupported hsub
  refine ⟨fun hsize hredirect => ?_, fun hsize => ?_⟩
  · have hne : lib.toString (withPairs lib (retained lib url) url) ≠ "" := by
      intro hempty
      rw [hempty, laws.parse_empty] at hback
      cases hback
    have hnone : redirectParameter lib (withPairs lib (retained lib url) url) = none := by
      by_contra hsome
      exact hredirect ⟨_, hback, hsome⟩
    rw [cleanLink_of_parse hne hplain hsize hback, cleanUrl, laws.isSupported_withPairs, hsupported,
      if_neg (by decide), knownRedirectTarget, hnone]
    dsimp only
    rw [ok_bind, Option.getD_none, retained_retained laws, laws.withPairs_withPairs]
  · rw [cleanLink, trim_eq_self hplain, if_pos (by rw [decide_eq_true hsize, Bool.or_true])]

end Clean

/-! ### A few URLs -/

structure SampleUrl where
  host : String
  path : String
  pairs : List (String × String)
  fragment : Option String
  deriving DecidableEq

/-- URLs with their texts. -/
def samples : List (SampleUrl × String) :=
  [(⟨"a.test", "/path", [("keep", "1"), ("utm_campaign", "x")], some "private"⟩,
    "https://a.test/path?keep=1&utm_campaign=x#private"),
   (⟨"a.test", "/path", [("keep", "1"), ("utm_campaign", "x")], none⟩,
    "https://a.test/path?keep=1&utm_campaign=x"),
   (⟨"a.test", "/path", [("keep", "1")], none⟩, "https://a.test/path?keep=1"),
   (⟨"a.test", "/path", [("utm_campaign", "x")], none⟩, "https://a.test/path?utm_campaign=x"),
   (⟨"a.test", "/path", [], none⟩, "https://a.test/path"),
   (⟨"a.test", "/", [], none⟩, "https://a.test/"),
   (⟨"google.com", "/url", [("q", "https://a.test/")], none⟩,
    "https://google.com/url?q=https%3A%2F%2Fa.test%2F"),
   (⟨"google.com", "/url", [], none⟩, "https://google.com/url"),
   (⟨"out.reddit.com", "/", [("url", "https://google.com/url?q=https%3A%2F%2Fa.test%2F")], none⟩,
    "https://out.reddit.com/?url=https%3A%2F%2Fgoogle.com%2Furl%3Fq%3Dhttps%253A%252F%252Fa.test%252F"),
   (⟨"out.reddit.com", "/", [], none⟩, "https://out.reddit.com/")]

def SampleUrl.parse (s : String) : Option SampleUrl :=
  (samples.find? fun sample => sample.2 == s).map Prod.fst

def SampleUrl.text (url : SampleUrl) : String :=
  ((samples.find? fun sample => sample.1 == url).map Prod.snd).getD ""

/-- A library that knows these and no others. -/
def sampleLibrary : UrlLibrary where
  Url := SampleUrl
  parse := SampleUrl.parse
  toString := SampleUrl.text
  scheme _ := "https"
  hostStr url := some url.host
  path url := url.path
  username _ := ""
  password _ := none
  queryPairs url := url.pairs
  clearQuery url := { url with pairs := [] }
  extendPairs pairs url := { url with pairs := url.pairs ++ pairs }
  clearFragment url := { url with fragment := none }

theorem samples_closed : ∀ sample ∈ samples, ∀ pairs ∈ sample.1.pairs.sublists,
    SampleUrl.parse (SampleUrl.text ⟨sample.1.host, sample.1.path, pairs, none⟩) =
      some ⟨sample.1.host, sample.1.path, pairs, none⟩ := by
  decide +kernel

theorem samples_plain : ∀ sample ∈ samples,
    (sample.2.toList.all fun c => !isWhitespace c) = true ∧
      utf8Len sample.2.toList ≤ MAX_URL_BYTES := by
  simp only [samples, List.forall_mem_cons, String.reduceToList]
  decide +kernel

theorem plain_of_text {url : SampleUrl} {c : Char} (hc : c ∈ url.text.toList) :
    isWhitespace c = false := by
  unfold SampleUrl.text at hc
  cases hfind : samples.find? fun sample => sample.1 == url with
  | none =>
      rw [hfind] at hc
      exact absurd hc List.not_mem_nil
  | some sample =>
      rw [hfind] at hc
      have hall := (samples_plain sample (List.mem_of_find?_eq_some hfind)).1
      simpa using List.all_eq_true.mp hall c hc

theorem withPairs_sample (pairs : List (String × String)) (url : SampleUrl) :
    withPairs sampleLibrary pairs url = (⟨url.host, url.path, pairs, none⟩ : SampleUrl) := by
  cases pairs with
  | nil => rfl
  | cons pair pairs => rfl

theorem mem_samples {input : String} {url : SampleUrl} (h : SampleUrl.parse input = some url) :
    ∃ sample ∈ samples, sample.1 = url := by
  obtain ⟨sample, hfind, rfl⟩ := Option.map_eq_some_iff.mp h
  exact ⟨sample, List.mem_of_find?_eq_some hfind, rfl⟩

theorem urlLaws_sample : UrlLaws sampleLibrary where
  parse_toString := by
    intro input url pairs hparse _ hsub
    obtain ⟨sample, hsample, rfl⟩ := mem_samples hparse
    have hclosed := samples_closed sample hsample pairs (List.mem_sublists.mpr hsub)
    rw [← withPairs_sample pairs sample.1] at hclosed
    exact hclosed
  parse_empty := by
    have hnone : SampleUrl.parse "" = none := by decide
    exact hnone
  toString_plain := fun _ _ _ _ _ _ _ hc => plain_of_text hc
  head_clearQuery _ := rfl
  head_extendPairs _ _ := rfl
  head_clearFragment _ := rfl
  queryPairs_clearQuery _ := rfl
  queryPairs_extendPairs _ _ := rfl
  queryPairs_clearFragment _ := rfl
  clearQuery_clearQuery _ := rfl
  clearQuery_extendPairs _ _ := rfl
  clearQuery_clearFragment _ := rfl
  extendPairs_clearFragment _ _ := rfl
  clearFragment_clearFragment _ := rfl

theorem cleanLink_sample (sample : SampleUrl × String) (hsample : sample ∈ samples)
    (hparse : SampleUrl.parse sample.2 = some sample.1) :
    cleanLink sampleLibrary sample.2 = cleanUrl sampleLibrary sample.1 := by
  obtain ⟨hall, hsize⟩ := samples_plain sample hsample
  refine cleanLink_of_parse ?_ (fun c hc => ?_) hsize hparse
  · intro hempty
    rw [hempty] at hparse
    have hnone : SampleUrl.parse "" = none := by decide
    rw [hnone] at hparse
    cases hparse
  · simpa using List.all_eq_true.mp hall c hc

theorem cleanLink_campaign :
    cleanLink sampleLibrary "https://a.test/path?keep=1&utm_campaign=x#private" =
      .ok "https://a.test/path?keep=1" := by
  have hclean := cleanLink_sample
    (⟨"a.test", "/path", [("keep", "1"), ("utm_campaign", "x")], some "private"⟩,
      "https://a.test/path?keep=1&utm_campaign=x#private") (by decide) (by decide)
  rw [hclean]
  decide

/-- A campaign parameter is taken off once. -/
theorem cleanLink_idempotent_campaign :
    cleanLink sampleLibrary "https://a.test/path?keep=1" = .ok "https://a.test/path?keep=1" := by
  have hmem : ((⟨"a.test", "/path", [("keep", "1")], none⟩ : SampleUrl),
      "https://a.test/path?keep=1") ∈ samples := by decide
  refine (cleanLink_idempotent urlLaws_sample cleanLink_campaign).1 (samples_plain _ hmem).2 ?_
  rintro ⟨url, hparse, hredirect⟩
  have hurl : SampleUrl.parse "https://a.test/path?keep=1" =
      some ⟨"a.test", "/path", [("keep", "1")], none⟩ := by decide
  obtain rfl := Option.some.inj (hurl.symm.trans hparse)
  exact hredirect (by decide)

/-- A redirect to a redirect is taken off one by one. -/
theorem nested_redirect_left :
    cleanLink sampleLibrary
        "https://out.reddit.com/?url=https%3A%2F%2Fgoogle.com%2Furl%3Fq%3Dhttps%253A%252F%252Fa.test%252F" =
      .ok "https://google.com/url?q=https%3A%2F%2Fa.test%2F" ∧
    cleanLink sampleLibrary "https://google.com/url?q=https%3A%2F%2Fa.test%2F" =
      .ok "https://a.test/" := by
  constructor
  · have hclean := cleanLink_sample
      (⟨"out.reddit.com", "/", [("url", "https://google.com/url?q=https%3A%2F%2Fa.test%2F")],
          none⟩,
        "https://out.reddit.com/?url=https%3A%2F%2Fgoogle.com%2Furl%3Fq%3Dhttps%253A%252F%252Fa.test%252F")
      (by decide) (by decide)
    rw [hclean]
    decide
  · have hclean := cleanLink_sample
      (⟨"google.com", "/url", [("q", "https://a.test/")], none⟩,
        "https://google.com/url?q=https%3A%2F%2Fa.test%2F") (by decide) (by decide)
    rw [hclean]
    decide

end Links

end Vbuff.Core
