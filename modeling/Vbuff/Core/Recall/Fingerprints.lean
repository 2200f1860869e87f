import Vbuff.Core.Recall.Agreement
import Vbuff.Lib.Framing
import Vbuff.Lib.StableSort
import Vbuff.Lib.Tidy
import Vbuff.Lib.Utf8

/-!
# Fingerprints of queries

A query of either language has a fingerprint, which is what query pins are kept by.  The natural one
hashes its slots in order, with a value for an absent one; the other hashes its constraints, sorted
by their bytes.

What is hashed says exactly what the query says, to the millisecond
(`naturalPreimage_eq_iff`, `preimage_eq_iff`).  For that the values absent slots stand for must be
out of reach, and the lengths must fit: both hold of what the parsers give.
-/

namespace Vbuff.Core.Recall

open ByteString Framing Lockstep Result StableSort Text Vbuff.Types

/-! ## What is hashed -/

/-- What `fingerprint` hashes. -/
def NaturalQuery.preimage (query : NaturalQuery) : Bytes :=
  asBytes "vbuff-natural-query-v1" ++
    ([some query.text, query.app, query.tag, query.device].flatMap framedText ++
      [query.kind.elim 255 kindCode] ++
      i64BeBytes (query.before.elim (2 ^ 63 - 1) timestampMillis) ++
      i64BeBytes (query.after.elim (-2 ^ 63) timestampMillis))

/-- What `update_framed` hashes. -/
def framed (bytes : Bytes) : Bytes := beBytes 8 bytes.length ++ bytes

def encodeFacetValue : FacetValue → Bytes
  | .Text value => 0x54 :: asBytes (String.ofList value)
  | .Kind kind => 0x4B :: i64BeBytes kind.storedDiscriminant
  | .Instant instant => 0x49 :: i64BeBytes (timestampMillis instant)

def encodeConstraint (self : Constraint) : Bytes :=
  asBytes self.spec.name ++ [0] ++ encodeFacetValue self.value

/-- The order of byte strings. -/
def sortBytes (entries : List Bytes) : List Bytes :=
  sortByKey (fun entry : Bytes => entry.map UInt8.toNat) entries

/-- What `Query::fingerprint` hashes. -/
def Query.preimage (self : Query) : Bytes :=
  let encoded := sortBytes (self.constraints.map encodeConstraint)
  asBytes "vbuff-query-ast-v1" ++ framed (asBytes (String.ofList self.text)) ++
    beBytes 4 encoded.length ++ encoded.flatMap framed

/-- `Query::fingerprint`. -/
def Query.fingerprint (libs : QueryLibraries) (self : Query) : ContentHash :=
  libs.blake3 self.preimage

/-! ## What libraries give -/

/-- An instant that is hashed as itself, and not as one of the values for an absent bound. -/
def Representable (instant : ℤ) : Prop :=
  -2 ^ 63 < timestampMillis instant ∧ timestampMillis instant < 2 ^ 63 - 1

/-- The years of a date reach 262143 on either side of the year zero; its days count from 1970. -/
def MAX_DAYS : ℤ := (262144 + 1970) * 366

/-- The clock and the date parser stay within the dates there are. -/
structure CalendarRange (libs : QueryLibraries) (now : ℤ) : Prop where
  now : |now| ≤ MAX_DAYS * nanosPerDay
  dates : ∀ value days, libs.parseDate value = some days → |days| ≤ MAX_DAYS

/-- An instant near a date is representable: the queries reach back seven years at most. -/
theorem representable_of_abs_le {instant : ℤ}
    (h : |instant| ≤ (MAX_DAYS + 3000) * nanosPerDay) : Representable instant := by
  have hbounds := abs_le.mp h
  have hmillis : timestampMillis instant = instant / 10 ^ 6 := rfl
  rw [Representable, hmillis]
  simp only [MAX_DAYS, nanosPerDay, nanosPerHour] at hbounds
  omega

theorem relativeDuration_bounds {lower : Chars} {duration : ℤ}
    (h : relativeDuration lower = some duration) :
    0 ≤ duration ∧ duration ≤ 2555 * nanosPerDay := by
  have hunit : ∀ unit length, unitLength unit = some length →
      0 ≤ length ∧ length ≤ 7 * nanosPerDay := by
    intro unit length hlength
    unfold unitLength at hlength
    simp only [nanosPerDay, nanosPerHour] at hlength ⊢
    split_ifs at hlength <;> obtain rfl := Option.some.inj hlength <;> norm_num
  unfold relativeDuration at h
  split_ifs at h
  · obtain rfl := Option.some.inj h
    norm_num [nanosPerDay, nanosPerHour]
  · obtain rfl := Option.some.inj h
    norm_num [nanosPerDay, nanosPerHour]
  · obtain rfl := Option.some.inj h
    norm_num [nanosPerDay, nanosPerHour]
  · split at h
    · cases h
    · simp only [Option.bind_eq_bind, Option.bind_eq_some_iff] at h
      obtain ⟨amount, -, h⟩ := h
      split_ifs at h with hamount
      obtain ⟨length, hlength, h⟩ := Option.bind_eq_some_iff.mp h
      obtain rfl := Option.some.inj h
      obtain ⟨hpos, hle⟩ := hunit _ _ hlength
      have hcount : (amount : ℤ) ≤ 365 := by exact_mod_cast hamount.2
      refine ⟨mul_nonneg (Int.natCast_nonneg amount) hpos, ?_⟩
      calc (amount : ℤ) * length ≤ 365 * (7 * nanosPerDay) :=
            mul_le_mul hcount hle hpos (by norm_num)
        _ = 2555 * nanosPerDay := by ring

section

variable {libs : QueryLibraries} {now : ℤ}

/-- A day began less than a day ago. -/
theorem exists_startOfDay_eq (now : ℤ) :
    ∃ rest : ℤ, 0 ≤ rest ∧ rest < nanosPerDay ∧ startOfDay now = now - rest := by
  have hday : 0 < nanosPerDay := by norm_num [nanosPerDay, nanosPerHour]
  refine ⟨now % nanosPerDay, Int.emod_nonneg _ hday.ne', Int.emod_lt_of_pos _ hday, ?_⟩
  have hsplit := Int.mul_ediv_add_emod now nanosPerDay
  rw [startOfDay, eq_sub_iff_add_eq, Int.mul_comm]
  exact hsplit

/-- A few days around now. -/
theorem CalendarRange.representable (h : CalendarRange libs now) {instant : ℤ}
    (hlow : now - 2600 * nanosPerDay ≤ instant) (hhigh : instant ≤ now + 2600 * nanosPerDay) :
    Representable instant := by
  refine representable_of_abs_le ?_
  have hnow := abs_le.mp h.now
  rw [abs_le]
  simp only [MAX_DAYS, nanosPerDay, nanosPerHour] at *
  omega

theorem CalendarRange.representable_sub (h : CalendarRange libs now) {lower : Chars} {duration : ℤ}
    (hduration : relativeDuration lower = some duration) : Representable (now - duration) := by
  obtain ⟨hpos, hle⟩ := relativeDuration_bounds hduration
  refine h.representable ?_ ?_ <;> simp only [nanosPerDay, nanosPerHour] at * <;> omega

theorem CalendarRange.representable_startOfDay (h : CalendarRange libs now) (offset : ℤ)
    (hlow : -2000 * nanosPerDay ≤ offset) (hhigh : offset ≤ 2000 * nanosPerDay) :
    Representable (startOfDay now + offset) := by
  obtain ⟨rest, hstart, hend, heq⟩ := exists_startOfDay_eq now
  rw [heq]
  refine h.representable ?_ ?_ <;> simp only [nanosPerDay, nanosPerHour] at * <;> omega

theorem CalendarRange.representable_date (h : CalendarRange libs now) {value : Chars} {days : ℤ}
    (hdays : libs.parseDate value = some days) : Representable (days * nanosPerDay) := by
  refine representable_of_abs_le ?_
  have hbounds := abs_le.mp (h.dates value days hdays)
  rw [abs_le]
  simp only [MAX_DAYS, nanosPerDay, nanosPerHour] at *
  omega

/-! ## What the natural parser fills in -/

/-- A text slot that is filled with something, of a length that is hashed as it is. -/
def SlotFits (slot : Option Chars) : Prop := ∀ value ∈ slot, value ≠ [] ∧ utf8Len value < 2 ^ 32

def BoundFits (slot : Option DateTime) : Prop := ∀ instant ∈ slot, Representable instant

/-- The slots of a query fit its fingerprint. -/
structure NaturalQuery.Fits (query : NaturalQuery) : Prop where
  app : SlotFits query.app
  tag : SlotFits query.tag
  device : SlotFits query.device
  before : BoundFits query.before
  after : BoundFits query.after

theorem fits_default : NaturalQuery.default.Fits := by
  refine ⟨?_, ?_, ?_, ?_, ?_⟩ <;> exact fun _ h => by cases h

theorem utf8Len_lowercase (t : Chars) : utf8Len (t.map toAsciiLowercase) = utf8Len t := by
  have hsize : ∀ c, (toAsciiLowercase c).utf8Size = c.utf8Size :=
    lowercase_cases (P := fun c => (toAsciiLowercase c).utf8Size = c.utf8Size) (by decide)
      fun _ hfixed => congrArg Char.utf8Size hfixed
  rw [utf8Len, utf8Len, List.map_map]
  exact congrArg List.sum (List.map_congr_left fun c _ => hsize c)

theorem slotFits_setOnce {slot slot' : Option Chars} {value : Chars}
    (h : setOnce slot value = .ok slot') : SlotFits slot' := by
  unfold setOnce at h
  split at h
  case isTrue => cases h
  case isFalse hgood =>
    rw [Bool.or_eq_true, Bool.or_eq_true, Bool.or_eq_true, not_or, not_or, not_or] at hgood
    obtain ⟨⟨⟨-, hblank⟩, hlong⟩, -⟩ := hgood
    have hlength : ¬MAX_FILTER_VALUE_BYTES < utf8Len value := fun h => hlong (decide_eq_true h)
    rw [MAX_FILTER_VALUE_BYTES] at hlength
    obtain rfl := Except.ok.inj h
    rintro _ ⟨⟩
    refine ⟨?_, ?_⟩
    · intro hnone
      obtain rfl := List.map_eq_nil_iff.mp hnone
      exact hblank rfl
    · rw [utf8Len_lowercase]
      omega

theorem boundFits_fillOnce {slot slot' : Option DateTime} {instant : DateTime}
    (hinstant : Representable instant) (h : fillOnce slot instant = .ok slot') :
    BoundFits slot' := by
  unfold fillOnce at h
  split at h
  case isTrue => cases h
  case isFalse =>
    obtain rfl := Except.ok.inj h
    rintro _ ⟨⟩
    exact hinstant

section

variable {query query' : NaturalQuery} {value : Chars}

theorem NaturalQuery.Fits.setApp (h : query.Fits) (hset : setApp query value = .ok query') :
    query'.Fits := by
  obtain ⟨app, happ, hset⟩ := bind_eq_ok.mp hset
  obtain rfl := Except.ok.inj hset
  exact ⟨slotFits_setOnce happ, h.tag, h.device, h.before, h.after⟩

theorem NaturalQuery.Fits.setKind (h : query.Fits) {kind : ContentKind}
    (hset : setKind query kind = .ok query') : query'.Fits := by
  obtain ⟨_, -, hset⟩ := bind_eq_ok.mp hset
  obtain rfl := Except.ok.inj hset
  exact ⟨h.app, h.tag, h.device, h.before, h.after⟩

theorem NaturalQuery.Fits.setBefore (h : query.Fits) {instant : DateTime}
    (hinstant : Representable instant) (hset : setBefore query instant = .ok query') :
    query'.Fits := by
  obtain ⟨_, hfill, hset⟩ := bind_eq_ok.mp hset
  obtain rfl := Except.ok.inj hset
  exact ⟨h.app, h.tag, h.device, boundFits_fillOnce hinstant hfill, h.after⟩

theorem NaturalQuery.Fits.setAfter (h : query.Fits) {instant : DateTime}
    (hinstant : Representable instant) (hset : setAfter query instant = .ok query') :
    query'.Fits := by
  obtain ⟨_, hfill, hset⟩ := bind_eq_ok.mp hset
  obtain rfl := Except.ok.inj hset
  exact ⟨h.app, h.tag, h.device, h.before, boundFits_fillOnce hinstant hfill⟩

theorem representable_parseDateOrRelative (hcalendar : CalendarRange libs now) {instant : DateTime}
    (h : parseDateOrRelative libs value now = .ok instant) : Representable instant := by
  unfold parseDateOrRelative at h
  dsimp only at h
  split_ifs at h
  · obtain rfl := Except.ok.inj h
    have hday := hcalendar.representable_startOfDay 0 (by decide) (by decide)
    rwa [add_zero] at hday
  · obtain rfl := Except.ok.inj h
    exact hcalendar.representable_startOfDay (-nanosPerDay) (by decide) (by decide)
  · obtain ⟨duration, hduration, h⟩ := bind_eq_ok.mp h
    obtain rfl := Except.ok.inj h
    exact hcalendar.representable_sub (okOr_eq_ok.mp hduration)
  · obtain ⟨date, hdate, h⟩ := bind_eq_ok.mp h
    obtain rfl := Except.ok.inj h
    exact hcalendar.representable_date (okOr_eq_ok.mp hdate)

theorem NaturalQuery.Fits.applyFacet (hcalendar : CalendarRange libs now) (h : query.Fits)
    {key : Chars} (hset : applyFacet libs query key value now = .ok query') : query'.Fits := by
  unfold Recall.applyFacet at hset
  dsimp only at hset
  split_ifs at hset
  · exact h.setApp hset
  · obtain ⟨kind, -, hset⟩ := bind_eq_ok.mp hset
    exact h.setKind hset
  · obtain ⟨tag, htag, hset⟩ := bind_eq_ok.mp hset
    obtain rfl := Except.ok.inj hset
    exact ⟨h.app, slotFits_setOnce htag, h.device, h.before, h.after⟩
  · obtain ⟨device, hdevice, hset⟩ := bind_eq_ok.mp hset
    obtain rfl := Except.ok.inj hset
    exact ⟨h.app, h.tag, slotFits_setOnce hdevice, h.before, h.after⟩
  · obtain ⟨instant, hinstant, hset⟩ := bind_eq_ok.mp hset
    exact h.setBefore (representable_parseDateOrRelative hcalendar hinstant) hset
  · obtain ⟨instant, hinstant, hset⟩ := bind_eq_ok.mp hset
    exact h.setAfter (representable_parseDateOrRelative hcalendar hinstant) hset

/-- What the tokens read so far have given: slots that fit, and some of the tokens as text. -/
def NaturalQuery.Read (tokens : List Chars) (state : NaturalQuery × List Chars) : Prop :=
  state.1.Fits ∧ state.2.Sublist tokens

theorem NaturalQuery.Read.skip {tokens text : List Chars} (h : Read tokens (query, text))
    (hquery : query'.Fits) (token : Chars) : Read (tokens ++ [token]) (query', text) :=
  ⟨hquery, h.2.trans (List.sublist_append_left tokens [token])⟩

theorem NaturalQuery.Read.readToken (hcalendar : CalendarRange libs now) (tokens : List Chars)
    (state : NaturalQuery × List Chars) (token : Chars) (next : Option Chars)
    (state' : NaturalQuery × List Chars) (both : Bool) (h : Read tokens state)
    (hread : readToken libs now state token next = .ok (state', both)) :
    Read (tokens ++ [token]) state' := by
  obtain ⟨query, text⟩ := state
  have htoday := hcalendar.representable_startOfDay 0 (by decide) (by decide)
  rw [add_zero] at htoday
  have hyesterday := hcalendar.representable_startOfDay (-nanosPerDay) (by decide) (by decide)
  have hlunch := hcalendar.representable_startOfDay (12 * nanosPerHour) (by decide) (by decide)
  unfold Recall.readToken at hread
  dsimp only at hread
  split at hread
  case h_1 =>
    obtain ⟨query', hset, hread⟩ := bind_eq_ok.mp hread
    obtain ⟨rfl, -⟩ := Prod.mk.inj (Except.ok.inj hread)
    exact h.skip (h.1.applyFacet hcalendar hset) token
  case h_2 =>
    split at hread
    case h_1 =>
      obtain ⟨query', hset, hread⟩ := bind_eq_ok.mp hread
      obtain ⟨rfl, -⟩ := Prod.mk.inj (Except.ok.inj hread)
      exact h.skip (h.1.setApp hset) token
    case h_2 =>
      split at hread
      case h_1 =>
        obtain ⟨query', hset, hread⟩ := bind_eq_ok.mp hread
        obtain ⟨rfl, -⟩ := Prod.mk.inj (Except.ok.inj hread)
        exact h.skip (h.1.setKind hset) token
      case h_2 =>
        split at hread
        case isTrue =>
          obtain ⟨query', hset, hread⟩ := bind_eq_ok.mp hread
          obtain ⟨rfl, -⟩ := Prod.mk.inj (Except.ok.inj hread)
          exact h.skip (h.1.setAfter htoday hset) token
        case isFalse =>
          split at hread
          case isTrue =>
            obtain ⟨queryAfter, hafter, hread⟩ := bind_eq_ok.mp hread
            obtain ⟨query', hbefore, hread⟩ := bind_eq_ok.mp hread
            obtain ⟨rfl, -⟩ := Prod.mk.inj (Except.ok.inj hread)
            exact h.skip ((h.1.setAfter hyesterday hafter).setBefore htoday hbefore) token
          case isFalse =>
            split at hread
            case h_1 =>
              obtain ⟨duration, hduration, hread⟩ := bind_eq_ok.mp hread
              obtain ⟨query', hset, hread⟩ := bind_eq_ok.mp hread
              obtain ⟨rfl, -⟩ := Prod.mk.inj (Except.ok.inj hread)
              have hago := hcalendar.representable_sub (okOr_eq_ok.mp hduration)
              exact h.skip (h.1.setAfter hago hset) token
            case h_2 =>
              split at hread
              case isTrue =>
                obtain ⟨queryAfter, hafter, hread⟩ := bind_eq_ok.mp hread
                obtain ⟨query', hbefore, hread⟩ := bind_eq_ok.mp hread
                obtain ⟨rfl, -⟩ := Prod.mk.inj (Except.ok.inj hread)
                exact h.skip ((h.1.setAfter htoday hafter).setBefore hlunch hbefore) token
              case isFalse =>
                obtain ⟨rfl, -⟩ := Prod.mk.inj (Except.ok.inj hread)
                exact ⟨h.1, h.2.append (List.Sublist.refl [token])⟩

end

end

/-! ## How long the text is -/

/-- The bytes a tokenizer has kept. -/
def Tokenizer.kept (tokenizer : Tokenizer) : ℕ :=
  (tokenizer.tokens.map utf8Len).sum + utf8Len tokenizer.current

theorem Tokenizer.kept_flush (tokenizer : Tokenizer) : tokenizer.flush.kept = tokenizer.kept := by
  unfold Tokenizer.flush
  split
  · rfl
  · simp [Tokenizer.kept]

theorem Tokenizer.kept_read (tokenizer : Tokenizer) (ch : Char) :
    (tokenizer.read ch).kept ≤ tokenizer.kept + ch.utf8Size := by
  unfold Tokenizer.read
  split
  · exact Nat.le_add_right _ _
  · split
    · rw [Tokenizer.kept_flush]
      exact Nat.le_add_right _ _
    · rw [Tokenizer.kept, Tokenizer.kept, utf8Len_append, utf8Len_cons, utf8Len_nil, Nat.add_assoc]
      rfl

theorem Tokenizer.kept_foldl (raw : Chars) (tokenizer : Tokenizer) :
    (raw.foldl Tokenizer.read tokenizer).kept ≤ tokenizer.kept + utf8Len raw := by
  induction raw generalizing tokenizer with
  | nil => exact Nat.le_refl _
  | cons ch rest ih =>
    rw [List.foldl_cons, utf8Len_cons]
    have hrest := ih (tokenizer.read ch)
    have hread := tokenizer.kept_read ch
    omega

/-- The words of a text are no longer than the text. -/
theorem utf8Len_quotedTokens {raw : Chars} {tokens : List Chars}
    (h : quotedTokens raw = some tokens) : (tokens.map utf8Len).sum ≤ utf8Len raw := by
  rw [quotedTokens, Option.ite_none_left_eq_some] at h
  obtain ⟨-, h⟩ := h
  obtain rfl := Option.some.inj h
  have hall := Tokenizer.kept_foldl raw { tokens := [], current := [], quoted := false }
  rw [← Tokenizer.kept_flush] at hall
  refine (Nat.le_add_right _ _).trans (hall.trans ?_)
  simp [Tokenizer.kept]

/-- Text made of some of the words of a query is hashed behind its own length. -/
theorem utf8Len_join_lt {raw : Chars} {tokens text : List Chars}
    (hraw : utf8Len raw ≤ MAX_QUERY_BYTES) (htokens : quotedTokens raw = some tokens)
    (hcount : tokens.length ≤ MAX_QUERY_TOKENS) (htext : text.Sublist tokens) :
    utf8Len (join ' ' text) < 2 ^ 32 := by
  have hkept := utf8Len_quotedTokens htokens
  have hsum := (htext.map utf8Len).sum_le_sum fun _ _ => Nat.zero_le _
  have hlength := htext.length_le
  have hspace : ' '.utf8Size = 1 := by decide
  rw [utf8Len_join, hspace]
  simp only [MAX_QUERY_BYTES, MAX_QUERY_TOKENS] at *
  omega

theorem parseNaturalQuery_fits {libs : QueryLibraries} {now : DateTime}
    (hcalendar : CalendarRange libs now) {raw : Chars} {query : NaturalQuery}
    (h : parseNaturalQuery libs raw now = .ok query) :
    query.Fits ∧ utf8Len query.text < 2 ^ 32 := by
  unfold parseNaturalQuery at h
  obtain ⟨_, hraw, h⟩ := bind_eq_ok.mp h
  obtain ⟨tokens, htokens, h⟩ := bind_eq_ok.mp h
  obtain ⟨_, hcount, h⟩ := bind_eq_ok.mp h
  obtain ⟨⟨slots, text⟩, hrun, h⟩ := bind_eq_ok.mp h
  obtain ⟨_, -, h⟩ := bind_eq_ok.mp h
  obtain rfl := Except.ok.inj h
  have hread : NaturalQuery.Read ([] ++ tokens) (slots, text) :=
    run_invariant (NaturalQuery.Read.readToken hcalendar)
      (fun _ _ token hread => hread.skip hread.1 token) ⟨fits_default, List.Sublist.refl _⟩ hrun
  obtain ⟨hfits, htext⟩ := hread
  refine ⟨⟨hfits.app, hfits.tag, hfits.device, hfits.before, hfits.after⟩, ?_⟩
  exact utf8Len_join_lt (ensure_eq_ok.mp hraw).1 (okOr_eq_ok.mp htokens) (ensure_eq_ok.mp hcount)
    htext

/-! ## The natural query -/

theorem i64BeBytes_inj {a b : ℤ} (ha : -2 ^ 63 ≤ a ∧ a < 2 ^ 63) (hb : -2 ^ 63 ≤ b ∧ b < 2 ^ 63)
    (h : i64BeBytes a = i64BeBytes b) : a = b := by
  have hword : ∀ n : ℤ, (n % 2 ^ 64).toNat < 256 ^ 8 := by omega
  have hnat := beBytes_inj (hword a) (hword b) h
  omega

theorem delimits_framedText :
    Delimits {slot : Option Chars | utf8Len (slot.getD []) < 2 ^ 32} framedText (·.getD []) := by
  have hbytes := (delimits_lengthPrefixed (delimits_beBytes 4)).comap
    (V := {slot : Option Chars | utf8Len (slot.getD []) < 2 ^ 32})
    (fun slot : Option Chars => asBytes (String.ofList (slot.getD []))) fun slot hslot => by
      show (asBytes (String.ofList (slot.getD []))).length < 2 ^ 32
      rw [Utf8.length_asBytes_ofList]
      exact hslot
  refine hbytes.map fun slot _ slot' _ heq => ?_
  rw [id, id, Utf8.asBytes_ofList, Utf8.asBytes_ofList] at heq
  exact Utf8.encode_injective heq

/-- An empty slot is told from a filled one. -/
theorem delimits_slot : Delimits {slot | SlotFits slot} framedText id := by
  refine (delimits_framedText.mono ?_).map fun slot hslot slot' hslot' heq => ?_
  · intro slot hslot
    cases slot with
    | none => exact Nat.two_pow_pos 32
    | some value => exact (hslot value rfl).2
  · cases slot with
    | none =>
      cases slot' with
      | none => rfl
      | some value => exact absurd heq.symm (hslot' value rfl).1
    | some value =>
      cases slot' with
      | none => exact absurd heq (hslot value rfl).1
      | some value' => exact congrArg some heq

/-- An absent bound is told from every instant there is. -/
theorem delimits_bound (absent : ℤ) (hword : -2 ^ 63 ≤ absent ∧ absent < 2 ^ 63)
    (habsent : ∀ instant, Representable instant → timestampMillis instant ≠ absent) :
    Delimits {slot | BoundFits slot} (fun slot => i64BeBytes (slot.elim absent timestampMillis))
      (·.map timestampMillis) := by
  have hrange : ∀ slot, BoundFits slot →
      -2 ^ 63 ≤ slot.elim absent timestampMillis ∧ slot.elim absent timestampMillis < 2 ^ 63 := by
    intro slot hslot
    cases slot with
    | none => exact hword
    | some instant =>
      obtain ⟨hlow, hhigh⟩ := hslot instant rfl
      exact ⟨hlow.le, hhigh.trans (by norm_num)⟩
  refine Delimits.of_length (n := 8) (fun _ _ => length_beBytes 8 _)
    fun slot hslot slot' hslot' heq => ?_
  have hmillis := i64BeBytes_inj (hrange slot hslot) (hrange slot' hslot') heq
  cases slot with
  | none =>
    cases slot' with
    | none => rfl
    | some instant => exact absurd hmillis.symm (habsent instant (hslot' instant rfl))
  | some instant =>
    cases slot' with
    | none => exact absurd hmillis (habsent instant (hslot instant rfl))
    | some instant' => exact congrArg some hmillis

theorem kindByte_injective :
    Function.Injective fun kind : Option ContentKind => kind.elim 255 kindCode := by
  intro kind kind' h
  cases kind with
  | none =>
    cases kind' with
    | none => rfl
    | some k => cases k <;> cases h
  | some k =>
    cases kind' with
    | none => cases k <;> cases h
    | some k' => cases k <;> cases k' <;> first | rfl | cases h

/-- Two natural queries are hashed alike exactly when they say the same. -/
theorem naturalPreimage_eq_iff {query query' : NaturalQuery} (h : query.Fits) (h' : query'.Fits)
    (htext : utf8Len query.text < 2 ^ 32) (htext' : utf8Len query'.text < 2 ^ 32) :
    query.preimage = query'.preimage ↔
      query.text = query'.text ∧ query.app = query'.app ∧ query.tag = query'.tag ∧
        query.device = query'.device ∧ query.kind = query'.kind ∧
        query.before.map timestampMillis = query'.before.map timestampMillis ∧
        query.after.map timestampMillis = query'.after.map timestampMillis := by
  let V : Set NaturalQuery := {query | query.Fits ∧ utf8Len query.text < 2 ^ 32}
  have helim : ∀ (slot : Option DateTime) (absent : ℤ),
      slot.elim absent timestampMillis = (slot.map timestampMillis).getD absent := by
    intro slot absent
    cases slot <;> rfl
  constructor
  · intro heq
    have hfields : Delimits V _ _ :=
      (delimits_framedText.comap (fun q : NaturalQuery => some q.text) fun _ hq => hq.2).append <|
      (delimits_slot.comap NaturalQuery.app fun _ hq => hq.1.app).append <|
      (delimits_slot.comap NaturalQuery.tag fun _ hq => hq.1.tag).append <|
      (delimits_slot.comap NaturalQuery.device fun _ hq => hq.1.device).append <|
      ((delimits_discriminant kindByte_injective).comap NaturalQuery.kind
        fun _ _ => trivial).append <|
      ((delimits_bound (2 ^ 63 - 1) (by norm_num) fun _ hfit => hfit.2.ne).comap
        NaturalQuery.before fun _ hq => hq.1.before).append <|
      (delimits_bound (-2 ^ 63) (by norm_num) fun _ hfit => hfit.1.ne').comap
        NaturalQuery.after fun _ hq => hq.1.after
    simp only [NaturalQuery.preimage, List.flatMap_cons, List.flatMap_nil, List.append_nil,
      List.append_assoc] at heq
    have hsame := hfields.determines ⟨h, htext⟩ ⟨h', htext'⟩ (List.append_cancel_left heq)
    simp only [Prod.mk.injEq] at hsame
    exact hsame
  · rintro ⟨htexts, happ, htag, hdevice, hkind, hbefore, hafter⟩
    rw [NaturalQuery.preimage, NaturalQuery.preimage, htexts, happ, htag, hdevice, hkind, helim,
      helim, helim, helim, hbefore, hafter]

/-! ## What the grammar collects -/

/-- A value that is hashed as it is. -/
def FacetValue.Fits : FacetValue → Prop
  | .Text value => utf8Len value < 2 ^ 63
  | .Kind _ => True
  | .Instant instant => Representable instant

/-- A constraint on a facet of the table, with a value that is hashed as it is. -/
structure Constraint.Fits (c : Constraint) : Prop where
  registered : c.spec ∈ REGISTRY
  value : c.value.Fits

/-- A value that was checked is a string again when it is normalized. -/
def LookupFits (unicode : Unicode) : Prop :=
  ∀ value, utf8Len value ≤ MAX_FACET_VALUE_BYTES → utf8Len (normalizeLookup unicode value) < 2 ^ 63

namespace Grammar

def AllFit (constraints : List Constraint) : Prop := ∀ c ∈ constraints, c.Fits

section

variable {unicode : Unicode} {libs : QueryLibraries} {now : DateTime} {spec : FacetSpec}
  {constraints constraints' : List Constraint} {token : Chars}

theorem facetSpec_registered {key : Chars} (h : facetSpec unicode key = some spec) :
    spec ∈ REGISTRY := List.mem_of_find?_eq_some h

theorem AllFit.pushConstraint (h : AllFit constraints) {value : FacetValue}
    (hspec : spec ∈ REGISTRY) (hvalue : value.Fits)
    (hpush : pushConstraint constraints spec value = .ok constraints') : AllFit constraints' := by
  unfold Grammar.pushConstraint at hpush
  split at hpush
  case isTrue => cases hpush
  case isFalse =>
    obtain rfl := Except.ok.inj hpush
    intro c hc
    rcases List.mem_append.mp hc with hold | hnew
    · exact h c hold
    · obtain rfl := List.mem_singleton.mp hnew
      exact ⟨hspec, hvalue⟩

theorem representable_parseInstant (hcalendar : CalendarRange libs now) {value : Chars}
    {instant : DateTime} (h : parseInstant libs value now = .ok instant) :
    Representable instant := by
  unfold parseInstant at h
  split_ifs at h
  · obtain rfl := Except.ok.inj h
    have hday := hcalendar.representable_startOfDay 0 (by decide) (by decide)
    rwa [add_zero] at hday
  · obtain rfl := Except.ok.inj h
    exact hcalendar.representable_startOfDay (-nanosPerDay) (by decide) (by decide)
  · obtain ⟨duration, hduration, h⟩ := bind_eq_ok.mp h
    obtain rfl := Except.ok.inj h
    exact hcalendar.representable_sub (okOr_eq_ok.mp hduration)
  · obtain ⟨date, hdate, h⟩ := bind_eq_ok.mp h
    obtain rfl := Except.ok.inj h
    exact hcalendar.representable_date (okOr_eq_ok.mp hdate)

theorem fits_parseFacetValue (hcalendar : CalendarRange libs now) (hlookup : LookupFits unicode)
    {raw : Chars} {value : FacetValue}
    (h : parseFacetValue unicode libs spec raw now = .ok (some value)) : value.Fits := by
  unfold parseFacetValue at h
  split at h
  case isTrue => cases h
  case isFalse hgood =>
    split at h
    case isTrue =>
      split at h
      · cases h
      · cases Except.ok.inj h
    case isFalse =>
      obtain ⟨_, hread, h⟩ := bind_eq_ok.mp h
      obtain rfl := Option.some.inj (Except.ok.inj h)
      unfold readValue at hread
      split at hread
      · obtain rfl := Except.ok.inj hread
        exact hlookup raw (Nat.not_lt.mp fun hlong => hgood (Or.inl hlong))
      · obtain ⟨kind, -, hread⟩ := bind_eq_ok.mp hread
        obtain rfl := Except.ok.inj hread
        exact trivial
      · obtain ⟨instant, hinstant, hread⟩ := bind_eq_ok.mp hread
        obtain rfl := Except.ok.inj hread
        exact representable_parseInstant hcalendar hinstant

theorem AllFit.applyFacetToken (h : AllFit constraints) (hcalendar : CalendarRange libs now)
    (hlookup : LookupFits unicode)
    (happly : applyFacetToken unicode libs constraints token now = .ok (some constraints')) :
    AllFit constraints' := by
  unfold Grammar.applyFacetToken at happly
  split at happly
  case h_1 => cases Except.ok.inj happly
  case h_2 spec value hfacet =>
    obtain ⟨facet, -, hfacet⟩ := Option.bind_eq_some_iff.mp hfacet
    obtain ⟨spec', hspec, hpair⟩ := Option.map_eq_some_iff.mp hfacet
    obtain ⟨rfl, -⟩ := Prod.mk.inj hpair
    obtain ⟨parsed, hparsed, happly⟩ := bind_eq_ok.mp happly
    split at happly
    · cases Except.ok.inj happly
    · obtain ⟨pushed, hpush, happly⟩ := bind_eq_ok.mp happly
      obtain rfl := Option.some.inj (Except.ok.inj happly)
      exact h.pushConstraint (facetSpec_registered hspec)
        (fits_parseFacetValue hcalendar hlookup hparsed) hpush

theorem representable_windowBounds (hcalendar : CalendarRange libs now) (window : CalendarWindow) :
    BoundFits (windowBounds window now).1 ∧ BoundFits (windowBounds window now).2 := by
  have htoday := hcalendar.representable_startOfDay 0 (by decide) (by decide)
  rw [add_zero] at htoday
  have hyesterday := hcalendar.representable_startOfDay (-nanosPerDay) (by decide) (by decide)
  have hlunch := hcalendar.representable_startOfDay (12 * nanosPerHour) (by decide) (by decide)
  cases window with
  | Today => exact ⟨by rintro _ ⟨⟩; exact htoday, by rintro _ ⟨⟩⟩
  | Yesterday => exact ⟨by rintro _ ⟨⟩; exact hyesterday, by rintro _ ⟨⟩; exact htoday⟩
  | UntilLunch => exact ⟨by rintro _ ⟨⟩; exact htoday, by rintro _ ⟨⟩; exact hlunch⟩

theorem AllFit.pushInstant (h : AllFit constraints) {facet : String} {instant : Option DateTime}
    (hinstant : BoundFits instant)
    (hpush : pushInstant unicode constraints facet instant = .ok constraints') :
    AllFit constraints' := by
  unfold Grammar.pushInstant at hpush
  split at hpush
  case h_1 =>
    obtain rfl := Except.ok.inj hpush
    exact h
  case h_2 instant =>
    obtain ⟨spec, hspec, hpush⟩ := bind_eq_ok.mp hpush
    have hvalue : (FacetValue.Instant instant).Fits := hinstant instant rfl
    exact h.pushConstraint (facetSpec_registered (okOr_eq_ok.mp hspec)) hvalue hpush

theorem AllFit.pushWindow (h : AllFit constraints) (hcalendar : CalendarRange libs now)
    {window : CalendarWindow}
    (hpush : pushWindow unicode constraints window now = .ok constraints') :
    AllFit constraints' := by
  obtain ⟨hafter, hbefore⟩ := representable_windowBounds hcalendar window
  unfold Grammar.pushWindow at hpush
  obtain ⟨between, hfirst, hpush⟩ := bind_eq_ok.mp hpush
  exact (h.pushInstant hafter hfirst).pushInstant hbefore hpush

theorem AllFit.applySugar (h : AllFit constraints) (hcalendar : CalendarRange libs now)
    (hlookup : LookupFits unicode) {next : Option Chars} {both : Bool}
    (happly : applySugar unicode libs constraints token next now =
      .ok (some (constraints', both))) : AllFit constraints' := by
  unfold Grammar.applySugar at happly
  dsimp only at happly
  split at happly
  case h_1 => cases Except.ok.inj happly
  case h_2 => cases Except.ok.inj happly
  case h_3 =>
    obtain ⟨spec, hspec, happly⟩ := bind_eq_ok.mp happly
    obtain ⟨parsed, hparsed, happly⟩ := bind_eq_ok.mp happly
    split at happly
    · cases Except.ok.inj happly
    · obtain ⟨pushed, hpush, happly⟩ := bind_eq_ok.mp happly
      obtain ⟨rfl, -⟩ := Prod.mk.inj (Option.some.inj (Except.ok.inj happly))
      exact h.pushConstraint (facetSpec_registered (okOr_eq_ok.mp hspec))
        (fits_parseFacetValue hcalendar hlookup hparsed) hpush
  case h_4 => cases Except.ok.inj happly
  case h_5 =>
    obtain ⟨spec, hspec, happly⟩ := bind_eq_ok.mp happly
    obtain ⟨duration, hduration, happly⟩ := bind_eq_ok.mp happly
    obtain ⟨pushed, hpush, happly⟩ := bind_eq_ok.mp happly
    obtain ⟨rfl, -⟩ := Prod.mk.inj (Option.some.inj (Except.ok.inj happly))
    have hvalue : (FacetValue.Instant (now - duration)).Fits :=
      hcalendar.representable_sub (okOr_eq_ok.mp hduration)
    exact h.pushConstraint (facetSpec_registered (okOr_eq_ok.mp hspec)) hvalue hpush
  case h_6 =>
    split at happly
    · obtain ⟨pushed, hpush, happly⟩ := bind_eq_ok.mp happly
      obtain ⟨rfl, -⟩ := Prod.mk.inj (Option.some.inj (Except.ok.inj happly))
      exact h.pushWindow hcalendar hpush
    · cases Except.ok.inj happly
  case h_7 =>
    obtain ⟨pushed, hpush, happly⟩ := bind_eq_ok.mp happly
    obtain ⟨rfl, -⟩ := Prod.mk.inj (Option.some.inj (Except.ok.inj happly))
    exact h.pushWindow hcalendar hpush

theorem AllFit.applyBareKind (h : AllFit constraints)
    (happly : applyBareKind unicode constraints token = .ok (some constraints')) :
    AllFit constraints' := by
  unfold Grammar.applyBareKind at happly
  split at happly
  case h_1 kind spec hkind hspec =>
    obtain ⟨pushed, hpush, happly⟩ := bind_eq_ok.mp happly
    obtain rfl := Option.some.inj (Except.ok.inj happly)
    have hvalue : (FacetValue.Kind kind).Fits := trivial
    exact h.pushConstraint (List.mem_of_find?_eq_some hspec) hvalue hpush
  case h_2 => cases Except.ok.inj happly

/-- What the tokens read so far have given: constraints, and some of the tokens as text. -/
def Read (tokens : List Chars) (state : List Constraint × List Chars) : Prop :=
  AllFit state.1 ∧ state.2.Sublist tokens

theorem Read.skip {tokens text : List Chars} (h : Read tokens (constraints, text))
    (hfit : AllFit constraints') (token : Chars) : Read (tokens ++ [token]) (constraints', text) :=
  ⟨hfit, h.2.trans (List.sublist_append_left tokens [token])⟩

theorem Read.readToken (hcalendar : CalendarRange libs now) (hlookup : LookupFits unicode)
    (tokens : List Chars) (state : List Constraint × List Chars) (token : Chars)
    (next : Option Chars) (state' : List Constraint × List Chars) (both : Bool)
    (h : Read tokens state)
    (hread : Grammar.readToken unicode libs now state token next = .ok (state', both)) :
    Read (tokens ++ [token]) state' := by
  obtain ⟨constraints, text⟩ := state
  unfold Grammar.readToken at hread
  obtain ⟨facet, hfacet, hread⟩ := bind_eq_ok.mp hread
  split at hread
  · obtain ⟨rfl, -⟩ := Prod.mk.inj (Except.ok.inj hread)
    exact h.skip (h.1.applyFacetToken hcalendar hlookup hfacet) token
  · obtain ⟨sugar, hsugar, hread⟩ := bind_eq_ok.mp hread
    split at hread
    · obtain ⟨rfl, -⟩ := Prod.mk.inj (Except.ok.inj hread)
      exact h.skip (h.1.applySugar hcalendar hlookup hsugar) token
    · obtain ⟨kind, hkind, hread⟩ := bind_eq_ok.mp hread
      split at hread
      · obtain ⟨rfl, -⟩ := Prod.mk.inj (Except.ok.inj hread)
        exact h.skip (h.1.applyBareKind hkind) token
      · obtain ⟨rfl, -⟩ := Prod.mk.inj (Except.ok.inj hread)
        exact ⟨h.1, h.2.append (List.Sublist.refl [token])⟩

end

theorem parseQuery_fits {unicode : Unicode} {libs : QueryLibraries} {now : DateTime}
    (hcalendar : CalendarRange libs now) (hlookup : LookupFits unicode) {raw : Chars}
    {query : Query} (h : parseQuery unicode libs raw now = .ok query) :
    AllFit query.constraints ∧ utf8Len query.text < 2 ^ 32 := by
  unfold parseQuery at h
  obtain ⟨_, hraw, h⟩ := bind_eq_ok.mp h
  obtain ⟨tokens, htokens, h⟩ := bind_eq_ok.mp h
  obtain ⟨_, hcount, h⟩ := bind_eq_ok.mp h
  obtain ⟨⟨constraints, text⟩, hrun, h⟩ := bind_eq_ok.mp h
  obtain ⟨_, -, h⟩ := bind_eq_ok.mp h
  obtain rfl := Except.ok.inj h
  have hread : Read ([] ++ tokens) (constraints, text) :=
    run_invariant (Read.readToken hcalendar hlookup)
      (fun _ _ token hread => hread.skip hread.1 token)
      ⟨fun _ h => absurd h List.not_mem_nil, List.Sublist.refl []⟩ hrun
  exact ⟨hread.1, utf8Len_join_lt (ensure_eq_ok.mp hraw).1 (okOr_eq_ok.mp htokens)
    (ensure_eq_ok.mp hcount) hread.2⟩

end Grammar

/-! ## The query of the grammar -/

/-- A value as it is hashed: instants are cut to milliseconds. -/
def FacetValue.toMillis : FacetValue → FacetValue
  | .Instant instant => .Instant (timestampMillis instant * 10 ^ 6)
  | value => value

def Constraint.toMillis (self : Constraint) : Constraint :=
  { self with value := self.value.toMillis }

theorem timestampMillis_cut {a b : ℤ} :
    timestampMillis a * 10 ^ 6 = timestampMillis b * 10 ^ 6 ↔
      timestampMillis a = timestampMillis b :=
  Int.mul_eq_mul_right_iff (by norm_num)

/-- The letter in front tells the kinds of values apart. -/
theorem encodeFacetValue_eq_iff {value value' : FacetValue} (h : value.Fits) (h' : value'.Fits) :
    encodeFacetValue value = encodeFacetValue value' ↔ value.toMillis = value'.toMillis := by
  have hkind : ∀ kind : ContentKind, (kind.storedDiscriminant : ℤ) < 2 ^ 63 := by
    intro kind
    cases kind <;> decide
  cases value with
  | Text text =>
    cases value' with
    | Text text' =>
      simp only [encodeFacetValue, FacetValue.toMillis, Utf8.asBytes_ofList, List.cons.injEq,
        true_and, FacetValue.Text.injEq]
      exact Utf8.encode_injective.eq_iff
    | Kind kind => exact iff_of_false (fun heq => by cases heq) fun heq => by cases heq
    | Instant instant => exact iff_of_false (fun heq => by cases heq) fun heq => by cases heq
  | Kind kind =>
    cases value' with
    | Text text => exact iff_of_false (fun heq => by cases heq) fun heq => by cases heq
    | Kind kind' =>
      simp only [encodeFacetValue, FacetValue.toMillis, List.cons.injEq, true_and,
        FacetValue.Kind.injEq]
      refine ⟨fun heq => ?_, fun heq => by rw [heq]⟩
      have hcode := i64BeBytes_inj ⟨by omega, hkind kind⟩ ⟨by omega, hkind kind'⟩ heq
      exact ContentKind.storedDiscriminant_injective (Int.ofNat_inj.mp hcode)
    | Instant instant => exact iff_of_false (fun heq => by cases heq) fun heq => by cases heq
  | Instant instant =>
    cases value' with
    | Text text => exact iff_of_false (fun heq => by cases heq) fun heq => by cases heq
    | Kind kind => exact iff_of_false (fun heq => by cases heq) fun heq => by cases heq
    | Instant instant' =>
      simp only [encodeFacetValue, FacetValue.toMillis, List.cons.injEq, true_and,
        FacetValue.Instant.injEq, timestampMillis_cut]
      refine ⟨fun heq => ?_, fun heq => by rw [heq]⟩
      exact i64BeBytes_inj ⟨h.1.le, h.2.trans (by norm_num)⟩ ⟨h'.1.le, h'.2.trans (by norm_num)⟩ heq

/-- The zero behind the name of a facet ends it. -/
theorem zero_notMem_name : ∀ spec ∈ REGISTRY, (0 : UInt8) ∉ asBytes spec.name := by decide +kernel

theorem encodeConstraint_eq_iff {c c' : Constraint} (h : c.Fits) (h' : c'.Fits) :
    encodeConstraint c = encodeConstraint c' ↔ c.toMillis = c'.toMillis := by
  have hvalue := encodeFacetValue_eq_iff h.value h'.value
  rw [Constraint.toMillis, Constraint.toMillis, Constraint.mk.injEq, ← hvalue]
  constructor
  · intro heq
    obtain ⟨hname, hrest⟩ := delimits_terminated 0 (zero_notMem_name _ h.registered)
      (zero_notMem_name _ h'.registered) heq
    exact ⟨name_inj _ h.registered _ h'.registered (asBytes_injective hname), hrest⟩
  · rintro ⟨hspec, hsame⟩
    rw [encodeConstraint, encodeConstraint, hspec, hsame]

/-- An encoded constraint is hashed behind its own length. -/
theorem length_encodeConstraint {c : Constraint} (h : c.Fits) :
    (encodeConstraint c).length < 256 ^ 8 := by
  have hname : ∀ spec ∈ REGISTRY, (asBytes spec.name).length ≤ 8 := by decide +kernel
  have hbound := hname _ h.registered
  have hvalue := h.value
  rw [encodeConstraint, List.length_append, List.length_append, List.length_singleton]
  cases hcase : c.value with
  | Text value =>
    rw [hcase] at hvalue
    have hlength : utf8Len value < 2 ^ 63 := hvalue
    rw [encodeFacetValue, List.length_cons, Utf8.length_asBytes_ofList]
    omega
  | Kind kind =>
    rw [encodeFacetValue, List.length_cons, i64BeBytes, length_beBytes]
    omega
  | Instant instant =>
    rw [encodeFacetValue, List.length_cons, i64BeBytes, length_beBytes]
    omega

theorem delimits_framed : Delimits {bytes : Bytes | bytes.length < 256 ^ 8} framed id :=
  delimits_lengthPrefixed (delimits_beBytes 8)

theorem sortBytes_eq_iff {entries entries' : List Bytes} :
    sortBytes entries = sortBytes entries' ↔ entries.Perm entries' :=
  sortByKey_eq_iff_perm _ (List.map_injective_iff.mpr fun _ _ => UInt8.toNat_inj.mp)

/-- Two queries are hashed alike exactly when their text is the same and they have the same
constraints, in whatever order. -/
theorem preimage_eq_iff {query query' : Query} (h : Grammar.AllFit query.constraints)
    (h' : Grammar.AllFit query'.constraints) (htext : utf8Len query.text < 2 ^ 32)
    (htext' : utf8Len query'.text < 2 ^ 32) :
    query.preimage = query'.preimage ↔
      query.text = query'.text ∧
        (query.constraints.map Constraint.toMillis).Perm
          (query'.constraints.map Constraint.toMillis) := by
  have hshort : ∀ q : Query, utf8Len q.text < 2 ^ 32 →
      (asBytes (String.ofList q.text)).length < 256 ^ 8 := by
    intro q hq
    rw [Utf8.length_asBytes_ofList]
    omega
  have hentries : ∀ q : Query, Grammar.AllFit q.constraints →
      ∀ entry ∈ sortBytes (q.constraints.map encodeConstraint), entry.length < 256 ^ 8 := by
    intro q hq entry hentry
    obtain ⟨c, hc, rfl⟩ := List.mem_map.mp ((perm_sortByKey _ _).mem_iff.mp hentry)
    exact length_encodeConstraint (hq c hc)
  have hframed : ∀ bytes ∈ {bytes : Bytes | bytes.length < 256 ^ 8}, framed bytes ≠ [] := by
    intro bytes _ hnil
    have hheader := congrArg List.length (List.append_eq_nil_iff.mp hnil).1
    rw [length_beBytes] at hheader
    cases hheader
  have hsaid : ∀ c ∈ query.constraints, ∀ c' ∈ query'.constraints,
      (encodeConstraint c = encodeConstraint c' ↔ c.toMillis = c'.toMillis) :=
    fun c hc c' hc' => encodeConstraint_eq_iff (h c hc) (h' c' hc')
  constructor
  · intro heq
    simp only [Query.preimage, List.append_assoc] at heq
    obtain ⟨htexts, hrest⟩ := delimits_framed (hshort query htext) (hshort query' htext')
      (List.append_cancel_left heq)
    obtain ⟨-, hlist⟩ := List.append_inj hrest (by rw [length_beBytes, length_beBytes])
    have hsorted :=
      delimits_framed.flatMap_inj hframed (hentries query h) (hentries query' h') hlist
    refine ⟨?_, perm_map_of_determined (fun c hc c' hc' => (hsaid c hc c' hc').mp)
      (sortBytes_eq_iff.mp hsorted)⟩
    rw [id, id, Utf8.asBytes_ofList, Utf8.asBytes_ofList] at htexts
    exact Utf8.encode_injective htexts
  · rintro ⟨htexts, hperm⟩
    have hsorted := sortBytes_eq_iff.mpr
      (perm_map_of_determined (fun c hc c' hc' => (hsaid c hc c' hc').mpr) hperm)
    rw [Query.preimage, Query.preimage, hsorted, htexts]

/-- The fingerprint a natural query carries is that of what it says. -/
theorem parseNaturalQuery_fingerprint {libs : QueryLibraries} {now : DateTime} {raw : Chars}
    {query : NaturalQuery} (h : parseNaturalQuery libs raw now = .ok query) :
    query.fingerprint = libs.blake3 query.preimage := by
  unfold parseNaturalQuery at h
  obtain ⟨_, -, h⟩ := bind_eq_ok.mp h
  obtain ⟨_, -, h⟩ := bind_eq_ok.mp h
  obtain ⟨_, -, h⟩ := bind_eq_ok.mp h
  obtain ⟨_, -, h⟩ := bind_eq_ok.mp h
  obtain ⟨_, -, h⟩ := bind_eq_ok.mp h
  obtain rfl := Except.ok.inj h
  rfl

/-- What is hashed of two parsed queries, of either language, is the same exactly when they say the
same. -/
theorem fingerprints_identify {unicode : Unicode} {libs : QueryLibraries}
    (hlookup : LookupFits unicode) {now now' : DateTime} (hcalendar : CalendarRange libs now)
    (hcalendar' : CalendarRange libs now') (raw raw' : Chars) :
    (∀ query query', Grammar.parseQuery unicode libs raw now = .ok query →
      Grammar.parseQuery unicode libs raw' now' = .ok query' →
        (query.preimage = query'.preimage ↔
          query.text = query'.text ∧
            (query.constraints.map Constraint.toMillis).Perm
              (query'.constraints.map Constraint.toMillis))) ∧
    ∀ query query', parseNaturalQuery libs raw now = .ok query →
      parseNaturalQuery libs raw' now' = .ok query' →
        (query.preimage = query'.preimage ↔
          query.text = query'.text ∧ query.app = query'.app ∧ query.tag = query'.tag ∧
            query.device = query'.device ∧ query.kind = query'.kind ∧
            query.before.map timestampMillis = query'.before.map timestampMillis ∧
            query.after.map timestampMillis = query'.after.map timestampMillis) := by
  constructor
  · intro query query' hparse hparse'
    obtain ⟨hfit, htext⟩ := Grammar.parseQuery_fits hcalendar hlookup hparse
    obtain ⟨hfit', htext'⟩ := Grammar.parseQuery_fits hcalendar' hlookup hparse'
    exact preimage_eq_iff hfit hfit' htext htext'
  · intro query query' hparse hparse'
    obtain ⟨hfit, htext⟩ := parseNaturalQuery_fits hcalendar hparse
    obtain ⟨hfit', htext'⟩ := parseNaturalQuery_fits hcalendar' hparse'
    exact naturalPreimage_eq_iff hfit hfit' htext htext'

theorem lookupFits_ascii : LookupFits .ascii := by
  intro value hvalue
  have hupper : ∀ c, (toAsciiUppercase c).utf8Size ≤ c.utf8Size := by
    intro c
    by_cases hlower : isAsciiLowercase c = true
    · have hascii : isAscii c = true := by
        rw [isAsciiLowercase, Bool.and_eq_true, decide_eq_true_eq, decide_eq_true_eq] at hlower
        have hend : 'z' < '\x80' := by decide
        exact decide_eq_true (lt_of_le_of_lt hlower.2 hend)
      exact ascii_cases (P := fun c => (toAsciiUppercase c).utf8Size ≤ c.utf8Size) (by decide)
        hascii
    · rw [toAsciiUppercase, if_neg hlower]
  have hsize : utf8Len ((trim value).map toAsciiUppercase) ≤ utf8Len (trim value) := by
    rw [utf8Len, utf8Len, List.map_map]
    exact List.sum_le_sum fun c _ => hupper c
  have htrim := utf8Len_trim_le value
  have hlower := utf8Len_lowercase ((trim value).map toAsciiUppercase)
  show utf8Len (((trim value).map toAsciiUppercase).map toAsciiLowercase) < 2 ^ 63
  rw [MAX_FACET_VALUE_BYTES] at hvalue
  omega

/-- The same query, typed in two orders. -/
def recentNotes : Chars := "notes app:a AFTER:2026-01-02".toList

def notesRecent : Chars := "after:2026-01-02 notes APP:A".toList

theorem fingerprints_identify_newYear :
    ∃ query query', Grammar.parseQuery .ascii newYearLibraries recentNotes 0 = .ok query ∧
      Grammar.parseQuery .ascii newYearLibraries notesRecent 0 = .ok query' ∧
      query.constraints ≠ query'.constraints ∧ query.preimage = query'.preimage := by
  have hcalendar : CalendarRange newYearLibraries 0 := by
    refine ⟨by decide, fun value days h => ?_⟩
    obtain ⟨-, hdays⟩ := Option.ite_none_right_eq_some.mp h
    obtain rfl := Option.some.inj hdays
    decide
  let app : Constraint := ⟨appSpec, .Text "a".toList⟩
  let after : Constraint := ⟨afterSpec, .Instant (20455 * nanosPerDay)⟩
  have hparse : Grammar.parseQuery .ascii newYearLibraries recentNotes 0 =
      .ok ⟨"notes".toList, [app, after]⟩ := toOption_eq_some.mp (by decide +kernel)
  have hparse' : Grammar.parseQuery .ascii newYearLibraries notesRecent 0 =
      .ok ⟨"notes".toList, [after, app]⟩ := toOption_eq_some.mp (by decide +kernel)
  refine ⟨_, _, hparse, hparse', by decide, ?_⟩
  exact ((fingerprints_identify lookupFits_ascii hcalendar hcalendar _ _).1 _ _ hparse hparse').mpr
    ⟨rfl, List.Perm.swap _ _ _⟩

end Vbuff.Core.Recall
