import Vbuff.Lib.Tidy
import Vbuff.Store.ScanCursor

/-!
# Tags of clips

The names of tags are in one form and distinct, every assignment is one of a clip and a tag there
is, and how many there are is bounded: `Labelled`.  Whatever a store is asked for keeps that.
Outside of `edit_tags` tags stay as they are, and assignments go with their clips (`Tended`).
-/

namespace Vbuff.Store

open ByteString Text Vbuff.Types Vbuff.Core Attempt

/-! ## What tags and assignments are like -/

/-- A name as `edit_tags` stores it. -/
structure TagName (unicode : Unicode) (name : String) : Prop where
  nonempty : name ≠ ""
  trimmed : trim name.toList = name.toList
  lowercase : unicode.toLowercase name.toList = name.toList
  control : name.toList.any isControl = false
  size : utf8Len name.toList ≤ 64

structure Labels (unicode : Unicode) (tags : List TagRow) : Prop where
  ids : (tags.map TagRow.id).Nodup
  names : (tags.map TagRow.name).Nodup
  named : ∀ tag ∈ tags, TagName unicode tag.name
  count : tags.length ≤ 256

/-- The assignments of the clips with these ids to the tags with those. -/
structure Assignments (clips : List ClipId) (tags : List String)
    (clipTags : List (ClipId × String)) : Prop where
  nodup : clipTags.Nodup
  clip : ∀ entry ∈ clipTags, entry.1 ∈ clips
  tag : ∀ entry ∈ clipTags, entry.2 ∈ tags
  perClip : ∀ id, clipTags.countP (·.1 = id) ≤ 32

/-- What holds after each statement of a command. -/
structure Consistent (unicode : Unicode) (db : Database) : Prop where
  labels : Labels unicode db.tags
  assignments : Assignments (db.clips.map Row.id) (db.tags.map TagRow.id) db.clipTags

structure Labelled (unicode : Unicode) (db : Database) : Prop extends Consistent unicode db where
  total : db.clipTags.length ≤ 65536

/-! ## Assignments -/

section Assignments

variable {clips clips' : List ClipId} {tags tags' : List String}
  {clipTags clipTags' : List (ClipId × String)}

/-- Fewer assignments, of clips and tags that are still there. -/
theorem Assignments.sublist (h : Assignments clips tags clipTags)
    (hsub : clipTags'.Sublist clipTags) (hclip : ∀ entry ∈ clipTags', entry.1 ∈ clips')
    (htag : ∀ entry ∈ clipTags', entry.2 ∈ tags') : Assignments clips' tags' clipTags' where
  nodup := h.nodup.sublist hsub
  clip := hclip
  tag := htag
  perClip id := hsub.countP_le.trans (h.perClip id)

theorem mem_assignTag {entry other : ClipId × String} :
    other ∈ assignTag clipTags entry ↔ other ∈ clipTags ∨ other = entry := by
  unfold assignTag
  split
  case isTrue hmem =>
    refine (or_iff_left_of_imp fun heq => ?_).symm
    exact heq ▸ List.contains_iff_mem.mp hmem
  case isFalse => simp

theorem nodup_assignTag (h : clipTags.Nodup) (entry : ClipId × String) :
    (assignTag clipTags entry).Nodup := by
  unfold assignTag
  split
  case isTrue => exact h
  case isFalse hnew =>
    refine List.nodup_append.mpr ⟨h, List.nodup_singleton _, fun a ha b hb hab => ?_⟩
    exact hnew (List.contains_iff_mem.mpr (List.mem_singleton.mp hb ▸ hab ▸ ha))

/-- One more assignment, of a clip that has room for it. -/
theorem Assignments.assign (h : Assignments clips tags clipTags) {id : ClipId} {tag : String}
    (hclip : id ∈ clips) (htag : tag ∈ tags)
    (hroom : ¬(32 ≤ clipTags.countP (·.1 = id) ∧ (id, tag) ∉ clipTags)) :
    Assignments clips tags (assignTag clipTags (id, tag)) where
  nodup := nodup_assignTag h.nodup _
  clip entry hentry := (mem_assignTag.mp hentry).elim (h.clip entry) fun heq => heq ▸ hclip
  tag entry hentry := (mem_assignTag.mp hentry).elim (h.tag entry) fun heq => heq ▸ htag
  perClip other := by
    have hother := h.perClip other
    unfold assignTag
    split
    case isTrue => exact hother
    case isFalse hnew =>
      have hfew : clipTags.countP (·.1 = id) < 32 := by
        by_contra hfull
        exact hroom ⟨not_lt.mp hfull, fun hmem => hnew (List.contains_iff_mem.mpr hmem)⟩
      rw [List.countP_append, List.countP_singleton]
      by_cases heq : id = other
      · subst heq
        simpa using hfew
      · simpa [heq] using hother

/-! ### Merging -/

/-- Where an assignment goes. -/
def retag (source target : String) (entry : ClipId × String) : ClipId × String :=
  if entry.2 = source then (entry.1, target) else entry

/-- The assignments once those of one tag are those of another. -/
def mergedTags (source target : String) (clipTags : List (ClipId × String)) :
    List (ClipId × String) :=
  (((clipTags.filter fun entry => entry.2 = source).map fun entry => (entry.1, target)).foldl
    assignTag clipTags).filter fun entry => entry.2 ≠ source

theorem mem_foldl_assignTag {entries : List (ClipId × String)} {other : ClipId × String} :
    other ∈ entries.foldl assignTag clipTags ↔ other ∈ clipTags ∨ other ∈ entries := by
  induction entries generalizing clipTags with
  | nil => simp
  | cons entry rest ih => rw [List.foldl_cons, ih, mem_assignTag, List.mem_cons, or_assoc]

theorem nodup_foldl_assignTag (h : clipTags.Nodup) (entries : List (ClipId × String)) :
    (entries.foldl assignTag clipTags).Nodup := by
  induction entries generalizing clipTags with
  | nil => exact h
  | cons entry rest ih => exact ih (nodup_assignTag h entry)

theorem mem_mergedTags {source target : String} {entry : ClipId × String} :
    entry ∈ mergedTags source target clipTags ↔
      entry.2 ≠ source ∧
        (entry ∈ clipTags ∨ entry.2 = target ∧ (entry.1, source) ∈ clipTags) := by
  rw [mergedTags, List.mem_filter, mem_foldl_assignTag, decide_eq_true_eq, and_comm]
  refine and_congr_right fun _ => or_congr_right ?_
  constructor
  · intro hmoved
    obtain ⟨old, hold, rfl⟩ := List.mem_map.mp hmoved
    obtain ⟨hmem, hsource⟩ := List.mem_filter.mp hold
    exact ⟨rfl, (Prod.ext rfl (of_decide_eq_true hsource) : old = (old.1, source)) ▸ hmem⟩
  · rintro ⟨htarget, hmem⟩
    exact List.mem_map.mpr ⟨(entry.1, source), List.mem_filter.mpr ⟨hmem, decide_eq_true rfl⟩,
      Prod.ext rfl htarget.symm⟩

/-- What is left was there, or was there under the other tag. -/
theorem mergedTags_subset {source target : String} :
    mergedTags source target clipTags ⊆ clipTags.map (retag source target) := by
  intro entry hentry
  obtain ⟨hother, hold | ⟨htarget, hsource⟩⟩ := mem_mergedTags.mp hentry
  · exact List.mem_map.mpr ⟨entry, hold, if_neg hother⟩
  · exact List.mem_map.mpr ⟨_, hsource, (if_pos rfl).trans (Prod.ext rfl htarget.symm)⟩

/-- Merging gives no clip more tags. -/
theorem Assignments.merge (h : Assignments clips tags clipTags) {source target : String}
    (htarget : target ∈ tags) :
    Assignments clips (tags.filter (· ≠ source)) (mergedTags source target clipTags) where
  nodup := (nodup_foldl_assignTag h.nodup _).filter _
  clip entry hentry := by
    obtain ⟨-, hold | ⟨-, hsource⟩⟩ := mem_mergedTags.mp hentry
    · exact h.clip entry hold
    · exact h.clip (entry.1, source) hsource
  tag entry hentry := by
    obtain ⟨hother, hold | ⟨htag, -⟩⟩ := mem_mergedTags.mp hentry
    · exact List.mem_filter.mpr ⟨h.tag entry hold, decide_eq_true hother⟩
    · exact List.mem_filter.mpr ⟨htag ▸ htarget, decide_eq_true hother⟩
  perClip id := by
    have hfew : (mergedTags source target clipTags).countP (·.1 = id) ≤
        (clipTags.map (retag source target)).countP (·.1 = id) :=
      (((nodup_foldl_assignTag h.nodup _).filter _).subperm
        mergedTags_subset).countP_le _
    have hsame : (clipTags.map (retag source target)).countP (·.1 = id) =
        clipTags.countP (·.1 = id) := by
      rw [List.countP_map]
      refine List.countP_congr fun entry _ => ?_
      have hclip : (retag source target entry).1 = entry.1 := by
        unfold retag
        split <;> rfl
      rw [Function.comp_apply, hclip]
    exact hfew.trans (hsame.trans_le (h.perClip id))

end Assignments

/-! ## Names -/

section Labels

variable {unicode : Unicode} {tags : List TagRow}

/-- With distinct ids, there is one tag of an id or none. -/
theorem Labels.tagExists_iff {db : Database} (h : Labels unicode db.tags) {id : String} :
    db.tagExists id = true ↔ id ∈ db.tags.map TagRow.id := by
  have hcount : db.tags.countP (fun tag => tag.id = id) = (db.tags.map TagRow.id).count id := by
    rw [List.count, List.countP_map]
    exact List.countP_congr fun tag _ => by simp
  rw [Database.tagExists, decide_eq_true_eq, hcount]
  refine ⟨fun hone => List.count_pos_iff.mp (hone ▸ Nat.one_pos), fun hmem => ?_⟩
  exact List.count_eq_one_of_mem h.ids hmem

theorem Labels.filter (h : Labels unicode tags) (p : TagRow → Bool) :
    Labels unicode (tags.filter p) where
  ids := h.ids.sublist (List.filter_sublist.map _)
  names := h.names.sublist (List.filter_sublist.map _)
  named tag htag := h.named tag (List.mem_of_mem_filter htag)
  count := (List.length_filter_le _ _).trans h.count

/-- Another name, which no other tag has. -/
theorem Labels.rename (h : Labels unicode tags) {id name : String} {color : UInt8 × UInt8 × UInt8}
    (hname : TagName unicode name)
    (hfree : (tags.any fun tag => tag.name = name && tag.id ≠ id) = false) :
    Labels unicode (tags.map fun tag => if tag.id = id then { tag with name, color } else tag) := by
  have hids : (tags.map fun tag => if tag.id = id then { tag with name, color } else tag).map
      TagRow.id = tags.map TagRow.id := by
    rw [List.map_map]
    refine List.map_congr_left fun tag _ => ?_
    rw [Function.comp_apply]
    split <;> rfl
  refine ⟨hids ▸ h.ids, ?_, fun tag htag => ?_, (List.length_map _).trans_le h.count⟩
  · rw [List.map_map, List.Nodup, List.pairwise_map]
    refine (List.pairwise_map.mp h.ids).and (List.pairwise_map.mp h.names) |>.imp_of_mem ?_
    intro a b ha hb ⟨hid, hother⟩ heq
    rw [Function.comp_apply, Function.comp_apply] at heq
    have hnone : ∀ tag ∈ tags, tag.name = name → tag.id = id := by
      intro tag htag hsame
      have hnot := List.any_eq_false.mp hfree tag htag
      simpa [hsame] using hnot
    split at heq
    case isTrue haid =>
      split at heq
      case isTrue hbid => exact hid (haid.trans hbid.symm)
      case isFalse hbid => exact hbid (hnone b hb heq.symm)
    case isFalse haid =>
      split at heq
      case isTrue hbid => exact haid (hnone a ha heq)
      case isFalse hbid => exact hother heq
  · obtain ⟨old, hold, rfl⟩ := List.mem_map.mp htag
    split
    · exact hname
    · exact h.named old hold

/-- One more tag, with an id and a name that no other has. -/
theorem Labels.add (h : Labels unicode tags) {tag : TagRow} (hname : TagName unicode tag.name)
    (hroom : tags.length < 256) (hid : (tags.any fun other => other.id = tag.id) = false)
    (hfree : (tags.any fun other => other.name = tag.name) = false) :
    Labels unicode (tags ++ [tag]) := by
  have hnew : ∀ {key : TagRow → String}, (tags.map key).Nodup →
      (tags.any fun other => key other = key tag) = false → ((tags ++ [tag]).map key).Nodup := by
    intro key hnodup hnone
    rw [List.map_append, List.map_singleton]
    refine List.nodup_append.mpr ⟨hnodup, List.nodup_singleton _, fun a ha b hb hab => ?_⟩
    obtain ⟨other, hother, rfl⟩ := List.mem_map.mp ha
    refine List.any_eq_false.mp hnone other hother (decide_eq_true ?_)
    rw [hab, List.mem_singleton.mp hb]
  refine ⟨hnew h.ids hid, hnew h.names hfree, fun other hother => ?_, ?_⟩
  · rcases List.mem_append.mp hother with hold | hlast
    · exact h.named other hold
    · rw [List.mem_singleton.mp hlast]
      exact hname
  · rw [List.length_append, List.length_singleton]
    exact hroom

end Labels

/-! ## Commands -/

section Commands

variable {Regex : Type} {env : Env Regex} {s s' : Store} {u : PUnit.{1}}

theorem query_eq_ok {α : Type} {f : Database → α} {a : α} (h : query f s = (s', .ok a)) :
    f s.db = a ∧ s' = s := by
  cases h
  exact ⟨rfl, rfl⟩

theorem execute_eq_ok {f : Database → Database} (h : execute f s = (s', .ok u)) :
    s' = { s with db := f s.db } := by
  cases h
  rfl

/-- Neither the clock nor a new id leaves anything in the database. -/
theorem utcNow_eq_ok {now : DateTime} (h : utcNow env s = (s', .ok now)) : s'.db = s.db := by
  cases h
  rfl

theorem newClipId_eq_ok {id : ClipId} (h : newClipId env s = (s', .ok id)) : s'.db = s.db := by
  cases h
  rfl

theorem queryRow_eq_ok {α : Type} {f : Database → Option α} {a : α}
    (h : queryRow f s = (s', .ok a)) : f s.db = some a ∧ s' = s := by
  rw [queryRow] at h
  cases hf : f s.db with
  | none =>
    rw [hf] at h
    cases h
  | some found =>
    rw [hf] at h
    cases h
    exact ⟨rfl, rfl⟩

variable (env) in
/-- The name `edit_tags` stores. -/
def storedName (name : String) : String :=
  String.ofList (env.unicode.toLowercase (trim name.toList))

/-- What a save that succeeds leaves: another name of the tag, or a tag more. -/
theorem saveTag_eq_ok {id : Option String} {name : String} {color : UInt8 × UInt8 × UInt8}
    (hsave : saveTag env id name color s = (s', .ok u)) :
    (storedName env name ≠ "" ∧ utf8Len (storedName env name).toList ≤ 64 ∧
      (storedName env name).toList.any isControl = false) ∧
    ∃ tags, s'.db = { s.db with tags } ∧
      ((∃ known, (s.db.tags.any fun tag => tag.name = storedName env name && tag.id ≠ known) =
          false ∧ tags = s.db.tags.map fun tag =>
            if tag.id = known then { tag with name := storedName env name, color } else tag) ∨
        ∃ tag : TagRow, tag.name = storedName env name ∧ s.db.tags.length < 256 ∧
          (s.db.tags.any fun other => other.id = tag.id) = false ∧
          (s.db.tags.any fun other => other.name = tag.name) = false ∧
          tags = s.db.tags ++ [tag]) := by
  obtain ⟨⟨⟩, mid, hensure, hwrite⟩ := bind_eq_ok.mp hsave
  obtain ⟨hname, rfl⟩ := ensure_apply_eq_ok.mp hensure
  refine ⟨hname, ?_⟩
  cases id with
  | some id =>
    obtain ⟨db, hdb, rfl⟩ := tryExecute_eq_ok hwrite
    split at hdb
    · cases hdb
    split at hdb
    · cases hdb
    · next hfree =>
      cases hdb
      exact ⟨_, rfl, .inl ⟨id, Bool.eq_false_iff.mpr hfree, rfl⟩⟩
  | none =>
    obtain ⟨count, first, hcount, hlimit⟩ := bind_eq_ok.mp hwrite
    obtain ⟨rfl, rfl⟩ := query_eq_ok hcount
    obtain ⟨⟨⟩, second, hroom, hnew⟩ := bind_eq_ok.mp hlimit
    obtain ⟨hroom, rfl⟩ := ensure_apply_eq_ok.mp hroom
    obtain ⟨fresh, third, hfresh, hadd⟩ := bind_eq_ok.mp hnew
    obtain ⟨db, hdb, rfl⟩ := tryExecute_eq_ok hadd
    rw [newClipId_eq_ok hfresh] at hdb
    split at hdb
    · cases hdb
    · next hid =>
      split at hdb
      · cases hdb
      · next hfree =>
        cases hdb
        exact ⟨_, rfl, .inr ⟨⟨fresh.toStringRepr, storedName env name, color⟩, rfl, hroom,
          Bool.eq_false_iff.mpr hid, Bool.eq_false_iff.mpr hfree, rfl⟩⟩

theorem tagName_storedName (laws : LowercaseLaws env.unicode) {name : String}
    (h : storedName env name ≠ "" ∧ utf8Len (storedName env name).toList ≤ 64 ∧
      (storedName env name).toList.any isControl = false) :
    TagName env.unicode (storedName env name) := by
  obtain ⟨hempty, hsize, hcontrol⟩ := h
  refine ⟨hempty, ?_, ?_, hcontrol, hsize⟩
  · rw [storedName, String.toList_ofList]
    exact laws.trimmed _ (trim_trim name.toList)
  · rw [storedName, String.toList_ofList]
    exact laws.idempotent _

theorem Consistent.saveTag (h : Consistent env.unicode s.db) (laws : LowercaseLaws env.unicode)
    {id : Option String} {name : String} {color : UInt8 × UInt8 × UInt8}
    (hsave : saveTag env id name color s = (s', .ok u)) : Consistent env.unicode s'.db := by
  obtain ⟨hvalid, tags, hdb, hrenamed | hadded⟩ := saveTag_eq_ok hsave
  · obtain ⟨known, hfree, rfl⟩ := hrenamed
    rw [hdb]
    refine ⟨h.labels.rename (tagName_storedName laws hvalid) hfree, ?_⟩
    refine h.assignments.sublist (List.Sublist.refl _) h.assignments.clip fun entry hentry => ?_
    obtain ⟨tag, htag, hid⟩ := List.mem_map.mp (h.assignments.tag entry hentry)
    refine List.mem_map.mpr ⟨_, List.mem_map_of_mem htag, ?_⟩
    split <;> exact hid
  · obtain ⟨tag, hname, hroom, hid, hfree, rfl⟩ := hadded
    rw [hdb]
    refine ⟨h.labels.add (hname ▸ tagName_storedName laws hvalid) hroom hid hfree, ?_⟩
    refine h.assignments.sublist (List.Sublist.refl _) h.assignments.clip fun entry hentry => ?_
    rw [List.map_append]
    exact List.mem_append_left _ (h.assignments.tag entry hentry)

theorem map_id_filter (tags : List TagRow) (id : String) :
    (tags.filter fun tag => tag.id ≠ id).map TagRow.id = (tags.map TagRow.id).filter (· ≠ id) := by
  rw [List.filter_map]
  rfl

/-- What a delete that succeeds leaves. -/
theorem deleteTag_eq_ok {id : String} (hok : deleteTag id s = (s', .ok u)) :
    s'.db = { s.db with
      clipTags := s.db.clipTags.filter fun entry => entry.2 ≠ id
      tags := s.db.tags.filter fun tag => tag.id ≠ id } := by
  obtain ⟨db, hdb, rfl⟩ := tryExecute_eq_ok hok
  split at hdb
  · cases hdb
  · cases hdb
    rfl

theorem Consistent.deleteTag (h : Consistent env.unicode s.db) {id : String}
    (hok : deleteTag id s = (s', .ok u)) : Consistent env.unicode s'.db := by
  rw [deleteTag_eq_ok hok]
  refine ⟨h.labels.filter _, h.assignments.sublist List.filter_sublist
    (fun entry hentry => h.assignments.clip entry (List.mem_of_mem_filter hentry))
    fun entry hentry => ?_⟩
  obtain ⟨hmem, hother⟩ := List.mem_filter.mp hentry
  dsimp only
  rw [map_id_filter]
  exact List.mem_filter.mpr ⟨h.assignments.tag entry hmem, hother⟩

/-- What a merge that succeeds leaves. -/
theorem mergeTags_eq_ok {source target : String} (hok : mergeTags source target s = (s', .ok u)) :
    source ≠ target ∧ s.db.tagExists target = true ∧
      s' = { s with db := { s.db with
        clipTags := mergedTags source target s.db.clipTags
        tags := s.db.tags.filter fun tag => tag.id ≠ source } } := by
  obtain ⟨db, hdb, rfl⟩ := tryExecute_eq_ok hok
  split at hdb
  · cases hdb
  · next hvalid =>
    obtain ⟨hne, -, htarget⟩ := not_or.mp hvalid |>.imp_right not_or.mp
    cases hdb
    exact ⟨hne, Bool.eq_true_of_not_eq_false htarget, rfl⟩

theorem Consistent.mergeTags (h : Consistent env.unicode s.db) {source target : String}
    (hok : mergeTags source target s = (s', .ok u)) : Consistent env.unicode s'.db := by
  obtain ⟨-, htarget, rfl⟩ := mergeTags_eq_ok hok
  refine ⟨h.labels.filter _, ?_⟩
  dsimp only
  rw [map_id_filter]
  exact h.assignments.merge (h.labels.tagExists_iff.mp htarget)

/-- What it leaves when a clip is assigned, or is no longer; the clip is not sensitive. -/
theorem assignClip_eq_ok {tag : String} {assigned : Bool} {id : ClipId}
    (hok : assignClip env tag assigned id s = (s', .ok u)) :
    ∃ row ∈ s.db.clips, row.id = id ∧ row.sensitive = false ∧
      ∃ clipTags, s'.db = { s.db with clipTags } ∧
        (¬(32 ≤ s.db.clipTags.countP (·.1 = id) ∧ (id, tag) ∉ s.db.clipTags) ∧
            clipTags = assignTag s.db.clipTags (id, tag) ∨
          clipTags = s.db.clipTags.filter fun entry => entry ≠ (id, tag)) := by
  obtain ⟨now, first, hnow, hread⟩ := bind_eq_ok.mp hok
  obtain ⟨row, second, hrow, hcheck⟩ := bind_eq_ok.mp hread
  obtain ⟨hfound, rfl⟩ := queryRow_eq_ok hrow
  obtain ⟨⟨⟩, third, hclear, hwrite⟩ := bind_eq_ok.mp hcheck
  obtain ⟨hsensitive, rfl⟩ := ensure_apply_eq_ok.mp hclear
  rw [← utcNow_eq_ok hnow]
  have hid := List.find?_some hfound
  rw [Bool.and_eq_true, decide_eq_true_eq] at hid
  refine ⟨row, List.mem_of_find?_eq_some hfound, hid.1, hsensitive, ?_⟩
  split at hwrite
  case isTrue =>
    obtain ⟨db, hdb, rfl⟩ := tryExecute_eq_ok hwrite
    split at hdb
    · cases hdb
    · next hroom =>
      cases hdb
      exact ⟨_, rfl, .inl ⟨hroom, rfl⟩⟩
  case isFalse =>
    obtain rfl := execute_eq_ok hwrite
    exact ⟨_, rfl, .inr rfl⟩

theorem Consistent.assignClip {tag : String} {assigned : Bool} {id : ClipId}
    (h : Consistent env.unicode s.db) (htag : tag ∈ s.db.tags.map TagRow.id)
    (hok : assignClip env tag assigned id s = (s', .ok u)) :
    Consistent env.unicode s'.db ∧ s'.db.tags = s.db.tags := by
  obtain ⟨row, hrow, hid, -, clipTags, hdb, hassigned | rfl⟩ := assignClip_eq_ok hok
  · obtain ⟨hroom, rfl⟩ := hassigned
    rw [hdb]
    exact ⟨⟨h.labels, h.assignments.assign (hid ▸ List.mem_map_of_mem hrow) htag hroom⟩, rfl⟩
  · rw [hdb]
    exact ⟨⟨h.labels, h.assignments.sublist List.filter_sublist
      (fun entry hentry => h.assignments.clip entry (List.mem_of_mem_filter hentry))
      fun entry hentry => h.assignments.tag entry (List.mem_of_mem_filter hentry)⟩, rfl⟩

theorem Consistent.assignClips {tag : String} {assigned : Bool} {clips : List ClipId}
    (h : Consistent env.unicode s.db) (htag : tag ∈ s.db.tags.map TagRow.id)
    (hok : forEach (Store.assignClip env tag assigned) clips s = (s', .ok u)) :
    Consistent env.unicode s'.db := by
  induction clips generalizing s with
  | nil =>
    cases hok
    exact h
  | cons id rest ih =>
    obtain ⟨⟨⟩, mid, hfirst, hrest⟩ := bind_eq_ok.mp hok
    obtain ⟨hmid, htags⟩ := h.assignClip htag hfirst
    exact ih hmid (htags ▸ htag) hrest

theorem Consistent.runTagCommand (h : Consistent env.unicode s.db)
    (laws : LowercaseLaws env.unicode) {command : TagCommand}
    (hok : runTagCommand env command s = (s', .ok u)) : Consistent env.unicode s'.db := by
  cases command with
  | Save id name color => exact h.saveTag laws hok
  | Delete id => exact h.deleteTag hok
  | Merge source target => exact h.mergeTags hok
  | Assign clips tag assigned =>
    obtain ⟨known, first, hknown, hcheck⟩ := bind_eq_ok.mp hok
    obtain ⟨rfl, rfl⟩ := query_eq_ok hknown
    obtain ⟨⟨⟩, second, hvalid, hassign⟩ := bind_eq_ok.mp hcheck
    obtain ⟨⟨-, -, hexists⟩, rfl⟩ := ensure_apply_eq_ok.mp hvalid
    exact h.assignClips (h.labels.tagExists_iff.mp hexists) hassign

/-- There is nothing dangling to drop. -/
theorem Consistent.dropDanglingTags (h : Consistent env.unicode s.db) :
    s.db.dropDanglingTags = s.db := by
  have hall : (s.db.clipTags.filter fun entry => s.db.clips.any fun row => row.id = entry.1) =
      s.db.clipTags := by
    refine List.filter_eq_self.mpr fun entry hentry => List.any_eq_true.mpr ?_
    obtain ⟨row, hrow, hid⟩ := List.mem_map.mp (h.assignments.clip entry hentry)
    exact ⟨row, hrow, decide_eq_true hid⟩
  rw [Database.dropDanglingTags, hall]

/-- A command that succeeds leaves what it did, and not too many assignments. -/
theorem editTags_eq_ok (h : Consistent env.unicode s.db) (laws : LowercaseLaws env.unicode)
    {command : TagCommand} (hok : editTags env command s = (s', .ok u)) :
    runTagCommand env command s = (s', .ok ⟨⟩) ∧ s'.db.clipTags.length ≤ 65536 := by
  obtain ⟨⟨⟩, mid, hrun, hclean⟩ := bind_eq_ok.mp (transaction_eq_ok.mp hok)
  obtain ⟨⟨⟩, second, hdrop, hmeasure⟩ := bind_eq_ok.mp hclean
  obtain ⟨count, third, hcount, hlimit⟩ := bind_eq_ok.mp hmeasure
  obtain ⟨rfl, rfl⟩ := query_eq_ok hcount
  obtain ⟨htotal, rfl⟩ := ensure_apply_eq_ok.mp hlimit
  have hmid : s' = mid := by
    rw [execute_eq_ok hdrop, (h.runTagCommand laws hrun).dropDanglingTags]
  exact ⟨hmid ▸ hrun, htotal⟩

theorem editTags_eq_error {command : TagCommand} {e : StoreError}
    (h : editTags env command s = (s', .error e)) : s'.db = s.db := by
  rw [editTags, transaction] at h
  split at h
  · cases h
  · cases h
    rfl

theorem Labelled.editTags (h : Labelled env.unicode s.db) (laws : LowercaseLaws env.unicode)
    (command : TagCommand) : Labelled env.unicode (editTags env command s).1.db := by
  generalize houtcome : Store.editTags env command s = outcome
  obtain ⟨s', e | u⟩ := outcome
  · rw [editTags_eq_error houtcome]
    exact h
  · obtain ⟨hrun, htotal⟩ := editTags_eq_ok h.toConsistent laws houtcome
    exact ⟨h.toConsistent.runTagCommand laws hrun, htotal⟩

end Commands

/-! ## Everything else -/

/-- Tags are as they were, and assignments go with their clips. -/
structure Tended (db db' : Database) : Prop where
  tags : db'.tags = db.tags
  clipTags : db'.clipTags.Sublist db.clipTags
  clips : ∀ entry ∈ db'.clipTags, entry.1 ∈ db.clips.map Row.id → entry.1 ∈ db'.clips.map Row.id

/-- Taking out the dependents of rows takes out their assignments. -/
theorem clipTags_deleteRows {p : Row → Bool} {db db' : Database} {deleted : ℕ}
    (h : db.deleteRows p = .ok (db', deleted)) :
    db'.clipTags = db.clipTags.filter fun entry =>
      !((db.clips.filter p).any fun row => row.id = entry.1) := by
  have hfold : ∀ (rows : List Row) (first last : Database),
      rows.foldlM Database.removeDependents first = .ok last →
        last.clipTags = first.clipTags.filter fun entry =>
          !(rows.any fun row => row.id = entry.1) := by
    intro rows
    induction rows with
    | nil =>
      intro first last hlast
      rw [← Except.ok.inj hlast]
      exact (List.filter_eq_self.mpr fun _ _ => rfl).symm
    | cons row rest ih =>
      intro first last hlast
      rw [List.foldlM_cons] at hlast
      obtain ⟨mid, hmid, hrest⟩ := Result.bind_eq_ok.mp hlast
      obtain ⟨blobRefs, -, hmid⟩ := Result.bind_eq_ok.mp hmid
      obtain rfl := Except.ok.inj hmid
      rw [ih _ last hrest]
      exact filter_not_any_cons Row.id Prod.fst row rest first.clipTags
  rw [Database.deleteRows] at h
  obtain ⟨last, hlast, h⟩ := Result.bind_eq_ok.mp h
  obtain ⟨rfl, -⟩ := Prod.mk.inj (Except.ok.inj h)
  exact hfold (db.clips.filter p) { db with clips := db.clips.filter fun row => !p row } _ hlast

theorem tags_deleteRows {p : Row → Bool} {db db' : Database} {deleted : ℕ}
    (h : db.deleteRows p = .ok (db', deleted)) : db'.tags = db.tags := by
  refine field_deleteRows (fun _ _ => rfl) (fun first mid row hmid => ?_) h
  obtain ⟨blobRefs, -, hmid⟩ := Result.bind_eq_ok.mp hmid
  rw [← Except.ok.inj hmid]

theorem map_id_of_faces {db db' : Database}
    (h : db'.clips.map Row.face = db.clips.map Row.face) :
    db'.clips.map Row.id = db.clips.map Row.id := by
  have hid : Row.id = Prod.fst ∘ Row.face := rfl
  rw [hid, ← List.map_map, ← List.map_map, h]

/-- An assignment that a deletion leaves is one of a clip that it leaves, if of any. -/
theorem clip_of_deleteRows {p : Row → Bool} {db db' : Database} {deleted : ℕ}
    (h : db.deleteRows p = .ok (db', deleted)) {entry : ClipId × String}
    (hentry : entry ∈ db'.clipTags) {row : Row} (hrow : row ∈ db.clips) (hid : row.id = entry.1) :
    row ∈ db'.clips := by
  obtain ⟨-, blobRefs, -, hcore⟩ := core_deleteRows h
  have hclips : db'.clips = db.clips.filter fun row => !p row := congrArg Core.clips hcore
  rw [clipTags_deleteRows h] at hentry
  rw [hclips]
  have hnone := (List.mem_filter.mp hentry).2
  simp only [Bool.not_eq_true', List.any_eq_false, List.mem_filter, decide_eq_true_eq] at hnone
  have hstays : p row = false := Bool.eq_false_iff.mpr fun hp => hnone row ⟨hrow, hp⟩ hid
  exact List.mem_filter.mpr ⟨hrow, by rw [hstays]; rfl⟩

instance : Frame Tended where
  refl db := ⟨rfl, List.Sublist.refl _, fun _ _ h => h⟩
  trans db mid db' h h' :=
    ⟨h'.tags.trans h.tags, h'.clipTags.trans h.clipTags, fun entry hentry hclip =>
      h'.clips entry hentry (h.clips entry (h'.clipTags.subset hentry) hclip)⟩
  quiet h :=
    ⟨h.tags, h.clipTags ▸ List.Sublist.refl _, fun _ _ hclip => map_id_of_faces h.faces ▸ hclip⟩
  delete h := by
    refine ⟨tags_deleteRows h, clipTags_deleteRows h ▸ List.filter_sublist, ?_⟩
    intro entry hentry hclip
    obtain ⟨row, hrow, hid⟩ := List.mem_map.mp hclip
    exact List.mem_map.mpr ⟨row, clip_of_deleteRows h hentry hrow hid, hid⟩
  fresh h := by
    obtain ⟨-, -, -, blobRefs, embeddings, -, -, rfl⟩ := insertRow_eq_ok h
    refine ⟨rfl, List.Sublist.refl _, fun _ _ hclip => ?_⟩
    rw [List.map_append]
    exact List.mem_append_left _ hclip
  dangling db := ⟨rfl, List.filter_sublist, fun _ _ hclip => hclip⟩

theorem Labelled.tended {unicode : Unicode} {db db' : Database} (h : Labelled unicode db)
    (htended : Tended db db') : Labelled unicode db' where
  labels := htended.tags ▸ h.labels
  assignments := htended.tags ▸ h.assignments.sublist htended.clipTags
    (fun entry hentry => htended.clips entry hentry
      (h.assignments.clip entry (htended.clipTags.subset hentry)))
    fun entry hentry => h.assignments.tag entry (htended.clipTags.subset hentry)
  total := htended.clipTags.length_le.trans h.total

section Runs

variable {Regex : Type} {env : Env Regex}

theorem tended_updateClips {p : Row → Bool} {f : Row → Row} (db : Database)
    (h : ∀ row, (f row).id = row.id) : Tended db (db.updateClips p f) where
  tags := rfl
  clipTags := List.Sublist.refl _
  clips entry _ hclip := by
    have hids : (db.updateClips p f).clips.map Row.id = db.clips.map Row.id := by
      rw [Database.updateClips, List.map_map]
      refine List.map_congr_left fun row _ => ?_
      rw [Function.comp_apply]
      split
      · exact h row
      · rfl
    exact hids ▸ hclip

theorem tended_insert (clip : Clip) : Moves (On Tended) (insert env clip) := by
  refine framed_insert fun _ existing metadata projection now db db' _ hok => ?_
  unfold Database.recopy at hok
  dsimp only at hok
  split at hok
  case isTrue => cases hok
  case isFalse =>
    obtain ⟨embeddings, -, hok⟩ := Result.bind_eq_ok.mp hok
    cases hok
    exact ⟨rfl, List.Sublist.refl _, (tended_updateClips (f := fun row => { row.projected clip
      metadata projection with updatedAt := now, seq := db.clipSequence + 1 }) db
        fun _ => rfl).clips⟩

/-- A request that is none for the tags. -/
theorem Request.tended {request : Request} (h : ∀ command, request ≠ .EditTags command) :
    Moves (On Tended) (request.run env) := by
  cases request with
  | Insert clip => exact moves_ignoring (tended_insert clip)
  | RestoreFromGrace recoveryId key =>
    exact moves_ignoring fun s => framed_restoreFromGrace fun _ clip mid _ _ _ _ =>
      tended_insert clip mid
  | RestoreImports importIds =>
    have himport : ∀ report importId,
        Moves (On Tended) (restoreImport env report importId) := fun _ _ _ =>
      framed_restoreImport fun _ _ _ _ clip _ => tended_insert clip
    exact moves_ignoring ((moves_ofExcept _).bind fun _ => Moves.foldEach himport _ _)
  | StageImport clip source =>
    refine moves_ignoring (framed_stageImport fun _ _ _ _ _ _ _ db db' _ hok => ?_)
    unfold Database.insertImport at hok
    split at hok
    · cases hok
    · cases hok
      exact ⟨rfl, List.Sublist.refl _, fun _ _ hclip => hclip⟩
  | ClawbackSensitive limit ttl =>
    refine moves_ignoring fun s => framed_clawbackSensitive
      (fun db cursor => ⟨rfl, List.Sublist.refl _, fun _ _ hclip => hclip⟩)
      fun row _ _ expiresAt db => ?_
    exact ⟨rfl, List.Sublist.refl _,
      (tended_updateClips (f := reclassified expiresAt) db fun _ => rfl).clips⟩
  | EditTags command => exact absurd rfl (h command)
  | _ => exact Request.framed trivial

theorem Labelled.after {s : Store} (h : Labelled env.unicode s.db)
    (laws : LowercaseLaws env.unicode) (request : Request) :
    Labelled env.unicode (request.after env s).db := by
  by_cases hrequest : ∃ command, request = .EditTags command
  · obtain ⟨command, rfl⟩ := hrequest
    exact h.editTags laws command
  · exact h.tended (Request.tended (fun command heq => hrequest ⟨command, heq⟩) s)

theorem Labelled.runAll {s : Store} (h : Labelled env.unicode s.db)
    (laws : LowercaseLaws env.unicode) (requests : List Request) :
    Labelled env.unicode (runAll env requests s).db := by
  induction requests generalizing s with
  | nil => exact h
  | cons request rest ih => exact ih (h.after laws request)

theorem labelled_new (unicode : Unicode) (onDisk : Bool) : Labelled unicode (new onDisk).db where
  labels := ⟨List.nodup_nil, List.nodup_nil, fun _ h => absurd h List.not_mem_nil, Nat.zero_le _⟩
  assignments := ⟨List.nodup_nil, fun _ h => absurd h List.not_mem_nil,
    fun _ h => absurd h List.not_mem_nil, fun _ => Nat.zero_le _⟩
  total := Nat.zero_le _

/-! ## The tags of a store -/

variable (env) in
/-- `tag_snapshot`: the tags by name, each with its clips that have not expired. -/
def tagSnapshot : Operation TagSnapshot := do
  let tags ← query fun db => StableSort.sortByKey TagRow.name db.tags
  let now ← nowMillis env
  let assigned ← query fun db => db.clipTags.filter fun entry =>
    db.clips.any fun row => row.id = entry.1 && row.unexpired now
  pure
    { tags := tags.map fun tag =>
        { id := tag.id
          name := tag.name
          color := tag.color
          clips := ((assigned.filter fun entry => entry.2 = tag.id).map Prod.fst).toFinset } }

variable (env) in
/-- What is so of the tags of a store, and what commands do to them. -/
structure TagsKept (s : Store) : Prop where
  labelled : Labelled env.unicode s.db
  /-- A merge gives the target the clips of both, and nothing is left of the source. -/
  merged : ∀ source target s', editTags env (.Merge source target) s = (s', .ok ⟨⟩) →
    (∀ id, (id, target) ∈ s'.db.clipTags ↔
      (id, target) ∈ s.db.clipTags ∨ (id, source) ∈ s.db.clipTags) ∧
    (∀ tag ∈ s'.db.tags, tag.id ≠ source) ∧ ∀ entry ∈ s'.db.clipTags, entry.2 ≠ source
  failed : ∀ command s' e, editTags env command s = (s', .error e) →
    s'.db.tags = s.db.tags ∧ s'.db.clipTags = s.db.clipTags

theorem Labelled.tagsKept {s : Store} (h : Labelled env.unicode s.db)
    (laws : LowercaseLaws env.unicode) : TagsKept env s where
  labelled := h
  merged source target s' hok := by
    obtain ⟨hrun, -⟩ := editTags_eq_ok h.toConsistent laws hok
    obtain ⟨hne, -, rfl⟩ := mergeTags_eq_ok hrun
    refine ⟨fun id => ?_, fun tag htag => ?_, fun entry hentry => (mem_mergedTags.mp hentry).1⟩
    · refine mem_mergedTags.trans ((and_iff_right fun h => hne h.symm).trans ?_)
      exact or_congr_right (and_iff_right rfl)
    · exact of_decide_eq_true (List.mem_filter.mp htag).2
  failed command s' e herror := by
    rw [editTags_eq_error herror]
    exact ⟨rfl, rfl⟩

/-- Whatever a store was asked for. -/
theorem tags_kept (laws : LowercaseLaws env.unicode) (onDisk : Bool) (requests : List Request) :
    TagsKept env (runAll env requests (Request.Reopen.after env (new onDisk))) :=
  (((labelled_new env.unicode onDisk).after laws .Reopen).runAll laws requests).tagsKept laws

theorem tags_kept_plain : TagsKept plainEnv (runAll plainEnv
    [.Insert (note none), .EditTags (.Save none "Work" (0, 0, 0))]
    (Request.Reopen.after plainEnv (new false))) :=
  tags_kept LowercaseLaws.ascii false
    [.Insert (note none), .EditTags (.Save none "Work" (0, 0, 0))]

end Runs

end Vbuff.Store
