import Vbuff.Lib.Keyset

/-!
# Scans behind a cursor

A machine goes through its items page by page, a page a call, while other calls change what there
is to go through.  Between the pages it keeps a cursor, the key of the last item it read, and it
drops the cursor when it has come to the end.  A pass is a run up to the next time the cursor is
dropped.

* An item that is there all along, and whose key never gets smaller, is read in the pass
  (`Pass.exists_read`): a key that moves stays ahead of the cursor.
* A key that is there all along is read exactly once (`Pass.count_reads`).
-/

universe u v w x

open Keyset

/-- A machine with a cursor. -/
structure CursorScan (S : Type u) (I : Type v) (α : Type w) (κ : Type x) where
  next : S → I → S
  /-- What there is to go through. -/
  items : S → List α
  /-- What the call reads. -/
  read : S → I → List α
  cursor : S → Option κ
  /-- The call may be made in a pass. -/
  fair : S → I → Prop
  /-- The call comes to the end. -/
  resets : S → I → Prop

namespace CursorScan

variable {S : Type u} {I : Type v} {α : Type w} {κ : Type x}

section Runs

variable (m : CursorScan S I α κ)

/-- The state after the calls. -/
def after (s : S) (calls : List I) : S := calls.foldl m.next s

/-- The states the calls are made in. -/
def states : S → List I → List S
  | _, [] => []
  | s, call :: rest => s :: states (m.next s call) rest

/-- All that the calls read, in order. -/
def reads : S → List I → List α
  | _, [] => []
  | s, call :: rest => m.read s call ++ reads (m.next s call) rest

/-- The calls are fair, and the last of them is the first to come to the end. -/
def Pass : S → List I → Prop
  | _, [] => False
  | s, call :: rest =>
      m.fair s call ∧ (m.resets s call ∧ rest = [] ∨ ¬m.resets s call ∧ Pass (m.next s call) rest)

end Runs

variable [LinearOrder κ]

/-- What a fair call reads is a page from the cursor on, or nothing; a call that comes to the end
leaves nothing out, and any other page moves the cursor to its last item. -/
structure Lawful (key : α → κ) (m : CursorScan S I α κ) (Ok : S → Prop) : Prop where
  keeps : ∀ s call, Ok s → Ok (m.next s call)
  distinct : ∀ s, Ok s → ((m.items s).map key).Nodup
  last : ∀ s call, Ok s → m.fair s call → m.resets s call →
    ∃ limit, m.read s call = page key limit (m.cursor s) (m.items s) ∧
      ∀ a ∈ m.items s, After key (m.cursor s) a → a ∈ m.read s call
  more : ∀ s call, Ok s → m.fair s call → ¬m.resets s call →
    (m.read s call = [] ∧ m.cursor (m.next s call) = m.cursor s) ∨
      ∃ limit a, m.read s call = page key limit (m.cursor s) (m.items s) ∧
        (m.read s call).getLast? = some a ∧ m.cursor (m.next s call) = some (key a)

variable {key : α → κ} {m : CursorScan S I α κ} {Ok : S → Prop} {s : S} {calls : List I}

/-- What a page leaves out comes after the last item of the page. -/
theorem mem_page_or_after_last {limit : ℕ} {cursor : Option κ} {items : List α} {a b : α}
    (hkeys : (items.map key).Nodup) (hmem : a ∈ items) (hafter : After key cursor a)
    (hlast : (page key limit cursor items).getLast? = some b) :
    a ∈ page key limit cursor items ∨ key b < key a := by
  by_cases hpage : a ∈ page key limit cursor items
  · exact .inl hpage
  · obtain ⟨-, hlate⟩ := (mem_page_or_after hmem hafter).resolve_left hpage
    have hread := List.mem_of_getLast? hlast
    refine .inr (lt_of_le_of_ne (hlate b hread) fun heq => hpage ?_)
    rwa [← List.inj_on_of_nodup_map hkeys (mem_of_mem_page hread).1 hmem heq]

/-- An item that stays, ahead of the cursor, is read in the pass. -/
theorem Pass.exists_read (hlaw : m.Lawful key Ok) {P : α → Prop}
    (hclimbs : ∀ s call, Ok s → ∀ a ∈ m.items s, P a → ∀ a' ∈ m.items (m.next s call),
      P a' → key a ≤ key a')
    (hpass : m.Pass s calls) (hok : Ok s)
    (hthere : ∀ t ∈ m.states s calls, ∃ a ∈ m.items t, P a)
    (hahead : ∀ a ∈ m.items s, P a → After key (m.cursor s) a) :
    ∃ a ∈ m.reads s calls, P a := by
  induction calls generalizing s with
  | nil => exact hpass.elim
  | cons call rest ih =>
    obtain ⟨a, hmem, htracked⟩ := hthere s List.mem_cons_self
    have hafter := hahead a hmem htracked
    obtain ⟨hfair, ⟨hresets, rfl⟩ | ⟨hgoes, hrest⟩⟩ := hpass
    · obtain ⟨-, -, hall⟩ := hlaw.last s call hok hfair hresets
      exact ⟨a, List.mem_append_left _ (hall a hmem hafter), htracked⟩
    · have hlater : (∀ a' ∈ m.items (m.next s call), P a' →
          After key (m.cursor (m.next s call)) a') → ∃ a ∈ m.reads s (call :: rest), P a := by
        intro hahead'
        obtain ⟨b, hread, hb⟩ := ih hrest (hlaw.keeps s call hok)
          (fun t ht => hthere t (List.mem_cons_of_mem _ ht)) hahead'
        exact ⟨b, List.mem_append_right _ hread, hb⟩
      rcases hlaw.more s call hok hfair hgoes with ⟨-, hcursor⟩ | ⟨limit, b, hpage, hb, hcursor⟩
      · refine hlater fun a' hmem' htracked' k hk => ?_
        rw [hcursor] at hk
        exact (hafter k hk).trans_le (hclimbs s call hok a hmem htracked a' hmem' htracked')
      · rw [hpage] at hb
        rcases mem_page_or_after_last (hlaw.distinct s hok) hmem hafter hb with hread | hbehind
        · exact ⟨a, List.mem_append_left _ (hpage ▸ hread), htracked⟩
        · refine hlater fun a' hmem' htracked' k hk => ?_
          rw [hcursor] at hk
          obtain rfl := Option.some.inj hk
          exact hbehind.trans_le (hclimbs s call hok a hmem htracked a' hmem' htracked')

/-! ## Once each -/

variable [BEq κ] [LawfulBEq κ]

theorem count_page_le_one {limit : ℕ} {cursor : Option κ} {items : List α}
    (hkeys : (items.map key).Nodup) (k : κ) :
    ((page key limit cursor items).map key).count k ≤ 1 := by
  have hnodup : ((page key limit cursor items).map key).Nodup :=
    List.pairwise_map.mpr ((pairwise_lt_page hkeys).imp ne_of_lt)
  exact List.nodup_iff_count_le_one.mp hnodup k

/-- What the cursor has passed is not read again. -/
theorem Pass.count_reads_of_behind (hlaw : m.Lawful key Ok) (hpass : m.Pass s calls) (hok : Ok s)
    {k : κ} (hbehind : ∃ c, m.cursor s = some c ∧ k ≤ c) :
    ((m.reads s calls).map key).count k = 0 := by
  induction calls generalizing s with
  | nil => rfl
  | cons call rest ih =>
    obtain ⟨c, hc, hle⟩ := hbehind
    have hpageNone : ∀ limit, k ∉ (page key limit (m.cursor s) (m.items s)).map key := by
      intro limit hmem
      obtain ⟨a, ha, rfl⟩ := List.mem_map.mp hmem
      exact absurd ((mem_of_mem_page ha).2 c hc) (not_lt.mpr hle)
    rw [reads, List.map_append, List.count_append]
    obtain ⟨hfair, ⟨hresets, rfl⟩ | ⟨hgoes, hrest⟩⟩ := hpass
    · obtain ⟨limit, hread, -⟩ := hlaw.last s call hok hfair hresets
      rw [hread, List.count_eq_zero_of_not_mem (hpageNone limit)]
      rfl
    · rcases hlaw.more s call hok hfair hgoes with ⟨hread, hcursor⟩ | ⟨limit, b, hread, hb, hcursor⟩
      · rw [ih hrest (hlaw.keeps s call hok) ⟨c, hcursor.trans hc, hle⟩, hread]
        rfl
      · rw [hread] at hb
        have hpassed := (mem_of_mem_page (List.mem_of_getLast? hb)).2 c hc
        rw [ih hrest (hlaw.keeps s call hok) ⟨key b, hcursor, hle.trans hpassed.le⟩, hread,
          List.count_eq_zero_of_not_mem (hpageNone limit)]

/-- A key that stays, ahead of the cursor, is read once in the pass. -/
theorem Pass.count_reads (hlaw : m.Lawful key Ok) (hpass : m.Pass s calls) (hok : Ok s) {k : κ}
    (hthere : ∀ t ∈ m.states s calls, k ∈ (m.items t).map key)
    (hahead : ∀ c ∈ m.cursor s, c < k) : ((m.reads s calls).map key).count k = 1 := by
  induction calls generalizing s with
  | nil => exact hpass.elim
  | cons call rest ih =>
    obtain ⟨a, hmem, rfl⟩ := List.mem_map.mp (hthere s List.mem_cons_self)
    have honce : ∀ limit, a ∈ page key limit (m.cursor s) (m.items s) →
        ((page key limit (m.cursor s) (m.items s)).map key).count (key a) = 1 := fun limit hread =>
      le_antisymm (count_page_le_one (hlaw.distinct s hok) _)
        (List.count_pos_iff.mpr (List.mem_map_of_mem hread))
    rw [reads, List.map_append, List.count_append]
    obtain ⟨hfair, ⟨hresets, rfl⟩ | ⟨hgoes, hrest⟩⟩ := hpass
    · obtain ⟨limit, hread, hall⟩ := hlaw.last s call hok hfair hresets
      have hin := hall a hmem hahead
      rw [hread] at hin
      rw [hread, honce limit hin]
      rfl
    · have hkeeps := hlaw.keeps s call hok
      have hrestThere : ∀ t ∈ m.states (m.next s call) rest, key a ∈ (m.items t).map key :=
        fun t ht => hthere t (List.mem_cons_of_mem _ ht)
      rcases hlaw.more s call hok hfair hgoes with ⟨hread, hcursor⟩ | ⟨limit, b, hread, hb, hcursor⟩
      · rw [ih hrest hkeeps hrestThere (hcursor ▸ hahead), hread]
        rfl
      · rw [hread] at hb
        rw [hread]
        by_cases hin : a ∈ page key limit (m.cursor s) (m.items s)
        · rw [honce limit hin, Pass.count_reads_of_behind hlaw hrest hkeeps
            ⟨key b, hcursor, le_getLast hb hin⟩]
        · have hbehind :=
            (mem_page_or_after_last (hlaw.distinct s hok) hmem hahead hb).resolve_left hin
          have hout : key a ∉ (page key limit (m.cursor s) (m.items s)).map key := by
            intro hkey
            obtain ⟨other, hother, heq⟩ := List.mem_map.mp hkey
            refine hin ?_
            rwa [← List.inj_on_of_nodup_map (hlaw.distinct s hok) (mem_of_mem_page hother).1 hmem
              heq]
          rw [List.count_eq_zero_of_not_mem hout, Nat.zero_add]
          refine ih hrest hkeeps hrestThere fun c hc => ?_
          rw [hcursor] at hc
          obtain rfl := Option.some.inj hc
          exact hbehind

end CursorScan
