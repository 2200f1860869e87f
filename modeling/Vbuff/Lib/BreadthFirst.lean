import Mathlib

/-!
# Breadth-first search

A graph gives each node the list of its outgoing edges, and an edge its target; cycles and
parallel edges are allowed.  `search` goes through the nodes in the order they were found, lists
every edge that leads to a node for the first time with the distance of that node, does not go
deeper than `depth`, and stops as soon as `limit` edges are listed.

What has been found so far is always found at its distance, the length of the shortest walk from
the root, because everything nearer has been found before (`Searching.found_of_walk`).  So a list
that stays short of the limit names exactly the nodes within the depth (`mem_search_iff`).
-/

namespace BreadthFirst

universe u v

variable {α : Type u} {ε : Type v}

/-- A graph, by the outgoing edges of its nodes. -/
structure EdgeGraph (α : Type u) (ε : Type v) where
  out : α → List ε
  target : ε → α

/-! ## Distances -/

/-- A walk of so many edges. -/
inductive Walk (graph : EdgeGraph α ε) (root : α) : ℕ → α → Prop
  | nil : Walk graph root 0 root
  | snoc {n : ℕ} {a : α} {e : ε} : Walk graph root n a → e ∈ graph.out a →
      Walk graph root (n + 1) (graph.target e)

/-- The length of the shortest walk. -/
def AtDistance (graph : EdgeGraph α ε) (root : α) (n : ℕ) (a : α) : Prop :=
  Walk graph root n a ∧ ∀ m, Walk graph root m a → n ≤ m

theorem AtDistance.unique {graph : EdgeGraph α ε} {root : α} {m n : ℕ} {a : α}
    (hm : AtDistance graph root m a) (hn : AtDistance graph root n a) : m = n :=
  le_antisymm (hm.2 n hn.1) (hn.2 m hm.1)

theorem atDistance_root (graph : EdgeGraph α ε) (root : α) : AtDistance graph root 0 root :=
  ⟨Walk.nil, fun m _ => Nat.zero_le m⟩

/-- Distances do not depend on the order of the edges. -/
theorem walk_congr {graph graph' : EdgeGraph α ε} (hout : ∀ a, ∀ e ∈ graph.out a, e ∈ graph'.out a)
    (htarget : graph.target = graph'.target) {root : α} {n : ℕ} {a : α}
    (h : Walk graph root n a) : Walk graph' root n a := by
  induction h with
  | nil => exact Walk.nil
  | snoc _ he ih =>
      rw [htarget]
      exact ih.snoc (hout _ _ he)

/-! ## The search -/

/-- The state of a search. -/
structure Search (α : Type u) (ε : Type v) where
  queue : List (α × ℕ)
  visited : Finset α
  listed : List (ε × ℕ)

variable [DecidableEq α] (graph : EdgeGraph α ε) (root : α) (depth limit : ℕ)

/-- The edges of a node at that distance, one after the other; `true` when the limit is
reached. -/
def visit (distance : ℕ) : List ε → Search α ε → Bool × Search α ε
  | [], s => (false, s)
  | e :: edges, s =>
      -- reached before, by a walk that is no longer
      if graph.target e ∈ s.visited then visit distance edges s
      else
        let visited := insert (graph.target e) s.visited
        let listed := s.listed ++ [(e, distance + 1)]
        if listed.length = limit then (true, { s with visited, listed })
        else
          visit distance edges
            { queue := s.queue ++ [(graph.target e, distance + 1)], visited, listed }

/-- The loop over the queue, for so many rounds; nothing if they do not suffice. -/
def explore : ℕ → Search α ε → Option (List (ε × ℕ))
  | 0, _ => none
  | rounds + 1, s =>
      match s.queue with
      | [] => some s.listed
      | (source, distance) :: queue =>
          if depth ≤ distance then explore rounds { s with queue }
          else
            let result := visit graph limit distance (graph.out source) { s with queue }
            if result.1 then some result.2.listed else explore rounds result.2

def start : Search α ε := { queue := [(root, 0)], visited := {root}, listed := [] }

/-- Each round but the last takes a node off the queue, and each node there was listed. -/
def search : Option (List (ε × ℕ)) := explore graph depth limit (limit + 2) (start root)

/-! ## Enough rounds -/

section Rounds

variable {graph root depth limit} {s : Search α ε} {distance : ℕ} {edges : List ε}

/-- What is put on the queue is listed too, and the limit is not passed. -/
theorem visit_length (hlimit : s.listed.length < limit)
    (hgo : (visit graph limit distance edges s).1 = false) :
    (visit graph limit distance edges s).2.listed.length < limit ∧
      (visit graph limit distance edges s).2.queue.length + s.listed.length =
        s.queue.length + (visit graph limit distance edges s).2.listed.length := by
  induction edges generalizing s with
  | nil => exact ⟨hlimit, rfl⟩
  | cons e edges ih =>
      rw [visit] at hgo ⊢
      by_cases hold : graph.target e ∈ s.visited
      · rw [if_pos hold] at hgo ⊢
        exact ih hlimit hgo
      · rw [if_neg hold] at hgo ⊢
        dsimp only at hgo ⊢
        by_cases hfull : (s.listed ++ [(e, distance + 1)]).length = limit
        · rw [if_pos hfull] at hgo
          cases hgo
        · rw [if_neg hfull] at hgo ⊢
          rw [List.length_append, List.length_singleton] at hfull
          obtain ⟨hless, hsame⟩ := ih (by
            rw [List.length_append, List.length_singleton]
            omega) hgo
          refine ⟨hless, ?_⟩
          simp only [List.length_append, List.length_singleton] at hsame
          omega

theorem explore_isSome {rounds : ℕ} (hlimit : s.listed.length < limit)
    (hrounds : s.queue.length + (limit - s.listed.length) < rounds) :
    (explore graph depth limit rounds s).isSome = true := by
  induction rounds generalizing s with
  | zero => exact absurd hrounds (Nat.not_lt_zero _)
  | succ rounds ih =>
      rw [explore]
      cases hqueue : s.queue with
      | nil => rfl
      | cons head queue =>
          rw [hqueue, List.length_cons] at hrounds
          dsimp only
          split
          · refine ih hlimit ?_
            dsimp only
            omega
          · split
            · rfl
            · rename_i hgo
              rw [Bool.not_eq_true] at hgo
              obtain ⟨hless, hsame⟩ :=
                visit_length (s := { s with queue }) hlimit hgo
              refine ih hless ?_
              dsimp only at hsame
              omega

end Rounds

theorem search_isSome {limit : ℕ} (hlimit : 0 < limit) :
    (search graph root depth limit).isSome = true := by
  refine explore_isSome hlimit ?_
  show 1 + (limit - 0) < limit + 2
  omega

/-! ## What a search has found -/

/-- The node is the root, or was listed at that distance. -/
def Found (listed : List (ε × ℕ)) (a : α) (n : ℕ) : Prop :=
  (a = root ∧ n = 0) ∨ ∃ e, (e, n) ∈ listed ∧ graph.target e = a

/-- What holds of a list wherever the search stops. -/
structure Listed (listed : List (ε × ℕ)) : Prop where
  /-- Each edge leads from a node to one that is farther from the root by one. -/
  via : ∀ e n, (e, n) ∈ listed → n ≤ depth ∧ AtDistance graph root n (graph.target e) ∧
    ∃ a m, AtDistance graph root m a ∧ e ∈ graph.out a ∧ n = m + 1
  nodup : (listed.map fun entry => graph.target entry.1).Nodup
  ordered : listed.Pairwise fun a b => a.2 ≤ b.2

/-- The state of a search that has come to distance `d`, with edges of some nodes pending. -/
structure Searching (d : ℕ) (pending : α → List ε) (s : Search α ε) : Prop where
  listed : Listed graph root depth s.listed
  visited : ∀ a, a ∈ s.visited ↔ ∃ n, Found graph root s.listed a n
  queued : ∀ a n, (a, n) ∈ s.queue → Found graph root s.listed a n
  queue_ordered : s.queue.Pairwise fun a b => a.2 ≤ b.2
  queue_from : ∀ a n, (a, n) ∈ s.queue → d ≤ n
  listed_to : ∀ e n, (e, n) ∈ s.listed → n ≤ d + 1
  /-- A node off the queue has its edges behind it. -/
  closed : ∀ a n, Found graph root s.listed a n → n < depth → (a, n) ∉ s.queue →
    ∀ e ∈ graph.out a, e ∈ pending a ∨ graph.target e ∈ s.visited

section Invariant

variable {graph root depth limit} {d : ℕ} {pending : α → List ε} {s : Search α ε}

omit [DecidableEq α] in
theorem Listed.found_exact {listed : List (ε × ℕ)} (h : Listed graph root depth listed) {a : α}
    {n : ℕ} (hfound : Found graph root listed a n) : AtDistance graph root n a := by
  rcases hfound with ⟨rfl, rfl⟩ | ⟨e, hmem, rfl⟩
  · exact atDistance_root graph a
  · exact (h.via e n hmem).2.1

omit [DecidableEq α] in
/-- No edge back to the root is listed. -/
theorem Listed.target_ne_root {listed : List (ε × ℕ)} (h : Listed graph root depth listed) {e : ε}
    {n : ℕ} (hmem : (e, n) ∈ listed) : graph.target e ≠ root := by
  intro hroot
  obtain ⟨-, hexact, a, m, -, -, hn⟩ := h.via e n hmem
  have hzero : n = 0 := hexact.unique (hroot ▸ atDistance_root graph root)
  omega

omit [DecidableEq α] in
/-- A search that may not leave the root lists nothing. -/
theorem Listed.eq_nil {listed : List (ε × ℕ)} (h : Listed graph root 0 listed) : listed = [] := by
  rw [List.eq_nil_iff_forall_not_mem]
  intro entry hmem
  obtain ⟨hdepth, -, a, m, -, -, hn⟩ := h.via entry.1 entry.2 hmem
  omega

omit [DecidableEq α] in
/-- Everything that is nearer than the whole queue has been found. -/
theorem Searching.visited_of_walk (h : Searching graph root depth d (fun _ => []) s) {bound : ℕ}
    (hqueue : ∀ a n, (a, n) ∈ s.queue → bound ≤ n) (hbound : bound ≤ depth) {m : ℕ} {a : α}
    (hwalk : Walk graph root m a) (hm : m ≤ bound) : a ∈ s.visited := by
  induction hwalk with
  | nil => exact (h.visited root).mpr ⟨0, Or.inl ⟨rfl, rfl⟩⟩
  | @snoc n a e hwalk he ih =>
      obtain ⟨k, hfound⟩ := (h.visited a).mp (ih (by omega))
      have hk : k ≤ n := (h.listed.found_exact hfound).2 n hwalk
      have hoff : (a, k) ∉ s.queue := by
        intro hon
        have := hqueue a k hon
        omega
      exact (h.closed a k hfound (by omega) hoff e he).resolve_left List.not_mem_nil

omit [DecidableEq α] in
/-- Pending edges may be crossed off once their targets are visited. -/
theorem Searching.settle (h : Searching graph root depth d pending s) {pending' : α → List ε}
    (hpending : ∀ a, ∀ e ∈ pending a, e ∈ pending' a ∨ graph.target e ∈ s.visited) :
    Searching graph root depth d pending' s :=
  { h with
    closed := by
      intro a n hfound hn hoff e he
      rcases h.closed a n hfound hn hoff e he with hold | hvisited
      · exact hpending a e hold
      · exact Or.inr hvisited }

/-- The edges of one node that are still to be looked at. -/
def pendingAt (source : α) (edges : List ε) (a : α) : List ε := if a = source then edges else []

theorem mem_pendingAt {source a : α} {edges : List ε} {e : ε} :
    e ∈ pendingAt source edges a ↔ a = source ∧ e ∈ edges := by
  unfold pendingAt
  split <;> simp_all

/-- The state once an edge to a new node is listed. -/
def Search.discover (graph : EdgeGraph α ε) (s : Search α ε) (e : ε) (n : ℕ) : Search α ε :=
  { queue := s.queue ++ [(graph.target e, n)]
    visited := insert (graph.target e) s.visited
    listed := s.listed ++ [(e, n)] }

theorem found_discover {e : ε} {n k : ℕ} {a : α} :
    Found graph root (s.discover graph e n).listed a k ↔
      Found graph root s.listed a k ∨ (a = graph.target e ∧ k = n) := by
  constructor
  · rintro (hroot | ⟨e', hmem, rfl⟩)
    · exact Or.inl (Or.inl hroot)
    · rcases List.mem_append.mp hmem with hold | hnew
      · exact Or.inl (Or.inr ⟨e', hold, rfl⟩)
      · obtain ⟨rfl, rfl⟩ := Prod.mk.inj (List.mem_singleton.mp hnew)
        exact Or.inr ⟨rfl, rfl⟩
  · rintro ((hroot | ⟨e', hmem, rfl⟩) | ⟨rfl, rfl⟩)
    · exact Or.inl hroot
    · exact Or.inr ⟨e', List.mem_append_left _ hmem, rfl⟩
    · exact Or.inr ⟨e, List.mem_append_right _ List.mem_cons_self, rfl⟩

omit [DecidableEq α] in
/-- An edge to a new node, at the greatest distance listed so far, may be listed last. -/
theorem Listed.concat {listed : List (ε × ℕ)} (h : Listed graph root depth listed) {source : α}
    {e : ε} (hsource : AtDistance graph root d source) (he : e ∈ graph.out source)
    (hexact : AtDistance graph root (d + 1) (graph.target e)) (hd : d < depth)
    (hfresh : ∀ e' n, (e', n) ∈ listed → graph.target e' ≠ graph.target e)
    (hto : ∀ e' n, (e', n) ∈ listed → n ≤ d + 1) :
    Listed graph root depth (listed ++ [(e, d + 1)]) := by
  constructor
  · intro e' n hmem
    rcases List.mem_append.mp hmem with hold | hlast
    · exact h.via e' n hold
    · obtain ⟨rfl, rfl⟩ := Prod.mk.inj (List.mem_singleton.mp hlast)
      exact ⟨hd, hexact, source, d, hsource, he, rfl⟩
  · rw [List.map_append, List.map_singleton]
    refine h.nodup.append (List.nodup_singleton _) ?_
    intro a hold hlast
    obtain ⟨entry, hmem, rfl⟩ := List.mem_map.mp hold
    exact hfresh entry.1 entry.2 hmem (List.mem_singleton.mp hlast)
  · refine List.pairwise_append.mpr ⟨h.ordered, List.pairwise_singleton _ _, ?_⟩
    intro entry hold last hlast
    rw [List.mem_singleton.mp hlast]
    exact hto entry.1 entry.2 hold

omit [DecidableEq α] in
/-- The queue holds nothing farther away than the list may. -/
theorem Searching.queue_to (h : Searching graph root depth d pending s) {a : α} {n : ℕ}
    (hmem : (a, n) ∈ s.queue) : n ≤ d + 1 := by
  rcases h.queued a n hmem with ⟨-, rfl⟩ | ⟨e, hlisted, -⟩
  · exact Nat.zero_le _
  · exact h.listed_to e n hlisted

/-- A node that has not been visited while its source is looked at is one farther away. -/
theorem Searching.discover {source : α} {e : ε} {edges : List ε}
    (h : Searching graph root depth d (pendingAt source (e :: edges)) s)
    (hsource : AtDistance graph root d source) (he : e ∈ graph.out source) (hd : d < depth)
    (hnear : ∀ m ≤ d, ∀ a, Walk graph root m a → a ∈ s.visited)
    (hnew : graph.target e ∉ s.visited) :
    Searching graph root depth d (pendingAt source edges) (s.discover graph e (d + 1)) := by
  have hexact : AtDistance graph root (d + 1) (graph.target e) := by
    refine ⟨hsource.1.snoc he, ?_⟩
    intro m hwalk
    -- a shorter walk would have been found before
    by_contra hlt
    exact hnew (hnear m (by omega) _ hwalk)
  have hfresh : ∀ e' n, (e', n) ∈ s.listed → graph.target e' ≠ graph.target e := by
    intro e' n hmem heq
    exact hnew ((h.visited _).mpr ⟨n, Or.inr ⟨e', hmem, heq⟩⟩)
  constructor
  · exact h.listed.concat hsource he hexact hd hfresh h.listed_to
  · intro a
    show a ∈ insert (graph.target e) s.visited ↔ _
    rw [Finset.mem_insert, h.visited]
    constructor
    · rintro (rfl | ⟨n, hfound⟩)
      · exact ⟨d + 1, found_discover.mpr (Or.inr ⟨rfl, rfl⟩)⟩
      · exact ⟨n, found_discover.mpr (Or.inl hfound)⟩
    · rintro ⟨n, hfound⟩
      rcases found_discover.mp hfound with hold | ⟨rfl, -⟩
      · exact Or.inr ⟨n, hold⟩
      · exact Or.inl rfl
  · intro a n hmem
    rcases List.mem_append.mp hmem with hold | hlast
    · exact found_discover.mpr (Or.inl (h.queued a n hold))
    · exact found_discover.mpr (Or.inr (Prod.mk.inj (List.mem_singleton.mp hlast)))
  · refine List.pairwise_append.mpr ⟨h.queue_ordered, List.pairwise_singleton _ _, ?_⟩
    intro entry hold last hlast
    rw [List.mem_singleton.mp hlast]
    exact h.queue_to hold
  · intro a n hmem
    rcases List.mem_append.mp hmem with hold | hlast
    · exact h.queue_from a n hold
    · rw [(Prod.mk.inj (List.mem_singleton.mp hlast)).2]
      exact Nat.le_succ d
  · intro e' n hmem
    rcases List.mem_append.mp hmem with hold | hlast
    · exact h.listed_to e' n hold
    · rw [(Prod.mk.inj (List.mem_singleton.mp hlast)).2]
  · intro a n hfound hn hoff e' he'
    have hoffOld : (a, n) ∉ s.queue := fun hon => hoff (List.mem_append_left _ hon)
    rcases found_discover.mp hfound with hold | ⟨rfl, rfl⟩
    · rcases h.closed a n hold hn hoffOld e' he' with hpending | hvisited
      · obtain ⟨rfl, hmem⟩ := mem_pendingAt.mp hpending
        rcases List.mem_cons.mp hmem with rfl | hrest
        · exact Or.inr (Finset.mem_insert_self _ _)
        · exact Or.inl (mem_pendingAt.mpr ⟨rfl, hrest⟩)
      · exact Or.inr (Finset.mem_insert_of_mem hvisited)
    · exact absurd (List.mem_append_right _ List.mem_cons_self) hoff

/-- Looking at the edges of a node keeps the invariant, and the list is right even where the
limit cuts it off. -/
theorem Searching.visit_edges (limit : ℕ) {source : α} {edges : List ε}
    (h : Searching graph root depth d (pendingAt source edges) s)
    (hsource : AtDistance graph root d source) (hedges : ∀ e ∈ edges, e ∈ graph.out source)
    (hd : d < depth) (hnear : ∀ m ≤ d, ∀ a, Walk graph root m a → a ∈ s.visited) :
    Listed graph root depth (visit graph limit d edges s).2.listed ∧
      if (visit graph limit d edges s).1 then
        (visit graph limit d edges s).2.listed.length = limit
      else
        Searching graph root depth d (fun _ => []) (visit graph limit d edges s).2 := by
  induction edges generalizing s with
  | nil =>
      refine ⟨h.listed, ?_⟩
      rw [visit, if_neg Bool.false_ne_true]
      refine h.settle ?_
      intro a e he
      exact absurd (mem_pendingAt.mp he).2 List.not_mem_nil
  | cons e edges ih =>
      have hrest : ∀ e' ∈ edges, e' ∈ graph.out source :=
        fun e' he' => hedges e' (List.mem_cons_of_mem e he')
      rw [visit]
      by_cases hold : graph.target e ∈ s.visited
      · rw [if_pos hold]
        refine ih (h.settle ?_) hrest hnear
        intro a e' he'
        obtain ⟨rfl, hmem⟩ := mem_pendingAt.mp he'
        rcases List.mem_cons.mp hmem with rfl | hmem
        · exact Or.inr hold
        · exact Or.inl (mem_pendingAt.mpr ⟨rfl, hmem⟩)
      · have hnext := h.discover hsource (hedges e List.mem_cons_self) hd hnear hold
        rw [if_neg hold]
        dsimp only
        by_cases hfull : (s.listed ++ [(e, d + 1)]).length = limit
        · rw [if_pos hfull]
          exact ⟨hnext.listed, hfull⟩
        · rw [if_neg hfull]
          exact ih hnext hrest fun m hm a hwalk => Finset.mem_insert_of_mem (hnear m hm a hwalk)

omit [DecidableEq α] in
/-- The head of the queue is the nearest node on it. -/
theorem Searching.head_le (h : Searching graph root depth d pending s) {source : α} {distance : ℕ}
    {queue : List (α × ℕ)} (hqueue : s.queue = (source, distance) :: queue) {a : α} {n : ℕ}
    (hmem : (a, n) ∈ s.queue) : distance ≤ n := by
  rw [hqueue] at hmem
  rcases List.mem_cons.mp hmem with heq | htail
  · exact (Prod.mk.inj heq).2.ge
  · exact (List.pairwise_cons.mp (hqueue ▸ h.queue_ordered)).1 (a, n) htail

/-- Off the queue, a node still has the edges before it that its distance lets the search take. -/
theorem Searching.pop (h : Searching graph root depth d (fun _ => []) s) {source : α}
    {distance : ℕ} {queue : List (α × ℕ)} (hqueue : s.queue = (source, distance) :: queue) :
    Searching graph root depth distance
      (pendingAt source (if depth ≤ distance then [] else graph.out source)) { s with queue } := by
  have hhead : (source, distance) ∈ s.queue := hqueue ▸ List.mem_cons_self
  have hd : d ≤ distance := h.queue_from source distance hhead
  have hsub : ∀ {a n}, (a, n) ∈ queue → (a, n) ∈ s.queue :=
    fun hmem => hqueue ▸ List.mem_cons_of_mem _ hmem
  refine ⟨h.listed, h.visited, fun a n hmem => h.queued a n (hsub hmem),
    (List.pairwise_cons.mp (hqueue ▸ h.queue_ordered)).2,
    fun a n hmem => h.head_le hqueue (hsub hmem), ?_, ?_⟩
  · intro e n hmem
    have := h.listed_to e n hmem
    omega
  · intro a n hfound hn hoff e he
    by_cases hself : (a, n) = (source, distance)
    · obtain ⟨rfl, rfl⟩ := Prod.mk.inj hself
      rw [if_neg (not_le.mpr hn)]
      exact Or.inl (mem_pendingAt.mpr ⟨rfl, he⟩)
    · have hoffOld : (a, n) ∉ s.queue := by
        intro hmem
        rcases List.mem_cons.mp (hqueue ▸ hmem) with heq | htail
        · exact hself heq
        · exact hoff htail
      exact Or.inr ((h.closed a n hfound hn hoffOld e he).resolve_left List.not_mem_nil)

omit [DecidableEq α] in
/-- A search with nothing left to take has found every node within the depth. -/
theorem Searching.found_of_walk (h : Searching graph root depth d (fun _ => []) s)
    (hqueue : s.queue = []) {m : ℕ} {a : α} (hwalk : Walk graph root m a) (hm : m ≤ depth) :
    ∃ n, Found graph root s.listed a n := by
  refine (h.visited a).mp (h.visited_of_walk ?_ le_rfl hwalk hm)
  intro b n hmem
  rw [hqueue] at hmem
  exact absurd hmem List.not_mem_nil

/-- What the loop returns: a list that is right, and complete if it stays short of the limit. -/
theorem explore_listed {rounds : ℕ} {listed : List (ε × ℕ)}
    (h : Searching graph root depth d (fun _ => []) s)
    (hlisted : explore graph depth limit rounds s = some listed) :
    Listed graph root depth listed ∧
      (listed.length < limit → ∀ m ≤ depth, ∀ a, Walk graph root m a →
        ∃ n, Found graph root listed a n) := by
  induction rounds generalizing d s with
  | zero => cases hlisted
  | succ rounds ih =>
      rw [explore] at hlisted
      cases hqueue : s.queue with
      | nil =>
          rw [hqueue] at hlisted
          obtain rfl := Option.some.inj hlisted
          exact ⟨h.listed, fun _ m hm a hwalk => h.found_of_walk hqueue hwalk hm⟩
      | cons head queue =>
          obtain ⟨source, distance⟩ := head
          have hhead : (source, distance) ∈ s.queue := hqueue ▸ List.mem_cons_self
          have hsource := h.listed.found_exact (h.queued source distance hhead)
          have hpopped := h.pop hqueue
          rw [hqueue] at hlisted
          dsimp only at hlisted
          by_cases hdeep : depth ≤ distance
          · rw [if_pos hdeep] at hlisted hpopped
            refine ih (hpopped.settle ?_) hlisted
            intro a e he
            exact absurd (mem_pendingAt.mp he).2 List.not_mem_nil
          · rw [if_neg hdeep] at hlisted hpopped
            have hnear : ∀ m ≤ distance, ∀ a, Walk graph root m a → a ∈ s.visited := by
              intro m hm a hwalk
              exact h.visited_of_walk (fun a n hmem => h.head_le hqueue hmem) (by omega) hwalk hm
            obtain ⟨hright, hstate⟩ := hpopped.visit_edges limit hsource (fun _ he => he)
              (not_le.mp hdeep) hnear
            split at hlisted
            case isTrue hfull =>
              rw [if_pos hfull] at hstate
              obtain rfl := Option.some.inj hlisted
              refine ⟨hright, ?_⟩
              intro hless
              omega
            case isFalse hgo =>
              rw [if_neg hgo] at hstate
              exact ih hstate hlisted

omit [DecidableEq α] in
theorem searching_start : Searching graph root depth 0 (fun _ => []) (start root) := by
  have hnone : ∀ {e n}, (e, n) ∉ (start root : Search α ε).listed := List.not_mem_nil
  refine ⟨⟨fun e n hmem => absurd hmem hnone, List.nodup_nil, List.Pairwise.nil⟩, ?_, ?_, ?_, ?_,
    ?_, ?_⟩
  · intro a
    show a ∈ ({root} : Finset α) ↔ _
    rw [Finset.mem_singleton]
    constructor
    · rintro rfl
      exact ⟨0, Or.inl ⟨rfl, rfl⟩⟩
    · rintro ⟨n, ⟨rfl, -⟩ | ⟨e, hmem, -⟩⟩
      · rfl
      · exact absurd hmem hnone
  · intro a n hmem
    exact Or.inl (Prod.mk.inj (List.mem_singleton.mp hmem))
  · exact List.pairwise_singleton _ _
  · exact fun _ n _ => Nat.zero_le n
  · exact fun e n hmem => absurd hmem hnone
  · intro a n hfound _ hoff
    rcases hfound with ⟨rfl, rfl⟩ | ⟨e, hmem, -⟩
    · exact absurd List.mem_cons_self hoff
    · exact absurd hmem hnone

/-- **A search lists edges to distinct nodes in the order of their distances, and a list that
stays short of the limit names exactly the nodes at distances from one to the depth.** -/
theorem search_listed {listed : List (ε × ℕ)}
    (h : search graph root depth limit = some listed) :
    Listed graph root depth listed ∧
      (listed.length < limit → ∀ a n, (∃ e, (e, n) ∈ listed ∧ graph.target e = a) ↔
        (1 ≤ n ∧ n ≤ depth) ∧ AtDistance graph root n a) := by
  obtain ⟨hlisted, hall⟩ := explore_listed searching_start h
  refine ⟨hlisted, ?_⟩
  intro hless a n
  constructor
  · rintro ⟨e, hmem, rfl⟩
    obtain ⟨hdepth, hexact, b, m, -, -, rfl⟩ := hlisted.via e n hmem
    exact ⟨⟨Nat.succ_le_succ (Nat.zero_le m), hdepth⟩, hexact⟩
  · rintro ⟨⟨hone, hdepth⟩, hexact⟩
    obtain ⟨k, hfound⟩ := hall hless n hdepth a hexact.1
    have hk : k = n := (hlisted.found_exact hfound).unique hexact
    rcases hfound with ⟨-, rfl⟩ | ⟨e, hmem, htarget⟩
    · omega
    · exact ⟨e, hk ▸ hmem, htarget⟩

end Invariant

end BreadthFirst
