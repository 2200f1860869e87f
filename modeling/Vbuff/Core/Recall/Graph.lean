import Vbuff.Lib.BreadthFirst
import Vbuff.Lib.MachineInt
import Vbuff.Lib.StableSort
import Vbuff.Types.Clip

/-!
# How clips are related

`link` adds an edge between two clips, within bounds on the nodes and the edges, and `related`
searches the graph breadth first from a clip, the newest edges of a clip first.  The search goes
four edges deep and lists a hundred clips at most, whatever it is asked for.  Within these bounds
the list is the neighbourhood of the clip, each clip with its distance
(`related_neighbourhood`).
-/

namespace Vbuff.Core.Recall

open BreadthFirst StableSort Vbuff.Types

def MAX_GRAPH_NODES : ℕ := 10000

def MAX_GRAPH_EDGES : ℕ := 40000

def MAX_RELATED_RESULTS : ℕ := 100

def MAX_GRAPH_DEPTH : ℕ := 4

inductive ClipRelation where
  | CopiedFrom
  | TransformedFrom
  | PastedAfter
  | SyncedFrom
  deriving DecidableEq, Repr

structure Edge where
  target : ClipId
  relation : ClipRelation
  timestampMs : UInt64
  deriving DecidableEq, Repr

structure RelatedClip where
  clipId : ClipId
  relation : ClipRelation
  distance : ℕ
  timestampMs : UInt64
  deriving DecidableEq, Repr

/-- A clip without an entry in the source's map has no edges here. -/
structure ClipRelationshipGraph where
  edges : ClipId → List Edge
  nodes : Finset ClipId
  edgeCount : ℕ

namespace ClipRelationshipGraph

/-- `ClipRelationshipGraph::default()`. -/
def default : ClipRelationshipGraph := { edges := fun _ => [], nodes := ∅, edgeCount := 0 }

def link (self : ClipRelationshipGraph) (source target : ClipId) (relation : ClipRelation)
    (timestampMs : UInt64) : ClipRelationshipGraph × Bool :=
  let addedNodes :=
    (if source ∈ self.nodes then 0 else 1) + (if target ∈ self.nodes then 0 else 1)
  if source = target ∨ MAX_GRAPH_EDGES ≤ self.edgeCount
      ∨ MAX_GRAPH_NODES < self.nodes.card + addedNodes then
    (self, false)
  else if (self.edges source).any fun edge =>
      decide (edge.target = target ∧ edge.relation = relation) then
    (self, false)
  else
    ({ edges := Function.update self.edges source
         (self.edges source ++ [{ target, relation, timestampMs }])
       nodes := insert target (insert source self.nodes)
       edgeCount := self.edgeCount + 1 }, true)

/-- What `link` is called with. -/
structure Link where
  source : ClipId
  target : ClipId
  relation : ClipRelation
  timestampMs : UInt64
  deriving DecidableEq, Repr

/-- The graph after a list of calls. -/
def ofLinks (links : List Link) : ClipRelationshipGraph :=
  links.foldl (fun self l => (self.link l.source l.target l.relation l.timestampMs).1) default

/-- The newest edges come first, and edges of one time in the order of their targets. -/
def recency (edge : Edge) : UInt64ᵒᵈ ×ₗ String :=
  toLex (OrderDual.toDual edge.timestampMs, edge.target.toStringRepr)

/-- The edges as they were linked. -/
def linked (self : ClipRelationshipGraph) : EdgeGraph ClipId Edge where
  out := self.edges
  target := Edge.target

/-- The edges as the search takes them. -/
def ordered (self : ClipRelationshipGraph) : EdgeGraph ClipId Edge where
  out clip := sortByKey recency (self.edges clip)
  target := Edge.target

/-- An entry of the search, as it is returned. -/
def RelatedClip.ofEntry (entry : Edge × ℕ) : RelatedClip :=
  { clipId := entry.1.target
    relation := entry.1.relation
    distance := entry.2
    timestampMs := entry.1.timestampMs }

/-- The distance saturates at 255 in the source, which it does not come near. -/
def related (self : ClipRelationshipGraph) (root : ClipId) (maximumDepth : UInt8) (limit : ℕ) :
    List RelatedClip :=
  let maximumDepth := min maximumDepth.toNat MAX_GRAPH_DEPTH
  let limit := min limit MAX_RELATED_RESULTS
  if maximumDepth = 0 ∨ limit = 0 then []
  else
    ((search self.ordered root maximumDepth limit).getD []).map RelatedClip.ofEntry

/-! ## Linking -/

/-- A link that is accepted adds its edge, and one that is refused changes nothing. -/
theorem mem_edges_link (self : ClipRelationshipGraph) (source target : ClipId)
    (relation : ClipRelation) (timestampMs : UInt64) (clip : ClipId) (edge : Edge) :
    edge ∈ (self.link source target relation timestampMs).1.edges clip ↔
      edge ∈ self.edges clip ∨
        (self.link source target relation timestampMs).2 = true ∧ clip = source ∧
          edge = { target, relation, timestampMs } := by
  unfold link
  dsimp only
  generalize (if source ∈ self.nodes then 0 else 1) + (if target ∈ self.nodes then 0 else 1) = added
  split
  · simp
  · split
    · simp
    · by_cases hclip : clip = source
      · subst hclip
        simp
      · simp [hclip]

/-! ## Searching -/

theorem walk_ordered {self : ClipRelationshipGraph} {root clip : ClipId} {n : ℕ} :
    Walk self.ordered root n clip ↔ Walk self.linked root n clip := by
  have hout : ∀ a edge, edge ∈ self.ordered.out a ↔ edge ∈ self.linked.out a :=
    fun a _ => (perm_sortByKey recency (self.edges a)).mem_iff
  exact ⟨walk_congr (fun a edge => (hout a edge).mp) rfl,
    walk_congr (fun a edge => (hout a edge).mpr) rfl⟩

theorem atDistance_ordered {self : ClipRelationshipGraph} {root clip : ClipId} {n : ℕ} :
    AtDistance self.ordered root n clip ↔ AtDistance self.linked root n clip := by
  simp only [AtDistance, walk_ordered]

/-- The clips returned are those that the search lists, which at depth zero is not made and would
list nothing. -/
theorem related_of_search (self : ClipRelationshipGraph) (root : ClipId) {maximumDepth : UInt8}
    {limit : ℕ} (hlimit : min limit MAX_RELATED_RESULTS ≠ 0) :
    ∃ listed,
      search self.ordered root (min maximumDepth.toNat MAX_GRAPH_DEPTH)
        (min limit MAX_RELATED_RESULTS) = some listed ∧
      self.related root maximumDepth limit = listed.map RelatedClip.ofEntry := by
  obtain ⟨listed, hlisted⟩ := Option.isSome_iff_exists.mp
    (search_isSome self.ordered root (min maximumDepth.toNat MAX_GRAPH_DEPTH)
      (Nat.pos_of_ne_zero hlimit))
  refine ⟨listed, hlisted, ?_⟩
  by_cases hdepth : min maximumDepth.toNat MAX_GRAPH_DEPTH = 0
  · rw [hdepth] at hlisted
    rw [(search_listed hlisted).1.eq_nil, related, if_pos (Or.inl hdepth), List.map_nil]
  · rw [related, if_neg (not_or.mpr ⟨hdepth, hlimit⟩), hlisted, Option.getD_some]

theorem exists_ofEntry {listed : List (Edge × ℕ)} {clip : ClipId} {n : ℕ} :
    (∃ found ∈ listed.map RelatedClip.ofEntry, found.clipId = clip ∧ found.distance = n) ↔
      ∃ edge, (edge, n) ∈ listed ∧ edge.target = clip := by
  constructor
  · rintro ⟨found, hmem, rfl, rfl⟩
    obtain ⟨entry, hentry, rfl⟩ := List.mem_map.mp hmem
    exact ⟨entry.1, hentry, rfl⟩
  · rintro ⟨edge, hmem, rfl⟩
    exact ⟨_, List.mem_map_of_mem hmem, rfl, rfl⟩

variable {links : List Link} {root : ClipId} {maximumDepth : UInt8} {limit : ℕ}

/-- **A list that stays short of the limit, a hundred at most, names exactly the clips at
distances from one to the depth, four at most**: each once, never the root, with its distance,
in the order of the distances, and with an edge that leads to it from one step nearer. -/
theorem related_neighbourhood
    (hless : ((ofLinks links).related root maximumDepth limit).length <
      min limit MAX_RELATED_RESULTS) :
    (∀ clip n, (∃ found ∈ (ofLinks links).related root maximumDepth limit,
        found.clipId = clip ∧ found.distance = n) ↔
      (1 ≤ n ∧ n ≤ min maximumDepth.toNat MAX_GRAPH_DEPTH) ∧
        AtDistance (ofLinks links).linked root n clip) ∧
      (((ofLinks links).related root maximumDepth limit).map RelatedClip.clipId).Nodup ∧
      (∀ found ∈ (ofLinks links).related root maximumDepth limit, found.clipId ≠ root) ∧
      ((ofLinks links).related root maximumDepth limit).Pairwise
        (fun found next => found.distance ≤ next.distance) ∧
      ∀ found ∈ (ofLinks links).related root maximumDepth limit, ∃ clip n,
        AtDistance (ofLinks links).linked root n clip ∧ found.distance = n + 1 ∧
          { target := found.clipId
            relation := found.relation
            timestampMs := found.timestampMs : Edge } ∈ (ofLinks links).edges clip := by
  have hlimit : min limit MAX_RELATED_RESULTS ≠ 0 := by omega
  obtain ⟨listed, hsearch, hrelated⟩ := related_of_search (ofLinks links) root hlimit
  obtain ⟨hlisted, hall⟩ := search_listed hsearch
  rw [hrelated, List.length_map] at hless
  rw [hrelated]
  refine ⟨?_, ?_, ?_, ?_, ?_⟩
  · intro clip n
    rw [exists_ofEntry, ← atDistance_ordered]
    exact hall hless clip n
  · rw [List.map_map]
    exact hlisted.nodup
  · intro found hmem
    obtain ⟨entry, hentry, rfl⟩ := List.mem_map.mp hmem
    exact hlisted.target_ne_root hentry
  · rw [List.pairwise_map]
    exact hlisted.ordered
  · intro found hmem
    obtain ⟨entry, hentry, rfl⟩ := List.mem_map.mp hmem
    obtain ⟨-, -, clip, m, hclip, hedge, hn⟩ := hlisted.via entry.1 entry.2 hentry
    exact ⟨clip, m, atDistance_ordered.mp hclip, hn, (perm_sortByKey recency _).mem_iff.mp hedge⟩

/-- A chain of six clips. -/
def chain : List Link :=
  [⟨0, 1, .CopiedFrom, 1⟩, ⟨1, 2, .CopiedFrom, 2⟩, ⟨2, 3, .CopiedFrom, 3⟩, ⟨3, 4, .CopiedFrom, 4⟩,
    ⟨4, 5, .CopiedFrom, 5⟩]

theorem related_neighbourhood_chain : AtDistance (ofLinks chain).linked 0 4 4 := by
  have hless : ((ofLinks chain).related 0 9 10).length < min 10 MAX_RELATED_RESULTS := by
    decide +kernel
  exact (((related_neighbourhood hless).1 4 4).mp (by decide +kernel)).2

/-- The fifth clip of the chain is five edges away, and is not listed. -/
theorem related_stops_at_four :
    ((ofLinks chain).related 0 5 10).length < 10 ∧
      AtDistance (ofLinks chain).linked 0 5 5 ∧
      ∀ found ∈ (ofLinks chain).related 0 5 10, found.clipId ≠ 5 := by
  have hsearch : search (ofLinks chain).ordered 0 5 10 =
      some (((ofLinks chain).edges 0 ++ (ofLinks chain).edges 1 ++ (ofLinks chain).edges 2 ++
        (ofLinks chain).edges 3 ++ (ofLinks chain).edges 4).zip [1, 2, 3, 4, 5]) := by
    decide +kernel
  refine ⟨by decide +kernel, atDistance_ordered.mp ?_, by decide +kernel⟩
  exact ((search_listed hsearch).1.via ⟨5, .CopiedFrom, 5⟩ 5 (by decide +kernel)).2.1

end ClipRelationshipGraph

end Vbuff.Core.Recall
