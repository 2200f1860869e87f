import Mathlib

/-!
# Groups behind a leader

A list is cut into groups as it is read: an element joins the group being read if `joins` has an
answer for the leader of the group and the element, and leads the next group otherwise.  The groups
are the list (`members_groupUp`), and who follows has joined (`joins_of_mem_groupUp`).
-/

namespace Groups

universe u v

/-- The first element of a group, and those that joined it, each with what `joins` answered. -/
structure Group (α : Type u) (δ : Type v) where
  leader : α
  followers : List (α × δ)

variable {α : Type u} {δ : Type v} {joins : α → α → Option δ}

def Group.members (self : Group α δ) : List α := self.leader :: self.followers.map Prod.fst

/-- One more follower. -/
def Group.push (self : Group α δ) (a : α) (d : δ) : Group α δ :=
  { self with followers := self.followers ++ [(a, d)] }

variable (joins) in
/-- The groups of a list, behind a group that is being read. -/
def groupsFrom (current : Group α δ) : List α → List (Group α δ)
  | [] => [current]
  | a :: rest =>
      match joins current.leader a with
      | some d => groupsFrom (current.push a d) rest
      | none => current :: groupsFrom ⟨a, []⟩ rest

variable (joins) in
def groupUp : List α → List (Group α δ)
  | [] => []
  | a :: rest => groupsFrom joins ⟨a, []⟩ rest

theorem Group.members_push (self : Group α δ) (a : α) (d : δ) :
    (self.push a d).members = self.members ++ [a] := by
  simp [Group.members, Group.push]

/-- No element is lost, and the order stays. -/
theorem members_groupsFrom (current : Group α δ) (l : List α) :
    (groupsFrom joins current l).flatMap Group.members = current.members ++ l := by
  induction l generalizing current with
  | nil => simp [groupsFrom]
  | cons a rest ih =>
    rw [groupsFrom]
    cases joins current.leader a with
    | some d =>
      dsimp only
      rw [ih, Group.members_push, List.append_assoc, List.singleton_append]
    | none =>
      dsimp only
      rw [List.flatMap_cons, ih]
      rfl

theorem members_groupUp (l : List α) : (groupUp joins l).flatMap Group.members = l := by
  cases l with
  | nil => rfl
  | cons a rest => exact members_groupsFrom ⟨a, []⟩ rest

/-- The followers of a group have joined it. -/
def Group.Joined (joins : α → α → Option δ) (self : Group α δ) : Prop :=
  ∀ follower ∈ self.followers, joins self.leader follower.1 = some follower.2

theorem Group.Joined.push {self : Group α δ} (h : self.Joined joins) {a : α} {d : δ}
    (ha : joins self.leader a = some d) : (self.push a d).Joined joins := by
  intro follower hfollower
  rcases List.mem_append.mp hfollower with hold | hnew
  · exact h follower hold
  · rw [List.mem_singleton.mp hnew]
    exact ha

theorem Group.Joined.single (a : α) : (⟨a, []⟩ : Group α δ).Joined joins :=
  fun _ hfollower => absurd hfollower List.not_mem_nil

theorem joined_groupsFrom {current : Group α δ} (h : current.Joined joins) (l : List α) :
    ∀ group ∈ groupsFrom joins current l, group.Joined joins := by
  induction l generalizing current with
  | nil =>
    intro group hgroup
    exact List.mem_singleton.mp hgroup ▸ h
  | cons a rest ih =>
    rw [groupsFrom]
    cases ha : joins current.leader a with
    | some d => exact ih (h.push ha)
    | none =>
      intro group hgroup
      rcases List.mem_cons.mp hgroup with rfl | hlater
      · exact h
      · exact ih (.single a) group hlater

theorem joined_groupUp (l : List α) : ∀ group ∈ groupUp joins l, group.Joined joins := by
  cases l with
  | nil => exact fun _ hgroup => absurd hgroup List.not_mem_nil
  | cons a rest => exact joined_groupsFrom (.single a) rest

/-- A loop that carries what it makes of the groups so far, and of the one being read, makes that of
all groups. -/
theorem foldl_groupsFrom {σ β : Type*} {step : σ → α → σ} {state : List β → Group α δ → σ}
    {rows : Group α δ → List β} {P : Group α δ → List α → Prop}
    (hjoin : ∀ done current a rest d, P current (a :: rest) → joins current.leader a = some d →
      step (state done current) a = state done (current.push a d) ∧ P (current.push a d) rest)
    (hlead : ∀ done current a rest, P current (a :: rest) → joins current.leader a = none →
      step (state done current) a = state (done ++ rows current) ⟨a, []⟩ ∧ P ⟨a, []⟩ rest)
    (l : List α) (done : List β) (current : Group α δ) (h : P current l) :
    ∃ before last, l.foldl step (state done current) = state (done ++ before) last ∧
      (groupsFrom joins current l).flatMap rows = before ++ rows last := by
  induction l generalizing done current with
  | nil => exact ⟨[], current, by rw [List.append_nil]; rfl, by simp [groupsFrom]⟩
  | cons a rest ih =>
    rw [List.foldl_cons, groupsFrom]
    cases ha : joins current.leader a with
    | some d =>
      obtain ⟨hstep, hrest⟩ := hjoin done current a rest d h ha
      rw [hstep]
      exact ih done (current.push a d) hrest
    | none =>
      obtain ⟨hstep, hrest⟩ := hlead done current a rest h ha
      obtain ⟨before, last, hfold, hrows⟩ := ih (done ++ rows current) ⟨a, []⟩ hrest
      refine ⟨rows current ++ before, last, ?_, ?_⟩
      · rw [hstep, hfold, List.append_assoc]
      · rw [List.flatMap_cons, hrows, List.append_assoc]

end Groups
