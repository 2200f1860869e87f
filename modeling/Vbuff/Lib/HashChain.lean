import Mathlib

/-!
# Chains linked by a hash

A link carries the hash of its predecessor and its own hash; the first link
carries a fixed genesis hash.  `Linked` is that shape, `head` the hash a chain
ends in, and `eq_of_head_eq` what the head is worth: when the hash of a link
determines its content, and no link hashes to genesis, two chains that end in one
head carry the same contents all the way down.

A window of a chain is linked too, from the hash in front of it (`Linked.of_append`).
Of two windows of one length it takes no genesis to compare them
(`eq_of_head_eq_of_length`).

The inductions run from the head backwards, over both chains at once.
-/

namespace HashChain

universe u v w

variable {L : Type u} {H : Type v} {C : Type w} (prev hash : L → H)

/-- Each link carries the hash of the one before it, the first one `h`. -/
def Linked : H → List L → Prop
  | _, [] => True
  | h, l :: ls => prev l = h ∧ Linked (hash l) ls

/-- The hash a chain that starts at `h` ends in. -/
def head (h : H) (ls : List L) : H := ls.getLast?.elim h hash

@[simp] theorem head_nil (h : H) : head hash h ([] : List L) = h := rfl

@[simp] theorem head_concat (h : H) (ls : List L) (l : L) :
    head hash h (ls ++ [l]) = hash l := by
  rw [head, List.getLast?_concat]
  rfl

/-- The head is the hash the last transition leaves. -/
theorem head_eq_foldl (h : H) (ls : List L) : head hash h ls = ls.foldl (fun _ l => hash l) h := by
  induction ls using List.reverseRecOn with
  | nil => rfl
  | append_singleton ls l _ => rw [head_concat, List.foldl_concat]

theorem linked_concat (h : H) (ls : List L) (l : L) :
    Linked prev hash h (ls ++ [l]) ↔ Linked prev hash h ls ∧ prev l = head hash h ls := by
  induction ls generalizing h with
  | nil => simp [Linked]
  | cons x ls ih =>
      rw [List.cons_append, Linked, ih, Linked, and_assoc, head_eq_foldl, head_eq_foldl,
        List.foldl_cons]

/-- A chain is linked on both sides of a cut. -/
theorem linked_append (h : H) (ls ms : List L) :
    Linked prev hash h (ls ++ ms) ↔
      Linked prev hash h ls ∧ Linked prev hash (head hash h ls) ms := by
  induction ls generalizing h with
  | nil => simp [Linked]
  | cons l ls ih =>
      rw [List.cons_append, Linked, ih, Linked, and_assoc, head_eq_foldl, head_eq_foldl,
        List.foldl_cons]

variable {prev hash}

/-- A window of a chain is a chain. -/
theorem Linked.of_append {h : H} {front window back : List L}
    (hlinked : Linked prev hash h (front ++ window ++ back)) :
    Linked prev hash (head hash h front) window :=
  ((linked_append prev hash h front window).mp
    ((linked_append prev hash h (front ++ window) back).mp hlinked).1).2

/-- Chains of one length with one head are the same, wherever they start. -/
theorem eq_of_head_eq_of_length {h h' : H} {xs ys : List L} (hx : Linked prev hash h xs)
    (hy : Linked prev hash h' ys) (hlength : xs.length = ys.length)
    (hinj : ∀ x ∈ xs, ∀ y ∈ ys, hash x = hash y → x = y)
    (hhead : xs.getLast?.map hash = ys.getLast?.map hash) : xs = ys := by
  induction xs using List.reverseRecOn generalizing ys with
  | nil => exact (List.length_eq_zero_iff.mp hlength.symm).symm
  | append_singleton xs x ih =>
      rcases List.eq_nil_or_concat' ys with rfl | ⟨ys, y, rfl⟩
      · rw [List.length_append, List.length_singleton] at hlength
        cases hlength
      · rw [List.getLast?_concat, List.getLast?_concat] at hhead
        obtain rfl := hinj x (by simp) y (by simp) (Option.some.inj hhead)
        rw [linked_concat] at hx hy
        have hrest : xs.length = ys.length := by
          simpa only [List.length_append, Nat.add_right_cancel_iff] using hlength
        have hbefore : head hash h xs = head hash h' ys := hx.2.symm.trans hy.2
        have hlast : xs.getLast?.map hash = ys.getLast?.map hash := by
          rcases List.eq_nil_or_concat' xs with rfl | ⟨xs, x', rfl⟩
          · rw [List.length_eq_zero_iff.mp hrest.symm]
          · rcases List.eq_nil_or_concat' ys with rfl | ⟨ys, y', rfl⟩
            · rw [List.length_append, List.length_singleton] at hrest
              cases hrest
            · rw [head_concat, head_concat] at hbefore
              rw [List.getLast?_concat, List.getLast?_concat, Option.map_some, Option.map_some,
                hbefore]
        rw [ih hx.1 hy.1 hrest
          (fun a ha b hb => hinj a (List.mem_append_left _ ha) b (List.mem_append_left _ hb)) hlast]

/-- **One head, one history.**  When equal hashes mean equal contents and equal
predecessors, and no link hashes to genesis, chains with one head have the same
contents. -/
theorem eq_of_head_eq {genesis : H} {content : L → C} {xs ys : List L}
    (hx : Linked prev hash genesis xs) (hy : Linked prev hash genesis ys)
    (hx₀ : ∀ x ∈ xs, hash x ≠ genesis) (hy₀ : ∀ y ∈ ys, hash y ≠ genesis)
    (hinj : ∀ x ∈ xs, ∀ y ∈ ys, hash x = hash y → prev x = prev y ∧ content x = content y)
    (hhead : head hash genesis xs = head hash genesis ys) :
    xs.map content = ys.map content := by
  induction xs using List.reverseRecOn generalizing ys with
  | nil =>
      rcases List.eq_nil_or_concat' ys with rfl | ⟨ys, y, rfl⟩
      · rfl
      · rw [head_nil, head_concat] at hhead
        exact absurd hhead.symm (hy₀ y (by simp))
  | append_singleton xs x ih =>
      rcases List.eq_nil_or_concat' ys with rfl | ⟨ys, y, rfl⟩
      · rw [head_nil, head_concat] at hhead
        exact absurd hhead (hx₀ x (by simp))
      · rw [head_concat, head_concat] at hhead
        rw [linked_concat] at hx hy
        obtain ⟨hprev, hcontent⟩ := hinj x (by simp) y (by simp) hhead
        have hrest : xs.map content = ys.map content :=
          ih hx.1 hy.1 (fun a ha => hx₀ a (List.mem_append_left _ ha))
            (fun a ha => hy₀ a (List.mem_append_left _ ha))
            (fun a ha b hb => hinj a (List.mem_append_left _ ha) b (List.mem_append_left _ hb))
            (by rw [← hx.2, ← hy.2, hprev])
        rw [List.map_append, List.map_append, hrest, List.map_singleton, List.map_singleton,
          hcontent]

end HashChain
