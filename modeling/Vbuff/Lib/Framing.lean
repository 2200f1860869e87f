import Vbuff.Lib.ByteString

/-!
# Self-delimiting encodings

A field encoder is safe to concatenate when a reader of the output can tell
where the field ends and what it said, whatever follows.  `Delimits V enc f`
is that property, relative to a domain `V` and to the part `f` of the value
the output pins down: two outputs that agree as prefixes of longer strings come
from values with the same `f`, and leave the same rest.

The rules follow the way formats are written:

* a fixed-width field (`Delimits.of_length`), a length-prefixed one
  (`delimits_lengthPrefixed`), one that ends in a mark it does not contain
  (`delimits_terminated`), an optional one (`delimits_optional`);
* one field after another (`Delimits.append`), a field of a record
  (`Delimits.comap`), a body chosen by a tag (`Delimits.tagged`);
* a list of entries with a count in front (`delimits_counted`), or with none
  (`Delimits.flatMap_inj`), which is unambiguous as soon as the entries are non-empty.

`delimits_id_iff` is the classical reading: an encoder is self-delimiting
exactly when no output is a prefix of another value's output.
-/

namespace Framing

open ByteString

universe u v w x

variable {α : Type u} {β : Type v} {γ : Type w} {σ : Type x}

/-- On `V`, the output of `enc` marks its own end and determines `f`. -/
def Delimits (V : Set α) (enc : α → List σ) (f : α → β) : Prop :=
  ∀ ⦃a⦄, a ∈ V → ∀ ⦃b⦄, b ∈ V → ∀ ⦃s t : List σ⦄,
    enc a ++ s = enc b ++ t → f a = f b ∧ s = t

namespace Delimits

variable {V W : Set α} {enc : α → List σ} {f : α → β}

theorem mono (h : Delimits W enc f) (sub : V ⊆ W) : Delimits V enc f :=
  fun _ ha _ hb _ _ heq => h (sub ha) (sub hb) heq

/-- A delimited output determines `f`. -/
theorem determines (h : Delimits V enc f) {a b : α} (ha : a ∈ V) (hb : b ∈ V)
    (heq : enc a = enc b) : f a = f b :=
  (h ha hb (s := []) (t := []) (by rw [heq])).1

/-- What the output pins down may be replaced by anything computed from it. -/
theorem map (h : Delimits V enc f) {g : α → γ}
    (hfg : ∀ a ∈ V, ∀ b ∈ V, f a = f b → g a = g b) : Delimits V enc g := by
  intro a ha b hb s t heq
  obtain ⟨hf, hst⟩ := h ha hb heq
  exact ⟨hfg a ha b hb hf, hst⟩

/-- A field of a record, encoded by the field's own encoder. -/
theorem comap {V' : Set γ} {enc' : γ → List σ} {f' : γ → β} (h : Delimits V' enc' f')
    (g : α → γ) (hg : Set.MapsTo g V V') :
    Delimits V (fun a => enc' (g a)) (fun a => f' (g a)) :=
  fun _ ha _ hb _ _ heq => h (hg ha) (hg hb) heq

/-- One field after another. -/
theorem append {enc' : α → List σ} {g : α → γ} (h : Delimits V enc f)
    (h' : Delimits V enc' g) :
    Delimits V (fun a => enc a ++ enc' a) (fun a => (f a, g a)) := by
  intro a ha b hb s t heq
  rw [List.append_assoc, List.append_assoc] at heq
  obtain ⟨hf, hrest⟩ := h ha hb heq
  obtain ⟨hg, hst⟩ := h' ha hb hrest
  exact ⟨Prod.ext hf hg, hst⟩

/-- A fixed-width field. -/
theorem of_length {n : ℕ} (hlen : ∀ a ∈ V, (enc a).length = n)
    (hinj : ∀ a ∈ V, ∀ b ∈ V, enc a = enc b → f a = f b) : Delimits V enc f := by
  intro a ha b hb s t heq
  obtain ⟨henc, hst⟩ := List.append_inj heq (by rw [hlen a ha, hlen b hb])
  exact ⟨hinj a ha b hb henc, hst⟩

/-- A body chosen by a tag: the bodies need to be delimited only among values
that carry the same tag. -/
theorem tagged {tag : α → σ} (h : ∀ t, Delimits {a | a ∈ V ∧ tag a = t} enc f) :
    Delimits V (fun a => tag a :: enc a) (fun a => (tag a, f a)) := by
  intro a ha b hb s t heq
  rw [List.cons_append, List.cons_append, List.cons.injEq] at heq
  obtain ⟨htag, hrest⟩ := heq
  obtain ⟨hf, hst⟩ := h (tag b) ⟨ha, htag⟩ ⟨hb, rfl⟩ hrest
  exact ⟨Prod.ext htag hf, hst⟩

/-- Entries written one after another with no count in front are read back
uniquely, as long as no entry is empty. -/
theorem flatMap_inj {enc : α → List σ} (h : Delimits V enc id)
    (hne : ∀ a ∈ V, enc a ≠ []) :
    ∀ {xs ys : List α}, (∀ a ∈ xs, a ∈ V) → (∀ a ∈ ys, a ∈ V) →
      xs.flatMap enc = ys.flatMap enc → xs = ys := by
  intro xs
  induction xs with
  | nil =>
      intro ys _ hys heq
      cases ys with
      | nil => rfl
      | cons y ys =>
          have hy : enc y = [] := by
            rw [List.flatMap_nil, List.flatMap_cons] at heq
            exact (List.append_eq_nil_iff.mp heq.symm).1
          exact absurd hy (hne y (hys y List.mem_cons_self))
  | cons x xs ih =>
      intro ys hxs hys heq
      cases ys with
      | nil =>
          have hx : enc x = [] := by
            rw [List.flatMap_nil, List.flatMap_cons] at heq
            exact (List.append_eq_nil_iff.mp heq).1
          exact absurd hx (hne x (hxs x List.mem_cons_self))
      | cons y ys =>
          rw [List.flatMap_cons, List.flatMap_cons] at heq
          obtain ⟨hxy, hrest⟩ :=
            h (hxs x List.mem_cons_self) (hys y List.mem_cons_self) heq
          have htail : xs = ys :=
            ih (fun a ha => hxs a (List.mem_cons_of_mem _ ha))
              (fun a ha => hys a (List.mem_cons_of_mem _ ha)) hrest
          rw [show x = y from hxy, htail]

end Delimits

/-- An encoder is self-delimiting exactly when no output is a prefix of the
output of another value. -/
theorem delimits_id_iff {V : Set α} {enc : α → List σ} :
    Delimits V enc id ↔ ∀ a ∈ V, ∀ b ∈ V, enc a <+: enc b → a = b := by
  constructor
  · rintro h a ha b hb ⟨s, hs⟩
    exact (h ha hb (s := s) (t := []) (by rw [hs, List.append_nil])).1
  · intro h a ha b hb s t heq
    have hab : a = b := by
      rcases List.append_eq_append_iff.mp heq with ⟨r, hr, -⟩ | ⟨r, hr, -⟩
      · exact h a ha b hb ⟨r, hr.symm⟩
      · exact (h b hb a ha ⟨r, hr.symm⟩).symm
    subst hab
    exact ⟨rfl, List.append_cancel_left heq⟩

/-- A constant marks its own end and says nothing. -/
theorem delimits_const (V : Set α) (word : List σ) :
    Delimits V (fun _ => word) (fun _ => ()) :=
  fun _ _ _ _ _ _ heq => ⟨rfl, List.append_cancel_left heq⟩

/-- A field behind its own length, given a header that encodes the length. -/
theorem delimits_lengthPrefixed {N : Set ℕ} {header : ℕ → List σ}
    (hheader : Delimits N header id) :
    Delimits {xs : List σ | xs.length ∈ N} (fun xs => header xs.length ++ xs) id := by
  intro xs hxs ys hys s t heq
  rw [List.append_assoc, List.append_assoc] at heq
  obtain ⟨hlen, hrest⟩ := hheader hxs hys heq
  exact List.append_inj hrest hlen

/-- Entries behind their number. -/
theorem delimits_counted {V : Set α} {enc : α → List σ} {N : Set ℕ} {header : ℕ → List σ}
    (hheader : Delimits N header id) (h : Delimits V enc id) :
    Delimits {xs : List α | xs.length ∈ N ∧ ∀ x ∈ xs, x ∈ V}
      (fun xs => header xs.length ++ xs.flatMap enc) id := by
  have hentries : ∀ {xs ys : List α} {s t : List σ}, (∀ x ∈ xs, x ∈ V) → (∀ y ∈ ys, y ∈ V) →
      xs.length = ys.length → xs.flatMap enc ++ s = ys.flatMap enc ++ t → xs = ys ∧ s = t := by
    intro xs
    induction xs with
    | nil =>
        intro ys s t _ _ hlen heq
        obtain rfl := List.length_eq_zero_iff.mp hlen.symm
        exact ⟨rfl, heq⟩
    | cons x xs ih =>
        intro ys s t hxs hys hlen heq
        cases ys with
        | nil => cases hlen
        | cons y ys =>
            rw [List.flatMap_cons, List.flatMap_cons, List.append_assoc, List.append_assoc] at heq
            obtain ⟨hxy, hrest⟩ := h (hxs x List.mem_cons_self) (hys y List.mem_cons_self) heq
            obtain ⟨rfl, hst⟩ := ih (fun a ha => hxs a (List.mem_cons_of_mem _ ha))
              (fun a ha => hys a (List.mem_cons_of_mem _ ha)) (Nat.succ.inj hlen) hrest
            exact ⟨congrArg (· :: xs) hxy, hst⟩
  intro xs hxs ys hys s t heq
  rw [List.append_assoc, List.append_assoc] at heq
  obtain ⟨hlen, hrest⟩ := hheader hxs.1 hys.1 heq
  exact hentries hxs.2 hys.2 hlen hrest

/-- A word without the mark, followed by the mark. -/
theorem delimits_terminated (mark : σ) :
    Delimits {word : List σ | mark ∉ word} (fun word => word ++ [mark]) id := by
  intro a ha b hb s t heq
  rw [List.append_assoc, List.append_assoc] at heq
  -- the first mark on each side ends the word
  rcases List.append_eq_append_iff.mp heq with ⟨r, hr, hrest⟩ | ⟨r, hr, hrest⟩
  · cases r with
    | nil => simp_all
    | cons c r =>
        obtain ⟨rfl, -⟩ := List.cons.inj hrest
        exact absurd (by simp [hr]) hb
  · cases r with
    | nil => simp_all
    | cons c r =>
        obtain ⟨rfl, -⟩ := List.cons.inj hrest
        exact absurd (by simp [hr]) ha

/-- Fixed-width big-endian integers below the width. -/
theorem delimits_beBytes (w : ℕ) : Delimits {n | n < 256 ^ w} (beBytes w) id :=
  Delimits.of_length (fun n _ => length_beBytes w n) fun _ hm _ hn h => beBytes_inj hm hn h

/-- Fixed-width little-endian integers below the width. -/
theorem delimits_leBytes (w : ℕ) : Delimits {n | n < 256 ^ w} (leBytes w) id :=
  Delimits.of_length (fun n _ => length_leBytes w n) fun _ hm _ hn h => leBytes_inj hm hn h

/-- An optional field: one symbol for absence, another one in front of a value. -/
theorem delimits_optional {V : Set α} {enc : α → List σ} (h : Delimits V enc id)
    (absent present : σ) (hne : absent ≠ present) :
    Delimits {o : Option α | ∀ a ∈ o, a ∈ V}
      (fun o => o.elim [absent] (fun a => present :: enc a)) id := by
  intro o ho o' ho' s t heq
  cases o with
  | none =>
      cases o' with
      | none => exact ⟨rfl, (List.cons.inj heq).2⟩
      | some b => exact absurd (List.cons.inj heq).1 hne
  | some a =>
      cases o' with
      | none => exact absurd (List.cons.inj heq).1.symm hne
      | some b =>
          obtain ⟨hab, hst⟩ := h (ho a rfl) (ho' b rfl) (List.cons.inj heq).2
          exact ⟨congrArg some hab, hst⟩

/-! ## Machine words, arrays and enumerations -/

theorem delimits_u32 : Delimits Set.univ (fun v : UInt32 => beBytes 4 v.toNat) id :=
  ((delimits_beBytes 4).comap UInt32.toNat fun v _ => v.toNat_lt).map
    fun _ _ _ _ h => UInt32.toNat_inj.mp h

theorem delimits_u64 : Delimits Set.univ (fun v : UInt64 => beBytes 8 v.toNat) id :=
  ((delimits_beBytes 8).comap UInt64.toNat fun v _ => v.toNat_lt).map
    fun _ _ _ _ h => UInt64.toNat_inj.mp h

/-- A fixed-width array. -/
theorem delimits_vector (n : ℕ) :
    Delimits Set.univ (fun v : Vector UInt8 n => v.toList) id :=
  Delimits.of_length (n := n) (fun v _ => by simp) fun _ _ _ _ h => Vector.toList_inj.mp h

/-- A discriminant byte. -/
theorem delimits_discriminant {discriminant : α → UInt8}
    (h : Function.Injective discriminant) :
    Delimits Set.univ (fun a => [discriminant a]) id :=
  Delimits.of_length (n := 1) (fun _ _ => rfl) fun _ _ _ _ heq => h (List.singleton_inj.mp heq)

end Framing
