import Mathlib.Algebra.Ring.Nat
import Mathlib.Data.List.Basic
import Mathlib.Data.List.Sort

/-! Segments of a list with the positions where they start, and the tokens of a list: the nonempty
segments between its delimiters. -/

namespace Segments

variable {α β : Type*}

/-! ### Segments one after another -/

section Placed

variable (size : β → Nat)

/-- The segments `xs` with their positions, when the first one is at `n`. -/
def placed : Nat → List β → List (Nat × β)
  | _, [] => []
  | n, x :: xs => (n, x) :: placed (n + size x) xs

/-- Where the segment after `xs` is. -/
def after (n : Nat) (xs : List β) : Nat := n + (xs.map size).sum

variable {size}

theorem after_cons (n : Nat) (x : β) (xs : List β) :
    after size n (x :: xs) = after size (n + size x) xs := by
  simp only [after, List.map_cons, List.sum_cons]
  omega

theorem placed_append (n : Nat) (xs ys : List β) :
    placed size n (xs ++ ys) = placed size n xs ++ placed size (after size n xs) ys := by
  induction xs generalizing n with
  | nil => rfl
  | cons x xs ih =>
    rw [List.cons_append, placed, placed, ih, after_cons]
    rfl

theorem le_of_mem_placed {n : Nat} {xs : List β} {p : Nat × β} (h : p ∈ placed size n xs) :
    n ≤ p.1 := by
  induction xs generalizing n with
  | nil => cases h
  | cons x xs ih =>
    rcases List.mem_cons.mp h with rfl | h
    · exact Nat.le_refl _
    · exact (Nat.le_add_right _ _).trans (ih h)

/-- A segment ends where the next one starts or before. -/
theorem pairwise_placed (n : Nat) (xs : List β) :
    (placed size n xs).Pairwise fun p q => p.1 + size p.2 ≤ q.1 := by
  induction xs generalizing n with
  | nil => exact .nil
  | cons x xs ih => exact .cons (fun _ hq => le_of_mem_placed hq) (ih _)

theorem mem_placed {n : Nat} {xs : List β} {p : Nat × β} :
    p ∈ placed size n xs ↔ ∃ l r, xs = l ++ p.2 :: r ∧ p.1 = after size n l := by
  constructor
  · intro h
    induction xs generalizing n with
    | nil => cases h
    | cons x xs ih =>
      rcases List.mem_cons.mp h with rfl | h
      · exact ⟨[], xs, rfl, rfl⟩
      · obtain ⟨l, r, hxs, hp⟩ := ih h
        exact ⟨x :: l, r, by rw [hxs, List.cons_append], by rw [hp, after_cons]⟩
  · rintro ⟨l, r, hxs, hp⟩
    rw [hxs, placed_append, placed, ← hp]
    exact List.mem_append_right _ List.mem_cons_self

theorem after_eq_length (f : β → List α) (n : Nat) (xs : List β) :
    after (fun x => (f x).length) n xs = n + (xs.flatMap f).length := by
  rw [after, List.length_flatMap]

/-- A slice of the whole that lies inside one segment is a slice of the segment. -/
theorem slice_within {L w R F c G : List α} (h : L ++ w ++ R = F ++ c ++ G)
    (hle : F.length ≤ L.length) (hge : L.length + w.length ≤ F.length + c.length) :
    ∃ l r, c = l ++ w ++ r ∧ L = F ++ l ∧ R = r ++ G := by
  rw [List.append_assoc, List.append_assoc] at h
  obtain ⟨l, rfl⟩ : F <+: L :=
    List.prefix_of_prefix_length_le (List.prefix_append F (c ++ G)) ⟨w ++ R, h⟩ hle
  rw [List.append_assoc, List.append_cancel_left_eq, ← List.append_assoc] at h
  have hlen : (l ++ w).length ≤ c.length := by
    rw [List.length_append] at hge ⊢
    omega
  obtain ⟨r, rfl⟩ : l ++ w <+: c :=
    List.prefix_of_prefix_length_le ⟨R, h⟩ (List.prefix_append c G) hlen
  rw [List.append_assoc (l ++ w), List.append_cancel_left_eq] at h
  exact ⟨l, r, rfl, rfl, h⟩

end Placed

/-! ### Tokens -/

section Tokens

variable (p : α → Bool)

/-- The segments between the delimiters, which satisfy `p`. -/
def pieces (n : Nat) (xs : List α) : List (Nat × List α) :=
  placed (fun t => t.length + 1) n (xs.splitOnP p)

/-- The tokens of a list whose first element is at position `n`. -/
def tokens (n : Nat) (xs : List α) : List (Nat × List α) :=
  (pieces p n xs).filter fun t => !t.2.isEmpty

variable {p}

theorem after_splitOnP (n : Nat) (xs : List α) :
    after (fun t => t.length + 1) n (xs.splitOnP p) = n + xs.length + 1 := by
  induction xs generalizing n with
  | nil => rfl
  | cons x xs ih =>
    rw [List.splitOnP_cons_eq_if_modifyHead]
    split
    · rw [after_cons, ih]
      simp only [List.length_nil, List.length_cons]
      omega
    · obtain ⟨h, t, ht⟩ := List.exists_cons_of_ne_nil (List.splitOnP_ne_nil p xs)
      have hrest := ih (n + 1)
      rw [ht, after_cons] at hrest
      rw [ht, List.modifyHead_cons, after_cons, List.length_cons, List.length_cons,
        show n + (h.length + 1 + 1) = n + 1 + (h.length + 1) by omega, hrest]
      omega

theorem pieces_append_cons (n : Nat) (xs ys : List α) {d : α} (hd : p d = true) :
    pieces p n (xs ++ d :: ys) = pieces p n xs ++ pieces p (n + xs.length + 1) ys := by
  rw [pieces, List.splitOnP_append_cons _ _ hd, placed_append, after_splitOnP]
  rfl

theorem pieces_of_forall_not {n : Nat} {w : List α} (hw : ∀ x ∈ w, p x = false) :
    pieces p n w = [(n, w)] := by
  rw [pieces, List.splitOnP_eq_singleton hw]
  rfl

theorem pieces_cons_of_not (n : Nat) {x : α} (xs : List α) (hx : p x = false) :
    ∃ h ts, pieces p (n + 1) xs = (n + 1, h) :: ts ∧ pieces p n (x :: xs) = (n, x :: h) :: ts := by
  obtain ⟨h, t, ht⟩ := List.exists_cons_of_ne_nil (List.splitOnP_ne_nil p xs)
  refine ⟨h, placed (fun t => t.length + 1) (n + 1 + (h.length + 1)) t, ?_, ?_⟩
  · rw [pieces, ht, placed]
  · rw [pieces, List.splitOnP_cons_eq_if_modifyHead, if_neg (by simp [hx]), ht,
      List.modifyHead_cons, placed, List.length_cons,
      show n + (h.length + 1 + 1) = n + 1 + (h.length + 1) by omega]

/-- Every piece is where its position says. -/
theorem pieces_slice {n : Nat} {xs : List α} {t : Nat × List α} (h : t ∈ pieces p n xs) :
    ∃ l r, xs = l ++ t.2 ++ r ∧ t.1 = n + l.length := by
  induction xs generalizing n t with
  | nil =>
    rw [List.mem_singleton.mp h]
    exact ⟨[], [], rfl, rfl⟩
  | cons x xs ih =>
    have hlater : ∀ u ∈ pieces p (n + 1) xs,
        ∃ l r, x :: xs = l ++ u.2 ++ r ∧ u.1 = n + l.length := by
      intro u hu
      obtain ⟨l, r, hxs, hpos⟩ := ih hu
      refine ⟨x :: l, r, by rw [hxs, List.cons_append, List.cons_append], ?_⟩
      rw [hpos, List.length_cons]
      omega
    by_cases hx : p x = true
    · have hsplit := pieces_append_cons n [] xs hx
      rw [List.nil_append] at hsplit
      rw [hsplit] at h
      rcases List.mem_append.mp h with h | h
      · rw [List.mem_singleton.mp h]
        exact ⟨[], x :: xs, rfl, rfl⟩
      · exact hlater t h
    · obtain ⟨w, ts, hrest, hcons⟩ := pieces_cons_of_not n xs (eq_false_of_ne_true hx)
      rw [hcons] at h
      rcases List.mem_cons.mp h with rfl | h
      · -- The first piece of the rest begins where the rest does.
        obtain ⟨l, r, hxs, hpos⟩ := ih (hrest ▸ List.mem_cons_self)
        obtain rfl : l = [] := List.eq_nil_of_length_eq_zero (by simp only at hpos; omega)
        exact ⟨[], r, by rw [hxs]; rfl, rfl⟩
      · exact hlater t (hrest ▸ List.mem_cons_of_mem _ h)

theorem tokens_slice {n : Nat} {xs : List α} {t : Nat × List α} (h : t ∈ tokens p n xs) :
    ∃ l r, xs = l ++ t.2 ++ r ∧ t.1 = n + l.length :=
  pieces_slice (List.mem_of_mem_filter h)

/-- What stands between delimiters, or between a delimiter and an end, is a token. -/
theorem mem_tokens {n : Nat} {l w r : List α} (hne : w ≠ []) (hw : ∀ x ∈ w, p x = false)
    (hl : ∀ d ∈ l.getLast?, p d = true) (hr : ∀ d ∈ r.head?, p d = true) :
    (n + l.length, w) ∈ tokens p n (l ++ w ++ r) := by
  have hright : ∀ k, (k, w) ∈ pieces p k (w ++ r) := by
    intro k
    cases r with
    | nil =>
      rw [List.append_nil, pieces_of_forall_not hw]
      exact List.mem_cons_self
    | cons d r =>
      rw [pieces_append_cons _ _ _ (hr d rfl), pieces_of_forall_not hw]
      exact List.mem_cons_self
  refine List.mem_filter.mpr ⟨?_, by simp [hne]⟩
  rcases List.eq_nil_or_concat l with rfl | ⟨l', d, rfl⟩
  · exact hright n
  · have hd : p d = true := hl d (by simp)
    have hlist : l'.concat d ++ w ++ r = l' ++ d :: (w ++ r) := by simp
    rw [hlist, pieces_append_cons _ _ _ hd, List.length_concat, ← Nat.add_assoc]
    exact List.mem_append_right _ (hright _)

theorem pairwise_tokens (n : Nat) (xs : List α) :
    (tokens p n xs).Pairwise fun t u => t.1 < u.1 := by
  refine List.Pairwise.filter _ ((pairwise_placed n _).imp fun h => ?_)
  omega

end Tokens

/-- A list in order holds all of another one in order if and only if that is what is left of it when
everything else is dropped. -/
theorem filter_mem_eq_iff {r : β → β → Prop} [Std.Irrefl r] [Std.Antisymm r] {xs ws : List β}
    [DecidablePred (· ∈ ws)] (hx : xs.Pairwise r) (hw : ws.Pairwise r) :
    xs.filter (· ∈ ws) = ws ↔ ∀ w ∈ ws, w ∈ xs := by
  constructor
  · intro h w hmem
    rw [← h] at hmem
    exact List.mem_of_mem_filter hmem
  · intro h
    refine (hx.filter _).eq_of_mem_iff hw fun w => ?_
    rw [List.mem_filter, decide_eq_true_iff]
    exact ⟨fun hw => hw.2, fun hw => ⟨h w hw, hw⟩⟩

end Segments
