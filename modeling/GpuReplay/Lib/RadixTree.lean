/-
Trees of tables, such as the page tables of a memory-management unit.

A table is a fixed number of entries, found under its page; an entry either leads to a
table one level down or does not.  A lookup goes down by one index a level, and ends at
the bottom or at the first entry that leads nowhere.

What a store to one entry does to the lookups is the subject here.  When the tables of a
tree are on distinct pages, an entry of a bottom table can be overwritten without any
other lookup seeing it, and that is `lookup_store_self` and `lookup_store_ne`.
-/
import Mathlib.Algebra.Order.Ring.Nat
import Mathlib.Data.Finset.Prod
import Mathlib.Data.List.Nodup
import Mathlib.Data.List.Pairwise

namespace RadixTree

variable {P W : Type} (child : W → Option P) (width : Nat)

/-- The entries of all tables: entry `i` of the table on page `p`. -/
abbrev Tables (P W : Type) := P → Nat → W

/-- The pages of a tree with `n` levels below its root, in pre-order. -/
def pages (t : Tables P W) : Nat → P → List P
  | 0, p => [p]
  | n + 1, p => p :: (List.range width).flatMap fun i => (child (t p i)).elim [] (pages t n)

/-- The bottom table the indices `ix` lead to; `ix h` is the index `h` levels above it. -/
def leafPage (t : Tables P W) (ix : Nat → Nat) : Nat → P → Option P
  | 0, p => some p
  | n + 1, p => (child (t p (ix (n + 1)))).bind (leafPage t ix n)

/-- The entry a lookup ends at. -/
def lookup (t : Tables P W) (ix : Nat → Nat) : Nat → P → W
  | 0, p => t p (ix 0)
  | n + 1, p => (child (t p (ix (n + 1)))).elim (t p (ix (n + 1))) (lookup t ix n)

/-- The two trees have the same entries above the bottom level. -/
def SameUpper (t t' : Tables P W) : Nat → P → Prop
  | 0, _ => True
  | n + 1, p => (∀ i, i < width → t' p i = t p i) ∧
      ∀ i, i < width → ∀ q, child (t p i) = some q → SameUpper t t' n q

variable {child width} {t t' t'' : Tables P W} {ix ix' : Nat → Nat}

/-! ### The pages of a tree -/

theorem root_mem_pages (n : Nat) (p : P) : p ∈ pages child width t n p := by
  cases n with
  | zero => exact List.mem_cons_self
  | succ n => exact List.mem_cons_self

theorem mem_pages_succ {n i : Nat} {p q r : P} (hi : i < width) (hq : child (t p i) = some q)
    (hr : r ∈ pages child width t n q) :
    r ∈ (List.range width).flatMap fun i => (child (t p i)).elim [] (pages child width t n) := by
  refine List.mem_flatMap.mpr ⟨i, List.mem_range.mpr hi, ?_⟩
  rw [hq]
  exact hr

theorem mem_pages_child {n i : Nat} {p q r : P} (hi : i < width) (hq : child (t p i) = some q)
    (hr : r ∈ pages child width t n q) : r ∈ pages child width t (n + 1) p :=
  List.mem_cons_of_mem _ (mem_pages_succ hi hq hr)

/-- In a tree on distinct pages the root is on none of the others, ... -/
theorem root_ne {n i : Nat} {p q r : P} (h : (pages child width t (n + 1) p).Nodup) (hi : i < width)
    (hq : child (t p i) = some q) (hr : r ∈ pages child width t n q) : p ≠ r := by
  rintro rfl
  exact (List.nodup_cons.mp h).1 (mem_pages_succ hi hq hr)

/-- ... the tree of a child is on distinct pages, ... -/
theorem nodup_child {n i : Nat} {p q : P} (h : (pages child width t (n + 1) p).Nodup)
    (hi : i < width) (hq : child (t p i) = some q) : (pages child width t n q).Nodup := by
  have hsub := (List.nodup_flatMap.mp (List.nodup_cons.mp h).2).1 i (List.mem_range.mpr hi)
  rwa [hq] at hsub

/-- ... and two children share no page. -/
theorem child_disjoint {n i j : Nat} {p q r s : P} (h : (pages child width t (n + 1) p).Nodup)
    (hi : i < width) (hj : j < width) (hij : i ≠ j) (hq : child (t p i) = some q)
    (hr : child (t p j) = some r) (hs : s ∈ pages child width t n q) :
    s ∉ pages child width t n r := by
  intro hs'
  have hpairs := (List.nodup_flatMap.mp (List.nodup_cons.mp h).2).2
  have : Std.Symm (Function.onFun List.Disjoint fun i =>
      (child (t p i)).elim [] (pages child width t n)) := ⟨fun _ _ hab _ ha hb => hab hb ha⟩
  have hdisjoint := hpairs.forall (List.mem_range.mpr hi) (List.mem_range.mpr hj) hij
  refine hdisjoint (a := s) ?_ ?_
  · show s ∈ (child (t p i)).elim [] _
    rw [hq]
    exact hs
  · show s ∈ (child (t p j)).elim [] _
    rw [hr]
    exact hs'

/-! ### Lookups -/

theorem leafPage_mem (hix : ∀ h, ix h < width) :
    ∀ {n : Nat} {p q : P}, leafPage child t ix n p = some q → q ∈ pages child width t n p := by
  intro n
  induction n with
  | zero =>
      intro p q h
      rw [Option.some.inj h]
      exact root_mem_pages 0 q
  | succ n ih =>
      intro p q h
      obtain ⟨r, hr, hq⟩ := Option.bind_eq_some_iff.mp h
      exact mem_pages_child (hix _) hr (ih hq)

theorem lookup_of_leafPage :
    ∀ {n : Nat} {p q : P}, leafPage child t ix n p = some q → lookup child t ix n p = t q (ix 0) := by
  intro n
  induction n with
  | zero =>
      intro p q h
      rw [← Option.some.inj h]
      rfl
  | succ n ih =>
      intro p q h
      obtain ⟨r, hr, hq⟩ := Option.bind_eq_some_iff.mp h
      rw [lookup, hr]
      exact ih hq

/-- **A bottom table is reached by one sequence of indices only.** -/
theorem leafPage_inj (hix : ∀ h, ix h < width) (hix' : ∀ h, ix' h < width) :
    ∀ {n : Nat} {p q : P}, (pages child width t n p).Nodup → leafPage child t ix n p = some q →
      leafPage child t ix' n p = some q → ∀ h, 1 ≤ h → h ≤ n → ix h = ix' h := by
  intro n
  induction n with
  | zero =>
      intro p q _ _ _ h hpos hle
      omega
  | succ n ih =>
      intro p q hnodup h h'
      obtain ⟨r, hr, hq⟩ := Option.bind_eq_some_iff.mp h
      obtain ⟨r', hr', hq'⟩ := Option.bind_eq_some_iff.mp h'
      have htop : ix (n + 1) = ix' (n + 1) := by
        by_contra hne
        exact child_disjoint hnodup (hix _) (hix' _) hne hr hr' (leafPage_mem hix hq)
          (leafPage_mem hix' hq')
      rw [← htop, hr] at hr'
      obtain rfl := Option.some.inj hr'
      intro k hpos hle
      rcases Nat.lt_or_eq_of_le hle with hlt | rfl
      · exact ih (nodup_child hnodup (hix _) hr) hq hq' k hpos (Nat.le_of_lt_succ hlt)
      · exact htop

/-- **There are no more bottom entries than the pages have room for.** -/
theorem leafPages_le {n m : Nat} {p : P} {ixs : Nat → Nat → Nat} (hix : ∀ j h, ixs j h < width)
    (hnodup : (pages child width t n p).Nodup)
    (hleaf : ∀ j, j < m → ∃ q, leafPage child t (ixs j) n p = some q)
    (hdiffer : ∀ i < m, ∀ j < m, (∀ h, h ≤ n → ixs i h = ixs j h) → i = j) :
    m ≤ width * (pages child width t n p).length := by
  classical
  -- the bottom table of each, and the place in it
  have hmaps : ∀ j ∈ Finset.range m, (leafPage child t (ixs j) n p, ixs j 0) ∈
      ((pages child width t n p).map some).toFinset ×ˢ Finset.range width := by
    intro j hj
    obtain ⟨q, hq⟩ := hleaf j (Finset.mem_range.mp hj)
    rw [hq]
    exact Finset.mem_product.mpr
      ⟨List.mem_toFinset.mpr (List.mem_map_of_mem (leafPage_mem (hix j) hq)),
        Finset.mem_range.mpr (hix j 0)⟩
  have hinj : ∀ i ∈ Finset.range m, ∀ j ∈ Finset.range m,
      (leafPage child t (ixs i) n p, ixs i 0) = (leafPage child t (ixs j) n p, ixs j 0) → i = j := by
    intro i hi j hj hsame
    obtain ⟨q, hq⟩ := hleaf i (Finset.mem_range.mp hi)
    obtain ⟨htable, hindex⟩ := Prod.mk.inj hsame
    refine hdiffer i (Finset.mem_range.mp hi) j (Finset.mem_range.mp hj) fun h hle => ?_
    cases h with
    | zero => exact hindex
    | succ h =>
        exact leafPage_inj (hix i) (hix j) hnodup hq (htable.symm.trans hq) (h + 1)
          (Nat.succ_le_succ (Nat.zero_le h)) hle
  have hcard := Finset.card_le_card_of_injOn _ hmaps fun i hi j hj =>
    hinj i (Finset.mem_coe.mp hi) j (Finset.mem_coe.mp hj)
  rw [Finset.card_range, Finset.card_product, Finset.card_range] at hcard
  have hlength := List.toFinset_card_le ((pages child width t n p).map some)
  rw [List.length_map] at hlength
  calc m ≤ ((pages child width t n p).map some).toFinset.card * width := hcard
    _ ≤ (pages child width t n p).length * width := Nat.mul_le_mul_right width hlength
    _ = width * (pages child width t n p).length := Nat.mul_comm _ _

/-! ### Changes to the bottom level -/

theorem SameUpper.refl (n : Nat) : ∀ p, SameUpper child width t t n p := by
  induction n with
  | zero => exact fun _ => trivial
  | succ n ih => exact fun p => ⟨fun _ _ => rfl, fun _ _ q _ => ih q⟩

theorem SameUpper.trans :
    ∀ {n : Nat} {p : P}, SameUpper child width t t' n p → SameUpper child width t' t'' n p →
      SameUpper child width t t'' n p := by
  intro n
  induction n with
  | zero => exact fun _ _ => trivial
  | succ n ih =>
      intro p h h'
      refine ⟨fun i hi => (h'.1 i hi).trans (h.1 i hi), fun i hi q hq => ?_⟩
      exact ih (h.2 i hi q hq) (h'.2 i hi q (by rw [h.1 i hi]; exact hq))

/-- Trees with the same entries on all their pages. -/
theorem sameUpper_of_pages :
    ∀ {n : Nat} {p : P}, (∀ q ∈ pages child width t n p, ∀ i, i < width → t' q i = t q i) →
      SameUpper child width t t' n p := by
  intro n
  induction n with
  | zero => exact fun _ => trivial
  | succ n ih =>
      intro p h
      exact ⟨h p (root_mem_pages _ p),
        fun i hi q hq => ih fun r hr => h r (mem_pages_child hi hq hr)⟩

/-- **A change to one bottom table leaves the levels above it.** -/
theorem sameUpper_of_leaf (hix : ∀ h, ix h < width) :
    ∀ {n : Nat} {p q₀ : P}, (pages child width t n p).Nodup → leafPage child t ix n p = some q₀ →
      (∀ q ∈ pages child width t n p, q ≠ q₀ → ∀ i, i < width → t' q i = t q i) →
      SameUpper child width t t' n p := by
  intro n
  induction n with
  | zero => exact fun _ _ _ => trivial
  | succ n ih =>
      intro p q₀ hnodup hleaf hsame
      obtain ⟨r, hr, hq₀⟩ := Option.bind_eq_some_iff.mp hleaf
      have hmem := leafPage_mem hix hq₀
      refine ⟨hsame p (root_mem_pages _ p) (root_ne hnodup (hix _) hr hmem), fun i hi q hq => ?_⟩
      by_cases hidx : i = ix (n + 1)
      · rw [hidx, hr] at hq
        obtain rfl := Option.some.inj hq
        exact ih (nodup_child hnodup (hix _) hr) hq₀
          fun s hs => hsame s (mem_pages_child (hix _) hr hs)
      · refine sameUpper_of_pages fun s hs => hsame s (mem_pages_child hi hq hs) ?_
        rintro rfl
        exact child_disjoint hnodup hi (hix _) hidx hq hr hs hmem

/-- A change to bottom tables only leaves the levels above them. -/
theorem SameUpper.of_notLeaf :
    ∀ {n : Nat} {p : P}, (pages child width t n p).Nodup → SameUpper child width t t' n p →
      (∀ q ∈ pages child width t n p,
        (∀ ix : Nat → Nat, (∀ h, ix h < width) → leafPage child t ix n p ≠ some q) →
        ∀ i, i < width → t'' q i = t' q i) →
      SameUpper child width t t'' n p := by
  intro n
  induction n with
  | zero => exact fun _ _ _ => trivial
  | succ n ih =>
      intro p hnodup hupper hsame
      have hroot : ∀ ix : Nat → Nat, (∀ h, ix h < width) → leafPage child t ix (n + 1) p ≠ some p := by
        intro ix hix hleaf
        obtain ⟨q, hq, hbelow⟩ := Option.bind_eq_some_iff.mp hleaf
        exact root_ne hnodup (hix _) hq (leafPage_mem hix hbelow) rfl
      refine ⟨fun i hi => (hsame p (root_mem_pages _ p) hroot i hi).trans (hupper.1 i hi),
        fun i hi q hq => ih (nodup_child hnodup hi hq) (hupper.2 i hi q hq) fun r hr hnot => ?_⟩
      refine hsame r (mem_pages_child hi hq hr) fun ix hix hleaf => ?_
      -- the leaf is below this child or below another
      obtain ⟨q', hq', hbelow⟩ := Option.bind_eq_some_iff.mp hleaf
      by_cases hidx : i = ix (n + 1)
      · rw [← hidx, hq] at hq'
        obtain rfl := Option.some.inj hq'
        exact hnot ix hix hbelow
      · exact child_disjoint hnodup hi (hix _) hidx hq hq' hr (leafPage_mem hix hbelow)

theorem SameUpper.pages_eq :
    ∀ {n : Nat} {p : P}, SameUpper child width t t' n p →
      pages child width t' n p = pages child width t n p := by
  intro n
  induction n with
  | zero => exact fun _ => rfl
  | succ n ih =>
      intro p h
      have hchildren : ∀ i ∈ List.range width,
          (child (t' p i)).elim [] (pages child width t' n)
            = (child (t p i)).elim [] (pages child width t n) := by
        intro i hi
        rw [h.1 i (List.mem_range.mp hi)]
        cases hq : child (t p i) with
        | none => rfl
        | some q => exact ih (h.2 i (List.mem_range.mp hi) q hq)
      rw [pages, pages, List.flatMap_congr hchildren]

theorem SameUpper.leafPage_eq (hix : ∀ h, ix h < width) :
    ∀ {n : Nat} {p : P}, SameUpper child width t t' n p →
      leafPage child t' ix n p = leafPage child t ix n p := by
  intro n
  induction n with
  | zero => exact fun _ => rfl
  | succ n ih =>
      intro p h
      rw [leafPage, leafPage, h.1 _ (hix _)]
      cases hq : child (t p (ix (n + 1))) with
      | none => rfl
      | some q => exact ih (h.2 _ (hix _) q hq)

/-- A lookup that ends above the bottom level does not see it. -/
theorem SameUpper.lookup_eq (hix : ∀ h, ix h < width) :
    ∀ {n : Nat} {p : P}, SameUpper child width t t' n p → leafPage child t ix n p = none →
      lookup child t' ix n p = lookup child t ix n p := by
  intro n
  induction n with
  | zero => exact fun _ hnone => absurd hnone (by rw [leafPage]; exact Option.some_ne_none _)
  | succ n ih =>
      intro p h hnone
      rw [lookup, lookup, h.1 _ (hix _)]
      cases hq : child (t p (ix (n + 1))) with
      | none => rfl
      | some q =>
          rw [leafPage, hq] at hnone
          exact ih (h.2 _ (hix _) q hq) hnone

/-! ### A store to one entry -/

section Store

variable {n : Nat} {p q₀ : P} (hix : ∀ h, ix h < width) (hix' : ∀ h, ix' h < width)
  (hnodup : (pages child width t n p).Nodup) (hleaf : leafPage child t ix n p = some q₀)
  (hsame : ∀ q ∈ pages child width t n p, ∀ i, i < width → q ≠ q₀ ∨ i ≠ ix 0 → t' q i = t q i)

include hix hnodup hleaf hsame

theorem sameUpper_store : SameUpper child width t t' n p :=
  sameUpper_of_leaf hix hnodup hleaf fun q hq hne i hi => hsame q hq i hi (.inl hne)

include hix' in
/-- **The lookup with the same indices sees the store.** -/
theorem lookup_store_self (hagree : ∀ h, h ≤ n → ix' h = ix h) :
    lookup child t' ix' n p = t' q₀ (ix 0) := by
  have hpath : ∀ {m : Nat} {r : P}, m ≤ n → leafPage child t ix' m r = leafPage child t ix m r := by
    intro m
    induction m with
    | zero => exact fun _ => rfl
    | succ m ih =>
        intro r hm
        rw [leafPage, leafPage, hagree _ hm]
        cases child (t r (ix (m + 1))) with
        | none => rfl
        | some q => exact ih (Nat.le_of_succ_le hm)
  have hupper := sameUpper_store hix hnodup hleaf hsame
  rw [lookup_of_leafPage ((hupper.leafPage_eq hix').trans ((hpath (Nat.le_refl n)).trans hleaf)),
    hagree 0 (Nat.zero_le n)]

include hix' in
/-- **Every other lookup is as before.** -/
theorem lookup_store_ne (hdiffer : ∃ h, h ≤ n ∧ ix' h ≠ ix h) :
    lookup child t' ix' n p = lookup child t ix' n p := by
  have hupper := sameUpper_store hix hnodup hleaf hsame
  cases hq : leafPage child t ix' n p with
  | none => exact hupper.lookup_eq hix' hq
  | some q =>
      rw [lookup_of_leafPage ((hupper.leafPage_eq hix').trans hq), lookup_of_leafPage hq]
      refine hsame q (leafPage_mem hix' hq) _ (hix' 0) ?_
      by_contra hslot
      rw [not_or, not_not, not_not] at hslot
      obtain ⟨h, hle, hne⟩ := hdiffer
      rw [hslot.1] at hq
      rcases Nat.eq_zero_or_pos h with rfl | hpos
      · exact hne hslot.2
      · exact hne (leafPage_inj hix' hix hnodup hq hleaf h hpos hle)

end Store

/-- A change to pages outside the tree changes no lookup. -/
theorem lookup_of_pages (hix : ∀ h, ix h < width) {n : Nat} {p : P}
    (h : ∀ q ∈ pages child width t n p, ∀ i, i < width → t' q i = t q i) :
    lookup child t' ix n p = lookup child t ix n p := by
  have hupper : SameUpper child width t t' n p := sameUpper_of_pages h
  cases hq : leafPage child t ix n p with
  | none => exact hupper.lookup_eq hix hq
  | some q =>
      rw [lookup_of_leafPage ((hupper.leafPage_eq hix).trans hq), lookup_of_leafPage hq]
      exact h q (leafPage_mem hix hq) _ (hix 0)

/-! ### Where a lookup ends -/

/-- How many levels above the bottom a lookup ends, and the entry it ends at. -/
def ending (child : W → Option P) (t : Tables P W) (ix : Nat → Nat) : Nat → P → Nat × W
  | 0, p => (0, t p (ix 0))
  | n + 1, p => (child (t p (ix (n + 1)))).elim (n + 1, t p (ix (n + 1))) (ending child t ix n)

theorem ending_lookup (n : Nat) (p : P) : (ending child t ix n p).2 = lookup child t ix n p := by
  induction n generalizing p with
  | zero => rfl
  | succ n ih =>
      unfold ending lookup
      cases child (t p (ix (n + 1))) with
      | none => rfl
      | some q => exact ih q

/-- Above the bottom it ends at an entry that leads nowhere. -/
theorem child_ending {n : Nat} {p : P} (h : (ending child t ix n p).1 ≠ 0) :
    child (ending child t ix n p).2 = none := by
  induction n generalizing p with
  | zero => exact absurd rfl h
  | succ n ih =>
      unfold ending at h ⊢
      cases hq : child (t p (ix (n + 1))) with
      | none => exact hq
      | some q =>
          rw [hq] at h
          exact ih h

/-- A change to pages outside the tree changes no ending. -/
theorem ending_of_pages (hix : ∀ h, ix h < width) {n : Nat} {p : P}
    (h : ∀ q ∈ pages child width t n p, ∀ i, i < width → t' q i = t q i) :
    ending child t' ix n p = ending child t ix n p := by
  induction n generalizing p with
  | zero => exact congrArg (Prod.mk 0) (h p (root_mem_pages 0 p) _ (hix 0))
  | succ n ih =>
      have hroot := h p (root_mem_pages (n + 1) p) _ (hix (n + 1))
      unfold ending
      rw [hroot]
      cases hq : child (t p (ix (n + 1))) with
      | none => rfl
      | some q => exact ih fun r hr => h r (mem_pages_child (hix (n + 1)) hq hr)

end RadixTree
