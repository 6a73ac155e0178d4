/-
What cleaning the invalid regions does, and when it ends.

The cleaner counts the pages of a region, but writes through the address of each: the lookup
has to find the region again, and the copy the page.  In a table of disjoint regions that have
no more pages than they have room for it does, so a turn of the loop is a write of zeros to the
region's next frame and nothing else.  The counter is the flaw.  It has 32 bits, and a region
of `2 ^ 32` pages or more is cleaned for ever; up to there the loop is the one without a bound.
-/
import GpuReplay.Proofs.MemCheck

namespace GpuReplay.Replayer

open ByteMem

/-! ### The counter -/

section Endless

variable {regions : List Region} {r : Region} (h : LookedUp regions r)

include h

/-- **A region of `2 ^ 32` pages or more** is never done. -/
theorem cleanPages_endless (hmany : 2 ^ 32 ≤ r.nrPages) :
    ∀ {fuel j : Nat} {mem : ByteMem}, j < 2 ^ 32 →
      cleanPages regions r fuel j mem = none := by
  intro fuel
  induction fuel with
  | zero => exact fun _ => rfl
  | succ fuel ih =>
      intro j mem hj
      have hin : j < r.pages.length := by
        rw [h.length]
        omega
      have hone := h.copy_zeroPage (List.getElem?_eq_getElem hin) mem
      rw [zeroPage] at hone
      rw [cleanPages, if_pos (by omega), hone]
      exact ih (Nat.mod_lt _ (by decide))

theorem cleanPages_ne_error :
    ∀ {fuel j : Nat} {mem : ByteMem} {e : Stop},
      cleanPages regions r fuel j mem ≠ some (.error e) := by
  intro fuel
  induction fuel with
  | zero => exact fun heq => by cases heq
  | succ fuel ih =>
      intro j mem e heq
      rw [cleanPages] at heq
      by_cases hend : j < r.nrPages
      · have hin : j < r.pages.length := h.length.symm ▸ hend
        have hone := h.copy_zeroPage (List.getElem?_eq_getElem hin) mem
        rw [zeroPage] at hone
        rw [if_pos hend, hone] at heq
        exact ih heq
      · rw [if_neg hend] at heq
        cases heq

end Endless

/-- However much fuel there is, cleaning does not abort, and it returns only where the loop over
each region's pages ends. -/
theorem cleanRegions_outcome {regions : List Region} {fuel : Nat} :
    ∀ {rs : List Region} {mem : ByteMem}, (∀ r ∈ rs, LookedUp regions r) →
      cleanRegions regions fuel rs mem = none
        ∨ ((∃ mem', cleanRegions regions fuel rs mem = some (.ok mem'))
          ∧ ∀ r ∈ rs, r.isValid = 0 → r.nrPages < 2 ^ 32) := by
  intro rs
  induction rs with
  | nil => exact fun _ => .inr ⟨⟨_, rfl⟩, fun r hr => absurd hr List.not_mem_nil⟩
  | cons r rs ih =>
      intro mem hall
      obtain ⟨hr, hrest⟩ := List.forall_mem_cons.mp hall
      rw [cleanRegions]
      by_cases hvalid : r.isValid = 0
      · rw [if_pos hvalid]
        cases hpages : cleanPages regions r fuel 0 mem with
        | none => exact .inl rfl
        | some result =>
            cases result with
            | error e => exact absurd hpages (cleanPages_ne_error hr)
            | ok mem₁ =>
                have hfew : r.nrPages < 2 ^ 32 := by
                  refine Nat.lt_of_not_le fun hmany => ?_
                  rw [cleanPages_endless hr hmany (by decide)] at hpages
                  cases hpages
                rcases @ih mem₁ hrest with hnone | ⟨hok, hfewrest⟩
                · exact .inl hnone
                · exact .inr ⟨hok, List.forall_mem_cons.mpr ⟨fun _ => hfew, hfewrest⟩⟩
      · rw [if_neg hvalid]
        rcases @ih mem hrest with hnone | ⟨hok, hfewrest⟩
        · exact .inl hnone
        · exact .inr ⟨hok, List.forall_mem_cons.mpr ⟨fun hzero => absurd hzero hvalid, hfewrest⟩⟩

/-! ### When cleaning works -/

/-- Page-aligned, pairwise disjoint regions with page-aligned frames of their own, none of more
pages than its range has room for. -/
structure PartlyMapped (regions : List Region) : Prop where
  aligned : ∀ r ∈ regions, r.gmStart % 4096 = 0 ∧ r.gmEnd % 4096 = 0
  bounded : ∀ r ∈ regions, r.gmStart ≤ r.gmEnd ∧ r.gmEnd < 2 ^ 64
  disjoint : regions.Pairwise fun r s => ∀ a, ¬(r.Encloses a ∧ s.Encloses a)
  room : ∀ r ∈ regions, r.nrPages * 4096 ≤ r.gmEnd - r.gmStart
  length : ∀ r ∈ regions, r.pages.length = r.nrPages
  frames : ∀ r ∈ regions, ∀ f ∈ r.pages, f % 4096 = 0
  distinct : (regions.flatMap Region.pages).Nodup

theorem PartlyMapped.lookedUp {regions : List Region} (h : PartlyMapped regions) {r : Region}
    (hr : r ∈ regions) : LookedUp regions r where
  start_aligned := (h.aligned r hr).1
  end_lt := (h.bounded r hr).2
  frames := h.frames r hr
  length := h.length r hr
  room := by
    have hle := (h.bounded r hr).1
    have hroom := h.room r hr
    rw [h.length r hr]
    omega
  lookup := fun _ ha => grFindRegion_unique h.disjoint hr ha

theorem mem_invalidPages {rs : List Region} {f : Nat} :
    f ∈ invalidPages rs ↔ ∃ r ∈ rs, r.isValid = 0 ∧ f ∈ r.pages := by
  unfold invalidPages
  rw [List.mem_flatMap]
  refine exists_congr fun r => and_congr_right fun _ => ?_
  by_cases hvalid : r.isValid = 0
  · rw [if_pos hvalid]
    exact (and_iff_right hvalid).symm
  · rw [if_neg hvalid]
    exact iff_of_false List.not_mem_nil fun h => hvalid h.1

/-- Cleaning returns with every byte of every frame of the invalid regions zero and every other
byte as it was, and never aborts. -/
def CleansInvalid (regions : List Region) (mem : ByteMem) : Prop :=
  (∃ fuel mem', grCleanInvalidRegion regions fuel mem = some (.ok mem')
    ∧ (∀ r ∈ regions, r.isValid = 0 → ∀ f ∈ r.pages, ∀ k < 4096, mem' (f + k) = 0)
    ∧ ∀ p, (∀ r ∈ regions, r.isValid = 0 → ∀ f ∈ r.pages, ¬(f ≤ p ∧ p < f + 4096)) →
        mem' p = mem p)
  ∧ ∀ fuel e, grCleanInvalidRegion regions fuel mem ≠ some (.error e)

/-- **Cleaning works exactly where no invalid region has `2 ^ 32` pages or more**; with one that
has, it never returns. -/
theorem cleansInvalid_iff {regions : List Region} (h : PartlyMapped regions) (mem : ByteMem) :
    CleansInvalid regions mem ↔ ∀ r ∈ regions, r.isValid = 0 → r.nrPages < 2 ^ 32 := by
  have hlooked : ∀ r ∈ regions, LookedUp regions r := fun r hr => h.lookedUp hr
  have hlen : zeroPage.length = 4096 := List.length_replicate
  constructor
  · rintro ⟨⟨fuel, mem', hrun, -⟩, -⟩
    unfold grCleanInvalidRegion at hrun
    rcases @cleanRegions_outcome regions fuel regions mem hlooked with hnone | ⟨-, hfew⟩
    · rw [hnone] at hrun
      cases hrun
    · exact hfew
  · intro hfew
    refine ⟨⟨2 ^ 32, writes (zeroWrites (invalidPages regions)) mem, ?_, ?_, ?_⟩, ?_⟩
    · unfold grCleanInvalidRegion
      rw [cleanRegions_eq fun r hr hvalid => ⟨hfew r hr hvalid, hfew r hr hvalid⟩,
        cleanRegionsUncounted_self hlooked]
    · intro r hr hvalid f hf k hk
      refine writes_apply_of_forall ?_
        ⟨_, List.mem_map_of_mem (mem_invalidPages.mpr ⟨r, hr, hvalid, hf⟩), ?_⟩
      · intro w hw c hc
        obtain ⟨frame, -, rfl⟩ := List.mem_map.mp hw
        exact List.eq_of_mem_replicate hc
      · unfold Covers
        rw [hlen]
        exact ⟨Nat.le_add_right f k, Nat.add_lt_add_left hk f⟩
    · intro p hp
      refine writes_apply_of_not_covers fun w hw hcovers => ?_
      obtain ⟨f, hf, rfl⟩ := List.mem_map.mp hw
      obtain ⟨r, hr, hvalid, hin⟩ := mem_invalidPages.mp hf
      unfold Covers at hcovers
      rw [hlen] at hcovers
      exact hp r hr hvalid f hin hcovers
    · intro fuel e hrun
      unfold grCleanInvalidRegion at hrun
      rcases @cleanRegions_outcome regions fuel regions mem hlooked
        with hnone | ⟨⟨mem', hok⟩, -⟩
      · rw [hnone] at hrun
        cases hrun
      · rw [hok] at hrun
        cases hrun

/-! ### A small table, and a region that is too large -/

/-- An invalid region of two pages in a range of three, and a valid one. -/
def smallTable : List Region :=
  [⟨0x10000, 0x13000, [0x1000, 0x5000], 2, 0, 0, 0⟩, ⟨0x20000, 0x21000, [0x3000], 1, 0, 1, 0⟩]

theorem partlyMapped_smallTable : PartlyMapped smallTable where
  aligned := by decide
  bounded := by decide
  disjoint := by
    refine List.pairwise_pair.mpr fun a => ?_
    rintro ⟨⟨-, hlt⟩, ⟨hle, -⟩⟩
    dsimp only at hlt hle
    omega
  room := by decide
  length := by decide
  frames := by decide
  distinct := by decide

theorem smallTable_cleaned : CleansInvalid smallTable fun _ => 1 :=
  (cleansInvalid_iff partlyMapped_smallTable _).mpr (by decide)

/-- An invalid region of `n` pages, which fill its range. -/
def invalidRegion (n : Nat) : Region := ⟨0, 4096 * n, (List.range n).map (4096 * ·), n, 0, 0, 0⟩

theorem partlyMapped_invalidRegion {n : Nat} (hn : 4096 * n < 2 ^ 64) :
    PartlyMapped [invalidRegion n] where
  aligned := List.forall_mem_singleton.mpr ⟨rfl, Nat.mul_mod_right 4096 n⟩
  bounded := List.forall_mem_singleton.mpr ⟨Nat.zero_le _, hn⟩
  disjoint := List.pairwise_singleton ..
  room := List.forall_mem_singleton.mpr (Nat.le_of_eq (Nat.mul_comm n 4096))
  length := List.forall_mem_singleton.mpr (by rw [invalidRegion, List.length_map, List.length_range])
  frames := by
    refine List.forall_mem_singleton.mpr fun f hf => ?_
    obtain ⟨i, -, rfl⟩ := List.mem_map.mp hf
    exact Nat.mul_mod_right 4096 i
  distinct := by
    rw [List.flatMap_singleton]
    exact List.Nodup.map (fun a b hab => Nat.eq_of_mul_eq_mul_left (by decide) hab)
      List.nodup_range

/-- No amount of turns is enough for one of `2 ^ 32` pages. -/
theorem largeRegion_not_cleaned :
    PartlyMapped [invalidRegion (2 ^ 32)] ∧ ¬CleansInvalid [invalidRegion (2 ^ 32)] (fun _ => 0)
      ∧ ∀ fuel mem, grCleanInvalidRegion [invalidRegion (2 ^ 32)] fuel mem = none := by
  have hmapped : PartlyMapped [invalidRegion (2 ^ 32)] := partlyMapped_invalidRegion (by decide)
  have hmany : 2 ^ 32 ≤ (invalidRegion (2 ^ 32)).nrPages := Nat.le_refl _
  have hvalid : (invalidRegion (2 ^ 32)).isValid = 0 := rfl
  generalize invalidRegion (2 ^ 32) = r at hmapped hmany hvalid
  have hnone : ∀ fuel mem, grCleanInvalidRegion [r] fuel mem = none := by
    intro fuel mem
    rcases @cleanRegions_outcome [r] fuel [r] mem fun s hs => hmapped.lookedUp hs
      with hnone | ⟨-, hall⟩
    · exact hnone
    · exact absurd (hall r List.mem_cons_self hvalid) (Nat.not_lt.mpr hmany)
  refine ⟨hmapped, ?_, hnone⟩
  rintro ⟨⟨fuel, mem', hrun, -⟩, -⟩
  rw [hnone] at hrun
  cases hrun

end GpuReplay.Replayer
