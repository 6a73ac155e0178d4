/-
The recorder's hook in the sync call, and the page it looks at.

The loop over the pages between counts from one whatever the number of pages, and stops at the
first page that is absent.  So the counter names the last page of the range where there are two
pages or more and all are there; else it names a page after the range, or the absent one.  What
the hook releases is the first page in every case, so what it maps it also releases only where
the range ends with the page it begins with.
-/
import GpuReplay.Driver.Syncset
import Mathlib.Tactic.Common

namespace GpuReplay

open Driver

/-- The pages of a region that are backed: the first `backed` of them. -/
def Driver.SyncRegion.BackedBy (reg : SyncRegion) (backed : Nat) : Prop :=
  ∀ i < reg.nrPages, asPhysAddr (reg.cpuPa i) ≠ 0 ↔ i < backed

/-- The hook is reached when the call is accepted. -/
def Driver.SyncRegion.Hooked (reg : SyncRegion) : Prop :=
  reg.invalidOrFree = false ∧ reg.imported = none ∧ reg.flags &&& kbaseRegCpuCached ≠ 0
    ∧ reg.sharedAlloc = true

/-- A page that is mapped is a page of the synced range that is there, and no page but it is
released. -/
def HookSound (reg : SyncRegion) (pageOff pageCount : Nat) (events : List SyncEvent) : Prop :=
  ∀ index page, .kmap index page ∈ events →
    (pageOff ≤ index ∧ index < pageOff + pageCount) ∧ asPhysAddr (reg.cpuPa index) ≠ 0
      ∧ ∀ page', .kunmap page' ∈ events → page' = page

/-! ### The counter after the loop -/

variable {reg : SyncRegion}

theorem mem_syncMiddle {pageOff : Nat} {e : SyncEvent} :
    ∀ n i, e ∈ (syncMiddle reg pageOff n i).1 →
      ∃ cpuPa gpuPa offset size, e = .syncSingle cpuPa gpuPa offset size
  | 0, i, h => nomatch h
  | n + 1, i, h => by
      rw [syncMiddle] at h
      split at h
      · cases h
      · rcases List.mem_cons.mp h with rfl | h
        · exact ⟨_, _, _, _, rfl⟩
        · exact mem_syncMiddle n (i + 1) h

/-- **Where the loop stops**: at its end, or at the first page that is absent. -/
theorem syncMiddle_stop (pageOff : Nat) :
    ∀ n i, (syncMiddle reg pageOff n i).2 = i + n
      ∨ (i ≤ (syncMiddle reg pageOff n i).2 ∧ (syncMiddle reg pageOff n i).2 < i + n
          ∧ asPhysAddr (reg.cpuPa (pageOff + (syncMiddle reg pageOff n i).2)) = 0)
  | 0, i => .inl rfl
  | n + 1, i => by
      rw [syncMiddle]
      by_cases habsent : asPhysAddr (reg.cpuPa (pageOff + i)) = 0
      · rw [if_pos habsent]
        exact .inr ⟨Nat.le_refl i, Nat.lt_add_of_pos_right (Nat.succ_pos n), habsent⟩
      · rw [if_neg habsent]
        rcases syncMiddle_stop pageOff n (i + 1) with hend | ⟨hle, hlt, hpage⟩
        · refine .inl ?_
          show (syncMiddle reg pageOff n (i + 1)).2 = i + (n + 1)
          omega
        · refine .inr ⟨?_, ?_, hpage⟩
          · show i ≤ (syncMiddle reg pageOff n (i + 1)).2
            omega
          · show (syncMiddle reg pageOff n (i + 1)).2 < i + (n + 1)
            omega

/-! ### What the hook does -/

section Hook

variable {sset : Syncset} {offset : Nat}

/-- The counter that the hook of an accepted call reads. -/
def hookCounter (reg : SyncRegion) (offset size : Nat) : Nat :=
  (syncMiddle reg (syncPageOff offset) (syncPageCount offset size - 2) 1).2

/-- The calls before the hook are all to the cache maintenance. -/
theorem syncMapping_events
    (haccepted : syncPageOff offset + syncPageCount offset sset.size ≤ reg.nrPages) :
    ∃ syncs : List SyncEvent,
      (∀ e ∈ syncs, ∃ cpuPa gpuPa offset size, e = .syncSingle cpuPa gpuPa offset size)
      ∧ syncMapping reg sset offset
        = (0, syncs ++ grSyncHook reg sset (syncPageOff offset) (offset % 4096)
            (hookCounter reg offset sset.size)) := by
  have hguard : ¬ (syncPageOff offset > reg.nrPages
      ∨ syncPageOff offset + syncPageCount offset sset.size > reg.nrPages) := by omega
  unfold syncMapping
  dsimp only
  rw [if_neg hguard]
  refine ⟨_, ?_, rfl⟩
  intro e he
  rw [List.mem_append, List.mem_append] at he
  rcases he with (hfirst | hmiddle) | hlast
  · split at hfirst
    · exact ⟨_, _, _, _, List.mem_singleton.mp hfirst⟩
    · cases hfirst
  · exact mem_syncMiddle _ _ hmiddle
  · split at hlast
    · exact ⟨_, _, _, _, List.mem_singleton.mp hlast⟩
    · cases hlast

theorem kbaseDoSyncset_hooked (h : reg.Hooked) :
    kbaseDoSyncset (some reg) (some offset) sset = syncMapping reg sset offset := by
  obtain ⟨hvalid, himported, hcached, -⟩ := h
  simp only [kbaseDoSyncset, hvalid, himported, hcached, Bool.false_eq_true, if_false]

/-- Without the hook nothing is mapped. -/
theorem kmap_not_mem {index page : Nat} (h : ¬ reg.Hooked)
    (haccepted : syncPageOff offset + syncPageCount offset sset.size ≤ reg.nrPages) :
    .kmap index page ∉ (kbaseDoSyncset (some reg) (some offset) sset).2 := by
  intro hmem
  unfold kbaseDoSyncset at hmem
  dsimp only at hmem
  split at hmem
  · cases hmem
  · rename_i hvalid
    split at hmem
    · cases hmem
    · rename_i himported
      split at hmem
      · cases hmem
      · rename_i hcached
        have hshared : reg.sharedAlloc = false := by
          cases hshared : reg.sharedAlloc with
          | false => rfl
          | true => exact absurd ⟨Bool.eq_false_iff.mpr hvalid, himported, hcached, hshared⟩ h
        obtain ⟨syncs, hsyncs, heq⟩ := @syncMapping_events reg sset offset haccepted
        rw [heq, grSyncHook, hshared] at hmem
        rcases List.mem_append.mp hmem with hmem | hmem
        · obtain ⟨_, _, _, _, hsync⟩ := hsyncs _ hmem
          cases hsync
        · cases hmem

/-- **The page that is mapped, and the page that is released.** -/
theorem hookSound_iff_pages (h : reg.Hooked)
    (haccepted : syncPageOff offset + syncPageCount offset sset.size ≤ reg.nrPages) :
    HookSound reg (syncPageOff offset) (syncPageCount offset sset.size)
        (kbaseDoSyncset (some reg) (some offset) sset).2
      ↔ hookCounter reg offset sset.size < syncPageCount offset sset.size
        ∧ asPhysAddr (reg.cpuPa (syncPageOff offset + hookCounter reg offset sset.size)) ≠ 0
        ∧ asPage (reg.cpuPa (syncPageOff offset))
          = asPage (reg.cpuPa (syncPageOff offset + hookCounter reg offset sset.size)) := by
  obtain ⟨syncs, hsyncs, heq⟩ := @syncMapping_events reg sset offset haccepted
  have hmap : ∀ index page, SyncEvent.kmap index page ∉ syncs := fun index page hmem => by
    obtain ⟨_, _, _, _, hsync⟩ := hsyncs _ hmem
    cases hsync
  have hunmap : ∀ page, SyncEvent.kunmap page ∉ syncs := fun page hmem => by
    obtain ⟨_, _, _, _, hsync⟩ := hsyncs _ hmem
    cases hsync
  rw [kbaseDoSyncset_hooked h, heq, grSyncHook, if_pos h.2.2.2]
  constructor
  · intro hsound
    obtain ⟨⟨-, hlt⟩, hpresent, hpage⟩ := hsound _ _ (List.mem_append_right _ List.mem_cons_self)
    refine ⟨by omega, hpresent, hpage _ (List.mem_append_right _ ?_)⟩
    simp only [List.mem_cons, true_or, or_true]
  · rintro ⟨hlt, hpresent, hpage⟩ index page hmem
    simp only [List.mem_append, hmap, false_or, List.mem_cons, List.not_mem_nil, or_false,
      SyncEvent.kmap.injEq, reduceCtorEq] at hmem
    obtain ⟨rfl, rfl⟩ := hmem
    refine ⟨⟨Nat.le_add_right _ _, by omega⟩, hpresent, fun page' hmem' => ?_⟩
    simp only [List.mem_append, hunmap, false_or, List.mem_cons, List.not_mem_nil, or_false,
      SyncEvent.kunmap.injEq, reduceCtorEq] at hmem'
    exact hmem'.trans hpage

/-- **When the hook is sound**: for a call that is accepted and a region whose backed pages come
first, exactly where there is no hook to run, or the range is of two pages or more, all backed,
of which the last is the same page as the first.  With pages that are all different it is never
sound where it runs. -/
theorem syncHook_sound_iff (reg : SyncRegion) (sset : Syncset) (offset backed : Nat)
    (haccepted : syncPageOff offset + syncPageCount offset sset.size ≤ reg.nrPages)
    (hbacked : reg.BackedBy backed) :
    (HookSound reg (syncPageOff offset) (syncPageCount offset sset.size)
        (kbaseDoSyncset (some reg) (some offset) sset).2
      ↔ ¬ reg.Hooked
        ∨ (2 ≤ syncPageCount offset sset.size
          ∧ syncPageOff offset + syncPageCount offset sset.size ≤ backed
          ∧ asPage (reg.cpuPa (syncPageOff offset))
            = asPage (reg.cpuPa (syncPageOff offset + syncPageCount offset sset.size - 1))))
    ∧ ((∀ i < backed, ∀ j < backed, asPage (reg.cpuPa i) = asPage (reg.cpuPa j) → i = j) →
        reg.Hooked →
        ¬ HookSound reg (syncPageOff offset) (syncPageCount offset sset.size)
          (kbaseDoSyncset (some reg) (some offset) sset).2) := by
  have hiff : HookSound reg (syncPageOff offset) (syncPageCount offset sset.size)
        (kbaseDoSyncset (some reg) (some offset) sset).2
      ↔ ¬ reg.Hooked
        ∨ (2 ≤ syncPageCount offset sset.size
          ∧ syncPageOff offset + syncPageCount offset sset.size ≤ backed
          ∧ asPage (reg.cpuPa (syncPageOff offset))
            = asPage (reg.cpuPa (syncPageOff offset + syncPageCount offset sset.size - 1))) := by
    by_cases hhook : reg.Hooked
    · rw [hookSound_iff_pages hhook haccepted]
      have hstop := @syncMiddle_stop reg (syncPageOff offset)
        (syncPageCount offset sset.size - 2) 1
      change hookCounter reg offset sset.size = _ ∨ (_ ≤ hookCounter reg offset sset.size
        ∧ hookCounter reg offset sset.size < _
        ∧ asPhysAddr (reg.cpuPa (_ + hookCounter reg offset sset.size)) = 0) at hstop
      generalize hookCounter reg offset sset.size = i at hstop
      constructor
      · rintro ⟨hlt, hpresent, hpage⟩
        -- the page is there, so the loop has run to its end
        rcases hstop with hend | ⟨-, -, habsent⟩
        · have hcount : 2 ≤ syncPageCount offset sset.size := by omega
          have hi : syncPageOff offset + i
              = syncPageOff offset + syncPageCount offset sset.size - 1 := by omega
          rw [hi] at hpresent hpage
          have hin := (hbacked _ (by omega)).mp hpresent
          exact .inr ⟨hcount, by omega, hpage⟩
        · exact absurd habsent hpresent
      · rintro (hno | ⟨hcount, hall, hpage⟩)
        · exact absurd hhook hno
        · have hpresent : asPhysAddr (reg.cpuPa (syncPageOff offset + i)) ≠ 0 :=
            (hbacked _ (by omega)).mpr (by omega)
          rcases hstop with hend | ⟨-, -, habsent⟩
          · have hi : syncPageOff offset + i
                = syncPageOff offset + syncPageCount offset sset.size - 1 := by omega
            rw [hi] at hpresent ⊢
            exact ⟨by omega, hpresent, hpage⟩
          · exact absurd habsent hpresent
    · refine iff_of_true (fun index page hmem => ?_) (.inl hhook)
      exact absurd hmem (kmap_not_mem hhook haccepted)
  refine ⟨hiff, fun hdistinct hhook hsound => ?_⟩
  rcases hiff.mp hsound with hno | ⟨hcount, hall, hpage⟩
  · exact hno hhook
  · have hsame := hdistinct _ (by omega) _ (by omega) hpage
    omega

end Hook

/-! ### A range of one page -/

/-- A region of two pages, both backed. -/
def twoPageRegion : SyncRegion :=
  { nrPages := 2, flags := kbaseRegCpuCached, invalidOrFree := false, imported := none
    sharedAlloc := true, cpuPa := fun i => if i < 2 then 0x10000 + 4096 * i else 0
    gpuPa := fun i => if i < 2 then 0x10000 + 4096 * i else 0 }

/-- A sync of 64 bytes. -/
def smallSync : Syncset := ⟨0x7f0000000000, 64, baseSyncsetOpMsync, by decide, by decide⟩

/-- The call for the region's first 64 bytes syncs its first page, maps the second, and releases
the first. -/
theorem syncHook_one_page :
    (kbaseDoSyncset (some twoPageRegion) (some 0) smallSync).1 = 0
      ∧ syncPageOff 0 = 0 ∧ syncPageCount 0 smallSync.size = 1
      ∧ twoPageRegion.BackedBy 2
      ∧ .kmap 1 17 ∈ (kbaseDoSyncset (some twoPageRegion) (some 0) smallSync).2
      ∧ .kunmap 16 ∈ (kbaseDoSyncset (some twoPageRegion) (some 0) smallSync).2
      ∧ ¬ HookSound twoPageRegion (syncPageOff 0) (syncPageCount 0 smallSync.size)
        (kbaseDoSyncset (some twoPageRegion) (some 0) smallSync).2 := by
  refine ⟨by decide, by decide, by decide, ?_, by decide, by decide, fun hsound => ?_⟩
  · intro i hi
    have hi2 : i < 2 := hi
    match i, hi2 with
    | 0, _ => decide
    | 1, _ => decide
  · have hrange := (hsound 1 17 (by decide)).1
    exact absurd hrange (by decide)

/-- A sync of both its pages. -/
def bothPagesSync : Syncset := ⟨0x7f0000000000, 8192, baseSyncsetOpMsync, by decide, by decide⟩

/-- A region with the same page in both places. -/
def samePageRegion : SyncRegion := { twoPageRegion with cpuPa := fun i => if i < 2 then 0x10000 else 0 }

/-- Over both pages the hook is unsound where they differ, and sound where they are one. -/
theorem syncHook_two_pages :
    ¬ HookSound twoPageRegion (syncPageOff 0) (syncPageCount 0 bothPagesSync.size)
        (kbaseDoSyncset (some twoPageRegion) (some 0) bothPagesSync).2 ∧
      HookSound samePageRegion (syncPageOff 0) (syncPageCount 0 bothPagesSync.size)
        (kbaseDoSyncset (some samePageRegion) (some 0) bothPagesSync).2 := by
  constructor
  · have hiff := syncHook_sound_iff twoPageRegion bothPagesSync 0 2 (by decide)
      (fun i hi => match i, hi with
        | 0, _ => by decide
        | 1, _ => by decide)
    intro hsound
    rcases hiff.1.mp hsound with hno | ⟨-, -, hpage⟩
    · exact hno ⟨rfl, rfl, by decide, rfl⟩
    · exact absurd hpage (by decide)
  · exact (syncHook_sound_iff samePageRegion bothPagesSync 0 2 (by decide)
      (fun i hi => match i, hi with
        | 0, _ => by decide
        | 1, _ => by decide)).1.mpr (.inr ⟨by decide, by decide, by decide⟩)

end GpuReplay
