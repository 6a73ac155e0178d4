/-
How many pages a rebuilt page table can have leaf entries for.

The dump of a page table is an array of fewer than `2 ^ 32` words, counted by a `uint32_t`, and
each table takes `513` of them.  With `512` leaf entries a table there are fewer than `2 ^ 32` leaf
entries in all: as many pages, one after the other, cannot all have one, and the counters of the
loops that go through the pages of a region do not overflow.
-/
import GpuReplay.Proofs.Isolation
import GpuReplay.Proofs.Uncounted

namespace GpuReplay.Replayer

open Stdio
open RadixTree (Tables leafPage leafPages_le pages)

/-! ### The tables -/

section Construct

variable {junk : Nat → Nat → UserPtr} {value : List Nat}

/-- What building a table at the block `offset` takes: it and `t` more, a frame and a block each. -/
structure TableTakes (value : List Nat) (offset : Nat) (m : Machine) (b : Built) (t : Nat) :
    Prop where
  frames : m.pool.length = b.machine.pool.length + (t + 1)
  offset : b.offset = offset + 513 * t
  room : b.offset + 513 ≤ value.length

/-- The block at a cursor that has not wrapped. -/
theorem oldPteValue_room {offset : Nat} {old : List Nat} (hoffset : offset + 1 < 2 ^ 32)
    (h : oldPteValue value offset = .ok old) : offset + 513 ≤ value.length := by
  unfold oldPteValue at h
  rw [Nat.mod_eq_of_lt hoffset] at h
  by_cases hroom : offset + 1 + 512 ≤ value.length
  · omega
  · rw [if_neg hroom] at h
    cases h

theorem newTable_length {m : Machine} {t : Nat × Machine} (h : newTable junk m = .ok t) :
    m.pool.length = t.2.pool.length + 1 := by
  unfold newTable allocPage at h
  cases hpool : m.pool with
  | nil =>
      rw [hpool] at h
      cases h
  | cons frame pool =>
      rw [hpool] at h
      rw [Except.ok_bind] at h
      obtain ⟨mapped, -, hdone⟩ := Except.bind_eq_ok.mp h
      obtain rfl := Except.ok.inj hdone
      rfl

theorem finishTable_ok {newPgd node : Nat} {r : List Nat × Nat × Machine} {b : Built}
    (h : finishTable newPgd node r = .ok b) : b.offset = r.2.1 ∧ b.machine.pool = r.2.2.pool := by
  obtain ⟨mem, -, hdone⟩ := Except.bind_eq_ok.mp h
  obtain rfl := Except.ok.inj hdone
  exact ⟨rfl, rfl⟩

/-- The loop over the entries: the tables it builds take their blocks. -/
theorem constructEntries_takes {next : Nat → Machine → Except Stop Built} {level node : Nat}
    (hvalue : value.length < 2 ^ 32)
    (hnext : ∀ {offset : Nat} {m : Machine} {b : Built}, offset % 513 = 0 → offset + 1 < 2 ^ 32 →
      next offset m = .ok b → ∃ t, TableTakes value offset m b t) :
    ∀ {words : List Nat} {i offset : Nat} {m : Machine} {r : List Nat × Nat × Machine},
      offset % 513 = 0 → offset + 513 ≤ value.length →
      constructEntries next level node i words offset m = .ok r →
      ∃ t, m.pool.length = r.2.2.pool.length + t ∧ r.2.1 = offset + 513 * t ∧
        r.2.1 + 513 ≤ value.length := by
  intro words
  induction words with
  | nil =>
      intro i offset m r _ hroom h
      obtain rfl := Except.ok.inj h
      exact ⟨0, rfl, rfl, hroom⟩
  | cons w words ih =>
      intro i offset m r hblock hroom h
      rw [constructEntries] at h
      by_cases hvalid : pteIsValid w level = true
      · rw [if_pos hvalid, Nat.mod_eq_of_lt (by omega)] at h
        obtain ⟨b, hb, h⟩ := Except.bind_eq_ok.mp h
        obtain ⟨r', hrest, hdone⟩ := Except.bind_eq_ok.mp h
        obtain rfl := Except.ok.inj hdone
        obtain ⟨t, htakes⟩ := hnext (by omega) (by omega) hb
        have hoffset := htakes.offset
        obtain ⟨t', hframes', hoffset', hroom'⟩ := ih (by omega) htakes.room hrest
        have hframes : m.pool.length = (b.machine.setPgd node i b.userPgd).pool.length + (t + 1) :=
          htakes.frames
        refine ⟨t + 1 + t', ?_, ?_, hroom'⟩
        · show m.pool.length = r'.2.2.pool.length + (t + 1 + t')
          rw [hframes, hframes']
          omega
        · show r'.2.1 = offset + 513 * (t + 1 + t')
          omega
      · rw [if_neg hvalid] at h
        obtain ⟨r', hrest, hdone⟩ := Except.bind_eq_ok.mp h
        obtain rfl := Except.ok.inj hdone
        obtain ⟨t, hframes, hcursor, hroom'⟩ := ih hblock hroom hrest
        exact ⟨t, hframes, hcursor, hroom'⟩

/-- **A table and those below it take a block each**, and the cursor does not wrap. -/
theorem grConstructPgt_takes (hvalue : value.length < 2 ^ 32) :
    ∀ {below offset : Nat} {m : Machine} {b : Built}, offset % 513 = 0 → offset + 1 < 2 ^ 32 →
      grConstructPgt junk value below offset m = .ok b → ∃ t, TableTakes value offset m b t := by
  intro below
  induction below with
  | zero =>
      intro offset m b _ hlt h
      obtain ⟨table, htable, h⟩ := Except.bind_eq_ok.mp h
      obtain ⟨old, hold, h⟩ := Except.bind_eq_ok.mp h
      obtain ⟨hoffset, hpool⟩ := finishTable_ok h
      have hlength := newTable_length htable
      rw [← hpool] at hlength
      exact ⟨0, hlength, hoffset, by rw [hoffset]; exact oldPteValue_room hlt hold⟩
  | succ below ih =>
      intro offset m b hblock hlt h
      obtain ⟨table, htable, h⟩ := Except.bind_eq_ok.mp h
      obtain ⟨old, hold, h⟩ := Except.bind_eq_ok.mp h
      obtain ⟨r, hentries, h⟩ := Except.bind_eq_ok.mp h
      obtain ⟨hoffset, hpool⟩ := finishTable_ok h
      have hlength := newTable_length htable
      obtain ⟨t, hframes, hcursor, hroom⟩ :=
        constructEntries_takes hvalue ih hblock (oldPteValue_room hlt hold) hentries
      rw [← hpool] at hframes
      exact ⟨t, by omega, by omega, by omega⟩

end Construct

theorem length_readPgtValue :
    ∀ {slots vals : List Nat} {cnt : Nat} {f f' : Stream},
      readPgtValue slots f = .ok (vals, cnt, f') → vals.length = slots.length := by
  intro slots
  induction slots with
  | nil =>
      intro vals cnt f f' h
      rw [readPgtValue] at h
      split at h
      · obtain ⟨rfl, -⟩ := Prod.mk.inj (Except.ok.inj h)
        rfl
      · cases h
  | cons old slots ih =>
      intro vals cnt f f' h
      rw [readPgtValue] at h
      split at h
      · obtain ⟨rfl, -⟩ := Prod.mk.inj (Except.ok.inj h)
        rfl
      · dsimp only at h
        split at h
        · obtain ⟨rfl, -⟩ := Prod.mk.inj (Except.ok.inj h)
          rfl
        · obtain ⟨⟨rest, cnt', f''⟩, hrest, hdone⟩ := Except.bind_eq_ok.mp h
          obtain ⟨rfl, -⟩ := Prod.mk.inj (Except.ok.inj hdone)
          rw [List.length_cons, List.length_cons, ih hrest]

/-- **`gr_pgt_init`** takes fewer than `2 ^ 32 / 513` frames. -/
theorem grPgtInit_takes {junk : PgtJunk} {m : Machine} {file : List UInt8} {r : PgtInit}
    (h : grPgtInit junk m file = .ok r) :
    ∃ k, m.pool.length = r.machine.pool.length + k ∧ 513 * k < 2 ^ 32 := by
  obtain ⟨⟨vals, cnt, f⟩, hread, h⟩ := Except.bind_eq_ok.mp h
  obtain ⟨b, hbuild, hdone⟩ := Except.bind_eq_ok.mp h
  obtain rfl := Except.ok.inj hdone
  have hlength := length_readPgtValue hread
  rw [List.length_map, List.length_range] at hlength
  have hwords : vals.length < 2 ^ 32 := by
    rw [hlength]
    exact Nat.mod_lt _ (by decide)
  obtain ⟨t, htakes⟩ := grConstructPgt_takes hwords (by decide) (by decide) hbuild
  have hoffset := htakes.offset
  have hroom := htakes.room
  exact ⟨t + 1, htakes.frames, by omega⟩

/-! ### The leaf entries -/

/-- **More pages in a row than the tables have entries** do not all have one. -/
theorem leafPage_missing {t : Tables Nat Nat} {root n : Nat}
    (hnodup : (pages tableAt 512 t 3 root).Nodup)
    (hcount : 512 * (pages tableAt 512 t 3 root).length < n) (hn : n ≤ 2 ^ 36) (start : Nat) :
    ∃ j < n, ∀ q, leafPage tableAt t (gpuIndex (start + 4096 * j)) 3 root ≠ some q := by
  by_contra hmissing
  have hall : ∀ j, j < n →
      ∃ q, leafPage tableAt t (gpuIndex (start + 4096 * j)) 3 root = some q := by
    intro j hj
    by_contra hnone
    exact hmissing ⟨j, hj, fun q hq => hnone ⟨q, hq⟩⟩
  have hle := leafPages_le (fun j => gpuIndex_lt (start + 4096 * j)) hnodup hall fun i hi j hj h => by
    have hpage := gpuPage_eq_iff.mpr h
    unfold gpuPage at hpage
    omega
  omega

/-- The MMU does not look at the high bits of an address. -/
theorem gpuIndex_mod (gaddr h : Nat) : gpuIndex (gaddr % 2 ^ 64) h = gpuIndex gaddr h := by
  unfold gpuIndex pgdOffset
  obtain hlevel | hlevel | hlevel | hlevel : 3 - h = 0 ∨ 3 - h = 1 ∨ 3 - h = 2 ∨ 3 - h = 3 := by
    omega
  all_goals
    rw [hlevel]
    omega

/-- **The pages of a region** that all have a leaf entry are fewer than the counters hold. -/
theorem length_addrs_lt {t : Tables Nat Nat} {root : Nat} {r : Region}
    (hnodup : (pages tableAt 512 t 3 root).Nodup)
    (hcount : 512 * (pages tableAt 512 t 3 root).length < 2 ^ 32) (hstart : r.gmStart < 2 ^ 64)
    (hleaf : ∀ gaddr ∈ r.addrs, ∃ q, leafPage tableAt t (gpuIndex gaddr) 3 root = some q) :
    r.addrs.length < 2 ^ 32 := by
  obtain ⟨j, hj, hnone⟩ := leafPage_missing hnodup hcount (Nat.pow_le_pow_right (by decide)
    (show 32 ≤ 36 by decide)) r.gmStart
  refine Nat.lt_of_not_le fun hmany => ?_
  obtain ⟨hget, -, -⟩ := getElem?_loopAddrs hstart (Nat.lt_of_lt_of_le hj hmany)
  obtain ⟨q, hq⟩ := hleaf _ (List.mem_of_getElem? hget)
  refine hnone q ((congrArg (fun ix => leafPage tableAt t ix 3 root) ?_).trans hq)
  funext h
  exact (gpuIndex_mod _ h).symm

end GpuReplay.Replayer
