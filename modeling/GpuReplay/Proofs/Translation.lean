/-
Soundness of `gr_trans_va_to_pa`.

The MMU goes by the type of an entry: `3` is a table above the bottom level and a page at it,
and anything else ends the walk.  The replayer goes by the address alone: it follows whatever
address bits an entry has, and stops where it finds none.  On the tables that were built both
see the same as long as there are tables; `WalkSound` is about the first entry that is none.
-/
import GpuReplay.Proofs.SyncAs
import GpuReplay.Proofs.UserNodes

namespace GpuReplay.Replayer

open Stdio Driver RadixTree

/-! ### Two readings of an entry -/

/-- The page that a leaf entry maps: bits 12 to 47. -/
def atePhysAddr (w : Nat) : Nat := pageStart (w % 2 ^ 48)

/-- What the tables map an address to, if anything. -/
def typedTrans (mem : ByteMem) (root vaddr : Nat) : Option Nat :=
  (leafPage tableAt (entries mem) (gpuIndex vaddr) 3 root).bind fun q =>
    if entries mem q (gpuIndex vaddr 0) &&& entryTypeMask = entryIsAteL3 then
      some (atePhysAddr (entries mem q (gpuIndex vaddr 0)) + vaddr % 4096)
    else none

/-- The translation is that of the tables: it returns the address an address is mapped to, and
ends the program where there is none. -/
def TransSound (mem : ByteMem) (root vaddr : Nat) : Prop :=
  match typedTrans mem root vaddr with
  | some paddr => grTransVaToPa mem root vaddr = .ok paddr
  | none => ∃ msg, grTransVaToPa mem root vaddr = .error (.abort msg)

/-- Who follows the address bits of the entries from the page at `pgd` on, with `n` of them to go,
comes to an entry that has none. -/
def Dries (mem : ByteMem) (vaddr : Nat) : Nat → Nat → Prop
  | 0, _ => False
  | n + 1, pgd =>
      pteToPhysAddr (entries mem pgd (gpuIndex vaddr (n + 1))) = 0 ∨
        Dries mem vaddr n (pteToPhysAddr (entries mem pgd (gpuIndex vaddr (n + 1))))

/-- A page, with none of the bits from 48 on but that for `nx`. -/
def LeafSound (w : Nat) : Prop :=
  w &&& entryTypeMask = entryIsAteL3 ∧ (w / 2 ^ 48 = 0 ∨ w / 2 ^ 48 = 2 ^ 6)

/-- The entries on the way of an address from the table at `pgd` on, with `n` levels below it: one
that is no table has no address bits, or these lead to an entry that has none; at the bottom
level there is a page. -/
def WalkSound (mem : ByteMem) (vaddr : Nat) : Nat → Nat → Prop
  | 0, pgd => LeafSound (entries mem pgd (gpuIndex vaddr 0))
  | n + 1, pgd =>
      match tableAt (entries mem pgd (gpuIndex vaddr (n + 1))) with
      | some q => WalkSound mem vaddr n q
      | none => Dries mem vaddr (n + 1) pgd

theorem pteToPhysAddr_eq (w : Nat) :
    pteToPhysAddr w = pageStart (if w / 2 ^ 54 % 2 = 1 then w - 2 ^ 54 else w) := by
  have hnx : (w &&& entryNxBit ≠ 0) ↔ w / 2 ^ 54 % 2 = 1 := by
    rw [entryNxBit, Nat.one_shiftLeft, Nat.and_two_pow, Nat.testBit_eq_decide_div_mod_eq]
    by_cases h : w / 2 ^ 54 % 2 = 1
    · rw [decide_eq_true h]
      exact ⟨fun _ => h, fun _ => by decide⟩
    · rw [decide_eq_false h]
      exact ⟨fun hne => absurd (Nat.zero_mul _) hne, fun h' => absurd h' h⟩
  unfold pteToPhysAddr
  by_cases h : w / 2 ^ 54 % 2 = 1
  · rw [if_pos (hnx.mpr h), if_pos h, entryNxBit, Nat.one_shiftLeft]
  · rw [if_neg (fun h' => h (hnx.mp h')), if_neg h]

/-- The replayer reads the page of a leaf entry right where no other high bit is set. -/
theorem pteToPhysAddr_eq_atePhysAddr_iff {w : Nat} (hlt : w < 2 ^ 64) :
    pteToPhysAddr w = atePhysAddr w ↔ w / 2 ^ 48 = 0 ∨ w / 2 ^ 48 = 2 ^ 6 := by
  rw [pteToPhysAddr_eq, atePhysAddr]
  unfold pageStart
  by_cases h : w / 2 ^ 54 % 2 = 1
  · rw [if_pos h]
    omega
  · rw [if_neg h]
    omega

theorem pageStart_aligned (x : Nat) : pageStart x % 4096 = 0 := Nat.mul_mod_left _ _

theorem pteToPhysAddr_aligned (w : Nat) : pteToPhysAddr w % 4096 = 0 := by
  rw [pteToPhysAddr_eq]
  exact pageStart_aligned _

/-! ### The walk by addresses -/

/-- **The walk ends the program exactly when it comes to an entry without an address.** -/
theorem walkPgd_iff_dries {mem : ByteMem} {vaddr : Nat} :
    ∀ {n pgd : Nat}, n ≤ 3 → pgd % 4096 = 0 →
      (Dries mem vaddr n pgd ∧ walkPgd mem vaddr n (3 - n) pgd
        = .error (.abort "cannot get target pgd")) ∨
      (¬ Dries mem vaddr n pgd ∧ ∃ q, q % 4096 = 0 ∧ walkPgd mem vaddr n (3 - n) pgd = .ok q) := by
  intro n
  induction n with
  | zero => exact fun _ haligned => .inr ⟨id, _, haligned, rfl⟩
  | succ n ih =>
      intro pgd hn haligned
      have hmap : grMapPage pgd = .ok pgd := if_neg (fun h => h haligned)
      have hlevel : 3 - (n + 1) + 1 = 3 - n := by omega
      have hword : mem.read64 (pgd + 8 * pgdOffset vaddr (3 - (n + 1)))
          = entries mem pgd (gpuIndex vaddr (n + 1)) := rfl
      rw [walkPgd, if_neg (not_not.mpr haligned), hmap]
      simp only [Except.ok_bind]
      rw [hword, hlevel, Dries]
      by_cases hzero : pteToPhysAddr (entries mem pgd (gpuIndex vaddr (n + 1))) = 0
      · rw [if_pos hzero]
        exact .inl ⟨.inl hzero, rfl⟩
      · rw [if_neg hzero]
        rcases ih (Nat.le_of_succ_le hn) (pteToPhysAddr_aligned _) with ⟨hdry, hrun⟩ | ⟨hwet, hrun⟩
        · exact .inl ⟨.inr hdry, hrun⟩
        · exact .inr ⟨fun h => h.elim hzero hwet, hrun⟩

/-- Through tables both walks go the same way. -/
theorem dries_of_table {mem : ByteMem} {vaddr n pgd q : Nat} (hok : TablesOk mem (n + 1) pgd)
    (hq : tableAt (entries mem pgd (gpuIndex vaddr (n + 1))) = some q) :
    Dries mem vaddr (n + 1) pgd ↔ Dries mem vaddr n q := by
  obtain ⟨-, hpos, hlt⟩ := hok q (mem_pages_child (gpuIndex_lt vaddr (n + 1)) hq (root_mem_pages _ _))
  have htarget : pteToPhysAddr (entries mem pgd (gpuIndex vaddr (n + 1))) = q := by
    generalize entries mem pgd (gpuIndex vaddr (n + 1)) = w at hq
    unfold tableAt at hq
    split at hq
    · have hstart := Option.some.inj hq
      rw [pteToPhysAddr_of_lt, hstart]
      unfold pageStart at hstart
      omega
    · cases hq
  rw [Dries, htarget]
  exact ⟨fun h => h.resolve_left (Nat.ne_of_gt hpos), .inr⟩

/-- Where an address has no bottom table, everything hangs on the address bits. -/
theorem walkSound_of_no_leafPage {mem : ByteMem} {vaddr : Nat} :
    ∀ {n pgd : Nat}, TablesOk mem n pgd →
      leafPage tableAt (entries mem) (gpuIndex vaddr) n pgd = none →
      (WalkSound mem vaddr n pgd ↔ Dries mem vaddr n pgd) := by
  intro n
  induction n with
  | zero => exact fun _ hleaf => by cases hleaf
  | succ n ih =>
      intro pgd hok hleaf
      rw [leafPage] at hleaf
      rw [WalkSound]
      cases hq : tableAt (entries mem pgd (gpuIndex vaddr (n + 1))) with
      | none => exact Iff.rfl
      | some q =>
          rw [hq] at hleaf
          rw [dries_of_table hok hq]
          exact ih (fun p hp => hok p (mem_pages_child (gpuIndex_lt vaddr (n + 1)) hq hp)) hleaf

/-- Where it has one, on the leaf entry. -/
theorem walkSound_of_leafPage {mem : ByteMem} {vaddr q : Nat} :
    ∀ {n pgd : Nat}, leafPage tableAt (entries mem) (gpuIndex vaddr) n pgd = some q →
      (WalkSound mem vaddr n pgd ↔ LeafSound (entries mem q (gpuIndex vaddr 0))) := by
  intro n
  induction n with
  | zero =>
      intro pgd hleaf
      rw [Option.some.inj hleaf]
      exact Iff.rfl
  | succ n ih =>
      intro pgd hleaf
      obtain ⟨r, hr, hleaf⟩ := Option.bind_eq_some_iff.mp hleaf
      rw [WalkSound, hr]
      exact ih hleaf

/-- **Translation in a tree of tables is sound exactly for the addresses whose walk is.** -/
theorem transSound_iff_walkSound {mem : ByteMem} {root vaddr : Nat} (hok : TablesOk mem 3 root) :
    TransSound mem root vaddr ↔ WalkSound mem vaddr 3 root := by
  have haligned := (hok root (root_mem_pages _ _)).1
  cases hleaf : leafPage tableAt (entries mem) (gpuIndex vaddr) 3 root with
  | none =>
      have htyped : typedTrans mem root vaddr = none := by
        unfold typedTrans
        rw [hleaf]
        rfl
      unfold TransSound
      rw [htyped, walkSound_of_no_leafPage hok hleaf]
      dsimp only
      unfold grTransVaToPa grGetPgdAtLevel
      rcases walkPgd_iff_dries (Nat.le_refl 3) haligned with ⟨hdry, hrun⟩ | ⟨hwet, q, hq, hrun⟩
      · have hrun' : walkPgd mem vaddr midgardMmuBottomlevel 0 root
            = .error (.abort "cannot get target pgd") := hrun
        rw [hrun']
        exact ⟨fun _ => hdry, fun _ => ⟨_, rfl⟩⟩
      · have hrun' : walkPgd mem vaddr midgardMmuBottomlevel 0 root = .ok q := hrun
        have hmap : grMapPage q = .ok q := if_neg (fun h => h hq)
        rw [hrun', Except.ok_bind, hmap, Except.ok_bind]
        exact ⟨fun ⟨_, h⟩ => (by cases h), fun h => absurd h hwet⟩
  | some q =>
      have hword : gpuLookup mem root vaddr = entries mem q (gpuIndex vaddr 0) :=
        lookup_of_leafPage hleaf
      have htrans := (grTransVaToPa_of_leafPage hok hleaf).2
      rw [hword] at htrans
      have hlt : entries mem q (gpuIndex vaddr 0) < 2 ^ 64 := ByteMem.read64_lt _ _
      unfold TransSound typedTrans
      rw [hleaf, Option.bind_some, walkSound_of_leafPage hleaf, LeafSound, htrans,
        ← pteToPhysAddr_eq_atePhysAddr_iff hlt]
      generalize entries mem q (gpuIndex vaddr 0) = w
      by_cases htype : w &&& entryTypeMask = entryIsAteL3
      · rw [if_pos htype]
        dsimp only
        refine ⟨fun h => ⟨htype, ?_⟩, fun h => by rw [h.2]⟩
        exact Nat.add_right_cancel (Except.ok.inj h)
      · rw [if_neg htype]
        exact ⟨fun ⟨_, h⟩ => (by cases h), fun h => absurd h.1 htype⟩

/-! ### The tables that were built -/

/-- **What was built from a dump is translated soundly exactly for the addresses whose walk is**:
those that come to a page, or to an entry without an address. -/
theorem transSound_iff {junk : Nat → Nat → UserPtr} {value : List Nat} {offset : Nat} {m : Machine}
    {b : Built} (hvalue : ∀ w ∈ value, w < 2 ^ 64) (hpool : PoolOk m.pool)
    (hframes : ∀ f ∈ m.pool, 0 < f ∧ f < 2 ^ 48)
    (hbuild : grConstructPgt junk value 3 offset m = .ok b) (vaddr : Nat) :
    TransSound b.machine.mem b.pgd vaddr ↔ WalkSound b.machine.mem vaddr 3 b.pgd := by
  obtain ⟨-, k, htables, -⟩ := grConstructPgt_finds hvalue hpool hbuild
  refine transSound_iff_walkSound fun p hp => ?_
  have hin : p ∈ m.pool := List.mem_of_mem_take (htables ▸ hp)
  exact ⟨hpool.aligned p hin, hframes p hin⟩

theorem constructEntries_plain (next : Nat → Machine → Except Stop Built) (level node : Nat) :
    ∀ (ws : List Nat) (i offset : Nat) (m : Machine), (∀ w ∈ ws, pteIsValid w level = false) →
      constructEntries next level node i ws offset m = .ok (ws, offset, m) := by
  intro ws
  induction ws with
  | nil => exact fun _ _ _ _ => rfl
  | cons w ws ih =>
      intro i offset m hws
      obtain ⟨hw, hws⟩ := List.forall_mem_cons.mp hws
      rw [constructEntries, if_neg (by rw [hw]; decide), ih _ _ _ hws]
      rfl

/-! ### A block that leads back to its table -/

/-- A block at the page that the table with it is put on. -/
def blockWord : Nat := grEntryGetAte 0x1000 0 0

/-- One table, with nothing but that block. -/
def blockValue : List Nat := List.replicate 513 blockWord

theorem blockValue_lt : ∀ w ∈ blockValue, w < 2 ^ 64 := fun w hw => by
  rw [List.eq_of_mem_replicate hw]
  decide

theorem rootMachine_pool :
    PoolOk rootMachine.pool ∧ ∀ f ∈ rootMachine.pool, 0 < f ∧ f < 2 ^ 48 :=
  ⟨poolOk_frames (by decide), by decide⟩

/-- One table, all of one word that announces no other table. -/
theorem oneWord_built {word : Nat} (hlt : word < 2 ^ 64) (hword : pteIsValid word 0 = false) :
    ∃ b, grConstructPgt nullJunk (List.replicate 513 word) 3 0 rootMachine = .ok b ∧
      b.pgd = 0x1000 ∧ ∀ i, i < 512 → entries b.machine.mem 0x1000 i = word := by
  have hlength : (List.replicate 512 word).length = 512 := List.length_replicate
  have hold : oldPteValue (List.replicate 513 word) 0 = .ok (List.replicate 512 word) := by
    unfold oldPteValue
    rw [List.length_replicate, if_pos (by decide), List.drop_replicate, List.take_replicate]
    rfl
  have hplain : ∀ w ∈ List.replicate 512 word, pteIsValid w (3 - (2 + 1)) = false :=
    fun w hw => by
      rw [List.eq_of_mem_replicate hw]
      exact hword
  refine ⟨⟨0x1000, .node 0, 0, ⟨rootMachine.mem.write 0x1000 (Bytes.words (List.replicate 512 word)),
    [], [⟨0x1000, nullJunk 0⟩]⟩⟩, ?_, rfl, fun i hi => ?_⟩
  · rw [grConstructPgt, @newTable_eq nullJunk rootMachine 0x1000 [] rfl (by decide), Except.ok_bind]
    dsimp only
    rw [hold, Except.ok_bind]
    rw [constructEntries_plain _ _ _ _ _ _ _ hplain, Except.ok_bind,
      finishTable_eq (by decide) hlength]
    rfl
  · have hwords := tableWords_write rootMachine.mem 0x1000 hlength fun w hw => by
      rw [List.eq_of_mem_replicate hw]
      exact hlt
    have hentry := getElem?_tableWords
      (rootMachine.mem.write 0x1000 (Bytes.words (List.replicate 512 word))) 0x1000 hi
    rw [hwords, List.getElem?_replicate, if_pos hi] at hentry
    exact (Option.some.inj hentry).symm

theorem block_built : ∃ b, grConstructPgt nullJunk blockValue 3 0 rootMachine = .ok b ∧
    b.pgd = 0x1000 ∧ ∀ i, i < 512 → entries b.machine.mem 0x1000 i = blockWord :=
  oneWord_built (by decide) (by decide)

/-- Address 0 is translated to that page through three blocks. -/
theorem block_not_sound :
    ∃ b, grConstructPgt nullJunk blockValue 3 0 rootMachine = .ok b ∧
      ¬ TransSound b.machine.mem b.pgd 0 := by
  obtain ⟨b, hbuild, hpgd, hentries⟩ := block_built
  refine ⟨b, hbuild, ?_⟩
  have hentry : ∀ n, entries b.machine.mem 0x1000 (gpuIndex 0 n) = blockWord := fun n =>
    hentries _ (gpuIndex_lt 0 n)
  have hfollow : pteToPhysAddr blockWord = 0x1000 := by decide
  have hnone : typedTrans b.machine.mem b.pgd 0 = none := by
    unfold typedTrans
    rw [hpgd, leafPage, hentry]
    rfl
  have hwet : ∀ n, ¬ Dries b.machine.mem 0 n 0x1000 := by
    intro n
    induction n with
    | zero => exact id
    | succ n ih =>
        rw [Dries, hentry, hfollow]
        exact fun h => h.elim (by decide) ih
  unfold TransSound
  rw [hnone, hpgd]
  rintro ⟨msg, hrun⟩
  rcases @walkPgd_iff_dries b.machine.mem 0 3 0x1000 (Nat.le_refl 3) (by decide) with
    ⟨hdry, -⟩ | ⟨-, q, hq, hwalk⟩
  · exact hwet 3 hdry
  · have hwalk' : walkPgd b.machine.mem 0 midgardMmuBottomlevel 0 0x1000 = .ok q := hwalk
    have hmap : grMapPage q = .ok q := if_neg (fun h => h hq)
    unfold grTransVaToPa grGetPgdAtLevel at hrun
    rw [hwalk', Except.ok_bind, hmap, Except.ok_bind] at hrun
    cases hrun

/-- The same for the walk: address 0 in the table with the block.  In a table of zeros the
translation aborts, as it should. -/
theorem transSound_iff_block :
    ((∀ w ∈ blockValue, w < 2 ^ 64) ∧ PoolOk rootMachine.pool ∧
      ∀ f ∈ rootMachine.pool, 0 < f ∧ f < 2 ^ 48) ∧
    (∃ b, grConstructPgt nullJunk blockValue 3 0 rootMachine = .ok b ∧
      (TransSound b.machine.mem b.pgd 0 ↔ WalkSound b.machine.mem 0 3 b.pgd)) ∧
    ∃ b, grConstructPgt nullJunk (List.replicate 513 0) 3 0 rootMachine = .ok b ∧
      TransSound b.machine.mem b.pgd 0 := by
  obtain ⟨b, hbuild, -⟩ := block_built
  obtain ⟨b₀, hbuild₀, hpgd, hentries⟩ := @oneWord_built 0 (by decide) (by decide)
  obtain ⟨hpool, hframes⟩ := rootMachine_pool
  have hsmall : ∀ w ∈ List.replicate 513 0, w < 2 ^ 64 := fun w hw => by
    rw [List.eq_of_mem_replicate hw]
    decide
  refine ⟨⟨blockValue_lt, hpool, hframes⟩,
    ⟨b, hbuild, transSound_iff blockValue_lt hpool hframes hbuild 0⟩, b₀, hbuild₀,
    (transSound_iff hsmall hpool hframes hbuild₀ 0).mpr ?_⟩
  have hzero := hentries _ (gpuIndex_lt 0 3)
  rw [hpgd, WalkSound, hzero]
  refine .inl ?_
  rw [hzero]
  rfl

end GpuReplay.Replayer
