/-
Three ways down the page table.

The replayer follows its own nodes, `gr_get_user_pgd_at_level`, or the tables in physical
memory, `gr_get_pgd_at_level`, and `gr_trans_va_to_pa` goes on from there to the page.  The nodes
come from `malloc`, and a slot no table was put into keeps what was there before; `fillHeap`
says that this is all the contents of the memory matter.

`walks_agree` is about what `gr_restore_pte` leaves: all three find for an address the table and
the page that the region table says.
-/
import GpuReplay.Proofs.TableCount

namespace GpuReplay.Replayer

open Stdio Driver RadixTree

/-! ### What the nodes hold at first -/

/-- A node in memory that held `junk`: the slots that lead to no node are as they were. -/
def fillNode (junk : Nat → UserPtr) (u : UserPgtable) : UserPgtable :=
  { u with pgd := fun i => match u.pgd i with
      | .node c => .node c
      | _ => junk i }

/-- The nodes from `lo` on, in memory that held `junk`. -/
def fillHeap (junk : Nat → Nat → UserPtr) (lo : Nat) (heap : List UserPgtable) : List UserPgtable :=
  heap.mapIdx fun k u => if k < lo then u else fillNode (junk k) u

def Machine.fill (junk : Nat → Nat → UserPtr) (lo : Nat) (m : Machine) : Machine :=
  { m with heap := fillHeap junk lo m.heap }

def Built.fill (junk : Nat → Nat → UserPtr) (lo : Nat) (b : Built) : Built :=
  { b with machine := b.machine.fill junk lo }

/-- Memory that is all null. -/
def nullJunk : Nat → Nat → UserPtr := fun _ _ => .null

section Fill

variable {junk : Nat → Nat → UserPtr} {lo : Nat}

@[simp] theorem length_fillHeap (heap : List UserPgtable) :
    (fillHeap junk lo heap).length = heap.length := List.length_mapIdx

theorem getElem?_fillHeap (heap : List UserPgtable) (k : Nat) :
    (fillHeap junk lo heap)[k]?
      = heap[k]?.map fun u => if k < lo then u else fillNode (junk k) u := List.getElem?_mapIdx

/-- Nodes that were there before are not touched. -/
theorem fillHeap_of_length {heap : List UserPgtable} (h : heap.length = lo) :
    fillHeap junk lo heap = heap := by
  refine List.ext_getElem? fun k => ?_
  rw [getElem?_fillHeap]
  cases hk : heap[k]? with
  | none => rfl
  | some u => exact congrArg some (if_pos (h ▸ (List.getElem?_eq_some_iff.mp hk).1))

theorem fillHeap_append {heap : List UserPgtable} (hlo : lo ≤ heap.length) (page : Nat) :
    fillHeap junk lo (heap ++ [⟨page, nullJunk heap.length⟩])
      = fillHeap junk lo heap ++ [⟨page, junk heap.length⟩] := by
  unfold fillHeap
  rw [List.mapIdx_concat, if_neg (Nat.not_lt.mpr hlo)]
  rfl

theorem fill_setPgd (m : Machine) {node : Nat} (hlo : lo ≤ node) (i c : Nat) :
    (m.setPgd node i (.node c)).fill junk lo = (m.fill junk lo).setPgd node i (.node c) := by
  refine congrArg (Machine.mk m.mem m.pool) (List.ext_getElem? fun k => ?_)
  rw [getElem?_fillHeap]
  show _ = ((fillHeap junk lo m.heap).modify node _)[k]?
  rw [List.getElem?_modify, getElem?_fillHeap]
  show (Option.map _ ((m.heap.modify node _)[k]?)) = _
  rw [List.getElem?_modify]
  cases m.heap[k]? with
  | none => rfl
  | some u =>
      refine congrArg some ?_
      dsimp only
      by_cases hk : node = k
      · rw [if_pos hk, if_pos hk, if_neg (by omega), if_neg (by omega)]
        refine congrArg (UserPgtable.mk u.physPage) (funext fun j => ?_)
        dsimp only [fillNode]
        by_cases hj : j = i
        · rw [if_pos hj, if_pos hj]
        · rw [if_neg hj, if_neg hj]
      · rw [if_neg hk, if_neg hk]

theorem newTable_fill (m : Machine) (hlo : lo ≤ m.heap.length) :
    newTable junk (m.fill junk lo)
      = newTable nullJunk m >>= fun r => .ok (r.1, r.2.fill junk lo) := by
  obtain ⟨mem, pool, heap⟩ := m
  unfold newTable allocPage
  cases pool with
  | nil => rfl
  | cons frame pool =>
      dsimp only [Machine.fill]
      rw [Except.ok_bind, Except.ok_bind]
      dsimp only
      cases grMapPage frame with
      | error e => rfl
      | ok mapped =>
          rw [Except.ok_bind, Except.ok_bind, length_fillHeap]
          exact congrArg (fun h => Except.ok (frame, Machine.mk mem pool h))
            (fillHeap_append hlo mapped).symm

theorem finishTable_fill (newPgd node : Nat) (ws : List Nat) (offset : Nat) (m : Machine) :
    finishTable newPgd node (ws, offset, m.fill junk lo)
      = finishTable newPgd node (ws, offset, m) >>= fun b => .ok (b.fill junk lo) := by
  unfold finishTable
  show (grWritePhys m.mem newPgd _ >>= _) = _
  cases grWritePhys m.mem newPgd (ws.flatMap (Bytes.le 8)) with
  | error e => rfl
  | ok mem => rfl

/-- Building one level down does the same whatever the memory held. -/
def FillsBelow (junk : Nat → Nat → UserPtr) (lo : Nat)
    (next next₀ : Nat → Machine → Except Stop Built) : Prop :=
  ∀ (offset : Nat) (m : Machine), lo ≤ m.heap.length →
    (next offset (m.fill junk lo) = next₀ offset m >>= fun b => .ok (b.fill junk lo)) ∧
      ∀ b, next₀ offset m = .ok b → b.userPgd = .node m.heap.length ∧
        m.heap.length ≤ b.machine.heap.length

theorem constructEntries_fill {next next₀ : Nat → Machine → Except Stop Built}
    (hnext : FillsBelow junk lo next next₀) {level node : Nat} (hnode : lo ≤ node) :
    ∀ (ws : List Nat) (i offset : Nat) (m : Machine), lo ≤ m.heap.length →
      (constructEntries next level node i ws offset (m.fill junk lo)
        = constructEntries next₀ level node i ws offset m >>= fun r =>
            .ok (r.1, r.2.1, r.2.2.fill junk lo)) ∧
      ∀ r, constructEntries next₀ level node i ws offset m = .ok r →
        m.heap.length ≤ r.2.2.heap.length := by
  intro ws
  induction ws with
  | nil =>
      intro i offset m _
      exact ⟨rfl, fun r hr => Except.ok.inj hr ▸ Nat.le_refl _⟩
  | cons w ws ih =>
      intro i offset m hlo
      rw [constructEntries, constructEntries]
      by_cases hw : pteIsValid w level = true
      · rw [if_pos hw, if_pos hw]
        obtain ⟨hrun, hgrown⟩ := hnext ((offset + 513) % 2 ^ 32) m hlo
        rw [hrun]
        cases hb : next₀ ((offset + 513) % 2 ^ 32) m with
        | error e => exact ⟨rfl, fun r hr => by cases hr⟩
        | ok b =>
            obtain ⟨hptr, hlen⟩ := hgrown b hb
            have hset : (b.machine.setPgd node i b.userPgd).heap.length = b.machine.heap.length :=
              List.length_modify ..
            obtain ⟨hrest, hmore⟩ := ih (i + 1) b.offset (b.machine.setPgd node i b.userPgd)
              (by rw [hset]; omega)
            rw [Except.ok_bind, Except.ok_bind, Except.ok_bind]
            show (constructEntries next level node (i + 1) ws b.offset
                ((b.machine.fill junk lo).setPgd node i b.userPgd) >>= _) = _ ∧ _
            rw [hptr] at hrest ⊢
            rw [← fill_setPgd b.machine hnode, hrest]
            cases hr : constructEntries next₀ level node (i + 1) ws b.offset
                (b.machine.setPgd node i (.node m.heap.length)) with
            | error e => exact ⟨rfl, fun r hr => by cases hr⟩
            | ok r =>
                refine ⟨rfl, fun r' hr' => ?_⟩
                obtain rfl := Except.ok.inj hr'
                rw [hptr] at hmore hset
                have hle := hmore r hr
                show _ ≤ r.2.2.heap.length
                omega
      · rw [if_neg hw, if_neg hw]
        obtain ⟨hrest, hmore⟩ := ih (i + 1) offset m hlo
        rw [hrest]
        cases hr : constructEntries next₀ level node (i + 1) ws offset m with
        | error e => exact ⟨rfl, fun r hr => by cases hr⟩
        | ok r =>
            refine ⟨rfl, fun r' hr' => ?_⟩
            obtain rfl := Except.ok.inj hr'
            exact hmore r hr

theorem newTable_heap {junk : Nat → Nat → UserPtr} {m : Machine} {r : Nat × Machine}
    (hrun : newTable junk m = .ok r) :
    ∃ page, r.2.heap = m.heap ++ [⟨page, junk m.heap.length⟩] := by
  obtain ⟨frame, pool, -, -, rfl⟩ := newTable_ok junk hrun
  exact ⟨frame, rfl⟩

theorem finishTable_node {newPgd node : Nat} {r : List Nat × Nat × Machine} {b : Built}
    (hrun : finishTable newPgd node r = .ok b) :
    b.userPgd = .node node ∧ b.machine.heap = r.2.2.heap := by
  obtain ⟨mem, -, hdone⟩ := Except.bind_eq_ok.mp hrun
  obtain rfl := Except.ok.inj hdone
  exact ⟨rfl, rfl⟩

/-- **What the memory of the nodes held matters only in the slots of no table.** -/
theorem grConstructPgt_fill (value : List Nat) :
    ∀ below, FillsBelow junk lo (grConstructPgt junk value below)
      (grConstructPgt nullJunk value below) := by
  intro below
  induction below with
  | zero =>
      intro offset m hlo
      rw [grConstructPgt, grConstructPgt, newTable_fill m hlo]
      cases hnew : newTable nullJunk m with
      | error e => exact ⟨rfl, fun b hb => by cases hb⟩
      | ok r =>
          obtain ⟨newPgd, m'⟩ := r
          obtain ⟨page, hheap⟩ := newTable_heap hnew
          have hlen : m'.heap.length = m.heap.length + 1 :=
            (congrArg List.length hheap).trans List.length_append
          cases oldPteValue value offset with
          | error e => exact ⟨rfl, fun b hb => by cases hb⟩
          | ok old =>
              constructor
              · show finishTable newPgd (fillHeap junk lo m.heap).length _ = _
                rw [length_fillHeap]
                exact finishTable_fill ..
              · intro b hb
                obtain ⟨hptr, hsame⟩ := finishTable_node hb
                refine ⟨hptr, ?_⟩
                rw [hsame]
                dsimp only
                omega
  | succ below ih =>
      intro offset m hlo
      rw [grConstructPgt, grConstructPgt, newTable_fill m hlo]
      cases hnew : newTable nullJunk m with
      | error e => exact ⟨rfl, fun b hb => by cases hb⟩
      | ok r =>
          obtain ⟨newPgd, m'⟩ := r
          obtain ⟨page, hheap⟩ := newTable_heap hnew
          have hlen : m'.heap.length = m.heap.length + 1 :=
            (congrArg List.length hheap).trans List.length_append
          cases oldPteValue value offset with
          | error e => exact ⟨rfl, fun b hb => by cases hb⟩
          | ok old =>
              obtain ⟨hrest, hmore⟩ := constructEntries_fill ih hlo old 0 offset m' (by omega)
              show (constructEntries (grConstructPgt junk value below) (3 - (below + 1))
                  (fillHeap junk lo m.heap).length 0 old offset (m'.fill junk lo) >>= _)
                = ((constructEntries (grConstructPgt nullJunk value below) (3 - (below + 1))
                  m.heap.length 0 old offset m' >>= _) >>= _) ∧
                ∀ b, (constructEntries (grConstructPgt nullJunk value below) (3 - (below + 1))
                  m.heap.length 0 old offset m' >>= _) = .ok b → _
              rw [length_fillHeap, hrest]
              cases hr : constructEntries (grConstructPgt nullJunk value below) (3 - (below + 1))
                  m.heap.length 0 old offset m' with
              | error e => exact ⟨rfl, fun b hb => by cases hb⟩
              | ok r =>
                  refine ⟨?_, fun b hb => ?_⟩
                  · show finishTable newPgd (fillHeap junk lo m.heap).length _ = _
                    rw [length_fillHeap]
                    exact finishTable_fill ..
                  obtain ⟨hptr, hheap⟩ := finishTable_node hb
                  refine ⟨hptr, ?_⟩
                  rw [hheap]
                  have hle := hmore r hr
                  omega

end Fill

/-! ### The walks -/

/-- **The nodes find the bottom table**, whatever their memory held. -/
theorem UserTree.walk_fill {heap : List UserPgtable} {t : Tables Nat Nat} {lo lo' gaddr : Nat}
    (junk : Nat → Nat → UserPtr) :
    ∀ {n : Nat}, n ≤ 3 → ∀ {pgd node q : Nat}, UserTree heap t lo n pgd node →
      leafPage tableAt t (gpuIndex gaddr) n pgd = some q →
      ∃ c u, walkUserPgt (fillHeap junk lo' heap) gaddr n (3 - n) (.node node) = .ok (.node c) ∧
        (fillHeap junk lo' heap)[c]? = some u ∧ u.physPage = q := by
  intro n
  induction n with
  | zero =>
      intro _ pgd node q h hleaf
      obtain ⟨-, u, hu, hpage⟩ := h
      obtain rfl := Option.some.inj hleaf
      refine ⟨node, if node < lo' then u else fillNode (junk node) u, rfl, ?_, ?_⟩
      · rw [getElem?_fillHeap, hu]
        rfl
      · split
        · exact hpage
        · exact hpage
  | succ n ih =>
      intro hn pgd node q h hleaf
      obtain ⟨-, u, hu, -, hptrs⟩ := h
      obtain ⟨r, hr, hleaf⟩ := Option.bind_eq_some_iff.mp hleaf
      obtain ⟨c, hc, hsub⟩ := (hptrs _ (gpuIndex_lt gaddr (n + 1))).1 r hr
      obtain ⟨k, v, hwalk, hv, hpage⟩ := ih (Nat.le_of_succ_le hn) hsub hleaf
      refine ⟨k, v, ?_, hv, hpage⟩
      have hlevel : 3 - (n + 1) + 1 = 3 - n := by omega
      have hfilled : (if node < lo' then u else fillNode (junk node) u).pgd
          (pgdOffset gaddr (3 - (n + 1))) = .node c := by
        have hc' : u.pgd (pgdOffset gaddr (3 - (n + 1))) = .node c := hc
        split
        · exact hc'
        · dsimp only [fillNode]
          rw [hc']
      rw [walkUserPgt, derefPgt, getElem?_fillHeap, hu, Option.map_some, Except.ok_bind]
      dsimp only
      rw [hfilled, if_neg (fun h => by cases h), hlevel]
      exact hwalk

theorem pteToPhysAddr_of_lt {w : Nat} (hlt : w < 2 ^ 54) : pteToPhysAddr w = pageStart w := by
  have hnx : w &&& entryNxBit = 0 := by
    rw [entryNxBit, Nat.one_shiftLeft, Nat.and_two_pow, Nat.testBit_lt_two_pow hlt]
    rfl
  unfold pteToPhysAddr
  rw [if_neg (not_not.mpr hnx)]

/-- Tables as the page manager hands them out: aligned, and at addresses a table entry can
hold. -/
def TablesOk (mem : ByteMem) (n pgd : Nat) : Prop :=
  ∀ p ∈ pages tableAt 512 (entries mem) n pgd, p % 4096 = 0 ∧ 0 < p ∧ p < 2 ^ 48

/-- **The walk through physical memory finds the same table.** -/
theorem walkPgd_of_leafPage {mem : ByteMem} {gaddr : Nat} :
    ∀ {n : Nat}, n ≤ 3 → ∀ {pgd q : Nat}, TablesOk mem n pgd →
      leafPage tableAt (entries mem) (gpuIndex gaddr) n pgd = some q →
      walkPgd mem gaddr n (3 - n) pgd = .ok q := by
  intro n
  induction n with
  | zero =>
      intro _ pgd q _ hleaf
      rw [walkPgd, Option.some.inj hleaf]
  | succ n ih =>
      intro hn pgd q hok hleaf
      obtain ⟨r, hr, hleaf⟩ := Option.bind_eq_some_iff.mp hleaf
      have hidx := gpuIndex_lt gaddr (n + 1)
      have haligned := (hok pgd (root_mem_pages _ _)).1
      have hok' : TablesOk mem n r := fun p hp => hok p (mem_pages_child hidx hr hp)
      obtain ⟨-, hpos, hlt⟩ := hok' r (root_mem_pages _ _)
      have hlevel : 3 - (n + 1) + 1 = 3 - n := by omega
      have htarget : pteToPhysAddr (mem.read64 (pgd + 8 * pgdOffset gaddr (3 - (n + 1)))) = r := by
        have hword : tableAt (mem.read64 (pgd + 8 * pgdOffset gaddr (3 - (n + 1)))) = some r := hr
        generalize mem.read64 (pgd + 8 * pgdOffset gaddr (3 - (n + 1))) = w at hword
        unfold tableAt at hword
        split at hword
        · have hstart := Option.some.inj hword
          rw [pteToPhysAddr_of_lt, hstart]
          unfold pageStart at hstart
          omega
        · cases hword
      have hmap : grMapPage pgd = .ok pgd := if_neg (fun h => h haligned)
      rw [walkPgd, if_neg (not_not.mpr haligned), hmap]
      simp only [Except.ok_bind]
      rw [htarget, if_neg (Nat.ne_of_gt hpos), hlevel]
      exact ih (Nat.le_of_succ_le hn) hok' hleaf

/-! ### Restoring the leaf entries -/

/-- The address is in the part of the region that has pages. -/
def Region.Backs (r : Region) (gaddr : Nat) : Prop :=
  r.Encloses gaddr ∧ (gaddr - r.gmStart) / 4096 < r.nrPages

/-- A region table over the page table at `root`: disjoint aligned ranges, with a frame and a
bottom table for each page. -/
structure RegionTable (t : Tables Nat Nat) (root : Nat) (regions : List Region) : Prop where
  aligned : ∀ r ∈ regions, r.gmStart % 4096 = 0
  bounded : ∀ r ∈ regions, r.gmEnd ≤ 2 ^ 48
  disjoint : regions.Pairwise fun r s => ∀ gaddr, ¬(r.Encloses gaddr ∧ s.Encloses gaddr)
  length : ∀ r ∈ regions, r.pages.length = r.nrPages
  frames : ∀ r ∈ regions, ∀ f ∈ r.pages, f % 4096 = 0 ∧ f < 2 ^ 48
  present : ∀ r ∈ regions, ∀ gaddr, r.Backs gaddr →
    ∃ q, leafPage tableAt t (gpuIndex gaddr) 3 root = some q

theorem RegionTable.tail {t : Tables Nat Nat} {root : Nat} {r : Region} {regions : List Region}
    (h : RegionTable t root (r :: regions)) : RegionTable t root regions where
  aligned := fun s hs => h.aligned s (List.mem_cons_of_mem _ hs)
  bounded := fun s hs => h.bounded s (List.mem_cons_of_mem _ hs)
  disjoint := (List.pairwise_cons.mp h.disjoint).2
  length := fun s hs => h.length s (List.mem_cons_of_mem _ hs)
  frames := fun s hs => h.frames s (List.mem_cons_of_mem _ hs)
  present := fun s hs => h.present s (List.mem_cons_of_mem _ hs)

/-- The nodes lead to every bottom table. -/
def NodesFind (heap : List UserPgtable) (userPgt : UserPtr) (t : Tables Nat Nat) (root : Nat) :
    Prop :=
  ∀ gaddr q, leafPage tableAt t (gpuIndex gaddr) 3 root = some q →
    ∃ c u, grGetUserPgdAtLevel heap userPgt gaddr midgardMmuBottomlevel = .ok (.node c) ∧
      heap[c]? = some u ∧ u.physPage = q

section Restore

variable {heap : List UserPgtable} {userPgt : UserPtr} {mem₀ : ByteMem} {root : Nat}
  (hfind : NodesFind heap userPgt (entries mem₀) root)
  (hnodup : (pages tableAt 512 (entries mem₀) 3 root).Nodup)
  (haligned : ∀ q ∈ pages tableAt 512 (entries mem₀) 3 root, q % 4096 = 0)

include hnodup haligned

/-- **A leaf entry is stored**: its lookup finds it, every other is as before. -/
theorem gpuLookup_write_leaf {mem : ByteMem} {gaddr q x : Nat}
    (hupper : SameUpper tableAt 512 (entries mem₀) (entries mem) 3 root)
    (hleaf₀ : leafPage tableAt (entries mem₀) (gpuIndex gaddr) 3 root = some q) (hx : x < 2 ^ 64) :
    SameUpper tableAt 512 (entries mem₀) (entries (mem.write64 (q + 8 * gpuIndex gaddr 0) x)) 3 root ∧
      gpuLookup (mem.write64 (q + 8 * gpuIndex gaddr 0) x) root gaddr = x ∧
      ∀ other, gpuPage gaddr ≠ gpuPage other →
        gpuLookup (mem.write64 (q + 8 * gpuIndex gaddr 0) x) root other = gpuLookup mem root other := by
  have hix := gpuIndex_lt gaddr
  have hleaf : leafPage tableAt (entries mem) (gpuIndex gaddr) 3 root = some q :=
    (hupper.leafPage_eq hix).trans hleaf₀
  have hnodup' : (pages tableAt 512 (entries mem) 3 root).Nodup := by
    rw [hupper.pages_eq]
    exact hnodup
  have haligned' : ∀ p ∈ pages tableAt 512 (entries mem) 3 root, p % 4096 = 0 := by
    rw [hupper.pages_eq]
    exact haligned
  have hsame : ∀ p ∈ pages tableAt 512 (entries mem) 3 root, ∀ i, i < 512 →
      p ≠ q ∨ i ≠ gpuIndex gaddr 0 →
      entries (mem.write64 (q + 8 * gpuIndex gaddr 0) x) p i = entries mem p i :=
    fun p hp i hi hne =>
      entries_write64_ne mem _ (haligned' p hp) (haligned' q (leafPage_mem hix hleaf)) hi (hix 0) hne
  refine ⟨hupper.trans (sameUpper_store hix hnodup' hleaf hsame), ?_, fun other hne => ?_⟩
  · rw [gpuLookup, lookup_store_self hix hix hnodup' hleaf hsame fun _ _ => rfl]
    exact entries_write64_self mem q _ hx
  · refine lookup_store_ne hix (gpuIndex_lt other) hnodup' hleaf hsame ?_
    by_contra hall
    refine hne (gpuPage_eq_iff.mpr fun k hle => ?_)
    by_contra hk
    exact hall ⟨k, hle, Ne.symm hk⟩

include hfind

/-- **The pages of a region.** -/
theorem restorePagesUncounted_lookup {gmEnd flags : Nat} (hend : gmEnd ≤ 2 ^ 48) :
    ∀ (frames : List Nat) (gaddr : Nat) (mem : ByteMem),
      SameUpper tableAt 512 (entries mem₀) (entries mem) 3 root → (∀ f ∈ frames, f < 2 ^ 48) →
      (∀ i, i < frames.length → gaddr + 4096 * i < gmEnd →
        ∃ q, leafPage tableAt (entries mem₀) (gpuIndex (gaddr + 4096 * i)) 3 root = some q) →
      ∃ mem', restorePagesUncounted heap userPgt gmEnd flags gaddr frames mem = .ok mem' ∧
        SameUpper tableAt 512 (entries mem₀) (entries mem') 3 root ∧
        (∀ i f, frames[i]? = some f → gaddr + 4096 * i < gmEnd →
          gpuLookup mem' root (gaddr + 4096 * i) = grEntryGetAte f flags midgardMmuBottomlevel) ∧
        ∀ other, (∀ i, i < frames.length → gaddr + 4096 * i < gmEnd →
            gpuPage (gaddr + 4096 * i) ≠ gpuPage other) →
          gpuLookup mem' root other = gpuLookup mem root other := by
  intro frames
  induction frames with
  | nil =>
      intro gaddr mem hupper _ _
      exact ⟨mem, rfl, hupper, fun i f hf => by simp at hf, fun _ _ => rfl⟩
  | cons frame frames ih =>
      intro gaddr mem hupper hframes hpresent
      by_cases hlt : gaddr < gmEnd
      · obtain ⟨q, hleaf⟩ := hpresent 0 (Nat.succ_pos _) hlt
        rw [Nat.mul_zero, Nat.add_zero] at hleaf
        obtain ⟨c, u, hwalk, hu, rfl⟩ := hfind gaddr q hleaf
        have hentry : grEntryGetAte frame flags midgardMmuBottomlevel < 2 ^ 64 :=
          Nat.lt_trans (grEntryGetAte_lt (hframes frame List.mem_cons_self) flags) (by decide)
        have hindex : gaddr / 4096 % 512 = gpuIndex gaddr 0 := by
          show _ = gaddr / 4096 / 2 ^ 0 % 512
          rw [Nat.pow_zero, Nat.div_one]
        have hderef : derefPgt heap (.node c) = .ok u := by rw [derefPgt, hu]
        have hnext : (gaddr + 4096) % 2 ^ 64 = gaddr + 4096 := Nat.mod_eq_of_lt (by omega)
        have hshift : ∀ i, gaddr + 4096 * (i + 1) = gaddr + 4096 + 4096 * i := by
          intro i
          omega
        obtain ⟨hupper₁, hself, hother⟩ := gpuLookup_write_leaf hnodup haligned hupper hleaf hentry
        obtain ⟨mem', hrun, hupper', hthese, hrest⟩ := ih (gaddr + 4096) _ hupper₁
          (fun f hf => hframes f (List.mem_cons_of_mem _ hf))
          (fun i hi hin => by
            rw [← hshift]
            exact hpresent (i + 1) (Nat.succ_lt_succ hi) (by omega))
        refine ⟨mem', ?_, hupper', fun i f hf hin => ?_, fun other hne => ?_⟩
        · rw [restorePagesUncounted, if_pos hlt, hwalk, Except.ok_bind, hderef, Except.ok_bind, hindex, hnext]
          exact hrun
        · cases i with
          | zero =>
              obtain rfl := Option.some.inj hf
              rw [Nat.mul_zero, Nat.add_zero, hrest gaddr fun j hj hlt' => ?_]
              · exact hself
              · -- the pages that follow are others
                unfold gpuPage
                omega
          | succ i =>
              rw [hshift]
              exact hthese i f hf (by omega)
        · rw [hrest other fun i hi hin => ?_]
          · exact hother other (hne 0 (Nat.succ_pos _) hlt)
          · rw [← hshift]
            exact hne (i + 1) (Nat.succ_lt_succ hi) (by omega)
      · refine ⟨mem, ?_, hupper, fun i f _ hin => ?_, fun _ _ => rfl⟩
        · rw [restorePagesUncounted, if_neg hlt]
        · omega

/-- **All the regions.** -/
theorem grRestorePteUncounted_lookup :
    ∀ (regions : List Region) (mem : ByteMem), RegionTable (entries mem₀) root regions →
      SameUpper tableAt 512 (entries mem₀) (entries mem) 3 root →
      ∃ mem', grRestorePteUncounted heap userPgt regions mem = .ok mem' ∧
        SameUpper tableAt 512 (entries mem₀) (entries mem') 3 root ∧
        (∀ r ∈ regions, ∀ i f, r.pages[i]? = some f → r.gmStart + 4096 * i < r.gmEnd →
          gpuLookup mem' root (r.gmStart + 4096 * i)
            = grEntryGetAte f r.flags midgardMmuBottomlevel) ∧
        ∀ other, (∀ r ∈ regions, ∀ i, i < r.pages.length → r.gmStart + 4096 * i < r.gmEnd →
            gpuPage (r.gmStart + 4096 * i) ≠ gpuPage other) →
          gpuLookup mem' root other = gpuLookup mem root other := by
  intro regions
  induction regions with
  | nil =>
      intro mem _ hupper
      exact ⟨mem, rfl, hupper, fun r hr => absurd hr List.not_mem_nil, fun _ _ => rfl⟩
  | cons r regions ih =>
      intro mem htable hupper
      have hr : r ∈ r :: regions := List.mem_cons_self
      have hlen := htable.length r hr
      obtain ⟨mem₁, hrun, hupper₁, hthese, hothers⟩ := restorePagesUncounted_lookup hfind hnodup haligned
        (htable.bounded r hr) r.pages r.gmStart mem hupper
        (fun f hf => (htable.frames r hr f hf).2)
        (fun i hi hin => htable.present r hr _ ⟨⟨by omega, hin⟩, by omega⟩)
      obtain ⟨mem', hrest, hupper', hlater, hkept⟩ := ih mem₁ htable.tail hupper₁
      refine ⟨mem', ?_, hupper', ?_, fun other hne => ?_⟩
      · rw [grRestorePteUncounted, hrun, Except.ok_bind]
        exact hrest
      · intro s hs i f hf hin
        rcases List.mem_cons.mp hs with hfirst | hnext
        · subst hfirst
          -- the regions that follow do not have the page
          rw [hkept _ fun t ht j hj hjn => ?_]
          · exact hthese i f hf hin
          · intro hpage
            have hend := htable.bounded s hr
            have hend' := htable.bounded t (List.mem_cons_of_mem _ ht)
            have hstart := htable.aligned s hr
            have hstart' := htable.aligned t (List.mem_cons_of_mem _ ht)
            have hsame : t.gmStart + 4096 * j = s.gmStart + 4096 * i := by
              unfold gpuPage at hpage
              omega
            refine (List.pairwise_cons.mp htable.disjoint).1 t ht (s.gmStart + 4096 * i) ⟨⟨?_, hin⟩, ?_⟩
            · omega
            · rw [← hsame]
              exact ⟨by omega, hjn⟩
        · exact hlater s hnext i f hf hin
      · rw [hkept other fun s hs => hne s (List.mem_cons_of_mem _ hs)]
        exact hothers other (hne r hr)

end Restore

/-! ### The three of them -/

/-- What the walks find for an address of the region: one bottom table, and the frame the
region has for the page. -/
def WalksAgree (heap : List UserPgtable) (userPgt : UserPtr) (root : Nat) (mem : ByteMem)
    (r : Region) (gaddr : Nat) : Prop :=
  ∃ c u frame, grGetUserPgdAtLevel heap userPgt gaddr midgardMmuBottomlevel = .ok (.node c) ∧
    heap[c]? = some u ∧
    grGetPgdAtLevel mem gaddr midgardMmuBottomlevel root = .ok u.physPage ∧
    r.pages[(gaddr - r.gmStart) / 4096]? = some frame ∧
    grTransVaToPa mem root gaddr = .ok (frame + gaddr % 4096)

/-- An address with a bottom table is translated by its leaf entry. -/
theorem grTransVaToPa_of_leafPage {mem : ByteMem} {root gaddr q : Nat} (hok : TablesOk mem 3 root)
    (hleaf : leafPage tableAt (entries mem) (gpuIndex gaddr) 3 root = some q) :
    grGetPgdAtLevel mem gaddr midgardMmuBottomlevel root = .ok q ∧
      grTransVaToPa mem root gaddr
        = .ok (pteToPhysAddr (gpuLookup mem root gaddr) + gaddr % 4096) := by
  have hwalk : grGetPgdAtLevel mem gaddr midgardMmuBottomlevel root = .ok q :=
    walkPgd_of_leafPage (Nat.le_refl 3) hok hleaf
  have hq := (hok q (leafPage_mem (gpuIndex_lt gaddr) hleaf)).1
  have hmap : grMapPage q = .ok q := if_neg (fun h => h hq)
  have hindex : gpuIndex gaddr 0 = gaddr / 4096 % 512 := by
    show gaddr / 4096 / 2 ^ 0 % 512 = _
    rw [Nat.pow_zero, Nat.div_one]
  refine ⟨hwalk, ?_⟩
  unfold grTransVaToPa
  rw [hwalk, Except.ok_bind, hmap, Except.ok_bind, gpuLookup, lookup_of_leafPage hleaf, hindex]
  rfl

/-- Two addresses on one page have the same indices. -/
theorem gpuIndex_congr {a b : Nat} (h : a / 4096 = b / 4096) : gpuIndex a = gpuIndex b := by
  funext k
  unfold gpuIndex pgdOffset
  rw [h]

/-- **What a table that was built has**: its pages come off the front of the pool, and the nodes
lead to every bottom table, whatever `malloc` returned. -/
theorem grConstructPgt_finds {junk : Nat → Nat → UserPtr} {value : List Nat} {offset : Nat}
    {m : Machine} {b : Built} (hvalue : ∀ w ∈ value, w < 2 ^ 64) (hpool : PoolOk m.pool)
    (hbuild : grConstructPgt junk value 3 offset m = .ok b) :
    NodesFind b.machine.heap b.userPgd (entries b.machine.mem) b.pgd ∧
      ∃ k, pages tableAt 512 (entries b.machine.mem) 3 b.pgd = m.pool.take k ∧
        b.machine.pool = m.pool.drop k := by
  -- the same run in memory that was all null
  have hfill := (@grConstructPgt_fill junk _ value 3 offset m (Nat.le_refl _)).1
  have hsame : m.fill junk m.heap.length = m :=
    congrArg (Machine.mk m.mem m.pool) (fillHeap_of_length rfl)
  rw [hsame, hbuild] at hfill
  obtain ⟨b₀, hbuild₀, hb⟩ := Except.bind_eq_ok.mp hfill.symm
  obtain rfl := Except.ok.inj hb
  have hnull : ∀ a i c, nullJunk a i ≠ .node c :=
    fun _ _ c h => by cases show UserPtr.null = .node c from h
  obtain ⟨k, htree⟩ := grConstructPgt_from hvalue hnull 3 offset m b₀ hpool hbuild₀
  refine ⟨fun gaddr q hleaf => ?_, k, htree.walk, htree.pool⟩
  show ∃ c u, grGetUserPgdAtLevel (fillHeap junk m.heap.length b₀.machine.heap) b₀.userPgd gaddr
    midgardMmuBottomlevel = .ok (.node c) ∧ _
  rw [htree.userPgd]
  exact htree.tree.walk_fill junk (Nat.le_refl 3) hleaf

/-- The tables of a dump that is counted by a `uint32_t` have room for fewer than `2 ^ 32` entries. -/
theorem grConstructPgt_few {junk : Nat → Nat → UserPtr} {value : List Nat} {m : Machine} {b : Built}
    (hvalue : ∀ w ∈ value, w < 2 ^ 64) (hwords : value.length < 2 ^ 32) (hpool : PoolOk m.pool)
    (hbuild : grConstructPgt junk value 3 0 m = .ok b) :
    512 * (pages tableAt 512 (entries b.machine.mem) 3 b.pgd).length < 2 ^ 32 := by
  obtain ⟨-, k, htables, hrest⟩ := grConstructPgt_finds hvalue hpool hbuild
  obtain ⟨t, htakes⟩ := grConstructPgt_takes hwords (by decide) (by decide) hbuild
  have hframes := htakes.frames
  have hoffset := htakes.offset
  have hroom := htakes.room
  rw [hrest, List.length_drop] at hframes
  rw [htables, List.length_take]
  omega

/-- **The three walks agree** after `gr_restore_pte`, in every region, whatever its flags are and
whatever `malloc` returned. -/
theorem walks_agree {junk : Nat → Nat → UserPtr} {value : List Nat} {m : Machine} {b : Built}
    (hvalue : ∀ w ∈ value, w < 2 ^ 64) (hwords : value.length < 2 ^ 32) (hpool : PoolOk m.pool)
    (hframes : ∀ f ∈ m.pool, 0 < f ∧ f < 2 ^ 48)
    (hbuild : grConstructPgt junk value 3 0 m = .ok b) {regions : List Region}
    (hregions : RegionTable (entries b.machine.mem) b.pgd regions) {mem : ByteMem}
    (hmem : SameUpper tableAt 512 (entries b.machine.mem) (entries mem) 3 b.pgd) {fuel : Nat}
    (hfuel : 2 ^ 32 ≤ fuel) :
    ∃ mem', grRestorePte b.machine.heap b.userPgd fuel regions mem = some (.ok mem') ∧
      ∀ r ∈ regions, ∀ gaddr, r.Backs gaddr →
        WalksAgree b.machine.heap b.userPgd b.pgd mem' r gaddr := by
  obtain ⟨hfind, k, htables, -⟩ := grConstructPgt_finds hvalue hpool hbuild
  have hin : ∀ p ∈ pages tableAt 512 (entries b.machine.mem) 3 b.pgd, p ∈ m.pool :=
    fun p hp => List.mem_of_mem_take (htables ▸ hp)
  have hnodup : (pages tableAt 512 (entries b.machine.mem) 3 b.pgd).Nodup :=
    htables ▸ hpool.nodup.sublist (List.take_sublist _ _)
  have haligned := fun p hp => hpool.aligned p (hin p hp)
  obtain ⟨mem', hrun, hupper, hthese, -⟩ :=
    grRestorePteUncounted_lookup hfind hnodup haligned regions mem hregions hmem
  -- the counters do not overflow: every page that is backed has a leaf entry
  have hfew : ∀ r ∈ regions, r.pages.length = r.nrPages ∧ r.addrs.length < 2 ^ 32 := by
    intro r hr
    have hend := hregions.bounded r hr
    refine ⟨hregions.length r hr, ?_⟩
    obtain ⟨j, hj, hnone⟩ := leafPage_missing hnodup
      (grConstructPgt_few hvalue hwords hpool hbuild) (Nat.pow_le_pow_right (by decide)
      (show 32 ≤ 36 by decide)) r.gmStart
    refine Nat.lt_of_not_le fun hmany => ?_
    by_cases hstart : r.gmStart < 2 ^ 48
    · obtain ⟨-, hlt, hn⟩ := getElem?_loopAddrs (Nat.lt_trans hstart (by decide))
        (Nat.lt_of_lt_of_le hj hmany)
      rw [hregions.length r hr] at hn
      obtain ⟨q, hq⟩ := hregions.present r hr (r.gmStart + 4096 * j)
        ⟨⟨Nat.le_add_right _ _, by omega⟩, by omega⟩
      exact hnone q hq
    · have hnil : r.addrs = [] := by
        unfold Region.addrs
        cases r.pages.length with
        | zero => rfl
        | succ n => exact if_neg (by omega)
      rw [hnil] at hmany
      exact absurd hmany (by decide)
  refine ⟨mem', (grRestorePte_eq hfuel hfew).trans (congrArg some hrun), fun r hr gaddr hbacks => ?_⟩
  have hpages : TablesOk mem' 3 b.pgd := by
    intro p hp
    rw [hupper.pages_eq] at hp
    obtain ⟨hpos, hlt⟩ := hframes p (hin p hp)
    exact ⟨hpool.aligned p (hin p hp), hpos, hlt⟩
  obtain ⟨q, hleaf⟩ := hregions.present r hr gaddr hbacks
  obtain ⟨c, u, huser, hu, rfl⟩ := hfind gaddr q hleaf
  obtain ⟨hwalk, htrans⟩ := grTransVaToPa_of_leafPage hpages
    ((hupper.leafPage_eq (gpuIndex_lt gaddr)).trans hleaf)
  obtain ⟨⟨hstart, hend⟩, hindex⟩ := hbacks
  have hlt : (gaddr - r.gmStart) / 4096 < r.pages.length := by
    rw [hregions.length r hr]
    exact hindex
  -- the page of the address
  have hpage := hthese r hr _ _ (List.getElem?_eq_getElem hlt) (by omega)
  have hdiv : gaddr / 4096 = (r.gmStart + 4096 * ((gaddr - r.gmStart) / 4096)) / 4096 := by
    have := hregions.aligned r hr
    omega
  have hlookup : gpuLookup mem' b.pgd gaddr
      = grEntryGetAte r.pages[(gaddr - r.gmStart) / 4096] r.flags midgardMmuBottomlevel := by
    rw [gpuLookup, gpuIndex_congr hdiv]
    exact hpage
  obtain ⟨hframe, hbound⟩ := hregions.frames r hr _ (List.getElem_mem hlt)
  rw [hlookup, pteToPhysAddr_grEntryGetAte hframe hbound] at htrans
  exact ⟨c, u, _, huser, hu, hwalk, List.getElem?_eq_getElem hlt, htrans⟩

/-- One region of one page, in the first of the pages that the chain maps. -/
def chainRegion : Region := ⟨0, 4096, [0x9000], 1, 0, 0, 0⟩

/-- The walks agree on it after the chain has been rebuilt. -/
theorem walks_agree_chain :
    ((∀ w ∈ blocks (pageMem chainWord) 3 (4096 * 1), w < 2 ^ 64) ∧
      (blocks (pageMem chainWord) 3 (4096 * 1)).length < 2 ^ 32 ∧ PoolOk chainMachine.pool ∧
      ∀ f ∈ chainMachine.pool, 0 < f ∧ f < 2 ^ 48) ∧
    ∃ b, grConstructPgt zeroJunk.node (blocks (pageMem chainWord) 3 (4096 * 1)) 3 0 chainMachine
        = .ok b ∧
      RegionTable (entries b.machine.mem) b.pgd [chainRegion] ∧
      ∃ mem', grRestorePte b.machine.heap b.userPgd (2 ^ 32) [chainRegion] b.machine.mem
          = some (.ok mem') ∧ WalksAgree b.machine.heap b.userPgd b.pgd mem' chainRegion 8 := by
  have hpool := chainMachine_pool.1
  have hframes : ∀ f ∈ chainMachine.pool, 0 < f ∧ f < 2 ^ 48 := by decide
  have hvalue : ∀ w ∈ blocks (pageMem chainWord) 3 (4096 * 1), w < 2 ^ 64 := fun w hw =>
    (blocks_ok 3 (4096 * 1) laidOut_chain.written w hw).1
  have hlen := laidOut_chain.length
  have hwords : (blocks (pageMem chainWord) 3 (4096 * 1)).length < 2 ^ 32 := by
    rw [length_blocks, hlen]
    decide
  obtain ⟨b, hbuild, hbuilt⟩ := @grConstructPgt_built (pageMem chainWord)
    (blocks (pageMem chainWord) 3 (4096 * 1)) zeroJunk.node hwords 3 (4096 * 1) [] []
    chainMachine laidOut_chain.written (by rw [List.nil_append, List.append_nil]) hpool
    (by rw [hlen]; decide)
  obtain ⟨k, htree⟩ := grConstructPgt_from hvalue chainJunk_ok.node 3 0 chainMachine b hpool hbuild
  have hregions : RegionTable (entries b.machine.mem) b.pgd [chainRegion] := {
    aligned := by decide
    bounded := by decide
    disjoint := List.pairwise_singleton ..
    length := by decide
    frames := by decide
    present := by
      intro r hr gaddr hbacks
      obtain rfl := List.mem_singleton.mp hr
      have hlow : gaddr < 4096 := hbacks.1.2
      obtain ⟨ptr, u, hwalk, hu⟩ := hbuilt.copied.walk (Nat.le_refl 3)
        (leafPage_chain (Nat.lt_trans hlow (by decide)))
      exact ⟨_, htree.tree.walk (Nat.le_refl 3) hwalk hu⟩ }
  obtain ⟨mem', hrun, hagree⟩ :=
    walks_agree hvalue hwords hpool hframes hbuild hregions (SameUpper.refl 3 b.pgd)
      (Nat.le_refl (2 ^ 32))
  exact ⟨⟨hvalue, hwords, hpool, hframes⟩, b, hbuild, hregions, mem', hrun,
    hagree chainRegion (List.mem_singleton_self _) 8 ⟨by decide, by decide⟩⟩

end GpuReplay.Replayer
