/-
The loops of `gr_utils.c` without their counters.

`gr_mem_contents_check`, `gr_restore_pte` and `gr_clean_invalid_region` count the pages of a region
with a `uint32_t`.  Where there are fewer than `2 ^ 32` of them the counter does not matter, and the
loop is one over the list of the pages: what is proved of the lists here holds of the loops then.
-/
import GpuReplay.Lib.Except
import GpuReplay.Replayer.MemCheck

namespace GpuReplay.Replayer

open Stdio

/-! ### The loops over lists -/

/-- The page loop, over the pages not yet checked.  The address it counts with is the
variable the triples are read into. -/
def checkPagesUncounted (gmEnd : Nat) : List Nat → CheckState → Except Stop CheckState
  | [], s => .ok s
  | newPage :: pages, s =>
      if s.gaddr < gmEnd then do
        let s ← checkPage newPage s
        checkPagesUncounted gmEnd pages { s with gaddr := (s.gaddr + 4096) % 2 ^ 64 }
      else
        .ok s

def checkRegionUncounted (region : Region) (l : Locals) (f : Stream) (mem : ByteMem) :
    Except Stop (Locals × Stream × ByteMem) := do
  let (l, f) := readHeader l f
  if l.isValid ≠ 0 then do
    let s ← checkPagesUncounted region.gmEnd region.pages ⟨f, region.gmStart, l.paddr, l.buf, false, mem⟩
    return ({ l with paddr := s.paddr, buf := s.buf }, s.stream, s.mem)
  else
    return (l, f, mem)

def checkRegionsUncounted : List Region → Locals → Stream → ByteMem → Except Stop ByteMem
  | [], _, f, mem => if f.eof then .ok mem else .error .undefined
  | region :: regions, l, f, mem =>
      if f.eof then .ok mem
      else do
        let (l, f, mem) ← checkRegionUncounted region l f mem
        checkRegionsUncounted regions l f mem

def grMemContentsCheckUncounted (regions unused : List Region) (locals : Locals) (file : List UInt8)
    (mem : ByteMem) : Except Stop ByteMem :=
  checkRegionsUncounted (regions ++ unused) locals (Stream.open file) mem

/-- `gr_restore_pte`, over the pages not yet restored. -/
def restorePagesUncounted (heap : List UserPgtable) (userPgt : UserPtr) (gmEnd flags : Nat) :
    Nat → List Nat → ByteMem → Except Stop ByteMem
  | _, [], mem => .ok mem
  | gaddr, targetPage :: pages, mem =>
      if gaddr < gmEnd then do
        let targetPgt ← grGetUserPgdAtLevel heap userPgt gaddr midgardMmuBottomlevel
        let pgdPage ← derefPgt heap targetPgt
        let newPte := grEntryGetAte targetPage flags midgardMmuBottomlevel
        restorePagesUncounted heap userPgt gmEnd flags ((gaddr + 4096) % 2 ^ 64) pages
          (mem.write64 (pgdPage.physPage + 8 * (gaddr / 4096 % 512)) newPte)
      else
        .ok mem

def grRestorePteUncounted (heap : List UserPgtable) (userPgt : UserPtr) :
    List Region → ByteMem → Except Stop ByteMem
  | [], mem => .ok mem
  | region :: regions, mem => do
      let mem ← restorePagesUncounted heap userPgt region.gmEnd region.flags region.gmStart region.pages mem
      grRestorePteUncounted heap userPgt regions mem

/-- The loop over the pages of a region, `n` to go from page `j` on. -/
def cleanPagesUncounted (regions : List Region) (gmStart : Nat) :
    Nat → Nat → ByteMem → Except Stop ByteMem
  | 0, _, mem => .ok mem
  | n + 1, j, mem => do
      let (mem, _) ← grCopyToGpu regions mem ((gmStart + j * 4096) % 2 ^ 64)
        (List.replicate 4096 0) 4096
      cleanPagesUncounted regions gmStart n (j + 1) mem

def cleanRegionsUncounted (regions : List Region) : List Region → ByteMem → Except Stop ByteMem
  | [], mem => .ok mem
  | region :: rest, mem => do
      let mem ← if region.isValid = 0 then cleanPagesUncounted regions region.gmStart region.nrPages 0 mem
        else pure mem
      cleanRegionsUncounted regions rest mem

def grCleanInvalidRegionUncounted (regions : List Region) (mem : ByteMem) : Except Stop ByteMem :=
  cleanRegionsUncounted regions regions mem

/-! ### Below `2 ^ 32` pages -/

/-- The page after one of the list. -/
theorem pageAt_drop {pages rest : List Nat} {i page : Nat} (h : pages.drop i = page :: rest) :
    pageAt pages i = .ok page ∧ pages.drop (i + 1) = rest := by
  have hget : pages[i]? = some page := by
    rw [← List.head?_drop, h]
    rfl
  unfold pageAt
  rw [hget, ← List.tail_drop, h]
  exact ⟨rfl, rfl⟩

section Check

variable {region : Region}

/-- **The check of a region**, from one of its pages on. -/
theorem checkPages_eq (hlength : region.pages.length = region.nrPages)
    (hfew : region.nrPages < 2 ^ 32) :
    ∀ {fuel pageCnt : Nat} {s : CheckState}, region.nrPages < fuel + pageCnt →
      pageCnt ≤ region.nrPages →
      checkPages region fuel pageCnt s =
        some (checkPagesUncounted region.gmEnd (region.pages.drop pageCnt) s) := by
  intro fuel
  induction fuel with
  | zero => exact fun hfuel hcnt => by omega
  | succ fuel ih =>
      intro pageCnt s hfuel hcnt
      rw [checkPages]
      cases hdrop : region.pages.drop pageCnt with
      | nil =>
          have hend := List.drop_eq_nil_iff.mp hdrop
          rw [if_neg fun h => absurd h.2 (by omega), checkPagesUncounted]
      | cons newPage rest =>
          obtain ⟨hpage, hrest⟩ := pageAt_drop hdrop
          have hlt : pageCnt < region.nrPages := by
            have := congrArg List.length hdrop
            rw [List.length_drop, List.length_cons] at this
            omega
          have hnext : (pageCnt + 1) % 2 ^ 32 = pageCnt + 1 := Nat.mod_eq_of_lt (by omega)
          rw [checkPagesUncounted]
          by_cases hin : s.gaddr < region.gmEnd
          · rw [if_pos ⟨hin, hlt⟩, if_pos hin, hpage, Except.ok_bind, hnext]
            cases checkPage newPage s with
            | error e => rfl
            | ok s =>
                rw [Except.ok_bind, ← hrest]
                exact ih (by omega) hlt
          · rw [if_neg fun h => hin h.1, if_neg hin]

/-- More fuel does no harm. -/
theorem checkPages_mono {s' : CheckState} :
    ∀ {fuel more pageCnt : Nat} {s : CheckState}, fuel ≤ more →
      checkPages region fuel pageCnt s = some (.ok s') →
      checkPages region more pageCnt s = some (.ok s') := by
  intro fuel
  induction fuel with
  | zero => exact fun _ h => by cases h
  | succ fuel ih =>
      intro more pageCnt s hle h
      obtain ⟨more, rfl⟩ := Nat.exists_eq_add_of_lt (Nat.lt_of_lt_of_le (Nat.succ_pos fuel) hle)
      rw [Nat.zero_add] at hle ⊢
      rw [checkPages] at h ⊢
      by_cases hturn : s.gaddr < region.gmEnd ∧ pageCnt < region.nrPages
      · rw [if_pos hturn] at h ⊢
        cases hpage : pageAt region.pages pageCnt >>= fun newPage => checkPage newPage s with
        | error e =>
            rw [hpage] at h
            cases h
        | ok s₁ =>
            rw [hpage] at h
            exact ih (Nat.le_of_succ_le_succ hle) h
      · rw [if_neg hturn] at h ⊢
        exact h

theorem checkRegion_eq {fuel : Nat} {l : Locals} {f : Stream} {mem : ByteMem}
    (hlength : region.pages.length = region.nrPages)
    (hfew : (readHeader l f).1.isValid ≠ 0 → region.nrPages < 2 ^ 32) (hfuel : 2 ^ 32 ≤ fuel) :
    checkRegion region fuel l f mem = some (checkRegionUncounted region l f mem) := by
  unfold checkRegion checkRegionUncounted
  dsimp only
  by_cases hvalid : (readHeader l f).1.isValid ≠ 0
  · rw [if_pos hvalid, if_pos hvalid,
      checkPages_eq hlength (hfew hvalid) (by have := hfew hvalid; omega) (Nat.zero_le _),
      List.drop_zero]
    cases checkPagesUncounted region.gmEnd region.pages ⟨(readHeader l f).2, region.gmStart,
      (readHeader l f).1.paddr, (readHeader l f).1.buf, false, mem⟩ with
    | error e => rfl
    | ok s => rfl
  · rw [if_neg hvalid, if_neg hvalid]
    rfl

end Check

/-! ### The addresses of a region -/

/-- The addresses that a page loop with `n` pages goes through, from `gaddr` on. -/
def loopAddrs (gmEnd : Nat) : Nat → Nat → List Nat
  | 0, _ => []
  | n + 1, gaddr =>
      if gaddr < gmEnd then gaddr :: loopAddrs gmEnd n ((gaddr + 4096) % 2 ^ 64) else []

/-- The pages of a region that have a frame. -/
def Region.addrs (r : Region) : List Nat := loopAddrs r.gmEnd r.pages.length r.gmStart

theorem length_loopAddrs_le (gmEnd n gaddr : Nat) : (loopAddrs gmEnd n gaddr).length ≤ n := by
  induction n generalizing gaddr with
  | zero => exact Nat.le_refl 0
  | succ n ih =>
      rw [loopAddrs]
      split
      · exact Nat.succ_le_succ (ih _)
      · exact Nat.zero_le _

/-- The address in place `j`. -/
theorem getElem?_loopAddrs {gmEnd : Nat} :
    ∀ {n gaddr j : Nat}, gaddr < 2 ^ 64 → j < (loopAddrs gmEnd n gaddr).length →
      (loopAddrs gmEnd n gaddr)[j]? = some ((gaddr + 4096 * j) % 2 ^ 64) ∧
        (gaddr + 4096 * j) % 2 ^ 64 < gmEnd ∧ j < n := by
  intro n
  induction n with
  | zero => exact fun _ hj => absurd hj (Nat.not_lt_zero _)
  | succ n ih =>
      intro gaddr j hgaddr hj
      rw [loopAddrs] at hj ⊢
      by_cases hin : gaddr < gmEnd
      · rw [if_pos hin] at hj ⊢
        cases j with
        | zero =>
            rw [show (gaddr + 4096 * 0) % 2 ^ 64 = gaddr by omega]
            exact ⟨rfl, hin, Nat.succ_pos n⟩
        | succ j =>
            obtain ⟨hget, hlt, hn⟩ := ih (Nat.mod_lt _ (by decide)) (Nat.lt_of_succ_lt_succ hj)
            have hmod : ((gaddr + 4096) % 2 ^ 64 + 4096 * j) % 2 ^ 64 =
                (gaddr + 4096 * (j + 1)) % 2 ^ 64 := by omega
            rw [hmod] at hget hlt
            exact ⟨hget, hlt, Nat.succ_lt_succ hn⟩
      · rw [if_neg hin] at hj
        exact absurd hj (Nat.not_lt_zero _)

section Restore

variable {heap : List UserPgtable} {userPgt : UserPtr} {region : Region}

/-- **The restoring of a region**, from one of its pages on. -/
theorem restorePages_eq (hlength : region.pages.length = region.nrPages) :
    ∀ {fuel gaddr pageCnt : Nat} {mem : ByteMem},
      pageCnt + (loopAddrs region.gmEnd (region.pages.drop pageCnt).length gaddr).length < 2 ^ 32 →
      2 ^ 32 ≤ fuel + pageCnt →
      restorePages heap userPgt region fuel gaddr pageCnt mem =
        some (restorePagesUncounted heap userPgt region.gmEnd region.flags gaddr
          (region.pages.drop pageCnt) mem) := by
  intro fuel
  induction fuel with
  | zero => exact fun hfew hfuel => by omega
  | succ fuel ih =>
      intro gaddr pageCnt mem hfew hfuel
      rw [restorePages]
      cases hdrop : region.pages.drop pageCnt with
      | nil =>
          have hend := List.drop_eq_nil_iff.mp hdrop
          rw [if_neg fun h => absurd h.2 (by omega), restorePagesUncounted]
      | cons targetPage rest =>
          obtain ⟨hpage, hrest⟩ := pageAt_drop hdrop
          have hlt : pageCnt < region.nrPages := by
            have := congrArg List.length hdrop
            rw [List.length_drop, List.length_cons] at this
            omega
          rw [hdrop, List.length_cons, loopAddrs] at hfew
          rw [restorePagesUncounted]
          by_cases hin : gaddr < region.gmEnd
          · rw [if_pos hin, List.length_cons, ← hrest] at hfew
            have hnext : (pageCnt + 1) % 2 ^ 32 = pageCnt + 1 := Nat.mod_eq_of_lt (by omega)
            rw [if_pos ⟨hin, hlt⟩, if_pos hin, restorePage, hpage, hnext]
            cases grGetUserPgdAtLevel heap userPgt gaddr midgardMmuBottomlevel with
            | error e => rfl
            | ok targetPgt =>
                rw [Except.ok_bind, Except.ok_bind]
                cases derefPgt heap targetPgt with
                | error e => rfl
                | ok pgdPage =>
                    rw [Except.ok_bind, Except.ok_bind, Except.ok_bind, ← hrest]
                    exact ih (by omega) (by omega)
          · rw [if_neg fun h => hin h.1, if_neg hin]

/-- **All regions**, where no region has more pages to restore than are counted. -/
theorem grRestorePte_eq {fuel : Nat} (hfuel : 2 ^ 32 ≤ fuel) :
    ∀ {regions : List Region} {mem : ByteMem},
      (∀ r ∈ regions, r.pages.length = r.nrPages ∧ r.addrs.length < 2 ^ 32) →
      grRestorePte heap userPgt fuel regions mem =
        some (grRestorePteUncounted heap userPgt regions mem) := by
  intro regions
  induction regions with
  | nil => exact fun _ => rfl
  | cons region regions ih =>
      intro mem hfew
      obtain ⟨⟨hlength, haddrs⟩, hrest⟩ := List.forall_mem_cons.mp hfew
      rw [grRestorePte, grRestorePteUncounted, restorePages_eq hlength (by
        rw [List.drop_zero, Nat.zero_add]
        exact haddrs) hfuel, List.drop_zero]
      cases restorePagesUncounted heap userPgt region.gmEnd region.flags region.gmStart region.pages
        mem with
      | error e => rfl
      | ok mem => exact ih hrest

end Restore

/-! ### Cleaning -/

/-- **Below `2 ^ 32` pages the counter makes no difference.** -/
theorem cleanPages_eq {regions : List Region} {r : Region} (hfew : r.nrPages < 2 ^ 32) :
    ∀ {fuel j : Nat} {mem : ByteMem}, r.nrPages < fuel + j → j ≤ r.nrPages →
      cleanPages regions r fuel j mem
        = some (cleanPagesUncounted regions r.gmStart (r.nrPages - j) j mem) := by
  intro fuel
  induction fuel with
  | zero => exact fun hfuel hj => by omega
  | succ fuel ih =>
      intro j mem hfuel hj
      rw [cleanPages]
      by_cases hend : j < r.nrPages
      · have hnext : (j + 1) % 2 ^ 32 = j + 1 := Nat.mod_eq_of_lt (by omega)
        obtain ⟨n, hn⟩ : ∃ n, r.nrPages - j = n + 1 := ⟨r.nrPages - (j + 1), by omega⟩
        rw [if_pos hend, hn, cleanPagesUncounted, hnext]
        cases grCopyToGpu regions mem ((r.gmStart + j * 4096) % 2 ^ 64) (List.replicate 4096 0)
          4096 with
        | error e => rfl
        | ok copied =>
            have hrest : r.nrPages - (j + 1) = n := by omega
            have hloop := @ih (j + 1) copied.1 (by omega) (by omega)
            rw [hrest] at hloop
            exact hloop
      · rw [if_neg hend, Nat.sub_eq_zero_of_le (Nat.not_lt.mp hend), cleanPagesUncounted]

theorem cleanRegions_eq {regions : List Region} {fuel : Nat} :
    ∀ {rs : List Region} {mem : ByteMem},
      (∀ r ∈ rs, r.isValid = 0 → r.nrPages < 2 ^ 32 ∧ r.nrPages < fuel) →
      cleanRegions regions fuel rs mem = some (cleanRegionsUncounted regions rs mem) := by
  intro rs
  induction rs with
  | nil => exact fun _ => rfl
  | cons r rs ih =>
      intro mem hfew
      obtain ⟨hr, hrest⟩ := List.forall_mem_cons.mp hfew
      rw [cleanRegions, cleanRegionsUncounted]
      by_cases hvalid : r.isValid = 0
      · obtain ⟨hr32, hrfuel⟩ := hr hvalid
        rw [if_pos hvalid, if_pos hvalid,
          cleanPages_eq hr32 (by omega) (Nat.zero_le _), Nat.sub_zero]
        cases cleanPagesUncounted regions r.gmStart r.nrPages 0 mem with
        | error e => rfl
        | ok mem => exact ih hrest
      · rw [if_neg hvalid, if_neg hvalid]
        exact ih hrest

end GpuReplay.Replayer
