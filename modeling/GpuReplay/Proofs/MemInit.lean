/-
What loading a memory dump leaves behind.

One record is `initRegion_record`; the rest is an induction over the records.

The loop does not end with them.  Reading the last byte leaves `feof` clear, so the
body runs once more; its reads fail and leave the header of the last record in the
variables, and the context gains a region the dump does not have, with frames and leaf
entries of its own.  `grMemContentsInit_dump` is the state a dump really loads to, and
`dump_not_loaded` is what follows for the round trip.
-/
import GpuReplay.Proofs.RecordLoad

namespace GpuReplay.Replayer

open Stdio ByteMem

/-! ### The whole file -/

/-- A dump of some records. -/
def dump (recs : List McRecord) : List UInt8 := recs.flatMap McRecord.bytes

/-- How many frames the records ask for. -/
def totalNents (recs : List McRecord) : Nat := (recs.map McRecord.nents).sum

/-- The regions of the records, on the frames of a pool. -/
def regionsOf : List McRecord → List Nat → List Region
  | [], _ => []
  | rec :: recs, pool => rec.region (pool.take rec.nents) :: regionsOf recs (pool.drop rec.nents)

/-- What the records do to memory. -/
def storeRecords (slot : Nat → Nat) : List McRecord → List Nat → ByteMem → ByteMem
  | [], _, mem => mem
  | rec :: recs, pool, mem => storeRecords slot recs (pool.drop rec.nents)
      (storePages slot rec.flags rec.gmStart ((pool.take rec.nents).zip rec.contents) mem)

/-- What the page buffer holds after the records. -/
def bufAfter (recs : List McRecord) (buf : List UInt8) : List UInt8 :=
  recs.foldl (fun buf rec => rec.lastPage buf) buf

section File

variable {heap : List UserPgtable} {userPgt : UserPtr}

/-- The loop, as long as there are records. -/
theorem initRegions_records {k : Nat} :
    ∀ (recs : List McRecord) (s : McState) (rest : List UInt8),
      (∀ rec ∈ recs, rec.WF ∧ HasLeaves heap userPgt rec.gmStart rec.nents) →
      (∀ frame ∈ s.pool, frame % 4096 = 0) → s.locals.paddr < 2 ^ 64 →
      s.locals.buf.length = 4096 → s.stream = ⟨dump recs ++ rest, false⟩ →
      totalNents recs ≤ s.pool.length →
      ∃ s', initRegions heap userPgt (recs.length + k) s = initRegions heap userPgt k s' ∧
        s'.stream = ⟨rest, false⟩ ∧ (∀ d, (recs = [] → s.locals.After d) →
          s'.locals.After (recs.getLastD d)) ∧
        s'.locals.paddr < 2 ^ 64 ∧ s'.locals.buf.length = 4096 ∧
        s'.mem = storeRecords (leafSlot heap userPgt) recs s.pool s.mem ∧
        s'.pool = s.pool.drop (totalNents recs) ∧
        s'.regions = s.regions ++ regionsOf recs s.pool ∧
        s'.totNrPages % 2 ^ 32 = (s.totNrPages + totalNents recs) % 2 ^ 32 ∧
        s'.locals.buf = bufAfter recs s.locals.buf := by
  intro recs
  induction recs with
  | nil =>
      intro s rest _ _ hpaddr hbuf hstream _
      refine ⟨s, by rw [List.length_nil, Nat.zero_add], hstream, ?_, hpaddr, hbuf, rfl, rfl, ?_, rfl,
        rfl⟩
      · intro d hd
        exact hd rfl
      · exact (List.append_nil _).symm
  | cons rec recs ih =>
      intro s rest hrecs hpool hpaddr hbuf hstream henough
      obtain ⟨hwf, hleaves⟩ := hrecs rec List.mem_cons_self
      have hsum : totalNents (rec :: recs) = rec.nents + totalNents recs := rfl
      rw [hsum] at henough
      have hstream' : s.stream = ⟨rec.bytes ++ (dump recs ++ rest), false⟩ := by
        rw [hstream, dump, List.flatMap_cons, List.append_assoc, dump]
      obtain ⟨s₁, hturn, hafter, hlastPage⟩ := initRegion_record hwf hleaves hpool hpaddr hbuf
        (by omega) hstream'
      obtain ⟨s₂, hrun, hstream₂, hlast, hpaddr₂, hbuf₂, hmem, hpool₂, hregions, htot, hlocal⟩ :=
        ih s₁ rest (fun r hr => hrecs r (List.mem_cons_of_mem _ hr))
          (fun frame h => hpool frame (List.mem_of_mem_drop (hafter.pool ▸ h)))
          hafter.locals.paddr hafter.locals.buf hafter.stream
          (by rw [hafter.pool, List.length_drop]; omega)
      refine ⟨s₂, ?_, hstream₂, ?_, hpaddr₂, hbuf₂, ?_, ?_, ?_, ?_, ?_⟩
      · have hone : (rec :: recs).length + k = recs.length + k + 1 := by
          rw [List.length_cons]
          omega
        rw [hone, initRegions, hstream, if_neg Bool.false_ne_true, hturn, Except.ok_bind, hrun]
      · intro d _
        rw [List.getLastD_cons]
        exact hlast rec fun _ => hafter.locals
      · rw [hmem, hafter.mem, hafter.pool]
        rfl
      · rw [hpool₂, hafter.pool, List.drop_drop, hsum]
      · rw [hregions, hafter.regions, hafter.pool, List.append_assoc]
        rfl
      · rw [htot, hafter.totNrPages, hsum]
        omega
      · rw [hlocal, hlastPage]
        rfl

/-- Without the frames the records ask for, the loop does not return. -/
theorem initRegions_short {k : Nat} :
    ∀ (recs : List McRecord) (s : McState) (rest : List UInt8),
      (∀ rec ∈ recs, rec.WF ∧ HasLeaves heap userPgt rec.gmStart rec.nents) →
      (∀ frame ∈ s.pool, frame % 4096 = 0) → s.locals.paddr < 2 ^ 64 →
      s.locals.buf.length = 4096 → s.stream = ⟨dump recs ++ rest, false⟩ →
      ¬ totalNents recs ≤ s.pool.length →
      initRegions heap userPgt (recs.length + k) s = .error .undefined := by
  intro recs
  induction recs with
  | nil => intro s rest _ _ _ _ _ hshort; exact absurd (Nat.zero_le _) hshort
  | cons rec recs ih =>
      intro s rest hrecs hpool hpaddr hbuf hstream hshort
      obtain ⟨hwf, hleaves⟩ := hrecs rec List.mem_cons_self
      have hsum : totalNents (rec :: recs) = rec.nents + totalNents recs := rfl
      have hone : (rec :: recs).length + k = recs.length + k + 1 := by
        rw [List.length_cons]
        omega
      have hstream' : s.stream = ⟨rec.bytes ++ (dump recs ++ rest), false⟩ := by
        rw [hstream, dump, List.flatMap_cons, List.append_assoc, dump]
      have hflag : s.stream.eof = false := by rw [hstream]
      rw [hone, initRegions, if_neg (by rw [hflag]; exact Bool.false_ne_true)]
      by_cases henough : rec.nents ≤ s.pool.length
      · obtain ⟨s₁, hturn, hafter, -⟩ := initRegion_record hwf hleaves hpool hpaddr hbuf henough
          hstream'
        rw [hturn, Except.ok_bind]
        refine ih s₁ rest (fun r hr => hrecs r (List.mem_cons_of_mem _ hr))
          (fun frame h => hpool frame (List.mem_of_mem_drop (hafter.pool ▸ h)))
          hafter.locals.paddr hafter.locals.buf hafter.stream ?_
        rw [hafter.pool, List.length_drop]
        omega
      · have hheader := readHeader_record hwf s.locals (dump recs ++ rest) false
        rw [← hstream'] at hheader
        rw [initRegion_short hheader henough]
        rfl

/-- What a dump is loaded with: the claimed bounds of its list of records, the
bottom-level tables, and a pool of distinct page-aligned frames. -/
structure DumpInput (m : Machine) (userPgt : UserPtr) (locals : Locals) (recs : List McRecord) :
    Prop where
  count : 1 ≤ recs.length ∧ recs.length < 128
  wf : ∀ rec ∈ recs, rec.WF
  disjoint : recs.Pairwise fun r t => r.gmEnd ≤ t.gmStart ∨ t.gmEnd ≤ r.gmStart
  leaves : ∀ rec ∈ recs, HasLeaves m.heap userPgt rec.gmStart rec.nents
  frames : ∀ frame ∈ m.pool, frame % 4096 = 0
  distinct : m.pool.Nodup
  /-- `paddr` and `buf` hold whatever fits them. -/
  locals : locals.paddr < 2 ^ 64 ∧ locals.buf.length = 4096

/-- The header a region was made from. -/
def Region.header (r : Region) : Nat × Nat × Nat × Nat × Nat :=
  (r.gmStart, r.gmEnd, r.nrPages, r.flags, r.isValid)

/-- The context holds the dump: its regions, on the first frames of the pool, with the
recorded pages in them and leaf entries that point at them. -/
structure Loaded (m : Machine) (userPgt : UserPtr) (recs : List McRecord) (s : McState) :
    Prop where
  regions : s.regions.map Region.header
    = recs.map fun rec => (rec.gmStart, rec.gmEnd, rec.nents, rec.flags, rec.isValid.toNat)
  taken : s.regions.flatMap Region.pages = m.pool.take (totalNents recs) ∧
    s.pool = m.pool.drop (totalNents recs)
  totNrPages : s.totNrPages = totalNents recs
  pages : ∀ (i j : Nat) (rec : McRecord) (r : Region) (q : Nat × List UInt8), recs[i]? = some rec →
    s.regions[i]? = some r → rec.pages[j]? = some q →
      ∃ frame, r.pages[j]? = some frame ∧ s.mem.read frame 4096 = q.2
  leaves : ∀ (i j : Nat) (rec : McRecord) (r : Region), recs[i]? = some rec →
    s.regions[i]? = some r → j < rec.nents → ∃ frame, r.pages[j]? = some frame ∧
      s.mem.read64 (leafSlot m.heap userPgt (rec.gmStart + 4096 * j))
        = grEntryGetAte frame rec.flags midgardMmuBottomlevel

section Input

variable {m : Machine} {locals : Locals} {recs : List McRecord}
  (h : DumpInput m userPgt locals recs)

include h

/-- The loop on the records of the input, with all their frames there. -/
theorem initRegions_input {last : McRecord} (hlast : recs.getLast? = some last)
    (henough : totalNents recs ≤ m.pool.length) :
    ∃ s k, grMemContentsInit m userPgt locals (dump recs) = initRegions m.heap userPgt (k + 1) s ∧
      s.stream = ⟨[], false⟩ ∧ s.locals.After last ∧
      s.mem = storeRecords (leafSlot m.heap userPgt) recs m.pool m.mem ∧
      s.pool = m.pool.drop (totalNents recs) ∧ s.regions = regionsOf recs m.pool ∧
      s.totNrPages % 2 ^ 32 = totalNents recs % 2 ^ 32 ∧
      s.locals.buf = bufAfter recs locals.buf := by
  have hslots : nrVaRegion = recs.length + (127 - recs.length + 1) := by
    have := h.count
    unfold nrVaRegion
    omega
  obtain ⟨s, hrun, hstream, hafter, -, -, hmem, hpool, hregions, htot, hbuf⟩ :=
    initRegions_records (k := 127 - recs.length + 1) recs
      ⟨Stream.open (dump recs), locals, m.mem, m.pool, [], 0⟩ []
      (fun rec hrec => ⟨h.wf rec hrec, h.leaves rec hrec⟩) h.frames h.locals.1 h.locals.2
      (by rw [List.append_nil]; rfl) henough
  have hlocals : s.locals.After last := by
    have := hafter last fun hnil => by rw [hnil] at hlast; simp at hlast
    rwa [List.getLastD_eq_getLast?, hlast] at this
  refine ⟨s, 127 - recs.length, ?_, hstream, hlocals, hmem, hpool, hregions, ?_, hbuf⟩
  · unfold grMemContentsInit
    rw [hslots, hrun]
  · rw [htot]
    simp only [Nat.zero_add]

/-- **What loading a dump does**: after the records, the turn that repeats the last one. -/
theorem grMemContentsInit_dump {last : McRecord} (hlast : recs.getLast? = some last)
    (henough : totalNents recs + last.nents ≤ m.pool.length) :
    ∃ s, grMemContentsInit m userPgt locals (dump recs) = .ok s ∧
      s.regions = regionsOf recs m.pool
        ++ [last.region ((m.pool.drop (totalNents recs)).take last.nents)] ∧
      s.pool = m.pool.drop (totalNents recs + last.nents) ∧
      s.totNrPages = (totalNents recs + last.nents) % 2 ^ 32 ∧
      s.mem = storePages (leafSlot m.heap userPgt) last.flags last.gmStart
        (((m.pool.drop (totalNents recs)).take last.nents).zip
          (last.again (bufAfter recs locals.buf)))
        (storeRecords (leafSlot m.heap userPgt) recs m.pool m.mem) := by
  have hmem : last ∈ recs := List.mem_of_getLast? hlast
  obtain ⟨s₁, k, hrun, hstream, hafter, hmem₁, hpool₁, hregions₁, htot₁, hbuf₁⟩ :=
    initRegions_input h hlast (Nat.le_trans (Nat.le_add_right _ _) henough)
  obtain ⟨s₂, hturn, hafter₂⟩ := initRegion_again (h.wf last hmem) (h.leaves last hmem)
    (fun frame hframe => h.frames frame (List.mem_of_mem_drop (hpool₁ ▸ hframe))) hafter.paddr
    hafter.buf (by rw [hpool₁, List.length_drop]; omega) hafter hstream
  refine ⟨s₂, ?_, ?_, ?_, ?_, ?_⟩
  · have hend : s₂.stream.eof = true := by rw [hafter₂.stream]
    rw [hrun, initRegions, if_neg (by rw [hstream]; exact Bool.false_ne_true), hturn,
      Except.ok_bind]
    cases k with
    | zero => rw [initRegions, if_pos hend]
    | succ k => rw [initRegions, if_pos hend]
  · rw [hafter₂.regions, hregions₁, hpool₁]
  · rw [hafter₂.pool, hpool₁, List.drop_drop]
  · rw [hafter₂.totNrPages, Nat.add_mod, htot₁]
    simp
  · rw [hafter₂.mem, hmem₁, hpool₁, hbuf₁]

/-- With fewer frames than that, loading does not return. -/
theorem grMemContentsInit_short {last : McRecord} (hlast : recs.getLast? = some last)
    (hshort : ¬ totalNents recs + last.nents ≤ m.pool.length) :
    grMemContentsInit m userPgt locals (dump recs) = .error .undefined := by
  have hmem : last ∈ recs := List.mem_of_getLast? hlast
  by_cases henough : totalNents recs ≤ m.pool.length
  · obtain ⟨s₁, k, hrun, hstream, hafter, -, hpool, -, -, -⟩ := initRegions_input h hlast henough
    have hheader := readHeader_again (h.wf last hmem) hafter false
    rw [← hstream] at hheader
    have hfew : ¬ s₁.locals.nents ≤ s₁.pool.length := by
      rw [hafter.nents, hpool, List.length_drop]
      omega
    rw [hrun, initRegions, if_neg (by rw [hstream]; exact Bool.false_ne_true),
      initRegion_short hheader hfew]
    rfl
  · have hslots : nrVaRegion = recs.length + (128 - recs.length) := by
      have := h.count
      unfold nrVaRegion
      omega
    unfold grMemContentsInit
    rw [hslots]
    exact initRegions_short recs ⟨Stream.open (dump recs), locals, m.mem, m.pool, [], 0⟩ []
      (fun rec hrec => ⟨h.wf rec hrec, h.leaves rec hrec⟩) h.frames h.locals.1 h.locals.2
      (by rw [List.append_nil]; rfl) henough

end Input

end File

theorem length_regionsOf (recs : List McRecord) :
    ∀ pool : List Nat, (regionsOf recs pool).length = recs.length := by
  induction recs with
  | nil => intro pool; rfl
  | cons rec recs ih => intro pool; rw [regionsOf, List.length_cons, List.length_cons, ih]

/-- **No dump loads to the context it was recorded from**: there is always a region
too many. -/
theorem dump_not_loaded {m : Machine} {userPgt : UserPtr} {locals : Locals}
    {recs : List McRecord} (h : DumpInput m userPgt locals recs) :
    ¬ ∃ s, grMemContentsInit m userPgt locals (dump recs) = .ok s ∧ Loaded m userPgt recs s := by
  rintro ⟨s, hrun, hloaded⟩
  obtain ⟨last, hlast⟩ : ∃ last, recs.getLast? = some last := by
    cases hl : recs.getLast? with
    | none =>
        have := h.count.1
        rw [List.getLast?_eq_none_iff.mp hl] at this
        exact absurd this (by decide)
    | some last => exact ⟨last, rfl⟩
  by_cases henough : totalNents recs + last.nents ≤ m.pool.length
  · obtain ⟨s', hrun', hregions, -, -, -⟩ := grMemContentsInit_dump h hlast henough
    have hsame : s' = s := Except.ok.inj (hrun'.symm.trans hrun)
    have hcount := congrArg List.length hloaded.regions
    rw [← hsame, hregions, List.length_map, List.length_map, List.length_append,
      length_regionsOf] at hcount
    simp at hcount
  · rw [grMemContentsInit_short h hlast henough] at hrun
    exact absurd hrun (by simp)

/-! ### One touched page -/

/-- A region of one page at GPU address `0x1000`. -/
def onePage : McRecord where
  gmStart := 0x1000
  gmEnd := 0x2000
  nents := 1
  flags := 0x606e
  isValid := true
  pages := [(0x9000, List.replicate 4096 7)]

/-- The four tables of GPU address `0x1000`, and two frames to hand out. -/
def onePageMachine : Machine where
  mem := fun _ => 0
  pool := [0x5000, 0x6000]
  heap := [⟨0x1000, fun _ => .node 1⟩, ⟨0x2000, fun _ => .node 2⟩, ⟨0x3000, fun _ => .node 3⟩,
    ⟨0x4000, fun _ => .null⟩]

def zeroLocals : Locals := ⟨0, 0, 0, 0, 0, 0, List.replicate 4096 0⟩

theorem wf_onePage : onePage.WF where
  start_aligned := by decide
  end_aligned := by decide
  le := by decide
  bounded := by decide
  nents_le := by decide
  flags_lt := by decide
  length_pages := rfl
  page := by
    intro q hq
    rw [List.mem_singleton.mp hq]
    exact ⟨by decide, List.length_replicate⟩

theorem dumpInput_onePage : DumpInput onePageMachine (.node 0) zeroLocals [onePage] where
  count := by decide
  wf := fun rec hrec => by rw [List.mem_singleton.mp hrec]; exact wf_onePage
  disjoint := List.pairwise_singleton ..
  leaves := fun rec hrec k hk => by
    rw [List.mem_singleton.mp hrec] at hk ⊢
    have hk0 : k = 0 := Nat.lt_one_iff.mp hk
    rw [hk0]
    exact ⟨0x4008, rfl⟩
  frames := by decide
  distinct := by decide
  locals := ⟨by decide, List.length_replicate⟩

/-- The dump of one page does not load. -/
theorem onePage_not_loaded :
    ¬ ∃ s, grMemContentsInit onePageMachine (.node 0) zeroLocals (dump [onePage]) = .ok s ∧
      Loaded onePageMachine (.node 0) [onePage] s :=
  dump_not_loaded dumpInput_onePage

/-- What it loads to instead: the region twice, on two frames. -/
theorem onePage_loads_twice :
    DumpInput onePageMachine (.node 0) zeroLocals [onePage] ∧
    ∃ s, grMemContentsInit onePageMachine (.node 0) zeroLocals (dump [onePage]) = .ok s ∧
      s.regions = [onePage.region [0x5000], onePage.region [0x6000]] ∧ s.totNrPages = 2 ∧
      ¬ Loaded onePageMachine (.node 0) [onePage] s := by
  obtain ⟨s, hrun, hregions, -, htot, -⟩ :=
    grMemContentsInit_dump dumpInput_onePage rfl (by decide)
  refine ⟨dumpInput_onePage, s, hrun, hregions, htot, fun hloaded => ?_⟩
  have hcount := congrArg List.length hloaded.regions
  rw [hregions] at hcount
  exact absurd hcount (by decide)

end GpuReplay.Replayer
