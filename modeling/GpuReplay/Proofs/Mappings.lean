/-
Which entry a fault marks.

The entry is looked for by the bounds of the area, and the first one with them is taken.
Entries outlive their mappings, so where a range has been used before, that is the entry of the
mapping that was there first.  Where the mapping has been cut, it is the entry of another one
or none at all.  The entry of the mapping that the fault is on then stays as it was: not valid,
if this is the first fault on it, and not dumped with its pages.

`mappings_tracked_iff` says that this is the only way for the list to go wrong.
-/
import GpuReplay.Lib.Run
import GpuReplay.Driver.Mappings

namespace GpuReplay.Driver

/-- The entry is as it should be for its mapping: not valid before the first fault on it, and
valid with the page count of the last fault from then on. -/
structure EntryOf (m : Mapping) (tas : GrAs) : Prop where
  range : tas.range = m.range
  reg : tas.reg = m.region.id
  isValid : tas.isValid = m.faulted.isSome
  nents : tas.nents = m.faulted.getD m.region.nents

/-- Every mapping has an entry of its own, marked by faults on that mapping and by no others. -/
structure Tracked (s : MapState) : Prop where
  length : s.ctx.asList.length = s.mappings.length
  entry : ∀ (k : Nat) (m : Mapping) (tas : GrAs),
    s.mappings[k]? = some m → s.ctx.asList[k]? = some tas → EntryOf m tas

/-- The number of the first mapping that was made with the bounds of the area. -/
def MapState.firstOf (s : MapState) (vma : VmArea) : Nat :=
  s.mappings.findIdx fun m => m.range = vma.range

/-- The last fault on the mapping, if there is such a mapping, found so many pages. -/
def MapState.Counts (s : MapState) (k nents : Nat) : Prop :=
  ∀ m, s.mappings[k]? = some m → m.faulted = some nents

/-- A fault is on the mapping that was the first one with the bounds of the area, or it finds
what the last faults on both of them have found. -/
def MarksOwn (s : MapState) : MapEvent → Prop
  | .fault i nents => ∀ vma, s.areas[i]? = some vma →
      s.firstOf vma = vma.mapping ∨ (s.Counts vma.mapping nents ∧ s.Counts (s.firstOf vma) nents)
  | _ => True

/-! ### The entry that is looked for -/

/-- What `gr_as_add_valid` does to the entry it finds. -/
def GrAs.mark (nents : Nat) (tas : GrAs) : GrAs := { tas with isValid := true, nents := nents }

theorem grAsAddValid_eq (vmStart vmEnd nents : Nat) (asList : List GrAs) :
    grAsAddValid vmStart vmEnd nents asList
      = asList.modify (asList.findIdx fun tas => tas.range = (vmStart, vmEnd)) (GrAs.mark nents) := by
  induction asList with
  | nil => rfl
  | cons tas rest ih =>
      rw [grAsAddValid, List.findIdx_cons]
      by_cases hmatch : tas.range = (vmStart, vmEnd)
      · obtain ⟨hstart, hend⟩ := Prod.mk.inj hmatch
        simp [hmatch, hstart, hend, GrAs.mark]
      · have hbounds : ¬(tas.vmStart = vmStart ∧ tas.vmEnd = vmEnd) :=
          fun ⟨hs, he⟩ => hmatch (Prod.ext hs he)
        simp [hmatch, hbounds, ih]

/-- What has the same ranges has the same first one. -/
theorem findIdx_range {mappings : List Mapping} : ∀ {asList : List GrAs} (range : Nat × Nat),
    asList.map GrAs.range = mappings.map Mapping.range →
    (asList.findIdx fun tas => tas.range = range) = mappings.findIdx fun m => m.range = range := by
  intro asList range h
  have hleft : (asList.map GrAs.range).findIdx (fun r => decide (r = range)) =
      asList.findIdx fun tas => tas.range = range := List.findIdx_map _ _ _
  have hright : (mappings.map Mapping.range).findIdx (fun r => decide (r = range)) =
      mappings.findIdx fun m => m.range = range := List.findIdx_map _ _ _
  rw [h, hright] at hleft
  exact hleft.symm

namespace Tracked

variable {s s' : MapState} {e : MapEvent}

theorem ranges (h : Tracked s) : s.ctx.asList.map GrAs.range = s.mappings.map Mapping.range := by
  apply List.ext_getElem?
  intro k
  rw [List.getElem?_map, List.getElem?_map]
  rcases Nat.lt_or_ge k s.mappings.length with hlt | hge
  · have hlt' : k < s.ctx.asList.length := h.length ▸ hlt
    rw [List.getElem?_eq_getElem hlt, List.getElem?_eq_getElem hlt', Option.map_some,
      Option.map_some, (h.entry k _ _ (List.getElem?_eq_getElem hlt) (List.getElem?_eq_getElem hlt')).range]
  · rw [List.getElem?_eq_none hge, List.getElem?_eq_none (h.length ▸ hge)]
    rfl

/-- What a fault does to the list. -/
theorem asList_fault (h : Tracked s) (vma : VmArea) (nents : Nat) :
    grAsAddValid vma.vmStart vma.vmEnd nents s.ctx.asList
      = s.ctx.asList.modify (s.firstOf vma) (GrAs.mark nents) := by
  rw [grAsAddValid_eq, findIdx_range _ h.ranges]
  rfl

/-- A mapping is made: its entry is added. -/
theorem mmap (h : Tracked s) (vmStart vmEnd : Nat) (region : VaRegion) (areas : List VmArea) :
    Tracked ⟨grAsAdd s.ctx vmStart vmEnd region,
      s.mappings ++ [⟨vmStart, vmEnd, region, none⟩], areas⟩ := by
  refine ⟨by simp [grAsAdd, h.length], fun i m tas hm htas => ?_⟩
  simp only [grAsAdd] at hm htas
  rcases Nat.lt_or_ge i s.mappings.length with hlt | hge
  · rw [List.getElem?_append_left hlt] at hm
    rw [List.getElem?_append_left (h.length ▸ hlt)] at htas
    exact h.entry i m tas hm htas
  · rw [List.getElem?_append_right hge] at hm
    rw [List.getElem?_append_right (h.length ▸ hge), h.length] at htas
    obtain ⟨hi, rfl⟩ := List.getElem?_eq_some_iff.mp hm
    obtain ⟨-, rfl⟩ := List.getElem?_eq_some_iff.mp htas
    simp only [List.getElem_singleton]
    exact ⟨rfl, rfl, rfl, rfl⟩

end Tracked

/-- A valid entry tells what the last fault on its mapping found. -/
theorem EntryOf.faulted {m : Mapping} {tas : GrAs} (h : EntryOf m tas)
    (hvalid : tas.isValid = true) : m.faulted = some tas.nents := by
  have hnents := h.nents
  rw [h.isValid] at hvalid
  obtain ⟨nents, hfaulted⟩ := Option.isSome_iff_exists.mp hvalid
  rw [hfaulted, hnents, hfaulted, Option.getD_some]

/-- An entry whose mapping has had a fault with that page count is marked already. -/
theorem EntryOf.mark_eq {m : Mapping} {tas : GrAs} {nents : Nat} (h : EntryOf m tas)
    (hcount : m.faulted = some nents) : tas.mark nents = tas := by
  have hvalid := h.isValid
  have hnents := h.nents
  rw [hcount] at hvalid hnents
  unfold GrAs.mark
  rw [← hnents.trans (Option.getD_some ..), ← hvalid.trans Option.isSome_some]

namespace Tracked

variable {s s' : MapState} {e : MapEvent} {vma : VmArea} {m : Mapping} {nents : Nat}

theorem entry? (h : Tracked s) {k : Nat} (hm : s.mappings[k]? = some m) :
    ∃ tas, s.ctx.asList[k]? = some tas ∧ EntryOf m tas := by
  have hlt : k < s.ctx.asList.length := h.length ▸ (List.getElem?_eq_some_iff.mp hm).1
  exact ⟨_, List.getElem?_eq_getElem hlt, h.entry k m _ hm (List.getElem?_eq_getElem hlt)⟩

/-- The state after a fault. -/
theorem of_fault (h : Tracked s) (hm : s.mappings[vma.mapping]? = some m)
    (hfirst : s.firstOf vma = vma.mapping ∨
      (s.Counts vma.mapping nents ∧ s.Counts (s.firstOf vma) nents)) :
    Tracked (s.afterFault vma m nents) := by
  rcases hfirst with hown | ⟨hcount, hfound⟩
  · refine ⟨by simp [MapState.afterFault, h.asList_fault, h.length], fun i mi tas hmi htas => ?_⟩
    simp only [MapState.afterFault, h.asList_fault, List.getElem?_modify, hown] at hmi htas
    by_cases hik : vma.mapping = i
    · subst hik
      obtain ⟨old, hold, hentry⟩ := h.entry? hm
      rw [List.getElem?_set_self (List.getElem?_eq_some_iff.mp hm).1] at hmi
      simp only [hold, if_true, Option.map_eq_map, Option.map_some] at htas
      obtain rfl := Option.some.inj hmi
      obtain rfl := Option.some.inj htas
      exact ⟨hentry.range, hentry.reg, rfl, rfl⟩
    · rw [List.getElem?_set_ne hik] at hmi
      simp only [hik, if_false, Option.map_eq_map, Option.map_id'] at htas
      exact h.entry i mi tas hmi htas
  · -- nothing changes
    have hmappings : s.mappings.set vma.mapping { m with faulted := some nents } = s.mappings := by
      obtain ⟨hlt, heq⟩ := List.getElem?_eq_some_iff.mp hm
      rw [← hcount m hm]
      exact heq ▸ List.set_getElem_self hlt
    have hlist : s.ctx.asList.modify (s.firstOf vma) (GrAs.mark nents) = s.ctx.asList := by
      apply List.ext_getElem?
      intro i
      rw [List.getElem?_modify]
      cases htas : s.ctx.asList[i]? with
      | none => rfl
      | some tas =>
          by_cases hif : s.firstOf vma = i
          · subst hif
            have hlt := (List.getElem?_eq_some_iff.mp htas).1
            have hmi := List.getElem?_eq_getElem (h.length ▸ hlt)
            have hentry := h.entry _ _ _ hmi htas
            simp [hentry.mark_eq (hfound _ hmi)]
          · simp [hif]
    unfold MapState.afterFault
    rw [h.asList_fault, hlist, hmappings]
    exact h

/-- **A fault keeps the list** if and only if it marks the entry of its own mapping, or nothing
new. -/
theorem fault_iff (h : Tracked s) (hm : s.mappings[vma.mapping]? = some m) :
    Tracked (s.afterFault vma m nents) ↔ s.firstOf vma = vma.mapping ∨
      (s.Counts vma.mapping nents ∧ s.Counts (s.firstOf vma) nents) := by
  refine ⟨fun hnew => ?_, h.of_fault hm⟩
  by_cases hown : s.firstOf vma = vma.mapping
  · exact Or.inl hown
  right
  have hlist : ∀ i : Nat, (s.afterFault vma m nents).ctx.asList[i]?
      = (fun tas => if s.firstOf vma = i then tas.mark nents else tas) <$> s.ctx.asList[i]? := by
    intro i
    simp only [MapState.afterFault, h.asList_fault, List.getElem?_modify]
  constructor
  · intro m' hm'
    obtain rfl := Option.some.inj (hm.symm.trans hm')
    -- the entry of the mapping is as it was, and has to count the fault
    obtain ⟨tas, htas, hentry⟩ := h.entry? hm
    have hsame : (s.afterFault vma m nents).ctx.asList[vma.mapping]? = some tas := by
      rw [hlist, htas]
      simp [hown]
    have hset : (s.afterFault vma m nents).mappings[vma.mapping]? =
        some { m with faulted := some nents } :=
      List.getElem?_set_self (List.getElem?_eq_some_iff.mp hm).1
    have hcounted := hnew.entry _ _ _ hset hsame
    rw [hentry.faulted hcounted.isValid, hcounted.nents, Option.getD_some]
  · intro m' hm'
    -- the entry found counts the fault, and so has its mapping to
    obtain ⟨tas, htas, -⟩ := h.entry? hm'
    have hmarked : (s.afterFault vma m nents).ctx.asList[s.firstOf vma]? = some (tas.mark nents) := by
      rw [hlist, htas]
      simp
    have hother : (s.afterFault vma m nents).mappings[s.firstOf vma]? = some m' := by
      rw [MapState.afterFault, List.getElem?_set_ne (Ne.symm hown)]
      exact hm'
    exact (hnew.entry _ _ _ hother hmarked).faulted rfl

theorem step_iff (h : Tracked s) (hstep : mapStep s e = some s') : Tracked s' ↔ MarksOwn s e := by
  cases e with
  | mmap vmStart vmEnd region err =>
      simp only [mapStep] at hstep
      split at hstep
      · obtain rfl := Option.some.inj hstep
        exact iff_of_true (h.mmap vmStart vmEnd region _) trivial
      · cases hstep
  | munmap first last =>
      simp only [mapStep] at hstep
      split at hstep
      · obtain rfl := Option.some.inj hstep
        exact iff_of_true ⟨h.length, h.entry⟩ trivial
      · cases hstep
  | fault i nents =>
      obtain ⟨vma, hvma, hstep⟩ := Option.bind_eq_some_iff.mp hstep
      obtain ⟨m, hm, hstep⟩ := Option.bind_eq_some_iff.mp hstep
      obtain rfl := Option.some.inj hstep
      rw [h.fault_iff hm]
      simp only [MarksOwn, hvma, Option.some.injEq, forall_eq']

end Tracked

/-! ### Whole sessions -/

theorem tracked_init (file : List UInt8) : Tracked (MapState.init file) :=
  ⟨rfl, fun k m tas hm => by simp [MapState.init] at hm⟩

/-- **Each mapping keeps its entry** throughout a session if and only if every fault in it is on
the mapping that was the first one with those bounds, or finds nothing new. -/
theorem mappings_tracked_iff (file : List UInt8) {events : List MapEvent}
    (hrun : (events.foldlM mapStep (MapState.init file)).isSome) :
    AllStates mapStep Tracked (MapState.init file) events ↔
      AllSteps mapStep MarksOwn (MapState.init file) events :=
  allStates_iff (Q := fun _ => True) (fun _ _ _ _ _ => trivial)
    (fun _ _ _ _ h hstep => h.step_iff hstep) trivial (tracked_init file) hrun

/-- A region is mapped and faulted on. -/
theorem mappings_tracked_one :
    AllStates mapStep Tracked (MapState.init [])
        [.mmap 0x1000 0x2000 ⟨0, 1, 0, 0⟩ false, .fault 0 1] ↔
      AllSteps mapStep MarksOwn (MapState.init [])
        [.mmap 0x1000 0x2000 ⟨0, 1, 0, 0⟩ false, .fault 0 1] :=
  mappings_tracked_iff [] rfl

/-- A range is used again.  The fault is on the second mapping, and the entry of the first one,
which is gone, becomes valid, with the page count of the second. -/
theorem reused_range_not_tracked :
    ([.mmap 0x1000 0x4000 ⟨0, 3, 0, 1⟩ false, .munmap 0x1000 0x4000,
        .mmap 0x1000 0x4000 ⟨1, 3, 0, 0⟩ false, .fault 0 3].foldlM mapStep
      (MapState.init [])).isSome ∧
    ¬AllStates mapStep Tracked (MapState.init [])
      [.mmap 0x1000 0x4000 ⟨0, 3, 0, 1⟩ false, .munmap 0x1000 0x4000,
        .mmap 0x1000 0x4000 ⟨1, 3, 0, 0⟩ false, .fault 0 3] := by
  refine ⟨rfl, fun h => ?_⟩
  have hlast : Tracked _ := (((h.2 _ rfl).2 _ rfl).2 _ rfl).2 _ rfl
  exact absurd (hlast.entry 0 _ _ rfl rfl).isValid (by decide)

end GpuReplay.Driver
