/-
One owner of the device, and what it can rely on.

`in_use` is tested and raised under the lock that the kernel holds for an `open`, so that there is
never more than one owner, whatever the releases do meanwhile.  That is all it guards: a release
gives the device away with its first statement, and what it does to the masks and the handlers
afterwards it does to the next owner's.  Where no open comes in between, the masks and handlers are
those that the statements executed so far leave.
-/
import GpuReplay.Lib.Run
import GpuReplay.NanoDriver.Lifecycle
import Mathlib.Tactic.IntervalCases

namespace GpuReplay.NanoDriver

open Function

/-! ### One owner -/

/-- The file has counted itself in `in_use`, and has not taken that back. -/
def FilePhase.Owns : FilePhase → Prop
  | .closed => False
  | .opening next => 0 < next
  | .opened => True
  | .releasing next => next = 0

/-- What holds with `owner` as the owner. -/
structure Owned (s : GrState) (owner : Option Nat) : Prop where
  inUse : s.vars.inUse = if owner.isSome then 1 else 0
  owns : ∀ file, (s.phase file).Owns ↔ owner = some file
  opener : ∀ file next, s.phase file = .opening next → s.opener = some file
  tested : ∀ file, s.phase file = .opening 0 → owner = none

/-- The states of any run. -/
def GrReached (mask : IrqLine → Nat) : GrState → Prop :=
  Reached grStep (· = GrState.loaded mask) fun _ _ => True

variable {s s' : GrState} {owner : Option Nat} {file : Nat}

@[simp] theorem goto_phase_self (s : GrState) (file : Nat) (p : FilePhase) :
    (s.goto file p).phase file = p := by
  simp [GrState.goto]

@[simp] theorem goto_phase_of_ne (s : GrState) {file other : Nat} (h : other ≠ file)
    (p : FilePhase) : (s.goto file p).phase other = s.phase other := by
  simp [GrState.goto, h]

/-- Only the first statement changes `in_use`. -/
theorem exec_inUse {stmts : List GrStmt} {stmt : GrStmt} {next : Nat}
    (hrest : ∀ stmt ∈ stmts.tail, ∀ d, stmt ≠ .inUse d) (hstmt : stmts[next]? = some stmt)
    (hnext : next ≠ 0) (ok : Bool) (v : GrVars) : (stmt.exec ok v).inUse = v.inUse := by
  obtain ⟨k, rfl⟩ := Nat.exists_eq_succ_of_ne_zero hnext
  have hmem : stmt ∈ stmts.tail := by
    refine List.mem_of_getElem? (i := k) ?_
    rw [List.getElem?_tail]
    exact hstmt
  cases stmt with
  | inUse d => exact absurd rfl (hrest _ hmem d)
  | mask line bits => rfl
  | requestIrq line => cases ok <;> rfl
  | freeIrq line => rfl

theorem grOpen_tail : ∀ stmt ∈ grOpen.tail, ∀ d, stmt ≠ .inUse d := by
  simp [grOpen, grInstallInterrupts]

theorem grRelease_tail : ∀ stmt ∈ grRelease.tail, ∀ d, stmt ≠ .inUse d := by
  simp [grRelease, grReleaseInterrupts]

theorem Owned.of_phases (h : Owned s owner) (hinUse : s'.vars.inUse = s.vars.inUse)
    {p : FilePhase} (hphase : s'.phase = update s.phase file p)
    (howns : p.Owns ↔ (s.phase file).Owns) (htested : p = .opening 0 → owner = none)
    (hopener : ∀ other next, s'.phase other = .opening next → s'.opener = some other) :
    Owned s' owner where
  inUse := hinUse.trans h.inUse
  owns := by
    intro other
    rw [hphase]
    by_cases hsame : other = file
    · rw [hsame, update_self, howns]
      exact h.owns file
    · rw [update_of_ne hsame]
      exact h.owns other
  opener := hopener
  tested := by
    intro other hother
    rw [hphase] at hother
    by_cases hsame : other = file
    · rw [hsame, update_self] at hother
      exact htested hother
    · rw [update_of_ne hsame] at hother
      exact h.tested other hother

theorem Owned.phase_opening (h : Owned s owner) {p : FilePhase} (hp : ∀ next, p ≠ .opening next)
    {other next : Nat} (hphase : (s.goto file p).phase other = .opening next) :
    s.opener = some other := by
  by_cases hsame : other = file
  · rw [hsame, goto_phase_self] at hphase
    exact absurd hphase (hp next)
  · rw [goto_phase_of_ne s hsame] at hphase
    exact h.opener other next hphase

/-- Nobody else is at `gr_open` while it runs. -/
theorem Owned.only_opener (h : Owned s owner) {next : Nat} (hphase : s.phase file = .opening next)
    {other next' : Nat} (hother : s.phase other = .opening next') : other = file :=
  Option.some.inj ((h.opener other next' hother).symm.trans (h.opener file next hphase))

theorem Owned.call (h : Owned s owner) (hstep : grStep s (.call file) = some s') :
    Owned s' owner := by
  unfold grStep at hstep
  dsimp only at hstep
  split_ifs at hstep with hcan hbusy
  · exact Option.some.inj hstep ▸ h
  · obtain rfl := Option.some.inj hstep
    obtain ⟨hclosed, hlock⟩ := hcan
    have hnone : owner = none := by
      have hinUse := h.inUse
      cases owner with
      | none => rfl
      | some o => exact absurd (by simp [hinUse]) hbusy
    refine h.of_phases rfl rfl ?_ (fun _ => hnone) fun other next hphase => ?_
    · simp [FilePhase.Owns, hclosed]
    · by_cases hsame : other = file
      · exact congrArg some hsame.symm
      · have hopener := h.opener other next (by simpa [GrState.goto, hsame] using hphase)
        rw [hlock] at hopener
        cases hopener

/-- The owner is counted. -/
theorem Owned.counted (h : Owned s owner) (hphase : s.phase file = .opening 0) (ok : Bool) :
    Owned { s.goto file (.opening 1) with vars := (GrStmt.inUse 1).exec ok s.vars }
      (some file) := by
  have hnone := h.tested file hphase
  refine ⟨?_, fun other => ?_, fun other next hother => ?_, fun other hother => ?_⟩
  · simp [GrStmt.exec, h.inUse, hnone]
  · by_cases hsame : other = file
    · simp [hsame, GrState.goto, FilePhase.Owns]
    · have hnot := h.owns other
      rw [hnone] at hnot
      simp [GrState.goto, hsame, hnot, Ne.symm hsame]
  · by_cases hsame : other = file
    · rw [hsame]
      exact h.opener file 0 hphase
    · exact h.opener other next (by simpa [GrState.goto, hsame] using hother)
  · by_cases hsame : other = file
    · simp [hsame, GrState.goto] at hother
    · have hat : s.phase other = .opening 0 := by simpa [GrState.goto, hsame] using hother
      exact absurd (h.only_opener hphase hat) hsame

/-- The owner gives the device away. -/
theorem Owned.given_away (h : Owned s owner) (hphase : s.phase file = .releasing 0) (ok : Bool) :
    Owned { s.goto file (.releasing 1) with vars := (GrStmt.inUse (-1)).exec ok s.vars } none := by
  have howner : owner = some file := (h.owns file).mp (by simp [hphase, FilePhase.Owns])
  refine ⟨?_, fun other => ?_, fun other next hother => ?_, fun _ _ => rfl⟩
  · simp [GrStmt.exec, h.inUse, howner]
  · by_cases hsame : other = file
    · simp [hsame, GrState.goto, FilePhase.Owns]
    · have hnot := h.owns other
      rw [howner] at hnot
      simp [GrState.goto, hsame, hnot, Ne.symm hsame]
  · exact h.phase_opening (fun _ => FilePhase.noConfusion) hother

theorem Owned.run (h : Owned s owner) {ok : Bool} (hstep : grStep s (.run file ok) = some s') :
    ∃ owner', Owned s' owner' := by
  unfold grStep at hstep
  dsimp only at hstep
  cases hphase : s.phase file with
  | closed =>
      rw [hphase] at hstep
      cases hstep
  | opened =>
      rw [hphase] at hstep
      cases hstep
  | opening next =>
      rw [hphase] at hstep
      dsimp only at hstep
      cases hstmt : grOpen[next]? with
      | none =>
          rw [hstmt] at hstep
          obtain rfl := Option.some.inj hstep
          have hend : grOpen.length ≤ next := List.getElem?_eq_none_iff.mp hstmt
          have hpos : 0 < next := Nat.lt_of_lt_of_le (by decide) hend
          refine ⟨owner, h.of_phases rfl rfl ?_ FilePhase.noConfusion fun other next' hother => ?_⟩
          · simp [FilePhase.Owns, hphase, hpos]
          · by_cases hsame : other = file
            · simp [hsame, GrState.goto] at hother
            · have hat : s.phase other = .opening next' := by
                simpa [GrState.goto, hsame] using hother
              exact absurd (h.only_opener hphase hat) hsame
      | some stmt =>
          rw [hstmt] at hstep
          obtain rfl := Option.some.inj hstep
          by_cases hfirst : next = 0
          · subst hfirst
            obtain rfl : GrStmt.inUse 1 = stmt := Option.some.inj hstmt
            exact ⟨some file, h.counted hphase ok⟩
          · have hinUse := exec_inUse grOpen_tail hstmt hfirst ok s.vars
            refine ⟨owner, h.of_phases hinUse rfl ?_ ?_ fun other next' hother => ?_⟩
            · simp [FilePhase.Owns, hphase, Nat.pos_of_ne_zero hfirst]
            · intro heq
              cases heq
            · by_cases hsame : other = file
              · rw [hsame]
                exact h.opener file next hphase
              · exact h.opener other next' (by simpa [GrState.goto, hsame] using hother)
  | releasing next =>
      rw [hphase] at hstep
      dsimp only at hstep
      cases hstmt : grRelease[next]? with
      | none =>
          rw [hstmt] at hstep
          obtain rfl := Option.some.inj hstep
          have hend : grRelease.length ≤ next := List.getElem?_eq_none_iff.mp hstmt
          have hpos : next ≠ 0 := Nat.ne_of_gt (Nat.lt_of_lt_of_le (by decide) hend)
          refine ⟨owner, h.of_phases rfl rfl ?_ FilePhase.noConfusion fun other next' hother => ?_⟩
          · simp [FilePhase.Owns, hphase, hpos]
          · exact h.phase_opening (fun _ => FilePhase.noConfusion) hother
      | some stmt =>
          rw [hstmt] at hstep
          dsimp only at hstep
          split_ifs at hstep
          obtain rfl := Option.some.inj hstep
          by_cases hfirst : next = 0
          · subst hfirst
            obtain rfl : GrStmt.inUse (-1) = stmt := Option.some.inj hstmt
            exact ⟨none, h.given_away hphase ok⟩
          · have hinUse := exec_inUse grRelease_tail hstmt hfirst ok s.vars
            refine ⟨owner, h.of_phases hinUse rfl ?_ FilePhase.noConfusion fun other _ hother => ?_⟩
            · simp [FilePhase.Owns, hphase, hfirst]
            · exact h.phase_opening (fun _ => FilePhase.noConfusion) hother

theorem Owned.step (h : Owned s owner) {e : GrStep} (hstep : grStep s e = some s') :
    ∃ owner', Owned s' owner' := by
  cases e with
  | call file => exact ⟨owner, h.call hstep⟩
  | run file ok => exact h.run hstep
  | close file =>
      unfold grStep at hstep
      dsimp only at hstep
      split_ifs at hstep with hopened
      obtain rfl := Option.some.inj hstep
      refine ⟨owner, h.of_phases rfl rfl ?_ FilePhase.noConfusion fun other next hphase => ?_⟩
      · simp [FilePhase.Owns, hopened]
      · exact h.phase_opening (fun _ => FilePhase.noConfusion) hphase
  | mmuIrq =>
      unfold grStep at hstep
      dsimp only at hstep
      split_ifs at hstep
      all_goals
        obtain rfl := Option.some.inj hstep
        exact ⟨owner, h.inUse, h.owns, h.opener, h.tested⟩
  | regWrite line bits =>
      obtain rfl := Option.some.inj hstep
      exact ⟨owner, h.inUse, h.owns, h.opener, h.tested⟩

theorem owned_loaded (mask : IrqLine → Nat) : Owned (GrState.loaded mask) none where
  inUse := rfl
  owns := by simp [GrState.loaded, FilePhase.Owns]
  opener := by simp [GrState.loaded]
  tested := by simp [GrState.loaded]

theorem GrReached.owned {mask : IrqLine → Nat} (h : GrReached mask s) : ∃ owner, Owned s owner := by
  refine h.invariant (P := fun s => ∃ owner, Owned s owner) ?_ ?_
  · rintro s rfl
    exact ⟨none, owned_loaded mask⟩
  · rintro s e s' ⟨owner, howned⟩ - hstep
    exact howned.step hstep

/-- **One owner.**  However the opens, releases and interrupts of any number of files interleave,
no two files own the device at a time, and an open that can be called is refused exactly while one
does. -/
theorem grOpen_exclusive {mask : IrqLine → Nat} (h : GrReached mask s) :
    (∀ file other, (s.phase file).Owns → (s.phase other).Owns → file = other) ∧
      ∀ file, s.phase file = .closed → s.opener = none →
        (grStep s (.call file) = some s ↔ ∃ other, (s.phase other).Owns) := by
  obtain ⟨owner, howned⟩ := h.owned
  constructor
  · intro file other hfile hother
    exact Option.some.inj (((howned.owns file).mp hfile).symm.trans ((howned.owns other).mp hother))
  · intro file hclosed hlock
    have hinUse := howned.inUse
    have hsome : (∃ other, (s.phase other).Owns) ↔ s.vars.inUse ≠ 0 := by
      cases owner with
      | none => simp [howned.owns, hinUse]
      | some o => simp [howned.owns, hinUse]
    rw [hsome]
    unfold grStep
    dsimp only
    rw [if_pos ⟨hclosed, hlock⟩]
    split_ifs with hbusy
    · exact iff_of_true rfl hbusy
    · refine iff_of_false (fun heq => ?_) hbusy
      have hopener := congrArg GrState.opener (Option.some.inj heq)
      rw [hlock] at hopener
      cases hopener

/-- An open that nothing comes between. -/
def openSteps (file : Nat) : List GrStep := .call file :: List.replicate 8 (.run file true)

/-- The file 1 has the device, and the file 2 cannot have it. -/
theorem grOpen_exclusive_two :
    ∃ s, GrReached (fun _ => 0) s ∧ (s.phase 1).Owns ∧ grStep s (.call 2) = some s := by
  obtain ⟨s, hrun, hphase, hclosed, hlock⟩ :
      ∃ s, (openSteps 1).foldlM grStep (GrState.loaded fun _ => 0) = some s ∧
        s.phase 1 = .opened ∧ s.phase 2 = .closed ∧ s.opener = none := ⟨_, rfl, rfl, rfl, rfl⟩
  have hloaded : GrReached (fun _ => 0) (GrState.loaded fun _ => 0) := Reached.start rfl
  have hreached : GrReached (fun _ => 0) s := hloaded.foldlM hrun fun _ _ _ => trivial
  have howns : (s.phase 1).Owns := by simp [hphase, FilePhase.Owns]
  exact ⟨s, hreached, howns, ((grOpen_exclusive hreached).2 2 hclosed hlock).mpr ⟨1, howns⟩⟩

/-! ### Its interrupts -/

/-- No open is called while a release is running, the interrupts can be installed, and the masks
are left to the driver. -/
def Orderly (s : GrState) : GrStep → Prop
  | .call _ => ∀ file next, s.phase file ≠ .releasing next
  | .run _ ok => ok = true
  | .close _ => True
  | .mmuIrq => True
  | .regWrite _ _ => False

/-- The states of runs whose steps are in order. -/
def OrderlyReached (mask : IrqLine → Nat) : GrState → Prop :=
  Reached grStep (· = GrState.loaded mask) Orderly

/-- What some statements leave. -/
def execAll (v : GrVars) (stmts : List GrStmt) : GrVars :=
  stmts.foldl (fun v stmt => stmt.exec true v) v

/-- The statements a file has executed since it was closed. -/
def FilePhase.done : FilePhase → List GrStmt
  | .closed => []
  | .opening next => grOpen.take next
  | .opened => grOpen
  | .releasing next => grOpen ++ grRelease.take next

/-- The line is off while its handler runs. -/
def whileHandling (handling : Bool) (v : GrVars) : GrVars :=
  if handling then (GrStmt.mask .mmu 0).exec true v else v

/-- Nobody has the device.  The line of the MMU is left on. -/
structure Resting (released : Nat) (v : GrVars) : Prop where
  inUse : v.inUse = 0
  handlers : ∀ line, v.handlers line = 0
  masks : released ≠ 0 → v.mask .gpu = 0 ∧ v.mask .job = 0 ∧ v.mask .mmu = mmuIrqMask

/-- At most `file` is not closed, and all is as it was, but for what `file` has done since. -/
structure SoleUser (s : GrState) (base : GrVars) (file : Nat) : Prop where
  resting : Resting s.released base
  others : ∀ other, other ≠ file → s.phase other = .closed
  vars : s.vars = whileHandling s.mmuHandling (execAll base (s.phase file).done)
  handling : s.mmuHandling = true → 0 < (execAll base (s.phase file).done).handlers .mmu

@[simp] theorem execAll_nil (v : GrVars) : execAll v [] = v := by
  simp [execAll]

theorem execAll_snoc (v : GrVars) (stmts : List GrStmt) (stmt : GrStmt) :
    execAll v (stmts ++ [stmt]) = stmt.exec true (execAll v stmts) := by
  simp [execAll]

/-- While the handler runs, a statement that does not concern it does the same. -/
theorem exec_whileHandling {handling : Bool} {stmt : GrStmt}
    (h : handling = true → ∀ bits, stmt ≠ .mask .mmu bits) (v : GrVars) :
    stmt.exec true (whileHandling handling v) = whileHandling handling (stmt.exec true v) := by
  cases handling with
  | false => rfl
  | true =>
      cases stmt with
      | inUse d => rfl
      | requestIrq line => rfl
      | freeIrq line => rfl
      | mask line bits =>
          have hne : line ≠ .mmu := by
            rintro rfl
            exact h rfl bits rfl
          simp [GrStmt.exec, whileHandling, update_comm hne]

theorem exec_handlers_mmu {stmt : GrStmt} (h : stmt ≠ .freeIrq .mmu) (v : GrVars) :
    v.handlers .mmu ≤ (stmt.exec true v).handlers .mmu := by
  cases stmt with
  | inUse d => exact Nat.le_refl _
  | mask line bits => exact Nat.le_refl _
  | requestIrq line => cases line <;> simp [GrStmt.exec]
  | freeIrq line =>
      cases line with
      | mmu => exact absurd rfl h
      | job => simp [GrStmt.exec]
      | gpu => simp [GrStmt.exec]

/-- Statements that do not write to the mask of a line leave it. -/
theorem execAll_mask {line : IrqLine} {stmts : List GrStmt} :
    ∀ {v : GrVars}, (∀ bits, GrStmt.mask line bits ∉ stmts) →
      (execAll v stmts).mask line = v.mask line := by
  induction stmts with
  | nil => exact fun _ => rfl
  | cons stmt stmts ih =>
      intro v h
      have hrest : ∀ bits, GrStmt.mask line bits ∉ stmts := fun bits hmem =>
        h bits (List.mem_cons_of_mem _ hmem)
      refine (ih hrest).trans ?_
      cases stmt with
      | inUse d => rfl
      | requestIrq other => rfl
      | freeIrq other => rfl
      | mask other bits =>
          have hne : line ≠ other := by
            rintro rfl
            exact h bits List.mem_cons_self
          simp [GrStmt.exec, hne]

@[simp] theorem whileHandling_handlers (handling : Bool) (v : GrVars) :
    (whileHandling handling v).handlers = v.handlers := by
  cases handling <;> rfl

theorem whileHandling_mask {line : IrqLine} (h : line ≠ .mmu) (handling : Bool) (v : GrVars) :
    (whileHandling handling v).mask line = v.mask line := by
  cases handling with
  | false => rfl
  | true => simp [whileHandling, GrStmt.exec, h]

/-- All lines are on once `gr_open` is through. -/
@[simp] theorem opened_mask (v : GrVars) (line : IrqLine) : (execAll v grOpen).mask line =
    match line with
    | .job => jobIrqMask
    | .mmu => mmuIrqMask
    | .gpu => gpuIrqRegAll := by
  cases line
  all_goals simp [execAll, grOpen, grInstallInterrupts, GrStmt.exec]

theorem opened_handlers (v : GrVars) (line : IrqLine) :
    (execAll v grOpen).handlers line = v.handlers line + 1 := by
  cases line
  all_goals simp [execAll, grOpen, grInstallInterrupts, GrStmt.exec]

section Phases

variable {base : GrVars} (hbase : ∀ line, base.handlers line = 0)

include hbase

/-- `gr_open` sets the mask of the MMU's line before it has a handler. -/
theorem mask_before_handler {next bits : Nat} (hstmt : grOpen[next]? = some (.mask .mmu bits)) :
    (execAll base (grOpen.take next)).handlers .mmu = 0 := by
  obtain ⟨hlt, hget⟩ := List.getElem?_eq_some_iff.mp hstmt
  have hlt' : next < 7 := hlt
  interval_cases next
  all_goals first
    | simp [grOpen, grInstallInterrupts] at hget; done
    | simp [execAll, grOpen, grInstallInterrupts, GrStmt.exec, hbase]

/-- While the MMU's line has a handler, it is on. -/
theorem mmu_on {p : FilePhase} (h : 0 < (execAll base p.done).handlers .mmu) :
    (execAll base p.done).mask .mmu = mmuIrqMask := by
  cases p with
  | closed => exact absurd h (by simp [FilePhase.done, hbase])
  | opened => simp [FilePhase.done]
  | opening next =>
      by_cases hlt : next < 7
      · interval_cases next
        all_goals simp_all [FilePhase.done, execAll, grOpen, grInstallInterrupts, GrStmt.exec]
      · have hall : grOpen.take next = grOpen := List.take_of_length_le (by
          show 7 ≤ next
          omega)
        rw [FilePhase.done, hall, opened_mask]
  | releasing next =>
      have hrelease : ∀ bits, GrStmt.mask .mmu bits ∉ grRelease.take next := fun bits hmem => by
        have hin := List.mem_of_mem_take hmem
        simp [grRelease, grReleaseInterrupts] at hin
      rw [FilePhase.done, execAll, List.foldl_append]
      exact (execAll_mask hrelease).trans (opened_mask base .mmu)

end Phases

variable {base : GrVars}

/-- What is left when a file has been opened and released again. -/
theorem Resting.released {released : Nat} (h : Resting released base) :
    Resting (released + 1) (execAll base (grOpen ++ grRelease)) where
  inUse := by
    simp [execAll, grOpen, grInstallInterrupts, grRelease, grReleaseInterrupts, GrStmt.exec, h.inUse]
  handlers := by
    intro line
    cases line
    all_goals simp [execAll, grOpen, grInstallInterrupts, grRelease, grReleaseInterrupts,
      GrStmt.exec, h.handlers]
  masks := by
    simp [execAll, grOpen, grInstallInterrupts, grRelease, grReleaseInterrupts, GrStmt.exec]

theorem SoleUser.call {called : Nat} (h : SoleUser s base file) (howned : Owned s owner)
    (horder : Orderly s (.call called)) (hstep : grStep s (.call called) = some s') :
    ∃ file', SoleUser s' base file' := by
  unfold grStep at hstep
  dsimp only at hstep
  split_ifs at hstep with hcan hbusy
  · exact ⟨file, Option.some.inj hstep ▸ h⟩
  · obtain rfl := Option.some.inj hstep
    obtain ⟨hcalled, hlock⟩ := hcan
    have hclosed : s.phase file = .closed := by
      cases hphase : s.phase file with
      | closed => rfl
      | opening next =>
          have hopener := howned.opener file next hphase
          rw [hlock] at hopener
          cases hopener
      | opened =>
          have howner := (howned.owns file).mp (by simp [hphase, FilePhase.Owns])
          exact absurd (by simp [howned.inUse, howner]) hbusy
      | releasing next => exact absurd hphase (horder file next)
    have hvars := h.vars
    have hhandling := h.handling
    rw [hclosed] at hvars hhandling
    refine ⟨called, h.resting, fun other hne => ?_, ?_, ?_⟩
    · by_cases hsame : other = file
      · simp [GrState.goto, hne, hsame ▸ hclosed]
      · simpa [GrState.goto, hne] using h.others other hsame
    · simpa [GrState.goto, FilePhase.done] using hvars
    · simpa [GrState.goto, FilePhase.done] using hhandling

/-- The statement a file is at adds itself to those it has done. -/
theorem SoleUser.exec {stmt : GrStmt} {p : FilePhase} (h : SoleUser s base file)
    (hdone : p.done = (s.phase file).done ++ [stmt])
    (hmask : s.mmuHandling = true → ∀ bits, stmt ≠ .mask .mmu bits)
    (hfree : s.mmuHandling = true → stmt ≠ .freeIrq .mmu) :
    SoleUser { s.goto file p with vars := stmt.exec true s.vars } base file where
  resting := h.resting
  others := fun other hne => by simpa [GrState.goto, hne] using h.others other hne
  vars := by
    have hcommute := exec_whileHandling hmask (execAll base (s.phase file).done)
    simp [GrState.goto, hdone, execAll_snoc, h.vars, hcommute]
  handling := fun hhandling => by
    have hmono := exec_handlers_mmu (hfree hhandling) (execAll base (s.phase file).done)
    simpa [GrState.goto, hdone, execAll_snoc] using
      Nat.lt_of_lt_of_le (h.handling hhandling) hmono

theorem SoleUser.run {ran : Nat} (h : SoleUser s base file)
    (hstep : grStep s (.run ran true) = some s') : ∃ base', SoleUser s' base' file := by
  unfold grStep at hstep
  dsimp only at hstep
  by_cases hran : ran = file
  · subst hran
    cases hphase : s.phase ran with
    | closed =>
        rw [hphase] at hstep
        cases hstep
    | opened =>
        rw [hphase] at hstep
        cases hstep
    | opening next =>
        rw [hphase] at hstep
        dsimp only at hstep
        cases hstmt : grOpen[next]? with
        | none =>
            rw [hstmt] at hstep
            obtain rfl := Option.some.inj hstep
            have hall : grOpen.take next = grOpen :=
              List.take_of_length_le (List.getElem?_eq_none_iff.mp hstmt)
            have hvars := h.vars
            have hhandling := h.handling
            rw [hphase, FilePhase.done, hall] at hvars hhandling
            refine ⟨base, h.resting, fun other hne => ?_, ?_, ?_⟩
            · simpa [GrState.goto, hne] using h.others other hne
            · simpa [GrState.goto, FilePhase.done] using hvars
            · simpa [GrState.goto, FilePhase.done] using hhandling
        | some stmt =>
            rw [hstmt] at hstep
            obtain rfl := Option.some.inj hstep
            refine ⟨base, h.exec ?_ (fun hhandling bits heq => ?_) fun _ heq => ?_⟩
            · rw [hphase, FilePhase.done, FilePhase.done, List.take_add_one, hstmt]
              rfl
            · subst heq
              have hpos := h.handling hhandling
              rw [hphase, FilePhase.done, mask_before_handler h.resting.handlers hstmt] at hpos
              exact absurd hpos (Nat.lt_irrefl 0)
            · subst heq
              have hin := List.mem_of_getElem? hstmt
              simp [grOpen, grInstallInterrupts] at hin
    | releasing next =>
        rw [hphase] at hstep
        dsimp only at hstep
        cases hstmt : grRelease[next]? with
        | none =>
            rw [hstmt] at hstep
            obtain rfl := Option.some.inj hstep
            have hall : grRelease.take next = grRelease :=
              List.take_of_length_le (List.getElem?_eq_none_iff.mp hstmt)
            have hvars := h.vars
            have hhandling := h.handling
            rw [hphase, FilePhase.done, hall] at hvars hhandling
            refine ⟨_, h.resting.released, fun other hne => ?_, ?_, ?_⟩
            · simpa [GrState.goto, hne] using h.others other hne
            · simpa [GrState.goto, FilePhase.done] using hvars
            · simpa [GrState.goto, FilePhase.done] using hhandling
        | some stmt =>
            rw [hstmt] at hstep
            dsimp only at hstep
            split_ifs at hstep with hwaits
            obtain rfl := Option.some.inj hstep
            refine ⟨base, h.exec ?_ (fun _ bits heq => ?_) fun hhandling heq => ?_⟩
            · rw [hphase, FilePhase.done, FilePhase.done, List.take_add_one, hstmt,
                List.append_assoc]
              rfl
            · subst heq
              have hin := List.mem_of_getElem? hstmt
              simp [grRelease, grReleaseInterrupts] at hin
            · exact hwaits ⟨heq, hhandling⟩
  · rw [h.others ran hran] at hstep
    cases hstep

theorem SoleUser.mmuIrq (h : SoleUser s base file) (hstep : grStep s .mmuIrq = some s') :
    SoleUser s' base file := by
  have hvars := h.vars
  unfold grStep at hstep
  dsimp only at hstep
  split_ifs at hstep with hhandling hsome
  · obtain rfl := Option.some.inj hstep
    have hon := mmu_on h.resting.handlers (h.handling hhandling)
    refine ⟨h.resting, h.others, ?_, fun heq => Bool.noConfusion heq⟩
    rw [hhandling] at hvars
    simp [hvars, whileHandling, GrStmt.exec, ← hon]
  · obtain rfl := Option.some.inj hstep
    have hnot : s.mmuHandling = false := by simpa using hhandling
    rw [hnot] at hvars
    have hsame : s.vars = execAll base (s.phase file).done := hvars
    refine ⟨h.resting, h.others, ?_, fun _ => ?_⟩
    · simp [whileHandling, hsame]
    · rw [← hsame]
      exact hsome

theorem SoleUser.step (h : SoleUser s base file) (howned : Owned s owner) {e : GrStep}
    (horder : Orderly s e) (hstep : grStep s e = some s') :
    ∃ base' file', SoleUser s' base' file' := by
  cases e with
  | call called =>
      obtain ⟨file', h'⟩ := h.call howned horder hstep
      exact ⟨base, file', h'⟩
  | run ran ok =>
      obtain rfl : ok = true := horder
      obtain ⟨base', h'⟩ := h.run hstep
      exact ⟨base', file, h'⟩
  | close closed =>
      unfold grStep at hstep
      dsimp only at hstep
      split_ifs at hstep with hopened
      obtain rfl := Option.some.inj hstep
      obtain rfl : closed = file := by
        by_contra hne
        rw [h.others closed hne] at hopened
        cases hopened
      have hvars := h.vars
      have hhandling := h.handling
      rw [hopened] at hvars hhandling
      refine ⟨base, closed, h.resting, fun other hne => ?_, ?_, ?_⟩
      · simpa [GrState.goto, hne] using h.others other hne
      · simpa [GrState.goto, FilePhase.done] using hvars
      · simpa [GrState.goto, FilePhase.done] using hhandling
  | mmuIrq => exact ⟨base, file, h.mmuIrq hstep⟩
  | regWrite line bits => exact horder.elim

theorem OrderlyReached.soleUser {mask : IrqLine → Nat} (h : OrderlyReached mask s) :
    ∃ base file, SoleUser s base file := by
  have hboth : (∃ owner, Owned s owner) ∧ ∃ base file, SoleUser s base file := by
    refine h.invariant (P := fun s => (∃ owner, Owned s owner) ∧ ∃ base file, SoleUser s base file)
      ?_ ?_
    · rintro s rfl
      refine ⟨⟨none, owned_loaded mask⟩, (GrState.loaded mask).vars, 0, ?_⟩
      refine ⟨⟨rfl, fun _ => rfl, fun h => absurd rfl h⟩, fun _ _ => rfl, rfl, ?_⟩
      exact fun h => Bool.noConfusion h
    · rintro s e s' ⟨⟨owner, howned⟩, base, file, hin⟩ horder hstep
      exact ⟨howned.step hstep, hin.step howned horder hstep⟩
  exact hboth.2

/-- **What an owner can rely on.**  As long as no open is called while a release is running, an open
file has its lines on, but for what the handler of the MMU's line is doing to it, and a handler on
each; with all files closed there is no handler, and after a release the lines of the GPU and of
its jobs are off.  The MMU's line stays on, with nobody to handle it. -/
theorem grOpen_ready {mask : IrqLine → Nat} (h : OrderlyReached mask s) :
    (∀ file, s.phase file = .opened →
      s.vars.mask .gpu = gpuIrqRegAll ∧ s.vars.mask .job = jobIrqMask ∧
        (s.mmuHandling = false → s.vars.mask .mmu = mmuIrqMask) ∧
        ∀ line, s.vars.handlers line = 1) ∧
    ((∀ file, s.phase file = .closed) →
      (∀ line, s.vars.handlers line = 0) ∧ (s.released ≠ 0 → s.vars.mask .gpu = 0 ∧
        s.vars.mask .job = 0 ∧ s.vars.mask .mmu = mmuIrqMask)) := by
  obtain ⟨base, active, hin⟩ := h.soleUser
  have hvars := hin.vars
  constructor
  · intro file hopened
    obtain rfl : file = active := by
      by_contra hne
      rw [hin.others file hne] at hopened
      cases hopened
    rw [hopened, FilePhase.done] at hvars
    rw [hvars]
    refine ⟨?_, ?_, fun hhandling => ?_, fun line => ?_⟩
    · simp [whileHandling_mask]
    · simp [whileHandling_mask]
    · simp [hhandling, whileHandling]
    · simp [whileHandling_handlers, opened_handlers, hin.resting.handlers]
  · intro hclosed
    have hhandling : s.mmuHandling = false := by
      by_contra hnot
      have hpos := hin.handling (by simpa using hnot)
      rw [hclosed active, FilePhase.done] at hpos
      exact absurd hpos (by simp [hin.resting.handlers])
    rw [hhandling, hclosed active] at hvars
    have hsame : s.vars = base := hvars
    rw [hsame]
    exact ⟨hin.resting.handlers, hin.resting.masks⟩

/-- The file 1 has the device, and with it a handler on each line; it is closed, and the lines of
the GPU and of its jobs are off. -/
theorem grOpen_ready_one :
    ∃ s t, OrderlyReached (fun _ => 0) s ∧ s.phase 1 = .opened ∧
      (∀ line, s.vars.handlers line = 1) ∧
      (GrStep.close 1 :: List.replicate 7 (.run 1 true)).foldlM grStep s = some t ∧
      OrderlyReached (fun _ => 0) t ∧ (∀ line, t.vars.handlers line = 0) ∧
      t.vars.mask .gpu = 0 ∧ t.vars.mask .job = 0 := by
  have hcalled : OrderlyReached (fun _ => 0)
      { (GrState.loaded fun _ => 0).goto 1 (.opening 0) with opener := some 1 } := by
    have hloaded : OrderlyReached (fun _ => 0) (GrState.loaded fun _ => 0) := Reached.start rfl
    refine hloaded.next (e := .call 1) ?_ rfl
    simp [Orderly, GrState.loaded]
  obtain ⟨s, t, hrun, hphase, hclose, hclosed, hreleased⟩ :
      ∃ s t, (List.replicate 8 (GrStep.run 1 true)).foldlM grStep
        { (GrState.loaded fun _ => 0).goto 1 (.opening 0) with opener := some 1 } = some s ∧
        s.phase 1 = .opened ∧
        (GrStep.close 1 :: List.replicate 7 (.run 1 true)).foldlM grStep s = some t ∧
        (∀ file, t.phase file = .closed) ∧ t.released ≠ 0 := by
    refine ⟨_, _, rfl, rfl, rfl, fun file => ?_, by decide⟩
    by_cases hfile : file = 1
    · subst hfile
      rfl
    · simp [GrState.goto, GrState.loaded, hfile]
  have hreached : OrderlyReached (fun _ => 0) s := hcalled.foldlM hrun fun s e he => by
    rw [List.eq_of_mem_replicate he]
    simp [Orderly]
  have hdone : OrderlyReached (fun _ => 0) t := hreached.foldlM hclose fun s e he => by
    rcases List.mem_cons.mp he with rfl | he
    · trivial
    · rw [List.eq_of_mem_replicate he]
      simp [Orderly]
  obtain ⟨hhandlers, hmasks⟩ := (grOpen_ready hdone).2 hclosed
  obtain ⟨hgpu, hjob, -⟩ := hmasks hreleased
  exact ⟨s, t, hreached, hphase, ((grOpen_ready hreached).1 1 hphase).2.2.2, hclose, hdone,
    hhandlers, hgpu, hjob⟩

/-- An open that is called while the last release is running: the release takes the lines from the
file that has the device by now. -/
theorem grOpen_overtakes (mask : IrqLine → Nat) :
    ∃ s, (openSteps 1 ++ [GrStep.close 1, .run 1 true] ++ openSteps 2 ++
        [GrStep.run 1 true, .run 1 true]).foldlM grStep (GrState.loaded mask) = some s ∧
      s.phase 2 = .opened ∧ s.vars.mask .gpu = 0 ∧ s.vars.mask .job = 0 :=
  ⟨_, rfl, rfl, rfl, rfl⟩

end GpuReplay.NanoDriver
