/-
What a replay does not learn from memory.

A replay is the recorded run with another input, and that can only work if what it does to the
registers does not depend on what is in memory.  It reads memory in one place, when it copies
pages for a checkpoint, and there it only copies.  So with other memory, beside another GPU, with
another input, it makes the same accesses and ends the same way, in a state that differs in
memory and in the pages copied (`SameButData`).
-/
import GpuReplay.Lib.Twins
import GpuReplay.Proofs.GpuMem
import GpuReplay.Proofs.Replay
import GpuReplay.Replayer.Demo

namespace GpuReplay.Replayer

open Stdio

/-- The state with other memory, and other pages copied. -/
def ReplayState.withData (s : ReplayState) (mem : ByteMem) (provision : Option (List UInt8)) :
    ReplayState :=
  { s with mem := mem, provision := provision }

/-- The states differ in nothing but memory and what has been copied to the provisioned space. -/
def SameButData (s t : ReplayState) : Prop :=
  ∃ mem provision, t = s.withData mem provision ∧ provision.isSome = s.provision.isSome

theorem SameButData.refl (s : ReplayState) : SameButData s s := ⟨s.mem, s.provision, rfl, rfl⟩

/-- Two computations that end the same way up to data. -/
abbrev Dataless (x y : Replay α) : Prop := Twins SameButData Eq x y

section Dataless

variable {cfg : ReplayConfig} {rctx : ReplayContext} {env : Env}

/-- A change of the state that does not look at data. -/
theorem dataless_modify {g : ReplayState → ReplayState}
    (h : ∀ s mem provision, provision.isSome = s.provision.isSome →
      SameButData (g s) (g (s.withData mem provision))) :
    Dataless (modify g : Replay Unit) (modify g) := by
  refine Twins.modifyGet fun s t => ?_
  rintro ⟨mem, provision, rfl, hsome⟩
  exact ⟨rfl, h s mem provision hsome⟩

theorem dataless_onlyIf {c : Prop} [Decidable c] {x y : Replay Unit} (h : c → Dataless x y) :
    Dataless (onlyIf c x) (onlyIf c y) :=
  Twins.ite h fun _ => Twins.pure rfl

/-! ### Accesses -/

theorem dataless_read (site : Site) (offset : Nat) :
    Dataless (grRegRead env site offset) (grRegRead env site offset) := by
  rintro s _ ⟨mem, provision, rfl, hsome⟩
  unfold grRegRead
  by_cases hoffset : offset + 4 ≤ gpuRegPaSize
  · rw [if_pos hoffset, if_pos hoffset]
    exact .ok rfl ⟨mem, provision, rfl, hsome⟩
  · rw [if_neg hoffset, if_neg hoffset]
    exact .error ⟨mem, provision, rfl, hsome⟩

theorem dataless_write (site : Site) (offset value : Nat) :
    Dataless (grRegWrite site offset value) (grRegWrite site offset value) := by
  rintro s _ ⟨mem, provision, rfl, hsome⟩
  unfold grRegWrite
  by_cases hoffset : offset + 4 ≤ gpuRegPaSize
  · rw [if_pos hoffset, if_pos hoffset]
    exact .ok rfl ⟨mem, provision, rfl, hsome⟩
  · rw [if_neg hoffset, if_neg hoffset]
    exact .error ⟨mem, provision, rfl, hsome⟩

theorem dataless_emit (e : Event) : Dataless (emit e) (emit e) := by
  rintro s _ ⟨mem, provision, rfl, hsome⟩
  exact .ok rfl ⟨mem, provision, rfl, hsome⟩

theorem dataless_measure : Dataless (k2Measure env) (k2Measure env) := by
  rintro s _ ⟨mem, provision, rfl, hsome⟩
  exact .ok rfl ⟨mem, provision, rfl, hsome⟩

theorem dataless_waitJobIrq : Dataless (grWaitJobIrq env) (grWaitJobIrq env) := by
  rintro s _ ⟨mem, provision, rfl, hsome⟩
  unfold grWaitJobIrq
  by_cases hpoll : env.poll s.waits = true
  · have hpoll' : env.poll (s.withData mem provision).waits = true := hpoll
    dsimp only
    rw [if_pos hpoll, if_pos hpoll']
    exact .ok rfl ⟨mem, provision, rfl, hsome⟩
  · have hpoll' : ¬env.poll (s.withData mem provision).waits = true := hpoll
    dsimp only
    rw [if_neg hpoll, if_neg hpoll']
    exact .error ⟨mem, provision, rfl, hsome⟩

theorem dataless_waitLoop (offset value : Nat) :
    ∀ n newValue, Dataless (waitLoop env offset value n newValue)
      (waitLoop env offset value n newValue) := by
  intro n
  induction n with
  | zero => exact fun _ => Twins.throw _
  | succ n ih =>
      intro newValue
      exact Twins.ite (fun _ => (dataless_read .wait offset).bind_eq ih) fun _ => Twins.pure rfl

theorem dataless_regReadWait (offset value : Nat) :
    Dataless (regReadWait env offset value) (regReadWait env offset value) := by
  refine (dataless_read .wait offset).bind_eq fun newValue => ?_
  refine (dataless_waitLoop offset value _ newValue).bind_eq fun maxLoops => ?_
  exact dataless_onlyIf fun _ => Twins.throw _

theorem dataless_cacheLoop :
    ∀ n val, Dataless (cacheLoop env n val) (cacheLoop env n val) := by
  intro n
  induction n with
  | zero => exact fun _ => Twins.throw _
  | succ n ih =>
      intro val
      exact Twins.ite (fun _ => (dataless_read .cacheInvalidate gpuIrqRawstat).bind_eq ih)
        fun _ => Twins.pure rfl

theorem dataless_cacheInvalidate : Dataless (grCacheInvalidate env) (grCacheInvalidate env) := by
  refine (dataless_read _ _).bind_eq fun _ => (dataless_write _ _ _).bind_eq fun _ => ?_
  refine (dataless_write _ _ _).bind_eq fun _ => (dataless_read _ _).bind_eq fun val => ?_
  refine (dataless_cacheLoop _ val).bind_eq fun _ => (dataless_read _ _).bind_eq fun _ => ?_
  exact (dataless_write _ _ _).bind_eq fun _ => dataless_write _ _ _

theorem dataless_flushLoop : ∀ n val, Dataless (flushLoop env n val) (flushLoop env n val) := by
  intro n
  induction n with
  | zero => exact fun _ => Twins.throw _
  | succ n ih =>
      intro val
      exact Twins.ite (fun _ => (dataless_read .asFlush asStatus).bind_eq ih) fun _ =>
        Twins.pure rfl

theorem dataless_asFlush (lockAddr : Nat) :
    Dataless (grAsFlush env lockAddr) (grAsFlush env lockAddr) := by
  refine (dataless_write _ _ _).bind_eq fun _ => (dataless_write _ _ _).bind_eq fun _ => ?_
  refine (dataless_write _ _ _).bind_eq fun _ => (dataless_write _ _ _).bind_eq fun _ => ?_
  exact (dataless_read _ _).bind_eq fun val => dataless_flushLoop _ val

theorem dataless_replayRead (curIo : RegIo) :
    Dataless (replayRead env curIo) (replayRead env curIo) := by
  refine (dataless_read _ _).bind_eq fun newValue => ?_
  refine (dataless_onlyIf fun _ => dataless_regReadWait _ _).bind_eq fun _ => ?_
  refine dataless_onlyIf fun _ => dataless_modify fun s mem provision hsome => ?_
  exact ⟨mem, provision, rfl, hsome⟩

/-! ### Jobs -/

theorem dataless_stamp {keep : Nat → ReplayState → ReplayState}
    (h : ∀ ts s mem provision, provision.isSome = s.provision.isSome →
      SameButData (keep ts s) (keep ts (s.withData mem provision))) :
    Dataless (stamp env keep) (stamp env keep) :=
  dataless_measure.bind_eq fun ts => dataless_modify (h ts)

theorem dataless_jobAccounts (cnt : Nat) :
    Dataless (jobAccounts cfg env cnt) (jobAccounts cfg env cnt) := by
  have hlook : Dataless (stamp env fun _ s => s) (stamp env fun _ s => s) :=
    dataless_stamp fun _ _ mem provision hsome => ⟨mem, provision, rfl, hsome⟩
  refine Twins.ite (fun _ => dataless_stamp fun _ _ mem provision hsome => ?_) fun _ => ?_
  · exact ⟨mem, provision, rfl, hsome⟩
  refine Twins.ite (fun _ => ?_) fun _ => ?_
  · refine (dataless_stamp fun _ _ mem provision hsome => ?_).bind_eq fun _ => hlook
    exact ⟨mem, provision, rfl, hsome⟩
  · refine (dataless_onlyIf fun _ => hlook).bind_eq fun _ => ?_
    exact dataless_modify fun _ mem provision hsome => ⟨mem, provision, rfl, hsome⟩

theorem dataless_jobSubmitted : Dataless (jobSubmitted cfg env) (jobSubmitted cfg env) := by
  refine dataless_measure.bind_eq fun ts => Twins.get.bind fun s t => ?_
  rintro ⟨mem, provision, rfl, -⟩
  refine (dataless_onlyIf fun _ => dataless_stamp fun _ _ mem provision hsome => ?_).bind_eq
    fun _ => ?_
  · exact ⟨mem, provision, rfl, hsome⟩
  refine (dataless_onlyIf fun _ => dataless_stamp fun _ _ mem provision hsome => ?_).bind_eq
    fun _ => ?_
  · exact ⟨mem, provision, rfl, hsome⟩
  refine dataless_waitJobIrq.bind_eq fun _ => dataless_measure.bind_eq fun tsEnd => ?_
  refine Twins.bind_eq ?_ fun _ => dataless_jobAccounts _
  generalize (tsEnd + 2 ^ 32 - ts) = elapsed
  exact dataless_onlyIf fun _ => dataless_modify fun _ mem provision hsome =>
    ⟨mem, provision, rfl, hsome⟩

/-! ### Checkpoints and checks -/

/-- A page is copied from wherever it is, and a copy is all that is made of it. -/
theorem dataless_checkpointPage (page : Except Stop Nat) :
    Dataless (checkpointPage page) (checkpointPage page) := by
  rintro s _ ⟨mem, provision, rfl, hsome⟩
  unfold checkpointPage
  cases page >>= grMapPage with
  | ok page =>
      refine .ok rfl ⟨mem, provision.map fun space =>
        Bytes.splice space (s.nrWrittenPages * 4096) (mem.read page 4096), rfl, ?_⟩
      rw [Option.isSome_map, Option.isSome_map]
      exact hsome
  | error e => exact .error ⟨mem, provision, rfl, hsome⟩

theorem dataless_checkpointPages (tot : Nat) (pages : List (Except Stop Nat)) :
    Dataless (checkpointPages tot pages) (checkpointPages tot pages) := by
  induction pages with
  | nil => exact Twins.pure rfl
  | cons page pages ih =>
      refine Twins.get.bind fun s t => ?_
      rintro ⟨mem, provision, rfl, -⟩
      refine (dataless_onlyIf fun _ => Twins.throw _).bind_eq fun _ => ?_
      exact (dataless_checkpointPage page).bind_eq fun _ => ih

theorem dataless_writeCheckpoint :
    Dataless (grWriteCheckpoint cfg rctx) (grWriteCheckpoint cfg rctx) := by
  refine Twins.get.bind fun s t => ?_
  rintro ⟨mem, provision, rfl, hsome⟩
  refine Twins.bind_eq (Twins.set ⟨mem, provision, rfl, hsome⟩) fun _ => ?_
  refine dataless_onlyIf fun _ => (dataless_onlyIf fun _ => Twins.throw _).bind_eq fun _ => ?_
  have hnone : (s.withData mem provision).provision.isNone = s.provision.isNone := by
    rw [← Option.not_isSome, ← Option.not_isSome]
    exact congrArg not hsome
  rw [hnone]
  refine (dataless_onlyIf fun _ => Twins.throw _).bind_eq fun _ => ?_
  refine Twins.bind_eq ?_ fun _ => dataless_checkpointPages _ _
  exact dataless_modify fun _ mem provision hsome => ⟨mem, provision, rfl, hsome⟩

theorem dataless_checkpointJob :
    Dataless (checkpointJob cfg rctx env) (checkpointJob cfg rctx env) := by
  refine dataless_measure.bind_eq fun _ => dataless_cacheInvalidate.bind_eq fun _ => ?_
  refine (dataless_asFlush _).bind_eq fun _ => dataless_measure.bind_eq fun _ => ?_
  exact dataless_writeCheckpoint

theorem dataless_compareRegs : ∀ offsets ret,
    Dataless (compareRegs env offsets ret) (compareRegs env offsets ret) := by
  intro offsets
  induction offsets with
  | nil => exact fun ret => Twins.pure rfl
  | cons offset offsets ih =>
      intro ret
      refine (dataless_read .validate offset).bind_eq fun value => ?_
      refine Twins.ite (fun _ => ih ret) fun _ => Twins.get.bind fun s t => ?_
      rintro ⟨mem, provision, rfl, -⟩
      exact Twins.ite (fun _ => (dataless_emit _).bind_eq fun _ => ih 0) fun _ => ih ret

theorem dataless_validateEntry (curIo : RegIo) (i : Nat) :
    Dataless (validateEntry env curIo i) (validateEntry env curIo i) := by
  have hsame : Dataless (grIsSameRegmap env curIo i) (grIsSameRegmap env curIo i) := by
    refine Twins.bind_eq (dataless_modify fun _ mem provision hsome => ?_) fun _ => ?_
    · exact ⟨mem, provision, rfl, hsome⟩
    refine Twins.ite (fun _ => Twins.pure rfl) fun _ => ?_
    refine Twins.ite (fun _ => Twins.pure rfl) fun _ => ?_
    generalize (List.range (gpuRegPaSize / 4)).map (4 * ·) = offsets
    refine (dataless_compareRegs offsets 1).bind_eq fun ret => ?_
    exact (dataless_onlyIf fun _ => dataless_emit _).bind_eq fun _ => Twins.pure rfl
  exact hsame.bind_eq fun same => dataless_onlyIf fun _ => dataless_emit _

end Dataless

/-! ### Writing to memory -/

/-- Two transfers that are as far, on memories of their own. -/
def SameTransfer (s t : IoState) : Prop := ∃ mem, t = { s with mem := mem }

theorem alike_gpuMemIo (paddr sz : Nat) {s t : IoState} (hst : SameTransfer s t) :
    Alike SameTransfer (gpuMemIo false paddr sz s) (gpuMemIo false paddr sz t) := by
  obtain ⟨mem, rfl⟩ := hst
  have hwrite : Alike (ε := Stop) (fun _ _ => True)
      (grWritePhys s.mem paddr ((s.buf.drop s.pos).take sz))
      (grWritePhys mem paddr ((s.buf.drop s.pos).take sz)) := by
    unfold grWritePhys
    refine Alike.bind (Alike.of_eq (V := Eq) (fun _ => rfl) rfl) ?_
    rintro page _ rfl
    exact Alike.ite (fun _ => .ok trivial) fun _ => .error _
  exact hwrite.bind fun _ mem' _ => .ok ⟨mem', rfl⟩

theorem alike_middlePages (pages : List Nat) (pageOffset : Nat) :
    ∀ n i {s t : IoState}, SameTransfer s t →
      Alike SameTransfer (middlePages false pages pageOffset n i s)
        (middlePages false pages pageOffset n i t) := by
  intro n
  induction n with
  | zero => exact fun _ _ _ hst => .ok hst
  | succ n ih =>
      intro i s t hst
      refine Alike.bind (Alike.of_eq (V := Eq) (fun _ => rfl) rfl) ?_
      rintro page _ rfl
      refine (alike_gpuMemIo page 4096 hst).bind ?_
      rintro s₁ _ ⟨mem, rfl⟩
      exact Alike.ite (fun _ => .error _) fun _ => ih (i + 1) ⟨mem, rfl⟩

theorem alike_lastPage (pages : List Nat) (pageOffset pageCount : Nat) {s t : IoState}
    (hst : SameTransfer s t) : Alike SameTransfer (lastPage false pages pageOffset pageCount s)
      (lastPage false pages pageOffset pageCount t) := by
  obtain ⟨mem, rfl⟩ := hst
  unfold lastPage
  refine Alike.ite (fun _ => ?_) fun _ => .ok ⟨mem, rfl⟩
  refine Alike.ite (fun _ => .error _) fun _ => ?_
  refine Alike.bind (Alike.of_eq (V := Eq) (fun _ => rfl) rfl) ?_
  rintro page _ rfl
  exact alike_gpuMemIo page s.size ⟨mem, rfl⟩

/-- **Whether bytes can be written to the GPU's memory** does not depend on what is there. -/
theorem alike_copyToGpu (regions : List Region) (mem mem' : ByteMem) (gaddr size : Nat)
    (buf : List UInt8) :
    Alike (fun _ _ => True) (grCopyToGpu regions mem gaddr buf size)
      (grCopyToGpu regions mem' gaddr buf size) := by
  unfold grCopyToGpu grGpuMemIo
  cases (grFindRegionEnclosingAddress regions gaddr).bind (regions[·]?) with
  | none => exact .error _
  | some r =>
      refine Alike.ite (fun _ => .error _) fun _ => ?_
      refine Alike.bind (Alike.of_eq (V := Eq) (fun _ => rfl) rfl) ?_
      rintro page _ rfl
      refine (alike_gpuMemIo _ _ ⟨mem', rfl⟩).bind ?_
      rintro s _ ⟨mem₁, rfl⟩
      refine (alike_middlePages r.pages _ _ 1 ⟨mem₁, rfl⟩).bind fun s₁ t₁ hst => ?_
      exact (alike_lastPage r.pages _ _ hst).bind fun _ _ _ => .ok trivial

/-- A step on memory whose outcome is of the same kind for every memory. -/
theorem dataless_onMem {f : ByteMem → Except Stop ByteMem}
    (h : ∀ mem mem', Alike (fun _ _ => True) (f mem) (f mem')) : Dataless (onMem f) (onMem f) := by
  rintro s _ ⟨mem, provision, rfl, hsome⟩
  have hkind := h s.mem mem
  unfold onMem
  dsimp only [ReplayState.withData]
  generalize f s.mem = x at hkind
  generalize f mem = y at hkind
  cases hkind with
  | ok => exact .ok rfl ⟨_, provision, rfl, hsome⟩
  | error e => exact .error ⟨mem, provision, rfl, hsome⟩

/-! ### Entries, and runs -/

section Runs

variable {cfg : ReplayConfig} {rctx : ReplayContext} {env : Env}

theorem dataless_grJsTune (type val : Nat) :
    Dataless (grJsTune rctx type val) (grJsTune rctx type val) := by
  refine Twins.ite (fun _ => dataless_modify fun _ mem provision hsome => ?_) fun _ => ?_
  · exact ⟨mem, provision, rfl, hsome⟩
  refine Twins.get.bind fun s t => ?_
  rintro ⟨mem, provision, rfl, -⟩
  refine dataless_onMem fun mem mem' => ?_
  exact (alike_copyToGpu rctx.regions mem mem' _ 8 _).map fun _ _ _ => trivial

theorem dataless_prepareWrite (curIo : RegIo) :
    Dataless (prepareWrite cfg rctx env curIo) (prepareWrite cfg rctx env curIo) := by
  refine Twins.ite (fun _ => ?_) fun _ => ?_
  · exact (dataless_grJsTune _ _).bind_eq fun _ => Twins.pure rfl
  refine Twins.ite (fun _ => ?_) fun _ => ?_
  · exact (dataless_onlyIf fun _ => dataless_checkpointJob).bind_eq fun _ => Twins.pure rfl
  refine Twins.ite (fun _ => ?_) fun _ => ?_
  · refine Twins.get.bind fun s t => ?_
    rintro ⟨mem, provision, rfl, -⟩
    exact Twins.pure rfl
  refine Twins.ite (fun _ => Twins.pure rfl) fun _ => ?_
  refine Twins.ite (fun _ => Twins.pure rfl) fun _ => ?_
  exact Twins.ite (fun _ => Twins.pure rfl) fun _ => Twins.pure rfl

theorem dataless_replayEntry (i : Nat) (curIo : RegIo) :
    Dataless (replayEntry cfg rctx env i curIo) (replayEntry cfg rctx env i curIo) := by
  refine Twins.bind_eq (Twins.ite (fun _ => dataless_replayRead curIo) fun _ => ?_) fun _ =>
    dataless_onlyIf fun _ => dataless_validateEntry curIo i
  refine (dataless_prepareWrite curIo).bind_eq fun value => ?_
  refine (dataless_write _ _ _).bind_eq fun _ => ?_
  refine (dataless_onlyIf fun _ => dataless_jobSubmitted).bind_eq fun _ => ?_
  exact dataless_onlyIf fun _ => dataless_write _ _ _

variable {gpu gpu' : Gpu}

theorem dataless_entriesBeside (log : List RegIo) :
    ∀ i, Dataless (replayEntriesBeside gpu cfg rctx env i log)
      (replayEntriesBeside gpu' cfg rctx env i log) := by
  induction log with
  | nil => exact fun _ => Twins.pure rfl
  | cons curIo log ih =>
      intro i
      refine (dataless_replayEntry i curIo).bind_eq fun _ => Twins.bind_eq ?_ fun _ => ih (i + 1)
      refine Twins.modifyGet fun s t => ?_
      rintro ⟨mem, provision, rfl, hsome⟩
      exact ⟨rfl, gpu' i mem, provision, rfl, hsome⟩

/-- A run beside one GPU and a run beside another. -/
theorem dataless_replayRunBeside (log : List RegIo) :
    Dataless (grReplayRunBeside gpu cfg rctx env log)
      (grReplayRunBeside gpu' cfg rctx env log) := by
  refine Twins.bind_eq (dataless_modify fun _ mem provision hsome => ?_) fun _ => ?_
  · exact ⟨mem, provision, rfl, hsome⟩
  refine dataless_measure.bind_eq fun ts => ?_
  refine (dataless_entriesBeside log 0).bind_eq fun _ => ?_
  exact dataless_modify fun _ mem provision hsome => ⟨mem, provision, rfl, hsome⟩

/-! ### Demos -/

/-- What only changes memory leaves the states related, whatever it is. -/
theorem bothReturn_onMem {f f' : ByteMem → Except Stop ByteMem} :
    BothReturn SameButData Eq (onMem f) (onMem f') := by
  rintro s _ _ _ s' t' ⟨mem, provision, rfl, hsome⟩ hs ht
  unfold onMem at hs ht
  split at hs
  · split at ht
    · obtain ⟨-, rfl⟩ := EStateM.Result.ok.inj hs
      obtain ⟨-, rfl⟩ := EStateM.Result.ok.inj ht
      exact ⟨rfl, _, provision, rfl, hsome⟩
    · cases ht
  · cases hs

theorem bothReturn_ofExcept {α : Type} {x y : Except Stop α} :
    BothReturn SameButData (fun _ _ => True) (ofExcept x) (ofExcept y) := by
  intro s t a b s' t' hst hs ht
  cases x with
  | error e => cases hs
  | ok a =>
      cases y with
      | error e => cases ht
      | ok b =>
          obtain ⟨-, rfl⟩ := EStateM.Result.ok.inj hs
          obtain ⟨-, rfl⟩ := EStateM.Result.ok.inj ht
          exact ⟨trivial, hst⟩

theorem bothReturn_replayTurn (log : List RegIo) (inputAs outputAs : SyncAs)
    (inputBuf inputBuf' : List UInt8) :
    BothReturn SameButData (fun _ _ => True)
      (replayTurn gpu cfg rctx env log inputAs outputAs inputBuf)
      (replayTurn gpu' cfg rctx env log inputAs outputAs inputBuf') := by
  have hprepare : BothReturn SameButData Eq
      (prepareReplay rctx.regions inputAs outputAs inputBuf)
      (prepareReplay rctx.regions inputAs outputAs inputBuf') :=
    bothReturn_onMem.bind fun _ _ _ => bothReturn_onMem.bind fun _ _ _ => bothReturn_onMem
  refine hprepare.bind fun _ _ _ => ?_
  refine (BothReturn.of_twins (dataless_replayRunBeside log)).bind fun _ _ _ => ?_
  refine (BothReturn.of_twins Twins.get).bind fun s t _ => ?_
  exact bothReturn_ofExcept.bind fun _ _ _ => BothReturn.of_twins (Twins.pure trivial)

end Runs

/-- **A demo is oblivious.**  Two demos of one context that both return, on whatever memory, with
whatever input and beside whatever GPU, have made the same accesses with the same values, in the
same order, and end in states that differ in nothing but data. -/
theorem demoRun_oblivious (cfg : ReplayConfig) (rctx : ReplayContext) (env : Env)
    (log : List RegIo) (numIter : Nat) {gpu gpu' : Nat → Gpu} {inputBuf inputBuf' : List UInt8}
    {s t s' t' : ReplayState} {outputs outputs' : List (List UInt8)} (hst : SameButData s t)
    (hs : demoRun gpu cfg rctx env log inputBuf numIter s = .ok outputs s')
    (ht : demoRun gpu' cfg rctx env log inputBuf' numIter t = .ok outputs' t') :
    s'.trace = t'.trace ∧ SameButData s' t' := by
  have hturns : ∀ (inputAs outputAs : SyncAs) (n i : Nat),
      BothReturn SameButData (fun _ _ => True)
        (replayTurns gpu cfg rctx env log inputAs outputAs inputBuf n i)
        (replayTurns gpu' cfg rctx env log inputAs outputAs inputBuf' n i) := by
    intro inputAs outputAs n
    induction n with
    | zero => exact fun _ => BothReturn.of_twins (Twins.pure trivial)
    | succ n ih =>
        intro i
        refine (bothReturn_replayTurn log inputAs outputAs inputBuf inputBuf').bind fun _ _ _ => ?_
        exact (ih (i + 1)).bind fun _ _ _ => BothReturn.of_twins (Twins.pure trivial)
  have hsame : SameButData s' t' := by
    unfold demoRun at hs ht
    cases hsas : rctx.sas.reverse with
    | nil =>
        rw [hsas] at hs
        cases hs
    | cons outputAs rest =>
        cases rest with
        | nil =>
            rw [hsas] at hs
            cases hs
        | cons inputAs rest =>
            rw [hsas] at hs ht
            exact (hturns inputAs outputAs numIter 0 s t outputs outputs' s' t' hst hs ht).2
  refine ⟨?_, hsame⟩
  obtain ⟨mem, provision, rfl, -⟩ := hsame
  rfl

/-! ### A demo of two turns -/

/-- One region of one page, with eight bytes of input and eight bytes of output. -/
def smallDemo : ReplayContext where
  machine := ⟨fun _ => 0, [], []⟩
  userPgt := .null
  oldTranstab := 0
  newTranstab := 0
  regions := [⟨0x1000, 0x2000, [0x5000], 1, 0, 1, 0⟩]
  totNrPages := 1
  sas := [⟨0x1010, 0x1018, 8, 0x5010, 0, 0⟩, ⟨0x1020, 0x1028, 8, 0x5020, 0, 1⟩]
  provision := none
  regFp := none

/-- A job whose head is the first byte of the page. -/
def smallLog : List RegIo :=
  [⟨0, 'W', jsHeadNextLo, 0x1000⟩, ⟨0, 'W', jsHeadNextHi, 0⟩, ⟨0, 'W', jsCommandNext, 1⟩,
    ⟨0, 'R', jobIrqStatus, 2⟩]

/-- Every register answers `2`, and every job ends. -/
def smallEnv : Env := ⟨fun _ => 2, fun n => n, fun _ => true⟩

/-- A GPU that writes a byte of the output, from the second entry on. -/
def smallGpu : Gpu := fun i mem => if i < 2 then mem else Function.update mem 0x5020 7

/-- Whether a run returns a value with `p`, which a concrete one shows by being run. -/
def delivers {α : Type} (x : Replay α) (s : ReplayState) (p : α → Bool) : Bool :=
  match x s with
  | .ok a _ => p a
  | .error _ _ => false

theorem exists_of_delivers {α : Type} {x : Replay α} {s : ReplayState} {p : α → Bool}
    (h : delivers x s p = true) : ∃ a s', x s = .ok a s' ∧ p a = true := by
  unfold delivers at h
  cases hx : x s with
  | ok a s' =>
      rw [hx] at h
      exact ⟨a, s', rfl, h⟩
  | error e s' =>
      rw [hx] at h
      exact absurd h Bool.false_ne_true

/-- The same trace beside two GPUs, with two inputs and on two memories. -/
theorem smallDemo_oblivious :
    ∃ outputs s' outputs' t',
      demoRun (fun _ => smallGpu) ⟨⟨false, false⟩, 1, 2⟩ smallDemo smallEnv smallLog
        (List.replicate 8 1) 2 blankState = .ok outputs s' ∧
      demoRun (fun _ _ mem => mem) ⟨⟨false, false⟩, 1, 2⟩ smallDemo smallEnv smallLog
        (List.replicate 8 3) 2 { blankState with mem := fun _ => 9 } = .ok outputs' t' ∧
      outputs ≠ outputs' ∧ s'.trace = t'.trace ∧ SameButData s' t' := by
  obtain ⟨outputs, s', hs, hout⟩ := exists_of_delivers (x := demoRun (fun _ => smallGpu)
    ⟨⟨false, false⟩, 1, 2⟩ smallDemo smallEnv smallLog (List.replicate 8 1) 2) (s := blankState)
    (p := fun o => decide (o = List.replicate 2 (7 :: List.replicate 7 0xFF))) (by decide +kernel)
  obtain ⟨outputs', t', ht, hout'⟩ := exists_of_delivers (x := demoRun (fun _ _ mem => mem)
    ⟨⟨false, false⟩, 1, 2⟩ smallDemo smallEnv smallLog (List.replicate 8 3) 2)
    (s := { blankState with mem := fun _ => 9 })
    (p := fun o => decide (o = List.replicate 2 (List.replicate 8 0xFF))) (by decide +kernel)
  have hdiffer : outputs ≠ outputs' := by
    rw [of_decide_eq_true hout, of_decide_eq_true hout']
    decide
  obtain ⟨htrace, hsame⟩ := demoRun_oblivious ⟨⟨false, false⟩, 1, 2⟩ smallDemo smallEnv smallLog 2
    ⟨_, _, rfl, rfl⟩ hs ht
  exact ⟨outputs, s', outputs', t', hs, ht, hdiffer, htrace, hsame⟩

end GpuReplay.Replayer
