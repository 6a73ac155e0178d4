/-
Job heads, and what a replay writes to GPU memory.

`gr_js_tune` is the one function of a run that writes to memory, and it does so for the high
word of a head, at an address of which the low word has been kept in a static variable.  The
variable is overwritten by each low word and by nothing else, so with a low word earlier in the
same run it holds that one, whatever it held when the run began.  Everything between the two
words, and between them and the submission, is blind to memory and to the variable.
-/
import GpuReplay.Lib.History
import GpuReplay.Lib.WriteList
import GpuReplay.Proofs.Frames
import GpuReplay.Proofs.GpuMem

namespace GpuReplay.Replayer

open ByteMem

/-! ### The heads of a log -/

/-- After the entries `before`, the high word `hi` completes the address of a head, of which the
low word is the latest of this run. -/
def CompletesHead (before : List RegIo) (hi : RegIo) (addr : Nat) : Prop :=
  hi.Writes jsHeadNextHi ∧ ∃ lo, Latest (·.Writes jsHeadNextLo) before lo ∧
    addr = hi.value * 2 ^ 32 ||| lo.value

/-- A head that the log prepares. -/
def JobHead (log : List RegIo) (addr : Nat) : Prop :=
  ∃ before hi after, log = before ++ hi :: after ∧ CompletesHead before hi addr

/-- Disjoint regions with page-aligned frames. -/
structure DisjointRegions (regions : List Region) : Prop where
  disjoint : regions.Pairwise fun r s => ∀ a, ¬(r.Encloses a ∧ s.Encloses a)
  bounded : ∀ r ∈ regions, r.gmEnd < 2 ^ 64
  frames : ∀ r ∈ regions, ∀ p ∈ r.pages, p % 4096 = 0

/-- The eight bytes at `addr` are aligned and in the backed part of a region. -/
structure HeadPlaced (regions : List Region) (addr : Nat) : Prop where
  aligned : addr % 8 = 0
  backed : ∃ r ∈ regions, r.gmStart ≤ addr ∧ addr + 8 ≤ r.gmEnd ∧
    addr + 8 ≤ r.gmStart + 4096 * r.pages.length

/-- Each high word follows a low word, each submission a high word, and the heads are placed. -/
structure HeadsOk (regions : List Region) (log : List RegIo) : Prop where
  paired : EachAfter (fun before io => io.Writes jsHeadNextHi →
    ∃ lo ∈ before, lo.Writes jsHeadNextLo) log
  complete : EachAfter (fun before io => io.Writes jsCommandNext →
    ∃ hi ∈ before, hi.Writes jsHeadNextHi) log
  placed : ∀ addr, JobHead log addr → HeadPlaced regions addr

/-! ### Memory, and the low word -/

def SameMem (s s' : ReplayState) : Prop := s'.mem = s.mem

def SameLo (s s' : ReplayState) : Prop := s'.jcLo = s.jcLo

instance : AccessBlind SameMem where
  refl _ := rfl
  trans _ _ _ h h' := Eq.trans h' h
  event _ _ _ _ := rfl
  latest _ _ := rfl

instance : TimeBlind SameMem where
  clock _ := rfl
  accounts _ _ _ _ _ _ _ := rfl

instance : SpaceBlind SameMem where
  checkpoint _ _ _ _ := rfl

instance : CheckBlind SameMem where
  snapshot _ _ _ := rfl
  checked _ _ _ := rfl

instance : AccessBlind SameLo where
  refl _ := rfl
  trans _ _ _ h h' := Eq.trans h' h
  event _ _ _ _ := rfl
  latest _ _ := rfl

instance : TimeBlind SameLo where
  clock _ := rfl
  accounts _ _ _ _ _ _ _ := rfl

instance : SpaceBlind SameLo where
  checkpoint _ _ _ _ := rfl

instance : CheckBlind SameLo where
  snapshot _ _ _ := rfl
  checked _ _ _ := rfl

/-! ### One entry -/

section Entry

variable {cfg : ReplayConfig} {rctx : ReplayContext} {env : Env} {io : RegIo} {s : ReplayState}

/-- Only a high word writes to memory. -/
theorem sameMem_entry (i : Nat) (h : ¬io.Writes jsHeadNextHi) :
    Moves SameMem (replayEntry cfg rctx env i io) := by
  refine moves_replayEntry i fun hwrite hoffset => ?_
  rcases hoffset with hlo | hhi
  · rw [hlo]
    exact Moves.modifyGet fun _ => rfl
  · exact absurd ⟨hwrite, hhi⟩ h

/-- Only a low word changes the low word. -/
theorem sameLo_entry (i : Nat) (h : ¬io.Writes jsHeadNextLo) :
    Moves SameLo (replayEntry cfg rctx env i io) := by
  refine moves_replayEntry i fun hwrite hoffset => ?_
  rcases hoffset with hlo | hhi
  · exact absurd ⟨hwrite, hlo⟩ h
  · rw [hhi]
    exact Moves.get.bind fun _ => moves_onMem fun _ _ => rfl

/-- After the tuning, an entry for a word of a head does what any relation is blind to. -/
theorem post_headEntry {R : ReplayState → ReplayState → Prop} [AccessBlind R] [TimeBlind R]
    [SpaceBlind R] [CheckBlind R] (i : Nat) {s₁ : ReplayState} (hwrite : io.isRead ≠ 'R')
    (hoffset : io.offset = jsHeadNextLo ∨ io.offset = jsHeadNextHi)
    (htune : grJsTune rctx io.offset io.value s = .ok () s₁) :
    Post (replayEntry cfg rctx env i io) s (fun _ s' => R s₁ s') (fun _ s' => R s₁ s') := by
  have hprepare : prepareWrite cfg rctx env io s = .ok io.value s₁ := by
    unfold prepareWrite
    rw [if_pos hoffset]
    exact EStateM.bind_eq_ok.mpr ⟨(), s₁, htune, rfl⟩
  have hrest : Moves R (do
      (do
        grRegWrite .entry io.offset io.value
        onlyIf (io.offset = jsCommandNext) (jobSubmitted cfg env)
        onlyIf (io.offset = gpuCommand ∧ io.value = gpuCommandSoftReset)
          (grRegWrite .softReset gpuIrqMask 0x100))
      onlyIf cfg.isValidate (validateEntry env io i)) :=
    (moves_afterPrepare fun _ => moves_jobSubmitted cfg env).bind fun _ =>
      moves_onlyIf fun _ => moves_validateEntry env io i
  unfold replayEntry
  rw [if_neg hwrite, replayWrite, bind_assoc]
  exact Post.bind (Post.of_eq_ok hprepare (hrest s₁))

/-- **A low word is kept.** -/
theorem post_lowWord (i : Nat) (hlo : io.Writes jsHeadNextLo) :
    Post (replayEntry cfg rctx env i io) s (fun _ s' => s'.jcLo = io.value)
      (fun _ s' => s'.jcLo = io.value) :=
  post_headEntry (R := SameLo) i hlo.1 (.inl hlo.2)
    (show _ = EStateM.Result.ok () { s with jcLo := io.value } by rw [hlo.2]; rfl)

/-- The eight bytes of a head lie in one page of one region. -/
theorem grCopyToGpu_head {regions : List Region} (hregions : DisjointRegions regions) {addr : Nat}
    (hplaced : HeadPlaced regions addr) (mem : ByteMem) :
    grCopyToGpu regions mem addr (List.replicate 8 0) 8
      = .ok (mem.write (physAddr regions addr) (List.replicate 8 0), List.replicate 8 0) := by
  obtain ⟨haligned, r, hr, hlo, hend, hbacked⟩ := hplaced
  have henc : r.Encloses addr := ⟨hlo, by omega⟩
  have hin : (addr - r.gmStart) / 4096 < r.pages.length := by omega
  have hcopy := @grCopyToGpu_page regions r addr _ (List.replicate 8 0)
    (grFindRegion_unique hregions.disjoint hr henc) (hregions.bounded r hr)
    (by rw [List.length_replicate]; exact hend) (by decide)
    (by rw [List.length_replicate]; omega) (List.getElem?_eq_getElem hin)
    (hregions.frames r hr _ (List.getElem_mem hin)) mem
  rw [List.length_replicate] at hcopy
  rw [hcopy, physAddr_unique hregions.disjoint hr henc, Region.physAddr,
    List.getD_eq_getElem _ _ hin]

/-- **With a high word the head is cleared**, whether or not the entry's checks go through. -/
theorem post_highWord (i : Nat) (hregions : DisjointRegions rctx.regions)
    (hhi : io.Writes jsHeadNextHi)
    (hplaced : HeadPlaced rctx.regions (io.value * 2 ^ 32 ||| s.jcLo)) :
    Post (replayEntry cfg rctx env i io) s
      (fun _ s' => s'.mem = s.mem.write
        (physAddr rctx.regions (io.value * 2 ^ 32 ||| s.jcLo)) (List.replicate 8 0))
      (fun _ s' => s'.mem = s.mem.write
        (physAddr rctx.regions (io.value * 2 ^ 32 ||| s.jcLo)) (List.replicate 8 0)) := by
  have htune : grJsTune rctx io.offset io.value s = .ok () { s with
      mem := s.mem.write (physAddr rctx.regions (io.value * 2 ^ 32 ||| s.jcLo))
        (List.replicate 8 0) } := by
    unfold grJsTune
    rw [hhi.2, if_neg (by decide)]
    refine EStateM.bind_eq_ok.mpr ⟨s, s, rfl, ?_⟩
    unfold onMem
    dsimp only
    rw [grCopyToGpu_head hregions hplaced]
    rfl
  exact post_headEntry (R := SameMem) i hhi.1 (.inr hhi.2) htune

end Entry

/-! ### Some entries of a run -/

/-- The variable holds the latest low word of the entries so far. -/
def HoldsLo (before : List RegIo) (s : ReplayState) : Prop :=
  ∀ lo, Latest (·.Writes jsHeadNextLo) before lo → s.jcLo = lo.value

section Run

variable {cfg : ReplayConfig} {rctx : ReplayContext} {env : Env}

theorem holdsLo_nil (s : ReplayState) : HoldsLo [] s := by
  rintro lo ⟨before, after, heq, -⟩
  exact absurd heq.symm (List.append_ne_nil_of_right_ne_nil _ (List.cons_ne_nil lo after))

/-- **One entry keeps the invariant.** -/
theorem post_holdsLo (i : Nat) {before : List RegIo} {io : RegIo} {s : ReplayState}
    (h : HoldsLo before s) :
    Post (replayEntry cfg rctx env i io) s (fun _ s' => HoldsLo (before ++ [io]) s')
      (fun _ _ => True) := by
  by_cases hlo : io.Writes jsHeadNextLo
  · refine (post_lowWord i hlo).mono (fun _ s' hs' lo hlatest => ?_) fun _ _ _ => trivial
    rcases latest_snoc.mp hlatest with ⟨-, rfl⟩ | ⟨hne, -⟩
    · exact hs'
    · exact absurd hlo hne
  · refine (sameLo_entry i hlo s).mono (fun _ s' hs' lo hlatest => ?_) fun _ _ _ => trivial
    rcases latest_snoc.mp hlatest with ⟨hp, -⟩ | ⟨-, hlatest⟩
    · exact absurd hp hlo
    · exact Eq.trans hs' (h lo hlatest)

/-- **And so do many**, from whatever the variable held before. -/
theorem holdsLo_of_run {log : List RegIo} :
    ∀ {before : List RegIo} {i : Nat} {s s' : ReplayState}, HoldsLo before s →
      replayEntries cfg rctx env i log s = .ok () s' → HoldsLo (before ++ log) s' := by
  induction log with
  | nil =>
      intro before i s s' h hrun
      obtain ⟨-, rfl⟩ := EStateM.Result.ok.inj hrun
      rwa [List.append_nil]
  | cons io log ih =>
      intro before i s s' h hrun
      obtain ⟨u, s₁, hentry, hrest⟩ := EStateM.bind_eq_ok.mp hrun
      have hnext := ih ((post_holdsLo i h).ok hentry) hrest
      rwa [List.append_assoc] at hnext

/-- Entries with no high word among them leave memory alone. -/
theorem mem_of_entries {part : List RegIo} (hpart : ∀ io ∈ part, ¬io.Writes jsHeadNextHi) {i : Nat}
    {s s' : ReplayState} (hrun : replayEntries cfg rctx env i part s = .ok () s') :
    s'.mem = s.mem :=
  (moves_replayEntries (R := SameMem) (fun i io hio => sameMem_entry i (hpart io hio)) i s).ok hrun

/-- And so does a submission, up to the write. -/
theorem mem_of_prepareWrite {cmd : RegIo} (hcmd : cmd.Writes jsCommandNext) {value : Nat}
    {s s' : ReplayState} (hprepare : prepareWrite cfg rctx env cmd s = .ok value s') :
    s'.mem = s.mem := by
  have hmoves : Moves SameMem (prepareWrite cfg rctx env cmd) := by
    refine moves_prepareWrite (fun hhead => ?_) fun _ => moves_checkpointJob cfg rctx env
    rw [hcmd.2] at hhead
    exact absurd hhead (by decide)
  exact (hmoves s).ok hprepare

/-- The bytes of the log's heads are the only ones that differ. -/
def OnlyHeads (regions : List Region) (log : List RegIo) (mem mem' : ByteMem) : Prop :=
  ∀ p, (∀ addr, JobHead log addr →
    ¬(physAddr regions addr ≤ p ∧ p < physAddr regions addr + 8)) → mem' p = mem p

theorem OnlyHeads.trans {regions : List Region} {log : List RegIo} {mem mem' mem'' : ByteMem}
    (h : OnlyHeads regions log mem mem') (h' : OnlyHeads regions log mem' mem'') :
    OnlyHeads regions log mem mem'' :=
  fun p hp => (h' p hp).trans (h p hp)

theorem onlyHeads_of_eq {regions : List Region} {log : List RegIo} {mem mem' : ByteMem}
    (h : mem' = mem) : OnlyHeads regions log mem mem' := fun p _ => congrFun h p

variable {log : List RegIo} (hregions : DisjointRegions rctx.regions)
  (hlog : HeadsOk rctx.regions log)

include hlog

/-- A high word's address, in a state that holds the low word. -/
theorem jobHead_of_holdsLo {before after : List RegIo} {io : RegIo} {s : ReplayState}
    (hsplit : log = before ++ io :: after) (hhi : io.Writes jsHeadNextHi) (h : HoldsLo before s) :
    CompletesHead before io (io.value * 2 ^ 32 ||| s.jcLo) := by
  obtain ⟨lo, hlo⟩ := exists_latest (hlog.paired before io after hsplit hhi)
  exact ⟨hhi, lo, hlo, by rw [h lo hlo]⟩

include hregions

/-- Once the entries up to a high word are done, its head is zero. -/
theorem headCleared {earlier after : List RegIo} {hi : RegIo} {s s' : ReplayState}
    (hsplit : log = earlier ++ hi :: after) (hhi : hi.Writes jsHeadNextHi)
    (hrun : replayEntries cfg rctx env 0 (earlier ++ [hi]) s = .ok () s') :
    ∃ addr, CompletesHead earlier hi addr ∧
      ∀ k < 8, s'.mem (physAddr rctx.regions addr + k) = 0 := by
  rw [replayEntries_append] at hrun
  obtain ⟨u, sₑ, hearlier, hone⟩ := EStateM.bind_eq_ok.mp hrun
  obtain ⟨v, s₁, hentry, hdone⟩ := EStateM.bind_eq_ok.mp hone
  obtain rfl : s₁ = s' := (EStateM.Result.ok.inj hdone).2
  have hholds : HoldsLo ([] ++ earlier) sₑ := holdsLo_of_run (holdsLo_nil s) hearlier
  have hcompletes := jobHead_of_holdsLo hlog hsplit hhi hholds
  have hmem := (post_highWord (0 + earlier.length) hregions hhi
    (hlog.placed _ ⟨earlier, hi, _, hsplit, hcompletes⟩)).ok hentry
  refine ⟨_, hcompletes, fun k hk => ?_⟩
  rw [hmem, write_apply_add _ _ (by rw [List.length_replicate]; exact hk), List.getElem_replicate]

/-- **An entry changes no byte but those of a head.** -/
theorem post_entry_onlyHeads (i : Nat) {before after : List RegIo} {io : RegIo} {s : ReplayState}
    (hsplit : log = before ++ io :: after) (h : HoldsLo before s) :
    Post (replayEntry cfg rctx env i io) s (fun _ s' => OnlyHeads rctx.regions log s.mem s'.mem)
      (fun _ s' => OnlyHeads rctx.regions log s.mem s'.mem) := by
  by_cases hhi : io.Writes jsHeadNextHi
  · have hhead : JobHead log (io.value * 2 ^ 32 ||| s.jcLo) :=
      ⟨before, io, after, hsplit, jobHead_of_holdsLo hlog hsplit hhi h⟩
    have honly : ∀ {mem' : ByteMem}, mem' = s.mem.write
        (physAddr rctx.regions (io.value * 2 ^ 32 ||| s.jcLo)) (List.replicate 8 0) →
        OnlyHeads rctx.regions log s.mem mem' := by
      rintro mem' rfl p hp
      have hout := hp _ hhead
      refine write_apply_of_not_mem s.mem ?_
      rw [List.length_replicate]
      omega
    exact (post_highWord i hregions hhi (hlog.placed _ hhead)).mono (fun _ _ hs' => honly hs')
      fun _ _ hs' => honly hs'
  · exact (sameMem_entry i hhi s).mono (fun _ _ hs' => onlyHeads_of_eq hs')
      fun _ _ hs' => onlyHeads_of_eq hs'

theorem post_entries_onlyHeads {rest : List RegIo} :
    ∀ {before : List RegIo} {i : Nat} {s : ReplayState}, log = before ++ rest →
      HoldsLo before s → Post (replayEntries cfg rctx env i rest) s
        (fun _ s' => OnlyHeads rctx.regions log s.mem s'.mem)
        (fun _ s' => OnlyHeads rctx.regions log s.mem s'.mem) := by
  induction rest with
  | nil => exact fun _ _ => Post.pure (onlyHeads_of_eq rfl)
  | cons io rest ih =>
      intro before i s hsplit h
      have honly := @post_entry_onlyHeads cfg rctx env log hregions hlog i before rest io s hsplit h
      refine Post.bind ?_
      unfold Post at honly ⊢
      cases hentry : replayEntry cfg rctx env i io s with
      | error e s₁ =>
          rw [hentry] at honly
          exact honly
      | ok u s₁ =>
          rw [hentry] at honly
          have hnext := @ih (before ++ [io]) (i + 1) s₁
            (by rw [hsplit, List.append_assoc]; rfl) ((post_holdsLo i h).ok hentry)
          exact hnext.mono (fun _ _ hs' => honly.trans hs') fun _ _ hs' => honly.trans hs'

end Run

/-! ### Runs -/

/-- `n` runs of the log, one after the other. -/
def grReplayRuns (cfg : ReplayConfig) (rctx : ReplayContext) (env : Env) (log : List RegIo) :
    Nat → Replay Unit
  | 0 => return ()
  | n + 1 => do
      grReplayRuns cfg rctx env log n
      grReplayRun cfg rctx env log

/-- `n` runs, and of one more the entries `before`. -/
def runsUpTo (cfg : ReplayConfig) (rctx : ReplayContext) (env : Env) (log : List RegIo) (n : Nat)
    (before : List RegIo) : Replay Unit := do
  grReplayRuns cfg rctx env log n
  modify fun s => { s with jobSubmitCnt := 1, compTime := 0 }
  let _ ← k2Measure env
  replayEntries cfg rctx env 0 before

section Runs

variable {cfg : ReplayConfig} {rctx : ReplayContext} {env : Env} {log : List RegIo}

/-- A part of a run starts from a state that only the runs before determine. -/
theorem runsUpTo_eq_ok {n : Nat} {s : ReplayState} {before : List RegIo} {s₁ : ReplayState}
    (hrun : runsUpTo cfg rctx env log n before s = .ok () s₁) :
    ∃ s₀, replayEntries cfg rctx env 0 before s₀ = .ok () s₁ ∧
      ∀ entries s', replayEntries cfg rctx env 0 entries s₀ = .ok () s' ↔
        runsUpTo cfg rctx env log n entries s = .ok () s' := by
  unfold runsUpTo at hrun
  obtain ⟨u, s', hruns, hrun⟩ := EStateM.bind_eq_ok.mp hrun
  obtain ⟨v, s'', hset, hrun⟩ := EStateM.bind_eq_ok.mp hrun
  obtain ⟨ts, s₀, hclock, hrun⟩ := EStateM.bind_eq_ok.mp hrun
  refine ⟨s₀, hrun, fun entries s₂ => ⟨fun hentries => ?_, fun hentries => ?_⟩⟩
  · exact EStateM.bind_eq_ok.mpr ⟨u, s', hruns, EStateM.bind_eq_ok.mpr ⟨v, s'', hset,
      EStateM.bind_eq_ok.mpr ⟨ts, s₀, hclock, hentries⟩⟩⟩
  · unfold runsUpTo at hentries
    obtain ⟨u', t', hruns', hentries⟩ := EStateM.bind_eq_ok.mp hentries
    obtain rfl : s' = t' := (EStateM.Result.ok.inj (hruns.symm.trans hruns')).2
    obtain ⟨v', t'', hset', hentries⟩ := EStateM.bind_eq_ok.mp hentries
    obtain rfl : s'' = t'' := (EStateM.Result.ok.inj (hset.symm.trans hset')).2
    obtain ⟨ts', t₀, hclock', hentries⟩ := EStateM.bind_eq_ok.mp hentries
    obtain rfl : s₀ = t₀ := (EStateM.Result.ok.inj (hclock.symm.trans hclock')).2
    exact hentries

variable (hregions : DisjointRegions rctx.regions) (hlog : HeadsOk rctx.regions log)

include hregions hlog

theorem post_run_onlyHeads (s : ReplayState) :
    Post (grReplayRun cfg rctx env log) s (fun _ s' => OnlyHeads rctx.regions log s.mem s'.mem)
      (fun _ s' => OnlyHeads rctx.regions log s.mem s'.mem) := by
  refine Post.bind (Post.of_eq_ok rfl (Post.bind (Post.of_eq_ok rfl (Post.bind ?_))))
  have hentries := @post_entries_onlyHeads cfg rctx env log hregions hlog log [] 0
    { s with jobSubmitCnt := 1, compTime := 0, clocks := s.clocks + 1 } (List.nil_append log).symm
    (holdsLo_nil _)
  exact hentries.mono (fun _ s' hs' => Post.of_eq_ok rfl hs') fun _ _ hs' => hs'

theorem post_runs_onlyHeads (n : Nat) (s : ReplayState) :
    Post (grReplayRuns cfg rctx env log n) s
      (fun _ s' => OnlyHeads rctx.regions log s.mem s'.mem)
      (fun _ s' => OnlyHeads rctx.regions log s.mem s'.mem) := by
  induction n with
  | zero => exact Post.pure (onlyHeads_of_eq rfl)
  | succ n ih =>
      refine Post.bind (ih.mono (fun _ s₁ hs₁ => ?_) fun _ _ hs₁ => hs₁)
      exact (post_run_onlyHeads hregions hlog s₁).mono (fun _ _ hs' => hs₁.trans hs')
        fun _ _ hs' => hs₁.trans hs'

/-- **Job heads are prepared.**  In every run of any number of consecutive ones, whatever state
the first begins in, at a submission the head of the latest two words of this run has been
cleared when its high word was processed, and memory has been what it was then ever since; and
the runs change no byte of memory that is not in one of the log's heads, also when they stop
with an error. -/
theorem jobHeads_prepared (n : Nat) (s : ReplayState) :
    (∀ before cmd after, log = before ++ cmd :: after → cmd.Writes jsCommandNext →
      ∀ s₁ value s₂, runsUpTo cfg rctx env log n before s = .ok () s₁ →
        prepareWrite cfg rctx env cmd s₁ = .ok value s₂ →
        ∃ earlier hi later addr s₀, before = earlier ++ hi :: later
          ∧ CompletesHead earlier hi addr ∧ (∀ io ∈ later, ¬io.Writes jsHeadNextHi)
          ∧ runsUpTo cfg rctx env log n (earlier ++ [hi]) s = .ok () s₀
          ∧ (∀ k < 8, s₀.mem (physAddr rctx.regions addr + k) = 0)
          ∧ (∀ part rest, later = part ++ rest → ∀ s',
              runsUpTo cfg rctx env log n (earlier ++ [hi] ++ part) s = .ok () s' →
              s'.mem = s₀.mem)
          ∧ s₂.mem = s₀.mem)
      ∧ Post (grReplayRuns cfg rctx env log n) s
        (fun _ s' => OnlyHeads rctx.regions log s.mem s'.mem)
        (fun _ s' => OnlyHeads rctx.regions log s.mem s'.mem) := by
  refine ⟨fun before cmd after hsplit hcmd s₁ value s₂ hrun hprepare => ?_,
    post_runs_onlyHeads hregions hlog n s⟩
  obtain ⟨start, hbefore, hstart⟩ := runsUpTo_eq_ok hrun
  -- the latest high word before the submission, and the low word it follows
  obtain ⟨hi, earlier, later, rfl, hhi, hlater⟩ :=
    exists_latest (hlog.complete before cmd after hsplit hcmd)
  rw [List.append_assoc] at hsplit
  have hwhole : earlier ++ hi :: later = earlier ++ [hi] ++ later := by
    rw [List.append_assoc, List.singleton_append]
  rw [hwhole, replayEntries_append] at hbefore
  obtain ⟨u, s₀, hcleared, hrest⟩ := EStateM.bind_eq_ok.mp hbefore
  obtain ⟨addr, hcompletes, hzero⟩ := headCleared hregions hlog hsplit hhi hcleared
  refine ⟨earlier, hi, later, addr, s₀, rfl, hcompletes, hlater, (hstart _ _).mp hcleared, hzero,
    fun part rest hpart s' hrun' => ?_,
    (mem_of_prepareWrite hcmd hprepare).trans (mem_of_entries hlater hrest)⟩
  -- the same state, and then some of the entries that are blind to memory
  have hentries := (hstart _ _).mpr hrun'
  rw [replayEntries_append] at hentries
  obtain ⟨v, t, ht, hentries⟩ := EStateM.bind_eq_ok.mp hentries
  obtain rfl : t = s₀ := (EStateM.Result.ok.inj (ht.symm.trans hcleared)).2
  exact mem_of_entries (fun io hio => hlater io (hpart ▸ List.mem_append_left _ hio)) hentries

end Runs

/-! ### A job -/

/-- A region of one page. -/
def headContext : ReplayContext :=
  { blankContext with regions := [⟨0x10000, 0x11000, [0x5000], 1, 0, 1, 0⟩] }

/-- A job with its head at `0x10008`. -/
def headLog : List RegIo :=
  [⟨0, 'W', jsHeadNextLo, 0x10008⟩, ⟨0, 'W', jsHeadNextHi, 0⟩, ⟨0, 'W', jsCommandNext, 1⟩]

theorem disjointRegions_headContext : DisjointRegions headContext.regions where
  disjoint := List.pairwise_singleton _ _
  bounded := by decide
  frames := by decide

theorem headsOk_headLog : HeadsOk headContext.regions headLog where
  paired := ((EachAfter.nil.snoc (by decide)).snoc fun _ =>
    ⟨_, List.mem_cons_self, by decide⟩).snoc (by decide)
  complete := ((EachAfter.nil.snoc (by decide)).snoc (by decide)).snoc fun _ =>
    ⟨_, List.mem_cons_of_mem _ List.mem_cons_self, by decide⟩
  placed := by
    have heach : EachAfter (fun before hi => ∀ addr, CompletesHead before hi addr →
        HeadPlaced headContext.regions addr) headLog := by
      refine ((EachAfter.nil.snoc ?_).snoc ?_).snoc ?_
      · exact fun _ hc => absurd hc.1 (by decide)
      · rintro addr ⟨-, lo, hlo, rfl⟩
        rcases (@latest_snoc _ _ [] _ _).mp hlo with ⟨-, rfl⟩ | ⟨hne, -⟩
        · exact ⟨by decide, _, List.mem_cons_self, by decide⟩
        · exact absurd ⟨by decide, rfl⟩ hne
      · exact fun _ hc => absurd hc.1 (by decide)
    rintro addr ⟨before, hi, after, hsplit, hc⟩
    exact heach before hi after hsplit addr hc

/-- The second of two runs, over memory that was full of ones. -/
theorem headLog_prepared :
    ∃ s₁ s₂ addr, runsUpTo plainConfig headContext (answering fun _ => 0) headLog 1
          (headLog.take 2) { blankState with mem := fun _ => 0xff } = .ok () s₁
      ∧ prepareWrite plainConfig headContext (answering fun _ => 0) ⟨0, 'W', jsCommandNext, 1⟩ s₁
        = .ok 1 s₂
      ∧ JobHead headLog addr
      ∧ ∀ k < 8, s₂.mem (physAddr headContext.regions addr + k) = 0 := by
  obtain ⟨hprepared, -⟩ := @jobHeads_prepared plainConfig headContext (answering fun _ => 0)
    headLog disjointRegions_headContext headsOk_headLog 1 { blankState with mem := fun _ => 0xff }
  obtain ⟨s₁, hrun, -⟩ := @exists_of_returns (runsUpTo plainConfig headContext
    (answering fun _ => 0) headLog 1 (headLog.take 2)) { blankState with mem := fun _ => 0xff }
    (fun _ => true) (by decide +kernel)
  obtain ⟨earlier, hi, later, addr, s₀, hbefore, hc, -, -, hzero, -, hsame⟩ :=
    hprepared (headLog.take 2) ⟨0, 'W', jsCommandNext, 1⟩ [] rfl (by decide) s₁ 1 s₁ hrun rfl
  refine ⟨s₁, s₁, addr, hrun, rfl, ⟨earlier, hi, later ++ headLog.drop 2, ?_, hc⟩, ?_⟩
  · rw [← List.cons_append, ← List.append_assoc, ← hbefore]
    rfl
  · rwa [hsame]

end GpuReplay.Replayer
