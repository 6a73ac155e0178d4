/-
In which order the ioctls of the pool may come.

The driver checks nothing, so what it does is right only where user space keeps to an order:
`GR_MEMPOOL_INIT` first and, once there are pages in the pool, not again before
`GR_MEMPOOL_TERM`; everything else in between.  `PoolStatus` is what a command list alone says of
the pool, and `Tracks` that the device is in that state.
-/
import GpuReplay.Lib.Run
import GpuReplay.NanoDriver.Device

namespace GpuReplay.NanoDriver

open LinkedList

/-! ### What is wanted of a call -/

/-- The call returns an error and changes nothing. -/
def Refused (wild : Option Node → Nat) (fuel : Nat) (d : Device) (c : DeviceCall) : Prop :=
  ∃ result, grIoctlDevice wild fuel d c = .returned result d ∧ result.retval < 0

/-- The pages of the current pool are in the current pool. -/
def KeepsPages (d d' : Device) : Prop :=
  ∀ pool, d.current = some pool → ∀ e ∈ pool.added, ∃ pool', d'.current = some pool' ∧ e ∈ pool'.added

/-- What is done to a pool is done to one that has been initialised and not terminated, and
another pool in its place does not lose its pages; or else the call is refused. -/
def SafeCall (wild : Option Node → Nat) (fuel : Nat) (d : Device) (c : DeviceCall) : Prop :=
  Refused wild fuel d c ∨
    match c with
    | .init _ => ∃ result d', grIoctlDevice wild fuel d c = .returned result d' ∧
        d'.current.isSome ∧ KeepsPages d d'
    | .pool _ => d.current.isSome
    | .term => d.current.isSome
    | .other => True

/-! ### What a command list says of the pool -/

inductive PoolStatus
  | absent
  | empty
  | filled
  deriving Repr, DecidableEq

/-- Whether the first page that is asked for is had. -/
def MempoolOp.addsPage : MempoolOp → Bool
  | .getPage (.page _ (some _)) => true
  | .grow (.page _ (some _) :: _) => true
  | _ => false

def PoolStatus.next : PoolStatus → DeviceCall → PoolStatus
  | .absent, .init (some _) => .empty
  | .empty, .init (some _) => .empty
  | .filled, .init (some _) => .empty
  | .empty, .pool op => if op.addsPage then .filled else .empty
  | _, .term => .absent
  | status, _ => status

/-- The order: no `GR_MEMPOOL_INIT` while there are pages in a pool, or without memory, and
nothing else without a pool. -/
def PoolStatus.Allows : PoolStatus → DeviceCall → Prop
  | .filled, .init _ => False
  | _, .init memory => memory.isSome
  | .absent, .pool _ => False
  | .absent, .term => False
  | _, _ => True

/-- Calls in that order, from the loading of the module on. -/
def InOrder (calls : List DeviceCall) : Prop :=
  AllSteps (fun status c => some (PoolStatus.next status c)) PoolStatus.Allows .absent calls

/-- The device is as the commands say. -/
def Tracks (d : Device) : PoolStatus → Prop
  | .absent => d.current = none
  | .empty => ∃ pool, d.current = some pool ∧ pool.added = []
  | .filled => ∃ pool, d.current = some pool ∧ pool.added ≠ []

theorem tracks_absent {d : Device} (h : d.current = none) : Tracks d .absent := h

variable {wild : Option Node → Nat} {fuel : Nat} {d d' : Device} {status : PoolStatus}
  {c : DeviceCall}

/-! ### One call -/

theorem current_eq_some {pool : Mempool} :
    d.current = some pool ↔ ∃ i, d.pool = some i ∧ d.pools[i]? = some ⟨pool, true⟩ := by
  unfold Device.current
  constructor
  · intro h
    split at h
    next p heq =>
      obtain rfl := Option.some.inj h
      obtain ⟨i, hi, hget⟩ := Option.bind_eq_some_iff.mp heq
      exact ⟨i, hi, hget⟩
    next => cases h
  · rintro ⟨i, hi, hget⟩
    rw [hi, Option.bind_some, hget]

/-- The pool the device has after the current one was changed or freed. -/
theorem current_put {pool pool' : Mempool} {live : Bool} (h : d.current = some pool) :
    (d.put ⟨pool', live⟩).current = if live then some pool' else none := by
  obtain ⟨i, hi, hget⟩ := current_eq_some.mp h
  unfold Device.put Device.current
  rw [hi]
  dsimp only
  rw [Option.bind_some, List.getElem?_set_self (List.getElem?_eq_some_iff.mp hget).1]
  cases live <;> rfl

theorem grMempoolGrow_added : ∀ {results : List AllocResult} {pool pool' : Mempool} {r : Int},
    grMempoolGrow results pool = .ok (r, pool') →
      ∃ new, pool'.added = new ++ pool.added ∧
        (new = [] ↔ MempoolOp.addsPage (.grow results) = false) := by
  intro results
  induction results with
  | nil =>
      intro pool pool' r h
      obtain ⟨-, rfl⟩ := Prod.mk.inj (Except.ok.inj h)
      exact ⟨[], rfl, iff_of_true rfl rfl⟩
  | cons result results ih =>
      intro pool pool' r h
      cases result with
      | null => cases h
      | page pfn dmaAddr =>
          cases dmaAddr with
          | none =>
              obtain ⟨-, rfl⟩ := Prod.mk.inj (Except.ok.inj h)
              exact ⟨[], rfl, iff_of_true rfl rfl⟩
          | some dmaAddr =>
              obtain ⟨new, hnew, -⟩ := ih h
              refine ⟨new ++ [(.page pfn, Function.update pool.private_ (.page pfn) dmaAddr (.page pfn))],
                ?_, iff_of_false (by simp) (by simp [MempoolOp.addsPage])⟩
              rw [hnew, List.append_assoc]
              rfl

theorem getPagesLoop_added (n : Nat) :
    ∀ pool : Mempool, (getPagesLoop wild n pool).2.added = pool.added := by
  induction n with
  | zero => exact fun _ => rfl
  | succ n ih =>
      intro pool
      have hremove : (grMempoolRemove pool).2.added = pool.added := by
        unfold grMempoolRemove
        split <;> rfl
      exact (ih _).trans hremove

/-- A pool gets pages from an ioctl exactly where its first page is had, and loses none. -/
theorem grIoctl_added {pool pool' : Mempool} {op : MempoolOp} {result : IoctlResult}
    (h : grIoctl wild pool op = .ok (result, pool')) :
    ∃ new, pool'.added = new ++ pool.added ∧ (new = [] ↔ op.addsPage = false) := by
  cases op with
  | getPage answer =>
      obtain ⟨⟨r, mid⟩, hgrow, h⟩ := Except.bind_eq_ok.mp h
      obtain ⟨-, rfl⟩ := Prod.mk.inj (Except.ok.inj h)
      obtain ⟨new, hnew, hadds⟩ := grMempoolGrow_added hgrow
      refine ⟨new, (getPagesLoop_added 1 mid).trans hnew, hadds.trans ?_⟩
      cases answer with
      | null => exact Iff.rfl
      | page pfn dmaAddr => cases dmaAddr <;> exact Iff.rfl
  | grow results =>
      obtain ⟨⟨r, mid⟩, hgrow, h⟩ := Except.bind_eq_ok.mp h
      obtain ⟨-, rfl⟩ := Prod.mk.inj (Except.ok.inj h)
      exact grMempoolGrow_added hgrow
  | getPages nrPages =>
      obtain ⟨-, rfl⟩ := Prod.mk.inj (Except.ok.inj h)
      exact ⟨[], getPagesLoop_added _ pool, iff_of_true rfl rfl⟩

/-- A pool that `gr_mempool_init` has made is the current one, without pages. -/
theorem current_init (d : Device) (junk : Links Node) (private_ : Node → Nat) :
    Device.current ⟨d.pools ++ [⟨grMempoolInit junk private_, true⟩], some d.pools.length⟩ =
      some (grMempoolInit junk private_) :=
  current_eq_some.mpr ⟨_, rfl, List.getElem?_concat_length⟩

/-- Nothing is ever refused. -/
theorem not_refused_noPool (h : grIoctlDevice wild fuel d c = .noPool) : ¬Refused wild fuel d c := by
  rintro ⟨result, hrun, -⟩
  rw [h] at hrun
  cases hrun

theorem Tracks.isSome_iff (h : Tracks d status) : d.current.isSome ↔ status ≠ .absent := by
  cases status with
  | absent => simp [show d.current = none from h]
  | empty =>
      obtain ⟨pool, hpool, -⟩ := h
      simp [hpool]
  | filled =>
      obtain ⟨pool, hpool, -⟩ := h
      simp [hpool]

/-- A call that uses the pool follows the pointer in any case. -/
theorem safeCall_iff_current (hc : (∃ op, c = .pool op) ∨ c = .term) :
    SafeCall wild fuel d c ↔ d.current.isSome := by
  have hnone : d.current = none → grIoctlDevice wild fuel d c = .noPool := by
    intro hcurrent
    rcases hc with ⟨op, rfl⟩ | rfl
    · simp only [grIoctlDevice, hcurrent]
    · simp only [grIoctlDevice, hcurrent]
  constructor
  · intro hsafe
    by_contra hcurrent
    have hcurrent := Option.not_isSome_iff_eq_none.mp hcurrent
    have hlive := hsafe.resolve_left (not_refused_noPool (hnone hcurrent))
    rcases hc with ⟨op, rfl⟩ | rfl
    · simp [hcurrent] at hlive
    · simp [hcurrent] at hlive
  · intro hcurrent
    rcases hc with ⟨op, rfl⟩ | rfl
    · exact Or.inr hcurrent
    · exact Or.inr hcurrent

/-- **What is wanted of a call, the order says.** -/
theorem safeCall_iff (h : Tracks d status) : SafeCall wild fuel d c ↔ status.Allows c := by
  cases c with
  | init memory =>
      cases memory with
      | none =>
          refine iff_of_false ?_ (by cases status <;> simp [PoolStatus.Allows])
          rintro (hrefused | ⟨result, d', hrun, -⟩)
          · exact not_refused_noPool rfl hrefused
          · cases hrun
      | some memory =>
          obtain ⟨junk, private_⟩ := memory
          have hinit : SafeCall wild fuel d (.init (some (junk, private_))) ↔
              ∀ pool, d.current = some pool → pool.added = [] := by
            constructor
            · rintro (⟨result, hrun, hretval⟩ | ⟨result, d', hrun, -, hkeeps⟩)
              · obtain ⟨rfl, -⟩ := CallOutcome.returned.inj hrun
                exact absurd hretval (Int.lt_irrefl 0)
              · obtain ⟨-, rfl⟩ := CallOutcome.returned.inj hrun
                intro pool hpool
                refine List.eq_nil_iff_forall_not_mem.mpr fun e he => ?_
                obtain ⟨pool', hpool', hmem⟩ := hkeeps pool hpool e he
                rw [current_init] at hpool'
                obtain rfl := Option.some.inj hpool'
                exact List.not_mem_nil hmem
            · intro hnone
              refine Or.inr ⟨_, _, rfl, by rw [current_init]; rfl, fun pool hpool e he => ?_⟩
              rw [hnone pool hpool] at he
              exact absurd he List.not_mem_nil
          rw [hinit]
          cases status with
          | absent =>
              refine iff_of_true (fun pool hpool => ?_) rfl
              rw [show d.current = none from h] at hpool
              cases hpool
          | empty =>
              obtain ⟨pool, hpool, hadded⟩ := h
              refine iff_of_true (fun pool' hpool' => ?_) rfl
              rwa [← Option.some.inj (hpool.symm.trans hpool')]
          | filled =>
              obtain ⟨pool, hpool, hadded⟩ := h
              exact iff_of_false (fun hall => hadded (hall pool hpool)) id
  | pool op =>
      rw [safeCall_iff_current (Or.inl ⟨op, rfl⟩), h.isSome_iff]
      cases status <;> simp [PoolStatus.Allows]
  | term =>
      rw [safeCall_iff_current (Or.inr rfl), h.isSome_iff]
      cases status <;> simp [PoolStatus.Allows]
  | other => exact iff_of_true (Or.inr trivial) (by cases status <;> trivial)

/-- A call in order leaves the device as the commands say. -/
theorem Tracks.step (h : Tracks d status) (hallows : status.Allows c)
    (hstep : deviceStep wild fuel d c = some d') : Tracks d' (status.next c) := by
  unfold deviceStep at hstep
  cases c with
  | init memory =>
      cases memory with
      | none => cases hstep
      | some memory =>
          obtain ⟨junk, private_⟩ := memory
          obtain rfl := Option.some.inj hstep
          have hempty : Tracks ⟨d.pools ++ [⟨grMempoolInit junk private_, true⟩], some d.pools.length⟩
              .empty := ⟨_, current_init d junk private_, rfl⟩
          cases status <;> exact hempty
  | pool op =>
      obtain ⟨pool, hpool⟩ := Option.isSome_iff_exists.mp
        (h.isSome_iff.mpr (by rintro rfl; exact hallows))
      simp only [grIoctlDevice, hpool] at hstep
      cases hrun : grIoctl wild pool op with
      | error e =>
          rw [hrun] at hstep
          cases hstep
      | ok r =>
          obtain ⟨result, pool'⟩ := r
          rw [hrun] at hstep
          obtain rfl := Option.some.inj hstep
          have hcurrent : (d.put ⟨pool', true⟩).current = some pool' := current_put hpool
          obtain ⟨new, hnew, hadds⟩ := grIoctl_added hrun
          cases status with
          | absent => exact hallows.elim
          | empty =>
              obtain ⟨pool₀, hpool₀, hadded⟩ := h
              obtain rfl := Option.some.inj (hpool₀.symm.trans hpool)
              rw [hadded, List.append_nil] at hnew
              rw [← hnew] at hadds
              show Tracks _ (if op.addsPage then .filled else .empty)
              cases hop : op.addsPage with
              | true => exact ⟨pool', hcurrent, fun h => by simp [hadds.mp h] at hop⟩
              | false => exact ⟨pool', hcurrent, hadds.mpr hop⟩
          | filled =>
              obtain ⟨pool₀, hpool₀, hadded⟩ := h
              obtain rfl := Option.some.inj (hpool₀.symm.trans hpool)
              refine ⟨pool', hcurrent, fun h => hadded ?_⟩
              rw [hnew] at h
              exact (List.append_eq_nil_iff.mp h).2
  | term =>
      obtain ⟨pool, hpool⟩ := Option.isSome_iff_exists.mp
        (h.isSome_iff.mpr (by rintro rfl; exact hallows))
      simp only [grIoctlDevice, hpool] at hstep
      cases hrun : grMempoolTerm fuel pool with
      | none =>
          rw [hrun] at hstep
          cases hstep
      | some pool' =>
          rw [hrun] at hstep
          obtain rfl := Option.some.inj hstep
          have habsent : Tracks (d.put ⟨pool', false⟩) .absent := current_put hpool
          cases status <;> exact habsent
  | other =>
      obtain rfl := Option.some.inj hstep
      cases status <;> exact h

/-! ### A run -/

/-- **The calls are all safe exactly when they come in order**, from the loading of the module on:
of calls each of which was made after the one before had returned. -/
theorem gr_device_safe_iff (wild : Option Node → Nat) (fuel : Nat) (calls : List DeviceCall)
    (last : DeviceCall)
    (hreturned : (calls.foldlM (deviceStep wild fuel) Device.loaded).isSome) :
    AllSteps (deviceStep wild fuel) (SafeCall wild fuel) Device.loaded (calls ++ [last]) ↔
      InOrder (calls ++ [last]) := by
  unfold InOrder
  refine allSteps_iff_of_follows (R := Tracks) (fun d status c h => ?_)
    (fun d status c d' h hsafe hstep => ?_) (tracks_absent rfl) hreturned
  · exact safeCall_iff h
  · exact h.step ((safeCall_iff h).mp hsafe) hstep

/-- `GR_MEMPOOL_INIT` with memory that happens to be clear. -/
def initCall : DeviceCall := .init (some (⟨fun _ => .pageList, fun _ => .pageList⟩, fun _ => 0))

def growCall : DeviceCall := .pool (.grow [.page 5 (some 20480)])

/-- What the replayer does, with one page. -/
theorem gr_device_safe_one :
    AllSteps (deviceStep (fun _ => 0) 9) (SafeCall (fun _ => 0) 9) Device.loaded
      ([initCall, growCall, .pool (.getPages 1)] ++ [.term]) :=
  (gr_device_safe_iff (fun _ => 0) 9 [initCall, growCall, .pool (.getPages 1)] .term rfl).mpr
    (by simp [InOrder, AllSteps, initCall, growCall, PoolStatus.next, PoolStatus.Allows,
      MempoolOp.addsPage])

/-- A second `GR_MEMPOOL_INIT` loses a page, a second `GR_MEMPOOL_TERM` frees what is freed, and
without a pool there is nothing to take pages from. -/
theorem gr_device_unsafe :
    ¬AllSteps (deviceStep (fun _ => 0) 9) (SafeCall (fun _ => 0) 9) Device.loaded
        [initCall, growCall, initCall] ∧
      ¬AllSteps (deviceStep (fun _ => 0) 9) (SafeCall (fun _ => 0) 9) Device.loaded
        [initCall, .term, .term] ∧
      ¬AllSteps (deviceStep (fun _ => 0) 9) (SafeCall (fun _ => 0) 9) Device.loaded [growCall] := by
  refine ⟨fun h => ?_, fun h => ?_, fun h => ?_⟩
  · have hsafe := ((h.2 _ rfl).2 _ rfl).1
    exact (@safeCall_iff _ _ _ .filled _ ⟨_, rfl, List.cons_ne_nil _ _⟩).mp hsafe
  · have hsafe := ((h.2 _ rfl).2 _ rfl).1
    exact (safeCall_iff (tracks_absent rfl)).mp hsafe
  · exact (safeCall_iff (tracks_absent rfl)).mp h.1

end GpuReplay.NanoDriver
