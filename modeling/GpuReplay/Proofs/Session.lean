/-
What recording sessions leave in the files.

A session writes the same bytes to its two files whatever is in them, from the start on.
What an earlier session left behind these bytes stays, and the page table is that of the first
session.  So the sessions are independent as long as none is longer than the last one and the page
table has not changed.
-/
import GpuReplay.Driver.Session
import GpuReplay.Proofs.Recorder

namespace GpuReplay

open Stdio Driver

/-! ### Two runs of one session -/

/-- The contexts differ in their files only. -/
structure SameRecord (s t : GrContext) : Prop where
  asList : s.asList = t.asList
  asCnt : s.asCnt = t.asCnt
  calls : s.calls = t.calls

variable {mem : ByteMem} {cpuAlloc : Nat → List Nat} {old old' : List UInt8}
  {s s' t t' : GrContext}

theorem SameRecord.walk {sel : GrAs → Bool} (h : SameRecord s t)
    (hs : Walk mem cpuAlloc sel s s') (ht : Walk mem cpuAlloc sel t t')
    (hcnt : s'.asCnt = s.asCnt) (hcnt' : t'.asCnt = t.asCnt) : SameRecord s' t' where
  asList := by rw [hs.asList, ht.asList, h.asList]
  asCnt := by rw [hcnt, hcnt', h.asCnt]
  calls := by rw [hs.calls, ht.calls, h.calls, h.asList]

theorem dumpMc_asCnt {sel : GrAs → Bool} (h : dumpMc mem cpuAlloc sel s = .ok s') :
    s'.asCnt = s.asCnt := by
  unfold dumpMc at h
  cases hloop : dumpMcLoop mem cpuAlloc sel 0 s.asList (s.memDumpFile, s.calls) with
  | error e =>
      rw [hloop] at h
      cases h
  | ok out =>
      rw [hloop] at h
      obtain rfl := Except.ok.inj h
      rfl

theorem SameRecord.dump {sel : GrAs → Bool} (h : SameRecord s t) (hwf : s.memDumpFile.WF)
    (hwf' : t.memDumpFile.WF) (hs : dumpMc mem cpuAlloc sel s = .ok s')
    (ht : dumpMc mem cpuAlloc sel t = .ok t') : SameRecord s' t' :=
  h.walk (dumpMc_ok hwf hs) (dumpMc_ok hwf' ht) (dumpMc_asCnt hs) (dumpMc_asCnt ht)

/-- What goes through for one goes through for the other. -/
theorem SameRecord.dump_isOk {sel : GrAs → Bool} (h : SameRecord s t) (hwf' : t.memDumpFile.WF)
    (hs : dumpMc mem cpuAlloc sel s = .ok s') : ∃ t', dumpMc mem cpuAlloc sel t = .ok t' := by
  obtain ⟨out, hloop, -⟩ := Except.bind_eq_ok.mp hs
  have hnents := dumpMcLoop_nents hloop
  rw [h.asList] at hnents
  obtain ⟨out', hout'⟩ := @dumpMcLoop_isOk mem cpuAlloc sel t.asList 0 t.memDumpFile t.calls hwf' hnents
  exact ⟨_, Except.bind_eq_ok.mpr ⟨out', hout', rfl⟩⟩

theorem SameRecord.step_isSome (h : SameRecord s t) (hwf' : t.memDumpFile.WF) {e : RecorderEvent}
    (hs : recorderStep s e = some s') : ∃ t', recorderStep t e = some t' := by
  cases e with
  | mmap vmStart vmEnd region => exact ⟨_, rfl⟩
  | fault vmStart vmEnd nents => exact ⟨_, rfl⟩
  | submit mem cpuAlloc =>
      cases hdump : grDumpMcValid mem cpuAlloc .allWoComputeJob s with
      | error e =>
          rw [recorderStep, hdump] at hs
          exact absurd hs.symm (Option.some_ne_none _)
      | ok s₁ =>
          obtain ⟨t₁, hdump'⟩ := h.dump_isOk hwf' hdump
          exact ⟨t₁, congrArg Except.toOption hdump'⟩

/-- An event does the same to both. -/
theorem SameRecord.step (h : SameRecord s t) (hwf : s.memDumpFile.WF) (hwf' : t.memDumpFile.WF)
    {e : RecorderEvent} (hs : recorderStep s e = some s') (ht : recorderStep t e = some t') :
    SameRecord s' t' := by
  cases e with
  | mmap vmStart vmEnd region =>
      obtain rfl := Option.some.inj hs
      obtain rfl := Option.some.inj ht
      refine ⟨?_, ?_, h.calls⟩
      · simp only [grAsAdd, h.asList, h.asCnt]
      · simp only [grAsAdd, h.asCnt]
  | fault vmStart vmEnd nents =>
      obtain rfl := Option.some.inj hs
      obtain rfl := Option.some.inj ht
      exact ⟨congrArg (grAsAddValid vmStart vmEnd nents) h.asList, h.asCnt, h.calls⟩
  | submit mem cpuAlloc =>
      cases hdump : grDumpMcValid mem cpuAlloc .allWoComputeJob s with
      | error e =>
          rw [recorderStep, hdump] at hs
          exact absurd hs.symm (Option.some_ne_none _)
      | ok s₁ =>
          cases hdump' : grDumpMcValid mem cpuAlloc .allWoComputeJob t with
          | error e =>
              rw [recorderStep, hdump'] at ht
              exact absurd ht.symm (Option.some_ne_none _)
          | ok t₁ =>
              rw [recorderStep, hdump] at hs
              rw [recorderStep, hdump'] at ht
              obtain rfl := Option.some.inj hs
              obtain rfl := Option.some.inj ht
              exact h.dump hwf hwf' hdump hdump'

/-- Both contexts at one point of the session, and what is in their files. -/
structure SameSession (old old' oldSync oldSync' : List UInt8) (s t : SessionContext) : Prop where
  record : SameRecord s.ctx t.ctx
  inv : SessionInv old s.ctx
  inv' : SessionInv old' t.ctx
  sync : s.sync = t.sync
  syncFile : s.syncAsFile = OutFile.reopen oldSync
  syncFile' : t.syncAsFile = OutFile.reopen oldSync'

variable {oldSync oldSync' : List UInt8}

theorem SameSession.step {s s' t t' : SessionContext} (h : SameSession old old' oldSync oldSync' s t)
    {e : SessionEvent} (hs : sessionStep s e = some s') (ht : sessionStep t e = some t') :
    SameSession old old' oldSync oldSync' s' t' := by
  cases e with
  | recorder e =>
      obtain ⟨ctx, hctx, rfl⟩ := Option.map_eq_some_iff.mp hs
      obtain ⟨ctx', hctx', rfl⟩ := Option.map_eq_some_iff.mp ht
      exact ⟨h.record.step h.inv.wf h.inv'.wf hctx hctx', h.inv.step hctx, h.inv'.step hctx',
        h.sync, h.syncFile, h.syncFile'⟩
  | sync sset alloc =>
      obtain rfl := Option.some.inj hs
      obtain rfl := Option.some.inj ht
      refine ⟨h.record, h.inv, h.inv', ?_, h.syncFile, h.syncFile'⟩
      dsimp only
      rw [h.sync]

/-- **The events do the same to both**, and go through for both. -/
theorem SameSession.events {events : List SessionEvent} : ∀ {s s' t : SessionContext},
    SameSession old old' oldSync oldSync' s t → events.foldlM sessionStep s = some s' →
    ∃ t', events.foldlM sessionStep t = some t' ∧ SameSession old old' oldSync oldSync' s' t' := by
  induction events with
  | nil =>
      intro s s' t h hs
      obtain rfl := Option.some.inj hs
      exact ⟨t, rfl, h⟩
  | cons e events ih =>
      intro s s' t h hs
      rw [List.foldlM_cons] at hs
      obtain ⟨s₁, hs₁, hs'⟩ := Option.bind_eq_some_iff.mp hs
      obtain ⟨t₁, ht₁⟩ : ∃ t₁, sessionStep t e = some t₁ := by
        cases e with
        | recorder e =>
            obtain ⟨ctx, hctx, -⟩ := Option.map_eq_some_iff.mp hs₁
            obtain ⟨ctx', hctx'⟩ := h.record.step_isSome h.inv'.wf hctx
            exact ⟨_, congrArg (Option.map _) hctx'⟩
        | sync userAddr size => exact ⟨_, rfl⟩
      obtain ⟨t', ht', hsame⟩ := ih (h.step hs₁ ht₁) hs'
      refine ⟨t', ?_, hsame⟩
      rw [List.foldlM_cons, ht₁]
      exact ht'

/-! ### The files -/

theorem write_reopen (old bs : List UInt8) :
    ((OutFile.reopen old).write bs).bytes = bs ++ old.drop bs.length := by
  simp [OutFile.write, OutFile.reopen, Bytes.splice]

/-- The bytes of the synced address spaces. -/
def syncBytes (s : SyncContext) : List UInt8 :=
  Bytes.le 4 s.syncAsCnt ++ s.syncAsList.flatMap fun a =>
    Bytes.le 8 a.vmStart ++ (Bytes.le 8 a.vmEnd ++ Bytes.le 8 a.size)

theorem grDumpSyncAs_eq (s : SyncContext) {file : OutFile} (hwf : file.WF) :
    s.grDumpSyncAs file = file.write (syncBytes s) := by
  have hloop : ∀ (list : List SyncEntry) (file : OutFile), file.WF →
      list.foldl (fun file a => fileWrite (Bytes.le 8 a.size) (fileWrite (Bytes.le 8 a.vmEnd)
        (fileWrite (Bytes.le 8 a.vmStart) file))) file =
      file.write (list.flatMap fun a =>
        Bytes.le 8 a.vmStart ++ (Bytes.le 8 a.vmEnd ++ Bytes.le 8 a.size)) := by
    intro list
    induction list with
    | nil => exact fun file _ => (OutFile.write_nil file).symm
    | cons a list ih =>
        intro file hfile
        rw [List.foldl_cons, fileWrite_le _ (Nat.le_refl 8), fileWrite_le _ (Nat.le_refl 8),
          fileWrite_le _ (Nat.le_refl 8), OutFile.write_write hfile, OutFile.write_write hfile,
          ih _ (OutFile.wf_write hfile _), OutFile.write_write hfile, List.flatMap_cons]
        simp only [List.append_assoc]
  unfold SyncContext.grDumpSyncAs syncBytes
  rw [fileWrite_le _ (by decide), hloop _ _ (OutFile.wf_write hwf _), OutFile.write_write hwf]

/-- What a session does, step by step. -/
theorem runSession_ok {d d' : DriverState} {session : Session} (h : runSession d session = some d') :
    ∃ s ctx, session.events.foldlM sessionStep
        ⟨grContextInit d.memContents, SyncContext.init, OutFile.reopen d.syncAs⟩ = some s ∧
      mmuDumpOnce d session = some d'.pgt ∧
      postTerm session.mem session.cpuAlloc s.ctx = .ok ctx ∧
      d'.memContents = ctx.memDumpFile.bytes ∧
      d'.syncAs = (s.sync.grDumpSyncAs s.syncAsFile).bytes ∧ d'.isDone = true := by
  unfold runSession at h
  obtain ⟨s, hs, h⟩ := Option.bind_eq_some_iff.mp h
  obtain ⟨pgt, hpgt, h⟩ := Option.bind_eq_some_iff.mp h
  obtain ⟨ctx, hctx, h⟩ := Option.bind_eq_some_iff.mp h
  obtain rfl := Option.some.inj h
  refine ⟨s, ctx, hs, hpgt, ?_, rfl, rfl, rfl⟩
  cases hterm : postTerm session.mem session.cpuAlloc s.ctx with
  | error e =>
      rw [hterm] at hctx
      exact absurd hctx.symm (Option.some_ne_none _)
  | ok ctx' =>
      rw [hterm] at hctx
      rw [Option.some.inj hctx]

/-- The end of a session does the same to both contexts, and goes through for both. -/
theorem SameRecord.postTerm (h : SameRecord s t) (hinv : SessionInv old s) (hinv' : SessionInv old' t)
    (hs : postTerm mem cpuAlloc s = .ok s') :
    ∃ t' bs, postTerm mem cpuAlloc t = .ok t' ∧ s'.memDumpFile = (OutFile.reopen old).write bs ∧
      t'.memDumpFile = (OutFile.reopen old').write bs := by
  obtain ⟨s₁, hjob, hinvalid⟩ := Except.bind_eq_ok.mp hs
  obtain ⟨t₁, hjob'⟩ := h.dump_isOk hinv'.wf hjob
  have hwalk := dumpMc_ok hinv.wf hjob
  have hwalk' := dumpMc_ok hinv'.wf hjob'
  have hwf : s₁.memDumpFile.WF := hwalk.file ▸ OutFile.wf_write hinv.wf _
  have hwf' : t₁.memDumpFile.WF := hwalk'.file ▸ OutFile.wf_write hinv'.wf _
  have hsame := h.dump hinv.wf hinv'.wf hjob hjob'
  obtain ⟨t', hinvalid'⟩ := hsame.dump_isOk hwf' hinvalid
  refine ⟨t', Replayer.dump (s'.calls.map DumpCall.record),
    Except.bind_eq_ok.mpr ⟨t₁, hjob', hinvalid'⟩,
    (dumpMc_ok hwf hinvalid).file' (hwalk.file' hinv.file), ?_⟩
  rw [(hsame.dump hwf hwf' hinvalid hinvalid').calls]
  exact (dumpMc_ok hwf' hinvalid').file' (hwalk'.file' hinv'.file)

/-- What a session writes to `gr_mem_contents` and `gr_sync_as`, where they are absent. -/
def Driver.Session.files (session : Session) : Option (List UInt8 × List UInt8) := do
  let s ← session.events.foldlM sessionStep ⟨grContextInit [], SyncContext.init, OutFile.reopen []⟩
  let ctx ← (postTerm session.mem session.cpuAlloc s.ctx).toOption
  return (ctx.memDumpFile.bytes, (s.sync.grDumpSyncAs s.syncAsFile).bytes)

/-- **A session writes the same from the start on**, whatever the files hold, and what they hold
behind that stays. -/
theorem runSession_writes {d d' : DriverState} {session : Session}
    (h : runSession d session = some d') :
    ∃ mc sync, session.files = some (mc, sync) ∧
      d'.memContents = mc ++ d.memContents.drop mc.length ∧
      d'.syncAs = sync ++ d.syncAs.drop sync.length := by
  obtain ⟨s, ctx, hs, -, hterm, hmc', hsync', -⟩ := runSession_ok h
  have hstart : SameSession d.memContents [] d.syncAs []
      ⟨grContextInit d.memContents, SyncContext.init, OutFile.reopen d.syncAs⟩
      ⟨grContextInit [], SyncContext.init, OutFile.reopen []⟩ :=
    ⟨⟨rfl, rfl, rfl⟩, sessionInv_init _, sessionInv_init _, rfl, rfl, rfl⟩
  obtain ⟨t, ht, hsame⟩ := hstart.events hs
  obtain ⟨ctx', bs, hterm', hfile, hfile'⟩ := hsame.record.postTerm hsame.inv hsame.inv' hterm
  have hsync : ∀ {u : SessionContext} {old : List UInt8}, u.syncAsFile = OutFile.reopen old →
      (u.sync.grDumpSyncAs u.syncAsFile).bytes =
        syncBytes u.sync ++ old.drop (syncBytes u.sync).length := by
    intro u old hu
    rw [hu, grDumpSyncAs_eq _ (OutFile.wf_reopen old)]
    exact write_reopen old _
  refine ⟨bs, syncBytes t.sync, ?_, ?_, ?_⟩
  · unfold Session.files
    rw [ht]
    change ((postTerm session.mem session.cpuAlloc t.ctx).toOption).bind _ = _
    rw [hterm']
    change some (ctx'.memDumpFile.bytes, (t.sync.grDumpSyncAs t.syncAsFile).bytes) = _
    rw [hfile', write_reopen, hsync hsame.syncFile', List.drop_nil, List.drop_nil,
      List.append_nil, List.append_nil]
  · rw [hmc', hfile, write_reopen]
  · rw [hsync', hsync hsame.syncFile, hsame.sync]

/-- Once the page table has been dumped, it stays. -/
theorem runSession_pgt {d d' : DriverState} {session : Session} (hdone : d.isDone = true)
    (h : runSession d session = some d') : d'.pgt = d.pgt ∧ d'.isDone = true := by
  obtain ⟨s, ctx, -, hpgt, -, -, -, hdone'⟩ := runSession_ok h
  rw [mmuDumpOnce, if_pos hdone] at hpgt
  exact ⟨(Option.some.inj hpgt).symm, hdone'⟩

theorem runSessions_pgt {sessions : List Session} : ∀ {d d' : DriverState}, d.isDone = true →
    runSessions d sessions = some d' → d'.pgt = d.pgt := by
  induction sessions with
  | nil =>
      intro d d' _ h
      rw [← Option.some.inj h]
  | cons session sessions ih =>
      intro d d' hdone h
      obtain ⟨d₁, hone, hrest⟩ := Option.bind_eq_some_iff.mp h
      obtain ⟨hpgt, hdone₁⟩ := runSession_pgt hdone hone
      rw [ih hdone₁ hrest, hpgt]

/-- One session writes no more to either file than the other. -/
def NoLonger (session last : Session) : Prop :=
  ∀ mc sync mc' sync', session.files = some (mc, sync) → last.files = some (mc', sync') →
    mc.length ≤ mc'.length ∧ sync.length ≤ sync'.length

/-- The files are as long as the longest of what was written to them. -/
theorem runSessions_length {sessions : List Session} : ∀ {d d' : DriverState},
    runSessions d sessions = some d' → ∀ m n,
      (d'.memContents.length ≤ m ∧ d'.syncAs.length ≤ n) ↔
        (d.memContents.length ≤ m ∧ d.syncAs.length ≤ n) ∧ ∀ session ∈ sessions, ∀ mc sync,
          session.files = some (mc, sync) → mc.length ≤ m ∧ sync.length ≤ n := by
  induction sessions with
  | nil =>
      intro d d' h m n
      obtain rfl := Option.some.inj h
      exact (and_iff_left fun session hs => absurd hs List.not_mem_nil).symm
  | cons session sessions ih =>
      intro d d' h m n
      obtain ⟨d₁, hone, hrest⟩ := Option.bind_eq_some_iff.mp h
      obtain ⟨mc, sync, hfiles, hmc, hsync⟩ := runSession_writes hone
      have hthis : (∀ mc' sync', session.files = some (mc', sync') →
          mc'.length ≤ m ∧ sync'.length ≤ n) ↔ mc.length ≤ m ∧ sync.length ≤ n := by
        rw [hfiles]
        constructor
        · exact fun h => h mc sync rfl
        · rintro hle mc' sync' heq
          obtain ⟨rfl, rfl⟩ := Prod.mk.inj (Option.some.inj heq)
          exact hle
      rw [ih hrest, List.forall_mem_cons, hthis, hmc, hsync, List.length_append, List.length_append,
        List.length_drop, List.length_drop, ← and_assoc]
      refine and_congr_left fun _ => ?_
      omega

theorem append_drop_eq_self_iff {bs old : List UInt8} :
    bs ++ old.drop bs.length = bs ↔ old.length ≤ bs.length := by
  rw [List.append_right_eq_self, List.drop_eq_nil_iff]

theorem runSession_pgt_first {d d' : DriverState} {session : Session} (hdone : d.isDone = false)
    (hpgt : d.pgt = []) (h : runSession d session = some d') :
    grMmuDump session.mem session.setup session.pgd session.pgtNrPages = .ok d'.pgt := by
  obtain ⟨s, ctx, -, hdump, -⟩ := runSession_ok h
  rw [mmuDumpOnce, hdone, if_neg Bool.false_ne_true, hpgt] at hdump
  cases hbytes : grMmuDump session.mem session.setup session.pgd session.pgtNrPages with
  | error e =>
      rw [hbytes] at hdump
      cases hdump
  | ok bytes =>
      rw [hbytes] at hdump
      have hsame := Option.some.inj hdump
      rw [write_reopen, List.drop_nil, List.append_nil] at hsame
      rw [hsame]

/-- Nothing is mapped. -/
theorem dumpEntries_invalid {next : Nat → DumpBuffer → Nat × DumpBuffer} {level : Nat} :
    ∀ {words : List Nat} {size : Nat} {b : DumpBuffer}, (∀ w ∈ words, pteIsValid w level = false) →
      dumpEntries next level words size b = (size, b) := by
  intro words
  induction words with
  | nil => exact fun _ => rfl
  | cons w words ih =>
      intro size b h
      rw [dumpEntries, h w List.mem_cons_self, if_neg Bool.false_ne_true]
      exact ih fun w' hw' => h w' (List.mem_cons_of_mem w hw')

/-- The dump of a table with nothing in it starts with its size and the translation table. -/
theorem grMmuDump_zero (setup : MmuSetup) : ∃ bytes,
    grMmuDump (fun _ => 0) setup 0 1 = .ok bytes ∧
      bytes.take 16 = Bytes.le 8 4144 ++ Bytes.le 8 setup.transtab := by
  have hwords : ∀ w ∈ tableWords (fun _ => 0) (pageStart 0), pteIsValid w 0 = false := by
    intro w hw
    obtain ⟨i, -, rfl⟩ := List.mem_map.mp hw
    rw [ByteMem.read64_zero]
    rfl
  have hlevel : ∀ b, kbasepMmuDumpLevel (fun _ => 0) 3 0 b = (4104, dumpTable (fun _ => 0) 0 0 b) :=
    fun b => dumpEntries_invalid hwords
  generalize hheader : Bytes.le 8 4144 ++ Bytes.le 8 setup.transtab ++ Bytes.le 8 setup.memattr ++
    Bytes.le 8 setup.transcfg = header
  have hlen : header.length = 32 := by
    rw [← hheader]
    simp
  generalize hbody : Bytes.le 8 (0 ||| 0) ++ ByteMem.read (fun _ => 0) (pageStart 0) 4096 ++
    Bytes.le 8 endMarker = body
  have hbodyLen : body.length = 4112 := by
    rw [← hbody]
    simp
  have htable : dumpTable (fun _ => 0) 0 0 ⟨header, 4144 - 32⟩ =
      ⟨header ++ Bytes.le 8 (0 ||| 0) ++ ByteMem.read (fun _ => 0) (pageStart 0) 4096,
        4144 - 32 - 4104⟩ :=
    if_pos (show 4104 ≤ 4144 - 32 by decide)
  have hall : header ++ Bytes.le 8 (0 ||| 0) ++ ByteMem.read (fun _ => 0) (pageStart 0) 4096 ++
      Bytes.le 8 endMarker = header ++ body := by
    rw [← hbody]
    simp only [List.append_assoc]
  have htake : (header ++ body ++ List.replicate 0 0).take 4144 = header ++ body := by
    rw [List.replicate_zero, List.append_nil]
    exact List.take_of_length_le (by rw [List.length_append]; omega)
  have hdump : grMmuDump (fun _ => 0) setup 0 1 = .ok (header ++ body) := by
    have hsize : 8 + 8 * 3 + 8 * 1 + 1 * 4096 + 8 = 4144 := rfl
    unfold grMmuDump
    dsimp only
    rw [hsize, hheader, hlevel, htable]
    dsimp only
    rw [hall, List.length_append, hlen, hbodyLen, if_pos (by omega), Nat.sub_self, htake,
      fileWrite_eq _ (by rw [List.length_append]; unfold maxRwCount; omega), write_reopen, List.drop_nil,
      List.append_nil]
  refine ⟨header ++ body, hdump, ?_⟩
  rw [List.take_append_of_le_length (by omega), ← hheader, List.append_assoc,
    List.take_left' (by simp)]

/-- A context that ends as soon as it is there. -/
def emptySession (transtab : Nat) (events : List SessionEvent) : Session :=
  ⟨events, fun _ => 0, fun _ => [], ⟨transtab, 0, 0⟩, 0, 1⟩

/-- The session that maps a region before it ends. -/
def mappingSession : Session :=
  emptySession 1 [.recorder (.mmap 4096 8192 ⟨0, 1, 0x606e, 0⟩)]

theorem runSession_mk {d : DriverState} {session : Session} {s : SessionContext} {ctx : GrContext}
    {pgt : List UInt8}
    (hs : session.events.foldlM sessionStep
      ⟨grContextInit d.memContents, SyncContext.init, OutFile.reopen d.syncAs⟩ = some s)
    (hpgt : mmuDumpOnce d session = some pgt)
    (hctx : postTerm session.mem session.cpuAlloc s.ctx = .ok ctx) :
    runSession d session = some ⟨pgt, ctx.memDumpFile.bytes,
      (s.sync.grDumpSyncAs s.syncAsFile).bytes, true⟩ := by
  unfold runSession
  rw [hs, hpgt]
  change ((postTerm session.mem session.cpuAlloc s.ctx).toOption).bind _ = _
  rw [hctx]
  rfl

theorem mmuDumpOnce_first {d : DriverState} {session : Session} {bytes : List UInt8}
    (hdone : ¬d.isDone = true)
    (h : grMmuDump session.mem session.setup session.pgd session.pgtNrPages = .ok bytes) :
    mmuDumpOnce d session = some ((OutFile.reopen d.pgt).write bytes).bytes := by
  unfold mmuDumpOnce
  rw [if_neg hdone, h]

/-- The second session alone: another page table, and no memory contents. -/
theorem runSession_alone : ∃ d, runSession freshDriver (emptySession 2 []) = some d ∧
    d.pgt.take 16 = Bytes.le 8 4144 ++ Bytes.le 8 2 ∧ d.memContents = [] := by
  obtain ⟨bytes, hbytes, htake⟩ := grMmuDump_zero ⟨2, 0, 0⟩
  have hpgt : mmuDumpOnce freshDriver (emptySession 2 []) =
      some ((OutFile.reopen []).write bytes).bytes :=
    mmuDumpOnce_first Bool.false_ne_true hbytes
  refine ⟨_, runSession_mk rfl hpgt rfl, ?_, rfl⟩
  dsimp only
  rw [write_reopen, List.drop_nil, List.append_nil]
  exact htake

/-- The first session alone. -/
theorem runSession_mapping : ∃ d, runSession freshDriver mappingSession = some d ∧
    d.pgt.take 16 = Bytes.le 8 4144 ++ Bytes.le 8 1 ∧ d.memContents.length = 29 ∧
    d.isDone = true := by
  obtain ⟨bytes, hbytes, htake⟩ := grMmuDump_zero ⟨1, 0, 0⟩
  have hpgt : mmuDumpOnce freshDriver mappingSession =
      some ((OutFile.reopen []).write bytes).bytes :=
    mmuDumpOnce_first Bool.false_ne_true hbytes
  -- one record without pages: a header
  obtain ⟨ctx, hctx, hlen⟩ : ∃ ctx, postTerm (fun _ => 0) (fun _ => [])
      (grAsAdd (grContextInit []) 4096 8192 ⟨0, 1, 0x606e, 0⟩) = .ok ctx ∧
      ctx.memDumpFile.bytes.length = 29 := ⟨_, rfl, by decide⟩
  refine ⟨_, runSession_mk rfl hpgt hctx, ?_, hlen, rfl⟩
  dsimp only
  rw [write_reopen, List.drop_nil, List.append_nil]
  exact htake

theorem runSessions_two : ∃ d d₁, runSession freshDriver mappingSession = some d₁ ∧
    runSessions freshDriver [mappingSession, emptySession 2 []] = some d ∧ d.pgt = d₁.pgt ∧
    d₁.pgt.take 16 = Bytes.le 8 4144 ++ Bytes.le 8 1 ∧ d.memContents.length = 29 := by
  obtain ⟨d₁, hone, hpgt, hlen, hdone⟩ := runSession_mapping
  obtain ⟨d₂, hsecond, hpgt₂, hmc₂⟩ : ∃ d₂, runSession d₁ (emptySession 2 []) = some d₂ ∧
      d₂.pgt = d₁.pgt ∧ d₂.memContents = d₁.memContents :=
    ⟨_, runSession_mk rfl (if_pos hdone) rfl, rfl, rfl⟩
  refine ⟨d₂, d₁, hone, ?_, hpgt₂, hpgt, hmc₂ ▸ hlen⟩
  unfold runSessions
  rw [List.foldlM_cons, hone]
  change ([emptySession 2 []].foldlM runSession d₁) = _
  rw [List.foldlM_cons, hsecond]
  rfl

/-- A session that maps two regions and syncs a range. -/
def longSession : Session :=
  emptySession 1 [.recorder (.mmap 4096 8192 ⟨0, 1, 0x606e, 0⟩),
    .recorder (.mmap 8192 12288 ⟨1, 1, 0x606e, 0⟩),
      .sync ⟨4096, 16, baseSyncsetOpMsync, by decide, by decide⟩ true]

end GpuReplay
