/-
The timeline's history in debugfs: `timeline_history_obj` and `timeline_history_aux`
of `mali_kbase_regs_history_debugfs.c`.

Both go over the packets of a stream, and in a packet from message to message: the
message's id selects a case of a `switch`, which prints some words of the message and
moves the index on.  The two differ in nothing but the cases and the table of names.
-/
import GpuReplay.Driver.Tracepoints
import GpuReplay.Lib.Cursor

namespace GpuReplay.Driver

/-! ### One case of the switch -/

/-- What a case prints: `*(u32*)&buf[idx + off]` or `*(u64*)&buf[idx + off]`. -/
inductive TlWord
  | u32 (off : Nat)
  | u64 (off : Nat)
  deriving DecidableEq

/-- The words a case prints, each with the label it is printed under, and what it adds to
the index. -/
structure TlCase where
  prints : List (String × TlWord)
  advance : Nat
  deriving DecidableEq

def TlWord.shift (n : Nat) : TlWord → TlWord
  | u32 off => u32 (n + off)
  | u64 off => u64 (n + off)

/-- A case without `break`: the next one goes on where it left the index. -/
def TlCase.fallThrough (c next : TlCase) : TlCase :=
  ⟨c.prints ++ next.prints.map fun (label, w) => (label, w.shift c.advance),
    c.advance + next.advance⟩

/-- `default`, which is also the case of the count at the end of the `enum`. -/
def TlCase.default : TlCase := ⟨[], 0⟩

/-! ### The cases of `timeline_history_obj` -/

def kbaseTlKbaseArrayBeginKcpuqueueEnqueueCqsWaitCase : TlCase := ⟨[("kcpu_queue", .u64 0)], 8⟩

def TlMsgIdObj.historyCase : TlMsgIdObj → TlCase
  | .kbaseTlNewCtx => ⟨[("ctx", .u64 0), ("ctx_nr", .u32 8), ("ugid", .u32 12)], 16⟩
  | .kbaseTlNewGpu => ⟨[("gpu", .u64 0), ("gpu_id", .u32 8), ("core_count", .u32 12)], 16⟩
  | .kbaseTlNewLpu => ⟨[("lpu", .u64 0), ("lpu_nr", .u32 8), ("lpu_fn", .u32 12)], 16⟩
  | .kbaseTlNewAtom => ⟨[("atom", .u64 0), ("atom_nr", .u32 8)], 12⟩
  | .kbaseTlNewAs => ⟨[("address_space", .u64 0), ("as_nr", .u32 8)], 12⟩
  | .kbaseTlDelCtx => ⟨[("ctx", .u64 0)], 8⟩
  | .kbaseTlDelAtom => ⟨[("atom", .u64 0)], 8⟩
  | .kbaseTlLifelinkLpuGpu => ⟨[("lpu", .u64 0), ("gpu", .u64 8)], 16⟩
  | .kbaseTlLifelinkAsGpu => ⟨[("address_space", .u64 0), ("gpu", .u64 8)], 16⟩
  | .kbaseTlRetCtxLpu => ⟨[("ctx", .u64 0), ("lpu", .u64 8)], 16⟩
  | .kbaseTlRetAtomCtx => ⟨[("atom", .u64 0), ("ctx", .u64 8)], 16⟩
  | .kbaseTlRetAtomLpu => ⟨[("atom", .u64 0), ("lpu", .u64 8)], 35⟩
  | .kbaseTlNretCtxLpu => ⟨[("ctx", .u64 0), ("lpu", .u64 8)], 16⟩
  | .kbaseTlNretAtomCtx => ⟨[("atom", .u64 0), ("ctx", .u64 8)], 16⟩
  | .kbaseTlNretAtomLpu => ⟨[("ctx", .u64 0), ("lpu", .u64 8)], 16⟩
  | .kbaseTlRetAsCtx => ⟨[("address_space", .u64 0), ("ctx", .u64 8)], 16⟩
  | .kbaseTlNretAsCtx => ⟨[("address_space", .u64 0), ("ctx", .u64 8)], 16⟩
  | .kbaseTlRetAtomAs => ⟨[("atom", .u64 0), ("address_space", .u64 8)], 16⟩
  | .kbaseTlNretAtomAs => ⟨[("atom", .u64 0), ("address_space", .u64 8)], 16⟩
  | .kbaseTlAttribAtomConfig =>
      ⟨[("atom", .u64 0), ("descriptor", .u64 8), ("affinity", .u64 16), ("config", .u32 24)], 28⟩
  | .kbaseTlAttribAtomPriority => ⟨[("atom", .u64 0), ("prio", .u32 8)], 12⟩
  | .kbaseTlAttribAtomState => ⟨[("atom", .u64 0), ("state", .u32 8)], 12⟩
  | .kbaseTlAttribAtomPrioritized => ⟨[("atom", .u64 0)], 8⟩
  | .kbaseTlAttribAtomJit => ⟨[], 64⟩
  | .kbaseTlJitUsedpages => ⟨[("used_pages", .u64 0), ("j_id", .u32 8)], 12⟩
  | .kbaseTlAttribAtomJitallocinfo => ⟨[], 52⟩
  | .kbaseTlAttribAtomJitfreeinfo => ⟨[("atom", .u64 0), ("j_id", .u32 8)], 12⟩
  | .kbaseTlAttribAsConfig =>
      ⟨[("address_space", .u64 0), ("transtab", .u64 8), ("memattr", .u64 16),
        ("transcfg", .u64 24)], 32⟩
  | .kbaseTlEventLpuSoftstop => ⟨[("lpu", .u64 0)], 8⟩
  | .kbaseTlEventAtomSoftstopEx => ⟨[("atom", .u64 0)], 8⟩
  | .kbaseTlEventAtomSoftstopIssue => ⟨[("atom", .u64 0)], 8⟩
  | .kbaseTlEventAtomSoftjobStart => ⟨[("atom", .u64 0)], 8⟩
  | .kbaseTlEventAtomSoftjobEnd => ⟨[("atom", .u64 0)], 8⟩
  | .kbaseJdGpuSoftReset => ⟨[("gpu", .u64 0)], 8⟩
  | .kbaseTlKbaseNewDevice =>
      ⟨[("kbase_device_id", .u32 0), ("kbase_device_gpu_core_count", .u32 4),
        ("kbase_device_max_num_csgs", .u32 8)], 12⟩
  | .kbaseTlKbaseDeviceProgramCsg =>
      ⟨[("kbase_device_id", .u32 0), ("kbase_cmdq_grp_handle", .u32 4),
        ("kbase_device_csg_slot_index", .u32 8)], 12⟩
  | .kbaseTlKbaseDeviceDeprogramCsg =>
      ⟨[("kbase_device_id", .u32 0), ("kbase_device_csg_slot_index", .u32 4)], 8⟩
  | .kbaseTlKbaseNewCtx => ⟨[("kbase_ctx_id", .u32 0), ("kbase_device_id", .u32 4)], 8⟩
  | .kbaseTlKbaseDelCtx => ⟨[("kbase_ctx_id", .u32 0)], 4⟩
  | .kbaseTlKbaseNewKcpuqueue =>
      ⟨[("kcpu_queue", .u64 0), ("kbase_ctx_id", .u32 8), ("kbase_num_pending_cmds", .u32 12)], 16⟩
  | .kbaseTlKbaseDelKcpuqueue => ⟨[("kcpu_queue", .u64 0)], 8⟩
  | .kbaseTlKbaseKcpuqueueEnqueueFenceSignal => ⟨[("kcpu_queue", .u64 0), ("fence", .u64 8)], 16⟩
  | .kbaseTlKbaseKcpuqueueEnqueueFenceWait =>
      TlCase.fallThrough ⟨[("kcpu_queue", .u64 0), ("fence", .u64 8)], 16⟩
        kbaseTlKbaseArrayBeginKcpuqueueEnqueueCqsWaitCase
  | .kbaseTlKbaseArrayBeginKcpuqueueEnqueueCqsWait =>
      kbaseTlKbaseArrayBeginKcpuqueueEnqueueCqsWaitCase
  | .kbaseTlKbaseArrayItemKcpuqueueEnqueueCqsWait =>
      ⟨[("kcpu_queue", .u64 0), ("cqs_obj_gpu_addr", .u64 8),
        ("cqs_obj_compare_value", .u32 16)], 20⟩
  | .kbaseTlKbaseArrayEndKcpuqueueEnqueueCqsWait => ⟨[("kcpu_queue", .u64 0)], 8⟩
  | .kbaseTlKbaseArrayBeginKcpuqueueEnqueueCqsSet => ⟨[("kcpu_queue", .u64 0)], 8⟩
  | .kbaseTlKbaseArrayItemKcpuqueueEnqueueCqsSet =>
      ⟨[("kcpu_queue", .u64 0), ("cpu_obj_gpu_addr", .u64 8)], 16⟩
  | .kbaseTlKbaseArrayEndKcpuqueueEnqueueCqsSet => ⟨[("kcpu_queue", .u64 0)], 8⟩
  | .kbaseTlKbaseArrayBeginKcpuqueueEnqueueDebugcopy => ⟨[("kcpu_queue", .u64 0)], 8⟩
  | .kbaseTlKbaseArrayItemKcpuqueueEnqueueDebugcopy =>
      ⟨[("kcpu_queue", .u64 0), ("debugcopy_dst_size", .u64 8)], 16⟩
  | .kbaseTlKbaseArrayEndKcpuqueueEnqueueDebugcopy => ⟨[("kcpu_queue", .u64 0)], 8⟩
  | .kbaseTlKbaseKcpuqueueEnqueueMapImport =>
      ⟨[("kcpu_queue", .u64 0), ("map_import_buf_gpu_addr", .u64 8)], 16⟩
  | .kbaseTlKbaseKcpuqueueEnqueueUnmapImport =>
      ⟨[("kcpu_queue", .u64 0), ("map_import_buf_gpu_addr", .u64 8)], 16⟩
  | .kbaseTlKbaseKcpuqueueEnqueueUnmapImportForce =>
      ⟨[("kcpu_queue", .u64 0), ("map_import_buf_gpu_addr", .u64 8)], 16⟩
  | .kbaseTlKbaseArrayBeginKcpuqueueEnqueueJitAlloc => ⟨[("kcpu_queue", .u64 0)], 8⟩
  | .kbaseTlKbaseArrayItemKcpuqueueEnqueueJitAlloc => ⟨[], 60⟩
  | .kbaseTlKbaseArrayEndKcpuqueueEnqueueJitAlloc => ⟨[("kcpu_queue", .u64 0)], 8⟩
  | .kbaseTlKbaseArrayBeginKcpuqueueEnqueueJitFree => ⟨[("kcpu_queue", .u64 0)], 8⟩
  | .kbaseTlKbaseArrayItemKcpuqueueEnqueueJitFree =>
      ⟨[("kcpu_queue", .u64 0), ("jit_alloc_jit_id", .u32 8)], 12⟩
  | .kbaseTlKbaseArrayEndKcpuqueueEnqueueJitFree => ⟨[("kcpu_queue", .u64 0)], 8⟩
  | .kbaseTlKbaseKcpuqueueExecuteFenceSignalStart => ⟨[("kcpu_queue", .u64 0)], 8⟩
  | .kbaseTlKbaseKcpuqueueExecuteFenceSignalEnd => ⟨[("kcpu_queue", .u64 0)], 8⟩
  | .kbaseTlKbaseKcpuqueueExecuteFenceWaitStart => ⟨[("kcpu_queue", .u64 0)], 8⟩
  | .kbaseTlKbaseKcpuqueueExecuteFenceWaitEnd => ⟨[("kcpu_queue", .u64 0)], 8⟩
  | .kbaseTlKbaseKcpuqueueExecuteCqsWaitStart => ⟨[("kcpu_queue", .u64 0)], 8⟩
  | .kbaseTlKbaseKcpuqueueExecuteCqsWaitEnd => ⟨[("kcpu_queue", .u64 0)], 8⟩
  | .kbaseTlKbaseKcpuqueueExecuteCqsSet => ⟨[("kcpu_queue", .u64 0)], 8⟩
  | .kbaseTlKbaseKcpuqueueExecuteDebugcopyStart => ⟨[("kcpu_queue", .u64 0)], 8⟩
  | .kbaseTlKbaseKcpuqueueExecuteDebugcopyEnd => ⟨[("kcpu_queue", .u64 0)], 8⟩
  | .kbaseTlKbaseKcpuqueueExecuteMapImportStart => ⟨[("kcpu_queue", .u64 0)], 8⟩
  | .kbaseTlKbaseKcpuqueueExecuteMapImportEnd => ⟨[("kcpu_queue", .u64 0)], 8⟩
  | .kbaseTlKbaseKcpuqueueExecuteUnmapImportStart => ⟨[("kcpu_queue", .u64 0)], 8⟩
  | .kbaseTlKbaseKcpuqueueExecuteUnmapImportEnd => ⟨[("kcpu_queue", .u64 0)], 8⟩
  | .kbaseTlKbaseKcpuqueueExecuteUnmapImportForceStart => ⟨[("kcpu_queue", .u64 0)], 8⟩
  | .kbaseTlKbaseKcpuqueueExecuteUnmapImportForceEnd => ⟨[("kcpu_queue", .u64 0)], 8⟩
  | .kbaseTlKbaseKcpuqueueExecuteJitAllocStart => ⟨[("kcpu_queue", .u64 0)], 8⟩
  | .kbaseTlKbaseArrayBeginKcpuqueueExecuteJitAllocEnd => ⟨[("kcpu_queue", .u64 0)], 8⟩
  | .kbaseTlKbaseArrayItemKcpuqueueExecuteJitAllocEnd => ⟨[("kcpu_queue", .u64 0)], 8⟩
  | .kbaseTlKbaseArrayEndKcpuqueueExecuteJitAllocEnd => ⟨[], 24⟩
  | .kbaseTlKbaseKcpuqueueExecuteJitFreeStart => ⟨[("kcpu_queue", .u64 0)], 8⟩
  | .kbaseTlKbaseArrayBeginKcpuqueueExecuteJitFreeEnd => ⟨[("kcpu_queue", .u64 0)], 8⟩
  | .kbaseTlKbaseArrayItemKcpuqueueExecuteJitFreeEnd =>
      ⟨[("kcpu_queue", .u64 0), ("jit_free_pages_used", .u64 8)], 16⟩
  | .kbaseTlKbaseArrayEndKcpuqueueExecuteJitFreeEnd => ⟨[("kcpu_queue", .u64 0)], 8⟩
  | .kbaseTlKbaseKcpuqueueExecuteErrorbarrier => ⟨[("kcpu_queue", .u64 0)], 8⟩

/-- The table `obj[]`. -/
def objNames : List String :=
  ["KBASE_TL_NEW_CTX",
   "KBASE_TL_NEW_GPU",
   "KBASE_TL_NEW_LPU",
   "KBASE_TL_NEW_ATOM",
   "KBASE_TL_NEW_AS",
   "KBASE_TL_DEL_CTX",
   "KBASE_TL_DEL_ATOM",
   "KBASE_TL_LIFELINK_LPU_GPU",
   "KBASE_TL_LIFELINK_AS_GPU",
   "KBASE_TL_RET_CTX_LPU",
   "KBASE_TL_RET_ATOM_CTX",
   "KBASE_TL_RET_ATOM_LPU",
   "KBASE_TL_NRET_CTX_LPU",
   "KBASE_TL_NRET_ATOM_CTX",
   "KBASE_TL_NRET_ATOM_LPU",
   "KBASE_TL_RET_AS_CTX",
   "KBASE_TL_NRET_AS_CTX",
   "KBASE_TL_RET_ATOM_AS",
   "KBASE_TL_NRET_ATOM_AS",
   "KBASE_TL_ATTRIB_ATOM_CONFIG",
   "KBASE_TL_ATTRIB_ATOM_PRIORITY",
   "KBASE_TL_ATTRIB_ATOM_STATE",
   "KBASE_TL_ATTRIB_ATOM_PRIORITIZED",
   "KBASE_TL_ATTRIB_ATOM_JIT",
   "KBASE_TL_JIT_USEDPAGES",
   "KBASE_TL_ATTRIB_ATOM_JITALLOCINFO",
   "KBASE_TL_ATTRIB_ATOM_JITFREEINFO",
   "KBASE_TL_ATTRIB_AS_CONFIG",
   "KBASE_TL_EVENT_LPU_SOFTSTOP",
   "KBASE_TL_EVENT_ATOM_SOFTSTOP_EX",
   "KBASE_TL_EVENT_ATOM_SOFTSTOP_ISSUE",
   "KBASE_TL_EVENT_ATOM_SOFTJOB_START",
   "KBASE_TL_EVENT_ATOM_SOFTJOB_END",
   "KBASE_JD_GPU_SOFT_RESET",
   "KBASE_TL_KBASE_NEW_DEVICE",
   "KBASE_TL_KBASE_DEVICE_PROGRAM_CSG",
   "KBASE_TL_KBASE_DEVICE_DEPROGRAM_CSG",
   "KBASE_TL_KBASE_NEW_CTX",
   "KBASE_TL_KBASE_DEL_CTX",
   "KBASE_TL_KBASE_NEW_KCPUQUEUE",
   "KBASE_TL_KBASE_DEL_KCPUQUEUE",
   "KBASE_TL_KBASE_KCPUQUEUE_ENQUEUE_FENCE_SIGNAL",
   "KBASE_TL_KBASE_KCPUQUEUE_ENQUEUE_FENCE_WAIT",
   "KBASE_TL_KBASE_ARRAY_BEGIN_KCPUQUEUE_ENQUEUE_CQS_WAIT",
   "KBASE_TL_KBASE_ARRAY_ITEM_KCPUQUEUE_ENQUEUE_CQS_WAIT",
   "KBASE_TL_KBASE_ARRAY_END_KCPUQUEUE_ENQUEUE_CQS_WAIT",
   "KBASE_TL_KBASE_ARRAY_BEGIN_KCPUQUEUE_ENQUEUE_CQS_SET",
   "KBASE_TL_KBASE_ARRAY_ITEM_KCPUQUEUE_ENQUEUE_CQS_SET",
   "KBASE_TL_KBASE_ARRAY_END_KCPUQUEUE_ENQUEUE_CQS_SET",
   "KBASE_TL_KBASE_ARRAY_BEGIN_KCPUQUEUE_ENQUEUE_DEBUGCOPY",
   "KBASE_TL_KBASE_ARRAY_ITEM_KCPUQUEUE_ENQUEUE_DEBUGCOPY",
   "KBASE_TL_KBASE_ARRAY_END_KCPUQUEUE_ENQUEUE_DEBUGCOPY",
   "KBASE_TL_KBASE_KCPUQUEUE_ENQUEUE_MAP_IMPORT",
   "KBASE_TL_KBASE_KCPUQUEUE_ENQUEUE_UNMAP_IMPORT",
   "KBASE_TL_KBASE_KCPUQUEUE_ENQUEUE_UNMAP_IMPORT_FORCE",
   "KBASE_TL_KBASE_ARRAY_BEGIN_KCPUQUEUE_ENQUEUE_JIT_ALLOC",
   "KBASE_TL_KBASE_ARRAY_ITEM_KCPUQUEUE_ENQUEUE_JIT_ALLOC",
   "KBASE_TL_KBASE_ARRAY_END_KCPUQUEUE_ENQUEUE_JIT_ALLOC",
   "KBASE_TL_KBASE_ARRAY_BEGIN_KCPUQUEUE_ENQUEUE_JIT_FREE",
   "KBASE_TL_KBASE_ARRAY_ITEM_KCPUQUEUE_ENQUEUE_JIT_FREE",
   "KBASE_TL_KBASE_ARRAY_END_KCPUQUEUE_ENQUEUE_JIT_FREE",
   "KBASE_TL_KBASE_KCPUQUEUE_EXECUTE_FENCE_SIGNAL_START",
   "KBASE_TL_KBASE_KCPUQUEUE_EXECUTE_FENCE_SIGNAL_END",
   "KBASE_TL_KBASE_KCPUQUEUE_EXECUTE_FENCE_WAIT_START",
   "KBASE_TL_KBASE_KCPUQUEUE_EXECUTE_FENCE_WAIT_END",
   "KBASE_TL_KBASE_KCPUQUEUE_EXECUTE_CQS_WAIT_START",
   "KBASE_TL_KBASE_KCPUQUEUE_EXECUTE_CQS_WAIT_END",
   "KBASE_TL_KBASE_KCPUQUEUE_EXECUTE_CQS_SET",
   "KBASE_TL_KBASE_KCPUQUEUE_EXECUTE_DEBUGCOPY_START",
   "KBASE_TL_KBASE_KCPUQUEUE_EXECUTE_DEBUGCOPY_END",
   "KBASE_TL_KBASE_KCPUQUEUE_EXECUTE_MAP_IMPORT_START",
   "KBASE_TL_KBASE_KCPUQUEUE_EXECUTE_MAP_IMPORT_END",
   "KBASE_TL_KBASE_KCPUQUEUE_EXECUTE_UNMAP_IMPORT_START",
   "KBASE_TL_KBASE_KCPUQUEUE_EXECUTE_UNMAP_IMPORT_END",
   "KBASE_TL_KBASE_KCPUQUEUE_EXECUTE_UNMAP_IMPORT_FORCE_START",
   "KBASE_TL_KBASE_KCPUQUEUE_EXECUTE_UNMAP_IMPORT_FORCE_END",
   "KBASE_TL_KBASE_KCPUQUEUE_EXECUTE_JIT_ALLOC_START",
   "KBASE_TL_KBASE_ARRAY_BEGIN_KCPUQUEUE_EXECUTE_JIT_ALLOC_END",
   "KBASE_TL_KBASE_ARRAY_ITEM_KCPUQUEUE_EXECUTE_JIT_ALLOC_END",
   "KBASE_TL_KBASE_ARRAY_END_KCPUQUEUE_EXECUTE_JIT_ALLOC_END",
   "KBASE_TL_KBASE_KCPUQUEUE_EXECUTE_JIT_FREE_START",
   "KBASE_TL_KBASE_ARRAY_BEGIN_KCPUQUEUE_EXECUTE_JIT_FREE_END",
   "KBASE_TL_KBASE_ARRAY_ITEM_KCPUQUEUE_EXECUTE_JIT_FREE_END",
   "KBASE_TL_KBASE_ARRAY_END_KCPUQUEUE_EXECUTE_JIT_FREE_END",
   "KBASE_TL_KBASE_KCPUQUEUE_EXECUTE_ERRORBARRIER",
   "KBASE_OBJ_MSG_COUNT"]

/-! ### The cases of `timeline_history_aux` -/

def TlMsgIdAux.historyCase : TlMsgIdAux → TlCase
  | .kbaseAuxPmState => ⟨[("core_type", .u32 0), ("core_state_bitset", .u64 4)], 12⟩
  | .kbaseAuxPagefault => ⟨[("ctx_nr", .u32 0), ("as_nr", .u32 4), ("page_cnt_change", .u64 8)], 24⟩
  | .kbaseAuxPagesalloc => ⟨[("ctx_nr", .u32 0), ("page_cnt", .u64 4)], 12⟩
  | .kbaseAuxDevfreqTarget => ⟨[("target_freq", .u64 0)], 8⟩
  | .kbaseAuxProtectedEnterStart => ⟨[("gpu", .u64 0)], 8⟩
  | .kbaseAuxProtectedEnterEnd => ⟨[("gpu", .u64 0)], 8⟩
  | .kbaseAuxProtectedLeaveStart => ⟨[("gpu", .u64 0)], 8⟩
  | .kbaseAuxProtectedLeaveEnd => ⟨[("gpu", .u64 0)], 8⟩
  | .kbaseAuxJitStats =>
      ⟨[("ctx_nr", .u32 0), ("bid", .u32 4), ("max_allocs", .u32 8), ("allocs", .u32 12),
        ("va_pages", .u32 16), ("ph_pages", .u32 20)], 24⟩
  | .kbaseAuxEventJobSlot =>
      ⟨[("ctx", .u64 0), ("slot_nr", .u32 4), ("atom_nr", .u32 8), ("event", .u32 12)], 20⟩

/-- The table `aux[]`. -/
def auxNames : List String :=
  ["KBASE_AUX_PM_STATE",
   "KBASE_AUX_PAGEFAULT",
   "KBASE_AUX_PAGESALLOC",
   "KBASE_AUX_DEVFREQ_TARGET",
   "KBASE_AUX_PROTECTED_ENTER_START",
   "KBASE_AUX_PROTECTED_ENTER_END",
   "KBASE_AUX_PROTECTED_LEAVE_START",
   "KBASE_AUX_PROTECTED_LEAVE_END",
   "KBASE_AUX_JIT_STATS",
   "KBASE_AUX_EVENT_JOB_SLOT",
   "KBASE_AUX_MSG_COUNT"]

/-! ### The walk over a stream -/

/-- What tells `timeline_history_obj` and `timeline_history_aux` apart. -/
structure TlHistory (K : Type) where
  catalog : TlCatalog K
  /-- The enumerators in order. -/
  all : List K
  /-- What is printed for the stream. -/
  tag : String
  names : List String
  historyCase : K → TlCase

/-- `switch (type)`. -/
def TlHistory.switch {K : Type} (h : TlHistory K) (type : Nat) : TlCase :=
  match h.all[type]? with
  | some k => h.historyCase k
  | none => .default

/-- A line of the history. -/
structure TlLine where
  timestamp : Nat
  tag : String
  tid : Nat
  type : Nat
  name : String
  printed : List (String × Nat)
  deriving DecidableEq

/-- A little-endian word of the packet, which has `PACKET_SIZE` bytes. -/
def readPacket (data : ByteMem) (idx width : Nat) : Option Nat :=
  if idx + width ≤ packetSize then some (Bytes.val (data.read idx width)) else none

def TlWord.read (data : ByteMem) (idx : Nat) : TlWord → Option Nat
  | u32 off => readPacket data (idx + off) 4
  | u64 off => readPacket data (idx + off) 8

/-- What a case prints, with its labels. -/
def TlCase.print (data : ByteMem) (idx : Nat) (c : TlCase) : Option (List (String × Nat)) :=
  c.prints.mapM fun (label, w) => (w.read data idx).map (label, ·)

/-- The body of `while (idx < wb_size)`: the line, and the next index.  There is none where
it would read past the packet or past the end of the table of names. -/
def timelineStep {K : Type} (h : TlHistory K) (data : ByteMem) (idx : Nat) :
    Option (TlLine × Nat) := do
  let type ← readPacket data idx 4
  let ts ← readPacket data (idx + 4) 8
  let tid ← readPacket data (idx + 12) 4
  let name ← h.names[type]?
  let case := h.switch type
  let printed ← case.print data (idx + 16)
  some (⟨ts, h.tag, tid, type, name, printed⟩, idx + 16 + case.advance)

theorem lt_of_timelineStep {K : Type} {h : TlHistory K} {data : ByteMem} {idx next : Nat}
    {line : TlLine} (hs : timelineStep h data idx = some (line, next)) : idx < next := by
  simp only [timelineStep, Option.bind_eq_bind, Option.bind_eq_some_iff] at hs
  obtain ⟨_, _, _, _, _, _, _, _, _, _, heq⟩ := hs
  have hnext := congrArg Prod.snd (Option.some.inj heq)
  simp only at hnext
  omega

def timelineCursor {K : Type} (h : TlHistory K) (data : ByteMem) : Cursor TlLine :=
  ⟨timelineStep h data, lt_of_timelineStep⟩

/-- The packets from the first to the one being written, as both functions go over them:
for each packet the lines, each with the index after it. -/
def timelineHistory {K : Type} (h : TlHistory K) (dump : Bool) (s : KbaseTlstream) :
    Option (List (List (TlLine × Nat))) :=
  (List.range (s.wbi % packetCount dump + 1)).mapM fun i =>
    (timelineCursor h (s.buffer i).data).scan (s.buffer i).size (packetStart s.numbered)

def objHistory : TlHistory TlMsgIdObj :=
  ⟨objCatalog, TlMsgIdObj.all, "TL", objNames, TlMsgIdObj.historyCase⟩

def auxHistory : TlHistory TlMsgIdAux :=
  ⟨auxCatalog, TlMsgIdAux.all, "AUX", auxNames, TlMsgIdAux.historyCase⟩

/-- `timeline_history_obj`. -/
def timelineHistoryObj : Bool → KbaseTlstream → Option (List (List (TlLine × Nat))) :=
  timelineHistory objHistory

/-- `timeline_history_aux`. -/
def timelineHistoryAux : Bool → KbaseTlstream → Option (List (List (TlLine × Nat))) :=
  timelineHistory auxHistory

end GpuReplay.Driver
