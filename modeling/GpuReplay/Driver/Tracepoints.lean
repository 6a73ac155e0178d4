/-
The tracepoints of the two timeline streams: `mali_kbase_tracepoints.c`.

The file is generated from one list for each stream, which names the messages in the
order of their ids and gives each the layout of its arguments.
-/
import GpuReplay.Driver.TlStream

namespace GpuReplay.Driver

/-! ### Messages of the object stream -/

/-- `enum tl_msg_id_obj`, but for the count at its end. -/
inductive TlMsgIdObj
  | kbaseTlNewCtx
  | kbaseTlNewGpu
  | kbaseTlNewLpu
  | kbaseTlNewAtom
  | kbaseTlNewAs
  | kbaseTlDelCtx
  | kbaseTlDelAtom
  | kbaseTlLifelinkLpuGpu
  | kbaseTlLifelinkAsGpu
  | kbaseTlRetCtxLpu
  | kbaseTlRetAtomCtx
  | kbaseTlRetAtomLpu
  | kbaseTlNretCtxLpu
  | kbaseTlNretAtomCtx
  | kbaseTlNretAtomLpu
  | kbaseTlRetAsCtx
  | kbaseTlNretAsCtx
  | kbaseTlRetAtomAs
  | kbaseTlNretAtomAs
  | kbaseTlAttribAtomConfig
  | kbaseTlAttribAtomPriority
  | kbaseTlAttribAtomState
  | kbaseTlAttribAtomPrioritized
  | kbaseTlAttribAtomJit
  | kbaseTlJitUsedpages
  | kbaseTlAttribAtomJitallocinfo
  | kbaseTlAttribAtomJitfreeinfo
  | kbaseTlAttribAsConfig
  | kbaseTlEventLpuSoftstop
  | kbaseTlEventAtomSoftstopEx
  | kbaseTlEventAtomSoftstopIssue
  | kbaseTlEventAtomSoftjobStart
  | kbaseTlEventAtomSoftjobEnd
  | kbaseJdGpuSoftReset
  | kbaseTlKbaseNewDevice
  | kbaseTlKbaseDeviceProgramCsg
  | kbaseTlKbaseDeviceDeprogramCsg
  | kbaseTlKbaseNewCtx
  | kbaseTlKbaseDelCtx
  | kbaseTlKbaseNewKcpuqueue
  | kbaseTlKbaseDelKcpuqueue
  | kbaseTlKbaseKcpuqueueEnqueueFenceSignal
  | kbaseTlKbaseKcpuqueueEnqueueFenceWait
  | kbaseTlKbaseArrayBeginKcpuqueueEnqueueCqsWait
  | kbaseTlKbaseArrayItemKcpuqueueEnqueueCqsWait
  | kbaseTlKbaseArrayEndKcpuqueueEnqueueCqsWait
  | kbaseTlKbaseArrayBeginKcpuqueueEnqueueCqsSet
  | kbaseTlKbaseArrayItemKcpuqueueEnqueueCqsSet
  | kbaseTlKbaseArrayEndKcpuqueueEnqueueCqsSet
  | kbaseTlKbaseArrayBeginKcpuqueueEnqueueDebugcopy
  | kbaseTlKbaseArrayItemKcpuqueueEnqueueDebugcopy
  | kbaseTlKbaseArrayEndKcpuqueueEnqueueDebugcopy
  | kbaseTlKbaseKcpuqueueEnqueueMapImport
  | kbaseTlKbaseKcpuqueueEnqueueUnmapImport
  | kbaseTlKbaseKcpuqueueEnqueueUnmapImportForce
  | kbaseTlKbaseArrayBeginKcpuqueueEnqueueJitAlloc
  | kbaseTlKbaseArrayItemKcpuqueueEnqueueJitAlloc
  | kbaseTlKbaseArrayEndKcpuqueueEnqueueJitAlloc
  | kbaseTlKbaseArrayBeginKcpuqueueEnqueueJitFree
  | kbaseTlKbaseArrayItemKcpuqueueEnqueueJitFree
  | kbaseTlKbaseArrayEndKcpuqueueEnqueueJitFree
  | kbaseTlKbaseKcpuqueueExecuteFenceSignalStart
  | kbaseTlKbaseKcpuqueueExecuteFenceSignalEnd
  | kbaseTlKbaseKcpuqueueExecuteFenceWaitStart
  | kbaseTlKbaseKcpuqueueExecuteFenceWaitEnd
  | kbaseTlKbaseKcpuqueueExecuteCqsWaitStart
  | kbaseTlKbaseKcpuqueueExecuteCqsWaitEnd
  | kbaseTlKbaseKcpuqueueExecuteCqsSet
  | kbaseTlKbaseKcpuqueueExecuteDebugcopyStart
  | kbaseTlKbaseKcpuqueueExecuteDebugcopyEnd
  | kbaseTlKbaseKcpuqueueExecuteMapImportStart
  | kbaseTlKbaseKcpuqueueExecuteMapImportEnd
  | kbaseTlKbaseKcpuqueueExecuteUnmapImportStart
  | kbaseTlKbaseKcpuqueueExecuteUnmapImportEnd
  | kbaseTlKbaseKcpuqueueExecuteUnmapImportForceStart
  | kbaseTlKbaseKcpuqueueExecuteUnmapImportForceEnd
  | kbaseTlKbaseKcpuqueueExecuteJitAllocStart
  | kbaseTlKbaseArrayBeginKcpuqueueExecuteJitAllocEnd
  | kbaseTlKbaseArrayItemKcpuqueueExecuteJitAllocEnd
  | kbaseTlKbaseArrayEndKcpuqueueExecuteJitAllocEnd
  | kbaseTlKbaseKcpuqueueExecuteJitFreeStart
  | kbaseTlKbaseArrayBeginKcpuqueueExecuteJitFreeEnd
  | kbaseTlKbaseArrayItemKcpuqueueExecuteJitFreeEnd
  | kbaseTlKbaseArrayEndKcpuqueueExecuteJitFreeEnd
  | kbaseTlKbaseKcpuqueueExecuteErrorbarrier
  deriving DecidableEq

namespace TlMsgIdObj

/-- The enumerators in order. -/
def all : List TlMsgIdObj :=
  [.kbaseTlNewCtx,
   .kbaseTlNewGpu,
   .kbaseTlNewLpu,
   .kbaseTlNewAtom,
   .kbaseTlNewAs,
   .kbaseTlDelCtx,
   .kbaseTlDelAtom,
   .kbaseTlLifelinkLpuGpu,
   .kbaseTlLifelinkAsGpu,
   .kbaseTlRetCtxLpu,
   .kbaseTlRetAtomCtx,
   .kbaseTlRetAtomLpu,
   .kbaseTlNretCtxLpu,
   .kbaseTlNretAtomCtx,
   .kbaseTlNretAtomLpu,
   .kbaseTlRetAsCtx,
   .kbaseTlNretAsCtx,
   .kbaseTlRetAtomAs,
   .kbaseTlNretAtomAs,
   .kbaseTlAttribAtomConfig,
   .kbaseTlAttribAtomPriority,
   .kbaseTlAttribAtomState,
   .kbaseTlAttribAtomPrioritized,
   .kbaseTlAttribAtomJit,
   .kbaseTlJitUsedpages,
   .kbaseTlAttribAtomJitallocinfo,
   .kbaseTlAttribAtomJitfreeinfo,
   .kbaseTlAttribAsConfig,
   .kbaseTlEventLpuSoftstop,
   .kbaseTlEventAtomSoftstopEx,
   .kbaseTlEventAtomSoftstopIssue,
   .kbaseTlEventAtomSoftjobStart,
   .kbaseTlEventAtomSoftjobEnd,
   .kbaseJdGpuSoftReset,
   .kbaseTlKbaseNewDevice,
   .kbaseTlKbaseDeviceProgramCsg,
   .kbaseTlKbaseDeviceDeprogramCsg,
   .kbaseTlKbaseNewCtx,
   .kbaseTlKbaseDelCtx,
   .kbaseTlKbaseNewKcpuqueue,
   .kbaseTlKbaseDelKcpuqueue,
   .kbaseTlKbaseKcpuqueueEnqueueFenceSignal,
   .kbaseTlKbaseKcpuqueueEnqueueFenceWait,
   .kbaseTlKbaseArrayBeginKcpuqueueEnqueueCqsWait,
   .kbaseTlKbaseArrayItemKcpuqueueEnqueueCqsWait,
   .kbaseTlKbaseArrayEndKcpuqueueEnqueueCqsWait,
   .kbaseTlKbaseArrayBeginKcpuqueueEnqueueCqsSet,
   .kbaseTlKbaseArrayItemKcpuqueueEnqueueCqsSet,
   .kbaseTlKbaseArrayEndKcpuqueueEnqueueCqsSet,
   .kbaseTlKbaseArrayBeginKcpuqueueEnqueueDebugcopy,
   .kbaseTlKbaseArrayItemKcpuqueueEnqueueDebugcopy,
   .kbaseTlKbaseArrayEndKcpuqueueEnqueueDebugcopy,
   .kbaseTlKbaseKcpuqueueEnqueueMapImport,
   .kbaseTlKbaseKcpuqueueEnqueueUnmapImport,
   .kbaseTlKbaseKcpuqueueEnqueueUnmapImportForce,
   .kbaseTlKbaseArrayBeginKcpuqueueEnqueueJitAlloc,
   .kbaseTlKbaseArrayItemKcpuqueueEnqueueJitAlloc,
   .kbaseTlKbaseArrayEndKcpuqueueEnqueueJitAlloc,
   .kbaseTlKbaseArrayBeginKcpuqueueEnqueueJitFree,
   .kbaseTlKbaseArrayItemKcpuqueueEnqueueJitFree,
   .kbaseTlKbaseArrayEndKcpuqueueEnqueueJitFree,
   .kbaseTlKbaseKcpuqueueExecuteFenceSignalStart,
   .kbaseTlKbaseKcpuqueueExecuteFenceSignalEnd,
   .kbaseTlKbaseKcpuqueueExecuteFenceWaitStart,
   .kbaseTlKbaseKcpuqueueExecuteFenceWaitEnd,
   .kbaseTlKbaseKcpuqueueExecuteCqsWaitStart,
   .kbaseTlKbaseKcpuqueueExecuteCqsWaitEnd,
   .kbaseTlKbaseKcpuqueueExecuteCqsSet,
   .kbaseTlKbaseKcpuqueueExecuteDebugcopyStart,
   .kbaseTlKbaseKcpuqueueExecuteDebugcopyEnd,
   .kbaseTlKbaseKcpuqueueExecuteMapImportStart,
   .kbaseTlKbaseKcpuqueueExecuteMapImportEnd,
   .kbaseTlKbaseKcpuqueueExecuteUnmapImportStart,
   .kbaseTlKbaseKcpuqueueExecuteUnmapImportEnd,
   .kbaseTlKbaseKcpuqueueExecuteUnmapImportForceStart,
   .kbaseTlKbaseKcpuqueueExecuteUnmapImportForceEnd,
   .kbaseTlKbaseKcpuqueueExecuteJitAllocStart,
   .kbaseTlKbaseArrayBeginKcpuqueueExecuteJitAllocEnd,
   .kbaseTlKbaseArrayItemKcpuqueueExecuteJitAllocEnd,
   .kbaseTlKbaseArrayEndKcpuqueueExecuteJitAllocEnd,
   .kbaseTlKbaseKcpuqueueExecuteJitFreeStart,
   .kbaseTlKbaseArrayBeginKcpuqueueExecuteJitFreeEnd,
   .kbaseTlKbaseArrayItemKcpuqueueExecuteJitFreeEnd,
   .kbaseTlKbaseArrayEndKcpuqueueExecuteJitFreeEnd,
   .kbaseTlKbaseKcpuqueueExecuteErrorbarrier]

/-- The layouts of `OBJ_TL_LIST`. -/
def format : TlMsgIdObj → List TlFormat
  | kbaseTlNewCtx => [.p, .I, .I]
  | kbaseTlNewGpu => [.p, .I, .I]
  | kbaseTlNewLpu => [.p, .I, .I]
  | kbaseTlNewAtom => [.p, .I]
  | kbaseTlNewAs => [.p, .I]
  | kbaseTlDelCtx => [.p]
  | kbaseTlDelAtom => [.p]
  | kbaseTlLifelinkLpuGpu => [.p, .p]
  | kbaseTlLifelinkAsGpu => [.p, .p]
  | kbaseTlRetCtxLpu => [.p, .p]
  | kbaseTlRetAtomCtx => [.p, .p]
  | kbaseTlRetAtomLpu => [.p, .p, .s]
  | kbaseTlNretCtxLpu => [.p, .p]
  | kbaseTlNretAtomCtx => [.p, .p]
  | kbaseTlNretAtomLpu => [.p, .p]
  | kbaseTlRetAsCtx => [.p, .p]
  | kbaseTlNretAsCtx => [.p, .p]
  | kbaseTlRetAtomAs => [.p, .p]
  | kbaseTlNretAtomAs => [.p, .p]
  | kbaseTlAttribAtomConfig => [.p, .L, .L, .I]
  | kbaseTlAttribAtomPriority => [.p, .I]
  | kbaseTlAttribAtomState => [.p, .I]
  | kbaseTlAttribAtomPrioritized => [.p]
  | kbaseTlAttribAtomJit => [.p, .L, .L, .I, .L, .I, .L, .L, .L]
  | kbaseTlJitUsedpages => [.L, .I]
  | kbaseTlAttribAtomJitallocinfo => [.p, .L, .L, .L, .I, .I, .I, .I, .I]
  | kbaseTlAttribAtomJitfreeinfo => [.p, .I]
  | kbaseTlAttribAsConfig => [.p, .L, .L, .L]
  | kbaseTlEventLpuSoftstop => [.p]
  | kbaseTlEventAtomSoftstopEx => [.p]
  | kbaseTlEventAtomSoftstopIssue => [.p]
  | kbaseTlEventAtomSoftjobStart => [.p]
  | kbaseTlEventAtomSoftjobEnd => [.p]
  | kbaseJdGpuSoftReset => [.p]
  | kbaseTlKbaseNewDevice => [.I, .I, .I]
  | kbaseTlKbaseDeviceProgramCsg => [.I, .I, .I]
  | kbaseTlKbaseDeviceDeprogramCsg => [.I, .I]
  | kbaseTlKbaseNewCtx => [.I, .I]
  | kbaseTlKbaseDelCtx => [.I]
  | kbaseTlKbaseNewKcpuqueue => [.p, .I, .I]
  | kbaseTlKbaseDelKcpuqueue => [.p]
  | kbaseTlKbaseKcpuqueueEnqueueFenceSignal => [.p, .p]
  | kbaseTlKbaseKcpuqueueEnqueueFenceWait => [.p, .p]
  | kbaseTlKbaseArrayBeginKcpuqueueEnqueueCqsWait => [.p]
  | kbaseTlKbaseArrayItemKcpuqueueEnqueueCqsWait => [.p, .L, .I]
  | kbaseTlKbaseArrayEndKcpuqueueEnqueueCqsWait => [.p]
  | kbaseTlKbaseArrayBeginKcpuqueueEnqueueCqsSet => [.p]
  | kbaseTlKbaseArrayItemKcpuqueueEnqueueCqsSet => [.p, .L]
  | kbaseTlKbaseArrayEndKcpuqueueEnqueueCqsSet => [.p]
  | kbaseTlKbaseArrayBeginKcpuqueueEnqueueDebugcopy => [.p]
  | kbaseTlKbaseArrayItemKcpuqueueEnqueueDebugcopy => [.p, .L]
  | kbaseTlKbaseArrayEndKcpuqueueEnqueueDebugcopy => [.p]
  | kbaseTlKbaseKcpuqueueEnqueueMapImport => [.p, .L]
  | kbaseTlKbaseKcpuqueueEnqueueUnmapImport => [.p, .L]
  | kbaseTlKbaseKcpuqueueEnqueueUnmapImportForce => [.p, .L]
  | kbaseTlKbaseArrayBeginKcpuqueueEnqueueJitAlloc => [.p]
  | kbaseTlKbaseArrayItemKcpuqueueEnqueueJitAlloc => [.p, .L, .L, .L, .L, .I, .I, .I, .I, .I]
  | kbaseTlKbaseArrayEndKcpuqueueEnqueueJitAlloc => [.p]
  | kbaseTlKbaseArrayBeginKcpuqueueEnqueueJitFree => [.p]
  | kbaseTlKbaseArrayItemKcpuqueueEnqueueJitFree => [.p, .I]
  | kbaseTlKbaseArrayEndKcpuqueueEnqueueJitFree => [.p]
  | kbaseTlKbaseKcpuqueueExecuteFenceSignalStart => [.p]
  | kbaseTlKbaseKcpuqueueExecuteFenceSignalEnd => [.p]
  | kbaseTlKbaseKcpuqueueExecuteFenceWaitStart => [.p]
  | kbaseTlKbaseKcpuqueueExecuteFenceWaitEnd => [.p]
  | kbaseTlKbaseKcpuqueueExecuteCqsWaitStart => [.p]
  | kbaseTlKbaseKcpuqueueExecuteCqsWaitEnd => [.p]
  | kbaseTlKbaseKcpuqueueExecuteCqsSet => [.p]
  | kbaseTlKbaseKcpuqueueExecuteDebugcopyStart => [.p]
  | kbaseTlKbaseKcpuqueueExecuteDebugcopyEnd => [.p]
  | kbaseTlKbaseKcpuqueueExecuteMapImportStart => [.p]
  | kbaseTlKbaseKcpuqueueExecuteMapImportEnd => [.p]
  | kbaseTlKbaseKcpuqueueExecuteUnmapImportStart => [.p]
  | kbaseTlKbaseKcpuqueueExecuteUnmapImportEnd => [.p]
  | kbaseTlKbaseKcpuqueueExecuteUnmapImportForceStart => [.p]
  | kbaseTlKbaseKcpuqueueExecuteUnmapImportForceEnd => [.p]
  | kbaseTlKbaseKcpuqueueExecuteJitAllocStart => [.p]
  | kbaseTlKbaseArrayBeginKcpuqueueExecuteJitAllocEnd => [.p]
  | kbaseTlKbaseArrayItemKcpuqueueExecuteJitAllocEnd => [.p, .L, .L]
  | kbaseTlKbaseArrayEndKcpuqueueExecuteJitAllocEnd => [.p]
  | kbaseTlKbaseKcpuqueueExecuteJitFreeStart => [.p]
  | kbaseTlKbaseArrayBeginKcpuqueueExecuteJitFreeEnd => [.p]
  | kbaseTlKbaseArrayItemKcpuqueueExecuteJitFreeEnd => [.p, .L]
  | kbaseTlKbaseArrayEndKcpuqueueExecuteJitFreeEnd => [.p]
  | kbaseTlKbaseKcpuqueueExecuteErrorbarrier => [.p]

end TlMsgIdObj

def objCatalog : TlCatalog TlMsgIdObj := ⟨TlMsgIdObj.ctorIdx, TlMsgIdObj.format⟩

/-! ### Messages of the auxiliary stream -/

/-- `enum tl_msg_id_aux`, but for the count at its end. -/
inductive TlMsgIdAux
  | kbaseAuxPmState
  | kbaseAuxPagefault
  | kbaseAuxPagesalloc
  | kbaseAuxDevfreqTarget
  | kbaseAuxProtectedEnterStart
  | kbaseAuxProtectedEnterEnd
  | kbaseAuxProtectedLeaveStart
  | kbaseAuxProtectedLeaveEnd
  | kbaseAuxJitStats
  | kbaseAuxEventJobSlot
  deriving DecidableEq

namespace TlMsgIdAux

/-- The enumerators in order. -/
def all : List TlMsgIdAux :=
  [.kbaseAuxPmState,
   .kbaseAuxPagefault,
   .kbaseAuxPagesalloc,
   .kbaseAuxDevfreqTarget,
   .kbaseAuxProtectedEnterStart,
   .kbaseAuxProtectedEnterEnd,
   .kbaseAuxProtectedLeaveStart,
   .kbaseAuxProtectedLeaveEnd,
   .kbaseAuxJitStats,
   .kbaseAuxEventJobSlot]

/-- The layouts of `AUX_TL_LIST`. -/
def format : TlMsgIdAux → List TlFormat
  | kbaseAuxPmState => [.I, .L]
  | kbaseAuxPagefault => [.I, .I, .L]
  | kbaseAuxPagesalloc => [.I, .L]
  | kbaseAuxDevfreqTarget => [.L]
  | kbaseAuxProtectedEnterStart => [.p]
  | kbaseAuxProtectedEnterEnd => [.p]
  | kbaseAuxProtectedLeaveStart => [.p]
  | kbaseAuxProtectedLeaveEnd => [.p]
  | kbaseAuxJitStats => [.I, .I, .I, .I, .I, .I]
  | kbaseAuxEventJobSlot => [.p, .I, .I, .I]

end TlMsgIdAux

def auxCatalog : TlCatalog TlMsgIdAux := ⟨TlMsgIdAux.ctorIdx, TlMsgIdAux.format⟩

end GpuReplay.Driver
