/-
Setting up a replay: `gr_mem_init`.

The page table is rebuilt, the memory contents are loaded into it, and the synced address
spaces are looked up in it, here through the table itself as the MMU reads it.  What the
steps leave behind is the `replay_context` the replay starts from.
-/
import GpuReplay.Replayer.PageTable

namespace GpuReplay.Replayer

open Stdio

/-- `struct sync_as`. -/
structure SyncAs where
  gmStart : Nat
  gmEnd : Nat
  size : Nat
  pmStart : Nat
  pmEnd : Nat
  isInput : Nat
  deriving Repr, DecidableEq

/-- The switches of `gr_config`. -/
structure GrConfig where
  testCheckpoint : Bool
  isValidate : Bool

/-- The files `gr_config` names, `none` for one that cannot be opened. -/
structure Files where
  pgt : Option (List UInt8)
  mc : Option (List UInt8)
  sas : Option (List UInt8)
  snapshot : Option (List UInt8)

/-- `struct replay_context` as `gr_mem_init` leaves it: `provision` is the size of the
space allocated for checkpoints, and `regFp` the snapshot file, where there is one. -/
structure ReplayContext where
  machine : Machine
  userPgt : UserPtr
  oldTranstab : Nat
  newTranstab : Nat
  regions : List Region
  totNrPages : Nat
  sas : List SyncAs
  provision : Option Nat
  regFp : Option Stream

/-! ### Through the page table -/

/-- `n` turns of the loop of `gr_get_pgd_at_level`, from level `l` on. -/
def walkPgd (mem : ByteMem) (gaddr : Nat) : Nat → Nat → Nat → Except Stop Nat
  | 0, _, pgd => .ok pgd
  | n + 1, l, pgd => do
      if pgd % 4096 ≠ 0 then throw (.abort "pgd paddr is not aligned")
      let pgdPage ← grMapPage pgd
      let targetPgd := pteToPhysAddr (mem.read64 (pgdPage + 8 * pgdOffset gaddr l))
      if targetPgd = 0 then throw (.abort "cannot get target pgd")
      walkPgd mem gaddr n (l + 1) targetPgd

/-- `gr_get_pgd_at_level`. -/
def grGetPgdAtLevel (mem : ByteMem) (gaddr level pgd : Nat) : Except Stop Nat :=
  walkPgd mem gaddr level 0 pgd

/-- `gr_trans_va_to_pa`. -/
def grTransVaToPa (mem : ByteMem) (pgd vaddr : Nat) : Except Stop Nat := do
  let offset := vaddr % 4096
  let targetPgd ← grGetPgdAtLevel mem vaddr midgardMmuBottomlevel pgd
  let pgdPage ← grMapPage targetPgd
  return pteToPhysAddr (mem.read64 (pgdPage + 8 * (vaddr / 4096 % 512))) + offset

/-! ### The synced address spaces -/

/-- The variables a record of the file is read into. -/
structure SasLocals where
  gmStart : Nat
  gmEnd : Nat
  size : Nat

/-- The loop over the records, with `n` to go.  The last one is the input.  A record
outside every region marks `gm_region[-1]`. -/
def readSyncAs (mem : ByteMem) (newTranstab : Nat) :
    Nat → SasLocals → Stream → List Region → Except Stop (List SyncAs × List Region)
  | 0, _, _, regions => .ok ([], regions)
  | n + 1, l, f, regions => do
      let (gmStart, f) := f.readWord 8 l.gmStart
      let (gmEnd, f) := f.readWord 8 l.gmEnd
      let (size, f) := f.readWord 8 l.size
      let pmStart ← grTransVaToPa mem newTranstab gmStart
      match grFindRegionEnclosingAddress regions gmStart with
      | none => throw .undefined
      | some regionOffset =>
          let (sas, regions) ← readSyncAs mem newTranstab n ⟨gmStart, gmEnd, size⟩ f
            (regions.modify regionOffset fun r => { r with isSynced := 1 })
          return (⟨gmStart, gmEnd, size, pmStart, 0, if n = 0 then 1 else 0⟩ :: sas, regions)

/-- `gr_get_sync_as`. -/
def grGetSyncAs (mem : ByteMem) (newTranstab : Nat) (locals : SasLocals) (regions : List Region)
    (file : List UInt8) : Except Stop (List SyncAs × List Region) :=
  let (cnt, f) := (Stream.open file).readWord 4 0
  readSyncAs mem newTranstab cnt locals f regions

/-! ### All of it -/

/-- What the variables hold at first. -/
structure InitJunk where
  pgt : PgtJunk
  mc : Locals
  sas : SasLocals

/-- A file that `fopen` opens.  `e` is what follows when it does not: an assertion, or a
read from a null pointer. -/
def openFile (e : Stop) : Option (List UInt8) → Except Stop (List UInt8)
  | some file => .ok file
  | none => .error e

/-- `gr_validation_init`, which only a validating replay calls. -/
def grValidationInit (config : GrConfig) (snapshot : Option (List UInt8)) :
    Except Stop (Option Stream) :=
  if config.isValidate then do
    let file ← openFile (.abort "snapshot file read fails") snapshot
    return some (Stream.open file)
  else
    return none

/-- `gr_mem_init` on a fresh context. -/
def grMemInit (config : GrConfig) (files : Files) (junk : InitJunk) (m : Machine) :
    Except Stop ReplayContext := do
  let pgtFile ← openFile .undefined files.pgt
  let pgt ← grPgtInit junk.pgt m pgtFile
  let mcFile ← openFile (.abort "mem contents file read fail") files.mc
  let mc ← grMemContentsInit pgt.machine pgt.userPgt junk.mc mcFile
  let sasFile ← openFile .undefined files.sas
  let (sas, regions) ← grGetSyncAs mc.mem pgt.newPgd junk.sas mc.regions sasFile
  let regFp ← grValidationInit config files.snapshot
  return {
    machine := ⟨mc.mem, mc.pool, pgt.machine.heap⟩
    userPgt := pgt.userPgt
    oldTranstab := pgt.oldPgd
    newTranstab := pgt.newPgd
    regions := regions
    totNrPages := mc.totNrPages
    sas := sas
    provision := if config.testCheckpoint then some (4096 * mc.totNrPages) else none
    regFp := regFp }

end GpuReplay.Replayer
