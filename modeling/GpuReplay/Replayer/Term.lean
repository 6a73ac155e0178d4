/-
Letting go of the nodes of the user page table: `free_user_pgtable`.

The nodes stay where they are, and what has been freed is a list of their numbers.  Following a
pointer to a node that has been freed, or one that leads to no node, is undefined.
-/
import GpuReplay.Replayer.MemInit

namespace GpuReplay.Replayer

/-- The loop of `free_user_pgtable` over the slots `is` of a node; `free` is the call for the
pointer in a slot. -/
def freeSlots (free : UserPtr → List Nat → Except Stop (List Nat)) (pgd : Nat → UserPtr) :
    List Nat → List Nat → Except Stop (List Nat)
  | [], freed => .ok freed
  | i :: is, freed =>
      if pgd i = .null then freeSlots free pgd is freed
      else do
        let freed ← free (pgd i) freed
        freeSlots free pgd is freed

/-- `free_user_pgtable`, where `freed` has been freed so far.  `fuel` bounds the depth of the
calls, since the slots of a node may lead back to it. -/
def freeUserPgtable (heap : List UserPgtable) : Nat → UserPtr → List Nat → Except Stop (List Nat)
  | 0, _, _ => .error .undefined
  | fuel + 1, userPgt, freed =>
      match userPgt with
      | .null => .ok freed
      | .wild => .error .undefined
      | .node k =>
          if k ∈ freed then .error .undefined
          else
            match heap[k]? with
            | none => .error .undefined
            | some u => do
                let freed ← freeSlots (freeUserPgtable heap fuel) u.pgd (List.range 512) freed
                if k ∈ freed then .error .undefined
                else return freed ++ [k]

end GpuReplay.Replayer
