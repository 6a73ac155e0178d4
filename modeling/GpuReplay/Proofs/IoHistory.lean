/-
The register history after any number of accesses.

The count is a `size_t`.  Where it overflows the driver starts it again at the size of the ring,
which is a power of two and fits in a `u16`, so that it divides what a `size_t` overflows at: the
next access goes where it would have gone, and the ring counts as full, which it is.
-/
import GpuReplay.Proofs.RegLog

namespace GpuReplay

open Driver

/-- The history after `accesses`, where `size_t` has `w` bits. -/
def recordAllSized (w : Nat) (h : IoHistory) (accesses : List RegAccess) : IoHistory :=
  accesses.foldl (fun h a => grIoHistoryAddSized w h a.offset a.value a.writeFlag a.now a.current) h

/-- The driver's own `size_t` has 64 bits. -/
theorem recordAllSized_eq (h : IoHistory) (accesses : List RegAccess) :
    recordAll h accesses = recordAllSized 64 h accesses := rfl

/-- The line of an entry that is printed after `prev`. -/
def elapsedLine (prev io : IoAccess) : List Char :=
  dumpLine ((io.timestamp + 2 ^ 64 - prev.timestamp) % 2 ^ 64) io

/-- The count and the slots after `accesses`. -/
theorem recordAllSized_ring {w k : Nat} (hw : 16 ≤ w) (hk : k < 16) {h : IoHistory}
    {accesses : List RegAccess} (hsize : h.size = 2 ^ k)
    (hcount : RingBuffer.Counts (2 ^ w) h.size h.count accesses.length)
    (hslots : RingBuffer.Holds Eq h.size h.buf (accesses.map RegAccess.io)) (more : List RegAccess) :
    (recordAllSized w h more).size = 2 ^ k ∧
      RingBuffer.Counts (2 ^ w) (2 ^ k) (recordAllSized w h more).count (accesses ++ more).length ∧
      RingBuffer.Holds Eq (2 ^ k) (recordAllSized w h more).buf
        ((accesses ++ more).map RegAccess.io) := by
  induction more generalizing h accesses with
  | nil =>
      rw [List.append_nil, ← hsize]
      exact ⟨rfl, hcount, hslots⟩
  | cons a more ih =>
      have hroom : h.size ∣ 2 ^ w ∧ h.size < 2 ^ w := by
        rw [hsize]
        exact ⟨Nat.pow_dvd_pow 2 (by omega), Nat.pow_lt_pow_right (by decide) (by omega)⟩
      have hnext := @ih (grIoHistoryAddSized w h a.offset a.value a.writeFlag a.now a.current)
        (accesses ++ [a]) hsize
        (by
          rw [List.length_append]
          exact hcount.next (Or.inr hroom))
        (holds_record hslots hcount.place a)
      rwa [List.append_assoc] at hnext

/-- The loop prints each entry with the time since the one before. -/
theorem dumpLoop_eq (prev : IoAccess) (ios : List IoAccess) :
    dumpLoop prev.timestamp ios = (List.zipWith elapsedLine (prev :: ios) ios).flatten := by
  induction ios generalizing prev with
  | nil => rfl
  | cons io ios ih =>
      rw [dumpLoop, ih io, List.zipWith_cons_cons, List.flatten_cons]
      rfl

/-- What the dump prints, of the entries it goes over: the first one with no time. -/
theorem grIoHistoryDump_eq (h : IoHistory) :
    grIoHistoryDump h =
      (List.zipWith elapsedLine (((List.range h.iters).map h.entry).take 1 ++
        (List.range h.iters).map h.entry) ((List.range h.iters).map h.entry)).flatten := by
  unfold grIoHistoryDump
  cases hiters : h.iters with
  | zero => rfl
  | succ n =>
      rw [dumpLoop_eq, List.range_succ_eq_map, List.map_cons, List.take_succ_cons, List.take_zero]
      rfl

/-- **The dump prints the accesses recorded last**, the oldest first, each once and with the time
since the one printed before it, after any number of accesses. -/
theorem grIoHistoryDump_last {w k : Nat} (hw : 16 ≤ w) (hk : k < 16) (junk : Nat → IoAccess)
    (accesses : List RegAccess) :
    let h := recordAllSized w (grIoHistoryInit junk (2 ^ k)) accesses
    let last := (accesses.drop (accesses.length - 2 ^ k)).map RegAccess.io
    h.iters = min accesses.length (2 ^ k) ∧
      (List.range h.iters).map h.entry = last ∧
      grIoHistoryDump h = (List.zipWith elapsedLine (last.take 1 ++ last) last).flatten ∧
      -- the subtraction and the sum of an index stay in a `size_t`, and the index in the ring
      h.iters ≤ h.count ∧ h.count < 2 ^ w ∧
      (∀ i, h.count % h.size < 2 ^ k ∧ (h.count - h.iters + i) % h.size < 2 ^ k) := by
  intro h last
  have hsmall : (2 : Nat) ^ k < 2 ^ w := Nat.pow_lt_pow_right (by decide) (by omega)
  obtain ⟨hsize, hcount, hslots⟩ := @recordAllSized_ring w k hw hk
    (grIoHistoryInit junk (2 ^ k)) [] rfl (RingBuffer.counts_zero (Nat.two_pow_pos w))
      (RingBuffer.holds_nil _)
    accesses
  rw [List.nil_append] at hcount hslots
  have hiters : h.iters = RingBuffer.kept (2 ^ k) h.count := by
    rw [← hsize]
    rfl
  have hkept := hcount.kept_eq
  have hentries : (List.range h.iters).map h.entry = last := by
    have hread := hslots.read (by rwa [List.length_map])
    have hdrop : accesses.length - min accesses.length (2 ^ k) = accesses.length - 2 ^ k := by
      omega
    rw [List.length_map, ← List.map_drop, hkept, hdrop] at hread
    refine Eq.trans ?_ hread
    rw [hiters, hkept]
    refine List.map_congr_left fun i _ => ?_
    unfold IoHistory.entry
    rw [hiters, show h.size = 2 ^ k from hsize, hkept]
  refine ⟨hiters.trans hkept, hentries, ?_, ?_, hcount.lt, fun i => ?_⟩
  · rw [grIoHistoryDump_eq, hentries]
  · rw [hiters]
    exact RingBuffer.kept_le _ _
  · rw [show h.size = 2 ^ k from hsize]
    exact ⟨Nat.mod_lt _ (Nat.two_pow_pos k), Nat.mod_lt _ (Nat.two_pow_pos k)⟩

/-- Three accesses in a ring for two. -/
theorem grIoHistoryDump_last_three :
    grIoHistoryDump (recordAllSized 16 (grIoHistoryInit (fun _ => ⟨0, 0, 0, 0⟩) 2)
      [⟨⟨0x28, 1, true⟩, 5, 1⟩, ⟨⟨0x20, 7, false⟩, 9, 1⟩, ⟨⟨0x24, 2, true⟩, 12, 1⟩]) =
      "0,R,20,7\n3,W,24,2\n".toList := by
  refine (grIoHistoryDump_last (w := 16) (k := 1) (by decide) (by decide) (fun _ => ⟨0, 0, 0, 0⟩)
    [⟨⟨0x28, 1, true⟩, 5, 1⟩, ⟨⟨0x20, 7, false⟩, 9, 1⟩, ⟨⟨0x24, 2, true⟩, 12, 1⟩]).2.2.1.trans ?_
  decide

end GpuReplay
