/-
Which packets of a timeline stream the history shows.

A stream keeps its last packets, `PACKET_COUNT` of them, in a ring.  The history goes over the
slots from the first to the one being written.  Once the ring has wrapped, the slots behind that
one hold packets that are older than those before it, and the history leaves them out.  It shows
them all only where there are none, while the last slot is being written.
-/
import GpuReplay.Proofs.Timeline

namespace GpuReplay.Driver

variable {K : Type} {c : TlCatalog K}

/-- The packets the history goes over, in that order. -/
def historyPackets (dump : Bool) (s : KbaseTlstream) : List TlPacket :=
  (List.range (s.wbi % packetCount dump + 1)).map s.buffer

theorem timelineHistory_eq (h : TlHistory K) (dump : Bool) (s : KbaseTlstream) :
    timelineHistory h dump s = (historyPackets dump s).mapM fun pkt =>
      (timelineCursor h pkt.data).scan pkt.size (packetStart s.numbered) := by
  unfold timelineHistory historyPackets
  rw [List.mapM_map]
  rfl

/-- The history goes over the packets of the stream that are still in the ring, from the oldest
on, each one once. -/
def Retains (c : TlCatalog K) (dump : Bool) (s : KbaseTlstream) (ops : List (TlOp c)) : Prop :=
  List.Forall₂ (fun pkt ms => TlPacket.Holds pkt (packetStart s.numbered) ms)
    (historyPackets dump (runTlOps dump s ops)) ((packOps (packetStart s.numbered) ops).kept dump)

/-- As many packets are kept as there have been, or as the ring has slots. -/
theorem length_kept_run (law : c.Lawful) (dump : Bool) (s : KbaseTlstream) (ops : List (TlOp c)) :
    ((packOps (packetStart s.numbered) ops).kept dump).length =
      min ((runTlOps dump s ops).wbi + 1) (packetCount dump) := by
  have hlen := (keeps_run law dump s ops).2.length_packets
  unfold Packing.kept
  rw [List.length_drop]
  omega

theorem retains_iff (law : c.Lawful) (dump : Bool) (s : KbaseTlstream) (ops : List (TlOp c)) :
    Retains c dump s ops ↔ FromFirstSlot dump (runTlOps dump s ops).wbi := by
  obtain ⟨hnumbered, hkeeps⟩ := keeps_run law dump s ops
  have hlength : (historyPackets dump (runTlOps dump s ops)).length =
      (runTlOps dump s ops).wbi % packetCount dump + 1 := by
    unfold historyPackets
    rw [List.length_map, List.length_range]
  constructor
  · intro hall
    exact hkeeps.length_kept.mp (hall.length_eq.symm.trans hlength)
  · intro hfirst
    refine List.forall₂_iff_get.mpr ⟨hlength.trans (hkeeps.length_kept.mpr hfirst).symm,
      fun i h₁ h₂ => ?_⟩
    have hheld := hkeeps.slot hfirst (List.getElem?_eq_getElem h₂)
    rw [hnumbered] at hheld
    simpa [historyPackets] using hheld

/-- **The history shows the packets that are still in the ring exactly when slot `0` holds the
oldest of them**, and their messages as far as their cases read them right. -/
theorem timelineRetention_iff (dump : Bool) (s : KbaseTlstream) :
    (∀ ops : List (TlOp objCatalog),
      ((packOps (packetStart s.numbered) ops).kept dump).length =
          min ((runTlOps dump s ops).wbi + 1) (packetCount dump)
        ∧ (Retains objCatalog dump s ops ↔ FromFirstSlot dump (runTlOps dump s ops).wbi)
        ∧ (Shows objHistory dump s ops ↔ FromFirstSlot dump (runTlOps dump s ops).wbi ∧
          ∀ m ∈ ((packOps (packetStart s.numbered) ops).kept dump).flatten, ObjClean m))
    ∧ (∀ ops : List (TlOp auxCatalog),
      ((packOps (packetStart s.numbered) ops).kept dump).length =
          min ((runTlOps dump s ops).wbi + 1) (packetCount dump)
        ∧ (Retains auxCatalog dump s ops ↔ FromFirstSlot dump (runTlOps dump s ops).wbi)
        ∧ (Shows auxHistory dump s ops ↔ FromFirstSlot dump (runTlOps dump s ops).wbi ∧
          ∀ m ∈ ((packOps (packetStart s.numbered) ops).kept dump).flatten, AuxClean m)) :=
  ⟨fun ops => ⟨length_kept_run objCatalog_lawful dump s ops,
      retains_iff objCatalog_lawful dump s ops, shows_iff objHistory_lawful objReads_iff dump s ops⟩,
    fun ops => ⟨length_kept_run auxCatalog_lawful dump s ops,
      retains_iff auxCatalog_lawful dump s ops, shows_iff auxHistory_lawful auxReads_iff dump s ops⟩⟩

theorem pagesalloc_fits :
    [TlArg.I 1, TlArg.L 8].map TlArg.format = auxCatalog.format .kbaseAuxPagesalloc := rfl

/-- An allocation of pages in each of 33 packets. -/
def wrappedOps : List (TlOp auxCatalog) :=
  (List.replicate 33
    [.msg ⟨.kbaseAuxPagesalloc, 2000, 7, [.I 1, .L 8], pagesalloc_fits⟩, .flush]).flatten.dropLast

/-- The ring has wrapped by one packet, and the history shows that packet alone. -/
theorem wrapped_not_shown :
    ¬ Retains auxCatalog false blankStream wrappedOps ∧
      ¬ Shows auxHistory false blankStream wrappedOps := by
  have hwbi : (runTlOps false blankStream wrappedOps).wbi = 32 := by
    rw [(keeps_run auxCatalog_lawful false blankStream wrappedOps).2.index]
    decide +kernel
  have hfirst : ¬ FromFirstSlot false (runTlOps false blankStream wrappedOps).wbi := by
    rw [hwbi]
    unfold FromFirstSlot
    decide
  refine ⟨fun h => hfirst ((retains_iff auxCatalog_lawful false blankStream wrappedOps).mp h),
    fun h => hfirst ((shows_iff auxHistory_lawful auxReads_iff false blankStream wrappedOps).mp h).1⟩

end GpuReplay.Driver
