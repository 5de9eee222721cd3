import FtlFirmware.Ftl.Calls
import FtlFirmware.Ftl.Mapping

/-!
# The FTL as a user of the NAND module

Over a run of the FTL, the NAND device makes a run of its own, by the calls that the FTL issues
(`exists_nandRun`). On such a run the pages of a block may be counted wrongly (`not_run_tallied`): a
block with two valid pages is marked as cold, on a device worn out unevenly.
-/

namespace FtlFirmware

namespace Ftl

variable {s s' : Ftl} {tr : List (Call × Answer)} {allowed : Ftl → Call → Prop}

/-- What the NAND device can reach by any calls is kept by the calls of the FTL. -/
theorem nandStable_reached (n₀ : Nand) :
    NandStable fun n => ∃ tr, Nand.Run Machine.anyCall n₀ tr n := by
  have hstep (call : NandCall) (n : Nand) (h : ∃ tr, Nand.Run Machine.anyCall n₀ tr n) :
      ∃ tr, Nand.Run Machine.anyCall n₀ tr (n.exec call).2 := by
    obtain ⟨tr, hrun⟩ := h
    have hcall : Nand.machine.step n call (n.exec call).1 (n.exec call).2 := rfl
    exact ⟨_, hrun.snoc True.intro hcall⟩
  constructor
  · exact fun n b p buf => hstep (.pageRead b p buf) n
  · exact fun n b p buf => hstep (.pageWrite b p buf) n
  · exact fun n b p => hstep (.markPageInvalid b p) n
  · exact fun n b => hstep (.blockErase b) n
  · exact fun n b => hstep (.markColdBlock b) n
  · exact fun n b => hstep (.replaceBadBlock b) n

/-- Over a run of the FTL, the NAND device makes a run. -/
theorem exists_nandRun (hrun : Run allowed s tr s') :
    ∃ trace, Nand.Run Machine.anyCall s.nand trace s'.nand := by
  refine hrun.invariant (P := fun s' => ∃ trace, Nand.Run Machine.anyCall s.nand trace s'.nand)
    ⟨[], .nil⟩ ?_
  rintro s₁ call a s₂ h - ⟨fuel, hexec⟩
  exact exec_nand (nandStable_reached s.nand) h hexec

/-- The NAND device of a fresh device has been powered on with new media. -/
theorem Fresh.nand_eq (h : Fresh s) : ∃ rand, s.nand = Nand.init none rand := by
  obtain ⟨rand, files, hon⟩ := h
  refine ⟨rand, ?_⟩
  rw [powerOn, init] at hon
  split at hon
  · exact RetCode.noConfusion (Prod.mk.inj hon).1
  · rw [← (Prod.mk.inj hon).2]
    rfl

/-- The block that a write marks as cold has more valid pages than are counted from then on. -/
theorem Calm.not_tallied {c : Store} {L : Layout} (h : Calm c L s) (hL : L.Cold) :
    ¬ s.cooled.nand.Tallied := by
  intro htallied
  obtain ⟨hmem₀, hmem₂₅₅⟩ := h.mem_validPages_cold hL
  have hfirst : s.cooled.nand.blocks 0 = { s.nand.blocks 0 with validPageCnt := 1 } := by
    rw [cooled_blocks, Function.update_self, h.markCold_eq hL]
  have hcount := htallied.count 0 (by decide)
  rw [hfirst] at hcount
  have hone : (s.nand.blocks 0).validPages.card = 1 := (hcount (h.good 0 (by decide))).symm
  have heq := Finset.card_le_one.1 hone.le 0 hmem₀ 255 hmem₂₅₅
  exact absurd heq (by decide)

/-- On a run of the NAND device, the valid pages of a block may be counted wrongly. All its calls
    are issued by the FTL, on a run of calls that change the maps. -/
theorem not_run_tallied : ¬ ∀ (rand : ℕ → ℕ) (n : Nand) (trace : List (NandCall × RetCode)),
    Nand.Run Machine.anyCall (Nand.init none rand) trace n →
    (∃ s s' tr, Fresh s ∧ s.nand = Nand.init none rand ∧
      Run (fun _ call => MapCall call) s tr s' ∧ s'.nand = n) → n.Tallied := by
  intro htallied
  obtain ⟨c, L, s, ⟨s₀, tr, hfresh, hrun, -, hcalm⟩, hL⟩ :=
    exists_uneven MapCall.write MapCall.triggerGc
  obtain ⟨L', s₁, hcold, hL', hcalm'⟩ := hcalm.write_cold hL blankPage
  have hwrite : s.exec 0 (.write 3 blankPage) = some (⟨.ok, none⟩, s₁.cooled) := by
    rw [exec, hcold]
    rfl
  have hrun' := hrun.snoc (MapCall.write 3 blankPage) ⟨0, hwrite⟩
  obtain ⟨rand, hrand⟩ := hfresh.nand_eq
  obtain ⟨trace, htrace⟩ := exists_nandRun hrun'
  rw [hrand] at htrace
  exact hcalm'.not_tallied hL' (htallied rand _ trace htrace ⟨s₀, _, _, hfresh, hrand, hrun', rfl⟩)

end Ftl

end FtlFirmware
