import FtlFirmware.Ftl.Recovering
import FtlFirmware.Ftl.Terminating
import Mathlib.Order.Filter.AtTopBot.Basic

/-!
# Calls that come back

A call comes back if it stays in the tables and if its garbage collections end. It stays in the
tables if what they refer to is on the device, and the garbage collections end if the numbers with
which worn blocks become bad come up again and again; both are kept by all calls (`Lively`). A trim
also has to find the end of its range (`TrimWraps`).

* `Lively.write`: every write comes back;
* `Lively.trim_iff`: a trim comes back if and only if the end of its range does not wrap around.
-/

open Filter

namespace FtlFirmware

namespace Ftl

variable {s s' s₀ : Ftl} {fuel : ℕ} {lpn count : UInt32}

/-- The tables refer to the device, and worn blocks become bad again and again. -/
structure Lively (s : Ftl) : Prop where
  bounded : s.Bounded
  recurs : Recurs Nand.WearsOut s.nand.rand

/-- The end of the range of a trim is computed with 32 bits, and is before its start. -/
def TrimWraps (s : Ftl) (lpn count : UInt32) : Prop :=
  s.isInitialized ∧ lpn.toNat < totalLpns ∧ 2 ^ 32 ≤ lpn.toNat + count.toNat

/-- A trim goes through all pages that it names if the end of its range wraps around. -/
theorem trimLength_of_wraps (h : s.TrimWraps lpn count) : trimLength lpn count = count.toNat := by
  obtain ⟨_, hlpn, hend⟩ := h
  have hcount := count.toNat_lt
  have hbefore : (lpn + count).toNat < lpn.toNat := by
    rw [UInt32.toNat_add]
    omega
  rw [trimLength, if_neg (Nat.not_lt.2 (hbefore.trans hlpn).le)]

/-! ### Initialized devices stay so -/

/-- No step ends the work of the device. -/
theorem Reaches.isInitialized {D : Set PageData} {E B : Set ℕ} (h : Reaches D E B s s') :
    s'.isInitialized = s.isInitialized := by
  obtain ⟨_, hend⟩ := h.invariant (P := fun x => x.1.isInitialized = s.isInitialized) rfl
    fun x y hx hstep => by
      cases hstep with
      | books hsame => exact hsame.isInitialized.trans hx
      | alloc halloc =>
        rcases allocPhyPage_cases halloc with ⟨_, _, rfl⟩ | ⟨_, _, _, _, rfl⟩
        · exact hx
        · exact hx
      | @replace s₁ _ b _ =>
        rcases s₁.replaceBadBlock_device b with ⟨_, _, heq⟩ | ⟨_, _, _, _, _, hsame⟩
        · rw [heq]
          exact hx
        · exact hsame.isInitialized.trans hx
      | _ => exact hx
  exact hend

theorem read_isInitialized (lpn : ℕ) (buf : PageData) :
    (s.read lpn buf).2.2.isInitialized = s.isInitialized := by
  have hread : Reaches ∅ ∅ Set.univ s (s.read lpn buf).2.2 := read_reaches lpn buf
  exact hread.isInitialized

theorem write_isInitialized {lpn : ℕ} {buf : PageData} {ret : RetCode}
    (h : s.write fuel lpn buf = some (ret, s')) : s'.isInitialized = s.isInitialized := by
  rcases write_steps (Set.mem_singleton buf) h with ⟨_, hsteps⟩ |
    ⟨_, s₁, taken, s₂, hsteps, hprogram, hend⟩
  · exact hsteps.isInitialized
  · obtain ⟨files, sequence, number, hlog⟩ :=
      s₁.walLog_ok (writeEntry lpn (s₁.l2pTable lpn) taken)
    rw [walLogWrite, hlog] at hprogram
    have hprogrammed : s₂.isInitialized = s.isInitialized :=
      hprogram.isInitialized.trans hsteps.isInitialized
    rcases hend with ⟨_, rfl⟩ | ⟨_, ppn, s₃, hcommit, hwear⟩
    · exact hprogrammed
    · refine hwear.isInitialized.trans ?_
      rcases commitWrite_same hcommit with hsame | ⟨old, _, hsame⟩
      · exact hsame.isInitialized.trans hprogrammed
      · exact hsame.isInitialized.trans hprogrammed

theorem trimPage_isInitialized {i : ℕ} (h : s.trimPage i = some s') :
    s'.isInitialized = s.isInitialized := by
  rw [trimPage] at h
  split at h
  · simp at h
  · cases hl : s.l2pTable i with
    | none =>
      rw [hl] at h
      exact Option.some_inj.1 h ▸ rfl
    | some ppn =>
      obtain ⟨files, sequence, number, hentry⟩ := s.walLog_ok (trimEntry i (s.l2pTable i))
      rw [hl] at h
      dsimp only at h
      split at h
      · simp at h
      · rw [walLogTrim, hentry] at h
        exact Option.some_inj.1 h ▸ rfl

theorem trim_isInitialized {ret : RetCode} (h : s.trim lpn count = some (ret, s')) :
    s'.isInitialized = s.isInitialized := by
  rcases trim_cases h with rfl | ⟨s₁, hpages, rfl⟩
  · rfl
  · exact foldlM_invariant (P := fun s₂ => s₂.isInitialized = s.isInitialized) hpages rfl
      fun _ _ _ _ hs hpage => (trimPage_isInitialized hpage).trans hs

/-- Numbers with which every worn block becomes bad, and no block is bad at first. -/
def fourRand : ℕ → ℕ := fun _ => 4

theorem fourRand_recurs : Recurs Nand.WearsOut fourRand := by
  have hfour : Nand.WearsOut 4 := by
    rw [Nand.WearsOut]
    decide
  exact fun k => ⟨k, le_rfl, hfour⟩

namespace Lively

/-- All calls keep a device lively. -/
theorem exec {call : Call} {a : Answer} (h : s.Lively) (hexec : s.exec fuel call = some (a, s')) :
    s'.Lively where
  bounded := exec_bounded h.bounded hexec
  recurs := exec_nand nandStable_recurs h.recurs hexec

/-- The device is lively in every run from power on. -/
theorem of_run {rand : ℕ → ℕ} {files : String → Option (List UInt8)} {tr : List (Call × Answer)}
    (hrand : Recurs Nand.WearsOut rand) (hon : powerOn rand files = (.ok, s₀))
    (hrun : Run (fun _ _ => True) s₀ tr s) : s.Lively where
  bounded := by
    refine hrun.invariant (P := Bounded) ?_ fun _ _ _ _ h _ hstep =>
      hstep.elim fun _ hexec => exec_bounded h hexec
    have hinit := (Bounded.zero (Nand.init none rand) files).init
    rw [powerOn] at hon
    rwa [hon] at hinit
  recurs := run_recurs hrand hon hrun

theorem read (h : s.Lively) (lpn : ℕ) (buf : PageData) : (s.read lpn buf).2.2.Lively := by
  have hexec : s.exec 0 (.read lpn buf) = some (_, (s.read lpn buf).2.2) := rfl
  exact h.exec hexec

/-- A write comes back, with any fuel that is enough. -/
theorem write (h : s.Lively) (lpn : ℕ) (buf : PageData) :
    ∃ r, (∀ᶠ fuel in atTop, s.write fuel lpn buf = some r) ∧ r.2.Lively := by
  obtain ⟨fuel₀, ret, s₁, hgc, _⟩ := gcUntilSpace_ends_of_recurs h.recurs
  obtain ⟨r, hwrite, _⟩ := h.bounded.write (Option.isSome_of_eq_some hgc) lpn buf
  have hexec : s.exec fuel₀ (.write lpn buf) = some (⟨r.1, none⟩, r.2) := by
    rw [Ftl.exec, hwrite]
    rfl
  refine ⟨r, eventually_atTop.2 ⟨fuel₀, fun fuel hle => ?_⟩, h.exec hexec⟩
  have hmore := gcUntilSpace_mono hgc hle
  rw [Ftl.write, hgc] at hwrite
  rw [Ftl.write, hmore, hwrite]

theorem of_write {lpn : ℕ} {buf : PageData} {r : RetCode × Ftl} (h : s.Lively)
    (hwrite : s.write fuel lpn buf = some r) : r.2.Lively := by
  have hexec : s.exec fuel (.write lpn buf) = some (⟨r.1, none⟩, r.2) := by
    rw [Ftl.exec, hwrite]
    rfl
  exact h.exec hexec

theorem of_trim {r : RetCode × Ftl} (h : s.Lively) (htrim : s.trim lpn count = some r) :
    r.2.Lively := by
  have hexec : s.exec 0 (.trim lpn count) = some (⟨r.1, none⟩, r.2) := by
    rw [Ftl.exec, htrim]
    rfl
  exact h.exec hexec

/-- A trim comes back if and only if the end of its range does not wrap around. -/
theorem trim_iff (h : s.Lively) : (∃ r, s.trim lpn count = some r) ↔ ¬ s.TrimWraps lpn count := by
  constructor
  · -- a range that wraps goes on past the last page
    rintro ⟨r, htrim⟩ hwraps
    have hlength := trimLength_of_wraps hwraps
    obtain ⟨hon, hlpn, hend⟩ := hwraps
    have hpos : count ≠ 0 := by
      rintro rfl
      exact absurd hend (Nat.not_le.2 (hlpn.trans (by decide)))
    rw [Ftl.trim, if_neg (not_not.2 hon), if_neg hpos, if_neg (Nat.not_le.2 hlpn), hlength] at htrim
    obtain ⟨s₁, hpages, _⟩ := Option.map_eq_some_iff.1 htrim
    have hmem : totalLpns ∈ List.range' lpn.toNat count.toNat :=
      List.mem_range'_1.2 ⟨hlpn.le, lt_of_lt_of_le (by decide) hend⟩
    obtain ⟨s₂, s₃, hpage⟩ := foldlM_turn hpages hmem
    rw [Ftl.trimPage, if_pos le_rfl] at hpage
    simp at hpage
  · intro hwraps
    by_cases hend : lpn.toNat + count.toNat < 2 ^ 32
    · obtain ⟨r, htrim, _⟩ := h.bounded.trim hend
      exact ⟨r, htrim⟩
    · rw [TrimWraps, not_and, not_and] at hwraps
      rw [Ftl.trim]
      split
      · exact ⟨_, rfl⟩
      split
      · exact ⟨_, rfl⟩
      split
      · exact ⟨_, rfl⟩
      next hon _ hlpn =>
      exact absurd (Nat.not_lt.1 hend) (hwraps (not_not.1 hon) (Nat.not_le.1 hlpn))

end Lively

end Ftl

end FtlFirmware
