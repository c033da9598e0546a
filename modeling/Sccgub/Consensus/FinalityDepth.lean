import Mathlib
import Sccgub.Consensus.Finality

/-!
# How deep a final block lies

The loop compares the height finalized so far, not the one it is about to
finalize, with the tip.  The depth therefore counts the block itself: at depth
one the tip is final, at depth two one block stands above.
-/

namespace Sccgub

open FixedWidth

/-- The two calls a node makes. -/
inductive FinalityCall where
  | onNewBlock (height : UInt64)
  | checkFinality (config : FinalityConfig) (blockHashAt : UInt64 → Option Hash)

/-- A certificate, with the depth that was asked for and the tip it was given under. -/
structure Emission where
  config : FinalityConfig
  tipHeight : UInt64
  certificate : FinalityCertificate
  deriving DecidableEq

namespace FinalityTracker

/-- What a check returns: the certificates it has put on the list. -/
def newCertificates (tracker : FinalityTracker) (config : FinalityConfig)
    (blockHashAt : UInt64 → Option Hash) : List FinalityCertificate :=
  (tracker.checkFinality config blockHashAt).certificates.drop tracker.certificates.length

/-- Every certificate of a run of calls. -/
def emissions (tracker : FinalityTracker) : List FinalityCall → List Emission
  | [] => []
  | .onNewBlock height :: calls => emissions (tracker.onNewBlock height) calls
  | .checkFinality config blockHashAt :: calls =>
      (tracker.newCertificates config blockHashAt).map (⟨config, tracker.tipHeight, ·⟩)
        ++ emissions (tracker.checkFinality config blockHashAt) calls

/-- The block is as deep as asked, if it is counted in. -/
structure Deep (config : FinalityConfig) (tipHeight : UInt64) (certificate : FinalityCertificate) :
    Prop where
  above : certificate.confirmations.toNat = tipHeight.toNat - certificate.height.toNat
  deep : config.confirmationDepth.toNat ≤ certificate.confirmations.toNat + 1

variable {config : FinalityConfig} {blockHashAt : UInt64 → Option Hash}

theorem certificates_finalizeNext {tracker next : FinalityTracker}
    (htip : tracker.tipHeight.toNat < 2 ^ 64 - 1)
    (h : finalizeNext config blockHashAt tracker = some next) :
    ∃ certificate, next.certificates = tracker.certificates ++ [certificate]
      ∧ Deep config tracker.tipHeight certificate := by
  obtain ⟨hdepth, -, -⟩ := finalizeNext_eq_some h
  unfold finalizeNext at h
  rw [if_pos hdepth] at h
  dsimp only at h
  obtain ⟨blockHash, -, rfl⟩ := Option.map_eq_some_iff.mp h
  have hle := UInt64.le_iff_toNat_le.mp hdepth
  rw [toNat_saturatingAdd] at hle
  have hone : (1 : UInt64).toNat = 1 := rfl
  refine ⟨_, rfl, ?_, ?_⟩
  · exact toNat_saturatingSub _ _
  · rw [toNat_saturatingSub, toNat_saturatingAdd]
    omega

theorem certificates_finalizeLoop (fuel : Nat) (tracker : FinalityTracker)
    (htip : tracker.tipHeight.toNat < 2 ^ 64 - 1) :
    ∃ certificates,
      (finalizeLoop config blockHashAt fuel tracker).certificates
        = tracker.certificates ++ certificates
      ∧ ∀ certificate ∈ certificates, Deep config tracker.tipHeight certificate := by
  induction fuel generalizing tracker with
  | zero => exact ⟨[], (List.append_nil _).symm, by simp⟩
  | succ fuel ih =>
      rw [finalizeLoop]
      rcases hnext : finalizeNext config blockHashAt tracker with _ | next
      · exact ⟨[], (List.append_nil _).symm, by simp⟩
      · obtain ⟨-, -, htip'⟩ := finalizeNext_eq_some hnext
        obtain ⟨certificate, hcertificates, hdeep⟩ := certificates_finalizeNext htip hnext
        obtain ⟨rest, hrest, hrestDeep⟩ := ih next (htip' ▸ htip)
        refine ⟨certificate :: rest, ?_, ?_⟩
        · dsimp only
          rw [hrest, hcertificates, List.append_assoc, List.singleton_append]
        · intro c hc
          rcases List.mem_cons.mp hc with rfl | hc
          · exact hdeep
          · exact htip' ▸ hrestDeep c hc

theorem deep_of_mem_newCertificates {tracker : FinalityTracker}
    (htip : tracker.tipHeight.toNat < 2 ^ 64 - 1) {certificate : FinalityCertificate}
    (h : certificate ∈ tracker.newCertificates config blockHashAt) :
    Deep config tracker.tipHeight certificate := by
  obtain ⟨certificates, hcertificates, hdeep⟩ :=
    certificates_finalizeLoop (tracker.tipHeight.toNat - tracker.finalizedHeight.toNat + 1)
      tracker htip
  unfold newCertificates checkFinality at h
  rw [hcertificates, List.drop_left] at h
  exact hdeep certificate h

/-- In every run, whatever the depths asked for on the way, a final block has at
least one block less above it than the depth says. -/
theorem deep_of_mem_emissions (tracker : FinalityTracker) (calls : List FinalityCall) :
    ∀ emission ∈ tracker.emissions calls, 1 ≤ emission.config.confirmationDepth →
      emission.tipHeight.toNat < 2 ^ 64 - 1 →
      emission.certificate.confirmations.toNat
          = emission.tipHeight.toNat - emission.certificate.height.toNat
        ∧ emission.config.confirmationDepth.toNat
          ≤ emission.certificate.confirmations.toNat + 1 := by
  intro emission hmem hpos htip
  induction calls generalizing tracker with
  | nil => cases hmem
  | cons call calls ih =>
      cases call with
      | onNewBlock height => exact ih _ hmem
      | checkFinality config blockHashAt =>
          rcases List.mem_append.mp hmem with hnew | hlater
          · obtain ⟨certificate, hcertificate, rfl⟩ := List.mem_map.mp hnew
            obtain ⟨habove, hdeep⟩ := deep_of_mem_newCertificates htip hcertificate
            exact ⟨habove, hdeep⟩
          · exact ih _ hlater

/-- A new tracker at depth two, told of five blocks. -/
def fiveBlocks : List FinalityCall :=
  [.onNewBlock 1, .onNewBlock 2, .onNewBlock 3, .onNewBlock 4, .onNewBlock 5,
    .checkFinality {} fun _ => some (.ofByte 0)]

/-- Block four is final with one block above it. -/
def fourthEmission : Emission where
  config := {}
  tipHeight := 5
  certificate := ⟨.ofByte 0, 4, 1, [], 0⟩

theorem deep_fourthEmission :
    fourthEmission.certificate.confirmations.toNat
        = fourthEmission.tipHeight.toNat - fourthEmission.certificate.height.toNat
      ∧ fourthEmission.config.confirmationDepth.toNat
        ≤ fourthEmission.certificate.confirmations.toNat + 1 :=
  deep_of_mem_emissions {} fiveBlocks fourthEmission (by decide +kernel) (by decide) (by decide)

theorem shallow_fourthEmission :
    ¬ ∀ emission ∈ emissions {} fiveBlocks, 1 ≤ emission.config.confirmationDepth →
      emission.config.confirmationDepth ≤ emission.certificate.confirmations := by
  decide +kernel

end FinalityTracker

end Sccgub
