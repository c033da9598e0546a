import Mathlib
import Sccgub.Loop
import Sccgub.Runs
import Sccgub.Consensus.FinalityDepth

/-!
# The sequence of finality certificates

Every turn of the loop certifies the height after the finalized one and makes it the
finalized one.  So the certificates are those of the heights from one on, whatever the
depths asked for, wherever the tip goes and whichever blocks are known.  A turn starts at
or below the tip, and below the largest height the next one is one higher, so the loop
comes to its end.
-/

namespace Sccgub

open FixedWidth Loop Runs

namespace FinalityTracker

/-- One turn of the loop: the certificate goes on the list of the tracker and on the one
that is returned. -/
def pushNext (config : FinalityConfig) (blockHashAt : UInt64 → Option Hash)
    (p : FinalityTracker × List FinalityCertificate) :
    Option (FinalityTracker × List FinalityCertificate) :=
  let (self, newCerts) := p
  if saturatingAdd self.finalizedHeight config.confirmationDepth ≤ self.tipHeight then
    let targetHeight := saturatingAdd self.finalizedHeight 1
    (blockHashAt targetHeight).map fun blockHash =>
      let cert : FinalityCertificate :=
        { blockHash
          height := targetHeight
          confirmations := saturatingSub self.tipHeight targetHeight
          attestations := []
          finalizedAtMs := 0 }
      ({ self with certificates := self.certificates ++ [cert], finalizedHeight := targetHeight },
        newCerts ++ [cert])
  else none

/-- A check, with the certificates it returns. -/
def checkFinalityReturning (self : FinalityTracker) (config : FinalityConfig)
    (blockHashAt : UInt64 → Option Hash) : FinalityTracker × List FinalityCertificate :=
  run (pushNext config blockHashAt) (self.tipHeight.toNat - self.finalizedHeight.toNat + 1)
    (self, [])

/-- The tracker after a call, and what the call returns. -/
def call (self : FinalityTracker) : FinalityCall → FinalityTracker × List FinalityCertificate
  | .onNewBlock height => (self.onNewBlock height, [])
  | .checkFinality config blockHashAt => self.checkFinalityReturning config blockHashAt

def step (self : FinalityTracker) (c : FinalityCall) : FinalityTracker := (self.call c).1

/-- The certificates are those of the heights from one up to the finalized one. -/
structure Gapless (t : FinalityTracker) : Prop where
  heights : t.certificates.map (·.height.toNat) = List.range' 1 t.finalizedHeight.toNat
  count : t.certificates.length = t.finalizedHeight.toNat

variable {config : FinalityConfig} {blockHashAt : UInt64 → Option Hash}
  {p q : FinalityTracker × List FinalityCertificate}

theorem gapless_of_heights {t : FinalityTracker}
    (h : t.certificates.map (·.height.toNat) = List.range' 1 t.finalizedHeight.toNat) :
    t.Gapless := by
  refine ⟨h, ?_⟩
  have hlength := congrArg List.length h
  rwa [List.length_map, List.length_range'] at hlength

/-! ## The loop -/

/-- The returned list aside, a turn is one of `finalizeLoop`. -/
theorem map_fst_pushNext (p : FinalityTracker × List FinalityCertificate) :
    (pushNext config blockHashAt p).map Prod.fst = finalizeNext config blockHashAt p.1 := by
  unfold pushNext finalizeNext
  dsimp only
  split
  · rw [Option.map_map]
    rfl
  · rfl

theorem fst_run_pushNext (fuel : Nat) (p : FinalityTracker × List FinalityCertificate) :
    (run (pushNext config blockHashAt) fuel p).1 = finalizeLoop config blockHashAt fuel p.1 := by
  induction fuel generalizing p with
  | zero => rfl
  | succ fuel ih =>
      rw [run, finalizeLoop, ← map_fst_pushNext]
      rcases pushNext config blockHashAt p with _ | q
      · rfl
      · exact ih q

theorem fst_checkFinalityReturning (t : FinalityTracker) :
    (t.checkFinalityReturning config blockHashAt).1 = t.checkFinality config blockHashAt :=
  fst_run_pushNext _ _

/-- What a turn does below the largest height. -/
structure Pushed (p q : FinalityTracker × List FinalityCertificate)
    (cert : FinalityCertificate) : Prop where
  certificates : q.1.certificates = p.1.certificates ++ [cert]
  returned : q.2 = p.2 ++ [cert]
  height : cert.height = q.1.finalizedHeight
  next : q.1.finalizedHeight.toNat = p.1.finalizedHeight.toNat + 1
  tip : q.1.tipHeight = p.1.tipHeight
  below : p.1.finalizedHeight.toNat ≤ p.1.tipHeight.toNat

theorem pushNext_eq_some (htip : p.1.tipHeight.toNat < 2 ^ 64 - 1)
    (h : pushNext config blockHashAt p = some q) : ∃ cert, Pushed p q cert := by
  unfold pushNext at h
  dsimp only at h
  split at h
  · rename_i hdepth
    obtain ⟨blockHash, -, rfl⟩ := Option.map_eq_some_iff.mp h
    have hle := UInt64.le_iff_toNat_le.mp hdepth
    rw [toNat_saturatingAdd] at hle
    have hone : (1 : UInt64).toNat = 1 := rfl
    refine ⟨_, rfl, rfl, rfl, ?_, rfl, by omega⟩
    rw [toNat_saturatingAdd]
    omega
  · cases h

/-- What the loop keeps: the tip, the certificates before it, the height reached. -/
structure Since (t : FinalityTracker) (p : FinalityTracker × List FinalityCertificate) :
    Prop where
  tip : p.1.tipHeight = t.tipHeight
  appended : p.1.certificates = t.certificates ++ p.2
  grown : t.finalizedHeight.toNat ≤ p.1.finalizedHeight.toNat
  gapless : p.1.Gapless

theorem Since.pushed {t : FinalityTracker} {cert : FinalityCertificate} (h : Since t p)
    (hpushed : Pushed p q cert) : Since t q where
  tip := hpushed.tip.trans h.tip
  appended := by rw [hpushed.certificates, h.appended, hpushed.returned, List.append_assoc]
  grown := by
    rw [hpushed.next]
    exact h.grown.trans (Nat.le_succ _)
  gapless := by
    refine gapless_of_heights ?_
    rw [hpushed.certificates, List.map_append, h.gapless.heights, List.map_singleton,
      hpushed.height, hpushed.next, List.range'_1_concat, Nat.add_comm]

variable {t : FinalityTracker}

/-- The loop ends, in the state that the check leaves. -/
theorem ends_checkFinalityReturning (htip : t.tipHeight.toNat < 2 ^ 64 - 1) :
    Ends (pushNext config blockHashAt) (t, []) (t.checkFinalityReturning config blockHashAt) := by
  refine ends_run (I := fun p => p.1.tipHeight.toNat < 2 ^ 64 - 1)
    (m := fun p => p.1.tipHeight.toNat + 1 - p.1.finalizedHeight.toNat) ?_ htip ?_
  · intro p q hnext hp
    obtain ⟨cert, hpushed⟩ := pushNext_eq_some hp hnext
    have hheight := hpushed.next
    have hbelow := hpushed.below
    rw [hpushed.tip]
    exact ⟨hp, by omega⟩
  · dsimp only
    omega

theorem since_checkFinalityReturning (htip : t.tipHeight.toNat < 2 ^ 64 - 1) (h : t.Gapless) :
    Since t (t.checkFinalityReturning config blockHashAt) := by
  have hstart : Since t (t, []) := ⟨rfl, (List.append_nil _).symm, le_rfl, h⟩
  refine (ends_checkFinalityReturning htip).keeps (I := Since t) (fun p q hnext hp => ?_) hstart
  have hbelow : p.1.tipHeight.toNat < 2 ^ 64 - 1 := hp.tip ▸ htip
  obtain ⟨cert, hpushed⟩ := pushNext_eq_some hbelow hnext
  exact hp.pushed hpushed

/-! ## Runs -/

/-- The loop of a check ends in one state, the finalized height does not fall, and what is
returned is what was appended. -/
structure Settles (t : FinalityTracker) (c : FinalityCall) : Prop where
  terminates : ∀ config blockHashAt, c = .checkFinality config blockHashAt →
    ∀ p, Ends (pushNext config blockHashAt) (t, []) p ↔ p = t.call c
  monotone : t.finalizedHeight ≤ (t.step c).finalizedHeight
  appended : (t.step c).certificates = t.certificates ++ (t.call c).2

/-- A block below the largest height. -/
def BelowMax : FinalityCall → Prop
  | .onNewBlock height => height.toNat < 2 ^ 64 - 1
  | .checkFinality _ _ => True

structure Sound (t : FinalityTracker) : Prop where
  gapless : t.Gapless
  tip : t.tipHeight.toNat < 2 ^ 64 - 1

theorem Sound.step {c : FinalityCall} (h : t.Sound) (hc : BelowMax c) :
    (t.step c).Sound ∧ t.Settles c := by
  cases c with
  | onNewBlock height =>
      refine ⟨⟨⟨h.gapless.heights, h.gapless.count⟩, hc⟩, ?_, ?_, ?_⟩
      · rintro config blockHashAt ⟨⟩
      · exact UInt64.le_refl _
      · exact (List.append_nil _).symm
  | checkFinality config blockHashAt =>
      have hsince : Since t (t.checkFinalityReturning config blockHashAt) :=
        since_checkFinalityReturning h.tip h.gapless
      refine ⟨⟨hsince.gapless, hsince.tip ▸ h.tip⟩, ?_, ?_, hsince.appended⟩
      · rintro _ _ ⟨⟩ p
        have hends : Ends (pushNext config blockHashAt) (t, [])
          (t.checkFinalityReturning config blockHashAt) := ends_checkFinalityReturning h.tip
        refine ⟨fun hp => hp.unique hends, ?_⟩
        rintro rfl
        exact hends
      · exact UInt64.le_iff_toNat_le.mpr hsince.grown

/-- From a new tracker every call settles, and in every state the certificates are those of
the heights one, two and so on. -/
theorem certificates_gapless (calls : List FinalityCall) (h : ∀ c ∈ calls, BelowMax c) :
    Throughout step Gapless {} calls ∧ Along step Settles {} calls := by
  have hstart : Sound {} := ⟨gapless_of_heights rfl, by decide⟩
  have hbelow : Along step (fun _ c => BelowMax c) {} calls := along_of_forall h
  constructor
  · exact (throughout_of_along (fun _ _ hs hc => (hs.step hc).1) hstart hbelow).mono
      fun _ => Sound.gapless
  · exact along_of_invariant (fun _ _ hs hc => (hs.step hc).1) (fun _ _ hs hc => (hs.step hc).2)
      hstart hbelow

/-- The five blocks, then a tip that goes back and comes forward again. -/
theorem certificates_gapless_reorg :
    Throughout step Gapless {} (fiveBlocks ++ [.onNewBlock 2, .checkFinality {} fun _ => none])
      ∧ Along step Settles {} (fiveBlocks ++ [.onNewBlock 2, .checkFinality {} fun _ => none]) := by
  refine certificates_gapless _ ?_
  intro c hc
  simp only [fiveBlocks, List.cons_append, List.nil_append, List.mem_cons, List.not_mem_nil,
    or_false] at hc
  rcases hc with rfl | rfl | rfl | rfl | rfl | rfl | rfl | rfl
  all_goals
    unfold BelowMax
    decide

end FinalityTracker

end Sccgub
