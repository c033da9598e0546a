import Mathlib
import Sccgub.Types.Layouts

/-!
# Bytes that are no encoding

What the decoders of the parameters and the ceilings take from a byte string of
any length.  In these layouts every string of the right length is an encoding,
and a decoder ignores what comes after it: the layouts are tried from the
longest on, so the one that is read is the longest the bytes suffice for.

Only the length keeps the layouts apart.  A record that was cut to the length
of an older layout is a record in this layout.
-/

namespace Bincode

namespace Codec

variable {α β : Type} {c : Codec α} {d : Codec β} {m n : Nat}

/-- A layout that leaves no byte string of its length unused: it is decoded, and was written. -/
def Fills (c : Codec α) (n : Nat) : Prop :=
  ∀ bs : Bytes, n ≤ bs.length → ∃ a, c.dec bs = some (a, bs.drop n) ∧ c.enc a = bs.take n

theorem fills_word {w : Nat} {ofNat : Nat → β} {toNat : β → Nat} {h : ∀ b, ofNat (toNat b) = b}
    (hof : ∀ k < 256 ^ w, toNat (ofNat k) = k) : (word w ofNat toNat h).Fills w := by
  intro bs hlen
  have hwidth : (bs.take w).length = w := List.length_take_of_le hlen
  have hlt : ofLeBytes (bs.take w) < 256 ^ w := by
    conv_rhs => rw [← hwidth]
    exact ofLeBytes_lt _
  have hback := leBytes_ofLeBytes (bs.take w)
  rw [hwidth] at hback
  refine ⟨ofNat (ofLeBytes (bs.take w)), ?_, ?_⟩
  · simp [word, refine, nat, hlen]
  · rw [word_enc, hof _ hlt, hback]

theorem fills_u32 : u32.Fills 4 := fills_word fun _ hk => UInt32.toNat_ofNat_of_lt hk

theorem fills_u64 : u64.Fills 8 := fills_word fun _ hk => UInt64.toNat_ofNat_of_lt hk

theorem Fills.pair (hc : c.Fills m) (hd : d.Fills n) : (c.pair d).Fills (m + n) := by
  intro bs hlen
  obtain ⟨a, hdec, henc⟩ := hc bs (by omega)
  obtain ⟨b, hdec', henc'⟩ := hd (bs.drop m) (by rw [List.length_drop]; omega)
  refine ⟨(a, b), ?_, ?_⟩
  · simp [Codec.pair, hdec, hdec']
  · rw [pair_enc, henc, henc', List.take_add]

theorem Fills.iso (hc : c.Fills n) {f : α → β} {g : β → α} (hfg : ∀ b, f (g b) = b)
    (hgf : ∀ a, g (f a) = a) : (c.iso f g hfg hgf).Fills n := by
  intro bs hlen
  obtain ⟨a, hdec, henc⟩ := hc bs hlen
  refine ⟨f a, ?_, ?_⟩
  · simp [Codec.iso, refine, hdec]
  · rw [iso_enc, hgf, henc]

/-- Bytes enough are read, whatever they are. -/
theorem Fills.ofBytes (hc : c.Fills n) {bs : Bytes} (h : n ≤ bs.length) :
    ∃ a, c.ofBytes bs = some a ∧ c.enc a = bs.take n := by
  obtain ⟨a, hdec, henc⟩ := hc bs h
  exact ⟨a, by rw [Codec.ofBytes, hdec, Option.map_some], henc⟩

end Codec

/-- The record a byte string begins with, of those it has the bytes for the longest. -/
structure Begins {σ : Type} (bytes : σ → Bytes) (stored : σ) (b : Bytes) : Prop where
  start : bytes stored <+: b
  longest : ∀ other, (bytes other).length ≤ b.length →
    (bytes other).length ≤ (bytes stored).length

section

variable {σ α : Type} {bytes : σ → Bytes} {b : Bytes}

/-- What is read in a layout that no longer one has the bytes for. -/
theorem begins_of_fills {c : Codec α} {n : Nat} {mk : α → σ} (hc : c.Fills n)
    (hbytes : ∀ a, bytes (mk a) = c.enc a) (h : n ≤ b.length)
    (hlongest : ∀ other, (bytes other).length ≤ b.length → (bytes other).length ≤ n) :
    ∃ a, c.ofBytes b = some a ∧ Begins bytes (mk a) b := by
  obtain ⟨a, hread, henc⟩ := hc.ofBytes h
  have htake : bytes (mk a) = b.take n := (hbytes a).trans henc
  refine ⟨a, hread, ?_, fun other hother => ?_⟩
  · rw [htake]
    exact List.take_prefix n b
  · rw [htake, List.length_take_of_le h]
    exact hlongest other hother

end

end Bincode

namespace Sccgub

open Bincode FixedWidth

open Codec (fills_u32 fills_u64)

theorem fills_i64 : i64Codec.Fills 8 := fills_u64.iso _ _

theorem fills_i128 : I128.codec.Fills 16 := Codec.fills_word fun _ hk => I128.toBits_ofBits hk

/-! ## Consensus parameters -/

theorem LegacyConsensusParamsV1.fills : LegacyConsensusParamsV1.codec.Fills 120 :=
  (fills_u32.pair <| fills_u32.pair <| fills_u64.pair <| fills_u64.pair <| fills_u64.pair <|
    fills_u64.pair <| fills_u64.pair <| fills_u64.pair <| fills_u64.pair <| fills_u64.pair <|
    fills_u64.pair <| fills_u64.pair <| fills_u64.pair <| fills_u64.pair <| fills_u64.pair <|
    fills_u32.pair fills_u32).iso _ _

theorem LegacyConsensusParamsV2.fills : LegacyConsensusParamsV2.codec.Fills 140 :=
  (fills_u32.pair <| fills_u32.pair <| fills_u64.pair <| fills_u32.pair <| fills_u64.pair <|
    fills_u64.pair <| fills_u64.pair <| fills_u64.pair <| fills_u64.pair <| fills_u64.pair <|
    fills_u64.pair <| fills_u64.pair <| fills_u64.pair <| fills_u64.pair <| fills_u64.pair <|
    fills_u64.pair <| fills_u64.pair <| fills_u32.pair <| fills_u32.pair fills_i64).iso _ _

theorem LegacyConsensusParamsV3.fills : LegacyConsensusParamsV3.codec.Fills 164 :=
  (LegacyConsensusParamsV2.fills.pair <| fills_u32.pair <| fills_u32.pair <| fills_u32.pair <|
    fills_u32.pair <| fills_u32.pair fills_u32).iso _ _

theorem LegacyConsensusParamsV4.fills : LegacyConsensusParamsV4.codec.Fills 196 :=
  (LegacyConsensusParamsV3.fills.pair <| fills_u32.pair <| fills_i128.pair <| fills_u64.pair
    fills_u32).iso _ _

theorem ConsensusParams.fills : ConsensusParams.codec.Fills 200 :=
  (LegacyConsensusParamsV4.fills.pair fills_u32).iso _ _

namespace StoredParams

theorem length_cases (stored : StoredParams) : stored.bytes.length = 120
    ∨ stored.bytes.length = 140 ∨ stored.bytes.length = 164 ∨ stored.bytes.length = 196
    ∨ stored.bytes.length = 200 := by
  cases stored with
  | v1 v => exact Or.inl (LegacyConsensusParamsV1.takes.length_enc v.codec_fits.2)
  | v2 v => exact Or.inr (Or.inl (LegacyConsensusParamsV2.takes.length_enc v.codec_fits.2))
  | v3 v => exact Or.inr (Or.inr (Or.inl (LegacyConsensusParamsV3.takes.length_enc v.codec_fits.2)))
  | v4 v =>
      exact Or.inr (Or.inr (Or.inr (Or.inl
        (LegacyConsensusParamsV4.takes.length_enc v.codec_fits.2))))
  | current p =>
      exact Or.inr (Or.inr (Or.inr (Or.inr (ConsensusParams.takes.length_enc p.codec_fits.2))))

/-- Bytes too few for any layout are not read; all others are, by what they begin with. -/
theorem decode_cases (b : Bytes) :
    ConsensusParams.decode b = none
      ∨ ∃ stored, Begins bytes stored b
        ∧ ConsensusParams.decode b = some stored.overDefaults := by
  have hlengths := length_cases
  unfold ConsensusParams.decode
  by_cases h5 : 200 ≤ b.length
  · obtain ⟨p, hread, hbegins⟩ := @begins_of_fills _ _ bytes b _ _ current ConsensusParams.fills
      (fun _ => rfl) h5 (by grind)
    exact Or.inr ⟨_, hbegins, by rw [hread]; rfl⟩
  rw [ConsensusParams.takes.ofBytes_eq_none (by omega)]
  by_cases h4 : 196 ≤ b.length
  · obtain ⟨v, hread, hbegins⟩ := @begins_of_fills _ _ bytes b _ _ v4 LegacyConsensusParamsV4.fills
      (fun _ => rfl) h4 (by grind)
    exact Or.inr ⟨_, hbegins, by rw [hread]; rfl⟩
  rw [LegacyConsensusParamsV4.takes.ofBytes_eq_none (by omega)]
  by_cases h3 : 164 ≤ b.length
  · obtain ⟨v, hread, hbegins⟩ := @begins_of_fills _ _ bytes b _ _ v3 LegacyConsensusParamsV3.fills
      (fun _ => rfl) h3 (by grind)
    exact Or.inr ⟨_, hbegins, by rw [hread]; rfl⟩
  rw [LegacyConsensusParamsV3.takes.ofBytes_eq_none (by omega)]
  by_cases h2 : 140 ≤ b.length
  · obtain ⟨v, hread, hbegins⟩ := @begins_of_fills _ _ bytes b _ _ v2 LegacyConsensusParamsV2.fills
      (fun _ => rfl) h2 (by grind)
    exact Or.inr ⟨_, hbegins, by rw [hread]; rfl⟩
  rw [LegacyConsensusParamsV2.takes.ofBytes_eq_none (by omega)]
  by_cases h1 : 120 ≤ b.length
  · obtain ⟨v, hread, hbegins⟩ := @begins_of_fills _ _ bytes b _ _ v1 LegacyConsensusParamsV1.fills
      (fun _ => rfl) h1 (by grind)
    exact Or.inr ⟨_, hbegins, by rw [hread]; rfl⟩
  rw [LegacyConsensusParamsV1.takes.ofBytes_eq_none (by omega)]
  exact Or.inl rfl

/-- Reading is decoding and the check of the bounds. -/
theorem fromCanonicalBytes_eq_ok_iff {b : Bytes} {p : ConsensusParams} :
    ConsensusParams.fromCanonicalBytes b = .ok p
      ↔ ConsensusParams.decode b = some p ∧ p.validate = .ok () := by
  rw [ConsensusParams.fromCanonicalBytes]
  rcases ConsensusParams.decode b with _ | q
  · constructor
    · rintro ⟨⟩
    · rintro ⟨⟨⟩, -⟩
  · rcases hvalid : q.validate with e | u
    · simp only [hvalid]
      constructor
      · rintro ⟨⟩
      · rintro ⟨heq, hp⟩
        rw [← Option.some_inj.mp heq, hvalid] at hp
        cases hp
    · simp only [hvalid]
      constructor
      · intro h
        cases h
        exact ⟨rfl, hvalid⟩
      · rintro ⟨heq, -⟩
        cases heq
        rfl

end StoredParams

/-! ## Constitutional ceilings -/

theorem LegacyConstitutionalCeilingsV1.fills : LegacyConstitutionalCeilingsV1.codec.Fills 100 :=
  (fills_u32.pair <| fills_u64.pair <| fills_u64.pair <| fills_u64.pair <| fills_u32.pair <|
    fills_u32.pair <| fills_i64.pair <| fills_u32.pair <| fills_u32.pair <| fills_u32.pair <|
    fills_u32.pair <| fills_u32.pair <| fills_u32.pair <| fills_i128.pair <| fills_u32.pair <|
    fills_u64.pair fills_u32).iso _ _

theorem LegacyConstitutionalCeilingsV2.fills : LegacyConstitutionalCeilingsV2.codec.Fills 116 :=
  (LegacyConstitutionalCeilingsV1.fills.pair fills_i128).iso _ _

theorem ConstitutionalCeilings.fills : ConstitutionalCeilings.codec.Fills 120 :=
  (LegacyConstitutionalCeilingsV2.fills.pair fills_u32).iso _ _

namespace StoredCeilings

theorem length_cases (stored : StoredCeilings) : stored.bytes.length = 68
    ∨ stored.bytes.length = 100 ∨ stored.bytes.length = 116 ∨ stored.bytes.length = 120 := by
  cases stored with
  | patch04 c => exact Or.inl (Patch04ConstitutionalCeilings.takes.length_enc c.codec_fits.2)
  | v1 c => exact Or.inr (Or.inl (LegacyConstitutionalCeilingsV1.takes.length_enc c.codec_fits.2))
  | v2 c =>
      exact Or.inr (Or.inr (Or.inl
        (LegacyConstitutionalCeilingsV2.takes.length_enc c.codec_fits.2)))
  | current c =>
      exact Or.inr (Or.inr (Or.inr (ConstitutionalCeilings.takes.length_enc c.codec_fits.2)))

theorem fromCanonicalBytes_cases (b : Bytes) :
    (∃ e, ConstitutionalCeilings.fromCanonicalBytes b = .error e)
      ∨ ∃ stored, ¬ stored.IsPatch04 ∧ Begins bytes stored b
        ∧ ConstitutionalCeilings.fromCanonicalBytes b = .ok stored.overDefaults := by
  have hlengths := length_cases
  unfold ConstitutionalCeilings.fromCanonicalBytes
  by_cases h3 : 120 ≤ b.length
  · obtain ⟨c, hread, hbegins⟩ := @begins_of_fills _ _ bytes b _ _ current
      ConstitutionalCeilings.fills (fun _ => rfl) h3 (by grind)
    exact Or.inr ⟨current c, fun h => h, hbegins, by rw [hread]; rfl⟩
  rw [ConstitutionalCeilings.takes.ofBytes_eq_none (by omega)]
  by_cases h2 : 116 ≤ b.length
  · obtain ⟨c, hread, hbegins⟩ := @begins_of_fills _ _ bytes b _ _ v2
      LegacyConstitutionalCeilingsV2.fills (fun _ => rfl) h2 (by grind)
    exact Or.inr ⟨v2 c, fun h => h, hbegins, by rw [hread]; rfl⟩
  rw [LegacyConstitutionalCeilingsV2.takes.ofBytes_eq_none (by omega)]
  by_cases h1 : 100 ≤ b.length
  · obtain ⟨c, hread, hbegins⟩ := @begins_of_fills _ _ bytes b _ _ v1
      LegacyConstitutionalCeilingsV1.fills (fun _ => rfl) h1 (by grind)
    exact Or.inr ⟨v1 c, fun h => h, hbegins, by rw [hread]; rfl⟩
  rw [LegacyConstitutionalCeilingsV1.takes.ofBytes_eq_none (by omega)]
  exact Or.inl ⟨_, rfl⟩

end StoredCeilings

/-! ## All byte strings -/

/-- Only records are read, and no piece of a current record, nor one with bytes after it. -/
structure OnlyCanonical (b : Bytes) : Prop where
  params : ∀ p, ConsensusParams.fromCanonicalBytes b = .ok p → ∃ stored : StoredParams,
    stored.bytes = b
  ceilings : ∀ c, ConstitutionalCeilings.fromCanonicalBytes b = .ok c →
    ∃ stored : StoredCeilings, ¬ stored.IsPatch04 ∧ stored.bytes = b
  wholeParams : ∀ p : ConsensusParams, p.toCanonicalBytes ≠ b →
    b <+: p.toCanonicalBytes ∨ p.toCanonicalBytes <+: b →
    ∀ q, ConsensusParams.fromCanonicalBytes b ≠ .ok q
  wholeCeilings : ∀ c : ConstitutionalCeilings, c.toCanonicalBytes ≠ b →
    b <+: c.toCanonicalBytes ∨ c.toCanonicalBytes <+: b →
    ∀ q, ConstitutionalCeilings.fromCanonicalBytes b ≠ .ok q

theorem truncated_params :
    ConsensusParams.fromCanonicalBytes (({} : ConsensusParams).toCanonicalBytes.take 196) = .ok {}
      ∧ (({} : ConsensusParams).toCanonicalBytes.take 196).length
        ≠ ({} : ConsensusParams).toCanonicalBytes.length := by
  decide +kernel

/-- The defaults without their last field are read as an older record. -/
theorem truncated_read_as_older :
    ¬ OnlyCanonical (({} : ConsensusParams).toCanonicalBytes.take 196) := by
  intro h
  obtain ⟨hread, hshorter⟩ := truncated_params
  refine h.wholeParams {} (fun heq => hshorter ?_) (Or.inl (List.take_prefix _ _)) _ hread
  conv_rhs => rw [heq]

/-- What is read is what the bytes begin with, in the longest layout they suffice for; a
record, current or older, is read as itself; and what comes after a current record does not
change what is read. -/
theorem fromCanonicalBytes_canonical (b : Bytes) :
    (∀ p, ConsensusParams.fromCanonicalBytes b = .ok p → p.validate = .ok ()
      ∧ ∃ stored, Begins StoredParams.bytes stored b ∧ stored.overDefaults = p)
    ∧ (∀ c, ConstitutionalCeilings.fromCanonicalBytes b = .ok c → ∃ stored, ¬ stored.IsPatch04
      ∧ Begins StoredCeilings.bytes stored b ∧ stored.overDefaults = c)
    ∧ (∀ stored : StoredParams, stored.bytes = b → ∀ p,
      ConsensusParams.fromCanonicalBytes b = .ok p
        ↔ stored.overDefaults = p ∧ p.validate = .ok ())
    ∧ (∀ stored : StoredCeilings, ¬ stored.IsPatch04 → stored.bytes = b →
      ConstitutionalCeilings.fromCanonicalBytes b = .ok stored.overDefaults)
    ∧ (∀ p q : ConsensusParams, p.toCanonicalBytes <+: b →
      ConsensusParams.fromCanonicalBytes b = .ok q → q = p)
    ∧ ∀ c q : ConstitutionalCeilings, c.toCanonicalBytes <+: b →
      ConstitutionalCeilings.fromCanonicalBytes b = .ok q → q = c := by
  refine ⟨?_, ?_, ?_, ?_, ?_, ?_⟩
  · intro p h
    obtain ⟨hread, hvalid⟩ := StoredParams.fromCanonicalBytes_eq_ok_iff.mp h
    rcases StoredParams.decode_cases b with hnone | ⟨stored, hbegins, hstored⟩
    · rw [hnone] at hread
      cases hread
    · rw [hstored] at hread
      exact ⟨hvalid, stored, hbegins, Option.some_inj.mp hread⟩
  · intro c h
    rcases StoredCeilings.fromCanonicalBytes_cases b with ⟨e, he⟩ | ⟨stored, hlayout, hbegins, hread⟩
    · rw [he] at h
      cases h
    · rw [hread] at h
      exact ⟨stored, hlayout, hbegins, Except.ok.inj h⟩
  · rintro stored rfl p
    rw [StoredParams.fromCanonicalBytes_eq_ok_iff, stored.decode_bytes, Option.some_inj]
  · rintro stored hlayout rfl
    exact stored.fromCanonicalBytes_bytes_iff.mpr hlayout
  · rintro p q ⟨surplus, rfl⟩ h
    obtain ⟨hread, -⟩ := StoredParams.fromCanonicalBytes_eq_ok_iff.mp h
    have hcurrent : ConsensusParams.codec.ofBytes (p.toCanonicalBytes ++ surplus) = some p := by
      rw [Codec.ofBytes, ConsensusParams.toCanonicalBytes,
        ConsensusParams.codec.dec_enc surplus p.codec_fits.1 p.codec_fits.2, Option.map_some]
    rw [ConsensusParams.decode, hcurrent] at hread
    exact (Option.some_inj.mp hread).symm
  · rintro c q ⟨surplus, rfl⟩ h
    have hcurrent : ConstitutionalCeilings.codec.ofBytes (c.toCanonicalBytes ++ surplus)
        = some c := by
      rw [Codec.ofBytes, ConstitutionalCeilings.toCanonicalBytes,
        ConstitutionalCeilings.codec.dec_enc surplus c.codec_fits.1 c.codec_fits.2, Option.map_some]
    rw [ConstitutionalCeilings.fromCanonicalBytes, hcurrent] at h
    exact (Except.ok.inj h).symm

end Sccgub
