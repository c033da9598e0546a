import Mathlib
import Sccgub.Execution.Receipts
import Sccgub.Node.SignedEffect
import Sccgub.Node.Steps
import Sccgub.State.Commitment

/-!
# What a header fixes of the body

A header has a root over the ids of the transitions and one over the encoded
receipts.  So two accepted blocks under one header carry the same ids in the same
order and the same receipts; and where the ids are the digests of the canonical
bytes, their transitions agree in everything these bytes cover.

The rest is under no root: the signatures, the actors but for their ids, the
changes to the validator set and the evidence for them.
-/

namespace Sccgub

open Bincode

section

variable [Crypto]

/-! ## Roots over byte strings -/

def itemMessage (item : Bytes) : Bytes := concatParts [leBytes 8 item.length, item]

/-- For the root of some byte strings. -/
def hashedForItems (items : List Bytes) : List Bytes :=
  items.map itemMessage ++ hashedForRoot (items.map fun item => blake3Hash (itemMessage item))

theorem merkleRootOfBytes_inj {items items' messages : List Bytes} (hsound : HashSound messages)
    (hmem : ∀ m ∈ hashedForItems items, m ∈ messages)
    (hmem' : ∀ m ∈ hashedForItems items', m ∈ messages)
    (hfit : ∀ item ∈ items, item.length < 2 ^ 64) (hfit' : ∀ item ∈ items', item.length < 2 ^ 64)
    (h : merkleRootOfBytes items = merkleRootOfBytes items') : items = items' := by
  have hleaves := leaves_eq_of_computeMerkleRoot hsound.free hsound.ne_zero
    (fun m hm => hmem m (List.mem_append_right _ hm))
    (fun m hm => hmem' m (List.mem_append_right _ hm)) h
  refine eq_of_map_eq hleaves fun item hitem item' hitem' heq => ?_
  have hmessage : itemMessage item = itemMessage item' :=
    hsound.free (hmem _ (List.mem_append_left _ (List.mem_map_of_mem hitem)))
      (hmem' _ (List.mem_append_left _ (List.mem_map_of_mem hitem'))) heq
  have hparts := concatParts_inj (by simpa using hfit item hitem)
    (by simpa using hfit' item' hitem') hmessage
  exact (List.cons.inj (List.cons.inj hparts).2).1

/-- The root of no items is zero already. -/
theorem sectionRoot_eq (items : List Bytes) : sectionRoot items = merkleRootOfBytes items := by
  cases items with
  | nil => rfl
  | cons item items => rfl

/-! ## Transitions by their ids -/

/-- The id is the digest of the canonical bytes. -/
def SymbolicTransition.Named (tx : SymbolicTransition) : Prop :=
  tx.txId = blake3Hash (canonicalTxBytes tx)

/-- The canonical bytes and what their digests are taken of. -/
def canonicalMessages (tx : SymbolicTransition) : List Bytes :=
  canonicalTxBytes tx :: canonicalBytes Constraint.codec.list tx.preconditions
    :: canonicalBytes Constraint.codec.list tx.postconditions
    :: canonicalBytes (Codec.bytes 32).list tx.causalChain :: hashedMessages tx

/-- The part of a transition that its canonical bytes cover. -/
structure SameContent (t t' : SymbolicTransition) : Prop extends SameBody t t' where
  preconditions : t'.preconditions = t.preconditions
  postconditions : t'.postconditions = t.postconditions
  causalChain : t'.causalChain = t.causalChain

theorem sameContent_of_named {state : ManagedWorldState} {t t' : SymbolicTransition}
    {messages : List Bytes} (h : PassesPhases t state) (h' : PassesPhases t' state)
    (hfit : SymbolicTransition.codec.Fits t) (hfit' : SymbolicTransition.codec.Fits t')
    (hsound : HashSound messages) (hmem : ∀ m ∈ canonicalMessages t, m ∈ messages)
    (hmem' : ∀ m ∈ canonicalMessages t', m ∈ messages) (hnamed : t.Named) (hnamed' : t'.Named)
    (hid : t'.txId = t.txId) : SameContent t t' := by
  have hbytes : canonicalTxBytes t' = canonicalTxBytes t := by
    refine hsound.free (hmem' _ List.mem_cons_self) (hmem _ List.mem_cons_self) ?_
    exact (hnamed'.symm.trans hid).trans hnamed
  have hrest : ∀ m ∈ hashedMessages t ++ hashedMessages t', m ∈ messages := by
    intro m hm
    rcases List.mem_append.mp hm with hm | hm
    · exact hmem m (by simp [canonicalMessages, hm])
    · exact hmem' m (by simp [canonicalMessages, hm])
  have hbody := sameBody_of_signed h h' hfit hfit' (hsound.subset hrest) hid hbytes
  obtain ⟨_, _, _, _, _, hpre, hpost, _, hcausal⟩ := signedTuple_inj h.target_lt h'.target_lt hbytes
  obtain ⟨_, _, _, hfitPre, hfitPost, _, hfitCausal, _⟩ := hfit
  obtain ⟨_, _, _, hfitPre', hfitPost', _, hfitCausal', _⟩ := hfit'
  exact { hbody with
    preconditions := hsound.eq_of_digest hfitPre' hfitPre (by simp) (by simp)
      (hmem' _ (by simp [canonicalMessages])) (hmem _ (by simp [canonicalMessages])) hpre
    postconditions := hsound.eq_of_digest hfitPost' hfitPost (by simp) (by simp)
      (hmem' _ (by simp [canonicalMessages])) (hmem _ (by simp [canonicalMessages])) hpost
    causalChain := hsound.eq_of_digest hfitCausal' hfitCausal (by simp) (by simp)
      (hmem' _ (by simp [canonicalMessages])) (hmem _ (by simp [canonicalMessages])) hcausal }

/-! ## Blocks under one header -/

/-- Two blocks with one header and one proof, both signed and both accepted. -/
structure Twins (state : ManagedWorldState) (parentId : Hash) (block other : Block) : Prop where
  header : other.header = block.header
  proof : other.proof = block.proof
  signed : verifyProducerSignature block = .ok ()
  signed_other : verifyProducerSignature other = .ok ()
  valid : validateCpog block state parentId = .valid
  valid_other : validateCpog other state parentId = .valid

/-- No longer than vectors can be. -/
structure Block.Storable (block : Block) : Prop where
  transitions : ∀ tx ∈ block.body.transitions, SymbolicTransition.codec.Fits tx
  receipts : ∀ r ∈ block.receipts, CausalReceipt.codec.Fits r
  encoded : ∀ r ∈ block.receipts, (canonicalBytes CausalReceipt.codec r).length < 2 ^ 64

def Block.idBytes (block : Block) : List Bytes := block.body.transitions.map (·.txId.toList)

def Block.receiptBytes (block : Block) : List Bytes :=
  block.receipts.map (canonicalBytes CausalReceipt.codec)

/-- All that is hashed for the two roots and for the ids. -/
def Block.hashed (block : Block) : List Bytes :=
  hashedForItems block.idBytes ++ hashedForItems block.receiptBytes
    ++ block.body.transitions.flatMap canonicalMessages

/-- What the header leaves no choice in. -/
structure SameUnderHeader (block other : Block) : Prop where
  ids : other.body.transitions.map (·.txId) = block.body.transitions.map (·.txId)
  transitionCount : other.body.transitionCount = block.body.transitionCount
  receipts : other.receipts = block.receipts
  contents : (∀ tx ∈ block.body.transitions, tx.Named) → (∀ tx ∈ other.body.transitions, tx.Named) →
    List.Forall₂ SameContent block.body.transitions other.body.transitions

/-- The two roots and the count, as an accepted block has them. -/
theorem CpogValid.sections {block : Block} {state : ManagedWorldState} {parentId : Hash}
    (h : CpogValid block state parentId) :
    block.header.transitionRoot = merkleRootOfBytes block.idBytes
      ∧ block.body.transitions.length = block.body.transitionCount.toNat
      ∧ block.header.receiptRoot = merkleRootOfBytes block.receiptBytes := by
  have hrows := h.header
  simp only [headerRows, List.forall_mem_cons, decide_eq_false_iff_not, not_not, ne_eq] at hrows
  obtain ⟨-, -, -, -, hids, hcount, hreceipts, -⟩ := hrows
  rw [sectionRoot_eq] at hreceipts
  exact ⟨hids, hcount, hreceipts⟩

theorem ids_of_twins {state : ManagedWorldState} {parentId : Hash} {block other : Block}
    (h : Twins state parentId block other) (hsound : HashSound (block.hashed ++ other.hashed)) :
    other.body.transitions.map (·.txId) = block.body.transitions.map (·.txId) := by
  obtain ⟨hids, -, -⟩ := (validateCpog_eq_valid_iff.mp h.valid).sections
  obtain ⟨hids', -, -⟩ := (validateCpog_eq_valid_iff.mp h.valid_other).sections
  have hroot : merkleRootOfBytes other.idBytes = merkleRootOfBytes block.idBytes := by
    rw [← hids, ← hids', h.header]
  have hlen : ∀ b : Block, ∀ item ∈ b.idBytes, item.length < 2 ^ 64 := by
    intro b item hitem
    obtain ⟨tx, -, rfl⟩ := List.mem_map.mp hitem
    simp
  have hbytes := merkleRootOfBytes_inj hsound
    (fun m hm => by simp [Block.hashed, hm]) (fun m hm => by simp [Block.hashed, hm])
    (hlen other) (hlen block) hroot
  refine List.map_injective_iff.mpr Hash.toList_injective ?_
  rw [List.map_map, List.map_map]
  exact hbytes

theorem receipts_of_twins {state : ManagedWorldState} {parentId : Hash} {block other : Block}
    (h : Twins state parentId block other) (hfit : block.Storable) (hfit' : other.Storable)
    (hsound : HashSound (block.hashed ++ other.hashed)) : other.receipts = block.receipts := by
  obtain ⟨-, -, hreceipts⟩ := (validateCpog_eq_valid_iff.mp h.valid).sections
  obtain ⟨-, -, hreceipts'⟩ := (validateCpog_eq_valid_iff.mp h.valid_other).sections
  have hroot : merkleRootOfBytes other.receiptBytes = merkleRootOfBytes block.receiptBytes := by
    rw [← hreceipts, ← hreceipts', h.header]
  have hlen : ∀ b : Block, b.Storable → ∀ item ∈ b.receiptBytes, item.length < 2 ^ 64 := by
    intro b hb item hitem
    obtain ⟨receipt, hreceipt, rfl⟩ := List.mem_map.mp hitem
    exact hb.encoded receipt hreceipt
  have hbytes := merkleRootOfBytes_inj hsound
    (fun m hm => by simp [Block.hashed, hm]) (fun m hm => by simp [Block.hashed, hm])
    (hlen other hfit') (hlen block hfit) hroot
  refine eq_of_map_eq hbytes fun r hr r' hr' heq => ?_
  exact CausalReceipt.codec.enc_inj (hfit'.receipts r hr) (hfit.receipts r' hr') (by simp)
    (by simp) heq

/-- A header and a proof fix the ids of the transitions, their number and the
receipts, and with ids that are digests all that the canonical bytes cover. -/
theorem sameUnderHeader_of_twins {state : ManagedWorldState} {parentId : Hash}
    {block other : Block} (h : Twins state parentId block other) (hfit : block.Storable)
    (hfit' : other.Storable) (hsound : HashSound (block.hashed ++ other.hashed)) :
    SameUnderHeader block other := by
  have hvalid := validateCpog_eq_valid_iff.mp h.valid
  have hvalid' := validateCpog_eq_valid_iff.mp h.valid_other
  have hids := ids_of_twins h hsound
  refine ⟨hids, ?_, receipts_of_twins h hfit hfit' hsound, fun hnamed hnamed' => ?_⟩
  · have hlength := congrArg List.length hids
    rw [List.length_map, List.length_map, hvalid.sections.2.1, hvalid'.sections.2.1] at hlength
    exact UInt32.toNat_inj.mp hlength
  · refine forall₂_of_map_eq hids.symm fun t ht t' ht' hid => ?_
    refine sameContent_of_named (fun phase hphase => hvalid.perTx ht hphase)
      (fun phase hphase => hvalid'.perTx ht' hphase) (hfit.transitions t ht)
      (hfit'.transitions t' ht') hsound (fun m hm => ?_) (fun m hm => ?_) (hnamed t ht)
      (hnamed' t' ht') hid.symm
    · exact List.mem_append_left _ (List.mem_append_right _ (List.mem_flatMap.mpr ⟨t, ht, hm⟩))
    · exact List.mem_append_right _ (List.mem_append_right _ (List.mem_flatMap.mpr ⟨t', ht', hm⟩))

end

/-! ## The sections under no root -/

/-- With the validator of the small set seated. -/
def seatedState : ManagedWorldState := commitValidatorSet fundedState soloSet

/-- The transition under the digest of what it is signed over. -/
def named (tx : SymbolicTransition) : SymbolicTransition :=
  { tx with txId := polyCrypto.polyDigest (@canonicalTxBytes polyCrypto tx) }

/-- The note, and another one of the same agent. -/
def namedNotes : List SymbolicTransition := [named note, named { note with nonce := 2 }]

/-- A block with the notes and their receipts, signed by its producer. -/
def noteBlock : Block :=
  let block := @receiptedBlock polyCrypto 1 namedNotes
    (namedNotes.map fun tx => { noteReceipt with txId := tx.txId }) seatedState
  { block with proof := { block.proof with
      validatorSignature := polySign (Hash.ofByte 1)
        (@blockSigningPayload polyCrypto block.header block.proof) } }

/-- The block with another body. -/
def Block.withBody (block : Block) (body : BlockBody) : Block := { block with body }

theorem Block.withBody_header (block : Block) (body : BlockBody) :
    (block.withBody body).header = block.header := rfl

theorem Block.withBody_proof (block : Block) (body : BlockBody) :
    (block.withBody body).proof = block.proof := rfl

theorem Block.Storable.withBody {block : Block} (h : block.Storable) {body : BlockBody}
    (hbody : ∀ tx ∈ body.transitions, SymbolicTransition.codec.Fits tx) :
    (block.withBody body).Storable :=
  ⟨hbody, h.receipts, h.encoded⟩

/-- The transition with another key and another seal for its actor, and another purpose. -/
def disguised (tx : SymbolicTransition) : SymbolicTransition :=
  { tx with
    actor.publicKey := Hash.ofByte 3
    actor.mfidelSeal := ⟨2, 3⟩
    intent.declaredPurpose := "gift" }

/-- The notes under another level, key, seal and purpose and under other signatures, and
the validator removed on evidence. -/
def slashingBody : BlockBody :=
  { noteBlock.body with
    transitions := namedNotes.map fun tx =>
      resign (fun _ => List.replicate 65 1) (relevel (disguised tx) .genesis)
    validatorSetChanges := some [@slashingRemoval polyCrypto (.ofByte 7) 1 (activationDelay 2)]
    equivocationEvidence :=
      some [.new (rebuiltPrevote (.ofByte 0xAA)) (rebuiltPrevote (.ofByte 0xBB))] }

/-- The two blocks at the gate, what is hashed of them, and where they differ. -/
theorem noteBlock_run :
    let other := noteBlock.withBody slashingBody
    let hashed := @Block.hashed polyCrypto noteBlock
    (@verifyProducerSignature polyCrypto noteBlock = .ok ()
        ∧ @verifyProducerSignature polyCrypto other = .ok ()
        ∧ @validateCpog polyCrypto noteBlock seatedState zeroHash = .valid
        ∧ @validateCpog polyCrypto other seatedState zeroHash = .valid)
      ∧ (@Block.hashed polyCrypto other = hashed
        ∧ (∀ m ∈ hashed, ∀ m' ∈ hashed,
          polyCrypto.polyDigest m = polyCrypto.polyDigest m' → m = m')
        ∧ ∀ m ∈ hashed, polyCrypto.polyDigest m ≠ zeroHash)
      ∧ (slashingBody.validatorSetChanges ≠ noteBlock.body.validatorSetChanges
        ∧ slashingBody.equivocationEvidence ≠ noteBlock.body.equivocationEvidence)
      ∧ noteBlock.body.transitions = namedNotes
      ∧ noteBlock.receipts = namedNotes.map (fun tx => { noteReceipt with txId := tx.txId })
      ∧ ∀ r ∈ noteBlock.receipts,
        (@canonicalBytes CausalReceipt CausalReceipt.codec r).length < 2 ^ 64 := by
  decide +kernel

theorem twins_noteBlock :
    @Twins polyCrypto seatedState zeroHash noteBlock (noteBlock.withBody slashingBody) := by
  obtain ⟨⟨hsigned, hsigned', hvalid, hvalid'⟩, -⟩ := noteBlock_run
  exact @Twins.mk polyCrypto _ _ _ _ (noteBlock.withBody_header slashingBody)
    (noteBlock.withBody_proof slashingBody) hsigned hsigned' hvalid hvalid'

theorem noteBlock_hashSound :
    @HashSound polyCrypto (@Block.hashed polyCrypto noteBlock
      ++ @Block.hashed polyCrypto (noteBlock.withBody slashingBody)) := by
  obtain ⟨-, ⟨hsame, hfree, hzero⟩, -⟩ := noteBlock_run
  rw [hsame]
  exact @HashSound.append_self polyCrypto _
    (@HashSound.mk polyCrypto _ (fun m hm m' hm' h => hfree m hm m' hm' h) hzero)

/-- Everything that is under no root differs between the two. -/
theorem slashingBody_under_header :
    @Twins polyCrypto seatedState zeroHash noteBlock (noteBlock.withBody slashingBody)
      ∧ @HashSound polyCrypto (@Block.hashed polyCrypto noteBlock
        ++ @Block.hashed polyCrypto (noteBlock.withBody slashingBody))
      ∧ List.Forall₂ (fun tx tx' => tx'.signature ≠ tx.signature
          ∧ tx'.actor.governanceLevel ≠ tx.actor.governanceLevel
          ∧ tx'.actor.publicKey ≠ tx.actor.publicKey ∧ tx'.actor.mfidelSeal ≠ tx.actor.mfidelSeal
          ∧ tx'.intent.declaredPurpose ≠ tx.intent.declaredPurpose)
        noteBlock.body.transitions slashingBody.transitions
      ∧ slashingBody.validatorSetChanges ≠ noteBlock.body.validatorSetChanges
      ∧ slashingBody.equivocationEvidence ≠ noteBlock.body.equivocationEvidence := by
  obtain ⟨-, -, hdiffers, htransitions, -⟩ := noteBlock_run
  refine ⟨twins_noteBlock, noteBlock_hashSound, ?_, hdiffers⟩
  rw [htransitions]
  decide +kernel

theorem fits_note : SymbolicTransition.codec.Fits note := by
  have hpayload : OperationPayload.codec.Fits note.payload := by
    simp only [OperationPayload.codec, note, plainTransition]
    simp [Variants.cons]
    decide +kernel
  exact fits_plainTransition (by decide +kernel) hpayload (by decide)

theorem fits_namedNotes : ∀ tx ∈ namedNotes, SymbolicTransition.codec.Fits tx := by
  obtain ⟨_, hactor, hintent, hpre, hpost, hpayload, hcausal, hbinding, _, hsignature⟩ := fits_note
  refine List.forall_mem_cons.mpr ⟨?_, List.forall_mem_singleton.mpr ?_⟩
  all_goals
    exact ⟨trivial, hactor, hintent, hpre, hpost, hpayload, hcausal, hbinding,
      Codec.u128_fits _, hsignature⟩

theorem fits_disguised {tx : SymbolicTransition} (h : SymbolicTransition.codec.Fits tx) :
    SymbolicTransition.codec.Fits (disguised tx) := by
  obtain ⟨hid, ⟨hagent, _, _, hrest⟩, ⟨hkind, htarget, _⟩, hbody⟩ := h
  have hseal : MfidelAtomicSeal.codec.Fits ⟨2, 3⟩ := by simp [MfidelAtomicSeal.codec]
  have hpurpose : Codec.string.Fits "gift" := (Codec.string_fits _).mpr (by decide)
  exact ⟨hid, ⟨hagent, trivial, hseal, hrest⟩, ⟨hkind, htarget, hpurpose⟩, hbody⟩

theorem fits_noteReceipt (txId : Hash) : CausalReceipt.codec.Fits { noteReceipt with txId } := by
  have hbinding : WHBindingIntent.codec.Fits note.whBindingIntent :=
    SymbolicTransition.fits_binding fits_note
  simp only [CausalReceipt.codec, Verdict.codec, ResourceUsage.codec, WHBindingResolved.codec,
    StateDelta.codec, ValidationResult.codec, noteReceipt, emptyWhResolved]
  simp [Variants.cons, hbinding]
  exact ⟨⟨by decide, fun a ha => absurd ha List.not_mem_nil⟩, by decide,
    fun a ha => absurd ha List.not_mem_nil⟩

theorem storable_noteBlock : noteBlock.Storable := by
  obtain ⟨-, -, -, htransitions, hreceipts, hencoded⟩ := noteBlock_run
  refine ⟨?_, ?_, hencoded⟩
  · rw [htransitions]
    exact fits_namedNotes
  · rw [hreceipts]
    exact List.forall_mem_map.mpr fun tx _ => fits_noteReceipt tx.txId

theorem sameUnderHeader_of_twins_noteBlock :
    @SameUnderHeader polyCrypto noteBlock (noteBlock.withBody slashingBody) := by
  refine @sameUnderHeader_of_twins polyCrypto _ _ _ _ twins_noteBlock storable_noteBlock
    (storable_noteBlock.withBody ?_) noteBlock_hashSound
  exact List.forall_mem_map.mpr fun tx htx =>
    fits_resign (fits_relevel (fits_disguised (fits_namedNotes tx htx)) .genesis) (by simp)

end Sccgub
