import MCode.Validation.Grammar
import MCode.Validation.Protocol

/-!
# The reducer follows the grammar

The reducer keeps, of the events behind it, what the blocks of `Grammar`
determine: `image` is the reducer behind a list of blocks.  One event that is
accepted grows the blocks by one of the ways of `Grows`, and every list of
blocks grows so from the empty one; a batch is a list of events, whatever the
batches before it were.
-/

namespace MCode.Validation.Reduction

open MCode.Validation

/-! ## What the handlers accept -/

/-- The next content index may be used. -/
def Advances (current : Option ContentSlot) (index : Nat) : Prop :=
  current = none ∧ index = 0 ∨
    ∃ slot, current = some slot ∧ slot.index + 1 = index ∧ index ≤ 255 ∧
      slot.canAdvance = true

theorem selectContent_ok {s t : EventReducer} {index : Nat} {kind : ContentKind} :
    s.selectContent index kind = .ok t ↔
      (Advances s.current index ∧ t = { s with current := some ⟨index, kind⟩ }) ∨
      (∃ slot, s.current = some slot ∧ slot.index = index ∧
        slot.kind.matches kind = true ∧ t = s) := by
  unfold EventReducer.selectContent Advances
  cases hcurrent : s.current with
  | none => grind
  | some slot => grind

theorem acceptProof_ok {s t : EventReducer} {index bytes : Nat} {kind : ReasoningKind} :
    s.acceptProof index kind bytes = .ok t ↔
      s.proofSupported = true ∧ s.current = some ⟨index, .Reasoning kind false⟩ ∧
        s.proofBytes + bytes ≤ MAX_PROOF_BYTES ∧
        t = { s with
          proofBytes := s.proofBytes + bytes
          current := some ⟨index, .Reasoning kind true⟩ } := by
  unfold EventReducer.acceptProof checkedAdd checkedLen U64_MAX
  cases hcurrent : s.current with
  | none => grind
  | some slot =>
      obtain ⟨current, kind'⟩ := slot
      cases kind' with
      | Reasoning => grind [bind_eq_ok, MAX_PROOF_BYTES]
      | Text => grind
      | Tool => grind

theorem startTool_ok {s t : EventReducer} {index : Nat} {callId name : String} :
    s.startTool index callId name = .ok t ↔
      name ∈ s.toolNames ∧ callId ∉ s.callIds ∧ Advances s.current index ∧
        t = { s with
          callIds := callId :: s.callIds
          current := some ⟨index, .Tool (.Open callId 0 0 "")⟩ } := by
  unfold EventReducer.startTool Advances
  cases hcurrent : s.current with
  | none => grind
  | some slot => grind

theorem appendToolDelta_ok {s t : EventReducer} {index : Nat} {callId delta : String} :
    s.appendToolDelta index callId delta = .ok t ↔
      ∃ count bytes arguments,
        s.current = some ⟨index, .Tool (.Open callId count bytes arguments)⟩ ∧
        count + 1 ≤ MAX_TOOL_DELTAS ∧
        bytes + utf8Len delta.toList ≤ MAX_TOOL_BYTES ∧
        s.toolBytes + utf8Len delta.toList ≤ MAX_ALL_TOOL_BYTES ∧
        t = { s with
          toolBytes := s.toolBytes + utf8Len delta.toList
          current := some ⟨index, .Tool (.Open callId (count + 1)
            (bytes + utf8Len delta.toList) (arguments ++ delta))⟩ } := by
  unfold EventReducer.appendToolDelta checkedAdd checkedLen U64_MAX
  cases hcurrent : s.current with
  | none => grind
  | some slot =>
      obtain ⟨current, kind⟩ := slot
      cases kind with
      | Tool state =>
          cases state with
          | Open currentId count bytes arguments =>
              simp only [bne_iff_ne, ne_eq, Bool.or_eq_true, decide_eq_true_eq]
              constructor
              · intro h
                split at h
                · cases h
                · split at h
                  · cases h
                  · simp only [bind_eq_ok] at h
                    grind
              · rintro ⟨count', bytes', arguments', heq, hcount, hbytes, htotal, rfl⟩
                cases heq
                unfold MAX_TOOL_BYTES at hbytes
                unfold MAX_ALL_TOOL_BYTES at htotal
                rw [if_neg (by simp), if_neg (by omega)]
                simp only [bind_eq_ok]
                refine ⟨_, if_pos (by omega), _, if_pos (by omega), _, if_pos (by omega), ?_⟩
                unfold MAX_TOOL_BYTES MAX_ALL_TOOL_BYTES
                rw [if_neg (by omega)]
          | Sealed => grind
      | Text => grind
      | Reasoning => grind

theorem endTool_ok {s t : EventReducer} {index : Nat} {callId : String} :
    s.endTool index callId = .ok t ↔
      ∃ count bytes arguments,
        s.current = some ⟨index, .Tool (.Open callId count bytes arguments)⟩ ∧
        count ≠ 0 ∧ toolArguments arguments = .ok () ∧
        s.completeCalls + 1 ≤ 2 ^ 32 - 1 ∧
        t = { s with
          completeCalls := s.completeCalls + 1
          current := some ⟨index, .Tool .Sealed⟩ } := by
  unfold EventReducer.endTool
  cases hcurrent : s.current with
  | none => grind
  | some slot =>
      obtain ⟨current, kind⟩ := slot
      cases kind with
      | Tool state =>
          cases state with
          | Open => grind [bind_eq_ok]
          | Sealed => grind
      | Text => grind
      | Reasoning => grind

/-! ## The reducer behind a list of blocks -/

/-- What the reducer keeps of the last block. -/
def kindOf : Block → ContentKind
  | .Text _ => .Text
  | .Reasoning kind parts =>
      .Reasoning kind (!(Block.proofs (.Reasoning kind parts)).isEmpty)
  | .Call callId _ deltas false =>
      .Tool (.Open callId deltas.length (Block.deltaBytes deltas) (String.join deltas))
  | .Call _ _ _ true => .Tool .Sealed

def slotOf (blocks : List Block) : Option ContentSlot :=
  blocks.getLast?.map fun block => ⟨blocks.length - 1, kindOf block⟩

/-- The reducer behind these blocks, with its counters. -/
def image (policy : DecoderPolicy) (blocks : List Block) (count charge : Nat) (seen : Bool) :
    EventReducer where
  proofSupported := policy.proofSupported
  toolNames := policy.toolNames
  reportedModels := policy.reportedModels
  callIds := (blocks.filterMap Block.callId).reverse
  current := slotOf blocks
  eventCount := count
  eventCharge := charge
  proofBytes := (blocks.map Block.proofBytes).sum
  toolBytes := (blocks.map Block.toolBytes).sum
  completeCalls := blocks.countP Block.isSealed
  terminalSeen := seen

@[simp]
theorem slotOf_nil : slotOf [] = none := rfl

@[simp]
theorem slotOf_concat (blocks : List Block) (block : Block) :
    slotOf (blocks ++ [block]) = some ⟨blocks.length, kindOf block⟩ := by
  simp [slotOf]

theorem kindOf_isOpenTool (block : Block) : (kindOf block).isOpenTool = block.isOpen := by
  cases block with
  | Text => rfl
  | Reasoning => rfl
  | Call callId name deltas ended => cases ended <;> rfl

/-- All blocks but the last are complete. -/
theorem arranged_concat {policy : DecoderPolicy} {blocks : List Block} {block : Block} :
    Arranged policy (blocks ++ [block]) ↔
      (∀ earlier ∈ blocks, earlier.Ok policy ∧ earlier.isOpen = false) ∧ block.Ok policy ∧
      (blocks.filterMap Block.callId).Nodup ∧
      (∀ callId, block.callId = some callId → callId ∉ blocks.filterMap Block.callId) ∧
      (blocks.map Block.proofBytes).sum + block.proofBytes ≤ MAX_PROOF_BYTES ∧
      (blocks.map Block.toolBytes).sum + block.toolBytes ≤ MAX_ALL_TOOL_BYTES := by
  have hids : (blocks ++ [block]).filterMap Block.callId =
      blocks.filterMap Block.callId ++ block.callId.toList := by
    rw [List.filterMap_append]
    cases hid : block.callId <;> simp [hid]
  have hdistinct : ((blocks ++ [block]).filterMap Block.callId).Nodup ↔
      (blocks.filterMap Block.callId).Nodup ∧
        ∀ callId, block.callId = some callId → callId ∉ blocks.filterMap Block.callId := by
    rw [hids]
    cases hid : block.callId with
    | none => simp
    | some callId =>
        rw [Option.toList_some, List.nodup_append]
        simp
        grind
  constructor
  · intro h
    have heach := h.each
    have hclosed := h.closed
    rw [List.dropLast_concat] at hclosed
    have hproofs := h.proofs
    have htools := h.tools
    rw [List.map_append, List.sum_append] at hproofs htools
    obtain ⟨hnodup, hfresh⟩ := hdistinct.1 h.distinct
    refine ⟨fun earlier hmem => ⟨heach earlier (List.mem_append_left _ hmem),
      hclosed earlier hmem⟩, heach block (by simp), hnodup, hfresh, ?_, ?_⟩
    · simpa using hproofs
    · simpa using htools
  · rintro ⟨hearlier, hblock, hnodup, hfresh, hproofs, htools⟩
    refine ⟨?_, ?_, hdistinct.2 ⟨hnodup, hfresh⟩, ?_, ?_⟩
    · intro other hmem
      rcases List.mem_append.1 hmem with hmem | hmem
      · exact (hearlier other hmem).1
      · rw [List.mem_singleton.1 hmem]
        exact hblock
    · rw [List.dropLast_concat]
      exact fun earlier hmem => (hearlier earlier hmem).2
    · rw [List.map_append, List.sum_append]
      simpa using hproofs
    · rw [List.map_append, List.sum_append]
      simpa using htools

/-- A new block may follow exactly if no call is open. -/
theorem advances_slotOf {policy : DecoderPolicy} {blocks : List Block} {index : Nat}
    (h : Arranged policy blocks) (hindex : index ≤ 63) :
    Advances (slotOf blocks) index ↔
      index = blocks.length ∧ ∀ block ∈ blocks, block.isOpen = false := by
  unfold Advances
  rcases List.eq_nil_or_concat blocks with rfl | ⟨earlier, last, rfl⟩
  · simp
  · rw [List.concat_eq_append] at h ⊢
    have hearlier := (arranged_concat.1 h).1
    rw [slotOf_concat, List.length_append, List.length_singleton]
    constructor
    · rintro (⟨hnone, -⟩ | ⟨slot, hslot, hnext, -, hadvance⟩)
      · cases hnone
      · cases hslot
        refine ⟨hnext.symm, fun block hblock => ?_⟩
        rcases List.mem_append.1 hblock with hblock | hblock
        · exact (hearlier block hblock).2
        · rw [List.mem_singleton.1 hblock, ← kindOf_isOpenTool]
          simpa [ContentSlot.canAdvance] using hadvance
    · rintro ⟨rfl, hall⟩
      refine Or.inr ⟨_, rfl, rfl, by omega, ?_⟩
      have hlast := hall last (by simp)
      rw [← kindOf_isOpenTool] at hlast
      simp [ContentSlot.canAdvance, hlast]

/-! ## One event grows the blocks -/

/-- The ways in which an event grows the blocks. -/
inductive Grows : List Block → NormalizedEvent → List Block → Prop
  | text (blocks : List Block) (text : String) :
      Grows blocks (.TextDelta blocks.length text) (blocks ++ [.Text [text]])
  | textMore (blocks : List Block) (deltas : List String) (text : String) :
      Grows (blocks ++ [.Text deltas]) (.TextDelta blocks.length text)
        (blocks ++ [.Text (deltas ++ [text])])
  | reasoning (blocks : List Block) (kind : ReasoningKind) (text : String) :
      Grows blocks (.ReasoningDelta blocks.length kind text)
        (blocks ++ [.Reasoning kind [.Delta text]])
  | part (blocks : List Block) (kind : ReasoningKind) (parts : List ReasoningPart)
      (part : ReasoningPart) :
      Grows (blocks ++ [.Reasoning kind parts]) (part.event blocks.length kind)
        (blocks ++ [.Reasoning kind (parts ++ [part])])
  | start (blocks : List Block) (callId name : String) :
      Grows blocks (.ToolCallStart blocks.length callId name)
        (blocks ++ [.Call callId name [] false])
  | delta (blocks : List Block) (callId name : String) (deltas : List String)
      (delta : String) :
      Grows (blocks ++ [.Call callId name deltas false])
        (.ToolArgumentsDelta blocks.length callId delta)
        (blocks ++ [.Call callId name (deltas ++ [delta]) false])
  | finish (blocks : List Block) (callId name : String) (deltas : List String) :
      Grows (blocks ++ [.Call callId name deltas false])
        (.ToolCallEnd blocks.length callId) (blocks ++ [.Call callId name deltas true])

/-- A block that is new, behind blocks that are complete. -/
theorem arranged_push {policy : DecoderPolicy} {blocks : List Block} {block : Block}
    (h : Arranged policy blocks) (hclosed : ∀ earlier ∈ blocks, earlier.isOpen = false)
    (hblock : block.Ok policy)
    (hfresh : ∀ callId, block.callId = some callId → callId ∉ blocks.filterMap Block.callId)
    (hproofs : block.proofBytes = 0) (htools : block.toolBytes = 0) :
    Arranged policy (blocks ++ [block]) := by
  refine arranged_concat.2 ⟨fun earlier hmem => ⟨h.each earlier hmem, hclosed earlier hmem⟩,
    hblock, h.distinct, hfresh, ?_, ?_⟩
  · rw [hproofs]
    exact h.proofs
  · rw [htools]
    exact h.tools

/-- The last block, with more to it. -/
theorem arranged_replace {policy : DecoderPolicy} {blocks : List Block} {block : Block}
    (next : Block) (h : Arranged policy (blocks ++ [block])) (hnext : next.Ok policy)
    (hid : next.callId = block.callId)
    (hproofs : (blocks.map Block.proofBytes).sum + next.proofBytes ≤ MAX_PROOF_BYTES)
    (htools : (blocks.map Block.toolBytes).sum + next.toolBytes ≤ MAX_ALL_TOOL_BYTES) :
    Arranged policy (blocks ++ [next]) := by
  obtain ⟨hearlier, -, hnodup, hfresh, -, -⟩ := arranged_concat.1 h
  exact arranged_concat.2 ⟨hearlier, hnext, hnodup, by rw [hid]; exact hfresh, hproofs, htools⟩

/-- The slot is that of the last block. -/
theorem slotOf_some {blocks : List Block} {slot : ContentSlot}
    (h : slotOf blocks = some slot) : ∃ earlier last, blocks = earlier ++ [last] ∧
      slot = ⟨earlier.length, kindOf last⟩ := by
  rcases List.eq_nil_or_concat blocks with rfl | ⟨earlier, last, rfl⟩
  · cases h
  · rw [List.concat_eq_append, slotOf_concat] at h
    exact ⟨earlier, last, List.concat_eq_append .., (Option.some.inj h).symm⟩

/-- The reducer behind one block more. -/
theorem image_concat (policy : DecoderPolicy) (blocks : List Block) (block : Block)
    (count charge : Nat) (seen : Bool) :
    image policy (blocks ++ [block]) count charge seen =
      { image policy blocks count charge seen with
        callIds := block.callId.toList ++ (image policy blocks count charge seen).callIds
        current := some ⟨blocks.length, kindOf block⟩
        proofBytes := (blocks.map Block.proofBytes).sum + block.proofBytes
        toolBytes := (blocks.map Block.toolBytes).sum + block.toolBytes
        completeCalls := blocks.countP Block.isSealed + block.isSealed.toNat } := by
  unfold image
  congr 1
  · rw [List.filterMap_append, List.reverse_append]
    cases hid : block.callId <;> simp [hid]
  · exact slotOf_concat blocks block
  · simp
  · simp
  · rw [List.countP_append, List.countP_singleton]
    cases block.isSealed <;> rfl

theorem proofs_delta (kind : ReasoningKind) (parts : List ReasoningPart) (text : String) :
    Block.proofs (.Reasoning kind (parts ++ [.Delta text])) =
      Block.proofs (.Reasoning kind parts) := by
  simp [Block.proofs]

theorem proofBytes_delta (kind : ReasoningKind) (parts : List ReasoningPart)
    (text : String) : Block.proofBytes (.Reasoning kind (parts ++ [.Delta text])) =
      Block.proofBytes (.Reasoning kind parts) := by
  unfold Block.proofBytes
  rw [proofs_delta]

theorem kindOf_delta (kind : ReasoningKind) (parts : List ReasoningPart) (text : String) :
    kindOf (.Reasoning kind (parts ++ [.Delta text])) = kindOf (.Reasoning kind parts) := by
  show ContentKind.Reasoning _ _ = ContentKind.Reasoning _ _
  rw [proofs_delta]

theorem proofs_proof (kind : ReasoningKind) (parts : List ReasoningPart)
    (proof : List UInt8) :
    Block.proofs (.Reasoning kind (parts ++ [.Proof proof])) =
      Block.proofs (.Reasoning kind parts) ++ [proof] := by
  simp [Block.proofs]

theorem proofBytes_proof (kind : ReasoningKind) {parts : List ReasoningPart}
    (proof : List UInt8) (hnone : Block.proofs (.Reasoning kind parts) = []) :
    Block.proofBytes (.Reasoning kind (parts ++ [.Proof proof])) =
      Block.proofBytes (.Reasoning kind parts) + proof.length := by
  unfold Block.proofBytes
  rw [proofs_proof, hnone]
  simp

theorem deltaBytes_concat (deltas : List String) (delta : String) :
    Block.deltaBytes (deltas ++ [delta]) =
      Block.deltaBytes deltas + utf8Len delta.toList := by
  simp [Block.deltaBytes]

/-- More reasoning changes nothing that the reducer keeps. -/
theorem image_part (policy : DecoderPolicy) (earlier : List Block) (kind : ReasoningKind)
    (parts : List ReasoningPart) (text : String) (count charge : Nat) (seen : Bool) :
    image policy (earlier ++ [.Reasoning kind (parts ++ [.Delta text])]) count charge seen =
      image policy (earlier ++ [.Reasoning kind parts]) count charge seen := by
  rw [image_concat, image_concat, kindOf_delta, proofBytes_delta]
  rfl

theorem image_proof (policy : DecoderPolicy) (earlier : List Block) {kind : ReasoningKind}
    {parts : List ReasoningPart} (count charge : Nat) (seen : Bool) (proof : List UInt8)
    (hnone : Block.proofs (.Reasoning kind parts) = []) :
    image policy (earlier ++ [.Reasoning kind (parts ++ [.Proof proof])]) count charge seen =
      { image policy (earlier ++ [.Reasoning kind parts]) count charge seen with
        proofBytes :=
          (image policy (earlier ++ [.Reasoning kind parts]) count charge seen).proofBytes +
            proof.length
        current := some ⟨earlier.length, .Reasoning kind true⟩ } := by
  have hseen : kindOf (.Reasoning kind (parts ++ [.Proof proof])) = .Reasoning kind true := by
    show ContentKind.Reasoning _ _ = _
    rw [proofs_proof, hnone]
    rfl
  rw [image_concat, image_concat, hseen, proofBytes_proof kind proof hnone, ← Nat.add_assoc]
  rfl

theorem image_arguments (policy : DecoderPolicy) (earlier : List Block)
    (callId name : String) (deltas : List String) (delta : String) (count charge : Nat)
    (seen : Bool) :
    image policy (earlier ++ [.Call callId name (deltas ++ [delta]) false]) count charge seen =
      { image policy (earlier ++ [.Call callId name deltas false]) count charge seen with
        toolBytes :=
          (image policy (earlier ++ [.Call callId name deltas false]) count charge
            seen).toolBytes + utf8Len delta.toList
        current := some ⟨earlier.length, .Tool (.Open callId (deltas.length + 1)
          (Block.deltaBytes deltas + utf8Len delta.toList)
          (String.join deltas ++ delta))⟩ } := by
  have hkind : kindOf (.Call callId name (deltas ++ [delta]) false) =
      .Tool (.Open callId (deltas.length + 1)
        (Block.deltaBytes deltas + utf8Len delta.toList) (String.join deltas ++ delta)) := by
    show ContentKind.Tool (.Open _ _ _ _) = _
    rw [deltaBytes_concat, List.length_append, String.join_append]
    simp [String.join_cons]
  have htools : Block.toolBytes (.Call callId name (deltas ++ [delta]) false) =
      Block.toolBytes (.Call callId name deltas false) + utf8Len delta.toList :=
    deltaBytes_concat deltas delta
  rw [image_concat, image_concat, hkind, htools, ← Nat.add_assoc]
  rfl

/-- An open call stands behind an open slot. -/
theorem kindOf_open {block : Block} {callId arguments : String} {count bytes : Nat}
    (h : kindOf block = .Tool (.Open callId count bytes arguments)) :
    ∃ name deltas, block = .Call callId name deltas false ∧ count = deltas.length ∧
      bytes = Block.deltaBytes deltas ∧ arguments = String.join deltas := by
  cases block with
  | Text => cases h
  | Reasoning => cases h
  | Call callId name deltas ended =>
      cases ended with
      | false =>
          cases h
          exact ⟨name, deltas, rfl, rfl, rfl, rfl⟩
      | true => cases h

/-- An event that is applied grows the blocks. -/
theorem applyEvent_grows {policy : DecoderPolicy} {blocks : List Block}
    {count charge : Nat} {event : NormalizedEvent} {t : EventReducer}
    (h : Arranged policy blocks) (hvalid : ValidFields event)
    (hevent : isTerminal event = false)
    (happly : (image policy blocks count charge false).applyEvent event = .ok t) :
    ∃ grown, Grows blocks event grown ∧ Arranged policy grown ∧
      t = image policy grown count charge false := by
  cases event with
  | TextDelta index text =>
      rcases selectContent_ok.1 happly with ⟨hadvances, rfl⟩ | ⟨slot, hslot, rfl, hmatches, rfl⟩
      · obtain ⟨rfl, hclosed⟩ := (advances_slotOf h hvalid.1).1 hadvances
        refine ⟨_, .text blocks text, arranged_push h hclosed nofun nofun rfl rfl, ?_⟩
        rw [image_concat]
        rfl
      · obtain ⟨earlier, last, rfl, rfl⟩ := slotOf_some hslot
        cases last with
        | Text deltas =>
            refine ⟨_, .textMore earlier deltas text, arranged_replace _ h (by simp [Block.Ok])
              rfl ?_ ?_, ?_⟩
            · exact (arranged_concat.1 h).2.2.2.2.1
            · exact (arranged_concat.1 h).2.2.2.2.2
            · rw [image_concat, image_concat]
              rfl
        | Reasoning => cases hmatches
        | Call callId name deltas ended => cases ended <;> cases hmatches
  | ReasoningDelta index kind text =>
      rcases selectContent_ok.1 happly with ⟨hadvances, rfl⟩ | ⟨slot, hslot, rfl, hmatches, rfl⟩
      · obtain ⟨rfl, hclosed⟩ := (advances_slotOf h hvalid.1).1 hadvances
        refine ⟨_, .reasoning blocks kind text, arranged_push h hclosed ?_ nofun rfl rfl, ?_⟩
        · exact ⟨⟨text, [], rfl⟩, Nat.zero_le _, fun hne => absurd rfl hne⟩
        · rw [image_concat]
          rfl
      · obtain ⟨earlier, last, rfl, rfl⟩ := slotOf_some hslot
        cases last with
        | Text => cases hmatches
        | Reasoning kind' parts =>
            have hkind : kind' = kind := eq_of_beq hmatches
            subst hkind
            obtain ⟨⟨first, rest, hparts⟩, hone, hsupported⟩ := (arranged_concat.1 h).2.1
            refine ⟨_, .part earlier kind' parts (.Delta text), arranged_replace _ h
              ⟨⟨first, rest ++ [.Delta text], by rw [hparts]; rfl⟩, ?_, ?_⟩ rfl ?_ ?_, ?_⟩
            · rw [proofs_delta]
              exact hone
            · rw [proofs_delta]
              exact hsupported
            · rw [proofBytes_delta]
              exact (arranged_concat.1 h).2.2.2.2.1
            · exact (arranged_concat.1 h).2.2.2.2.2
            · exact (image_part policy earlier kind' parts text count charge false).symm
        | Call callId name deltas ended => cases ended <;> cases hmatches
  | ReasoningProof index kind proof =>
      obtain ⟨hsupported, hslot, hbytes, rfl⟩ := acceptProof_ok.1 happly
      obtain ⟨earlier, last, rfl, heq⟩ := slotOf_some hslot
      cases last with
      | Text => cases heq
      | Reasoning kind' parts =>
          obtain ⟨rfl, hkind⟩ := ContentSlot.mk.inj heq
          obtain ⟨rfl, hnone⟩ := ContentKind.Reasoning.inj hkind
          have hproofs : Block.proofs (.Reasoning kind parts) = [] := by simpa using hnone.symm
          obtain ⟨⟨first, rest, hparts⟩, -, -⟩ := (arranged_concat.1 h).2.1
          have hmore := proofBytes_proof kind proof hproofs
          rw [image_concat] at hbytes
          refine ⟨_, .part earlier kind parts (.Proof proof), arranged_replace _ h
            ⟨⟨first, rest ++ [.Proof proof], by rw [hparts]; rfl⟩, ?_, fun _ => hsupported⟩
            rfl ?_ (arranged_concat.1 h).2.2.2.2.2, ?_⟩
          · rw [proofs_proof, hproofs]
            exact Nat.le_refl _
          · rw [hmore, ← Nat.add_assoc]
            exact hbytes
          · exact (image_proof policy earlier count charge false proof hproofs).symm
      | Call callId name deltas ended => cases ended <;> cases heq
  | ToolCallStart index callId name =>
      obtain ⟨hname, hfresh, hadvances, rfl⟩ := startTool_ok.1 happly
      obtain ⟨rfl, hclosed⟩ := (advances_slotOf h hvalid.1).1 hadvances
      refine ⟨_, .start blocks callId name, arranged_push h hclosed ?_ ?_ rfl rfl, ?_⟩
      · exact ⟨hname, Nat.zero_le _, Nat.zero_le _, nofun⟩
      · intro other hother
        cases hother
        exact fun hmem => hfresh (List.mem_reverse.2 hmem)
      · rw [image_concat]
        rfl
  | ToolArgumentsDelta index callId delta =>
      obtain ⟨deltas, bytes, arguments, hslot, hcount, hbytes, htotal, rfl⟩ :=
        appendToolDelta_ok.1 happly
      obtain ⟨earlier, last, rfl, heq⟩ := slotOf_some hslot
      obtain ⟨rfl, hkind⟩ := ContentSlot.mk.inj heq
      obtain ⟨name, strings, rfl, rfl, rfl, rfl⟩ := kindOf_open hkind.symm
      obtain ⟨hname, -, -, -⟩ := (arranged_concat.1 h).2.1
      rw [image_concat] at htotal
      have hdelta := deltaBytes_concat strings delta
      refine ⟨_, .delta earlier callId name strings delta, arranged_replace _ h
        ⟨hname, ?_, ?_, nofun⟩ rfl (arranged_concat.1 h).2.2.2.2.1 ?_, ?_⟩
      · rw [List.length_append]
        exact hcount
      · rw [hdelta]
        exact hbytes
      · show _ + Block.deltaBytes (strings ++ [delta]) ≤ _
        rw [hdelta, ← Nat.add_assoc]
        exact htotal
      · exact (image_arguments policy earlier callId name strings delta count charge false).symm
  | ToolCallEnd index callId =>
      obtain ⟨deltas, bytes, arguments, hslot, hcount, harguments, hcalls, rfl⟩ :=
        endTool_ok.1 happly
      obtain ⟨earlier, last, rfl, heq⟩ := slotOf_some hslot
      obtain ⟨rfl, hkind⟩ := ContentSlot.mk.inj heq
      obtain ⟨name, strings, rfl, rfl, rfl, rfl⟩ := kindOf_open hkind.symm
      obtain ⟨hname, hlength, hbytes, -⟩ := (arranged_concat.1 h).2.1
      refine ⟨_, .finish earlier callId name strings, arranged_replace _ h
        ⟨hname, hlength, hbytes, fun _ => ⟨?_, harguments⟩⟩ rfl
        (arranged_concat.1 h).2.2.2.2.1 (arranged_concat.1 h).2.2.2.2.2, ?_⟩
      · rintro rfl
        exact hcount rfl
      · rw [image_concat, image_concat]
        rfl
  | Completed | Failed => cases hevent

/-- An event that grows the blocks is applied. -/
theorem grows_applyEvent {policy : DecoderPolicy} {blocks grown : List Block}
    {count charge : Nat} {event : NormalizedEvent} (h : Arranged policy blocks)
    (hgrows : Grows blocks event grown) (hgrown : Arranged policy grown)
    (hvalid : ValidFields event) :
    (image policy blocks count charge false).applyEvent event =
      .ok (image policy grown count charge false) := by
  cases hgrows with
  | text _ text =>
      have hclosed (block : Block) (hblock : block ∈ blocks) :=
        ((arranged_concat.1 hgrown).1 block hblock).2
      refine selectContent_ok.2 (Or.inl ⟨(advances_slotOf h hvalid.1).2 ⟨rfl, hclosed⟩, ?_⟩)
      rw [image_concat]
      rfl
  | textMore earlier deltas text =>
      refine selectContent_ok.2 (Or.inr ⟨_, slotOf_concat _ _, rfl, rfl, ?_⟩)
      rw [image_concat, image_concat]
      rfl
  | reasoning _ kind text =>
      have hclosed (block : Block) (hblock : block ∈ blocks) :=
        ((arranged_concat.1 hgrown).1 block hblock).2
      refine selectContent_ok.2 (Or.inl ⟨(advances_slotOf h hvalid.1).2 ⟨rfl, hclosed⟩, ?_⟩)
      rw [image_concat]
      rfl
  | part earlier kind parts part =>
      cases part with
      | Delta text =>
          refine selectContent_ok.2 (Or.inr ⟨_, slotOf_concat _ _, rfl, beq_self_eq_true kind, ?_⟩)
          exact image_part policy earlier kind parts text count charge false
      | Proof proof =>
          obtain ⟨-, hone, hsupported⟩ := (arranged_concat.1 hgrown).2.1
          have hproofs := (arranged_concat.1 hgrown).2.2.2.2.1
          rw [proofs_proof] at hone hsupported
          have hnone : Block.proofs (.Reasoning kind parts) = [] := by
            rw [← List.length_eq_zero_iff]
            rw [List.length_append, List.length_singleton] at hone
            omega
          rw [proofBytes_proof kind proof hnone, ← Nat.add_assoc] at hproofs
          refine acceptProof_ok.2 ⟨hsupported (by simp), ?_, ?_, ?_⟩
          · rw [image_concat]
            show some (ContentSlot.mk _ (.Reasoning kind
              (!(Block.proofs (.Reasoning kind parts)).isEmpty))) = _
            rw [hnone]
            rfl
          · rw [image_concat]
            exact hproofs
          · exact image_proof policy earlier count charge false proof hnone
  | start _ callId name =>
      have hclosed (block : Block) (hblock : block ∈ blocks) :=
        ((arranged_concat.1 hgrown).1 block hblock).2
      obtain ⟨hname, -⟩ := (arranged_concat.1 hgrown).2.1
      have hfresh := (arranged_concat.1 hgrown).2.2.2.1 callId rfl
      refine startTool_ok.2 ⟨hname, fun hmem => hfresh (List.mem_reverse.1 hmem),
        (advances_slotOf h hvalid.1).2 ⟨rfl, hclosed⟩, ?_⟩
      rw [image_concat]
      rfl
  | delta earlier callId name deltas delta =>
      obtain ⟨-, hlength, hbytes, -⟩ := (arranged_concat.1 hgrown).2.1
      have htotal := (arranged_concat.1 hgrown).2.2.2.2.2
      rw [List.length_append] at hlength
      rw [deltaBytes_concat] at hbytes
      refine appendToolDelta_ok.2 ⟨_, _, _, slotOf_concat _ _, hlength, hbytes, ?_, ?_⟩
      · rw [image_concat]
        rw [show Block.toolBytes (.Call callId name (deltas ++ [delta]) false) =
          Block.deltaBytes deltas + utf8Len delta.toList from deltaBytes_concat deltas delta,
          ← Nat.add_assoc] at htotal
        exact htotal
      · exact image_arguments policy earlier callId name deltas delta count charge false
  | finish earlier callId name deltas =>
      obtain ⟨-, -, -, hended⟩ := (arranged_concat.1 hgrown).2.1
      obtain ⟨hne, harguments⟩ := hended rfl
      have hindex : earlier.length ≤ 63 := hvalid.1
      have hcount := List.countP_le_length (p := Block.isSealed) (l := earlier)
      refine endTool_ok.2 ⟨_, _, _, slotOf_concat _ _, ?_, harguments, ?_, ?_⟩
      · exact fun hzero => hne (List.length_eq_zero_iff.1 hzero)
      · rw [image_concat]
        show earlier.countP Block.isSealed + 0 + 1 ≤ 2 ^ 32 - 1
        omega
      · rw [image_concat, image_concat]
        rfl

/-! ## The blocks grow from the empty list -/

theorem arranged_earlier {policy : DecoderPolicy} {blocks : List Block} {block : Block}
    (h : Arranged policy (blocks ++ [block])) : Arranged policy blocks := by
  obtain ⟨hearlier, -, hnodup, -, hproofs, htools⟩ := arranged_concat.1 h
  exact ⟨fun earlier hmem => (hearlier earlier hmem).1,
    fun earlier hmem => (hearlier earlier (List.dropLast_subset _ hmem)).2, hnodup,
    by omega, by omega⟩

theorem arranged_nil (policy : DecoderPolicy) : Arranged policy [] :=
  ⟨nofun, nofun, List.nodup_nil, Nat.zero_le _, Nat.zero_le _⟩

/-- The last event of the blocks is one that grew them. -/
theorem exists_grows {policy : DecoderPolicy} {blocks : List Block} (hne : blocks ≠ [])
    (h : Arranged policy blocks) :
    ∃ before event, Arranged policy before ∧ Grows before event blocks := by
  rcases List.eq_nil_or_concat blocks with rfl | ⟨earlier, last, rfl⟩
  · exact absurd rfl hne
  rw [List.concat_eq_append] at h ⊢
  obtain ⟨hearlier, hlast, hnodup, hfresh, hproofs, htools⟩ := arranged_concat.1 h
  cases last with
  | Text deltas =>
      rcases List.eq_nil_or_concat deltas with rfl | ⟨first, text, rfl⟩
      · exact absurd rfl hlast
      · rw [List.concat_eq_append]
        by_cases hfirst : first = []
        · subst hfirst
          exact ⟨earlier, _, arranged_earlier h, .text earlier text⟩
        · exact ⟨_, _, arranged_replace (.Text first) h hfirst rfl hproofs htools,
            .textMore earlier first text⟩
  | Reasoning kind parts =>
      obtain ⟨⟨first, rest, rfl⟩, hone, hsupported⟩ := hlast
      rcases List.eq_nil_or_concat rest with rfl | ⟨middle, part, rfl⟩
      · exact ⟨earlier, _, arranged_earlier h, .reasoning earlier kind first⟩
      · rw [List.concat_eq_append, ← List.cons_append] at *
        refine ⟨earlier ++ [.Reasoning kind (.Delta first :: middle)], _, ?_,
          .part earlier kind (.Delta first :: middle) part⟩
        cases part with
        | Delta text =>
            rw [proofs_delta] at hone hsupported
            rw [proofBytes_delta] at hproofs
            exact arranged_replace _ h ⟨⟨first, middle, rfl⟩, hone, hsupported⟩ rfl hproofs
              htools
        | Proof proof =>
            rw [proofs_proof] at hone
            have hnone : Block.proofs (.Reasoning kind (.Delta first :: middle)) = [] := by
              rw [← List.length_eq_zero_iff]
              rw [List.length_append, List.length_singleton] at hone
              omega
            rw [proofBytes_proof kind proof hnone] at hproofs
            refine arranged_replace _ h ⟨⟨first, middle, rfl⟩, ?_, fun h => absurd hnone h⟩ rfl
              (by omega) htools
            rw [hnone]
            exact Nat.zero_le _
  | Call callId name deltas ended =>
      obtain ⟨hname, hlength, hbytes, hended⟩ := hlast
      cases ended with
      | true =>
          refine ⟨_, _, arranged_replace (.Call callId name deltas false) h
            ⟨hname, hlength, hbytes, nofun⟩ rfl hproofs htools,
            .finish earlier callId name deltas⟩
      | false =>
          rcases List.eq_nil_or_concat deltas with rfl | ⟨first, delta, rfl⟩
          · exact ⟨earlier, _, arranged_earlier h, .start earlier callId name⟩
          · rw [List.concat_eq_append] at *
            rw [List.length_append] at hlength
            rw [deltaBytes_concat] at hbytes
            rw [show Block.toolBytes (.Call callId name (first ++ [delta]) false) =
              Block.deltaBytes first + utf8Len delta.toList from deltaBytes_concat first delta]
              at htools
            refine ⟨_, _, arranged_replace (.Call callId name first false) h
              ⟨hname, by omega, by omega, nofun⟩ rfl hproofs ?_,
              .delta earlier callId name first delta⟩
            show _ + Block.deltaBytes first ≤ _
            omega

theorem blockEvents_append (index : Nat) (first second : List Block) :
    blockEvents index (first ++ second) =
      blockEvents index first ++ blockEvents (index + first.length) second := by
  induction first generalizing index with
  | nil => rfl
  | cons block first ih =>
      rw [List.cons_append, blockEvents, blockEvents, ih, List.append_assoc, List.length_cons,
        Nat.add_right_comm, Nat.add_assoc]

theorem blockEvents_concat (blocks : List Block) (block : Block) :
    blockEvents 0 (blocks ++ [block]) = blockEvents 0 blocks ++ block.events blocks.length := by
  rw [blockEvents_append, Nat.zero_add]
  simp [blockEvents]

/-- What an event grows is what it adds. -/
theorem Grows.events {blocks grown : List Block} {event : NormalizedEvent}
    (h : Grows blocks event grown) :
    blockEvents 0 grown = blockEvents 0 blocks ++ [event] ∧ isTerminal event = false := by
  cases h with
  | text | reasoning | start =>
      rw [blockEvents_concat]
      exact ⟨rfl, rfl⟩
  | textMore | delta | finish =>
      rw [blockEvents_concat, blockEvents_concat]
      simp [Block.events, isTerminal]
  | part earlier kind parts part =>
      rw [blockEvents_concat, blockEvents_concat]
      refine ⟨by simp [Block.events], ?_⟩
      cases part <;> rfl

/-! ## One event -/

theorem acceptEvent_ok {s t : EventReducer} {event : NormalizedEvent} :
    s.acceptEvent event = .ok t ↔
      ValidEvent event ∧ s.eventCharge + eventCharge event ≤ MAX_CUMULATIVE_EVENT_CHARGE ∧
        { s with eventCharge := s.eventCharge + eventCharge event }.applyEvent event =
          .ok t := by
  unfold EventReducer.acceptEvent
  simp only [bind_eq_ok, validateNormalizedEvent_ok]
  constructor
  · rintro ⟨_, ⟨hvalid, rfl⟩, total, htotal, h⟩
    unfold checkedAdd at htotal
    split at htotal
    · cases htotal
      split at h
      · cases h
      · rename_i hover
        exact ⟨hvalid, by omega, h⟩
    · cases htotal
  · rintro ⟨hvalid, hle, h⟩
    unfold MAX_CUMULATIVE_EVENT_CHARGE at hle ⊢
    refine ⟨_, ⟨hvalid, rfl⟩, _, if_pos ?_, ?_⟩
    · unfold U64_MAX
      omega
    · rw [if_neg (by omega)]
      exact h

theorem rejectOpenTool_ok {policy : DecoderPolicy} {blocks : List Block}
    {count charge : Nat} {seen : Bool} (h : Arranged policy blocks) :
    (image policy blocks count charge seen).rejectOpenTool = .ok () ↔
      ∀ block ∈ blocks, block.isOpen = false := by
  unfold EventReducer.rejectOpenTool
  show (if (slotOf blocks).any (·.kind.isOpenTool) then _ else _) = _ ↔ _
  rcases List.eq_nil_or_concat blocks with rfl | ⟨earlier, last, rfl⟩
  · simp
  · rw [List.concat_eq_append] at h ⊢
    have hearlier := (arranged_concat.1 h).1
    rw [slotOf_concat, Option.any_some, kindOf_isOpenTool]
    constructor
    · intro hok block hblock
      rcases List.mem_append.1 hblock with hblock | hblock
      · exact (hearlier block hblock).2
      · rw [List.mem_singleton.1 hblock]
        by_contra hopen
        rw [if_pos (by simpa using hopen)] at hok
        cases hok
    · intro hall
      rw [if_neg (by rw [hall last (by simp)]; exact Bool.false_ne_true)]

/-- A terminal is applied exactly where it may end the blocks. -/
theorem applyTerminal_ok {policy : DecoderPolicy} {blocks : List Block}
    {count charge : Nat} {event : NormalizedEvent} {t : EventReducer}
    (h : Arranged policy blocks) (hevent : isTerminal event = true) :
    (image policy blocks count charge false).applyEvent event = .ok t ↔
      Terminates blocks event ∧ t = image policy blocks count charge true := by
  cases event with
  | Failed error =>
      show (EventReducer.rejectOpenTool _ >>= fun _ => _) = _ ↔ _
      rw [bind_eq_ok]
      constructor
      · rintro ⟨_, hreject, heq⟩
        cases heq
        exact ⟨(rejectOpenTool_ok h).1 hreject, rfl⟩
      · rintro ⟨hclosed, rfl⟩
        exact ⟨(), (rejectOpenTool_ok h).2 hclosed, rfl⟩
  | Completed terminal =>
      have hsealed : decide ((image policy blocks count charge false).completeCalls > 0) = true ↔
          ∃ block ∈ blocks, block.isSealed = true := by
        rw [decide_eq_true_eq]
        exact List.countP_pos_iff
      have hreason : (terminal.reason == .ToolUse) = true ↔ terminal.reason = .ToolUse :=
        beq_iff_eq
      show ((EventReducer.rejectOpenTool _ >>= fun _ => _) >>= fun _ => _) = _ ↔ _
      simp only [bind_eq_ok]
      constructor
      · rintro ⟨_, ⟨_, hreject, hplaced⟩, heq⟩
        cases heq
        split at hplaced
        · cases hplaced
        · rename_i hsame
          refine ⟨⟨(rejectOpenTool_ok h).1 hreject, ?_⟩, rfl⟩
          rw [← hreason, ← hsealed]
          simp only [bne_iff_ne, ne_eq, not_not] at hsame
          rw [hsame]
      · rintro ⟨⟨hclosed, hsame⟩, rfl⟩
        refine ⟨(), ⟨(), (rejectOpenTool_ok h).2 hclosed, ?_⟩, rfl⟩
        rw [← hreason, ← hsealed] at hsame
        rw [if_neg]
        simp only [bne_iff_ne, ne_eq, not_not]
        exact Bool.eq_iff_iff.2 hsame
  | _ => cases hevent

theorem batchCharge_concat (events : List NormalizedEvent) (event : NormalizedEvent) :
    batchCharge (events ++ [event]) = batchCharge events + eventCharge event := by
  simp [batchCharge]

/-- Events that are accepted stay within the grammar. -/
theorem acceptEvent_parsed {policy : DecoderPolicy} {events : List NormalizedEvent}
    {blocks : List Block} {event : NormalizedEvent} {count : Nat} {t : EventReducer}
    (h : Parsed policy events blocks none)
    (haccept : (image policy blocks count (batchCharge events) false).acceptEvent event =
      .ok t) :
    ∃ grown terminal, Parsed policy (events ++ [event]) grown terminal ∧
      terminal.isSome = isTerminal event ∧
      t = image policy grown count (batchCharge (events ++ [event])) terminal.isSome := by
  obtain ⟨hvalid, hcharge, happly⟩ := acceptEvent_ok.1 haccept
  have hsplit : events = blockEvents 0 blocks := by simpa using h.split
  have hall : ∀ other ∈ events ++ [event], ValidEvent other := by
    intro other hother
    rcases List.mem_append.1 hother with hother | hother
    · exact h.valid other hother
    · rw [List.mem_singleton.1 hother]
      exact hvalid
  have htotal : batchCharge (events ++ [event]) ≤ MAX_CUMULATIVE_EVENT_CHARGE := by
    rw [batchCharge_concat]
    exact hcharge
  rw [batchCharge_concat]
  by_cases hevent : isTerminal event = true
  · obtain ⟨hends, rfl⟩ := (applyTerminal_ok h.arranged hevent).1 happly
    refine ⟨blocks, some event, ⟨?_, h.arranged, ?_, hall, htotal⟩, hevent.symm, rfl⟩
    · rw [← hsplit]
      rfl
    · intro other hother
      cases hother
      exact hends
  · rw [Bool.not_eq_true] at hevent
    obtain ⟨grown, hgrows, hgrown, rfl⟩ :=
      applyEvent_grows h.arranged hvalid.fields hevent happly
    refine ⟨grown, none, ⟨?_, hgrown, nofun, hall, htotal⟩, hevent.symm, rfl⟩
    rw [hgrows.events.1, ← hsplit]
    simp

/-- Events within the grammar are accepted. -/
theorem parsed_acceptEvent {policy : DecoderPolicy} {events : List NormalizedEvent}
    {grown : List Block} {terminal : Option NormalizedEvent} {event : NormalizedEvent}
    (h : Parsed policy (events ++ [event]) grown terminal) :
    ∃ blocks, Parsed policy events blocks none ∧ ∀ count,
      (image policy blocks count (batchCharge events) false).acceptEvent event =
        .ok (image policy grown count (batchCharge (events ++ [event])) terminal.isSome) := by
  have hvalid := h.valid event (by simp)
  have hcharged : batchCharge (events ++ [event]) ≤ MAX_CUMULATIVE_EVENT_CHARGE := h.charged
  rw [batchCharge_concat] at hcharged
  have hearlier (blocks : List Block) (hblocks : Arranged policy blocks)
      (hsplit : events = blockEvents 0 blocks) : Parsed policy events blocks none :=
    ⟨by simpa using hsplit, hblocks, nofun,
      fun other hother => h.valid other (List.mem_append_left _ hother),
      by show batchCharge events ≤ _; omega⟩
  rw [batchCharge_concat]
  cases terminal with
  | some last =>
      obtain ⟨hsplit, hlast⟩ := List.append_inj' h.split rfl
      cases hlast
      refine ⟨grown, hearlier grown h.arranged hsplit, fun count =>
        acceptEvent_ok.2 ⟨hvalid, hcharged, ?_⟩⟩
      have hends := h.ended event rfl
      have hterminal : isTerminal event = true := by
        cases event with
        | Completed | Failed => rfl
        | _ => exact hends.elim
      exact (applyTerminal_ok h.arranged hterminal).2 ⟨hends, rfl⟩
  | none =>
      have hsplit : events ++ [event] = blockEvents 0 grown := by simpa using h.split
      have hne : grown ≠ [] := by
        rintro rfl
        simp [blockEvents] at hsplit
      obtain ⟨before, last, hbefore, hgrows⟩ := exists_grows hne h.arranged
      rw [hgrows.events.1] at hsplit
      obtain ⟨hevents, hlast⟩ := List.append_inj' hsplit rfl
      cases hlast
      exact ⟨before, hearlier before hbefore hevents, fun count =>
        acceptEvent_ok.2 ⟨hvalid, hcharged,
          grows_applyEvent hbefore hgrows h.arranged hvalid.fields⟩⟩

/-! ## Batches -/

/-- The events of a batch, one by one: what is accepted is in the grammar. -/
theorem reduceEvents_parsed {policy : DecoderPolicy} {events more : List NormalizedEvent}
    {blocks : List Block} {count : Nat} {batch result : EventBatch} {t : EventReducer}
    (h : Parsed policy events blocks none)
    (hmore : ∀ event ∈ more.dropLast, isTerminal event = false)
    (hreduce : (image policy blocks count (batchCharge events) false).reduceEvents more batch =
      .ok (result, t)) :
    ∃ grown terminal, Parsed policy (events ++ more) grown terminal ∧
      t = image policy grown count (batchCharge (events ++ more)) terminal.isSome := by
  induction more generalizing events blocks batch with
  | nil =>
      cases hreduce
      rw [List.append_nil]
      exact ⟨blocks, none, h, rfl⟩
  | cons event more ih =>
      simp only [EventReducer.reduceEvents, bind_eq_ok] at hreduce
      obtain ⟨next, hnext, hreduce⟩ := hreduce
      obtain ⟨grown, terminal, hgrown, hterminal, rfl⟩ := acceptEvent_parsed h hnext
      rw [List.append_cons]
      by_cases hlast : more = []
      · subst hlast
        cases hreduce
        rw [List.append_nil]
        exact ⟨grown, terminal, hgrown, rfl⟩
      · rw [List.dropLast_cons_of_ne_nil hlast] at hmore
        have hnone : terminal = none := by
          rw [hmore event List.mem_cons_self] at hterminal
          simpa using hterminal
        subst hnone
        exact ih hgrown (fun other hother => hmore other (List.mem_cons_of_mem _ hother))
          hreduce

/-- What is in the grammar is accepted, whatever comes before the batch. -/
theorem parsed_reduceEvents {policy : DecoderPolicy} {events more : List NormalizedEvent}
    {grown : List Block} {terminal : Option NormalizedEvent}
    (h : Parsed policy (events ++ more) grown terminal) :
    ∃ blocks before, Parsed policy events blocks before ∧ (more ≠ [] → before = none) ∧
      ∀ count batch, ∃ result,
        (image policy blocks count (batchCharge events) before.isSome).reduceEvents more batch =
          .ok (result,
            image policy grown count (batchCharge (events ++ more)) terminal.isSome) := by
  induction more generalizing events with
  | nil =>
      rw [List.append_nil] at h ⊢
      exact ⟨grown, terminal, h, fun hne => absurd rfl hne, fun count batch => ⟨batch, rfl⟩⟩
  | cons event more ih =>
      rw [List.append_cons] at h ⊢
      obtain ⟨middle, between, hmiddle, -, hrest⟩ := ih h
      obtain ⟨blocks, hblocks, hevent⟩ := parsed_acceptEvent hmiddle
      refine ⟨blocks, none, hblocks, fun _ => rfl, fun count batch => ?_⟩
      simp only [EventReducer.reduceEvents, bind_eq_ok]
      exact (hrest count _).imp fun result hresult => ⟨_, hevent count, hresult⟩

/-- Where a terminal may stand in a batch. -/
theorem validateTerminalPosition_ok {s : EventReducer} {events : List NormalizedEvent}
    {afterEnd : Bool} (hne : events ≠ []) :
    s.validateTerminalPosition events afterEnd = .ok () ↔
      s.terminalSeen = false ∧ (∀ event ∈ events.dropLast, isTerminal event = false) ∧
        (events.any isTerminal = true → afterEnd = true) := by
  obtain ⟨first, last, rfl⟩ : ∃ first last, events = first ++ [last] :=
    ⟨events.dropLast, events.getLast hne, (List.dropLast_concat_getLast hne).symm⟩
  rw [EventReducer.validateTerminalPosition_concat, List.dropLast_concat]
  constructor
  · rintro ⟨hseen, hfirst, hlast⟩
    refine ⟨hseen, hfirst, fun hany => hlast ?_⟩
    obtain ⟨event, hmem, hevent⟩ := List.any_eq_true.1 hany
    rcases List.mem_append.1 hmem with hmem | hmem
    · rw [hfirst event hmem] at hevent
      cases hevent
    · rw [← List.mem_singleton.1 hmem]
      exact hevent
  · rintro ⟨hseen, hfirst, hany⟩
    exact ⟨hseen, hfirst, fun hlast => hany (List.any_eq_true.2 ⟨last, by simp, hlast⟩)⟩

theorem blockEvents_nonterminal (index : Nat) (blocks : List Block) :
    ∀ event ∈ blockEvents index blocks, isTerminal event = false := by
  induction blocks generalizing index with
  | nil => nofun
  | cons block blocks ih =>
      intro event hevent
      rcases List.mem_append.1 hevent with hevent | hevent
      · cases block with
        | Text deltas =>
            obtain ⟨_, -, rfl⟩ := List.mem_map.1 hevent
            rfl
        | Reasoning kind parts =>
            obtain ⟨part, -, rfl⟩ := List.mem_map.1 hevent
            cases part <;> rfl
        | Call callId name deltas ended =>
            rcases List.mem_cons.1 hevent with rfl | hevent
            · rfl
            · rcases List.mem_append.1 hevent with hevent | hevent
              · obtain ⟨_, -, rfl⟩ := List.mem_map.1 hevent
                rfl
              · split at hevent
                · rw [List.mem_singleton.1 hevent]
                  rfl
                · cases hevent
      · exact ih (index + 1) event hevent

/-- A terminal stands last. -/
theorem parsed_nonterminal {policy : DecoderPolicy} {events more : List NormalizedEvent}
    {blocks : List Block} {terminal : Option NormalizedEvent}
    (h : Parsed policy (events ++ more) blocks terminal) :
    ∀ event ∈ more.dropLast, isTerminal event = false := by
  intro event hevent
  by_cases hmore : more = []
  · subst hmore
    cases hevent
  · refine blockEvents_nonterminal 0 blocks event ?_
    have hmem : event ∈ (events ++ more).dropLast := by
      rw [List.dropLast_append_of_ne_nil hmore]
      exact List.mem_append_right _ hevent
    rw [h.split] at hmem
    cases terminal with
    | none =>
        rw [Option.toList_none, List.append_nil] at hmem
        exact List.dropLast_subset _ hmem
    | some last => rwa [Option.toList_some, List.dropLast_concat] at hmem

/-- A batch as the reducer of a successful response takes it. -/
theorem reduceBatch_ok {s : EventReducer} {events : List NormalizedEvent} {limit : Nat}
    {afterEnd : Bool} {result : EventBatch × EventReducer} :
    s.reduceBatch events limit afterEnd true = .ok result ↔
      Pullable events limit afterEnd ∧ (∀ event ∈ events, ValidEvent event) ∧
      s.terminalSeen = false ∧ (∀ event ∈ events.dropLast, isTerminal event = false) ∧
      s.eventCount + events.length ≤ MAX_EVENTS ∧
      ({ s with eventCount := s.eventCount + events.length }).reduceEvents events ⟨[], none⟩ =
        .ok result := by
  unfold EventReducer.reduceBatch
  rw [bind_eq_ok]
  constructor
  · rintro ⟨_, hbatch, h⟩
    obtain ⟨hasked, hne, hwithin, hvalid, hcharged⟩ := validateEventBatch_ok.1 hbatch
    rw [bind_eq_ok] at h
    obtain ⟨_, hposition, h⟩ := h
    obtain ⟨hseen, hfirst, hplaced⟩ := (validateTerminalPosition_ok hne).1 hposition
    simp only [Bool.not_true, Bool.false_eq_true, if_false, bind_eq_ok] at h
    obtain ⟨length, hlength, total, htotal, h⟩ := h
    unfold checkedLen at hlength
    unfold checkedAdd at htotal
    split at hlength
    · cases hlength
      split at htotal
      · cases htotal
        split at h
        · cases h
        · rename_i hover
          exact ⟨⟨hasked, hne, hwithin, hcharged, hplaced⟩, hvalid, hseen, hfirst, by omega, h⟩
      · cases htotal
    · cases hlength
  · rintro ⟨hpull, hvalid, hseen, hfirst, hcount, h⟩
    refine ⟨(), validateEventBatch_ok.2
      ⟨hpull.asked, hpull.nonempty, hpull.within, hvalid, hpull.charged⟩, ?_⟩
    rw [bind_eq_ok]
    refine ⟨(), (validateTerminalPosition_ok hpull.nonempty).2 ⟨hseen, hfirst, hpull.placed⟩, ?_⟩
    simp only [Bool.not_true, Bool.false_eq_true, if_false, bind_eq_ok]
    unfold MAX_EVENTS at hcount
    refine ⟨events.length, if_pos (by unfold U64_MAX; omega), _,
      if_pos (by unfold U64_MAX; omega), ?_⟩
    rw [if_neg (by unfold MAX_EVENTS; omega)]
    exact h

/-- One answer of the guest to a pull: its events, the limit of the pull, and
whether the end of the response was pushed before. -/
structure Batch where
  events : List NormalizedEvent
  limit : Nat
  afterEnd : Bool

def Batch.Ok (batch : Batch) : Prop := Pullable batch.events batch.limit batch.afterEnd

/-- The batches of a successful response, one after the other. -/
def reduceBatches (s : EventReducer) : List Batch → ValidationResult EventReducer
  | [] => .ok s
  | batch :: batches => do
      let (_, next) ← s.reduceBatch batch.events batch.limit batch.afterEnd true
      reduceBatches next batches

theorem reduceBatches_parsed {policy : DecoderPolicy} {batches : List Batch}
    {events : List NormalizedEvent} {blocks : List Block} {terminal : Option NormalizedEvent}
    {t : EventReducer} (h : Parsed policy events blocks terminal)
    (hcount : events.length ≤ MAX_EVENTS)
    (hreduce : reduceBatches (image policy blocks events.length (batchCharge events)
      terminal.isSome) batches = .ok t) :
    (∀ batch ∈ batches, batch.Ok) ∧
      (events ++ batches.flatMap (·.events)).length ≤ MAX_EVENTS ∧
      ∃ grown last, Parsed policy (events ++ batches.flatMap (·.events)) grown last := by
  induction batches generalizing events blocks terminal with
  | nil =>
      rw [List.flatMap_nil, List.append_nil]
      exact ⟨nofun, hcount, blocks, terminal, h⟩
  | cons batch batches ih =>
      rw [reduceBatches, bind_eq_ok] at hreduce
      obtain ⟨⟨result, next⟩, hbatch, hrest⟩ := hreduce
      obtain ⟨hpull, -, hseen, hfirst, htotal, hevents⟩ := reduceBatch_ok.1 hbatch
      have hnone : terminal = none := by
        have hisSome : terminal.isSome = false := hseen
        simpa using hisSome
      subst hnone
      obtain ⟨middle, between, hmiddle, rfl⟩ := reduceEvents_parsed h hfirst hevents
      have hlength : (events ++ batch.events).length ≤ MAX_EVENTS := by
        rw [List.length_append]
        exact htotal
      have hstate : image policy middle (events.length + batch.events.length)
          (batchCharge (events ++ batch.events)) between.isSome =
          image policy middle (events ++ batch.events).length
            (batchCharge (events ++ batch.events)) between.isSome := by
        rw [List.length_append]
      obtain ⟨hok, hall, hparsed⟩ := ih hmiddle hlength (hstate ▸ hrest)
      rw [List.flatMap_cons, ← List.append_assoc]
      exact ⟨List.forall_mem_cons.2 ⟨hpull, hok⟩, hall, hparsed⟩

theorem parsed_reduceBatches {policy : DecoderPolicy} {batches : List Batch}
    {events : List NormalizedEvent} {grown : List Block} {last : Option NormalizedEvent}
    (h : Parsed policy (events ++ batches.flatMap (·.events)) grown last)
    (hcount : (events ++ batches.flatMap (·.events)).length ≤ MAX_EVENTS)
    (hok : ∀ batch ∈ batches, batch.Ok) :
    ∃ blocks terminal, Parsed policy events blocks terminal ∧ ∃ t,
      reduceBatches (image policy blocks events.length (batchCharge events) terminal.isSome)
        batches = .ok t := by
  induction batches generalizing events with
  | nil =>
      rw [List.flatMap_nil, List.append_nil] at h
      exact ⟨grown, last, h, _, rfl⟩
  | cons batch batches ih =>
      rw [List.flatMap_cons, ← List.append_assoc] at h hcount
      obtain ⟨middle, between, hmiddle, t, hrest⟩ :=
        ih h hcount fun other hother => hok other (List.mem_cons_of_mem _ hother)
      obtain ⟨blocks, before, hblocks, hbefore, hevents⟩ := parsed_reduceEvents hmiddle
      have hpull : batch.Ok := hok batch List.mem_cons_self
      have hnone := hbefore hpull.nonempty
      subst hnone
      refine ⟨blocks, none, hblocks, t, ?_⟩
      obtain ⟨result, hresult⟩ := hevents (events.length + batch.events.length) ⟨[], none⟩
      rw [reduceBatches, bind_eq_ok]
      refine ⟨_, reduceBatch_ok.2 ⟨hpull, ?_, rfl, ?_, ?_, hresult⟩, ?_⟩
      · exact fun event hmem => hmiddle.valid event (List.mem_append_right _ hmem)
      · exact parsed_nonterminal hmiddle
      · simp only [List.length_append] at hcount
        show events.length + batch.events.length ≤ MAX_EVENTS
        omega
      · rw [List.length_append] at hrest
        exact hrest

theorem parsed_nil {policy : DecoderPolicy} {blocks : List Block}
    {terminal : Option NormalizedEvent} (h : Parsed policy [] blocks terminal) :
    blocks = [] ∧ terminal = none := by
  obtain ⟨hblocks, hterminal⟩ := List.append_eq_nil_iff.1 h.split.symm
  refine ⟨?_, ?_⟩
  · by_contra hne
    obtain ⟨before, event, -, hgrows⟩ := exists_grows hne h.arranged
    rw [hgrows.events.1] at hblocks
    simp at hblocks
  · cases terminal with
    | none => rfl
    | some last => cases hterminal

/-- The stream that no batch splits is accepted batch by batch. -/
theorem reduceBatches_ok (policy : DecoderPolicy) (batches : List Batch) :
    (∃ t, reduceBatches (EventReducer.new policy) batches = .ok t) ↔
      (∀ batch ∈ batches, batch.Ok) ∧ Grammar policy (batches.flatMap (·.events)) := by
  have hnew : EventReducer.new policy = image policy [] 0 0 false := rfl
  have hempty : Parsed policy [] [] none :=
    ⟨rfl, arranged_nil policy, nofun, nofun, Nat.zero_le _⟩
  rw [hnew]
  constructor
  · rintro ⟨t, h⟩
    obtain ⟨hok, hcount, hparsed⟩ := reduceBatches_parsed hempty (Nat.zero_le _) h
    exact ⟨hok, hcount, hparsed⟩
  · rintro ⟨hok, hcount, grown, last, hparsed⟩
    have hwhole : Parsed policy ([] ++ batches.flatMap (·.events)) grown last := hparsed
    obtain ⟨blocks, terminal, hblocks, t, h⟩ := parsed_reduceBatches hwhole hcount hok
    obtain ⟨rfl, rfl⟩ := parsed_nil hblocks
    exact ⟨t, h⟩

/-- Every way of splitting a stream into batches: the reducer accepts it exactly
if each batch fits its pull and the whole is in the grammar, so not depending on
the splitting; and a batch that is refused adds nothing to the queue. -/
theorem batches_follow_grammar (policy : DecoderPolicy) :
    (∀ batches : List Batch,
      (∃ t, reduceBatches (EventReducer.new policy) batches = .ok t) ↔
        (∀ batch ∈ batches, batch.Ok) ∧ Grammar policy (batches.flatMap (·.events))) ∧
    (∀ batches others : List Batch, (∀ batch ∈ batches, batch.Ok) →
      (∀ batch ∈ others, batch.Ok) →
      batches.flatMap (·.events) = others.flatMap (·.events) →
      ((∃ t, reduceBatches (EventReducer.new policy) batches = .ok t) ↔
        ∃ t, reduceBatches (EventReducer.new policy) others = .ok t)) ∧
    (∀ (s : DecoderReducer) (events : List NormalizedEvent) (limit : Nat) (afterEnd : Bool)
      (error : ValidationError), s.DrainsBody afterEnd → s.inFlight = some (.Pull limit) →
      s.events.reduceBatch events limit afterEnd s.successful = .error error →
      (s.pullReceipt (.ok (.Events events))).1.acceptedEvents = [] ∧
        (s.pullReceipt (.ok (.Events events))).2.queueLen = s.queueLen ∧
        (s.pullReceipt (.ok (.Events events))).2.state = .Closed) := by
  refine ⟨reduceBatches_ok policy, ?_, ?_⟩
  · intro batches others hbatches hothers hsame
    rw [reduceBatches_ok, reduceBatches_ok, hsame]
    exact ⟨fun h => ⟨hothers, h.2⟩, fun h => ⟨hbatches, h.2⟩⟩
  · intro s events limit afterEnd error hdraining houtstanding hrefused
    have hpull : s.pullReceipt (.ok (.Events events)) =
        { s with inFlight := none }.acceptEvents events limit afterEnd := by
      unfold DecoderReducer.pullReceipt
      unfold DecoderReducer.DrainsBody at hdraining
      cases afterEnd with
      | false => simp [hdraining, houtstanding]
      | true => simp [hdraining, houtstanding]
    have herror : { s with inFlight := none }.events.reduceBatch events limit afterEnd
        { s with inFlight := none }.successful = .error error := hrefused
    rw [hpull]
    unfold DecoderReducer.acceptEvents
    rw [herror]
    cases error with
    | InvalidArgument => exact ⟨rfl, rfl, rfl⟩
    | Limit => exact ⟨rfl, rfl, rfl⟩

end MCode.Validation.Reduction
