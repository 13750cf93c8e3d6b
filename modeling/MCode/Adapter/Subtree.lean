import MCode.Adapter.Compare
import MCode.Lib.Outcome

/-!
# Documents within a request

A document that stands in a request is read as the value of its tree, or
written as the text of its tree; both end, and what they refuse they refuse of
the request.
-/

namespace MCode.Adapter

open MCode.Lib
open MCode.Lib.Results
open MCode.Validation (Text WireJsonDocument WireJsonNode WireJsonField WireLabel ValidationError
  ValidationResult WellFormed WireJsonStats MAX_LOGICAL_CHARGE arenaOf arenaOf_getElem?
  validateWireJson validateWireJson_ok canonicalSerializeForJsonString serializedNodeStats
  serializedNodeStats_eq serializeSized serializeNode_eq treeText treeStats utf8Len)

/-- A request is refused, and not the contract. -/
def Fault.OfRequest (fault : Fault) : Prop :=
  ∃ error, fault = .Refused error ∧ error ≠ .InvalidContract

theorem ends_returned {α : Type} (result : AdapterValidationResult α) :
    Ends (fun fault => ∃ error, result = .error error ∧ fault = .Refused error)
      (fun value => result = .ok value) (returned result) := by
  cases result with
  | error error => exact ⟨error, rfl, rfl⟩
  | ok value => rfl

theorem ends_mapSourceError {α : Type} (result : ValidationResult α) :
    Ends Fault.OfRequest (fun value => result = .ok value)
      (returned (mapSourceError result)) := by
  cases result with
  | ok value => rfl
  | error error =>
      cases error with
      | InvalidArgument => exact ⟨.SourceMismatch, rfl, nofun⟩
      | Limit => exact ⟨.Limit, rfl, nofun⟩

/-! ## The value of a document -/

theorem fromWireNode_ends {document : WireJsonDocument}
    (hdown : (arenaOf document.nodes).Downward) {fuel index : Nat} (hfuel : index < fuel)
    (hindex : index < document.nodes.length) :
    Ends Fault.OfRequest (fun value => (arenaOf document.nodes).Denotes index value.tree)
      (fromWireNode document fuel index) := by
  induction fuel generalizing index with
  | zero => omega
  | succ fuel ih =>
      obtain ⟨node, hnode⟩ : ∃ node, document.nodes[index]? = some node :=
        ⟨_, List.getElem?_eq_getElem hindex⟩
      have hfound := arenaOf_getElem? document.nodes index
      rw [hnode] at hfound
      have hchild (child : Nat) (hmem : child ∈ node.references) : Ends Fault.OfRequest
          (fun value => (arenaOf document.nodes).Denotes child value.tree)
          (fromWireNode document fuel child) := by
        have hlt : child < index := hdown index _ _ hfound child hmem
        exact ih (by omega) (by omega)
      rw [fromWireNode, hnode]
      cases node with
      | NullValue => exact Arena.denotes_node.2 ⟨[], hfound, .nil⟩
      | BooleanValue value => exact Arena.denotes_node.2 ⟨[], hfound, .nil⟩
      | NumberValue value => exact Arena.denotes_node.2 ⟨[], hfound, .nil⟩
      | StringValue value => exact Arena.denotes_node.2 ⟨[], hfound, .nil⟩
      | ArrayValue items =>
          refine (Ends.mapM hchild).bind fun values hvalues => ?_
          refine Arena.denotes_node.2 ⟨items, hfound, ?_⟩
          rw [itemTrees_eq, List.forall₂_map_right_iff]
          exact hvalues
      | ObjectValue fields =>
          have hfield : ∀ field ∈ fields, Ends Fault.OfRequest
              (fun entry => field.key = entry.1 ∧
                (arenaOf document.nodes).Denotes field.value entry.2.tree)
              (do return (field.key, ← fromWireNode document fuel field.value)) := by
            intro field hmem
            refine (hchild field.value (List.mem_map_of_mem hmem)).bind fun value hvalue => ?_
            exact ⟨rfl, hvalue⟩
          refine (Ends.mapM hfield).bind fun entries hentries => ?_
          have hkeys : fields.map (·.key) = entries.map Prod.fst := by
            rw [← List.forall₂_eq_eq_eq, List.forall₂_map_left_iff, List.forall₂_map_right_iff]
            exact hentries.imp fun _ _ h => h.1
          refine Arena.denotes_node.2 ⟨fields.map (·.value), hkeys ▸ hfound, ?_⟩
          rw [fieldTrees_eq, List.map_map, List.forall₂_map_left_iff, List.forall₂_map_right_iff]
          exact hentries.imp fun _ _ h => h.2

/-- A document that is read has the tree of its value. -/
theorem fromWire_ends (document : WireJsonDocument) :
    Ends Fault.OfRequest (fun value => document.Denotes value.tree) (fromWire document) := by
  refine (ends_mapSourceError _).bind fun stats hstats => ?_
  have hwell : WellFormed document true := (validateWireJson_ok.1 hstats).1
  have hroot := hwell.root
  exact fromWireNode_ends hwell.oneTree.below (by omega) (by omega)

/-! ## The text of a document -/

theorem serializeSized_eq {document : WireJsonDocument} {objectRoot : Bool}
    (h : WellFormed document objectRoot) {tree : Rose WireLabel} (htree : document.Denotes tree)
    (length : Nat) : ∃ result, serializeSized document length = some result ∧
      ∀ text, result = .ok text → text = treeText tree := by
  have hroot := h.root
  unfold serializeSized
  rw [serializeNode_eq h.oneTree.below htree (by omega)]
  by_cases hlimit : length > MAX_LOGICAL_CHARGE
  · rw [if_pos hlimit]
    exact ⟨_, rfl, nofun⟩
  · rw [if_neg hlimit]
    by_cases hlength : (utf8Len (treeText tree) != length) = true
    · exact ⟨.error .InvalidArgument, if_pos hlength, nofun⟩
    · exact ⟨.ok (treeText tree), if_neg hlength, fun text htext => (Except.ok.inj htext).symm⟩

theorem canonicalSerializeForJsonString_eq (document : WireJsonDocument) :
    ∃ result, canonicalSerializeForJsonString document = some result ∧
      ∀ text, result = .ok text → ∃ tree, document.Denotes tree ∧ text = treeText tree := by
  unfold canonicalSerializeForJsonString
  cases hvalid : validateWireJson document true with
  | error error => exact ⟨_, rfl, nofun⟩
  | ok stats =>
      have hwell : WellFormed document true := (validateWireJson_ok.1 hvalid).1
      obtain ⟨tree, htree⟩ := hwell.exists_tree
      have hroot := hwell.root
      dsimp only
      rw [serializedNodeStats_eq hwell.oneTree.below htree (by omega)]
      cases treeStats tree with
      | error error => exact ⟨_, rfl, nofun⟩
      | ok measured =>
          obtain ⟨length, escapes⟩ := measured
          dsimp only
          split
          · exact ⟨_, rfl, nofun⟩
          · split
            · exact ⟨_, rfl, nofun⟩
            · obtain ⟨result, hresult, htext⟩ := serializeSized_eq hwell htree length
              exact ⟨result, hresult, fun text hok => ⟨tree, htree, htext text hok⟩⟩

/-- A document that is written is written as the text of its tree. -/
theorem canonicalWireText_ends (document : WireJsonDocument) :
    Ends Fault.OfRequest (fun text => ∃ tree, document.Denotes tree ∧ text.toList = treeText tree)
      (canonicalWireText document) := by
  obtain ⟨result, hresult, htext⟩ := canonicalSerializeForJsonString_eq document
  unfold canonicalWireText
  rw [hresult]
  refine (ends_mapSourceError result).bind fun text hok => ?_
  obtain ⟨tree, htree, rfl⟩ := htext text hok
  exact ⟨tree, htree, String.toList_ofList⟩

end MCode.Adapter
