import MCode.Provider.Error

/-!
# Requests and stream events

The provider-neutral data of `mcode-provider-api/src/provider.rs`.  Of a
request only the messages are kept: the system prompt and the tool
specifications go to the provider untouched, and nothing here reads them.
-/

namespace MCode.Provider

open MCode.Core

def MAX_REQUEST_ENCODED_BYTES : Nat := 8 * 1024 * 1024

structure Request where
  messages : List Message

/-- `Request::validate`, given the length of the JSON encoding, if there is
one. -/
def Request.validate (serde : SerdeJson) (encoded : Option Nat) :
    Except ProviderError Unit :=
  match encoded with
  | none =>
      .error (.withMessage serde .Protocol "provider request could not be encoded")
  | some length =>
      if MAX_REQUEST_ENCODED_BYTES < length then
        .error (.withMessage serde .Rejected
          "provider request exceeds the encoded size limit")
      else .ok ()

inductive StreamEvent where
  | TextDelta (delta : String)
  | ThinkingDelta (delta : String)
  | ToolCallDelta (id partialJson : String)
  | Done (message : AssistantMessage)
  | Error (error : ProviderError)

def StreamEvent.isTerminal : StreamEvent → Bool
  | .Done _ => true
  | .Error _ => true
  | _ => false

end MCode.Provider
