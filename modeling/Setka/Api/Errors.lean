/-
# Setka.Api.Errors — the exceptions the modelled code raises.
-/

namespace Setka.Api

/-- An exception, by its class. A `SynapseError` carries the status, the text and the error code that
the client sees. -/
inductive Error
  | exception
  | indexError
  | keyError
  | assertionError
  | attributeError
  | nameError
  | typeError
  | valueError
  | overflowError
  | noChainCoverIndex
  | integrityError
  | httpResponseException
  | moduleFailedException
  | synapseError (code : Nat) (msg errcode : String)
  deriving DecidableEq

end Setka.Api
