import AgenticPrd.Backend.Schemas

/-!
The exceptions of the backend (`errors.py`) and the ones of Python that its code raises or catches.
-/

namespace AgenticPrd

inductive ProviderError where
  | provider
  | retryable
  | authentication
  | invalidModel
  | insufficientBalance
  | forbidden
  | requestRejected
  | incompleteOutput
  | outputTruncated
  | outputUnfinished
  | outputInterrupted
  | contentFiltered
  deriving DecidableEq, Repr

namespace ProviderError

def code : ProviderError → String
  | provider => "PROVIDER_ERROR"
  | retryable => "PROVIDER_TEMPORARY_ERROR"
  | authentication => "PROVIDER_AUTHENTICATION_FAILED"
  | invalidModel => "PROVIDER_MODEL_INVALID"
  | insufficientBalance => "PROVIDER_INSUFFICIENT_BALANCE"
  | forbidden => "PROVIDER_FORBIDDEN"
  | requestRejected => "PROVIDER_REQUEST_REJECTED"
  | incompleteOutput => "PROVIDER_OUTPUT_INCOMPLETE"
  | outputTruncated => "PROVIDER_OUTPUT_TRUNCATED"
  | outputUnfinished => "PROVIDER_OUTPUT_UNFINISHED"
  | outputInterrupted => "PROVIDER_OUTPUT_INTERRUPTED"
  | contentFiltered => "PROVIDER_CONTENT_FILTERED"

def userMessage : ProviderError → String
  | provider => "The configured provider could not complete the request."
  | retryable => "The provider remained unavailable after retry."
  | authentication => "The configured provider rejected the request."
  | invalidModel => "The configured provider rejected the request."
  | insufficientBalance => "The provider account has insufficient balance or quota."
  | forbidden => "The provider denied access to the configured model."
  | requestRejected => "The provider rejected the request payload."
  | incompleteOutput => "The provider returned an incomplete document."
  | outputTruncated => "The provider hit its output limit before finishing."
  | outputUnfinished => "The provider stopped before the document was finished."
  | outputInterrupted => "The provider interrupted the generation."
  | contentFiltered => "The provider blocked this request's content."

-- The subclasses of `RetryableProviderError`, which are the ones with `retryable = True`.
def isRetryable : ProviderError → Bool
  | retryable => true
  | incompleteOutput => true
  | outputTruncated => true
  | outputUnfinished => true
  | outputInterrupted => true
  | _ => false

-- Every provider error passes the checks of `RunError`.
theorem code_length (error : ProviderError) : LengthIn error.code 100 := by
  cases error <;> decide

theorem userMessage_length (error : ProviderError) : LengthIn error.userMessage 2000 := by
  cases error <;> decide

end ProviderError

inductive Exn where
  | workflowCancelled
  | timeoutError
  | providerError (error : ProviderError)
  | validationError
  | illegalTransition (current target : RunStatus)
  | valueError (message : String)
  | databaseError
  | runConflict (code message : String)
  | eventExpired (oldest : Nat)
  | otherError
  deriving DecidableEq, Repr

-- `except (RetryableProviderError, TimeoutError)`
def Exn.isRetried : Exn → Bool
  | .timeoutError => true
  | .providerError error => error.isRetryable
  | _ => false

end AgenticPrd
