import LedgerClient.Duration
import LedgerClient.SystemError

/-!
# Errors of connecting

Why no connection was opened. Nothing is left running after one of them.
-/

namespace LedgerClient

/-- Why no connection was opened. -/
inductive ConnectError
  | invalidEndpoint (reason : String)
  | unsupportedScheme (scheme : String)
  | invalidConfig (reason : String)
  | dial (address : String) (cause : SystemError)
  | timeout (limit : Duration)
  | handshake (reason : String)
deriving DecidableEq, Repr

namespace ConnectError

def message : ConnectError → String
  | .invalidEndpoint reason => "invalid endpoint: " ++ reason
  | .unsupportedScheme scheme =>
    "unsupported URL scheme '" ++ scheme ++ "' (only ws:// is supported)"
  | .invalidConfig reason => "invalid connection config: " ++ reason
  | .dial address cause => "failed to dial " ++ address ++ ": " ++ cause.message
  | .timeout limit => "connect timed out after " ++ limit.text
  | .handshake reason => "WebSocket handshake failed: " ++ reason

def inspect : ConnectError → String
  | .invalidEndpoint reason => Text.Inspect.parts "InvalidEndpoint" [Text.quoted reason]
  | .unsupportedScheme scheme => Text.Inspect.parts "UnsupportedScheme" [Text.quoted scheme]
  | .invalidConfig reason => Text.Inspect.parts "InvalidConfig" [Text.quoted reason]
  | .dial address cause =>
    Text.Inspect.named "Dial" [("addr", Text.quoted address), ("source", cause.inspect)]
  | .timeout limit => Text.Inspect.parts "Timeout" [limit.text]
  | .handshake reason => Text.Inspect.parts "Handshake" [reason]

end ConnectError

end LedgerClient
