import Mathlib.Data.List.Basic

/-!
# Callback reasons

The `enum lws_callback_reasons` values that `lwsjs_callback_protocol` (`lws-protocol.c`) and the
classification helpers of `lws.h` name. Every other reason is `other`.
-/

namespace QjsLws.Protocol

inductive Reason where
  | http
  | httpBody
  | httpBodyCompletion
  | filterHttpConnection
  | filterProtocolConnection
  | httpConfirmUpgrade
  | checkAccessRights
  | clientFilterPreEstablish
  | establishedClientHttp
  | established
  | clientEstablished
  | rawConnected
  | clientAppendHandshakeHeader
  | httpWriteable
  | clientHttpWriteable
  | serverWriteable
  | clientWriteable
  | rawProxyCliWriteable
  | rawProxySrvWriteable
  | rawWriteable
  | rawWriteableFile
  | mqttClientWriteable
  | protocolInit
  | httpBindProtocol
  | other (code : Nat)
  deriving DecidableEq, Repr

/-- `is_headers_reason` (`lws.h`). -/
def isHeadersReason : Reason → Bool
  | .filterProtocolConnection | .clientFilterPreEstablish | .filterHttpConnection
  | .httpConfirmUpgrade | .establishedClientHttp => true
  | _ => false

end QjsLws.Protocol
