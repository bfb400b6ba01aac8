/-
The forms of an address (`util.c`): relative to the CSE, relative to the service provider, absolute, or
of a protocol binding, and whether one of the middle two is for this CSE.
-/
import TinyIoT.Server.Lookup

namespace TinyIoT

/-- `ResourceAddressingType`. -/
inductive Addressing where
  | cseRelative | spRelative | absolute | protocolBinding
  deriving DecidableEq, Repr

/-- `checkResourceAddressingType`. -/
def addressingType (uri : CStr) : Addressing :=
  if ['/', '/'].isPrefixOf uri then .absolute
  else if ['/'].isPrefixOf uri then .spRelative
  else if ["http://", "mqtt://", "coap://", "coaps://", "wss://", "ws://"].any fun p => p.toList.isPrefixOf uri then
    .protocolBinding
  else .cseRelative

/-- `isSpRelativeLocal`. -/
def isSpRelativeLocal (addr : CStr) : Bool :=
  match addr with
  | '/' :: rest =>
    let cseId := ((cutSlash rest).map (·.1)).getD rest
    cseId = cseBaseRi || cseId = cseBaseName
  | _ => false

/-- `isSPIDLocal`. -/
def isSPIDLocal (addr : CStr) : Bool :=
  match addr with
  | '/' :: '/' :: rest =>
    let spid := ((cutSlash rest).map (·.1)).getD rest
    spid = "tinyiot.example.com".toList
  | _ => false

/-- `checkResourceCseID`. -/
def checkResourceCseID (uri cseId : CStr) : Bool := (cseId ++ ['/']).isPrefixOf uri

end TinyIoT
