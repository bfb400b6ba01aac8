/-
The enumerations of `onem2mTypes.h` the server's logic branches on, the constants of `config.h`, and
the tables that relate them: which child types a parent accepts, which types have a database table,
which attributes a CREATE must carry.
-/
import TinyIoT.Base.Json

namespace TinyIoT

/-- `ResourceType`. -/
inductive ResourceType where
  | mixed | acp | ae | cnt | cin | cse | grp | mgmtobj | nod | pch | csr | req | sub | smd | fcnt | ts | tsi
  | crs | fcin | tsb | actr | acpa | aea | cnta | cina | cba | grpa | fcnta | tsa | fcntLa | fcntOl
  deriving DecidableEq, Repr

/-- `get_resource_key`. -/
def getResourceKey : ResourceType → String
  | .cse => "m2m:cb"
  | .ae => "m2m:ae"
  | .cnt => "m2m:cnt"
  | .cin => "m2m:cin"
  | .sub => "m2m:sub"
  | .grp => "m2m:grp"
  | .acp => "m2m:acp"
  | .csr => "m2m:csr"
  | .acpa => "m2m:acpA"
  | .aea => "m2m:aeA"
  | .cnta => "m2m:cntA"
  | .cina => "m2m:cinA"
  | .ts => "m2m:ts"
  | .tsi => "m2m:tsi"
  | .cba => "m2m:cbA"
  | .fcnta => "m2m:fcntA"
  | .fcnt => "m2m:fcnt"
  | .fcin => "m2m:fcin"
  | .grpa => "m2m:grpA"
  | .tsa => "m2m:tsA"
  | _ => "general"

namespace ResourceType

/-- The value the type has in requests, in the `ty` attribute and in the order of siblings. -/
def code : ResourceType → Int
  | mixed => 0 | acp => 1 | ae => 2 | cnt => 3 | cin => 4 | cse => 5 | grp => 9 | mgmtobj => 13
  | nod => 14 | pch => 15 | csr => 16 | req => 17 | sub => 23 | smd => 24 | fcnt => 28 | ts => 29
  | tsi => 30 | crs => 48 | fcin => 58 | tsb => 60 | actr => 63 | acpa => 10001 | aea => 10002
  | cnta => 10003 | cina => 10004 | cba => 10005 | grpa => 10009 | fcnta => 10028 | tsa => 10029
  | fcntLa => 20058 | fcntOl => 20059

/-- Every type. -/
def types : List ResourceType :=
  [mixed, acp, ae, cnt, cin, cse, grp, mgmtobj, nod, pch, csr, req, sub, smd, fcnt, ts, tsi, crs, fcin, tsb, actr, acpa,
   aea, cnta, cina, cba, grpa, fcnta, tsa, fcntLa, fcntOl]

/-- The type a number stands for. -/
def ofCode (n : Int) : Option ResourceType := types.find? fun t => t.code = n

/-- The types `get_table_name` maps to a table of the database. -/
def tables : List ResourceType :=
  [cse, ae, cnt, cin, acp, grp, sub, csr, acpa, aea, cba, cnta, grpa, tsa, cina, fcnt, fcin, ts, tsi]

/-- The type whose table a row with this `ty` goes to. -/
def ofTable (n : Int) : Option ResourceType :=
  tables.find? (fun t => t.code = n)

/-- The `ty` a resource is stored with leads to its own table. -/
theorem ofTable_code {ty : ResourceType} (h : ty ∈ tables) : ofTable (Json.int ty.code).valueint = some ty := by
  rw [Json.valueint_int (by cases ty <;> decide) (by cases ty <;> decide)]
  revert h
  cases ty <;> decide

/-- `isValidChildType`. -/
def isValidChildType : ResourceType → ResourceType → Bool
  | acp, sub => true
  | ae, t => t ∈ [cnt, sub, acp, grp, ts, fcnt]
  | cnt, t => t ∈ [cin, sub, cnt, smd, fcnt, ts]
  | ts, t => t ∈ [tsi, sub]
  | tsi, sub => true
  | cin, smd => true
  | cse, t => t ∈ [acp, ae, cnt, grp, sub, csr, nod, mgmtobj, cba, fcnt, aea, cnta, grpa, acpa, tsa, fcnta]
  | grp, t => t ∈ [sub, smd]
  | csr, t => t ∈ [cnt, cnta, fcnt, grp, grpa, acp, acpa, ae, sub, aea]
  | acpa, sub => true
  | aea, t => t ∈ [sub, cnta, grpa, acpa, tsa, fcnta, cnt, grp, acp, ts]
  | cnta, t => t ∈ [sub, cnta, cina, tsa, fcnta, cnt, cin, ts]
  | tsa, sub => true
  | cba, t => t ∈ [sub, aea, cnta, grpa, acpa, tsa, fcnta, cnt, grp, acp]
  | grpa, sub => true
  | fcnt, t => t ∈ [sub, fcnt, smd, cnt, fcin, fcntLa, fcntOl]
  | _, _ => false

/-- The attributes of `M_TABLE` a CREATE of the type must carry. -/
def mandatory : ResourceType → List Attr
  | ae => [.api, .rr]
  | acp => [.pv, .pvs]
  | sub => [.nu]
  | grp => [.mid]
  | csr => [.cb, .rr, .srv]
  | cin => [.con]
  | tsi => [.dgt, .con]
  | fcnt => [.cnd]
  | _ => []

end ResourceType

/-- The response status codes the modelled functions give. -/
inductive Rsc where
  | ok | created | deleted | updated | badRequest | notFound | operationNotAllowed | contentsUnacceptable
  | originatorHasNoPrivilege | conflict | invalidChildResourcetype | noMembers | groupmemberTypeInconsistent
  | notAcceptable | internalServerError | notImplemented | targetNotSubscribable | maxNumberOfMemberExceeded
  | subscriptionCreatorHasNoPrivilege | subscriptionHostHasNoPrivilege | subscriptionVerificationInitiationFailed
  | specializationSchemaNotFound | receiverHasNoPrivileges | securityAssociationRequired | originatorHasAlreadyRegisterd
  deriving DecidableEq, Repr

/-- The number a status code is sent and returned as. -/
def Rsc.code : Rsc → Int
  | ok => 2000 | created => 2001 | deleted => 2002 | updated => 2004 | badRequest => 4000 | notFound => 4004
  | operationNotAllowed => 4005 | contentsUnacceptable => 4102 | originatorHasNoPrivilege => 4103
  | conflict => 4105 | invalidChildResourcetype => 4108 | noMembers => 4109
  | groupmemberTypeInconsistent => 4110 | internalServerError => 5000 | notImplemented => 5001
  | targetNotSubscribable => 5203 | notAcceptable => 5207 | maxNumberOfMemberExceeded => 6010
  | subscriptionCreatorHasNoPrivilege => 4101 | subscriptionVerificationInitiationFailed => 5204
  | subscriptionHostHasNoPrivilege => 5205 | specializationSchemaNotFound => 4125 | receiverHasNoPrivileges => 5105
  | securityAssociationRequired => 4107 | originatorHasAlreadyRegisterd => 4117

inductive Operation where
  | create | retrieve | update | delete | notify | discovery
  deriving DecidableEq, Repr

/-- What a handler leaves in `o2pt->rsc`, with the text of `handle_error` when it refuses. -/
structure Resp where
  rsc : Rsc
  dbg : Option String
  deriving DecidableEq, Repr

/-- `handle_error`. -/
def handleError (rsc : Rsc) (msg : String) : Resp := ⟨rsc, some msg⟩

def done (rsc : Rsc) : Resp := ⟨rsc, none⟩

/-- `CSE_BASE_NAME`, `CSE_BASE_RI`, `ADMIN_AE_ID`. -/
def cseBaseName : CStr := "TinyIoT".toList

def cseBaseRi : CStr := "tinyiot".toList

def adminAeId : CStr := "CAdmin".toList

/-- `DEFAULT_MAX_NR_INSTANCES`, `DEFAULT_MAX_BYTE_SIZE`. -/
def defaultMaxNrInstances : Int := 1000

def defaultMaxByteSize : Int := 65536

/-- `validate_mandatory_attrs`: nothing mandatory is missing on CREATE or set to null. -/
def validateMandatoryAttrs (ty : ResourceType) (obj : Obj) (op : Operation) : Except Resp Unit :=
  ty.mandatory.forM fun k =>
    match op with
    | .create =>
      if (obj.get k).all Json.isNull then .error (handleError .badRequest "insufficient mandatory attribute(s)")
      else .ok ()
    | .update =>
      if (obj.get k).any Json.isNull then .error (handleError .badRequest "mandatory attribute cannot be null")
      else .ok ()
    | _ => .ok ()

end TinyIoT
