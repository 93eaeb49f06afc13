import OpenstackBlueprint.Kit.Python
import OpenstackBlueprint.Kit.Value

/-!
# Endpoints of the service catalog (`contract-emitter.py`)

`endpoint_url` answers the first endpoint of a service type that is on the
interface and in the region, without trailing slashes. An exception is `none`,
and `some none` is the answer `None`.
-/

namespace OpenstackBlueprint.Emitter

open Kit

/-- `region and ep.get("region") not in (region, None)`: the endpoint is in
another region than the configured one. -/
def otherRegion (region : String) (ep : Value) : Option Bool :=
  if region == "" then some false
  else (ep.get "region").map fun r => !(r.eqStr region || r.isNone)

/-- The loop of `endpoint_url` over the endpoints of one service. -/
def endpointIn (interface region : String) : List Value → Option (Option String)
  | [] => some none
  | ep :: rest => do
    if !(← ep.get "interface").eqStr interface then endpointIn interface region rest
    else if ← otherRegion region ep then endpointIn interface region rest
    else return some (rstripSlash (← (← ep.index "url").asStr))

/-- The endpoints of a service. -/
def endpointsOf (svc : Value) : Option (List Value) := do
  (← svc.getD "endpoints" (.arr [])).elems

/-- `endpoint_url(catalog, svc_type)`. -/
def endpointUrl (interface region svcType : String) : List Value → Option (Option String)
  | [] => some none
  | svc :: rest => do
    if !(← svc.get "type").eqStr svcType then endpointUrl interface region svcType rest
    else
      match ← endpointIn interface region (← endpointsOf svc) with
      | some url => return some url
      | none => endpointUrl interface region svcType rest

end OpenstackBlueprint.Emitter
