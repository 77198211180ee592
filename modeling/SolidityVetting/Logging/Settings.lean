set_option autoImplicit false

namespace SolidityVetting

structure LogSettings where
  serviceName : String := "contract-gate"
  level : String := "info"
  json : Bool := false
  sourceLocations : Bool := false
  deriving DecidableEq

namespace LogSettings

def isTruthy (value : String) : Bool :=
  value.toList.map Char.toLower == "true".toList || value == "1"

def ofLookup (lookup : String → Option String) : LogSettings :=
  let plain : LogSettings := {}
  let inContainer :=
    (lookup "KUBERNETES_SERVICE_HOST").isSome || (lookup "DOCKER_CONTAINER").isSome
  { serviceName := (lookup "CG_SERVICE_NAME").getD plain.serviceName,
    level := ((lookup "CG_LOG_LEVEL").or (lookup "RUST_LOG")).getD plain.level,
    json := ((lookup "CG_JSON_LOGS").map isTruthy).getD inContainer,
    sourceLocations := ((lookup "CG_LOG_SOURCE").map isTruthy).getD plain.sourceLocations }

end LogSettings
end SolidityVetting
