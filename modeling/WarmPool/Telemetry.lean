import WarmPool.StringMap

/-!
# Telemetry

Under which name the operator reports what it does, and where to.
-/

namespace WarmPool

/-- The variables of an environment. -/
abbrev Environment := StringMap

/-- The settings of telemetry. -/
structure Telemetry where
  serviceName : String := "devinfra-operator"
  /-- Where reports go; nowhere if there is none. -/
  endpoint : Option String := none
deriving DecidableEq, Repr

namespace Telemetry

/-- The variable that holds the endpoint. -/
def endpointVariable : String := "OTEL_EXPORTER_OTLP_ENDPOINT"

/-- The settings that an environment asks for; an endpoint that is empty is one all the same. -/
def ofEnvironment (env : Environment) : Telemetry := { endpoint := env.get? endpointVariable }

end Telemetry

end WarmPool
