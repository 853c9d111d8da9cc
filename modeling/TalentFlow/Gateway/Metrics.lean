import Mathlib.Data.Finset.Insert
import TalentFlow.Gateway.Observability

/-!
# Gateway.Metrics

`MetricsService` and `MetricsController`: what becomes of the samples that the interceptor takes.
`prom-client` is a parameter, with what it says of the label sets it has time series for; its
default metrics and the gauges of the queues are left out.
-/

namespace TalentFlow.Observability

/-- The values of `labelNames: ['method', 'path', 'status']`. -/
structure Labels where
  method : String
  path : String
  status : String
  deriving DecidableEq

/-- A registry with the histogram and the counter of the service. -/
structure PromClient where
  Registry : Type
  empty : Registry
  /-- `httpHistogram.labels(…).observe(durationSeconds)` -/
  observe : Labels → ℚ → Registry → Registry
  /-- `httpCounter.labels(…).inc()` -/
  inc : Labels → Registry → Registry
  /-- `registry.metrics()` -/
  metrics : Registry → String
  /-- the label sets that the histogram has time series for -/
  histograms : Registry → Finset Labels
  /-- the label sets that the counter has time series for -/
  counters : Registry → Finset Labels
  histograms_empty : histograms empty = ∅
  counters_empty : counters empty = ∅
  histograms_observe : ∀ l d r, histograms (observe l d r) = insert l (histograms r)
  counters_observe : ∀ l d r, counters (observe l d r) = counters r
  histograms_inc : ∀ l r, histograms (inc l r) = histograms r
  counters_inc : ∀ l r, counters (inc l r) = insert l (counters r)

def Sample.labels (s : Sample) : Labels := ⟨s.method, s.path, s.status⟩

variable (prom : PromClient)

def MetricsService.recordRequest (registry : prom.Registry) (s : Sample) : prom.Registry :=
  prom.inc s.labels (prom.observe s.labels s.durationSeconds registry)

/-- The payload of `GET /metrics`, which is public. -/
def MetricsController.getMetrics (registry : prom.Registry) : String := prom.metrics registry

/-! ## Requests -/

/-- What the router finds for a request: the path that a handler is declared for, with the names of
its parameters, and the handler's `@HttpCode`. -/
structure Route where
  path : String
  httpCode : Option Nat := none
  deriving DecidableEq

/-- A request, the route that handles it, the clocks it meets and how it ends. -/
structure Visit where
  route : Route
  request : HttpRequest
  env : Env
  ending : Ending

def Visit.samples (v : Visit) : List Sample :=
  (pass v.env v.route.httpCode v.ending { request := v.request }).2.metrics

def Visit.record (registry : prom.Registry) (v : Visit) : prom.Registry :=
  v.samples.foldl (MetricsService.recordRequest prom) registry

def recordAll (visits : List Visit) : prom.Registry := visits.foldl (Visit.record prom) prom.empty

end TalentFlow.Observability
