import Mathlib.Data.Finset.Prod
import TalentFlow.Data.InsertionMap
import TalentFlow.Gateway.Metrics
import TalentFlow.Guarantees.Observed

/-!
# Guarantees.MetricLabels

The time series that requests leave in the metrics. The interceptor takes the URL of the request for
the label `path`, with the values of its parameters and its query string; `HttpReq` declares
`route?.path`, but nothing reads it.

* `samples_eq`: what is recorded of a request.
* `histograms_recordAll`, `counters_recordAll`: the time series after any requests.
* `labels_bounded`: while every URL is the path that its route is declared for, there are no more
  time series than routes, methods and statuses, and the output depends on nothing else.
* `labels_unbounded`: two searches for jobs.
-/

namespace TalentFlow.Observability

open Data.InsertionMap

namespace Visit

def recordedPath (v : Visit) : String :=
  orElse v.request.originalUrl (orElse v.request.url "unknown")

def method (v : Visit) : String := orElse v.request.method "UNKNOWN"

/-- The status that the interceptor finds on the response. -/
def status (v : Visit) : ℕ := successCode v.request.method v.route.httpCode

def recorded (v : Visit) : List Labels := v.samples.map Sample.labels

def durations (v : Visit) : List ℚ := v.samples.map Sample.durationSeconds

/-- The URL of the request is the path its route is declared for: the route has no parameters, and
the URL no query string. -/
def AtOwnPath (v : Visit) : Prop := v.recordedPath = v.route.path

instance : DecidablePred AtOwnPath := fun v => inferInstanceAs (Decidable (v.recordedPath = _))

theorem samples_eq (v : Visit) : v.samples =
    v.durations.map fun d => ⟨v.method, v.recordedPath, toString v.status, d⟩ := by
  obtain ⟨route, ⟨method, url, originalUrl, header, id, requestId⟩, env, ending⟩ := v
  cases ending with
  | rejected exception => rfl
  | served o =>
    cases header with
    | one raw => cases o <;> rfl
    | absent => cases id <;> cases o <;> rfl
    | many values =>
      cases values with
      | cons raw rest => cases o <;> rfl
      | nil => cases id <;> cases o <;> rfl

theorem mem_recorded {v : Visit} {l : Labels} (h : l ∈ v.recorded) :
    l = ⟨v.method, v.recordedPath, toString v.status⟩ := by
  rw [recorded, samples_eq, List.map_map] at h
  obtain ⟨d, -, rfl⟩ := List.mem_map.mp h
  rfl

end Visit

section Registry

variable {prom : PromClient}

theorem mem_record (v : Visit) (r : prom.Registry) (l : Labels) :
    (l ∈ prom.histograms (v.record prom r) ↔ l ∈ prom.histograms r ∨ l ∈ v.recorded) ∧
      (l ∈ prom.counters (v.record prom r) ↔ l ∈ prom.counters r ∨ l ∈ v.recorded) := by
  unfold Visit.record Visit.recorded
  induction v.samples generalizing r with
  | nil => simp
  | cons s rest ih =>
    obtain ⟨hhist, hcount⟩ := ih (MetricsService.recordRequest prom r s)
    rw [List.foldl_cons, hhist, hcount]
    simp only [MetricsService.recordRequest, prom.histograms_inc, prom.histograms_observe,
      prom.counters_inc, prom.counters_observe, Finset.mem_insert, List.map_cons, List.mem_cons]
    exact ⟨by tauto, by tauto⟩

theorem mem_recordAll (visits : List Visit) (l : Labels) :
    (l ∈ prom.histograms (recordAll prom visits) ↔ ∃ v ∈ visits, l ∈ v.recorded) ∧
      (l ∈ prom.counters (recordAll prom visits) ↔ ∃ v ∈ visits, l ∈ v.recorded) := by
  have hfold : ∀ r : prom.Registry,
      (l ∈ prom.histograms (visits.foldl (Visit.record prom) r) ↔
        l ∈ prom.histograms r ∨ ∃ v ∈ visits, l ∈ v.recorded) ∧
      (l ∈ prom.counters (visits.foldl (Visit.record prom) r) ↔
        l ∈ prom.counters r ∨ ∃ v ∈ visits, l ∈ v.recorded) := by
    induction visits with
    | nil => simp
    | cons v rest ih =>
      intro r
      obtain ⟨hhist, hcount⟩ := ih (v.record prom r)
      obtain ⟨hhist', hcount'⟩ := mem_record v r l
      rw [List.foldl_cons, hhist, hcount, hhist', hcount']
      simp only [List.exists_mem_cons_iff, or_assoc, and_self]
  obtain ⟨hhist, hcount⟩ := hfold prom.empty
  rw [recordAll, hhist, hcount, prom.histograms_empty, prom.counters_empty]
  simp

theorem recordAll_congr {visits visits' : List Visit}
    (h : List.Forall₂ (fun a b => a.samples = b.samples) visits visits') :
    recordAll prom visits = recordAll prom visits' := by
  unfold recordAll
  generalize prom.empty = r
  induction h generalizing r with
  | nil => rfl
  | cons hsame _ ih => rw [List.foldl_cons, List.foldl_cons, Visit.record, Visit.record, hsame, ih]

end Registry

/-! ## Bounds -/

/-- The requests have the same route, method and duration. They may have different URLs, headers
and results. -/
structure SameButUrl (a b : Visit) : Prop where
  route : a.route = b.route
  method : a.request.method = b.request.method
  durations : a.durations = b.durations

theorem samples_congr {a b : Visit} (h : SameButUrl a b) (ha : a.AtOwnPath) (hb : b.AtOwnPath) :
    a.samples = b.samples := by
  have hpath : a.recordedPath = b.recordedPath := ha.trans ((congrArg Route.path h.route).trans hb.symm)
  rw [a.samples_eq, b.samples_eq, hpath, h.durations]
  simp only [Visit.method, Visit.status, h.method, h.route]

section Bounds

variable (visits : List Visit)

def routes : Finset Route := (visits.map Visit.route).toFinset

def methods : Finset String := (visits.map Visit.method).toFinset

def statuses : Finset ℕ := (visits.map Visit.status).toFinset

variable {visits}

/-- Label sets that are all recorded for requests at their own path are few. -/
theorem card_le_of_recorded {labels : Finset Labels}
    (hrecorded : ∀ l ∈ labels, ∃ v ∈ visits, l ∈ v.recorded) (hown : ∀ v ∈ visits, v.AtOwnPath) :
    labels.card ≤ (routes visits).card * (methods visits).card * (statuses visits).card := by
  let all := (routes visits ×ˢ methods visits) ×ˢ statuses visits
  have hsub : labels ⊆ all.image fun t => ⟨t.1.2, t.1.1.path, toString t.2⟩ := by
    intro l hl
    obtain ⟨v, hv, hl⟩ := hrecorded l hl
    refine Finset.mem_image.mpr ⟨((v.route, v.method), v.status), ?_, ?_⟩
    · simp only [all, Finset.mem_product, routes, methods, statuses, List.mem_toFinset]
      exact ⟨⟨List.mem_map_of_mem hv, List.mem_map_of_mem hv⟩, List.mem_map_of_mem hv⟩
    · rw [Visit.mem_recorded hl, hown v hv]
  calc labels.card ≤ (all.image _).card := Finset.card_le_card hsub
    _ ≤ all.card := Finset.card_image_le
    _ = _ := by rw [Finset.card_product, Finset.card_product]

end Bounds

/-- While all requests are for their routes' own paths, those of one route with one method and
status are recorded under one label set, there are no more time series than routes, methods and
statuses, and the output of `GET /metrics` is the same for requests with other URLs. -/
theorem labels_bounded (prom : PromClient) {visits : List Visit}
    (hown : ∀ v ∈ visits, v.AtOwnPath) :
    (∀ a ∈ visits, ∀ b ∈ visits, a.route = b.route → a.method = b.method → a.status = b.status →
      ∀ l ∈ a.recorded, ∀ l' ∈ b.recorded, l = l') ∧
    (prom.histograms (recordAll prom visits)).card ≤
      (routes visits).card * (methods visits).card * (statuses visits).card ∧
    (prom.counters (recordAll prom visits)).card ≤
      (routes visits).card * (methods visits).card * (statuses visits).card ∧
    ∀ visits' : List Visit, (∀ v ∈ visits', v.AtOwnPath) → List.Forall₂ SameButUrl visits visits' →
      MetricsController.getMetrics prom (recordAll prom visits) =
        MetricsController.getMetrics prom (recordAll prom visits') := by
  refine ⟨?_, ?_, ?_, ?_⟩
  · intro a ha b hb hroute hmethod hstatus l hl l' hl'
    rw [Visit.mem_recorded hl, Visit.mem_recorded hl', hown a ha, hown b hb, hroute, hmethod,
      hstatus]
  · exact card_le_of_recorded (fun l hl => (mem_recordAll visits l).1.mp hl) hown
  · exact card_le_of_recorded (fun l hl => (mem_recordAll visits l).2.mp hl) hown
  · intro visits' hown' hsame
    have hsamples : List.Forall₂ (fun a b => a.samples = b.samples) visits visits' := by
      induction hsame with
      | nil => exact .nil
      | cons h _ ih =>
        rw [List.forall_mem_cons] at hown hown'
        exact .cons (samples_congr h hown.1 hown'.1) (ih hown.2 hown'.2)
    rw [MetricsController.getMetrics, recordAll_congr hsamples, MetricsController.getMetrics]

/-! ## Two searches -/

theorem labels_upsert {α : Type} (l : Labels) (f : Option α → α) (entries : List (Labels × α)) :
    ((upsert l f entries).map Prod.fst).toFinset = insert l (entries.map Prod.fst).toFinset := by
  rw [keys_upsert]
  by_cases hl : l ∈ entries.map Prod.fst
  · rw [if_pos hl, Finset.insert_eq_of_mem (List.mem_toFinset.mpr hl)]
  · rw [if_neg hl, List.toFinset_append, Finset.union_comm]
    rfl

/-- One line of the text format. -/
def seriesLine (name extra : String) (l : Labels) (value : String) : String :=
  name ++ "\x7b" ++ extra ++ "method=\"" ++ l.method ++ "\",path=\"" ++ l.path ++ "\",status=\"" ++
    l.status ++ "\"\x7d " ++ value ++ "\n"

/-- The upper bounds of the buckets, as they are printed. -/
def buckets : List (String × ℚ) :=
  [("0.025", 1 / 40), ("0.05", 1 / 20), ("0.1", 1 / 10), ("0.25", 1 / 4), ("0.5", 1 / 2), ("1", 1),
    ("2", 2), ("4", 4), ("8", 8)]

/-- The lines of a label set of the histogram, by its observations. -/
def histogramLines (l : Labels) (observations : List ℚ) : String :=
  let name := "http_request_duration_seconds"
  String.join (buckets.map fun b =>
      seriesLine (name ++ "_bucket") ("le=\"" ++ b.1 ++ "\",") l
        (toString (observations.countP fun d => decide (d ≤ b.2)))) ++
    seriesLine (name ++ "_bucket") "le=\"+Inf\"," l (toString observations.length) ++
    seriesLine (name ++ "_sum") "" l (toString (observations.foldl (· + ·) 0)) ++
    seriesLine (name ++ "_count") "" l (toString observations.length)

/-- The output in the text format, for the two metrics of the service. Sums are printed as they are
in Lean, which is the same for whole numbers. -/
def textFormat : PromClient where
  Registry := List (Labels × List ℚ) × List (Labels × ℕ)
  empty := ([], [])
  observe l d r := (upsert l (fun observations => observations.getD [] ++ [d]) r.1, r.2)
  inc l r := (r.1, upsert l (fun count => count.getD 0 + 1) r.2)
  metrics r :=
    "# HELP http_request_duration_seconds Duration of HTTP requests in seconds\n" ++
      "# TYPE http_request_duration_seconds histogram\n" ++
      String.join (r.1.map fun entry => histogramLines entry.1 entry.2) ++
      "\n# HELP http_requests_total Count of HTTP requests\n" ++
      "# TYPE http_requests_total counter\n" ++
      String.join (r.2.map fun entry =>
        seriesLine "http_requests_total" "" entry.1 (toString entry.2))
  histograms r := (r.1.map Prod.fst).toFinset
  counters r := (r.2.map Prod.fst).toFinset
  histograms_empty := rfl
  counters_empty := rfl
  histograms_observe _ _ _ := labels_upsert _ _ _
  counters_observe _ _ _ := rfl
  histograms_inc _ _ := rfl
  counters_inc _ _ := labels_upsert _ _ _

def jobSearch (query : String) : Visit where
  route := { path := "/api/v1/jobs" }
  request := { method := some "GET", originalUrl := some ("/api/v1/jobs" ++ query) }
  env := still
  ending := .served (.ok (.array []))

/-- A `GET` for the jobs in which the client names the request. -/
def namedListing (id : String) (jobs : List Value) : Visit where
  route := { path := "/api/v1/jobs" }
  request := { method := some "GET", url := some "/api/v1/jobs", requestIdHeader := .one id }
  env := still
  ending := .served (.ok (.array jobs))

def signOut : Visit where
  route := { path := "/api/v1/auth/logout", httpCode := some 200 }
  request := { method := some "POST", originalUrl := some "/api/v1/auth/logout" }
  env := still
  ending := .served (.ok .null)

/-- Jobs are listed before and after a logout, and again with other names and results. -/
theorem labels_bounded_jobs :
    let visits := [jobSearch "", signOut, namedListing "r-1" [.null]]
    let visits' := [namedListing "r-2" [], signOut, jobSearch ""]
    (∀ l ∈ (jobSearch "").recorded, ∀ l' ∈ (namedListing "r-1" [.null]).recorded, l = l') ∧
      (textFormat.histograms (recordAll textFormat visits)).card ≤ 4 ∧
      (textFormat.counters (recordAll textFormat visits)).card ≤ 4 ∧
      MetricsController.getMetrics textFormat (recordAll textFormat visits) =
        MetricsController.getMetrics textFormat (recordAll textFormat visits') := by
  intro visits visits'
  obtain ⟨hone, hhistograms, hcounters, houtput⟩ :=
    @labels_bounded textFormat visits (by decide)
  have hproduct : (routes visits).card * (methods visits).card * (statuses visits).card = 4 := by
    decide
  rw [hproduct] at hhistograms hcounters
  have hsame : List.Forall₂ SameButUrl visits visits' :=
    .cons ⟨rfl, rfl, by decide +kernel⟩
      (.cons ⟨rfl, rfl, rfl⟩ (.cons ⟨rfl, rfl, by decide +kernel⟩ .nil))
  exact ⟨hone _ (by simp [visits]) _ (by simp [visits]) rfl rfl rfl, hhistograms, hcounters,
    houtput visits' (by decide) hsame⟩

/-- Two searches with one route, method and status are recorded under two label sets, and what they
look for is shown to everybody. -/
theorem labels_unbounded :
    let a := jobSearch "?search=nurse"
    let b := jobSearch "?search=judge"
    a.recorded = [⟨"GET", "/api/v1/jobs?search=nurse", "200"⟩] ∧
      b.recorded = [⟨"GET", "/api/v1/jobs?search=judge", "200"⟩] ∧
      (textFormat.counters (recordAll textFormat [a, b])).card = 2 ∧
      (routes [a, b]).card * (methods [a, b]).card * (statuses [a, b]).card = 1 ∧
      SameButUrl a b ∧
      MetricsController.getMetrics textFormat (recordAll textFormat [a]) ≠
        MetricsController.getMetrics textFormat (recordAll textFormat [b]) := by
  refine ⟨by decide +kernel, by decide +kernel, by decide +kernel, by decide +kernel,
    ⟨rfl, rfl, by decide +kernel⟩, by decide +kernel⟩

end TalentFlow.Observability
