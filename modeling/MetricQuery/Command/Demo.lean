import MetricQuery.Expr.Basic
import MetricQuery.Number.Decimal

/-!
# Example queries

Queries that show what the language is used for, each with a title.
-/

set_option autoImplicit false

namespace MetricQuery.Demo

/-- A function of one expression. -/
def apply (function : String) (e : Expr) : Expr :=
  .call function [e]

/-- The sum over all series. -/
def total (e : Expr) : Expr :=
  .aggregation .sum e none {}

/-- A sum for each value of a label. -/
def totalBy (label : String) (e : Expr) : Expr :=
  .aggregation .sum e none { keep := [label] }

/-- `digits * 10 ^ exponent` as a literal. -/
def literal (digits : Nat) (exponent : Int) : Expr :=
  .number (Decimal.toDouble false ⟨digits, exponent⟩)

/-- The requests of the last five minutes, with further matchers. -/
def requests (matchers : List Matcher) : Expr :=
  .selector {
    metric := "http_requests_total"
    matchers := ⟨"job", "api", .equal⟩ :: matchers
    range := some "5m" }

/-- How many requests each instance serves. -/
def requestRate : Expr :=
  totalBy "instance" (apply "rate" (requests []))

/-- Where too great a part of the requests fails. -/
def errorRatio : Expr :=
  .binary .greater
    (.binary .div
      (total (apply "rate" (requests [⟨"code", "5..", .regexp⟩])))
      (total (apply "rate" (requests []))) {})
    (literal 5 (-2)) {}

/-- How long nearly all requests take. -/
def latency : Expr :=
  .call "histogram_quantile"
    [literal 99 (-2),
      totalBy "le" (apply "rate"
        (.selector { metric := "http_request_duration_seconds_bucket", range := some "5m" }))]

/-- How much memory is in use, where it is much. -/
def memory : Expr :=
  .aggregation .topk
    (apply "avg_over_time"
      (.subquery (.selector { metric := "process_resident_memory_bytes" })
        { range := some "1h", resolution := some "5m" }))
    (some (literal 5 0)) {}

/-- The queries with their titles. -/
def queries : List (String × Expr) :=
  [("Request rate per instance", requestRate),
    ("Error ratio above 5%", errorRatio),
    ("99th percentile latency", latency),
    ("Top 5 memory consumers over the last hour", memory)]

end MetricQuery.Demo
