import CellReview.Completion.Client
import CellReview.Review.Host

/-!
# A host over a network

* `Online` — a host whose requests go to a completion backend over a transport.
-/

namespace CellReview.Review

open Completion (Transport)

/-- A host whose requests go to a completion backend; for all else there is another host. -/
structure Online (σ τ : Type) where
  host : σ
  transport : τ
  llm : LlmSettings
  env : Environment

instance {σ τ : Type} [Host σ] [Transport τ] : Host (Online σ τ) where
  cell h := Host.cell h.host
  perform h e := { h with host := Host.perform h.host e }
  send h messages :=
    let (transport, answer) := Completion.complete h.transport h.llm h.env messages
    ({ h with transport := transport }, answer)

end CellReview.Review
