import TalentFlow.Gateway.Routes

/-!
# Guarantees.Served

The HTTP interface against the requests behind it. `Request` takes the user id and the role that
guards have found as given; an incoming request has cookies, runs the guards, and only then is such a
request. Guards leave the world alone, so a run of the HTTP interface is, guards left out, a run of
requests: the same steps in the same order, the same world, the same answers.

* `http_refines`: the two runs.
* `worlds_of_requests`: what requests can never lead to, the HTTP interface can never lead to.
-/

namespace TalentFlow

open Data Async

/-- How far incoming request `i` has come, in `cfg`, and its request, in the run `cfg'` without
guards. -/
inductive Serving (r : HttpRequest) (request : Request) (cfg cfg' : Config Api ℕ World Response)
    (i : ℕ) : Prop where
  /-- in its guards -/
  | guards (g : Prog Api Request) (hplays : r.guards.Plays (cfg.trace i) g)
    (hpool : cfg.pool i = g >>= Request.prog)
    (hpassive : ∀ e ∈ cfg.trace i, gateway.Passive e.call) (htrace : cfg'.trace i = [])
  /-- past its guards, which have picked `request` by what they have found -/
  | request (history : List (Event Api)) (hpicks : r.Picks history request)
    (hpassive : ∀ e ∈ history, gateway.Passive e.call) (htrace : cfg.trace i = history ++ cfg'.trace i)
    (hpool : cfg.pool i = cfg'.pool i)

section Run

variable {incoming : ℕ → HttpRequest} {w : World} {ls : List (Label ℕ Choice Move)}
  {cfg : Config Api ℕ World Response}

theorem pool_eq_guarded (incoming : ℕ → HttpRequest) :
    HttpRequest.pool incoming = guarded (fun i => (incoming i).guards) Request.prog :=
  funext fun i => (incoming i).prog_eq_guards

theorem served_run (hrun : gateway.run ls (.start w (HttpRequest.pool incoming)) = some cfg) :
    ∃ requests ls' cfg', ls'.Sublist ls ∧ Erased gateway (fun i => (incoming i).guards) Request.prog w
      requests ls' cfg cfg' := by
  rw [pool_eq_guarded] at hrun
  exact guarded_run (fun i => guards_passive (incoming i)) (fun _ => .removeCandidate "") hrun

/-- Every run of the HTTP interface has a run of requests with the same steps in the same order, less
those of the guards; it leads to the same world, and each incoming request is in its guards, having
left the world alone, or has picked its request by what the guards have found and is where that
request is. -/
theorem http_refines (hrun : gateway.run ls (.start w (HttpRequest.pool incoming)) = some cfg) :
    ∃ requests ls' cfg', ls'.Sublist ls ∧
      gateway.run ls' (.start w (Request.pool requests)) = some cfg' ∧ cfg'.world = cfg.world ∧
      ∀ i, Serving (incoming i) (requests i) cfg cfg' i := by
  obtain ⟨requests, ls', cfg', hsub, herased⟩ := served_run hrun
  refine ⟨requests, ls', cfg', hsub, herased.run, herased.world, fun i => ?_⟩
  have hpassive := guards_passive (incoming i)
  cases herased.phases i with
  | before g hplays hcalls hpool hidle htrace =>
    exact .guards g hplays hpool (hplays.calls hpassive) htrace
  | after es hplays htrace hpool =>
    exact .request es (guards_picks hplays) (hplays.calls hpassive) htrace hpool

/-- What holds of every world that requests lead to holds of every world that the HTTP interface
leads to. -/
theorem worlds_of_requests {P : World → Prop}
    (h : ∀ requests ls cfg, gateway.run ls (.start w (Request.pool requests)) = some cfg →
      P cfg.world)
    (hrun : gateway.run ls (.start w (HttpRequest.pool incoming)) = some cfg) : P cfg.world := by
  obtain ⟨requests, ls', cfg', -, herased⟩ := served_run hrun
  exact herased.world ▸ h requests ls' cfg' herased.run

end Run

theorem http_refines_ada :
    ∃ cfg, gateway.run (List.replicate 4 (.run 0 {}))
        (.start seeded (HttpRequest.pool (adaAsks (.removeCandidate "c-cleo")))) = some cfg ∧
      ∃ requests ls' cfg', ls'.Sublist (List.replicate 4 (.run 0 {})) ∧
        gateway.run ls' (.start seeded (Request.pool requests)) = some cfg' ∧
        cfg'.world = cfg.world ∧
        ∀ i, Serving (adaAsks (.removeCandidate "c-cleo") i) (requests i) cfg cfg' i := by
  obtain ⟨cfg, hrun⟩ := Option.isSome_iff_exists.mp (show (gateway.run
    (List.replicate 4 (.run 0 {}))
    (.start seeded (HttpRequest.pool (adaAsks (.removeCandidate "c-cleo"))))).isSome = true by
      decide +kernel)
  exact ⟨cfg, hrun, http_refines hrun⟩

end TalentFlow
