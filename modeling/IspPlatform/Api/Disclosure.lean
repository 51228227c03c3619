import IspPlatform.Api.Deliveries

/-!
# What a caller without the token sees

A request with a wrong token is answered at once and calls nothing: `404`, the answer of a
missing route, when its body passes the schema, and `422` when it does not, since the
framework validates the body before the endpoint compares the tokens.
-/

namespace IspPlatform.Api

open Py Prog Domain System

/-- The answer of a route that does not exist. -/
def missingRoute : Outcome Exn Json := .raised (.http 404 (lit "Not Found"))

/-- The answer to a body that fails validation. -/
def invalidBody : Outcome Exn Json := .raised (.http 422 (lit "validation error"))

/-- Deliveries `i` and `j` got one and the same answer, that of a missing route, without a
call to the ledger, the queue or the alerter; the books change through these calls only. -/
structure LearnsNothing (s : Deliveries) (i j : Nat) (t u : Thread calls Request Json) : Prop where
  same : t.code = u.code
  missing : t.code = .done missingRoute
  first : s.log i = []
  second : s.log j = []

variable {site : Site} {mayRaise : Call → Prop} {b₀ : Books} {s : Deliveries}
  {ok : Deliveries → Label calls Request Empty → Books → Prop}

theorem paymentRoute_wrong_token {req : Request} (h : req.token ≠ site.webhookToken) :
    paymentRoute site req =
      .done (if (validate req.body).isSome then missingRoute else invalidBody) := by
  unfold paymentRoute
  cases validate req.body with
  | none => rfl
  | some payload =>
    simp only [receivePayment, h, ne_eq, not_false_eq_true, if_true, Option.isSome_some]
    rfl

/-- In every run, a delivery with a wrong token has its answer and has called nothing. -/
theorem wrong_token_answer (h : (webhook site mayRaise).Reach b₀ ok s) {i : Nat}
    {t : Thread calls Request Json} (ht : s.threads[i]? = some t)
    (htok : t.job.token ≠ site.webhookToken) :
    s.log i = [] ∧
      t.code = .done (if (validate t.job.body).isSome then missingRoute else invalidBody) := by
  have hafter := h.after ht
  have hmain : (webhook site mayRaise).main t.job = .done
      (if (validate t.job.body).isSome then missingRoute else invalidBody) :=
    paymentRoute_wrong_token htok
  rw [hmain] at hafter
  exact After.done_iff.mp hafter

theorem answer_eq_missingRoute {v : Bool} :
    (.done (if v then missingRoute else invalidBody) : Prog calls Json) = .done missingRoute ↔
      v = true := by
  cases v with
  | true => simp
  | false => simp [missingRoute, invalidBody]

/-- **Disclosure.** Two callers without the token learn nothing exactly when both of their
bodies pass the schema. -/
theorem learnsNothing_iff (h : (webhook site mayRaise).Reach b₀ ok s) {i j : Nat}
    {t u : Thread calls Request Json} (ht : s.threads[i]? = some t)
    (hu : s.threads[j]? = some u) (htok : t.job.token ≠ site.webhookToken)
    (hutok : u.job.token ≠ site.webhookToken) :
    LearnsNothing s i j t u ↔
      (validate t.job.body).isSome = true ∧ (validate u.job.body).isSome = true := by
  obtain ⟨hlog, hcode⟩ := wrong_token_answer h ht htok
  obtain ⟨hlog', hcode'⟩ := wrong_token_answer h hu hutok
  constructor
  · intro hl
    refine ⟨?_, ?_⟩
    · apply answer_eq_missingRoute.mp
      rw [← hcode, hl.missing]
    · apply answer_eq_missingRoute.mp
      rw [← hcode', ← hl.same, hl.missing]
  · rintro ⟨hv, hv'⟩
    have hmissing : t.code = .done missingRoute := by rw [hcode, if_pos hv]
    exact ⟨by rw [hmissing, hcode', if_pos hv'], hmissing, hlog, hlog'⟩

/-- A well-formed payment with a wrong token, and an empty object with the same token. -/
def forged : Request := { payment with token := lit "wrong" }

def forgedEmpty : Request := ⟨lit "wrong", some ⟨none, none, none⟩⟩

/-- Two requests that were answered at once. -/
def answered (req req' : Request) : Deliveries :=
  ⟨.empty, [⟨req, paymentRoute shop req, false⟩, ⟨req', paymentRoute shop req', false⟩], []⟩

theorem reach_answered (req req' : Request) :
    (webhook shop anyCall).Reach .empty anyStep (answered req req') :=
  (Reach.init.start req True.intro True.intro).start req' True.intro True.intro

theorem learnsNothing_iff_forged :
    LearnsNothing (answered forged forged) 0 1 ⟨forged, paymentRoute shop forged, false⟩
        ⟨forged, paymentRoute shop forged, false⟩ ↔
      (validate forged.body).isSome = true ∧ (validate forged.body).isSome = true :=
  learnsNothing_iff (reach_answered forged forged) (i := 0) (j := 1) rfl rfl (by decide)
    (by decide)

/-- With a wrong token, a payment gets the `404` of a missing route and an empty object the
`422` of an existing one. -/
theorem body_discloses_route :
    (webhook shop anyCall).Reach .empty anyStep (answered forged forgedEmpty) ∧
      forged.token ≠ shop.webhookToken ∧ forgedEmpty.token ≠ shop.webhookToken ∧
      paymentRoute shop forged = .done missingRoute ∧
      paymentRoute shop forgedEmpty = .done invalidBody ∧
      ¬ LearnsNothing (answered forged forgedEmpty) 0 1 ⟨forged, paymentRoute shop forged, false⟩
        ⟨forgedEmpty, paymentRoute shop forgedEmpty, false⟩ := by
  refine ⟨reach_answered forged forgedEmpty, by decide, by decide, rfl, rfl, ?_⟩
  intro hl
  have hsame : missingRoute = invalidBody := Prog.done.inj hl.same
  revert hsame
  decide

end IspPlatform.Api
