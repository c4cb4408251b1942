/-
Which responses carry an error of the services.

Only two kinds do: the refusal of a body, and the answer to a call that has failed.  Everything else
either succeeds or has a text that is no such error, and that is so for the health of a key that does
not serve as well, though it comes with the status of a failure.
-/
import EmbedServer.Lifecycle.Traffic
import EmbedServer.Proofs.Call.Message
import EmbedServer.Proofs.Call.Samples
import EmbedServer.Proofs.Http.Exchanges

namespace EmbedServer.Http

open Call (Outcome Fits failure?)

variable {σ : Type}

/-! ### Answers to calls -/

private theorem errorIn?_success {status : Status} (h : status.isSuccess = true) (text : String) :
    errorIn? status text = none := if_pos h

/-- An error comes with the status of a failure. -/
theorem httpStatus_fails (c : Call.Code) : Status.isSuccess c.httpStatus = false := by
  cases c <;> rfl

private theorem errorIn?_error (e : Call.Error) : errorIn? e.code.httpStatus e.toJson.render = some e := by
  simp only [errorIn?, httpStatus_fails, Bool.false_eq_true, if_false, (Call.reads_error e).run]
  rfl

theorem error?_of_success {e : Exchange σ} {status : Status} {headers : List (String × String)}
    (he : e.head = some (status, headers)) (h : status.isSuccess = true) : e.error? = none := by
  rw [Exchange.error?, he]
  exact errorIn?_success h e.sent

/-- The answer to a call carries its error, if it has failed. -/
theorem error?_answered {e : Exchange σ} (hfull : e.headOnly = false) {request : Call.Request}
    {o : Outcome} (hfits : Fits request o) : (e.answered request o).error? = failure? o := by
  have hfailed : ∀ err : Call.Error, responseTo request o = .ofError err →
      (e.answered request o).error? = some err := by
    intro err h
    simp only [Exchange.error?, Exchange.answered, hfull, h, Bool.false_eq_true, if_false]
    exact errorIn?_error err
  have hsucceeded : ∀ v, responseTo request o = .json 200 v →
      (e.answered request o).error? = none := by
    intro v h
    have hhead : (e.answered request o).head = some (200, (Response.json 200 v).headers) := by
      simp only [Exchange.answered, hfull, h, Bool.false_eq_true, if_false]
      rfl
    exact error?_of_success hhead rfl
  rcases o with err | v | r <;> cases request
  · exact hfailed err rfl
  · exact hfailed err rfl
  · exact hsucceeded _ rfl
  · cases hfits
  · cases hfits
  · exact hsucceeded _ rfl

/-- A refusal looks like the answer to a call that has failed. -/
theorem Server.respond_error (s : Server σ) (e : Exchange σ) (err : Call.Error) :
    s.respond e (.ofError err) = e.answered (.check ⟨""⟩) (.error err) :=
  s.respond_call e (.check ⟨""⟩) (.error err)

/-! ### Other responses

These never come from a call.  A response is plain if its text cannot be taken for an error of the
services, whatever its status is.
-/

/-- Whether a response carries no error. -/
def Response.isPlain (r : Response) : Bool :=
  match r.content with
  | .whole text => (errorIn? r.status text).isNone
  | .following _ => r.status.isSuccess

private theorem isPlain_of_ok {r : Response} (h : r.status = 200) : r.isPlain = true := by
  have hsuccess : r.status.isSuccess = true := by rw [h]; rfl
  unfold Response.isPlain
  split
  · rw [errorIn?_success hsuccess]
    rfl
  · exact hsuccess

/-- The health of a key that does not serve fails with a text that is no error. -/
theorem isPlain_probed (health : Health.Registry) (key : String) :
    (probed health key).isPlain = true := by
  have hfailed : ∀ status, (Response.json 503 (Call.HealthReport.toJson ⟨status⟩)).isPlain = true := by
    intro status
    cases status <;> decide +kernel
  unfold probed
  by_cases hserving : health.get key = .serving
  · exact isPlain_of_ok (if_pos hserving)
  · simp only [hserving, if_false]
    exact hfailed _

namespace Server

/-- A place that is not posted to answers with a plain response. -/
theorem readAt_plain (s : Server σ) (r : Request) {route : Route} (h : route.isPosted = false) :
    ∃ response, s.readAt r route = .respond response ∧ response.isPlain = true := by
  cases route with
  | predict => cases h
  | check => cases h
  | watch =>
      simp only [readAt]
      split
      · exact ⟨_, rfl, isPlain_of_ok rfl⟩
      · exact ⟨_, rfl, by decide +kernel⟩
  | probeAll => exact ⟨_, rfl, isPlain_probed _ _⟩
  | probe part =>
      simp only [readAt]
      split
      · exact ⟨_, rfl, isPlain_probed _ _⟩
      · exact ⟨_, rfl, by decide +kernel⟩
  | metrics => exact ⟨_, rfl, isPlain_of_ok rfl⟩

/-- A place that is posted to takes a body as the message of a call, or refuses it. -/
theorem readAt_posted (s : Server σ) (r : Request) {route : Route} (h : route.isPosted = true) :
    (∃ request, s.readAt r route = .call request ∧ r.message? s.limit route = some request) ∨
      ((∃ method why, s.readAt r route = .refuse method why) ∧ r.message? s.limit route = none) := by
  have hread : ∀ {α : Type} (shape : Json.Reader α) (method : String) (request : α → Call.Request),
      (∃ call, readCall r s.limit shape method request = .call call ∧
          (r.readBody s.limit shape).toOption.map request = some call) ∨
        ((∃ method' why, readCall r s.limit shape method request = .refuse method' why) ∧
          (r.readBody s.limit shape).toOption.map request = none) := by
    intro α shape method request
    unfold readCall
    cases r.readBody s.limit shape with
    | ok a => exact Or.inl ⟨request a, rfl, rfl⟩
    | error why => exact Or.inr ⟨⟨method, why, rfl⟩, rfl⟩
  cases route with
  | predict => exact hread _ _ _
  | check => exact hread _ _ _
  | watch => cases h
  | probeAll => cases h
  | probe part => cases h
  | metrics => cases h

/-- A request passes the calls by and has a plain response, or it is posted and has a body that is
decoded or refused. -/
theorem read_cases (s : Server σ) (r : Request) :
    (s.passesBy r = true ∧ ∃ response, s.read r = .respond response ∧ response.isPlain = true) ∨
      (s.passesBy r = false ∧ r.method = "POST" ∧
        ((∃ request, s.read r = .call request ∧ s.decoded? r = some request) ∨
          ((∃ method why, s.read r = .refuse method why) ∧ s.decoded? r = none))) := by
  cases hmuch : r.declaresTooMuch s.limit with
  | true =>
      exact Or.inl ⟨by simp [passesBy, hmuch], _, if_pos hmuch, by decide +kernel⟩
  | false =>
      cases hroute : Route.ofPath? r.target.path with
      | none =>
          exact Or.inl ⟨by simp [passesBy, hmuch, hroute], .empty 404 [],
            by simp [read, hmuch, hroute], by decide +kernel⟩
      | some route =>
          cases htakes : route.takes r.method with
          | false =>
              refine Or.inl ⟨by simp [passesBy, hmuch, hroute, htakes],
                .empty 405 [("allow", route.allowed)], ?_, ?_⟩
              · simp [read, hmuch, hroute, htakes]
              · show (errorIn? 405 "").isNone = true
                decide +kernel
          | true =>
              have hread : s.read r = s.readAt r route := by simp [read, hmuch, hroute, htakes]
              rw [hread]
              cases hposted : route.isPosted with
              | false =>
                  exact Or.inl ⟨by simp [passesBy, hmuch, hroute, hposted], s.readAt_plain r hposted⟩
              | true =>
                  have hpasses : s.passesBy r = false := by
                    simp [passesBy, hmuch, hroute, htakes, hposted]
                  have hdecoded : s.decoded? r = r.message? s.limit route := by
                    simp [decoded?, hpasses, hroute]
                  rw [hdecoded]
                  refine Or.inr ⟨hpasses, ?_, s.readAt_posted r hposted⟩
                  simpa [Route.takes, hposted] using htakes

/-- A body that is decoded comes by a method with an answer, and makes a call. -/
theorem read_decoded {s : Server σ} {r : Request} {request : Call.Request}
    (h : s.decoded? r = some request) : (r.method == "HEAD") = false ∧ s.read r = .call request := by
  rcases s.read_cases r with ⟨haside, -⟩ | ⟨-, hpost, ⟨request', hread, hdecoded⟩ | ⟨-, hnone⟩⟩
  · rw [decoded?, if_pos haside] at h
    cases h
  · obtain rfl : request' = request := Option.some.inj (hdecoded.symm.trans h)
    refine ⟨?_, hread⟩
    rw [hpost]
    decide
  · rw [hnone] at h
    cases h

/-! ### Exchanges -/

theorem head_followUp (s : Server σ) (e : Exchange σ) (f : Follow) (heard : Nat) :
    (s.followUp e f heard).head = e.head := by
  simp only [followUp]
  split
  · rfl
  · split
    · rfl
    · split <;> rfl

/-- What a plain response makes of an exchange. -/
theorem respond_plain (s : Server σ) (e : Exchange σ) {response : Response}
    (h : response.isPlain = true) :
    ∃ head, (s.respond e response).head = some head ∧ (s.respond e response).error? = none ∧
      ∀ f heard, (s.respond e response).phase = .following f heard → head.1.isSuccess = true := by
  cases hhead : e.headOnly with
  | true =>
      have hempty : ∀ status : Status, errorIn? status "" = none := by
        intro status
        unfold errorIn?
        split
        · rfl
        · decide +kernel
      simp only [respond, hhead, if_true, Response.headOnly]
      exact ⟨_, rfl, hempty _, fun _ _ hphase => by cases hphase⟩
  | false =>
      cases hcontent : response.content with
      | whole text =>
          simp only [Response.isPlain, hcontent, Option.isNone_iff_eq_none] at h
          simp only [respond, hhead, Bool.false_eq_true, if_false, hcontent]
          exact ⟨_, rfl, h, fun _ _ hphase => by cases hphase⟩
      | following key =>
          simp only [Response.isPlain, hcontent] at h
          have hsome : (s.respond e response).head = some (response.status, response.headers) := by
            simp only [respond, hhead, Bool.false_eq_true, if_false, hcontent]
            exact head_followUp s _ _ _
          exact ⟨_, hsome, error?_of_success hsome h, fun _ _ _ => h⟩

end Server

end EmbedServer.Http
