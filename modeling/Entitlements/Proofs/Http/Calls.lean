import Entitlements.Proofs.Http.Attempts
import Entitlements.Proofs.Http.Questions
import Entitlements.Proofs.Http.Requests
import Entitlements.Proofs.Retry.Runs

/-! # Calls over HTTP

The request for a question is attempted, and attempted again as long as what becomes of it may pass
(`Delivery.Passes`) and attempts remain (`Transport.Sent`). Every attempt starts with the same
request and follows the redirections of its answers; the answer to the call is read off what became
of the last attempt. `HttpClient.fetch_sent` says this of every call, whatever the service does. -/

namespace Entitlements

/-! ### Attempts again and again -/

/-- The same request may succeed when it is attempted again. -/
def Delivery.Passes : Delivery → Prop
  | .answered r =>
    r.status = 429 ∨ r.status = 500 ∨ r.status = 502 ∨ r.status = 503 ∨ r.status = 504
  | .failed failure => failure.kind = .noConnection ∨ failure.kind = .timeout

instance : DecidablePred Delivery.Passes
  | .answered _ | .failed _ => inferInstanceAs (Decidable (_ ∨ _))

theorem Arrival.not_passes {r : Arrival} (hs : r.Succeeded) : ¬ (Delivery.answered r).Passes := by
  obtain ⟨-, hs⟩ := hs
  rintro (h | h | h | h | h) <;> simp [h] at hs

namespace Transport

variable {τ : Type} (t : Transport τ) (request : Request) (w : τ)

/-- The state after `n` attempts at a request. -/
def after (n : Nat) : τ := afterRequests (t.attempt request) w n

/-- What becomes of an attempt at a request when there were `n` of them before. -/
def delivery (n : Nat) : Delivery := outcomeAfter (t.attempt request) w n

theorem run_attempt_after (k : Nat) : (t.attempt request).run (t.after request w k) =
    (t.delivery request w k, t.after request w (k + 1)) := rfl

/-- A request is attempted `n` times and nothing else is: again exactly when what became of it may
pass and the limit is not reached. -/
structure Sent (limit n : Nat) (w' : τ) : Prop where
  pos : 1 ≤ n
  le : n ≤ limit
  network : w' = t.after request w n
  again : ∀ k < n, k + 1 < n ↔ (t.delivery request w k).Passes ∧ k + 1 < limit

/-- The first delivery that does not pass is the last one. -/
theorem Sent.eq_succ {t : Transport τ} {request : Request} {w w' : τ} {limit n k : Nat}
    (h : t.Sent request w limit n w') (hk : k < limit)
    (hpasses : ∀ i < k, (t.delivery request w i).Passes)
    (hstops : ¬ (t.delivery request w k).Passes) : n = k + 1 := by
  have hpos := h.pos
  have hle : n ≤ k + 1 := Nat.le_of_not_lt fun hlt =>
    hstops ((h.again k (Nat.lt_of_succ_lt hlt)).mp hlt).1
  have hge : k + 1 ≤ n := Nat.le_of_not_lt fun hlt => by
    have hagain := (h.again (n - 1) (by omega)).mpr ⟨hpasses (n - 1) (by omega), by omega⟩
    omega
  exact Nat.le_antisymm hle hge

/-- What an attempt sends: the request first, and others as long as the client is sent on and
redirections are left; no other host and port gets the password or the token. -/
def Attempts (k : Nat) : Prop :=
  ∃ requests, t.Chain t.redirections request (t.after request w k) requests
      (t.delivery request w k) (t.after request w (k + 1)) ∧
    requests.head? = some request ∧ requests.length ≤ t.redirections + 1 ∧
      ∀ r ∈ requests, request.Carries r

theorem attempts (k : Nat) : t.Attempts request w k :=
  have ⟨requests, hchain⟩ := t.exists_chain t.redirections request (t.after request w k)
  ⟨requests, hchain, hchain.head?_eq, hchain.length_le, hchain.carries⟩

end Transport

/-! ### Deliveries -/

theorem DirectoryError.isTransient_ofStatus (status : UInt16)
    (resource operation id body : String) :
    (ofStatus status resource operation id body).isTransient =
      transientStatuses.contains status := by
  unfold ofStatus
  split_ifs with h404 h403 h409
  · rw [h404]; rfl
  · rw [h403]; rfl
  · rw [h409]; rfl
  · rfl

namespace Question

variable {τ α β : Type} (q : Question α) (w : Wording)

/-- The outcome of an attempt, by what became of it. -/
def outcome : Delivery → Except DirectoryError α
  | .answered r => HttpClient.interpret w q.decode q.inquiry r
  | .failed failure => .error (.request failure)

theorem reads_interpret (r : Arrival) :
    q.Reads w (.answered r) (HttpClient.interpret w q.decode q.inquiry r) := by
  unfold HttpClient.interpret
  split
  · next hs =>
    have hs := Arrival.isSuccess_iff.mp hs
    split
    · next words hbody => exact .stalled hs hbody
    · next bytes hbody =>
      split
      · next a ha =>
        obtain ⟨payload, hpayload, ha⟩ := Option.bind_eq_some_iff.mp ha
        exact .decoded hs hbody ⟨payload, hpayload, ha⟩
      · next hnone =>
        refine .undecodable hs hbody fun a ⟨payload, hpayload, ha⟩ => ?_
        cases hnone.symm.trans (Option.bind_eq_some_iff.mpr ⟨payload, hpayload, ha⟩)
  · next hs =>
    unfold DirectoryError.ofStatus
    split_ifs with h404 h403 h409
    · exact .missing h404
    · exact .denied h403
    · exact .conflicting h409
    · exact .refused (mt Arrival.isSuccess_iff.mpr hs) h404 h403 h409

theorem reads_outcome (d : Delivery) : q.Reads w d (q.outcome w d) := by
  cases d with
  | answered r => exact q.reads_interpret w r
  | failed failure => exact .failed failure

/-- **An attempt is repeated** for what may pass, and for nothing else. -/
theorem settles_outcome_eq_false_iff (d : Delivery) :
    RetryPolicy.settles DirectoryError.isTransient (q.outcome w d) = false ↔ d.Passes := by
  cases d with
  | answered r =>
    cases hs : r.isSuccess with
    | true =>
      -- Neither a value nor an unreadable answer is asked for again, and no success is transient.
      refine iff_of_false ?_ (Arrival.not_passes (Arrival.isSuccess_iff.mp hs))
      simp only [outcome, HttpClient.interpret, hs, if_true]
      split
      · simp [RetryPolicy.settles, DirectoryError.isTransient]
      · split <;> simp [RetryPolicy.settles, DirectoryError.isTransient]
    | false =>
      simp only [outcome, HttpClient.interpret, hs, Bool.false_eq_true, if_false,
        RetryPolicy.settles, DirectoryError.isTransient_ofStatus, Bool.not_eq_false',
        List.contains_iff_mem]
      simp [DirectoryError.transientStatuses, Delivery.Passes]
  | failed failure =>
    simp only [outcome, RetryPolicy.settles, DirectoryError.isTransient, Bool.not_eq_false',
      Bool.or_eq_true, beq_iff_eq]
    exact Iff.rfl

end Question

/-! ### Delays -/

/-- The delays of the standard policy: each is twice the one before, up to ten seconds. -/
def standardDelay (n : Nat) : Duration := .ofSeconds (min (Nat.pow 2 n) 10)

theorem standardDelay_of_le {n : Nat} (h : 4 ≤ n) : standardDelay n = .ofSeconds 10 := by
  have hpow : 10 ≤ Nat.pow 2 n := Nat.le_trans (by decide) (Nat.pow_le_pow_right (by decide) h)
  rw [standardDelay, Nat.min_eq_right hpow]

theorem nextDelay?_standardDelay : ∀ n : Nat,
    RetryPolicy.standard.nextDelay? (standardDelay n) = some (standardDelay (n + 1))
  | 0 | 1 | 2 | 3 => by decide +kernel
  | n + 4 => by
    rw [standardDelay_of_le (Nat.le_add_left 4 n), standardDelay_of_le (Nat.le_add_left 4 (n + 1))]
    decide +kernel

/-! ### Calls of a client -/

/-- How a question is settled: it cannot be put, or its request is attempted and the answer is read
off the last delivery. -/
inductive Question.Settled {τ α : Type} (q : Question α) (t : Transport τ) (limit : Nat) (w : τ) :
    Option Request → Except Failure α → τ → Prop
  | unsendable :
      Settled q t limit w none
        (.error (.error (.request ⟨.unsendable, t.wording.unsendable q.url⟩))) w
  | sent {request : Request} {n : Nat} {outcome : Except DirectoryError α} {w' : τ}
      (hsent : t.Sent request w limit n w')
      (hreads : q.Reads t.wording (t.delivery request w (n - 1)) outcome) :
      Settled q t limit w (some request) (outcome.mapError .error) w'

theorem Question.Settled.map {τ α β : Type} {q : Question α} {t : Transport τ} {limit : Nat}
    {w w' : τ} {answer : Except Failure α} {request? : Option Request}
    (h : q.Settled t limit w request? answer w') (f : α → β) :
    (q.map f).Settled t limit w request? (answer.map f) w' := by
  cases h with
  | unsendable => exact .unsendable
  | sent hsent hreads =>
    next outcome =>
    have hmap : (outcome.mapError Failure.error).map f = (outcome.map f).mapError .error := by
      cases outcome <;> rfl
    rw [hmap]
    exact .sent hsent (hreads.map f)

namespace HttpClient

variable {τ α β : Type}

/-- Puts a question. -/
def put (q : Question α) (c : HttpClient τ) : Access (HttpState τ) α :=
  c.get q.url q.fields q.decode q.inquiry

theorem attempt_none {c : HttpClient τ} {q : Question α}
    (h : c.request? q.url q.fields = none) :
    c.attempt q.url q.fields q.decode q.inquiry =
      pure (.error (.request ⟨.unsendable, c.transport.wording.unsendable q.url⟩)) := by
  rw [attempt, h]

/-- The outcome of an attempt is that of its delivery. -/
theorem attempt_some {c : HttpClient τ} {q : Question α} {request : Request}
    (h : c.request? q.url q.fields = some request) :
    c.attempt q.url q.fields q.decode q.inquiry =
      q.outcome c.transport.wording <$> c.transport.attempt request := by
  rw [attempt, h, ← bind_pure_comp]
  refine bind_congr fun delivery => ?_
  cases delivery <;> rfl

/-- A run over the network that ends with an outcome gives it to those who asked. -/
theorem call_put (c : HttpClient τ) (q : Question α) (s : HttpState τ)
    {run : RetryRun DirectoryError α} {w : τ} {outcome : Except DirectoryError α}
    (hrun : (c.retry.run DirectoryError.isTransient
      (c.attempt q.url q.fields q.decode q.inquiry)).run s.network = (run, w))
    (hresult : run.result = .finished outcome) :
    (put q c).call s = (outcome.mapError .error, ⟨w, s.events ++ run.events⟩) := by
  show c.get q.url q.fields q.decode q.inquiry s = _
  unfold get
  simp only [hrun, hresult]
  cases outcome <;> rfl

section Settles
variable (config : DirectoryConfig) (t : Transport τ)

/-- A call settles a question on every state of the network. -/
def Settles (q : Question α) (a : Access (HttpState τ) α) : Prop :=
  ∀ s, q.Settled t config.retryPolicy.maxAttempts s.network
    ((ofConfig config t).request? q.url q.fields) (a.call s).1 (a.call s).2.network

/-- **A question** is settled by the last delivery of its request. -/
theorem settles_put (q : Question α) : Settles config t q (put q (ofConfig config t)) := by
  intro s
  cases hrequest : (ofConfig config t).request? q.url q.fields with
  | none =>
    have hrun : (config.retryPolicy.run DirectoryError.isTransient
        ((ofConfig config t).attempt q.url q.fields q.decode q.inquiry)).run s.network =
          (⟨1, [], .finished (.error (.request ⟨.unsendable, t.wording.unsendable q.url⟩))⟩,
            s.network) := by
      rw [attempt_none hrequest]
      exact RetryPolicy.run_runFrom_of_settles (.inl rfl)
    rw [call_put (ofConfig config t) q s hrun rfl]
    exact .unsendable
  | some request =>
    obtain ⟨k, hk, hrun⟩ := config.retryPolicy.run_runFrom DirectoryError.isTransient
      ((ofConfig config t).attempt q.url q.fields q.decode q.inquiry)
      (config.retryPolicy.maxAttempts - 1) 1 (fun i _ => nextDelay?_standardDelay i) s.network
    rw [call_put (ofConfig config t) q s hrun rfl]
    simp only [attempt_some hrequest, afterRequests_map, funext (outcomeAfter_map _ _ s.network)]
      at hk ⊢
    have hlimit : 1 ≤ config.retryPolicy.maxAttempts :=
      Nat.le_min.mpr ⟨Nat.le_add_left 1 _, by decide⟩
    have hle : k ≤ config.retryPolicy.maxAttempts - 1 := hk.le
    refine .sent (n := k + 1) ⟨by omega, by omega, rfl, fun i hi => ?_⟩ (q.reads_outcome _ _)
    rw [Nat.add_lt_add_iff_right, hk.lt_iff (Nat.le_of_lt_succ hi),
      q.settles_outcome_eq_false_iff, Nat.lt_sub_iff_add_lt]
    exact Iff.rfl

variable {config t}

/-- A call that makes the answer into another one settles the question for that one. -/
theorem Settles.map {q : Question α} {a : Access (HttpState τ) α} (h : Settles config t q a)
    (f : α → β) : Settles config t (q.map f) (do let x ← a; return f x) := by
  intro s
  have hcall : Access.call (do let x ← a; return f x) s =
      ((a.call s).1.map f, (a.call s).2) := by
    rw [Access.call_bind]
    rcases a.call s with ⟨_ | _, _⟩ <;> rfl
  rw [hcall]
  exact (h s).map f

variable (config t)

theorem settles_ask (c : CachedCall) :
    Settles config t (Fetch.questionOf config c) ((ofConfig config t).directory.ask c) := by
  cases c with
  | groups | group | users | user | groupsOfUser | policies | policy => exact settles_put config t _
  | bindings =>
    have h := settles_put config t (.bindings (config.repositoryUrl "bindings") "list" "")
    exact h.map (PolicyBindings.flatten config.account)
  | bindingsOfGroup uuid =>
    have h := settles_put config t (.bindings (config.repositoryUrl ("bindings/groups/" ++ uuid))
      "get bindings for group" uuid)
    exact h.map (PolicyBindings.ofGroup config.account uuid)

/-- **Every call** settles its question. -/
theorem settles_fetch (x : Fetch) :
    Settles config t (x.question config) (x.on (ofConfig config t).directory) := by
  cases x with
  | ask c => exact settles_ask config t c
  | groupByName name => exact (settles_ask config t .groups).map _
  | userByEmail email => exact (settles_ask config t .users).map _
  | policyByName name => exact (settles_ask config t .policies).map _
  | page query number size =>
    show Settles config t ⟨_, Fetch.pageFields query number size, _, _⟩ _
    rw [← Fetch.resolutionFields_eq]
    exact settles_put config t _

end Settles

/-- **What a call does, whatever the service does.** If nothing can be sent for its question, that
is the answer, and nothing is sent. Otherwise one request is attempted once or more, but no more
than once for the first attempt and each retry, and again exactly after a transient status, a
time-out or a missing connection, as long as attempts remain. An attempt follows the redirections of its
answers, of which no other host and port gets to see the token. The answer is read off the last
delivery alone, and an error after an unsuccessful status carries that status. -/
theorem fetch_sent (config : DirectoryConfig) (t : Transport τ) (x : Fetch) (s : HttpState τ) :
    let q := x.question config
    let result := (x.on (ofConfig config t).directory).call s
    (config.Unable t.names q.url →
      result.1 = .error (.error (.request ⟨.unsendable, t.wording.unsendable q.url⟩)) ∧
        result.2.network = s.network) ∧
    (¬ config.Unable t.names q.url →
      ∃ request, config.Asks t.names q.url q.fields request ∧
        ∃ n, t.Sent request s.network (min (config.maxRetries + 1) (Nat.pow 2 32 - 1)) n
            result.2.network ∧
          (∀ k < n, t.Attempts request s.network k) ∧
          ∃ outcome, result.1 = outcome.mapError .error ∧
            q.Reads t.wording (t.delivery request s.network (n - 1)) outcome ∧
            ∀ r, t.delivery request s.network (n - 1) = .answered r → ¬ r.Succeeded →
              ∃ e, outcome = .error e ∧ e.statusCode = some r.status) := by
  intro q result
  have hsettled : q.Settled t config.retryPolicy.maxAttempts s.network
    ((ofConfig config t).request? q.url q.fields) result.1 result.2.network :=
      settles_fetch config t x s
  generalize result.1 = answer, result.2.network = w' at hsettled
  constructor
  · intro hunable
    have hnone : (ofConfig config t).request? q.url q.fields = none :=
      request?_eq_none_iff.mpr hunable
    rw [hnone] at hsettled
    cases hsettled
    exact ⟨rfl, rfl⟩
  · intro hable
    obtain ⟨request, hsome⟩ : ∃ request,
        (ofConfig config t).request? q.url q.fields = some request :=
      Option.ne_none_iff_exists'.mp (mt request?_eq_none_iff.mp hable)
    rw [hsome] at hsettled
    cases hsettled with
    | sent hsent hreads =>
      refine ⟨request, asks_of_request? hsome, _, hsent, fun k _ => t.attempts request _ k, _, rfl,
        hreads, fun r hr hs => ?_⟩
      rw [hr] at hreads
      exact hreads.statusCode hs

/-- The configuration of a client. -/
def testConfig : DirectoryConfig := { account := "acc", apiUrl := "http://iam.test/v1" }

/-- The address of a path at the service. -/
def testAddress (segments : List String) : Url :=
  ⟨⟨false, "iam.test", 80⟩, segments.map String.toList, none⟩

/-- A service that is unavailable for the first request, sends the client on after the second, and
then has nothing. -/
def recovering : Transport Nat where
  send _ := fun n =>
    let answer := fun status location => Delivery.answered ⟨status, location, .ok [], ""⟩
    (if n = 0 then answer 503 none
      else if n = 1 then answer 302 (some (testAddress ["v2"])) else answer 404 none, n + 1)

/-- The request that meets the unavailable service is attempted once more, with one redirection, and
the last answer counts. -/
theorem recovering_fetch_sent :
    let result :=
      ((Fetch.ask (.group "g")).on (ofConfig testConfig recovering).directory).call ⟨0, []⟩
    ¬ testConfig.Unable recovering.names "http://iam.test/v1/accounts/acc/groups/g" ∧
      result.1 = .error (.error (.notFound "group" "g")) ∧ result.2.network = 3 := by
  intro result
  have hable : ¬ testConfig.Unable recovering.names
      ((Fetch.ask (.group "g")).question testConfig).url := by
    rintro (h | ⟨h, -, -, -⟩)
    · exact absurd h (by decide +kernel)
    · cases h
  obtain ⟨request, -, n, hsent, -, outcome, hanswer, hreads, -⟩ :=
    (fetch_sent testConfig recovering (.ask (.group "g")) ⟨0, []⟩).2 hable
  have hfirst : (recovering.attempt request).run 0 = (.answered ⟨503, none, .ok [], ""⟩, 1) :=
    Transport.run_follow_of_ends rfl rfl
  have hsecond : (recovering.attempt request).run 1 = (.answered ⟨404, none, .ok [], ""⟩, 3) :=
    (Transport.run_follow_succ rfl rfl).trans (Transport.run_follow_of_ends rfl rfl)
  obtain ⟨hunavailable, hafter⟩ :=
    Prod.mk.inj ((recovering.run_attempt_after request 0 0).symm.trans hfirst)
  rw [← hafter, recovering.run_attempt_after] at hsecond
  obtain ⟨hmissing, hnetwork⟩ := Prod.mk.inj hsecond
  have hn : n = 2 := by
    refine hsent.eq_succ (by decide) (fun i hi => ?_) ?_
    · rw [Nat.lt_one_iff.mp hi, hunavailable]
      decide
    · rw [hmissing]
      decide
  subst hn
  refine ⟨hable, ?_, hsent.network.trans hnetwork⟩
  rw [hmissing] at hreads
  rw [hanswer]
  cases hreads with
  | decoded hs => exact absurd hs.2 (by decide)
  | undecodable hs => exact absurd hs.2 (by decide)
  | stalled hs => exact absurd hs.2 (by decide)
  | missing => rfl
  | denied hs => cases hs
  | conflicting hs => cases hs
  | refused _ h404 => exact absurd rfl h404

/-- A service that has its groups at another place, and refuses to name its users. -/
def moved : RouteTable where
  origin := ⟨false, "iam.test", 80⟩
  listening := true
  routes := [⟨some "/v1/accounts/acc/groups", none, ⟨302, []⟩, none, some (testAddress ["v2"])⟩,
    ⟨some "/v2", none, ⟨200, bytesOfText "[]"⟩, none, none⟩,
    ⟨some "/v1/accounts/acc/users", none, ⟨400, [0xEF, 0xBB, 0xBF, 0x62]⟩, none, none⟩]
  seen := []

/-- A service whose answers do not come to an end in time. -/
def stalling : Transport Nat where
  send _ := fun n => (.answered ⟨200, none, .error "operation timed out", ""⟩, n + 1)

/-- A redirection is no error, and the server sees two targets in one call; a text is reported
without the mark in front of it; and an answer that does not come to an end is not asked for
again. -/
theorem moved_and_stalling_answers :
    let d := (ofConfig testConfig RouteTable.transport).directory
    let groups := d.groups.call ⟨moved, []⟩
    let stalled := (ofConfig testConfig stalling).directory.groups.call ⟨0, []⟩
    groups.1 = .ok [] ∧
      groups.2.network.seen.map Request.target = ["/v1/accounts/acc/groups", "/v2"] ∧
      (d.users.call ⟨moved, []⟩).1 = .error (.error (.generic "user" "list" "b" (some 400))) ∧
      stalled.1 = .error (.error (.invalidResponse (some "operation timed out"))) ∧
      stalled.2.network = 1 := by
  decide +kernel

end HttpClient

end Entitlements
