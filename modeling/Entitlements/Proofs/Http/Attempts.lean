import Entitlements.Http.Exchange
import Entitlements.Proofs.Retry.Runs

/-! # Attempts

An attempt at a request sends it, and then one request after the other as long as the answers send
the client on (`Transport.Chain`); there are no more of them than redirections may be followed. All
of them come from the same program, and the token and the password reach no other host or port than
the one that the first request was for (`Transport.Chain.carries`). -/

namespace Entitlements

/-! ### Redirections -/

/-- An answer that sends the client on to this address. -/
structure Arrival.SendsOn (r : Arrival) (address : Url) : Prop where
  status : r.status = 301 ∨ r.status = 302 ∨ r.status = 303 ∨ r.status = 307 ∨ r.status = 308
  location : r.location = some address

/-- What became of a request sends the client on. -/
inductive Delivery.SendsOn : Delivery → Url → Prop
  | answered {r : Arrival} {address : Url} (h : r.SendsOn address) : SendsOn (.answered r) address

theorem Arrival.redirection?_eq_some_iff {r : Arrival} {address : Url} :
    r.redirection? = some address ↔ r.SendsOn address := by
  have hstatus : redirectingStatuses.contains r.status = true ↔
      r.status = 301 ∨ r.status = 302 ∨ r.status = 303 ∨ r.status = 307 ∨ r.status = 308 := by
    simp [redirectingStatuses]
  unfold redirection?
  split
  · next h => exact ⟨fun hlocation => ⟨hstatus.mp h, hlocation⟩, fun hsends => hsends.location⟩
  · next h => exact ⟨nofun, fun hsends => absurd (hstatus.mpr hsends.status) h⟩

theorem Delivery.redirection?_eq_some_iff {d : Delivery} {address : Url} :
    d.redirection? = some address ↔ d.SendsOn address := by
  cases d with
  | answered r =>
    exact Arrival.redirection?_eq_some_iff.trans ⟨.answered, fun h => by cases h; assumption⟩
  | failed => exact ⟨nofun, nofun⟩

theorem Delivery.not_sendsOn {d : Delivery} {address : Url} (h : d.redirection? = none) :
    ¬ d.SendsOn address := by
  intro hon
  rw [redirection?_eq_some_iff.mpr hon] at h
  cases h

/-- The same host and port, be it with another scheme. -/
def Origin.SamePlace (o o' : Origin) : Prop := o.host = o'.host ∧ o.port = o'.port

/-- One request leads to another one, since the client is sent on to this address. Password and
token stay at the host and the port, and the address of the first request is passed on unless that
is from `https` to `http`. -/
structure Request.LeadsTo (r : Request) (address : Url) (r' : Request) : Prop where
  address : r'.address = address
  agent : r'.agent = r.agent
  here : r'.origin.SamePlace r.origin →
    r'.credentials = r.credentials ∧ r'.authorization = r.authorization
  elsewhere : ¬ r'.origin.SamePlace r.origin → r'.credentials = none ∧ r'.authorization = none
  referer : r'.referer = some r.address.text ∨
    (r.origin.secure = true ∧ r'.origin.secure = false ∧ r'.referer = r.referer)

theorem Request.leadsTo_redirected (r : Request) (address : Url) :
    r.LeadsTo address (r.redirected address) where
  address := rfl
  agent := rfl
  here h := ⟨if_pos h, if_pos h⟩
  elsewhere h := ⟨if_neg h, if_neg h⟩
  referer := by
    unfold redirected origin
    dsimp only
    split
    · next h => exact .inr (by simpa using h)
    · exact .inl rfl

/-! ### Requests one after the other -/

namespace Transport

variable {τ : Type} (t : Transport τ)

/-- What an attempt sends when its first request is this one and up to `n` redirections may be
followed, what becomes of it, and the state behind it. -/
inductive Chain : Nat → Request → τ → List Request → Delivery → τ → Prop
  | ends {n : Nat} {request : Request} {w w' : τ} {d : Delivery}
      (hsend : (t.send request).run w = (d, w')) (hends : ∀ address, ¬ d.SendsOn address) :
      Chain n request w [request] d w'
  | misled {request : Request} {w w' : τ} {d : Delivery} {address : Url}
      (hsend : (t.send request).run w = (d, w')) (hon : d.SendsOn address) :
      Chain 0 request w [request] (.failed ⟨.misled, t.wording.misled request⟩) w'
  | follows {n : Nat} {request request' : Request} {w w₁ w' : τ} {d d' : Delivery} {address : Url}
      {requests : List Request} (hsend : (t.send request).run w = (d, w₁))
      (hon : d.SendsOn address) (hleads : request.LeadsTo address request')
      (hrest : Chain n request' w₁ requests d' w') :
      Chain (n + 1) request w (request :: requests) d' w'

variable {t} {n : Nat} {request : Request} {requests : List Request} {d : Delivery} {w w' : τ}

theorem run_follow_of_ends (hsend : (t.send request).run w = (d, w'))
    (h : d.redirection? = none) : (t.follow n request).run w = (d, w') := by
  unfold follow
  rw [run_bind, hsend]
  dsimp only
  rw [h]
  rfl

theorem run_follow_zero {address : Url} (hsend : (t.send request).run w = (d, w'))
    (h : d.redirection? = some address) :
    (t.follow 0 request).run w = (.failed ⟨.misled, t.wording.misled request⟩, w') := by
  unfold follow
  rw [run_bind, hsend]
  dsimp only
  rw [h]
  rfl

theorem run_follow_succ {address : Url} (hsend : (t.send request).run w = (d, w'))
    (h : d.redirection? = some address) :
    (t.follow (n + 1) request).run w = (t.follow n (request.redirected address)).run w' := by
  rw [follow, run_bind, hsend]
  dsimp only
  rw [h]

/-- A request whose answer does not send the client on is the only one. -/
theorem chain_of_ends (n : Nat) (h : ((t.send request).run w).1.redirection? = none) :
    t.Chain n request w [request] ((t.follow n request).run w).1
      ((t.follow n request).run w).2 := by
  rw [run_follow_of_ends rfl h]
  exact .ends rfl fun _ => Delivery.not_sendsOn h

/-- **Following redirections** makes a chain of requests. -/
theorem exists_chain (t : Transport τ) (n : Nat) (request : Request) (w : τ) : ∃ requests,
    t.Chain n request w requests ((t.follow n request).run w).1
      ((t.follow n request).run w).2 := by
  induction n generalizing request w with
  | zero =>
    cases h : ((t.send request).run w).1.redirection? with
    | none => exact ⟨_, chain_of_ends 0 h⟩
    | some address =>
      rw [run_follow_zero rfl h]
      exact ⟨_, .misled rfl (Delivery.redirection?_eq_some_iff.mp h)⟩
  | succ n ih =>
    cases h : ((t.send request).run w).1.redirection? with
    | none => exact ⟨_, chain_of_ends (n + 1) h⟩
    | some address =>
      rw [run_follow_succ rfl h]
      obtain ⟨requests, hrest⟩ := ih (request.redirected address) ((t.send request).run w).2
      exact ⟨_, .follows rfl (Delivery.redirection?_eq_some_iff.mp h)
        (request.leadsTo_redirected address) hrest⟩

section Chain
variable (h : t.Chain n request w requests d w')
include h

theorem Chain.head?_eq : requests.head? = some request := by
  cases h <;> rfl

theorem Chain.length_le : requests.length ≤ n + 1 := by
  induction h with
  | ends => exact Nat.le_add_left 1 _
  | misled => exact Nat.le_refl _
  | follows _ _ _ _ ih => exact Nat.succ_le_succ ih

end Chain

end Transport

/-- A request of the same program as another one, which has its password and its token if it is for
the same host and port, or neither of them. -/
structure Request.Carries (r r' : Request) : Prop where
  agent : r'.agent = r.agent
  secrets : r'.credentials = none ∧ r'.authorization = none ∨
    r'.origin.SamePlace r.origin ∧ r'.credentials = r.credentials ∧
      r'.authorization = r.authorization

theorem Request.LeadsTo.carries {r r' r'' : Request} {address : Url} (h : r.LeadsTo address r')
    (h' : r'.Carries r'') : r.Carries r'' := by
  refine ⟨h'.agent.trans h.agent, ?_⟩
  rcases h'.secrets with hnone | ⟨hsame, hcredentials, hauthorization⟩
  · exact .inl hnone
  · by_cases hhere : r'.origin.SamePlace r.origin
    · obtain ⟨hkept, htoken⟩ := h.here hhere
      exact .inr ⟨⟨hsame.1.trans hhere.1, hsame.2.trans hhere.2⟩, hcredentials.trans hkept,
        hauthorization.trans htoken⟩
    · obtain ⟨hkept, htoken⟩ := h.elsewhere hhere
      exact .inl ⟨hcredentials.trans hkept, hauthorization.trans htoken⟩

/-- **The token stays at its server**, wherever the client is sent on to. -/
theorem Transport.Chain.carries {τ : Type} {t : Transport τ} {n : Nat} {request : Request}
    {requests : List Request} {d : Delivery} {w w' : τ}
    (h : t.Chain n request w requests d w') : ∀ r ∈ requests, request.Carries r := by
  have hself : ∀ r : Request, r.Carries r := fun r => ⟨rfl, .inr ⟨⟨rfl, rfl⟩, rfl, rfl⟩⟩
  induction h with
  | ends => exact List.forall_mem_singleton.mpr (hself _)
  | misled => exact List.forall_mem_singleton.mpr (hself _)
  | follows _ _ hleads _ ih =>
    exact List.forall_mem_cons.mpr ⟨hself _, fun r hr => hleads.carries (ih r hr)⟩

end Entitlements
