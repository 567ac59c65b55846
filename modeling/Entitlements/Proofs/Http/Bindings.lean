import Entitlements.Proofs.Http.Payloads
import Mathlib.Algebra.GroupWithZero.Nat

/-! # Bindings of an account and of a group

The service sends bindings grouped by policy, for the account and for every group. Those of the
account are taken apart one by one, entry for entry and group for group; those of a group are its
entries, whatever groups they name. When no entry names a group twice and the entries of the group
are those of the account that name it, both calls give the same bindings of the group
(`HttpClient.bindings_agree`). -/

namespace Entitlements

open Json

namespace PolicyBindings

/-- Entries of the same policy within the same boundaries, whatever groups they name. -/
def SameBindings (e e' : PolicyBindings) : Prop :=
  e'.policyUuid = e.policyUuid ∧ e'.boundaries = e.boundaries

/-- An entry as the service may send it for a group: its groups may be any, or left out. -/
inductive Shows (e : PolicyBindings) : Json → Prop
  | groups (groups : List String) : Shows e (toJson { e with groups })
  | noGroups :
      Shows e (.obj [("policyUuid", .str e.policyUuid), ("boundaries", toJson e.boundaries)])

variable {account : String}

/-! ### Taking entries apart -/

theorem length_flatten (account : String) (R : List PolicyBindings) :
    (flatten account R).length = (R.map (·.groups.length)).sum := by
  simp [flatten]

/-- Where the binding of an entry to one of its groups stands. -/
theorem getElem?_flatten {before after : List PolicyBindings} {e : PolicyBindings} {j : Nat}
    {g : String} (hg : e.groups[j]? = some g) :
    (flatten account (before ++ e :: after))[(before.map (·.groups.length)).sum + j]? =
      some (e.bindingTo account g) := by
  have hj : j < e.groups.length := (List.getElem?_eq_some_iff.mp hg).1
  have hsplit : flatten account (before ++ e :: after) =
      flatten account before ++ (e.groups.map (e.bindingTo account) ++ flatten account after) := by
    simp [flatten]
  rw [hsplit, ← length_flatten account before, List.getElem?_append_right (Nat.le_add_right ..),
    Nat.add_sub_cancel_left, List.getElem?_append_left (by simpa using hj), List.getElem?_map, hg,
    Option.map_some]

/-! ### The bindings of one group -/

/-- An entry that names the group once at most has one binding to it, or none. -/
theorem filter_bindingTo {e : PolicyBindings} {g : String} (h : e.groups.count g ≤ 1) :
    (e.groups.map (e.bindingTo account)).filter (·.groupUuid == g) =
      if g ∈ e.groups then [e.bindingTo account g] else [] := by
  have hfilter : (e.groups.map (e.bindingTo account)).filter (·.groupUuid == g) =
      (List.replicate (e.groups.count g) g).map (e.bindingTo account) := by
    rw [List.filter_map, ← List.filter_beq]
    rfl
  rw [hfilter]
  split
  · next hmem =>
    have hcount : e.groups.count g = 1 := Nat.le_antisymm h (List.count_pos_iff.mpr hmem)
    rw [hcount]
    rfl
  · next hmem =>
    rw [List.count_eq_zero.mpr hmem]
    rfl

/-- **Restricted to a group**, the bindings of an account are those of the entries that name it. -/
theorem filter_flatten {g : String} : ∀ {R : List PolicyBindings},
    (∀ e ∈ R, e.groups.count g ≤ 1) → (flatten account R).filter (·.groupUuid == g) =
      ofGroup account g (R.filter (·.groups.contains g))
  | [], _ => rfl
  | e :: R, h => by
    obtain ⟨he, hR⟩ := List.forall_mem_cons.mp h
    have ih := filter_flatten hR
    have hflatten : flatten account (e :: R) =
        e.groups.map (e.bindingTo account) ++ flatten account R := rfl
    rw [hflatten, List.filter_append, filter_bindingTo he, ih, List.filter_cons]
    by_cases hmem : g ∈ e.groups <;> simp [hmem, ofGroup]

/-- The bindings of a group do not depend on the groups that its entries name. -/
theorem ofGroup_congr {g : String} {R R' : List PolicyBindings}
    (h : List.Forall₂ SameBindings R R') : ofGroup account g R' = ofGroup account g R := by
  induction h with
  | nil => rfl
  | cons he _ ih =>
    unfold ofGroup at ih ⊢
    rw [List.map_cons, List.map_cons, ih, bindingTo, bindingTo, he.1, he.2]

/-! ### Entries on the wire -/

theorem Shows.exists_ofJson? {e : PolicyBindings} {j : Json} (h : e.Shows j) :
    ∃ e', ofJson? j = some e' ∧ e.SameBindings e' := by
  have hlist : ∀ xs : List String, asList? asString? (toJson xs) = some xs := mapM_ofJson?_toJson
  cases h with
  | groups groups =>
    refine ⟨{ e with groups }, ?_, rfl, rfl⟩
    show ((asList? asString? (toJson groups)).bind fun _ =>
      (asList? asString? (toJson e.boundaries)).bind _) = _
    rw [hlist, hlist]
    rfl
  | noGroups =>
    refine ⟨{ e with groups := [] }, ?_, rfl, rfl⟩
    show ((asList? asString? (toJson e.boundaries)).bind _) = _
    rw [hlist]
    rfl

/-- Entries that are sent for a group are read, each with the policy and the boundaries it has. -/
theorem exists_bindingsPayload? {R : List PolicyBindings} {js : List Json}
    (h : List.Forall₂ Shows R js) :
    ∃ R', bindingsPayload? (.obj [("policyBindings", .arr js)]) = some R' ∧
      List.Forall₂ SameBindings R R' := by
  induction h with
  | nil => exact ⟨[], rfl, .nil⟩
  | @cons e j R js he _ ih =>
    obtain ⟨e', he', hsame⟩ := he.exists_ofJson?
    obtain ⟨R', hR', hall⟩ := ih
    have htail : js.mapM (ofJson? : Json → Option PolicyBindings) = some R' := hR'
    refine ⟨e' :: R', ?_, .cons hsame hall⟩
    show (j :: js).mapM (ofJson? : Json → Option PolicyBindings) = _
    rw [List.mapM_cons, he', htail]
    rfl

end PolicyBindings

/-! ### Both calls -/

namespace HttpClient

variable {τ : Type}

/-- **The two calls for bindings agree.** From the entries of an account, one binding is made for
each entry and each of its groups, in this order. Restricted to a group that no entry names twice,
these are the bindings that are made of the entries sent for the group, as long as they are the
entries of the account that name it, with these groups, others or none. -/
theorem bindings_agree (config : DirectoryConfig) (t : Transport τ) {s : HttpState τ}
    {request : Request} {payload : Json} {R : List PolicyBindings}
    (hrequest : (ofConfig config t).request? (config.repositoryUrl "bindings") [] = some request)
    (hreceives : t.Receives request s.network config.retryPolicy.maxAttempts payload)
    (hR : bindingsPayload? payload = some R) :
    ∃ bs, ((ofConfig config t).directory.bindings.call s).1 = .ok bs ∧
      bs.length = (R.map (·.groups.length)).sum ∧
      (∀ before e after, R = before ++ e :: after → ∀ (j : Nat) g, e.groups[j]? = some g →
        bs[(before.map (·.groups.length)).sum + j]? =
          some ⟨e.policyUuid, g, e.boundaries, "account", config.account⟩) ∧
      ∀ g, (∀ e ∈ R, e.groups.count g ≤ 1) →
        (∀ js, List.Forall₂ PolicyBindings.Shows (R.filter (·.groups.contains g)) js →
          ∃ R', bindingsPayload? (.obj [("policyBindings", .arr js)]) = some R' ∧
            List.Forall₂ PolicyBindings.SameBindings (R.filter (·.groups.contains g)) R') ∧
        ∀ (s' : HttpState τ) request' payload' R',
          (ofConfig config t).request? (config.repositoryUrl ("bindings/groups/" ++ g)) [] =
            some request' →
          t.Receives request' s'.network config.retryPolicy.maxAttempts payload' →
          bindingsPayload? payload' = some R' →
          List.Forall₂ PolicyBindings.SameBindings (R.filter (·.groups.contains g)) R' →
            (((ofConfig config t).directory.bindingsOfGroup g).call s').1 =
              .ok (bs.filter (·.groupUuid == g)) := by
  have hlisted := (settles_ask config t .bindings).call_of_receives hrequest hreceives
  have hdecode : (Fetch.questionOf config .bindings).decode payload =
      some (PolicyBindings.flatten config.account R) := congrArg (Option.map _) hR
  rw [hdecode] at hlisted
  refine ⟨_, hlisted, PolicyBindings.length_flatten config.account R, ?_, fun g hg =>
    ⟨fun js => PolicyBindings.exists_bindingsPayload?, ?_⟩⟩
  · rintro before e after rfl j g hj
    exact PolicyBindings.getElem?_flatten hj
  · intro s' request' payload' R' hrequest' hreceives' hR' hsame
    have hgroup := (settles_ask config t (.bindingsOfGroup g)).call_of_receives hrequest' hreceives'
    have hdecode' : (Fetch.questionOf config (.bindingsOfGroup g)).decode payload' =
        some (PolicyBindings.ofGroup config.account g R') := congrArg (Option.map _) hR'
    rw [hdecode', PolicyBindings.ofGroup_congr hsame, ← PolicyBindings.filter_flatten hg] at hgroup
    exact hgroup

/-- The bindings of an account; one policy is bound twice to a group, another one to none. -/
def accountPayload : Json :=
  .obj [("policyBindings", .arr [
    .obj [("policyUuid", .str "p"), ("groups", toJson ["g", "h"]), ("boundaries", toJson ["b"])],
    .obj [("policyUuid", .str "q")],
    .obj [("policyUuid", .str "p"), ("groups", toJson ["g"])]])]

/-- The bindings of the group, whose entries name no groups. -/
def groupPayload : Json :=
  .obj [("bindings", .arr [.obj [("policyUuid", .str "p"), ("boundaries", toJson ["b"])],
    .obj [("policyUuid", .str "p"), ("groups", toJson ([] : List String))]])]

/-- The second binding is the one to the other group, and both calls give the two to this one. -/
theorem accountPayload_agrees :
    let d := (ofConfig testConfig (inTurn [accountPayload.render, groupPayload.render])).directory
    ∃ bs, (d.bindings.call ⟨0, []⟩).1 = .ok bs ∧ bs.length = 3 ∧
      bs[1]? = some ⟨"p", "h", ["b"], "account", "acc"⟩ ∧
      ((d.bindingsOfGroup "g").call ⟨1, []⟩).1 = .ok (bs.filter (·.groupUuid == "g")) := by
  intro d
  obtain ⟨bs, hbs, hlength, hplaces, hgroup⟩ := bindings_agree testConfig
    (inTurn [accountPayload.render, groupPayload.render]) (s := ⟨0, []⟩)
    (R := [⟨"p", ["g", "h"], ["b"]⟩, ⟨"q", [], []⟩, ⟨"p", ["g"], []⟩])
    (by decide +kernel : _ = some ⟨testAddress ["v1", "repo", "account", "acc", "bindings"],
      none, none, none, agent⟩)
    (receives_inTurn (by decide +kernel : _ = some accountPayload)) rfl
  refine ⟨bs, hbs, hlength, hplaces [] _ _ rfl 1 "h" rfl, ?_⟩
  refine (hgroup "g" (by decide)).2 ⟨1, []⟩
    ⟨testAddress ["v1", "repo", "account", "acc", "bindings", "groups", "g"],
      none, none, none, agent⟩ groupPayload [⟨"p", [], ["b"]⟩, ⟨"p", [], []⟩] (by decide +kernel)
    (receives_inTurn (by decide +kernel)) rfl ?_
  exact .cons ⟨rfl, rfl⟩ (.cons ⟨rfl, rfl⟩ .nil)

end HttpClient

end Entitlements
