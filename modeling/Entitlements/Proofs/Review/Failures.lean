import Entitlements.Proofs.Access.FirstFailure
import Entitlements.Proofs.Review.Alike

/-! # Soft and hard failures

An analysis reports softly that nothing has an identifier, and fails with the first failure of its
calls otherwise. Two kinds of failures are absorbed: that the identifier is not an id
(`absorbsLookup`), and that a group to which an analysed policy is bound does not exist
(`absorbsAnalysis`). `Directory.callsFor` are the calls that an analysis makes, with their answers;
the main statement is `Directory.failures_never_mix`. -/

namespace Entitlements

open Access

/-! ### The calls of an analysis -/

/-- A recorded directory is alike to the one that it records. -/
theorem Directory.alike_recorded {σ : Type} (d : Directory σ) :
    d.recorded.Alike (fun p s => p.1 = s) d where
  account := rfl
  ask c := by
    rintro s t rfl
    rw [call_ask_recorded]
    exact agree_same ((d.ask c).call s.1).1 rfl
  page query page size := by
    rintro s t rfl
    exact agree_same ((d.effectivePermissions query page size).call s.1).1 rfl

/-- The calls that are made for `x`, with their answers. -/
def Directory.callsFor {σ : Type} (d : Directory σ) (x : EngineCall) (s : σ) : List Record :=
  ((x.on d.recorded).call (s, [])).2.2

/-- The first failure among the calls for `x` is the one that `x` fails with. -/
theorem Access.HeedsAt.firstFailure {σ : Type} {d : Directory σ} {x : EngineCall} {s : σ}
    {absorbs : Nat → Record → Prop} (h : HeedsAt absorbs (s, []) (x.on d.recorded)) :
    FirstFailure absorbs 0 (d.callsFor x s) ((x.on d).call s).1 := by
  obtain ⟨calls, hcalls, hfirst⟩ := h
  rw [List.nil_append] at hcalls
  rw [(d.alike_recorded.engine x (s, []) s rfl).answer_eq] at hfirst
  rw [Directory.callsFor, hcalls]
  exact hfirst

/-! ### What is absorbed -/

/-- Nothing is absorbed. -/
def absorbsNothing : Nat → Record → Prop := fun _ _ => False

/-- It is absorbed that the first call, which is `c`, finds no resource. -/
def absorbsLookup (c : CachedCall) : Nat → Record → Prop := fun n r => n = 0 ∧ r.IsMissing c

/-- It is absorbed that the policy with an identifier is not found by the first call, and that
groups are not found. -/
def absorbsAnalysis (identifier : String) : Nat → Record → Prop := fun n r =>
  absorbsLookup (.policy identifier) n r ∨ ∃ uuid, r.IsMissing (.group uuid)

/-- From the `n`-th call on, a failure of `c` is not absorbed. -/
def Fatal (absorbs : Nat → Record → Prop) (n : Nat) (c : CachedCall) : Prop :=
  ∀ i answer, n ≤ i → ¬ absorbs i (.kept c answer)

theorem Record.IsMissing.eq {c c' : CachedCall} {answer : Except Failure c'.Answer}
    (h : (Record.kept c' answer).IsMissing c) : c' = c := by
  obtain ⟨e, -, heq⟩ := h
  cases heq
  rfl

theorem fatal_absorbsNothing (n : Nat) (c : CachedCall) : Fatal absorbsNothing n c :=
  fun _ _ _ h => h

/-- Only failures of the first call are absorbed. -/
theorem fatal_absorbsLookup {c c' : CachedCall} {n : Nat} (h : 0 < n ∨ c' ≠ c) :
    Fatal (absorbsLookup c) n c' := by
  rintro i answer hi ⟨rfl, hmissing⟩
  rcases h with hn | hne
  · exact absurd hi (Nat.not_le.mpr hn)
  · exact hne hmissing.eq

theorem fatal_absorbsAnalysis {identifier : String} {c : CachedCall} {n : Nat}
    (h : 0 < n ∨ c ≠ .policy identifier) (hgroup : ∀ uuid, c ≠ .group uuid) :
    Fatal (absorbsAnalysis identifier) n c := by
  rintro i answer hi (hlookup | ⟨uuid, hmissing⟩)
  · exact fatal_absorbsLookup h i answer hi hlookup
  · exact hgroup uuid hmissing.eq

namespace Directory

variable {σ : Type} (d : Directory σ) {absorbs : Nat → Record → Prop} {n : Nat}

/-! ### Analyses heed failures -/

theorem heeds_boundPolicies (hbindings : ∀ uuid, Fatal absorbs n (.bindingsOfGroup uuid))
    (hpolicy : ∀ uuid, Fatal absorbs n (.policy uuid)) (uuid : String) :
    Heeds absorbs n (d.recorded.boundPolicies uuid) := by
  refine (heeds_ask d (hbindings uuid)).bind fun bindings => heeds_mapM (fun b => ?_) bindings
  exact (heeds_ask d (hpolicy b.policyUuid)).bind fun _ => heeds_pure _

theorem heeds_collectGroup (hbindings : ∀ uuid, Fatal absorbs n (.bindingsOfGroup uuid))
    (hpolicy : ∀ uuid, Fatal absorbs n (.policy uuid)) (group : Group) :
    Heeds absorbs n (d.recorded.collectGroup group) :=
  (d.heeds_boundPolicies hbindings hpolicy group.uuid).bind fun _ => heeds_pure _

theorem heeds_userByEmail (husers : Fatal absorbs n .users) (email : String) :
    Heeds absorbs n (d.recorded.userByEmail email) :=
  (heeds_ask d husers).bind fun _ => heeds_pure _

theorem heeds_groupByName (hgroups : Fatal absorbs n .groups) (name : String) :
    Heeds absorbs n (d.recorded.groupByName name) :=
  (heeds_ask d hgroups).bind fun _ => heeds_pure _

theorem heeds_policyByName (hpolicies : Fatal absorbs n .policies) (name : String) :
    Heeds absorbs n (d.recorded.policyByName name) :=
  (heeds_ask d hpolicies).bind fun _ => heeds_pure _

/-- A first call whose missing resource is absorbed, and what follows it. -/
theorem heedsAt_lookup_bind {α : Type} {c : CachedCall} {s : σ}
    {f : Option c.Answer → Access (σ × List Record) α}
    (hmissing : ∀ answer, absorbs 0 (.kept c answer) ↔ (Record.kept c answer).IsMissing c)
    (hf : ∀ x, Heeds absorbs 1 (f x)) :
    HeedsAt absorbs (s, []) ((d.recorded.ask c).orMissing >>= f) := by
  refine (heedsAt_orMissing d hmissing).bind fun x s' hcall => hf x s' ?_
  have hlog := congrArg (fun p => p.2.2.length) hcall
  rw [call_orMissing_snd, call_ask_recorded] at hlog
  exact Nat.le_of_eq hlog

theorem missing_absorbsLookup {c : CachedCall} (answer : Except Failure c.Answer) :
    absorbsLookup c 0 (.kept c answer) ↔ (Record.kept c answer).IsMissing c :=
  ⟨fun h => h.2, fun h => ⟨rfl, h⟩⟩

theorem heedsAt_findUser (identifier : String) (s : σ) :
    HeedsAt (absorbsLookup (.user identifier)) (s, []) (d.recorded.findUser identifier) := by
  have husers : ∀ n, Fatal (absorbsLookup (.user identifier)) n .users :=
    fun n => fatal_absorbsLookup (.inr nofun)
  unfold findUser
  split
  · exact d.heeds_userByEmail (husers 0) identifier _ (Nat.zero_le _)
  · refine d.heedsAt_lookup_bind (c := .user identifier) missing_absorbsLookup fun user => ?_
    cases user with
    | some user => exact heeds_pure _
    | none => exact d.heeds_userByEmail (husers 1) identifier

theorem heedsAt_findGroup (identifier : String) (s : σ) :
    HeedsAt (absorbsLookup (.group identifier)) (s, []) (d.recorded.findGroup identifier) := by
  have hgroups : Fatal (absorbsLookup (.group identifier)) 1 .groups :=
    fatal_absorbsLookup (.inr nofun)
  unfold findGroup
  refine d.heedsAt_lookup_bind (c := .group identifier) missing_absorbsLookup fun group => ?_
  cases group with
  | some group => exact heeds_pure _
  | none => exact d.heeds_groupByName hgroups identifier

theorem missing_absorbsAnalysis {identifier : String}
    (answer : Except Failure (CachedCall.Answer (.policy identifier))) :
    absorbsAnalysis identifier 0 (.kept (.policy identifier) answer) ↔
      (Record.kept (.policy identifier) answer).IsMissing (.policy identifier) := by
  constructor
  · rintro (⟨-, hmissing⟩ | ⟨uuid, hmissing⟩)
    · exact hmissing
    · cases hmissing.eq
  · exact fun hmissing => .inl ⟨rfl, hmissing⟩

/-- The policy is fetched once more when its name was found in the listing. That it is not there
then is not absorbed, since this is not the first call. -/
theorem heedsAt_findPolicy (identifier : String) (s : σ) :
    HeedsAt (absorbsAnalysis identifier) (s, []) (d.recorded.findPolicy identifier) := by
  have hpolicies : Fatal (absorbsAnalysis identifier) 1 .policies :=
    fatal_absorbsAnalysis (.inr nofun) nofun
  have hpolicy : ∀ uuid, Fatal (absorbsAnalysis identifier) 1 (.policy uuid) :=
    fun uuid => fatal_absorbsAnalysis (.inl Nat.one_pos) nofun
  unfold findPolicy
  refine d.heedsAt_lookup_bind (c := .policy identifier) missing_absorbsAnalysis fun policy => ?_
  cases policy with
  | some policy => exact heeds_pure _
  | none =>
    refine (d.heeds_policyByName hpolicies identifier).bind ?_
    rintro (_ | policy)
    · exact heeds_pure _
    · dsimp only
      split
      · exact (heeds_ask d (hpolicy policy.uuid)).bind fun _ => heeds_pure _
      · exact heeds_pure _

theorem heedsAt_resolveUser (identifier : String) (s : σ) :
    HeedsAt (absorbsLookup (.user identifier)) (s, []) (d.recorded.resolveUser identifier) := by
  have hfatal : ∀ {c : CachedCall}, c ≠ .user identifier →
      Fatal (absorbsLookup (.user identifier)) 0 c := fun h => fatal_absorbsLookup (.inr h)
  refine (d.heedsAt_findUser identifier s).bind fun user s' _ => ?_
  refine (?_ : Heeds _ 0 _) s' (Nat.zero_le _)
  cases user with
  | none => exact heeds_pure _
  | some user =>
    refine (heeds_ask d (c := .groupsOfUser user.uid) (hfatal nofun)).bind fun groups => ?_
    refine Heeds.bind (heeds_mapM (fun group => ?_) groups) fun _ => heeds_pure _
    refine Heeds.bind ?_ fun _ => heeds_pure _
    exact d.heeds_boundPolicies (fun _ => hfatal nofun) (fun _ => hfatal nofun) group.uuid

theorem heedsAt_resolveGroup (identifier : String) (s : σ) :
    HeedsAt (absorbsLookup (.group identifier)) (s, []) (d.recorded.resolveGroup identifier) := by
  have hfatal : ∀ {c : CachedCall}, c ≠ .group identifier →
      Fatal (absorbsLookup (.group identifier)) 0 c := fun h => fatal_absorbsLookup (.inr h)
  refine (d.heedsAt_findGroup identifier s).bind fun group s' _ => ?_
  refine (?_ : Heeds _ 0 _) s' (Nat.zero_le _)
  cases group with
  | none => exact heeds_pure _
  | some group =>
    refine Heeds.bind ?_ fun _ => heeds_pure _
    exact d.heeds_collectGroup (fun _ => hfatal nofun) (fun _ => hfatal nofun) group

theorem heeds_boundGroup? (identifier : String) (b : Binding) :
    Heeds (absorbsAnalysis identifier) n (d.recorded.boundGroup? b) := by
  intro s _
  refine (heedsAt_orMissing d (c := .group b.groupUuid) fun answer => ?_).bind fun group s' _ => ?_
  · constructor
    · rintro (⟨-, hmissing⟩ | ⟨uuid, hmissing⟩)
      · cases hmissing.eq
      · cases hmissing.eq
        exact hmissing
    · exact fun hmissing => .inr ⟨_, hmissing⟩
  · cases group with
    | none => exact heeds_pure (n := 0) _ s' (Nat.zero_le _)
    | some group => exact heeds_pure (n := 0) _ s' (Nat.zero_le _)

theorem heedsAt_analyzePolicy (identifier : String) (s : σ) :
    HeedsAt (absorbsAnalysis identifier) (s, []) (d.recorded.analyzePolicy identifier) := by
  refine (d.heedsAt_findPolicy identifier s).bind fun policy s' _ => ?_
  refine (?_ : Heeds _ 0 _) s' (Nat.zero_le _)
  cases policy with
  | none => exact heeds_pure _
  | some policy =>
    refine (heeds_ask d (c := .bindings) (fatal_absorbsAnalysis (.inr nofun) nofun)).bind ?_
    intro bindings
    exact (heeds_mapM (d.heeds_boundGroup? identifier) _).bind fun _ => heeds_pure _

theorem heeds_policyMatrix : Heeds absorbsNothing 0 d.recorded.policyMatrix := by
  refine (heeds_ask d (fatal_absorbsNothing 0 .policies)).bind fun policies => ?_
  refine Heeds.bind (heeds_mapM (fun policy => ?_) policies) fun _ => heeds_pure _
  exact (heeds_ask d (fatal_absorbsNothing 0 (.policy policy.uuid))).bind fun _ => heeds_pure _

theorem heeds_groupMatrix : Heeds absorbsNothing 0 d.recorded.groupMatrix := by
  refine (heeds_ask d (fatal_absorbsNothing 0 .groups)).bind fun groups => ?_
  refine Heeds.bind (heeds_mapM (fun group => ?_) groups) fun _ => heeds_pure _
  refine Heeds.bind ?_ fun _ => heeds_pure _
  exact d.heeds_boundPolicies (fun _ => fatal_absorbsNothing 0 _)
    (fun _ => fatal_absorbsNothing 0 _) group.uuid

theorem heeds_responsibilityMatrix (templateName : String) :
    Heeds absorbsNothing 0 (d.recorded.responsibilityMatrix templateName) := by
  unfold responsibilityMatrix
  split
  · exact heeds_pure _
  · refine (heeds_ask d (fatal_absorbsNothing 0 .groups)).bind fun groups => ?_
    refine Heeds.bind (heeds_mapM (fun group => ?_) groups) fun _ => heeds_pure _
    refine Heeds.bind ?_ fun _ => heeds_pure _
    exact d.heeds_collectGroup (fun _ => fatal_absorbsNothing 0 _)
      (fun _ => fatal_absorbsNothing 0 _) group

theorem heeds_leastPrivilege : Heeds absorbsNothing 0 d.recorded.leastPrivilege := by
  refine (heeds_ask d (fatal_absorbsNothing 0 .policies)).bind fun policies => ?_
  refine Heeds.bind (heeds_mapM (fun policy => ?_) policies) fun _ => heeds_pure _
  exact (heeds_ask d (fatal_absorbsNothing 0 (.policy policy.uuid))).bind fun _ => heeds_pure _

/-! ### Soft failures -/

/-- The answer to `c` is that the resource does not exist. -/
def Lacks (c : CachedCall) (s s' : σ) : Prop :=
  ∃ e : DirectoryError, e.isNotFound = true ∧ (d.ask c).call s = (.error (.error e), s')

/-- No user has this identifier: it is an email, or else no uid, and no listed user has it as an
email. -/
def FindsNoUser (identifier : String) (s s' : σ) : Prop :=
  ∃ s₁ users, (isEmail identifier = true ∧ s₁ = s ∨
      isEmail identifier = false ∧ d.Lacks (.user identifier) s s₁) ∧
    d.users.call s₁ = (.ok users, s') ∧ ∀ u ∈ users, sameLetters u.email identifier = false

/-- No group has this identifier: it is no uuid, and no listed group has it as a name. -/
def FindsNoGroup (identifier : String) (s s' : σ) : Prop :=
  ∃ s₁ groups, d.Lacks (.group identifier) s s₁ ∧ d.groups.call s₁ = (.ok groups, s') ∧
    ∀ g ∈ groups, g.name ≠ identifier

/-- No policy has this identifier: it is no uuid, and no listed policy has it as a name. -/
def FindsNoPolicy (identifier : String) (s s' : σ) : Prop :=
  ∃ s₁ policies, d.Lacks (.policy identifier) s s₁ ∧ d.policies.call s₁ = (.ok policies, s') ∧
    ∀ p ∈ policies, p.name ≠ identifier

variable {d}

/-- What follows a lookup when it finds nothing: the resource does not exist, or it does. -/
theorem call_orMissing_bind_eq_ok_iff {α β : Type} {a : Access σ α} {f : Option α → Access σ β}
    {y : β} {s s' : σ} : (a.orMissing >>= f).call s = (.ok y, s') ↔
      (∃ x s₁, a.call s = (.ok x, s₁) ∧ (f (some x)).call s₁ = (.ok y, s')) ∨
      ∃ s₁, (∃ e : DirectoryError, e.isNotFound = true ∧ a.call s = (.error (.error e), s₁)) ∧
        (f none).call s₁ = (.ok y, s') := by
  rw [call_bind_eq_ok_iff]
  constructor
  · rintro ⟨_ | x, s₁, hlookup, hf⟩
    · exact .inr ⟨s₁, call_orMissing_eq_none_iff.mp hlookup, hf⟩
    · exact .inl ⟨x, s₁, call_orMissing_eq_some_iff.mp hlookup, hf⟩
  · rintro (⟨x, s₁, hlookup, hf⟩ | ⟨s₁, hlookup, hf⟩)
    · exact ⟨some x, s₁, call_orMissing_eq_some_iff.mpr hlookup, hf⟩
    · exact ⟨none, s₁, call_orMissing_eq_none_iff.mpr hlookup, hf⟩

theorem call_userByEmail_eq_none_iff {email : String} {s s' : σ} :
    (d.userByEmail email).call s = (.ok none, s') ↔
      ∃ users, d.users.call s = (.ok users, s') ∧
        ∀ u ∈ users, sameLetters u.email email = false := by
  unfold userByEmail
  rw [call_map_eq_ok_iff]
  simp only [List.find?_eq_none, Bool.not_eq_true]

theorem call_findUser_eq_none_iff {identifier : String} {s s' : σ} :
    (d.findUser identifier).call s = (.ok none, s') ↔ d.FindsNoUser identifier s s' := by
  unfold findUser FindsNoUser
  by_cases hemail : isEmail identifier = true
  · rw [if_pos hemail, call_userByEmail_eq_none_iff]
    simp [hemail]
  · rw [if_neg hemail, call_orMissing_bind_eq_ok_iff]
    simp only [call_userByEmail_eq_none_iff, call_pure_eq_ok_iff]
    simp [hemail, Lacks, ask]

theorem call_findGroup_eq_none_iff {identifier : String} {s s' : σ} :
    (d.findGroup identifier).call s = (.ok none, s') ↔ d.FindsNoGroup identifier s s' := by
  unfold findGroup FindsNoGroup groupByName
  rw [call_orMissing_bind_eq_ok_iff]
  simp only [call_map_eq_ok_iff, call_pure_eq_ok_iff]
  simp [Lacks, ask]

theorem call_findPolicy_eq_none_iff {identifier : String} {s s' : σ} :
    (d.findPolicy identifier).call s = (.ok none, s') ↔ d.FindsNoPolicy identifier s s' := by
  unfold findPolicy FindsNoPolicy policyByName
  rw [call_orMissing_bind_eq_ok_iff]
  constructor
  · rintro (⟨policy, s₁, -, h⟩ | ⟨s₁, hmissing, h⟩)
    · cases (call_pure_eq_ok_iff.mp h).1
    · obtain ⟨found, s₂, hscan, h⟩ := call_bind_eq_ok_iff.mp h
      cases found with
      | none =>
        obtain ⟨-, rfl⟩ := call_pure_eq_ok_iff.mp h
        obtain ⟨policies, hpolicies, hnone⟩ := call_map_eq_ok_iff.mp hscan
        exact ⟨s₁, policies, hmissing, hpolicies, by simpa using hnone⟩
      | some policy =>
        -- Whatever is found is returned, at once or after it has been fetched once more.
        dsimp only at h
        split at h
        · obtain ⟨_, -, heq⟩ := call_map_eq_ok_iff.mp h
          cases heq
        · cases (call_pure_eq_ok_iff.mp h).1
  · rintro ⟨s₁, policies, hmissing, hpolicies, hnone⟩
    have hunnamed : policies.find? (·.name == identifier) = none :=
      List.find?_eq_none.mpr (by simpa using hnone)
    have hscan := call_map_eq_ok_iff.mpr ⟨policies, hpolicies, hunnamed⟩
    exact .inr ⟨s₁, hmissing, call_bind_eq_ok_iff.mpr ⟨none, s', hscan, rfl⟩⟩

/-- An analysis that fails softly when nothing is found, and reports on what is found. -/
theorem call_bind_eq_failed_iff {α β : Type} {find : Access σ (Option α)}
    {f : Option α → Access σ (Outcome β)} {e e₀ : SoftError} {s s' : σ}
    (hnone : f none = pure (.failed e₀))
    (hsome : ∀ x t, (f (some x)).call t ≠ (.ok (.failed e), s')) :
    (find >>= f).call s = (.ok (.failed e), s') ↔ e = e₀ ∧ find.call s = (.ok none, s') := by
  rw [call_bind_eq_ok_iff]
  constructor
  · rintro ⟨_ | x, s₁, hfind, h⟩
    · rw [hnone] at h
      obtain ⟨heq, rfl⟩ := call_pure_eq_ok_iff.mp h
      cases heq
      exact ⟨rfl, hfind⟩
    · exact absurd h (hsome x s₁)
  · rintro ⟨rfl, hfind⟩
    exact ⟨none, s', hfind, by rw [hnone, call_pure]⟩

theorem call_resolveUser_eq_failed_iff {identifier : String} {e : SoftError} {s s' : σ} :
    (d.resolveUser identifier).call s = (.ok (.failed e), s') ↔
      e = ⟨"User not found: " ++ identifier, none⟩ ∧ d.FindsNoUser identifier s s' := by
  rw [← call_findUser_eq_none_iff]
  refine call_bind_eq_failed_iff rfl fun user t h => ?_
  obtain ⟨groups, t₁, -, h⟩ := call_bind_eq_ok_iff.mp h
  obtain ⟨_, -, heq⟩ := call_map_eq_ok_iff.mp h
  cases heq

theorem call_resolveGroup_eq_failed_iff {identifier : String} {e : SoftError} {s s' : σ} :
    (d.resolveGroup identifier).call s = (.ok (.failed e), s') ↔
      e = ⟨"Group not found: " ++ identifier, none⟩ ∧ d.FindsNoGroup identifier s s' := by
  rw [← call_findGroup_eq_none_iff]
  refine call_bind_eq_failed_iff rfl fun group t h => ?_
  obtain ⟨_, -, heq⟩ := call_map_eq_ok_iff.mp h
  cases heq

theorem call_analyzePolicy_eq_failed_iff {identifier : String} {e : SoftError} {s s' : σ} :
    (d.analyzePolicy identifier).call s = (.ok (.failed e), s') ↔
      e = ⟨"Policy not found: " ++ identifier, none⟩ ∧ d.FindsNoPolicy identifier s s' := by
  rw [← call_findPolicy_eq_none_iff]
  refine call_bind_eq_failed_iff rfl fun policy t h => ?_
  obtain ⟨bindings, t₁, -, h⟩ := call_bind_eq_ok_iff.mp h
  obtain ⟨_, -, heq⟩ := call_map_eq_ok_iff.mp h
  cases heq

/-! ### Bindings to missing groups -/

variable (d) in
/-- The groups of some bindings are asked for, one after the other. Those that exist are shown, each
with the boundaries of its binding; a binding to a group that does not exist is left out. -/
inductive ShowsGroups : σ → List Binding → List BoundGroup → σ → Prop
  | nil (s : σ) : ShowsGroups s [] [] s
  | found {b : Binding} {bs : List Binding} {g : Group} {shown : List BoundGroup} {s s₁ s₂ : σ}
      (head : (d.group b.groupUuid).call s = (.ok g, s₁)) (tail : ShowsGroups s₁ bs shown s₂) :
      ShowsGroups s (b :: bs) (⟨b.groupUuid, g.name, b.boundary⟩ :: shown) s₂
  | missing {b : Binding} {bs : List Binding} {shown : List BoundGroup} {s s₁ s₂ : σ}
      (head : d.Lacks (.group b.groupUuid) s s₁) (tail : ShowsGroups s₁ bs shown s₂) :
      ShowsGroups s (b :: bs) shown s₂

theorem call_boundGroup?_eq_some_iff {b : Binding} {g : BoundGroup} {s s' : σ} :
    (d.boundGroup? b).call s = (.ok (some g), s') ↔ ∃ group,
      (d.group b.groupUuid).call s = (.ok group, s') ∧
        g = ⟨b.groupUuid, group.name, b.boundary⟩ := by
  unfold boundGroup?
  rw [call_orMissing_bind_eq_ok_iff]
  simp only [call_pure_eq_ok_iff]
  simp [eq_comm (a := g)]

theorem call_boundGroup?_eq_none_iff {b : Binding} {s s' : σ} :
    (d.boundGroup? b).call s = (.ok none, s') ↔ d.Lacks (.group b.groupUuid) s s' := by
  unfold boundGroup?
  rw [call_orMissing_bind_eq_ok_iff]
  simp only [call_pure_eq_ok_iff]
  simp [Lacks, ask]

theorem showsGroups_iff : ∀ {bs : List Binding} {shown : List BoundGroup} {s s' : σ},
    d.ShowsGroups s bs shown s' ↔ ∃ groups, Each d.boundGroup? s bs groups s' ∧
      groups.filterMap id = shown
  | [], shown, s, s' => by
    constructor
    · rintro (_ | _ | _); exact ⟨[], .nil s, rfl⟩
    · rintro ⟨_, _ | _, rfl⟩; exact .nil s
  | b :: bs, shown, s, s' => by
    constructor
    · rintro (_ | ⟨hhead, htail⟩ | ⟨hhead, htail⟩)
      · obtain ⟨groups, heach, rfl⟩ := showsGroups_iff.mp htail
        exact ⟨_ :: groups, .cons (call_boundGroup?_eq_some_iff.mpr ⟨_, hhead, rfl⟩) heach, rfl⟩
      · obtain ⟨groups, heach, rfl⟩ := showsGroups_iff.mp htail
        exact ⟨none :: groups, .cons (call_boundGroup?_eq_none_iff.mpr hhead) heach, rfl⟩
    · rintro ⟨_, _ | @⟨_, _, g, _, _, _, _, hhead, htail⟩, rfl⟩
      cases g with
      | none =>
        exact .missing (call_boundGroup?_eq_none_iff.mp hhead) (showsGroups_iff.mpr ⟨_, htail, rfl⟩)
      | some g =>
        obtain ⟨group, hgroup, rfl⟩ := call_boundGroup?_eq_some_iff.mp hhead
        exact .found hgroup (showsGroups_iff.mpr ⟨_, htail, rfl⟩)

/-- A policy is analysed when it is found and its bindings are gone through. -/
theorem call_analyzePolicy_eq_found_iff {identifier : String} {r : PolicyAnalysis} {s s' : σ} :
    (d.analyzePolicy identifier).call s = (.ok (.found r), s') ↔
      ∃ policy bindings shown s₁ s₂, (d.findPolicy identifier).call s = (.ok (some policy), s₁) ∧
        d.bindings.call s₁ = (.ok bindings, s₂) ∧
        d.ShowsGroups s₂ (bindings.filter (·.policyUuid == policy.uuid)) shown s' ∧
        r = .ofBindings policy shown := by
  unfold analyzePolicy
  rw [call_bind_eq_ok_iff]
  constructor
  · rintro ⟨_ | policy, s₁, hfind, h⟩
    · cases (call_pure_eq_ok_iff.mp h).1
    · obtain ⟨bindings, s₂, hbindings, h⟩ := call_bind_eq_ok_iff.mp h
      obtain ⟨groups, hgroups, heq⟩ := call_map_eq_ok_iff.mp h
      cases heq
      exact ⟨policy, bindings, _, s₁, s₂, hfind, hbindings,
        showsGroups_iff.mpr ⟨groups, call_mapM_eq_ok_iff.mp hgroups, rfl⟩, rfl⟩
  · rintro ⟨policy, bindings, _, s₁, s₂, hfind, hbindings, hshown, rfl⟩
    obtain ⟨groups, hgroups, rfl⟩ := showsGroups_iff.mp hshown
    refine ⟨some policy, s₁, hfind, call_bind_eq_ok_iff.mpr ⟨bindings, s₂, hbindings, ?_⟩⟩
    exact call_map_eq_ok_iff.mpr ⟨groups, call_mapM_eq_ok_iff.mpr hgroups, rfl⟩

/-! ### All analyses -/

/-- **Soft and hard failures never mix.** An analysis fails softly exactly when nothing has its
identifier. Among its calls, the first one that fails ends it and gives its failure, apart from the
first lookup of an identifier that is no id and, where a policy is analysed, from lookups of groups
that do not exist; their bindings alone are left out. -/
theorem failures_never_mix (d : Directory σ) (identifier templateName : String) (s s' : σ) :
    (∀ e, (d.resolveUser identifier).call s = (.ok (.failed e), s') ↔
      e = ⟨"User not found: " ++ identifier, none⟩ ∧ d.FindsNoUser identifier s s') ∧
    (∀ e, (d.resolveGroup identifier).call s = (.ok (.failed e), s') ↔
      e = ⟨"Group not found: " ++ identifier, none⟩ ∧ d.FindsNoGroup identifier s s') ∧
    (∀ e, (d.analyzePolicy identifier).call s = (.ok (.failed e), s') ↔
      e = ⟨"Policy not found: " ++ identifier, none⟩ ∧ d.FindsNoPolicy identifier s s') ∧
    (∀ r, (d.analyzePolicy identifier).call s = (.ok (.found r), s') ↔
      ∃ policy bindings shown s₁ s₂, (d.findPolicy identifier).call s = (.ok (some policy), s₁) ∧
        d.bindings.call s₁ = (.ok bindings, s₂) ∧
        d.ShowsGroups s₂ (bindings.filter (·.policyUuid == policy.uuid)) shown s' ∧
        r = .ofBindings policy shown) ∧
    FirstFailure (absorbsLookup (.user identifier)) 0 (d.callsFor (.resolveUser identifier) s)
      ((d.resolveUser identifier).call s).1 ∧
    FirstFailure (absorbsLookup (.group identifier)) 0 (d.callsFor (.resolveGroup identifier) s)
      ((d.resolveGroup identifier).call s).1 ∧
    FirstFailure (absorbsAnalysis identifier) 0 (d.callsFor (.analyzePolicy identifier) s)
      ((d.analyzePolicy identifier).call s).1 ∧
    FirstFailure absorbsNothing 0 (d.callsFor .policyMatrix s) (d.policyMatrix.call s).1 ∧
    FirstFailure absorbsNothing 0 (d.callsFor .groupMatrix s) (d.groupMatrix.call s).1 ∧
    FirstFailure absorbsNothing 0 (d.callsFor (.responsibilityMatrix templateName) s)
      ((d.responsibilityMatrix templateName).call s).1 ∧
    FirstFailure absorbsNothing 0 (d.callsFor .leastPrivilege s) (d.leastPrivilege.call s).1 := by
  refine ⟨fun _ => call_resolveUser_eq_failed_iff, fun _ => call_resolveGroup_eq_failed_iff,
    fun _ => call_analyzePolicy_eq_failed_iff, fun _ => call_analyzePolicy_eq_found_iff,
    (d.heedsAt_resolveUser identifier s).firstFailure,
    (d.heedsAt_resolveGroup identifier s).firstFailure,
    (d.heedsAt_analyzePolicy identifier s).firstFailure, ?_, ?_, ?_, ?_⟩
  · exact (d.heeds_policyMatrix (s, []) (Nat.zero_le _)).firstFailure
  · exact (d.heeds_groupMatrix (s, []) (Nat.zero_le _)).firstFailure
  · exact (d.heeds_responsibilityMatrix templateName (s, []) (Nat.zero_le _)).firstFailure
  · exact (d.heeds_leastPrivilege (s, []) (Nat.zero_le _)).firstFailure

end Directory

end Entitlements
