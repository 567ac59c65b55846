import Entitlements.Directory.Memory
import Entitlements.Proofs.Grants.Exactness
import Entitlements.Proofs.Statement.Held
import Entitlements.Review.Responsibility
import Mathlib.Data.List.Basic
import Mathlib.Data.List.Forall2
import Mathlib.Data.List.Induction

/-! # Charts of responsibility

A matrix has a column for each name of a group, in the order of the listing, and in it stands what
the groups of this name hold together (`foldl_mergeColumn`). What they satisfy together one of them
satisfies alone, so that a cell shows the role of its activity exactly when a group of the name
plays it (`ResponsibilityChart`, `responsibilityMatrix_charts`). -/

namespace Entitlements

/-! ### Columns -/

/-- What the groups of a name hold together. -/
def heldUnder (groups : List (String × HeldPermissions)) (name : String) : HeldPermissions :=
  ((groups.filter (·.1 = name)).map (·.2)).foldl .merge .empty

theorem heldUnder_append_singleton (groups : List (String × HeldPermissions)) (name : String)
    (held : HeldPermissions) (n : String) : heldUnder (groups ++ [(name, held)]) n =
      if n = name then (heldUnder groups n).merge held else heldUnder groups n := by
  unfold heldUnder
  rw [List.filter_append, List.map_append, List.foldl_append]
  by_cases hn : n = name
  · simp [hn]
  · simp [hn, Ne.symm hn]

theorem heldUnder_of_not_mem {groups : List (String × HeldPermissions)} {name : String}
    (h : name ∉ groups.map (·.1)) : heldUnder groups name = .empty := by
  have hnone : groups.filter (·.1 = name) = [] := by
    rw [List.filter_eq_nil_iff]
    intro g hg hname
    exact h (List.mem_map.mpr ⟨g, hg, of_decide_eq_true hname⟩)
  rw [heldUnder, hnone]
  rfl

theorem satisfies_heldUnder (groups : List (String × HeldPermissions)) (name : String)
    (required : List String) : (heldUnder groups name).satisfies required =
      groups.any fun g => g.1 = name && g.2.satisfies required := by
  rw [heldUnder, HeldPermissions.satisfies_foldl_merge, HeldPermissions.satisfies_empty,
    Bool.false_or, List.any_map, List.any_filter]
  rfl

/-- What a group holds goes to the column of its name, or to a new one behind the others. -/
theorem mergeColumn_map {names : List String} {f : String → HeldPermissions} {name : String}
    (held : HeldPermissions) (hnames : names.Nodup) (hnew : name ∉ names → f name = .empty) :
    mergeColumn (names.map fun n => (n, f n)) name held =
      (if name ∈ names then names else names ++ [name]).map fun n =>
        (n, if n = name then (f n).merge held else f n) := by
  induction names with
  | nil => simp [mergeColumn, hnew List.not_mem_nil]
  | cons n names ih =>
    obtain ⟨hn, hnames⟩ := List.nodup_cons.mp hnames
    rw [List.map_cons, mergeColumn]
    by_cases hname : n = name
    · -- The names are distinct, so that no column behind this one changes.
      subst hname
      have hrest : ∀ m ∈ names, (m, f m) = (m, if m = n then (f m).merge held else f m) := by
        intro m hm
        rw [if_neg (ne_of_mem_of_not_mem hm hn)]
      rw [if_pos rfl, if_pos List.mem_cons_self, List.map_cons, if_pos rfl,
        List.map_congr_left hrest]
    · have hcons : name ∈ n :: names ↔ name ∈ names := by simp [Ne.symm hname]
      rw [if_neg hname, ih hnames fun h => hnew (mt hcons.mp h)]
      simp only [hcons]
      split
      · rw [List.map_cons, if_neg hname]
      · rw [List.cons_append, List.map_cons, if_neg hname]

/-- **The columns** are the names in the order of first occurrence, each with what the groups of
this name hold. -/
theorem foldl_mergeColumn (groups : List (String × HeldPermissions)) :
    groups.foldl (fun columns (name, held) => mergeColumn columns name held) [] =
      (groups.map (·.1)).eraseDups.map fun n => (n, heldUnder groups n) := by
  induction groups using List.reverseRecOn with
  | nil => rfl
  | append_singleton groups g ih =>
    obtain ⟨name, held⟩ := g
    have hnew : name ∉ (groups.map (·.1)).eraseDups → heldUnder groups name = .empty := fun h =>
      heldUnder_of_not_mem (mt List.mem_eraseDups.mpr h)
    -- The last group is merged into the columns of the others, whose names are distinct.
    rw [List.foldl_append, ih, List.map_append, List.map_singleton, eraseDups_append_singleton]
    simp only [heldUnder_append_singleton]
    show mergeColumn _ name held = _
    rw [mergeColumn_map held (nodup_eraseDups _) hnew]
    simp only [List.mem_eraseDups]

/-! ### Charts -/

/-- The actions that a group is allowed meet a requirement when a single one of them does. -/
theorem GroupEffectivePermissions.satisfies_allowedActions_iff {q : GroupEffectivePermissions}
    {required : List String} : q.allowedActions.satisfies required = true ↔
      ∃ e ∈ q.effectivePermissions, e.effect = .allow ∧
        ∃ pattern ∈ required, meets e.action pattern = true := by
  rw [HeldPermissions.satisfies_iff]
  simp only [GroupEffectivePermissions.allowedActions, HeldPermissions.mem_actions_ofList,
    List.mem_map, List.mem_filter, Effect.isAllow_iff]
  constructor
  · rintro ⟨pattern, hpattern, _, ⟨e, ⟨he, hallow⟩, rfl⟩, hmeets⟩
    exact ⟨e, he, hallow, pattern, hpattern, hmeets⟩
  · rintro ⟨e, he, hallow, pattern, hpattern, hmeets⟩
    exact ⟨pattern, hpattern, _, ⟨e, ⟨he, hallow⟩, rfl⟩, hmeets⟩

/-- A group with its report plays the role of an activity: it has a grant, of its own, that meets
one of the permissions that the activity needs. -/
def GovernanceActivity.PlayedBy (a : GovernanceActivity) (q : GroupEffectivePermissions) : Prop :=
  ∃ e ∈ q.effectivePermissions, e.effect = .allow ∧
    ∃ pattern ∈ a.requiredPermissions, meets e.action pattern = true

/-- The row of an activity over the columns of these entities. -/
structure ActivityRow (listed : List (Group × GroupEffectivePermissions)) (entities : List String)
    (a : GovernanceActivity) (row : RaciRow) : Prop where
  activity : row.activity = a.name
  category : row.category = a.category
  requiredPermissions : row.requiredPermissions = a.requiredPermissions
  /-- The columns are the entities, in their order. -/
  columns : row.roles.map (·.1) = entities
  /-- A cell shows the role when some group of the name plays it on its own. -/
  role : ∀ c ∈ row.roles,
    (c.2 = some a.role ↔ ∃ p ∈ listed, p.1.name = c.1 ∧ a.PlayedBy p.2)
  /-- Otherwise it shows nothing. -/
  blank : ∀ c ∈ row.roles, (c.2 = none ↔ ¬ ∃ p ∈ listed, p.1.name = c.1 ∧ a.PlayedBy p.2)
  /-- The groups of a name may be matched one by one. -/
  oneByOne : ∀ c ∈ row.roles, c.2 =
    if listed.any fun p => p.1.name = c.1 && p.2.allowedActions.satisfies a.requiredPermissions
    then some a.role else none
  /-- The cell of an entity is found under its name. -/
  found : ∀ c ∈ row.roles, row.role? c.1 = c.2

/-- The matrix of a template for the listed groups, each with its report. -/
structure ResponsibilityChart (t : RaciTemplate) (groups : List Group)
    (reports : List GroupEffectivePermissions) (m : GovernanceMatrix) : Prop where
  template : m.template = t.name
  description : m.description = t.description
  activities : m.activities = t.activities.map (·.name)
  /-- The names of the groups without repetitions, in the order of first listing. -/
  entities : m.entities = (groups.map (·.name)).eraseDups
  rows : List.Forall₂ (ActivityRow (groups.zip reports) m.entities) t.activities m.rows

/-! ### The chart that is filled -/

section Fill
variable (listed : List (Group × GroupEffectivePermissions))

/-- What each group holds, under its name. -/
def heldBy : List (String × HeldPermissions) :=
  listed.map fun p => (p.1.name, p.2.allowedActions)

theorem satisfies_heldUnder_heldBy (name : String) (required : List String) :
    (heldUnder (heldBy listed) name).satisfies required =
      listed.any fun p => p.1.name = name && p.2.allowedActions.satisfies required := by
  rw [satisfies_heldUnder, heldBy, List.any_map]
  rfl

theorem any_played_iff {name : String} {a : GovernanceActivity} :
    (listed.any fun p => p.1.name = name && p.2.allowedActions.satisfies a.requiredPermissions) =
      true ↔ ∃ p ∈ listed, p.1.name = name ∧ a.PlayedBy p.2 := by
  simp only [List.any_eq_true, Bool.and_eq_true, decide_eq_true_eq,
    GroupEffectivePermissions.satisfies_allowedActions_iff]
  rfl

/-- **The row of an activity**: merged columns show what the groups play one by one. -/
theorem activityRow_row (names : List String) (a : GovernanceActivity) :
    ActivityRow listed names a (a.row (names.map fun n => (n, heldUnder (heldBy listed) n))) := by
  have hroles : (a.row (names.map fun n => (n, heldUnder (heldBy listed) n))).roles =
      names.map fun n => (n, if listed.any fun p =>
        p.1.name = n && p.2.allowedActions.satisfies a.requiredPermissions
        then some a.role else none) := by
    simp only [GovernanceActivity.row, List.map_map, ← satisfies_heldUnder_heldBy]
    rfl
  refine ⟨rfl, rfl, rfl, ?_, fun c hc => ?_, fun c hc => ?_, fun c hc => ?_, fun c hc => ?_⟩
  · rw [hroles, List.map_map]
    exact List.map_id names
  all_goals
    rw [hroles] at hc
    obtain ⟨n, hn, rfl⟩ := List.mem_map.mp hc
  · rw [← any_played_iff]
    simp
  · rw [← any_played_iff]
    simp
  · rfl
  · rw [RaciRow.role?, hroles, List.lookup_graph _ hn]
    rfl

/-- **The matrix that is filled** is the chart of the listed groups. -/
theorem responsibilityChart_fill (t : RaciTemplate) {groups : List Group}
    {reports : List GroupEffectivePermissions} (hlength : groups.length = reports.length) :
    ResponsibilityChart t groups reports (t.fill (heldBy (groups.zip reports))) := by
  have hnames : (heldBy (groups.zip reports)).map (·.1) = groups.map (·.name) := by
    conv_rhs => rw [← List.map_fst_zip (Nat.le_of_eq hlength)]
    rw [heldBy, List.map_map, List.map_map]
    rfl
  have hentities : (t.fill (heldBy (groups.zip reports))).entities =
      (groups.map (·.name)).eraseDups := by
    simp only [RaciTemplate.fill, foldl_mergeColumn, hnames, List.map_map]
    exact List.map_id _
  refine ⟨rfl, rfl, rfl, hentities, ?_⟩
  rw [hentities]
  simp only [RaciTemplate.fill, foldl_mergeColumn, hnames]
  refine List.forall₂_map_right_iff.mpr (List.forall₂_same.mpr fun a _ => ?_)
  exact activityRow_row _ _ a

end Fill

/-! ### The matrix of an account -/

theorem RaciTemplate.find?_name : ∀ t ∈ all, find? t.name = some t := by decide +kernel

namespace Directory

variable {σ : Type} (d : Directory σ)

/-- A matrix is only made from one of the templates. -/
theorem exists_template_of_call {templateName : String} {m : GovernanceMatrix} {s s' : σ}
    (h : (d.responsibilityMatrix templateName).call s = (.ok (.ok m), s')) :
    ∃ t ∈ RaciTemplate.all, t.name = templateName := by
  unfold responsibilityMatrix at h
  split at h
  · cases (Access.call_pure_eq_ok_iff.mp h).1
  · next t hfind => exact ⟨t, List.mem_of_find?_eq_some hfind, by simpa using List.find?_some hfind⟩

theorem call_responsibilityMatrix_eq_ok_iff {t : RaciTemplate} (ht : t ∈ RaciTemplate.all)
    {m : GovernanceMatrix} {s s' : σ} :
    (d.responsibilityMatrix t.name).call s = (.ok (.ok m), s') ↔
      ∃ groups reports s₁, d.groups.call s = (.ok groups, s₁) ∧
        Access.Each d.collectGroup s₁ groups reports s' ∧
        t.fill (heldBy (groups.zip reports)) = m := by
  have hheld : ∀ (groups : List Group) (reports : List GroupEffectivePermissions),
      List.zipWith (fun g (q : GroupEffectivePermissions) => (g.name, q.allowedActions)) groups
        reports = heldBy (groups.zip reports) := fun groups reports => by
    rw [heldBy, List.map_zip_eq_zipWith]
    rfl
  unfold responsibilityMatrix
  rw [RaciTemplate.find?_name t ht]
  simp only [Access.call_bind_eq_ok_iff, Access.call_pure_eq_ok_iff, Access.call_mapM_eq_ok_iff,
    Access.each_map_iff]
  constructor
  · rintro ⟨groups, s₁, hgroups, _, _, ⟨reports, hreports, rfl⟩, heq, rfl⟩
    rw [hheld] at heq
    exact ⟨groups, reports, s₁, hgroups, hreports, Except.ok.inj heq⟩
  · rintro ⟨groups, reports, s₁, hgroups, hreports, rfl⟩
    exact ⟨groups, s₁, hgroups, _, s', ⟨reports, hreports, rfl⟩, by rw [hheld], rfl⟩

/-- **What a matrix means.** The matrix of a template is made when the groups are listed and the
reports on them made in order, and only then; it is the chart of these reports. -/
theorem responsibilityMatrix_charts {t : RaciTemplate} (ht : t ∈ RaciTemplate.all) (s s' : σ) :
    (∀ groups reports s₁, d.groups.call s = (.ok groups, s₁) →
      Access.Each d.collectGroup s₁ groups reports s' →
      ∃ m, (d.responsibilityMatrix t.name).call s = (.ok (.ok m), s') ∧
        ResponsibilityChart t groups reports m) ∧
    ∀ m, (d.responsibilityMatrix t.name).call s = (.ok (.ok m), s') →
      ∃ groups reports s₁, d.groups.call s = (.ok groups, s₁) ∧
        Access.Each d.collectGroup s₁ groups reports s' ∧
        ResponsibilityChart t groups reports m := by
  constructor
  · intro groups reports s₁ hgroups hreports
    have hcall := (d.call_responsibilityMatrix_eq_ok_iff ht).mpr
      ⟨groups, reports, s₁, hgroups, hreports, rfl⟩
    exact ⟨_, hcall, responsibilityChart_fill t hreports.length_eq⟩
  · intro m hcall
    obtain ⟨groups, reports, s₁, hgroups, hreports, rfl⟩ :=
      (d.call_responsibilityMatrix_eq_ok_iff ht).mp hcall
    exact ⟨groups, reports, s₁, hgroups, hreports, responsibilityChart_fill t hreports.length_eq⟩

end Directory

/-- Two groups of one name, each with a policy of its own, and another group between them. -/
def MemoryDirectory.sharedName : MemoryDirectory where
  account := "account"
  groups := [⟨"g1", "Viewers", none, none⟩, ⟨"g2", "Admins", none, none⟩,
    ⟨"g3", "Viewers", none, none⟩]
  policies := [⟨"p", "Settings", none, some "ALLOW settings:objects:read; DENY account:users:read"⟩,
    ⟨"q", "Account", none, some "ALLOW account:*"⟩]
  bindings := [{ policyUuid := "p", groupUuid := "g1" }, { policyUuid := "q", groupUuid := "g3" }]

/-- The second group of the name fills cells that the first one leaves blank. -/
theorem MemoryDirectory.sharedName_charts : ∃ groups reports m,
    RaciTemplate.basic ∈ RaciTemplate.all ∧
    sharedName.directory.groups.call 0 = (.ok groups, 1) ∧
    Access.Each sharedName.directory.collectGroup 1 groups reports 6 ∧
    (sharedName.directory.responsibilityMatrix RaciTemplate.basic.name).call 0 =
      (.ok (.ok m), 6) ∧
    ResponsibilityChart .basic groups reports m ∧ m.entities = ["Viewers", "Admins"] ∧
    m.rows.map (·.role? "Viewers") =
      [some .informed, none, some .accountable, some .accountable, some .accountable,
        some .consulted, some .consulted] := by
  have hbasic : RaciTemplate.basic ∈ RaciTemplate.all := by decide +kernel
  have hgroups : sharedName.directory.groups.call 0 = (.ok sharedName.groups, 1) := rfl
  have hreports : Access.Each sharedName.directory.collectGroup 1 sharedName.groups _ 6 :=
    .cons rfl (.cons rfl (.cons rfl (.nil 6)))
  have hfill := (sharedName.directory.call_responsibilityMatrix_eq_ok_iff hbasic).mpr
    ⟨_, _, 1, hgroups, hreports, rfl⟩
  obtain ⟨m, hcall, hchart⟩ := (sharedName.directory.responsibilityMatrix_charts hbasic 0 6).1 _ _ 1
    hgroups hreports
  obtain rfl : _ = m := Except.ok.inj (Except.ok.inj (congrArg Prod.fst (hfill.symm.trans hcall)))
  exact ⟨_, _, _, hbasic, hgroups, hreports, hcall, hchart, by decide +kernel, by decide +kernel⟩

end Entitlements
