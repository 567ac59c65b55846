import Entitlements.Proofs.Statement.LetterCase
import Entitlements.Proofs.Statement.Parsing
import Entitlements.Proofs.Text.Occurrence
import Entitlements.Review.Audit
import Mathlib.Data.List.Perm.Subperm

/-! # What an audit finds

The findings on a statement are some of all findings that there can be, in their order: those of the
broad patterns that occur in the statement in any letter case, and that no conditions restrict it
(`FindingsOn`). An audit lists these and nothing else (`auditStatement_eq_iff`), and so whatever
holds of the occurrences and of the declarations holds of the findings: the case of letters makes no
difference, and a `;` between two statements neither makes nor hides a finding, but for the
conditions in one of them, which restrict both (`audit_exact`). -/

namespace Entitlements

/-- All findings that there can be, in the order in which they are listed. -/
def allFindings : List Finding := broadPatterns.map (·.finding) ++ [noConditionsFinding]

/-- No conditions restrict a statement: it declares something, and nothing under conditions. -/
def Unrestricted (statement : String) : Prop :=
  parseStatement statement ≠ [] ∧ ∀ p ∈ parseStatement statement, p.conditions = none

/-- The findings on a statement: in their order and each at most once, those of the patterns that
occur in it in any letter case, and that no conditions restrict it. -/
structure FindingsOn (statement : String) (findings : List Finding) : Prop where
  order : findings.Sublist allFindings
  nodup : findings.Nodup
  broad : ∀ p ∈ broadPatterns, (p.finding ∈ findings ↔ OccursAnyCase p.pattern statement)
  unrestricted : noConditionsFinding ∈ findings ↔ Unrestricted statement

/-! ### Patterns -/

theorem nodup_allFindings : allFindings.Nodup := by decide

theorem BroadPattern.finding_inj {p q : BroadPattern} (h : p.finding = q.finding) : p = q := by
  cases p
  cases q
  cases h
  rfl

theorem BroadPattern.finding_ne (p : BroadPattern) : p.finding ≠ noConditionsFinding := nofun

theorem plain_of_mem_broadPatterns : ∀ p ∈ broadPatterns, Plain p.pattern.toList := by decide

theorem not_mem_of_mem_broadPatterns : ∀ p ∈ broadPatterns, ';' ∉ p.pattern.toList := by decide

theorem occurs_iff {p : BroadPattern} (hp : p ∈ broadPatterns) (statement : String) :
    p.occurs statement = true ↔ OccursAnyCase p.pattern statement :=
  occursIn_lowercase_iff (plain_of_mem_broadPatterns p hp) statement

/-! ### Conditions -/

theorem lacksConditions_iff {ps : List PermissionStatement} :
    lacksConditions ps = true ↔ ps ≠ [] ∧ ∀ p ∈ ps, p.conditions = none := by
  simp [lacksConditions, PermissionStatement.isConditional]

theorem unrestricted_toLower (statement : String) :
    Unrestricted statement.toLower ↔ Unrestricted statement := by
  unfold Unrestricted
  rw [parseStatement_toLower, List.forall_mem_map, Ne, List.map_eq_nil_iff]
  refine and_congr_right fun _ => forall₂_congr fun p _ => ?_
  exact Option.map_eq_none_iff

theorem unrestricted_append (a b : String) : Unrestricted (a ++ ";" ++ b) ↔
    (∀ p ∈ parseStatement a ++ parseStatement b, p.conditions = none) ∧
      (parseStatement a ≠ [] ∨ parseStatement b ≠ []) := by
  rw [Unrestricted, parseStatement_append, and_comm, Ne, List.append_eq_nil_iff, not_and_or]

/-! ### Findings -/

theorem finding_mem_auditStatement {p : BroadPattern} (hp : p ∈ broadPatterns)
    (statement : String) :
    p.finding ∈ auditStatement statement ↔ OccursAnyCase p.pattern statement := by
  rw [← occurs_iff hp, auditStatement, List.mem_append]
  constructor
  · rintro (h | h)
    · obtain ⟨q, hq, heq⟩ := List.mem_map.mp h
      rw [← BroadPattern.finding_inj heq]
      exact (List.mem_filter.mp hq).2
    · split at h
      · exact absurd (List.mem_singleton.mp h) p.finding_ne
      · cases h
  · intro h
    exact .inl (List.mem_map_of_mem (List.mem_filter.mpr ⟨hp, h⟩))

theorem noConditionsFinding_mem_auditStatement (statement : String) :
    noConditionsFinding ∈ auditStatement statement ↔ Unrestricted statement := by
  rw [Unrestricted, ← lacksConditions_iff, auditStatement, List.mem_append]
  constructor
  · rintro (h | h)
    · obtain ⟨p, -, heq⟩ := List.mem_map.mp h
      exact absurd heq p.finding_ne
    · split at h
      · next hlacks => exact hlacks
      · cases h
  · intro h
    rw [if_pos h]
    exact .inr List.mem_cons_self

theorem auditStatement_sublist (statement : String) :
    (auditStatement statement).Sublist allFindings := by
  refine (List.filter_sublist.map _).append ?_
  split
  · exact .refl _
  · exact List.nil_sublist _

theorem findingsOn_auditStatement (statement : String) :
    FindingsOn statement (auditStatement statement) where
  order := auditStatement_sublist statement
  nodup := (auditStatement_sublist statement).nodup nodup_allFindings
  broad := fun _ hp => finding_mem_auditStatement hp statement
  unrestricted := noConditionsFinding_mem_auditStatement statement

/-- The findings on a statement are determined: their order is that of all findings. -/
theorem FindingsOn.unique {statement : String} {findings findings' : List Finding}
    (h : FindingsOn statement findings) (h' : FindingsOn statement findings') :
    findings = findings' := by
  have hmem : ∀ f ∈ allFindings, (f ∈ findings ↔ f ∈ findings') := by
    intro f hf
    rcases List.mem_append.mp hf with hf | hf
    · obtain ⟨p, hp, rfl⟩ := List.mem_map.mp hf
      rw [h.broad p hp, h'.broad p hp]
    · rw [List.mem_singleton.mp hf, h.unrestricted, h'.unrestricted]
  have hperm : findings.Perm findings' := by
    refine (List.perm_ext_iff_of_nodup h.nodup h'.nodup).mpr fun f => ?_
    exact ⟨fun hf => (hmem f (h.order.subset hf)).mp hf,
      fun hf => (hmem f (h'.order.subset hf)).mpr hf⟩
  exact (nodup_allFindings.perm_iff_eq_of_sublist h.order h'.order).mp hperm

/-- **An audit lists the findings** and nothing else. -/
theorem auditStatement_eq_iff {statement : String} {findings : List Finding} :
    auditStatement statement = findings ↔ FindingsOn statement findings := by
  constructor
  · rintro rfl
    exact findingsOn_auditStatement statement
  · exact (findingsOn_auditStatement statement).unique

/-- The lower case of `İ` is an `i` with a dot, which is no `i` of a word. -/
example : auditStatement "deny A:Write, adm\u0130n" =
    [.broadPermission "write" "Write access" .medium, noConditionsFinding] := by decide +kernel

theorem auditStatement_congr {s s' : String} (h : sameLetters s s' = true) :
    auditStatement s = auditStatement s' := by
  have hs := findingsOn_auditStatement s'
  refine auditStatement_eq_iff.mpr ⟨hs.order, hs.nodup, fun p hp => ?_, ?_⟩
  · rw [hs.broad p hp, occursAnyCase_congr h]
  · rw [hs.unrestricted, ← unrestricted_toLower s', ← sameLetters_iff.mp h, unrestricted_toLower]

/-- **An audit is exact.** Its findings are those on the statement, and where a wildcard for a
resource is found, so is the wildcard in it. They are the same for statements that differ in the
case of letters only. A `;` between two statements keeps the findings of both, except that they are
unrestricted together when neither has conditions and one of them declares something. -/
theorem audit_exact :
    (∀ s findings, auditStatement s = findings ↔ FindingsOn s findings) ∧
    (∀ s, .broadPermission ":*" "Resource wildcard" .medium ∈ auditStatement s →
      .broadPermission "*" "Wildcard permission" .high ∈ auditStatement s) ∧
    (∀ s s', sameLetters s s' = true → auditStatement s = auditStatement s') ∧
    ∀ s₁ s₂,
      (∀ p ∈ broadPatterns, p.finding ∈ auditStatement (s₁ ++ ";" ++ s₂) ↔
        p.finding ∈ auditStatement s₁ ∨ p.finding ∈ auditStatement s₂) ∧
      (noConditionsFinding ∈ auditStatement (s₁ ++ ";" ++ s₂) ↔
        (∀ p ∈ parseStatement s₁ ++ parseStatement s₂, p.conditions = none) ∧
          (parseStatement s₁ ≠ [] ∨ parseStatement s₂ ≠ [])) := by
  refine ⟨fun s findings => auditStatement_eq_iff, fun s h => ?_,
    fun s s' => auditStatement_congr, fun s₁ s₂ => ⟨fun p hp => ?_, ?_⟩⟩
  · have hcolon := finding_mem_auditStatement (p := ⟨":*", "Resource wildcard", .medium⟩)
      (by decide) s
    have hstar := finding_mem_auditStatement (p := ⟨"*", "Wildcard permission", .high⟩)
      (by decide) s
    exact hstar.mpr ((hcolon.mp h).of_part ⟨[':'], [], rfl⟩)
  · rw [finding_mem_auditStatement hp, finding_mem_auditStatement hp,
      finding_mem_auditStatement hp,
      occursAnyCase_append (not_mem_of_mem_broadPatterns p hp)]
  · rw [noConditionsFinding_mem_auditStatement, unrestricted_append]

end Entitlements
