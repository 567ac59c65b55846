import Entitlements.Proofs.Wire.Reports

/-! # Outcomes on the wire

An outcome is written as its record or its failure alone, and read as a failure if it can be. No
record has an entry `error`, without which nothing is read as a failure (`softError_eq_none`), so
outcomes are read back as what they were (`outcomes_read_back`), also from objects whose keys have
been sorted. -/

namespace Entitlements

open Json

namespace Json

/-- Whether a value is an object without an entry under a key. -/
def Lacks (key : String) (j : Json) : Prop :=
  ∃ entries, j = .obj entries ∧ key ∉ entries.map Prod.fst

theorem Lacks.canonical? {key : String} {j j' : Json} (h : j.Lacks key)
    (hj : j.canonical? = some j') : j'.Lacks key := by
  obtain ⟨entries, rfl, hkey⟩ := h
  obtain ⟨entries', hentries, rfl⟩ := Option.map_eq_some_iff.mp hj
  refine ⟨_, rfl, fun hmem => hkey ?_⟩
  rw [mem_keys_sortEntries, keys_eq_of_canonicalEntry (canonicalEntries?_eq_some_iff.mp hentries)]
    at hmem
  exact hmem

end Json

/-! ### Failures and records -/

theorem eq_of_fieldOf? {names : List FieldName} (h : ∀ f ∈ names, f.aliases = [])
    {key name : String} (hname : fieldOf? names key = some name) : key = name := by
  obtain ⟨f, hf, rfl⟩ := Option.map_eq_some_iff.mp hname
  have haccepts := List.find?_some hf
  rw [FieldName.accepts, h f (List.mem_of_find?_eq_some hf), List.contains_nil, Bool.or_false,
    beq_iff_eq] at haccepts
  exact haccepts.symm

/-- **Nothing is read as a failure** that has no entry `error`. -/
theorem softError_eq_none {j : Json} (h : j.Lacks "error") :
    (ofJson? j : Option SoftError) = none := by
  obtain ⟨entries, rfl, hkey⟩ := h
  refine Option.eq_none_iff_forall_ne_some.mpr fun e he => hkey ?_
  obtain ⟨f, hf, he⟩ := Option.bind_eq_some_iff.mp he
  obtain ⟨_, herror, -⟩ := Option.bind_eq_some_iff.mp he
  obtain ⟨j, hj, -⟩ := Option.bind_eq_some_iff.mp herror
  obtain ⟨hnodup, rfl⟩ := fields?_obj_eq_some_iff.mp hf
  rw [lookup_eq_some_iff_of_nodup hnodup, mem_named] at hj
  obtain ⟨key, hmem, hfield⟩ := hj
  have haliases : ∀ f ∈ (["error", "status_code"] : List FieldName), f.aliases = [] := by decide
  rw [← eq_of_fieldOf? haliases hfield]
  exact List.mem_map_of_mem hmem

variable {α : Type} [Wire α] {j : Json}

/-- A value that can be read is read as a failure if possible, else as a record. -/
theorem Outcome.ofJson?_of_readable (hj : j.Readable) : (ofJson? j : Option (Outcome α)) =
    ((ofJson? j).map .failed).or ((ofJson? j).map .found) := by
  obtain ⟨j', hj⟩ := hj
  show (j.canonical?.bind fun _ => _) = _
  rw [hj]
  rfl

theorem Outcome.ofJson?_of_failure {e : SoftError} (hj : j.Readable) (h : ofJson? j = some e) :
    (ofJson? j : Option (Outcome α)) = some (.failed e) := by
  rw [ofJson?_of_readable hj, h]
  rfl

theorem Outcome.ofJson?_of_record {a : α} (hj : j.Readable) (hlacks : j.Lacks "error")
    (h : ofJson? j = some a) : (ofJson? j : Option (Outcome α)) = some (.found a) := by
  rw [ofJson?_of_readable hj, softError_eq_none hlacks, h]
  rfl

theorem ReadBack.failed (e : SoftError) : ReadBack (.failed e : Outcome α) := by
  obtain ⟨hwritten, j, hj, hcanonical⟩ := readBack e
  exact ⟨Outcome.ofJson?_of_failure ⟨j, hj⟩ hwritten, j, hj,
    Outcome.ofJson?_of_failure (canonical_of_canonical? hj).readable hcanonical⟩

theorem ReadBack.found {a : α} (h : ReadBack a) (hlacks : (toJson a).Lacks "error") :
    ReadBack (.found a : Outcome α) := by
  obtain ⟨hwritten, j, hj, hcanonical⟩ := h
  exact ⟨Outcome.ofJson?_of_record ⟨j, hj⟩ hlacks hwritten, j, hj,
    Outcome.ofJson?_of_record (canonical_of_canonical? hj).readable (hlacks.canonical? hj)
      hcanonical⟩

/-- An outcome is read back when a record in it is, and is not taken for a failure. -/
theorem ReadBack.outcome {o : Outcome α}
    (h : ∀ a, o = .found a → ReadBack a ∧ (toJson a).Lacks "error") : ReadBack o := by
  cases o with
  | failed e => exact .failed e
  | found a => exact .found (h a rfl).1 (h a rfl).2

/-- **Every failure could be read as a group**, one without a name: failures have to be tried
first. -/
theorem ofJson?_failure_as_group (e : SoftError) :
    (ofJson? (toJson e) : Option Group) = some ⟨"", "", none, none⟩ := by
  obtain ⟨error, _ | status⟩ := e <;> rfl

theorem Group.lacks_error (g : Group) : (toJson g).Lacks "error" := by
  obtain ⟨uuid, name, description, owner⟩ := g
  refine ⟨_, rfl, ?_⟩
  cases description <;> cases owner <;> simp [entryOfSome]

/-- **Outcomes are read back** as they were, records as records and failures as failures, from their
JSON form and from its canonical form. The numbers of a report have to be of 64 bits, and items of
free form canonical. -/
theorem outcomes_read_back :
    (∀ o : Outcome Group, ReadBack o) ∧
    (∀ o : Outcome UserEffectivePermissions, (∀ p, o = .found p → p.Kept) → ReadBack o) ∧
    (∀ o : Outcome GroupEffectivePermissions, (∀ p, o = .found p → p.Kept) → ReadBack o) ∧
    (∀ o : Outcome PolicyAnalysis, (∀ p, o = .found p → p.Kept) → ReadBack o) ∧
    (∀ o : Outcome EffectivePermissionsReport, (∀ r, o = .found r → r.Kept) → ReadBack o) := by
  refine ⟨fun o => .outcome fun g _ => ⟨readBack g, g.lacks_error⟩, ?_, ?_, ?_, ?_⟩
  · exact fun o h => .outcome fun p hp => ⟨(h p hp).readBack, _, rfl, by simp⟩
  · exact fun o h => .outcome fun p hp => ⟨(h p hp).readBack, _, rfl, by simp⟩
  · exact fun o h => .outcome fun p hp => ⟨(h p hp).readBack, _, rfl, by simp⟩
  · exact fun o h => .outcome fun r hr => ⟨(h r hr).readBack, _, rfl, by simp⟩

section Auditors

/-- What the policy of the auditors declares: one of its declarations has conditions. -/
def auditorStatements : List PermissionStatement :=
  [⟨.allow, "logs:read", some "region = eu", "Read logs"⟩, ⟨.deny, "logs:delete", none, ""⟩]

/-- What the auditors are granted, through a narrowed binding and through one that is not. -/
def auditorGrants (group : Option String) : List EffectivePermission :=
  [⟨.allow, "logs:read", "Read logs", [⟨group, "Audit", some "zone-1"⟩, ⟨group, "Audit", none⟩]⟩]

/-- An outcome for an auditor. -/
def auditorOutcome : Outcome UserEffectivePermissions :=
  .found ⟨⟨"u1", "ann@corp.io"⟩, [⟨"g1", "Auditors"⟩], 1,
    [⟨"g1", "Auditors", "p1", "Audit", some "zone-1", auditorStatements⟩,
      ⟨"g1", "Auditors", "p1", "Audit", none, auditorStatements⟩], 2,
    auditorGrants (some "Auditors"), 1⟩

/-- An outcome for the group of the auditors. -/
def auditorsOutcome : Outcome GroupEffectivePermissions :=
  .found ⟨⟨"g1", "Auditors"⟩,
    [⟨"p1", "g1", ["zone-1"], "account", "a1"⟩, ⟨"p1", "g1", [], "account", "a1"⟩], 2,
    auditorGrants none, 1⟩

/-- An outcome for the policy of the auditors. -/
def auditPolicyOutcome : Outcome PolicyAnalysis :=
  .found ⟨⟨"p1", "Audit", "", "ALLOW logs:read"⟩, auditorStatements, 2,
    [⟨"g1", "Auditors", some "zone-1"⟩, ⟨"g1", "Auditors", none⟩], 2⟩

/-- An outcome whose item of free form looks like a failure. -/
def resolvedOutcome : Outcome EffectivePermissionsReport :=
  .found ⟨"u1", .user, "account", "a1",
    [.obj [("error", .str "none"), ("status_code", .arr [.int 404, .null])]], 1⟩

theorem auditor_outcomes_read_back : ReadBack auditorOutcome ∧ ReadBack auditorsOutcome ∧
    ReadBack auditPolicyOutcome ∧ ReadBack resolvedOutcome := by
  obtain ⟨-, huser, hgroup, hpolicy, hreport⟩ := outcomes_read_back
  refine ⟨huser _ ?_, hgroup _ ?_, hpolicy _ ?_, hreport _ ?_⟩
  · rintro _ ⟨⟩
    exact ⟨by decide, by decide, by decide⟩
  · rintro _ ⟨⟩
    exact ⟨by decide, by decide⟩
  · rintro _ ⟨⟩
    exact ⟨by decide, by decide⟩
  · rintro _ ⟨⟩
    exact ⟨by decide, by decide⟩

end Auditors

end Entitlements
