import Entitlements.Http.Client
import Entitlements.Proofs.Http.Percent
import Mathlib.Tactic.SplitIfs

/-! # Requests of a client

What is sent for an address with fields (`DirectoryConfig.Asks`), and when nothing can be sent
(`DirectoryConfig.Unable`). A client finds a request exactly if there is one to find
(`HttpClient.request?_eq_none_iff`, `HttpClient.asks_of_request?`). -/

namespace Entitlements

/-! ### Addresses with fields -/

/-- The address of the same resource, asked with further fields. They come behind the query that is
there already, and an empty query is none. -/
structure Url.Extends (u : Url) (fields : List (String × String)) (u' : Url) : Prop where
  origin : u'.origin = u.origin
  segments : u'.segments = u.segments
  kept : u.query.getD [] <+: u'.query.getD []
  added : formFields (u'.query.getD []) = formFields (u.query.getD []) ++ fields
  noFields : fields = [] → u'.query = u.query.filter (!·.isEmpty)

theorem Url.query_withFields (u : Url) (fields : List (String × String)) :
    (u.withFields fields).query.getD [] =
      if fields.isEmpty then u.query.getD []
      else if (u.query.getD []).isEmpty then encodeForm fields
      else u.query.getD [] ++ '&' :: encodeForm fields := by
  have hsome : ∀ query : List Char,
      (if query.isEmpty then none else some query).getD [] = query := by
    rintro (_ | _) <;> rfl
  exact hsome _

theorem Url.extends_withFields (u : Url) (fields : List (String × String)) :
    u.Extends fields (u.withFields fields) where
  origin := rfl
  segments := rfl
  kept := by
    rw [query_withFields]
    split_ifs with hfields hquery
    · exact List.prefix_refl _
    · rw [List.isEmpty_iff.mp hquery]
      exact List.nil_prefix
    · exact List.prefix_append _ _
  added := by
    rw [query_withFields]
    split_ifs with hfields hquery
    · rw [List.isEmpty_iff.mp hfields, List.append_nil]
    · rw [List.isEmpty_iff.mp hquery, formFields_encodeForm]
      rfl
    · rw [formFields_append, formFields_encodeForm]
  noFields := by
    rintro rfl
    cases h : u.query with
    | none => simp [withFields, h]
    | some query => cases query <;> simp [withFields, h, Option.filter]

/-! ### Requests -/

namespace DirectoryConfig
variable (config : DirectoryConfig) (names : AsciiNames) (url : String)

/-- Nothing can be sent: the text is no address, or the token has a control in it that is no tab. -/
inductive Unable : Prop
  | noAddress (h : Url.parse? names url = none)
  | control {token : String} {c : Char} (htoken : config.bearerToken = some token)
      (hc : c ∈ token.toList) (hcontrol : c.toNat < 0x20 ∨ c.toNat = 0x7F) (htab : c ≠ '\t')

/-- The request for an address with fields. The name and the password are those in the text of the
address, the token that of the configuration. -/
structure Asks (fields : List (String × String)) (r : Request) : Prop where
  address : ∃ u, Url.parse? names url = some u ∧ u.Extends fields r.address
  credentials : r.credentials = Url.credentials? url
  authorization : r.authorization = config.bearerToken.map ("Bearer " ++ ·)
  referer : r.referer = none
  agent : r.agent = "iam-directory/0.1.0"

end DirectoryConfig

namespace HttpClient
variable {τ : Type} {c : HttpClient τ} {url : String} {fields : List (String × String)}

theorem isSendable_eq_false_iff {token : String} : isSendable token = false ↔
    ∃ c ∈ token.toList, (c.toNat < 0x20 ∨ c.toNat = 0x7F) ∧ c ≠ '\t' := by
  simp only [isSendable, List.all_eq_false, Bool.or_eq_true, Bool.and_eq_true, decide_eq_true_eq,
    bne_iff_ne]
  refine exists_congr fun c => and_congr_right fun _ => ?_
  constructor
  · intro h
    by_cases htab : c = '\t'
    · exact absurd (.inl htab) h
    · exact ⟨by omega, htab⟩
  · rintro ⟨hcontrol, htab⟩ (h | ⟨hlow, hdelete⟩)
    · exact htab h
    · omega

/-- **Nothing is sent** exactly when nothing can be sent. -/
theorem request?_eq_none_iff :
    c.request? url fields = none ↔ c.config.Unable c.transport.names url := by
  unfold request?
  cases haddress : Url.parse? c.transport.names url with
  | none => exact iff_of_true rfl (.noAddress haddress)
  | some u =>
    cases htoken : c.config.bearerToken with
    | none =>
      refine iff_of_false nofun ?_
      rintro (h | ⟨h, -, -, -⟩)
      · cases haddress.symm.trans h
      · cases htoken.symm.trans h
    | some token =>
      cases hsend : isSendable token with
      | true =>
        refine iff_of_false (by simp [hsend]) ?_
        rintro (h | ⟨h, hc, hcontrol, htab⟩)
        · cases haddress.symm.trans h
        · cases htoken.symm.trans h
          cases hsend.symm.trans (isSendable_eq_false_iff.mpr ⟨_, hc, hcontrol, htab⟩)
      | false =>
        obtain ⟨d, hd, hcontrol, htab⟩ := isSendable_eq_false_iff.mp hsend
        exact iff_of_true (by simp [hsend]) (.control htoken hd hcontrol htab)

/-- **What is sent** for an address with fields. -/
theorem asks_of_request? {r : Request} (h : c.request? url fields = some r) :
    c.config.Asks c.transport.names url fields r := by
  obtain ⟨u, hu, hrest⟩ := Option.bind_eq_some_iff.mp h
  obtain ⟨-, hr⟩ := Option.ite_none_right_eq_some.mp hrest
  cases hr
  exact ⟨⟨u, hu, u.extends_withFields fields⟩, rfl, rfl, rfl, rfl⟩

-- A fragment is left out, and fields are encoded behind the query that is there.
example :
    let c : HttpClient Unit := ofConfig { account := "acc", bearerToken := some "t" }
      { send _ := return .failed ⟨.noConnection, none⟩ }
    c.request? "https://me:pw@iam.test/v1?a#top" [("b c", "ü")] =
      some ⟨⟨⟨true, "iam.test", 443⟩, ["v1".toList], some "a&b+c=%C3%BC".toList⟩,
        some ("me", "pw"), some "Bearer t", none, agent⟩ := by
  decide +kernel

end HttpClient

end Entitlements
