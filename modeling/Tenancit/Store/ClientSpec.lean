import Tenancit.Store.CatalogSpec
import Tenancit.Store.Clients

/-!
What the statements on API clients and their superseded tokens do when they succeed.
-/
namespace Tenancit.Store.Queries

open Table

variable {t : Tick} {s s' : ClientTables} {now : Timestamp} {id : UUID} {keyHash : String}
  {c : ApiClient}

theorem createAPIClient_ok {arg : CreateAPIClientParams}
    (h : createAPIClient now arg t s = .ok (c, s')) :
    c.keyHash = arg.keyHash ∧ c.status = .active ∧ c.expiresAt = arg.expiresAt ∧
    (∀ x ∈ s.clients, x.id ≠ c.id) ∧
      s'.clients = s.clients ++ [c] ∧ s'.previousTokens = s.previousTokens := by
  simp only [createAPIClient, ite_error_eq_ok, Except.ok.injEq, Prod.mk.injEq] at h
  obtain ⟨-, hfree, rfl, rfl⟩ := h
  exact ⟨rfl, rfl, rfl, fun x hx he => hfree ⟨x, hx, .inl he⟩, rfl, rfl⟩

theorem replaceAPIClientScopes_ok {scopes : List String} {u : Unit}
    (h : replaceAPIClientScopes id scopes t s = .ok (u, s')) :
    s'.clients = s.clients ∧ s'.previousTokens = s.previousTokens := by
  simp only [replaceAPIClientScopes, ite_error_eq_ok, Except.ok.injEq, Prod.mk.injEq] at h
  obtain ⟨-, -, -, -, rfl⟩ := h
  exact ⟨rfl, rfl⟩

theorem changeClient_ok {p : ApiClient → Bool} {set : ApiClient → ApiClient}
    (h : changeClient id p set s = .ok (c, s')) :
    (∃ x ∈ s.clients, x.id = id ∧ p x = true ∧ c = set x) ∧
      s' = { s with clients := update (fun x => x.id = id && p x) set s.clients } := by
  unfold changeClient at h
  split at h
  · cases h
  next x hx =>
    obtain ⟨rfl, rfl⟩ := Prod.mk.inj (Except.ok.inj h)
    have hp := List.find?_some hx
    simp only [Bool.and_eq_true, decide_eq_true_eq] at hp
    exact ⟨⟨x, List.mem_of_find?_eq_some hx, hp.1, hp.2, rfl⟩, rfl⟩

theorem savePreviousAPIClientToken_ok {validUntil : Timestamp} {u : Unit}
    (h : savePreviousAPIClientToken now id keyHash validUntil t s = .ok (u, s')) :
    s'.clients = s.clients ∧ ∃ p, p.apiClientId = id ∧ p.keyHash =
      keyHash ∧ p.validUntil = validUntil ∧ s'.previousTokens = s.previousTokens ++ [p] := by
  simp only [savePreviousAPIClientToken, ite_error_eq_ok, Except.ok.injEq, Prod.mk.injEq] at h
  obtain ⟨-, -, -, rfl⟩ := h
  exact ⟨rfl, _, rfl, rfl, rfl, rfl⟩

theorem deleteAPIClient_ok {n : Nat} (h : deleteAPIClient id t s = .ok (n, s')) :
    s'.clients.Sublist s.clients ∧ (∀ x ∈ s.clients, x.id ≠ id → x ∈ s'.clients) ∧
      s'.previousTokens.Sublist s.previousTokens ∧ ∀ p ∈ s.previousTokens, p.apiClientId ≠
        id → p ∈ s'.previousTokens := by
  unfold deleteAPIClient at h
  split at h
  · obtain ⟨-, rfl⟩ := Prod.mk.inj (Except.ok.inj h)
    exact ⟨.refl _, fun _ hx _ => hx, .refl _, fun _ hp _ => hp⟩
  · obtain ⟨-, rfl⟩ := Prod.mk.inj (Except.ok.inj h)
    refine ⟨List.filter_sublist, fun x hx hid => ?_, List.filter_sublist, fun p hp hid => ?_⟩
    · exact mem_delete.mpr ⟨hx, by simp [hid]⟩
    · exact mem_delete.mpr ⟨hp, by simp [hid]⟩

end Tenancit.Store.Queries
