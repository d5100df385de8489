import DnsRs.Dot.Connection
import DnsRs.Upstream.Strategies

/-!
# A DoH upstream

The DoH arm of `SingleUpstream::resolve`: the query is sent under a random ID, with
one retry when the connection was at fault, and the response is checked before it
is passed on: its ID, its QR bit, its question. Its length is not.

The response passed on is the body as it came, so `resolve_wire` returns as many
bytes as the server sent (`Delivers.length`).
-/

namespace DnsRs.Upstream

open Lib Wire

/-- A failed HTTP exchange, as `is_retryable` sees it. -/
inductive HttpError where
  | retryable
  | final
  deriving DecidableEq, Repr

/-- `query_doh`, given what the first exchange comes to and the one after it. -/
def queryDoh (url : String) (first second : Except HttpError Bytes) : Except String Bytes :=
  match first with
  | .ok response => .ok response
  | .error .retryable =>
    match second with
    | .ok response => .ok response
    | .error _ => .error s!"DoH request to {url} failed (after retry)"
  | .error .final => .error s!"DoH request to {url} failed"

/-- The DoH arm of `resolve`. -/
def resolveDoh (url : String) (query : Bytes) (expectedId : UInt16)
    (first second : Except HttpError Bytes) : Except Fault (Except String Bytes) := do
  let outgoing ← setId query expectedId.toNat
  match ← settle (QuestionKey.fromWire outgoing) with
  | none => return .error "query has no valid question"
  | some expectedQuestion =>
    match queryDoh url first second with
    | .error err => return .error err
    | .ok response =>
      if ¬ (2 ≤ response.length ∧ Dot.responseId response = expectedId.toNat) then
        return .error "upstream response ID mismatch"
      else if ¬ Dot.qrSet response then
        return .error "upstream returned a query instead of a response"
      else do
        if ← expectedQuestion.matches response then return .ok response
        else return .error "upstream response question mismatch"

/-- `resolve_wire` returns `wire` for this query, from a DoH upstream that sends
`body`. -/
def Delivers (query body wire : Bytes) : Prop :=
  ∃ url expectedId, resolveDoh url query expectedId (.ok body) (.error .final) = .ok (.ok body) ∧
    resolveWire (ε := String) query (.ok body) = .ok (.ok wire)

/-- What passes the checks has the ID, its QR bit set and the question of what was sent. -/
theorem resolveDoh_eq_ok {url : String} {query response : Bytes} {expectedId : UInt16}
    {first second : Except HttpError Bytes}
    (h : resolveDoh url query expectedId first second = .ok (.ok response)) :
    2 ≤ response.length ∧ Dot.qrSet response = true ∧
      (first = .ok response ∨ second = .ok response) ∧
      ∃ outgoing key, setId query expectedId.toNat = .ok outgoing ∧
        QuestionKey.fromWire outgoing = .ok key ∧ key.matches response = .ok true := by
  unfold resolveDoh at h
  obtain ⟨outgoing, hOutgoing, h⟩ := bind_eq_ok.mp h
  obtain ⟨key, hKey, h⟩ := bind_eq_ok.mp h
  cases key with
  | none => cases h
  | some key =>
    dsimp only at h
    cases hSent : queryDoh url first second with
    | error err =>
      rw [hSent] at h
      cases h
    | ok body =>
      rw [hSent] at h
      dsimp only at h
      split at h
      · cases h
      · rename_i hId
        split at h
        · cases h
        · rename_i hQr
          obtain ⟨matched, hMatched, h⟩ := bind_eq_ok.mp h
          cases matched with
          | false => cases h
          | true =>
            cases h
            refine ⟨(not_not.mp hId).1, Bool.eq_true_of_not_eq_false (by simpa using hQr), ?_,
              outgoing, key, hOutgoing, settle_eq_some.mp hKey, hMatched⟩
            unfold queryDoh at hSent
            split at hSent
            · cases hSent
              exact .inl rfl
            · split at hSent
              · cases hSent
                exact .inr rfl
              · cases hSent
            · cases hSent

/-- Nothing is cut off and nothing is added. -/
theorem Delivers.length {query body wire : Bytes} (h : Delivers query body wire) :
    wire.length = body.length := by
  obtain ⟨url, expectedId, -, hWire⟩ := h
  obtain ⟨restored, hOk, hRestored⟩ := resolveWire_ok (ε := String) query body
  rw [hOk] at hWire
  cases hWire
  exact hRestored.length

end DnsRs.Upstream
