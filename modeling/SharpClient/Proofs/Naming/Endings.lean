import SharpClient.Naming.Convention

/-!
# Names with a fixed ending

The class of a request ends in `Request` and that of an answer in `Payload`. No reserved word ends in
this way, so neither class is ever written with `@`, and the two never share a name. What they share
with the class of a fragment or type is told by the names alone.
-/

namespace SharpClient

namespace Naming

/-- A name whose ending no reserved word has is no reserved word, and is not written with `@`. -/
theorem escaped_eq_append_iff {ending : Text} (h : ∀ k ∈ keywords, ¬ ending <:+ '@' :: k)
    {a start : Text} : escaped a = start ++ ending ↔ a = start ++ ending := by
  rw [escaped]
  split
  case isTrue hkeyword =>
    constructor
    · intro heq
      exact absurd ⟨start, heq.symm⟩ (h a hkeyword)
    · rintro rfl
      exact absurd ⟨'@' :: start, rfl⟩ (h _ hkeyword)
  case isFalse => rfl

theorem escaped_append {ending : Text} (h : ∀ k ∈ keywords, ¬ ending <:+ '@' :: k) (start : Text) :
    escaped (start ++ ending) = start ++ ending :=
  (escaped_eq_append_iff h).mpr rfl

end Naming

namespace Convention

theorem request_not_suffix : ∀ k ∈ Naming.keywords, ¬ "Request".toList <:+ '@' :: k := by
  decide +kernel

theorem payload_not_suffix : ∀ k ∈ Naming.keywords, ¬ "Payload".toList <:+ '@' :: k := by
  decide +kernel

/-- A name without a leading `Get`. -/
def withoutGet (name : Text) : Text :=
  if Text.startsWith name "Get" then name.drop 3 else name

theorem requestClass_eq (c : Convention) (name : Text) :
    c.requestClass name = c.apply name ++ "Request" :=
  Naming.escaped_append request_not_suffix (c.apply name)

/-- The ending adds no leading `Get`, since it begins with another letter than `Get` has. -/
theorem startsWith_append_payload (name : Text) :
    Text.startsWith (name ++ "Payload") "Get" = Text.startsWith name "Get" := by
  have hget : "Get".toList = ['G', 'e', 't'] := rfl
  have hpayload : "Payload".toList = ['P', 'a', 'y', 'l', 'o', 'a', 'd'] := rfl
  rw [hget, hpayload, Text.startsWith, Text.startsWith]
  match name with
  | [] | [_] | [_, _] => simp [List.isPrefixOf]
  | a :: b :: c :: rest => simp [List.isPrefixOf]

theorem withoutGet_append_payload (name : Text) :
    withoutGet (name ++ "Payload") = withoutGet name ++ "Payload" := by
  rw [withoutGet, withoutGet, startsWith_append_payload]
  split
  case isTrue hget =>
    have hlength : 3 ≤ name.length := (List.isPrefixOf_iff_prefix.mp hget).length_le
    exact List.drop_append_of_le_length hlength
  case isFalse => rfl

theorem responseClass_eq (c : Convention) (name : Text) :
    c.responseClass name = withoutGet (c.apply name) ++ "Payload" := by
  rw [← Naming.escaped_append payload_not_suffix, ← withoutGet_append_payload, withoutGet,
    responseClass]

theorem requestClass_ne_responseClass (c : Convention) (a b : Text) :
    c.requestClass a ≠ c.responseClass b := by
  rw [c.requestClass_eq, c.responseClass_eq]
  intro h
  have hlength : "Request".toList.length = "Payload".toList.length := by decide
  have hending := List.append_inj_right' h hlength
  exact absurd hending (by decide)

/-- A fragment or type clashes with an answer just when their names do under the convention; the `@`
of a reserved word plays no part. -/
theorem responseClass_eq_typeName_iff (c : Convention) {operation name : Text} :
    c.responseClass operation = c.typeName name ↔
      c.apply name = withoutGet (c.apply operation) ++ "Payload" := by
  rw [c.responseClass_eq, eq_comm]
  exact Naming.escaped_eq_append_iff payload_not_suffix

theorem requestClass_eq_typeName_iff (c : Convention) {operation name : Text} :
    c.requestClass operation = c.typeName name ↔
      c.apply name = c.apply operation ++ "Request" := by
  rw [c.requestClass_eq, eq_comm]
  exact Naming.escaped_eq_append_iff request_not_suffix

end Convention

end SharpClient
