import Mathlib.Data.List.Nodup
import SharpClient.Naming.Scope

/-!
# Claiming member names

A claim gets the first of `name`, `name2`, `name3`, … that is not taken (`free_eq_candidate`). All
candidates differ, so among one more of them than there are taken names one is free, and the bounded
search of `firstFree` never gives up before it meets a free one.

So the bound decides nothing: a loop that goes on as long as its candidate is taken (`Search`) ends as
well, with the same name, whatever was claimed before (`claim_takes_first_free`).
-/

namespace SharpClient.Scope

/-! ### Candidates -/

theorem candidate_injective (name : Text) : Function.Injective (candidate name) := by
  have hne (k : Nat) : Text.decimal k ≠ [] := Nat.toDigits_ne_nil
  intro j k h
  rcases j with _ | j <;> rcases k with _ | k
  · rfl
  · simp [candidate, hne] at h
  · simp [candidate, hne] at h
  · have hdigits : Nat.toDigits 10 (j + 2) = Nat.toDigits 10 (k + 2) := List.append_cancel_left h
    have hvalue := congrArg (Nat.ofDigitChars 10 · 0) hdigits
    simp only [Nat.ofDigitChars_ten_toDigits] at hvalue
    omega

/-- More candidates than there are taken names are not all taken. -/
theorem exists_candidate_not_mem (taken : List Text) (name : Text) :
    ∃ k ≤ taken.length, candidate name k ∉ taken := by
  by_contra! hall
  have hnodup : ((List.range (taken.length + 1)).map (candidate name)).Nodup :=
    List.nodup_range.map (candidate_injective name)
  have hsub : (List.range (taken.length + 1)).map (candidate name) ⊆ taken := by
    intro n hn
    obtain ⟨k, hk, rfl⟩ := List.mem_map.mp hn
    exact hall k (Nat.lt_succ_iff.mp (List.mem_range.mp hk))
  have hlength := hnodup.length_le_of_subset hsub
  rw [List.length_map, List.length_range] at hlength
  omega

/-! ### The search -/

/-- The search looks at the candidates in order and stops at one that is not taken, or when it has
looked past `probes` of them. -/
theorem firstFree_eq_candidate (taken : List Text) (name : Text) (probes k : Nat) :
    ∃ j ≤ probes, firstFree taken name probes k = candidate name (k + j) ∧
      (∀ i < j, candidate name (k + i) ∈ taken) ∧
      (j < probes → candidate name (k + j) ∉ taken) := by
  induction probes generalizing k with
  | zero => exact ⟨0, Nat.le_refl 0, rfl, by omega, by omega⟩
  | succ probes ih =>
    by_cases htaken : candidate name k ∈ taken
    · obtain ⟨j, hj, heq, hbefore, hstop⟩ := ih (k + 1)
      have hshift (i : Nat) : k + 1 + i = k + (i + 1) := by omega
      simp only [hshift] at heq hbefore hstop
      refine ⟨j + 1, by omega, by rw [firstFree, if_pos htaken, heq], ?_, fun h => hstop (by omega)⟩
      intro i hi
      rcases i with _ | i
      · exact htaken
      · exact hbefore i (by omega)
    · exact ⟨0, by omega, by rw [firstFree, if_neg htaken]; rfl, by omega, fun _ => htaken⟩

/-- A claim gets the first candidate that is not taken. -/
theorem free_eq_candidate (s : Scope) (name : Text) :
    ∃ k, s.free name = candidate name k ∧ candidate name k ∉ s.taken ∧
      ∀ j < k, candidate name j ∈ s.taken := by
  obtain ⟨k, hk, heq, hbefore, hstop⟩ := firstFree_eq_candidate s.taken name s.taken.length 0
  simp only [Nat.zero_add] at heq hbefore hstop
  refine ⟨k, heq, ?_, hbefore⟩
  obtain ⟨j, hj, hfree⟩ := exists_candidate_not_mem s.taken name
  rcases Nat.lt_or_ge k s.taken.length with hlt | hge
  · exact hstop hlt
  · -- The search used all its probes, so the free candidate can only be the last one.
    have hkj : k = j := by
      by_contra hne
      exact hfree (hbefore j (by omega))
    exact hkj ▸ hfree

theorem free_not_mem (s : Scope) (name : Text) : s.free name ∉ s.taken := by
  obtain ⟨k, heq, hfree, -⟩ := s.free_eq_candidate name
  exact heq ▸ hfree

/-! ### Claims in a row -/

theorem claimAll_not_mem_taken {s : Scope} {requests : List Text} {name : Text}
    (h : name ∈ s.claimAll requests) : name ∉ s.taken := by
  induction requests generalizing s with
  | nil => simp [claimAll] at h
  | cons r rs ih =>
    rw [claimAll, List.mem_cons] at h
    rcases h with rfl | h
    · exact s.free_not_mem r
    · exact fun hmem => ih h (List.mem_cons_of_mem _ hmem)

theorem claimAll_nodup (s : Scope) (requests : List Text) : (s.claimAll requests).Nodup := by
  induction requests generalizing s with
  | nil => exact List.nodup_nil
  | cons r rs ih =>
    rw [claimAll, List.nodup_cons]
    exact ⟨fun hmem => claimAll_not_mem_taken hmem List.mem_cons_self, ih _⟩

/-- The scope that claims in order leave behind. -/
def after : Scope → List Text → Scope
  | s, [] => s
  | s, n :: ns => (s.claim n).2.after ns

/-- Claims add the names they get, and nothing else. -/
theorem taken_after (s : Scope) (requests : List Text) :
    (s.after requests).taken = (s.claimAll requests).reverse ++ s.taken := by
  induction requests generalizing s with
  | nil => rfl
  | cons r rs ih =>
    have hclaim : (s.claim r).2.taken = (s.claim r).1 :: s.taken := rfl
    rw [after, ih, hclaim, claimAll, List.reverse_cons, List.append_assoc, List.singleton_append]

theorem taken_after_nodup {s : Scope} (h : s.taken.Nodup) (requests : List Text) :
    (s.after requests).taken.Nodup := by
  have hdisjoint : List.Disjoint (s.claimAll requests).reverse s.taken := by
    intro n hn hmem
    exact claimAll_not_mem_taken (List.mem_reverse.mp hn) hmem
  rw [taken_after]
  exact (List.nodup_reverse.mpr (s.claimAll_nodup requests)).append h hdisjoint

theorem mem_taken_ofClass {className n : Text} :
    n ∈ (ofClass className).taken ↔ className ≠ [] ∧ n = className := by
  by_cases hempty : className = [] <;> simp [ofClass, hempty]

theorem taken_ofClass_nodup (className : Text) : (ofClass className).taken.Nodup := by
  by_cases hempty : className = [] <;> simp [ofClass, hempty]

/-! ### The search without a bound -/

/-- The search as a loop with no bound in sight. It looks whether `candidate` is taken, and if so goes
on with `counter` behind the name. It ends with `result`, having looked `probes` times. -/
inductive Search (taken : List Text) (name : Text) :
    (candidate : Text) → (counter probes : Nat) → (result : Text) → Prop
  /-- A candidate that is not taken ends the search. -/
  | stop {candidate : Text} {counter : Nat} (hfree : candidate ∉ taken) :
      Search taken name candidate counter 1 candidate
  /-- A taken one gives way to the next. -/
  | next {candidate result : Text} {counter probes : Nat} (htaken : candidate ∈ taken)
      (hrest : Search taken name (name ++ Text.decimal counter) (counter + 1) probes result) :
      Search taken name candidate counter (probes + 1) result

/-- There is one way through the loop. -/
theorem Search.unique {taken : List Text} {name candidate r₁ r₂ : Text} {counter p₁ p₂ : Nat}
    (h₁ : Search taken name candidate counter p₁ r₁)
    (h₂ : Search taken name candidate counter p₂ r₂) : p₁ = p₂ ∧ r₁ = r₂ := by
  induction h₁ generalizing p₂ with
  | stop hfree =>
    cases h₂ with
    | stop => exact ⟨rfl, rfl⟩
    | next htaken => exact absurd htaken hfree
  | next htaken _ ih =>
    cases h₂ with
    | stop hfree => exact absurd htaken hfree
    | next _ hrest =>
      obtain ⟨hprobes, hresult⟩ := ih hrest
      exact ⟨congrArg (· + 1) hprobes, hresult⟩

/-- The loop passes the taken candidates one by one and ends at the first free one. -/
theorem search_candidate {taken : List Text} {name : Text} {j k : Nat}
    (hbefore : ∀ i < j, candidate name (k + i) ∈ taken) (hfree : candidate name (k + j) ∉ taken) :
    Search taken name (candidate name k) (k + 2) (j + 1) (candidate name (k + j)) := by
  induction j generalizing k with
  | zero => exact .stop hfree
  | succ j ih =>
    have hshift (i : Nat) : k + (i + 1) = k + 1 + i := by omega
    have hrest : Search taken name (candidate name (k + 1)) (k + 1 + 2) (j + 1)
        (candidate name (k + 1 + j)) := by
      refine ih (fun i hi => ?_) (hshift j ▸ hfree)
      rw [← hshift]
      exact hbefore (i + 1) (by omega)
    rw [hshift j]
    -- The number behind the name is two ahead of the number of the candidate.
    exact .next (hbefore 0 (by omega)) hrest

/-- The names that a claim may not get: that of the class, if it has one, and what earlier claims
got. -/
def IsTaken (className : Text) (requests : List Text) (n : Text) : Prop :=
  className ≠ [] ∧ n = className ∨ n ∈ (ofClass className).claimAll requests

theorem mem_taken_after {className n : Text} {requests : List Text} :
    n ∈ ((ofClass className).after requests).taken ↔ IsTaken className requests n := by
  rw [taken_after, List.mem_append, List.mem_reverse, mem_taken_ofClass, IsTaken, or_comm]

/-- **A claim takes the first free candidate.** The loop ends after at most one more probe than there
are taken names, and the claim adds the name that it gets. -/
theorem claim_takes_first_free (className : Text) (requests : List Text) (name : Text) :
    let scope := (ofClass className).after requests
    scope.taken.Nodup ∧ (∀ n, n ∈ scope.taken ↔ IsTaken className requests n) ∧
      ∃ k, (∀ probes result, Search scope.taken name name 2 probes result ↔
          probes = k + 1 ∧ result = candidate name k) ∧ k + 1 ≤ scope.taken.length + 1 ∧
        ¬ IsTaken className requests (candidate name k) ∧
        (∀ j < k, IsTaken className requests (candidate name j)) ∧
        scope.claim name = (candidate name k, ⟨candidate name k :: scope.taken⟩) := by
  intro scope
  have hmem (n : Text) : n ∈ scope.taken ↔ IsTaken className requests n := mem_taken_after
  refine ⟨taken_after_nodup (taken_ofClass_nodup className) requests, hmem, ?_⟩
  obtain ⟨k, heq, hfree, hbefore⟩ := scope.free_eq_candidate name
  have hsearch : Search scope.taken name name 2 (k + 1) (candidate name k) := by
    have hloop : Search scope.taken name (candidate name 0) (0 + 2) (k + 1) (candidate name (0 + k)) :=
      search_candidate (by simpa using hbefore) (by simpa using hfree)
    rwa [Nat.zero_add, Nat.zero_add] at hloop
  have hbound : k ≤ scope.taken.length := by
    obtain ⟨j, hj, hjfree⟩ := exists_candidate_not_mem scope.taken name
    by_contra! hlong
    exact hjfree (hbefore j (by omega))
  refine ⟨k, fun probes result => ⟨fun h => h.unique hsearch, ?_⟩, by omega,
    fun htaken => hfree ((hmem _).mpr htaken), fun j hj => (hmem _).mp (hbefore j hj), ?_⟩
  · rintro ⟨rfl, rfl⟩
    exact hsearch
  · rw [claim, heq]

example : (ofClass "Info").claimAll (["info", "info", "info2", "info", "Info"].map String.toList) =
    ["info", "info2", "info22", "info3", "Info2"].map String.toList := by
  decide

end SharpClient.Scope
