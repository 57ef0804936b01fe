import SharpClient.Text.Basic

/-!
# Entries under keys

Files of a directory, members of a JSON object and configured scalars are kept as entries, each under
a key. All three are set alike: the new value takes the place of the key's entries, or comes last if
the key has none.
-/

namespace SharpClient.Entries

variable {α : Type}

theorem any_eq_isSome_lookup (entries : List (Text × α)) (key : Text) :
    entries.any (·.1 = key) = (entries.lookup key).isSome := by
  rw [Bool.eq_iff_iff, List.lookup_isSome_iff, List.any_eq_true]
  refine exists_congr fun e => and_congr_right fun _ => ?_
  rw [decide_eq_true_iff, beq_iff_eq]
  exact eq_comm

/-- Where no key occurs twice, each entry is the one found under its key. -/
theorem lookup_eq_some_iff_mem {entries : List (Text × α)} (h : (entries.map Prod.fst).Nodup)
    {key : Text} {value : α} : entries.lookup key = some value ↔ (key, value) ∈ entries := by
  induction entries with
  | nil => simp
  | cons e es ih =>
    obtain ⟨k, v⟩ := e
    rw [List.map_cons, List.nodup_cons] at h
    by_cases hk : key = k
    · subst hk
      have habsent : (key, value) ∉ es := fun hmem => h.1 (List.mem_map.mpr ⟨_, hmem, rfl⟩)
      simp [habsent, eq_comm]
    · have hne : (key == k) = false := beq_eq_false_iff_ne.mpr hk
      simp [List.lookup_cons, hne, hk, ih h.2]

/-- A replaced value is found in place of the old one, if there was one. -/
theorem lookup_map_replace (entries : List (Text × α)) (key : Text) (value : α) (k : Text) :
    (entries.map fun e => if e.1 = key then (key, value) else e).lookup k =
      if k = key then (entries.lookup k).map fun _ => value else entries.lookup k := by
  induction entries with
  | nil => simp
  | cons e es ih =>
    obtain ⟨m, old⟩ := e
    by_cases hk : k = m
    · subst hk
      by_cases hkey : k = key <;> simp [hkey]
    · have hne : (k == m) = false := beq_eq_false_iff_ne.mpr hk
      by_cases hkey : m = key
      · subst hkey
        simpa [List.lookup_cons, hne, hk] using ih
      · simpa [List.lookup_cons, hne, hkey] using ih

/-- Replacing values keeps the keys. -/
theorem map_fst_replace (entries : List (Text × α)) (key : Text) (value : α) :
    (entries.map fun e => if e.1 = key then (key, value) else e).map Prod.fst =
      entries.map Prod.fst := by
  rw [List.map_map]
  refine List.map_congr_left fun e _ => ?_
  by_cases hkey : e.1 = key <;> simp [hkey]

end SharpClient.Entries
