import SharpClient.Proofs.Config.WrittenOptions
import SharpClient.Proofs.Outcome

/-!
# Overrides

Settings are overridden in three steps: the given options are written out, the overrides are set
among them, and the result is read again. Reading makes conditions: endpoints and C# types are not
empty, and no scalar is configured twice. Settings that were accepted once meet these
(`wellFormed_of_ofText`), so that they are read back as they were (`checkEntries_of_written`).

So overriding never fails on settings that were read from a file, and changes nothing but the
overridden options (`override_of_ofText`).
-/

namespace SharpClient

/-! ### What was accepted -/

namespace Checked

variable {α β : Type}

theorem seq_eq_ok {f : Checked (α → β)} {a : Checked α} {b : β} (h : f.seq a = .ok b) :
    ∃ g x, f = .ok g ∧ a = .ok x ∧ g x = b := by
  cases f with
  | error => cases a <;> cases h
  | ok g =>
    cases a with
    | error => cases h
    | ok x => exact ⟨g, x, rfl, rfl, Except.ok.inj h⟩

theorem reject_eq_ok {a : Checked α} {issues : List ConfigIssue} {b : α}
    (h : a.reject issues = .ok b) : a = .ok b := by
  cases issues with
  | nil => exact h
  | cons => cases a <;> cases h

theorem mem_of_all_eq_ok {as : List (Checked α)} {bs : List α} (h : all as = .ok bs) :
    ∀ b ∈ bs, .ok b ∈ as := by
  induction as generalizing bs with
  | nil =>
    cases h
    simp
  | cons a as ih =>
    obtain ⟨cons, rest, hcons, hrest, rfl⟩ := seq_eq_ok h
    cases a with
    | error => cases hcons
    | ok b =>
      cases hcons
      intro b' hb'
      rcases List.mem_cons.mp hb' with rfl | hb'
      · exact List.mem_cons_self
      · exact List.mem_cons_of_mem _ (ih hrest b' hb')

theorem all_map_ok {f : β → Checked α} {g : β → α} {bs : List β} (h : ∀ b ∈ bs, f b = .ok (g b)) :
    all (bs.map f) = .ok (bs.map g) := by
  induction bs with
  | nil => rfl
  | cons b bs ih =>
    rw [List.forall_mem_cons] at h
    rw [List.map_cons, all, h.1, ih h.2]
    rfl

end Checked

/-- A value that was read for an option passed its check. -/
theorem OptionKey.exists_check_of_read {α : Type} {key : OptionKey} {path : List Text}
    {entries : List (Text × Json)} {check : Check α} {value : Option α}
    (h : key.read path entries check = .ok value) {a : α} (ha : value = some a) :
    ∃ path json, check path json = .ok a := by
  subst ha
  rw [OptionKey.read] at h
  split at h
  · cases h
  · obtain ⟨b, hb, hsome⟩ := Outcome.map_eq_ok.mp h
    exact ⟨_, _, hb.trans (congrArg Except.ok (Option.some.inj hsome))⟩

theorem Check.ne_nil_of_nonemptyText {path : List Text} {json : Json} {t : Text}
    (h : Check.nonemptyText path json = .ok t) : t ≠ [] := by
  cases json with
  | string value =>
    rw [Check.nonemptyText] at h
    split at h
    case isTrue => cases h
    case isFalse hempty =>
      cases h
      simpa using hempty
  | _ => cases h

theorem OptionKey.ne_nil_of_require {key : OptionKey} {path : List Text}
    {entries : List (Text × Json)} {t : Text}
    (h : key.require path entries Check.nonemptyText = .ok t) : t ≠ [] := by
  rw [OptionKey.require] at h
  split at h
  · cases h
  · exact Check.ne_nil_of_nonemptyText h

theorem Check.nonemptyText_string {t : Text} (h : t ≠ []) (path : List Text) :
    Check.nonemptyText path (.string t) = .ok t := by
  simp [Check.nonemptyText, h]

theorem Check.of_nullable {α : Type} {check : Check α} {path : List Text} {json : Json} {a : α}
    (h : Check.nullable check path json = .ok (some a)) : check path json = .ok a := by
  rw [Check.nullable.eq_def] at h
  split at h
  · cases h
  · obtain ⟨b, hb, hsome⟩ := Outcome.map_eq_ok.mp h
    exact hb.trans (congrArg Except.ok (Option.some.inj hsome))

theorem Check.nullable_ofText? (t : Option Text) (path : List Text) :
    Check.nullable Check.text path (.ofText? t) = .ok t := by
  cases t <;> rfl

theorem Check.nullable_ofBool? (b : Option Bool) (path : List Text) :
    Check.nullable Check.truth path (.ofBool? b) = .ok b := by
  cases b <;> rfl

/-! ### The transport client -/

namespace HttpClientSettings

/-- The options with their values as written. -/
def rows (h : HttpClientSettings) : OptionRows :=
  [(.prodEndpoint, some (.string h.prodEndpoint)), (.devEndpoint, h.devEndpoint.map .ofText?),
    (.useDevIf, h.useDevIf.map .ofText?)]

theorem dump_eq (h : HttpClientSettings) : h.dump = .object h.rows.entries := by
  obtain ⟨prodEndpoint, devEndpoint, useDevIf⟩ := h
  cases devEndpoint <;> cases useDevIf <;> rfl

/-- The options are read back, since the primary endpoint is not empty. -/
theorem check_dump {h : HttpClientSettings} (hprod : h.prodEndpoint ≠ []) (path : List Text) :
    check path h.dump = .ok h := by
  have hwritten : OptionKey.Written h.rows h.rows.entries := by
    have hapart : OptionKey.Apart keys := by decide
    exact OptionKey.written_entries hapart
  have hextra := OptionKey.extraIssues_of_written hwritten path
  have hrequired : OptionKey.prodEndpoint.require path h.rows.entries Check.nonemptyText =
      .ok h.prodEndpoint :=
    OptionKey.require_of_written hwritten (by simp [rows]) path (Check.nonemptyText_string hprod)
  have hdev : OptionKey.devEndpoint.read path h.rows.entries (Check.nullable Check.text) =
      .ok h.devEndpoint :=
    OptionKey.read_of_written hwritten (by simp [rows]) path fun t _ => Check.nullable_ofText? t
  have hcondition : OptionKey.useDevIf.read path h.rows.entries (Check.nullable Check.text) =
      .ok h.useDevIf :=
    OptionKey.read_of_written hwritten (by simp [rows]) path fun t _ => Check.nullable_ofText? t
  rw [dump_eq, check, hrequired, hdev, hcondition]
  exact congrArg (Checked.reject (.ok h)) hextra

theorem prodEndpoint_ne_nil {path : List Text} {json : Json} {h : HttpClientSettings}
    (hcheck : check path json = .ok h) : h.prodEndpoint ≠ [] := by
  cases json with
  | object entries =>
    rw [check] at hcheck
    obtain ⟨f, condition, hf, -, rfl⟩ := Checked.seq_eq_ok (Checked.reject_eq_ok hcheck)
    obtain ⟨g, dev, hg, -, rfl⟩ := Checked.seq_eq_ok hf
    obtain ⟨m, prod, hm, hprod, rfl⟩ := Checked.seq_eq_ok hg
    cases hm
    exact OptionKey.ne_nil_of_require hprod
  | _ => cases hcheck

end HttpClientSettings

/-! ### Scalars -/

namespace ScalarSettings

/-- A set of scalar options names a C# type. -/
def WellFormed : ScalarSettings → Prop
  | type _ => True
  | explicit t _ => t ≠ []

/-- A set of scalar options with their values as written. -/
def rows (t : Text) (valueType : Option (Option Bool)) : OptionRows :=
  [(.type, some (.string t)), (.valueType, valueType.map .ofBool?)]

theorem dump_explicit (t : Text) (valueType : Option (Option Bool)) :
    (explicit t valueType).dump = .object (rows t valueType).entries := by
  cases valueType <;> rfl

theorem checkOptions_dump {t : Text} (ht : t ≠ []) (valueType : Option (Option Bool))
    (path : List Text) :
    checkOptions path (explicit t valueType).dump = .ok (explicit t valueType) := by
  have hwritten : OptionKey.Written (rows t valueType) (rows t valueType).entries := by
    have hapart : OptionKey.Apart keys := by decide
    exact OptionKey.written_entries hapart
  have hextra := OptionKey.extraIssues_of_written hwritten path
  have htype : OptionKey.type.require path (rows t valueType).entries Check.nonemptyText = .ok t :=
    OptionKey.require_of_written hwritten (by simp [rows]) path (Check.nonemptyText_string ht)
  have hvalueType : OptionKey.valueType.read path (rows t valueType).entries
      (Check.nullable Check.truth) = .ok valueType :=
    OptionKey.read_of_written hwritten (by simp [rows]) path fun b _ => Check.nullable_ofBool? b
  rw [dump_explicit, checkOptions, htype, hvalueType]
  exact congrArg (Checked.reject (.ok (explicit t valueType))) hextra

theorem check_dump {e : ScalarSettings} (h : e.WellFormed) (path : List Text) :
    check path e.dump = .ok e := by
  cases e with
  | type t => rfl
  | explicit t valueType =>
    have hoptions := checkOptions_dump h valueType (path ++ [optionsName])
    rw [dump_explicit] at hoptions ⊢
    rw [check, hoptions]
    simp

theorem wellFormed_of_checkOptions {path : List Text} {json : Json} {e : ScalarSettings}
    (h : checkOptions path json = .ok e) : e.WellFormed := by
  cases json with
  | object entries =>
    rw [checkOptions] at h
    obtain ⟨f, valueType, hf, -, rfl⟩ := Checked.seq_eq_ok (Checked.reject_eq_ok h)
    obtain ⟨m, t, hm, ht, rfl⟩ := Checked.seq_eq_ok hf
    cases hm
    exact OptionKey.ne_nil_of_require ht
  | _ => cases h

theorem wellFormed_of_check {path : List Text} {json : Json} {e : ScalarSettings}
    (h : check path json = .ok e) : e.WellFormed := by
  rw [check.eq_def] at h
  split at h
  · cases h
    trivial
  · split at h
    case h_1 hoptions =>
      cases h
      exact wellFormed_of_checkOptions hoptions
    case h_2 => cases h

/-! #### Several scalars -/

variable {entries : List (Text × ScalarSettings)}

theorem nodup_insert (h : (entries.map Prod.fst).Nodup) (e : Text × ScalarSettings) :
    ((insert entries e).map Prod.fst).Nodup := by
  rw [insert]
  split
  case isTrue => rwa [Entries.map_fst_replace entries e.1 e.2]
  case isFalse hnone =>
    rw [List.map_append, List.map_singleton, List.nodup_append]
    refine ⟨h, List.nodup_singleton _, fun name hname last hlast heq => ?_⟩
    obtain ⟨e', he', hfst⟩ := List.mem_map.mp hname
    have hsame : e'.1 = e.1 := hfst.trans (heq.trans (List.mem_singleton.mp hlast))
    exact hnone (List.any_eq_true.mpr ⟨e', he', decide_eq_true hsame⟩)

theorem nodup_foldl_insert (h : (entries.map Prod.fst).Nodup)
    (more : List (Text × ScalarSettings)) :
    ((more.foldl insert entries).map Prod.fst).Nodup := by
  induction more generalizing entries with
  | nil => exact h
  | cons e es ih => exact ih (nodup_insert h e)

theorem mem_of_mem_insert {e x : Text × ScalarSettings} (h : x ∈ insert entries e) :
    x = e ∨ x ∈ entries := by
  rw [insert] at h
  split at h
  · obtain ⟨y, hy, rfl⟩ := List.mem_map.mp h
    split
    · exact .inl rfl
    · exact .inr hy
  · rw [List.mem_append, List.mem_singleton] at h
    exact h.symm

theorem mem_of_mem_foldl_insert {more : List (Text × ScalarSettings)} {x : Text × ScalarSettings}
    (h : x ∈ more.foldl insert entries) : x ∈ entries ∨ x ∈ more := by
  induction more generalizing entries with
  | nil => exact .inl h
  | cons e es ih =>
    rcases ih h with h | h
    · rcases mem_of_mem_insert h with rfl | h
      · exact .inr List.mem_cons_self
      · exact .inl h
    · exact .inr (List.mem_cons_of_mem e h)

/-- Entries of different names are put one behind the other. -/
theorem foldl_insert_of_nodup {more : List (Text × ScalarSettings)}
    (h : ((entries ++ more).map Prod.fst).Nodup) : more.foldl insert entries = entries ++ more := by
  induction more generalizing entries with
  | nil => exact (List.append_nil entries).symm
  | cons e es ih =>
    have hinsert : insert entries e = entries ++ [e] := by
      refine if_neg fun hany => ?_
      obtain ⟨e', he', hfst⟩ := List.any_eq_true.mp hany
      rw [List.map_append, List.nodup_append] at h
      exact h.2.2 e'.1 (List.mem_map_of_mem he') e.1 (by simp) (by simpa using hfst)
    rw [List.foldl_cons, hinsert, ih (by simpa using h), List.append_assoc]
    rfl

/-- The scalars are read back, since each has a type and no two have a name in common. -/
theorem checkAll_dumpAll (hnodup : (entries.map Prod.fst).Nodup)
    (hentries : ∀ e ∈ entries, e.2.WellFormed) (path : List Text) :
    checkAll path (dumpAll entries) = .ok entries := by
  have hall : Checked.all ((entries.map fun e => (e.1, e.2.dump)).map fun e =>
      (check (path ++ [e.1]) e.2).map (e.1, ·)) = .ok entries := by
    rw [List.map_map]
    refine (Checked.all_map_ok (g := id) fun e he => ?_).trans (by rw [List.map_id])
    simp only [Function.comp_apply, check_dump (hentries e he)]
    rfl
  have hcheck : checkAll path (dumpAll entries) = (Checked.all ((entries.map fun e =>
      (e.1, e.2.dump)).map fun e => (check (path ++ [e.1]) e.2).map (e.1, ·))).map
        (·.foldl insert []) := rfl
  rw [hcheck, hall, Outcome.map_ok, foldl_insert_of_nodup (by simpa using hnodup), List.nil_append]

theorem wellFormed_of_checkAll {path : List Text} {json : Json}
    (h : checkAll path json = .ok entries) :
    (entries.map Prod.fst).Nodup ∧ ∀ e ∈ entries, e.2.WellFormed := by
  cases json with
  | object members =>
    obtain ⟨read, hread, rfl⟩ := Outcome.map_eq_ok.mp h
    refine ⟨@nodup_foldl_insert [] List.nodup_nil read, fun e he => ?_⟩
    have hmem : e ∈ read := (mem_of_mem_foldl_insert he).resolve_left List.not_mem_nil
    obtain ⟨member, -, hmember⟩ := List.mem_map.mp (Checked.mem_of_all_eq_ok hread e hmem)
    obtain ⟨settings, hsettings, rfl⟩ := Outcome.map_eq_ok.mp hmember
    exact wellFormed_of_check hsettings
  | _ => cases h

end ScalarSettings

/-! ### Settings -/

namespace Settings

/-- What reading ensures of settings beyond the kinds of their values. -/
structure WellFormed (s : Settings) : Prop where
  endpoint : ∀ h, s.httpClient = some (some h) → h.prodEndpoint ≠ []
  scalarNames : ∀ scalars, s.scalars = some scalars → (scalars.map Prod.fst).Nodup
  scalarTypes : ∀ scalars, s.scalars = some scalars → ∀ e ∈ scalars, e.2.WellFormed

/-- The options with their values as written. -/
def rows (s : Settings) : OptionRows :=
  [(.namespaceName, s.namespaceName.map .string),
    (.operationsClassName, s.operationsClassName.map .string),
    (.namedClient, s.namedClient.map .ofText?), (.querySuffix, s.querySuffix.map .string),
    (.mutationSuffix, s.mutationSuffix.map .string),
    (.subscriptionSuffix, s.subscriptionSuffix.map .string),
    (.typesafeOperation, s.typesafeOperation.map .bool),
    (.httpClient, s.httpClient.map HttpClientSettings.dump?),
    (.scalars, s.scalars.map ScalarSettings.dumpAll),
    (.namingConvention, s.namingConvention.map fun c => .string c.word),
    (.documentMode, s.documentMode.map fun m => .string m.word)]

theorem dump_eq (s : Settings) : s.dump = s.rows.entries := by
  simp only [dump, OptionKey.given, rows, OptionRows.entries, List.flatMap_cons, List.flatMap_nil,
    Option.map_map, List.append_assoc, List.append_nil]
  rfl

theorem written_dump (s : Settings) : OptionKey.Written s.rows s.dump := by
  have hapart : OptionKey.Apart keys := by decide +kernel
  rw [dump_eq]
  exact OptionKey.written_entries hapart

/-- Well-formed settings are read from entries that hold them. -/
theorem checkEntries_of_written {s : Settings} {entries : List (Text × Json)} (hs : s.WellFormed)
    (h : OptionKey.Written s.rows entries) : checkEntries entries = .ok s := by
  have htext (t : Text) (path : List Text) : Check.text path (.string t) = .ok t := rfl
  have hclient (c : Option HttpClientSettings) (hc : s.httpClient = some c) (path : List Text) :
      Check.nullable HttpClientSettings.check path (HttpClientSettings.dump? c) = .ok c := by
    cases c with
    | none => rfl
    | some c =>
      have hcheck := HttpClientSettings.check_dump (hs.endpoint c hc) path
      rw [HttpClientSettings.dump?, Option.elim_some]
      rw [HttpClientSettings.dump_eq] at hcheck ⊢
      simp only [Check.nullable, hcheck, Outcome.map_ok]
  have hconvention (c : Convention) (path : List Text) :
      Check.oneOf (Convention.all.map Convention.word) Convention.ofWord? path (.string c.word) =
        .ok c := by cases c <;> rfl
  have hmode (m : DocumentMode) (path : List Text) :
      Check.oneOf (DocumentMode.all.map DocumentMode.word) DocumentMode.ofWord? path
        (.string m.word) = .ok m := by cases m <;> rfl
  have hread {α : Type} {key : OptionKey} {check : Check α} (write : α → Json) {value : Option α}
      (hrow : (key, value.map write) ∈ s.rows)
      (hcheck : ∀ a ∈ value, ∀ path, check path (write a) = .ok a) :
      key.read [] entries check = .ok value := OptionKey.read_of_written h hrow [] hcheck
  have hnamespace : OptionKey.namespaceName.read [] entries Check.text = .ok s.namespaceName :=
    hread .string (by simp [rows]) fun t _ => htext t
  have hclass : OptionKey.operationsClassName.read [] entries Check.text =
      .ok s.operationsClassName := hread .string (by simp [rows]) fun t _ => htext t
  have hnamed : OptionKey.namedClient.read [] entries (Check.nullable Check.text) =
      .ok s.namedClient := hread .ofText? (by simp [rows]) fun t _ => Check.nullable_ofText? t
  have hquery : OptionKey.querySuffix.read [] entries Check.text = .ok s.querySuffix :=
    hread .string (by simp [rows]) fun t _ => htext t
  have hmutation : OptionKey.mutationSuffix.read [] entries Check.text = .ok s.mutationSuffix :=
    hread .string (by simp [rows]) fun t _ => htext t
  have hsubscription : OptionKey.subscriptionSuffix.read [] entries Check.text =
      .ok s.subscriptionSuffix := hread .string (by simp [rows]) fun t _ => htext t
  have htypesafe : OptionKey.typesafeOperation.read [] entries Check.truth =
      .ok s.typesafeOperation := hread .bool (by simp [rows]) fun _ _ _ => rfl
  have htransport : OptionKey.httpClient.read [] entries (Check.nullable HttpClientSettings.check) =
      .ok s.httpClient := hread HttpClientSettings.dump? (by simp [rows]) hclient
  have hscalars : OptionKey.scalars.read [] entries ScalarSettings.checkAll = .ok s.scalars :=
    hread ScalarSettings.dumpAll (by simp [rows]) fun scalars hscalars =>
      ScalarSettings.checkAll_dumpAll (hs.scalarNames scalars hscalars)
        (hs.scalarTypes scalars hscalars)
  have hnaming : OptionKey.namingConvention.read [] entries
      (Check.oneOf (Convention.all.map Convention.word) Convention.ofWord?) =
        .ok s.namingConvention :=
    hread (fun c => .string c.word) (by simp [rows]) fun c _ => hconvention c
  have hdocuments : OptionKey.documentMode.read [] entries
      (Check.oneOf (DocumentMode.all.map DocumentMode.word) DocumentMode.ofWord?) =
        .ok s.documentMode :=
    hread (fun m => .string m.word) (by simp [rows]) fun m _ => hmode m
  rw [checkEntries, hnamespace, hclass, hnamed, hquery, hmutation, hsubscription, htypesafe,
    htransport, hscalars, hnaming, hdocuments]
  exact congrArg (Checked.reject (.ok s)) (OptionKey.extraIssues_of_written h [])

theorem wellFormed_of_checkEntries {s : Settings} {entries : List (Text × Json)}
    (h : checkEntries entries = .ok s) : s.WellFormed := by
  obtain ⟨f₁, _, hf₁, -, rfl⟩ := Checked.seq_eq_ok (Checked.reject_eq_ok h)
  obtain ⟨f₂, _, hf₂, -, rfl⟩ := Checked.seq_eq_ok hf₁
  obtain ⟨f₃, scalars, hf₃, hscalars, rfl⟩ := Checked.seq_eq_ok hf₂
  obtain ⟨f₄, client, hf₄, hclient, rfl⟩ := Checked.seq_eq_ok hf₃
  obtain ⟨f₅, _, hf₅, -, rfl⟩ := Checked.seq_eq_ok hf₄
  obtain ⟨f₆, _, hf₆, -, rfl⟩ := Checked.seq_eq_ok hf₅
  obtain ⟨f₇, _, hf₇, -, rfl⟩ := Checked.seq_eq_ok hf₆
  obtain ⟨f₈, _, hf₈, -, rfl⟩ := Checked.seq_eq_ok hf₇
  obtain ⟨f₉, _, hf₉, -, rfl⟩ := Checked.seq_eq_ok hf₈
  obtain ⟨f₁₀, _, hf₁₀, -, rfl⟩ := Checked.seq_eq_ok hf₉
  obtain ⟨_, _, hmk, -, rfl⟩ := Checked.seq_eq_ok hf₁₀
  cases hmk
  have hscalars' (entries : List (Text × ScalarSettings)) (he : scalars = some entries) :
      (entries.map Prod.fst).Nodup ∧ ∀ e ∈ entries, e.2.WellFormed := by
    obtain ⟨path, json, hcheck⟩ := OptionKey.exists_check_of_read hscalars he
    exact ScalarSettings.wellFormed_of_checkAll hcheck
  refine ⟨fun c hc => ?_, fun entries he => (hscalars' entries he).1,
    fun entries he => (hscalars' entries he).2⟩
  obtain ⟨path, json, hcheck⟩ := OptionKey.exists_check_of_read hclient hc
  exact HttpClientSettings.prodEndpoint_ne_nil (Check.of_nullable hcheck)

theorem wellFormed_of_ofText {t : Text} {s : Settings} (h : ofText t = .ok s) : s.WellFormed := by
  rw [ofText] at h
  split at h
  case h_1 value _ =>
    cases value with
    | object entries => exact wellFormed_of_checkEntries h
    | _ => cases h
  case h_2 => cases h

/-! ### Overriding -/

/-- The settings with the overrides that are given. -/
def overlay (s : Settings) (o : Overrides) : Settings :=
  { s with
    namespaceName := o.namespaceName.or s.namespaceName
    operationsClassName := o.operationsClassName.or s.operationsClassName
    typesafeOperation := o.typesafeOperation.or s.typesafeOperation }

/-- Sets entries among others, one after the other. -/
def setAll (entries more : List (Text × Json)) : List (Text × Json) :=
  more.foldl (fun entries e => Json.insert entries e.1 e.2) entries

/-- An override is set among written settings, if it is given. -/
theorem written_setAll_given {α : Type} {s : Settings} {entries : List (Text × Json)}
    (h : OptionKey.Written s.rows entries) {key : OptionKey} (hkey : key ∈ keys)
    {write : α → Json} {value : Option α} {s' : Settings} (hnone : value = none → s'.rows = s.rows)
    (hsome : ∀ a, value = some a → s'.rows = s.rows.set key (write a)) :
    OptionKey.Written s'.rows (setAll entries (key.given write value)) := by
  cases value with
  | none =>
    rw [hnone rfl]
    exact h
  | some a =>
    rw [hsome a rfl]
    exact h.insert hkey (write a)

/-- Setting the overrides among the given options gives the overlaid settings. -/
theorem written_overlay (s : Settings) (o : Overrides) :
    OptionKey.Written (s.overlay o).rows (setAll s.dump o.entries) := by
  obtain ⟨newNamespace, newClass, newTypesafe⟩ := o
  have hnamespace : OptionKey.Written (s.overlay ⟨newNamespace, none, none⟩).rows
      (setAll s.dump (OptionKey.namespaceName.given .string newNamespace)) := by
    refine written_setAll_given s.written_dump (by decide) ?_ ?_
    · rintro rfl
      rfl
    · rintro a rfl
      rfl
  have hclass : OptionKey.Written (s.overlay ⟨newNamespace, newClass, none⟩).rows
      (setAll (setAll s.dump (OptionKey.namespaceName.given .string newNamespace))
        (OptionKey.operationsClassName.given .string newClass)) := by
    refine written_setAll_given hnamespace (by decide) ?_ ?_
    · rintro rfl
      rfl
    · rintro a rfl
      rfl
  rw [Overrides.entries, setAll, List.foldl_append, List.foldl_append]
  refine written_setAll_given hclass (by decide) ?_ ?_
  · rintro rfl
    rfl
  · rintro a rfl
    rfl

theorem WellFormed.overlay {s : Settings} (h : s.WellFormed) (o : Overrides) :
    (s.overlay o).WellFormed :=
  ⟨h.endpoint, h.scalarNames, h.scalarTypes⟩

/-- Well-formed settings can be overridden, and the overrides are all that changes. -/
theorem override_eq {s : Settings} (h : s.WellFormed) (o : Overrides) :
    s.override o = .ok (s.overlay o) := by
  have hread := checkEntries_of_written (h.overlay o) (s.written_overlay o)
  rw [override]
  split
  case h_1 hnone =>
    -- Without overrides nothing is written out; the overlay then changes nothing either.
    simp only [Overrides.entries, OptionKey.given, List.append_eq_nil_iff,
      Option.toList_eq_nil_iff, Option.map_eq_none_iff] at hnone
    obtain ⟨⟨hnamespace, hclass⟩, htypesafe⟩ := hnone
    rw [overlay, hnamespace, hclass, htypesafe]
    rfl
  case h_2 => exact hread

theorem config_overlay (s : Settings) (o : Overrides) :
    (s.overlay o).config =
      { s.config with
        namespaceName := o.namespaceName.getD s.config.namespaceName
        operationsClassName := o.operationsClassName.getD s.config.operationsClassName
        typesafeOperation := o.typesafeOperation.getD s.config.typesafeOperation } := by
  obtain ⟨newNamespace, newClass, newTypesafe⟩ := o
  cases newNamespace <;> cases newClass <;> cases newTypesafe <;> rfl

/-- **Overrides touch only their own options.** Whatever overrides are given, settings that were
read from a file can be overridden. In the configuration they lead to, each overridden option has the
value that was given for it, and every other option, nested ones included, the value of the file;
scalars are mapped as before. -/
theorem override_of_ofText {t : Text} {s : Settings} (h : ofText t = .ok s) (o : Overrides) :
    ∃ s', s.override o = .ok s' ∧
      s'.config =
        { s.config with
          namespaceName := o.namespaceName.getD s.config.namespaceName
          operationsClassName := o.operationsClassName.getD s.config.operationsClassName
          typesafeOperation := o.typesafeOperation.getD s.config.typesafeOperation } ∧
      s'.config.registry = s.config.registry := by
  have hconfig := config_overlay s o
  refine ⟨s.overlay o, override_eq (wellFormed_of_ofText h) o, hconfig, ?_⟩
  rw [hconfig]
  rfl

end Settings

namespace EndpointSample

/-- A configuration with both spellings of names, an explicit null and a word for a truth value. -/
def text : Text :=
  "\x7b\"http_client_config\": \x7b\"prodEndpoint\": \"p\", \"use_dev_if\": null\x7d, "
    ++ "\"scalars\": \x7b\"Money\": \x7b\"type\": \"Coin\", \"valueType\": \"y\"\x7d\x7d\x7d"

/-- What it gives. -/
def settings : Settings where
  httpClient := some (some ⟨"p", none, some none⟩)
  scalars := some [("Money", .explicit "Coin" (some (some true)))]

/-- A class of another name, and typesafe operations. -/
def overrides : Overrides where
  operationsClassName := some "Api"
  typesafeOperation := some true

theorem api_overrides :
    Settings.ofText text = .ok settings ∧
      ∃ s', settings.override overrides = .ok s' ∧
        s'.config =
          { settings.config with operationsClassName := "Api", typesafeOperation := true } ∧
        s'.config.registry = settings.config.registry := by
  have htext : Settings.ofText text = .ok settings := by decide +kernel
  exact ⟨htext, Settings.override_of_ofText htext overrides⟩

end EndpointSample

end SharpClient
