import Mathlib.Tactic.SplitIfs
import StudStuff.NetLog.Filter

/-!
# The meaning of a filter configuration

`CreateFilter` of `net_logger.h` adds the filter of one entry after another, and stops at the first
entry that it cannot add. `addConfigs_valid` says what it does with valid entries while there is
room, and `createFilter_invalid` and `createFilter_full` what it does at the first entry that it
cannot add. `createFilter_meaning` collects what a configuration means.
-/

set_option autoImplicit false
set_option relaxedAutoImplicit false

namespace StudStuff.NetLog

/-! ### Configurations -/

/-- `FilterConfig`. -/
structure FilterConfig where
  type : Text
  value : Text
  deriving DecidableEq, Repr

/-- The constructor of `FilterConfig` from a list of strings. -/
def FilterConfig.ofFields (il : List Text) : Except FilterError FilterConfig :=
  match il with
  | [key1, val1, key2, val2] =>
    if key1 ≠ "type".toList ∨ key2 ≠ "value".toList then
      .error (.filterConfigError "Invalid format: expected 'type' and 'value' keys")
    else .ok ⟨val1, val2⟩
  | _ => .error (.filterConfigError "FilterConfig expects 4 fields")

/-- The body of the loop of `CreateFilter`. -/
def addConfig (filter : CompositeFilter) (cfg : FilterConfig) :
    Except FilterError CompositeFilter :=
  if cfg.type = "subnet".toList then
    match SubnetFilter.create cfg.value with
    | some subnet => filter.add (.subnet subnet)
    | none => .error (.filterConfigError "Bad subnet filter format.")
  else if cfg.type = "range".toList then
    match RangeFilter.create cfg.value with
    | some range => filter.add (.range range)
    | none => .error (.filterConfigError "Bad range filter format.")
  else
    .error (.filterConfigError "Unknown filter type.")

/-- The loop of `CreateFilter`. -/
def addConfigs : CompositeFilter → List FilterConfig → Except FilterError CompositeFilter
  | filter, [] => .ok filter
  | filter, cfg :: configs => do
    addConfigs (← addConfig filter cfg) configs

/-- `CreateFilter`. -/
def createFilter (configs : List FilterConfig) : Except FilterError CompositeFilter :=
  addConfigs ⟨[]⟩ configs

/-! ### The filter of one entry -/

section Entry

variable {cfg : FilterConfig} {filter : CompositeFilter} {own : VarFilter}

/-- The filter that an entry stands for, if it is valid. -/
def FilterConfig.ownFilter (cfg : FilterConfig) : Option VarFilter :=
  if cfg.type = "subnet".toList then (SubnetFilter.create cfg.value).map .subnet
  else if cfg.type = "range".toList then (RangeFilter.create cfg.value).map .range
  else none

/-- What is wrong with an entry that is not valid. -/
def FilterConfig.complaint (cfg : FilterConfig) : String :=
  if cfg.type = "subnet".toList then "Bad subnet filter format."
  else if cfg.type = "range".toList then "Bad range filter format."
  else "Unknown filter type."

/-- A valid entry is added, if there is room. -/
theorem addConfig_valid (hown : cfg.ownFilter = some own) (filter : CompositeFilter) :
    addConfig filter cfg = filter.add own := by
  rw [FilterConfig.ownFilter] at hown
  rw [addConfig]
  split_ifs at hown ⊢
  · obtain ⟨subnet, hsubnet, rfl⟩ := Option.map_eq_some_iff.mp hown
    rw [hsubnet]
  · obtain ⟨range, hrange, rfl⟩ := Option.map_eq_some_iff.mp hown
    rw [hrange]

/-- An entry that is not valid is rejected, whether there is room or not. -/
theorem addConfig_invalid (hown : cfg.ownFilter = none) (filter : CompositeFilter) :
    addConfig filter cfg = .error (.filterConfigError cfg.complaint) := by
  rw [FilterConfig.ownFilter] at hown
  rw [addConfig, FilterConfig.complaint]
  split_ifs at hown ⊢
  · rw [Option.map_eq_none_iff.mp hown]
  · rw [Option.map_eq_none_iff.mp hown]
  · rfl

end Entry

/-! ### The loop -/

section Loop

variable {configs : List FilterConfig} {filters owns : List VarFilter} {cfg : FilterConfig}

theorem add_room {filter : VarFilter} (hroom : filters.length < kMaxFilters) :
    CompositeFilter.add ⟨filters⟩ filter = .ok ⟨filters ++ [filter]⟩ :=
  if_pos hroom

theorem add_full {filter : VarFilter} (hfull : kMaxFilters ≤ filters.length) :
    CompositeFilter.add ⟨filters⟩ filter =
      .error (.lengthError "Maximum number of rules 20 exceeded.") :=
  if_neg (Nat.not_lt.mpr hfull)

theorem addConfigs_cons (filter : CompositeFilter) (cfg : FilterConfig)
    (configs : List FilterConfig) : addConfigs filter (cfg :: configs) =
      (addConfig filter cfg).bind fun filter' ↦ addConfigs filter' configs :=
  rfl

/-- Valid entries are added while there is room. The entries after them are left for the loop. -/
theorem addConfigs_valid (howns : configs.map FilterConfig.ownFilter = owns.map some)
    (hroom : filters.length + configs.length ≤ kMaxFilters) (rest : List FilterConfig) :
    addConfigs ⟨filters⟩ (configs ++ rest) = addConfigs ⟨filters ++ owns⟩ rest := by
  induction configs generalizing filters owns with
  | nil =>
    rw [List.map_eq_nil_iff.mp howns.symm, List.append_nil, List.nil_append]
  | cons cfg configs ih =>
    cases owns with
    | nil => cases howns
    | cons own owns =>
      rw [List.map_cons, List.map_cons, List.cons.injEq] at howns
      rw [List.length_cons] at hroom
      have hlength : (filters ++ [own]).length + configs.length ≤ kMaxFilters := by
        rw [List.length_append, List.length_singleton]
        omega
      rw [List.cons_append, addConfigs_cons, addConfig_valid howns.1, add_room (by omega)]
      refine (ih howns.2 hlength).trans ?_
      rw [List.append_assoc, List.singleton_append]

/-- The filters of valid entries. -/
theorem exists_owns (hvalid : ∀ cfg ∈ configs, cfg.ownFilter ≠ none) :
    ∃ owns : List VarFilter, configs.map FilterConfig.ownFilter = owns.map some := by
  induction configs with
  | nil => exact ⟨[], rfl⟩
  | cons cfg configs ih =>
    obtain ⟨own, hown⟩ := Option.ne_none_iff_exists'.mp (hvalid cfg List.mem_cons_self)
    obtain ⟨owns, howns⟩ := ih fun other hmem ↦ hvalid other (List.mem_cons_of_mem _ hmem)
    exact ⟨own :: owns, by rw [List.map_cons, List.map_cons, hown, howns]⟩

/-- Valid entries that fit make up a filter. -/
theorem createFilter_valid (howns : configs.map FilterConfig.ownFilter = owns.map some)
    (hroom : configs.length ≤ kMaxFilters) : createFilter configs = .ok ⟨owns⟩ := by
  have hroom' : ([] : List VarFilter).length + configs.length ≤ kMaxFilters := by simpa using hroom
  have hrun := addConfigs_valid howns hroom' []
  rwa [List.append_nil, List.nil_append] at hrun

/-- The first entry that is not valid is reported, when those before it fit. -/
theorem createFilter_invalid {before after : List FilterConfig}
    (hvalid : ∀ other ∈ before, other.ownFilter ≠ none) (hroom : before.length ≤ kMaxFilters)
    (hown : cfg.ownFilter = none) :
    createFilter (before ++ cfg :: after) = .error (.filterConfigError cfg.complaint) := by
  obtain ⟨owns, howns⟩ := exists_owns hvalid
  rw [createFilter, addConfigs_valid howns (by simpa using hroom), addConfigs_cons,
    addConfig_invalid hown]
  rfl

/-- A valid entry after twenty valid ones is too much. -/
theorem createFilter_full {before after : List FilterConfig}
    (hvalid : ∀ other ∈ before, other.ownFilter ≠ none) (hfull : before.length = kMaxFilters)
    (hown : cfg.ownFilter ≠ none) : createFilter (before ++ cfg :: after) =
      .error (.lengthError "Maximum number of rules 20 exceeded.") := by
  obtain ⟨owns, howns⟩ := exists_owns hvalid
  obtain ⟨own, hown⟩ := Option.ne_none_iff_exists'.mp hown
  have hlength : owns.length = before.length := by
    rw [← List.length_map some, ← howns, List.length_map]
  rw [createFilter, addConfigs_valid howns (by simpa using Nat.le_of_eq hfull), addConfigs_cons,
    addConfig_valid hown, List.nil_append, add_full (by omega)]
  rfl

/-- The matching loop stops at the first filter that matches. -/
theorem matchesAny_iff (filters : List VarFilter) (ip : IPv4Address) :
    CompositeFilter.matchesAny filters ip = true ↔
      ∃ filter ∈ filters, filter.isMatch ip = true := by
  induction filters with
  | nil => simp [CompositeFilter.matchesAny]
  | cons filter filters ih =>
    simp only [CompositeFilter.matchesAny, List.mem_cons, exists_eq_or_imp]
    split_ifs with hmatch
    · exact ⟨fun _ ↦ Or.inl hmatch, fun _ ↦ rfl⟩
    · rw [ih, or_iff_right hmatch]

end Loop

/-! ### The meaning of a configuration -/

section Meaning

/-- A list of entries is valid and fits, or it has a first entry that cannot be added. The
induction counts how many filters still fit. -/
theorem valid_or_first (configs : List FilterConfig) (room : ℕ) :
    (configs.length ≤ room ∧ ∀ cfg ∈ configs, cfg.ownFilter ≠ none) ∨
      ∃ before cfg after, configs = before ++ cfg :: after ∧ before.length ≤ room ∧
        (∀ other ∈ before, other.ownFilter ≠ none) ∧
          (cfg.ownFilter = none ∨ before.length = room) := by
  induction configs generalizing room with
  | nil => exact Or.inl ⟨Nat.zero_le room, fun _ hmem ↦ absurd hmem List.not_mem_nil⟩
  | cons first configs ih =>
    have hfirst (hstop : first.ownFilter = none ∨ 0 = room) :
        ∃ before cfg after, first :: configs = before ++ cfg :: after ∧ before.length ≤ room ∧
          (∀ other ∈ before, other.ownFilter ≠ none) ∧
            (cfg.ownFilter = none ∨ before.length = room) :=
      ⟨[], first, configs, rfl, Nat.zero_le room, fun _ hmem ↦ absurd hmem List.not_mem_nil, hstop⟩
    by_cases hown : first.ownFilter = none
    · exact Or.inr (hfirst (Or.inl hown))
    · cases room with
      | zero => exact Or.inr (hfirst (Or.inr rfl))
      | succ room =>
        rcases ih room with ⟨hroom, hvalid⟩ | ⟨before, cfg, after, rfl, hroom, hvalid, hstop⟩
        · exact Or.inl ⟨Nat.succ_le_succ hroom, List.forall_mem_cons.mpr ⟨hown, hvalid⟩⟩
        · exact Or.inr ⟨first :: before, cfg, after, rfl, Nat.succ_le_succ hroom,
            List.forall_mem_cons.mpr ⟨hown, hvalid⟩, hstop.imp_right (congrArg Nat.succ)⟩

variable {configs : List FilterConfig} {filter : CompositeFilter}

/-- A configuration is accepted exactly when its entries are valid and fit. -/
theorem createFilter_succeeds : (∃ filter, createFilter configs = .ok filter) ↔
    configs.length ≤ kMaxFilters ∧ ∀ cfg ∈ configs, cfg.ownFilter ≠ none := by
  constructor
  · rintro ⟨filter, hcreate⟩
    rcases valid_or_first configs kMaxFilters with hvalid | ⟨before, cfg, after, rfl, hroom, hvalid,
      hstop⟩
    · exact hvalid
    · by_cases hown : cfg.ownFilter = none
      · rw [createFilter_invalid hvalid hroom hown] at hcreate
        cases hcreate
      · rw [createFilter_full hvalid (hstop.resolve_left hown) hown] at hcreate
        cases hcreate
  · rintro ⟨hroom, hvalid⟩
    obtain ⟨owns, howns⟩ := exists_owns hvalid
    exact ⟨_, createFilter_valid howns hroom⟩

/-- The filter matches what the filter of some entry matches. -/
theorem createFilter_isMatch (hcreate : createFilter configs = .ok filter) (ip : IPv4Address) :
    filter.isMatch ip = true ↔
      ∃ cfg ∈ configs, ∃ own, cfg.ownFilter = some own ∧ own.isMatch ip = true := by
  obtain ⟨hroom, hvalid⟩ := createFilter_succeeds.mp ⟨filter, hcreate⟩
  obtain ⟨owns, howns⟩ := exists_owns hvalid
  rw [createFilter_valid howns hroom, Except.ok.injEq] at hcreate
  subst hcreate
  have hmem (own : VarFilter) : own ∈ owns ↔ ∃ cfg ∈ configs, cfg.ownFilter = some own := by
    rw [← List.mem_map, howns, List.mem_map]
    simp
  rw [CompositeFilter.isMatch, matchesAny_iff]
  constructor
  · rintro ⟨own, hown, hmatch⟩
    obtain ⟨cfg, hcfg, hfilter⟩ := (hmem own).mp hown
    exact ⟨cfg, hcfg, own, hfilter, hmatch⟩
  · rintro ⟨cfg, hcfg, own, hfilter, hmatch⟩
    exact ⟨own, (hmem own).mpr ⟨cfg, hcfg, hfilter⟩, hmatch⟩

/-- Entries may be rearranged and duplicated while they fit. -/
theorem createFilter_duplicated (hcreate : createFilter configs = .ok filter)
    {configs' : List FilterConfig} (hmem : ∀ cfg, cfg ∈ configs' ↔ cfg ∈ configs)
    (hroom : configs'.length ≤ kMaxFilters) :
    ∃ filter', createFilter configs' = .ok filter' ∧
      ∀ ip, filter'.isMatch ip = filter.isMatch ip := by
  obtain ⟨-, hvalid⟩ := createFilter_succeeds.mp ⟨filter, hcreate⟩
  obtain ⟨filter', hcreate'⟩ := createFilter_succeeds.mpr
    ⟨hroom, fun cfg hcfg ↦ hvalid cfg ((hmem cfg).mp hcfg)⟩
  refine ⟨filter', hcreate', fun ip ↦ Bool.eq_iff_iff.mpr ?_⟩
  rw [createFilter_isMatch hcreate, createFilter_isMatch hcreate']
  simp only [hmem]

/-- The first entry that cannot be added splits the list. -/
theorem split_at_first {i : ℕ} {cfg : FilterConfig} (hcfg : configs[i]? = some cfg)
    (hvalid : ∀ j cfg', j < i → configs[j]? = some cfg' → cfg'.ownFilter ≠ none) :
    ∃ before after, configs = before ++ cfg :: after ∧ before.length = i ∧
      ∀ other ∈ before, other.ownFilter ≠ none := by
  obtain ⟨hlt, rfl⟩ := List.getElem?_eq_some_iff.mp hcfg
  refine ⟨configs.take i, configs.drop (i + 1), ?_, List.length_take_of_le (Nat.le_of_lt hlt),
    fun other hmem ↦ ?_⟩
  · rw [← List.drop_eq_getElem_cons hlt, List.take_append_drop]
  · obtain ⟨j, hj, rfl⟩ := List.mem_take_iff_getElem.mp hmem
    exact hvalid j _ (Nat.lt_of_lt_of_le hj (Nat.min_le_left ..)) (List.getElem?_eq_getElem _)

/-- What a configuration means. -/
structure Meaning (configs : List FilterConfig) : Prop where
  succeeds : (∃ filter, createFilter configs = .ok filter) ↔
    configs.length ≤ kMaxFilters ∧ ∀ cfg ∈ configs, cfg.ownFilter ≠ none
  isMatch : ∀ filter, createFilter configs = .ok filter → ∀ ip, filter.isMatch ip = true ↔
    ∃ cfg ∈ configs, ∃ own, cfg.ownFilter = some own ∧ own.isMatch ip = true
  permuted : ∀ filter configs', createFilter configs = .ok filter → configs'.Perm configs →
    ∃ filter', createFilter configs' = .ok filter' ∧ ∀ ip, filter'.isMatch ip = filter.isMatch ip
  duplicated : ∀ filter configs', createFilter configs = .ok filter →
    (∀ cfg, cfg ∈ configs' ↔ cfg ∈ configs) → configs'.length ≤ kMaxFilters →
      ∃ filter', createFilter configs' = .ok filter' ∧ ∀ ip, filter'.isMatch ip = filter.isMatch ip
  /-- The first entry that is invalid or too much is at index `i`, and it is invalid. -/
  invalid : ∀ i cfg, configs[i]? = some cfg → i ≤ kMaxFilters →
    (∀ j cfg', j < i → configs[j]? = some cfg' → cfg'.ownFilter ≠ none) → cfg.ownFilter = none →
      createFilter configs = .error (.filterConfigError cfg.complaint)
  /-- The first entry that is invalid or too much is at index `i`, and it is valid. -/
  full : ∀ i cfg, configs[i]? = some cfg → i = kMaxFilters →
    (∀ j cfg', j < i → configs[j]? = some cfg' → cfg'.ownFilter ≠ none) → cfg.ownFilter ≠ none →
      createFilter configs = .error (.lengthError "Maximum number of rules 20 exceeded.")

/-- When `CreateFilter` succeeds, what its filter matches, and which error it reports otherwise. -/
theorem createFilter_meaning (configs : List FilterConfig) : Meaning configs := by
  refine ⟨createFilter_succeeds, fun filter ↦ createFilter_isMatch,
    fun filter configs' hcreate hperm ↦ ?_,
    fun filter configs' hcreate ↦ createFilter_duplicated hcreate,
    fun i cfg hcfg hroom hvalid hown ↦ ?_, fun i cfg hcfg hfull hvalid hown ↦ ?_⟩
  · refine createFilter_duplicated hcreate (fun cfg ↦ hperm.mem_iff) ?_
    rw [hperm.length_eq]
    exact (createFilter_succeeds.mp ⟨filter, hcreate⟩).1
  · obtain ⟨before, after, rfl, hlength, hbefore⟩ := split_at_first hcfg hvalid
    exact createFilter_invalid hbefore (hlength ▸ hroom) hown
  · obtain ⟨before, after, rfl, hlength, hbefore⟩ := split_at_first hcfg hvalid
    exact createFilter_full hbefore (hlength.trans hfull) hown

end Meaning

end StudStuff.NetLog
