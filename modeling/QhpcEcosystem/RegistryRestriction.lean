/-
A deployment profile restricts a registry and nothing else.  The checks of the
registry validator are facts about single entries and about pairs of entries,
so every selection of entries passes them again, and resolution looks at the
entry of a node's capability and version only.
-/
import QhpcEcosystem.DeploymentRegistry

namespace QhpcEcosystem

/-! ## What the registry validator establishes -/

section Consistency

variable {δ ν : Type} {contract : CapabilityContract δ}

/-- The embedded capability passes its contract and has the declared digest. -/
structure RegistryDocumentEntry.Valid (contract : CapabilityContract δ)
    (entry : RegistryDocumentEntry δ ν) : Prop where
  capability : contract.issues entry.capability = []
  digest : entry.descriptorDigest = contract.documentDigest entry.capability

/-- The capability that resolution reads from an entry. -/
def RegistryDocumentEntry.published (contract : CapabilityContract δ)
    (entry : RegistryDocumentEntry δ ν) : Capability :=
  contract.read entry.capability

def Capability.key (capability : Capability) : String :=
  capability.id ++ "@" ++ capability.version

/-- The checks of `_validate_registry` as facts about the entries. -/
structure RegistryDocument.Consistent (contract : CapabilityContract δ)
    (registry : RegistryDocument δ ν) : Prop where
  count : registry.entryCount = registry.entries.length
  entries : ∀ entry ∈ registry.entries, entry.Valid contract
  ownership : ∀ entry ∈ registry.entries, ∀ other ∈ registry.entries,
    (entry.published contract).id = (other.published contract).id →
      (entry.published contract).project = (other.published contract).project
  distinct : (registry.entries.map fun entry => (entry.published contract).key).Nodup
  sorted : (registry.entries.map fun entry => (entry.published contract).key).Pairwise
    fun first second => registryKey first ≤ registryKey second

theorem entryIssues_eq_nil {path : String} {entry : RegistryDocumentEntry δ ν} :
    entryIssues contract path entry = [] ↔ entry.Valid contract := by
  constructor
  · intro h
    simp only [entryIssues, List.append_eq_nil_iff, List.map_eq_nil_iff, ite_eq_left_iff,
      reduceCtorEq, imp_false, not_not] at h
    exact ⟨h.1, h.2⟩
  · intro h
    simp [entryIssues, h.capability, h.digest]

theorem RegistryDocumentEntry.Valid.metadata {entry : RegistryDocumentEntry δ ν}
    (h : entry.Valid contract) : contract.metadata entry.capability =
      ⟨some (entry.published contract).id, some (entry.published contract).version,
        some (entry.published contract).project⟩ :=
  contract.metadata_of_valid _ h.capability

/-- A claim is granted unless another project holds the identifier. -/
theorem claimProject_eq_nil {path capabilityId project : String} {version : Option String}
    {projects : Dict String String} :
    (claimProject path ⟨some capabilityId, version, some project⟩ projects).1 = [] ↔
      ∀ previous, projects.row? capabilityId = some (capabilityId, previous) →
        previous = project := by
  simp only [claimProject]
  cases hrow : projects.row? capabilityId with
  | none => simp
  | some row =>
      have hkey : row.1 = capabilityId := Table.key_of_row? hrow
      obtain ⟨name, holder⟩ := row
      simp only at hkey
      subst hkey
      simp

theorem claimProject_row? {path capabilityId project : String} {version : Option String}
    {projects : Dict String String}
    (h : (claimProject path ⟨some capabilityId, version, some project⟩ projects).1 = [])
    (name : String) :
    (claimProject path ⟨some capabilityId, version, some project⟩ projects).2.row? name =
      if capabilityId = name then some (capabilityId, project) else projects.row? name := by
  rw [claimProject_eq_nil] at h
  simp only [claimProject]
  cases hrow : projects.row? capabilityId with
  | none => rw [Table.row?_set]; rfl
  | some row =>
      have hkey : row.1 = capabilityId := Table.key_of_row? hrow
      obtain ⟨holder, previous⟩ := row
      simp only at hkey
      subst hkey
      have hsame : previous = project := h previous hrow
      by_cases hname : holder = name
      · subst hname hsame
        simp [hrow]
      · simp [hname]

/-- The entries agree with the owners found so far and with each other. -/
structure OwnedEntries (contract : CapabilityContract δ) (projects : Dict String String)
    (entries : List (RegistryDocumentEntry δ ν)) : Prop where
  recorded : ∀ entry ∈ entries, ∀ previous,
    projects.row? (entry.published contract).id =
      some ((entry.published contract).id, previous) →
    previous = (entry.published contract).project
  pairs : ∀ entry ∈ entries, ∀ other ∈ entries,
    (entry.published contract).id = (other.published contract).id →
      (entry.published contract).project = (other.published contract).project

/-- One step of the loop: the first entry claims its identifier, the others are
checked against the owners recorded then. -/
theorem ownedEntries_cons {path : String} {projects : Dict String String}
    {entry : RegistryDocumentEntry δ ν} {rest : List (RegistryDocumentEntry δ ν)}
    (hvalid : entry.Valid contract) :
    let claimed := claimProject path (contract.metadata entry.capability) projects
    (claimed.1 = [] ∧ OwnedEntries contract claimed.2 rest) ↔
      OwnedEntries contract projects (entry :: rest) := by
  simp only [hvalid.metadata]
  constructor
  · rintro ⟨hclaim, hrest⟩
    have hrow := claimProject_row? hclaim
    have hfirst := claimProject_eq_nil.mp hclaim
    have hagree : ∀ other ∈ rest, (entry.published contract).id = (other.published contract).id →
        (entry.published contract).project = (other.published contract).project := by
      intro other hother hid
      refine hrest.recorded other hother _ ?_
      rw [hrow, if_pos hid, hid]
    constructor
    · intro other hother previous hprevious
      rcases List.mem_cons.mp hother with rfl | hother
      · exact hfirst previous hprevious
      · by_cases hid : (entry.published contract).id = (other.published contract).id
        · rw [← hagree other hother hid]
          exact hfirst previous (by rw [hid, hprevious])
        · exact hrest.recorded other hother previous (by rw [hrow, if_neg hid, hprevious])
    · intro other hother another hanother hid
      rcases List.mem_cons.mp hother with hfirst | hlater <;>
        rcases List.mem_cons.mp hanother with hfirst' | hlater'
      · rw [hfirst, hfirst']
      · rw [hfirst] at hid ⊢
        exact hagree another hlater' hid
      · rw [hfirst'] at hid ⊢
        exact (hagree other hlater hid.symm).symm
      · exact hrest.pairs other hlater another hlater' hid
  · intro howned
    have hclaim : (claimProject path ⟨some (entry.published contract).id,
        some (entry.published contract).version, some (entry.published contract).project⟩
        projects).1 = [] :=
      claimProject_eq_nil.mpr (howned.recorded entry List.mem_cons_self)
    refine ⟨hclaim, ?_, ?_⟩
    · intro other hother previous hprevious
      rw [claimProject_row? hclaim] at hprevious
      split at hprevious
      · next hid =>
          simp only [Option.some.injEq, Prod.mk.injEq] at hprevious
          rw [← hprevious.2]
          exact howned.pairs entry List.mem_cons_self other (List.mem_cons_of_mem _ hother) hid
      · exact howned.recorded other (List.mem_cons_of_mem _ hother) previous hprevious
    · intro other hother another hanother
      exact howned.pairs other (List.mem_cons_of_mem _ hother) another
        (List.mem_cons_of_mem _ hanother)

/-- The loop reports nothing exactly when every entry is valid and no identifier
changes its owner. -/
theorem entriesLoop_eq_nil (items : List (RegistryDocumentEntry δ ν × ℕ))
    (projects : Dict String String) :
    (entriesLoop contract items projects).1 = [] ↔
      (∀ entry ∈ items.map Prod.fst, entry.Valid contract) ∧
        OwnedEntries contract projects (items.map Prod.fst) := by
  induction items generalizing projects with
  | nil =>
      simp only [entriesLoop, List.map_nil, true_iff]
      exact ⟨by simp, by simp, by simp⟩
  | cons item rest ih =>
      obtain ⟨entry, index⟩ := item
      simp only [entriesLoop, List.append_eq_nil_iff, entryIssues_eq_nil, ih, List.map_cons,
        List.forall_mem_cons]
      constructor
      · rintro ⟨⟨hvalid, hclaim⟩, hrest, howned⟩
        exact ⟨⟨hvalid, hrest⟩, (ownedEntries_cons hvalid).mp ⟨hclaim, howned⟩⟩
      · rintro ⟨⟨hvalid, hrest⟩, howned⟩
        obtain ⟨hclaim, howned⟩ := (ownedEntries_cons hvalid).mpr howned
        exact ⟨⟨hvalid, hclaim⟩, hrest, howned⟩

/-- Every valid entry contributes its key. -/
theorem entriesLoop_keys (items : List (RegistryDocumentEntry δ ν × ℕ))
    (projects : Dict String String)
    (hvalid : ∀ entry ∈ items.map Prod.fst, entry.Valid contract) :
    (entriesLoop contract items projects).2 =
      (items.map Prod.fst).map fun entry => (entry.published contract).key := by
  induction items generalizing projects with
  | nil => rfl
  | cons item rest ih =>
      obtain ⟨entry, index⟩ := item
      rw [List.map_cons, List.forall_mem_cons] at hvalid
      have hkey : (contract.metadata entry.capability).key? =
          [(entry.published contract).key] := by
        rw [hvalid.1.metadata]
        rfl
      simp only [entriesLoop, hkey, ih _ hvalid.2, List.map_cons, List.singleton_append]

instance registryKeyTotal :
    Std.Total fun first second => registryKey first ≤ registryKey second :=
  ⟨fun first second => le_total (registryKey first) (registryKey second)⟩

instance registryKeyTrans :
    IsTrans String fun first second => registryKey first ≤ registryKey second :=
  ⟨fun _ _ _ hfirst hsecond => le_trans hfirst hsecond⟩

theorem eq_sortedKeys_iff (keys : List String) :
    keys = sortedKeys keys ↔
      keys.Pairwise fun first second => registryKey first ≤ registryKey second := by
  constructor
  · intro h
    rw [h]
    exact List.pairwise_insertionSort _ keys
  · intro h
    exact h.insertionSort_eq.symm

theorem validateRegistry_eq_nil {registry : RegistryDocument δ ν} :
    validateRegistry contract registry = [] ↔ registry.Consistent contract := by
  have hfst : registry.entries.zipIdx.map Prod.fst = registry.entries :=
    List.zipIdx_map_fst 0 registry.entries
  simp only [validateRegistry, List.append_eq_nil_iff, ite_eq_left_iff, reduceCtorEq, imp_false,
    not_not, entriesLoop_eq_nil, hfst]
  constructor
  · rintro ⟨⟨⟨hcount, hvalid, howned⟩, hduplicates⟩, hsorted⟩
    rw [entriesLoop_keys _ _ (by rwa [hfst]), hfst] at hduplicates hsorted
    exact ⟨hcount, hvalid, howned.pairs, nodup_of_duplicateIssues hduplicates,
      (eq_sortedKeys_iff _).mp hsorted⟩
  · intro h
    rw [entriesLoop_keys _ _ (by rw [hfst]; exact h.entries), hfst]
    exact ⟨⟨⟨h.count, h.entries, by simp, h.ownership⟩, duplicateIssues_of_nodup h.distinct⟩,
      (eq_sortedKeys_iff _).mpr h.sorted⟩

theorem validateContractData_ok {kind : String} {schemaIssues semanticIssues : List ContractIssue} :
    validateContractData kind schemaIssues semanticIssues = .ok () ↔
      schemaIssues = [] ∧ semanticIssues = [] := by
  unfold validateContractData
  by_cases hschema : schemaIssues = []
  · simp [hschema]
  · simp [hschema]

theorem validateRegistryContract_ok {schema : RegistrySchema δ ν}
    {registry : RegistryDocument δ ν} :
    validateRegistryContract contract schema registry = .ok () ↔
      registry.Shaped schema.validationShaped ∧ registry.Consistent contract := by
  rw [validateRegistryContract, validateContractData_ok, schema.errors_eq_nil,
    validateRegistry_eq_nil]

end Consistency

/-! ## Selections of entries -/

section Selections

variable {δ ν : Type} {contract : CapabilityContract δ} {registry : RegistryDocument δ ν}
variable (allowed : List String)

theorem RegistryDocument.Consistent.select (h : registry.Consistent contract) :
    (registry.select allowed).Consistent contract := by
  have hsublist := List.filter_sublist (l := registry.entries)
    (p := fun entry => decide (entry.catalogRepository ∈ allowed))
  have hmem : ∀ entry ∈ (registry.select allowed).entries, entry ∈ registry.entries :=
    fun entry hentry => hsublist.subset hentry
  constructor
  · rfl
  · exact fun entry hentry => h.entries entry (hmem entry hentry)
  · exact fun entry hentry other hother =>
      h.ownership entry (hmem entry hentry) other (hmem other hother)
  · exact h.distinct.sublist (hsublist.map _)
  · exact h.sorted.sublist (hsublist.map _)

theorem RegistryDocument.Shaped.select {validationShaped : ν → Bool}
    (h : registry.Shaped validationShaped) (hselected : (registry.select allowed).entries ≠ []) :
    (registry.select allowed).Shaped validationShaped := by
  constructor
  · have hpos := List.length_pos_iff.mpr hselected
    simp only [RegistryDocument.select] at hpos ⊢
    omega
  · exact h.catalogDigest
  · exact hselected
  · intro entry hentry
    exact h.entries entry (List.mem_filter.mp hentry).1

/-- A selection selects all of itself. -/
theorem RegistryDocument.select_select :
    (registry.select allowed).select allowed = registry.select allowed := by
  simp [RegistryDocument.select]

end Selections

/-! ## Resolution in a restricted registry -/

/-- The entries of some repositories. -/
def Registry.select (allowed : List String) (registry : Registry) : Registry :=
  ⟨registry.entries.filter (·.catalogRepository ∈ allowed)⟩

theorem RegistryDocument.view_select {δ ν : Type} (contract : CapabilityContract δ)
    (registry : RegistryDocument δ ν) (allowed : List String) :
    (registry.select allowed).view contract = (registry.view contract).select allowed := by
  simp [RegistryDocument.view, RegistryDocument.select, Registry.select, List.filter_map,
    Function.comp_def]

/-- Where one item at most satisfies `q`, a search among the items with `p` finds
it exactly when the full search does and it has `p`. -/
theorem find?_filter_iff {α : Type*} {p q : α → Bool} {items : List α} {item : α}
    (hunique : ∀ first ∈ items, ∀ second ∈ items, q first → q second → first = second) :
    (items.filter p).find? q = some item ↔ items.find? q = some item ∧ p item := by
  constructor
  · intro h
    obtain ⟨hmem, hp⟩ := List.mem_filter.mp (List.mem_of_find?_eq_some h)
    have hq := List.find?_some h
    exact ⟨find?_eq_some_of_unique hmem hq fun other hother hkey =>
      hunique other hother item hmem hkey hq, hp⟩
  · rintro ⟨h, hp⟩
    have hmem := List.mem_of_find?_eq_some h
    have hq := List.find?_some h
    exact find?_eq_some_of_unique (List.mem_filter.mpr ⟨hmem, hp⟩) hq fun other hother hkey =>
      hunique other (List.mem_filter.mp hother).1 item hmem hkey hq

/-- Resolution reads nothing but the entries that the nodes refer to. -/
theorem resolveNodes_congr {registry registry' : Registry} (nodes : List Node)
    (h : ∀ node ∈ nodes,
      registry.entryAt node.operation.capability node.operation.version =
        registry'.entryAt node.operation.capability node.operation.version)
    (issues : List ContractIssue) (resolved : Dict String ResolvedOperation) :
    resolveNodes registry nodes issues resolved =
      resolveNodes registry' nodes issues resolved := by
  induction nodes generalizing issues resolved with
  | nil => rfl
  | cons node rest ih =>
      rw [List.forall_mem_cons] at h
      have hnode : resolveNode node registry = resolveNode node registry' := by
        simp only [resolveNode, findRegistryEntry_version, h.1]
      simp only [resolveNodes, hnode, ih h.2]

theorem resolveWorkflow_congr {workflow : Workflow} {registry registry' : Registry}
    (h : ∀ node ∈ workflow.nodes,
      registry.entryAt node.operation.capability node.operation.version =
        registry'.entryAt node.operation.capability node.operation.version) :
    resolveWorkflow workflow registry = resolveWorkflow workflow registry' := by
  unfold resolveWorkflow
  rw [resolveNodes_congr workflow.nodes h]

/-- An accepted workflow has an entry for every node. -/
theorem resolveWorkflow_entries {workflow : Workflow} {registry : Registry}
    {resolved : ResolvedWorkflow} (h : resolveWorkflow workflow registry = .ok resolved) :
    ∀ node ∈ workflow.nodes, ∃ entry,
      registry.entryAt node.operation.capability node.operation.version = some entry := by
  obtain ⟨-, hwf, hnodes, -⟩ := resolveWorkflow_ok h
  obtain ⟨-, hresolved, -⟩ := resolveNodes_ok workflow.nodes hwf.nodup hnodes rfl
  intro node hnode
  obtain ⟨operation, -, entry, published, hentry, -⟩ := hresolved node hnode
  exact ⟨entry, hentry⟩

section Restriction

variable {registry : Registry}
  (hkeys : (registry.entries.map fun entry => entry.capability.key).Nodup)
  (allowed : List String)

include hkeys

theorem entryAt_select {capabilityId version : String} {entry : RegistryEntry} :
    (registry.select allowed).entryAt capabilityId version = some entry ↔
      registry.entryAt capabilityId version = some entry ∧
        entry.catalogRepository ∈ allowed := by
  have hunique : ∀ first ∈ registry.entries, ∀ second ∈ registry.entries,
      decide (first.capability.id = capabilityId ∧ first.capability.version = version) = true →
      decide (second.capability.id = capabilityId ∧ second.capability.version = version) = true →
      first = second := by
    intro first hfirst second hsecond hkey hkey'
    rw [decide_eq_true_eq] at hkey hkey'
    refine List.inj_on_of_nodup_map hkeys hfirst hsecond ?_
    rw [Capability.key, Capability.key, hkey.1, hkey.2, hkey'.1, hkey'.2]
  rw [Registry.entryAt, Registry.entryAt, Registry.select, find?_filter_iff hunique,
    decide_eq_true_eq]

/-- Resolution in a restricted registry is resolution in the full one by allowed
entries, with the same result. -/
theorem resolveWorkflow_select (workflow : Workflow) (resolved : ResolvedWorkflow) :
    resolveWorkflow workflow (registry.select allowed) = .ok resolved ↔
      resolveWorkflow workflow registry = .ok resolved ∧
      ∀ node ∈ workflow.nodes, ∃ entry,
        registry.entryAt node.operation.capability node.operation.version =
          some entry ∧ entry.catalogRepository ∈ allowed := by
  constructor
  · intro h
    have hentries : ∀ node ∈ workflow.nodes, ∃ entry,
        (registry.select allowed).entryAt node.operation.capability node.operation.version =
          some entry := resolveWorkflow_entries h
    constructor
    · rw [← h]
      refine (resolveWorkflow_congr fun node hnode => ?_).symm
      obtain ⟨entry, hentry⟩ := hentries node hnode
      rw [hentry, ((entryAt_select hkeys allowed).mp hentry).1]
    · intro node hnode
      obtain ⟨entry, hentry⟩ := hentries node hnode
      exact ⟨entry, (entryAt_select hkeys allowed).mp hentry⟩
  · rintro ⟨h, hallowed⟩
    rw [← h]
    refine resolveWorkflow_congr fun node hnode => ?_
    obtain ⟨entry, hentry⟩ := hallowed node hnode
    rw [hentry.1, (entryAt_select hkeys allowed).mpr hentry]

end Restriction

/-! ## The registry of a deployment -/

section Deployments

variable {δ ν μ κ : Type} {contract : CapabilityContract δ} {schema : RegistrySchema δ ν}
variable {profileErrors : DeploymentProfile μ κ → List ContractIssue}
variable {registry : RegistryDocument δ ν} {profile : DeploymentProfile μ κ}

theorem RegistryDocument.Consistent.nodup_view (h : registry.Consistent contract) :
    ((registry.view contract).entries.map fun entry => entry.capability.key).Nodup := by
  have hmap : ((registry.view contract).entries.map fun entry => entry.capability.key) =
      registry.entries.map fun entry => (entry.published contract).key := by
    simp [RegistryDocument.view, RegistryDocumentEntry.published, Function.comp_def]
  rw [hmap]
  exact h.distinct

theorem DeploymentProfile.mem_allowlist {slug : String} :
    slug ∈ profile.allowlist ↔ ∃ component ∈ profile.components,
      component.onboardingStatus ≠ .blocked ∧ component.catalogRepository = some slug := by
  simp [DeploymentProfile.allowlist, and_assoc]

/-- A registry and a profile that pass their contracts give the selection. -/
theorem registryForDeployment_eq
    (hregistry : validateRegistryContract contract schema registry = .ok ())
    (hprofile : validateProfileContract profileErrors profile = .ok ())
    (hselected : (registry.select profile.allowlist).entries ≠ []) :
    validateRegistryContract contract schema (registry.select profile.allowlist) = .ok () ∧
    registryForDeployment contract schema profileErrors registry profile =
      .ok (registry.select profile.allowlist) := by
  obtain ⟨hshaped, hconsistent⟩ := validateRegistryContract_ok.mp hregistry
  have hvalid : validateRegistryContract contract schema
      (registry.select profile.allowlist) = .ok () :=
    validateRegistryContract_ok.mpr
      ⟨hshaped.select _ hselected, hconsistent.select _⟩
  refine ⟨hvalid, ?_⟩
  simp only [registryForDeployment, hregistry, deploymentCatalogRepositories, hprofile, hselected,
    hvalid, bind, Except.bind, pure, Except.pure, if_false]

/-- Restricting a registry to a profile that selects something gives a valid
registry with the selected entries in their order; restricting it again changes
nothing, and a workflow resolves in it exactly when it resolves in the full
registry by entries that the profile allows, with the same result. -/
theorem registryForDeployment_restricts (contract : CapabilityContract δ)
    (schema : RegistrySchema δ ν) (profileErrors : DeploymentProfile μ κ → List ContractIssue)
    (registry : RegistryDocument δ ν) (profile : DeploymentProfile μ κ)
    (hregistry : validateRegistryContract contract schema registry = .ok ())
    (hprofile : validateProfileContract profileErrors profile = .ok ())
    (hselected : ∃ entry ∈ registry.entries, entry.catalogRepository ∈ profile.allowlist) :
    ∃ filtered,
      registryForDeployment contract schema profileErrors registry profile = .ok filtered ∧
      validateRegistryContract contract schema filtered = .ok () ∧
      filtered.catalogDigest = registry.catalogDigest ∧
      filtered.entries =
        registry.entries.filter (·.catalogRepository ∈ profile.allowlist) ∧
      registryForDeployment contract schema profileErrors filtered profile = .ok filtered ∧
      ∀ (workflow : Workflow) (resolved : ResolvedWorkflow),
        resolveWorkflow workflow (filtered.view contract) = .ok resolved ↔
          resolveWorkflow workflow (registry.view contract) = .ok resolved ∧
          ∀ node ∈ workflow.nodes, ∃ entry,
            (registry.view contract).entryAt node.operation.capability
              node.operation.version = some entry ∧
            ∃ component ∈ profile.components, component.onboardingStatus ≠ .blocked ∧
              component.catalogRepository = some entry.catalogRepository := by
  have hnonempty : (registry.select profile.allowlist).entries ≠ [] := by
    obtain ⟨entry, hentry, hallowed⟩ := hselected
    exact List.ne_nil_of_mem (List.mem_filter.mpr ⟨hentry, decide_eq_true hallowed⟩)
  obtain ⟨hvalid, hfiltered⟩ := registryForDeployment_eq hregistry hprofile hnonempty
  have hkeys := (validateRegistryContract_ok.mp hregistry).2.nodup_view
  refine ⟨registry.select profile.allowlist, hfiltered, hvalid, rfl, rfl, ?_, ?_⟩
  · -- the second selection starts from a valid registry and selects all of it
    have hagain : ((registry.select profile.allowlist).select profile.allowlist).entries ≠ [] := by
      rwa [RegistryDocument.select_select]
    have hsecond := (registryForDeployment_eq hvalid hprofile hagain).2
    rwa [RegistryDocument.select_select] at hsecond
  · intro workflow resolved
    rw [RegistryDocument.view_select, resolveWorkflow_select hkeys]
    simp only [DeploymentProfile.mem_allowlist]

end Deployments

/-! ### Two published services -/

/-- Two capability documents that publish no operation. -/
inductive SampleCapability where
  | qappswiki
  | chatqec
deriving DecidableEq, Repr

def SampleCapability.capability : SampleCapability → Capability
  | .qappswiki =>
      { id := "qappswiki-tooling", version := "0.1.0", project := "cross-project" }
  | .chatqec =>
      { id := "chatqec-assistant-service", version := "0.1.0", project := "agentic-software" }

/-- Both documents pass their contract. -/
def sampleCapabilityContract : CapabilityContract SampleCapability where
  issues _ := []
  documentDigest
    | .qappswiki => "sha256:29f5f0f4d92e7d0d912001d9c12f63d98c6c043e85f3e97c12dc0c735869641c"
    | .chatqec => "sha256:6a2402c79c105bae284a637ac180d6d4f308a00fca3cb1b3a85c0ea8f2744c70"
  metadata document := ⟨some document.capability.id, some document.capability.version,
    some document.capability.project⟩
  read := SampleCapability.capability
  metadata_of_valid _ _ := rfl

def sampleRegistryEntry (slug : String) (document : SampleCapability) :
    RegistryDocumentEntry SampleCapability Unit :=
  ⟨sampleCapabilityContract.documentDigest document, slug, (), document⟩

def sampleRegistryDocument : RegistryDocument SampleCapability Unit where
  entryCount := 2
  catalogDigest := "sha256:be1d8377cb7766fe8ecb61bc20d86ac616881a479167828f230d5fb2363037cc"
  entries := [sampleRegistryEntry "chatqec" .chatqec, sampleRegistryEntry "QAppsWiki" .qappswiki]

/-- A schema validator with one text for every violation. -/
def sampleRegistrySchema : RegistrySchema SampleCapability Unit where
  validationShaped _ := true
  errors registry :=
    if registry.Shaped (fun _ => true) then [] else [⟨"/", "does not fit the schema"⟩]
  errors_eq_nil registry := by simp

/-- A profile with the second service blocked. -/
def sampleDeployment : DeploymentProfile Unit Unit where
  description := ()
  components := [
    { id := "chatqec", onboardingStatus := .registryPublished,
      integrationScaffold := "integrations/chatqec/integration.yaml",
      catalogRepository := some "chatqec", description := () },
    { id := "qappswiki", onboardingStatus := .blocked,
      integrationScaffold := "integrations/qappswiki/integration.yaml",
      catalogRepository := some "QAppsWiki", description := () }]

theorem registryForDeployment_restricts_sample :
    ∃ filtered,
      registryForDeployment sampleCapabilityContract sampleRegistrySchema (fun _ => [])
        sampleRegistryDocument sampleDeployment = .ok filtered ∧
      filtered.entries = [sampleRegistryEntry "chatqec" .chatqec] := by
  obtain ⟨filtered, hfiltered, -, -, hentries, -⟩ :=
    registryForDeployment_restricts sampleCapabilityContract sampleRegistrySchema (fun _ => [])
      sampleRegistryDocument sampleDeployment (by decide) (by decide) (by decide)
  exact ⟨filtered, hfiltered, by rw [hentries]; decide⟩

end QhpcEcosystem
