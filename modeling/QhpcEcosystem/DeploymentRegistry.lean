/-
The registry document and its restriction to a deployment.  The validator of the
registry looks at the counts, at every embedded capability and its digest, at
the ownership of the identifiers and at the order of the entries; the
restriction keeps the entries of the repositories that the profile allows and
validates the result again.
-/
import QhpcEcosystem.RegistryAdmission
import QhpcEcosystem.SemanticVersions
import QhpcEcosystem.TextLines

namespace QhpcEcosystem

/-! ## The registry document -/

/-- The members of `capability.get("metadata", {})` that the validator of the
registry reads; a member that is no text counts as absent. -/
structure CapabilityMetadata where
  id : Option String := none
  version : Option String := none
  project : Option String := none
deriving DecidableEq, Repr

/-- What is done to one embedded capability document: its own contract, its
digest, and the two ways of reading it.  A document that passes its contract
carries the three texts of its metadata. -/
structure CapabilityContract (δ : Type) where
  issues : δ → List ContractIssue
  documentDigest : δ → String
  metadata : δ → CapabilityMetadata
  read : δ → Capability
  metadata_of_valid : ∀ document, issues document = [] →
    metadata document = ⟨some (read document).id, some (read document).version,
      some (read document).project⟩

/-- One entry of `spec.entries`; `validation` is carried along. -/
structure RegistryDocumentEntry (δ ν : Type) where
  descriptorDigest : String
  catalogRepository : String
  validation : ν
  capability : δ
deriving DecidableEq

structure RegistryDocument (δ ν : Type) where
  entryCount : Int
  catalogDigest : String
  entries : List (RegistryDocumentEntry δ ν)
deriving DecidableEq

/-- `^sha256:[0-9a-f]{64}$`; the dollar also matches before a final newline. -/
def isDigestText (text : String) : Bool :=
  let chars := text.toList
  let hex := (chars.drop 7).take 64
  chars.take 7 = "sha256:".toList && hex.length = 64 &&
    hex.all (fun c => ('0' ≤ c && c ≤ '9') || ('a' ≤ c && c ≤ 'f')) &&
    (chars.drop 71 = [] || chars.drop 71 = ['\n'])

section RegistryDocuments

variable {δ ν : Type}

/-- The schema of a registry, given the schema of the `validation` member. -/
structure RegistryDocument.Shaped (validationShaped : ν → Bool)
    (registry : RegistryDocument δ ν) : Prop where
  entryCount : 1 ≤ registry.entryCount
  catalogDigest : isDigestText registry.catalogDigest
  nonempty : registry.entries ≠ []
  entries : ∀ entry ∈ registry.entries, isDigestText entry.descriptorDigest ∧
    entry.catalogRepository ≠ "" ∧ validationShaped entry.validation

instance RegistryDocument.decidableShaped (validationShaped : ν → Bool)
    (registry : RegistryDocument δ ν) : Decidable (registry.Shaped validationShaped) :=
  decidable_of_iff
    (1 ≤ registry.entryCount ∧ isDigestText registry.catalogDigest ∧
      registry.entries.isEmpty = false ∧
      ∀ entry ∈ registry.entries, isDigestText entry.descriptorDigest ∧
        entry.catalogRepository ≠ "" ∧ validationShaped entry.validation)
    ⟨fun ⟨hcount, hdigest, hnonempty, hentries⟩ =>
        ⟨hcount, hdigest, List.isEmpty_eq_false_iff.mp hnonempty, hentries⟩,
      fun h => ⟨h.entryCount, h.catalogDigest, List.isEmpty_eq_false_iff.mpr h.nonempty,
        h.entries⟩⟩

/-- The schema validator on registries: it finds an error exactly where the
schema is violated. -/
structure RegistrySchema (δ ν : Type) where
  validationShaped : ν → Bool
  errors : RegistryDocument δ ν → List ContractIssue
  errors_eq_nil : ∀ registry, errors registry = [] ↔ registry.Shaped validationShaped

/-- `Registry` as resolution reads it. -/
def RegistryDocument.view (contract : CapabilityContract δ) (registry : RegistryDocument δ ν) :
    Registry :=
  ⟨registry.entries.map fun entry => ⟨entry.catalogRepository, contract.read entry.capability⟩⟩

/-! ## The order of the entries -/

/-- `(capability_id, major, minor, patch, final, prerelease)`, as tuples compare. -/
abbrev RegistryKey := String ×ₗ ℕ ×ₗ ℕ ×ₗ ℕ ×ₗ ℕ ×ₗ String

/-- `int` on a text of decimal digits between white space, which it strips, and nothing where
it raises.  The contract of a capability admits no other text here: digits, and a newline
behind the last ones. -/
def decimal? (text : List Char) : Option ℕ :=
  let digits := trimmed Char.isWhitespace text
  if digits ≠ [] ∧ digits.all Char.isDigit then (intOfDigits digits).toOption else none

/-- `_registry_key`. -/
def registryKey (value : String) : RegistryKey :=
  let reversed := value.toList.reverse
  -- `value.rsplit("@", 1)`
  let version := (reversed.takeWhile (· ≠ '@')).reverse
  let capabilityId := String.ofList ((reversed.dropWhile (· ≠ '@')).drop 1).reverse
  let core := version.takeWhile (· ≠ '+')
  let numeric := core.takeWhile (· ≠ '-')
  let separated := core.dropWhile (· ≠ '-')
  let unreadable := toLex (capabilityId, toLex (0, toLex (0, toLex (0, toLex (0,
    String.ofList version)))))
  match numeric.splitOn '.' with
  | [first, second, third] =>
      match decimal? first, decimal? second, decimal? third with
      | some major, some minor, some patch =>
          toLex (capabilityId, toLex (major, toLex (minor, toLex (patch,
            toLex (if separated = [] then 1 else 0, String.ofList (separated.drop 1))))))
      | _, _, _ => unreadable
  | _ => unreadable

example : registryKey "quantum.sim@1.20.3" =
    toLex ("quantum.sim", toLex (1, toLex (20, toLex (3, toLex (1, ""))))) := by decide

example : registryKey "quantum.sim@1.20.3-rc.1+build-7" =
    toLex ("quantum.sim", toLex (1, toLex (20, toLex (3, toLex (0, "rc.1"))))) := by decide

/-- `sorted(keys, key=_registry_key)`. -/
def sortedKeys (keys : List String) : List String :=
  keys.insertionSort fun first second => registryKey first ≤ registryKey second

/-! ## `_validate_registry` -/

variable (contract : CapabilityContract δ)

/-- The issues of one entry, apart from the ownership of its identifier. -/
def entryIssues (path : String) (entry : RegistryDocumentEntry δ ν) : List ContractIssue :=
  (contract.issues entry.capability).map (fun issue =>
    ⟨path ++ "/capability" ++ (if issue.path = "/" then "" else issue.path), issue.message⟩) ++
  if entry.descriptorDigest = contract.documentDigest entry.capability then []
  else [⟨path ++ "/descriptor_digest", "does not match the embedded capability"⟩]

/-- `f"{capability_id}@{version}"`, where both are texts. -/
def CapabilityMetadata.key? (metadata : CapabilityMetadata) : List String :=
  match metadata.id, metadata.version with
  | some capabilityId, some version => [capabilityId ++ "@" ++ version]
  | _, _ => []

/-- `projects_by_id.setdefault` and the comparison with the project it returns. -/
def claimProject (path : String) (metadata : CapabilityMetadata) (projects : Dict String String) :
    List ContractIssue × Dict String String :=
  match metadata.id, metadata.project with
  | some capabilityId, some project =>
      match projects.row? capabilityId with
      | none => ([], projects.set (capabilityId, project))
      | some (_, previous) =>
          (if previous = project then []
            else [⟨path ++ "/capability/metadata/project", "capability " ++ capabilityId ++
              " changes ownership from " ++ previous ++ " to " ++ project⟩], projects)
  | _, _ => ([], projects)

/-- The loop over the entries: the issues and the keys it collects. -/
def entriesLoop : List (RegistryDocumentEntry δ ν × ℕ) → Dict String String →
    List ContractIssue × List String
  | [], _ => ([], [])
  | (entry, index) :: rest, projects =>
      let path := "/spec/entries/" ++ toString index
      let metadata := contract.metadata entry.capability
      let claimed := claimProject path metadata projects
      let others := entriesLoop rest claimed.2
      (entryIssues contract path entry ++ claimed.1 ++ others.1, metadata.key? ++ others.2)

/-- `_validate_registry`. -/
def validateRegistry (registry : RegistryDocument δ ν) : List ContractIssue :=
  let (issues, keys) := entriesLoop contract registry.entries.zipIdx Table.empty
  (if registry.entryCount = registry.entries.length then []
    else [⟨"/metadata/entry_count", "must equal the number of registry entries"⟩]) ++
  issues ++ duplicateIssues keys "/spec/entries" "capability versions" ++
  if keys = sortedKeys keys then []
  else [⟨"/spec/entries", "entries must be sorted by capability ID and version"⟩]

/-- `validate_contract_data`: the semantic checks run on a document that fits its
schema. -/
def validateContractData (kind : String) (schemaIssues semanticIssues : List ContractIssue) :
    Except Exn Unit :=
  let issues := if schemaIssues = [] then semanticIssues else schemaIssues
  if issues = [] then .ok () else .error (contractError ("invalid " ++ kind ++ " contract") issues)

/-- `validate_contract_data("registry", registry)`. -/
def validateRegistryContract (schema : RegistrySchema δ ν) (registry : RegistryDocument δ ν) :
    Except Exn Unit :=
  validateContractData "registry" (schema.errors registry) (validateRegistry contract registry)

end RegistryDocuments

/-! ## The deployment profile -/

inductive OnboardingStatus where
  | registryPublished
  | cataloged
  | onboarding
  | blocked
deriving DecidableEq, Repr

/-- One component of a profile; `description` stands for the members that only
the schema looks at. -/
structure DeploymentComponent (κ : Type) where
  id : String
  onboardingStatus : OnboardingStatus
  integrationScaffold : String
  catalogRepository : Option String := none
  description : κ
deriving DecidableEq, Repr

/-- A profile; `description` stands for its metadata. -/
structure DeploymentProfile (μ κ : Type) where
  description : μ
  components : List (DeploymentComponent κ)
deriving DecidableEq, Repr

section Deployments

variable {δ ν μ κ : Type}

/-- `_validate_deployment_profile`. -/
def validateDeploymentProfile (profile : DeploymentProfile μ κ) : List ContractIssue :=
  duplicateIssues (profile.components.map (·.id)) "/spec/components" "component IDs" ++
  duplicateIssues (profile.components.filterMap (·.catalogRepository))
    "/spec/components" "catalog repositories" ++
  duplicateIssues (profile.components.map (·.integrationScaffold))
    "/spec/components" "integration scaffold paths"

/-- The non-blocked repositories; nothing depends on the order of the set. -/
def DeploymentProfile.allowlist (profile : DeploymentProfile μ κ) : List String :=
  (profile.components.filter (·.onboardingStatus ≠ .blocked)).filterMap (·.catalogRepository)

variable (contract : CapabilityContract δ) (schema : RegistrySchema δ ν)
variable (profileErrors : DeploymentProfile μ κ → List ContractIssue)

/-- `validate_contract_data("deployment-profile", profile)`. -/
def validateProfileContract (profile : DeploymentProfile μ κ) : Except Exn Unit :=
  validateContractData "deployment-profile" (profileErrors profile)
    (validateDeploymentProfile profile)

/-- `deployment_catalog_repositories`. -/
def deploymentCatalogRepositories (profile : DeploymentProfile μ κ) :
    Except Exn (List String) := do
  validateProfileContract profileErrors profile
  pure profile.allowlist

/-- The entries of some repositories, in their order, and their number. -/
def RegistryDocument.select (allowed : List String) (registry : RegistryDocument δ ν) :
    RegistryDocument δ ν :=
  let selected := registry.entries.filter (·.catalogRepository ∈ allowed)
  { registry with entryCount := selected.length, entries := selected }

/-- `registry_for_deployment`. -/
def registryForDeployment (registry : RegistryDocument δ ν) (profile : DeploymentProfile μ κ) :
    Except Exn (RegistryDocument δ ν) := do
  validateRegistryContract contract schema registry
  let allowed ← deploymentCatalogRepositories profileErrors profile
  let filtered := registry.select allowed
  if filtered.entries = [] then
    throw ⟨.other "DeploymentError",
      "deployment profile selects no published registry capabilities", []⟩
  validateRegistryContract contract schema filtered
  pure filtered

end Deployments

end QhpcEcosystem
