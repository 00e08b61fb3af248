/-
The builder of the registry.  It finds the descriptors below the given sources, checks each
of them against its contract and against the catalog, and sorts the entries by identifier
and version; the document is validated before it is returned.
-/
import QhpcEcosystem.RegistryRestriction
import QhpcEcosystem.WorkflowDrafts

namespace QhpcEcosystem

/-! ## Versions -/

def endsInNewline (text : String) : Bool := text.toList.getLast? = some '\n'

/-- The text in front of a final newline. -/
def withoutNewline (text : String) : List Char :=
  if endsInNewline text then text.toList.dropLast else text.toList

/-- The pattern of a version in the schema; its dollar also matches before a final newline. -/
def AdmittedVersion (text : String) : Prop :=
  (SemanticVersion.parse? (withoutNewline text)).isSome

instance (text : String) : Decidable (AdmittedVersion text) :=
  inferInstanceAs (Decidable ((SemanticVersion.parse? (withoutNewline text)).isSome = true))

/-! ## Descriptors and the catalog -/

inductive CapabilityVisibility where
  | publicCapability
  | internalCapability
  | controlled
deriving DecidableEq, Repr

inductive IntegrationAuthority where
  | project
  | ecosystem
deriving DecidableEq, Repr

inductive RuntimeStatus where
  | notApplicable
  | declared
  | verified
deriving DecidableEq, Repr

inductive ValidationStatus where
  | discovered
  | contractValid
  | smokeTested
  | integrationTested
  | productionApproved
deriving DecidableEq, Repr

/-- `metadata.integration` -/
structure CapabilityIntegration where
  authority : IntegrationAuthority
  maintainers : List String
  projectReviewed : Bool
  runtimeStatus : RuntimeStatus
  validationStatus : ValidationStatus
  evidence : Option (List String) := none
deriving DecidableEq, Repr

/-- What the builder reads from a capability besides its identifier, version and project. -/
structure CapabilityDescriptor where
  url : String
  canonicalUrl : Option String := none
  revision : String
  integration : CapabilityIntegration
  visibility : CapabilityVisibility
  qappswiki : Option String := none
deriving DecidableEq, Repr

/-- The contract of a capability as the builder relies on it. -/
structure CapabilitySchema (δ : Type) extends CapabilityContract δ where
  descriptor : δ → CapabilityDescriptor
  version_of_valid : ∀ document, issues document = [] → AdmittedVersion (read document).version
  digest_of_document : ∀ document, isDigestText (documentDigest document) = true

inductive CanonicalStatus where
  | canonical
  | ambiguous
  | unresolved
deriving DecidableEq, Repr

def CanonicalStatus.text : CanonicalStatus → String
  | .canonical => "canonical"
  | .ambiguous => "ambiguous"
  | .unresolved => "unresolved"

inductive RepositoryVisibility where
  | publicRepository
  | internalRepository
  | unknown
deriving DecidableEq, Repr

/-- `Repository`, as far as the builder reads it. -/
structure CatalogRepository where
  slug : String
  sourceUrl : Option String
  alternateSources : List String := []
  qscProject : String
  visibility : RepositoryVisibility
  canonicalStatus : CanonicalStatus
deriving DecidableEq, Repr

/-- The repositories of the catalog and the digest of its file. -/
structure Catalog where
  repositories : List CatalogRepository
  digest : String
  digest_text : isDigestText digest = true

/-- `_repository_url` -/
def repositoryUrl (value : String) : String :=
  let normalized := ((stripped value).toList.reverse.dropWhile (· = '/')).reverse
  if (".git".toList).isSuffixOf normalized then
    String.ofList (normalized.take (normalized.length - 4))
  else String.ofList normalized

/-- `CATALOG_PROJECT_ALIASES.get(project, project)` -/
def catalogProject (project : String) : String :=
  if project = "data-science" then "data-schema"
  else if project = "hardware-tools" then "hybrid-workflows"
  else project

/-- `PINNED_REVISION.fullmatch` -/
def isPinnedRevision (revision : String) : Bool :=
  let text := revision.toList
  let hexadecimal (c : Char) : Bool :=
    c.isDigit || ('a' ≤ c && c ≤ 'f') || ('A' ≤ c && c ≤ 'F')
  (40 ≤ text.length && text.length ≤ 64 && text.all hexadecimal) ||
    (SemanticVersion.parse? text).isSome ||
    (text.head? = some 'v' && (SemanticVersion.parse? (text.drop 1)).isSome)

section Ownership

variable {δ : Type} (schema : CapabilitySchema δ) (catalog : Catalog)

def sourceUrl (document : δ) : String := repositoryUrl (schema.descriptor document).url

def canonicalUrl (document : δ) : String :=
  repositoryUrl ((schema.descriptor document).canonicalUrl.getD (sourceUrl schema document))

/-- The repositories whose source is the canonical URL. -/
def catalogMatches (document : δ) : List CatalogRepository :=
  catalog.repositories.filter fun repository =>
    match repository.sourceUrl with
    | some url => url ≠ "" ∧ repositoryUrl url = canonicalUrl schema document
    | none => False

/-- The checks of a capability against its repository. -/
def ownershipIssues (document : δ) (repository : CatalogRepository) : List ContractIssue :=
  let descriptor := schema.descriptor document
  let admittedSources := ((repository.sourceUrl.toList ++ repository.alternateSources).filter
    (· ≠ "")).map repositoryUrl
  let expectedProject := catalogProject repository.qscProject
  (if sourceUrl schema document ∈ admittedSources then []
    else [⟨"/metadata/repository/url", "release source must match the canonical repository or an " ++
      "admitted alternate source"⟩]) ++
  (if (schema.read document).project = expectedProject then []
    else [⟨"/metadata/project", "must be " ++ expectedProject ++ " for catalog repository " ++
      repository.slug⟩]) ++
  (if repository.canonicalStatus = .canonical then []
    else [⟨"/metadata/repository/url", "catalog repository " ++ repository.slug ++ " is " ++
      repository.canonicalStatus.text⟩]) ++
  (if repository.visibility = .unknown then
    [⟨"/metadata/visibility", "catalog visibility is unresolved for " ++ repository.slug⟩]
    else []) ++
  (if repository.visibility = .internalRepository ∧ descriptor.visibility = .publicCapability then
    [⟨"/metadata/visibility", "an internal repository cannot publish a public capability"⟩]
    else []) ++
  (if isPinnedRevision descriptor.revision then []
    else [⟨"/metadata/repository/revision",
      "must be a full commit hash or semantic release tag"⟩]) ++
  if descriptor.qappswiki.getD "" ≠ "" then []
  else [⟨"/spec/documentation/qappswiki", "is required for registry publication"⟩]

/-- The repository of a capability, or the issues that keep it from publication. -/
def ownerOf (document : δ) : Except (List ContractIssue) CatalogRepository :=
  match catalogMatches schema catalog document with
  | [] => .error [⟨"/metadata/repository/url", "does not match a repository in ecosystem.yaml"⟩]
  | [repository] =>
      if ownershipIssues schema document repository = [] then .ok repository
      else .error (ownershipIssues schema document repository)
  | _ => .error [⟨"/metadata/repository/url",
      "matches more than one repository in ecosystem.yaml"⟩]

/-- `_catalog_repository` -/
def catalogRepository (document : δ) (descriptorPath : String) : Except Exn CatalogRepository :=
  match ownerOf schema catalog document with
  | .ok repository => .ok repository
  | .error issues =>
      .error (registryError ("registry ownership failed for " ++ descriptorPath) issues)

end Ownership

/-! ## Discovery -/

/-- The file system as the builder sees it: `resolve` is `expanduser().resolve()`, `rglob`
gives the files below a directory that match `*.y*ml`, relative to it, and `loadDocument` is
`load_document`. -/
structure SourceTree (δ : Type) where
  resolve : String → String
  isFile : String → Bool
  isDir : String → Bool
  rglob : String → List String
  loadDocument : String → Except Exn δ

def discoveryFilenames : List String := ["qhpc-capability.yaml", "qhpc-capability.yml"]

def nestedDiscoveryFilenames : List String := ["capability.yaml", "capability.yml"]

def ignoredDirectoryNames : List String :=
  [".git", ".mypy_cache", ".pytest_cache", ".ruff_cache", ".tox", ".venv", "__pycache__", "build",
    "dist", "node_modules"]

/-- `Path(text).parts`, without the root. -/
def pathNames (path : String) : List String :=
  ((path.toList.splitOn '/').filter (· ≠ [])).map String.ofList

/-- `_is_discovery_file` -/
def isDiscoveryFile (path : String) : Bool :=
  match (pathNames path).reverse with
  | [] => false
  | [name] => name ∈ discoveryFilenames
  | name :: parent :: _ =>
      name ∈ discoveryFilenames || (parent = ".qhpc" && name ∈ nestedDiscoveryFilenames)

section Building

variable {δ : Type} (tree : SourceTree δ)

/-- The descriptors of one source. -/
def discoverSource (value : String) : Except Exn (List String) :=
  let source := tree.resolve value
  if tree.isFile source then .ok [source]
  else if tree.isDir source then
    .ok (((tree.rglob source).filter fun relative =>
      !(pathNames relative).any (· ∈ ignoredDirectoryNames) &&
        isDiscoveryFile (source ++ "/" ++ relative)).map fun relative =>
      tree.resolve (source ++ "/" ++ relative))
  else .error (registryError ("capability source not found: " ++ source) [])

/-- `discover_capability_files`; the set of paths is sorted by their texts. -/
def discoverCapabilityFiles (sources : List String) : Except Exn (List String) := do
  let discovered ← sources.mapM (discoverSource tree)
  if discovered.flatten = [] then
    throw (registryError ("no capability descriptors found; use qhpc-capability.yaml or " ++
      ".qhpc/capability.yaml") [])
  pure (discovered.flatten.dedup.insertionSort (· ≤ ·))

/-! ## The builder -/

/-- The `validation` member of an entry. -/
structure EntryValidation where
  contract : String := "valid"
  attribution : String := "valid"
  authority : IntegrationAuthority
  curatedBy : List String
  projectReviewed : Bool
  runtime : RuntimeStatus
  documentation : String := "linked"
  status : ValidationStatus
  evidence : List String
deriving DecidableEq, Repr

def entryValidation (integration : CapabilityIntegration) : EntryValidation where
  authority := integration.authority
  curatedBy := integration.maintainers
  projectReviewed := integration.projectReviewed
  runtime := integration.runtimeStatus
  status := integration.validationStatus
  evidence := integration.evidence.getD []

variable (schema : CapabilitySchema δ) (registrySchema : RegistrySchema δ EntryValidation)
variable (catalog : Catalog)

/-- The entry of a capability in a repository. -/
def publishedEntry (repository : CatalogRepository) (document : δ) :
    RegistryDocumentEntry δ EntryValidation :=
  ⟨schema.documentDigest document, repository.slug,
    entryValidation (schema.descriptor document).integration, document⟩

/-- The body of the loop over the descriptors. -/
def buildEntry (descriptorPath : String) :
    Except Exn (RegistryDocumentEntry δ EntryValidation) := do
  let document ← tree.loadDocument descriptorPath
  if schema.issues document ≠ [] then
    throw (registryError ("invalid capability descriptor: " ++ descriptorPath)
      (schema.issues document))
  let repository ← catalogRepository schema catalog document descriptorPath
  pure (publishedEntry schema repository document)

/-- The key of `entries.sort`. -/
def entryKey {ν : Type} (contract : CapabilityContract δ) (entry : RegistryDocumentEntry δ ν) :
    Except Exn RegistryKey :=
  (versionKey (entry.published contract).version).map fun key =>
    toLex ((entry.published contract).id, key)

def sortEntries {ν : Type} (contract : CapabilityContract δ)
    (entries : List (RegistryDocumentEntry δ ν)) : Except Exn (List (RegistryDocumentEntry δ ν)) :=
  sortByKeyOf (entryKey contract) entries

/-- The document of some entries. -/
def registryOf (entries : List (RegistryDocumentEntry δ EntryValidation)) :
    Except Exn (RegistryDocument δ EntryValidation) := do
  let sorted ← sortEntries schema.toCapabilityContract entries
  pure ⟨entries.length, catalog.digest, sorted⟩

/-- `build_registry` -/
def buildRegistry (sources : List String) : Except Exn (RegistryDocument δ EntryValidation) := do
  let files ← discoverCapabilityFiles tree sources
  let entries ← files.mapM (buildEntry tree schema catalog)
  let registry ← registryOf schema catalog entries
  match validateRegistryContract schema.toCapabilityContract registrySchema registry with
  | .ok () => pure registry
  | .error exn => throw (registryError "generated registry is invalid" exn.issues)

end Building

/-! ### Releases of one capability -/

/-- Documents of one capability, which publishes a dataset and no operation. -/
inductive SampleRelease where
  | buildA
  | buildB
  | finalNewline
  | older
  | secondCandidate
  | tenthCandidate
deriving DecidableEq, Repr

def SampleRelease.version : SampleRelease → String
  | .buildA => "1.0.0+a"
  | .buildB => "1.0.0+b"
  | .finalNewline => "1.0.0\n"
  | .older => "0.5.0"
  | .secondCandidate => "1.0.0-rc.2"
  | .tenthCandidate => "1.0.0-rc.10"

def SampleRelease.digest : SampleRelease → String
  | .buildA => "sha256:c00ba549ba0fea3696e03bc000a60c2052eb28688dc732f9e0ff350ee6ab1551"
  | .buildB => "sha256:28ae27fdd7ee6942ccacc7416871b9c3adee649225d4b0fb334fdec389a89f18"
  | .finalNewline => "sha256:d2e3b018637d50019c17a2f255ff31c5372a80846606db7eac6cd7386a11d20d"
  | .older => "sha256:57111829ee5d6d33eedbbf8b3f6d027c00e91ae846f4ad30529ff51b84ca03c2"
  | .secondCandidate =>
      "sha256:87e588754609919a61b44100121a6cf005ab45a08a7f883ca1d0d292bedffcc5"
  | .tenthCandidate =>
      "sha256:47fabee6797bb84db44c9e4c50e4d5174d9fe06cb7fd3238d9022edba83f7a35"

/-- All of them pass their contract. -/
def sampleReleaseSchema : CapabilitySchema SampleRelease where
  issues _ := []
  documentDigest := SampleRelease.digest
  metadata release :=
    ⟨some "openqevo-registry-test", some release.version, some "cross-project"⟩
  read release :=
    { id := "openqevo-registry-test", version := release.version, project := "cross-project" }
  metadata_of_valid _ _ := rfl
  descriptor _ :=
    { url := "https://github.com/QSCSoftwareThrust/OpenQEvo", revision := "v0.1.0",
      integration := {
        authority := .ecosystem, maintainers := ["qhpc-ecosystem"], projectReviewed := false,
        runtimeStatus := .notApplicable, validationStatus := .contractValid,
        evidence := some ["tests/test_contract.py"] },
      visibility := .internalCapability, qappswiki := some "packages/openqevo.md" }
  version_of_valid release _ := by cases release <;> decide
  digest_of_document release := by cases release <;> decide

def sampleValidationShaped (validation : EntryValidation) : Bool :=
  validation.contract = "valid" && validation.attribution = "valid" &&
    validation.documentation = "linked" && validation.curatedBy ≠ []

/-- A schema validator with one text for every violation. -/
def sampleEntrySchema : RegistrySchema SampleRelease EntryValidation where
  validationShaped := sampleValidationShaped
  errors registry :=
    if registry.Shaped sampleValidationShaped then [] else [⟨"/", "does not fit the schema"⟩]
  errors_eq_nil registry := by simp

def sampleOwner : CatalogRepository where
  slug := "OpenQEvo"
  sourceUrl := some "https://github.com/QSCSoftwareThrust/OpenQEvo"
  qscProject := "cross-project"
  visibility := .publicRepository
  canonicalStatus := .canonical

def sampleCatalog : Catalog where
  repositories := [sampleOwner]
  digest := "sha256:be1d8377cb7766fe8ecb61bc20d86ac616881a479167828f230d5fb2363037cc"
  digest_text := by decide

theorem ownerOf_sampleRelease (release : SampleRelease) :
    ownerOf sampleReleaseSchema sampleCatalog release = .ok sampleOwner := by
  have hurl : repositoryUrl "https://github.com/QSCSoftwareThrust/OpenQEvo" =
      "https://github.com/QSCSoftwareThrust/OpenQEvo" := by decide
  have hrevision : isPinnedRevision "v0.1.0" = true := by decide
  have hmatches : catalogMatches sampleReleaseSchema sampleCatalog release = [sampleOwner] := by
    simp [catalogMatches, canonicalUrl, sourceUrl, sampleReleaseSchema, sampleCatalog, sampleOwner,
      hurl]
  have hissues : ownershipIssues sampleReleaseSchema release sampleOwner = [] := by
    simp [ownershipIssues, sourceUrl, sampleReleaseSchema, sampleOwner, hurl, hrevision,
      catalogProject]
  rw [ownerOf, hmatches]
  simp only [hissues, if_true]

end QhpcEcosystem
