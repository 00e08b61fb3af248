/-
Whether the registry is a function of what the descriptors say.  The builder reads them in the
order of their paths and sorts the entries by a key without the build part of the versions, so
the paths show in the result exactly where two published versions of one capability differ in
the build part alone.
-/
import QhpcEcosystem.VersionOrder
import Mathlib.Data.List.ReduceOption

namespace QhpcEcosystem

open SemanticVersion

section Determinism

variable {δ : Type} (schema : CapabilitySchema δ)
variable (registrySchema : RegistrySchema δ EntryValidation) (catalog : Catalog)

/-- What some files hold, nothing for a file that is no document. -/
def fileContents (tree : SourceTree δ) (files : List String) : List (Option δ) :=
  files.map fun file => (tree.loadDocument file).toOption

/-- Discovery finds files with the given contents, in whatever order. -/
def Provides (tree : SourceTree δ) (sources : List String) (contents : List (Option δ)) : Prop :=
  ∃ files, discoverCapabilityFiles tree sources = .ok files ∧
    (fileContents tree files).Perm contents

/-- The catalog repository of a document, if it has one. -/
def registeredOwner (document : δ) : CatalogRepository :=
  match ownerOf schema catalog document with
  | .ok repository => repository
  | .error _ =>
      { slug := "", sourceUrl := none, qscProject := "", visibility := .unknown,
        canonicalStatus := .unresolved }

/-- The documents pass every check of the builder, whatever the order they come in. -/
structure Publishable (documents : List δ) : Prop where
  nonempty : documents ≠ []
  valid : ∀ document ∈ documents, schema.issues document = []
  owned : ∀ document ∈ documents, ∃ repository,
    ownerOf schema catalog document = .ok repository ∧ repository.slug ≠ "" ∧
      registrySchema.validationShaped
        (entryValidation (schema.descriptor document).integration) = true
  ownership : ∀ first ∈ documents, ∀ second ∈ documents,
    (schema.read first).id = (schema.read second).id →
      (schema.read first).project = (schema.read second).project
  keyed : ∀ document ∈ documents, ¬ OverlongVersion (schema.read document).version
  distinct : (documents.map fun document => (schema.read document).key).Nodup
  ordered : ∀ first ∈ documents, ∀ second ∈ documents,
    (schema.read first).id = (schema.read second).id →
      ¬ NewlineMisplaced (schema.read first).version (schema.read second).version

/-- Two versions of one capability do not differ in the build part alone. -/
def BuildPartsSeparate (documents : List δ) : Prop :=
  ∀ first ∈ documents, ∀ second ∈ documents,
    (schema.read first).id = (schema.read second).id →
    takenVersion (schema.read first).version = takenVersion (schema.read second).version →
      (schema.read first).version = (schema.read second).version

/-- The entry of a document, without the path that the errors name. -/
def documentEntry (document : δ) : Option (RegistryDocumentEntry δ EntryValidation) :=
  if schema.issues document = [] then
    (ownerOf schema catalog document).toOption.map fun repository =>
      publishedEntry schema repository document
  else none

/-- The registry of some contents in the order they are read, or nothing where the build
fails. -/
def contentsOutcome (contents : List (Option δ)) : Option (RegistryDocument δ EntryValidation) :=
  (contents.mapM fun content : Option δ =>
      content.bind (documentEntry schema catalog)).bind fun entries =>
    (registryOf schema catalog entries).toOption.bind fun registry =>
      if validateRegistryContract schema.toCapabilityContract registrySchema registry = .ok () then
        some registry
      else none

variable {schema registrySchema catalog}

/-! ## The build without the paths -/

theorem buildEntry_toOption (tree : SourceTree δ) (path : String) :
    (buildEntry tree schema catalog path).toOption =
      (tree.loadDocument path).toOption.bind (documentEntry schema catalog) := by
  unfold buildEntry
  cases hload : tree.loadDocument path with
  | error exn => rfl
  | ok document =>
      by_cases hissues : schema.issues document = []
      · cases howner : ownerOf schema catalog document with
        | error issues =>
            simp [documentEntry, catalogRepository, hissues, howner, bind, Except.bind,
              Except.toOption]
        | ok repository =>
            simp [documentEntry, catalogRepository, hissues, howner, bind, Except.bind, pure,
              Except.pure, Except.toOption]
      · simp [documentEntry, hissues, bind, Except.bind, Except.toOption, throw, throwThe,
          MonadExceptOf.throw]

theorem mapM_toOption {ε α β : Type} (f : α → Except ε β) (items : List α) :
    (items.mapM f).toOption = items.mapM fun item => (f item).toOption := by
  induction items with
  | nil => rfl
  | cons item rest ih =>
      rw [List.mapM_cons, List.mapM_cons, ← ih]
      cases f item with
      | error exn => rfl
      | ok value =>
          cases rest.mapM f with
          | error exn => rfl
          | ok values => rfl

theorem toOption_eq_some {ε α : Type} {result : Except ε α} {value : α} :
    result.toOption = some value ↔ result = .ok value := by
  cases result <;> simp [Except.toOption]

theorem buildRegistry_toOption {tree : SourceTree δ} {sources files : List String}
    (hfiles : discoverCapabilityFiles tree sources = .ok files) :
    (buildRegistry tree schema registrySchema catalog sources).toOption =
      contentsOutcome schema registrySchema catalog (fileContents tree files) := by
  have hentries : (files.mapM (buildEntry tree schema catalog)).toOption =
      (fileContents tree files).mapM fun content : Option δ =>
        content.bind (documentEntry schema catalog) := by
    rw [mapM_toOption, fileContents, List.mapM_map]
    congr 1
    funext path
    exact buildEntry_toOption tree path
  rw [contentsOutcome, ← hentries]
  unfold buildRegistry
  rw [hfiles]
  cases hbuilt : files.mapM (buildEntry tree schema catalog) with
  | error exn => simp [bind, Except.bind, hbuilt, Except.toOption]
  | ok entries =>
      cases hregistry : registryOf schema catalog entries with
      | error exn => simp [bind, Except.bind, hbuilt, hregistry, Except.toOption]
      | ok registry =>
          simp only [bind, Except.bind, hbuilt, hregistry, Except.toOption, Option.bind_some]
          cases hvalid : validateRegistryContract schema.toCapabilityContract registrySchema
              registry with
          | error exn => simp [throw, throwThe, MonadExceptOf.throw]
          | ok done => simp [pure, Except.pure]

/-! ## What the build depends on -/

theorem documentEntry_eq_some {document : δ} {entry : RegistryDocumentEntry δ EntryValidation} :
    documentEntry schema catalog document = some entry ↔
      schema.issues document = [] ∧
        (∃ repository, ownerOf schema catalog document = .ok repository) ∧
        entry = publishedEntry schema (registeredOwner schema catalog document) document := by
  unfold documentEntry registeredOwner
  by_cases hissues : schema.issues document = []
  · rw [if_pos hissues]
    cases howner : ownerOf schema catalog document with
    | error issues => simp [Except.toOption]
    | ok repository => simp [Except.toOption, hissues, eq_comm]
  · simp [hissues]

/-- All contents are documents that the checks of the loop accept. -/
theorem mapM_documentEntry_eq_some {contents : List (Option δ)}
    {entries : List (RegistryDocumentEntry δ EntryValidation)} :
    (contents.mapM fun content : Option δ => content.bind (documentEntry schema catalog)) =
        some entries ↔
      ∃ documents, contents = documents.map some ∧
        (∀ document ∈ documents, schema.issues document = [] ∧
          ∃ repository, ownerOf schema catalog document = .ok repository) ∧
        entries = generatedEntries schema (registeredOwner schema catalog) documents := by
  induction contents generalizing entries with
  | nil =>
      constructor
      · intro h
        exact ⟨[], rfl, by simp, (Option.some.inj h).symm⟩
      · rintro ⟨documents, hdocuments, -, rfl⟩
        rw [List.map_eq_nil_iff.mp hdocuments.symm]
        rfl
  | cons content rest ih =>
      constructor
      · intro h
        rw [List.mapM_cons] at h
        obtain ⟨entry, hentry, h⟩ := Option.bind_eq_some_iff.mp h
        obtain ⟨others, hothers, h⟩ := Option.bind_eq_some_iff.mp h
        obtain ⟨document, rfl, hentry⟩ := Option.bind_eq_some_iff.mp hentry
        obtain ⟨documents, rfl, hdocuments, rfl⟩ := ih.mp hothers
        obtain ⟨hissues, howner, rfl⟩ := documentEntry_eq_some.mp hentry
        refine ⟨document :: documents, rfl, ?_, (Option.some.inj h).symm⟩
        exact List.forall_mem_cons.mpr ⟨⟨hissues, howner⟩, hdocuments⟩
      · rintro ⟨documents, hcontents, haccepted, rfl⟩
        cases documents with
        | nil => contradiction
        | cons document documents =>
            rw [List.map_cons, List.cons.injEq] at hcontents
            rw [List.forall_mem_cons] at haccepted
            obtain ⟨rfl, rfl⟩ := hcontents
            have hentry := documentEntry_eq_some.mpr ⟨haccepted.1.1, haccepted.1.2, rfl⟩
            have hothers := ih.mpr ⟨documents, rfl, haccepted.2, rfl⟩
            rw [List.mapM_cons, Option.bind_some, hentry, hothers]
            rfl

/-- The validator accepts the generated registry of publishable documents and of no others. -/
theorem arrangedRegistry_valid_iff {documents : List δ}
    (haccepted : ∀ document ∈ documents, schema.issues document = [] ∧
      ∃ repository, ownerOf schema catalog document = .ok repository)
    (hshort : ∀ document ∈ documents, ¬ OverlongVersion (schema.read document).version) :
    validateRegistryContract schema.toCapabilityContract registrySchema
        (arrangedRegistry schema catalog (registeredOwner schema catalog) documents) = .ok () ↔
      Publishable schema registrySchema catalog documents := by
  have hmem : ∀ entry, entry ∈ (arrangedRegistry schema catalog
      (registeredOwner schema catalog) documents).entries ↔
      ∃ document ∈ documents,
        publishedEntry schema (registeredOwner schema catalog document) document = entry := by
    intro entry
    exact (sortByKey_perm _ _).mem_iff.trans List.mem_map
  have howner : ∀ document ∈ documents, ownerOf schema catalog document =
      .ok (registeredOwner schema catalog document) := by
    intro document hdocument
    obtain ⟨-, repository, hrepository⟩ := haccepted document hdocument
    rw [registeredOwner, hrepository]
  have hadmitted : ∀ entry ∈ generatedEntries schema (registeredOwner schema catalog) documents,
      AdmittedVersion (entry.published schema.toCapabilityContract).version := by
    intro entry hentry
    obtain ⟨document, hdocument, rfl⟩ := List.mem_map.mp hentry
    exact schema.version_of_valid document (haccepted document hdocument).1
  have hshort' : ∀ entry ∈ generatedEntries schema (registeredOwner schema catalog) documents,
      ¬ OverlongVersion (entry.published schema.toCapabilityContract).version := by
    rw [generatedEntries, List.forall_mem_map]
    exact hshort
  have hkeys : ((arrangedRegistry schema catalog (registeredOwner schema catalog)
      documents).entries.map fun entry => (entry.published schema.toCapabilityContract).key).Perm
      (documents.map fun document => (schema.read document).key) := by
    refine ((sortByKey_perm _ _).map _).trans ?_
    rw [generatedEntries, List.map_map]
    exact List.Perm.refl _
  have hsorted : ((arrangedRegistry schema catalog (registeredOwner schema catalog)
      documents).entries.map fun entry =>
        (entry.published schema.toCapabilityContract).key).Pairwise
        (fun first second => registryKey first ≤ registryKey second) ↔
      ∀ first ∈ documents, ∀ second ∈ documents,
        (schema.read first).id = (schema.read second).id →
          ¬ NewlineMisplaced (schema.read first).version (schema.read second).version := by
    rw [List.pairwise_map]
    refine (pairwise_takenKey_iff hadmitted hshort').trans ?_
    simp only [generatedEntries, List.forall_mem_map]
    rfl
  rw [validateRegistryContract_ok]
  constructor
  · rintro ⟨hshaped, hconsistent⟩
    constructor
    · intro hnil
      have hcount := hshaped.entryCount
      simp [arrangedRegistry, hnil] at hcount
    · exact fun document hdocument => (haccepted document hdocument).1
    · intro document hdocument
      have hentry := hshaped.entries _ ((hmem _).mpr ⟨document, hdocument, rfl⟩)
      exact ⟨_, howner document hdocument, hentry.2.1, hentry.2.2⟩
    · intro first hfirst second hsecond
      exact hconsistent.ownership _ ((hmem _).mpr ⟨first, hfirst, rfl⟩) _
        ((hmem _).mpr ⟨second, hsecond, rfl⟩)
    · exact hshort
    · exact hkeys.nodup_iff.mp hconsistent.distinct
    · exact hsorted.mp hconsistent.sorted
  · intro h
    have hlength : 0 < documents.length := List.length_pos_iff.mpr h.nonempty
    have hentries : (arrangedRegistry schema catalog (registeredOwner schema catalog)
        documents).entries.length = documents.length := by
      exact (sortByKey_perm _ _).length_eq.trans (List.length_map _)
    constructor
    · constructor
      · simp only [arrangedRegistry]
        omega
      · exact catalog.digest_text
      · exact List.length_pos_iff.mp (by rw [hentries]; exact hlength)
      · intro entry hentry
        obtain ⟨document, hdocument, rfl⟩ := (hmem entry).mp hentry
        obtain ⟨repository, hrepository, hslug, hshaped⟩ := h.owned document hdocument
        have hsame : registeredOwner schema catalog document = repository :=
          Except.ok.inj ((howner document hdocument).symm.trans hrepository)
        exact ⟨schema.digest_of_document document, by rw [hsame]; exact hslug, hshaped⟩
    · constructor
      · rw [hentries]
        rfl
      · intro entry hentry
        obtain ⟨document, hdocument, rfl⟩ := (hmem entry).mp hentry
        exact publishedEntry_valid (h.valid document hdocument) _
      · intro entry hentry other hother
        obtain ⟨first, hfirst, rfl⟩ := (hmem entry).mp hentry
        obtain ⟨second, hsecond, rfl⟩ := (hmem other).mp hother
        exact h.ownership first hfirst second hsecond
      · exact hkeys.nodup_iff.mpr h.distinct
      · exact hsorted.mpr h.ordered

/-- The build gives the registry of publishable documents and nothing else. -/
theorem contentsOutcome_eq_some {contents : List (Option δ)}
    {registry : RegistryDocument δ EntryValidation} :
    contentsOutcome schema registrySchema catalog contents = some registry ↔
      ∃ documents, contents = documents.map some ∧
        Publishable schema registrySchema catalog documents ∧
        registry =
          arrangedRegistry schema catalog (registeredOwner schema catalog) documents := by
  unfold contentsOutcome
  rw [Option.bind_eq_some_iff]
  constructor
  · rintro ⟨entries, hentries, hregistry⟩
    obtain ⟨documents, rfl, haccepted, rfl⟩ := mapM_documentEntry_eq_some.mp hentries
    obtain ⟨arranged, harranged, hregistry⟩ := Option.bind_eq_some_iff.mp hregistry
    obtain ⟨hshort, rfl⟩ := generatedRegistry_eq_ok.mp (toOption_eq_some.mp harranged)
    rw [Option.ite_none_right_eq_some] at hregistry
    exact ⟨documents, rfl, (arrangedRegistry_valid_iff haccepted hshort).mp hregistry.1,
      (Option.some.inj hregistry.2).symm⟩
  · rintro ⟨documents, rfl, hpublishable, rfl⟩
    have haccepted : ∀ document ∈ documents, schema.issues document = [] ∧
        ∃ repository, ownerOf schema catalog document = .ok repository := by
      intro document hdocument
      obtain ⟨repository, hrepository, -⟩ := hpublishable.owned document hdocument
      exact ⟨hpublishable.valid document hdocument, repository, hrepository⟩
    have hgenerated : generatedRegistry schema catalog (registeredOwner schema catalog) documents =
        .ok (arrangedRegistry schema catalog (registeredOwner schema catalog) documents) :=
      generatedRegistry_eq_ok.mpr ⟨hpublishable.keyed, rfl⟩
    refine ⟨_, mapM_documentEntry_eq_some.mpr ⟨documents, rfl, haccepted, rfl⟩, ?_⟩
    refine Option.bind_eq_some_iff.mpr ⟨_, toOption_eq_some.mpr hgenerated, ?_⟩
    exact if_pos ((arrangedRegistry_valid_iff haccepted hpublishable.keyed).mpr hpublishable)

theorem Publishable.perm {documents documents' : List δ} (h : documents.Perm documents')
    (hpublishable : Publishable schema registrySchema catalog documents) :
    Publishable schema registrySchema catalog documents' := by
  have hmem : ∀ {document}, document ∈ documents' → document ∈ documents :=
    fun hdocument => h.mem_iff.mpr hdocument
  constructor
  · intro hnil
    rw [hnil] at h
    exact hpublishable.nonempty h.eq_nil
  · exact fun document hdocument => hpublishable.valid document (hmem hdocument)
  · exact fun document hdocument => hpublishable.owned document (hmem hdocument)
  · exact fun first hfirst second hsecond =>
      hpublishable.ownership first (hmem hfirst) second (hmem hsecond)
  · exact fun document hdocument => hpublishable.keyed document (hmem hdocument)
  · exact (h.map _).nodup_iff.mp hpublishable.distinct
  · exact fun first hfirst second hsecond =>
      hpublishable.ordered first (hmem hfirst) second (hmem hsecond)

theorem exists_documents_of_perm {documents : List δ} {contents : List (Option δ)}
    (h : (documents.map some).Perm contents) :
    ∃ documents', contents = documents'.map some ∧ documents.Perm documents' := by
  have hreduced : documents.Perm contents.reduceOption := by
    have hreduce := h.filterMap id
    simpa [List.reduceOption] using hreduce
  refine ⟨contents.reduceOption, ?_, hreduced⟩
  have hall : ∀ content ∈ contents, content.isSome := by
    intro content hcontent
    obtain ⟨document, -, rfl⟩ := List.mem_map.mp (h.mem_iff.mpr hcontent)
    rfl
  clear h hreduced
  induction contents with
  | nil => rfl
  | cons content rest ih =>
      rw [List.forall_mem_cons] at hall
      obtain ⟨document, rfl⟩ := Option.isSome_iff_exists.mp hall.1
      rw [List.reduceOption_cons_of_some document, List.map_cons, ← ih hall.2]

theorem documents_eq_of_key {documents : List δ}
    (hpublishable : Publishable schema registrySchema catalog documents) {first second : δ}
    (hfirst : first ∈ documents) (hsecond : second ∈ documents)
    (hid : (schema.read first).id = (schema.read second).id)
    (hversion : (schema.read first).version = (schema.read second).version) : first = second := by
  apply List.inj_on_of_nodup_map hpublishable.distinct hfirst hsecond
  rw [Capability.key, Capability.key, hid, hversion]

/-- Where build parts separate nothing, the registry does not depend on the order. -/
theorem contentsOutcome_of_perm {contents contents' : List (Option δ)}
    (h : contents.Perm contents')
    (hseparate : ∀ documents, contents = documents.map some →
      Publishable schema registrySchema catalog documents → BuildPartsSeparate schema documents)
    {registry : RegistryDocument δ EntryValidation}
    (hregistry : contentsOutcome schema registrySchema catalog contents = some registry) :
    contentsOutcome schema registrySchema catalog contents' = some registry := by
  obtain ⟨documents, rfl, hpublishable, rfl⟩ := contentsOutcome_eq_some.mp hregistry
  obtain ⟨documents', rfl, hperm⟩ := exists_documents_of_perm h
  refine contentsOutcome_eq_some.mpr ⟨documents', rfl, hpublishable.perm hperm, ?_⟩
  have hentries : (generatedEntries schema (registeredOwner schema catalog) documents).Perm
      (generatedEntries schema (registeredOwner schema catalog) documents') := hperm.map _
  have hkeys : ∀ entry ∈ generatedEntries schema (registeredOwner schema catalog) documents,
      ∀ other ∈ generatedEntries schema (registeredOwner schema catalog) documents,
        takenKey schema.toCapabilityContract entry = takenKey schema.toCapabilityContract other →
          entry = other := by
    intro entry hentry other hother hkey
    obtain ⟨first, hfirst, rfl⟩ := List.mem_map.mp hentry
    obtain ⟨second, hsecond, rfl⟩ := List.mem_map.mp hother
    rw [takenKey_publishedEntry, takenKey_publishedEntry, toLex_inj, Prod.mk.injEq,
      textualKey_inj] at hkey
    have hversion := hseparate documents rfl hpublishable first hfirst second hsecond hkey.1 hkey.2
    rw [documents_eq_of_key hpublishable hfirst hsecond hkey.1 hversion]
  have hsorted := sortByKey_eq_of_perm (takenKey schema.toCapabilityContract) hentries hkeys
  simp only [arrangedRegistry, hsorted, hperm.length_eq]

/-! ## Every order of some documents -/

/-- As many different paths as there are documents, in the order of their texts. -/
def listedFiles (documents : List δ) : List String :=
  ((List.range documents.length).map fun index =>
    String.ofList ('/' :: List.replicate index 'd')).insertionSort (· ≤ ·)

/-- Files that hold the documents one after the other. -/
def listedTree (documents : List δ) : SourceTree δ where
  resolve path := path
  isFile _ := true
  isDir _ := false
  rglob _ := []
  loadDocument path :=
    match documents[(listedFiles documents).idxOf path]? with
    | some document => .ok document
    | none => .error (contractError ("contract document not found: " ++ path) [])

theorem listedFiles_nodup (documents : List δ) : (listedFiles documents).Nodup := by
  rw [listedFiles, (List.perm_insertionSort _ _).nodup_iff]
  refine List.Nodup.map ?_ List.nodup_range
  intro first second heq
  have hlength := congrArg (fun path => path.toList.length) heq
  simpa using hlength

theorem length_listedFiles (documents : List δ) :
    (listedFiles documents).length = documents.length := by
  simp [listedFiles]

theorem listedTree_provides {documents : List δ} (hne : documents ≠ []) :
    discoverCapabilityFiles (listedTree documents) (listedFiles documents) =
        .ok (listedFiles documents) ∧
      fileContents (listedTree documents) (listedFiles documents) = documents.map some := by
  have hlength := length_listedFiles documents
  constructor
  · have hsources : (listedFiles documents).mapM (discoverSource (listedTree documents)) =
        .ok ((listedFiles documents).map fun path => [path]) :=
      List.mapM_pure (m := Except Exn)
    have hflat : ((listedFiles documents).map fun path => [path]).flatten =
        listedFiles documents := by
      rw [← List.flatMap_def, List.flatMap_singleton']
    have hfiles : listedFiles documents ≠ [] := by
      intro hnil
      rw [hnil] at hlength
      exact hne (List.length_eq_zero_iff.mp hlength.symm)
    have hsorted : (listedFiles documents).insertionSort (· ≤ ·) = listedFiles documents :=
      (List.pairwise_insertionSort _ _).insertionSort_eq
    simp only [discoverCapabilityFiles, hsources, bind, Except.bind, hflat, hfiles, if_false, pure,
      Except.pure, (listedFiles_nodup documents).dedup, hsorted]
  · apply List.ext_getElem
    · simp [fileContents, hlength]
    · intro index hindex hindex'
      have hbound : index < (listedFiles documents).length := by
        simpa [fileContents] using hindex
      have hposition : (listedFiles documents).idxOf ((listedFiles documents)[index]) = index :=
        (listedFiles_nodup documents).idxOf_getElem index hbound
      have hdocument : index < documents.length := hlength ▸ hbound
      simp [fileContents, listedTree, hposition, List.getElem?_eq_getElem hdocument,
        Except.toOption]

theorem listedTree_outcome {documents contents : List δ} (hne : documents ≠ [])
    (h : documents.Perm contents) :
    Provides (listedTree documents) (listedFiles documents) (contents.map some) ∧
      (buildRegistry (listedTree documents) schema registrySchema catalog
        (listedFiles documents)).toOption =
          contentsOutcome schema registrySchema catalog (documents.map some) := by
  obtain ⟨hfiles, hcontents⟩ := listedTree_provides hne
  constructor
  · refine ⟨listedFiles documents, hfiles, ?_⟩
    rw [hcontents]
    exact h.map some
  · rw [buildRegistry_toOption hfiles, hcontents]

/-- The registry depends on what the discovered files hold and not on the paths, whatever these
are, exactly when the documents cannot be published or no two versions of a capability differ in
the build part alone. -/
theorem registry_determined_exactly (schema : CapabilitySchema δ)
    (registrySchema : RegistrySchema δ EntryValidation) (catalog : Catalog)
    (contents : List (Option δ)) :
    (∀ (tree tree' : SourceTree δ) (sources sources' : List String),
      Provides tree sources contents → Provides tree' sources' contents →
        (buildRegistry tree schema registrySchema catalog sources).toOption =
          (buildRegistry tree' schema registrySchema catalog sources').toOption) ↔
    ∀ documents, contents = documents.map some →
      Publishable schema registrySchema catalog documents →
        BuildPartsSeparate schema documents := by
  constructor
  · rintro h documents rfl hpublishable first hfirst second hsecond hid htaken
    by_contra hversion
    classical
    have hne : first ≠ second := by
      rintro rfl
      exact hversion rfl
    -- the two documents in front of the others, in both orders
    obtain ⟨others, hothers⟩ : ∃ others, documents.Perm (first :: second :: others) := by
      have hrest : second ∈ documents.erase first :=
        (List.mem_erase_of_ne hne.symm).mpr hsecond
      exact ⟨(documents.erase first).erase second,
        (List.perm_cons_erase hfirst).trans ((List.perm_cons_erase hrest).cons first)⟩
    have hswapped : documents.Perm (second :: first :: others) :=
      hothers.trans (List.Perm.swap second first others)
    obtain ⟨hprovides, hbuild⟩ := @listedTree_outcome δ schema registrySchema catalog _ _
      (List.cons_ne_nil _ _) hothers.symm
    obtain ⟨hprovides', hbuild'⟩ := @listedTree_outcome δ schema registrySchema catalog _ _
      (List.cons_ne_nil _ _) hswapped.symm
    have hsame := h _ _ _ _ hprovides hprovides'
    rw [hbuild, hbuild', contentsOutcome_eq_some.mpr ⟨_, rfl, hpublishable.perm hothers, rfl⟩,
      contentsOutcome_eq_some.mpr ⟨_, rfl, hpublishable.perm hswapped, rfl⟩] at hsame
    have hentries := congrArg RegistryDocument.entries (Option.some.inj hsame)
    refine sortByKey_swap_ne (takenKey schema.toCapabilityContract) ?_ ?_ _ hentries
    · rw [takenKey_publishedEntry, takenKey_publishedEntry, hid, htaken]
    · intro heq
      exact hne (congrArg RegistryDocumentEntry.capability heq)
  · intro hseparate tree tree' sources sources' hprovides hprovides'
    obtain ⟨files, hfiles, hcontents⟩ := hprovides
    obtain ⟨files', hfiles', hcontents'⟩ := hprovides'
    have hseparate' : ∀ {contents' : List (Option δ)}, contents.Perm contents' →
        ∀ documents, contents' = documents.map some →
          Publishable schema registrySchema catalog documents →
            BuildPartsSeparate schema documents := by
      rintro contents' hperm documents rfl hpublishable first hfirst second hsecond
      obtain ⟨documents', hdocuments', hperm'⟩ := exists_documents_of_perm hperm.symm
      exact hseparate documents' hdocuments' (hpublishable.perm hperm') first
        (hperm'.mem_iff.mp hfirst) second (hperm'.mem_iff.mp hsecond)
    rw [buildRegistry_toOption hfiles, buildRegistry_toOption hfiles']
    ext registry
    exact ⟨contentsOutcome_of_perm (hcontents.trans hcontents'.symm) (hseparate' hcontents.symm),
      contentsOutcome_of_perm (hcontents'.trans hcontents.symm) (hseparate' hcontents'.symm)⟩

end Determinism

/-! ### Two builds of one release -/

/-- Two checkouts with a descriptor each. -/
def checkouts (first second : SampleRelease) : SourceTree SampleRelease where
  resolve path := path
  isFile path := path ∉ ["/srv/first", "/srv/second"]
  isDir path := path ∈ ["/srv/first", "/srv/second"]
  rglob _ := [".qhpc/capability.yaml"]
  loadDocument path :=
    if path = "/srv/first/.qhpc/capability.yaml" then .ok first else .ok second

/-- The releases in the registry that is built from the checkouts. -/
def registeredReleases (first second : SampleRelease) : Option (List SampleRelease) :=
  (buildRegistry (checkouts first second) sampleReleaseSchema sampleEntrySchema sampleCatalog
    ["/srv/first", "/srv/second"]).toOption.map fun registry =>
      registry.entries.map (·.capability)

def checkoutFiles : List String :=
  ["/srv/first/.qhpc/capability.yaml", "/srv/second/.qhpc/capability.yaml"]

theorem checkouts_contents (first second : SampleRelease) :
    fileContents (checkouts first second) checkoutFiles = [some first, some second] := rfl

theorem sampleRelease_keyed (release : SampleRelease) :
    ¬ OverlongVersion (sampleReleaseSchema.read release).version := by
  cases release <;> decide

/-- Different releases without a newline can be published together. -/
theorem sampleReleases_publishable {releases : List SampleRelease} (hne : releases ≠ [])
    (hdistinct : (releases.map fun release => (sampleReleaseSchema.read release).key).Nodup)
    (hplain : ∀ release ∈ releases,
      endsInNewline (sampleReleaseSchema.read release).version = false) :
    Publishable sampleReleaseSchema sampleEntrySchema sampleCatalog releases := by
  constructor
  · exact hne
  · exact fun _ _ => rfl
  · intro release _
    exact ⟨sampleOwner, ownerOf_sampleRelease release, by decide, rfl⟩
  · exact fun _ _ _ _ _ => rfl
  · exact fun release _ => sampleRelease_keyed release
  · exact hdistinct
  · intro first hfirst second hsecond _ hmisplaced
    have hnewline := hmisplaced.1
    rw [hplain first hfirst, hplain second hsecond] at hnewline
    simp at hnewline

theorem registeredReleases_eq {first second : SampleRelease}
    (hfiles : discoverCapabilityFiles (checkouts first second) ["/srv/first", "/srv/second"] =
      .ok checkoutFiles)
    (h : Publishable sampleReleaseSchema sampleEntrySchema sampleCatalog [first, second]) :
    registeredReleases first second =
      some ((arrangedRegistry sampleReleaseSchema sampleCatalog
        (registeredOwner sampleReleaseSchema sampleCatalog) [first, second]).entries.map
          (·.capability)) := by
  have houtcome : contentsOutcome sampleReleaseSchema sampleEntrySchema sampleCatalog
      [some first, some second] = some (arrangedRegistry sampleReleaseSchema sampleCatalog
        (registeredOwner sampleReleaseSchema sampleCatalog) [first, second]) :=
    contentsOutcome_eq_some.mpr ⟨[first, second], rfl, h, rfl⟩
  rw [registeredReleases, buildRegistry_toOption hfiles, checkouts_contents, houtcome]
  rfl

/-- The same two documents, in swapped checkouts, make different registries. -/
theorem registry_depends_on_paths :
    Provides (checkouts .buildA .buildB) ["/srv/first", "/srv/second"]
      [some .buildA, some .buildB] ∧
    Provides (checkouts .buildB .buildA) ["/srv/first", "/srv/second"]
      [some .buildA, some .buildB] ∧
    registeredReleases .buildA .buildB = some [.buildA, .buildB] ∧
    registeredReleases .buildB .buildA = some [.buildB, .buildA] ∧
    (buildRegistry (checkouts .buildA .buildB) sampleReleaseSchema sampleEntrySchema sampleCatalog
        ["/srv/first", "/srv/second"]).toOption ≠
      (buildRegistry (checkouts .buildB .buildA) sampleReleaseSchema sampleEntrySchema
        sampleCatalog ["/srv/first", "/srv/second"]).toOption := by
  have hpublishable : Publishable sampleReleaseSchema sampleEntrySchema sampleCatalog
      [.buildA, .buildB] := sampleReleases_publishable (by decide) (by decide) (by decide)
  have hfiles : discoverCapabilityFiles (checkouts .buildA .buildB)
      ["/srv/first", "/srv/second"] = .ok checkoutFiles := by decide
  have hfiles' : discoverCapabilityFiles (checkouts .buildB .buildA)
      ["/srv/first", "/srv/second"] = .ok checkoutFiles := by decide
  have hfirst : registeredReleases .buildA .buildB = some [.buildA, .buildB] :=
    (registeredReleases_eq hfiles hpublishable).trans rfl
  have hsecond : registeredReleases .buildB .buildA = some [.buildB, .buildA] :=
    (registeredReleases_eq hfiles' (hpublishable.perm (List.Perm.swap _ _ _))).trans rfl
  refine ⟨?_, ?_, hfirst, hsecond, ?_⟩
  · exact ⟨checkoutFiles, hfiles, List.Perm.refl _⟩
  · exact ⟨checkoutFiles, hfiles', List.Perm.swap _ _ _⟩
  · intro heq
    have hsame : registeredReleases .buildA .buildB = registeredReleases .buildB .buildA := by
      rw [registeredReleases, registeredReleases, heq]
    rw [hfirst, hsecond] at hsame
    revert hsame
    decide

end QhpcEcosystem
