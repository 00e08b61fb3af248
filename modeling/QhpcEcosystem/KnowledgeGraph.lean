/-
The knowledge graph of the wiki.  It is loaded from a compiled artifact and from overlays that
add nodes and edges, and answers with the shortest path between two nodes and with the
neighbourhood of one.
-/
import QhpcEcosystem.KeySorting
import QhpcEcosystem.Contract
import QhpcEcosystem.Json
import Mathlib.Data.Prod.Lex
import Mathlib.Data.Finset.Insert
import Mathlib.Data.List.Dedup

namespace QhpcEcosystem

/-! ## Artifacts -/

/-- A text in a message. -/
def JsonText.shown (text : JsonText) : String :=
  String.ofList (text.codePoints.map Char.ofNat)

/-- A node before it is checked; a member that is missing reads as null.  No member but the
identifier is checked. -/
structure WikiNode (F : Type) where
  id : Json F
  title : Json F := .null
  type : Json F := .null
  domains : Json F := .null
  status : Json F := .null
  provenanceStatus : Json F := .null
  community : Json F := .null
  communityLabel : Json F := .null
  freshness : Json F := .null
  freshnessRollup : Json F := .null
  overlaySource : Option String := none

/-- An edge before it is checked; a member that is missing reads as null. -/
structure WikiEdge (F : Type) where
  source : Json F
  target : Json F
  relation : Json F
  confidence : Json F
  origin : Option (Json F) := none

/-- The root of an artifact.  A member that is not a list is none, and so is an item of a list
that is not an object; of a community only the index is read. -/
structure GraphDocument (F : Type) where
  schemaVersion : Json F
  nodes : Option (List (Option (WikiNode F)))
  edges : Option (List (Option (WikiEdge F)))
  communities : Option (List (Option (Json F)))

structure OverlayDocument (F : Type) where
  schemaVersion : Json F
  nodes : Option (List (Option (WikiNode F)))
  edges : Option (List (Option (WikiEdge F)))

/-- What reading a file gives: a root that is not an object is none. -/
inductive FileContent (α : Type) where
  | missing
  | unreadable (error : Exn)
  | notJson (size : Nat) (error : String)
  | json (size : Nat) (root : Option α)

structure JsonFile (α : Type) where
  path : String
  content : FileContent α

/-! ## The loaded graph -/

inductive EdgeConfidence where
  | extracted
  | inferred
  | ambiguous
deriving DecidableEq, Repr

structure KnowledgeEdge (F : Type) where
  source : JsonText
  target : JsonText
  relation : JsonText
  confidence : EdgeConfidence
  origin : Json F

/-- `{edge["source"], edge["target"]} == {left, right}` -/
def KnowledgeEdge.joins {F : Type} (edge : KnowledgeEdge F) (left right : JsonText) : Bool :=
  ({edge.source, edge.target} : Finset JsonText) = {left, right}

/-- The nodes by identifier, and edges between them. -/
structure QAppsWikiKnowledge (F : Type) where
  nodes : Dict JsonText (WikiNode F)
  edges : List (KnowledgeEdge F)
  endpoints : ∀ edge ∈ edges, edge.source ∈ nodes.rows.map Prod.fst ∧
    edge.target ∈ nodes.rows.map Prod.fst

/-- `KnowledgeGraphError` -/
def knowledgeGraphError (message : String) : Exn := ⟨.other "KnowledgeGraphError", message, []⟩

def maxGraphBytes : Nat := 64 * 1024 * 1024

def maxNodes : Nat := 50000

def maxEdges : Nat := 250000

def maxOverlayBytes : Nat := 2 * 1024 * 1024

section Load

variable {F : Type}

/-- `isinstance(value, str)` -/
def Json.text? : Json F → Option JsonText
  | .str text => some text
  | _ => none

/-- The size check and the reading of the artifact. -/
def readGraph (file : JsonFile (GraphDocument F)) : Except Exn (GraphDocument F) :=
  let tooLarge := knowledgeGraphError "QAppsWiki graph exceeds the 64 MB limit"
  match file.content with
  | .missing => .error (knowledgeGraphError ("QAppsWiki graph not found: " ++ file.path))
  | .unreadable error => .error error
  | .notJson size error =>
      if maxGraphBytes < size then .error tooLarge
      else .error (knowledgeGraphError ("QAppsWiki graph is not valid JSON: " ++ error))
  | .json size root =>
      if maxGraphBytes < size then .error tooLarge
      else match root with
        | none => .error (knowledgeGraphError "QAppsWiki graph root must be an object")
        | some document => .ok document

/-- The size check and the reading of an overlay. -/
def readOverlay (file : JsonFile (OverlayDocument F)) : Except Exn (OverlayDocument F) :=
  let tooLarge := knowledgeGraphError
    ("knowledge overlay exceeds the 2 MB limit: " ++ file.path)
  match file.content with
  | .missing => .error (knowledgeGraphError ("knowledge overlay not found: " ++ file.path))
  | .unreadable error => .error error
  | .notJson size error =>
      if maxOverlayBytes < size then .error tooLarge
      else .error (knowledgeGraphError
        ("knowledge overlay is not valid JSON (" ++ file.path ++ "): " ++ error))
  | .json size root =>
      if maxOverlayBytes < size then .error tooLarge
      else match root with
        | none => .error (knowledgeGraphError
            ("knowledge overlay root must be an object: " ++ file.path))
        | some document => .ok document

/-- The text is the given one. -/
def Json.isString (value : Json F) (text : String) : Bool :=
  value.text? = some (JsonText.ofString text)

/-- The nodes and edges collected so far, and the identifiers among them. -/
structure Collected (F : Type) where
  nodes : List (Option (WikiNode F))
  edges : List (Option (WikiEdge F))
  knownIds : List JsonText

/-- The loop over the nodes of an overlay. -/
def addOverlayNodes (path : String) (collected : Collected F) :
    List (Option (WikiNode F)) → Except Exn (Collected F)
  | [] => .ok collected
  | node :: rest =>
      match node, (node.bind fun node => node.id.text?) with
      | some node, some (unit :: units) =>
          let nodeId := unit :: units
          if nodeId ∈ collected.knownIds then
            .error (knowledgeGraphError
              ("knowledge overlay cannot replace an existing node: " ++ JsonText.shown nodeId))
          else
            addOverlayNodes path
              { collected with
                nodes := collected.nodes ++ [some { node with overlaySource := some path }]
                knownIds := nodeId :: collected.knownIds } rest
      | _, _ => .error (knowledgeGraphError
          ("knowledge overlay contains an invalid node: " ++ path))

/-- The loop over the edges of an overlay. -/
def addOverlayEdges (path : String) (collected : Collected F) :
    List (Option (WikiEdge F)) → Except Exn (Collected F)
  | [] => .ok collected
  | none :: _ => .error (knowledgeGraphError
      ("knowledge overlay contains an invalid edge: " ++ path))
  | some edge :: rest =>
      let origin := edge.origin.getD (.str (JsonText.ofString "qhpc-registry-overlay"))
      addOverlayEdges path
        { collected with
          edges := collected.edges ++ [some { edge with origin := some origin }] } rest

/-- The loop of `_load_overlays`. -/
def loadOverlays (collected : Collected F) :
    List (JsonFile (OverlayDocument F)) → Except Exn (Collected F)
  | [] => .ok collected
  | file :: rest =>
      match readOverlay file with
      | .error error => .error error
      | .ok document =>
          if !document.schemaVersion.isString "qhpc-knowledge-overlay-0" then
            .error (knowledgeGraphError ("knowledge overlay must use schema_version " ++
              "qhpc-knowledge-overlay-0: " ++ file.path))
          else match document.nodes, document.edges with
            | some additions, some relationships =>
                match addOverlayNodes file.path collected additions with
                | .error error => .error error
                | .ok collected =>
                    match addOverlayEdges file.path collected relationships with
                    | .error error => .error error
                    | .ok collected => loadOverlays collected rest
            | _, _ => .error (knowledgeGraphError
                ("knowledge overlay requires node and edge lists: " ++ file.path))

/-- `_load_overlays` -/
def withOverlays (overlays : List (JsonFile (OverlayDocument F)))
    (nodes : List (Option (WikiNode F))) (edges : List (Option (WikiEdge F))) :
    Except Exn (Collected F) :=
  loadOverlays
    ⟨nodes, edges, nodes.filterMap fun node => node.bind fun node => node.id.text?⟩ overlays

/-- The loop that fills the dictionary of nodes. -/
def loadNodes (nodes : Dict JsonText (WikiNode F)) :
    List (Option (WikiNode F)) → Except Exn (Dict JsonText (WikiNode F))
  | [] => .ok nodes
  | none :: _ => .error (knowledgeGraphError "QAppsWiki graph contains an invalid node")
  | some node :: rest =>
      match node.id.text? with
      | some (unit :: units) =>
          match nodes.insert? (unit :: units, node) with
          | some nodes => loadNodes nodes rest
          | none => .error (knowledgeGraphError ("QAppsWiki graph contains duplicate node: " ++
              JsonText.shown (unit :: units)))
      | _ => .error (knowledgeGraphError
          "QAppsWiki graph node identifiers must be non-empty strings")

/-- What hashing a value raises. -/
def Json.unhashable? : Json F → Option Exn
  | .arr _ => some ⟨.typeError, "unhashable type: 'list'", []⟩
  | .obj _ => some ⟨.typeError, "unhashable type: 'dict'", []⟩
  | _ => none

/-- `confidence in {"EXTRACTED", "INFERRED", "AMBIGUOUS"}`, which needs a value with a hash. -/
def edgeConfidence (value : Json F) : Except Exn (Option EdgeConfidence) :=
  match value.unhashable? with
  | some error => .error error
  | none =>
      if value.isString "EXTRACTED" then .ok (some .extracted)
      else if value.isString "INFERRED" then .ok (some .inferred)
      else if value.isString "AMBIGUOUS" then .ok (some .ambiguous)
      else .ok none

/-- The check of one edge, with its endpoints among the nodes. -/
def normalizedEdge (nodes : Dict JsonText (WikiNode F)) (edge : Option (WikiEdge F)) :
    Except Exn { edge : KnowledgeEdge F // edge.source ∈ nodes.rows.map Prod.fst ∧
      edge.target ∈ nodes.rows.map Prod.fst } :=
  let malformed := knowledgeGraphError
    "QAppsWiki graph contains an unresolved or malformed edge"
  match edge with
  | none => .error (knowledgeGraphError "QAppsWiki graph contains an invalid edge")
  | some edge =>
      match edge.source.text?, edge.target.text?, edge.relation.text? with
      | some source, some target, some relation =>
          if h : source ∈ nodes.rows.map Prod.fst ∧ target ∈ nodes.rows.map Prod.fst ∧
              relation ≠ [] then
            match edgeConfidence edge.confidence with
            | .error error => .error error
            | .ok none => .error malformed
            | .ok (some confidence) =>
                .ok ⟨⟨source, target, relation, confidence, edge.origin.getD .null⟩, h.1, h.2.1⟩
          else .error malformed
      | _, _, _ => .error malformed

/-- The loop over the communities. -/
def checkCommunities : List (Option (Json F)) → Except Exn Unit
  | [] => .ok ()
  | none :: _ => .error (knowledgeGraphError "QAppsWiki graph contains an invalid community")
  | some index :: rest =>
      match index with
      | .int _ => checkCommunities rest
      | .bool _ => checkCommunities rest
      | _ => .error (knowledgeGraphError "QAppsWiki community identifiers must be integers")

/-- `_load` -/
def QAppsWikiKnowledge.load (graph : JsonFile (GraphDocument F))
    (overlays : List (JsonFile (OverlayDocument F))) : Except Exn (QAppsWikiKnowledge F) := do
  let payload ← readGraph graph
  if !payload.schemaVersion.isString "qappswiki-graph-0" then
    .error (knowledgeGraphError "QAppsWiki graph must use schema_version qappswiki-graph-0")
  else match payload.nodes, payload.edges with
    | some nodes, some edges =>
        match payload.communities with
        | none => .error (knowledgeGraphError "QAppsWiki graph requires a community list")
        | some communities =>
            let collected ← withOverlays overlays nodes edges
            if maxNodes < collected.nodes.length ∨ maxEdges < collected.edges.length then
              .error (knowledgeGraphError "QAppsWiki graph exceeds supported dimensions")
            else
              let nodes ← loadNodes .empty collected.nodes
              let edges ← collected.edges.mapM (normalizedEdge nodes)
              checkCommunities communities
              .ok ⟨nodes, edges.map Subtype.val, by
                intro edge hedge
                obtain ⟨checked, -, rfl⟩ := List.mem_map.mp hedge
                exact checked.2⟩
    | _, _ => .error (knowledgeGraphError "QAppsWiki graph requires node and edge lists")

end Load

/-! ## Answers -/

structure NodeSummary (F : Type) where
  id : JsonText
  title : Json F
  type : Json F
  domains : Json F
  status : Json F
  provenanceStatus : Json F
  community : Json F
  communityLabel : Json F
  freshness : Json F
  freshnessRollup : Json F
  synthetic : Bool
  degree : Nat

structure PathAnswer (F : Type) where
  found : Bool
  source : JsonText
  target : JsonText
  path : List JsonText
  length : Option Nat
  nodes : List (NodeSummary F)
  edges : List (KnowledgeEdge F)

structure NeighborhoodAnswer (F : Type) where
  center : JsonText
  depth : Nat
  truncated : Bool
  nodes : List (NodeSummary F)
  edges : List (KnowledgeEdge F)

/-- The finite numbers that are zero, of either sign. -/
class ZeroTest (F : Type) where
  isZero : F → Bool

/-- `bool(value)` -/
def Json.truthy {F : Type} [ZeroTest F] : Json F → Bool
  | .null => false
  | .bool value => value
  | .int value => value ≠ 0
  | .float (.finite value) => !ZeroTest.isZero value
  | .float _ => true
  | .str text => !text.isEmpty
  | .arr items => !items.isEmpty
  | .obj members => !members.isEmpty

/-- `value or default` -/
def Json.orElse {F : Type} [ZeroTest F] (value default : Json F) : Json F :=
  if value.truthy then value else default

/-- `node.get("type") in _SYNTHETIC_TYPES`, which needs a value with a hash. -/
def isSynthetic {F : Type} (node : WikiNode F) : Except Exn Bool :=
  match node.type.unhashable? with
  | some error => .error error
  | none => .ok (node.type.isString "external" || node.type.isString "missing")

namespace QAppsWikiKnowledge

variable {F : Type} (knowledge : QAppsWikiKnowledge F)

def nodeIds : List JsonText := knowledge.nodes.rows.map Prod.fst

/-- `out_edges[node_id]` -/
def outEdges (nodeId : JsonText) : List (KnowledgeEdge F) :=
  knowledge.edges.filter fun edge => edge.source = nodeId

/-- `in_edges[node_id]` -/
def inEdges (nodeId : JsonText) : List (KnowledgeEdge F) :=
  knowledge.edges.filter fun edge => edge.target = nodeId

/-- `_degree[node_id]` -/
def degree (nodeId : JsonText) : Nat :=
  (knowledge.outEdges nodeId).length + (knowledge.inEdges nodeId).length

/-- The set of the nodes at the other end of an edge. -/
def adjacent (nodeId : JsonText) : List JsonText :=
  ((knowledge.outEdges nodeId).map (·.target) ++
    (knowledge.inEdges nodeId).map (·.source)).dedup

/-- `(-self._degree[item], item)` -/
def rankingKey (nodeId : JsonText) : Int ×ₗ List Nat :=
  toLex (-(knowledge.degree nodeId : Int), nodeId.codePoints)

def unknownNode (nodeId : JsonText) : Exn :=
  ⟨.keyError, "unknown QAppsWiki node: " ++ nodeId.shown, []⟩

/-- `_node_summary` -/
def nodeSummary [ZeroTest F] (nodeId : JsonText) : Except Exn (NodeSummary F) :=
  match knowledge.nodes.row? nodeId with
  | none => .error ⟨.keyError, nodeId.shown, []⟩
  | some (_, node) => do
      let synthetic ← isSynthetic node
      pure
        { id := nodeId
          title := node.title.orElse (.str nodeId)
          type := node.type.orElse (.str (JsonText.ofString "untyped"))
          domains := node.domains.orElse (.arr [])
          status := node.status
          provenanceStatus := node.provenanceStatus
          community := node.community
          communityLabel := node.communityLabel
          freshness := node.freshness
          freshnessRollup := node.freshnessRollup
          synthetic := synthetic
          degree := knowledge.degree nodeId }

/-- The type of the node is neither a list nor an object. -/
def HashableType (nodeId : JsonText) : Prop :=
  ∀ node, (nodeId, node) ∈ knowledge.nodes.rows → node.type.unhashable? = none

section Summaries

variable {knowledge} [ZeroTest F]

/-- A node of the graph has a summary, or its type cannot be looked up. -/
theorem nodeSummary_cases {nodeId : JsonText} (h : nodeId ∈ knowledge.nodeIds) :
    (knowledge.HashableType nodeId ∧
      ∃ summary, knowledge.nodeSummary nodeId = .ok summary ∧ summary.id = nodeId) ∨
    (¬knowledge.HashableType nodeId ∧
      ∃ error, knowledge.nodeSummary nodeId = .error error ∧ error.cls = .typeError) := by
  obtain ⟨⟨key, node⟩, hrow, hkey⟩ := List.mem_map.mp h
  obtain rfl : key = nodeId := hkey
  have hfound : knowledge.nodes.row? key = some (key, node) := Table.row?_of_mem hrow
  have htype : knowledge.HashableType key ↔ node.type.unhashable? = none := by
    refine ⟨fun hall => hall node hrow, fun hnone other hother => ?_⟩
    rw [← (Prod.mk.inj (knowledge.nodes.eq_of_key_eq hother hrow rfl)).2] at hnone
    exact hnone
  rw [nodeSummary, hfound, htype]
  cases hhash : node.type.unhashable? with
  | none =>
      simp only [isSynthetic, hhash]
      exact .inl ⟨trivial, _, rfl, rfl⟩
  | some error =>
      simp only [isSynthetic, hhash]
      refine .inr ⟨Option.some_ne_none error, error, rfl, ?_⟩
      cases htypes : node.type <;> rw [htypes] at hhash <;> cases hhash <;> rfl

/-- Nodes of the graph have summaries, in their order, when all their types can be looked
up. -/
theorem exists_nodeSummaries {ids : List JsonText} (h : ids ⊆ knowledge.nodeIds)
    (htypes : ∀ nodeId ∈ ids, knowledge.HashableType nodeId) :
    ∃ summaries, ids.mapM knowledge.nodeSummary = .ok summaries ∧
      summaries.map (·.id) = ids := by
  induction ids with
  | nil => exact ⟨[], rfl, rfl⟩
  | cons nodeId rest ih =>
      obtain ⟨hnode, hrest⟩ := List.cons_subset.mp h
      obtain ⟨htype, hothers⟩ := List.forall_mem_cons.mp htypes
      rcases nodeSummary_cases hnode with ⟨-, summary, hsummary, hid⟩ | ⟨hbad, -⟩
      · obtain ⟨summaries, hsummaries, hids⟩ := ih hrest hothers
        rw [List.mapM_cons, hsummary, hsummaries]
        exact ⟨summary :: summaries, rfl, by rw [List.map_cons, hid, hids]⟩
      · exact absurd htype hbad

/-- One type that cannot be looked up fails the summaries. -/
theorem nodeSummaries_error {ids : List JsonText} (h : ids ⊆ knowledge.nodeIds)
    {bad : JsonText} (hbad : bad ∈ ids) (htype : ¬knowledge.HashableType bad) :
    ∃ error, ids.mapM knowledge.nodeSummary = .error error ∧ error.cls = .typeError := by
  induction ids with
  | nil => cases hbad
  | cons nodeId rest ih =>
      obtain ⟨hnode, hrest⟩ := List.cons_subset.mp h
      rw [List.mapM_cons]
      rcases nodeSummary_cases hnode with ⟨hgood, summary, hsummary, -⟩ | ⟨-, error, herror, hcls⟩
      · have hmem : bad ∈ rest := (List.mem_cons.mp hbad).resolve_left
          fun heq => htype (heq ▸ hgood)
        obtain ⟨error, herror, hcls⟩ := ih hrest hmem
        rw [hsummary, herror]
        exact ⟨error, rfl, hcls⟩
      · rw [herror]
        exact ⟨error, rfl, hcls⟩

end Summaries

/-! ## Adjacency -/

/-- Some edge has these endpoints, in one direction or the other. -/
def Joined (a b : JsonText) : Prop := ∃ edge ∈ knowledge.edges, edge.joins a b

variable {knowledge}

theorem joins_iff {edge : KnowledgeEdge F} {a b : JsonText} :
    edge.joins a b = true ↔
      (edge.source = a ∧ edge.target = b) ∨ (edge.source = b ∧ edge.target = a) := by
  rw [KnowledgeEdge.joins, decide_eq_true_eq, ← Finset.coe_inj, Finset.coe_pair, Finset.coe_pair,
    Set.pair_eq_pair_iff]

theorem mem_adjacent {a b : JsonText} : b ∈ knowledge.adjacent a ↔ knowledge.Joined a b := by
  simp only [adjacent, outEdges, inEdges, List.mem_dedup, List.mem_append, List.mem_map,
    List.mem_filter, decide_eq_true_eq, Joined, joins_iff]
  constructor
  · rintro (⟨edge, ⟨hedge, hsource⟩, htarget⟩ | ⟨edge, ⟨hedge, htarget⟩, hsource⟩)
    · exact ⟨edge, hedge, .inl ⟨hsource, htarget⟩⟩
    · exact ⟨edge, hedge, .inr ⟨hsource, htarget⟩⟩
  · rintro ⟨edge, hedge, ⟨hsource, htarget⟩ | ⟨hsource, htarget⟩⟩
    · exact .inl ⟨edge, ⟨hedge, hsource⟩, htarget⟩
    · exact .inr ⟨edge, ⟨hedge, htarget⟩, hsource⟩

/-- The endpoints of the edges are nodes. -/
theorem Joined.mem_nodeIds {a b : JsonText} (h : knowledge.Joined a b) :
    b ∈ knowledge.nodeIds := by
  obtain ⟨edge, hedge, hjoins⟩ := h
  obtain ⟨hsource, htarget⟩ := knowledge.endpoints edge hedge
  rcases joins_iff.mp hjoins with ⟨-, rfl⟩ | ⟨rfl, -⟩
  · exact htarget
  · exact hsource

end QAppsWikiKnowledge

/-! ## Small graphs -/

instance unitZeroTest : ZeroTest Unit := ⟨fun _ => false⟩

def sampleText (text : String) : Json Unit := .str (JsonText.ofString text)

def sampleEdge (source target : String) : Option (WikiEdge Unit) :=
  some ⟨sampleText source, sampleText target, sampleText "related", sampleText "EXTRACTED", none⟩

/-- An artifact with these nodes and edges. -/
def sampleGraph (ids : List String) (edges : List (Option (WikiEdge Unit))) :
    JsonFile (GraphDocument Unit) :=
  ⟨"graph.json", .json 1000 (some
    { schemaVersion := sampleText "qappswiki-graph-0"
      nodes := some (ids.map fun id => some { id := sampleText id })
      edges := some edges
      communities := some [] })⟩

/-- Two nodes around a third, which has a loop, and one that stands alone. -/
def starGraph : JsonFile (GraphDocument Unit) :=
  sampleGraph ["a", "b", "c", "d"]
    [sampleEdge "b" "a", sampleEdge "b" "b", sampleEdge "b" "c", sampleEdge "c" "b"]

/-- One node whose type is a list. -/
def listTypedGraph : JsonFile (GraphDocument Unit) :=
  ⟨"graph.json", .json 1000 (some
    { schemaVersion := sampleText "qappswiki-graph-0"
      nodes := some [some { id := sampleText "a", type := .arr [sampleText "x"] }]
      edges := some []
      communities := some [] })⟩

theorem load_starGraph : ∃ knowledge, QAppsWikiKnowledge.load starGraph [] = .ok knowledge ∧
    knowledge.nodeIds = ["a", "b", "c", "d"].map JsonText.ofString := ⟨_, rfl, rfl⟩

end QhpcEcosystem
