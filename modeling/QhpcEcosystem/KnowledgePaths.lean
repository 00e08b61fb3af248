/-
Shortest paths in the knowledge graph.  The search records for every node it meets the node it
came from; the path is read back along these records, and the edges of the graph that join its
neighbours are returned with it.
-/
import QhpcEcosystem.BreadthFirstOrder
import QhpcEcosystem.KnowledgeGraph
import Mathlib.Data.List.Chain

namespace QhpcEcosystem

open BreadthFirst

namespace QAppsWikiKnowledge

variable {F : Type} (knowledge : QAppsWikiKnowledge F)

/-! ## The search -/

/-- Where the nodes met so far were met from. -/
abbrev Predecessors := Dict JsonText (Option JsonText)

/-- A candidate that has not been met is recorded and put into the queue. -/
def recordCandidate (current : JsonText) (state : Predecessors × List JsonText)
    (candidate : JsonText) : Predecessors × List JsonText :=
  if (state.1.row? candidate).isSome then state
  else (state.1.set (candidate, some current), state.2 ++ [candidate])

/-- `sorted(adjacent)` -/
def candidates (nodeId : JsonText) : List JsonText :=
  sortByKey JsonText.codePoints (knowledge.adjacent nodeId)

/-- The loop over the queue; none when it takes more rounds. -/
def searchPath (target : JsonText) : Nat → Predecessors → List JsonText → Option Predecessors
  | _, previous, [] => some previous
  | 0, _, _ :: _ => none
  | rounds + 1, previous, current :: queue =>
      if current = target then some previous
      else
        let next := (knowledge.candidates current).foldl (recordCandidate current) (previous, queue)
        searchPath target rounds next.1 next.2

/-- The loop that reads the path back; none when it takes more rounds. -/
def tracePath (previous : Predecessors) :
    Nat → Option JsonText → List JsonText → Except Exn (Option (List JsonText))
  | _, none, path => .ok (some path)
  | 0, some _, _ => .ok none
  | rounds + 1, some cursor, path =>
      match previous.row? cursor with
      | none => .error ⟨.keyError, cursor.shown, []⟩
      | some (_, next) => tracePath previous rounds next (path ++ [cursor])

/-- The edges that join the neighbours on a path. -/
def pathEdges (path : List JsonText) : List (KnowledgeEdge F) :=
  (path.zip path.tail).flatMap fun pair =>
    knowledge.edges.filter fun edge => edge.joins pair.1 pair.2

def noPath (source target : JsonText) : PathAnswer F := ⟨false, source, target, [], none, [], []⟩

/-- `shortest_path`, none when one of its loops takes more rounds. -/
def shortestPath [ZeroTest F] (rounds : Nat) (source target : JsonText) :
    Except Exn (Option (PathAnswer F)) :=
  if source ∉ knowledge.nodeIds then .error (unknownNode source)
  else if target ∉ knowledge.nodeIds then .error (unknownNode target)
  else match knowledge.searchPath target rounds (Table.empty.set (source, none)) [source] with
    | none => .ok none
    | some previous =>
        if (previous.row? target).isNone then .ok (some (noPath source target))
        else match tracePath previous rounds (some target) [] with
          | .error error => .error error
          | .ok none => .ok none
          | .ok (some cursors) => do
              let path := cursors.reverse
              let nodes ← path.mapM knowledge.nodeSummary
              .ok (some ⟨true, source, target, path, some (path.length - 1), nodes,
                knowledge.pathEdges path⟩)

variable {knowledge}

theorem mem_candidates {a b : JsonText} :
    b ∈ knowledge.candidates a ↔ knowledge.Joined a b := by
  rw [candidates, (sortByKey_perm _ _).mem_iff, mem_adjacent]

/-! ## What the search records -/

section Records

variable (knowledge)

/-- The nodes of a shortest route, the last one first; among the shortest routes it has the
least identifiers. -/
def LeastPath (source node : JsonText) (d : Nat) (nodes : List JsonText) : Prop :=
  LeastRoute knowledge.Joined JsonText.codePoints source node d nodes

/-- A node without a predecessor is the source; another one was met from the last but one of
its least path. -/
def CameFrom (source : JsonText) (found : List (JsonText × Nat))
    (row : JsonText × Option JsonText) : Prop :=
  match row.2 with
  | none => (row.1, 0) ∈ found
  | some parent => ∃ d nodes, (parent, d) ∈ found ∧ (row.1, d + 1) ∈ found ∧
      knowledge.LeastPath source parent d nodes ∧
      knowledge.LeastPath source row.1 (d + 1) (row.1 :: nodes)

/-- The records are those of the nodes of a breadth-first order. -/
structure Searching (source : JsonText) (previous : Predecessors)
    (done pending : List (JsonText × Nat)) : Prop where
  layered : Layered knowledge.Joined ⊤ source done pending
  ordered : Ordered knowledge.Joined JsonText.codePoints source done pending
  keys : previous.rows.map Prod.fst = (done ++ pending).map Prod.fst
  parents : ∀ row ∈ previous.rows, knowledge.CameFrom source (done ++ pending) row

end Records

variable {source target : JsonText} {previous : Predecessors}
  {done pending : List (JsonText × Nat)} {x : JsonText} {d : Nat}

theorem searching_start (source : JsonText) :
    knowledge.Searching source (Table.empty.set (source, none)) [] [(source, 0)] where
  layered := layered_start _ _ _
  ordered := ordered_start
  keys := rfl
  parents := by
    intro row hrow
    obtain rfl := List.mem_singleton.mp hrow
    exact List.mem_singleton.mpr rfl

theorem CameFrom.append {found : List (JsonText × Nat)} {row : JsonText × Option JsonText}
    (h : knowledge.CameFrom source found row) (fresh : List (JsonText × Nat)) :
    knowledge.CameFrom source (found ++ fresh) row := by
  obtain ⟨node, parent⟩ := row
  cases parent with
  | none => exact List.mem_append_left _ h
  | some parent =>
      obtain ⟨d, nodes, hparent, hnode, hleast⟩ := h
      exact ⟨d, nodes, List.mem_append_left _ hparent, List.mem_append_left _ hnode, hleast⟩

/-- A node has been met when it has a record. -/
theorem Searching.isSome_row?_iff (h : knowledge.Searching source previous done pending)
    (node : JsonText) :
    (previous.row? node).isSome ↔ node ∈ (done ++ pending).map Prod.fst := by
  rw [← h.keys, List.mem_map, Option.isSome_iff_exists]
  constructor
  · rintro ⟨row, hrow⟩
    exact ⟨row, Table.mem_of_row? hrow, Table.key_of_row? hrow⟩
  · rintro ⟨row, hrow, rfl⟩
    exact ⟨row, Table.row?_of_mem hrow⟩

/-- The neighbour that has not been met and has the least identifier gets a record. -/
theorem Searching.record (h : knowledge.Searching source previous done ((x, d) :: pending))
    {candidate : JsonText} (hjoined : knowledge.Joined x candidate)
    (hnew : candidate ∉ (done ++ (x, d) :: pending).map Prod.fst)
    (hfirst : ∀ next, knowledge.Joined x next →
      next ∉ (done ++ (x, d) :: pending).map Prod.fst →
        candidate.codePoints ≤ next.codePoints) :
    knowledge.Searching source (previous.set (candidate, some x)) done
      ((x, d) :: pending ++ [(candidate, d + 1)]) := by
  have hrows : (previous.set (candidate, some x)).rows =
      previous.rows ++ [(candidate, some x)] := by
    rw [← h.keys] at hnew
    exact if_neg hnew
  have hopen : (d : ℕ∞) < ⊤ := ENat.natCast_lt_top d
  constructor
  · exact h.layered.discover hopen hjoined hnew
  · exact h.ordered.discover h.layered hopen JsonText.codePoints_injective hjoined hnew hfirst
  · rw [hrows, List.map_append, h.keys, ← List.append_assoc,
      @List.map_append _ _ Prod.fst (done ++ _)]
    rfl
  · intro row hrow
    rw [hrows] at hrow
    rw [← List.append_assoc]
    rcases List.mem_append.mp hrow with hold | hlast
    · exact (h.parents row hold).append _
    · obtain rfl := List.mem_singleton.mp hlast
      have hx : (x, d) ∈ done ++ (x, d) :: pending :=
        List.mem_append_right _ List.mem_cons_self
      obtain ⟨nodes, hleast⟩ := h.ordered.least _ hx
      refine ⟨d, nodes, List.mem_append_left _ hx, ?_, hleast, ?_⟩
      · exact List.mem_append_right _ (List.mem_singleton.mpr rfl)
      · exact h.ordered.least_new h.layered hopen hjoined hnew hleast

/-- The loop over the candidates of a node leaves none of them without a record. -/
theorem Searching.foldl_recordCandidate
    (h : knowledge.Searching source previous done ((x, d) :: pending)) {items : List JsonText}
    (hjoined : ∀ candidate ∈ items, knowledge.Joined x candidate)
    (hsorted : items.Pairwise fun first second => first.codePoints ≤ second.codePoints)
    (hrest : ∀ next, knowledge.Joined x next →
      next ∈ items ∨ next ∈ (done ++ (x, d) :: pending).map Prod.fst) :
    ∃ waiting, knowledge.Searching source
        (items.foldl (recordCandidate x) (previous, pending.map Prod.fst)).1 done
        ((x, d) :: waiting) ∧
      (items.foldl (recordCandidate x) (previous, pending.map Prod.fst)).2 =
        waiting.map Prod.fst ∧
      (∀ item ∈ pending, item ∈ waiting) ∧
      ∀ candidate ∈ items, candidate ∈ (done ++ (x, d) :: waiting).map Prod.fst := by
  induction items generalizing previous pending with
  | nil => exact ⟨pending, h, rfl, fun _ hitem => hitem, fun _ hmem => absurd hmem List.not_mem_nil⟩
  | cons candidate rest ih =>
      have hothers : ∀ other ∈ rest, knowledge.Joined x other :=
        fun other hother => hjoined other (List.mem_cons_of_mem _ hother)
      obtain ⟨hleast, hsorted⟩ := List.pairwise_cons.mp hsorted
      by_cases hmet : candidate ∈ (done ++ (x, d) :: pending).map Prod.fst
      · have hskip : recordCandidate x (previous, pending.map Prod.fst) candidate =
            (previous, pending.map Prod.fst) := if_pos ((h.isSome_row?_iff candidate).mpr hmet)
        obtain ⟨waiting, hsearch, hqueue, hkept, hall⟩ := ih h hothers hsorted fun next hnext =>
          (hrest next hnext).elim
            (fun hmem => (List.mem_cons.mp hmem).elim (fun heq => .inr (heq ▸ hmet)) .inl) .inr
        rw [List.foldl_cons, hskip]
        refine ⟨waiting, hsearch, hqueue, hkept, ?_⟩
        intro other hother
        rcases List.mem_cons.mp hother with rfl | hother
        · obtain ⟨item, hitem, hkey⟩ := List.mem_map.mp hmet
          refine List.mem_map.mpr ⟨item, ?_, hkey⟩
          simp only [List.mem_append, List.mem_cons] at hitem ⊢
          rcases hitem with hdone | rfl | hpending
          · exact .inl hdone
          · exact .inr (.inl rfl)
          · exact .inr (.inr (hkept item hpending))
        · exact hall other hother
      · have hjoin := hjoined candidate List.mem_cons_self
        have hrecord : recordCandidate x (previous, pending.map Prod.fst) candidate =
            (previous.set (candidate, some x),
              (pending ++ [(candidate, d + 1)]).map Prod.fst) := by
          rw [recordCandidate, if_neg (fun hsome => hmet ((h.isSome_row?_iff candidate).mp hsome)),
            List.map_append]
          rfl
        have hfirst : ∀ next, knowledge.Joined x next →
            next ∉ (done ++ (x, d) :: pending).map Prod.fst →
              candidate.codePoints ≤ next.codePoints := by
          intro next hnext hnew
          rcases List.mem_cons.mp ((hrest next hnext).resolve_right hnew) with rfl | hmem
          · exact le_rfl
          · exact hleast next hmem
        have hcovered : ∀ next, knowledge.Joined x next → next ∈ rest ∨
            next ∈ (done ++ ((x, d) :: pending ++ [(candidate, d + 1)])).map Prod.fst := by
          intro next hnext
          rw [← List.append_assoc, List.map_append, List.mem_append]
          rcases hrest next hnext with hmem | hold
          · rcases List.mem_cons.mp hmem with rfl | hmem
            · exact .inr (.inr (List.mem_singleton.mpr rfl))
            · exact .inl hmem
          · exact .inr (.inl hold)
        obtain ⟨waiting, hsearch, hqueue, hkept, hall⟩ :=
          ih (h.record hjoin hmet hfirst) hothers hsorted hcovered
        rw [List.foldl_cons, hrecord]
        refine ⟨waiting, hsearch, hqueue, ?_, ?_⟩
        · exact fun item hitem => hkept item (List.mem_append_left _ hitem)
        · intro other hother
          rcases List.mem_cons.mp hother with rfl | hother
          · have hlast := hkept (other, d + 1)
              (List.mem_append_right _ (List.mem_singleton.mpr rfl))
            exact List.mem_map.mpr
              ⟨_, List.mem_append_right _ (List.mem_cons_of_mem _ hlast), rfl⟩
          · exact hall other hother

/-- A node is left behind when all its neighbours have records. -/
theorem Searching.leave (h : knowledge.Searching source previous done ((x, d) :: pending))
    (hclosed : ∀ next, knowledge.Joined x next →
      next ∈ (done ++ (x, d) :: pending).map Prod.fst) :
    knowledge.Searching source previous (done ++ [(x, d)]) pending := by
  have hsame : done ++ [(x, d)] ++ pending = done ++ (x, d) :: pending := by
    rw [List.append_assoc, List.singleton_append]
  constructor
  · exact h.layered.leave fun _ => hclosed
  · exact h.ordered.leave
  · exact hsame ▸ h.keys
  · exact hsame ▸ h.parents

/-- With a round for each node the search ends, at its target or with everything met. -/
theorem Searching.searchPath_ends (h : knowledge.Searching source previous done pending)
    (hsource : source ∈ knowledge.nodeIds) (target : JsonText) {rounds : Nat}
    (hrounds : knowledge.nodeIds.length ≤ rounds + done.length) :
    ∃ found done' pending',
      knowledge.searchPath target rounds previous (pending.map Prod.fst) = some found ∧
      knowledge.Searching source found done' pending' ∧
      (pending' = [] ∨ target ∈ (done' ++ pending').map Prod.fst) := by
  induction rounds generalizing previous done pending with
  | zero =>
      have hlength := h.layered.length_le hsource fun _ _ hjoined => hjoined.mem_nodeIds
      obtain rfl : pending = [] := List.length_eq_zero_iff.mp (by omega)
      exact ⟨previous, done, [], rfl, h, .inl rfl⟩
  | succ rounds ih =>
      cases pending with
      | nil => exact ⟨previous, done, [], rfl, h, .inl rfl⟩
      | cons item pending =>
          obtain ⟨x, d⟩ := item
          by_cases htarget : x = target
          · rw [List.map_cons, searchPath, if_pos htarget]
            refine ⟨previous, done, (x, d) :: pending, rfl, h, .inr ?_⟩
            exact List.mem_map.mpr ⟨_, List.mem_append_right _ List.mem_cons_self, htarget⟩
          · obtain ⟨waiting, hsearch, hqueue, -, hall⟩ := h.foldl_recordCandidate
              (fun candidate hcandidate => (mem_candidates (a := x)).mp hcandidate)
              (pairwise_sortByKey _ _) fun next hnext => .inl (mem_candidates.mpr hnext)
            rw [List.map_cons, searchPath, if_neg htarget]
            simp only [hqueue]
            apply ih (hsearch.leave fun next hnext => hall next (mem_candidates.mpr hnext))
            rw [List.length_append, List.length_singleton]
            omega

/-- More rounds give the same records. -/
theorem searchPath_mono {rounds rounds' : Nat} {queue : List JsonText} {found : Predecessors}
    (hle : rounds ≤ rounds') (h : knowledge.searchPath target rounds previous queue = some found) :
    knowledge.searchPath target rounds' previous queue = some found := by
  induction rounds generalizing rounds' previous queue with
  | zero =>
      cases queue with
      | nil =>
          rw [searchPath] at h ⊢
          exact h
      | cons current queue => cases h
  | succ rounds ih =>
      cases rounds' with
      | zero => exact absurd hle (Nat.not_succ_le_zero rounds)
      | succ rounds' =>
          cases queue with
          | nil =>
              rw [searchPath] at h ⊢
              exact h
          | cons current queue =>
              rw [searchPath] at h ⊢
              by_cases htarget : current = target
              · rw [if_pos htarget] at h ⊢
                exact h
              · rw [if_neg htarget] at h ⊢
                exact ih (Nat.le_of_succ_le_succ hle) h

/-! ## Reading the path back -/

theorem tracePath_none (rounds : Nat) (path : List JsonText) :
    tracePath previous rounds none path = .ok (some path) := by
  cases rounds with
  | zero => rfl
  | succ rounds => rfl

theorem tracePath_some {parent : Option JsonText} (hrow : previous.row? x = some (x, parent))
    (rounds : Nat) (path : List JsonText) :
    tracePath previous (rounds + 1) (some x) path =
      tracePath previous rounds parent (path ++ [x]) := by
  rw [tracePath, hrow]

theorem Searching.exists_row? (h : knowledge.Searching source previous done pending)
    (hx : (x, d) ∈ done ++ pending) : ∃ parent, previous.row? x = some (x, parent) ∧
      knowledge.CameFrom source (done ++ pending) (x, parent) := by
  have hsome := (h.isSome_row?_iff x).mpr (List.mem_map.mpr ⟨_, hx, rfl⟩)
  obtain ⟨⟨node, parent⟩, hfound⟩ := Option.isSome_iff_exists.mp hsome
  obtain rfl : node = x := Table.key_of_row? hfound
  exact ⟨parent, hfound, h.parents _ (Table.mem_of_row? hfound)⟩

/-- Reading back the records of a node that was met gives its least path. -/
theorem Searching.tracePath_eq (h : knowledge.Searching source previous done pending)
    (hx : (x, d) ∈ done ++ pending) :
    ∃ nodes, knowledge.LeastPath source x d nodes ∧ ∀ rounds, d < rounds → ∀ path,
      tracePath previous rounds (some x) path = .ok (some (path ++ nodes)) := by
  have hunique : ∀ {node n m}, (node, n) ∈ done ++ pending → (node, m) ∈ done ++ pending → n = m :=
    fun hn hm => (h.layered.distance _ hn).unique (h.layered.distance _ hm)
  induction d generalizing x with
  | zero =>
      obtain ⟨parent, hrow, hcame⟩ := h.exists_row? hx
      cases parent with
      | none =>
          obtain ⟨nodes, hleast⟩ := h.ordered.least _ hx
          obtain rfl : nodes = [x] := by
            cases hleast.1
            rfl
          refine ⟨[x], hleast, ?_⟩
          intro rounds hrounds path
          obtain ⟨rounds, rfl⟩ := Nat.exists_eq_add_one.mpr hrounds
          rw [tracePath_some hrow, tracePath_none]
      | some parent =>
          obtain ⟨e, -, -, hnode, -⟩ := hcame
          exact absurd (hunique hnode hx) (Nat.succ_ne_zero e)
  | succ d ih =>
      obtain ⟨parent, hrow, hcame⟩ := h.exists_row? hx
      cases parent with
      | none => exact absurd (hunique hx hcame) (Nat.succ_ne_zero d)
      | some parent =>
          obtain ⟨e, nodes, hparent, hnode, hleast, hextended⟩ := hcame
          obtain rfl : e = d := Nat.succ.inj (hunique hnode hx)
          obtain ⟨traced, htraced, htrace⟩ := ih hparent
          obtain rfl := htraced.unique JsonText.codePoints_injective hleast
          refine ⟨x :: traced, hextended, ?_⟩
          intro rounds hrounds path
          obtain ⟨rounds, rfl⟩ := Nat.exists_eq_add_one.mpr (Nat.zero_lt_of_lt hrounds)
          rw [tracePath_some hrow, htrace rounds (by omega), List.append_assoc,
            List.singleton_append]

/-! ## The returned edges -/

/-- Filters that select different items, put together. -/
theorem flatMap_filter_perm {ι β : Type} {keys : List ι} {items : List β} {p : ι → β → Bool}
    (h : keys.Pairwise fun a b => ∀ item, p a item = true → p b item = false) :
    (keys.flatMap fun key => items.filter (p key)).Perm
      (items.filter fun item => keys.any fun key => p key item) := by
  induction keys with
  | nil => simp
  | cons key rest ih =>
      obtain ⟨hkey, hrest⟩ := List.pairwise_cons.mp h
      let selected := items.filter fun item => (key :: rest).any fun other => p other item
      have hfirst : selected.filter (p key) = items.filter (p key) := by
        rw [List.filter_filter]
        apply List.filter_congr
        intro item _
        rw [List.any_cons, Bool.and_or_distrib_left, Bool.and_self]
        exact Bool.or_eq_left_iff_imp.mpr fun hboth => (Bool.and_eq_true_iff.mp hboth).1
      have hothers : selected.filter (fun item => !p key item) =
          items.filter fun item => rest.any fun other => p other item := by
        rw [List.filter_filter]
        apply List.filter_congr
        intro item _
        rw [List.any_cons]
        cases hselect : p key item with
        | false => rfl
        | true =>
            have hnone : (rest.any fun other => p other item) = false := by
              rw [List.any_eq_false]
              intro other hother
              rw [hkey other hother item hselect]
              exact Bool.false_ne_true
            rw [hnone]
            rfl
      rw [List.flatMap_cons]
      have hsplit := List.filter_append_perm (p key) selected
      rw [hfirst, hothers] at hsplit
      exact ((ih hrest).append_left _).trans hsplit

/-- The edge joins two neighbours on the path. -/
def joinsNeighbours (path : List JsonText) (edge : KnowledgeEdge F) : Bool :=
  (path.zip path.tail).any fun pair => edge.joins pair.1 pair.2

/-- On a path that repeats no node every edge joins at most one pair of neighbours. -/
theorem pairwise_joins {path : List JsonText} (hnodup : path.Nodup) :
    (path.zip path.tail).Pairwise fun first second => ∀ edge : KnowledgeEdge F,
      edge.joins first.1 first.2 = true → edge.joins second.1 second.2 = false := by
  induction path with
  | nil => exact .nil
  | cons x rest ih =>
      obtain ⟨hx, hrest⟩ := List.nodup_cons.mp hnodup
      cases rest with
      | nil => exact .nil
      | cons y rest =>
          apply List.pairwise_cons.mpr
          refine ⟨?_, ih hrest⟩
          rintro ⟨a, b⟩ hpair edge hfirst
          obtain ⟨ha, hb⟩ := List.of_mem_zip hpair
          have hb : b ∈ y :: rest := List.mem_of_mem_tail hb
          have hax : a ≠ x := fun heq => hx (heq ▸ ha)
          have hbx : b ≠ x := fun heq => hx (heq ▸ hb)
          rw [Bool.eq_false_iff]
          intro hsecond
          rcases joins_iff.mp hfirst with ⟨hsource, -⟩ | ⟨-, htarget⟩
          · rcases joins_iff.mp hsecond with ⟨hsource', -⟩ | ⟨hsource', -⟩
            · exact hax (hsource'.symm.trans hsource)
            · exact hbx (hsource'.symm.trans hsource)
          · rcases joins_iff.mp hsecond with ⟨-, htarget'⟩ | ⟨-, htarget'⟩
            · exact hbx (htarget'.symm.trans htarget)
            · exact hax (htarget'.symm.trans htarget)

theorem pathEdges_perm {path : List JsonText} (hnodup : path.Nodup) :
    (knowledge.pathEdges path).Perm (knowledge.edges.filter (joinsNeighbours path)) :=
  flatMap_filter_perm (pairwise_joins hnodup)

/-! ## Shortest paths -/

/-- The path of an answer and its length. -/
structure IsShortestPath (knowledge : QAppsWikiKnowledge F) (source target : JsonText)
    (answer : PathAnswer F) : Prop where
  starts : answer.path.head? = some source
  ends : answer.path.getLast? = some target
  nodup : answer.path.Nodup
  joined : answer.path.IsChain knowledge.Joined
  length_eq : answer.length = some (answer.path.length - 1)
  shortest : IsLeast {n | Walk knowledge.Joined source n target} (answer.path.length - 1)
  edges_perm : answer.edges.Perm (knowledge.edges.filter (joinsNeighbours answer.path))

/-- With a round for each node an answer is given.  A path is found exactly between connected
nodes, and no walk between them is shorter. -/
def AnswersShortestPath [ZeroTest F] (knowledge : QAppsWikiKnowledge F)
    (source target : JsonText) : Prop :=
  ∃ answer : PathAnswer F,
    (∀ rounds, knowledge.nodeIds.length ≤ rounds →
      knowledge.shortestPath rounds source target = .ok (some answer)) ∧
    (answer.found = true ↔ Relation.ReflTransGen knowledge.Joined source target) ∧
    (answer.found = true → knowledge.IsShortestPath source target answer)

section Results

variable [ZeroTest F]

/-- A node that has been met is answered with its least path, unless the type of a node on it
cannot be looked up. -/
theorem Searching.shortestPath_met (h : knowledge.Searching source previous done pending)
    (hsource : source ∈ knowledge.nodeIds) (hmet : (target, d) ∈ done ++ pending)
    (hsearched : ∀ rounds, knowledge.nodeIds.length ≤ rounds →
      knowledge.searchPath target rounds (Table.empty.set (source, none)) [source] =
        some previous) :
    ∃ nodes, Distance knowledge.Joined source d target ∧
      knowledge.LeastPath source target d nodes ∧
      ((∀ node ∈ nodes, knowledge.HashableType node) →
        knowledge.AnswersShortestPath source target) ∧
      ((∃ node ∈ nodes, ¬knowledge.HashableType node) →
        ∃ error : Exn, error.cls = .typeError ∧ ∀ rounds, knowledge.nodeIds.length ≤ rounds →
          knowledge.shortestPath rounds source target = .error error) := by
  have hdistance := h.layered.distance _ hmet
  obtain ⟨nodes, hleast, htrace⟩ := h.tracePath_eq hmet
  have hroute := hleast.1
  have hnodup := hroute.nodup hdistance
  have hsub : nodes ⊆ knowledge.nodeIds := hroute.subset hsource fun _ _ h => h.mem_nodeIds
  have htarget : target ∈ knowledge.nodeIds := hsub (List.mem_of_mem_head? hroute.head?_eq)
  have hlength := hroute.length_eq
  have hle := (List.subperm_of_subset hnodup hsub).length_le
  have hsome : ¬(previous.row? target).isNone = true := by
    rw [Option.isNone_iff_eq_none, ← Option.not_isSome_iff_eq_none, h.isSome_row?_iff]
    exact not_not.mpr (List.mem_map.mpr ⟨_, hmet, rfl⟩)
  -- with enough rounds the call ends in the summaries of the path
  have hruns : ∀ rounds, knowledge.nodeIds.length ≤ rounds →
      knowledge.shortestPath rounds source target =
        (nodes.reverse.mapM knowledge.nodeSummary).bind fun summaries =>
          .ok (some ⟨true, source, target, nodes.reverse, some (nodes.reverse.length - 1),
            summaries, knowledge.pathEdges nodes.reverse⟩) := by
    intro rounds hrounds
    rw [shortestPath, if_neg (not_not.mpr hsource), if_neg (not_not.mpr htarget),
      hsearched rounds hrounds]
    simp only [if_neg hsome, htrace rounds (by omega), List.nil_append]
    rfl
  refine ⟨nodes, hdistance, hleast, fun htypes => ?_, fun hfails => ?_⟩
  · obtain ⟨summaries, hsummaries, -⟩ := exists_nodeSummaries (List.reverse_subset.mpr hsub)
      fun node hnode => htypes node (List.mem_reverse.mp hnode)
    refine ⟨⟨true, source, target, nodes.reverse, some (nodes.reverse.length - 1), summaries,
      knowledge.pathEdges nodes.reverse⟩, ?_, ?_, ?_⟩
    · intro rounds hrounds
      rw [hruns rounds hrounds, hsummaries]
      rfl
    · exact ⟨fun _ => exists_walk_iff.mp ⟨d, hroute.walk⟩, fun _ => rfl⟩
    · intro _
      have hpath : nodes.reverse.length - 1 = d := by
        rw [List.length_reverse, hlength, Nat.add_sub_cancel]
      exact {
        starts := by rw [List.head?_reverse, hroute.getLast?_eq]
        ends := by rw [List.getLast?_reverse, hroute.head?_eq]
        nodup := List.nodup_reverse.mpr hnodup
        joined := List.isChain_reverse.mpr hroute.isChain
        length_eq := rfl
        shortest := hpath ▸ hdistance
        edges_perm := pathEdges_perm (List.nodup_reverse.mpr hnodup) }
  · obtain ⟨node, hnode, hbad⟩ := hfails
    obtain ⟨error, herror, hcls⟩ := nodeSummaries_error (List.reverse_subset.mpr hsub)
      (List.mem_reverse.mpr hnode) hbad
    refine ⟨error, hcls, fun rounds hrounds => ?_⟩
    rw [hruns rounds hrounds, herror]
    rfl

/-- A node that has not been met when the queue is empty is not connected to the source. -/
theorem Searching.shortestPath_unmet (h : knowledge.Searching source previous done [])
    (hsource : source ∈ knowledge.nodeIds) (htarget : target ∈ knowledge.nodeIds)
    (hunmet : target ∉ (done ++ []).map Prod.fst)
    (hsearched : ∀ rounds, knowledge.nodeIds.length ≤ rounds →
      knowledge.searchPath target rounds (Table.empty.set (source, none)) [source] =
        some previous) :
    (¬∃ n, Distance knowledge.Joined source n target) ∧
      knowledge.AnswersShortestPath source target := by
  have hfar : ¬∃ n, Distance knowledge.Joined source n target := by
    rintro ⟨n, hdistance⟩
    have hitem := h.layered.complete le_top hdistance
    exact hunmet (List.mem_map.mpr ⟨_, hitem, rfl⟩)
  refine ⟨hfar, noPath source target, fun rounds hrounds => ?_, ⟨nofun, fun hconnected => ?_⟩,
    nofun⟩
  · have hnone : (previous.row? target).isNone = true := by
      rw [Option.isNone_iff_eq_none, ← Option.not_isSome_iff_eq_none, h.isSome_row?_iff]
      exact hunmet
    rw [shortestPath, if_neg (not_not.mpr hsource), if_neg (not_not.mpr htarget),
      hsearched rounds hrounds]
    exact if_pos hnone
  · obtain ⟨n, hwalk⟩ := exists_walk_iff.mpr hconnected
    obtain ⟨m, -, hdistance⟩ := hwalk.exists_distance
    exact absurd ⟨m, hdistance⟩ hfar

end Results

/-- The call is answered exactly when no node of the least path between the nodes has a list
or an object for its type. -/
theorem shortestPath_shortest_iff [ZeroTest F] (knowledge : QAppsWikiKnowledge F)
    {source target : JsonText} (hsource : source ∈ knowledge.nodeIds)
    (htarget : target ∈ knowledge.nodeIds) :
    knowledge.AnswersShortestPath source target ↔
      ∀ d nodes, Distance knowledge.Joined source d target →
        knowledge.LeastPath source target d nodes →
          ∀ node ∈ nodes, knowledge.HashableType node := by
  obtain ⟨previous, done, pending, hresult, hsearch, hend⟩ :=
    (searching_start source).searchPath_ends hsource target (Nat.le_refl knowledge.nodeIds.length)
  have hsearched : ∀ rounds, knowledge.nodeIds.length ≤ rounds →
      knowledge.searchPath target rounds (Table.empty.set (source, none)) [source] =
        some previous := fun rounds hle => searchPath_mono hle hresult
  by_cases hmet : target ∈ (done ++ pending).map Prod.fst
  · obtain ⟨⟨key, d⟩, hitem, hkey⟩ := List.mem_map.mp hmet
    obtain rfl : target = key := hkey.symm
    obtain ⟨nodes, hdistance, hleast, hanswers, hraises⟩ :=
      hsearch.shortestPath_met hsource hitem hsearched
    constructor
    · rintro ⟨answer, hruns, -⟩ e other he hother node hnode
      obtain rfl := he.unique hdistance
      obtain rfl := LeastRoute.unique JsonText.codePoints_injective hother hleast
      by_contra hbad
      obtain ⟨error, -, herror⟩ := hraises ⟨node, hnode, hbad⟩
      cases (hruns _ le_rfl).symm.trans (herror _ le_rfl)
    · exact fun htypes => hanswers (htypes d nodes hdistance hleast)
  · obtain rfl : pending = [] := hend.resolve_right hmet
    obtain ⟨hfar, hanswers⟩ := hsearch.shortestPath_unmet hsource htarget hmet hsearched
    exact ⟨fun _ d nodes hdistance => absurd ⟨d, hdistance⟩ hfar, fun _ => hanswers⟩

theorem shortestPath_shortest_iff_star :
    ∃ knowledge, load starGraph [] = .ok knowledge ∧
      (knowledge.AnswersShortestPath (JsonText.ofString "a") (JsonText.ofString "c") ↔
        ∀ d nodes, Distance knowledge.Joined (JsonText.ofString "a") d (JsonText.ofString "c") →
          knowledge.LeastPath (JsonText.ofString "a") (JsonText.ofString "c") d nodes →
            ∀ node ∈ nodes, knowledge.HashableType node) := by
  obtain ⟨knowledge, hload, hids⟩ := load_starGraph
  refine ⟨knowledge, hload, shortestPath_shortest_iff knowledge ?_ ?_⟩
  · rw [hids]
    decide
  · rw [hids]
    decide

/-- The path from a node whose type is a list to itself. -/
theorem load_listTypedGraph : ∃ knowledge, load listTypedGraph [] = .ok knowledge ∧
    knowledge.nodeIds = ["a"].map JsonText.ofString ∧
    (knowledge.shortestPath 1 (JsonText.ofString "a") (JsonText.ofString "a")).toOption = none :=
  ⟨_, rfl, rfl, rfl⟩

theorem listTyped_shortestPath_raises :
    ∃ knowledge, load listTypedGraph [] = .ok knowledge ∧
      JsonText.ofString "a" ∈ knowledge.nodeIds ∧
      ¬knowledge.AnswersShortestPath (JsonText.ofString "a") (JsonText.ofString "a") := by
  obtain ⟨knowledge, hload, hids, hraises⟩ := load_listTypedGraph
  refine ⟨knowledge, hload, ?_, ?_⟩
  · rw [hids]
    decide
  · rintro ⟨answer, hruns, -⟩
    rw [hruns 1 (by rw [hids]; decide)] at hraises
    cases hraises

/-- Three edges join the nodes of the path, two of them the same pair; the loop is left out. -/
example : (do
    let knowledge ← load starGraph []
    let answer ← knowledge.shortestPath 4 (JsonText.ofString "a") (JsonText.ofString "c")
    .ok (answer.map fun (path : PathAnswer Unit) => (path.path, path.length, path.edges.length))) =
      .ok (some (["a", "b", "c"].map JsonText.ofString, some 2, 3)) := rfl

end QAppsWikiKnowledge

end QhpcEcosystem
