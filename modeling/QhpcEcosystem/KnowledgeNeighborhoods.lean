/-
Neighbourhoods in the knowledge graph.  The search stops at a bounded depth and at a bounded
number of nodes; within these bounds the nearest nodes come first.
-/
import QhpcEcosystem.BreadthFirstOrder
import QhpcEcosystem.KnowledgeGraph
import Mathlib.Data.Set.Card

namespace QhpcEcosystem

open BreadthFirst

/-- `_bounded_limit` -/
def boundedLimit (value : Int) (default maximum : Nat) : Nat :=
  if value ≤ 0 then default else min value.toNat maximum

/-- `min(max(depth, 1), 2)` -/
def boundedDepth (depth : Int) : Nat := (min (max depth 1) 2).toNat

namespace QAppsWikiKnowledge

variable {F : Type} (knowledge : QAppsWikiKnowledge F)

/-! ## The search -/

/-- The items by descending degree, then by identifier. -/
def ranked (ids : List JsonText) : List JsonText := sortByKey knowledge.rankingKey ids

/-- The loop over the candidates of a node, which stops at the limit. -/
def visitCandidates (limit distance : Nat) :
    List JsonText → List JsonText × List (JsonText × Nat) →
      List JsonText × List (JsonText × Nat)
  | [], state => state
  | candidate :: rest, (seen, queue) =>
      if candidate ∈ seen then visitCandidates limit distance rest (seen, queue)
      else
        let next := (seen ++ [candidate], queue ++ [(candidate, distance + 1)])
        if limit ≤ next.1.length then next else visitCandidates limit distance rest next

/-- The loop over the queue; none when it takes more rounds. -/
def explore (depth limit : Nat) :
    Nat → List JsonText → List (JsonText × Nat) → Option (List JsonText)
  | _, seen, [] => some seen
  | 0, seen, _ :: _ => if limit ≤ seen.length then some seen else none
  | rounds + 1, seen, (current, distance) :: queue =>
      if limit ≤ seen.length then some seen
      else if depth ≤ distance then explore depth limit rounds seen queue
      else
        let next := visitCandidates limit distance (knowledge.ranked (knowledge.adjacent current))
          (seen, queue)
        explore depth limit rounds next.1 next.2

/-- The edges of `_subgraph`. -/
def edgesBetween (selected : List JsonText) : List (KnowledgeEdge F) :=
  knowledge.edges.filter fun edge => edge.source ∈ selected ∧ edge.target ∈ selected

/-- `neighborhood`, none when its loop takes more rounds. -/
def neighborhood [ZeroTest F] (rounds : Nat) (nodeId : JsonText) (depth limit : Int) :
    Except Exn (Option (NeighborhoodAnswer F)) :=
  if nodeId ∉ knowledge.nodeIds then .error (unknownNode nodeId)
  else
    let bound := boundedLimit limit 100 200
    match knowledge.explore (boundedDepth depth) bound rounds [nodeId] [(nodeId, 0)] with
    | none => .ok none
    | some seen => do
        let nodes ← (knowledge.ranked seen).mapM knowledge.nodeSummary
        .ok (some ⟨nodeId, boundedDepth depth, bound ≤ seen.length, nodes,
          knowledge.edgesBetween seen⟩)

/-! ## What has been seen -/

/-- The nodes within a distance. -/
def ball (center : JsonText) (depth : Nat) : Set JsonText :=
  { node | ∃ n ≤ depth, Distance knowledge.Joined center n node }

/-- The nodes within a distance that come before a node: the nearer ones, and those as near
whose route comes first by degrees and identifiers. -/
def preceding (center : JsonText) (depth : Nat) (node : JsonText) : Set JsonText :=
  { other | other ∈ knowledge.ball center depth ∧ ∃ n d, Distance knowledge.Joined center n other ∧
    Distance knowledge.Joined center d node ∧
    Before knowledge.Joined knowledge.rankingKey center (other, n) (node, d) }

/-- The nodes of a breadth-first order, no more than the limit. -/
structure Explored (center : JsonText) (depth limit : Nat) (seen : List JsonText)
    (done queue : List (JsonText × Nat)) : Prop where
  layered : Layered knowledge.Joined depth center done queue
  ordered : Ordered knowledge.Joined knowledge.rankingKey center done queue
  seen_eq : seen = (done ++ queue).map Prod.fst
  length_le : seen.length ≤ limit

variable {knowledge} {center x : JsonText} {depth limit d : Nat} {seen : List JsonText}
  {done queue : List (JsonText × Nat)}

theorem boundedLimit_pos (value : Int) : 0 < boundedLimit value 100 200 := by
  unfold boundedLimit
  split
  · decide
  · omega

theorem rankingKey_injective : Function.Injective knowledge.rankingKey := fun _ _ h =>
  JsonText.codePoints_injective (Prod.mk.inj (toLex.injective h)).2

theorem mem_ranked {node : JsonText} {ids : List JsonText} :
    node ∈ knowledge.ranked ids ↔ node ∈ ids :=
  (sortByKey_perm _ ids).mem_iff

theorem explored_start (hlimit : 0 < limit) :
    knowledge.Explored center depth limit [center] [] [(center, 0)] where
  layered := layered_start _ _ _
  ordered := ordered_start
  seen_eq := rfl
  length_le := hlimit

/-- The first new neighbour is seen while there is room for it. -/
theorem Explored.visit (h : knowledge.Explored center depth limit seen done ((x, d) :: queue))
    (hopen : d < depth) {candidate : JsonText} (hjoined : knowledge.Joined x candidate)
    (hnew : candidate ∉ seen) (hroom : seen.length < limit)
    (hfirst : ∀ next, knowledge.Joined x next → next ∉ seen →
      knowledge.rankingKey candidate ≤ knowledge.rankingKey next) :
    knowledge.Explored center depth limit (seen ++ [candidate]) done
      ((x, d) :: queue ++ [(candidate, d + 1)]) where
  layered := by
    rw [h.seen_eq] at hnew
    exact h.layered.discover (Nat.cast_lt.mpr hopen) hjoined hnew
  ordered := by
    rw [h.seen_eq] at hnew hfirst
    exact h.ordered.discover h.layered (Nat.cast_lt.mpr hopen) rankingKey_injective hjoined hnew
      hfirst
  seen_eq := by
    rw [h.seen_eq, ← List.append_assoc, @List.map_append _ _ Prod.fst (done ++ _)]
    rfl
  length_le := by
    rw [List.length_append, List.length_singleton]
    exact hroom

/-- Below the limit the loop has seen all its candidates. -/
theorem Explored.visitCandidates
    (h : knowledge.Explored center depth limit seen done ((x, d) :: queue)) (hopen : d < depth)
    (hroom : seen.length < limit) {items : List JsonText}
    (hjoined : ∀ candidate ∈ items, knowledge.Joined x candidate)
    (hsorted : items.Pairwise fun first second =>
      knowledge.rankingKey first ≤ knowledge.rankingKey second)
    (hrest : ∀ next, knowledge.Joined x next → next ∈ items ∨ next ∈ seen) :
    ∃ seen' queue', QAppsWikiKnowledge.visitCandidates limit d items (seen, queue) =
        (seen', queue') ∧
      knowledge.Explored center depth limit seen' done ((x, d) :: queue') ∧
      seen ⊆ seen' ∧ (seen'.length < limit → items ⊆ seen') := by
  induction items generalizing seen queue with
  | nil =>
      exact ⟨seen, queue, rfl, h, List.Subset.refl seen, fun _ => List.nil_subset seen⟩
  | cons candidate rest ih =>
      have hothers : ∀ other ∈ rest, knowledge.Joined x other :=
        fun other hother => hjoined other (List.mem_cons_of_mem _ hother)
      obtain ⟨hleast, hsorted⟩ := List.pairwise_cons.mp hsorted
      by_cases hold : candidate ∈ seen
      · obtain ⟨seen', queue', hvisit, hexplored, hsub, hall⟩ :=
          ih h hroom hothers hsorted fun next hnext => (hrest next hnext).elim
            (fun hmem => (List.mem_cons.mp hmem).elim (fun heq => .inr (heq ▸ hold)) .inl) .inr
        refine ⟨seen', queue', ?_, hexplored, hsub, ?_⟩
        · rw [QAppsWikiKnowledge.visitCandidates, if_pos hold, hvisit]
        · exact fun hlt => List.cons_subset.mpr ⟨hsub hold, hall hlt⟩
      · have hfirst : ∀ next, knowledge.Joined x next → next ∉ seen →
            knowledge.rankingKey candidate ≤ knowledge.rankingKey next := by
          intro next hjoin hnew
          rcases List.mem_cons.mp ((hrest next hjoin).resolve_right hnew) with rfl | hmem
          · exact le_rfl
          · exact hleast next hmem
        have hnext := h.visit hopen (hjoined candidate List.mem_cons_self) hold hroom hfirst
        have hsub : seen ⊆ seen ++ [candidate] := List.subset_append_left seen _
        by_cases hfull : limit ≤ (seen ++ [candidate]).length
        · refine ⟨seen ++ [candidate], queue ++ [(candidate, d + 1)], ?_, hnext, hsub, ?_⟩
          · rw [QAppsWikiKnowledge.visitCandidates, if_neg hold]
            exact if_pos hfull
          · exact fun hlt => absurd hfull (Nat.not_le_of_lt hlt)
        · obtain ⟨seen', queue', hvisit, hexplored, hsub', hall⟩ :=
            ih hnext (Nat.lt_of_not_le hfull) hothers hsorted fun next hjoin => by
              rw [List.mem_append, List.mem_singleton]
              rcases hrest next hjoin with hmem | hmem
              · exact (List.mem_cons.mp hmem).elim (fun heq => .inr (.inr heq)) .inl
              · exact .inr (.inl hmem)
          refine ⟨seen', queue', ?_, hexplored, List.Subset.trans hsub hsub', ?_⟩
          · rw [QAppsWikiKnowledge.visitCandidates, if_neg hold]
            exact (if_neg hfull).trans hvisit
          · intro hlt
            apply List.cons_subset.mpr
            exact ⟨hsub' (List.mem_append_right _ List.mem_cons_self), hall hlt⟩

/-- A node is left behind when its neighbours have been seen, or at the depth. -/
theorem Explored.leave (h : knowledge.Explored center depth limit seen done ((x, d) :: queue))
    (hclosed : d < depth → ∀ next, knowledge.Joined x next → next ∈ seen) :
    knowledge.Explored center depth limit seen (done ++ [(x, d)]) queue where
  layered := by
    apply h.layered.leave
    intro hlt next hnext
    exact h.seen_eq ▸ hclosed (Nat.cast_lt.mp hlt) next hnext
  ordered := h.ordered.leave
  seen_eq := by
    rw [h.seen_eq, List.append_assoc, List.singleton_append]
  length_le := h.length_le

theorem explore_full (hfull : limit ≤ seen.length) (rounds : Nat) :
    knowledge.explore depth limit rounds seen queue = some seen := by
  cases rounds with
  | zero =>
      cases queue with
      | nil => rfl
      | cons item queue => exact if_pos hfull
  | succ rounds =>
      cases queue with
      | nil => rfl
      | cons item queue => exact if_pos hfull

/-- With a round for each node the search ends, at the limit or with an empty queue. -/
theorem Explored.explore_ends (h : knowledge.Explored center depth limit seen done queue)
    (hcenter : center ∈ knowledge.nodeIds) {rounds : Nat}
    (hrounds : knowledge.nodeIds.length ≤ rounds + done.length) :
    ∃ seen' done' queue',
      knowledge.explore depth limit rounds seen queue = some seen' ∧
      knowledge.Explored center depth limit seen' done' queue' ∧
      (seen'.length < limit → queue' = []) := by
  induction rounds generalizing seen done queue with
  | zero =>
      have hlength := h.layered.length_le hcenter fun _ _ hjoined => hjoined.mem_nodeIds
      obtain rfl : queue = [] := List.length_eq_zero_iff.mp (by omega)
      exact ⟨seen, done, [], rfl, h, fun _ => rfl⟩
  | succ rounds ih =>
      cases queue with
      | nil => exact ⟨seen, done, [], rfl, h, fun _ => rfl⟩
      | cons item queue =>
          obtain ⟨x, d⟩ := item
          have hleft : knowledge.nodeIds.length ≤ rounds + (done ++ [(x, d)]).length := by
            rw [List.length_append, List.length_singleton]
            omega
          by_cases hfull : limit ≤ seen.length
          · exact ⟨seen, done, (x, d) :: queue, explore_full hfull _, h,
              fun hlt => absurd hfull (Nat.not_le_of_lt hlt)⟩
          · by_cases hdepth : depth ≤ d
            · rw [explore, if_neg hfull, if_pos hdepth]
              exact ih (h.leave fun hlt => absurd hdepth (Nat.not_le_of_lt hlt)) hleft
            · have hjoined : ∀ candidate ∈ knowledge.ranked (knowledge.adjacent x),
                  knowledge.Joined x candidate :=
                fun candidate hcandidate => mem_adjacent.mp (mem_ranked.mp hcandidate)
              obtain ⟨seen', queue', hvisit, hexplored, -, hall⟩ :=
                h.visitCandidates (Nat.lt_of_not_le hdepth) (Nat.lt_of_not_le hfull) hjoined
                  (pairwise_sortByKey _ _)
                  fun next hnext => .inl (mem_ranked.mpr (mem_adjacent.mpr hnext))
              rw [explore, if_neg hfull, if_neg hdepth]
              simp only [hvisit]
              by_cases hfull' : limit ≤ seen'.length
              · exact ⟨seen', done, (x, d) :: queue', explore_full hfull' rounds, hexplored,
                  fun hlt => absurd hfull' (Nat.not_le_of_lt hlt)⟩
              · apply ih (hexplored.leave ?_) hleft
                intro _ next hnext
                exact hall (Nat.lt_of_not_le hfull') (mem_ranked.mpr (mem_adjacent.mpr hnext))

/-- More rounds see the same nodes. -/
theorem explore_mono {rounds rounds' : Nat} {found : List JsonText} (hle : rounds ≤ rounds')
    (h : knowledge.explore depth limit rounds seen queue = some found) :
    knowledge.explore depth limit rounds' seen queue = some found := by
  induction rounds generalizing rounds' seen queue with
  | zero =>
      by_cases hfull : limit ≤ seen.length
      · rw [explore_full hfull] at h ⊢
        exact h
      · cases queue with
        | nil =>
            rw [explore] at h ⊢
            exact h
        | cons item queue =>
            rw [explore, if_neg hfull] at h
            cases h
  | succ rounds ih =>
      by_cases hfull : limit ≤ seen.length
      · rw [explore_full hfull] at h ⊢
        exact h
      · cases rounds' with
        | zero => exact absurd hle (Nat.not_succ_le_zero rounds)
        | succ rounds' =>
            have hle := Nat.le_of_succ_le_succ hle
            cases queue with
            | nil =>
                rw [explore] at h ⊢
                exact h
            | cons item queue =>
                rw [explore, if_neg hfull] at h ⊢
                by_cases hdepth : depth ≤ item.2
                · rw [if_pos hdepth] at h ⊢
                  exact ih hle h
                · rw [if_neg hdepth] at h ⊢
                  exact ih hle h

/-! ## Neighbourhoods -/

/-- Nodes around a centre, no more than the limit, with everything nearer than any of them. -/
structure IsNeighborhood (knowledge : QAppsWikiKnowledge F) (center : JsonText)
    (depth limit : Nat) (ids : List JsonText) : Prop where
  center_mem : center ∈ ids
  nodup : ids.Nodup
  length_le : ids.length ≤ limit
  within : ∀ node ∈ ids, node ∈ knowledge.ball center depth
  nearest : ∀ node ∈ ids, ∀ d, Distance knowledge.Joined center d node →
    ∀ n < d, ∀ nearer, Distance knowledge.Joined center n nearer → nearer ∈ ids

theorem IsNeighborhood.perm {limit : Nat} {ids ids' : List JsonText}
    (h : knowledge.IsNeighborhood center depth limit ids) (hperm : ids'.Perm ids) :
    knowledge.IsNeighborhood center depth limit ids' where
  center_mem := hperm.mem_iff.mpr h.center_mem
  nodup := hperm.nodup_iff.mpr h.nodup
  length_le := hperm.length_eq ▸ h.length_le
  within := fun node hnode => h.within node (hperm.mem_iff.mp hnode)
  nearest := by
    intro node hnode d hd n hlt nearer hnearer
    exact hperm.mem_iff.mpr (h.nearest node (hperm.mem_iff.mp hnode) d hd n hlt nearer hnearer)

/-- The nodes of an explored order are a neighbourhood, and below the limit they are all that
is within the depth. -/
theorem Explored.isNeighborhood (h : knowledge.Explored center depth limit seen done queue) :
    knowledge.IsNeighborhood center depth limit seen where
  center_mem := by
    rw [h.seen_eq]
    exact List.mem_map.mpr ⟨_, h.layered.start, rfl⟩
  nodup := h.seen_eq ▸ h.layered.nodup
  length_le := h.length_le
  within := by
    intro node hnode
    rw [h.seen_eq] at hnode
    obtain ⟨item, hitem, rfl⟩ := List.mem_map.mp hnode
    exact ⟨item.2, Nat.cast_le.mp (h.layered.within item hitem), h.layered.distance item hitem⟩
  nearest := by
    intro node hnode d hd n hlt nearer hnearer
    rw [h.seen_eq] at hnode ⊢
    obtain ⟨⟨key, e⟩, hitem, hkey⟩ := List.mem_map.mp hnode
    obtain rfl : node = key := hkey.symm
    obtain rfl : e = d := (h.layered.distance _ hitem).unique hd
    have hfound := h.layered.nearer hitem hlt hnearer
    exact List.mem_map.mpr ⟨_, hfound, rfl⟩

theorem Explored.ball_subset (h : knowledge.Explored center depth limit seen done []) :
    ∀ node ∈ knowledge.ball center depth, node ∈ seen := by
  rintro node ⟨n, hle, hdistance⟩
  rw [h.seen_eq]
  have hfound := h.layered.complete (Nat.cast_le.mpr hle) hdistance
  exact List.mem_map.mpr ⟨_, hfound, rfl⟩

theorem ball_finite (hcenter : center ∈ knowledge.nodeIds) :
    (knowledge.ball center depth).Finite := by
  apply Set.Finite.subset knowledge.nodeIds.finite_toSet
  rintro node ⟨n, -, hdistance⟩
  exact hdistance.1.mem hcenter fun _ _ hjoined => hjoined.mem_nodeIds

theorem ncard_mem_list {ids : List JsonText} (hnodup : ids.Nodup) :
    { node | node ∈ ids }.ncard = ids.length := by
  rw [← List.coe_toFinset, Set.ncard_coe_finset, List.toFinset_card_of_nodup hnodup]

/-- A node within the distance is seen when fewer nodes than the limit come before it. -/
theorem Explored.mem_seen_iff (h : knowledge.Explored center depth limit seen done queue)
    (hend : seen.length < limit → queue = []) (hcenter : center ∈ knowledge.nodeIds)
    {node : JsonText} (hnode : node ∈ knowledge.ball center depth) :
    node ∈ seen ↔ (knowledge.preceding center depth node).ncard < limit := by
  obtain ⟨d, hle, hdistance⟩ := hnode
  have hneighborhood := h.isNeighborhood
  constructor
  · intro hmem
    -- what comes before a seen node is seen, and is not the node itself
    have hsub : knowledge.preceding center depth node ⊂ { other | other ∈ seen } := by
      refine (Set.ssubset_iff_of_subset ?_).mpr ⟨node, hmem, ?_⟩
      · rintro other ⟨-, n, e, hother, he, hbefore⟩
        obtain rfl := he.unique hdistance
        by_contra hunseen
        rw [h.seen_eq] at hmem
        obtain ⟨⟨key, e'⟩, hitem, hkey⟩ := List.mem_map.mp hmem
        obtain rfl : node = key := hkey.symm
        obtain rfl : e = e' := he.unique (h.layered.distance _ hitem)
        exact (h.ordered.ahead _ hitem other n (h.seen_eq ▸ hunseen) hother).asymm hbefore
      · rintro ⟨-, n, e, hother, he, hbefore⟩
        obtain rfl := hother.unique he
        exact hbefore.asymm hbefore
    have hlt := Set.ncard_lt_ncard hsub seen.finite_toSet
    rw [ncard_mem_list hneighborhood.nodup] at hlt
    exact hlt.trans_le h.length_le
  · intro hlt
    by_contra hunseen
    have hfull : limit ≤ seen.length := by
      by_contra hroom
      obtain rfl := hend (Nat.lt_of_not_le hroom)
      exact hunseen (h.ball_subset node ⟨d, hle, hdistance⟩)
    have hsub : { other | other ∈ seen } ⊆ knowledge.preceding center depth node := by
      intro other hother
      have hball := hneighborhood.within other hother
      replace hother : other ∈ seen := hother
      rw [h.seen_eq] at hother
      obtain ⟨item, hitem, rfl⟩ := List.mem_map.mp hother
      exact ⟨hball, item.2, d, h.layered.distance item hitem, hdistance,
        h.ordered.ahead item hitem node d (h.seen_eq ▸ hunseen) hdistance⟩
    have hmany := Set.ncard_le_ncard hsub ((ball_finite hcenter).subset fun _ hmem => hmem.1)
    rw [ncard_mem_list hneighborhood.nodup] at hmany
    omega

/-- What every neighbourhood is, whether or not it was cut: the first nodes within the
distance. -/
theorem exists_seen [ZeroTest F] (knowledge : QAppsWikiKnowledge F) {center : JsonText}
    (hcenter : center ∈ knowledge.nodeIds) (depth limit : Int) :
    ∃ seen : List JsonText,
      knowledge.IsNeighborhood center (boundedDepth depth) (boundedLimit limit 100 200) seen ∧
      (seen.length < boundedLimit limit 100 200 →
        ∀ node ∈ knowledge.ball center (boundedDepth depth), node ∈ seen) ∧
      (∀ node ∈ knowledge.ball center (boundedDepth depth), node ∈ seen ↔
        (knowledge.preceding center (boundedDepth depth) node).ncard <
          boundedLimit limit 100 200) ∧
      ∀ rounds, knowledge.nodeIds.length ≤ rounds →
        knowledge.neighborhood rounds center depth limit =
          ((knowledge.ranked seen).mapM knowledge.nodeSummary).bind fun nodes =>
            .ok (some ⟨center, boundedDepth depth, boundedLimit limit 100 200 ≤ seen.length,
              nodes, knowledge.edgesBetween seen⟩) := by
  have hstart : knowledge.Explored center (boundedDepth depth) (boundedLimit limit 100 200)
      [center] [] [(center, 0)] := explored_start (boundedLimit_pos limit)
  obtain ⟨seen, done, queue, hresult, hexplored, hend⟩ :=
    hstart.explore_ends hcenter (Nat.le_refl knowledge.nodeIds.length)
  refine ⟨seen, hexplored.isNeighborhood, fun hlt => ?_,
    fun node hnode => hexplored.mem_seen_iff hend hcenter hnode, fun rounds hrounds => ?_⟩
  · obtain rfl := hend hlt
    exact hexplored.ball_subset
  · rw [neighborhood, if_neg (not_not.mpr hcenter)]
    simp only [explore_mono hrounds hresult]
    rfl

/-- The flag says that something within the distance was left out. -/
def HonestNeighborhood [ZeroTest F] (knowledge : QAppsWikiKnowledge F) (center : JsonText)
    (depth limit : Int) : Prop :=
  ∃ answer : NeighborhoodAnswer F,
    (∀ rounds, knowledge.nodeIds.length ≤ rounds →
      knowledge.neighborhood rounds center depth limit = .ok (some answer)) ∧
    knowledge.IsNeighborhood center (boundedDepth depth) (boundedLimit limit 100 200)
      (answer.nodes.map (·.id)) ∧
    (answer.truncated = true ↔
      ∃ node ∈ knowledge.ball center (boundedDepth depth), node ∉ answer.nodes.map (·.id))

/-- Some of the nodes within the distance are all of them when there are no more. -/
theorem IsNeighborhood.left_out_iff {limit : Nat} {ids : List JsonText}
    (h : knowledge.IsNeighborhood center depth limit ids) (hcenter : center ∈ knowledge.nodeIds) :
    (∃ node ∈ knowledge.ball center depth, node ∉ ids) ↔
      ids.length < (knowledge.ball center depth).ncard := by
  have hsub : { node | node ∈ ids } ⊆ knowledge.ball center depth := h.within
  rw [← ncard_mem_list h.nodup]
  constructor
  · rintro ⟨node, hnode, hleft⟩
    apply Set.ncard_lt_ncard ?_ (ball_finite hcenter)
    exact ⟨hsub, fun hall => hleft (hall hnode)⟩
  · intro hlt
    by_contra hnone
    have hall : knowledge.ball center depth ⊆ { node | node ∈ ids } := by
      intro node hnode
      by_contra hleft
      exact hnone ⟨node, hnode, hleft⟩
    exact absurd hlt (Nat.not_lt_of_le (Set.ncard_le_ncard hall ids.finite_toSet))

theorem IsNeighborhood.length_le_ncard {limit : Nat} {ids : List JsonText}
    (h : knowledge.IsNeighborhood center depth limit ids) (hcenter : center ∈ knowledge.nodeIds) :
    ids.length ≤ (knowledge.ball center depth).ncard := by
  rw [← ncard_mem_list h.nodup]
  exact Set.ncard_le_ncard h.within (ball_finite hcenter)

/-- A neighbourhood is returned and flagged honestly exactly when the number of the nodes
within the distance is not the limit itself and no node among the first of them has a list or
an object for its type. -/
theorem neighborhood_honest_iff [ZeroTest F] (knowledge : QAppsWikiKnowledge F)
    {center : JsonText} (hcenter : center ∈ knowledge.nodeIds) (depth limit : Int) :
    knowledge.HonestNeighborhood center depth limit ↔
      (knowledge.ball center (boundedDepth depth)).ncard ≠ boundedLimit limit 100 200 ∧
      ∀ node ∈ knowledge.ball center (boundedDepth depth), ¬knowledge.HashableType node →
        boundedLimit limit 100 200 ≤
          (knowledge.preceding center (boundedDepth depth) node).ncard := by
  obtain ⟨seen, hneighborhood, hall, hseen, hruns⟩ := exists_seen knowledge hcenter depth limit
  have hperm : (knowledge.ranked seen).Perm seen := sortByKey_perm _ seen
  have hnodes : knowledge.ranked seen ⊆ knowledge.nodeIds := by
    intro node hnode
    obtain ⟨n, -, hdistance⟩ := hneighborhood.within node (hperm.mem_iff.mp hnode)
    exact hdistance.1.mem hcenter fun _ _ hjoined => hjoined.mem_nodeIds
  have hout := hneighborhood.left_out_iff hcenter
  have hle := hneighborhood.length_le_ncard hcenter
  have hlimit := hneighborhood.length_le
  -- below the limit nothing was left out
  have hbelow : seen.length < boundedLimit limit 100 200 →
      ¬seen.length < (knowledge.ball center (boundedDepth depth)).ncard := by
    intro hlt hmore
    obtain ⟨node, hnode, hleft⟩ := hout.mpr hmore
    exact hleft (hall hlt node hnode)
  by_cases htypes : ∀ node ∈ seen, knowledge.HashableType node
  · obtain ⟨summaries, hsummaries, hids⟩ := exists_nodeSummaries hnodes
      fun node hnode => htypes node (hperm.mem_iff.mp hnode)
    have hanswer : ∀ rounds, knowledge.nodeIds.length ≤ rounds →
        knowledge.neighborhood rounds center depth limit =
          .ok (some ⟨center, boundedDepth depth, boundedLimit limit 100 200 ≤ seen.length,
            summaries, knowledge.edgesBetween seen⟩) := by
      intro rounds hrounds
      rw [hruns rounds hrounds, hsummaries]
      rfl
    have hflag : decide (boundedLimit limit 100 200 ≤ seen.length) = true ↔
        boundedLimit limit 100 200 ≤ seen.length := decide_eq_true_iff
    have hleft : (∃ node ∈ knowledge.ball center (boundedDepth depth),
        node ∉ summaries.map (·.id)) ↔
          seen.length < (knowledge.ball center (boundedDepth depth)).ncard := by
      rw [hids, ← hout]
      simp only [hperm.mem_iff]
    have hbad : ∀ node ∈ knowledge.ball center (boundedDepth depth),
        ¬knowledge.HashableType node → boundedLimit limit 100 200 ≤
          (knowledge.preceding center (boundedDepth depth) node).ncard := by
      intro node hnode htype
      by_contra hfew
      exact htype (htypes node ((hseen node hnode).mpr (Nat.lt_of_not_le hfew)))
    constructor
    · rintro ⟨other, hruns', -, hhonest⟩
      have hsame := (hruns' _ (Nat.le_refl _)).symm.trans (hanswer _ (Nat.le_refl _))
      obtain rfl := Option.some.inj (Except.ok.inj hsame)
      rw [hleft, hflag] at hhonest
      exact ⟨by omega, hbad⟩
    · rintro ⟨hcard, -⟩
      refine ⟨_, hanswer, ?_, ?_⟩
      · rw [hids]
        exact hneighborhood.perm hperm
      · rw [hleft, hflag]
        omega
  · simp only [not_forall] at htypes
    obtain ⟨bad, hbad, htype⟩ := htypes
    obtain ⟨error, herror, -⟩ := nodeSummaries_error hnodes (hperm.mem_iff.mpr hbad) htype
    constructor
    · rintro ⟨answer, hruns', -⟩
      have hsame := (hruns' _ (Nat.le_refl _)).symm.trans (hruns _ (Nat.le_refl _))
      rw [herror] at hsame
      cases hsame
    · rintro ⟨-, hbehind⟩
      have hball := hneighborhood.within bad hbad
      exact absurd ((hseen bad hball).mp hbad) (Nat.not_lt_of_le (hbehind bad hball htype))

theorem neighborhood_honest_iff_star :
    ∃ knowledge, load starGraph [] = .ok knowledge ∧
      (knowledge.HonestNeighborhood (JsonText.ofString "a") 2 2 ↔
        (knowledge.ball (JsonText.ofString "a") (boundedDepth 2)).ncard ≠
          boundedLimit 2 100 200 ∧
        ∀ node ∈ knowledge.ball (JsonText.ofString "a") (boundedDepth 2),
          ¬knowledge.HashableType node → boundedLimit 2 100 200 ≤
            (knowledge.preceding (JsonText.ofString "a") (boundedDepth 2) node).ncard) := by
  obtain ⟨knowledge, hload, hids⟩ := load_starGraph
  refine ⟨knowledge, hload, neighborhood_honest_iff knowledge ?_ 2 2⟩
  rw [hids]
  decide

/-- Two nodes and an edge between them. -/
def pairGraph : JsonFile (GraphDocument Unit) := sampleGraph ["a", "b"] [sampleEdge "a" "b"]

/-- Both nodes are shown, and the answer says that it was cut. -/
theorem load_pairGraph : ∃ knowledge, load pairGraph [] = .ok knowledge ∧
    knowledge.nodeIds = ["a", "b"].map JsonText.ofString ∧
    (knowledge.neighborhood 2 (JsonText.ofString "a") 1 2).map (Option.map
      fun (answer : NeighborhoodAnswer Unit) => (answer.truncated, answer.nodes.map (·.id))) =
        .ok (some (true, ["a", "b"].map JsonText.ofString)) := ⟨_, rfl, rfl, rfl⟩

theorem pair_neighborhood_dishonest :
    ∃ knowledge, load pairGraph [] = .ok knowledge ∧
      JsonText.ofString "a" ∈ knowledge.nodeIds ∧
      ¬knowledge.HonestNeighborhood (JsonText.ofString "a") 1 2 := by
  obtain ⟨knowledge, hload, hids, hanswer⟩ := load_pairGraph
  have hcenter : JsonText.ofString "a" ∈ knowledge.nodeIds := by
    rw [hids]
    decide
  refine ⟨knowledge, hload, hcenter, ?_⟩
  rintro ⟨answer, hruns, -, hhonest⟩
  rw [hruns 2 (by rw [hids]; decide)] at hanswer
  obtain ⟨htruncated, hnodes⟩ := Prod.mk.inj (Option.some.inj (Except.ok.inj hanswer))
  obtain ⟨node, ⟨n, -, hdistance⟩, hleft⟩ := hhonest.mp htruncated
  apply hleft
  rw [hnodes, ← hids]
  exact hdistance.1.mem hcenter fun _ _ hjoined => hjoined.mem_nodeIds

end QAppsWikiKnowledge

end QhpcEcosystem
