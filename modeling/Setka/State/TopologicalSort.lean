/-
# Setka.State.TopologicalSort — the lexicographic order of a graph of events.

`lexicographical_topological_sort` of `state/v2.py`. The nodes whose references are all output wait in a heap, and the
least of them is output next. What waits is derived from the output alone, and not from the orders in which
dictionaries and sets are iterated.
-/
import Setka.Api.Errors
import Setka.Lib.Dict
import Setka.Lib.Heapq
import Setka.Lib.IterOrder
import Setka.Lib.Run
import Setka.Lib.TopologicalOrder

namespace Setka.State

open Setka.Api Setka.Lib Dict

variable {ν κ : Type} [LinearOrder ν] [LinearOrder κ]

/-! ## §1 The sort -/

/-- The orders in which the edges and the parents of each node are iterated. -/
structure SortOrders (ν : Type) [DecidableEq ν] where
  edges : ν → IterOrder ν
  parents : ν → IterOrder ν

/-- `(key(node), node)`. -/
def ranked (key : ν → κ) (node : ν) : κ ×ₗ ν := toLex (key node, node)

/-- `reverse_graph` and `zero_outdegree` as they are built. -/
structure SortIndex (ν κ : Type) [DecidableEq ν] where
  reverseGraph : Dict ν (Finset ν)
  zeroOutdegree : List (κ ×ₗ ν)

/-- One turn of `for node, edges in graph.items()`. -/
def SortIndex.add (orders : SortOrders ν) (key : ν → κ) (index : SortIndex ν κ) (item : ν × Finset ν) :
    SortIndex ν κ :=
  let (node, edges) := item
  { zeroOutdegree := if edges.card = 0 then index.zeroOutdegree ++ [ranked key node] else index.zeroOutdegree
    reverseGraph :=
      ((orders.edges node).list edges).foldl
        (fun reverseGraph edge => reverseGraph.set edge (insert node (reverseGraph.getD edge ∅)))
        (index.reverseGraph.setDefault node ∅) }

/-- What the loop over the heap works on: `outdegree_map`, which is the graph itself, the heap, and what was yielded. -/
structure SortState (ν κ : Type) [DecidableEq ν] where
  outdegreeMap : Dict ν (Finset ν)
  zeroOutdegree : List (κ ×ₗ ν)
  yielded : List ν

/-- One turn of `for parent in reverse_graph[node]`. -/
def SortState.visitParent (key : ν → κ) (node : ν) (s : SortState ν κ) (parent : ν) : Run Error (SortState ν κ) := do
  let out ← Run.ofOption .keyError (s.outdegreeMap.get? parent)
  let out := out.erase node
  pure { s with
      outdegreeMap := s.outdegreeMap.set parent out
      zeroOutdegree :=
        if out.card = 0 then Heapq.heappush s.zeroOutdegree (ranked key parent) else s.zeroOutdegree }

/-- One turn of `while zero_outdegree`. -/
def SortState.turn (orders : SortOrders ν) (key : ν → κ) (reverseGraph : Dict ν (Finset ν)) (s : SortState ν κ) :
    Run Error (Option (SortState ν κ)) :=
  match Heapq.heappop s.zeroOutdegree with
  | none => pure none
  | some (item, zeroOutdegree) => do
      let node := (ofLex item).2
      let parents ← Run.ofOption .keyError (reverseGraph.get? node)
      let s ← ((orders.parents node).list parents).foldlM (SortState.visitParent key node) { s with zeroOutdegree }
      pure (some { s with yielded := s.yielded ++ [node] })

/-- `lexicographical_topological_sort`, with the list of what it yields. -/
def lexicographicalTopologicalSort (orders : SortOrders ν) (graph : Dict ν (Finset ν)) (key : ν → κ) :
    Run Error (List ν) := do
  let index := graph.items.foldl (SortIndex.add orders key) ⟨.empty, []⟩
  let s ← Run.loop (SortState.turn orders key index.reverseGraph) ⟨graph, Heapq.heapify index.zeroOutdegree, []⟩
  pure s.yielded

/-! ## §2 The index -/

/-- What a node references. -/
def references (graph : Dict ν (Finset ν)) (node : ν) : Finset ν := graph.getD node ∅

omit [LinearOrder ν] [LinearOrder κ] in
theorem ranked_injective (key : ν → κ) : Function.Injective (ranked key) := by
  intro node node' h
  exact congrArg (fun item => (ofLex item).2) h

/-- The parents of an edge after its node was added. -/
theorem mem_foldl_insert (node : ν) (edges : List ν) (reverseGraph : Dict ν (Finset ν)) (child parent : ν) :
    parent ∈ (edges.foldl (fun reverseGraph edge => reverseGraph.set edge (insert node (reverseGraph.getD edge ∅)))
        reverseGraph).getD child ∅ ↔
      parent ∈ reverseGraph.getD child ∅ ∨ parent = node ∧ child ∈ edges := by
  induction edges generalizing reverseGraph with
  | nil => simp
  | cons edge edges ih =>
    rw [List.foldl_cons, ih, Dict.getD, get?_set, List.mem_cons]
    by_cases hchild : child = edge
    · subst hchild
      simp only [if_true, Option.getD_some, Finset.mem_insert, true_or, and_true]
      tauto
    · simp [hchild, Dict.getD]

variable {reverseGraph : Dict ν (Finset ν)} {n : ν}

theorem isSome_foldl_insert (node : ν) (edges : List ν) (h : (reverseGraph.get? n).isSome) : ((edges.foldl
      (fun reverseGraph edge => reverseGraph.set edge (insert node (reverseGraph.getD edge ∅)))
      reverseGraph).get? n).isSome := by
  induction edges generalizing reverseGraph with
  | nil => exact h
  | cons edge edges ih =>
    refine ih ?_
    rw [get?_set]
    split
    · rfl
    · exact h

omit [LinearOrder κ] in
theorem mem_reverseGraph_foldl (orders : SortOrders ν) (key : ν → κ) (items : List (ν × Finset ν))
    (index : SortIndex ν κ) (child parent : ν) :
    parent ∈ (items.foldl (SortIndex.add orders key) index).reverseGraph.getD child ∅ ↔
      parent ∈ index.reverseGraph.getD child ∅ ∨ ∃ edges, (parent, edges) ∈ items ∧ child ∈ edges := by
  induction items generalizing index with
  | nil => simp
  | cons item items ih =>
    obtain ⟨node, edges⟩ := item
    have hdefault : (index.reverseGraph.setDefault node ∅).getD child ∅ = index.reverseGraph.getD child ∅ := by
      rw [Dict.getD, get?_setDefault]
      split
      · next hchild => rw [hchild, Option.getD_some]
      · rfl
    rw [List.foldl_cons, ih, SortIndex.add, mem_foldl_insert, hdefault, IterOrder.mem_list, or_assoc]
    refine or_congr_right ?_
    constructor
    · rintro (⟨rfl, hmem⟩ | ⟨edges', hitem, hmem⟩)
      · exact ⟨edges, List.mem_cons_self, hmem⟩
      · exact ⟨edges', List.mem_cons_of_mem _ hitem, hmem⟩
    rintro ⟨edges', hitem, hmem⟩
    rcases List.mem_cons.mp hitem with heq | hitem
    · obtain ⟨rfl, rfl⟩ := Prod.mk.inj heq
      exact Or.inl ⟨rfl, hmem⟩
    · exact Or.inr ⟨edges', hitem, hmem⟩

omit [LinearOrder κ] in
theorem isSome_reverseGraph_foldl (orders : SortOrders ν) (key : ν → κ) {items : List (ν × Finset ν)}
    {index : SortIndex ν κ} (h : (index.reverseGraph.get? n).isSome ∨ n ∈ items.map Prod.fst) :
    ((items.foldl (SortIndex.add orders key) index).reverseGraph.get? n).isSome := by
  induction items generalizing index with
  | nil => simpa using h
  | cons item items ih =>
    refine ih ?_
    rw [List.map_cons, List.mem_cons, ← or_assoc] at h
    refine h.imp_left fun hadd => ?_
    refine isSome_foldl_insert _ _ ?_
    rw [get?_setDefault]
    split
    · rfl
    · next hne => exact hadd.resolve_right hne

omit [LinearOrder κ] in
theorem zeroOutdegree_foldl (orders : SortOrders ν) (key : ν → κ) (items : List (ν × Finset ν))
    (index : SortIndex ν κ) :
    (items.foldl (SortIndex.add orders key) index).zeroOutdegree =
      index.zeroOutdegree ++ (items.filter fun item => item.2 = ∅).map fun item => ranked key item.1 := by
  induction items generalizing index with
  | nil => simp
  | cons item items ih =>
    rw [List.foldl_cons, ih, SortIndex.add]
    by_cases hempty : item.2 = ∅
    · simp [hempty]
    · simp [hempty]

/-! ## §3 The loop over the parents -/

/-- What the visits to some parents have done: the node is discarded, and who has nothing left is pushed. -/
structure Visited (key : ν → κ) (node : ν) (s : SortState ν κ) (parents : List ν) (s' : SortState ν κ) : Prop where
  outdegree : ∀ n, s'.outdegreeMap.get? n =
    if n ∈ parents then (s.outdegreeMap.get? n).map (Finset.erase · node) else s.outdegreeMap.get? n
  heap : s'.zeroOutdegree = s.zeroOutdegree ++
    (parents.filter fun parent => (s.outdegreeMap.getD parent ∅).erase node = ∅).map (ranked key)
  yielded : s'.yielded = s.yielded

variable {s : SortState ν κ}

omit [LinearOrder κ] in
/-- **The loop over the parents.** -/
theorem visitParents_yields (key : ν → κ) (node : ν) {parents : List ν} (hnodup : parents.Nodup)
    (hparents : ∀ parent ∈ parents, (s.outdegreeMap.get? parent).isSome) :
    Run.Yields (parents.foldlM (SortState.visitParent key node) s) (Visited key node s parents) := by
  refine Run.Yields.foldlM (I := Visited key node s) parents ?_ ⟨fun n => by simp, by simp, rfl⟩
  rintro done parent rest s' rfl ⟨hmap, hheap, hyielded⟩
  obtain ⟨out, hout⟩ := Option.isSome_iff_exists.mp (hparents parent (by simp))
  have hnew : parent ∉ done := by
    intro hdone
    exact (List.nodup_append.mp hnodup).2.2 parent hdone parent List.mem_cons_self rfl
  have hget : s'.outdegreeMap.get? parent = some out := by
    rw [hmap parent, if_neg hnew, hout]
  have hread : Run.Yields (Run.ofOption Error.keyError (s'.outdegreeMap.get? parent)) fun o => out = o :=
    Run.Yields.ofOption hget rfl
  refine hread.bind ?_
  rintro _ rfl
  refine Run.Yields.pure ⟨?_, ?_, hyielded⟩
  · intro n
    rw [get?_set]
    by_cases hn : n = parent
    · subst hn
      simp [hout]
    · rw [if_neg hn, hmap n]
      simp [hn]
  · have hleft : s.outdegreeMap.getD parent ∅ = out := getD_of_get? hout ∅
    rw [List.filter_append, List.map_append, ← List.append_assoc, ← hheap]
    by_cases hempty : out.erase node = ∅
    · simp [hempty, hleft, Heapq.heappush]
    · simp [hempty, hleft]

/-! ## §4 The loop over the heap -/

/-- What the loop keeps: what was yielded is greedy, the map has what is left of the references, and in the heap are the
available nodes. -/
structure SortInv (graph : Dict ν (Finset ν)) (key : ν → κ) (s : SortState ν κ) : Prop where
  greedy : Greedy graph.keys.toFinset (references graph) (ranked key) s.yielded
  outdegree : ∀ n, s.outdegreeMap.get? n = (graph.get? n).map (· \ s.yielded.toFinset)
  nodup : s.zeroOutdegree.Nodup
  heap : ∀ item, item ∈ s.zeroOutdegree ↔
    ∃ n, Available graph.keys.toFinset (references graph) s.yielded n ∧ ranked key n = item

/-- The parents of every node that is in the graph. -/
structure Reversed (graph reverseGraph : Dict ν (Finset ν)) : Prop where
  total : ∀ n ∈ graph.keys, (reverseGraph.get? n).isSome
  mem : ∀ child parent, parent ∈ reverseGraph.getD child ∅ ↔ child ∈ references graph parent

variable {graph : Dict ν (Finset ν)}

theorem mem_keys_of_references {m : ν} (h : m ∈ references graph n) : n ∈ graph.keys := by
  rw [mem_keys_iff]
  rw [references, Dict.getD] at h
  cases hget : graph.get? n with
  | none =>
    rw [hget] at h
    cases h
  | some edges => exact ⟨edges, rfl⟩

variable {key : ν → κ}

/-- What a node references is left less by one after it is listed. -/
theorem SortInv.getD_outdegree (h : SortInv graph key s)
    (n : ν) : s.outdegreeMap.getD n ∅ = references graph n \ s.yielded.toFinset := by
  rw [Dict.getD, h.outdegree, references, Dict.getD]
  cases graph.get? n with
  | none => exact (Finset.empty_sdiff _).symm
  | some edges => rfl

/-- The node that is popped, the visits to its parents, and the output. -/
theorem SortInv.visited {s' : SortState ν κ} (h : SortInv graph key s) {node : ν} {rest : List (κ ×ₗ ν)}
    {parents : List ν} (hnode : Available graph.keys.toFinset (references graph) s.yielded node)
    (hperm : s.zeroOutdegree.Perm (ranked key node :: rest))
    (hleast : ∀ item ∈ s.zeroOutdegree, ranked key node ≤ item) (hnodup : parents.Nodup)
    (hparents : ∀ parent, parent ∈ parents ↔ node ∈ references graph parent)
    (hvisited : Visited key node { s with zeroOutdegree := rest } parents s') :
    SortInv graph key { s' with yielded := s'.yielded ++ [node] } := by
  have hyielded : s'.yielded = s.yielded := hvisited.yielded
  have hrest := hperm.nodup_iff.mp h.nodup
  -- a parent is pushed when nothing but the node was left of its references
  have hpushed : ∀ parent, (s.outdegreeMap.getD parent ∅).erase node = ∅ ↔
      ∀ m ∈ references graph parent, m ∈ s.yielded ∨ m = node := by
    intro parent
    rw [h.getD_outdegree, Finset.eq_empty_iff_forall_notMem]
    refine forall_congr' fun m => ?_
    simp only [Finset.mem_erase, Finset.mem_sdiff, List.mem_toFinset]
    tauto
  have hnew : ∀ parent ∈ parents, ranked key parent ∉ rest := by
    intro parent hparent hmem
    obtain ⟨m, hm, heq⟩ := (h.heap _).mp (hperm.mem_iff.mpr (List.mem_cons_of_mem _ hmem))
    obtain rfl := ranked_injective key heq
    exact hnode.2.1 (hm.2.2 node ((hparents m).mp hparent))
  refine ⟨?_, ?_, ?_, ?_⟩
  · show Greedy _ _ _ (s'.yielded ++ [node])
    rw [hyielded]
    refine allSteps_concat.mpr ⟨h.greedy, hnode, ?_⟩
    intro m hm
    exact hleast _ ((h.heap _).mpr ⟨m, hm, rfl⟩)
  · intro n
    show s'.outdegreeMap.get? n = (graph.get? n).map (· \ (s'.yielded ++ [node]).toFinset)
    have hget : ({ s with zeroOutdegree := rest } : SortState ν κ).outdegreeMap.get? n =
        (graph.get? n).map (· \ s.yielded.toFinset) := h.outdegree n
    rw [hvisited.outdegree n, hyielded, hget]
    have hparent := hparents n
    rw [references, Dict.getD] at hparent
    cases hgraph : graph.get? n with
    | none => simp
    | some edges =>
      rw [hgraph, Option.getD_some] at hparent
      rw [Option.map_some, Option.map_some, Option.map_some, List.toFinset_append]
      split
      · refine congrArg some (Finset.ext fun m => ?_)
        simp only [Finset.mem_erase, Finset.mem_sdiff, Finset.mem_union, List.mem_toFinset, List.mem_singleton]
        tauto
      next hnot =>
        refine congrArg some (Finset.ext fun m => ?_)
        simp only [Finset.mem_sdiff, Finset.mem_union, List.mem_toFinset, List.mem_singleton]
        have hne : m ∈ edges → m ≠ node := by
          rintro hm rfl
          exact hnot (hparent.mpr hm)
        tauto
  · show s'.zeroOutdegree.Nodup
    rw [hvisited.heap]
    refine List.nodup_append.mpr ⟨(List.nodup_cons.mp hrest).2, ?_, ?_⟩
    · exact (hnodup.filter _).map (ranked_injective key)
    rintro item hitem _ hitem' rfl
    obtain ⟨parent, hparent, rfl⟩ := List.mem_map.mp hitem'
    exact hnew parent (List.mem_of_mem_filter hparent) hitem
  · intro item
    show item ∈ s'.zeroOutdegree ↔ ∃ n, Available _ _ (s'.yielded ++ [node]) n ∧ ranked key n = item
    rw [hvisited.heap, hyielded, List.mem_append, List.mem_map]
    simp only [h.greedy.available_concat hnode, List.mem_filter, decide_eq_true_eq, hpushed, hparents]
    constructor
    · rintro (hitem | ⟨parent, ⟨hparent, hdone⟩, rfl⟩)
      · obtain ⟨m, hm, rfl⟩ := (h.heap item).mp (hperm.mem_iff.mpr (List.mem_cons_of_mem _ hitem))
        refine ⟨m, Or.inl ⟨hm, ?_⟩, rfl⟩
        rintro rfl
        exact (List.nodup_cons.mp hrest).1 hitem
      · exact ⟨parent, Or.inr ⟨List.mem_toFinset.mpr (mem_keys_of_references hparent), hparent, hdone⟩, rfl⟩
    · rintro ⟨m, (⟨hm, hne⟩ | ⟨hm, hparent, hdone⟩), rfl⟩
      · have hmem := hperm.mem_iff.mp ((h.heap _).mpr ⟨m, hm, rfl⟩)
        refine Or.inl ((List.mem_cons.mp hmem).resolve_left ?_)
        exact fun heq => hne (ranked_injective key heq)
      · exact Or.inr ⟨m, ⟨hparent, hdone⟩, rfl⟩

/-- **One turn of the loop over the heap.** -/
theorem SortInv.turn (h : SortInv graph key s) (hreversed : Reversed graph reverseGraph)
    (orders : SortOrders ν) : Run.Yields (SortState.turn orders key reverseGraph s) fun o =>
      (o = none → ∀ n, ¬ Available graph.keys.toFinset (references graph) s.yielded n) ∧
        ∀ s', o = some s' → SortInv graph key s' ∧ s'.yielded.length = s.yielded.length + 1 := by
  rw [SortState.turn]
  split
  · next hpop =>
      refine Run.Yields.pure ⟨fun _ n hn => ?_, nofun⟩
      have hmem := (h.heap _).mpr ⟨n, hn, rfl⟩
      rw [Heapq.heappop_eq_none.mp hpop] at hmem
      cases hmem
  next item rest hpop =>
    obtain ⟨hperm, hleast⟩ := Heapq.heappop_eq_some hpop
    obtain ⟨node, hnode, rfl⟩ := (h.heap item).mp (hperm.mem_iff.mpr List.mem_cons_self)
    obtain ⟨parents, hparents⟩ := Option.isSome_iff_exists.mp
      (hreversed.total node (List.mem_toFinset.mp hnode.1))
    have hread : Run.Yields (Run.ofOption Error.keyError (reverseGraph.get? node)) fun o => parents = o :=
      Run.Yields.ofOption hparents rfl
    have hmem : ∀ parent, parent ∈ (orders.parents node).list parents ↔ node ∈ references graph parent := by
      intro parent
      rw [IterOrder.mem_list, ← hreversed.mem, getD_of_get? hparents]
    refine hread.bind ?_
    rintro _ rfl
    have hkeys : ∀ parent ∈ (orders.parents node).list parents, (s.outdegreeMap.get? parent).isSome := by
      intro parent hparent
      obtain ⟨edges, hedges⟩ := mem_keys_iff.mp (mem_keys_of_references ((hmem parent).mp hparent))
      rw [h.outdegree, hedges]
      rfl
    refine (visitParents_yields key node (s := { s with zeroOutdegree := rest })
      ((orders.parents node).nodup_list parents) hkeys).bind ?_
    intro s' hvisited
    refine Run.Yields.pure ⟨nofun, ?_⟩
    rintro _ ⟨⟩
    refine ⟨h.visited hnode hperm hleast ((orders.parents node).nodup_list parents) hmem hvisited, ?_⟩
    show (s'.yielded ++ [node]).length = _
    rw [hvisited.yielded, List.length_append, List.length_singleton]

/-! ## §5 The whole sort -/

omit [LinearOrder κ] in
theorem reversed_foldl (orders : SortOrders ν) (key : ν → κ) (graph : Dict ν (Finset ν)) :
    Reversed graph (graph.items.foldl (SortIndex.add orders key) ⟨.empty, []⟩).reverseGraph := by
  constructor
  · intro n hn
    exact isSome_reverseGraph_foldl orders key (Or.inr hn)
  intro child parent
  rw [mem_reverseGraph_foldl, references, Dict.getD, Dict.getD]
  constructor
  · rintro (hnone | ⟨edges, hitem, hmem⟩)
    · cases hnone
    · rw [get?_eq_some_iff.mpr hitem]
      exact hmem
  intro hmem
  cases hget : graph.get? parent with
  | none =>
    rw [hget] at hmem
    cases hmem
  | some edges =>
    rw [hget] at hmem
    exact Or.inr ⟨edges, get?_eq_some_iff.mp hget, hmem⟩

/-- At first the nodes without references wait. -/
theorem sortInv_start (orders : SortOrders ν) (key : ν → κ) (graph : Dict ν (Finset ν)) : SortInv graph key
      ⟨graph, Heapq.heapify (graph.items.foldl (SortIndex.add orders key) ⟨.empty, []⟩).zeroOutdegree, []⟩ := by
  have hheap := zeroOutdegree_foldl orders key graph.items ⟨.empty, []⟩
  rw [List.nil_append] at hheap
  refine ⟨allSteps_nil _, fun n => by simp, ?_, ?_⟩
  · show (graph.items.foldl (SortIndex.add orders key) ⟨.empty, []⟩).zeroOutdegree.Nodup
    rw [hheap]
    have hnodes : ((graph.items.filter fun item => item.2 = ∅).map Prod.fst).Nodup :=
      graph.nodup.sublist (List.filter_sublist.map Prod.fst)
    have hranked := hnodes.map (ranked_injective key)
    rwa [List.map_map] at hranked
  intro item
  show item ∈ (graph.items.foldl (SortIndex.add orders key) ⟨.empty, []⟩).zeroOutdegree ↔ _
  rw [hheap]
  simp only [List.mem_map, List.mem_filter, decide_eq_true_eq]
  constructor
  · rintro ⟨⟨n, edges⟩, ⟨hitem, hempty⟩, rfl⟩
    have hget := get?_eq_some_iff.mpr hitem
    refine ⟨n, ⟨List.mem_toFinset.mpr (mem_keys_iff.mpr ⟨edges, hget⟩), List.not_mem_nil, ?_⟩, rfl⟩
    intro m hm
    rw [references, getD_of_get? hget] at hm
    rw [show edges = ∅ from hempty] at hm
    cases hm
  · rintro ⟨n, ⟨hn, -, hrefs⟩, rfl⟩
    obtain ⟨edges, hget⟩ := mem_keys_iff.mp (List.mem_toFinset.mp hn)
    refine ⟨(n, edges), ⟨get?_eq_some_iff.mp hget, ?_⟩, rfl⟩
    rw [Finset.eq_empty_iff_forall_notMem]
    intro m hm
    rw [references, getD_of_get? hget] at hrefs
    exact absurd (hrefs m hm) List.not_mem_nil

/-- The loop over the heap goes on as long as there is a node available. -/
theorem heapLoop_yields (orders : SortOrders ν) (hreversed : Reversed graph reverseGraph)
    (h : SortInv graph key s) : Run.Yields (Run.loop (SortState.turn orders key reverseGraph) s) fun s' =>
      Greedy graph.keys.toFinset (references graph) (ranked key) s'.yielded ∧
        ∀ n, ¬ Available graph.keys.toFinset (references graph) s'.yielded n := by
  have hwf : WellFounded fun s s' : SortState ν κ =>
      graph.keys.toFinset.card - s.yielded.length < graph.keys.toFinset.card - s'.yielded.length :=
    InvImage.wf (fun s : SortState ν κ => graph.keys.toFinset.card - s.yielded.length) Nat.lt_wfRel.wf
  refine Run.Yields.loop (I := SortInv graph key) hwf (fun s hs => (hs.turn hreversed orders).mono fun o ho => ?_) h
  refine ⟨fun hnone => ⟨hs.greedy, ho.1 hnone⟩, fun s' hs' => ?_⟩
  obtain ⟨hinv, hlength⟩ := ho.2 s' hs'
  refine ⟨hinv, ?_⟩
  -- every node is output once at most, so the number of those that are not decreases
  have hle : s'.yielded.length ≤ graph.keys.toFinset.card := by
    rw [← List.toFinset_card_of_nodup hinv.greedy.nodup]
    exact Finset.card_le_card fun n hn => hinv.greedy.subset n (List.mem_toFinset.mp hn)
  omega

/-- What is yielded is the greedy order, as far as it goes. -/
theorem sort_yields (orders : SortOrders ν) (key : ν → κ) (graph : Dict ν (Finset ν)) :
    Run.Yields (lexicographicalTopologicalSort orders graph key) fun output =>
      Greedy graph.keys.toFinset (references graph) (ranked key) output ∧
        ∀ n, ¬ Available graph.keys.toFinset (references graph) output n := by
  have hloop := heapLoop_yields orders (reversed_foldl orders key graph) (sortInv_start orders key graph)
  exact hloop.bind fun s hs => Run.Yields.pure hs

/-- **The sort.** It lists every node once, each one after what it references and as the least one of which that is
true, whatever the orders are in which dictionaries and sets are iterated. -/
theorem lexicographicalTopologicalSort_spec {graph : Dict ν (Finset ν)} (key : ν → κ)
    (hclosed : ∀ n, ∀ m ∈ references graph n, m ∈ graph.keys)
    (hacyclic : ∀ n, ¬ Relation.TransGen (fun m n => m ∈ references graph n) n n) :
    ∃ output : List ν, (∀ (graph' : Dict ν (Finset ν)) (orders : SortOrders ν), graph'.Agrees graph →
        Run.Returns (lexicographicalTopologicalSort orders graph' key) (.ok output)) ∧
      output.Nodup ∧ (∀ n, n ∈ output ↔ n ∈ graph.keys) ∧
      AllSteps (fun before n => (∀ m ∈ references graph n, m ∈ before) ∧
        ∀ m ∈ graph.keys, m ∉ before → (∀ k ∈ references graph m, k ∈ before) → ranked key n ≤ ranked key m)
        output := by
  obtain ⟨output, -, hgreedy, hend⟩ :=
    sort_yields ⟨fun _ => IterOrder.sorted ν, fun _ => IterOrder.sorted ν⟩ key graph
  have hall : ∀ n ∈ graph.keys, n ∈ output := by
    intro n hn
    exact mem_of_not_available (fun n _ m hm => List.mem_toFinset.mpr (hclosed n m hm)) hacyclic hend
      (List.mem_toFinset.mpr hn)
  refine ⟨output, ?_, hgreedy.nodup, ?_, ?_⟩
  · intro graph' orders hagrees
    obtain ⟨output', hreturns, hgreedy', hend'⟩ := sort_yields orders key graph'
    have hkeys : graph'.keys.toFinset = graph.keys.toFinset := by
      ext n
      rw [List.mem_toFinset, List.mem_toFinset, Dict.mem_keys_iff, Dict.mem_keys_iff, hagrees n]
    have hrefs : references graph' = references graph := by
      funext n
      rw [references, references, Dict.getD, Dict.getD, hagrees n]
    rw [hkeys, hrefs] at hgreedy' hend'
    rw [hgreedy.unique (ranked_injective key) hgreedy' hend hend']
    exact hreturns
  · exact fun n => ⟨fun hn => List.mem_toFinset.mp (hgreedy.subset n hn), hall n⟩
  · intro before n after houtput
    obtain ⟨havailable, hleast⟩ := hgreedy before n after houtput
    refine ⟨havailable.2.2, ?_⟩
    intro m hm hnew hready
    exact hleast m ⟨List.mem_toFinset.mpr hm, hnew, hready⟩

/-- Two nodes that reference a third one. -/
def exampleGraph : Dict ℕ (Finset ℕ) := ⟨[(1, {3}), (2, {3}), (3, ∅)], by decide⟩

theorem references_exampleGraph {n m : ℕ} (h : m ∈ references exampleGraph n) : m = 3 ∧ n < m := by
  have hn := mem_keys_of_references h
  simp only [exampleGraph, Dict.keys, List.map_cons, List.map_nil, List.mem_cons, List.not_mem_nil, or_false] at hn
  rcases hn with rfl | rfl | rfl
  · obtain rfl := Finset.mem_singleton.mp h
    decide
  · obtain rfl := Finset.mem_singleton.mp h
    decide
  · cases h

/-- Its nodes by descending numbers. -/
theorem lexicographicalTopologicalSort_example : ∃ output : List ℕ, output.Nodup ∧
    ∀ n, n ∈ output ↔ n ∈ exampleGraph.keys := by
  have hdescends : ∀ m n, Relation.TransGen (fun m n => m ∈ references exampleGraph n) m n → n < m := by
    intro m n h
    induction h with
    | single h => exact (references_exampleGraph h).2
    | tail _ h ih => exact (references_exampleGraph h).2.trans ih
  have hclosed : ∀ n, ∀ m ∈ references exampleGraph n, m ∈ exampleGraph.keys := by
    intro n m hm
    obtain ⟨rfl, -⟩ := references_exampleGraph hm
    decide
  obtain ⟨output, -, hnodup, hall, -⟩ := lexicographicalTopologicalSort_spec (fun n => OrderDual.toDual n) hclosed
    fun n h => absurd (hdescends n n h) (lt_irrefl n)
  exact ⟨output, hnodup, hall⟩

/-! ## §6 Any graph -/

/-- Every path of references from the node ends, and does not leave the graph. -/
def Grounded (graph : Dict ν (Finset ν)) (n : ν) : Prop :=
  Acc (fun m n => m ∈ references graph n) n ∧
    ∀ m, Relation.ReflTransGen (fun n m => m ∈ references graph n) n m → m ∈ graph.keys

end Setka.State
